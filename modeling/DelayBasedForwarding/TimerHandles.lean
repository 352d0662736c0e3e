import DelayBasedForwarding.SendWindow

/-!
# The pointers to the timer and to the packet it sends

`selfMsg` has to be null or to point to the one pending message whenever it is
used.  The static scheduler deletes the message when the front packet of the armed
queue has expired and keeps the pointer.  The armed packet itself does not expire
before the timer fires, so this takes a packet that arrives expired and is
inserted in front of it.  The dynamic scheduler tests the packet it has armed the
timer for, and never deletes the message this way.
-/

namespace DelayBasedForwarding

open TransitionRuns

/-! ## The static scheduler -/

namespace DBFPriorityScheduler

/-- `selfMsg` is null or points to the one pending timer, and so it did whenever
    it was used. -/
def HandleSafe (s : Egress) : Prop :=
  s.timer.danglingUse = false ∧
  ((s.timer.selfMsg = none ∧ s.timer.events = []) ∨
    ∃ msg T, s.timer.selfMsg = some msg ∧ s.timer.events = [(msg, T)])

/-- An expired packet of the delta of the armed queue arrives, and goes in front
    of all packets in that queue. -/
def ExpiredInFront (par : ClassifierParameters) (s : Egress) : EgressEvent → Prop
  | .push t packet => ∃ msg delta, s.timer.selfMsg = some msg ∧
      packetDelta par packet = some delta ∧
      (delta, msg.collectionIdx) ∈ s.registry.deltaQueueMap ∧
      packetExpired t packet = true ∧
      ∀ stored ∈ s.queues msg.collectionIdx, comparePackets t packet stored < 0
  | .txIdle _ => False
  | .timer _ _ => False

section

variable {config : EgressConfig} {s s' : Egress} {msg : DBFPriorityScheduleMsg}
  {T t : SimTime} {front packet : Packet} {event : EgressEvent}
  (hunlimited : Unlimited config)

include hunlimited

theorem head?_pushed (t : SimTime) (packet : Packet)
    (registry : Registry) {q : QueueId} {rest : List Packet} (hqueue : s.queues q = front :: rest) :
    ((s.pushed config t packet registry q).queues q).head? =
      some (if ∀ stored ∈ s.queues q, comparePackets t packet stored < 0 then
        { packet with id := s.nextPacket } else front) := by
  rw [queues_pushed_self, hunlimited q, pushPacket_unlimited]
  unfold insertPacket
  rw [hqueue, BackInsertion.head?_insertBack]
  simp only [List.all_eq_true, decide_eq_true_eq]
  rfl

theorem armedFrontExpired_pushed_iff (h : WellFormed config.classifier s)
    (harmed : Armed s msg T front) (henabled : Enabled s (.push t packet)) {delta : SimTime}
    {q : QueueId} {registry : Registry} (hdelta : packetDelta config.classifier packet = some delta)
    (hclass : Registry.Classified s.registry delta q registry) :
    ArmedFrontExpired (s.pushed config t packet registry q) ↔
      ExpiredInFront config.classifier s (.push t packet) := by
  obtain ⟨rest, hqueue⟩ := harmed.queue
  obtain ⟨delta', hdelta', hentry'⟩ := h.classified _ front harmed.stored
  have htime : t ≤ T := henabled.2.1 (msg, T) (by simp [harmed.events])
  have hunexpired : packetExpired t front = false := unexpired_mono htime (harmed.unexpired_at h)
  constructor
  · rintro ⟨m, first, others, hself, hfirst, hexpired⟩
    obtain rfl : msg = m := Option.some.inj (harmed.selfMsg.symm.trans hself)
    have hexpired : packetExpired t first = true := hexpired
    by_cases hq : msg.collectionIdx = q
    · subst hq
      have hhead := head?_pushed hunlimited t packet registry hqueue
      rw [hfirst, List.head?_cons, Option.some.injEq] at hhead
      by_cases hbefore : ∀ stored ∈ s.queues msg.collectionIdx, comparePackets t packet stored < 0
      · rw [if_pos hbefore] at hhead
        subst hhead
        obtain rfl : delta = delta' :=
          hclass.coherent.delta_unique hclass.entry (hclass.kept hentry')
        exact ⟨msg, delta, harmed.selfMsg, hdelta, hentry', hexpired, hbefore⟩
      · rw [if_neg hbefore] at hhead
        subst hhead
        cases hunexpired.symm.trans hexpired
    · rw [queues_pushed_of_ne hq, hqueue] at hfirst
      cases hfirst
      cases hunexpired.symm.trans hexpired
  · rintro ⟨m, d, hself, hd, hentry, hexpired, hbefore⟩
    obtain rfl : msg = m := Option.some.inj (harmed.selfMsg.symm.trans hself)
    obtain rfl : delta = d := Option.some.inj (hdelta.symm.trans hd)
    obtain rfl : msg.collectionIdx = q :=
      hclass.coherent.index_unique (hclass.kept hentry) hclass.entry
    have hhead := head?_pushed hunlimited t packet registry hqueue
    rw [if_pos hbefore] at hhead
    obtain ⟨others, hothers⟩ := List.head?_eq_some_iff.mp hhead
    exact ⟨msg, _, others, harmed.selfMsg, hothers, hexpired⟩

/-- Between events, only an earlier use can have been unsafe. -/
theorem handleSafe_iff (hinv : (discipline config hunlimited.keepsOne).Inv s) :
    HandleSafe s ↔ ¬ s.timer.danglingUse = true := by
  obtain ⟨_, htimer⟩ := hinv
  rw [Bool.not_eq_true]
  constructor
  · intro hsafe
    exact hsafe.1
  · intro hdangling
    refine ⟨hdangling, ?_⟩
    rcases htimer with hnone | ⟨msg, T, p, harmed⟩
    · exact .inl hnone
    · exact .inr ⟨msg, T, Armed.selfMsg harmed, Armed.events harmed⟩

/-- A step keeps the handle safe exactly when it brings no expired packet in front. -/
theorem handleSafe_step_iff (hinv : (discipline config hunlimited.keepsOne).Inv s)
    (hsafe : HandleSafe s) (hstep : EgressStep dbfPriorityScheduler config s event s') :
    HandleSafe s' ↔ ¬ ExpiredInFront config.classifier s event := by
  let d := discipline config hunlimited.keepsOne
  rw [handleSafe_iff hunlimited (d.inv_step hunlimited.keepsOne s event s' hinv hstep)]
  apply not_congr
  obtain ⟨hwell, htimer⟩ := hinv
  cases event with
  | push t packet =>
      obtain ⟨delta, q, registry, timer, hdelta, hclass, rfl, hnotified⟩ :=
        d.step_push hunlimited.keepsOne hwell htimer hstep
      rw [timer_swept, Notified.dangling hnotified hsafe.1]
      rcases htimer with ⟨hself, _⟩ | ⟨msg, T, front, harmed⟩
      · constructor
        · intro hexpired
          exact absurd hexpired (not_armedFrontExpired hself)
        · rintro ⟨msg, _, hsome, _⟩
          cases hsome.symm.trans hself
      · exact armedFrontExpired_pushed_iff hunlimited hwell harmed hstep.1 hdelta hclass
  | txIdle t =>
      obtain ⟨hidle, timer, rfl, hnotified⟩ := d.step_txIdle hwell htimer hstep
      rw [timer_swept, Notified.dangling hnotified hsafe.1]
      constructor
      · intro hexpired
        rcases htimer with ⟨hself, _⟩ | ⟨_, _, _, harmed⟩
        · exact absurd hexpired (not_armedFrontExpired hself)
        · cases (Armed.idle harmed).symm.trans hidle
      · intro hfalse
        cases hfalse
  | timer t msg =>
      obtain ⟨p, out, _, _, rfl⟩ := d.step_timer hwell htimer hstep
      constructor
      · intro hdangling
        cases hsafe.1.symm.trans hdangling
      · intro hfalse
        cases hfalse

end

/-- **The timer pointer of the static scheduler.**  In a run on queues without
    limits, `selfMsg` is null or points to the one pending timer in all states and
    at all uses exactly when no push brings an expired packet to the front of the
    armed queue. -/
theorem static_handle_iff (config : EgressConfig) (hunlimited : Unlimited config) (count : Nat)
    (history : List (Transition Egress EgressEvent)) (s : Egress)
    (hrun : EgressRun dbfPriorityScheduler config count history s) :
    (∀ x ∈ history, HandleSafe x.post) ↔
      ∀ x ∈ history, ¬ ExpiredInFront config.classifier x.pre x.event := by
  let d := discipline config hunlimited.keepsOne
  have hstart : HandleSafe (Egress.initial count) := ⟨rfl, .inl ⟨rfl, rfl⟩⟩
  apply hrun.forall_iff (I := d.Inv) (P := HandleSafe)
    (C := fun s event => ¬ ExpiredInFront config.classifier s event) (d.inv_initial count) hstart
  · exact d.inv_step hunlimited.keepsOne
  · intro s event s' hinv hsafe hstep
    exact handleSafe_step_iff hunlimited hinv hsafe hstep

/-! The timer is armed for time 5; a packet of the same delta that has expired at
time 4 is pushed at 9/2. -/

theorem exists_dangling_run : ∃ history s,
    EgressRun dbfPriorityScheduler sampleConfig 0 history s ∧
    history.map Transition.event =
      [.txIdle 0, .push 0 (samplePacket 0 5 8), .push (9 / 2) (samplePacket 0 1 4)] ∧
    s.timer.danglingUse = true :=
  Run.exists_of_replay (egressStep_of_next dbfPriorityScheduler sampleConfig)
    (show (replay (egressNext dbfPriorityScheduler sampleConfig) (Egress.initial 0)
      [.txIdle 0, .push 0 (samplePacket 0 5 8), .push (9 / 2) (samplePacket 0 1 4)]).any
      (fun s => s.timer.danglingUse) = true by decide +kernel)

/-- What arrives has not expired. -/
def ArrivesInTime : EgressEvent → Prop
  | .push t packet => packetExpired t packet = false
  | .txIdle _ => True
  | .timer _ _ => True

instance : DecidablePred ArrivesInTime
  | .push _ _ => inferInstanceAs (Decidable (_ = false))
  | .txIdle _ => inferInstanceAs (Decidable True)
  | .timer _ _ => inferInstanceAs (Decidable True)

theorem ArrivesInTime.not_expiredInFront {par : ClassifierParameters} {s : Egress}
    {event : EgressEvent} (h : ArrivesInTime event) : ¬ ExpiredInFront par s event := by
  cases event with
  | push t packet =>
      rintro ⟨_, _, _, _, _, hexpired, _⟩
      cases (show packetExpired t packet = false from h).symm.trans hexpired
  | txIdle t => exact id
  | timer t msg => exact id

/-- Such a run, and one in which the second packet arrives in time. -/
theorem static_handle_sample :
    (∃ history s, EgressRun dbfPriorityScheduler sampleConfig 0 history s ∧
      ¬ ∀ x ∈ history, ¬ ExpiredInFront sampleConfig.classifier x.pre x.event) ∧
    ∃ history s, EgressRun dbfPriorityScheduler sampleConfig 0 history s ∧
      s.timer.events.length = 1 ∧ ∀ x ∈ history, HandleSafe x.post := by
  constructor
  · obtain ⟨history, s, hrun, _, hdangling⟩ := exists_dangling_run
    refine ⟨history, s, hrun, ?_⟩
    intro hcondition
    have hsafe := (static_handle_iff sampleConfig unlimited_sampleConfig 0 history s hrun).mpr
      hcondition
    have hlast : HandleSafe s := hrun.forall_post ⟨rfl, .inl ⟨rfl, rfl⟩⟩ hsafe
    cases hlast.1.symm.trans hdangling
  · obtain ⟨history, s, hrun, hintime, _, htimers⟩ := Run.exists_of_guarded_replay
      (egressStep_of_next dbfPriorityScheduler sampleConfig)
      (show (replay (fun s event => if ArrivesInTime event then
          egressNext dbfPriorityScheduler sampleConfig s event else none) (Egress.initial 0)
        [.txIdle 0, .push 0 (samplePacket 0 5 8), .push (9 / 2) (samplePacket 0 2 5)]).any
        (fun s => s.timer.events.length == 1) = true by decide +kernel)
    refine ⟨history, s, hrun, by simpa using htimers, ?_⟩
    refine (static_handle_iff sampleConfig unlimited_sampleConfig 0 history s hrun).mpr ?_
    exact fun x hx => (hintime x hx).not_expiredInFront

theorem static_handle_fails : ∃ history s,
    EgressRun dbfPriorityScheduler sampleConfig 0 history s ∧
    history.map Transition.event =
      [.txIdle 0, .push 0 (samplePacket 0 5 8), .push (9 / 2) (samplePacket 0 1 4)] ∧
    ¬ HandleSafe s := by
  obtain ⟨history, s, hrun, hevents, hdangling⟩ := exists_dangling_run
  refine ⟨history, s, hrun, hevents, ?_⟩
  intro hsafe
  cases hsafe.1.symm.trans hdangling

end DBFPriorityScheduler

/-! ## The dynamic scheduler -/

namespace DBFDynamicPriorityScheduler

/-- No timer was cancelled for an expired packet, and none used after its deletion. -/
def Untouched (s : Egress) : Prop :=
  s.timer.expiryCancels = 0 ∧ s.timer.danglingUse = false

variable {config : EgressConfig} {s s' : Egress} {event : EgressEvent}

theorem Notified.untouched {timer : Timer} (hnotified : Notified s timer) (h : Untouched s) :
    Untouched (s.swept timer) := by
  constructor
  · rw [timer_swept, hnotified.cancels]
    exact h.1
  · rw [timer_swept, hnotified.dangling]
    exact h.2

theorem untouched_step (hcapacity : ∀ q, KeepsOne (config.capacity q))
    (hinv : (discipline config hcapacity).Inv s) (h : Untouched s)
    (hstep : EgressStep dbfDynamicPriorityScheduler config s event s') : Untouched s' := by
  let d := discipline config hcapacity
  obtain ⟨hwell, htimer⟩ := hinv
  cases event with
  | push t packet =>
      obtain ⟨_, _, _, timer, _, _, rfl, hnotified⟩ := d.step_push hcapacity hwell htimer hstep
      exact Notified.untouched hnotified h
  | txIdle t =>
      obtain ⟨_, timer, rfl, hnotified⟩ := d.step_txIdle hwell htimer hstep
      exact Notified.untouched hnotified h
  | timer t msg =>
      obtain ⟨_, _, _, _, rfl⟩ := d.step_timer hwell htimer hstep
      exact h

/-- **The pointers of the dynamic scheduler.**  In every state of a run, on queues
    that are unlimited or hold at least one packet:

    * `selfMsg` is null exactly when no timer is pending;
    * otherwise `txIdleCounter` is 1, the timer is due now, and `scheduledPacket`
      is a ready and unexpired packet of the queue the timer was armed for;
    * no timer was cancelled for an expired packet, and none used after it was
      deleted;
    * no event leads to a message that is scheduled twice, the removal of a packet
      that is not queued, or the use of a null pointer or an index out of range. -/
theorem dynamic_handle_safety (config : EgressConfig)
    (hcapacity : ∀ q, KeepsOne (config.capacity q)) (count : Nat)
    (history : List (Transition Egress EgressEvent)) (s : Egress)
    (hrun : EgressRun dbfDynamicPriorityScheduler config count history s) :
    (s.timer.selfMsg = none ↔ s.timer.events = []) ∧
    (∀ msg, s.timer.selfMsg = some msg →
      s.txIdleCounter = 1 ∧ s.timer.events = [(msg, s.now)] ∧
      ∃ p collection, s.timer.scheduledPacket = some p ∧
        s.registry.collections[msg.collectionIdx]? = some collection ∧
        p ∈ s.queues collection ∧ isPacketReadyToSend s.now p = true ∧
        packetExpired s.now p = false) ∧
    s.timer.expiryCancels = 0 ∧ s.timer.danglingUse = false ∧
    (∀ event error, Enabled s event → Admissible event →
      dbfDynamicPriorityScheduler.handle config s event = .error error →
      error ≠ .alreadyScheduled ∧ error ≠ .packetNotQueued ∧ error ≠ .nullPacket ∧
        error ≠ .indexOutOfRange) := by
  let d := discipline config hcapacity
  have hstart : Untouched (Egress.initial count) := ⟨rfl, rfl⟩
  obtain ⟨hinv, huntouched⟩ := d.run_invariant hcapacity hstart
    (fun s event s' hinv h hstep => untouched_step hcapacity hinv h hstep) hrun
  obtain ⟨hwell, htimer⟩ := hinv
  have harmed_of : ∀ msg, s.timer.selfMsg = some msg → ∃ T p, Armed s msg T p := by
    intro msg hself
    rcases htimer with ⟨hnone, _⟩ | ⟨msg', T, p, harmed⟩
    · cases hself.symm.trans hnone
    · cases hself.symm.trans (Armed.selfMsg harmed)
      exact ⟨T, p, harmed⟩
  refine ⟨?_, ?_, huntouched.1, huntouched.2, ?_⟩
  · rcases htimer with ⟨hself, hevents⟩ | ⟨msg, T, p, harmed⟩
    · simp [hself, hevents]
    · simp [Armed.selfMsg harmed, Armed.events harmed]
  · intro msg hself
    obtain ⟨T, p, harmed⟩ := harmed_of msg hself
    obtain ⟨hmem, hready⟩ := harmed.chosen.mem
    refine ⟨harmed.idle, ?_, p, msg.collectionIdx, harmed.scheduled, hwell.collection hmem, hmem,
      hready, harmed.unexpired⟩
    rw [harmed.events, harmed.time]
  · intro event error henabled hadmissible herror
    cases d.tolerated hcapacity hwell htimer henabled hadmissible herror <;> simp

theorem dynamic_handle_safety_sample : ∃ s : Egress, ∃ msg p,
    s.timer.events = [(msg, s.now)] ∧ s.timer.scheduledPacket = some p := by
  obtain ⟨history, s, hrun, _, hsome⟩ := Run.exists_of_replay
    (egressStep_of_next dbfDynamicPriorityScheduler sampleConfig)
    (show (replay (egressNext dbfDynamicPriorityScheduler sampleConfig) (Egress.initial 0)
      [.txIdle 0, .push 0 (samplePacket 0 0 3)]).any (fun s => s.timer.selfMsg.isSome) = true by
        decide +kernel)
  obtain ⟨msg, hself⟩ := Option.isSome_iff_exists.mp hsome
  obtain ⟨_, hpending, _⟩ := dynamic_handle_safety sampleConfig unlimited_sampleConfig.keepsOne 0
    history s hrun
  obtain ⟨_, hevents, p, _, hscheduled, _⟩ := hpending msg hself
  exact ⟨s, msg, p, hevents, hscheduled⟩

end DBFDynamicPriorityScheduler

end DelayBasedForwarding
