import DelayBasedForwarding.Library.FirstMaxima
import DelayBasedForwarding.SendWindow

/-!
# Priority at send time

Both schedulers choose when they arm the timer and send when it fires.  The timer
of the dynamic scheduler is due at once, so its choice is still the best one.
That of the static scheduler may be due later, and a packet of a smaller delta
that has become ready by then is passed over.
-/

namespace DelayBasedForwarding

open FirstMaxima TransitionRuns

/-! ## Sending -/

/-- The step from `s` to `s'` sends a packet. -/
def Sends (s s' : Egress) (sent : SentPacket) : Prop := s'.log.sent = s.log.sent ++ [sent]

/-- No queue of a smaller delta than that of queue `collectionIdx` holds a packet
    that is ready at `t`. -/
def PriorityAt (s : Egress) (collectionIdx : Nat) (t : SimTime) : Prop :=
  ∀ delta, (delta, collectionIdx) ∈ s.registry.deltaQueueMap →
    ∀ entry ∈ s.registry.deltaQueueMap, entry.1 < delta →
      ∀ p ∈ s.queues entry.2, isPacketReadyToSend t p = false

def StrictPriority (s s' : Egress) : Prop :=
  ∀ sent, Sends s s' sent → PriorityAt s sent.collectionIdx sent.time

/-- A packet is sent when the timer that was armed for it fires. -/
theorem Discipline.armed_of_sends {scheduler : Scheduler} {config : EgressConfig}
    (d : Discipline scheduler config) (hcapacity : ∀ q, KeepsOne (config.capacity q))
    {s s' : Egress} {event : EgressEvent} {sent : SentPacket} (h : d.Inv s)
    (hstep : EgressStep scheduler config s event s') (hsent : Sends s s' sent) :
    ∃ msg, event = .timer sent.time msg ∧ msg.collectionIdx = sent.collectionIdx ∧
      d.Armed s msg sent.time sent.stored := by
  obtain ⟨hwell, htimer⟩ := h
  have hlength : s'.log.sent.length = s.log.sent.length + 1 := by
    rw [show s'.log.sent = s.log.sent ++ [sent] from hsent]
    simp
  cases event with
  | push t packet =>
      obtain ⟨_, _, _, _, _, _, rfl, _⟩ := d.step_push hcapacity hwell htimer hstep
      exact absurd hlength (Nat.ne_of_lt (Nat.lt_succ_self _))
  | txIdle t =>
      obtain ⟨_, _, rfl, _⟩ := d.step_txIdle hwell htimer hstep
      exact absurd hlength (Nat.ne_of_lt (Nat.lt_succ_self _))
  | timer t msg =>
      obtain ⟨p, out, harmed, _, rfl⟩ := d.step_timer hwell htimer hstep
      have hsame : [(⟨t, msg.collectionIdx, p, out⟩ : SentPacket)] = [sent] :=
        List.append_cancel_left hsent
      cases hsame
      exact ⟨msg, rfl, rfl, harmed⟩

/-! ## The static scheduler -/

namespace DBFPriorityScheduler

/-- Of the packets `W` at time `t`: one is ready, or one of the largest delta is
    ready strictly before all packets of smaller deltas. -/
def LargestIsFirst (par : ClassifierParameters) (t : SimTime) (W : Packet → Prop) : Prop :=
  (∃ p, W p ∧ isPacketReadyToSend t p = true) ∨
  ∃ p, W p ∧ ∀ p', W p' → ∀ delta delta', packetDelta par p = some delta →
    packetDelta par p' = some delta' →
    delta' ≤ delta ∧ (delta' < delta → readyAt t p < readyAt t p')

/-- The condition on a step: of the packets stored when a timer fires, at the time
    of the event before it. -/
def PriorityCondition (par : ClassifierParameters) (s : Egress) : EgressEvent → Prop
  | .push _ _ => True
  | .txIdle _ => True
  | .timer _ _ => LargestIsFirst par s.now fun p => ∃ q, p ∈ s.queues q

variable {par : ClassifierParameters} {s : Egress} {msg : DBFPriorityScheduleMsg} {T : SimTime}
  {front : Packet}

/-- The queues of smaller deltas hold the packets of smaller deltas. -/
theorem priorityAt_iff (h : WellFormed par s) (hfront : front ∈ s.queues msg.collectionIdx)
    {delta : SimTime} (hdelta : packetDelta par front = some delta) :
    PriorityAt s msg.collectionIdx T ↔
      ∀ q, ∀ p ∈ s.queues q, ∀ delta', packetDelta par p = some delta' → delta' < delta →
        isPacketReadyToSend T p = false := by
  have hentry := h.entry_of_delta hfront hdelta
  constructor
  · intro hpriority q p hp delta' hdelta' hlt
    exact hpriority delta hentry (delta', q) (h.entry_of_delta hp hdelta') hlt p hp
  · rintro hsmaller d hentry' ⟨delta', q⟩ hq hlt p hp
    obtain rfl : d = delta := h.coherent.delta_unique hentry' hentry
    obtain ⟨e, he, hqueue⟩ := h.classified q p hp
    obtain rfl : e = delta' := h.coherent.delta_unique hqueue hq
    exact hsmaller q p hp e he hlt

/-- When the armed timer fires. -/
theorem priorityAt_armed_iff (h : WellFormed par s) (harmed : Armed s msg T front) :
    PriorityAt s msg.collectionIdx T ↔
      LargestIsFirst par s.now fun p => ∃ q, p ∈ s.queues q := by
  have hstored := harmed.stored
  obtain ⟨delta, hdelta, hreason⟩ := harmed.reason h
  rw [priorityAt_iff h hstored hdelta]
  cases hreason with
  | ready htime hready hsmaller =>
      constructor
      · intro _
        left
        exact ⟨front, ⟨_, hstored⟩, hready⟩
      · intro _
        rw [htime]
        exact hsmaller
  | waiting htime hunready hlargest =>
      have hlate : s.now ≤ T := by
        rw [htime]
        exact le_readyAt
      simp only [← Bool.not_eq_true, isPacketReadyToSend_iff_readyAt hlate, not_le]
      constructor
      · intro hfirst
        right
        refine ⟨front, ⟨_, hstored⟩, ?_⟩
        rintro p' ⟨q, hp'⟩ d delta' hd hdelta'
        cases hd.symm.trans hdelta
        constructor
        · exact (hlargest q p' hp' delta' hdelta').1
        · intro hlt
          rw [← htime]
          exact hfirst q p' hp' delta' hdelta' hlt
      · intro hcondition q p hp delta' hdelta' hlt
        rcases hcondition with ⟨p', ⟨b, hp'⟩, hready⟩ | ⟨p', ⟨b, hp'⟩, hfirst⟩
        · cases hready.symm.trans (hunready b p' hp')
        · obtain ⟨e, he, _⟩ := h.classified b p' hp'
          have hle : delta ≤ e := (hfirst front ⟨_, hstored⟩ e delta he hdelta).1
          obtain ⟨rfl, hearliest⟩ := le_readyAt_of_largest hlargest hp' he hle
          calc T ≤ readyAt s.now p' := hearliest
            _ < readyAt s.now p := (hfirst p ⟨q, hp⟩ e delta' he hdelta').2 hlt

section

variable {config : EgressConfig} {s' : Egress} {event : EgressEvent}

theorem strictPriority_step_iff (hunlimited : Unlimited config)
    (hinv : (discipline config hunlimited.keepsOne).Inv s)
    (hstep : EgressStep dbfPriorityScheduler config s event s') :
    StrictPriority s s' ↔ PriorityCondition config.classifier s event := by
  let d := discipline config hunlimited.keepsOne
  have hsilent : (∀ t msg, event ≠ .timer t msg) → StrictPriority s s' := by
    intro hevent sent hsent
    obtain ⟨msg, htimer, _⟩ := d.armed_of_sends hunlimited.keepsOne hinv hstep hsent
    exact absurd htimer (hevent _ _)
  cases event with
  | push t packet =>
      constructor
      · intro _
        trivial
      · intro _
        apply hsilent
        rintro _ _ ⟨⟩
  | txIdle t =>
      constructor
      · intro _
        trivial
      · intro _
        apply hsilent
        rintro _ _ ⟨⟩
  | timer t msg =>
      obtain ⟨p, out, harmed, _, hfired⟩ := d.step_timer hinv.1 hinv.2 hstep
      have hsends : Sends s s' ⟨t, msg.collectionIdx, p, out⟩ := by
        rw [hfired]
        rfl
      have hiff := priorityAt_armed_iff hinv.1 harmed
      constructor
      · intro hstrict
        apply hiff.mp
        exact hstrict _ hsends
      · intro hcondition sent hsent
        obtain ⟨msg', hevent, hindex, _⟩ :=
          d.armed_of_sends hunlimited.keepsOne hinv hstep hsent
        cases hevent
        rw [← hindex]
        exact hiff.mpr hcondition

end

/-- **Strict priority of the static scheduler.**  In a run, a step keeps strict
    priority exactly when it is no timer that fires, or of the packets stored then
    one was ready at the event before, or one of the largest delta becomes ready
    strictly before all packets of smaller deltas. -/
theorem static_priority_iff (config : EgressConfig) (hunlimited : Unlimited config) (count : Nat)
    (history : List (Transition Egress EgressEvent)) (s : Egress)
    (hrun : EgressRun dbfPriorityScheduler config count history s) :
    ∀ x ∈ history,
      StrictPriority x.pre x.post ↔ PriorityCondition config.classifier x.pre x.event := by
  intro x hx
  let d := discipline config hunlimited.keepsOne
  have hinv : d.Inv x.pre := ((d.inv_run hunlimited.keepsOne hrun).2 x hx).1
  exact strictPriority_step_iff hunlimited hinv (hrun.step_of_mem x hx)

/-! The timer is armed at time 0 for the packet of delta 5, and when it fires at
time 3, the packet of delta 3 has been ready since time 1. -/

/-- The packet the step sends leaves a ready one of queue `q`, of a smaller delta. -/
def Overtakes (q : QueueId) (s s' : Egress) : Bool :=
  s'.log.sent.any fun sent =>
    s'.log.sent == s.log.sent ++ [sent] &&
    s.registry.deltaQueueMap.any fun chosen =>
      chosen.2 == sent.collectionIdx &&
      s.registry.deltaQueueMap.any fun entry =>
        entry.2 == q && decide (entry.1 < chosen.1) &&
        (s.queues q).any (isPacketReadyToSend sent.time)

theorem not_strictPriority {q : QueueId} {s' : Egress} (h : Overtakes q s s' = true) :
    ¬ StrictPriority s s' := by
  simp only [Overtakes, List.any_eq_true, Bool.and_eq_true, beq_iff_eq, decide_eq_true_eq] at h
  obtain ⟨sent, _, hsent, ⟨delta, index⟩, hchosen, rfl, entry, hentry, ⟨rfl, hlt⟩, p, hp,
    hready⟩ := h
  intro hstrict
  have hnot := hstrict sent hsent delta hchosen entry hentry hlt p hp
  rw [hready] at hnot
  cases hnot

theorem exists_overtaking_run : ∃ history s s',
    EgressRun dbfPriorityScheduler sampleConfig 0 (history ++ [⟨s, .timer 3 ⟨1, 1⟩, s'⟩]) s' ∧
    history.map Transition.event =
      [.txIdle 0, .push 0 (samplePacket 0 1 4), .push 0 (samplePacket 0 3 8)] ∧
    Overtakes 0 s s' = true :=
  Run.exists_last_of_replay (egressStep_of_next dbfPriorityScheduler sampleConfig)
    (by decide +kernel)

/-- Such a step, and one before which the packet of delta 2 is ready when the timer is
    armed. -/
theorem static_priority_sample :
    (∃ history s s',
      EgressRun dbfPriorityScheduler sampleConfig 0 (history ++ [⟨s, .timer 3 ⟨1, 1⟩, s'⟩]) s' ∧
      ¬ PriorityCondition sampleConfig.classifier s (.timer 3 ⟨1, 1⟩)) ∧
    ∃ history s s',
      EgressRun dbfPriorityScheduler sampleConfig 0 (history ++ [⟨s, .timer 2 ⟨0, 0⟩, s'⟩]) s' ∧
      s'.log.sent.length = 1 ∧ StrictPriority s s' := by
  constructor
  · obtain ⟨history, s, s', hrun, _, hovertakes⟩ := exists_overtaking_run
    refine ⟨history, s, s', hrun, ?_⟩
    intro hcondition
    apply not_strictPriority hovertakes
    exact (static_priority_iff sampleConfig unlimited_sampleConfig 0 _ s' hrun
      ⟨s, .timer 3 ⟨1, 1⟩, s'⟩ (by simp)).mpr hcondition
  · obtain ⟨history, s, s', hrun, _, hlast⟩ := Run.exists_last_of_replay
      (egressStep_of_next dbfPriorityScheduler sampleConfig)
      (show (replay (egressNext dbfPriorityScheduler sampleConfig) (Egress.initial 0)
        [.push 0 (samplePacket 0 1 3), .push 0 (samplePacket 0 2 8), .txIdle 2]).any
        (fun s => (egressNext dbfPriorityScheduler sampleConfig s (.timer 2 ⟨0, 0⟩)).any fun s' =>
          s'.log.sent.length == 1 && (s.queues 0).any (isPacketReadyToSend s.now)) = true by
        decide +kernel)
    simp only [Bool.and_eq_true, beq_iff_eq, List.any_eq_true] at hlast
    obtain ⟨hsent, p, hp, hready⟩ := hlast
    refine ⟨history, s, s', hrun, hsent, ?_⟩
    exact (static_priority_iff sampleConfig unlimited_sampleConfig 0 _ s' hrun
      ⟨s, .timer 2 ⟨0, 0⟩, s'⟩ (by simp)).mpr (.inl ⟨p, ⟨0, hp⟩, hready⟩)

theorem static_priority_fails : ∃ history s s',
    EgressRun dbfPriorityScheduler sampleConfig 0 (history ++ [⟨s, .timer 3 ⟨1, 1⟩, s'⟩]) s' ∧
    history.map Transition.event =
      [.txIdle 0, .push 0 (samplePacket 0 1 4), .push 0 (samplePacket 0 3 8)] ∧
    ¬ StrictPriority s s' := by
  obtain ⟨history, s, s', hrun, hevents, hovertakes⟩ := exists_overtaking_run
  exact ⟨history, s, s', hrun, hevents, not_strictPriority hovertakes⟩

end DBFPriorityScheduler

/-! ## The dynamic scheduler -/

namespace DBFDynamicPriorityScheduler

/-- Of the ready packets of its queue, the packet is the first most urgent one. -/
def MostUrgent (s : Egress) (sent : SentPacket) : Prop :=
  ∃ before behind, s.queues sent.collectionIdx = before ++ sent.stored :: behind ∧
    (∀ p ∈ before, isPacketReadyToSend sent.time p = true →
      urgency sent.time p < urgency sent.time sent.stored) ∧
    ∀ p ∈ behind, isPacketReadyToSend sent.time p = true →
      urgency sent.time p ≤ urgency sent.time sent.stored

variable {par : ClassifierParameters} {s : Egress} {index : Nat} {p : Packet}

theorem Chosen.priorityAt (h : WellFormed par s) (hchosen : Chosen s index p) :
    PriorityAt s index s.now := by
  obtain ⟨delta, hentry, _, hsmaller⟩ := hchosen
  intro delta' hentry' entry hmem hlt p hp
  obtain rfl : delta' = delta := h.coherent.delta_unique hentry' hentry
  have hnone := hsmaller entry hmem hlt
  simpa using List.filter_eq_nil_iff.mp hnone p hp

/-- **The dynamic choice.**  In every run, on queues that are unlimited or hold at
    least one packet, a packet that is sent is ready, no queue of a smaller delta
    holds a ready packet, and of the ready packets of its own queue it is the first
    most urgent one: a DBF packet before a best-effort packet, then by the elapsed
    part of the window. -/
theorem dynamic_choice_at_send (config : EgressConfig)
    (hcapacity : ∀ q, KeepsOne (config.capacity q)) (count : Nat)
    (history : List (Transition Egress EgressEvent)) (s : Egress)
    (hrun : EgressRun dbfDynamicPriorityScheduler config count history s) :
    ∀ x ∈ history, ∀ sent, Sends x.pre x.post sent →
      isPacketReadyToSend sent.time sent.stored = true ∧
      (∃ delta, (delta, sent.collectionIdx) ∈ x.pre.registry.deltaQueueMap) ∧
      PriorityAt x.pre sent.collectionIdx sent.time ∧ MostUrgent x.pre sent := by
  intro x hx sent hsent
  let d := discipline config hcapacity
  have hinv : d.Inv x.pre := ((d.inv_run hcapacity hrun).2 x hx).1
  obtain ⟨msg, _, hindex, harmed⟩ :=
    d.armed_of_sends hcapacity hinv (hrun.step_of_mem x hx) hsent
  have htime : sent.time = x.pre.now := Armed.time harmed
  have hchosen := Armed.chosen harmed
  rw [hindex] at hchosen
  obtain ⟨delta, hentry, hargmax, _⟩ := id hchosen
  refine ⟨?_, ⟨delta, hentry⟩, ?_, ?_⟩
  · rw [htime]
    exact hchosen.mem.2
  · rw [htime]
    exact hchosen.priorityAt hinv.1
  · unfold MostUrgent
    rw [htime]
    exact exists_split_of_argmax hargmax

/-! Two packets of delta 8 are ready when the link becomes idle.  The second one has
the narrower window, most of which has elapsed. -/

theorem dynamic_choice_at_send_sample : ∃ s s' sent,
    Sends s s' sent ∧ sent.stored.id = 1 ∧ MostUrgent s sent := by
  obtain ⟨history, s, s', hrun, _, hlast⟩ := Run.exists_last_of_replay
    (egressStep_of_next dbfDynamicPriorityScheduler sampleConfig)
    (show (replay (egressNext dbfDynamicPriorityScheduler sampleConfig) (Egress.initial 0)
      [.push 0 (samplePacket 0 1 9), .push 0 (samplePacket 0 (3 / 2) (35 / 4)),
        .txIdle (17 / 2)]).any
      (fun s => (egressNext dbfDynamicPriorityScheduler sampleConfig s
        (.timer (17 / 2) ⟨0, 0⟩)).any fun s' => s'.log.sent.any fun sent =>
          s'.log.sent == s.log.sent ++ [sent] && sent.stored.id == 1) = true by decide +kernel)
  simp only [List.any_eq_true, Bool.and_eq_true, beq_iff_eq] at hlast
  obtain ⟨sent, _, hsent, hid⟩ := hlast
  obtain ⟨_, _, _, hurgent⟩ := dynamic_choice_at_send sampleConfig
    unlimited_sampleConfig.keepsOne 0 _ s' hrun ⟨s, .timer (17 / 2) ⟨0, 0⟩, s'⟩ (by simp)
    sent hsent
  exact ⟨s, s', sent, hsent, hid, hurgent⟩

end DBFDynamicPriorityScheduler

end DelayBasedForwarding
