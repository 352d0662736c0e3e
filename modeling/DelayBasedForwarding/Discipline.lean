import DelayBasedForwarding.TimerLemmas

/-!
# What a scheduler has to show

Both schedulers keep at most one timer, armed for one packet, and renew it at
every notification.  `Discipline` lists what this takes: an invariant of the
armed timer, what a notification may rely on and what it achieves, and that a
timer that fires sends the packet it was armed for.  The effects of all steps,
the errors they can end in and the invariant of runs follow once for both.
-/

namespace DelayBasedForwarding

open FoldInvariant TransitionRuns

structure Discipline (scheduler : Scheduler) (config : EgressConfig) where
  Armed : Egress → DBFPriorityScheduleMsg → SimTime → Packet → Prop
  Notifiable : Egress → Prop
  Notified : Egress → Timer → Prop
  disarm : Timer → Timer
  disarm_ok : ∀ timer, (disarm timer).selfMsg = none ∧ (disarm timer).events = []
  selfMsg : ∀ {s msg T p}, Armed s msg T p → s.timer.selfMsg = some msg
  events : ∀ {s msg T p}, Armed s msg T p → s.timer.events = [(msg, T)]
  idle : ∀ {s msg T p}, Armed s msg T p → s.txIdleCounter = 1
  stored : ∀ {s msg T p}, Armed s msg T p → p ∈ s.queues msg.collectionIdx
  ready : ∀ {s msg T p}, Armed s msg T p → isPacketReadyToSend T p = true
  unexpired : ∀ {s msg T p}, WellFormed config.classifier s → Armed s msg T p →
    packetExpired T p = false
  disarmed : ∀ {s : Egress}, s.timer.selfMsg = none → s.timer.events = [] → Notifiable s
  pushed : ∀ {s msg T p t packet delta q registry}, WellFormed config.classifier s →
    Armed s msg T p → Enabled s (.push t packet) → Admissible (.push t packet) →
    packetDelta config.classifier packet = some delta →
    Registry.Classified s.registry delta q registry →
    Notifiable (s.pushed config t packet registry q)
  sweeps : ∀ {s}, WellFormed config.classifier s → Notifiable s →
    ∃ timer, scheduler.lookForExpiredPackets s = .ok (s.swept timer)
  notifies : ∀ {s}, WellFormed config.classifier s → Notifiable s →
    ∃ timer, scheduler.handleCanPopPacket s = .ok (s.swept timer) ∧ Notified s timer
  rearmed : ∀ {s timer}, Notified s timer →
    (timer.selfMsg = none ∧ timer.events = []) ∨ ∃ msg T p, Armed (s.swept timer) msg T p
  fires : ∀ {s msg T p}, WellFormed config.classifier s → Armed s msg T p → ∀ t,
    scheduler.handle config s (.timer t msg) =
      match writeEDelay t p with
      | none => .error .optionMissing
      | some out => .ok (s.fired t msg.collectionIdx p out (disarm s.timer))

/-- The errors a handler may end in: a classification that does not end, a DBF
    packet without its option, and an idle signal of a MAC that was idle. -/
inductive Tolerated (s : Egress) : EgressEvent → EgressError → Prop where
  | endlessLoop (t : SimTime) (packet : Packet) :
      Tolerated s (.push t packet) (.classifier .endlessLoop)
  | optionMissing (t : SimTime) (msg : DBFPriorityScheduleMsg) :
      Tolerated s (.timer t msg) .optionMissing
  | idleTwice (t : SimTime) : s.txIdleCounter ≠ 0 →
      Tolerated s (.txIdle t) (.receiveSignalTxIdleCounter (s.txIdleCounter + 1))

namespace Discipline

variable {scheduler : Scheduler} {config : EgressConfig} (d : Discipline scheduler config)
  {s s' : Egress} {t : SimTime} {packet : Packet} {msg : DBFPriorityScheduleMsg}
  {event : EgressEvent}

/-- No timer is pending, or the armed one. -/
def TimerOk (s : Egress) : Prop :=
  (s.timer.selfMsg = none ∧ s.timer.events = []) ∨ ∃ msg T p, d.Armed s msg T p

/-! ## The handlers -/

/-- A push fails to classify its packet, or ends in a notification. -/
theorem handle_push_cases (hcapacity : ∀ q, KeepsOne (config.capacity q))
    (h : WellFormed config.classifier s) (htimer : d.TimerOk s)
    (henabled : Enabled s (.push t packet)) (hadmissible : Admissible (.push t packet)) :
    packetDelta config.classifier packet = none ∧
      scheduler.handle config s (.push t packet) = .error (.classifier .endlessLoop) ∨
    ∃ delta q registry timer, packetDelta config.classifier packet = some delta ∧
      Registry.Classified s.registry delta q registry ∧
      scheduler.handle config s (.push t packet) =
        .ok ((s.pushed config t packet registry q).swept timer) ∧
      d.Notified (s.pushed config t packet registry q) timer := by
  have htime : s.now ≤ t := henabled.1
  rcases handle_push h.coherent with herror | ⟨delta, q, registry, hdelta, hclass, hhandle⟩
  · exact .inl herror
  · right
    have hnotifiable : d.Notifiable (s.pushed config t packet registry q) := by
      rcases htimer with ⟨hself, hevents⟩ | ⟨msg, T, p, harmed⟩
      · exact d.disarmed hself hevents
      · exact d.pushed h harmed henabled hadmissible hdelta hclass
    have hwell := wellFormed_pushed h htime hadmissible hdelta hclass
    obtain ⟨timer, hresult, hnotified⟩ := d.notifies hwell hnotifiable
    rw [if_neg (pushed_not_empty (hcapacity q)), hresult] at hhandle
    exact ⟨delta, q, registry, timer, hdelta, hclass, hhandle, hnotified⟩

theorem handle_txIdle_cases (h : WellFormed config.classifier s) (htimer : d.TimerOk s)
    (htime : s.now ≤ t) (hidle : s.txIdleCounter = 0) :
    ∃ timer, scheduler.handle config s (.txIdle t) = .ok ((s.idled t).swept timer) ∧
      d.Notified (s.idled t) timer := by
  have hnotifiable : d.Notifiable (s.idled t) := by
    rcases htimer with ⟨hself, hevents⟩ | ⟨msg, T, p, harmed⟩
    · exact d.disarmed hself hevents
    · have := d.idle harmed
      omega
  have hwell := wellFormed_idled h htime
  obtain ⟨_, hsweep⟩ := d.sweeps hwell hnotifiable
  obtain ⟨timer, hresult, hnotified⟩ := d.notifies hwell hnotifiable
  exact ⟨timer, (handle_txIdle hidle hsweep).trans hresult, hnotified⟩

theorem armed_of_delivers (htimer : d.TimerOk s) (henabled : Enabled s (.timer t msg)) :
    ∃ p, d.Armed s msg t p := by
  have hpending : (msg, t) ∈ s.timer.events := henabled.2.2
  rcases htimer with ⟨_, hevents⟩ | ⟨msg', T, p, harmed⟩
  · rw [hevents] at hpending
    cases hpending
  · rw [d.events harmed, List.mem_singleton] at hpending
    cases hpending
    exact ⟨p, harmed⟩

/-! ## The steps -/

theorem step_push (hcapacity : ∀ q, KeepsOne (config.capacity q))
    (h : WellFormed config.classifier s) (htimer : d.TimerOk s)
    (hstep : EgressStep scheduler config s (.push t packet) s') :
    ∃ delta q registry timer, packetDelta config.classifier packet = some delta ∧
      Registry.Classified s.registry delta q registry ∧
      s' = (s.pushed config t packet registry q).swept timer ∧
      d.Notified (s.pushed config t packet registry q) timer := by
  obtain ⟨henabled, hadmissible, hok⟩ := hstep
  rcases d.handle_push_cases hcapacity h htimer henabled hadmissible with
    ⟨_, herror⟩ | ⟨delta, q, registry, timer, hdelta, hclass, hhandle, hnotified⟩
  · cases herror.symm.trans hok
  · cases hhandle.symm.trans hok
    exact ⟨delta, q, registry, timer, hdelta, hclass, rfl, hnotified⟩

theorem step_txIdle (h : WellFormed config.classifier s) (htimer : d.TimerOk s)
    (hstep : EgressStep scheduler config s (.txIdle t) s') :
    s.txIdleCounter = 0 ∧ ∃ timer, s' = (s.idled t).swept timer ∧
      d.Notified (s.idled t) timer := by
  obtain ⟨henabled, _, hok⟩ := hstep
  by_cases hidle : s.txIdleCounter = 0
  · obtain ⟨timer, hhandle, hnotified⟩ := d.handle_txIdle_cases h htimer henabled.1 hidle
    cases hhandle.symm.trans hok
    exact ⟨hidle, timer, rfl, hnotified⟩
  · cases (handle_txIdle_error hidle).symm.trans hok

theorem step_timer (h : WellFormed config.classifier s) (htimer : d.TimerOk s)
    (hstep : EgressStep scheduler config s (.timer t msg) s') :
    ∃ p out, d.Armed s msg t p ∧ writeEDelay t p = some out ∧
      s' = s.fired t msg.collectionIdx p out (d.disarm s.timer) := by
  obtain ⟨henabled, _, hok⟩ := hstep
  obtain ⟨p, harmed⟩ := d.armed_of_delivers htimer henabled
  have hhandle := d.fires h harmed t
  cases hout : writeEDelay t p with
  | none =>
      rw [hout] at hhandle
      cases hhandle.symm.trans hok
  | some out =>
      rw [hout] at hhandle
      cases hhandle.symm.trans hok
      exact ⟨p, out, harmed, hout, rfl⟩

theorem step (hcapacity : ∀ q, KeepsOne (config.capacity q))
    (h : WellFormed config.classifier s) (htimer : d.TimerOk s)
    (hstep : EgressStep scheduler config s event s') :
    Effect config s event s' ∧ d.TimerOk s' := by
  cases event with
  | push t packet =>
      obtain ⟨_, _, _, timer, hdelta, hclass, rfl, hnotified⟩ :=
        d.step_push hcapacity h htimer hstep
      exact ⟨.push timer hdelta hclass, d.rearmed hnotified⟩
  | txIdle t =>
      obtain ⟨hidle, timer, rfl, hnotified⟩ := d.step_txIdle h htimer hstep
      exact ⟨.txIdle timer hidle, d.rearmed hnotified⟩
  | timer t msg =>
      obtain ⟨p, out, harmed, hout, rfl⟩ := d.step_timer h htimer hstep
      obtain ⟨hself, hevents⟩ := d.disarm_ok s.timer
      exact ⟨.timer _ (d.events harmed) (d.idle harmed) (d.stored harmed) (d.ready harmed)
        (d.unexpired h harmed) hout hevents, .inl ⟨hself, hevents⟩⟩

theorem tolerated (hcapacity : ∀ q, KeepsOne (config.capacity q))
    (h : WellFormed config.classifier s) (htimer : d.TimerOk s) (henabled : Enabled s event)
    (hadmissible : Admissible event) {error : EgressError}
    (herror : scheduler.handle config s event = .error error) : Tolerated s event error := by
  cases event with
  | push t packet =>
      rcases d.handle_push_cases hcapacity h htimer henabled hadmissible with
        ⟨_, hendless⟩ | ⟨_, _, _, timer, _, _, hok, _⟩
      · cases hendless.symm.trans herror
        exact .endlessLoop t packet
      · cases hok.symm.trans herror
  | txIdle t =>
      by_cases hidle : s.txIdleCounter = 0
      · obtain ⟨timer, hok, _⟩ := d.handle_txIdle_cases h htimer henabled.1 hidle
        cases hok.symm.trans herror
      · cases (handle_txIdle_error hidle).symm.trans herror
        exact .idleTwice t hidle
  | timer t msg =>
      obtain ⟨p, harmed⟩ := d.armed_of_delivers htimer henabled
      have hhandle := d.fires h harmed t
      cases hout : writeEDelay t p with
      | none =>
          rw [hout] at hhandle
          cases hhandle.symm.trans herror
          exact .optionMissing t msg
      | some out =>
          rw [hout] at hhandle
          cases hhandle.symm.trans herror

/-! ## Runs -/

section

variable {count : Nat} {history : List (Transition Egress EgressEvent)}

/-- The invariant of all runs. -/
def Inv (s : Egress) : Prop := WellFormed config.classifier s ∧ d.TimerOk s

theorem inv_initial (count : Nat) : d.Inv (Egress.initial count) :=
  ⟨wellFormed_initial _ count, .inl ⟨rfl, rfl⟩⟩

theorem inv_step (hcapacity : ∀ q, KeepsOne (config.capacity q)) (s : Egress)
    (event : EgressEvent) (s' : Egress) (h : d.Inv s)
    (hstep : EgressStep scheduler config s event s') : d.Inv s' := by
  obtain ⟨heffect, htimer⟩ := d.step hcapacity h.1 h.2 hstep
  exact ⟨heffect.wellFormed h.1 hstep.1.1 hstep.2.1, htimer⟩

theorem inv_run (hcapacity : ∀ q, KeepsOne (config.capacity q))
    (hrun : EgressRun scheduler config count history s) :
    d.Inv s ∧ ∀ x ∈ history, d.Inv x.pre ∧ d.Inv x.post :=
  hrun.invariant (d.inv_initial count) (d.inv_step hcapacity)

/-- What the steps from states with the invariant keep holds in all states of a run. -/
theorem run_invariant (hcapacity : ∀ q, KeepsOne (config.capacity q)) {X : Egress → Prop}
    (hstart : X (Egress.initial count))
    (hkept : ∀ s event s', d.Inv s → X s → EgressStep scheduler config s event s' → X s')
    (hrun : EgressRun scheduler config count history s) : d.Inv s ∧ X s := by
  refine (hrun.invariant (I := fun s => d.Inv s ∧ X s) ⟨d.inv_initial count, hstart⟩ ?_).1
  rintro s event s' ⟨hinv, hX⟩ hstep
  exact ⟨d.inv_step hcapacity s event s' hinv hstep, hkept s event s' hinv hX hstep⟩

include d in
theorem effects (hcapacity : ∀ q, KeepsOne (config.capacity q))
    (hrun : EgressRun scheduler config count history s) :
    ∀ x ∈ history, Effect config x.pre x.event x.post := by
  intro x hx
  obtain ⟨⟨h, htimer⟩, _⟩ := (d.inv_run hcapacity hrun).2 x hx
  exact (d.step hcapacity h htimer (hrun.step_of_mem x hx)).1

end

end Discipline

end DelayBasedForwarding
