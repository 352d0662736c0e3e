import DelayBasedForwarding.StaticScheduler
import DelayBasedForwarding.DynamicScheduler

/-!
# The send window

Whatever the order of pushes, idle signals and timers, a packet leaves inside its
window, while the link is idle, and once for each idle signal.  The effects of
the steps are all that is needed, so both schedulers are covered at once.
-/

namespace DelayBasedForwarding

open TransitionRuns

def InWindow (sent : SentPacket) : Prop :=
  ∀ tag ∈ sent.stored.tag, tag.tMin ≤ sent.time ∧ (tag.dMax ≠ 0 → sent.time ≤ tag.tMax)

/-- What the log has recorded so far. -/
structure Accounted (s : Egress) : Prop where
  idle : s.txIdleCounter ≤ 1
  signals : s.log.sent.length + s.txIdleCounter = s.log.idleSignals
  window : ∀ sent ∈ s.log.sent, InWindow sent

variable {config : EgressConfig} {s s' : Egress} {event : EgressEvent}

theorem inWindow_of_ready {t : SimTime} {collectionIdx : Nat} {p out : Packet}
    (hready : isPacketReadyToSend t p = true) (hunexpired : packetExpired t p = false) :
    InWindow ⟨t, collectionIdx, p, out⟩ := by
  intro tag htag
  refine ⟨isPacketReadyToSend_iff.mp hready tag htag, fun hfinite => ?_⟩
  by_contra hlate
  have hexpired : packetExpired t p = true :=
    packetExpired_iff.mpr ⟨tag, htag, hfinite, not_le.mp hlate⟩
  rw [hexpired] at hunexpired
  cases hunexpired

/-- One packet leaves when a timer fires, and none otherwise. -/
theorem Effect.sent (heffect : Effect config s event s') :
    s'.log.sent = s.log.sent ∨
    ∃ sent, s'.log.sent = s.log.sent ++ [sent] ∧ sent.time = event.simTime ∧
      InWindow sent ∧ s.txIdleCounter = 1 := by
  cases heffect with
  | push timer hdelta hclass => exact .inl rfl
  | txIdle timer hidle => exact .inl rfl
  | timer timer hevents hidle hmem hready hunexpired hout hdisarmed =>
      exact .inr ⟨_, rfl, rfl, inWindow_of_ready hready hunexpired, hidle⟩

theorem Effect.accounted (h : Accounted s) (heffect : Effect config s event s') :
    Accounted s' := by
  cases heffect with
  | push timer hdelta hclass => exact ⟨h.idle, h.signals, h.window⟩
  | txIdle timer hidle =>
      have hsignals := h.signals
      rw [hidle] at hsignals
      refine ⟨le_rfl, ?_, h.window⟩
      show s.log.sent.length + 1 = s.log.idleSignals + 1
      omega
  | timer timer hevents hidle hmem hready hunexpired hout hdisarmed =>
      have hsignals := h.signals
      rw [hidle] at hsignals
      refine ⟨Nat.zero_le _, ?_, ?_⟩
      · simpa [Egress.fired] using hsignals
      · intro sent hsent
        rcases List.mem_append.mp hsent with hsent | hsent
        · exact h.window sent hsent
        · rw [List.mem_singleton] at hsent
          subst hsent
          exact inWindow_of_ready hready hunexpired

theorem accounted_initial (count : Nat) : Accounted (Egress.initial count) :=
  ⟨Nat.zero_le _, rfl, by simp [Egress.initial]⟩

section

variable {scheduler : Scheduler} (d : Discipline scheduler config) {count : Nat}
  {history : List (Transition Egress EgressEvent)}

include d in
theorem run_accounted (hcapacity : ∀ q, KeepsOne (config.capacity q))
    (hrun : EgressRun scheduler config count history s) : Accounted s := by
  refine (d.run_invariant hcapacity (accounted_initial count) ?_ hrun).2
  intro s event s' hinv haccounted hstep
  obtain ⟨heffect, _⟩ := d.step hcapacity hinv.1 hinv.2 hstep
  exact heffect.accounted haccounted

end

/-- The two schedulers of the repository keep the discipline. -/
theorem exists_discipline {scheduler : Scheduler} (config : EgressConfig)
    (hcapacity : ∀ q, KeepsOne (config.capacity q))
    (hscheduler : scheduler = dbfPriorityScheduler ∨ scheduler = dbfDynamicPriorityScheduler) :
    Nonempty (Discipline scheduler config) := by
  rcases hscheduler with rfl | rfl
  · exact ⟨DBFPriorityScheduler.discipline config hcapacity⟩
  · exact ⟨DBFDynamicPriorityScheduler.discipline config hcapacity⟩

/-- **Send window.**  In every run of an egress with either scheduler, on queues
    that are unlimited or hold at least one packet:

    * every DBF packet was sent at a time in its window;
    * a step sends at most one packet, and only while `txIdleCounter` is 1;
    * the packets sent are one for each idle signal, up to the signal that is
      still to be used;
    * the exception of `handleMessage` is not reached, whatever event comes next,
      and that of `receiveSignal` only by a signal beyond one for each packet sent. -/
theorem send_window (config : EgressConfig) (hcapacity : ∀ q, KeepsOne (config.capacity q))
    (scheduler : Scheduler)
    (hscheduler : scheduler = dbfPriorityScheduler ∨ scheduler = dbfDynamicPriorityScheduler)
    (count : Nat) (history : List (Transition Egress EgressEvent)) (s : Egress)
    (hrun : EgressRun scheduler config count history s) :
    (∀ sent ∈ s.log.sent, InWindow sent) ∧
    (∀ x ∈ history, x.post.log.sent = x.pre.log.sent ∨
      x.pre.txIdleCounter = 1 ∧ ∃ sent, x.post.log.sent = x.pre.log.sent ++ [sent] ∧
        sent.time = x.event.simTime) ∧
    s.log.sent.length + s.txIdleCounter = s.log.idleSignals ∧
    (∀ event txIdleCounter, Enabled s event → Admissible event →
      scheduler.handle config s event ≠ .error (.handleMessageTxIdleCounter txIdleCounter)) ∧
    (∀ event txIdleCounter, Enabled s event → Admissible event →
      s.log.idleSignals = s.log.sent.length →
      scheduler.handle config s event ≠ .error (.receiveSignalTxIdleCounter txIdleCounter)) := by
  obtain ⟨d⟩ := exists_discipline config hcapacity hscheduler
  have haccounted := run_accounted d hcapacity hrun
  obtain ⟨h, htimer⟩ := (d.inv_run hcapacity hrun).1
  refine ⟨haccounted.window, ?_, haccounted.signals, ?_, ?_⟩
  · intro x hx
    rcases (d.effects hcapacity hrun x hx).sent with hsame | ⟨sent, hsent, htime, _, hidle⟩
    · exact .inl hsame
    · exact .inr ⟨hidle, sent, hsent, htime⟩
  · intro event txIdleCounter henabled hadmissible herror
    cases d.tolerated hcapacity h htimer henabled hadmissible herror
  · intro event txIdleCounter henabled hadmissible hused herror
    cases d.tolerated hcapacity h htimer henabled hadmissible herror with
    | idleTwice t hidle =>
        have := haccounted.signals
        omega

/-! A packet that has to wait for time 1 is pushed while the link is idle. -/

/-- What `DBFComputer` makes of bounds `dMin` and `dMax` one hop before the
    destination, where no delay has been experienced and none lies ahead. -/
def sampleTag (tRcv dMin dMax : SimTime) : DBFHeaderTag :=
  { toHops := 1, tRcv := tRcv, dMin := dMin, dMax := dMax, lqBudgetMin := dMin,
    lqBudgetMax := dMax, tMin := dMin + tRcv, tMax := dMax + tRcv }

def samplePacket (tRcv dMin dMax : SimTime) : Packet :=
  { bitLength := 800,
    ipv4Header := some { srcAddress := 1, destAddress := 2,
                         options := [.dbf { dMin := dMin, dMax := dMax }] },
    tag := some (sampleTag tRcv dMin dMax) }

def sampleConfig : EgressConfig := { classifier := ⟨1, 10⟩, capacity := fun _ => {} }

theorem unlimited_sampleConfig : Unlimited sampleConfig := fun _ => rfl

theorem send_window_sample : ∃ s : Egress, s.log.sent ≠ [] ∧
    ∀ sent ∈ s.log.sent, InWindow sent := by
  obtain ⟨history, s, hrun, _, hsent⟩ := Run.exists_of_replay
    (egressStep_of_next dbfPriorityScheduler sampleConfig)
    (show (replay (egressNext dbfPriorityScheduler sampleConfig) (Egress.initial 0)
      [.txIdle 0, .push 0 (samplePacket 0 1 3), .timer 1 ⟨0, 0⟩]).any
      (fun s => !s.log.sent.isEmpty) = true by decide +kernel)
  refine ⟨s, by simpa using hsent, ?_⟩
  exact (send_window sampleConfig unlimited_sampleConfig.keepsOne dbfPriorityScheduler (.inl rfl) 0
    history s hrun).1

end DelayBasedForwarding
