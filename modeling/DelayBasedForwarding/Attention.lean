import DelayBasedForwarding.Network

/-!
# What a scheduler leaves waiting

While the link is idle, a scheduler with a packet in its queues usually has a timer
pending.  The static scheduler always has.  The dynamic scheduler has none if no packet
was ready when it last looked, and nothing but the next push makes it look again.
-/

namespace DelayBasedForwarding

open TransitionRuns

/-- What may be queued at an idle link while no timer is pending. -/
def SchedulerType.Leaves : SchedulerType → Egress → Packet → Prop
  | dbfPriorityScheduler, _, _ => False
  | dbfDynamicPriorityScheduler, s, packet => isPacketReadyToSend s.now packet = false

/-- The scheduler has looked at everything it left. -/
def Attended (Leaves : Egress → Packet → Prop) (s : Egress) : Prop :=
  s.txIdleCounter = 1 → s.timer.events = [] → ∀ q, ∀ packet ∈ s.queues q, Leaves s packet

variable {scheduler : Scheduler} {config : EgressConfig} {count : Nat} {s : Egress}
  {history : List (Transition Egress EgressEvent)} {Leaves : Egress → Packet → Prop}

/-- What holds after a notification holds in a run, since a timer leaves the link busy. -/
theorem Discipline.run_attended (d : Discipline scheduler config)
    (hcapacity : ∀ q, KeepsOne (config.capacity q))
    (hnotified : ∀ u timer, d.Notified u timer → Attended Leaves (u.swept timer))
    (hrun : EgressRun scheduler config count history s) : Attended Leaves s := by
  refine (d.run_invariant hcapacity (X := Attended Leaves) ?_ ?_ hrun).2
  · rintro _ _ q packet hpacket
    cases hpacket
  · intro s event s' hinv hattended hstep
    cases event with
    | push t packet =>
        obtain ⟨_, _, _, timer, _, _, rfl, hn⟩ := d.step_push hcapacity hinv.1 hinv.2 hstep
        exact hnotified _ timer hn
    | txIdle t =>
        obtain ⟨_, timer, rfl, hn⟩ := d.step_txIdle hinv.1 hinv.2 hstep
        exact hnotified _ timer hn
    | timer t msg =>
        obtain ⟨_, _, _, _, rfl⟩ := d.step_timer hinv.1 hinv.2 hstep
        exact fun hidle => absurd hidle Nat.zero_ne_one

theorem SchedulerType.run_attended (type : SchedulerType)
    (hcapacity : ∀ q, KeepsOne (config.capacity q))
    (hrun : EgressRun type.scheduler config count history s) : Attended type.Leaves s := by
  cases type with
  | dbfPriorityScheduler =>
      refine (DBFPriorityScheduler.discipline config hcapacity).run_attended hcapacity ?_ hrun
      intro u timer hnotified hidle hevents q packet hpacket
      have hnotified : DBFPriorityScheduler.Notified u timer := hnotified
      obtain ⟨msg, T, front, harmed⟩ :=
        hnotified.armed hidle ⟨q, List.ne_nil_of_mem hpacket⟩
      rw [harmed.events] at hevents
      cases hevents
  | dbfDynamicPriorityScheduler =>
      refine (DBFDynamicPriorityScheduler.discipline config hcapacity).run_attended hcapacity ?_
        hrun
      intro u timer hnotified hidle hevents q packet hpacket
      have hnotified : DBFDynamicPriorityScheduler.Notified u timer := hnotified
      apply eq_false_of_ne_true
      intro hready
      obtain ⟨msg, T, p, harmed⟩ := (hnotified.armed hidle).mpr ⟨q, packet, hpacket, hready⟩
      rw [harmed.events] at hevents
      cases hevents

end DelayBasedForwarding
