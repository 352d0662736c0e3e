import DelayBasedForwarding.Discipline

/-!
# Packets that wait on an idle link

On queues without limits, what a handler leaves in the queues is decided by the
state before it and by the event: the unexpired packets that were stored and the
one that arrives.  The conditions on runs below are conditions on these packets.
-/

namespace DelayBasedForwarding

open TransitionRuns

/-- The packet objects an event brings. -/
def EgressEvent.arriving (s : Egress) : EgressEvent → List Packet
  | .push _ packet => [{ packet with id := s.nextPacket }]
  | .txIdle _ => []
  | .timer _ _ => []

/-- The handler ends with the link idle and its queues looked at. -/
def LeavesIdle (s : Egress) : EgressEvent → Prop
  | .push _ _ => s.txIdleCounter = 1
  | .txIdle _ => True
  | .timer _ _ => False

/-- The packet is in a queue after the handler of `event`. -/
def Waiting (s : Egress) (event : EgressEvent) (p : Packet) : Prop :=
  packetExpired event.simTime p = false ∧ ((∃ q, p ∈ s.queues q) ∨ p ∈ event.arriving s)

/-- While the link is idle and a packet is queued, a timer is pending, and it
    fires as soon as any queued packet is ready. -/
def WakesUp (s : Egress) : Prop :=
  s.txIdleCounter = 1 → (∃ q, s.queues q ≠ []) →
    ∃ pending ∈ s.timer.events, ∀ q, ∀ p ∈ s.queues q, pending.2 ≤ readyAt s.now p

theorem wakesUp_initial {count : Nat} : WakesUp (Egress.initial count) := by
  rintro _ ⟨q, hq⟩
  exact absurd rfl hq

/-- On an idle link, a packet of queue `q` is ready before any timer fires. -/
def Oversleeps (s : Egress) (q : QueueId) : Bool :=
  s.txIdleCounter == 1 && (s.queues q).any fun p =>
    s.timer.events.all fun pending => decide (readyAt s.now p < pending.2)

theorem not_wakesUp {s : Egress} {q : QueueId} (h : Oversleeps s q = true) : ¬ WakesUp s := by
  simp only [Oversleeps, Bool.and_eq_true, beq_iff_eq, List.any_eq_true, List.all_eq_true,
    decide_eq_true_eq] at h
  obtain ⟨hidle, p, hp, hlate⟩ := h
  intro hwakes
  obtain ⟨pending, hpending, hle⟩ := hwakes hidle ⟨q, List.ne_nil_of_mem hp⟩
  exact absurd (hle q p hp) (not_le.mpr (hlate pending hpending))

variable {scheduler : Scheduler} {config : EgressConfig} {s s' : Egress} {t : SimTime}
  {packet p : Packet} {event : EgressEvent}

theorem mem_pushed (hunlimited : Unlimited config) {registry : Registry} {q a : QueueId} :
    p ∈ (s.pushed config t packet registry q).queues a ↔
      p ∈ s.queues a ∨ (a = q ∧ p = { packet with id := s.nextPacket }) := by
  by_cases ha : a = q
  · subst ha
    rw [queues_pushed_self, hunlimited a, pushPacket_unlimited, mem_insertPacket]
    simp [or_comm]
  · rw [queues_pushed_of_ne ha]
    simp [ha]

theorem waiting_push (hunlimited : Unlimited config) {registry : Registry} {q : QueueId} :
    Waiting s (.push t packet) p ↔
      ∃ a, p ∈ (s.pushed config t packet registry q).unexpired a := by
  have hnow : (s.pushed config t packet registry q).now = t := rfl
  constructor
  · rintro ⟨hunexpired, ⟨a, hp⟩ | hp⟩
    · exact ⟨a, mem_unexpired.mpr ⟨(mem_pushed hunlimited).mpr (.inl hp), hunexpired⟩⟩
    · have hp := List.mem_singleton.mp hp
      exact ⟨q, mem_unexpired.mpr ⟨(mem_pushed hunlimited).mpr (.inr ⟨rfl, hp⟩), hunexpired⟩⟩
  · rintro ⟨a, hp⟩
    obtain ⟨hp, hunexpired⟩ := mem_unexpired.mp hp
    rw [hnow] at hunexpired
    refine ⟨hunexpired, ?_⟩
    rcases (mem_pushed hunlimited).mp hp with hp | ⟨_, hp⟩
    · exact .inl ⟨a, hp⟩
    · exact .inr (List.mem_singleton.mpr hp)

theorem waiting_txIdle :
    Waiting s (.txIdle t) p ↔ ∃ a, p ∈ (s.idled t).unexpired a := by
  constructor
  · rintro ⟨hunexpired, ⟨a, hp⟩ | hp⟩
    · exact ⟨a, mem_unexpired.mpr ⟨hp, hunexpired⟩⟩
    · cases hp
  · rintro ⟨a, hp⟩
    obtain ⟨hp, hunexpired⟩ := mem_unexpired.mp hp
    exact ⟨hunexpired, .inl ⟨a, hp⟩⟩

/-- A step leaves the link busy, or ends in a notification on the waiting packets. -/
theorem Discipline.step_waiting (d : Discipline scheduler config) (hunlimited : Unlimited config)
    (h : d.Inv s) (hstep : EgressStep scheduler config s event s') :
    (¬ LeavesIdle s event ∧ s'.txIdleCounter ≠ 1) ∨
    (LeavesIdle s event ∧ ∃ u timer, s' = u.swept timer ∧ WellFormed config.classifier u ∧
      d.Notified u timer ∧ u.txIdleCounter = 1 ∧ u.now = event.simTime ∧
      ∀ p, Waiting s event p ↔ ∃ a, p ∈ u.unexpired a) := by
  obtain ⟨hwell, htimer⟩ := h
  cases event with
  | push t packet =>
      obtain ⟨delta, q, registry, timer, hdelta, hclass, rfl, hnotified⟩ :=
        d.step_push hunlimited.keepsOne hwell htimer hstep
      by_cases hidle : s.txIdleCounter = 1
      · right
        have htime : s.now ≤ t := hstep.1.1
        exact ⟨hidle, _, timer, rfl, wellFormed_pushed hwell htime hstep.2.1 hdelta hclass,
          hnotified, hidle, rfl, fun p => waiting_push hunlimited⟩
      · left
        exact ⟨hidle, hidle⟩
  | txIdle t =>
      obtain ⟨_, timer, rfl, hnotified⟩ := d.step_txIdle hwell htimer hstep
      right
      have htime : s.now ≤ t := hstep.1.1
      exact ⟨trivial, _, timer, rfl, wellFormed_idled hwell htime, hnotified, rfl, rfl,
        fun p => waiting_txIdle⟩
  | timer t msg =>
      obtain ⟨_, _, _, _, rfl⟩ := d.step_timer hwell htimer hstep
      left
      exact ⟨fun h => h, Nat.zero_ne_one⟩

end DelayBasedForwarding
