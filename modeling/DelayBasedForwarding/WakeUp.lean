import DelayBasedForwarding.SendWindow
import DelayBasedForwarding.Waiting

/-!
# When the schedulers wake up

Without a ready packet, the static scheduler arms its timer for the front packet
of the queue of the largest delta alone, and the dynamic scheduler arms none.  So
the first wakes up in time exactly while that packet is one of the earliest, and
the second exactly while some packet is ready.
-/

namespace DelayBasedForwarding

open TransitionRuns

/-- The condition on a step: `Condition` holds of the time and the packets that
    wait, if the step leaves them waiting on an idle link. -/
def AtNotification (Condition : SimTime → (Packet → Prop) → Prop) (s : Egress)
    (event : EgressEvent) : Prop :=
  LeavesIdle s event → Condition event.simTime (Waiting s event)

section

variable {scheduler : Scheduler} {config : EgressConfig} (d : Discipline scheduler config)
  {Condition : SimTime → (Packet → Prop) → Prop} {s s' : Egress} {event : EgressEvent}
  {count : Nat} {history : List (Transition Egress EgressEvent)}

/-- What decides about the state after a notification decides about every step. -/
theorem Discipline.wakesUp_step_iff (hunlimited : Unlimited config)
    (hnotification : ∀ u timer, WellFormed config.classifier u → u.txIdleCounter = 1 →
      d.Notified u timer →
      (WakesUp (u.swept timer) ↔ Condition u.now fun p => ∃ a, p ∈ u.unexpired a))
    (h : d.Inv s) (hstep : EgressStep scheduler config s event s') :
    WakesUp s' ↔ AtNotification Condition s event := by
  rcases d.step_waiting hunlimited h hstep with
    ⟨hbusy, hbusy'⟩ | ⟨hidle, u, timer, rfl, hwell, hnotified, hidle', hnow, hwaiting⟩
  · constructor
    · intro _ hleaves
      exact absurd hleaves hbusy
    · intro _ hcounter
      exact absurd hcounter hbusy'
  · rw [hnotification u timer hwell hidle' hnotified, hnow]
    have hsame : (fun p => ∃ a, p ∈ u.unexpired a) = Waiting s event := by
      funext p
      apply propext
      exact (hwaiting p).symm
    rw [hsame]
    constructor
    · intro hcondition _
      exact hcondition
    · intro hcondition
      exact hcondition hidle

theorem Discipline.wakesUp_run_iff (hunlimited : Unlimited config)
    (hnotification : ∀ u timer, WellFormed config.classifier u → u.txIdleCounter = 1 →
      d.Notified u timer →
      (WakesUp (u.swept timer) ↔ Condition u.now fun p => ∃ a, p ∈ u.unexpired a))
    (hrun : EgressRun scheduler config count history s) :
    (∀ x ∈ history, WakesUp x.post) ↔
      ∀ x ∈ history, AtNotification Condition x.pre x.event := by
  apply hrun.forall_iff (I := d.Inv) (P := WakesUp) (d.inv_initial count) wakesUp_initial
  · exact d.inv_step hunlimited.keepsOne
  · intro s event s' h _ hstep
    exact d.wakesUp_step_iff hunlimited hnotification h hstep

end

/-- Nothing arrives on an idle link, and when it becomes idle a packet of queue `q` is
    ready. -/
def ReadyWhenIdle (q : QueueId) (s : Egress) : EgressEvent → Prop
  | .push _ _ => s.txIdleCounter ≠ 1
  | .txIdle t => ∃ p ∈ s.queues q, packetExpired t p = false ∧ isPacketReadyToSend t p = true
  | .timer _ _ => True

instance (q : QueueId) (s : Egress) : ∀ event, Decidable (ReadyWhenIdle q s event)
  | .push _ _ => inferInstanceAs (Decidable (_ ≠ _))
  | .txIdle t => inferInstanceAs (Decidable (∃ p ∈ s.queues q,
      packetExpired t p = false ∧ isPacketReadyToSend t p = true))
  | .timer _ _ => inferInstanceAs (Decidable True)

theorem ReadyWhenIdle.waiting {q : QueueId} {s : Egress} {event : EgressEvent}
    (h : ReadyWhenIdle q s event) (hleaves : LeavesIdle s event) :
    ∃ p, Waiting s event p ∧ isPacketReadyToSend event.simTime p = true := by
  cases event with
  | push t packet => exact absurd hleaves h
  | txIdle t =>
      obtain ⟨p, hp, hunexpired, hready⟩ := h
      exact ⟨p, ⟨hunexpired, .inl ⟨q, hp⟩⟩, hready⟩
  | timer t msg => exact hleaves.elim

/-! ## The static scheduler -/

namespace DBFPriorityScheduler

/-- Of the packets `W` at time `t`, if there are any: one is ready, or one of the
    largest delta is among the earliest. -/
def LargestIsEarliest (par : ClassifierParameters) (t : SimTime) (W : Packet → Prop) : Prop :=
  (∃ p, W p) →
    (∃ p, W p ∧ isPacketReadyToSend t p = true) ∨
    ∃ p, W p ∧ ∀ p', W p' → readyAt t p ≤ readyAt t p' ∧
      ∀ delta delta', packetDelta par p = some delta → packetDelta par p' = some delta' →
        delta' ≤ delta

variable {par : ClassifierParameters} {u : Egress} {timer : Timer}

/-- With one timer pending, only its time matters. -/
theorem wakesUp_armed_iff {s : Egress} {msg : DBFPriorityScheduleMsg} {T : SimTime}
    {front : Packet} (harmed : Armed s msg T front) :
    WakesUp s ↔ ∀ a, ∀ p ∈ s.queues a, T ≤ readyAt s.now p := by
  constructor
  · intro hwakes
    obtain ⟨pending, hpending, hle⟩ := hwakes harmed.idle ⟨_, List.ne_nil_of_mem harmed.stored⟩
    rw [harmed.events, List.mem_singleton] at hpending
    subst hpending
    exact hle
  · intro hle _ _
    have hpending : (msg, T) ∈ s.timer.events := by simp [harmed.events]
    exact ⟨(msg, T), hpending, hle⟩

theorem wakesUp_swept_iff (h : WellFormed par u) (hidle : u.txIdleCounter = 1)
    (hnotified : Notified u timer) :
    WakesUp (u.swept timer) ↔
      LargestIsEarliest par u.now fun p => ∃ a, p ∈ u.unexpired a := by
  have h' := wellFormed_swept h timer
  by_cases hempty : ∃ a, u.unexpired a ≠ []
  · obtain ⟨msg, T, front, harmed⟩ := hnotified.armed hidle hempty
    obtain ⟨delta, hdelta, hreason⟩ := harmed.reason h'
    have hstored : front ∈ u.unexpired msg.collectionIdx := harmed.stored
    rw [wakesUp_armed_iff harmed, queues_swept, now_swept]
    cases hreason with
    | ready htime hready _ =>
        constructor
        · intro _ _
          left
          exact ⟨front, ⟨_, hstored⟩, hready⟩
        · intro _ a p _
          rw [htime]
          exact le_readyAt
    | waiting htime hunready hlargest =>
        constructor
        · intro hle _
          right
          refine ⟨front, ⟨_, hstored⟩, ?_⟩
          rintro p' ⟨a, hp'⟩
          constructor
          · rw [now_swept] at htime
            rw [← htime]
            exact hle a p' hp'
          · intro d delta' hd hdelta'
            cases hd.symm.trans hdelta
            exact (hlargest a p' hp' delta' hdelta').1
        · intro hcondition a p hp
          rcases hcondition ⟨p, a, hp⟩ with
            ⟨p', ⟨b, hp'⟩, hready⟩ | ⟨p', ⟨b, hp'⟩, hearliest⟩
          · cases hready.symm.trans (hunready b p' hp')
          · obtain ⟨e, he, _⟩ := h'.classified b p' hp'
            have hle := (hearliest front ⟨_, hstored⟩).2 e delta he hdelta
            obtain ⟨_, hlargest'⟩ := le_readyAt_of_largest hlargest hp' he hle
            calc T ≤ readyAt u.now p' := hlargest'
              _ ≤ readyAt u.now p := (hearliest p ⟨a, hp⟩).1
  · constructor
    · rintro _ ⟨p, a, hp⟩
      exact absurd ⟨a, List.ne_nil_of_mem hp⟩ hempty
    · intro _ _ hsome
      exact absurd hsome hempty

/-- **Wake-up of the static scheduler.**  In a run on queues without limits, all
    states it reaches wake up in time exactly when, at each push on an idle link
    and each idle signal, the waiting packets are none, or one of them is ready, or
    one of the largest delta is among the earliest. -/
theorem static_wake_up_iff (config : EgressConfig) (hunlimited : Unlimited config) (count : Nat)
    (history : List (Transition Egress EgressEvent)) (s : Egress)
    (hrun : EgressRun dbfPriorityScheduler config count history s) :
    (∀ x ∈ history, WakesUp x.post) ↔
      ∀ x ∈ history, AtNotification (LargestIsEarliest config.classifier) x.pre x.event := by
  apply (discipline config hunlimited.keepsOne).wakesUp_run_iff hunlimited _ hrun
  intro u timer hwell hidle hnotified
  exact wakesUp_swept_iff hwell hidle hnotified

/-! The packet in the queue of delta 1 is ready at time 1 and expires after 2; the
timer is armed for the packet of delta 5, at time 3. -/

theorem exists_oversleeping_run : ∃ history s,
    EgressRun dbfPriorityScheduler sampleConfig 0 history s ∧
    history.map Transition.event =
      [.txIdle 0, .push 0 (samplePacket 0 1 2), .push 0 (samplePacket 0 3 8)] ∧
    Oversleeps s 0 = true :=
  Run.exists_of_replay (egressStep_of_next dbfPriorityScheduler sampleConfig) (by decide +kernel)

/-- Such a run, and one that wakes up in time. -/
theorem static_wake_up_sample :
    (∃ history s, EgressRun dbfPriorityScheduler sampleConfig 0 history s ∧
      ¬ ∀ x ∈ history,
        AtNotification (LargestIsEarliest sampleConfig.classifier) x.pre x.event) ∧
    ∃ history s, EgressRun dbfPriorityScheduler sampleConfig 0 history s ∧
      s.log.sent.length = 1 ∧ ∀ x ∈ history, WakesUp x.post := by
  constructor
  · obtain ⟨history, s, hrun, _, hoversleeps⟩ := exists_oversleeping_run
    refine ⟨history, s, hrun, ?_⟩
    intro hcondition
    have hwakes := (static_wake_up_iff sampleConfig unlimited_sampleConfig 0 history s hrun).mpr
      hcondition
    exact not_wakesUp hoversleeps (hrun.forall_post wakesUp_initial hwakes)
  · obtain ⟨history, s, hrun, hready, _, hsent⟩ := Run.exists_of_guarded_replay
      (egressStep_of_next dbfPriorityScheduler sampleConfig)
      (show (replay (fun s event => if ReadyWhenIdle 0 s event then
          egressNext dbfPriorityScheduler sampleConfig s event else none) (Egress.initial 0)
        [.push 0 (samplePacket 0 1 3), .push 0 (samplePacket 0 5 8), .txIdle 2,
          .timer 2 ⟨0, 0⟩]).any (fun s => s.log.sent.length == 1) = true by decide +kernel)
    refine ⟨history, s, hrun, by simpa using hsent, ?_⟩
    refine (static_wake_up_iff sampleConfig unlimited_sampleConfig 0 history s hrun).mpr ?_
    exact fun x hx hleaves _ => .inl ((hready x hx).waiting hleaves)

theorem static_wake_up_fails : ∃ history s,
    EgressRun dbfPriorityScheduler sampleConfig 0 history s ∧
    history.map Transition.event =
      [.txIdle 0, .push 0 (samplePacket 0 1 2), .push 0 (samplePacket 0 3 8)] ∧
    ¬ WakesUp s := by
  obtain ⟨history, s, hrun, hevents, hoversleeps⟩ := exists_oversleeping_run
  exact ⟨history, s, hrun, hevents, not_wakesUp hoversleeps⟩

end DBFPriorityScheduler

/-! ## The dynamic scheduler -/

namespace DBFDynamicPriorityScheduler

/-- Of the packets `W` at time `t`, if there are any, one is ready. -/
def SomeReady (t : SimTime) (W : Packet → Prop) : Prop :=
  (∃ p, W p) → ∃ p, W p ∧ isPacketReadyToSend t p = true

variable {par : ClassifierParameters} {u : Egress} {timer : Timer}

theorem wakesUp_swept_iff (hidle : u.txIdleCounter = 1) (hnotified : Notified u timer) :
    WakesUp (u.swept timer) ↔ SomeReady u.now fun p => ∃ a, p ∈ u.unexpired a := by
  rcases hnotified.rearmed with ⟨hself, hevents⟩ | ⟨msg, T, p, harmed⟩
  · -- without a timer nothing is ready, so nothing may be left
    have hunready : ¬ ∃ q, ∃ p ∈ u.unexpired q, isPacketReadyToSend u.now p = true := by
      intro hready
      obtain ⟨msg, T, p, harmed⟩ := (hnotified.armed hidle).mpr hready
      cases harmed.selfMsg.symm.trans hself
    constructor
    · rintro hwakes ⟨p, a, hp⟩
      obtain ⟨pending, hpending, _⟩ := hwakes hidle ⟨a, List.ne_nil_of_mem hp⟩
      rw [timer_swept, hevents] at hpending
      cases hpending
    · rintro hcondition _ ⟨a, ha⟩
      obtain ⟨p, hp⟩ := List.exists_mem_of_ne_nil _ ha
      obtain ⟨p', ⟨b, hp'⟩, hready⟩ := hcondition ⟨p, a, hp⟩
      exact absurd ⟨b, p', hp', hready⟩ hunready
  · constructor
    · intro _ _
      obtain ⟨q, p', hp', hready⟩ := (hnotified.armed hidle).mp ⟨msg, T, p, harmed⟩
      exact ⟨p', ⟨q, hp'⟩, hready⟩
    · intro _ _ _
      have hpending : (msg, T) ∈ (u.swept timer).timer.events := by
        rw [harmed.events]
        exact List.mem_singleton.mpr rfl
      refine ⟨(msg, T), hpending, ?_⟩
      intro a p' _
      rw [show T = u.now from harmed.time]
      exact le_readyAt

/-- **Wake-up of the dynamic scheduler.**  In a run on queues without limits, all
    states it reaches wake up in time exactly when, at each push on an idle link
    and each idle signal, the waiting packets are none or one of them is ready. -/
theorem dynamic_wake_up_iff (config : EgressConfig) (hunlimited : Unlimited config) (count : Nat)
    (history : List (Transition Egress EgressEvent)) (s : Egress)
    (hrun : EgressRun dbfDynamicPriorityScheduler config count history s) :
    (∀ x ∈ history, WakesUp x.post) ↔
      ∀ x ∈ history, AtNotification SomeReady x.pre x.event := by
  apply (discipline config hunlimited.keepsOne).wakesUp_run_iff hunlimited _ hrun
  intro u timer _ hidle hnotified
  exact wakesUp_swept_iff hidle hnotified

/-! The link is idle, one packet waits for time 1, and no timer is pending. -/

theorem exists_stalled_run : ∃ history s,
    EgressRun dbfDynamicPriorityScheduler sampleConfig 0 history s ∧
    history.map Transition.event = [.txIdle 0, .push 0 (samplePacket 0 1 2)] ∧
    Oversleeps s 0 = true :=
  Run.exists_of_replay (egressStep_of_next dbfDynamicPriorityScheduler sampleConfig)
    (by decide +kernel)

/-- Such a run, and one that wakes up in time. -/
theorem dynamic_wake_up_sample :
    (∃ history s, EgressRun dbfDynamicPriorityScheduler sampleConfig 0 history s ∧
      ¬ ∀ x ∈ history, AtNotification SomeReady x.pre x.event) ∧
    ∃ history s, EgressRun dbfDynamicPriorityScheduler sampleConfig 0 history s ∧
      s.log.sent.length = 1 ∧ ∀ x ∈ history, WakesUp x.post := by
  constructor
  · obtain ⟨history, s, hrun, _, hoversleeps⟩ := exists_stalled_run
    refine ⟨history, s, hrun, ?_⟩
    intro hcondition
    have hwakes := (dynamic_wake_up_iff sampleConfig unlimited_sampleConfig 0 history s hrun).mpr
      hcondition
    exact not_wakesUp hoversleeps (hrun.forall_post wakesUp_initial hwakes)
  · obtain ⟨history, s, hrun, hready, _, hsent⟩ := Run.exists_of_guarded_replay
      (egressStep_of_next dbfDynamicPriorityScheduler sampleConfig)
      (show (replay (fun s event => if ReadyWhenIdle 0 s event then
          egressNext dbfDynamicPriorityScheduler sampleConfig s event else none)
        (Egress.initial 0)
        [.push 0 (samplePacket 0 1 3), .push 0 (samplePacket 0 5 8), .txIdle 2,
          .timer 2 ⟨0, 0⟩]).any (fun s => s.log.sent.length == 1) = true by decide +kernel)
    refine ⟨history, s, hrun, by simpa using hsent, ?_⟩
    refine (dynamic_wake_up_iff sampleConfig unlimited_sampleConfig 0 history s hrun).mpr ?_
    exact fun x hx hleaves _ => (hready x hx).waiting hleaves

theorem dynamic_wake_up_fails : ∃ history s,
    EgressRun dbfDynamicPriorityScheduler sampleConfig 0 history s ∧
    history.map Transition.event = [.txIdle 0, .push 0 (samplePacket 0 1 2)] ∧
    ¬ WakesUp s := by
  obtain ⟨history, s, hrun, hevents, hoversleeps⟩ := exists_stalled_run
  exact ⟨history, s, hrun, hevents, not_wakesUp hoversleeps⟩

end DBFDynamicPriorityScheduler

end DelayBasedForwarding
