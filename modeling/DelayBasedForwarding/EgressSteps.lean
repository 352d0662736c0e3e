import DelayBasedForwarding.EgressQueues

/-!
# The steps of an egress

What one event does to everything but the timer is the same for both schedulers.
`Effect` states it, with a timer left open: a push and an idle signal end in an
expiry sweep, and a timer that fires sends one ready and unexpired packet of the
queue it was armed for.  What remains for a scheduler to show is in `Discipline`.
-/

namespace DelayBasedForwarding

open FoldInvariant TransitionRuns

namespace Egress

/-- After a push, before the scheduler is notified. -/
def pushed (config : EgressConfig) (s : Egress) (simTime : SimTime) (packet : Packet)
    (registry : Registry) (q : QueueId) : Egress :=
  let object := { packet with id := s.nextPacket }
  let outcome := pushPacket (config.capacity q) simTime object (s.queues q)
  let arrived := (s.arrived simTime object registry).setQueue q outcome.1
  { arrived with log := { arrived.log with dropped := arrived.log.dropped ++ outcome.2 } }

/-- After an idle signal is counted. -/
def idled (s : Egress) (simTime : SimTime) : Egress :=
  { s with now := simTime, txIdleCounter := 1,
           log := { s.log with idleSignals := s.log.idleSignals + 1 } }

/-- After a timer has sent `p`. -/
def fired (s : Egress) (simTime : SimTime) (collectionIdx : Nat) (p out : Packet)
    (timer : Timer) : Egress :=
  { s.setQueue collectionIdx (DelayBasedForwarding.removePacket p (s.queues collectionIdx)) with
    now := simTime, txIdleCounter := 0, timer := timer,
    log := { s.log with sent := s.log.sent ++ [⟨simTime, collectionIdx, p, out⟩] } }

end Egress

variable {scheduler : Scheduler} {config : EgressConfig} {s s' : Egress} {t : SimTime}
  {packet : Packet} {event : EgressEvent}

theorem queues_pushed_self {registry : Registry} {q : QueueId} :
    (s.pushed config t packet registry q).queues q =
      (pushPacket (config.capacity q) t { packet with id := s.nextPacket } (s.queues q)).1 :=
  Function.update_self _ _ _

theorem queues_pushed_of_ne {registry : Registry} {q a : QueueId} (ha : a ≠ q) :
    (s.pushed config t packet registry q).queues a = s.queues a :=
  Function.update_of_ne ha _ _

theorem mem_of_mem_pushed {registry : Registry} {q a : QueueId} {p : Packet}
    (hp : p ∈ (s.pushed config t packet registry q).queues a) :
    p ∈ s.queues a ∨ (a = q ∧ p = { packet with id := s.nextPacket }) := by
  by_cases ha : a = q
  · subst ha
    rw [queues_pushed_self] at hp
    rcases pushPacket_subset hp with hnew | hold
    · exact .inr ⟨rfl, hnew⟩
    · exact .inl hold
  · rw [queues_pushed_of_ne ha] at hp
    exact .inl hp

theorem pushed_not_empty {registry : Registry} {q : QueueId}
    (hcapacity : KeepsOne (config.capacity q)) :
    ¬ ((s.pushed config t packet registry q).queues q).isEmpty = true := by
  rw [queues_pushed_self, List.isEmpty_iff]
  exact pushPacket_ne_nil hcapacity _

theorem pushed_ne_nil {registry : Registry} {q a : QueueId} {p : Packet}
    (hcapacity : KeepsOne (config.capacity q)) (hp : p ∈ s.queues a) :
    (s.pushed config t packet registry q).queues a ≠ [] := by
  by_cases ha : a = q
  · subst ha
    exact mt List.isEmpty_iff.mpr (pushed_not_empty hcapacity)
  · rw [queues_pushed_of_ne ha]
    exact List.ne_nil_of_mem hp

theorem handle_push (h : s.registry.Coherent) :
    packetDelta config.classifier packet = none ∧
      scheduler.handle config s (.push t packet) = .error (.classifier .endlessLoop) ∨
    ∃ delta q registry, packetDelta config.classifier packet = some delta ∧
      Registry.Classified s.registry delta q registry ∧
      scheduler.handle config s (.push t packet) =
        if ((s.pushed config t packet registry q).queues q).isEmpty then
          .ok (s.pushed config t packet registry q)
        else scheduler.handleCanPopPacket (s.pushed config t packet registry q) := by
  have hsame : s.registry.classifyPacket config.classifier { packet with id := s.nextPacket } =
      s.registry.classifyPacket config.classifier packet := rfl
  simp only [Scheduler.handle, Scheduler.classifierHandleMessage, hsame]
  cases hclassify : s.registry.classifyPacket config.classifier packet with
  | error error =>
      left
      obtain ⟨hnone, rfl⟩ := Registry.classifyPacket_error h hclassify
      exact ⟨hnone, rfl⟩
  | ok result =>
      right
      obtain ⟨consumerIdx, registry⟩ := result
      obtain ⟨delta, hdelta, hclass⟩ := Registry.classifyPacket_ok h hclassify
      have hconsumer := hclass.coherent.consumer (hclass.coherent.index_lt hclass.entry)
      refine ⟨delta, consumerIdx, registry, hdelta, hclass, ?_⟩
      simp [hconsumer, Scheduler.pushPacket, Egress.pushed, Egress.arrived, Egress.setQueue]

theorem handle_txIdle (hidle : s.txIdleCounter = 0) {timer : Timer}
    (hsweep : scheduler.lookForExpiredPackets (s.idled t) = .ok ((s.idled t).swept timer)) :
    scheduler.handle config s (.txIdle t) = scheduler.handleCanPopPacket (s.idled t) := by
  have hcounted : { s with
      now := t, txIdleCounter := s.txIdleCounter + 1,
      log := { s.log with idleSignals := s.log.idleSignals + 1 } } = s.idled t := by
    simp [Egress.idled, hidle]
  have hsignal : scheduler.handle config s (.txIdle t) =
      if s.txIdleCounter + 1 = 1 then do
        let s ← scheduler.lookForExpiredPackets (s.idled t)
        let timer ← scheduler.schedule s
        .ok { s with timer := timer }
      else .error (.receiveSignalTxIdleCounter (s.txIdleCounter + 1)) := by
    rw [← hcounted]
    rfl
  rw [hsignal, if_pos (by omega)]
  unfold Scheduler.handleCanPopPacket
  simp only [hsweep, ok_bind, txIdleCounter_swept]
  rfl

theorem handle_txIdle_error (hidle : s.txIdleCounter ≠ 0) :
    scheduler.handle config s (.txIdle t) =
      .error (.receiveSignalTxIdleCounter (s.txIdleCounter + 1)) := by
  simp [Scheduler.handle, Scheduler.receiveSignal, hidle]

/-! ## Effects -/

inductive Effect (config : EgressConfig) (s : Egress) : EgressEvent → Egress → Prop where
  | push {t : SimTime} {packet : Packet} {delta : SimTime} {q : QueueId} {registry : Registry}
      (timer : Timer) :
      packetDelta config.classifier packet = some delta →
      Registry.Classified s.registry delta q registry →
      Effect config s (.push t packet) ((s.pushed config t packet registry q).swept timer)
  | txIdle {t : SimTime} (timer : Timer) :
      s.txIdleCounter = 0 →
      Effect config s (.txIdle t) ((s.idled t).swept timer)
  | timer {t : SimTime} {msg : DBFPriorityScheduleMsg} {p out : Packet} (timer : Timer) :
      s.timer.events = [(msg, t)] → s.txIdleCounter = 1 →
      p ∈ s.queues msg.collectionIdx → isPacketReadyToSend t p = true →
      packetExpired t p = false → writeEDelay t p = some out →
      timer.events = [] →
      Effect config s (.timer t msg) (s.fired t msg.collectionIdx p out timer)

theorem window_of_admissible (h : Admissible (.push t packet)) :
    ∀ tag ∈ packet.tag, tag.dMax = 0 ∨ tag.tMin ≤ tag.tMax := by
  intro tag htag
  obtain ⟨_, hinfinite | hwindow⟩ := h tag htag
  · exact .inl hinfinite
  · exact .inr ((le_max_left _ _).trans hwindow)

theorem wellFormed_pushed (h : WellFormed config.classifier s) (htime : s.now ≤ t)
    {delta : SimTime} {q : QueueId} {registry : Registry}
    (hadmissible : Admissible (.push t packet))
    (hdelta : packetDelta config.classifier packet = some delta)
    (hclass : Registry.Classified s.registry delta q registry) :
    WellFormed config.classifier (s.pushed config t packet registry q) := by
  have hpush := h.push { packet with id := s.nextPacket } htime rfl hdelta hclass
    (window_of_admissible hadmissible) (pushPacket_sublist (config.capacity q))
  exact hpush.sublist le_rfl rfl rfl fun _ => List.Sublist.refl _

/-- What a push inserts, before anything is dropped. -/
theorem wellFormed_inserted (h : WellFormed config.classifier s) (htime : s.now ≤ t)
    {delta : SimTime} {q : QueueId} {registry : Registry}
    (hadmissible : Admissible (.push t packet))
    (hdelta : packetDelta config.classifier packet = some delta)
    (hclass : Registry.Classified s.registry delta q registry) :
    QueueOrdered t (insertPacket t { packet with id := s.nextPacket } (s.queues q)) ∧
    ((insertPacket t { packet with id := s.nextPacket } (s.queues q)).map Packet.id).Nodup := by
  have hpush := h.push { packet with id := s.nextPacket } htime rfl hdelta hclass
    (window_of_admissible hadmissible) (List.Sublist.refl _)
  have hordered := hpush.ordered q
  have hids := hpush.nodup q
  simp only [Egress.setQueue, Function.update_self] at hordered hids
  exact ⟨hordered, hids⟩

/-- A push that does not empty a queue with an unexpired packet leaves one there, and a
    ready one if that packet was ready. -/
theorem exists_pushed (h : WellFormed config.classifier s) (htime : s.now ≤ t) {delta : SimTime}
    {q a : QueueId} {registry : Registry} (hadmissible : Admissible (.push t packet))
    (hdelta : packetDelta config.classifier packet = some delta)
    (hclass : Registry.Classified s.registry delta q registry)
    (hne : (s.pushed config t packet registry q).queues a ≠ []) {p : Packet}
    (hp : p ∈ s.queues a) (hunexpired : packetExpired t p = false) :
    ∃ p' ∈ (s.pushed config t packet registry q).queues a, packetExpired t p' = false ∧
      (isPacketReadyToSend t p = true → isPacketReadyToSend t p' = true) := by
  by_cases ha : a = q
  · subst ha
    rw [queues_pushed_self] at hne ⊢
    obtain ⟨hordered, hids⟩ := wellFormed_inserted h htime hadmissible hdelta hclass
    have hmem : p ∈ insertPacket t { packet with id := s.nextPacket } (s.queues a) :=
      mem_insertPacket.mpr (.inr hp)
    obtain ⟨first, hfirst⟩ := exists_firstUnexpired hmem hunexpired
    rcases pushPacket_first (config.capacity a) hids hfirst with ⟨_, hkept⟩ | ⟨_, hnil⟩
    · exact ⟨first, hkept, (firstUnexpired_spec hfirst).2,
        firstUnexpired_ready hordered hfirst hmem hunexpired⟩
    · exact absurd hnil hne
  · rw [queues_pushed_of_ne ha]
    exact ⟨p, hp, hunexpired, id⟩

theorem wellFormed_idled {par : ClassifierParameters} (h : WellFormed par s)
    (htime : s.now ≤ t) : WellFormed par (s.idled t) :=
  h.sublist htime rfl rfl fun _ => List.Sublist.refl _

theorem fired_sublist (s : Egress) (t : SimTime) (collectionIdx : Nat) (p out : Packet)
    (timer : Timer) (q : QueueId) :
    ((s.fired t collectionIdx p out timer).queues q).Sublist (s.queues q) := by
  simp only [Egress.fired, Egress.setQueue]
  by_cases hq : q = collectionIdx
  · subst hq
    rw [Function.update_self]
    exact removePacket_sublist
  · rw [Function.update_of_ne hq]

theorem wellFormed_fired {par : ClassifierParameters} (h : WellFormed par s)
    (htime : s.now ≤ t) (collectionIdx : Nat) (p out : Packet) (timer : Timer) :
    WellFormed par (s.fired t collectionIdx p out timer) :=
  h.sublist htime rfl rfl (fired_sublist s t collectionIdx p out timer)

theorem Effect.wellFormed (h : WellFormed config.classifier s) (htime : s.now ≤ event.simTime)
    (hadmissible : Admissible event) (heffect : Effect config s event s') :
    WellFormed config.classifier s' := by
  cases heffect with
  | push timer hdelta hclass =>
      exact wellFormed_swept (wellFormed_pushed h htime hadmissible hdelta hclass) timer
  | txIdle timer _ => exact wellFormed_swept (wellFormed_idled h htime) timer
  | timer timer _ _ _ _ _ _ _ => exact wellFormed_fired h htime _ _ _ timer

end DelayBasedForwarding
