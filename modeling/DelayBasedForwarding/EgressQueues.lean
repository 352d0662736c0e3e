import DelayBasedForwarding.Egress
import DelayBasedForwarding.Dropper
import DelayBasedForwarding.Registry
import DelayBasedForwarding.Library.Folds
import Mathlib.Data.List.Nodup

/-!
# The queues of an egress

What holds of the stored packets in every state of a run, whichever scheduler is
used, and what the expiry sweep does to them: it leaves exactly the unexpired
packets in every queue, whatever the checks do to the timer.
-/

namespace DelayBasedForwarding

open BackInsertion FoldInvariant

/-- Every queue is ordered, every stored packet is one object in one queue, the
    queue of its delta, and has a window that is not inverted. -/
structure WellFormed (par : ClassifierParameters) (s : Egress) : Prop where
  coherent : s.registry.Coherent
  ordered : ∀ q, QueueOrdered s.now (s.queues q)
  nodup : ∀ q, ((s.queues q).map Packet.id).Nodup
  apart : ∀ q q' p p', p ∈ s.queues q → p' ∈ s.queues q' → p.id = p'.id → q = q'
  fresh : ∀ q, ∀ p ∈ s.queues q, p.id < s.nextPacket
  classified : ∀ q, ∀ p ∈ s.queues q, ∃ delta,
    packetDelta par p = some delta ∧ (delta, q) ∈ s.registry.deltaQueueMap
  window : ∀ q, ∀ p ∈ s.queues q, ∀ tag ∈ p.tag, tag.dMax = 0 ∨ tag.tMin ≤ tag.tMax

variable {par : ClassifierParameters} {s s' : Egress} {q q' : QueueId} {p p' packet : Packet}

theorem wellFormed_initial (par : ClassifierParameters) (count : Nat) :
    WellFormed par (Egress.initial count) := by
  constructor
  · exact Registry.coherent_prebuilt count
  all_goals simp [Egress.initial, QueueOrdered]

theorem getPacket_of_queue {rest : List Packet} (hcollection : s.registry.collections[q]? = some q)
    (hqueue : s.queues q = p :: rest) : s.getPacket q FRONTIDX = .ok p := by
  simp [Egress.getPacket, Egress.getPackets, hcollection, hqueue, FRONTIDX]

namespace WellFormed

/-- Time passes and packets leave. -/
theorem sublist (h : WellFormed par s) (hnow : s.now ≤ s'.now)
    (hregistry : s'.registry = s.registry) (hnext : s'.nextPacket = s.nextPacket)
    (hsub : ∀ q, (s'.queues q).Sublist (s.queues q)) : WellFormed par s' := by
  constructor
  · rw [hregistry]
    exact h.coherent
  · intro q
    exact (queueOrdered_mono hnow (h.ordered q)).sublist (hsub q)
  · intro q
    exact (h.nodup q).sublist ((hsub q).map _)
  · intro q q' p p' hp hp'
    exact h.apart q q' p p' ((hsub q).subset hp) ((hsub q').subset hp')
  · intro q p hp
    rw [hnext]
    exact h.fresh q p ((hsub q).subset hp)
  · intro q p hp
    rw [hregistry]
    exact h.classified q p ((hsub q).subset hp)
  · intro q p hp
    exact h.window q p ((hsub q).subset hp)

/-- Two stored packets with one identity are one packet. -/
theorem eq_of_id (h : WellFormed par s) (hp : p ∈ s.queues q) (hp' : p' ∈ s.queues q')
    (hid : p.id = p'.id) : q = q' ∧ p = p' := by
  have hq := h.apart q q' p p' hp hp' hid
  subst hq
  exact ⟨rfl, List.inj_on_of_nodup_map (h.nodup q) hp hp' hid⟩

/-- The next packet is a new object in every queue. -/
theorem fresh_id (h : WellFormed par s) (q : QueueId) :
    s.nextPacket ∉ (s.queues q).map Packet.id := by
  intro hold
  obtain ⟨p, hp, hid⟩ := List.mem_map.mp hold
  exact absurd hid (Nat.ne_of_lt (h.fresh q p hp))

theorem entry_of_delta (h : WellFormed par s) (hp : p ∈ s.queues q) {delta : SimTime}
    (hdelta : packetDelta par p = some delta) : (delta, q) ∈ s.registry.deltaQueueMap := by
  obtain ⟨d, hd, hentry⟩ := h.classified q p hp
  cases hd.symm.trans hdelta
  exact hentry

theorem index_lt (h : WellFormed par s) (hp : p ∈ s.queues q) :
    q < s.registry.modules.length := by
  obtain ⟨_, _, hentry⟩ := h.classified q p hp
  exact h.coherent.index_lt hentry

theorem collection (h : WellFormed par s) (hp : p ∈ s.queues q) :
    s.registry.collections[q]? = some q :=
  h.coherent.collection (h.index_lt hp)

theorem getPackets (h : WellFormed par s) (hp : p ∈ s.queues q) :
    s.getPackets q = .ok (s.queues q) := by
  simp [Egress.getPackets, h.collection hp]

theorem getPacket_front (h : WellFormed par s) {rest : List Packet}
    (hqueue : s.queues q = p :: rest) : s.getPacket q FRONTIDX = .ok p := by
  have hp : p ∈ s.queues q := by simp [hqueue]
  exact getPacket_of_queue (h.collection hp) hqueue

theorem canPopSomePacket (h : WellFormed par s) {delta : SimTime}
    (hentry : (delta, q) ∈ s.registry.deltaQueueMap) :
    s.canPopSomePacket q = .ok (!(s.queues q).isEmpty) := by
  simp [Egress.canPopSomePacket, h.coherent.provider (h.coherent.index_lt hentry)]

end WellFormed

/-! ## A push -/

/-- The state in which a classified packet reaches its queue. -/
def Egress.arrived (s : Egress) (simTime : SimTime) (packet : Packet) (registry : Registry) :
    Egress :=
  { s with now := simTime, nextPacket := s.nextPacket + 1, registry := registry,
           log := { s.log with pushed := s.log.pushed ++ [packet] } }

/-- A push inserts one new object into the queue of its delta and drops some packets. -/
theorem WellFormed.push (h : WellFormed par s) (object : Packet) {simTime delta : SimTime}
    {registry : Registry} (htime : s.now ≤ simTime) (hid : object.id = s.nextPacket)
    (hdelta : packetDelta par object = some delta)
    (hclass : Registry.Classified s.registry delta q registry)
    (hwindow : ∀ tag ∈ object.tag, tag.dMax = 0 ∨ tag.tMin ≤ tag.tMax)
    {kept : List Packet} (hkept : kept.Sublist (insertPacket simTime object (s.queues q))) :
    WellFormed par ((s.arrived simTime object registry).setQueue q kept) := by
  have hmem : ∀ a, ∀ p ∈ Function.update s.queues q kept a,
      p ∈ s.queues a ∨ (a = q ∧ p = object) := by
    intro a p hp
    by_cases ha : a = q
    · subst ha
      rw [Function.update_self] at hp
      rcases mem_insertPacket.mp (hkept.subset hp) with h | h
      · exact .inr ⟨rfl, h⟩
      · exact .inl h
    · rw [Function.update_of_ne ha] at hp
      exact .inl hp
  constructor
  · exact hclass.coherent
  · intro a
    simp only [Egress.setQueue, Egress.arrived]
    by_cases ha : a = q
    · subst ha
      rw [Function.update_self]
      exact (queueOrdered_insertPacket (queueOrdered_mono htime (h.ordered a))).sublist hkept
    · rw [Function.update_of_ne ha]
      exact queueOrdered_mono htime (h.ordered a)
  · intro a
    simp only [Egress.setQueue, Egress.arrived]
    by_cases ha : a = q
    · subst ha
      rw [Function.update_self]
      have hnew : object.id ∉ (s.queues a).map Packet.id := hid ▸ h.fresh_id a
      exact (ids_insertPacket (h.nodup a) hnew).sublist (hkept.map _)
    · rw [Function.update_of_ne ha]
      exact h.nodup a
  · intro a b p p' hp hp' hpid
    rcases hmem a p hp with hold | ⟨rfl, hnew⟩ <;>
      rcases hmem b p' hp' with hold' | ⟨rfl, hnew'⟩
    · exact h.apart a b p p' hold hold' hpid
    · have := h.fresh a p hold
      rw [hnew'] at hpid
      omega
    · have := h.fresh b p' hold'
      rw [hnew] at hpid
      omega
    · rfl
  · intro a p hp
    simp only [Egress.setQueue, Egress.arrived]
    rcases hmem a p hp with hp | ⟨rfl, rfl⟩
    · have := h.fresh a p hp
      omega
    · omega
  · intro a p hp
    rcases hmem a p hp with hp | ⟨rfl, rfl⟩
    · obtain ⟨d, hd, hentry⟩ := h.classified a p hp
      exact ⟨d, hd, hclass.kept hentry⟩
    · exact ⟨delta, hdelta, hclass.entry⟩
  · intro a p hp
    rcases hmem a p hp with hp | ⟨rfl, rfl⟩
    · exact h.window a p hp
    · exact hwindow

/-! ## Evictions

A queue with a limit of at least one packet is never emptied: what is dropped is one
of at least two packets. -/

def KeepsOne (capacity : QueueCapacity) : Prop :=
  capacity.dataCapacity = none ∧ ∀ limit ∈ capacity.packetCapacity, 1 ≤ limit

def Unlimited (config : EgressConfig) : Prop := ∀ q, config.capacity q = {}

theorem Unlimited.keepsOne {config : EgressConfig} (h : Unlimited config) (q : QueueId) :
    KeepsOne (config.capacity q) := by
  rw [h q]
  exact ⟨rfl, by simp⟩

theorem two_of_isOverloaded {capacity : QueueCapacity} {packets : List Packet}
    (hcapacity : KeepsOne capacity) (h : isOverloaded capacity packets = true) :
    2 ≤ packets.length := by
  obtain ⟨hdata, hpackets⟩ := hcapacity
  unfold isOverloaded at h
  rw [hdata] at h
  cases hlimit : capacity.packetCapacity with
  | none =>
      rw [hlimit] at h
      simp at h
  | some limit =>
      have := hpackets limit hlimit
      rw [hlimit] at h
      simp only [Bool.or_false, decide_eq_true_eq] at h
      omega

section

variable {t : SimTime} {capacity : QueueCapacity}

/-- Something is left, expired or not. -/
theorem pushPacket_ne_nil (hcapacity : KeepsOne capacity) (packets : List Packet) :
    (pushPacket capacity t packet packets).1 ≠ [] := by
  have hkeeps : ∀ (fuel : Nat) (packets : List Packet), packets ≠ [] →
      (dropOverload capacity t fuel packets).1 ≠ [] := by
    intro fuel
    induction fuel with
    | zero => exact fun _ h => h
    | succ fuel ih =>
        intro packets hne
        unfold dropOverload
        by_cases hover : isOverloaded capacity packets = true
        · rw [if_pos hover]
          have htwo := two_of_isOverloaded hcapacity hover
          obtain ⟨victim, hvictim⟩ := selectPacket_isSome t hne
          rw [hvictim]
          apply ih
          have hlength := length_removePacket (selectPacket_mem hvictim)
          apply List.ne_nil_of_length_pos
          omega
        · rw [if_neg hover]
          exact hne
  apply hkeeps
  apply List.ne_nil_of_length_pos
  rw [length_insertPacket]
  omega

end

/-! ## The expiry sweep -/

namespace Egress

def expiredOf (s : Egress) (q : QueueId) : List Packet :=
  (s.queues q).filter (packetExpired s.now)

def unexpired (s : Egress) (q : QueueId) : List Packet :=
  (s.queues q).filter fun packet => !packetExpired s.now packet

/-- The state after the turns of `done`, with the timer the checks have left. -/
def sweptTo (s : Egress) (done : List QueueId) (timer : Timer) : Egress :=
  { s with
    queues := fun q => if q ∈ done then s.unexpired q else s.queues q,
    timer := timer,
    log := { s.log with
      expired := s.log.expired ++ done.flatMap fun q => (s.expiredOf q).map (s.now, ·) } }

/-- The state after the sweep. -/
def swept (s : Egress) (timer : Timer) : Egress :=
  { s with
    queues := s.unexpired,
    timer := timer,
    log := { s.log with
      expired := s.log.expired ++
        s.registry.collections.flatMap fun q => (s.expiredOf q).map (s.now, ·) } }

end Egress

/-- Deleting one more of the expired packets. -/
theorem deleteExpired_next {done rest : List Packet} {e : Packet}
    (hids : ((s.queues q).map Packet.id).Nodup) (hsplit : s.expiredOf q = done ++ e :: rest) :
    Egress.deleteExpired q { s.setQueue q
        ((s.queues q).filter fun p => decide (p.id ∉ done.map Packet.id)) with
      log := { s.log with expired := s.log.expired ++ done.map (s.now, ·) } } e =
    .ok { s.setQueue q
        ((s.queues q).filter fun p => decide (p.id ∉ (done ++ [e]).map Packet.id)) with
      log := { s.log with expired := s.log.expired ++ (done ++ [e]).map (s.now, ·) } } := by
  have hmem : e ∈ s.queues q :=
    List.mem_of_mem_filter (show e ∈ s.expiredOf q by simp [hsplit])
  have hnot : e.id ∉ done.map Packet.id := by
    have hsub := hids.sublist ((List.filter_sublist (p := packetExpired s.now)).map Packet.id)
    rw [show (s.queues q).filter (packetExpired s.now) = done ++ e :: rest from hsplit,
      List.map_append, List.nodup_append] at hsub
    intro hin
    exact hsub.2.2 _ hin e.id (by simp) rfl
  have hstored : e ∈ (s.queues q).filter fun p => decide (p.id ∉ done.map Packet.id) := by
    rw [List.mem_filter]
    exact ⟨hmem, by simpa using hnot⟩
  have hany : ((s.queues q).filter fun p => decide (p.id ∉ done.map Packet.id)).any
      (fun stored => stored.id == e.id) = true :=
    List.any_eq_true.mpr ⟨e, hstored, by simp⟩
  have hleft : removePacket e
      ((s.queues q).filter fun p => decide (p.id ∉ done.map Packet.id)) =
      (s.queues q).filter fun p => decide (p.id ∉ (done ++ [e]).map Packet.id) := by
    rw [removePacket_eq_filter (hids.sublist (List.filter_sublist.map _)), List.filter_filter]
    apply List.filter_congr
    intro p _
    rw [Bool.eq_iff_iff]
    simp only [Bool.and_eq_true, bne_iff_ne, decide_eq_true_eq, List.map_append,
      List.mem_append, List.map_singleton, List.mem_singleton, not_or]
    exact and_comm
  simp only [Egress.deleteExpired, Egress.removePacket, Egress.setQueue,
    Function.update_self, hany, if_true, ok_bind, hleft, Function.update_idem]
  simp

/-- What is left when the identities of the expired packets are taken out. -/
theorem filter_expired_ids (hids : ((s.queues q).map Packet.id).Nodup) :
    ((s.queues q).filter fun p => decide (p.id ∉ (s.expiredOf q).map Packet.id)) =
      s.unexpired q := by
  apply List.filter_congr
  intro p hp
  rw [Bool.eq_iff_iff, decide_eq_true_iff, Bool.not_eq_true']
  unfold Egress.expiredOf
  constructor
  · intro hnot
    by_contra hexpired
    rw [Bool.not_eq_false] at hexpired
    exact hnot (List.mem_map_of_mem (List.mem_filter.mpr ⟨hp, hexpired⟩))
  · intro hexpired hin
    obtain ⟨e, he, heq⟩ := List.mem_map.mp hin
    rw [List.mem_filter] at he
    rw [List.inj_on_of_nodup_map hids he.1 hp heq, hexpired] at he
    exact absurd he.2 (by simp)

/-- Removing the expired packets one by one leaves the others. -/
theorem deleteExpired_all (hids : ((s.queues q).map Packet.id).Nodup) :
    (s.expiredOf q).foldlM (Egress.deleteExpired q) s =
      .ok { s.setQueue q (s.unexpired q) with
        log := { s.log with
          expired := s.log.expired ++ (s.expiredOf q).map (s.now, ·) } } := by
  obtain ⟨t, hfold, rfl⟩ := foldlM_ok (f := Egress.deleteExpired q) (l := s.expiredOf q) (t := s)
    (fun done t => t = { s.setQueue q
        ((s.queues q).filter fun p => decide (p.id ∉ done.map Packet.id)) with
      log := { s.log with expired := s.log.expired ++ done.map (s.now, ·) } })
    (by simp [Egress.setQueue]) (by
      rintro done e rest t hsplit rfl
      exact ⟨_, deleteExpired_next hids hsplit, rfl⟩)
  rw [hfold, filter_expired_ids hids]

/-- One turn of the sweep, given what the checks do to the timer. -/
theorem sweepCollection_ok {check : Egress → Packet → Except EgressError Timer}
    {done : List QueueId} {timer timer' : Timer} (hids : ((s.queues q).map Packet.id).Nodup)
    (hq : q ∉ done)
    (hcheck : (s.expiredOf q).foldlM (fun timer packet => check (s.sweptTo done timer) packet)
      timer = .ok timer') :
    Egress.sweepCollection check (s.sweptTo done timer) q =
      .ok (s.sweptTo (done ++ [q]) timer') := by
  have hqueue : ∀ timer, (s.sweptTo done timer).queues q = s.queues q := by
    intro timer
    simp [Egress.sweptTo, hq]
  have hexpired : ∀ timer, (s.sweptTo done timer).expiredOf q = s.expiredOf q := by
    intro timer
    unfold Egress.expiredOf
    rw [hqueue]
    rfl
  unfold Egress.sweepCollection
  rw [show ((s.sweptTo done timer).queues q).filter (packetExpired (s.sweptTo done timer).now) =
    s.expiredOf q from hexpired timer]
  have hfold : (s.expiredOf q).foldlM
      (fun timer' packet => check { s.sweptTo done timer with timer := timer' } packet)
      (s.sweptTo done timer).timer = .ok timer' := hcheck
  simp only [hfold, ok_bind]
  have hdelete := deleteExpired_all (s := s.sweptTo done timer') (q := q) (by rwa [hqueue])
  rw [hexpired] at hdelete
  refine hdelete.trans ?_
  congr 1
  have hqueues : Function.update (s.sweptTo done timer').queues q
      ((s.sweptTo done timer').unexpired q) =
      (s.sweptTo (done ++ [q]) timer').queues := by
    funext a
    by_cases ha : a = q
    · subst ha
      simp [Egress.sweptTo, Egress.unexpired, hq]
    · simp [Egress.sweptTo, ha]
  simp only [Egress.setQueue, hqueues]
  simp [Egress.sweptTo]

@[simp] theorem timer_sweptTo (s : Egress) (done : List QueueId) (timer : Timer) :
    (s.sweptTo done timer).timer = timer := rfl

theorem sweptTo_nil (s : Egress) : s.sweptTo [] s.timer = s := by
  simp [Egress.sweptTo]

theorem sweptTo_collections (h : WellFormed par s) (timer : Timer) :
    s.sweptTo s.registry.collections timer = s.swept timer := by
  have hqueues : (fun q => if q ∈ s.registry.collections then s.unexpired q else s.queues q) =
      s.unexpired := by
    funext q
    split
    · rfl
    · next hq =>
        have hempty : s.queues q = [] := by
          rw [List.eq_nil_iff_forall_not_mem]
          intro p hp
          exact hq (List.mem_of_getElem? (h.collection hp))
        simp [Egress.unexpired, hempty]
  unfold Egress.sweptTo Egress.swept
  rw [hqueues]

/-- **The sweep.**  If the checks of every queue succeed and keep `R`, the sweep
    succeeds and leaves the unexpired packets. -/
theorem sweep_ok (check : Egress → Packet → Except EgressError Timer) (h : WellFormed par s)
    (R : List QueueId → Timer → Prop) (hstart : R [] s.timer)
    (hturn : ∀ done q timer, q ∉ done → R done timer → ∃ timer',
      (s.expiredOf q).foldlM (fun timer packet => check (s.sweptTo done timer) packet) timer =
        .ok timer' ∧ R (done ++ [q]) timer') :
    ∃ timer', s.registry.collections.foldlM (Egress.sweepCollection check) s =
      .ok (s.swept timer') ∧ R s.registry.collections timer' := by
  have hnodup : s.registry.collections.Nodup := by
    rw [h.coherent.collections]
    exact List.nodup_range
  obtain ⟨t, hfold, timer', rfl, hR⟩ := foldlM_ok (f := Egress.sweepCollection check)
    (l := s.registry.collections) (t := s)
    (fun done t => ∃ timer, t = s.sweptTo done timer ∧ R done timer)
    ⟨s.timer, (sweptTo_nil s).symm, hstart⟩ (by
      rintro done q rest t hsplit ⟨timer, rfl, hR⟩
      have hq : q ∉ done := by
        rw [hsplit, List.nodup_append] at hnodup
        intro hin
        exact hnodup.2.2 _ hin q (by simp) rfl
      obtain ⟨timer', hcheck, hR'⟩ := hturn done q timer hq hR
      exact ⟨_, sweepCollection_ok (h.nodup q) hq hcheck, timer', rfl, hR'⟩)
  refine ⟨timer', ?_, hR⟩
  rw [hfold, sweptTo_collections h]

section

variable {timer : Timer}

@[simp] theorem queues_swept : (s.swept timer).queues = s.unexpired := rfl
@[simp] theorem now_swept : (s.swept timer).now = s.now := rfl
@[simp] theorem txIdleCounter_swept : (s.swept timer).txIdleCounter = s.txIdleCounter := rfl
@[simp] theorem timer_swept : (s.swept timer).timer = timer := rfl

theorem mem_unexpired : p ∈ s.unexpired q ↔ p ∈ s.queues q ∧ packetExpired s.now p = false := by
  simp [Egress.unexpired, List.mem_filter]

theorem wellFormed_swept (h : WellFormed par s) (timer : Timer) :
    WellFormed par (s.swept timer) :=
  h.sublist le_rfl rfl rfl fun _ => List.filter_sublist

end

end DelayBasedForwarding
