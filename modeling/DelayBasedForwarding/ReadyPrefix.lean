import DelayBasedForwarding.PacketQueue
import DelayBasedForwarding.Library.Runs

/-!
# Ready packets form a front part of every queue

The comparator compares with the clock, so a queue is not sorted by any one
order: each packet was placed by comparisons made at its own push time.  What
all of them respect is `Precedes t`, the relation between two packets of a queue
at a time `t` no earlier than its last operation.  It is preserved by insertion
and by any removal, it only becomes weaker as time passes, and it makes the
packets that are ready at `t` a front part of the queue.
-/

namespace DelayBasedForwarding

open BackInsertion TransitionRuns

/-! ## The order of a queue at a time -/

/-- `x` may stand before `y` at time `t`: DBF packets by `tMin`, and a DBF packet
    before a best-effort packet only when it is ready. -/
def Precedes (t : SimTime) (x y : Packet) : Prop :=
  ∀ tag, x.tag = some tag →
    match y.tag with
    | some other => tag.tMin ≤ other.tMin
    | none => tag.tMin ≤ t

def QueueOrdered (t : SimTime) (packets : List Packet) : Prop :=
  packets.Pairwise (Precedes t)

section

variable {t t' : SimTime} {x y z packet : Packet} {packets : List Packet}

theorem precedes_mono (htime : t ≤ t') (h : Precedes t x y) : Precedes t' x y := by
  intro tag htag
  have hxy := h tag htag
  cases hy : y.tag with
  | none =>
      rw [hy] at hxy
      exact le_trans hxy htime
  | some other =>
      rw [hy] at hxy
      exact hxy

/-- A packet precedes the stored packet its walk passes. -/
theorem precedes_of_passed (h : comparePackets t x y < 0) : Precedes t x y := by
  intro tag htag
  unfold comparePackets at h
  rw [htag] at h
  cases hy : y.tag with
  | none =>
      rw [hy] at h
      simp only [] at h ⊢
      by_contra hlate
      rw [if_neg (by linarith)] at h
      exact absurd h (by decide)
  | some other =>
      rw [hy] at h
      simp only [] at h ⊢
      by_contra hlater
      rw [if_neg (by linarith), if_pos (by linarith)] at h
      exact absurd h (by decide)

/-- The stored packet a walk stops at precedes the new one, and so does what
    stands before it. -/
theorem precedes_of_stopped (h : ¬ comparePackets t x y < 0) : Precedes t y x := by
  intro other hy
  unfold comparePackets at h
  rw [hy] at h
  cases hx : x.tag with
  | none =>
      rw [hx] at h
      simp only [] at h ⊢
      by_contra hlate
      rw [if_pos (by linarith)] at h
      exact h (by decide)
  | some tag =>
      rw [hx] at h
      simp only [] at h ⊢
      by_contra hlater
      rw [if_pos (by linarith)] at h
      exact h (by decide)

theorem precedes_inherit (hzy : Precedes t z y) (h : ¬ comparePackets t x y < 0) :
    Precedes t z x := by
  intro tag hz
  have hyx := precedes_of_stopped h
  have hzy := hzy tag hz
  cases hy : y.tag with
  | some other =>
      -- the stop is at a DBF packet: `tMin` is transitive through it
      have hyx := hyx other hy
      rw [hy] at hzy
      cases hx : x.tag with
      | none =>
          rw [hx] at hyx
          exact le_trans hzy hyx
      | some new =>
          rw [hx] at hyx
          exact le_trans hzy hyx
  | none =>
      -- the stop is at a best-effort packet: `z` is ready, and `x` is not before `t`
      rw [hy] at hzy
      cases hx : x.tag with
      | none => exact hzy
      | some new =>
          unfold comparePackets at h
          rw [hx, hy] at h
          simp only [] at h hzy ⊢
          by_contra hlater
          rw [if_pos (by linarith)] at h
          exact h (by decide)

theorem queueOrdered_mono (htime : t ≤ t') (h : QueueOrdered t packets) :
    QueueOrdered t' packets :=
  List.Pairwise.imp (precedes_mono htime) h

theorem queueOrdered_insertPacket (h : QueueOrdered t packets) :
    QueueOrdered t (insertPacket t packet packets) := by
  apply pairwise_insertBack h
  · exact fun _ _ _ _ hpair => hpair
  · intro y _ hpass
    exact precedes_of_passed (by simpa using hpass)
  · intro y _ hstop
    exact precedes_of_stopped (by simpa using hstop)
  · intro z _ y _ hzy hstop
    exact precedes_inherit hzy (by simpa using hstop)

/-- What precedes a ready packet is ready. -/
theorem ready_of_precedes (htime : t ≤ t') (hxy : Precedes t x y)
    (hy : isPacketReadyToSend t' y = true) : isPacketReadyToSend t' x = true := by
  rw [isPacketReadyToSend_iff] at hy ⊢
  intro tag hx
  have hxy := hxy tag hx
  cases hytag : y.tag with
  | none =>
      rw [hytag] at hxy
      exact le_trans hxy htime
  | some other =>
      rw [hytag] at hxy
      exact le_trans hxy (hy other hytag)

theorem filter_ready_eq_takeWhile (htime : t ≤ t') (h : QueueOrdered t packets) :
    packets.filter (isPacketReadyToSend t') = packets.takeWhile (isPacketReadyToSend t') :=
  filter_eq_takeWhile (fun _ _ hxy hy => ready_of_precedes htime hxy hy) h

theorem front_ready (htime : t ≤ t') {front : Packet} {rest : List Packet}
    (h : QueueOrdered t (front :: rest))
    (hready : ∃ p ∈ front :: rest, isPacketReadyToSend t' p = true) :
    isPacketReadyToSend t' front = true := by
  obtain ⟨p, hp, hpReady⟩ := hready
  rcases List.mem_cons.mp hp with rfl | hp
  · exact hpReady
  · exact ready_of_precedes htime (List.rel_of_pairwise_cons h hp) hpReady

/-- An unready front packet is a DBF packet with the least `tMin` of the queue. -/
theorem front_least (htime : t ≤ t') {front : Packet} {rest : List Packet}
    (h : QueueOrdered t (front :: rest)) (hfront : isPacketReadyToSend t' front = false) :
    ∃ tag, front.tag = some tag ∧ t' < tag.tMin ∧ ∀ p ∈ front :: rest,
      ∃ other, p.tag = some other ∧ tag.tMin ≤ other.tMin := by
  have hunready : ∀ p ∈ front :: rest, isPacketReadyToSend t' p = false := by
    intro p hp
    by_contra hready
    have := front_ready htime h ⟨p, hp, by simpa using hready⟩
    rw [hfront] at this
    cases this
  have htagged : ∀ p ∈ front :: rest, ∃ tag, p.tag = some tag ∧ t' < tag.tMin := by
    intro p hp
    have := hunready p hp
    rw [← Bool.not_eq_true, isPacketReadyToSend_iff] at this
    push Not at this
    exact this
  obtain ⟨tag, htag, hlate⟩ := htagged front (by simp)
  refine ⟨tag, htag, hlate, ?_⟩
  intro p hp
  rcases List.mem_cons.mp hp with rfl | hrest
  · exact ⟨tag, htag, le_rfl⟩
  · obtain ⟨other, hother, _⟩ := htagged p hp
    have hprecedes := List.rel_of_pairwise_cons h hrest tag htag
    rw [hother] at hprecedes
    exact ⟨other, hother, hprecedes⟩

end

/-! ## Histories of one queue -/

inductive QueueOp where
  | push (packet : Packet)
  | pop
  | remove (packet : Packet)            -- by expiry or eviction

structure QueueState where
  now : SimTime
  packets : List Packet

/-- `none` where the operation has no packet to work on. -/
def QueueOp.apply (simTime : SimTime) (packets : List Packet) : QueueOp → Option (List Packet)
  | .push packet => some (insertPacket simTime packet packets)
  | .pop => packets.tail?
  | .remove packet => if packet ∈ packets then some (removePacket packet packets) else none

/-- An operation at a time not before the last one. -/
def QueueStep (s : QueueState) (event : SimTime × QueueOp) (s' : QueueState) : Prop :=
  s.now ≤ event.1 ∧ s'.now = event.1 ∧ event.2.apply event.1 s.packets = some s'.packets

/-- A push inserts a packet, and the other operations only take some out. -/
theorem QueueOp.apply_cases {simTime : SimTime} {op : QueueOp} {packets packets' : List Packet}
    (h : op.apply simTime packets = some packets') :
    (∃ packet, op = .push packet ∧ packets' = insertPacket simTime packet packets) ∨
    (∀ packet, op ≠ .push packet) ∧ packets'.Sublist packets := by
  cases op with
  | push packet =>
      simp only [apply, Option.some.injEq] at h
      exact .inl ⟨packet, rfl, h.symm⟩
  | pop =>
      refine .inr ⟨by simp, ?_⟩
      cases packets with
      | nil => simp [apply] at h
      | cons front rest =>
          simp only [apply, List.tail?_cons, Option.some.injEq] at h
          rw [← h]
          exact List.sublist_cons_self _ _
  | remove packet =>
      refine .inr ⟨by simp, ?_⟩
      simp only [apply, Option.ite_none_right_eq_some, Option.some.injEq] at h
      rw [← h.2]
      exact removePacket_sublist

/-- The invariant of a queue: the order at the time of its last operation. -/
def QueueState.Ordered (s : QueueState) : Prop := QueueOrdered s.now s.packets

theorem ordered_empty (start : SimTime) : (⟨start, []⟩ : QueueState).Ordered :=
  List.Pairwise.nil

theorem queueStep_ordered (s : QueueState) (event : SimTime × QueueOp) (s' : QueueState)
    (h : s.Ordered) (hstep : QueueStep s event s') : s'.Ordered := by
  obtain ⟨htime, hnow, happly⟩ := hstep
  have h' := queueOrdered_mono htime h
  unfold QueueState.Ordered
  rw [hnow]
  rcases QueueOp.apply_cases happly with ⟨packet, _, hpackets⟩ | ⟨_, hsub⟩
  · rw [hpackets]
    exact queueOrdered_insertPacket h'
  · exact h'.sublist hsub

theorem queueRun_ordered {start : SimTime} {history : List (Transition QueueState _)}
    {s : QueueState} (hrun : Run QueueStep ⟨start, []⟩ history s) :
    s.Ordered ∧ ∀ x ∈ history, x.pre.Ordered := by
  have h := hrun.invariant (I := QueueState.Ordered) (ordered_empty start) queueStep_ordered
  exact ⟨h.1, fun x hx => (h.2 x hx).1⟩

/-- **Ready packets form a front part of every queue.**  After any history of a
    queue and at any time `t` not before its last operation, the DBF packets
    stand in the order of `tMin`, a DBF packet before a best-effort packet is
    ready, and the queue splits into its ready packets followed by the others.
    So the scan that stops at the first unready packet sees every ready one, and
    an unready front packet means that none is ready. -/
theorem ready_packets_front {start : SimTime} {history : List (Transition QueueState _)}
    {s : QueueState} (hrun : Run QueueStep ⟨start, []⟩ history s) {t : SimTime}
    (ht : s.now ≤ t) :
    (s.packets.filterMap Packet.tag).Pairwise (fun earlier later => earlier.tMin ≤ later.tMin) ∧
    s.packets.Pairwise (fun x y => ∀ tag, x.tag = some tag → y.tag = none → tag.tMin ≤ t) ∧
    (∃ ready waiting, s.packets = ready ++ waiting ∧
      (∀ p ∈ ready, isPacketReadyToSend t p = true) ∧
      ∀ p ∈ waiting, isPacketReadyToSend t p = false) ∧
    s.packets.takeWhile (isPacketReadyToSend t) = s.packets.filter (isPacketReadyToSend t) ∧
    ∀ front rest, s.packets = front :: rest → isPacketReadyToSend t front = false →
      ∀ p ∈ s.packets, isPacketReadyToSend t p = false := by
  have hordered : QueueOrdered t s.packets := queueOrdered_mono ht (queueRun_ordered hrun).1
  refine ⟨?_, ?_, ?_, (filter_ready_eq_takeWhile le_rfl hordered).symm, ?_⟩
  · rw [List.pairwise_filterMap]
    apply List.Pairwise.imp _ hordered
    intro x y hxy tag htag other hother
    have := hxy tag htag
    rw [hother] at this
    exact this
  · apply List.Pairwise.imp _ hordered
    intro x y hxy tag htag hnone
    have := hxy tag htag
    rw [hnone] at this
    exact this
  · refine ⟨s.packets.takeWhile (isPacketReadyToSend t),
      s.packets.dropWhile (isPacketReadyToSend t), List.takeWhile_append_dropWhile.symm,
      fun p hp => List.mem_takeWhile_imp hp, ?_⟩
    exact not_of_mem_dropWhile (fun _ _ hxy hy => ready_of_precedes le_rfl hxy hy) hordered
  · intro front rest hpackets hfront p hp
    rw [hpackets] at hordered hp
    obtain ⟨tag, _, hlate, hleast⟩ := front_least le_rfl hordered hfront
    obtain ⟨other, hother, hle⟩ := hleast p hp
    rw [← Bool.not_eq_true, isPacketReadyToSend_iff]
    intro hready
    exact absurd (hready other hother) (by linarith)

/-! A DBF packet that waits for time 3 and a best-effort packet that overtakes
it at time 1. -/

def sampleWaiting : Packet :=
  { id := 0, bitLength := 800, ipv4Header := none, tag := some { tMin := 3, tMax := 5, dMax := 9 } }

def sampleBestEffort : Packet := { id := 1, bitLength := 800, ipv4Header := none }

theorem ready_packets_front_sample :
    [sampleBestEffort, sampleWaiting].takeWhile (isPacketReadyToSend 2) =
      [sampleBestEffort, sampleWaiting].filter (isPacketReadyToSend 2) := by
  have hfirst : QueueStep ⟨0, []⟩ (0, .push sampleWaiting) ⟨0, [sampleWaiting]⟩ :=
    ⟨by decide +kernel, rfl, by decide +kernel⟩
  have hsecond : QueueStep ⟨0, [sampleWaiting]⟩ (1, .push sampleBestEffort)
      ⟨1, [sampleBestEffort, sampleWaiting]⟩ :=
    ⟨by decide +kernel, rfl, by decide +kernel⟩
  have hrun := (Run.start.next hfirst).next hsecond
  exact (ready_packets_front hrun (t := 2) (by decide +kernel)).2.2.2.1

end DelayBasedForwarding
