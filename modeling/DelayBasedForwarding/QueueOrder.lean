import DelayBasedForwarding.ReadyPrefix

/-!
# The order inside a queue

Beyond `Precedes`, the comparator is meant to put the DBF packets with the admit
bit before the others of the same `tMin`, to keep the order of arrival among
equals, and to put a ready DBF packet in front of the best-effort packets.  The
order of arrival is kept in every history.  The other two depend on how far the
insertion walk comes: it stops at a best-effort packet while `tMin` is the
current time, and at a DBF packet that was itself queued behind a best-effort one.
-/

namespace DelayBasedForwarding

open BackInsertion TransitionRuns

section

variable {t : SimTime} {x y packet : Packet} {packets : List Packet} {tag other : DBFHeaderTag}

/-! ## When a packet passes another -/

theorem passes_iff (hx : x.tag = some tag) (hy : y.tag = some other) :
    comparePackets t x y < 0 ↔
      tag.tMin < other.tMin ∨ tag.tMin = other.tMin ∧ tag.admitBit ≠ 0 ∧ other.admitBit = 0 := by
  unfold comparePackets PACKET1HIGHERPRIORITY PACKET2HIGHERPRIORITY
  rw [hx, hy]
  simp only []
  rcases lt_trichotomy tag.tMin other.tMin with hlt | heq | hgt
  · simp [hlt]
  · by_cases hadmitted : tag.admitBit = 0 <;> by_cases hadmitted' : other.admitBit = 0 <;>
      simp [heq, hadmitted, hadmitted']
  · simp [hgt, not_lt.mpr hgt.le, hgt.ne']

theorem passes_bestEffort_iff (hx : x.tag = some tag) (hy : y.tag = none) :
    comparePackets t x y < 0 ↔ tag.tMin < t := by
  unfold comparePackets PACKET1HIGHERPRIORITY PACKET2HIGHERPRIORITY
  rw [hx, hy]
  by_cases hlt : tag.tMin < t <;> simp [hlt]

theorem not_passes_bestEffort (hx : x.tag = none) (hy : y.tag = none) :
    ¬ comparePackets t x y < 0 := by
  simp [comparePackets, hx, hy, PACKET2HIGHERPRIORITY]

/-! ## The order of arrival -/

def arrival : QueueOp → Option Packet
  | .push packet => some packet
  | _ => none

def arrivals (history : List (Transition QueueState (SimTime × QueueOp))) : List Packet :=
  history.filterMap fun x => arrival x.event.2

theorem arrivals_append (history : List (Transition QueueState (SimTime × QueueOp)))
    (x : Transition QueueState (SimTime × QueueOp)) :
    arrivals (history ++ [x]) = arrivals history ++ (arrival x.event.2).toList := by
  unfold arrivals
  rw [List.filterMap_append]
  cases h : arrival x.event.2 <;> simp [h]

/-- A DBF packet with this `tMin` and this admit status. -/
def ofClass (tMin : SimTime) (admitted : Bool) (packet : Packet) : Bool :=
  match packet.tag with
  | some tag => tag.tMin == tMin && (tag.admitBit != 0) == admitted
  | none => false

def isBestEffort (packet : Packet) : Bool := packet.tag.isNone

/-- No packet of the kind passes another one. -/
def NeverPass (P : Packet → Bool) : Prop :=
  ∀ t x y, P x = true → P y = true → ¬ comparePackets t x y < 0

theorem neverPass_ofClass (tMin : SimTime) (admitted : Bool) :
    NeverPass (ofClass tMin admitted) := by
  intro t x y hx hy hpass
  unfold ofClass at hx hy
  cases htag : x.tag with
  | none => simp [htag] at hx
  | some tag =>
      cases hother : y.tag with
      | none => simp [hother] at hy
      | some other =>
          simp only [htag, hother, Bool.and_eq_true, beq_iff_eq] at hx hy
          rcases (passes_iff htag hother).mp hpass with hlt | ⟨_, hadmitted, hnot⟩
          · rw [hx.1, hy.1] at hlt
            exact lt_irrefl _ hlt
          · have hsame := hx.2.trans hy.2.symm
            simp [hadmitted, hnot] at hsame

theorem neverPass_isBestEffort : NeverPass isBestEffort := by
  intro t x y hx hy
  exact not_passes_bestEffort (by simpa [isBestEffort] using hx) (by simpa [isBestEffort] using hy)

theorem filter_insertPacket {P : Packet → Bool} (h : NeverPass P) :
    (insertPacket t packet packets).filter P =
      packets.filter P ++ [packet].filter P := by
  unfold insertPacket
  cases hpacket : P packet with
  | true =>
      rw [filter_insertBack hpacket]
      · simp [hpacket]
      · intro y _ hy
        simpa using h t packet y hpacket hy
  | false =>
      rw [filter_insertBack_of_not hpacket]
      simp [hpacket]

/-- Packets of such a kind stand in a queue in their order of arrival. -/
theorem run_arrivals {P : Packet → Bool} (h : NeverPass P) {start : SimTime}
    {history : List (Transition QueueState (SimTime × QueueOp))} {s : QueueState}
    (hrun : Run QueueStep ⟨start, []⟩ history s) :
    (s.packets.filter P).Sublist ((arrivals history).filter P) := by
  induction hrun with
  | start => simp
  | @next history s s' event _ hstep ih =>
      obtain ⟨_, _, happly⟩ := hstep
      rw [arrivals_append, List.filter_append]
      rcases QueueOp.apply_cases happly with ⟨packet, hop, hpackets⟩ | ⟨_, hsub⟩
      · rw [hpackets, filter_insertPacket h, hop]
        exact ih.append (List.Sublist.refl _)
      · exact ((hsub.filter P).trans ih).trans (List.sublist_append_left _ _)

/-! ## The admit bit -/

/-- `x` may stand before `y`: among equal `tMin`, not without the admit bit before
    a packet with it. -/
def AdmitPrecedes (x y : Packet) : Prop :=
  ∀ tag other, x.tag = some tag → y.tag = some other → tag.tMin = other.tMin →
    other.admitBit ≠ 0 → tag.admitBit ≠ 0

/-- At time `t` a best-effort packet keeps no admitted packet of this `tMin` from
    passing `x`, which stands before `y`. -/
def LetsAdmitPass (t : SimTime) (x y : Packet) : Prop :=
  ∀ tag, x.tag = some tag → tag.tMin = t → tag.admitBit = 0 → y.tag ≠ none

/-- If a pushed packet has the admit bit and is due now, no packet without the bit
    that is due now stands before a best-effort packet. -/
def AdmitUnobstructed (s : QueueState) (event : SimTime × QueueOp) : Prop :=
  ∀ packet tag, event.2 = .push packet → packet.tag = some tag → tag.admitBit ≠ 0 →
    tag.tMin = event.1 → s.packets.Pairwise (LetsAdmitPass event.1)

theorem admitPrecedes_of_passed (h : comparePackets t x y < 0) : AdmitPrecedes x y := by
  intro tag other hx hy hsame hadmitted
  rcases (passes_iff hx hy).mp h with hlt | ⟨_, htag, _⟩
  · exact absurd hsame hlt.ne
  · exact htag

theorem admitPrecedes_of_stopped (h : ¬ comparePackets t x y < 0) : AdmitPrecedes y x := by
  intro other tag hy hx hsame hadmitted hnot
  exact h ((passes_iff hx hy).mpr (.inr ⟨hsame.symm, hadmitted, hnot⟩))

/-- What stands before the stop: the stop is at a packet of the same `tMin` with
    the admit bit, or at a best-effort packet while the new one is due. -/
theorem admitPrecedes_inherit (hpacket : packet.tag = some tag) (hzy : Precedes t x y)
    (hadmitted : AdmitPrecedes x y) (hlets : tag.admitBit ≠ 0 → tag.tMin = t → LetsAdmitPass t x y)
    (h : ¬ comparePackets t packet y < 0) : AdmitPrecedes x packet := by
  intro old new hx hnew hsame hbit
  cases hpacket.symm.trans hnew
  have hzy := hzy old hx
  cases hy : y.tag with
  | some other =>
      rw [hy] at hzy
      rw [passes_iff hpacket hy, not_or] at h
      have htMin : old.tMin = other.tMin := le_antisymm hzy (by rw [hsame]; exact not_lt.mp h.1)
      have hother : other.admitBit ≠ 0 := fun hnot => h.2 ⟨by rw [← hsame, htMin], hbit, hnot⟩
      exact hadmitted old other hx hy htMin hother
  | none =>
      rw [hy] at hzy
      rw [passes_bestEffort_iff hpacket hy, not_lt] at h
      have hdue : old.tMin = t := le_antisymm hzy (by rw [hsame]; exact h)
      intro hnot
      exact hlets hbit (by rw [← hsame, hdue]) old hx hdue hnot hy

theorem admitOrder_insertPacket_iff (hordered : QueueOrdered t packets)
    (hadmitted : packets.Pairwise AdmitPrecedes) :
    (insertPacket t packet packets).Pairwise AdmitPrecedes ↔
      ∀ tag, packet.tag = some tag → tag.admitBit ≠ 0 → tag.tMin = t →
        packets.Pairwise (LetsAdmitPass t) := by
  constructor
  · intro hinserted tag htag hbit hdue
    apply (pairwise_of_insertBack hinserted).imp
    intro x y hstop old hx hold hnot hy
    -- the walk stops at the best-effort packet `y`, with `x` in front of it
    have hnotPassed : ¬ comparePackets t packet y < 0 := by
      rw [passes_bestEffort_iff htag hy, hdue]
      exact lt_irrefl t
    exact hstop (by simpa using hnotPassed) old tag hx htag (hold.trans hdue.symm) hbit hnot
  · intro hlets
    cases hpacket : packet.tag with
    | none =>
        apply pairwise_insertBack hadmitted (fun _ _ _ _ h => h)
        · intro y _ _ tag _ htag
          cases hpacket.symm.trans htag
        · intro y _ _ _ tag _ htag
          cases hpacket.symm.trans htag
        · intro z _ y _ _ _ _ tag _ htag
          cases hpacket.symm.trans htag
    | some tag =>
        have hold : packets.Pairwise fun x y => Precedes t x y ∧ AdmitPrecedes x y ∧
            (tag.admitBit ≠ 0 → tag.tMin = t → LetsAdmitPass t x y) := by
          refine hordered.and (hadmitted.and ?_)
          by_cases hdue : tag.admitBit ≠ 0 ∧ tag.tMin = t
          · exact (hlets tag hpacket hdue.1 hdue.2).imp fun h _ _ => h
          · exact List.pairwise_of_forall fun _ _ hbit ht => absurd ⟨hbit, ht⟩ hdue
        apply pairwise_insertBack hold (fun _ _ _ _ h => h.2.1)
        · intro y _ hpass
          exact admitPrecedes_of_passed (by simpa using hpass)
        · intro y _ hstop
          exact admitPrecedes_of_stopped (by simpa using hstop)
        · rintro z _ y _ ⟨hprecedes, hadmits, hlets⟩ hstop
          exact admitPrecedes_inherit hpacket hprecedes hadmits hlets (by simpa using hstop)

theorem queueStep_admit_iff {s s' : QueueState} {event : SimTime × QueueOp}
    (hordered : s.Ordered) (hadmitted : s.packets.Pairwise AdmitPrecedes)
    (hstep : QueueStep s event s') :
    s'.packets.Pairwise AdmitPrecedes ↔ AdmitUnobstructed s event := by
  obtain ⟨htime, _, happly⟩ := hstep
  have hordered := queueOrdered_mono htime hordered
  unfold AdmitUnobstructed
  rcases QueueOp.apply_cases happly with ⟨packet, hop, hpackets⟩ | ⟨hop, hsub⟩
  · rw [hpackets, admitOrder_insertPacket_iff hordered hadmitted, hop]
    constructor
    · intro h p tag hp
      cases hp
      exact h tag
    · intro h tag
      exact h packet tag rfl
  · constructor
    · intro _ packet _ hpush
      exact absurd hpush (hop packet)
    · intro _
      exact hadmitted.sublist hsub

end

/-- The order of a queue that has seen the packets `arrived`. -/
structure InOrder (arrived packets : List Packet) : Prop where
  tMin : (packets.filterMap Packet.tag).Pairwise fun earlier later => earlier.tMin ≤ later.tMin
  admitted : packets.Pairwise AdmitPrecedes
  sameClass : ∀ tMin admitted, (packets.filter (ofClass tMin admitted)).Sublist
    (arrived.filter (ofClass tMin admitted))
  bestEffort : (packets.filter isBestEffort).Sublist (arrived.filter isBestEffort)

theorem inOrder_iff {start : SimTime}
    {history : List (Transition QueueState (SimTime × QueueOp))} {s : QueueState}
    (hrun : Run QueueStep ⟨start, []⟩ history s) :
    InOrder (arrivals history) s.packets ↔ s.packets.Pairwise AdmitPrecedes := by
  refine ⟨InOrder.admitted, fun hadmitted => ⟨?_, hadmitted, fun tMin admitted => ?_, ?_⟩⟩
  · exact (ready_packets_front hrun le_rfl).1
  · exact run_arrivals (neverPass_ofClass tMin admitted) hrun
  · exact run_arrivals neverPass_isBestEffort hrun

/-- **Order of DBF packets inside a queue.**  In a history of a queue, the DBF
    packets stand in every state in the order of `tMin`, then the admit bit, then
    arrival, and the best-effort packets in the order of arrival, exactly when no
    push of an admitted packet that is due finds a packet without the bit, due at
    the same time, in front of a best-effort packet. -/
theorem queue_order_iff (start : SimTime)
    (history : List (Transition QueueState (SimTime × QueueOp))) (s : QueueState)
    (hrun : Run QueueStep ⟨start, []⟩ history s) :
    (∀ before x behind, history = before ++ x :: behind →
      InOrder (arrivals (before ++ [x])) x.post.packets) ↔
    ∀ x ∈ history, AdmitUnobstructed x.pre x.event := by
  have hexact : (∀ x ∈ history, x.post.packets.Pairwise AdmitPrecedes) ↔
      ∀ x ∈ history, AdmitUnobstructed x.pre x.event :=
    hrun.forall_iff (I := QueueState.Ordered)
      (P := fun s => s.packets.Pairwise AdmitPrecedes)
      (ordered_empty start) List.Pairwise.nil
      queueStep_ordered fun _ _ _ hordered hadmitted hstep =>
        queueStep_admit_iff hordered hadmitted hstep
  rw [← hexact]
  constructor
  · intro horder x hx
    obtain ⟨before, behind, hsplit⟩ := List.append_of_mem hx
    exact (horder before x behind hsplit).admitted
  · intro hadmitted before x behind hsplit
    exact (inOrder_iff (hrun.upTo hsplit)).mpr (hadmitted x (by simp [hsplit]))

/-! The packet with the admit bit arrives a second before both are due. -/

/-- Without an upper bound a packet shares its queue with the best-effort packets. -/
def sampleQueued (id : Nat) (tMin : SimTime) (admitBit : UInt32) : Packet :=
  { id := id, bitLength := 800, ipv4Header := none,
    tag := some { admitBit := admitBit, dMin := tMin, lqBudgetMin := tMin, tMin := tMin } }

theorem queue_order_sample :
    InOrder [sampleQueued 0 5 0, sampleQueued 2 5 1] [sampleQueued 2 5 1, sampleQueued 0 5 0] := by
  have hfirst : QueueStep ⟨0, []⟩ (0, .push (sampleQueued 0 5 0)) ⟨0, [sampleQueued 0 5 0]⟩ :=
    ⟨by decide +kernel, rfl, by decide +kernel⟩
  have hsecond : QueueStep ⟨0, [sampleQueued 0 5 0]⟩ (4, .push (sampleQueued 2 5 1))
      ⟨4, [sampleQueued 2 5 1, sampleQueued 0 5 0]⟩ :=
    ⟨by decide +kernel, rfl, by decide +kernel⟩
  have hrun := (Run.start.next hfirst).next hsecond
  refine (queue_order_iff 0 _ _ hrun).mpr ?_ _ _ [] rfl
  intro x hx packet tag hpush htag _ hdue
  simp only [List.nil_append, List.cons_append, List.mem_cons, List.not_mem_nil, or_false] at hx
  rcases hx with rfl | rfl
  · exact List.Pairwise.nil
  · cases hpush
    cases htag
    exact absurd hdue (by decide +kernel)

/-- At time 5, when both are due, a best-effort packet has come between them. -/
theorem queue_order_fails : ∃ history s, Run QueueStep ⟨0, []⟩ history s ∧
    arrivals history = [sampleQueued 0 5 0, sampleBestEffort, sampleQueued 2 5 1] ∧
    s.packets = [sampleQueued 0 5 0, sampleBestEffort, sampleQueued 2 5 1] ∧
    ¬ InOrder (arrivals history) s.packets := by
  have hfirst : QueueStep ⟨0, []⟩ (0, .push (sampleQueued 0 5 0)) ⟨0, [sampleQueued 0 5 0]⟩ :=
    ⟨by decide +kernel, rfl, by decide +kernel⟩
  have hsecond : QueueStep ⟨0, [sampleQueued 0 5 0]⟩ (5, .push sampleBestEffort)
      ⟨5, [sampleQueued 0 5 0, sampleBestEffort]⟩ :=
    ⟨by decide +kernel, rfl, by decide +kernel⟩
  have hthird : QueueStep ⟨5, [sampleQueued 0 5 0, sampleBestEffort]⟩
      (5, .push (sampleQueued 2 5 1))
      ⟨5, [sampleQueued 0 5 0, sampleBestEffort, sampleQueued 2 5 1]⟩ :=
    ⟨by decide +kernel, rfl, by decide +kernel⟩
  refine ⟨_, _, ((Run.start.next hfirst).next hsecond).next hthird, rfl, rfl, ?_⟩
  intro horder
  have hpair := List.rel_of_pairwise_cons horder.admitted
    (show sampleQueued 2 5 1 ∈ [sampleBestEffort, sampleQueued 2 5 1] by simp)
  exact hpair _ _ rfl rfl rfl (by decide) rfl

/-! ## Ready packets and best-effort traffic -/

/-- No best-effort packet stands before the packet. -/
def BestEffortBehind (packet : Packet) (packets : List Packet) : Prop :=
  packets.Pairwise fun x y => y = packet → x.tag ≠ none

/-- No best-effort packet is stored; or `tMin` is past, and every DBF packet queued
    behind a best-effort one has a later `tMin`, or the same without the admit bit
    that the new packet has. -/
def PassesBestEffort (simTime : SimTime) (tag : DBFHeaderTag) (packets : List Packet) : Prop :=
  (∀ b ∈ packets, b.tag ≠ none) ∨
  tag.tMin < simTime ∧ packets.Pairwise fun b z => b.tag = none → ∀ other, z.tag = some other →
    tag.tMin < other.tMin ∨ tag.tMin = other.tMin ∧ tag.admitBit ≠ 0 ∧ other.admitBit = 0

section

variable {t : SimTime} {packet : Packet} {packets : List Packet} {tag : DBFHeaderTag}

/-- What the insertion walk does at a stored packet. -/
def passes (t : SimTime) (packet stored : Packet) : Bool :=
  decide (comparePackets t packet stored < 0)

theorem insertPacket_eq :
    insertPacket t packet packets = packets.rdropWhile (passes t packet) ++
      packet :: packets.rtakeWhile (passes t packet) := rfl

/-- The walk leaves no best-effort packet in front of the new one. -/
theorem bestEffortBehind_insertPacket (hpacket : packet.tag = some tag) :
    BestEffortBehind packet (insertPacket t packet packets) ↔
      ∀ y ∈ packets.rdropWhile (passes t packet), ¬ y.tag = none := by
  unfold BestEffortBehind
  rw [insertPacket_eq, List.pairwise_append]
  constructor
  · rintro ⟨_, _, hfront⟩ y hy
    exact hfront y hy packet (by simp) rfl
  · intro hfront
    refine ⟨?_, ?_, ?_⟩
    · exact List.pairwise_of_forall_mem_list fun x hx _ _ _ => hfront x hx
    · rw [List.pairwise_cons]
      refine ⟨fun _ _ _ => by simp [hpacket], ?_⟩
      -- what is passed is not the packet itself
      apply List.pairwise_of_forall_mem_list
      rintro x _ y hy rfl
      have hself := List.mem_rtakeWhile_imp hy
      simp [passes, passes_iff hpacket hpacket] at hself
    · exact fun x hx _ _ _ => hfront x hx

theorem bestEffortBehind_iff (hpacket : packet.tag = some tag) :
    BestEffortBehind packet (insertPacket t packet packets) ↔
      PassesBestEffort t tag packets := by
  rw [bestEffortBehind_insertPacket hpacket, forall_rdropWhile_iff]
  simp only [passes, decide_eq_true_eq]
  constructor
  · rintro ⟨hpasses, hbehind⟩
    by_cases hstored : ∃ b ∈ packets, b.tag = none
    · obtain ⟨b, hb, hnone⟩ := hstored
      right
      refine ⟨(passes_bestEffort_iff hpacket hnone).mp (hpasses b hb hnone), ?_⟩
      exact hbehind.imp fun h hb other hz => (passes_iff hpacket hz).mp (h hb)
    · left
      exact fun b hb hnone => hstored ⟨b, hb, hnone⟩
  · rintro (hnone | ⟨hpast, hbehind⟩)
    · refine ⟨fun b hb hb' => absurd hb' (hnone b hb), ?_⟩
      exact List.pairwise_of_forall_mem_list fun b hb _ _ hb' => absurd hb' (hnone b hb)
    · refine ⟨fun b _ hb => (passes_bestEffort_iff hpacket hb).mpr hpast, ?_⟩
      apply hbehind.imp
      intro b z h hb
      cases hz : z.tag with
      | none => exact (passes_bestEffort_iff hpacket hz).mpr hpast
      | some other => exact (passes_iff hpacket hz).mpr (h hb other hz)

end

/-- **Ready packets and best-effort traffic.**  After the push of a ready DBF
    packet, at any point of a history, no best-effort packet stands before it
    exactly when none is stored, or `tMin` is strictly past and the packet passes
    every DBF packet that is queued behind a best-effort one. -/
theorem ready_ahead_iff (start : SimTime)
    (history : List (Transition QueueState (SimTime × QueueOp))) (s : QueueState)
    (hrun : Run QueueStep ⟨start, []⟩ history s) :
    ∀ x ∈ history, ∀ packet tag, x.event.2 = .push packet → packet.tag = some tag →
      isPacketReadyToSend x.event.1 packet = true →
      (BestEffortBehind packet x.post.packets ↔
        PassesBestEffort x.event.1 tag x.pre.packets) := by
  intro x hx packet tag hpush htag _
  obtain ⟨_, _, happly⟩ := hrun.step_of_mem x hx
  rcases QueueOp.apply_cases happly with ⟨p, hop, hpackets⟩ | ⟨hop, _⟩
  · cases hpush.symm.trans hop
    rw [hpackets]
    exact bestEffortBehind_iff htag
  · exact absurd hpush (hop packet)

theorem ready_ahead_sample :
    BestEffortBehind (sampleQueued 2 5 0) [sampleQueued 2 5 0, sampleBestEffort] := by
  have hfirst : QueueStep ⟨0, []⟩ (0, .push sampleBestEffort) ⟨0, [sampleBestEffort]⟩ :=
    ⟨by decide +kernel, rfl, by decide +kernel⟩
  have hsecond : QueueStep ⟨0, [sampleBestEffort]⟩ (6, .push (sampleQueued 2 5 0))
      ⟨6, [sampleQueued 2 5 0, sampleBestEffort]⟩ :=
    ⟨by decide +kernel, rfl, by decide +kernel⟩
  have hrun := (Run.start.next hfirst).next hsecond
  have h := ready_ahead_iff 0 _ _ hrun _ (by simp; right; rfl) (sampleQueued 2 5 0) _ rfl rfl
    (by decide +kernel)
  exact h.mpr (.inr ⟨by decide +kernel, List.pairwise_singleton _ _⟩)

/-- A packet pushed exactly at its `tMin` is ready and stays behind; so does a packet
    whose walk stops at one that was queued before it was ready. -/
theorem ready_ahead_fails :
    (∃ history s, Run QueueStep ⟨0, []⟩ history s ∧
      history.map Transition.event =
        [(0, .push sampleBestEffort), (5, .push (sampleQueued 2 5 0))] ∧
      isPacketReadyToSend 5 (sampleQueued 2 5 0) = true ∧
      ¬ BestEffortBehind (sampleQueued 2 5 0) s.packets) ∧
    ∃ history s, Run QueueStep ⟨0, []⟩ history s ∧
      history.map Transition.event = [(0, .push sampleBestEffort),
        (0, .push (sampleQueued 0 3 0)), (5, .push (sampleQueued 2 4 0))] ∧
      isPacketReadyToSend 5 (sampleQueued 2 4 0) = true ∧
      ¬ BestEffortBehind (sampleQueued 2 4 0) s.packets := by
  have hfirst : QueueStep ⟨0, []⟩ (0, .push sampleBestEffort) ⟨0, [sampleBestEffort]⟩ :=
    ⟨by decide +kernel, rfl, by decide +kernel⟩
  constructor
  · have hsecond : QueueStep ⟨0, [sampleBestEffort]⟩ (5, .push (sampleQueued 2 5 0))
        ⟨5, [sampleBestEffort, sampleQueued 2 5 0]⟩ :=
      ⟨by decide +kernel, rfl, by decide +kernel⟩
    refine ⟨_, _, (Run.start.next hfirst).next hsecond, rfl, by decide +kernel, ?_⟩
    intro hbehind
    exact List.rel_of_pairwise_cons hbehind
      (show sampleQueued 2 5 0 ∈ [sampleQueued 2 5 0] by simp) rfl rfl
  · have hsecond : QueueStep ⟨0, [sampleBestEffort]⟩ (0, .push (sampleQueued 0 3 0))
        ⟨0, [sampleBestEffort, sampleQueued 0 3 0]⟩ :=
      ⟨by decide +kernel, rfl, by decide +kernel⟩
    have hthird : QueueStep ⟨0, [sampleBestEffort, sampleQueued 0 3 0]⟩
        (5, .push (sampleQueued 2 4 0))
        ⟨5, [sampleBestEffort, sampleQueued 0 3 0, sampleQueued 2 4 0]⟩ :=
      ⟨by decide +kernel, rfl, by decide +kernel⟩
    refine ⟨_, _, ((Run.start.next hfirst).next hsecond).next hthird, rfl, by decide +kernel, ?_⟩
    intro hbehind
    exact List.rel_of_pairwise_cons hbehind
      (show sampleQueued 2 4 0 ∈ [sampleQueued 0 3 0, sampleQueued 2 4 0] by simp) rfl rfl

end DelayBasedForwarding
