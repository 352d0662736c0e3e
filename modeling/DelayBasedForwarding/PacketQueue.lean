import DelayBasedForwarding.Packet
import DelayBasedForwarding.Library.BackInsertion
import Mathlib.Algebra.Order.BigOperators.Group.List
import Mathlib.Algebra.Order.Ring.Rat
import Mathlib.Data.List.Nodup
import Mathlib.Tactic.Linarith

/-!
# The packet queue

`DBFPacketQueue` is INET's `PacketQueue` with `DBFPacketComparator` as the order
of insertion and `DBFPacketDropper` as the choice of what to drop.  A queue is
the list of its packets, front first.  The comparator reads the clock, so every
operation takes the simulation time.
-/

namespace DelayBasedForwarding

open BackInsertion

/-! ## The comparator -/

def PACKET1HIGHERPRIORITY : Int := -1

def PACKET2HIGHERPRIORITY : Int := 1

/-- `DBFPacketComparator::comparePackets`: the packet to insert against a stored one. -/
def comparePackets (simTime : SimTime) (packet1 packet2 : Packet) : Int :=
  match packet1.tag, packet2.tag with
  | some tag1, some tag2 =>
      if tag1.tMin < tag2.tMin then PACKET1HIGHERPRIORITY
      else if tag1.tMin > tag2.tMin then PACKET2HIGHERPRIORITY
      else if tag1.admitBit != 0 && !(tag2.admitBit != 0) then PACKET1HIGHERPRIORITY
      else PACKET2HIGHERPRIORITY
  -- a DBF packet against a best-effort packet, and the other way round
  | some tag1, none =>
      if tag1.tMin < simTime then PACKET1HIGHERPRIORITY else PACKET2HIGHERPRIORITY
  | none, some tag2 =>
      if tag2.tMin > simTime then PACKET1HIGHERPRIORITY else PACKET2HIGHERPRIORITY
  | none, none => PACKET2HIGHERPRIORITY

/-- `DBFPriorityScheduler::isPacketReadyToSend`. -/
def isPacketReadyToSend (simTime : SimTime) (packet : Packet) : Bool :=
  let difference : SimTime :=
    match packet.tag with
    | some tag => tag.tMin - simTime
    | none => 0
  decide (difference ≤ 0)

/-- The test of the expiry loops: a best-effort packet never expires. -/
def packetExpired (simTime : SimTime) (packet : Packet) : Bool :=
  match packet.tag with
  | some tag => isExpired simTime tag
  | none => false

/-! ## The queue operations -/

/-- `packetCapacity` and `dataCapacity`; `none` is the value `-1`, no limit. -/
structure QueueCapacity where
  packetCapacity : Option Nat := none
  dataCapacity : Option Nat := none
deriving DecidableEq, Repr

def getTotalLength (packets : List Packet) : Nat := (packets.map Packet.bitLength).sum

def isOverloaded (capacity : QueueCapacity) (packets : List Packet) : Bool :=
  (match capacity.packetCapacity with
    | none => false
    | some limit => decide (limit < packets.length)) ||
  (match capacity.dataCapacity with
    | none => false
    | some limit => decide (limit < getTotalLength packets))

/-- `cQueue::insert` with the comparator. -/
def insertPacket (simTime : SimTime) (packet : Packet) (packets : List Packet) : List Packet :=
  insertBack (fun new stored => decide (comparePackets simTime new stored < 0)) packet packets

/-- `PacketQueue::removePacket`: takes out the object the pointer names. -/
def removePacket (packet : Packet) (packets : List Packet) : List Packet :=
  packets.eraseP fun stored => stored.id == packet.id

/-- `DBFPacketDropper::selectPacket`: the first expired packet, else the last one. -/
def selectPacket (simTime : SimTime) (packets : List Packet) : Option Packet :=
  match packets.find? (packetExpired simTime) with
  | some packet => some packet
  | none => packets.getLast?

/-- The dropping loop of `PacketQueue::pushPacket`: what is kept and what is dropped. -/
def dropOverload (capacity : QueueCapacity) (simTime : SimTime) :
    Nat → List Packet → List Packet × List Packet
  | 0, packets => (packets, [])
  | fuel + 1, packets =>
      if isOverloaded capacity packets then
        match selectPacket simTime packets with
        | none => (packets, [])
        | some victim =>
            let (kept, dropped) :=
              dropOverload capacity simTime fuel (removePacket victim packets)
            (kept, victim :: dropped)
      else (packets, [])

/-- `PacketQueue::pushPacket` up to the notification of the collector. -/
def pushPacket (capacity : QueueCapacity) (simTime : SimTime) (packet : Packet)
    (packets : List Packet) : List Packet × List Packet :=
  let inserted := insertPacket simTime packet packets
  dropOverload capacity simTime inserted.length inserted

/-! ## Membership and length -/

@[simp] theorem mem_insertPacket {simTime : SimTime} {packet other : Packet}
    {packets : List Packet} :
    other ∈ insertPacket simTime packet packets ↔ other = packet ∨ other ∈ packets :=
  mem_insertBack

@[simp] theorem length_insertPacket {simTime : SimTime} {packet : Packet}
    {packets : List Packet} :
    (insertPacket simTime packet packets).length = packets.length + 1 :=
  length_insertBack

theorem removePacket_sublist {packet : Packet} {packets : List Packet} :
    (removePacket packet packets).Sublist packets :=
  List.eraseP_sublist

theorem length_removePacket {packet : Packet} {packets : List Packet} (h : packet ∈ packets) :
    (removePacket packet packets).length = packets.length - 1 :=
  List.length_eraseP_of_mem h (by simp)

theorem selectPacket_mem {simTime : SimTime} {packet : Packet} {packets : List Packet}
    (h : selectPacket simTime packets = some packet) : packet ∈ packets := by
  unfold selectPacket at h
  split at h
  · next hfound =>
      cases h
      exact List.mem_of_find?_eq_some hfound
  · exact List.mem_of_getLast? h

theorem selectPacket_isSome (simTime : SimTime) {packets : List Packet} (h : packets ≠ []) :
    ∃ victim, selectPacket simTime packets = some victim := by
  unfold selectPacket
  split
  · exact ⟨_, rfl⟩
  · exact ⟨_, List.getLast?_eq_some_getLast h⟩

theorem dropOverload_sublist (capacity : QueueCapacity) (simTime : SimTime) :
    ∀ (fuel : Nat) (packets : List Packet),
      (dropOverload capacity simTime fuel packets).1.Sublist packets := by
  intro fuel
  induction fuel with
  | zero => intro packets; exact List.Sublist.refl _
  | succ fuel ih =>
      intro packets
      unfold dropOverload
      split
      · split
        · exact List.Sublist.refl _
        · exact (ih _).trans removePacket_sublist
      · exact List.Sublist.refl _

theorem not_isOverloaded_nil (capacity : QueueCapacity) : isOverloaded capacity [] = false := by
  rcases capacity with ⟨_ | packets, _ | data⟩ <;> simp [isOverloaded, getTotalLength]

theorem isOverloaded_mono {capacity : QueueCapacity} {packets part : List Packet}
    (hpart : part.Sublist packets) (h : isOverloaded capacity part = true) :
    isOverloaded capacity packets = true := by
  have hlength : part.length ≤ packets.length := hpart.length_le
  have htotal : getTotalLength part ≤ getTotalLength packets :=
    (hpart.map Packet.bitLength).sum_le_sum fun _ _ => Nat.zero_le _
  unfold isOverloaded at h ⊢
  rw [Bool.or_eq_true] at h ⊢
  rcases h with h | h
  · left
    cases hlimit : capacity.packetCapacity with
    | none => simp [hlimit] at h
    | some limit =>
        simp only [hlimit, decide_eq_true_eq] at h ⊢
        omega
  · right
    cases hlimit : capacity.dataCapacity with
    | none => simp [hlimit] at h
    | some limit =>
        simp only [hlimit, decide_eq_true_eq] at h ⊢
        omega

/-- The loop ends with a queue inside its limits: one turn for each packet is enough. -/
theorem dropOverload_fits (capacity : QueueCapacity) (simTime : SimTime) :
    ∀ (fuel : Nat) (packets : List Packet), packets.length ≤ fuel →
      isOverloaded capacity (dropOverload capacity simTime fuel packets).1 = false := by
  intro fuel
  induction fuel with
  | zero =>
      intro packets hfuel
      obtain rfl : packets = [] := List.length_eq_zero_iff.mp (by omega)
      exact not_isOverloaded_nil capacity
  | succ fuel ih =>
      intro packets hfuel
      unfold dropOverload
      by_cases hover : isOverloaded capacity packets = true
      · have hne : packets ≠ [] := by
          rintro rfl
          rw [not_isOverloaded_nil] at hover
          cases hover
        obtain ⟨victim, hvictim⟩ := selectPacket_isSome simTime hne
        rw [if_pos hover, hvictim]
        have hlength := length_removePacket (selectPacket_mem hvictim)
        exact ih _ (by omega)
      · rw [if_neg hover]
        exact eq_false_of_ne_true hover

theorem pushPacket_fits (capacity : QueueCapacity) (simTime : SimTime) (packet : Packet)
    (packets : List Packet) :
    isOverloaded capacity (pushPacket capacity simTime packet packets).1 = false :=
  dropOverload_fits capacity simTime _ _ (Nat.le_refl _)

theorem pushPacket_sublist (capacity : QueueCapacity) {simTime : SimTime} {packet : Packet}
    {packets : List Packet} :
    (pushPacket capacity simTime packet packets).1.Sublist
      (insertPacket simTime packet packets) :=
  dropOverload_sublist capacity simTime _ _

theorem pushPacket_subset {capacity : QueueCapacity} {simTime : SimTime} {packet other : Packet}
    {packets : List Packet} (h : other ∈ (pushPacket capacity simTime packet packets).1) :
    other = packet ∨ other ∈ packets :=
  mem_insertPacket.mp ((pushPacket_sublist capacity).subset h)

theorem pushPacket_of_fits {capacity : QueueCapacity} {simTime : SimTime} {packet : Packet}
    {packets : List Packet}
    (h : isOverloaded capacity (insertPacket simTime packet packets) = false) :
    pushPacket capacity simTime packet packets = (insertPacket simTime packet packets, []) := by
  simp [pushPacket, dropOverload, h]

/-- Without limits nothing is dropped. -/
theorem pushPacket_unlimited (simTime : SimTime) (packet : Packet) (packets : List Packet) :
    pushPacket {} simTime packet packets = (insertPacket simTime packet packets, []) :=
  pushPacket_of_fits rfl

/-! ## Objects

In a queue of distinct objects a pointer takes out its own object, so what a push
keeps and what it drops are together the old packets and the new one. -/

section

variable {capacity : QueueCapacity} {simTime : SimTime} {packet p : Packet}
  {packets : List Packet}

theorem removePacket_eq_filter (h : (packets.map Packet.id).Nodup) :
    removePacket packet packets = packets.filter fun stored => stored.id != packet.id := by
  induction packets with
  | nil => rfl
  | cons first rest ih =>
      rw [List.map_cons, List.nodup_cons] at h
      unfold removePacket
      by_cases hfirst : first.id = packet.id
      · have hrest : ∀ stored ∈ rest, stored.id != packet.id := by
          intro stored hstored
          rw [bne_iff_ne, ← hfirst]
          rintro heq
          exact h.1 (heq ▸ List.mem_map_of_mem hstored)
        simp [hfirst, List.filter_eq_self.mpr hrest]
      · have := ih h.2
        unfold removePacket at this
        simp [hfirst, this]

theorem removePacket_perm (h : (packets.map Packet.id).Nodup) (hp : p ∈ packets) :
    (p :: removePacket p packets).Perm packets := by
  obtain ⟨a, front, back, hnone, ha, hsplit, herase⟩ :=
    List.exists_of_eraseP (p := fun stored => stored.id == p.id) hp (beq_self_eq_true p.id)
  have hmem : a ∈ packets := by simp [hsplit]
  obtain rfl : a = p := List.inj_on_of_nodup_map h hmem hp (eq_of_beq ha)
  unfold removePacket
  rw [herase]
  conv_rhs => rw [hsplit]
  exact List.perm_middle.symm

theorem ids_insertPacket (h : (packets.map Packet.id).Nodup)
    (hnew : packet.id ∉ packets.map Packet.id) :
    ((insertPacket simTime packet packets).map Packet.id).Nodup := by
  have hperm : (insertPacket simTime packet packets).Perm (packet :: packets) :=
    insertBack_perm _ _ _
  rw [(hperm.map Packet.id).nodup_iff, List.map_cons, List.nodup_cons]
  exact ⟨hnew, h⟩

theorem dropOverload_perm (capacity : QueueCapacity) (simTime : SimTime) :
    ∀ (fuel : Nat) (packets : List Packet), (packets.map Packet.id).Nodup →
      ((dropOverload capacity simTime fuel packets).1 ++
        (dropOverload capacity simTime fuel packets).2).Perm packets := by
  intro fuel
  induction fuel with
  | zero => simp [dropOverload]
  | succ fuel ih =>
      intro packets hids
      unfold dropOverload
      by_cases hover : isOverloaded capacity packets = true
      · cases hvictim : selectPacket simTime packets with
        | none => simp [hover]
        | some victim =>
            simp only [hover, if_true]
            have hleft := ih (removePacket victim packets)
              (hids.sublist (removePacket_sublist.map _))
            have hvictim := removePacket_perm hids (selectPacket_mem hvictim)
            exact List.perm_middle.trans ((hleft.cons victim).trans hvictim)
      · simp [hover]

theorem pushPacket_perm (h : (packets.map Packet.id).Nodup)
    (hnew : packet.id ∉ packets.map Packet.id) :
    ((pushPacket capacity simTime packet packets).1 ++
      (pushPacket capacity simTime packet packets).2).Perm (packet :: packets) :=
  (dropOverload_perm capacity simTime _ _ (ids_insertPacket h hnew)).trans
    (insertBack_perm _ _ _)

end

/-! ## Ready and expired packets -/

theorem isPacketReadyToSend_iff {simTime : SimTime} {packet : Packet} :
    isPacketReadyToSend simTime packet = true ↔
      ∀ tag, packet.tag = some tag → tag.tMin ≤ simTime := by
  unfold isPacketReadyToSend
  cases packet.tag with
  | none => simp
  | some tag => simp

theorem packetExpired_iff {simTime : SimTime} {packet : Packet} :
    packetExpired simTime packet = true ↔
      ∃ tag, packet.tag = some tag ∧ tag.dMax ≠ 0 ∧ tag.tMax < simTime := by
  unfold packetExpired
  cases packet.tag with
  | none => simp
  | some tag => simp [isExpired, hasInfiniteDmax]

theorem packetExpired_mono {simTime later : SimTime} {packet : Packet}
    (htime : simTime ≤ later) (h : packetExpired simTime packet = true) :
    packetExpired later packet = true := by
  obtain ⟨tag, htag, hfinite, hexpired⟩ := packetExpired_iff.mp h
  exact packetExpired_iff.mpr ⟨tag, htag, hfinite, hexpired.trans_le htime⟩

end DelayBasedForwarding
