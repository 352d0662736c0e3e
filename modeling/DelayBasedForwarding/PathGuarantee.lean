import DelayBasedForwarding.Computer
import Mathlib.Algebra.Order.Field.Basic
import Mathlib.Tactic.Linarith
import Mathlib.Tactic.FieldSimp
import Mathlib.Tactic.Ring

/-!
# The end-to-end guarantee

A packet crosses a path of forwarding nodes.  At each of them
`DBFComputer::processDBFPacket` divides what the Service Level Objective leaves
for queueing by the number of hops still to go, the egress sends the packet at
some time of its own choosing and writes the experienced delay into the option,
and the ingress of the next node tags the packet again.

The proof carries two facts from node to node.  The time at which a node
receives a packet minus its experienced delay is always the time of
`encapsulate`, so the experienced delay is exact; and a node that departs inside
its window takes at most an equal share of the remaining budget, so the budget
never becomes negative.  At the destination no delay and no hop is left, and the
two facts are the guarantee.
-/

namespace DelayBasedForwarding

/-! ## Paths -/

/-- One forwarding node of a path: its computer, the time at which its egress
    sends the packet, and the delay of its outgoing link. -/
structure PathNode where
  computer : DBFComputer
  depart : SimTime
  linkDelay : SimTime

inductive PathError where
  | computer (error : ComputerError)
  | expired                             -- deleted by `sendPacketToNIC`
  | noOption                            -- the egress found no option to update
deriving DecidableEq, Repr

namespace PathNode

variable (node : PathNode)

/-- The network layer of the node. -/
def admission (packet : Packet) : Except PathError Packet :=
  match DBFIpv4.sendPacketToNIC node.computer packet with
  | .error error => .error (.computer error)
  | .ok none => .error .expired
  | .ok (some packet) => .ok packet

/-- The time the packet reaches the next node: a link takes its delay and the
    packet's transmission time. -/
def arrivalTime (packet : Packet) : SimTime :=
  node.depart + node.linkDelay + node.computer.calculateTransmissionTime packet

/-- The egress of the node and the ingress of the next one. -/
def deliver (packet : Packet) : Except PathError Packet :=
  match writeEDelay node.depart packet with
  | none => .error .noOption
  | some sent =>
      match IngressForwarder.handleMessage (node.arrivalTime packet) sent with
      | .error error => .error (.computer error)
      | .ok packet => .ok packet

end PathNode

/-- The packet's way over a path: what arrives at the destination, and when. -/
def travel : List PathNode → Packet → SimTime → Except PathError (Packet × SimTime)
  | [], packet, time => .ok (packet, time)
  | node :: rest, packet, _ => do
      let queued ← node.admission packet
      let received ← node.deliver queued
      travel rest received (node.arrivalTime queued)

/-- `P` holds, at every node the packet comes to, of the node and of the packet
    as `processDBFPacket` leaves it. -/
def AtEveryNode (P : PathNode → Packet → Prop) : List PathNode → Packet → Prop
  | [], _ => True
  | node :: rest, packet =>
      match node.computer.processDBFPacket packet with
      | .error _ => True
      | .ok queued => P node queued ∧
          match node.deliver queued with
          | .error _ => True
          | .ok received => AtEveryNode P rest received

instance AtEveryNode.decidable (P : PathNode → Packet → Prop)
    [∀ node packet, Decidable (P node packet)] :
    ∀ path packet, Decidable (AtEveryNode P path packet)
  | [], _ => isTrue trivial
  | node :: rest, packet =>
      match hqueued : node.computer.processDBFPacket packet with
      | .error _ => isTrue (by simp [AtEveryNode, hqueued])
      | .ok queued =>
          match hreceived : node.deliver queued with
          | .error _ =>
              decidable_of_iff (P node queued) (by simp [AtEveryNode, hqueued, hreceived])
          | .ok received =>
              have := AtEveryNode.decidable P rest received
              decidable_of_iff (P node queued ∧ AtEveryNode P rest received)
                (by simp [AtEveryNode, hqueued, hreceived])

/-- The tag of a queued packet satisfies `P`. -/
def TagSatisfies (P : DBFHeaderTag → Prop) (packet : Packet) : Prop :=
  match packet.tag with
  | none => True
  | some tag => P tag

instance (P : DBFHeaderTag → Prop) [DecidablePred P] (packet : Packet) :
    Decidable (TagSatisfies P packet) := by
  unfold TagSatisfies
  split <;> infer_instance

/-- Every node departs by its `tMax`. -/
def DepartsByTMax : List PathNode → Packet → Prop :=
  AtEveryNode fun node => TagSatisfies fun tag => node.depart ≤ tag.tMax

/-- Every node departs at its `tMin` or later. -/
def DepartsFromTMin : List PathNode → Packet → Prop :=
  AtEveryNode fun node => TagSatisfies fun tag => tag.tMin ≤ node.depart

/-- No node drops the packet as already expired. -/
def NeverExpired : List PathNode → Packet → Prop :=
  AtEveryNode fun _ queued => DBFComputer.isAlreadyExpired queued = false

instance (path : List PathNode) (packet : Packet) : Decidable (DepartsByTMax path packet) := by
  unfold DepartsByTMax
  infer_instance

instance (path : List PathNode) (packet : Packet) : Decidable (DepartsFromTMin path packet) := by
  unfold DepartsFromTMin
  infer_instance

/-- Consistent FIBs along a path.  `incoming` is the delay of the link into the
    first node, `none` at the sender; the last argument is the `toDelay` of the
    first node's row for the destination. -/
inductive ConsistentFib (src dst : Ipv4Address) (transmissionTime : SimTime) (packet : Packet) :
    Option SimTime → List PathNode → SimTime → Prop where
  | destination (incoming : Option SimTime) :
      ConsistentFib src dst transmissionTime packet incoming [] 0
  | node {incoming : Option SimTime} {node : PathNode} {rest : List PathNode}
      {nextToDelay : SimTime} {source destination : DbfFibEntry}
      (hsource : node.computer.dbfFIB.lookup src = some source)
      (hdestination : node.computer.dbfFIB.lookup dst = some destination)
      (hhops : destination.hops.toInt = rest.length + 1)
      (htoDelay : destination.toDelay = node.linkDelay + nextToDelay)
      (hlDelay : ∀ delay, incoming = some delay → source.lDelay = delay)
      (hsame : node.computer.calculateTransmissionTime packet = transmissionTime)
      (hrest : ConsistentFib src dst transmissionTime packet (some node.linkDelay) rest
        nextToDelay) :
      ConsistentFib src dst transmissionTime packet incoming (node :: rest) destination.toDelay

/-! ## Sharing a budget -/

/-- A spender that takes at most an equal share leaves a non-negative rest. -/
theorem sub_nonneg_of_le_share {K : Type*} [Field K] [LinearOrder K] [IsStrictOrderedRing K]
    {budget spent : K} {sharers : Nat} (hbudget : 0 ≤ budget)
    (hspent : spent ≤ budget / ((sharers : K) + 1)) : 0 ≤ budget - spent := by
  have hone : (1 : K) ≤ sharers + 1 := by
    have : (0 : K) ≤ sharers := Nat.cast_nonneg sharers
    linarith
  have hshare : budget / ((sharers : K) + 1) ≤ budget := div_le_self hbudget hone
  linarith

/-! ## One node -/

theorem hops_toUInt32 {hops : Int32} {count : Nat} (h : hops.toInt = count + 1) :
    hops.toUInt32.toNat = count + 1 := by
  have hnonneg : 0 ≤ hops := by
    rw [Int32.le_iff_toInt_le]
    simp
    omega
  rw [Int32.toNat_toUInt32_of_le hnonneg, Int32.toNatClampNeg, h]
  omega

/-- What a packet carries when the network layer of a node takes it: the
    parameters of the sender, the experienced delay `eDelay` in its option, and
    a tag with its receipt time. -/
structure Carries (src dst : Ipv4Address) (dMin dMax : SimTime) (bitLength : Nat)
    (packet : Packet) (tRcv eDelay : SimTime) (fromNetwork : Bool) : Prop where
  content : ∃ header option tag,
    packet.ipv4Header = some header ∧ getMutableDBFIpv4Option header = some option ∧
    packet.tag = some tag ∧ header.srcAddress = src ∧ header.destAddress = dst ∧
    option.dMin = dMin ∧ option.dMax = dMax ∧ option.eDelay = eDelay ∧
    tag.tRcv = tRcv ∧ tag.fromNetwork = fromNetwork
  bits : packet.bitLength = bitLength

/-- The experienced delay a node puts into the tag. -/
def updatedEDelay (incoming : Option SimTime) (eDelay transmissionTime : SimTime) : SimTime :=
  match incoming with
  | none => eDelay
  | some delay => eDelay + delay + transmissionTime

/-- What is left of a bound for queueing at a node with `hops` links to go. -/
def remainingBudget (bound toDelay eDelay transmissionTime : SimTime) (hops : Nat) : SimTime :=
  bound - (hops * transmissionTime + toDelay) - eDelay

section Node

variable {src dst : Ipv4Address} {dMin dMax : SimTime} {transmissionTime : SimTime}
  {reference packet : Packet} {node : PathNode}
  {rest : List PathNode} {toDelay tRcv eDelay : SimTime}

theorem calculateTransmissionTime_congr (computer : DBFComputer) {p q : Packet}
    (h : p.bitLength = q.bitLength) :
    computer.calculateTransmissionTime p = computer.calculateTransmissionTime q := by
  simp [DBFComputer.calculateTransmissionTime, h]

/-- The egress of a node and the ingress of the next one always find the option. -/
theorem deliver_ok (header : Ipv4Header) {queued : Packet} {option : DBFIpv4Option}
    {tag : DBFHeaderTag} (hheader : queued.ipv4Header = some header)
    (hoption : getMutableDBFIpv4Option header = some option) (htag : queued.tag = some tag) :
    node.deliver queued = .ok
      { queued with
        ipv4Header := some ((removeDBFIpv4Options header).addOption (.dbf
          { option with eDelay := tag.eDelay + node.depart - tag.tRcv })),
        tag := some { tRcv := node.arrivalTime queued, fromNetwork := true } } := by
  simp [PathNode.deliver, writeEDelay, getMutableIpv4Header, updateDBFIpv4Header, hheader,
    hoption, htag, IngressForwarder.handleMessage, IngressForwarder.containsDBFOptions,
    IngressForwarder.attachTrcv]

/-- The windows `processDBFPacket` computes at a node of a consistent path, and
    what the next node receives when this one departs at `node.depart`. -/
theorem node_step (incoming : Option SimTime)
    (hcarries : Carries src dst dMin dMax reference.bitLength packet tRcv eDelay
      incoming.isSome)
    (hfib : ConsistentFib src dst transmissionTime reference incoming (node :: rest) toDelay) :
    ∃ queued tag received nextToDelay,
      node.computer.processDBFPacket packet = .ok queued ∧ node.deliver queued = .ok received ∧
      node.arrivalTime queued = node.depart + node.linkDelay + transmissionTime ∧
      queued.tag = some tag ∧ tag.dMax = dMax ∧ tag.tRcv = tRcv ∧
      tag.tMin = (if dMin = 0 then 0 else remainingBudget dMin toDelay
        (updatedEDelay incoming eDelay transmissionTime) transmissionTime (rest.length + 1)) /
          (rest.length + 1) + tRcv ∧
      tag.tMax = (if dMax = 0 then 0 else remainingBudget dMax toDelay
        (updatedEDelay incoming eDelay transmissionTime) transmissionTime (rest.length + 1)) /
          (rest.length + 1) + tRcv ∧
      DBFComputer.calculateFqDelay dMax tag = remainingBudget dMax toDelay
        (updatedEDelay incoming eDelay transmissionTime) transmissionTime (rest.length + 1) ∧
      Carries src dst dMin dMax reference.bitLength received (node.arrivalTime queued)
        (updatedEDelay incoming eDelay transmissionTime + node.depart - tRcv) true ∧
      toDelay = node.linkDelay + nextToDelay ∧
      ConsistentFib src dst transmissionTime reference (some node.linkDelay) rest
        nextToDelay := by
  cases hfib with
  | @node _ _ _ nextToDelay source destination hsource hdestination hhops htoDelay hlDelay
      hsame hrest =>
  obtain ⟨⟨header, option, tag, hheader, hoption, htag, hsrc, hdst, hmin, hmax, he, ht, hfrom⟩,
    hbits⟩ := hcarries
  have hcount : destination.hops.toUInt32.toNat = rest.length + 1 := hops_toUInt32 (by omega)
  have hnonzero : destination.hops.toUInt32 ≠ 0 := by
    intro hzero
    rw [hzero] at hcount
    simp at hcount
  have htransmission : ∀ p : Packet, p.bitLength = reference.bitLength →
      node.computer.calculateTransmissionTime p = transmissionTime := fun p hp => by
    rw [calculateTransmissionTime_congr node.computer hp, hsame]
  have hexperienced : DBFComputer.experienced tag option source transmissionTime =
      updatedEDelay incoming eDelay transmissionTime := by
    cases incoming with
    | none => simp [DBFComputer.experienced, updatedEDelay, hfrom, he]
    | some delay =>
        simp [DBFComputer.experienced, updatedEDelay, hfrom, he, hlDelay delay rfl]
  have hprocess := DBFComputer.processDBFPacket_ok node.computer hheader hoption htag
    (hsrc ▸ hsource) (hdst ▸ hdestination) hnonzero
  simp only [htransmission packet hbits, hexperienced] at hprocess
  refine ⟨_, _, _, nextToDelay, hprocess,
    deliver_ok ((removeDBFIpv4Options header).addOption (.dbf
      { option with eDelay := updatedEDelay incoming eDelay transmissionTime }))
      rfl (getMutableDBFIpv4Option_rewritten _ _) rfl, ?_, rfl, hmax, ht, ?_, ?_, ?_, ?_,
      htoDelay, hrest⟩
  · exact congrArg (node.depart + node.linkDelay + ·) (htransmission _ hbits)
  · simp [DBFComputer.processedTag, DBFComputer.localBudget, DBFComputer.remainingDelay,
      remainingBudget, hcount, hexperienced, hmin, ht]
  · simp [DBFComputer.processedTag, DBFComputer.localBudget, DBFComputer.remainingDelay,
      remainingBudget, hcount, hexperienced, hmax, ht]
  · simp [DBFComputer.calculateFqDelay, DBFComputer.processedTag, DBFComputer.remainingDelay,
      remainingBudget, hcount, hexperienced]
  · refine ⟨⟨_, _, _, rfl, getMutableDBFIpv4Option_rewritten _ _, rfl, hsrc, hdst, hmin, hmax,
      ?_, rfl, rfl⟩, hbits⟩
    simp [DBFComputer.processedTag, hexperienced, ht]

theorem atEveryNode_cons {P : PathNode → Packet → Prop} {queued received : Packet}
    (hprocess : node.computer.processDBFPacket packet = .ok queued)
    (hdeliver : node.deliver queued = .ok received) :
    AtEveryNode P (node :: rest) packet ↔ P node queued ∧ AtEveryNode P rest received := by
  simp [AtEveryNode, hprocess, hdeliver]

/-- A node whose window has not closed at the receipt time lets the packet pass. -/
theorem admission_ok {queued : Packet} (htag : packet.tag.isSome)
    (hprocess : node.computer.processDBFPacket packet = .ok queued)
    (halive : DBFComputer.isAlreadyExpired queued = false) :
    node.admission packet = .ok queued := by
  simp [PathNode.admission, DBFIpv4.sendPacketToNIC, htag, hprocess, halive, bind, Except.bind,
    pure, Except.pure]

theorem Carries.isSome_tag {bitLength : Nat} {fromNetwork : Bool}
    (h : Carries src dst dMin dMax bitLength packet tRcv eDelay fromNetwork) :
    packet.tag.isSome := by
  obtain ⟨_, _, _, _, _, htag, _⟩ := h.content
  simp [htag]

end Node

/-! ## The whole path -/

section Path

variable {src dst : Ipv4Address} {dMin dMax : SimTime} {transmissionTime : SimTime}
  {reference : Packet}

/-- Time of receipt minus experienced delay is the time of encapsulation at
    every node, and stays so at the next one. -/
theorem receipt_sub_eDelay {origin tRcv eDelay depart linkDelay : SimTime}
    (h : tRcv - eDelay = origin) :
    depart + linkDelay + transmissionTime -
      updatedEDelay (some linkDelay) (eDelay + depart - tRcv) transmissionTime = origin := by
  rw [← h]
  simp only [updatedEDelay]
  ring

/-- The time a packet waits at a node is taken from its remaining budget; link
    and transmission were reserved in it. -/
theorem remainingBudget_next {bound nextToDelay linkDelay eDelay tRcv depart : SimTime}
    {hops : Nat} :
    remainingBudget bound nextToDelay
        (updatedEDelay (some linkDelay) (eDelay + depart - tRcv) transmissionTime)
        transmissionTime hops =
      remainingBudget bound (linkDelay + nextToDelay) eDelay transmissionTime (hops + 1) -
        (depart - tRcv) := by
  simp only [remainingBudget, updatedEDelay, Nat.cast_add, Nat.cast_one]
  ring

/-- **The upper bound along a path.**  The invariant is a non-negative remaining
    budget at a node whose clock, less the experienced delay, shows `origin`. -/
theorem travel_by_dMax (hfinite : dMax ≠ 0) {origin : SimTime} :
    ∀ {path : List PathNode} {incoming : Option SimTime} {toDelay tRcv eDelay : SimTime}
      {packet : Packet},
      ConsistentFib src dst transmissionTime reference incoming path toDelay →
      Carries src dst dMin dMax reference.bitLength packet tRcv eDelay incoming.isSome →
      tRcv - updatedEDelay incoming eDelay transmissionTime = origin →
      0 ≤ remainingBudget dMax toDelay (updatedEDelay incoming eDelay transmissionTime)
        transmissionTime path.length →
      DepartsByTMax path packet →
      ∃ delivered arrival, travel path packet tRcv = .ok (delivered, arrival) ∧
        NeverExpired path packet ∧ arrival ≤ origin + dMax := by
  intro path
  induction path with
  | nil =>
      intro incoming toDelay tRcv eDelay packet hfib _ horigin hbudget _
      cases hfib
      refine ⟨packet, tRcv, rfl, trivial, ?_⟩
      simp [remainingBudget] at hbudget
      linarith
  | cons node rest ih =>
      intro incoming toDelay tRcv eDelay packet hfib hcarries horigin hbudget hdeparts
      obtain ⟨queued, tag, received, nextToDelay, hprocess, hdeliver, harrival, htag, htagMax,
        htagRcv, _, htMax, _, hnext, htoDelay, hfibRest⟩ := node_step incoming hcarries hfib
      have hsplit := (atEveryNode_cons hprocess hdeliver).mp hdeparts
      have hwindow : node.depart ≤ tag.tMax := by
        simpa [TagSatisfies, htag] using hsplit.1
      rw [if_neg hfinite] at htMax
      have hshare : node.depart - tRcv ≤ remainingBudget dMax toDelay
          (updatedEDelay incoming eDelay transmissionTime) transmissionTime (rest.length + 1) /
            (rest.length + 1) := by
        linarith
      have hbudgetRest : 0 ≤ remainingBudget dMax nextToDelay
          (updatedEDelay (some node.linkDelay)
            (updatedEDelay incoming eDelay transmissionTime + node.depart - tRcv)
            transmissionTime) transmissionTime rest.length := by
        rw [remainingBudget_next, ← htoDelay]
        exact sub_nonneg_of_le_share hbudget hshare
      have halive : DBFComputer.isAlreadyExpired queued = false := by
        have hnonneg : 0 ≤ remainingBudget dMax toDelay
            (updatedEDelay incoming eDelay transmissionTime) transmissionTime
              (rest.length + 1) / ((rest.length : SimTime) + 1) :=
          div_nonneg hbudget (by positivity)
        have : tag.tRcv ≤ tag.tMax := by linarith
        simp [DBFComputer.isAlreadyExpired, htag, this]
      obtain ⟨delivered, arrival, htravel, hnever, hbound⟩ :=
        ih hfibRest hnext (by rw [harrival]; exact receipt_sub_eDelay horigin) hbudgetRest
          hsplit.2
      refine ⟨delivered, arrival, ?_, (atEveryNode_cons hprocess hdeliver).mpr ⟨halive, hnever⟩,
        hbound⟩
      simp only [travel, admission_ok hcarries.isSome_tag hprocess halive, hdeliver, bind,
        Except.bind, htravel]

/-- **The lower bound along a path.**  Only the last node decides: with one hop
    to go it keeps the packet until the whole minimum delay has passed. -/
theorem travel_from_dMin (hmin : dMin ≠ 0) {origin : SimTime} :
    ∀ {path : List PathNode} {incoming : Option SimTime} {toDelay tRcv eDelay : SimTime}
      {packet : Packet},
      path ≠ [] →
      ConsistentFib src dst transmissionTime reference incoming path toDelay →
      Carries src dst dMin dMax reference.bitLength packet tRcv eDelay incoming.isSome →
      tRcv - updatedEDelay incoming eDelay transmissionTime = origin →
      DepartsFromTMin path packet →
      ∀ {delivered arrival}, travel path packet tRcv = .ok (delivered, arrival) →
        origin + dMin ≤ arrival := by
  intro path
  induction path with
  | nil => intro _ _ _ _ _ hne; exact absurd rfl hne
  | cons node rest ih =>
      intro incoming toDelay tRcv eDelay packet _ hfib hcarries horigin hdeparts delivered
        arrival htravel
      obtain ⟨queued, tag, received, nextToDelay, hprocess, hdeliver, harrival, htag, htagMax,
        htagRcv, htMin, _, _, hnext, htoDelay, hfibRest⟩ := node_step incoming hcarries hfib
      have hsplit := (atEveryNode_cons hprocess hdeliver).mp hdeparts
      have hadmission : node.admission packet = .ok queued := by
        simp only [travel, bind, Except.bind] at htravel
        simp only [PathNode.admission, DBFIpv4.sendPacketToNIC, hcarries.isSome_tag, hprocess,
          bind, Except.bind, pure, Except.pure] at htravel ⊢
        by_cases hdead : DBFComputer.isAlreadyExpired queued = true
        · simp [hdead] at htravel
        · simp [hdead]
      simp only [travel, hadmission, hdeliver, bind, Except.bind] at htravel
      cases rest with
      | nil =>
          cases hfibRest
          simp only [travel, Except.ok.injEq, Prod.mk.injEq] at htravel
          have hwindow : tag.tMin ≤ node.depart := by
            simpa [TagSatisfies, htag] using hsplit.1
          simp [if_neg hmin, remainingBudget, htoDelay] at htMin
          linarith [htravel.2]
      | cons next rest =>
          exact ih (by simp) hfibRest hnext
            (by rw [harrival]; exact receipt_sub_eDelay horigin) hsplit.2 htravel

/-- A packet without an upper bound passes every node, whatever the departures. -/
theorem travel_unbounded :
    ∀ {path : List PathNode} (incoming : Option SimTime) {toDelay tRcv eDelay : SimTime}
      {packet : Packet},
      ConsistentFib src dst transmissionTime reference incoming path toDelay →
      Carries src dst dMin 0 reference.bitLength packet tRcv eDelay incoming.isSome →
      ∃ delivered arrival, travel path packet tRcv = .ok (delivered, arrival) ∧
        NeverExpired path packet := by
  intro path
  induction path with
  | nil =>
      intro _ _ tRcv _ packet _ _
      exact ⟨packet, tRcv, rfl, trivial⟩
  | cons node rest ih =>
      intro incoming toDelay tRcv eDelay packet hfib hcarries
      obtain ⟨queued, tag, received, nextToDelay, hprocess, hdeliver, _, htag, htagMax,
        _, _, _, _, hnext, _, hfibRest⟩ := node_step incoming hcarries hfib
      have halive : DBFComputer.isAlreadyExpired queued = false := by
        simp [DBFComputer.isAlreadyExpired, htag, hasInfiniteDmax, htagMax]
      obtain ⟨delivered, arrival, htravel, hnever⟩ := ih (some node.linkDelay) hfibRest hnext
      refine ⟨delivered, arrival, ?_, (atEveryNode_cons hprocess hdeliver).mpr ⟨halive, hnever⟩⟩
      simp only [travel, admission_ok hcarries.isSome_tag hprocess halive, hdeliver, bind,
        Except.bind, htravel]

end Path

/-- What `encapsulate` leaves on a fresh datagram outside best-effort mode. -/
theorem carries_encapsulate {computer : DBFComputer} {datagram packet : Packet}
    {header : Ipv4Header} {origin : SimTime} (hheader : datagram.ipv4Header = some header)
    (hfresh : header.findOptionByType DBFPARAMETERS = none)
    (hbound : computer.dMin ≠ 0 ∨ computer.dMax ≠ 0)
    (hencapsulate : DBFIpv4.encapsulate computer origin datagram = .ok packet) :
    Carries header.srcAddress header.destAddress computer.dMin computer.dMax
      datagram.bitLength packet origin 0 false := by
  have hmode : computer.isBEMode = false := by
    rcases hbound with h | h <;> simp [DBFComputer.isBEMode, h]
  have hoption := getMutableDBFIpv4Option_addOption hfresh
    { dMin := computer.dMin, dMax := computer.dMax, admitBit := computer.admitBit,
      eDelay := DBFComputer.STARTEDELAY }
  simp only [DBFIpv4.encapsulate, hmode, Bool.false_eq_true, if_false] at hencapsulate
  split at hencapsulate
  · cases hencapsulate
  · simp only [DBFComputer.addSLOParameters, hheader, Except.ok.injEq] at hencapsulate
    subst hencapsulate
    exact ⟨⟨_, _, _, rfl, hoption, rfl, rfl, rfl, rfl, rfl, rfl, rfl, rfl⟩, rfl⟩

/-- The first node's `dMax - toDelay - eDelay` is not negative. -/
def FirstBudgetNonneg (first : PathNode) (packet : Packet) : Prop :=
  match first.computer.processDBFPacket packet with
  | .error _ => True
  | .ok queued => TagSatisfies (fun tag => 0 ≤ DBFComputer.calculateFqDelay tag.dMax tag) queued

instance (first : PathNode) (packet : Packet) : Decidable (FirstBudgetNonneg first packet) := by
  unfold FirstBudgetNonneg
  split <;> infer_instance

/-- **End-to-end latency guarantee.**  A datagram encapsulated at `origin` by a
    sender whose Service Level Objective `initialize` accepted crosses a path
    with consistent FIBs, whatever the departure times of its nodes.

    * With a finite `dMax`, a non-negative budget at the sender and every
      departure by `tMax`, no node finds the packet expired and it arrives by
      `origin + dMax`; with a negative budget the sender drops it.
    * Without an upper bound no node ever drops it.
    * With a positive `dMin` and every departure from `tMin` on, it arrives at
      `origin + dMin` or later. -/
theorem end_to_end_latency (par : ComputerParameters) (first : PathNode) (rest : List PathNode)
    (datagram packet : Packet) (header : Ipv4Header) (origin transmissionTime toDelay : SimTime)
    (hinit : DBFComputer.initialize par = .ok first.computer)
    (hheader : datagram.ipv4Header = some header)
    (hfresh : header.findOptionByType DBFPARAMETERS = none)
    (hencapsulate : DBFIpv4.encapsulate first.computer origin datagram = .ok packet)
    (hfib : ConsistentFib header.srcAddress header.destAddress transmissionTime datagram none
      (first :: rest) toDelay) :
    (par.dMax ≠ 0 → FirstBudgetNonneg first packet → DepartsByTMax (first :: rest) packet →
      NeverExpired (first :: rest) packet ∧
      ∃ delivered arrival, travel (first :: rest) packet origin = .ok (delivered, arrival) ∧
        arrival ≤ origin + par.dMax) ∧
    (par.dMax ≠ 0 → ¬ FirstBudgetNonneg first packet →
      travel (first :: rest) packet origin = .error .expired) ∧
    (par.dMax = 0 → par.dMin ≠ 0 →
      NeverExpired (first :: rest) packet ∧
      ∃ delivered arrival, travel (first :: rest) packet origin = .ok (delivered, arrival)) ∧
    (par.dMin ≠ 0 → DepartsFromTMin (first :: rest) packet →
      ∀ delivered arrival, travel (first :: rest) packet origin = .ok (delivered, arrival) →
        origin + par.dMin ≤ arrival) := by
  obtain ⟨hmin, hmax, _⟩ := DBFComputer.initialize_ok hinit
  have hcarries : par.dMin ≠ 0 ∨ par.dMax ≠ 0 →
      Carries header.srcAddress header.destAddress par.dMin par.dMax datagram.bitLength packet
        origin 0 false := fun h => by
    rw [← hmin, ← hmax] at h ⊢
    exact carries_encapsulate hheader hfresh h hencapsulate
  have horigin : origin - updatedEDelay none 0 transmissionTime = origin := by
    simp [updatedEDelay]
  refine ⟨fun hfinite hbudget hdeparts => ?_, fun hfinite hbudget => ?_,
    fun hinfinite hne => ?_, fun hne hdeparts delivered arrival htravel => ?_⟩
  · have hnode := hcarries (.inr hfinite)
    obtain ⟨queued, tag, _, _, hprocess, _, _, htag, htagMax, _, _, _, hfq, _⟩ :=
      node_step none hnode hfib
    have hnonneg : 0 ≤ remainingBudget par.dMax toDelay (updatedEDelay none 0 transmissionTime)
        transmissionTime (first :: rest).length := by
      simp only [FirstBudgetNonneg, hprocess, TagSatisfies, htag, htagMax, hfq] at hbudget
      exact hbudget
    obtain ⟨delivered, arrival, htravel, hnever, hbound⟩ :=
      travel_by_dMax hfinite hfib hnode horigin hnonneg hdeparts
    exact ⟨hnever, delivered, arrival, htravel, hbound⟩
  · -- a negative budget closes the sender's window before the packet is there
    have hnode := hcarries (.inr hfinite)
    obtain ⟨queued, tag, _, _, hprocess, _, _, htag, htagMax, htagRcv, _, htMax, hfq, _⟩ :=
      node_step none hnode hfib
    simp only [FirstBudgetNonneg, hprocess, TagSatisfies, htag, htagMax, hfq, not_le] at hbudget
    have hneg := div_neg_of_neg_of_pos hbudget
      (by positivity : (0 : SimTime) < (rest.length : SimTime) + 1)
    rw [if_neg hfinite] at htMax
    have hexpired : DBFComputer.isAlreadyExpired queued = true := by
      have : tag.tMax < tag.tRcv := by linarith
      simp [DBFComputer.isAlreadyExpired, htag, hasInfiniteDmax, htagMax, hfinite, this]
    simp [travel, PathNode.admission, DBFIpv4.sendPacketToNIC, hnode.isSome_tag, hprocess,
      hexpired, bind, Except.bind, pure, Except.pure]
  · have hnode := hcarries (.inl hne)
    rw [hinfinite] at hnode
    obtain ⟨delivered, arrival, htravel, hnever⟩ :=
      travel_unbounded none hfib hnode
    exact ⟨hnever, delivered, arrival, htravel⟩
  · exact travel_from_dMin hne (by simp) hfib (hcarries (.inl hne)) horigin hdeparts htravel

/-! ### A path of two nodes

Both links take one second and so does each transmission.  The sender leaves at
the last moment of its window, and the datagram arrives exactly at its `dMax`. -/

def sampleParameters : ComputerParameters :=
  { dMin := 6, dMax := 10, admitBit := 0, datarate := some 1208,
    dbfFIB := [
      { ip := 1, hops := ['0'], lDelay := 0, hDelay := 0, fromDelay := 0, toDelay := 0 },
      { ip := 2, hops := ['2'], lDelay := 1, hDelay := 1, fromDelay := 2, toDelay := 2 }] }

def sampleSender : PathNode :=
  { computer :=
      { dMin := 6, dMax := 10, admitBit := 0, cableDatarate := 1208,
        dbfFIB := loadFib sampleParameters.dbfFIB },
    depart := 3, linkDelay := 1 }

def sampleRouter : PathNode :=
  { computer :=
      { dMin := 0, dMax := 0, admitBit := 0, cableDatarate := 1208,
        dbfFIB := [
          (1, { hops := 1, lDelay := 1, hDelay := 1, fromDelay := 1, toDelay := 1 }),
          (2, { hops := 1, lDelay := 1, hDelay := 1, fromDelay := 1, toDelay := 1 })] },
    depart := 8, linkDelay := 1 }

def sampleDatagram : Packet :=
  { bitLength := 1000, ipv4Header := some { srcAddress := 1, destAddress := 2 } }

/-- `sampleDatagram` as the sender's `encapsulate` leaves it at time 0. -/
def sampleEncapsulated : Packet :=
  { sampleDatagram with
    ipv4Header := some
      { srcAddress := 1, destAddress := 2, options := [.dbf { dMin := 6, dMax := 10 }] },
    tag := some { tRcv := 0, fromNetwork := false } }

theorem sample_consistentFib :
    ConsistentFib 1 2 1 sampleDatagram none [sampleSender, sampleRouter] 2 :=
  @ConsistentFib.node _ _ _ _ _ _ _ 1
    { hops := 0, lDelay := 0, hDelay := 0, fromDelay := 0, toDelay := 0 }
    { hops := 2, lDelay := 1, hDelay := 1, fromDelay := 2, toDelay := 2 }
    (by decide +kernel) (by decide +kernel) (by decide +kernel) (by decide +kernel)
    (fun _ h => nomatch h) (by decide +kernel)
    (@ConsistentFib.node _ _ _ _ _ _ _ 0
      { hops := 1, lDelay := 1, hDelay := 1, fromDelay := 1, toDelay := 1 }
      { hops := 1, lDelay := 1, hDelay := 1, fromDelay := 1, toDelay := 1 }
      (by decide +kernel) (by decide +kernel) (by decide +kernel) (by decide +kernel)
      (fun _ h => Option.some.inj h) (by decide +kernel)
      (.destination _))

theorem end_to_end_latency_sample :
    NeverExpired [sampleSender, sampleRouter] sampleEncapsulated ∧
    (∃ delivered arrival,
      travel [sampleSender, sampleRouter] sampleEncapsulated 0 = .ok (delivered, arrival) ∧
        arrival ≤ 0 + 10) ∧
    ∀ delivered arrival,
      travel [sampleSender, sampleRouter] sampleEncapsulated 0 = .ok (delivered, arrival) →
        0 + 6 ≤ arrival := by
  have h := end_to_end_latency sampleParameters sampleSender [sampleRouter] sampleDatagram
    sampleEncapsulated { srcAddress := 1, destAddress := 2 } 0 1 2 rfl rfl rfl rfl
    sample_consistentFib
  have hupper := h.1 (by decide +kernel) (by decide +kernel) (by decide +kernel)
  exact ⟨hupper.1, hupper.2, h.2.2.2 (by decide +kernel) (by decide +kernel)⟩

end DelayBasedForwarding
