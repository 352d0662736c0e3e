import DelayBasedForwarding.FlowHeaders
import DelayBasedForwarding.FlowLines
import DelayBasedForwarding.SendOrder

/-!
# When the packets of a flow come

A sender sends datagrams of one length over one path.  If it has a lower bound, a node that
gets them in order computes send windows in this order and equally long ones; if it has no
bounds, they have no windows.  A node does get them in order if the node before it sends them
so, because frames of one length do not pass each other on a link.
-/

namespace DelayBasedForwarding

open DBFComputer Lines TransitionRuns

/-- When the packet came to its node, if it has a tag. -/
def Packet.receipt (packet : Packet) : Option SimTime := packet.tag.map DBFHeaderTag.tRcv

namespace Network

variable {N P : Type} {net : Network N P} {r : FlowRoute N P} {p : P} {sender : N} {bits : Nat}
  {packet queued x y : Packet} {t : SimTime}

/-! ## Packets of one sender -/

/-- The packet has the length of the flow's datagrams, and what its sender has marked. -/
structure OfSender (net : Network N P) (sender : N) (bits : Nat) (packet : Packet) : Prop where
  bitLength : packet.bitLength = bits
  bestEffort : (net.computer sender).isBEMode = true → packet.dbfOption = none
  option : (net.computer sender).isBEMode = false → ∃ option, packet.dbfOption = some option ∧
    option.dMin = (net.computer sender).dMin ∧ option.dMax = (net.computer sender).dMax ∧
    option.admitBit = (net.computer sender).admitBit

/-- In a queue, the admit bit and the budgets are in the tag as well. -/
structure QueuedOfSender (net : Network N P) (sender : N) (bits : Nat)
    (packet : Packet) : Prop where
  ofSender : net.OfSender sender bits packet
  tag : ∀ tag, packet.tag = some tag → tag.admitBit = (net.computer sender).admitBit ∧
    tag.tMin = tag.lqBudgetMin + tag.tRcv ∧ tag.tMax = tag.lqBudgetMax + tag.tRcv

theorem OfSender.bounds (h : net.OfSender sender bits packet) {option : DBFIpv4Option}
    (hoption : packet.dbfOption = some option) : option.dMin = (net.computer sender).dMin ∧
      option.dMax = (net.computer sender).dMax ∧
      option.admitBit = (net.computer sender).admitBit := by
  cases hmode : (net.computer sender).isBEMode with
  | true => exact nomatch (h.bestEffort hmode).symm.trans hoption
  | false =>
      obtain ⟨option', hoption', hbounds⟩ := h.option hmode
      cases hoption.symm.trans hoption'
      exact hbounds

/-- Only `eDelay` of the option is rewritten. -/
theorem OfSender.rewritten (h : net.OfSender sender bits packet)
    (hcontent : queued.content = packet.content)
    (hnone : packet.dbfOption = none → queued.dbfOption = none)
    (hsome : ∀ option, packet.dbfOption = some option → ∃ eDelay,
      queued.dbfOption = some { option with eDelay := eDelay }) :
    net.OfSender sender bits queued := by
  refine ⟨(bitLength_of_content hcontent).trans h.bitLength,
    fun hmode => hnone (h.bestEffort hmode), fun hmode => ?_⟩
  obtain ⟨option, hoption, hbounds⟩ := h.option hmode
  obtain ⟨eDelay, hqueued⟩ := hsome option hoption
  exact ⟨_, hqueued, hbounds⟩

theorem queuedOfSender_sendPacketToNIC (h : net.OfSender sender bits packet)
    (hlawful : packet.Lawful)
    (hsend : DBFIpv4.sendPacketToNIC (net.computer (net.networkInterface p).node) packet =
      .ok (some queued)) : net.QueuedOfSender sender bits queued := by
  rcases sendPacketToNIC_some hlawful hsend with
    ⟨htag, rfl⟩ | ⟨tag, option, header, source, destination, htag, hoption, _, hprocessed⟩
  · exact ⟨h, fun tag hsome => (nomatch htag.symm.trans hsome)⟩
  · refine ⟨h.rewritten hprocessed.content (fun hnone => (nomatch hoption.symm.trans hnone))
      fun option' hoption' => ?_, fun tag' htag' => ?_⟩
    · cases hoption.symm.trans hoption'
      exact ⟨_, hprocessed.queuedOption⟩
    · cases hprocessed.queuedTag.symm.trans htag'
      exact ⟨(h.bounds hoption).2.2, rfl, rfl⟩

/-- What is pushed has come to its node when the packet it is made of has. -/
theorem receipt_sendPacketToNIC (hlawful : packet.Lawful)
    (hsend : DBFIpv4.sendPacketToNIC (net.computer (net.networkInterface p).node) packet =
      .ok (some queued)) : queued.receipt = packet.receipt := by
  rcases sendPacketToNIC_some hlawful hsend with
    ⟨_, rfl⟩ | ⟨tag, option, header, source, destination, htag, hoption, _, hprocessed⟩
  · rfl
  · simp [Packet.receipt, hprocessed.queuedTag, htag, processedTag]

/-- Everything of the flow is of its sender, wherever it is. -/
def AllOfSender (net : Network N P) (r : FlowRoute N P) (sender : N) (bits : Nat)
    (s : NetworkState N P) : Prop :=
  Carried (fun _ packet => packet.InFlow r → net.OfSender sender bits packet)
    (fun _ packet => packet.InFlow r → net.QueuedOfSender sender bits packet)
    (fun frame => frame.packet.InFlow r → net.OfSender sender bits frame.packet) s

variable {s s' : NetworkState N P} {event : NetworkEvent N P}

theorem AllOfSender.step [DecidableEq N] [DecidableEq P] (hsound : net.Sound s)
    (h : net.AllOfSender r sender bits s) (horder : net.KeepsOrder r sender bits s event)
    (heffect : NetworkEffect net s event s') : net.AllOfSender r sender bits s' := by
  refine Carried.step hsound h heffect ?_ ?_ ?_ ?_
  · intro t node datagram packet hevent hfresh hpacket hin
    obtain ⟨packet', hok, hcontent, hbestEffort, hmarked⟩ :=
      encapsulate_spec (net.computer node) t hfresh
    cases hok.symm.trans hpacket
    have hin : datagram.InFlow r := (inFlow_of_content hcontent).mp hin
    subst hevent
    obtain ⟨rfl, hbits⟩ := horder hin
    exact ⟨(bitLength_of_content hcontent).trans hbits, fun hmode => (hbestEffort hmode).2,
      fun hmode => ⟨_, (hmarked hmode).2, rfl, rfl, rfl⟩⟩
  · intro t p packet queued id _ hmem hsend hcontent hin
    have hin : packet.InFlow r := (inFlow_of_content hcontent).mp hin
    have hnew := queuedOfSender_sendPacketToNIC (h.inside _ hmem hin) (hsound.inside _ hmem).1 hsend
    exact ⟨⟨hnew.ofSender.bitLength, hnew.ofSender.bestEffort, hnew.ofSender.option⟩, hnew.tag⟩
  · intro t p q collectionIdx stored out hmem hmatch hwrite hcontent _ hin
    have hin : stored.InFlow r := (inFlow_of_content hcontent).mp hin
    obtain ⟨out', hok, _, _, huntagged, hmarked⟩ := writeEDelay_spec t hmatch
    cases hok.symm.trans hwrite
    refine (h.queued p q stored hmem hin).ofSender.rewritten hcontent (fun hnone => ?_)
      fun option hoption => ?_
    · rw [hnone, Option.isSome_none, Option.isSome_eq_false_iff, Option.isNone_iff_eq_none]
        at hmatch
      rwa [huntagged hmatch]
    · rw [hoption, Option.isSome_some, Option.isSome_iff_exists] at hmatch
      obtain ⟨tag, htag⟩ := hmatch
      exact ⟨_, hmarked tag option htag hoption⟩
  · intro frame received hframe hreceived hcontent _ hin
    have hin : frame.packet.InFlow r := (inFlow_of_content hcontent).mp hin
    obtain ⟨received', hok, _, hsame, _⟩ :=
      ingress_spec frame.arrival (hsound.links frame hframe).1
    cases hok.symm.trans hreceived
    refine (h.links frame hframe hin).rewritten hcontent (fun hnone => hsame.trans hnone)
      fun option hoption => ⟨option.eDelay, ?_⟩
    rw [hsame, hoption]

/-! ## Windows in order -/

/-- A packet of the flow in a queue of the route. -/
structure Standing (net : Network N P) (r : FlowRoute N P) (sender : N) (bits : Nat) (p : P)
    (packet : Packet) : Prop where
  inFlow : packet.InFlow r
  lawful : packet.Lawful
  queuedAt : net.QueuedAt r p packet
  ofSender : net.QueuedOfSender sender bits packet

/-- The identity that the queue gives the packet does not count. -/
theorem Standing.with_id (h : net.Standing r sender bits p packet) (id : Nat) :
    net.Standing r sender bits p { packet with id := id } :=
  ⟨h.inFlow, ⟨h.lawful.tagged, h.lawful.accepted⟩,
    ⟨h.queuedAt.uses, h.queuedAt.bounds, h.queuedAt.window⟩,
    ⟨⟨h.ofSender.ofSender.bitLength, h.ofSender.ofSender.bestEffort, h.ofSender.ofSender.option⟩,
      h.ofSender.tag⟩⟩

/-- The first of two packets has neither been encapsulated nor received after the second. -/
def Earlier (x y : Promise × Option SimTime) : Prop :=
  (∀ first ∈ x.1.objective, ∀ second ∈ y.1.objective, first.origin ≤ second.origin) ∧
  ∀ first ∈ x.2, ∀ second ∈ y.2, first ≤ second

/-- A bound of the sender, divided evenly over the hops that are left. -/
theorem localBound_le {node : N} (hbits : x.bitLength = y.bitLength)
    {origin origin' bound tRcv tRcv' : SimTime} (hbound : bound ≠ 0) (hhops : 1 ≤ r.hops node)
    (horigin : origin ≤ origin') (hreceived : tRcv ≤ tRcv') :
    net.localBound r node x origin bound tRcv ≤ net.localBound r node y origin' bound tRcv' := by
  have hsplit : ∀ (packet : Packet) (origin tRcv : SimTime),
      net.localBound r node packet origin bound tRcv =
        tRcv * (1 - 1 / r.hops node) +
          (origin + bound - net.travelTime r node packet) * (1 / r.hops node) := by
    intro packet origin tRcv
    rw [localBound, if_neg hbound]
    ring
  have htravel : net.travelTime r node x = net.travelTime r node y := by
    unfold travelTime
    rw [calculateTransmissionTime_congr _ hbits]
  have hone : (1 : ℚ) ≤ r.hops node := by exact_mod_cast hhops
  have hshare : (0 : ℚ) ≤ 1 / r.hops node := by positivity
  have hrest : (0 : ℚ) ≤ 1 - 1 / r.hops node := by
    rw [sub_nonneg, div_le_one (by linarith)]
    exact hone
  rw [hsplit, hsplit, htravel]
  gcongr

theorem Standing.isBestEffort (hmode : (net.computer sender).isBEMode = true)
    (h : net.Standing r sender bits p packet) : isBestEffort packet = true := by
  have hmatch := h.lawful.tagged
  rw [h.ofSender.ofSender.bestEffort hmode, Option.isSome_none] at hmatch
  exact Option.isSome_eq_false_iff.mp hmatch

/-- The window of a packet of the flow. -/
theorem Standing.window (hroute : net.Consistent r) (hmode : (net.computer sender).isBEMode = false)
    (h : net.Standing r sender bits p packet) :
    ∃ tag, packet.tag = some tag ∧ tag.dMin = (net.computer sender).dMin ∧
      tag.dMax = (net.computer sender).dMax ∧ tag.admitBit = (net.computer sender).admitBit ∧
      packet.queuedOrigin = tag.tRcv - tag.eDelay ∧
      tag.tMin = net.localBound r (net.networkInterface p).node packet packet.queuedOrigin
        (net.computer sender).dMin tag.tRcv ∧
      tag.tMax = net.localBound r (net.networkInterface p).node packet packet.queuedOrigin
        (net.computer sender).dMax tag.tRcv ∧
      lqbudget tag = |tag.tMax - tag.tMin| := by
  obtain ⟨option, hoption, hmin, hmax, _⟩ := h.ofSender.ofSender.option hmode
  have hmatch := h.lawful.tagged
  rw [hoption, Option.isSome_some, Option.isSome_iff_exists] at hmatch
  obtain ⟨tag, htag⟩ := hmatch
  obtain ⟨htagMin, htagMax⟩ := h.queuedAt.bounds tag option htag hoption
  obtain ⟨row, hrow, htMin, htMax⟩ := h.queuedAt.window h.inFlow tag htag
  have huses := h.queuedAt.uses h.inFlow
  rw [localBudget_eq_localBound hroute huses hrow] at htMin htMax
  obtain ⟨hadmitted, hbudgetMin, hbudgetMax⟩ := h.ofSender.tag tag htag
  have horigin : packet.queuedOrigin = tag.tRcv - tag.eDelay := by
    simp [Packet.queuedOrigin, htag]
  have hdMin := htagMin.trans hmin
  have hdMax := htagMax.trans hmax
  rw [hdMin, ← horigin] at htMin
  rw [hdMax, ← horigin] at htMax
  refine ⟨tag, htag, hdMin, hdMax, hadmitted, horigin, htMin, htMax, ?_⟩
  rw [lqbudget, hbudgetMin, hbudgetMax, add_sub_add_right_eq_sub]

/-- All windows of the flow at an interface are equally long. -/
theorem localBound_sub {node : N} {origin dMin dMax tRcv : SimTime} (hmin : dMin ≠ 0)
    (hmax : dMax ≠ 0) :
    net.localBound r node packet origin dMax tRcv - net.localBound r node packet origin dMin tRcv =
      (dMax - dMin) / r.hops node := by
  rw [localBound, localBound, if_neg hmin, if_neg hmax]
  ring

theorem dMin_ne_zero (hbound : (net.computer sender).dMin = 0 → (net.computer sender).dMax = 0)
    (hmode : (net.computer sender).isBEMode = false) : (net.computer sender).dMin ≠ 0 := by
  intro hmin
  simp [isBEMode, hmin, hbound hmin] at hmode

/-- **Windows are in order.** -/
theorem Standing.leads (hroute : net.Consistent r)
    (hbound : (net.computer sender).dMin = 0 → (net.computer sender).dMax = 0)
    (hx : net.Standing r sender bits p x) (hy : net.Standing r sender bits p y)
    (hearlier : Earlier (x.queuedPromise, x.receipt) (y.queuedPromise, y.receipt)) :
    x.Leads y := by
  cases hmode : (net.computer sender).isBEMode with
  | true => exact .inl ⟨hx.isBestEffort hmode, hy.isBestEffort hmode⟩
  | false =>
      right
      have hmin := dMin_ne_zero hbound hmode
      obtain ⟨tag, htag, _, hmax, hadmitted, _, htMin, htMax, _⟩ := hx.window hroute hmode
      obtain ⟨tag', htag', _, hmax', hadmitted', _, htMin', htMax', _⟩ := hy.window hroute hmode
      obtain ⟨option, hoption, hoptionMin, hoptionMax, _⟩ := hx.ofSender.ofSender.option hmode
      obtain ⟨option', hoption', _⟩ := hy.ofSender.ofSender.option hmode
      have horigin : x.queuedOrigin ≤ y.queuedOrigin :=
        hearlier.1 _ (Option.mem_map_of_mem _ hoption) _ (Option.mem_map_of_mem _ hoption')
      have hreceived : tag.tRcv ≤ tag'.tRcv :=
        hearlier.2 _ (Option.mem_map_of_mem _ htag) _ (Option.mem_map_of_mem _ htag')
      have hhops := one_le_hops hroute (hx.queuedAt.uses hx.inFlow)
      have hbits := hx.ofSender.ofSender.bitLength.trans hy.ofSender.ofSender.bitLength.symm
      refine ⟨tag, tag', htag, htag', ?_, hmax'.trans hmax.symm, fun hfinite => ?_,
        fun hfinite => ?_, hadmitted'.trans hadmitted.symm⟩
      · rw [htMin, htMin']
        exact localBound_le hbits hmin hhops horigin hreceived
      · rw [htMin, htMin', htMax, htMax', localBound_sub hmin (hmax ▸ hfinite),
          localBound_sub hmin (hmax ▸ hfinite)]
      · have hordered := (hx.lawful.accepted option hoption).le_dMax (by
          rw [hoptionMax, ← hmax]
          exact hfinite)
        rw [← sub_nonneg, htMin, htMax, localBound_sub hmin (hmax ▸ hfinite)]
        rw [hoptionMin, hoptionMax] at hordered
        have hnonneg := sub_nonneg.mpr hordered
        positivity

/-- The classifier puts the flow into one queue. -/
theorem Standing.packetDelta (hroute : net.Consistent r)
    (hbound : (net.computer sender).dMin = 0 → (net.computer sender).dMax = 0)
    (hx : net.Standing r sender bits p x) (hy : net.Standing r sender bits p y)
    (par : ClassifierParameters) :
    DelayBasedForwarding.packetDelta par x = DelayBasedForwarding.packetDelta par y := by
  cases hmode : (net.computer sender).isBEMode with
  | true =>
      exact (kind_isBestEffort par).sameDelta x y (hx.isBestEffort hmode) (hy.isBestEffort hmode)
  | false =>
      have hmin := dMin_ne_zero hbound hmode
      obtain ⟨tag, htag, _, hmax, _, _, htMin, htMax, hbudget⟩ := hx.window hroute hmode
      obtain ⟨tag', htag', _, hmax', _, _, htMin', htMax', hbudget'⟩ := hy.window hroute hmode
      unfold DelayBasedForwarding.packetDelta
      simp only [htag, htag', hasInfiniteDmax, hmax, hmax']
      by_cases hinfinite : (net.computer sender).dMax = 0
      · simp [hinfinite]
      · have hsame : lqbudget tag = lqbudget tag' := by
          rw [hbudget, hbudget', htMin, htMin', htMax, htMax', localBound_sub hmin hinfinite,
            localBound_sub hmin hinfinite]
        rw [hsame]

/-! ## Encapsulations, receipts and arrivals -/

variable [DecidableEq N] [DecidableEq P]

/-- When the packets of the flow at the node of an interface came there: first those that were
    pushed to the interface, then those that are inside. -/
def receipts (net : Network N P) (r : FlowRoute N P) (s : NetworkState N P) (p : P) :
    List (Option SimTime) :=
  (flowPushed r (s.egress p)).map Packet.receipt ++
    (flowInside r s.inside (net.networkInterface p).node).map fun x => x.2.receipt

/-- The sender and every node of the route get the flow in the order of time, and every link
    carries it in the order of its arrivals. -/
structure InTime (net : Network N P) (r : FlowRoute N P) (s : NetworkState N P) : Prop where
  encapsulated : Chronological s.now (s.log.encapsulated.map fun x => some x.2.1)
  received : ∀ p, Chronological s.now (net.receipts r s p)
  carried : ∀ p, (flowCarried r s.links p).Pairwise fun first second =>
    first.arrival ≤ second.arrival
  departed : ∀ frame ∈ s.links, net.departure frame ≤ s.now

theorem inTime_initial (net : Network N P) (r : FlowRoute N P) : net.InTime r net.initial where
  encapsulated := by
    constructor <;> simp [Network.initial]
  received p := by
    constructor <;> simp [Network.initial, Egress.initial, receipts, flowPushed, flowInside,
      atPlace]
  carried p := by
    simp [Network.initial, flowCarried, atPlace]
  departed := by
    simp [Network.initial]

theorem NetworkEffect.now_eq (heffect : NetworkEffect net s event s') :
    s'.now = event.simTime := by
  cases heffect <;> rfl

omit [DecidableEq P] in
/-- A packet that comes into a network layer is the last there, if it is there. -/
theorem receipts_append (net : Network N P) (r : FlowRoute N P) (s : NetworkState N P) (p : P)
    (node : N) (packet : Packet) (hegress : s'.egress = s.egress)
    (hinside : s'.inside = s.inside ++ [(node, packet)]) :
    (net.receipts r s' p).Sublist (net.receipts r s p ++ [packet.receipt]) := by
  have hlast : (flowInside r (s.inside ++ [(node, packet)]) (net.networkInterface p).node).Sublist
      (flowInside r s.inside (net.networkInterface p).node ++ [(node, packet)]) :=
    atPlace_append_sublist s.inside (node, packet) (net.networkInterface p).node
  have hmapped := hlast.map fun x : N × Packet => x.2.receipt
  rw [List.map_append] at hmapped
  unfold receipts
  rw [hegress, hinside, List.append_assoc]
  exact hmapped.append_left _

/-- A packet that is handed on keeps its receipt. -/
theorem receipts_push (hsound : net.Sound s) (hlawful : packet.Lawful) {a : P} {egress : Egress}
    (hsend : DBFIpv4.sendPacketToNIC (net.computer (net.networkInterface a).node) packet =
      .ok (some queued)) (hcontent : queued.content = packet.content)
    (hstep : net.PortStep a (s.egress a) (.push t queued) egress)
    (hfirst : packet.InFlow r → (flowInside r s.inside (net.networkInterface a).node).head? =
      some ((net.networkInterface a).node, packet)) (p : P) :
    (net.receipts r { s with
      now := t, inside := s.inside.erase ((net.networkInterface a).node, packet),
      egress := Function.update s.egress a egress } p).Sublist (net.receipts r s p) := by
  have hsame : ofFlow r { queued with id := (s.egress a).nextPacket } = ofFlow r packet :=
    ofFlow_of_content hcontent
  have hinside : (flowInside r (s.inside.erase ((net.networkInterface a).node, packet))
      (net.networkInterface p).node).Sublist
      (flowInside r s.inside (net.networkInterface p).node) := atPlace_sublist List.erase_sublist _
  unfold receipts
  by_cases hmoves : p = a ∧ packet.InFlow r
  · obtain ⟨rfl, hin⟩ := hmoves
    have hfirst : (flowInside r s.inside (Prod.fst ((net.networkInterface p).node, packet))).head? =
        some ((net.networkInterface p).node, packet) := hfirst hin
    obtain ⟨rest, hrest, herase⟩ := exists_atPlace_erase hfirst
    have hpushed : flowPushed r egress =
        flowPushed r (s.egress p) ++ [{ queued with id := (s.egress p).nextPacket }] := by
      have hlast := congrFun (flowPushed_step (r := r) hsound hstep) p
      rw [Function.comp_apply, Function.update_self, Function.update_self] at hlast
      rw [hlast, EgressEvent.arriving, List.filter_singleton, hsame, ofFlow_iff.mpr hin]
      rfl
    have hleft := congrFun herase (net.networkInterface p).node
    rw [Function.update_self] at hleft
    have hreceipt : Packet.receipt { queued with id := (s.egress p).nextPacket } =
        packet.receipt := by
      rw [← receipt_sendPacketToNIC hlawful hsend]
      rfl
    unfold flowInside
    simp [hpushed, hleft, hrest, hreceipt]
  · have hpushed : flowPushed r (Function.update s.egress a egress p) =
        flowPushed r (s.egress p) := by
      by_cases hp : p = a
      · subst hp
        have hmember : ofFlow r packet = false :=
          ofFlow_eq_false_iff.mpr fun hin => hmoves ⟨rfl, hin⟩
        have hnone :
            (EgressEvent.arriving (s.egress p) (.push t queued)).filter (ofFlow r) = [] := by
          rw [EgressEvent.arriving, List.filter_singleton, hsame, hmember]
          rfl
        exact congrFun (flowPushed_same hsound hstep hnone) p
      · rw [Function.update_of_ne hp]
    rw [hpushed]
    exact ((atPlace_sublist List.erase_sublist _).map _).append_left _

omit [DecidableEq N] [DecidableEq P] in
theorem tRcv_handleMessage (huntagged : packet.tag = none)
    (hreceived : IngressForwarder.handleMessage t packet = .ok queued) :
    ∀ tag ∈ queued.tag, tag.tRcv = t := by
  obtain ⟨received', hok, _, _, htag⟩ := ingress_spec t huntagged
  cases hok.symm.trans hreceived
  intro tag hmem
  rw [htag] at hmem
  split at hmem
  · cases hmem
    rfl
  · cases hmem

/-- A step lets at most one packet come to a node, and that now. -/
theorem exists_receipt (hsound : net.Sound s) (horder : net.KeepsOrder r sender bits s event)
    (heffect : NetworkEffect net s event s') (p : P) :
    ∃ receipt : Option SimTime, (net.receipts r s' p).Sublist (net.receipts r s p ++ [receipt]) ∧
      ∀ t ∈ receipt, t = s'.now := by
  -- a step in which no packet comes
  have hnone : (net.receipts r s' p).Sublist (net.receipts r s p) →
      ∃ receipt : Option SimTime, (net.receipts r s' p).Sublist (net.receipts r s p ++ [receipt]) ∧
        ∀ t ∈ receipt, t = s'.now :=
    fun h => ⟨none, h.trans (List.sublist_append_left _ _), fun _ h => (nomatch h)⟩
  have hegress : ∀ {a : P} {e : EgressEvent} {egress : Egress},
      net.PortStep a (s.egress a) e egress → (e.arriving (s.egress a)).filter (ofFlow r) = [] →
      flowPushed r (Function.update s.egress a egress p) = flowPushed r (s.egress p) :=
    fun hstep harriving => congrFun (flowPushed_same hsound hstep harriving) p
  cases heffect with
  | @encapsulate t node datagram packet hfresh hpacket =>
      refine ⟨packet.receipt, receipts_append net r s p node packet rfl rfl, ?_⟩
      intro receipt hreceipt
      obtain ⟨tag, htag, rfl⟩ := Option.mem_map.mp hreceipt
      exact (lawful_encapsulate (net.initialized node) hfresh hpacket).2.2 tag htag
  | @refuse t a packet hmem hsend =>
      exact hnone (((atPlace_sublist List.erase_sublist _).map _).append_left _)
  | @push t a packet queued egress hmem hsend hqueued hcontent hstep =>
      exact hnone (receipts_push hsound (hsound.inside _ hmem).1 hsend hcontent hstep
        (fun hin => (horder hin).2) p)
  | @txIdle t a egress hstep =>
      apply hnone
      simp only [receipts, hegress hstep rfl]
      exact List.Sublist.refl _
  | @timer t a msg egress sent hstep hsent =>
      apply hnone
      simp only [receipts, hegress hstep rfl]
      exact List.Sublist.refl _
  | @deliver t frame received hframe harrival hreceived hlocal => exact hnone (List.Sublist.refl _)
  | @forward t frame received hframe harrival hreceived hlocal =>
      refine ⟨received.receipt,
        receipts_append net r s p (net.networkInterface frame.port).peer received rfl rfl, ?_⟩
      intro receipt hreceipt
      obtain ⟨tag, htag, rfl⟩ := Option.mem_map.mp hreceipt
      exact tRcv_handleMessage (hsound.links _ hframe).1 hreceived tag htag

/-- A step puts at most one frame on a link, and that now. -/
theorem links_step (hsound : net.Sound s) (heffect : NetworkEffect net s event s') :
    s'.links.Sublist s.links ∨
      ∃ frame, s'.links = s.links ++ [frame] ∧ net.departure frame = s'.now := by
  cases heffect with
  | @timer t p msg egress sent hstep hsent =>
      refine .inr ⟨net.transmit p sent, rfl, ?_⟩
      simp only [departure, transmit, (exists_stored hsound hstep hsent).1]
      ring
  | deliver hframe harrival hreceived hlocal => exact .inl List.erase_sublist
  | forward hframe harrival hreceived hlocal => exact .inl List.erase_sublist
  | encapsulate hfresh hpacket => exact .inl (List.Sublist.refl _)
  | refuse hmem hsend => exact .inl (List.Sublist.refl _)
  | push hmem hsend hqueued hcontent hstep => exact .inl (List.Sublist.refl _)
  | txIdle hstep => exact .inl (List.Sublist.refl _)

theorem exists_encapsulation (heffect : NetworkEffect net s event s') :
    ∃ time : Option SimTime, (s'.log.encapsulated.map fun x => some x.2.1).Sublist
        ((s.log.encapsulated.map fun x => some x.2.1) ++ [time]) ∧ ∀ t ∈ time, t = s'.now := by
  have hnone : s'.log.encapsulated = s.log.encapsulated →
      ∃ time : Option SimTime, (s'.log.encapsulated.map fun x => some x.2.1).Sublist
        ((s.log.encapsulated.map fun x => some x.2.1) ++ [time]) ∧ ∀ t ∈ time, t = s'.now :=
    fun h => ⟨none, h ▸ List.sublist_append_left _ _, fun _ h => (nomatch h)⟩
  cases heffect with
  | @encapsulate t node datagram packet hfresh hpacket =>
      refine ⟨some t, ?_, fun _ h => (Option.mem_some_iff.mp h).symm⟩
      rw [List.map_append]
      exact List.Sublist.refl _
  | refuse hmem hsend => exact hnone rfl
  | push hmem hsend hqueued hcontent hstep => exact hnone rfl
  | txIdle hstep => exact hnone rfl
  | timer hstep hsent => exact hnone rfl
  | deliver hframe harrival hreceived hlocal => exact hnone rfl
  | forward hframe harrival hreceived hlocal => exact hnone rfl

/-- Frames of one length on one link arrive in the order of their departures. -/
theorem InTime.carried_step (hsound : net.Sound s) (hall : net.AllOfSender r sender bits s')
    (h : net.InTime r s) (hlater : s.now ≤ s'.now) (heffect : NetworkEffect net s event s')
    (p : P) : (flowCarried r s'.links p).Pairwise fun first second =>
      first.arrival ≤ second.arrival := by
  rcases links_step hsound heffect with hlinks | ⟨frame, hlinks, hdeparture⟩
  · exact (h.carried p).sublist (atPlace_sublist hlinks p)
  · have hbits : ∀ other ∈ flowCarried r s'.links p, other.port = p ∧
        other.packet.bitLength = bits := fun other hmem => by
      obtain ⟨hmem, hflow, hport⟩ := mem_atPlace.mp hmem
      exact ⟨hport, (hall.links other hmem (ofFlow_iff.mp hflow)).bitLength⟩
    unfold flowCarried atPlace at hbits ⊢
    rw [hlinks, List.filter_append] at hbits ⊢
    refine List.pairwise_append.mpr ⟨h.carried p, ?_, fun first hfirst second hsecond => ?_⟩
    · exact (List.pairwise_singleton _ frame).sublist List.filter_sublist
    · obtain ⟨hfirstPort, hfirstBits⟩ := hbits first (List.mem_append_left _ hfirst)
      obtain ⟨hsecondPort, hsecondBits⟩ := hbits second (List.mem_append_right _ hsecond)
      have hnew : second = frame := List.mem_singleton.mp (List.mem_filter.mp hsecond).1
      have hbefore := h.departed first (List.mem_filter.mp hfirst).1
      subst hnew
      unfold departure at hbefore hdeparture
      rw [hfirstPort, hfirstBits] at hbefore
      rw [hsecondPort, hsecondBits] at hdeparture
      linarith

theorem InTime.step (hsound : net.Sound s) (hall : net.AllOfSender r sender bits s')
    (h : net.InTime r s) (horder : net.KeepsOrder r sender bits s event)
    (hlater : s.now ≤ s'.now) (heffect : NetworkEffect net s event s') : net.InTime r s' where
  encapsulated := by
    obtain ⟨time, hsub, htime⟩ := exists_encapsulation heffect
    exact h.encapsulated.append hlater htime hsub
  received p := by
    obtain ⟨receipt, hsub, htime⟩ := exists_receipt hsound horder heffect p
    exact (h.received p).append hlater htime hsub
  carried := h.carried_step hsound hall hlater heffect
  departed := by
    rcases links_step hsound heffect with hlinks | ⟨frame, hlinks, hdeparture⟩
    · exact fun frame hframe => (h.departed frame (hlinks.subset hframe)).trans hlater
    · rw [hlinks, List.forall_mem_append, List.forall_mem_singleton]
      exact ⟨fun frame hframe => (h.departed frame hframe).trans hlater, hdeparture.le⟩

end Network

end DelayBasedForwarding
