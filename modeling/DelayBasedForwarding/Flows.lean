import DelayBasedForwarding.Promises

/-!
# Flows

A flow is the datagrams from one address to another.  Its route is consistent if the
FIBs agree with the interfaces its packets are handed to.  Then the windows in which
the queues on the route send its packets are those their promises need: a packet that
leaves the last of them arrives in time.  Any other traffic may share the network, over
any interfaces and with any FIBs.
-/

namespace DelayBasedForwarding

open DBFComputer TransitionRuns

/-! ## Routes -/

/-- The interfaces a flow may be handed to, and for each of their nodes the number of
    links to the destination and their delays. -/
structure FlowRoute (N P : Type) where
  source : Ipv4Address
  destination : Ipv4Address
  uses : P → Prop
  hops : N → Nat
  delay : N → SimTime

/-- The packet belongs to the flow. -/
def Packet.InFlow {N P : Type} (r : FlowRoute N P) (packet : Packet) : Prop :=
  packet.addresses = some (r.source, r.destination)

instance {N P : Type} (r : FlowRoute N P) (packet : Packet) : Decidable (packet.InFlow r) :=
  inferInstanceAs (Decidable (packet.addresses = _))

theorem inFlow_of_content {N P : Type} {r : FlowRoute N P} {p q : Packet}
    (h : p.content = q.content) : p.InFlow r ↔ q.InFlow r := by
  unfold Packet.InFlow
  rw [addresses_of_content h]

theorem inFlow_content {N P : Type} {r : FlowRoute N P} {packet : Packet} :
    packet.content.InFlow r ↔ packet.InFlow r := by
  unfold Packet.InFlow
  rw [addresses_content]

theorem exists_header_of_inFlow {N P : Type} {r : FlowRoute N P} {packet : Packet}
    (hin : packet.InFlow r) : ∃ header, packet.ipv4Header = some header ∧
      header.srcAddress = r.source ∧ header.destAddress = r.destination := by
  obtain ⟨header, hheader, haddresses⟩ := Option.map_eq_some_iff.mp hin
  rw [Prod.mk.injEq] at haddresses
  exact ⟨header, hheader, haddresses⟩

namespace Network

variable {N P : Type}

/-- The FIBs fit the links.  At the node of an interface, the row of the destination has
    the hops and the delay to it; at its peer, the row of the source has the delay of the
    link; and the interface transmits at the rate the computers assume. -/
structure Consistent (net : Network N P) (r : FlowRoute N P) : Prop where
  destination : ∀ p, r.uses p → ∃ row,
    (net.computer (net.networkInterface p).node).dbfFIB.lookup r.destination = some row ∧
    row.hops.toInt = r.hops (net.networkInterface p).node ∧
    row.toDelay = r.delay (net.networkInterface p).node
  source : ∀ p, r.uses p →
    net.isLocalAddress (net.networkInterface p).peer r.destination = false → ∃ row,
    (net.computer (net.networkInterface p).peer).dbfFIB.lookup r.source = some row ∧
    row.lDelay = (net.networkInterface p).linkDelay
  last : ∀ p, r.uses p →
    net.isLocalAddress (net.networkInterface p).peer r.destination = true →
    r.hops (net.networkInterface p).node = 1 ∧
    r.delay (net.networkInterface p).node = (net.networkInterface p).linkDelay
  next : ∀ p, r.uses p →
    net.isLocalAddress (net.networkInterface p).peer r.destination = false →
    r.hops (net.networkInterface p).node = r.hops (net.networkInterface p).peer + 1 ∧
    r.delay (net.networkInterface p).node =
      (net.networkInterface p).linkDelay + r.delay (net.networkInterface p).peer
  transmission : ∀ p, r.uses p → ∀ packet,
    (net.networkInterface p).transmissionTime packet.bitLength =
      (net.computer (net.networkInterface p).node).calculateTransmissionTime packet

/-- The network layer hands the flow only to interfaces of the route. -/
def RoutedOver (r : FlowRoute N P) (event : NetworkEvent N P) : Prop :=
  ∀ t p packet, event = .sendPacketToNIC t p packet → packet.InFlow r → r.uses p

/-- A queue on the route is limited. -/
def Limited (net : Network N P) (r : FlowRoute N P) : Prop :=
  ∃ p, r.uses p ∧ ¬ Unlimited (net.networkInterface p).config

variable {net : Network N P} {r : FlowRoute N P} {p : P} {packet queued stored out : Packet}
  {t : SimTime}

theorem initialize_cableDatarate {par : ComputerParameters} {computer : DBFComputer}
    (h : DBFComputer.initialize par = .ok computer) :
    computer.cableDatarate = par.datarate.getD 0 := by
  unfold DBFComputer.initialize at h
  split at h
  · cases h
  · split at h
    · cases h
    · cases h
      rfl

/-- The computers of a network assume the same rate. -/
theorem calculateTransmissionTime_node (net : Network N P) (m n : N) (packet : Packet) :
    (net.computer m).calculateTransmissionTime packet =
      (net.computer n).calculateTransmissionTime packet := by
  unfold calculateTransmissionTime
  rw [initialize_cableDatarate (net.initialized m), initialize_cableDatarate (net.initialized n),
    net.sameDatarate m, net.sameDatarate n]

/-- Whether a node is the destination does not depend on the ingress. -/
theorem isLocal_received {node : N} {received : Packet} (htag : packet.tag = none)
    (hreceived : IngressForwarder.handleMessage t packet = .ok received)
    (hin : packet.InFlow r) :
    net.isLocal node received = net.isLocalAddress node r.destination := by
  obtain ⟨received', hok, hcontent, _⟩ := ingress_spec t htag
  cases hok.symm.trans hreceived
  obtain ⟨header, hheader, _, hdestination⟩ :=
    exists_header_of_inFlow ((inFlow_of_content hcontent).mpr hin)
  simp [isLocal, hheader, hdestination]

/-- The link before a node of the route is what its row of the source says. -/
theorem sourceRow_link (hroute : net.Consistent r) (huses : r.uses p)
    (hlocal : net.isLocalAddress (net.networkInterface p).peer r.destination = false)
    (hin : packet.InFlow r) :
    (net.sourceRow (net.networkInterface p).peer packet).lDelay =
      (net.networkInterface p).linkDelay := by
  obtain ⟨row, hrow, hlink⟩ := hroute.source p huses hlocal
  obtain ⟨header, hheader, hsource, _⟩ := exists_header_of_inFlow hin
  rw [← hlink]
  simp [sourceRow, hheader, hsource, hrow]

/-! ## Queued packets -/

/-- What is queued at an interface of the route has the window of its node. -/
structure QueuedAt (net : Network N P) (r : FlowRoute N P) (p : P) (packet : Packet) : Prop where
  uses : packet.InFlow r → r.uses p
  bounds : ∀ tag option, packet.tag = some tag → packet.dbfOption = some option →
    tag.dMin = option.dMin ∧ tag.dMax = option.dMax
  window : packet.InFlow r → ∀ tag, packet.tag = some tag → ∃ row,
    (net.computer (net.networkInterface p).node).dbfFIB.lookup r.destination = some row ∧
    tag.tMin = localBudget tag.dMin tag.eDelay row
      ((net.computer (net.networkInterface p).node).calculateTransmissionTime packet) + tag.tRcv ∧
    tag.tMax = localBudget tag.dMax tag.eDelay row
      ((net.computer (net.networkInterface p).node).calculateTransmissionTime packet) + tag.tRcv

theorem queuedAt_sendPacketToNIC (hlawful : packet.Lawful) (hover : packet.InFlow r → r.uses p)
    (hsend : DBFIpv4.sendPacketToNIC (net.computer (net.networkInterface p).node) packet =
      .ok (some queued)) : net.QueuedAt r p queued := by
  rcases sendPacketToNIC_some hlawful hsend with
    ⟨htag, rfl⟩ | ⟨tag, option, header, source, destination, htag, hoption, _, hprocessed⟩
  · refine ⟨hover, fun tag _ hsome _ => ?_, fun _ tag hsome => ?_⟩
    · cases htag.symm.trans hsome
    · cases htag.symm.trans hsome
  · have hflow : queued.InFlow r ↔ packet.InFlow r := inFlow_of_content hprocessed.content
    refine ⟨fun h => hover (hflow.mp h), fun tag' option' htag' hoption' => ?_,
      fun hin tag' htag' => ?_⟩
    · cases hprocessed.queuedTag.symm.trans htag'
      cases hprocessed.queuedOption.symm.trans hoption'
      exact ⟨rfl, rfl⟩
    · cases hprocessed.queuedTag.symm.trans htag'
      obtain ⟨header', hheader', _, hdestination⟩ := exists_header_of_inFlow (hflow.mp hin)
      cases hprocessed.ipv4Header.symm.trans hheader'
      rw [calculateTransmissionTime_congr _ (bitLength_of_content hprocessed.content)]
      exact ⟨destination, hdestination ▸ hprocessed.destinationRow, rfl, rfl⟩

/-- **The last hop** decides: a packet that leaves it in its window arrives in time. -/
theorem kept_of_last (hroute : net.Consistent r) (hqueued : net.QueuedAt r p stored)
    (hmatch : stored.tag.isSome = stored.dbfOption.isSome) (hin : stored.InFlow r)
    (hlocal : net.isLocalAddress (net.networkInterface p).peer r.destination = true)
    {collectionIdx : Nat} (hwindow : InWindow ⟨t, collectionIdx, stored, out⟩) :
    stored.queuedPromise.Kept (t + (net.networkInterface p).linkDelay +
      (net.networkInterface p).transmissionTime stored.bitLength) := by
  intro objective hobjective
  obtain ⟨option, hoption, rfl⟩ := Option.map_eq_some_iff.mp hobjective
  rw [hoption, Option.isSome_some, Option.isSome_iff_exists] at hmatch
  obtain ⟨tag, htag⟩ := hmatch
  obtain ⟨hmin, hmax⟩ := hqueued.bounds tag option htag hoption
  have hover := hqueued.uses hin
  obtain ⟨row, hrow, htMin, htMax⟩ := hqueued.window hin tag htag
  obtain ⟨row', hrow', hhops, hdelay⟩ := hroute.destination p hover
  cases hrow.symm.trans hrow'
  obtain ⟨hone, hlink⟩ := hroute.last p hover hlocal
  have hcount : row.hops.toUInt32.toNat = 1 := @hops_toUInt32 _ 0 (by omega)
  obtain ⟨hready, hunexpired⟩ := hwindow tag htag
  rw [hroute.transmission p hover]
  rw [htMin] at hready
  rw [htMax] at hunexpired
  simp only [Packet.queuedOrigin, htag]
  unfold localBudget remainingDelay at hready hunexpired
  rw [hcount, hdelay, hlink, hmin, Nat.cast_one, div_one] at hready
  rw [hcount, hdelay, hlink, hmax, Nat.cast_one, div_one] at hunexpired
  constructor
  · intro hbound
    rw [if_neg hbound] at hready
    linarith
  · intro hbound
    have hunexpired := hunexpired hbound
    rw [if_neg hbound] at hunexpired
    linarith

/-! ## The invariant of a flow -/

structure Flowing (net : Network N P) (r : FlowRoute N P) (s : NetworkState N P) : Prop where
  queued : ∀ p q, ∀ packet ∈ (s.egress p).queues q, net.QueuedAt r p packet
  links : ∀ frame ∈ s.links, frame.packet.InFlow r → r.uses frame.port ∧
    (net.isLocalAddress (net.networkInterface frame.port).peer r.destination = true →
      (net.framePromise frame).Kept frame.arrival)

theorem flowing_initial (net : Network N P) (r : FlowRoute N P) : net.Flowing r net.initial := by
  constructor <;> simp [Network.initial, Egress.initial]

variable {s s' : NetworkState N P} {event : NetworkEvent N P}

/-- What is queued after a step of an egress was queued before or is what it was pushed. -/
theorem Sound.forall_queued [DecidableEq P] (hsound : net.Sound s) {Q : P → Packet → Prop}
    (hold : ∀ a q, ∀ packet ∈ (s.egress a).queues q, Q a packet) {e : EgressEvent}
    {egress : Egress} (hstep : net.PortStep p (s.egress p) e egress)
    (hpushed : ∀ t queued id, e = .push t queued → Q p { queued with id := id }) :
    ∀ a q, ∀ packet ∈ (Function.update s.egress p egress a).queues q, Q a packet := by
  intro a q packet hpacket
  rcases (hsound.step_egress hstep).2.2.2 a q packet hpacket with
    hbefore | ⟨rfl, t, queued, id, hevent, rfl⟩
  · exact hold a q packet hbefore
  · exact hpushed t queued id hevent

/-- What a timer of a sound network sends. -/
theorem exists_stored (hsound : net.Sound s) {msg : DBFPriorityScheduleMsg} {egress : Egress}
    {sent : SentPacket} (hstep : net.PortStep p (s.egress p) (.timer t msg) egress)
    (hsent : egress.log.sent = (s.egress p).log.sent ++ [sent]) :
    sent.time = t ∧ sent.stored.tag.isSome = sent.stored.dbfOption.isSome ∧
      (∃ q, sent.stored ∈ (s.egress p).queues q) ∧
      writeEDelay t sent.stored = some sent.packet ∧ InWindow sent ∧
      ((s.egress p).stored : Multiset Packet) =
        sent.stored ::ₘ (egress.stored : Multiset Packet) := by
  obtain ⟨hwell, _, hconserved⟩ := hsound.port p
  have heffect := hsound.portEffect hstep
  obtain ⟨henabled, hadmissible, _⟩ := hstep
  rcases heffect.stored_balance hwell henabled.1 hadmissible hconserved with
    ⟨_, _, _, hsame, _⟩ | ⟨q, stored, out, hmem, hstored, _, hout, hwindow, hsent'⟩
  · rw [hsame] at hsent
    simp at hsent
  · rw [hsent'] at hsent
    cases List.append_cancel_left hsent
    exact ⟨rfl, (hsound.queued p q stored hmem).tagged, ⟨q, hmem⟩, hout, hwindow, hstored⟩

/-- A push and an idle signal take nothing out of the queues but what is dropped or
    expired. -/
theorem Sound.exists_lost (hsound : net.Sound s) {e : EgressEvent} {egress : Egress}
    (hstep : net.PortStep p (s.egress p) e egress) (hnot : ∀ t msg, e ≠ .timer t msg) :
    ∃ lost : Multiset Packet,
      ((s.egress p).stored : Multiset Packet) + e.arriving (s.egress p) = egress.stored + lost ∧
      ∀ packet ∈ lost,
        Unlimited (net.networkInterface p).config → packetExpired e.simTime packet = true := by
  obtain ⟨hwell, _, hconserved⟩ := hsound.port p
  rcases (hsound.portEffect hstep).stored_balance hwell hstep.1.1 hstep.2.1 hconserved with
    ⟨dropped, expired, hbalance, _, hexpired, hdropped⟩ | ⟨_, _, _, _, _, _, _, _, hsent⟩
  · refine ⟨dropped + expired, hbalance, fun packet hpacket hunlimited => ?_⟩
    rw [hdropped hunlimited, zero_add] at hpacket
    exact hexpired packet hpacket
  · rcases sent_of_step hsound hstep with ⟨_, hsame⟩ | ⟨t, msg, _, hevent, _⟩
    · rw [hsame] at hsent
      simp at hsent
    · exact absurd hevent (hnot t msg)

variable [DecidableEq N] [DecidableEq P]

/-- `I` holds of what is inside the nodes, `Q` of what is in the queues and `L` of the frames. -/
structure Carried (I : N → Packet → Prop) (Q : P → Packet → Prop) (L : Frame P → Prop)
    (s : NetworkState N P) : Prop where
  inside : ∀ x ∈ s.inside, I x.1 x.2
  queued : ∀ p q, ∀ packet ∈ (s.egress p).queues q, Q p packet
  links : ∀ frame ∈ s.links, L frame

/-- **From place to place.**  What the packets of a network have at their places, each function
    that moves one has to hand on. -/
theorem Carried.step {I : N → Packet → Prop} {Q : P → Packet → Prop} {L : Frame P → Prop}
    (hsound : net.Sound s) (h : Carried I Q L s) (heffect : NetworkEffect net s event s')
    (hencapsulated : ∀ t node datagram packet, event = .encapsulate t node datagram →
      FreshDatagram datagram → DBFIpv4.encapsulate (net.computer node) t datagram = .ok packet →
      I node packet)
    (hpushed : ∀ t p packet queued id, event = .sendPacketToNIC t p packet →
      ((net.networkInterface p).node, packet) ∈ s.inside →
      DBFIpv4.sendPacketToNIC (net.computer (net.networkInterface p).node) packet =
        .ok (some queued) → queued.content = packet.content → Q p { queued with id := id })
    (hsent : ∀ t p q collectionIdx stored out, stored ∈ (s.egress p).queues q →
      stored.tag.isSome = stored.dbfOption.isSome → writeEDelay t stored = some out →
      out.content = stored.content → InWindow ⟨t, collectionIdx, stored, out⟩ →
      L (net.transmit p ⟨t, collectionIdx, stored, out⟩))
    (hforwarded : ∀ frame received, frame ∈ s.links →
      IngressForwarder.handleMessage frame.arrival frame.packet = .ok received →
      received.content = frame.packet.content →
      net.isLocal (net.networkInterface frame.port).peer received = false →
      I (net.networkInterface frame.port).peer received) : Carried I Q L s' := by
  cases heffect with
  | encapsulate hfresh hpacket =>
      refine ⟨List.forall_mem_append.mpr ⟨h.inside, ?_⟩, h.queued, h.links⟩
      rw [List.forall_mem_singleton]
      exact hencapsulated _ _ _ _ rfl hfresh hpacket
  | refuse hmem hsend =>
      exact ⟨fun x hx => h.inside x (List.mem_of_mem_erase hx), h.queued, h.links⟩
  | push hmem hsend hqueued hcontent hstep =>
      refine ⟨fun x hx => h.inside x (List.mem_of_mem_erase hx),
        hsound.forall_queued h.queued hstep ?_, h.links⟩
      intro t' queued' id hevent
      cases hevent
      exact hpushed _ _ _ _ id rfl hmem hsend hcontent
  | txIdle hstep =>
      exact ⟨h.inside, hsound.forall_queued h.queued hstep fun _ _ _ => nofun, h.links⟩
  | @timer t p msg egress sent hstep hlog =>
      refine ⟨h.inside, hsound.forall_queued h.queued hstep fun _ _ _ => nofun,
        List.forall_mem_append.mpr ⟨h.links, ?_⟩⟩
      rw [List.forall_mem_singleton]
      obtain ⟨htime, hmatch, ⟨q, hmem⟩, hwrite, hwindow, _⟩ := exists_stored hsound hstep hlog
      obtain ⟨out, hok, hcontent, _⟩ := writeEDelay_spec t hmatch
      cases hok.symm.trans hwrite
      obtain ⟨time, collectionIdx, stored, packet⟩ := sent
      subst htime
      exact hsent time p q collectionIdx stored packet hmem hmatch hwrite hcontent hwindow
  | deliver hframe harrival hreceived hlocal =>
      exact ⟨h.inside, h.queued, fun frame hframe => h.links frame (List.mem_of_mem_erase hframe)⟩
  | @forward t frame received hframe harrival hreceived hlocal =>
      refine ⟨List.forall_mem_append.mpr ⟨h.inside, ?_⟩, h.queued, fun frame hframe =>
        h.links frame (List.mem_of_mem_erase hframe)⟩
      rw [List.forall_mem_singleton]
      obtain ⟨received', hok, hcontent, _⟩ := ingress_spec t (hsound.links frame hframe).1
      cases hok.symm.trans hreceived
      subst harrival
      exact hforwarded frame received hframe hreceived hcontent hlocal

theorem Flowing.step (hroute : net.Consistent r) (hsound : net.Sound s) (h : net.Flowing r s)
    (hrouted : RoutedOver r event) (heffect : NetworkEffect net s event s') :
    net.Flowing r s' := by
  suffices hcarried : Carried (fun _ _ => True) (net.QueuedAt r)
      (fun frame => frame.packet.InFlow r → r.uses frame.port ∧
        (net.isLocalAddress (net.networkInterface frame.port).peer r.destination = true →
          (net.framePromise frame).Kept frame.arrival)) s' from ⟨hcarried.queued, hcarried.links⟩
  refine Carried.step hsound ⟨fun _ _ => trivial, h.queued, h.links⟩ heffect ?_ ?_ ?_ ?_
  · exact fun _ _ _ _ _ _ _ => trivial
  · intro t p packet queued id hevent hmem hsend _
    have hnew := queuedAt_sendPacketToNIC (hsound.inside _ hmem).1 (hrouted t p packet hevent) hsend
    exact ⟨hnew.uses, hnew.bounds, hnew.window⟩
  · intro t p q collectionIdx stored out hmem hmatch hwrite hcontent hwindow hin
    have hqueued := h.queued p q _ hmem
    have hin : stored.InFlow r := (inFlow_of_content hcontent).mp hin
    refine ⟨hqueued.uses hin, fun hlocal => ?_⟩
    rw [framePromise_transmit collectionIdx hmatch hwrite]
    have hkept := kept_of_last hroute hqueued hmatch hin hlocal hwindow
    rw [← bitLength_of_content hcontent] at hkept
    exact hkept
  · exact fun _ _ _ _ _ _ => trivial

/-! ### From host to host -/

def sampleRoute : FlowRoute (Fin 3) (Fin 2) :=
  { source := 1, destination := 2, uses := fun _ => True, hops := fun n => 2 - n.val,
    delay := fun n => 2 - n.val }

theorem sampleNetwork_transmissionTime (p : Fin 2) (packet : Packet) :
    (sampleNetwork.networkInterface p).transmissionTime packet.bitLength =
      (sampleNetwork.computer (sampleNetwork.networkInterface p).node).calculateTransmissionTime
        packet := by
  rw [calculateTransmissionTime_node sampleNetwork _ 0,
    calculateTransmissionTime_congr (p := packet)
      (q := { bitLength := packet.bitLength, ipv4Header := none }) _ rfl]
  match p with
  | 0 => rfl
  | 1 => rfl

theorem sampleRoute_consistent : sampleNetwork.Consistent sampleRoute where
  destination
    | 0, _ => ⟨{ hops := 2, lDelay := 1, hDelay := 1, fromDelay := 2, toDelay := 2 },
        by decide +kernel, by decide +kernel, by decide +kernel⟩
    | 1, _ => ⟨{ hops := 1, lDelay := 1, hDelay := 1, fromDelay := 1, toDelay := 1 },
        by decide +kernel, by decide +kernel, by decide +kernel⟩
  source
    | 0, _, _ => ⟨{ hops := 1, lDelay := 1, hDelay := 1, fromDelay := 1, toDelay := 1 },
        by decide +kernel, by decide +kernel⟩
    | 1, _, hlocal => absurd hlocal (by decide +kernel)
  last
    | 0, _, hlocal => absurd hlocal (by decide +kernel)
    | 1, _, _ => by decide +kernel
  next
    | 0, _, _ => by decide +kernel
    | 1, _, hlocal => absurd hlocal (by decide +kernel)
  transmission p _ packet := sampleNetwork_transmissionTime p packet

end Network

end DelayBasedForwarding
