import DelayBasedForwarding.DeliveryService
import DelayBasedForwarding.NetworkConservation
import DelayBasedForwarding.Library.Lines

/-!
# The line of a flow

Seen from one flow, a network is a line of places: the network layer of a node, the queues
of an interface, its link, the next node.  The promises of the flow move along it, one at a
time.  If the network layers hand on in order and a link does not let its frames pass each
other, each step of the network is a step of the line, whatever else it carries; only what
an egress sends is left open.
-/

namespace DelayBasedForwarding

open DBFComputer Lines TransitionRuns

namespace Network

variable {N P : Type} {net : Network N P} {r : FlowRoute N P} {p : P} {sender : N} {bits : Nat}
  {packet queued : Packet} {t : SimTime}

/-! ## The line of a flow -/

def ofFlow (r : FlowRoute N P) (packet : Packet) : Bool := decide (packet.InFlow r)

theorem ofFlow_iff : ofFlow r packet = true ↔ packet.InFlow r := decide_eq_true_iff

theorem ofFlow_eq_false_iff : ofFlow r packet = false ↔ ¬ packet.InFlow r :=
  decide_eq_false_iff_not

theorem ofFlow_of_content {other : Packet} (h : packet.content = other.content) :
    ofFlow r packet = ofFlow r other :=
  decide_eq_decide.mpr (inFlow_of_content h)

def flowPushed (r : FlowRoute N P) (egress : Egress) : List Packet :=
  egress.log.pushed.filter (ofFlow r)

def flowSent (r : FlowRoute N P) (egress : Egress) : List Packet :=
  (egress.log.sent.map SentPacket.stored).filter (ofFlow r)

/-- The datagrams of the flow, in the order of their encapsulation. -/
def flowEncapsulated (r : FlowRoute N P) (log : NetworkLog N) : List (N × SimTime × Packet) :=
  log.encapsulated.filter fun x => ofFlow r x.2.2

/-- The packets of the flow, in the order of their arrival. -/
def flowDelivered (r : FlowRoute N P) (log : NetworkLog N) : List (N × SimTime × Packet) :=
  log.delivered.filter fun x => ofFlow r x.2.2

section

variable [DecidableEq N] [DecidableEq P]

/-- The packets of the flow in the network layer of a node. -/
def flowInside (r : FlowRoute N P) : List (N × Packet) → N → List (N × Packet) :=
  atPlace Prod.fst fun x => ofFlow r x.2

/-- The frames of the flow on the link of an interface. -/
def flowCarried (r : FlowRoute N P) : List (Frame P) → P → List (Frame P) :=
  atPlace Frame.port fun frame => ofFlow r frame.packet

/-- The promises of the flow where they are, and where they have been. -/
def flowLine (net : Network N P) (r : FlowRoute N P) (s : NetworkState N P) :
    Line N P Promise Packet :=
  { accepted := (flowEncapsulated r s.log).map fun x => net.encapsulatedPromise x.1 x.2.1 x.2.2,
    inside := List.map net.insidePromise ∘ flowInside r s.inside,
    pushed := List.map Packet.queuedPromise ∘ flowPushed r ∘ s.egress,
    sent := List.map Packet.queuedPromise ∘ flowSent r ∘ s.egress,
    carried := List.map net.framePromise ∘ flowCarried r s.links,
    delivered := (flowDelivered r s.log).map fun x => x.2.2.content }

end

/-- The interfaces of the route are a path from `sender` to the destination. -/
abbrev IsPath (net : Network N P) (r : FlowRoute N P) (sender : N) : Prop :=
  Lines.IsPath (fun p => (net.networkInterface p).node) (fun p => (net.networkInterface p).peer)
    r.uses (fun p => net.isLocalAddress (net.networkInterface p).peer r.destination = true)
    r.hops sender

variable [DecidableEq N] [DecidableEq P]

abbrev LineStep (net : Network N P) (r : FlowRoute N P) (sender : N) :
    Line N P Promise Packet → Line N P Promise Packet → Prop :=
  Lines.Step (fun p => (net.networkInterface p).node) (fun p => (net.networkInterface p).peer)
    r.uses (fun p => net.isLocalAddress (net.networkInterface p).peer r.destination = true)
    sender Promise.content

/-- One node sends the flow, with datagrams of one length.  The network layers hand it to the
    interfaces of the route in the order in which they got it, and frames that reach the end
    of a link at the same time are received in the order in which they were sent. -/
def KeepsOrder (net : Network N P) (r : FlowRoute N P) (sender : N) (bits : Nat)
    (s : NetworkState N P) : NetworkEvent N P → Prop
  | .encapsulate _ node datagram =>
      datagram.InFlow r → node = sender ∧ datagram.bitLength = bits
  | .sendPacketToNIC _ p packet =>
      packet.InFlow r → r.uses p ∧ (flowInside r s.inside (net.networkInterface p).node).head? =
        some ((net.networkInterface p).node, packet)
  | .txIdle _ _ => True
  | .timer _ _ _ => True
  | .receive _ frame =>
      frame.packet.InFlow r → ((flowCarried r s.links frame.port).filter fun other =>
        other.arrival = frame.arrival).head? = some frame

instance decidableKeepsOrder [DecidablePred r.uses] (s : NetworkState N P) :
    (event : NetworkEvent N P) → Decidable (net.KeepsOrder r sender bits s event)
  | .encapsulate _ _ _ => inferInstanceAs (Decidable (_ → _ ∧ _))
  | .sendPacketToNIC _ _ _ => inferInstanceAs (Decidable (_ → _ ∧ _))
  | .txIdle _ _ => .isTrue trivial
  | .timer _ _ _ => .isTrue trivial
  | .receive _ _ => inferInstanceAs (Decidable (_ → _ = _))

variable {s s' : NetworkState N P} {event : NetworkEvent N P}

/-! ## What a step does to the line -/

section

variable {egress : Egress}

omit [DecidableEq N] in
theorem flowPushed_step (hsound : net.Sound s) {e : EgressEvent}
    (hstep : net.PortStep p (s.egress p) e egress) :
    flowPushed r ∘ Function.update s.egress p egress = Function.update (flowPushed r ∘ s.egress) p
      (flowPushed r (s.egress p) ++ (e.arriving (s.egress p)).filter (ofFlow r)) := by
  rw [Function.comp_update, flowPushed, (hsound.portEffect hstep).pushed, List.filter_append]
  rfl

omit [DecidableEq N] in
theorem flowPushed_same (hsound : net.Sound s) {e : EgressEvent}
    (hstep : net.PortStep p (s.egress p) e egress)
    (hnone : (e.arriving (s.egress p)).filter (ofFlow r) = []) :
    flowPushed r ∘ Function.update s.egress p egress = flowPushed r ∘ s.egress := by
  rw [flowPushed_step hsound hstep, hnone, List.append_nil]
  exact Function.update_eq_self p (flowPushed r ∘ s.egress)

omit [DecidableEq N] in
theorem flowSent_step {sent : List SentPacket}
    (hsent : egress.log.sent = (s.egress p).log.sent ++ sent) :
    flowSent r ∘ Function.update s.egress p egress = Function.update (flowSent r ∘ s.egress) p
      (flowSent r (s.egress p) ++ (sent.map SentPacket.stored).filter (ofFlow r)) := by
  rw [Function.comp_update, flowSent, hsent, List.map_append, List.filter_append]
  rfl

omit [DecidableEq N] in
theorem flowSent_same {sent : List SentPacket}
    (hsent : egress.log.sent = (s.egress p).log.sent ++ sent)
    (hnone : (sent.map SentPacket.stored).filter (ofFlow r) = []) :
    flowSent r ∘ Function.update s.egress p egress = flowSent r ∘ s.egress := by
  rw [flowSent_step hsent, hnone, List.append_nil]
  exact Function.update_eq_self p (flowSent r ∘ s.egress)

end

/-- **Encapsulation** accepts a promise. -/
theorem line_encapsulate {node : N} {datagram : Packet} (hfresh : FreshDatagram datagram)
    (hpacket : DBFIpv4.encapsulate (net.computer node) t datagram = .ok packet)
    (hsender : datagram.InFlow r → node = sender) :
    net.LineStep r sender (net.flowLine r s) (net.flowLine r { s with
      now := t, inside := s.inside ++ [(node, packet)],
      log := { s.log with encapsulated := s.log.encapsulated ++ [(node, t, datagram)] } }) := by
  obtain ⟨packet', hok, hcontent, _⟩ := encapsulate_spec (net.computer node) t hfresh
  cases hok.symm.trans hpacket
  have hsame : ofFlow r packet = ofFlow r datagram := ofFlow_of_content hcontent
  by_cases hin : datagram.InFlow r
  · have hmember := ofFlow_iff.mpr hin
    obtain rfl := hsender hin
    refine (Lines.Step.accept (net.encapsulatedPromise node t datagram)).of_eq ?_
    unfold flowLine flowInside
    rw [atPlace_append (x := (node, packet)) (hsame.trans hmember), Function.comp_update]
    simp [flowEncapsulated, flowDelivered, hmember, insidePromise_encapsulate hfresh hpacket]
  · have hmember := ofFlow_eq_false_iff.mpr hin
    refine Lines.Step.stay.of_eq ?_
    unfold flowLine flowInside
    rw [atPlace_append_of_not (x := (node, packet)) (hsame.trans hmember)]
    simp [flowEncapsulated, flowDelivered, hmember]

/-- **Handing on**, if the packet is the first of the flow. -/
theorem line_push (hsound : net.Sound s) (hlawful : packet.Lawful) {egress : Egress}
    (hsend : DBFIpv4.sendPacketToNIC (net.computer (net.networkInterface p).node) packet =
      .ok (some queued)) (hcontent : queued.content = packet.content)
    (hstep : net.PortStep p (s.egress p) (.push t queued) egress)
    (hfirst : packet.InFlow r → r.uses p ∧
      (flowInside r s.inside (net.networkInterface p).node).head? =
        some ((net.networkInterface p).node, packet)) :
    net.LineStep r sender (net.flowLine r s) (net.flowLine r { s with
      now := t, inside := s.inside.erase ((net.networkInterface p).node, packet),
      egress := Function.update s.egress p egress }) := by
  have hsame : ofFlow r { queued with id := (s.egress p).nextPacket } = ofFlow r packet :=
    ofFlow_of_content hcontent
  have hpromise : Packet.queuedPromise { queued with id := (s.egress p).nextPacket } =
      net.insidePromise ((net.networkInterface p).node, packet) := by
    rw [← queuedPromise_sendPacketToNIC hlawful hsend]
    rfl
  have hsent : flowSent r ∘ Function.update s.egress p egress = flowSent r ∘ s.egress := by
    rcases sent_of_step hsound hstep with ⟨_, hsent⟩ | ⟨_, _, _, hevent, _⟩
    · have hnone : egress.log.sent = (s.egress p).log.sent ++ [] := by simpa using hsent
      exact flowSent_same hnone rfl
    · cases hevent
  by_cases hin : packet.InFlow r
  · have hmember := ofFlow_iff.mpr hin
    obtain ⟨huses, hhead⟩ := hfirst hin
    have hhead : (flowInside r s.inside
        (Prod.fst ((net.networkInterface p).node, packet))).head? =
          some ((net.networkInterface p).node, packet) := hhead
    obtain ⟨rest, hrest, herase⟩ := exists_atPlace_erase hhead
    refine (Lines.Step.push (net.insidePromise ((net.networkInterface p).node, packet))
      (rest.map net.insidePromise) huses ?_).of_eq ?_
    · exact congrArg (List.map net.insidePromise) hrest
    · unfold flowLine flowInside
      rw [hsent, flowPushed_step hsound hstep, Function.comp_update, herase, Function.comp_update]
      simp [EgressEvent.arriving, hsame, hmember, hpromise]
  · have hmember := ofFlow_eq_false_iff.mpr hin
    refine Lines.Step.stay.of_eq ?_
    unfold flowLine flowInside
    rw [hsent, flowPushed_same hsound hstep (by simp [EgressEvent.arriving, hsame, hmember]),
      atPlace_erase_of_not (x := ((net.networkInterface p).node, packet)) hmember]

/-- **Sending**, whatever is sent. -/
theorem line_send (hsound : net.Sound s) (huses : ∀ q, ∀ packet ∈ (s.egress p).queues q,
    packet.InFlow r → r.uses p) {msg : DBFPriorityScheduleMsg} {egress : Egress}
    {sent : SentPacket} (hstep : net.PortStep p (s.egress p) (.timer t msg) egress)
    (hsent : egress.log.sent = (s.egress p).log.sent ++ [sent]) :
    net.LineStep r sender (net.flowLine r s) (net.flowLine r { s with
      now := t, egress := Function.update s.egress p egress,
      links := s.links ++ [net.transmit p sent] }) := by
  obtain ⟨htime, hmatch, ⟨q, hmem⟩, hwrite, _⟩ := exists_stored hsound hstep hsent
  obtain ⟨out, hok, hcontent, _⟩ := writeEDelay_spec t hmatch
  cases hok.symm.trans hwrite
  have hsame : ofFlow r sent.packet = ofFlow r sent.stored := ofFlow_of_content hcontent
  have hpromise : net.framePromise (net.transmit p sent) = sent.stored.queuedPromise := by
    obtain ⟨time, collectionIdx, stored, packet⟩ := sent
    subst htime
    exact framePromise_transmit collectionIdx hmatch hwrite
  have hpushed := flowPushed_same (r := r) hsound hstep rfl
  by_cases hin : sent.stored.InFlow r
  · have hmember := ofFlow_iff.mpr hin
    refine (Lines.Step.send sent.stored.queuedPromise (huses q _ hmem hin)).of_eq ?_
    unfold flowLine flowCarried
    rw [hpushed, flowSent_step hsent, Function.comp_update,
      atPlace_append (x := net.transmit p sent) (hsame.trans hmember), Function.comp_update]
    have hport : (net.transmit p sent).port = p := rfl
    simp [hmember, hpromise, hport]
  · have hmember := ofFlow_eq_false_iff.mpr hin
    refine Lines.Step.stay.of_eq ?_
    unfold flowLine flowCarried
    rw [hpushed, flowSent_same hsent (by simp [hmember]),
      atPlace_append_of_not (x := net.transmit p sent) (hsame.trans hmember)]

section

variable {frame : Frame P} {received : Packet}

/-- **Arrival at the destination**, if the frame is the first of the flow. -/
theorem line_deliver (huntagged : frame.packet.tag = none)
    (huses : frame.packet.InFlow r → r.uses frame.port)
    (hreceived : IngressForwarder.handleMessage t frame.packet = .ok received)
    (hlocal : net.isLocal (net.networkInterface frame.port).peer received = true)
    (hfirst : frame.packet.InFlow r → (flowCarried r s.links frame.port).head? = some frame) :
    net.LineStep r sender (net.flowLine r s) (net.flowLine r { s with
      now := t, links := s.links.erase frame,
      log := { s.log with delivered := s.log.delivered ++
        [((net.networkInterface frame.port).peer, t, received)] } }) := by
  obtain ⟨received', hok, hcontent, _⟩ := ingress_spec t huntagged
  cases hok.symm.trans hreceived
  have hsame : ofFlow r received = ofFlow r frame.packet := ofFlow_of_content hcontent
  by_cases hin : frame.packet.InFlow r
  · have hmember := ofFlow_iff.mpr hin
    obtain ⟨rest, hrest, herase⟩ := exists_atPlace_erase (hfirst hin)
    have hend := (isLocal_received huntagged hreceived hin).symm.trans hlocal
    refine (Lines.Step.deliver (net.framePromise frame) (rest.map net.framePromise) (huses hin)
      hend ?_).of_eq ?_
    · exact congrArg (List.map net.framePromise) hrest
    · unfold flowLine flowCarried
      rw [herase, Function.comp_update]
      simp [flowEncapsulated, flowDelivered, hsame, hmember, hcontent, framePromise, Packet.promise]
  · have hmember := ofFlow_eq_false_iff.mpr hin
    refine Lines.Step.stay.of_eq ?_
    unfold flowLine flowCarried
    rw [atPlace_erase_of_not (x := frame) hmember]
    simp [flowEncapsulated, flowDelivered, hsame, hmember]

/-- **Arrival on the way**, if the frame is the first of the flow. -/
theorem line_forward (hroute : net.Consistent r) (huntagged : frame.packet.tag = none)
    (huses : frame.packet.InFlow r → r.uses frame.port)
    (hreceived : IngressForwarder.handleMessage frame.arrival frame.packet = .ok received)
    (hlocal : net.isLocal (net.networkInterface frame.port).peer received = false)
    (hfirst : frame.packet.InFlow r → (flowCarried r s.links frame.port).head? = some frame) :
    net.LineStep r sender (net.flowLine r s) (net.flowLine r { s with
      now := frame.arrival, links := s.links.erase frame,
      inside := s.inside ++ [((net.networkInterface frame.port).peer, received)] }) := by
  obtain ⟨received', hok, hcontent, _⟩ := ingress_spec frame.arrival huntagged
  cases hok.symm.trans hreceived
  have hsame : ofFlow r received = ofFlow r frame.packet := ofFlow_of_content hcontent
  by_cases hin : frame.packet.InFlow r
  · have hmember := ofFlow_iff.mpr hin
    obtain ⟨rest, hrest, herase⟩ := exists_atPlace_erase (hfirst hin)
    have hgoes := (isLocal_received huntagged hreceived hin).symm.trans hlocal
    have hpromise := insidePromise_forwarded hroute huntagged hin (huses hin) hgoes hreceived
    refine (Lines.Step.forward (net.framePromise frame) (rest.map net.framePromise) (huses hin)
      (by simp [hgoes]) ?_).of_eq ?_
    · exact congrArg (List.map net.framePromise) hrest
    · unfold flowLine flowCarried flowInside
      rw [herase, Function.comp_update, atPlace_append
        (x := ((net.networkInterface frame.port).peer, received)) (hsame.trans hmember),
        Function.comp_update]
      simp [hpromise]
  · have hmember := ofFlow_eq_false_iff.mpr hin
    refine Lines.Step.stay.of_eq ?_
    unfold flowLine flowCarried flowInside
    rw [atPlace_erase_of_not (x := frame) hmember, atPlace_append_of_not
      (x := ((net.networkInterface frame.port).peer, received)) (hsame.trans hmember)]

end

/-- **One step** of the network moves the flow along its line. -/
theorem flowLine_step (hroute : net.Consistent r) (hsound : net.Sound s)
    (hflowing : net.Flowing r s) (horder : net.KeepsOrder r sender bits s event)
    (hfirst : ∀ t frame, event = .receive t frame → frame.packet.InFlow r →
      (flowCarried r s.links frame.port).head? = some frame)
    (heffect : NetworkEffect net s event s') :
    net.LineStep r sender (net.flowLine r s) (net.flowLine r s') := by
  cases heffect with
  | @encapsulate t node datagram packet hfresh hpacket =>
      exact line_encapsulate hfresh hpacket fun hin => (horder hin).1
  | @refuse t p packet hmem hsend =>
      refine (Lines.Step.lose (n := (net.networkInterface p).node)
        (((flowInside r s.inside (net.networkInterface p).node).erase
          ((net.networkInterface p).node, packet)).map net.insidePromise)
        (List.erase_sublist.map _)).of_eq ?_
      unfold flowLine flowInside
      rw [atPlace_erase, Function.comp_update]
      rfl
  | push hmem hsend hqueued hcontent hstep =>
      exact line_push hsound (hsound.inside _ hmem).1 hsend hcontent hstep horder
  | @txIdle t p egress hstep =>
      refine Lines.Step.stay.of_eq ?_
      rcases sent_of_step hsound hstep with ⟨_, hsent⟩ | ⟨_, _, _, hevent, _⟩
      · have hnone : egress.log.sent = (s.egress p).log.sent ++ [] := by simpa using hsent
        unfold flowLine
        rw [flowPushed_same hsound hstep rfl, flowSent_same hnone rfl]
      · cases hevent
  | timer hstep hsent =>
      exact line_send hsound (fun q packet hmem => (hflowing.queued _ q packet hmem).uses) hstep
        hsent
  | deliver hframe harrival hreceived hlocal =>
      exact line_deliver (hsound.links _ hframe).1 (fun hin => (hflowing.links _ hframe hin).1)
        hreceived hlocal (hfirst _ _ rfl)
  | forward hframe harrival hreceived hlocal =>
      subst harrival
      exact line_forward hroute (hsound.links _ hframe).1
        (fun hin => (hflowing.links _ hframe hin).1) hreceived hlocal (hfirst _ _ rfl)

end Network

end DelayBasedForwarding
