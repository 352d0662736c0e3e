import DelayBasedForwarding.FlowTimes
import DelayBasedForwarding.SendOrder

/-!
# The order of a flow

A flow comes to an interface in the order of its windows, and these are equally long.  So the
classifier puts it into one queue, where none of its packets passes another, and either
scheduler takes the first of them.  Where the network layers hand on in order, nothing of the
flow is overtaken, however late it is and whatever else the network carries, and what is lost
leaves a gap.  The argument does not cover a sender with an upper bound alone: there the
length of a window is what the delay so far has left of it.
-/

namespace DelayBasedForwarding

open DBFComputer FirstMaxima Lines TransitionRuns

namespace Network

variable {N P : Type} {net : Network N P} {r : FlowRoute N P} {p : P} {sender : N} {bits : Nat}
  {packet queued : Packet} {t : SimTime} [DecidableEq N] [DecidableEq P]
  {s s' : NetworkState N P} {event : NetworkEvent N P}

/-! ## The invariant -/

/-- The flow is in order along its line. -/
structure InOrder (net : Network N P) (r : FlowRoute N P) (sender : N) (bits : Nat)
    (s : NetworkState N P) : Prop where
  sound : net.Sound s
  flowing : net.Flowing r s
  ofSender : net.AllOfSender r sender bits s
  inTime : net.InTime r s
  sections : Sections (fun p => (net.networkInterface p).node)
    (fun p => (net.networkInterface p).peer) r.uses
    (fun p => net.isLocalAddress (net.networkInterface p).peer r.destination = true) sender
    Promise.content (net.flowLine r s)
  queues : ∀ p, r.uses p → InArrivalOrder (ofFlow r) (s.egress p)

theorem inOrder_initial (net : Network N P) (r : FlowRoute N P) (sender : N) (bits : Nat) :
    net.InOrder r sender bits net.initial where
  sound := sound_initial net
  flowing := flowing_initial net r
  ofSender := by
    constructor <;> simp [Network.initial, Egress.initial]
  inTime := inTime_initial net r
  sections := by
    constructor <;> intros <;> simp [flowLine, Network.initial, Egress.initial, flowPushed,
      flowInside, flowCarried, flowEncapsulated, flowDelivered, flowSent, atPlace]
  queues := by
    intro p _ q
    simp [Network.initial, Egress.initial]

/-! ## At one interface -/

/-- What each interface of the route sends, it was pushed to in this order. -/
theorem InOrder.sent_sublist (h : net.InOrder r sender bits s) (p : P) (huses : r.uses p) :
    ((net.flowLine r s).sent p).Sublist ((net.flowLine r s).pushed p) :=
  ((List.sublist_append_left _ _).trans (h.queues p huses 0)).map _

/-- What was pushed to an interface and what is inside its node, with the receipts. -/
def stream (net : Network N P) (r : FlowRoute N P) (s : NetworkState N P) (p : P) :
    List (Promise × Option SimTime) :=
  (flowPushed r (s.egress p)).map (fun packet => (packet.queuedPromise, packet.receipt)) ++
    (flowInside r s.inside (net.networkInterface p).node).map
      fun x => (net.insidePromise x, x.2.receipt)

theorem accepted_pairwise (h : net.InTime r s) : (net.flowLine r s).accepted.Pairwise fun x y =>
    ∀ first ∈ x.objective, ∀ second ∈ y.objective, first.origin ≤ second.origin := by
  have horigin : ∀ (node : N) (t : SimTime) (datagram : Packet),
      ∀ objective ∈ (net.encapsulatedPromise node t datagram).objective, objective.origin = t := by
    intro node t datagram objective hobjective
    unfold encapsulatedPromise at hobjective
    simp only at hobjective
    split at hobjective <;> cases hobjective
    rfl
  have hordered := List.pairwise_map.mp h.encapsulated.ordered
  refine List.pairwise_map.mpr ((hordered.sublist List.filter_sublist).imp ?_)
  intro x y hle first hfirst second hsecond
  rw [horigin _ _ _ first hfirst, horigin _ _ _ second hsecond]
  exact hle _ rfl _ rfl

/-- What comes to an interface of the route comes in order. -/
theorem InOrder.pairwise_stream (hpath : net.IsPath r sender) (h : net.InOrder r sender bits s)
    (huses : r.uses p) : (net.stream r s p).Pairwise Earlier := by
  have hpromises : ((net.stream r s p).map Prod.fst).Pairwise fun x y =>
      ∀ first ∈ x.objective, ∀ second ∈ y.objective, first.origin ≤ second.origin := by
    have haccepted := h.sections.pushed_sublist hpath h.sent_sublist p huses
    have hsame : (net.stream r s p).map Prod.fst = (net.flowLine r s).pushed p ++
        (net.flowLine r s).inside (net.networkInterface p).node := by
      rw [stream, List.map_append, List.map_map, List.map_map]
      rfl
    rw [hsame]
    exact (accepted_pairwise h.inTime).sublist haccepted
  have hreceipts : ((net.stream r s p).map Prod.snd).Pairwise fun first second =>
      ∀ t ∈ first, ∀ t' ∈ second, t ≤ t' := by
    have hsame : (net.stream r s p).map Prod.snd = net.receipts r s p := by
      rw [stream, List.map_append, List.map_map, List.map_map]
      rfl
    rw [hsame]
    exact (h.inTime.received p).ordered
  exact (List.pairwise_map.mp hpromises).and (List.pairwise_map.mp hreceipts)

theorem InOrder.earlier_inside (hpath : net.IsPath r sender) (h : net.InOrder r sender bits s)
    (huses : r.uses p) {node : N}
    (hmem : (node, packet) ∈ flowInside r s.inside (net.networkInterface p).node) :
    ∀ x ∈ flowPushed r (s.egress p),
      Earlier (x.queuedPromise, x.receipt) (net.insidePromise (node, packet), packet.receipt) := by
  intro x hx
  exact (List.pairwise_append.mp (h.pairwise_stream hpath huses)).2.2 _ (List.mem_map_of_mem hx) _
    (List.mem_map_of_mem (f := fun x => (net.insidePromise x, x.2.receipt)) hmem)

theorem InOrder.standing (h : net.InOrder r sender bits s) {q : QueueId}
    (hmem : packet ∈ (s.egress p).queues q) (hflow : ofFlow r packet = true) :
    net.Standing r sender bits p packet :=
  ⟨ofFlow_iff.mp hflow, h.sound.queued p q packet hmem, h.flowing.queued p q packet hmem,
    h.ofSender.queued p q packet hmem (ofFlow_iff.mp hflow)⟩

/-- Each queue holds the flow in the order of its windows. -/
theorem InOrder.pairwise_leads (hroute : net.Consistent r) (hpath : net.IsPath r sender)
    (hbound : (net.computer sender).dMin = 0 → (net.computer sender).dMax = 0)
    (h : net.InOrder r sender bits s) (huses : r.uses p) (q : QueueId) :
    (((s.egress p).queues q).filter (ofFlow r)).Pairwise Packet.Leads := by
  have hpushed := (List.pairwise_append.mp (h.pairwise_stream hpath huses)).1
  have hkept := (List.sublist_append_right _ _).trans (h.queues p huses q)
  refine ((List.pairwise_map.mp hpushed).sublist hkept).imp_of_mem ?_
  intro x y hx hy hearlier
  obtain ⟨hx, hxflow⟩ := List.mem_filter.mp hx
  obtain ⟨hy, hyflow⟩ := List.mem_filter.mp hy
  exact (h.standing hx hxflow).leads hroute hbound (h.standing hy hyflow) hearlier

/-- A step of an egress keeps the order if what it is pushed comes behind the flow there. -/
theorem InOrder.queues_step (hroute : net.Consistent r) (hpath : net.IsPath r sender)
    (hbound : (net.computer sender).dMin = 0 → (net.computer sender).dMax = 0)
    (h : net.InOrder r sender bits s) {a : P} {e : EgressEvent} {egress : Egress}
    (hstep : net.PortStep a (s.egress a) e egress)
    (hpushed : ∀ t queued, e = .push t queued → queued.InFlow r →
      net.Standing r sender bits a queued ∧ ∀ x ∈ flowPushed r (s.egress a),
        Earlier (x.queuedPromise, x.receipt) (queued.queuedPromise, queued.receipt)) :
    ∀ p, r.uses p → InArrivalOrder (ofFlow r) (Function.update s.egress a egress p) := by
  intro p huses
  by_cases hp : p = a
  · subst hp
    rw [Function.update_self]
    obtain ⟨history, hrun⟩ := h.sound.egress p
    refine step_inArrivalOrder (net.networkInterface p).keepsOne
      (net.networkInterface p).schedulerType.eq_or hrun (h.queues p huses) hstep ?_ ?_
      (h.pairwise_leads hroute hpath hbound huses)
    · intro t packet hevent q stored hmem hstored hflow
      obtain ⟨hstanding, hbehind⟩ := hpushed t packet hevent (ofFlow_iff.mp hflow)
      have hkept := ((List.sublist_append_right _ _).trans (h.queues p huses q)).subset
        (List.mem_filter.mpr ⟨hmem, hstored⟩)
      exact (h.standing hmem hstored).leads hroute hbound (hstanding.with_id _)
        (hbehind stored hkept)
    · intro a q x hx y hy hxflow hyflow
      exact (h.standing hx hxflow).packetDelta hroute hbound (h.standing hy hyflow) _
  · rw [Function.update_of_ne hp]
    exact h.queues p huses

/-! ## Over runs -/

/-- The frame that is received is the first of the flow on its link. -/
theorem InTime.received_first (h : net.InTime r s) (horder : net.KeepsOrder r sender bits s event)
    (henabled : net.Enabled s event) {frame : Frame P} (hevent : event = .receive t frame)
    (hin : frame.packet.InFlow r) : (flowCarried r s.links frame.port).head? = some frame := by
  subst hevent
  refine head?_of_head?_filter (horder hin) ?_
  obtain ⟨_, _, hnext, _, harrival⟩ := henabled
  refine (h.carried frame.port).imp_of_mem fun hfirst _ hle hlast => ?_
  have hfirst := hnext _ (mem_atPlace.mp hfirst).1
  rw [decide_eq_true_eq] at hlast ⊢
  rw [hlast] at hle
  exact le_antisymm hle (harrival.trans_le hfirst)

theorem InOrder.step (hroute : net.Consistent r) (hpath : net.IsPath r sender)
    (hbound : (net.computer sender).dMin = 0 → (net.computer sender).dMax = 0)
    (h : net.InOrder r sender bits s) (horder : net.KeepsOrder r sender bits s event)
    (hstep : net.Step s event s') : net.InOrder r sender bits s' := by
  have heffect := h.sound.effect hstep
  have hlater : s.now ≤ s'.now := hstep.1.1.trans_eq heffect.now_eq.symm
  have hof := h.ofSender.step h.sound horder heffect
  refine ⟨h.sound.step hstep, h.flowing.step hroute h.sound ?_ heffect, hof,
    h.inTime.step h.sound hof horder hlater heffect, h.sections.step hpath ?_, ?_⟩
  · rintro t p packet rfl hin
    exact (horder hin).1
  · exact flowLine_step hroute h.sound h.flowing horder
      (fun t frame hevent hin => h.inTime.received_first horder hstep.1 hevent hin) heffect
  · cases heffect with
    | encapsulate hfresh hpacket => exact h.queues
    | refuse hmem hsend => exact h.queues
    | @push t a packet queued egress hmem hsend hqueued hcontent hport =>
        refine h.queues_step hroute hpath hbound hport fun t' queued' hevent hin => ?_
        cases hevent
        have hpacket : packet.InFlow r := (inFlow_of_content hcontent).mp hin
        have hlawful := (h.sound.inside _ hmem).1
        have hfirst := horder hpacket
        refine ⟨⟨hin, hqueued, queuedAt_sendPacketToNIC hlawful (fun _ => hfirst.1) hsend,
          queuedOfSender_sendPacketToNIC (h.ofSender.inside _ hmem hpacket) hlawful hsend⟩, ?_⟩
        rw [queuedPromise_sendPacketToNIC hlawful hsend, receipt_sendPacketToNIC hlawful hsend]
        exact h.earlier_inside hpath hfirst.1 (List.mem_of_head? hfirst.2)
    | txIdle hport => exact h.queues_step hroute hpath hbound hport fun _ _ => nofun
    | timer hport hsent => exact h.queues_step hroute hpath hbound hport fun _ _ => nofun
    | deliver hframe harrival hreceived hlocal => exact h.queues
    | forward hframe harrival hreceived hlocal => exact h.queues

variable {history : List (Transition (NetworkState N P) (NetworkEvent N P))}

theorem run_inOrder (hroute : net.Consistent r) (hpath : net.IsPath r sender)
    (hbound : (net.computer sender).dMin = 0 → (net.computer sender).dMax = 0)
    (hrun : net.NetworkRun history s)
    (horder : ∀ x ∈ history, net.KeepsOrder r sender bits x.pre x.event) :
    net.InOrder r sender bits s :=
  (hrun.conditional (inOrder_initial net r sender bits)
    (fun _ _ _ h hkeeps hstep => h.step hroute hpath hbound hkeeps hstep) horder).1

/-- **The order of a flow.**  In every run in which one sender, with a lower bound or without
    bounds, sends a flow with datagrams of one length over a consistent path, and the network
    layers of its nodes and the ends of its links keep its order:

    * its datagrams are delivered in the order in which they were encapsulated, each at most
      once and with gaps where one is lost;
    * so does each interface of the path send them, with either scheduler, whatever else is
      queued there, and whatever is dropped or expires. -/
theorem flow_order (net : Network N P) (r : FlowRoute N P) (sender : N) (bits : Nat)
    (history : List (Transition (NetworkState N P) (NetworkEvent N P))) (s : NetworkState N P)
    (hroute : net.Consistent r) (hpath : net.IsPath r sender)
    (hbound : (net.computer sender).dMin = 0 → (net.computer sender).dMax = 0)
    (hrun : net.NetworkRun history s)
    (horder : ∀ x ∈ history, net.KeepsOrder r sender bits x.pre x.event) :
    ((flowDelivered r s.log).map fun x => x.2.2.content).Sublist
      ((flowEncapsulated r s.log).map fun x => x.2.2.content) ∧
    ∀ p, r.uses p → ((flowSent r (s.egress p)).map Packet.content).Sublist
      ((flowEncapsulated r s.log).map fun x => x.2.2.content) := by
  have h := run_inOrder hroute hpath hbound hrun horder
  have haccepted : (net.flowLine r s).accepted.map Promise.content =
      (flowEncapsulated r s.log).map fun x => x.2.2.content := by
    rw [flowLine, List.map_map]
    rfl
  refine ⟨haccepted ▸ h.sections.delivered_sublist hpath h.sent_sublist, fun p huses => ?_⟩
  have hsent := ((h.sent_sublist p huses).trans (List.sublist_append_left _ _)).trans
    (h.sections.pushed_sublist hpath h.sent_sublist p huses)
  have hcontent : ((net.flowLine r s).sent p).map Promise.content =
      (flowSent r (s.egress p)).map Packet.content := by
    rw [flowLine]
    exact List.map_map
  rw [← haccepted, ← hcontent]
  exact hsent.map Promise.content

/-! Two datagrams wait at the sender and at the router, and arrive one behind the other. -/

theorem sampleRoute_isPath : sampleNetwork.IsPath sampleRoute 0 where
  within
    | 0, _ => by decide +kernel
    | 1, _ => by decide +kernel
  unique
    | 0, 0, _, _, _ => rfl
    | 0, 1, _, _, hsame => absurd hsame (by decide +kernel)
    | 1, 0, _, _, hsame => absurd hsame (by decide +kernel)
    | 1, 1, _, _, _ => rfl
  previous
    | 0, _ => .inl rfl
    | 1, _ => .inr ⟨0, trivial, by decide +kernel, rfl⟩
  next
    | 0, _, _ => by decide +kernel
    | 1, _, hgoes => absurd (by decide +kernel) hgoes
  end_rank
    | 0, _, hlocal => absurd hlocal (by decide +kernel)
    | 1, _, _ => by decide +kernel
  exists_final := ⟨1, trivial, by decide +kernel⟩

instance decidableUses_sampleRoute : DecidablePred sampleRoute.uses := fun _ => .isTrue trivial

theorem flow_order_sample : ∃ history s, sampleNetwork.NetworkRun history s ∧
    (flowDelivered sampleRoute s.log).length = 2 ∧
    ((flowDelivered sampleRoute s.log).map fun x => x.2.2.content).Sublist
      ((flowEncapsulated sampleRoute s.log).map fun x => x.2.2.content) := by
  obtain ⟨history, s, hrun, horder, _, hdelivered⟩ := Run.exists_of_guarded_replay
    (C := sampleNetwork.KeepsOrder sampleRoute 0 1000) sampleNetwork.step_of_next
    (show (replay (fun s event => if sampleNetwork.KeepsOrder sampleRoute 0 1000 s event then
        sampleNetwork.next s event else none) sampleNetwork.initial sampleConvoy).any
      (fun s => decide ((flowDelivered sampleRoute s.log).length = 2)) = true by decide +kernel)
  exact ⟨history, s, hrun, of_decide_eq_true hdelivered,
    (flow_order sampleNetwork sampleRoute 0 1000 history s sampleRoute_consistent
      sampleRoute_isPath (by decide +kernel) hrun horder).1⟩

end Network

end DelayBasedForwarding
