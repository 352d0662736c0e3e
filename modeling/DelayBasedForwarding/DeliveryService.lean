import DelayBasedForwarding.Flows
import DelayBasedForwarding.Library.Delivery
import Mathlib.Algebra.BigOperators.Group.Finset.Basic

/-!
# The service a flow gets

Over a consistent route, a network is a delivery service for a flow: what is accepted
is delivered as it was, between `dMin` and `dMax` after its encapsulation, or it is
lost, and only a datagram with a deadline may be, unless a queue on the way is limited.
-/

namespace DelayBasedForwarding

open DBFComputer TransitionRuns

namespace Network

variable {N P : Type} {net : Network N P} {r : FlowRoute N P} {p : P}
  {packet queued stored out : Packet} {t : SimTime} {s s' : NetworkState N P}
  {event : NetworkEvent N P} [DecidableEq N] [DecidableEq P]

/-! ## What is pending -/

section

variable [Fintype P]

def egressPromises (egress : Egress) : Multiset Promise :=
  (egress.stored : Multiset Packet).map Packet.queuedPromise

/-- The promises of all packets in the network. -/
def census (net : Network N P) (s : NetworkState N P) : Multiset Promise :=
  (s.inside : Multiset (N × Packet)).map net.insidePromise +
    (∑ p, egressPromises (s.egress p)) + (s.links : Multiset (Frame P)).map net.framePromise

/-- Those of the flow. -/
def pending (net : Network N P) (r : FlowRoute N P) (s : NetworkState N P) : Multiset Promise :=
  (net.census s).filter fun promise => promise.content.InFlow r

omit [DecidableEq N] [DecidableEq P] [Fintype P] in
/-- A push and an idle signal of an egress take nothing out of its queues but what is
    dropped or expired. -/
theorem egressPromises_step (hsound : net.Sound s) {e : EgressEvent} {egress : Egress}
    (hstep : net.PortStep p (s.egress p) e egress) (hnot : ∀ t msg, e ≠ .timer t msg) :
    ∃ lost : Multiset Packet,
      egressPromises (s.egress p) +
        (e.arriving (s.egress p) : Multiset Packet).map Packet.queuedPromise =
        egressPromises egress + lost.map Packet.queuedPromise ∧
      ∀ packet ∈ lost,
        ((∃ q, packet ∈ (s.egress p).queues q) ∨ packet ∈ e.arriving (s.egress p)) ∧
        (Unlimited (net.networkInterface p).config → packetExpired e.simTime packet = true) := by
  obtain ⟨lost, hbalance, hexpired⟩ := hsound.exists_lost hstep hnot
  refine ⟨lost, ?_, fun packet hpacket => ⟨?_, hexpired packet hpacket⟩⟩
  · unfold egressPromises
    rw [← Multiset.map_add, ← Multiset.map_add, hbalance]
  · have hmem : packet ∈ (s.egress p).stored ++ e.arriving (s.egress p) := by
      rw [← Multiset.mem_coe, ← Multiset.coe_add, hbalance]
      exact Multiset.mem_add.mpr (.inr hpacket)
    rcases List.mem_append.mp hmem with hstored | harriving
    · obtain ⟨q, _, hq⟩ := Pools.mem_pool.mp hstored
      exact .inl ⟨q, hq⟩
    · exact .inr harriving

/-! ## Refinement -/

/-- What may be lost of the flow: a datagram with a deadline, or any if a queue on the
    route is limited. -/
def MayLose (net : Network N P) (r : FlowRoute N P) (promise : Promise) : Prop :=
  net.Limited r ∨ promise.HasDeadline

/-- What an observer of the flow sees: the datagrams that are encapsulated, and when each
    content arrives at the destination. -/
def shown (net : Network N P) (r : FlowRoute N P)
    (x : Transition (NetworkState N P) (NetworkEvent N P)) :
    Option (Delivery.Shown Promise Packet SimTime) :=
  match x.event with
  | .encapsulate t node datagram =>
      if datagram.InFlow r then some (.accepted (net.encapsulatedPromise node t datagram))
      else none
  | .sendPacketToNIC _ _ _ => none
  | .txIdle _ _ => none
  | .timer _ _ _ => none
  | .receive t frame =>
      if frame.packet.InFlow r ∧
          net.isLocalAddress (net.networkInterface frame.port).peer r.destination = true then
        some (.delivered t frame.packet.content)
      else none

omit [DecidableEq N] [DecidableEq P] [Fintype P] in
theorem mayLose_of_lost (hqueued : net.QueuedAt r p packet)
    (hmatch : packet.tag.isSome = packet.dbfOption.isSome) (hin : packet.InFlow r)
    (hexpired : Unlimited (net.networkInterface p).config → packetExpired t packet = true) :
    net.MayLose r packet.queuedPromise := by
  by_cases hunlimited : Unlimited (net.networkInterface p).config
  · right
    obtain ⟨tag, htag, hfinite, _⟩ := packetExpired_iff.mp (hexpired hunlimited)
    rw [htag, Option.isSome_some, eq_comm, Option.isSome_iff_exists] at hmatch
    obtain ⟨option, hoption⟩ := hmatch
    obtain ⟨_, hmax⟩ := hqueued.bounds tag option htag hoption
    refine ⟨_, Option.map_eq_some_iff.mpr ⟨option, hoption, rfl⟩, ?_⟩
    rwa [hmax] at hfinite
  · exact .inl ⟨p, hqueued.uses hin, hunlimited⟩

omit [DecidableEq N] in
/-- The packets of a step of one egress that are lost. -/
theorem exists_lost (hsound : net.Sound s) (hflowing : net.Flowing r s) {e : EgressEvent}
    {egress : Egress} (hstep : net.PortStep p (s.egress p) e egress)
    (hnot : ∀ t msg, e ≠ .timer t msg)
    (hpushed : ∀ t queued, e = .push t queued → net.QueuedAt r p queued ∧ queued.Lawful) :
    ∃ lost : Multiset Promise,
      (∑ a, egressPromises (s.egress a)) +
        (e.arriving (s.egress p) : Multiset Packet).map Packet.queuedPromise =
        (∑ a, egressPromises (Function.update s.egress p egress a)) + lost ∧
      ∀ promise ∈ lost, promise.content.InFlow r → net.MayLose r promise := by
  obtain ⟨lost, hbalance, hlost⟩ := egressPromises_step hsound hstep hnot
  refine ⟨lost.map Packet.queuedPromise, ?_, fun promise hpromise hin => ?_⟩
  · have hupdate := Pools.sum_update (fun _ => egressPromises) s.egress p egress
    apply add_right_cancel (b := egressPromises egress)
    calc _ = ((∑ a, egressPromises (s.egress a)) + egressPromises egress) +
          (e.arriving (s.egress p) : Multiset Packet).map Packet.queuedPromise := by abel
      _ = (∑ a, egressPromises (Function.update s.egress p egress a)) +
          (egressPromises (s.egress p) +
            (e.arriving (s.egress p) : Multiset Packet).map Packet.queuedPromise) := by
        rw [← hupdate]
        abel
      _ = _ := by
        rw [hbalance]
        abel
  · obtain ⟨packet, hpacket, rfl⟩ := Multiset.mem_map.mp hpromise
    obtain ⟨hmem, hexpired⟩ := hlost packet hpacket
    have hin : packet.InFlow r := inFlow_content.mp hin
    rcases hmem with ⟨q, hq⟩ | harriving
    · exact mayLose_of_lost (hflowing.queued p q packet hq) (hsound.queued p q packet hq).tagged
        hin hexpired
    · cases e with
      | push t queued =>
          rw [EgressEvent.arriving, List.mem_singleton] at harriving
          subst harriving
          obtain ⟨hnew, hlawful⟩ := hpushed t queued rfl
          exact mayLose_of_lost ⟨hnew.uses, hnew.bounds, hnew.window⟩ hlawful.tagged hin hexpired
      | txIdle t => cases harriving
      | timer t msg => cases harriving

omit [DecidableEq N] [DecidableEq P] in
/-- A step that shows nothing, and loses what may be lost. -/
theorem simulates_lose (lost : Multiset Promise)
    (hcensus : net.census s = net.census s' + lost)
    (hlost : ∀ promise ∈ lost, promise.content.InFlow r → net.MayLose r promise)
    (hshown : net.shown r ⟨s, event, s'⟩ = none) :
    ∃ act, Delivery.Step Promise.Kept (net.MayLose r) (net.pending r s) act (net.pending r s') ∧
      act.shown Promise.content = net.shown r ⟨s, event, s'⟩ := by
  refine ⟨.lose (lost.filter fun promise => promise.content.InFlow r), ?_, hshown.symm⟩
  unfold pending
  rw [hcensus, Multiset.filter_add]
  apply Delivery.Step.lose
  intro promise hpromise
  obtain ⟨hmem, hin⟩ := Multiset.mem_filter.mp hpromise
  exact hlost promise hmem hin

omit [DecidableEq N] [DecidableEq P] in
theorem simulates_nothing (hpending : net.pending r s = net.pending r s')
    (hshown : net.shown r ⟨s, event, s'⟩ = none) :
    ∃ act, Delivery.Step Promise.Kept (net.MayLose r) (net.pending r s) act (net.pending r s') ∧
      act.shown Promise.content = net.shown r ⟨s, event, s'⟩ := by
  refine ⟨.lose 0, ?_, hshown.symm⟩
  rw [hpending]
  have hstep : Delivery.Step Promise.Kept (net.MayLose r) (net.pending r s' + 0) (.lose 0)
      (net.pending r s') := .lose (by simp)
  rwa [add_zero] at hstep

omit [DecidableEq N] [DecidableEq P] in
theorem pending_of_add {promise : Promise} (h : net.census s = net.census s' + {promise}) :
    net.pending r s = if promise.content.InFlow r then promise ::ₘ net.pending r s'
      else net.pending r s' := by
  unfold pending
  rw [h, Multiset.filter_add, Multiset.filter_singleton]
  split
  · rw [add_comm, Multiset.singleton_add]
  · rw [Multiset.empty_eq_zero, add_zero]

omit [DecidableEq N] [DecidableEq P] [Fintype P] in
/-- The link before a node of the route is what its row of the source says. -/
theorem insidePromise_forwarded (hroute : net.Consistent r) {frame : Frame P} {received : Packet}
    (htag : frame.packet.tag = none) (hin : frame.packet.InFlow r) (hover : r.uses frame.port)
    (hlocal : net.isLocalAddress (net.networkInterface frame.port).peer r.destination = false)
    (hreceived : IngressForwarder.handleMessage frame.arrival frame.packet = .ok received) :
    net.insidePromise ((net.networkInterface frame.port).peer, received) =
      net.framePromise frame := by
  apply insidePromise_received htag hreceived
  obtain ⟨received', hok, hcontent, _⟩ := ingress_spec frame.arrival htag
  cases hok.symm.trans hreceived
  rw [sourceRow_link hroute hover hlocal ((inFlow_of_content hcontent).mpr hin),
    hroute.transmission frame.port hover,
    calculateTransmissionTime_congr _ (bitLength_of_content hcontent),
    calculateTransmissionTime_node net _ (net.networkInterface frame.port).node]

/-- **Simulation.**  A step of the network is one of the service. -/
theorem simulates (hroute : net.Consistent r) (hsound : net.Sound s) (hflowing : net.Flowing r s)
    (hrouted : RoutedOver r event) (heffect : NetworkEffect net s event s') :
    ∃ act, Delivery.Step Promise.Kept (net.MayLose r) (net.pending r s) act (net.pending r s') ∧
      act.shown Promise.content = net.shown r ⟨s, event, s'⟩ := by
  cases heffect with
  | @encapsulate t node datagram packet hfresh hpacket =>
      have hcensus : net.census { s with
          now := t, inside := s.inside ++ [(node, packet)],
          log := { s.log with encapsulated := s.log.encapsulated ++ [(node, t, datagram)] } } =
          net.census s + {net.encapsulatedPromise node t datagram} := by
        rw [← insidePromise_encapsulate hfresh hpacket]
        simp only [census, ← Multiset.coe_add, Multiset.map_add, Multiset.coe_singleton,
          Multiset.map_singleton]
        abel
      have hpending := pending_of_add (r := r) hcensus
      have hcontent : (net.encapsulatedPromise node t datagram).content.InFlow r ↔
          datagram.InFlow r := inFlow_content
      by_cases hin : datagram.InFlow r
      · rw [if_pos (hcontent.mpr hin)] at hpending
        refine ⟨.accept (net.encapsulatedPromise node t datagram), ?_, ?_⟩
        · rw [hpending]
          exact .accept _
        · simp [shown, hin, Delivery.Act.shown]
      · rw [if_neg (mt hcontent.mp hin)] at hpending
        exact simulates_nothing hpending.symm (by simp [shown, hin])
  | @refuse t p packet hmem hsend =>
      apply simulates_lose {net.insidePromise ((net.networkInterface p).node, packet)}
      · simp only [census]
        rw [Pools.map_erase _ hmem]
        abel
      · intro promise hpromise _
        cases Multiset.mem_singleton.mp hpromise
        exact .inr (hasDeadline_of_refused (hsound.inside _ hmem).1 hsend)
      · rfl
  | @push t p packet queued egress hmem hsend hqueued hcontent hstep =>
      have hlawful := (hsound.inside _ hmem).1
      obtain ⟨lost, hbalance, hlost⟩ := exists_lost hsound hflowing hstep (by simp) (by
        intro t' queued' hevent
        cases hevent
        exact ⟨queuedAt_sendPacketToNIC hlawful (hrouted t p packet rfl) hsend, hqueued⟩)
      refine simulates_lose lost ?_ hlost rfl
      have harrived : Packet.queuedPromise { queued with id := (s.egress p).nextPacket } =
          net.insidePromise ((net.networkInterface p).node, packet) := by
        rw [← queuedPromise_sendPacketToNIC hlawful hsend]
        rfl
      rw [EgressEvent.arriving, Multiset.coe_singleton, Multiset.map_singleton, harrived]
        at hbalance
      calc net.census s
          = (s.inside.erase ((net.networkInterface p).node, packet) :
              Multiset (N × Packet)).map net.insidePromise +
            ((∑ a, egressPromises (s.egress a)) +
              {net.insidePromise ((net.networkInterface p).node, packet)}) +
            (s.links : Multiset (Frame P)).map net.framePromise := by
            rw [census, Pools.map_erase _ hmem]
            abel
        _ = _ := by
            rw [hbalance, census]
            abel
  | @txIdle t p egress hstep =>
      obtain ⟨lost, hbalance, hlost⟩ := exists_lost hsound hflowing hstep (by simp) (by simp)
      refine simulates_lose lost ?_ hlost rfl
      rw [EgressEvent.arriving, Multiset.coe_nil, Multiset.map_zero, add_zero] at hbalance
      rw [census, hbalance, census]
      abel
  | @timer t p msg egress sent hstep hsent =>
      obtain ⟨htime, hmatch, _, hwrite, _, hstored⟩ := exists_stored hsound hstep hsent
      obtain ⟨time, collectionIdx, stored, packet⟩ := sent
      subst htime
      refine simulates_nothing (congrArg (Multiset.filter _) ?_) rfl
      have hleft : egressPromises (s.egress p) =
          egressPromises egress + {stored.queuedPromise} := by
        unfold egressPromises
        rw [hstored, Multiset.map_cons, ← Multiset.singleton_add, add_comm]
      have hsum := Pools.sum_update (fun _ => egressPromises) s.egress p egress
      have hqueues : (∑ a, egressPromises (s.egress a)) =
          (∑ a, egressPromises (Function.update s.egress p egress a)) +
            {stored.queuedPromise} := by
        apply add_right_cancel (b := egressPromises egress)
        rw [← hsum, hleft]
        abel
      simp only [census, ← Multiset.coe_add, Multiset.map_add, Multiset.coe_singleton,
        Multiset.map_singleton]
      rw [hqueues, framePromise_transmit collectionIdx hmatch hwrite]
      abel
  | @deliver t frame received hframe harrival hreceived hlocal =>
      have hcensus : net.census s = net.census { s with
          now := t, links := s.links.erase frame,
          log := { s.log with delivered := s.log.delivered ++
            [((net.networkInterface frame.port).peer, t, received)] } } +
          {net.framePromise frame} := by
        simp only [census]
        rw [Pools.map_erase _ hframe]
        abel
      have hpending := pending_of_add (r := r) hcensus
      have hcontent : (net.framePromise frame).content.InFlow r ↔ frame.packet.InFlow r :=
        inFlow_content
      by_cases hin : frame.packet.InFlow r
      · have hlocal := (isLocal_received (hsound.links frame hframe).1 hreceived hin).symm.trans
          hlocal
        obtain ⟨_, hkept⟩ := hflowing.links frame hframe hin
        have hkept := hkept hlocal
        rw [if_pos (hcontent.mpr hin)] at hpending
        refine ⟨.deliver t (net.framePromise frame), ?_, ?_⟩
        · rw [hpending]
          exact .deliver (harrival ▸ hkept)
        · simp [shown, hin, hlocal, Delivery.Act.shown, framePromise, Packet.promise]
      · rw [if_neg (mt hcontent.mp hin)] at hpending
        exact simulates_nothing hpending (by simp [shown, hin])
  | @forward t frame received hframe harrival hreceived hlocal =>
      have hbefore : net.pending r s = if (net.framePromise frame).content.InFlow r then
          net.framePromise frame ::ₘ net.pending r { s with links := s.links.erase frame }
          else net.pending r { s with links := s.links.erase frame } := by
        apply pending_of_add
        simp only [census]
        rw [Pools.map_erase _ hframe]
        abel
      have hafter : net.pending r { s with
          now := t, links := s.links.erase frame,
          inside := s.inside ++ [((net.networkInterface frame.port).peer, received)] } =
          if (net.insidePromise
              ((net.networkInterface frame.port).peer, received)).content.InFlow r then
            net.insidePromise ((net.networkInterface frame.port).peer, received) ::ₘ
              net.pending r { s with links := s.links.erase frame }
          else net.pending r { s with links := s.links.erase frame } := by
        apply pending_of_add
        simp only [census, ← Multiset.coe_add, Multiset.map_add, Multiset.coe_singleton,
          Multiset.map_singleton]
        abel
      have htag := (hsound.links frame hframe).1
      obtain ⟨received', hok, hcontent, _⟩ := ingress_spec t htag
      cases hok.symm.trans hreceived
      have hreceivedIn : (net.insidePromise
          ((net.networkInterface frame.port).peer, received)).content.InFlow r ↔
          frame.packet.InFlow r := inFlow_content.trans (inFlow_of_content hcontent)
      have hframeIn : (net.framePromise frame).content.InFlow r ↔ frame.packet.InFlow r :=
        inFlow_content
      by_cases hin : frame.packet.InFlow r
      · have hlocal := (isLocal_received htag hreceived hin).symm.trans hlocal
        subst harrival
        have hsame := insidePromise_forwarded hroute htag hin
          (hflowing.links frame hframe hin).1 hlocal hreceived
        rw [if_pos (hframeIn.mpr hin)] at hbefore
        rw [if_pos (hreceivedIn.mpr hin), hsame] at hafter
        exact simulates_nothing (hbefore.trans hafter.symm) (by simp [shown, hlocal])
      · rw [if_neg (mt hframeIn.mp hin)] at hbefore
        rw [if_neg (mt hreceivedIn.mp hin)] at hafter
        exact simulates_nothing (hbefore.trans hafter.symm) (by simp [shown, hin])

/-- Every step of a run in which the flow keeps to its route is one of the service. -/
theorem run_simulates {history : List (Transition (NetworkState N P) (NetworkEvent N P))}
    (hroute : net.Consistent r) (hrun : net.NetworkRun history s)
    (hrouted : ∀ x ∈ history, RoutedOver r x.event) :
    ∀ x ∈ history, ∃ act,
      Delivery.Step Promise.Kept (net.MayLose r) (net.pending r x.pre) act
        (net.pending r x.post) ∧ act.shown Promise.content = net.shown r x := by
  have hinv := hrun.conditional (I := fun s => net.Sound s ∧ net.Flowing r s)
    (C := fun _ event => RoutedOver r event) ⟨sound_initial net, flowing_initial net r⟩
    (fun _ _ _ h hrouted hstep =>
      ⟨h.1.step hstep, h.2.step hroute h.1 hrouted (h.1.effect hstep)⟩) hrouted
  intro x hx
  obtain ⟨hsound, hflowing⟩ := (hinv.2 x hx).1
  exact simulates hroute hsound hflowing (hrouted x hx)
    (hsound.effect (hrun.step_of_mem x hx))

omit [DecidableEq N] [DecidableEq P] in
theorem pending_initial (net : Network N P) (r : FlowRoute N P) :
    net.pending r net.initial = 0 := by
  have hempty : ∀ p, egressPromises (Egress.initial (net.networkInterface p).count) = 0 := by
    intro p
    simp [egressPromises]
  simp [pending, census, Network.initial, hempty]

/-- **A network is a delivery service.**  In every run in which the network layers hand
    the packets of a flow only to the interfaces of a consistent route, whatever else
    happens in the network:

    * what is pending of the flow is pending in a run of a delivery service whose
      deliveries keep their promises and that loses only promises with a deadline, or
      any if a queue on the route is limited;
    * that run shows what the network shows, in the same order: each encapsulation,
      and when which content arrives. -/
theorem network_refines_delivery (net : Network N P) (r : FlowRoute N P)
    (history : List (Transition (NetworkState N P) (NetworkEvent N P))) (s : NetworkState N P)
    (hroute : net.Consistent r) (hrun : net.NetworkRun history s)
    (hrouted : ∀ x ∈ history, RoutedOver r x.event) :
    ∃ history', Run (Delivery.Step Promise.Kept (net.MayLose r)) 0 history' (net.pending r s) ∧
      history'.filterMap (fun x => x.event.shown Promise.content) =
        history.filterMap (net.shown r) := by
  rw [← pending_initial net r]
  exact hrun.simulate (run_simulates hroute hrun hrouted)

theorem network_refines_delivery_sample : ∃ history s history',
    sampleNetwork.NetworkRun history s ∧ history.map Transition.event = sampleJourney ∧
    s.log.delivered.length = 1 ∧
    Run (Delivery.Step Promise.Kept (sampleNetwork.MayLose sampleRoute)) 0 history'
      (sampleNetwork.pending sampleRoute s) ∧
    history'.filterMap (fun x => x.event.shown Promise.content) =
      history.filterMap (sampleNetwork.shown sampleRoute) := by
  obtain ⟨history, s, hrun, hevents, hdelivered⟩ :=
    Run.exists_of_replay sampleNetwork.step_of_next
      (show (replay sampleNetwork.next sampleNetwork.initial sampleJourney).any
        (fun s => s.log.delivered.length == 1) = true by decide +kernel)
  obtain ⟨history', hrun', hshown⟩ := network_refines_delivery sampleNetwork sampleRoute history s
    sampleRoute_consistent hrun fun _ _ _ _ _ _ _ => trivial
  exact ⟨history, s, history', hrun, hevents, by simpa using hdelivered, hrun', hshown⟩

/-! ## What the logs of the network layers show -/

omit [DecidableEq N] [DecidableEq P] [Fintype P]

/-- The promises of the flow's datagrams, as often as they were encapsulated. -/
def promised (net : Network N P) (r : FlowRoute N P) (log : NetworkLog N) : Multiset Promise :=
  ((log.encapsulated.filter fun x => x.2.2.InFlow r).map fun x =>
    net.encapsulatedPromise x.1 x.2.1 x.2.2 : List Promise)

/-- When which content of the flow has arrived. -/
def arrivals (r : FlowRoute N P) (log : NetworkLog N) : Multiset (SimTime × Packet) :=
  ((log.delivered.filter fun x => x.2.2.InFlow r).map fun x =>
    (x.2.1, x.2.2.content) : List (SimTime × Packet))

theorem promised_append (log : NetworkLog N) (node : N) (t : SimTime) (datagram : Packet) :
    net.promised r { log with encapsulated := log.encapsulated ++ [(node, t, datagram)] } =
      net.promised r log +
        if datagram.InFlow r then {net.encapsulatedPromise node t datagram} else 0 := by
  unfold promised
  rw [List.filter_append, List.map_append, ← Multiset.coe_add]
  congr 1
  by_cases hin : datagram.InFlow r <;> simp [hin]

theorem arrivals_append (log : NetworkLog N) (node : N) (t : SimTime) (received : Packet) :
    arrivals r { log with delivered := log.delivered ++ [(node, t, received)] } =
      arrivals r log + if received.InFlow r then {(t, received.content)} else 0 := by
  unfold arrivals
  rw [List.filter_append, List.map_append, ← Multiset.coe_add]
  congr 1
  by_cases hin : received.InFlow r <;> simp [hin]

variable [DecidableEq N] [DecidableEq P]

/-- A step logs what it shows. -/
theorem log_effect (hsound : net.Sound s) (heffect : NetworkEffect net s event s') :
    net.promised r s'.log = net.promised r s.log +
      (((net.shown r ⟨s, event, s'⟩).toList.map Delivery.Shown.acceptance).sum) ∧
    arrivals r s'.log = arrivals r s.log +
      (((net.shown r ⟨s, event, s'⟩).toList.map Delivery.Shown.delivery).sum) := by
  cases heffect with
  | @encapsulate t node datagram packet hfresh hpacket =>
      refine ⟨(promised_append _ _ _ _).trans ?_, ?_⟩
      all_goals by_cases hin : datagram.InFlow r
      all_goals simp [shown, hin, Delivery.Shown.acceptance, Delivery.Shown.delivery, arrivals]
  | refuse hmem hsend => simp [shown, promised, arrivals]
  | push hmem hsend hqueued hcontent hstep => simp [shown]
  | txIdle hstep => simp [shown]
  | timer hstep hsent => simp [shown]
  | @deliver t frame received hframe harrival hreceived hlocal =>
      have htag := (hsound.links frame hframe).1
      obtain ⟨received', hok, hcontent, _⟩ := ingress_spec t htag
      cases hok.symm.trans hreceived
      have hreceivedIn : received.InFlow r ↔ frame.packet.InFlow r := inFlow_of_content hcontent
      refine ⟨?_, (arrivals_append _ _ _ _).trans ?_⟩
      all_goals by_cases hin : frame.packet.InFlow r
      · simp [shown, hin, (isLocal_received htag hreceived hin).symm.trans hlocal,
          Delivery.Shown.acceptance, promised]
      · simp [shown, hin, promised]
      · simp [shown, hin, hreceivedIn, (isLocal_received htag hreceived hin).symm.trans hlocal,
          Delivery.Shown.delivery, hcontent]
      · simp [shown, hin, hreceivedIn]
  | @forward t frame received hframe harrival hreceived hlocal =>
      have htag := (hsound.links frame hframe).1
      have hnone : net.shown r ⟨s, .receive t frame, { s with
          now := t, links := s.links.erase frame,
          inside := s.inside ++ [((net.networkInterface frame.port).peer, received)] }⟩ = none := by
        by_cases hin : frame.packet.InFlow r
        · simp [shown, (isLocal_received htag hreceived hin).symm.trans hlocal]
        · simp [shown, hin]
      simp [hnone]

theorem log_run {history : List (Transition (NetworkState N P) (NetworkEvent N P))}
    (hrun : net.NetworkRun history s) :
    net.promised r s.log =
      ((history.filterMap (net.shown r)).map Delivery.Shown.acceptance).sum ∧
    arrivals r s.log = ((history.filterMap (net.shown r)).map Delivery.Shown.delivery).sum := by
  have hsound := (run_sound hrun).2
  induction hrun with
  | start => simp [promised, arrivals, Network.initial]
  | @next history s s' event hrun hstep ih =>
      rw [List.forall_mem_append, List.forall_mem_singleton] at hsound
      obtain ⟨hpromised, harrivals⟩ := ih hsound.1
      have hpre : net.Sound s := hsound.2.1
      obtain ⟨hpromised', harrivals'⟩ := log_effect (r := r) hpre (hpre.effect hstep)
      have hlast : [(⟨s, event, s'⟩ : Transition (NetworkState N P) (NetworkEvent N P))].filterMap
          (net.shown r) = (net.shown r ⟨s, event, s'⟩).toList := by
        cases hshown : net.shown r ⟨s, event, s'⟩ <;> simp [hshown]
      rw [List.filterMap_append, List.map_append, List.map_append, List.sum_append,
        List.sum_append, hlast]
      exact ⟨hpromised'.trans (congrArg (· + _) hpromised),
        harrivals'.trans (congrArg (· + _) harrivals)⟩

variable [Fintype P]

/-- **A flow is delivered in time.**  What has arrived of it can be matched with what was
    encapsulated, no datagram more than once, such that

    * each arrival has the content of its datagram, and comes between `dMin` and `dMax`
      after its encapsulation;
    * what is pending is matched with other datagrams;
    * if no queue on the route is limited, every datagram without a deadline is matched. -/
theorem flow_delivered (net : Network N P) (r : FlowRoute N P)
    (history : List (Transition (NetworkState N P) (NetworkEvent N P))) (s : NetworkState N P)
    (hroute : net.Consistent r) (hrun : net.NetworkRun history s)
    (hrouted : ∀ x ∈ history, RoutedOver r x.event) :
    ∃ deliveries : Multiset (SimTime × Promise),
      deliveries.map (fun x => (x.1, x.2.content)) = arrivals r s.log ∧
      net.pending r s + deliveries.map Prod.snd ≤ net.promised r s.log ∧
      (∀ x ∈ deliveries, x.2.Kept x.1) ∧
      (¬ net.Limited r → (net.promised r s.log).filter (fun promise => ¬ promise.HasDeadline) =
        (net.pending r s + deliveries.map Prod.snd).filter fun promise =>
          ¬ promise.HasDeadline) := by
  obtain ⟨history', hrun', hshown⟩ := hrun.simulate (run_simulates hroute hrun hrouted)
  rw [pending_initial net r] at hrun'
  obtain ⟨hpromised, harrivals⟩ := log_run (r := r) hrun
  obtain ⟨deliveries, hdelivered, haccepted, hkept, hsafe⟩ :=
    Delivery.exists_promises Promise.content hrun'
  rw [hshown] at hdelivered haccepted hsafe
  rw [hpromised, harrivals]
  refine ⟨deliveries, hdelivered, haccepted, hkept, fun hunlimited => hsafe _ ?_⟩
  intro promise hsafe hlost
  exact hlost.elim hunlimited hsafe

/-! The packet that arrives at 6 was encapsulated at 0, with bounds of 6 and 10 seconds. -/

theorem flow_delivered_sample : ∃ history s, ∃ deliveries : Multiset (SimTime × Promise),
    sampleNetwork.NetworkRun history s ∧
    deliveries.map (fun x => (x.1, x.2.content)) = {(6, sampleDatagram.content)} ∧
    deliveries.map Prod.snd ≤ {sampleNetwork.encapsulatedPromise 0 0 sampleDatagram} ∧
    ∀ x ∈ deliveries, x.2.Kept x.1 := by
  obtain ⟨history, s, hrun, _, hlogs⟩ := Run.exists_of_replay sampleNetwork.step_of_next
    (show (replay sampleNetwork.next sampleNetwork.initial sampleJourney).any
      (fun s => decide (arrivals sampleRoute s.log = {(6, sampleDatagram.content)} ∧
        sampleNetwork.promised sampleRoute s.log =
          {sampleNetwork.encapsulatedPromise 0 0 sampleDatagram})) = true by decide +kernel)
  obtain ⟨harrivals, hpromised⟩ := of_decide_eq_true hlogs
  obtain ⟨deliveries, hdelivered, hmatched, hkept, _⟩ := flow_delivered sampleNetwork sampleRoute
    history s sampleRoute_consistent hrun fun _ _ _ _ _ _ _ => trivial
  rw [harrivals] at hdelivered
  rw [hpromised] at hmatched
  exact ⟨history, s, deliveries, hrun, hdelivered,
    (Multiset.le_add_left _ _).trans hmatched, hkept⟩

end

end Network

end DelayBasedForwarding
