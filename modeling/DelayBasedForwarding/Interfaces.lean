import DelayBasedForwarding.NetworkSteps
import DelayBasedForwarding.Conservation
import DelayBasedForwarding.Termination

/-!
# The interfaces of a network

Seen at one interface, a run of a network is a run of its egress: what the egress
relies on is what the network layer and the MAC guarantee.  So an exception of an
egress is not reached, nor is a null pointer in the network layer or a second tag.
What is left is a packet the FIB of the node has no rows for, and a classification
that does not end.
-/

namespace DelayBasedForwarding

open DBFComputer TransitionRuns

namespace Network

variable {N P : Type} [DecidableEq P] {net : Network N P} {p : P} {s s' : NetworkState N P}
  {event : NetworkEvent N P} {t : SimTime} {packet : Packet}

/-! ## Projection -/

/-- What the network layer pushes into the egress of `p`. -/
def pushEvent (net : Network N P) (p : P) (t : SimTime) (packet : Packet) : Option EgressEvent :=
  match DBFIpv4.sendPacketToNIC (net.computer (net.networkInterface p).node) packet with
  | .error _ => none
  | .ok result => result.map fun queued => .push t queued

/-- What the egress of `p` sees of an event. -/
def portEvent (net : Network N P) (p : P)
    (x : Transition (NetworkState N P) (NetworkEvent N P)) : Option EgressEvent :=
  match x.event with
  | .encapsulate _ _ _ => none
  | .sendPacketToNIC t a packet => if a = p then net.pushEvent a t packet else none
  | .txIdle t a => if a = p then some (.txIdle t) else none
  | .timer t a msg => if a = p then some (.timer t msg) else none
  | .receive _ _ => none

/-- The history of the egress of `p`. -/
def portHistory (net : Network N P) (p : P)
    (history : List (Transition (NetworkState N P) (NetworkEvent N P))) :
    List (Transition Egress EgressEvent) :=
  history.filterMap (Transition.part (fun s => s.egress p) (net.portEvent p))

variable [DecidableEq N]

omit [DecidableEq N] in
/-- A step of the egress of `a`, seen at `p`. -/
theorem part_update {a : P} {e : EgressEvent} {egress : Egress}
    (hstep : net.PortStep a (s.egress a) e egress) (p : P) :
    ((if a = p then some e else none) = none →
      Function.update s.egress a egress p = s.egress p) ∧
    ∀ e', (if a = p then some e else none) = some e' →
      net.PortStep p (s.egress p) e' (Function.update s.egress a egress p) := by
  by_cases ha : a = p
  · subst ha
    rw [if_pos rfl, Function.update_self]
    refine ⟨fun h => (nomatch h), fun e' he' => ?_⟩
    cases he'
    exact hstep
  · rw [if_neg ha, Function.update_of_ne (Ne.symm ha)]
    exact ⟨fun _ => rfl, fun _ h => (nomatch h)⟩

/-- An effect is a step of one egress, or leaves it as it is. -/
theorem NetworkEffect.part (heffect : NetworkEffect net s event s') (p : P) :
    (net.portEvent p ⟨s, event, s'⟩ = none → s'.egress p = s.egress p) ∧
    ∀ e, net.portEvent p ⟨s, event, s'⟩ = some e →
      net.PortStep p (s.egress p) e (s'.egress p) := by
  cases heffect with
  | encapsulate hfresh hpacket => exact ⟨fun _ => rfl, fun _ h => (nomatch h)⟩
  | refuse hmem hsend =>
      simp only [portEvent, pushEvent, hsend, Option.map_none, ite_self]
      exact ⟨fun _ => trivial, fun _ h => (nomatch h)⟩
  | push hmem hsend hqueued hcontent hstep =>
      simp only [portEvent, pushEvent, hsend, Option.map_some]
      exact part_update hstep p
  | txIdle hstep => exact part_update hstep p
  | timer hstep hsent => exact part_update hstep p
  | deliver hframe harrival hreceived hlocal => exact ⟨fun _ => rfl, fun _ h => (nomatch h)⟩
  | forward hframe harrival hreceived hlocal => exact ⟨fun _ => rfl, fun _ h => (nomatch h)⟩

variable {history : List (Transition (NetworkState N P) (NetworkEvent N P))}

theorem port_run (hrun : net.NetworkRun history s) (p : P) :
    net.PortRun p (net.portHistory p history) (s.egress p) := by
  have hframe : ∀ x ∈ history, net.portEvent p x = none → x.post.egress p = x.pre.egress p :=
    fun x hx => ((run_effects hrun x hx).part p).1
  have hpart : ∀ x ∈ history, ∀ e, net.portEvent p x = some e →
      net.PortStep p (x.pre.egress p) e (x.post.egress p) :=
    fun x hx => ((run_effects hrun x hx).part p).2
  exact @Run.project _ _ _ _ _ _ _ _ _ (fun s => s.egress p) (net.portEvent p) hrun hframe hpart

/-- **Every interface runs as an egress of its own.**  In every run of a network, at each
    interface:

    * the events it sees are a run of its egress: the MAC and the network layer keep all
      that the egress relies on, whatever the other nodes do;
    * what it has sent left in its send window, one packet for each idle signal, up to
      one signal that is still to be used;
    * what was pushed is queued, sent, dropped or deleted as expired, once. -/
theorem interfaces_run (net : Network N P)
    (history : List (Transition (NetworkState N P) (NetworkEvent N P))) (s : NetworkState N P)
    (hrun : net.NetworkRun history s) (p : P) :
    net.PortRun p (net.portHistory p history) (s.egress p) ∧
    (∀ sent ∈ (s.egress p).log.sent, InWindow sent) ∧
    (s.egress p).log.sent.length + (s.egress p).txIdleCounter = (s.egress p).log.idleSignals ∧
    (s.egress p).txIdleCounter ≤ 1 ∧
    ∀ packet ∈ (s.egress p).log.pushed, (s.egress p).occurrences packet = 1 := by
  have hport := port_run hrun p
  have hkeeps := (net.networkInterface p).keepsOne
  obtain ⟨d⟩ := net.exists_portDiscipline p
  have haccounted := run_accounted d hkeeps hport
  have hconserved := run_conserved d hkeeps hport
  refine ⟨hport, haccounted.window, haccounted.signals, haccounted.idle,
    fun packet hpacket => ?_⟩
  have hnodup : (s.egress p).log.pushed.Nodup := by
    apply List.Nodup.of_map Packet.id
    rw [hconserved.ids]
    exact List.nodup_range
  rw [hconserved.balance]
  exact List.count_eq_one_of_mem hnodup hpacket

/-! The sender of the sample network after its packet was pushed and sent. -/

theorem interfaces_run_sample : ∃ history s, sampleNetwork.NetworkRun history s ∧
    (s.egress 0).log.sent.length = 1 ∧ (∀ sent ∈ (s.egress 0).log.sent, InWindow sent) ∧
    ∀ packet ∈ (s.egress 0).log.pushed, (s.egress 0).occurrences packet = 1 := by
  obtain ⟨history, s, hrun, _, hsent⟩ := Run.exists_of_replay sampleNetwork.step_of_next
    (show (replay sampleNetwork.next sampleNetwork.initial
      (sampleNetworkEvents ++ [.timer 1 0 ⟨0, 0⟩])).any
      (fun s => (s.egress 0).log.sent.length == 1) = true by decide +kernel)
  obtain ⟨_, hwindow, _, _, honce⟩ := interfaces_run sampleNetwork history s hrun 0
  exact ⟨history, s, hrun, by simpa using hsent, hwindow, honce⟩

/-! ## Errors -/

/-- The FIB of the node of `p` has rows for the packet, and its destination is no less
    than one hop away. -/
def HasRows (net : Network N P) (p : P) (packet : Packet) : Prop :=
  ∀ header, packet.ipv4Header = some header → ∃ source destination,
    (net.computer (net.networkInterface p).node).dbfFIB.lookup header.srcAddress = some source ∧
    (net.computer (net.networkInterface p).node).dbfFIB.lookup header.destAddress =
      some destination ∧ destination.hops.toUInt32 ≠ 0

/-- The classification of what the network layer forwards to `p` ends. -/
def Classifies (net : Network N P) (p : P) (packet : Packet) : Prop :=
  ∀ queued, DBFIpv4.sendPacketToNIC (net.computer (net.networkInterface p).node) packet =
    .ok (some queued) → ∀ tag ∈ queued.tag,
      LoopExits (net.networkInterface p).config.classifier tag

omit [DecidableEq P] [DecidableEq N] in
/-- Rows decide whether the network layer processes a tagged packet. -/
theorem sendPacketToNIC_iff_hasRows (hlawful : packet.Lawful) (htag : packet.tag.isSome) :
    (net.HasRows p packet ↔ ∃ result, DBFIpv4.sendPacketToNIC
      (net.computer (net.networkInterface p).node) packet = .ok result) ∧
    ∀ error, DBFIpv4.sendPacketToNIC (net.computer (net.networkInterface p).node) packet =
      .error error → Refused (net.computer (net.networkInterface p).node) packet error := by
  obtain ⟨tag, htag⟩ := Option.isSome_iff_exists.mp htag
  obtain ⟨option, hoption⟩ := hlawful.exists_option htag
  obtain ⟨header, hheader, hfound⟩ := dbfOption_eq_some.mp hoption
  rw [sendPacketToNIC_tagged htag]
  have hrows : net.HasRows p packet → ∃ queued,
      (net.computer (net.networkInterface p).node).processDBFPacket packet = .ok queued := by
    intro hrows
    obtain ⟨source, destination, hsource, hdestination, hhops⟩ := hrows header hheader
    exact ⟨_, processDBFPacket_ok _ hheader hfound htag hsource hdestination hhops⟩
  rcases @processDBFPacket_spec (net.computer (net.networkInterface p).node) _ _ _ htag hoption with
    ⟨header', source, destination, queued, hok, hprocessed⟩ | ⟨error, herror, hrefused⟩
  · refine ⟨⟨fun _ => ⟨_, by rw [hok]; rfl⟩, fun _ header'' hheader'' => ?_⟩, ?_⟩
    · cases hprocessed.ipv4Header.symm.trans hheader''
      exact ⟨source, destination, hprocessed.sourceRow, hprocessed.destinationRow,
        hprocessed.hops⟩
    · intro error herror
      rw [hok] at herror
      cases herror
  · refine ⟨⟨fun h => ?_, ?_⟩, ?_⟩
    · obtain ⟨queued, hok⟩ := hrows h
      cases herror.symm.trans hok
    · rintro ⟨result, hok⟩
      rw [herror] at hok
      cases hok
    · intro error' hmapped
      rw [herror] at hmapped
      cases hmapped
      exact hrefused

omit [DecidableEq N] in
/-- An egress handles an idle signal of its MAC and its own timer without error. -/
theorem handleEgress_txIdle (h : net.Sound s) (henabled : net.Enabled s (.txIdle t p)) :
    ∃ s', net.handleEgress { s with now := t } p (.txIdle t) = .ok s' := by
  obtain ⟨history, hrun⟩ := h.egress p
  obtain ⟨d⟩ := net.exists_portDiscipline p
  obtain ⟨hwell, htimer⟩ := (d.inv_run (net.networkInterface p).keepsOne hrun).1
  have hidle : (s.egress p).txIdleCounter = 0 := by
    have hsignals := (h.port p).2.1.signals
    have hguard : (s.egress p).log.idleSignals = (s.egress p).log.sent.length := henabled.2.2.2
    omega
  have htime : (s.egress p).now ≤ t := (h.clock p).trans henabled.1
  obtain ⟨timer, hok, _⟩ := d.handle_txIdle_cases hwell htimer htime hidle
  unfold handleEgress
  simp only [hok]
  exact ⟨_, rfl⟩

omit [DecidableEq N] in
theorem handleEgress_timer (h : net.Sound s) {msg : DBFPriorityScheduleMsg}
    (henabled : net.Enabled s (.timer t p msg)) :
    ∃ s', net.handleEgress { s with now := t } p (.timer t msg) = .ok s' := by
  obtain ⟨history, hrun⟩ := h.egress p
  obtain ⟨d⟩ := net.exists_portDiscipline p
  obtain ⟨hwell, htimer⟩ := (d.inv_run (net.networkInterface p).keepsOne hrun).1
  have hfires : DelayBasedForwarding.Enabled (s.egress p) (.timer t msg) :=
    h.enabled henabled rfl henabled.2.2.2
  obtain ⟨stored, harmed⟩ := d.armed_of_delivers htimer hfires
  have hlawful := h.queued p _ stored (d.stored harmed)
  obtain ⟨out, hwrite, _⟩ := writeEDelay_spec t hlawful.tagged
  have hhandle := d.fires hwell harmed t
  rw [hwrite] at hhandle
  unfold handleEgress
  simp only [hhandle]
  exact ⟨_, rfl⟩

omit [DecidableEq N] in
/-- A push succeeds unless the classification does not end. -/
theorem handleEgress_push (h : net.Sound s) {inside : List (N × Packet)} {queued : Packet}
    (henabled : DelayBasedForwarding.Enabled (s.egress p) (.push t queued))
    (hadmissible : Admissible (.push t queued)) :
    (∃ tag ∈ queued.tag, ¬ LoopExits (net.networkInterface p).config.classifier tag) ∧
      net.handleEgress { s with now := t, inside := inside } p (.push t queued) =
        .error (.egress p (.classifier .endlessLoop)) ∨
    (∀ tag ∈ queued.tag, LoopExits (net.networkInterface p).config.classifier tag) ∧
      ∃ s', net.handleEgress { s with now := t, inside := inside } p (.push t queued) = .ok s' := by
  obtain ⟨history, hrun⟩ := h.egress p
  obtain ⟨d⟩ := net.exists_portDiscipline p
  have hkeeps := (net.networkInterface p).keepsOne
  obtain ⟨hwell, htimer⟩ := (d.inv_run hkeeps hrun).1
  unfold handleEgress
  rcases d.handle_push_cases hkeeps hwell htimer henabled hadmissible with
    ⟨hnone, herror⟩ | ⟨delta, q, registry, timer, hdelta, _, hok, _⟩
  · left
    rw [herror]
    exact ⟨packetDelta_eq_none_iff.mp hnone, rfl⟩
  · right
    simp only [hok]
    refine ⟨fun tag htag => ?_, _, rfl⟩
    by_contra hendless
    have hnone := packetDelta_eq_none_iff.mpr ⟨tag, htag, hendless⟩
    cases hdelta.symm.trans hnone

theorem handle_receive (h : net.Sound s) {frame : Frame P}
    (henabled : net.Enabled s (.receive t frame)) :
    ∃ s', net.handle s (.receive t frame) = .ok s' := by
  obtain ⟨hframe, _⟩ := henabled.2.2.2
  obtain ⟨received, hok, _⟩ := ingress_spec t (h.links frame hframe).1
  simp only [handle, hok]
  split
  · exact ⟨_, rfl⟩
  · exact ⟨_, rfl⟩

/-- The errors that are left, each with its cause. -/
inductive Failure (net : Network N P) : NetworkEvent N P → NetworkError N P → Prop where
  | refused {t : SimTime} {p : P} {packet : Packet} {error : ComputerError} :
      Refused (net.computer (net.networkInterface p).node) packet error →
      Failure net (.sendPacketToNIC t p packet) (.computer (net.networkInterface p).node error)
  | endlessLoop {t : SimTime} {p : P} {packet queued : Packet} {tag : DBFHeaderTag} :
      DBFIpv4.sendPacketToNIC (net.computer (net.networkInterface p).node) packet =
        .ok (some queued) →
      queued.tag = some tag → ¬ LoopExits (net.networkInterface p).config.classifier tag →
      Failure net (.sendPacketToNIC t p packet) (.egress p (.classifier .endlessLoop))

/-- `sendPacketToNIC` fails on a tagged packet without rows or with a classification that
    does not end. -/
theorem handle_sendPacketToNIC (h : net.Sound s)
    (henabled : net.Enabled s (.sendPacketToNIC t p packet)) :
    (packet.tag.isSome ∧ ¬ (net.HasRows p packet ∧ net.Classifies p packet) ∧
      ∃ error, net.handle s (.sendPacketToNIC t p packet) = .error error ∧
        Failure net (.sendPacketToNIC t p packet) error) ∨
    (packet.tag.isSome → net.HasRows p packet ∧ net.Classifies p packet) ∧
      ∃ s', net.handle s (.sendPacketToNIC t p packet) = .ok s' := by
  have hmem : ((net.networkInterface p).node, packet) ∈ s.inside := henabled.2.2.2
  obtain ⟨hlawful, hreceived⟩ := h.inside_later henabled _ hmem
  simp only [handle]
  cases hsend : DBFIpv4.sendPacketToNIC (net.computer (net.networkInterface p).node) packet with
  | error error =>
      left
      have htag : packet.tag.isSome := by
        cases htag : packet.tag with
        | none =>
            rw [sendPacketToNIC_untagged htag] at hsend
            cases hsend
        | some tag => rfl
      obtain ⟨hrows, herror⟩ := @sendPacketToNIC_iff_hasRows _ _ net p _ hlawful htag
      refine ⟨htag, fun hboth => ?_, _, rfl, ?_⟩
      · obtain ⟨result, hok⟩ := hrows.mp hboth.1
        cases hsend.symm.trans hok
      · exact .refused (herror error hsend)
  | ok result =>
      have hrows : packet.tag.isSome → net.HasRows p packet := fun htag =>
        (@sendPacketToNIC_iff_hasRows _ _ net p _ hlawful htag).1.mpr ⟨result, hsend⟩
      cases result with
      | none =>
          right
          refine ⟨fun htag => ⟨hrows htag, fun queued hqueued => ?_⟩, _, rfl⟩
          cases hsend.symm.trans hqueued
      | some queued =>
          obtain ⟨hadmissible, hqueued, _⟩ := sendPacketToNIC_admissible hlawful hreceived hsend
          have hpush : DelayBasedForwarding.Enabled (s.egress p) (.push t queued) :=
            h.enabled henabled rfl trivial
          rcases handleEgress_push h hpush hadmissible with
            ⟨⟨tag, htag, hendless⟩, herror⟩ | ⟨hexits, hok⟩
          · left
            refine ⟨?_, fun hboth => hendless (hboth.2 queued hsend tag htag), _, herror,
              .endlessLoop hsend htag hendless⟩
            rcases sendPacketToNIC_some hlawful hsend with ⟨_, rfl⟩ | ⟨_, _, _, _, _, hsome, _⟩
            · exact Option.isSome_iff_exists.mpr ⟨tag, htag⟩
            · exact Option.isSome_iff_exists.mpr ⟨_, hsome⟩
          · right
            refine ⟨fun htag => ⟨hrows htag, fun queued' hqueued' => ?_⟩, hok⟩
            cases hsend.symm.trans hqueued'
            exact hexits

/-- **Errors of a network.**  In every state a network reaches, an event that is possible
    fails exactly when a tagged packet is handed to an interface whose node has no rows for
    it or is no hop away from its destination, or whose classifier does not end; and the
    error is the one of the address, the division or the loop that fails.  Where a packet
    without a queueing delay is no hop away, this is the conversion of `0.0 / 0.0`, which
    the language leaves undefined. -/
theorem network_errors_iff (net : Network N P)
    (history : List (Transition (NetworkState N P) (NetworkEvent N P))) (s : NetworkState N P)
    (hrun : net.NetworkRun history s) (event : NetworkEvent N P)
    (henabled : net.Enabled s event) :
    ((∃ error, net.handle s event = .error error) ↔
      ∃ t p packet, event = .sendPacketToNIC t p packet ∧ packet.tag.isSome ∧
        ¬ (net.HasRows p packet ∧ net.Classifies p packet)) ∧
    ∀ error, net.handle s event = .error error → Failure net event error := by
  have h := (run_sound hrun).1
  have hnever : (∀ t p packet, event ≠ .sendPacketToNIC t p packet) →
      (∃ s', net.handle s event = .ok s') →
      ((∃ error, net.handle s event = .error error) ↔
        ∃ t p packet, event = .sendPacketToNIC t p packet ∧ packet.tag.isSome ∧
          ¬ (net.HasRows p packet ∧ net.Classifies p packet)) ∧
      ∀ error, net.handle s event = .error error → Failure net event error := by
    rintro hother ⟨s', hok⟩
    rw [hok]
    refine ⟨⟨by simp, ?_⟩, by simp⟩
    rintro ⟨t, p, packet, hevent, _⟩
    exact absurd hevent (hother t p packet)
  cases event with
  | encapsulate t node datagram =>
      refine hnever (by simp) ?_
      obtain ⟨packet, hok, _⟩ := encapsulate_spec (net.computer node) t henabled.2.2.2
      simp only [handle, hok]
      exact ⟨_, rfl⟩
  | sendPacketToNIC t p packet =>
      rcases handle_sendPacketToNIC h henabled with
        ⟨htag, hnot, error, herror, hfailure⟩ | ⟨hboth, s', hok⟩
      · rw [herror]
        refine ⟨⟨fun _ => ⟨t, p, packet, rfl, htag, hnot⟩, fun _ => ⟨error, rfl⟩⟩, ?_⟩
        intro error' herror'
        cases herror'
        exact hfailure
      · rw [hok]
        refine ⟨⟨by simp, ?_⟩, by simp⟩
        rintro ⟨_, _, _, hevent, htag, hnot⟩
        cases hevent
        exact absurd (hboth htag) hnot
  | txIdle t p => exact hnever (by simp) (handleEgress_txIdle h henabled)
  | timer t p msg => exact hnever (by simp) (handleEgress_timer h henabled)
  | receive t frame => exact hnever (by simp) (handle_receive h henabled)

/-! The host has rows for its packet, and its classifier counts up.  It has no row for the
source of the packet that the router sends. -/

def sampleCrossEncapsulated : Packet :=
  { sampleCrossDatagram with
    ipv4Header := some
      { srcAddress := 3, destAddress := 2, options := [.dbf { dMin := 6, dMax := 10 }] },
    tag := some { tRcv := 0, fromNetwork := false } }

theorem network_errors_iff_sample :
    (∃ history s, sampleNetwork.NetworkRun history s ∧
      sampleNetwork.Enabled s (.sendPacketToNIC 0 0 sampleEncapsulated) ∧
      ¬ ∃ error, sampleNetwork.handle s (.sendPacketToNIC 0 0 sampleEncapsulated) =
        .error error) ∧
    ∃ history s, sampleNetwork.NetworkRun history s ∧
      ∃ error, sampleNetwork.handle s (.sendPacketToNIC 0 0 sampleCrossEncapsulated) =
        .error error ∧
      Failure sampleNetwork (.sendPacketToNIC 0 0 sampleCrossEncapsulated) error := by
  constructor
  · obtain ⟨history, s, hrun, _, hcheck⟩ := Run.exists_of_replay sampleNetwork.step_of_next
      (show (replay sampleNetwork.next sampleNetwork.initial
        [.encapsulate 0 0 sampleDatagram]).any
        (fun s => decide (sampleNetwork.Enabled s (.sendPacketToNIC 0 0 sampleEncapsulated))) =
          true by decide +kernel)
    have henabled := of_decide_eq_true hcheck
    refine ⟨history, s, hrun, henabled, fun herror => ?_⟩
    obtain ⟨t, p, packet, hevent, _, hnot⟩ :=
      (network_errors_iff sampleNetwork history s hrun _ henabled).1.mp herror
    cases hevent
    apply hnot
    constructor
    · intro header hheader
      cases hheader
      exact ⟨{ hops := 0, lDelay := 0, hDelay := 0, fromDelay := 0, toDelay := 0 },
        { hops := 2, lDelay := 1, hDelay := 1, fromDelay := 2, toDelay := 2 },
        by decide +kernel, by decide +kernel, by decide⟩
    · intro queued _ tag _
      exact loopExits_iff.mpr (.inl (by decide +kernel))
  · obtain ⟨history, s, hrun, _, hcheck⟩ := Run.exists_of_replay sampleNetwork.step_of_next
      (show (replay sampleNetwork.next sampleNetwork.initial
        [.encapsulate 0 0 sampleCrossDatagram]).any (fun s =>
          decide (sampleNetwork.Enabled s (.sendPacketToNIC 0 0 sampleCrossEncapsulated))) =
          true by decide +kernel)
    obtain ⟨hiff, hcause⟩ := network_errors_iff sampleNetwork history s hrun _
      (of_decide_eq_true hcheck)
    have hnoRow : ¬ sampleNetwork.HasRows 0 sampleCrossEncapsulated := fun hrows => by
      obtain ⟨_, _, hsource, _⟩ := hrows _ rfl
      exact absurd hsource (by simp [show (sampleNetwork.computer
        (sampleNetwork.networkInterface 0).node).dbfFIB.lookup 3 = none by decide +kernel])
    obtain ⟨error, herror⟩ := hiff.mpr ⟨0, 0, _, rfl, rfl, fun hboth => hnoRow hboth.1⟩
    exact ⟨history, s, hrun, error, herror, hcause error herror⟩

end Network

end DelayBasedForwarding
