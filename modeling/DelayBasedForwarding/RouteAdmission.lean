import DelayBasedForwarding.Flows

/-!
# Admission along a route

`sendPacketToNIC` deletes a packet whose upper bound is already out of reach.  Over a
consistent route this is decided once, at the sender: a packet that a queue sends in its
window has enough time left for the rest of the route, so no router deletes it.
-/

namespace DelayBasedForwarding

open DBFComputer TransitionRuns

namespace Network

variable {N P : Type} {net : Network N P} {r : FlowRoute N P} {p : P}
  {packet queued stored out : Packet} {t : SimTime} {tag : DBFHeaderTag}
  {option : DBFIpv4Option}

/-- The time from the start of a transmission at `node` to the arrival at the destination,
    without any waiting. -/
def travelTime (net : Network N P) (r : FlowRoute N P) (node : N) (packet : Packet) : SimTime :=
  r.delay node + r.hops node * (net.computer node).calculateTransmissionTime packet

theorem travelTime_congr {node : N} {q : Packet} (h : queued.content = q.content) :
    net.travelTime r node queued = net.travelTime r node q := by
  unfold travelTime
  rw [calculateTransmissionTime_congr _ (bitLength_of_content h)]

theorem travelTime_next (hroute : net.Consistent r) (huses : r.uses p)
    (hlocal : net.isLocalAddress (net.networkInterface p).peer r.destination = false) :
    net.travelTime r (net.networkInterface p).node packet =
      (net.networkInterface p).linkDelay +
        (net.computer (net.networkInterface p).node).calculateTransmissionTime packet +
        net.travelTime r (net.networkInterface p).peer packet := by
  obtain ⟨hhops, hdelay⟩ := hroute.next p huses hlocal
  unfold travelTime
  rw [calculateTransmissionTime_node net (net.networkInterface p).peer
    (net.networkInterface p).node, hhops, hdelay]
  push_cast
  ring

theorem one_le_hops (hroute : net.Consistent r) (huses : r.uses p) :
    1 ≤ r.hops (net.networkInterface p).node := by
  cases hlocal : net.isLocalAddress (net.networkInterface p).peer r.destination with
  | true => exact (hroute.last p huses hlocal).1.ge
  | false =>
      rw [(hroute.next p huses hlocal).1]
      omega

/-- The row of the destination knows the travel time. -/
theorem remainingDelay_eq (hroute : net.Consistent r) (huses : r.uses p) {row : DbfFibEntry}
    (hrow : (net.computer (net.networkInterface p).node).dbfFIB.lookup r.destination = some row)
    (packet : Packet) :
    remainingDelay row
      ((net.computer (net.networkInterface p).node).calculateTransmissionTime packet) =
      net.travelTime r (net.networkInterface p).node packet ∧
    row.hops.toUInt32.toNat = r.hops (net.networkInterface p).node := by
  obtain ⟨row', hrow', hhops, hdelay⟩ := hroute.destination p huses
  cases hrow.symm.trans hrow'
  obtain ⟨count, hcount⟩ := Nat.exists_eq_add_of_le' (one_le_hops hroute huses)
  rw [hcount] at hhops ⊢
  have hnat : row.hops.toUInt32.toNat = count + 1 := hops_toUInt32 (by exact_mod_cast hhops)
  refine ⟨?_, hnat⟩
  unfold remainingDelay travelTime
  rw [hnat, hdelay, hcount, add_comm]

/-! ## The decision -/

/-- **What `sendPacketToNIC` does** with a packet of the flow, if it does not fail. -/
theorem sendPacketToNIC_flow (hroute : net.Consistent r) (huses : r.uses p)
    (hlawful : packet.Lawful) (hin : packet.InFlow r) (htag : packet.tag = some tag)
    (hoption : packet.dbfOption = some option) {result : Option Packet}
    (hsend : DBFIpv4.sendPacketToNIC (net.computer (net.networkInterface p).node) packet =
      .ok result) :
    (result = none ↔ option.dMax ≠ 0 ∧ option.dMax <
      experienced tag option (net.sourceRow (net.networkInterface p).node packet)
        ((net.computer (net.networkInterface p).node).calculateTransmissionTime packet) +
      net.travelTime r (net.networkInterface p).node packet) ∧
    ∀ queued, result = some queued → ∃ tag', queued.tag = some tag' ∧
      tag'.dMax = option.dMax ∧ tag'.eDelay =
        experienced tag option (net.sourceRow (net.networkInterface p).node packet)
          ((net.computer (net.networkInterface p).node).calculateTransmissionTime packet) := by
  rw [sendPacketToNIC_tagged htag] at hsend
  rcases @processDBFPacket_spec (net.computer (net.networkInterface p).node) _ _ _ htag hoption
    with ⟨header, source, destination, processed, hprocess, hprocessed⟩ | ⟨_, herror, _⟩
  · obtain ⟨header', hheader', _, hdestination⟩ := exists_header_of_inFlow hin
    cases hprocessed.ipv4Header.symm.trans hheader'
    have hsource : net.sourceRow (net.networkInterface p).node packet = source := by
      simp [sourceRow, hprocessed.ipv4Header, hprocessed.sourceRow]
    have hdead := (window_of_processed (hlawful.accepted option hoption) htag hoption
      hprocessed).1
    have htoDelay : toDelay (net.computer (net.networkInterface p).node) packet destination =
        net.travelTime r (net.networkInterface p).node packet :=
      (remainingDelay_eq hroute huses (hdestination ▸ hprocessed.destinationRow) packet).1
    rw [htoDelay, ← experienced_eq, ← hsource] at hdead
    rw [hprocess, Except.map, Except.ok.injEq] at hsend
    subst hsend
    refine ⟨?_, fun queued hqueued => ?_⟩
    · rw [← hdead]
      simp
    · split at hqueued
      · cases hqueued
      · cases hqueued
        exact ⟨_, hprocessed.queuedTag, rfl, hsource ▸ rfl⟩
  · simp [herror, Except.map] at hsend

/-! ## The invariant -/

/-- Behind the sender, what is left of the upper bound covers the travel time. -/
structure Admitted (net : Network N P) (r : FlowRoute N P) (s : NetworkState N P) : Prop where
  inside : ∀ x ∈ s.inside, x.2.InFlow r → ∀ tag option, x.2.tag = some tag →
    x.2.dbfOption = some option →
    (tag.fromNetwork = false → option.eDelay = 0) ∧
    (tag.fromNetwork = true → option.dMax ≠ 0 →
      experienced tag option (net.sourceRow x.1 x.2)
        ((net.computer x.1).calculateTransmissionTime x.2) + net.travelTime r x.1 x.2 ≤
        option.dMax)
  queued : ∀ p q, ∀ packet ∈ (s.egress p).queues q, packet.InFlow r →
    ∀ tag, packet.tag = some tag → tag.dMax ≠ 0 →
      tag.eDelay + net.travelTime r (net.networkInterface p).node packet ≤ tag.dMax
  links : ∀ frame ∈ s.links, frame.packet.InFlow r →
    ∀ option, frame.packet.dbfOption = some option → option.dMax ≠ 0 →
      option.eDelay + net.travelTime r (net.networkInterface frame.port).node frame.packet ≤
        option.dMax

theorem admitted_initial (net : Network N P) (r : FlowRoute N P) :
    net.Admitted r net.initial := by
  constructor <;> simp [Network.initial, Egress.initial]

variable {s s' : NetworkState N P} {event : NetworkEvent N P}

/-- **A queue** sends in time for the rest of the route. -/
theorem admitted_sent (hroute : net.Consistent r) (hqueued : net.QueuedAt r p stored)
    (hmatch : stored.tag.isSome = stored.dbfOption.isSome) (hin : stored.InFlow r)
    (hadmitted : ∀ tag, stored.tag = some tag → tag.dMax ≠ 0 →
      tag.eDelay + net.travelTime r (net.networkInterface p).node stored ≤ tag.dMax)
    {collectionIdx : Nat} (hwindow : InWindow ⟨t, collectionIdx, stored, out⟩)
    (hwrite : writeEDelay t stored = some out) (hoption : out.dbfOption = some option)
    (hfinite : option.dMax ≠ 0) :
    option.eDelay + net.travelTime r (net.networkInterface p).node out ≤ option.dMax := by
  obtain ⟨out', hok, hcontent, _, huntagged, hmarked⟩ := writeEDelay_spec t hmatch
  cases hok.symm.trans hwrite
  cases htag : stored.tag with
  | none =>
      rw [htag, Option.isSome_none, eq_comm, Option.isSome_eq_false_iff,
        Option.isNone_iff_eq_none] at hmatch
      rw [huntagged htag, hmatch] at hoption
      cases hoption
  | some tag =>
      rw [htag, Option.isSome_some, eq_comm, Option.isSome_iff_exists] at hmatch
      obtain ⟨option', hoption'⟩ := hmatch
      cases (hmarked tag option' htag hoption').symm.trans hoption
      obtain ⟨_, hmax⟩ := hqueued.bounds tag option' htag hoption'
      have hfinite : tag.dMax ≠ 0 := fun h => hfinite (hmax.symm.trans h)
      have huses := hqueued.uses hin
      have hbefore := hadmitted tag htag hfinite
      obtain ⟨row, hrow, _, htMax⟩ := hqueued.window hin tag htag
      obtain ⟨hremaining, hhops⟩ := remainingDelay_eq hroute huses hrow stored
      have hunexpired := (hwindow tag htag).2 hfinite
      rw [htMax, localBudget, if_neg hfinite, hremaining, hhops] at hunexpired
      have hbudget : 0 ≤ tag.dMax - net.travelTime r (net.networkInterface p).node stored -
          tag.eDelay := by linarith
      have hshare : (tag.dMax - net.travelTime r (net.networkInterface p).node stored -
          tag.eDelay) / (r.hops (net.networkInterface p).node : ℚ) ≤
          tag.dMax - net.travelTime r (net.networkInterface p).node stored - tag.eDelay :=
        div_le_self hbudget (by exact_mod_cast one_le_hops hroute huses)
      rw [travelTime_congr hcontent]
      simp only [] at hunexpired ⊢
      linarith

/-- **The network layer** pushes only what has enough time left. -/
theorem admitted_pushed (hroute : net.Consistent r)
    (huses : packet.InFlow r → r.uses p) (hlawful : packet.Lawful)
    (hsend : DBFIpv4.sendPacketToNIC (net.computer (net.networkInterface p).node) packet =
      .ok (some queued)) (hcontent : queued.content = packet.content) (hin : queued.InFlow r)
    (tag' : DBFHeaderTag) (htag' : queued.tag = some tag') (hfinite : tag'.dMax ≠ 0) :
    tag'.eDelay + net.travelTime r (net.networkInterface p).node queued ≤ tag'.dMax := by
  have hin : packet.InFlow r := (inFlow_of_content hcontent).mp hin
  cases htag : packet.tag with
  | none =>
      rw [sendPacketToNIC_untagged htag] at hsend
      cases hsend
      cases htag.symm.trans htag'
  | some tag =>
      obtain ⟨option, hoption⟩ := hlawful.exists_option htag
      obtain ⟨hdecision, hqueued⟩ :=
        sendPacketToNIC_flow hroute (huses hin) hlawful hin htag hoption hsend
      obtain ⟨tag'', htag'', hmax, heDelay⟩ := hqueued queued rfl
      cases htag''.symm.trans htag'
      rw [travelTime_congr hcontent, hmax, heDelay]
      by_contra hlate
      exact (nomatch hdecision.mpr ⟨fun h => hfinite (hmax.trans h), not_le.mp hlate⟩)

/-- **The ingress** counts the link, and the rest of the route is shorter by it. -/
theorem admitted_received (hroute : net.Consistent r) (huses : r.uses p)
    (hlocal : net.isLocalAddress (net.networkInterface p).peer r.destination = false)
    {received : Packet} (hcontent : received.content = packet.content) (hin : received.InFlow r)
    (hnetwork : tag.fromNetwork = true)
    (hbefore : option.eDelay + net.travelTime r (net.networkInterface p).node packet ≤
      option.dMax) :
    experienced tag option (net.sourceRow (net.networkInterface p).peer received)
      ((net.computer (net.networkInterface p).peer).calculateTransmissionTime received) +
      net.travelTime r (net.networkInterface p).peer received ≤ option.dMax := by
  rw [travelTime_next hroute huses hlocal] at hbefore
  rw [travelTime_congr hcontent, experienced, if_pos hnetwork,
    sourceRow_link hroute huses hlocal hin,
    calculateTransmissionTime_node net (net.networkInterface p).peer
      (net.networkInterface p).node,
    calculateTransmissionTime_congr _ (bitLength_of_content hcontent)]
  linarith

variable [DecidableEq N] [DecidableEq P]

theorem Admitted.step (hroute : net.Consistent r) (hsound : net.Sound s)
    (hflowing : net.Flowing r s) (h : net.Admitted r s) (hrouted : RoutedOver r event)
    (heffect : NetworkEffect net s event s') : net.Admitted r s' := by
  have hcarried := Carried.step hsound ⟨h.inside, h.queued, h.links⟩ heffect
    (I := fun node packet => packet.InFlow r → ∀ tag option, packet.tag = some tag →
      packet.dbfOption = some option → (tag.fromNetwork = false → option.eDelay = 0) ∧
      (tag.fromNetwork = true → option.dMax ≠ 0 →
        experienced tag option (net.sourceRow node packet)
          ((net.computer node).calculateTransmissionTime packet) +
          net.travelTime r node packet ≤ option.dMax)) ?_ ?_ ?_ ?_
  · exact ⟨hcarried.inside, hcarried.queued, hcarried.links⟩
  · intro t node datagram packet _ hfresh hpacket _ tag option htag hoption
    obtain ⟨packet', hok, _, hbestEffort, hmarked⟩ := encapsulate_spec (net.computer node) t hfresh
    cases hok.symm.trans hpacket
    cases hmode : (net.computer node).isBEMode with
    | true => cases (hbestEffort hmode).1.symm.trans htag
    | false =>
        cases (hmarked hmode).1.symm.trans htag
        cases (hmarked hmode).2.symm.trans hoption
        exact ⟨fun _ => rfl, fun hnetwork => (nomatch hnetwork)⟩
  · intro t p packet queued id hevent hmem hsend hcontent
    have hnew := admitted_pushed hroute (hrouted t p packet hevent) (hsound.inside _ hmem).1
      hsend hcontent
    exact hnew
  · intro t p q collectionIdx stored out hmem hmatch hwrite hcontent hwindow hin option hoption
      hfinite
    have hin : stored.InFlow r := (inFlow_of_content hcontent).mp hin
    exact admitted_sent hroute (hflowing.queued p q _ hmem) hmatch hin (h.queued p q _ hmem hin)
      hwindow hwrite hoption hfinite
  · intro frame received hframe hreceived hcontent hlocal hin tag option htag hoption
    have huntagged := (hsound.links frame hframe).1
    obtain ⟨received', hok, _, hoption', htag'⟩ := ingress_spec frame.arrival huntagged
    cases hok.symm.trans hreceived
    have hoption := hoption'.symm.trans hoption
    rw [hoption, Option.isSome_some, if_pos rfl] at htag'
    cases htag'.symm.trans htag
    have hframeIn := (inFlow_of_content hcontent).mp hin
    have hlocal := (isLocal_received huntagged hreceived hframeIn).symm.trans hlocal
    exact ⟨fun hnot => (nomatch hnot), fun _ hfinite => admitted_received hroute
      (hflowing.links frame hframe hframeIn).1 hlocal hcontent hin rfl
      (h.links frame hframe hframeIn option hoption hfinite)⟩

/-! ## Over runs -/

theorem run_admitted {history : List (Transition (NetworkState N P) (NetworkEvent N P))}
    (hroute : net.Consistent r) (hrun : net.NetworkRun history s)
    (hrouted : ∀ x ∈ history, RoutedOver r x.event) :
    (net.Sound s ∧ net.Flowing r s ∧ net.Admitted r s) ∧
      ∀ x ∈ history, net.Sound x.pre ∧ net.Flowing r x.pre ∧ net.Admitted r x.pre := by
  have hinv := hrun.conditional (C := fun _ event => RoutedOver r event)
    (I := fun s => net.Sound s ∧ net.Flowing r s ∧ net.Admitted r s)
    ⟨sound_initial net, flowing_initial net r, admitted_initial net r⟩
    (fun _ _ _ ⟨hsound, hflowing, hadmitted⟩ hrouted hstep =>
      have heffect := hsound.effect hstep
      ⟨hsound.step hstep, hflowing.step hroute hsound hrouted heffect,
        hadmitted.step hroute hsound hflowing hrouted heffect⟩) hrouted
  exact ⟨hinv.1, fun x hx => (hinv.2 x hx).1⟩

/-- **Admission is decided at the sender.**  In every run in which a flow keeps to a
    consistent route, and whatever shares it, `sendPacketToNIC` deletes a packet of the flow
    exactly if it was encapsulated at this node and its upper bound is less than the travel
    time of the route: no router deletes what a sender has let through, however long it has
    waited, and the load of the network does not matter. -/
theorem refused_iff (net : Network N P) (r : FlowRoute N P)
    (history : List (Transition (NetworkState N P) (NetworkEvent N P))) (s : NetworkState N P)
    (hroute : net.Consistent r) (hrun : net.NetworkRun history s)
    (hrouted : ∀ x ∈ history, RoutedOver r x.event) :
    ∀ x ∈ history, ∀ t p packet, x.event = .sendPacketToNIC t p packet → packet.InFlow r →
      (x.post.log.refused =
          x.pre.log.refused ++ [((net.networkInterface p).node, t, packet)] ↔
        ∃ tag option, packet.tag = some tag ∧ packet.dbfOption = some option ∧
          tag.fromNetwork = false ∧ option.dMax ≠ 0 ∧
          option.dMax < net.travelTime r (net.networkInterface p).node packet) := by
  rintro ⟨pre, event, post⟩ hx t p packet hevent hin
  obtain ⟨hsound, _, hadmitted⟩ := (run_admitted hroute hrun hrouted).2 _ hx
  have heffect : NetworkEffect net pre event post := hsound.effect (hrun.step_of_mem _ hx)
  have huses := hrouted _ hx
  simp only at hevent huses hsound hadmitted ⊢
  subst hevent
  -- a tagged packet is decided by its experienced delay, which is zero at the sender
  have hdecided : ∀ result, DBFIpv4.sendPacketToNIC
      (net.computer (net.networkInterface p).node) packet = .ok result →
      ((net.networkInterface p).node, packet) ∈ pre.inside →
      (result = none ↔ ∃ tag option, packet.tag = some tag ∧ packet.dbfOption = some option ∧
        tag.fromNetwork = false ∧ option.dMax ≠ 0 ∧
        option.dMax < net.travelTime r (net.networkInterface p).node packet) := by
    intro result hsend hmem
    have hlawful := (hsound.inside _ hmem).1
    cases htag : packet.tag with
    | none =>
        rw [sendPacketToNIC_untagged htag] at hsend
        cases hsend
        simp
    | some tag =>
        obtain ⟨option, hoption⟩ := hlawful.exists_option htag
        obtain ⟨hfresh, hnetwork⟩ := hadmitted.inside _ hmem hin tag option htag hoption
        rw [(sendPacketToNIC_flow hroute (huses t p packet rfl hin) hlawful hin htag hoption
          hsend).1]
        constructor
        · rintro ⟨hfinite, hlate⟩
          have hsender : tag.fromNetwork = false := by
            by_contra hforwarded
            exact absurd (hnetwork (Bool.eq_true_of_not_eq_false hforwarded) hfinite)
              (not_le.mpr hlate)
          simp only [experienced, hsender, Bool.false_eq_true, if_false, hfresh hsender,
            zero_add] at hlate
          exact ⟨tag, option, rfl, hoption, hsender, hfinite, hlate⟩
        · rintro ⟨tag', option', htag', hoption', hsender, hfinite, hlate⟩
          cases htag'
          cases hoption.symm.trans hoption'
          simp only [experienced, hsender, Bool.false_eq_true, if_false, hfresh hsender, zero_add]
          exact ⟨hfinite, hlate⟩
  cases heffect with
  | refuse hmem hsend => exact iff_of_true rfl ((hdecided none hsend hmem).mp rfl)
  | push hmem hsend hqueued hcontent hstep =>
      refine iff_of_false (by simp) fun hrefused => ?_
      cases (hdecided _ hsend hmem).mpr hrefused

/-! A datagram whose transmissions over the two links take more than eight seconds, and the
datagram whose journey leaves enough time: the router passes it on after two seconds. -/

def sampleLong (tag : Option DBFHeaderTag) (options : List TlvOption) : Packet :=
  { bitLength := 5000,
    ipv4Header := some { srcAddress := 1, destAddress := 2, options := options }, tag := tag }

theorem sampleJourney_inTime (t : SimTime) (p : Fin 2) (packet : Packet)
    (h : NetworkEvent.sendPacketToNIC t p packet ∈ sampleJourney) (option : DBFIpv4Option)
    (hoption : packet.dbfOption = some option) :
    sampleNetwork.travelTime sampleRoute (sampleNetwork.networkInterface p).node packet ≤
      option.dMax := by
  have hinTime : sampleJourney.all (fun event => match event with
      | .sendPacketToNIC _ p packet => packet.dbfOption.all fun option =>
          decide (sampleNetwork.travelTime sampleRoute (sampleNetwork.networkInterface p).node
            packet ≤ option.dMax)
      | _ => true) = true := by decide +kernel
  have hevent := List.all_eq_true.mp hinTime _ h
  simp only [hoption, Option.all_some, decide_eq_true_eq] at hevent
  exact hevent

theorem refused_iff_sample :
    (∃ history s, sampleNetwork.NetworkRun history s ∧
      ∃ x ∈ history, ∃ packet, x.post.log.refused = x.pre.log.refused ++ [(0, 0, packet)]) ∧
    ∃ history s, sampleNetwork.NetworkRun history s ∧ s.log.delivered.length = 1 ∧
      ∀ x ∈ history, ∀ t p packet, x.event = .sendPacketToNIC t p packet →
        packet.InFlow sampleRoute → x.post.log.refused ≠
          x.pre.log.refused ++ [((sampleNetwork.networkInterface p).node, t, packet)] := by
  constructor
  · obtain ⟨history, s, hrun, hevents, _⟩ := Run.exists_of_replay sampleNetwork.step_of_next
      (show (replay sampleNetwork.next sampleNetwork.initial
        [.encapsulate 0 0 (sampleLong none []), .sendPacketToNIC 0 0
          (sampleLong (some { tRcv := 0, fromNetwork := false })
            [.dbf { dMin := 6, dMax := 10 }])]).any (fun _ => true) = true by decide +kernel)
    have hmem : NetworkEvent.sendPacketToNIC 0 0 (sampleLong
        (some { tRcv := 0, fromNetwork := false }) [.dbf { dMin := 6, dMax := 10 }]) ∈
        history.map Transition.event := by
      rw [hevents]
      simp
    obtain ⟨x, hx, hevent⟩ := List.mem_map.mp hmem
    exact ⟨history, s, hrun, x, hx, _, (refused_iff sampleNetwork sampleRoute history s
      sampleRoute_consistent hrun (fun _ _ _ _ _ _ _ => trivial) x hx 0 0 _ hevent rfl).mpr
      ⟨_, _, rfl, rfl, rfl, by decide +kernel, by decide +kernel⟩⟩
  · obtain ⟨history, s, hrun, hevents, hdelivered⟩ :=
      Run.exists_of_replay sampleNetwork.step_of_next
        (show (replay sampleNetwork.next sampleNetwork.initial sampleJourney).any
          (fun s => s.log.delivered.length == 1) = true by decide +kernel)
    refine ⟨history, s, hrun, by simpa using hdelivered, fun x hx t p packet hevent hin hrefused =>
      ?_⟩
    have hmem : NetworkEvent.sendPacketToNIC t p packet ∈ sampleJourney := by
      rw [← hevents, ← hevent]
      exact List.mem_map_of_mem hx
    obtain ⟨_, option, _, hoption, _, _, hlate⟩ := (refused_iff sampleNetwork sampleRoute history s
      sampleRoute_consistent hrun (fun _ _ _ _ _ _ _ => trivial) x hx t p packet hevent hin).mp
      hrefused
    exact absurd hlate (not_lt.mpr (sampleJourney_inTime t p packet hmem option hoption))

end Network

end DelayBasedForwarding
