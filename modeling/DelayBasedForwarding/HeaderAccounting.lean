import DelayBasedForwarding.PathGuarantee
import DelayBasedForwarding.Egress

/-!
# The header along a path

At every node the option is taken out of the header and put back twice, once by
`processDBFPacket` and once by the scheduler that sends the packet, and the
experienced delay travels between them in the tag.  A packet is followed here
over a path of nodes, each with its computer and its scheduler.  What a node finds
is always the header of the sender with one option more, so each node only has to
account for its own time and that of the link before it.
-/

namespace DelayBasedForwarding

/-! ## What a scheduler sends -/

/-- The handler of a scheduler takes `queued` from a queue at `simTime` and sends
    it as `sent`. -/
def Transmits (scheduler : Scheduler) (simTime : SimTime) (queued sent : Packet) : Prop :=
  ∃ s s' msg collectionIdx, s.now = simTime ∧ scheduler.handleMessage s msg = .ok s' ∧
    s'.log.sent = s.log.sent ++ [⟨simTime, collectionIdx, queued, sent⟩]

section

variable {s s' : Egress} {msg : DBFPriorityScheduleMsg} {collectionIdx : Nat}
  {packet : Packet} {collection : QueueId}

/-- A step of a handler that sends nothing, or one packet with its option updated. -/
def TransmitsOne (s s' : Egress) : Prop :=
  s'.log.sent = s.log.sent ∨ ∃ collectionIdx queued sent, writeEDelay s.now queued = some sent ∧
    s'.log.sent = s.log.sent ++ [⟨s.now, collectionIdx, queued, sent⟩]

theorem sendPacket_transmitsOne (h : s.sendPacket collectionIdx packet = .ok s') :
    TransmitsOne s s' := by
  unfold Egress.sendPacket at h
  cases hwrite : writeEDelay s.now packet with
  | none => simp [hwrite] at h
  | some sent =>
      simp only [hwrite] at h
      split at h
      · cases h
        exact .inr ⟨collectionIdx, packet, sent, hwrite, rfl⟩
      · cases h

theorem popPacket_frame (h : s.popPacket collectionIdx = .ok (packet, s')) :
    s'.now = s.now ∧ s'.log = s.log := by
  unfold Egress.popPacket at h
  cases hcollection : s.registry.collections[collectionIdx]? with
  | none => simp [hcollection] at h
  | some collection =>
      cases hqueue : s.queues collection with
      | nil => simp [hcollection, hqueue] at h
      | cons front rest =>
          simp only [hcollection, hqueue, Except.ok.injEq, Prod.mk.injEq] at h
          rw [← h.2]
          exact ⟨rfl, rfl⟩

theorem removePacket_frame (h : s.removePacket collection packet = .ok s') :
    s'.now = s.now ∧ s'.log = s.log := by
  unfold Egress.removePacket at h
  split at h
  · cases h
    exact ⟨rfl, rfl⟩
  · cases h

theorem static_handleMessage_transmitsOne (h : DBFPriorityScheduler.handleMessage s msg = .ok s') :
    TransmitsOne s s' := by
  unfold DBFPriorityScheduler.handleMessage at h
  cases hself : s.timer.selfMsg with
  | none =>
      simp only [hself, Except.ok.injEq] at h
      rw [← h]
      exact .inl rfl
  | some selfMsg =>
      simp only [hself] at h
      split at h
      · cases hpop : Egress.popPacket { s with timer := { s.timer with selfMsg := none } }
            selfMsg.collectionIdx with
        | error error => simp [hpop, bind, Except.bind] at h
        | ok result =>
            obtain ⟨queued, t⟩ := result
            simp only [hpop, bind, Except.bind] at h
            obtain ⟨hnow, hlog⟩ := popPacket_frame hpop
            have hsends := sendPacket_transmitsOne h
            unfold TransmitsOne at hsends ⊢
            rwa [hnow, hlog] at hsends
      · cases h
        exact .inl rfl

theorem dynamic_handleMessage_transmitsOne
    (h : DBFDynamicPriorityScheduler.handleMessage s msg = .ok s') : TransmitsOne s s' := by
  unfold DBFDynamicPriorityScheduler.handleMessage at h
  cases hself : s.timer.selfMsg with
  | none =>
      simp only [hself, Except.ok.injEq] at h
      rw [← h]
      exact .inl rfl
  | some selfMsg =>
      simp only [hself] at h
      split at h
      · split at h
        · cases h
        · cases h
        · next collection scheduledPacket _ _ =>
            cases hremove : Egress.removePacket { s with
                timer := { s.timer with scheduledPacket := none, selfMsg := none } }
                collection scheduledPacket with
            | error error => simp [hremove, bind, Except.bind] at h
            | ok t =>
                simp only [hremove, bind, Except.bind] at h
                obtain ⟨hnow, hlog⟩ := removePacket_frame hremove
                have hsends := sendPacket_transmitsOne h
                unfold TransmitsOne at hsends ⊢
                rwa [hnow, hlog] at hsends
      · cases h
        exact .inl rfl

/-- An idle egress with one packet, the timer for it about to fire. -/
def Egress.armed (simTime : SimTime) (packet : Packet) : Egress :=
  { Egress.initial 1 with
    now := simTime, queues := fun _ => [packet], txIdleCounter := 1,
    timer := { selfMsg := some { id := 0, collectionIdx := 0 }, scheduledPacket := some packet } }

/-- Both schedulers send what `writeEDelay` makes of the queued packet. -/
theorem transmits_iff {scheduler : Scheduler} {simTime : SimTime} {queued sent : Packet}
    (hscheduler : scheduler = dbfPriorityScheduler ∨ scheduler = dbfDynamicPriorityScheduler) :
    Transmits scheduler simTime queued sent ↔ writeEDelay simTime queued = some sent := by
  constructor
  · rintro ⟨s, s', msg, collectionIdx, rfl, hhandle, hsent⟩
    have hone : TransmitsOne s s' := by
      rcases hscheduler with rfl | rfl
      · exact static_handleMessage_transmitsOne hhandle
      · exact dynamic_handleMessage_transmitsOne hhandle
    rcases hone with hnone | ⟨_, q, out, hwrite, hlog⟩
    · rw [hnone] at hsent
      simpa using congrArg List.length hsent
    · rw [hlog] at hsent
      have := List.append_cancel_left hsent
      simp only [List.cons.injEq, SentPacket.mk.injEq, and_true] at this
      obtain ⟨_, _, rfl, rfl⟩ := this
      exact hwrite
  · intro hwrite
    have hfires : ∃ s', scheduler.handleMessage (Egress.armed simTime queued) ⟨0, 0⟩ = .ok s' ∧
        s'.log.sent = [⟨simTime, 0, queued, sent⟩] := by
      rcases hscheduler with rfl | rfl
      · simp [dbfPriorityScheduler, DBFPriorityScheduler.handleMessage, Egress.popPacket,
          Egress.armed, Egress.initial, Registry.prebuilt, Egress.setQueue, Egress.sendPacket,
          hwrite, bind, Except.bind]
      · simp [dbfDynamicPriorityScheduler, DBFDynamicPriorityScheduler.handleMessage,
          Egress.removePacket, Egress.armed, Egress.initial, Registry.prebuilt, Egress.setQueue,
          Egress.sendPacket, hwrite, bind, Except.bind]
    obtain ⟨s', hhandle, hsent⟩ := hfires
    exact ⟨Egress.armed simTime queued, s', ⟨0, 0⟩, 0, rfl, hhandle, hsent⟩

end

/-! ## A packet on its way -/

structure Departure where
  time : SimTime
  sent : Packet

/-- A packet that enters a path: its departures so far, in their order, and what it is
    now.  In the queue of an egress it is a new object. -/
inductive Journey : Packet → List (PathNode × Scheduler) → List Departure → Packet → Prop where
  | enters (packet : Packet) (path : List (PathNode × Scheduler)) : Journey packet path [] packet
  | queues {node : PathNode} {scheduler : Scheduler} {rest : List (PathNode × Scheduler)}
      {packet queued : Packet} {id : Nat} :
      node.admission packet = .ok queued →
      Journey packet ((node, scheduler) :: rest) [] { queued with id := id }
  | leaves {node : PathNode} {scheduler : Scheduler} {rest : List (PathNode × Scheduler)}
      {packet queued sent : Packet} {id : Nat} :
      node.admission packet = .ok queued →
      Transmits scheduler node.depart { queued with id := id } sent →
      Journey packet ((node, scheduler) :: rest) [⟨node.depart, sent⟩] sent
  | arrives {node : PathNode} {scheduler : Scheduler} {rest : List (PathNode × Scheduler)}
      {packet queued sent received now : Packet} {id : Nat} {departures : List Departure} :
      node.admission packet = .ok queued →
      Transmits scheduler node.depart { queued with id := id } sent →
      IngressForwarder.handleMessage (node.arrivalTime queued) sent = .ok received →
      Journey received rest departures now →
      Journey packet ((node, scheduler) :: rest) (⟨node.depart, sent⟩ :: departures) now

/-- At each node but the first, the row of the source and the node's own transmission
    time make up the time the packet spent on the link before it. -/
def AccurateLinks (src : Ipv4Address) (datagram : Packet) :
    Option SimTime → List (PathNode × Scheduler) → Prop
  | _, [] => True
  | incoming, (node, _) :: rest =>
      (∀ time source, incoming = some time → node.computer.dbfFIB.lookup src = some source →
        source.lDelay + node.computer.calculateTransmissionTime datagram = time) ∧
      AccurateLinks src datagram (some (node.arrivalTime datagram - node.depart)) rest

/-- The option of a sender, with an experienced delay. -/
def sloOption (sender : DBFComputer) (eDelay : SimTime) : DBFIpv4Option :=
  { dMin := sender.dMin, dMax := sender.dMax, admitBit := sender.admitBit, eDelay := eDelay }

/-- The datagram with one option more. -/
structure Marked (sender : DBFComputer) (datagram : Packet) (header : Ipv4Header)
    (eDelay : SimTime) (packet : Packet) : Prop where
  header : packet.ipv4Header = some (header.addOption (.dbf (sloOption sender eDelay)))
  payload : packet.payload = datagram.payload
  bitLength : packet.bitLength = datagram.bitLength

section

variable {sender : DBFComputer} {datagram packet queued sent received now : Packet}
  {header : Ipv4Header} {node : PathNode} {tRcv eDelay : SimTime} {fromNetwork : Bool} {id : Nat}

theorem admission_tagged (htag : packet.tag.isSome) (h : node.admission packet = .ok queued) :
    node.computer.processDBFPacket packet = .ok queued := by
  unfold PathNode.admission DBFIpv4.sendPacketToNIC at h
  rw [if_pos htag] at h
  cases hprocess : node.computer.processDBFPacket packet with
  | error error => simp [hprocess, bind, Except.bind] at h
  | ok processed =>
      by_cases hdead : DBFComputer.isAlreadyExpired processed = true <;>
        simp [hprocess, hdead, bind, Except.bind, pure, Except.pure] at h
      rw [h]

/-- The network layer and the egress of one node add the link and the waiting time. -/
theorem marked_sent (hfresh : header.findOptionByType DBFPARAMETERS = none)
    (h : Marked sender datagram header eDelay packet)
    (htag : packet.tag = some { tRcv := tRcv, fromNetwork := fromNetwork })
    (hadmission : node.admission packet = .ok queued)
    (hwrite : writeEDelay node.depart { queued with id := id } = some sent) :
    queued.bitLength = datagram.bitLength ∧ sent.tag = none ∧
      ∃ source, node.computer.dbfFIB.lookup header.srcAddress = some source ∧
        Marked sender datagram header
          (eDelay + (if fromNetwork then
            source.lDelay + node.computer.calculateTransmissionTime datagram else 0) +
            node.depart - tRcv) sent := by
  have hoption := getMutableDBFIpv4Option_addOption hfresh (sloOption sender eDelay)
  have hprocess := admission_tagged (by simp [htag]) hadmission
  obtain ⟨source, destination, hsource, hdestination, hhops⟩ :=
    DBFComputer.processDBFPacket_cases _ h.header hoption htag hprocess
  have hqueued := DBFComputer.processDBFPacket_ok _ h.header hoption htag hsource hdestination
    hhops
  cases hqueued.symm.trans hprocess
  rw [removeDBFIpv4Options_addOption, removeDBFIpv4Options_of_fresh hfresh] at hwrite
  simp only [writeEDelay, getMutableIpv4Header, updateDBFIpv4Header, bind, Option.bind,
    getMutableDBFIpv4Option_addOption hfresh, removeDBFIpv4Options_addOption,
    removeDBFIpv4Options_of_fresh hfresh, Option.some.injEq] at hwrite
  subst hwrite
  refine ⟨h.bitLength, rfl, source, hsource, ?_, h.payload, h.bitLength⟩
  have hbits := calculateTransmissionTime_congr node.computer h.bitLength
  cases fromNetwork <;>
    simp [DBFComputer.processedTag, DBFComputer.experienced, sloOption, hbits, add_assoc]

/-- The ingress of the next node only adds the tag. -/
theorem marked_received (hfresh : header.findOptionByType DBFPARAMETERS = none) {time : SimTime}
    (h : Marked sender datagram header eDelay sent) (htag : sent.tag = none)
    (hreceived : IngressForwarder.handleMessage time sent = .ok received) :
    Marked sender datagram header eDelay received ∧
      received.tag = some { tRcv := time, fromNetwork := true } := by
  have hcontains : IngressForwarder.containsDBFOptions sent = true := by
    simp [IngressForwarder.containsDBFOptions, h.header, getMutableDBFIpv4Option_addOption hfresh]
  simp only [IngressForwarder.handleMessage, h.header, Option.isSome_some, hcontains,
    IngressForwarder.attachTrcv, htag, Bool.and_self, if_true, Option.isSome_none,
    Bool.false_eq_true, if_false, Except.ok.injEq] at hreceived
  rw [← hreceived]
  exact ⟨⟨rfl, h.payload, h.bitLength⟩, rfl⟩

/-- What the egress of a node sends of a datagram of `sender`. -/
structure HeaderAccounted (sender : DBFComputer) (datagram : Packet) (header : Ipv4Header)
    (sent : Packet) (option : DBFIpv4Option) : Prop where
  written : sent.ipv4Header = some (header.addOption (.dbf option))
  one : ((header.addOption (.dbf option)).options.filter fun option =>
    option.type == DBFPARAMETERS) = [.dbf option]
  others : ((header.addOption (.dbf option)).options.filter fun option =>
    option.type != DBFPARAMETERS) = header.options
  dMin : option.dMin = sender.dMin
  dMax : option.dMax = sender.dMax
  admitBit : option.admitBit = sender.admitBit
  payload : sent.payload = datagram.payload
  bitLength : sent.bitLength = datagram.bitLength
  tag : sent.tag = none

theorem Marked.accounted (hfresh : header.findOptionByType DBFPARAMETERS = none)
    (h : Marked sender datagram header eDelay sent) (htag : sent.tag = none) :
    HeaderAccounted sender datagram header sent (sloOption sender eDelay) :=
  ⟨h.header, (options_addOption hfresh _).1, (options_addOption hfresh _).2, rfl, rfl, rfl,
    h.payload, h.bitLength, htag⟩

/-- If the link before the node is accounted for, its departure time minus the new
    experienced delay is again the time of encapsulation. -/
theorem eDelay_of_accurateLinks {incoming : Option SimTime} {source : DbfFibEntry}
    {scheduler : Scheduler} {rest : List (PathNode × Scheduler)} {src : Ipv4Address}
    {origin : SimTime} (hlinks : AccurateLinks src datagram incoming ((node, scheduler) :: rest))
    (hsource : node.computer.dbfFIB.lookup src = some source)
    (horigin : tRcv - eDelay - incoming.getD 0 = origin) :
    eDelay + (if incoming.isSome then
      source.lDelay + node.computer.calculateTransmissionTime datagram else 0) +
      node.depart - tRcv = node.depart - origin := by
  cases incoming with
  | none =>
      simp only [Option.getD_none] at horigin
      simp only [Option.isSome_none, Bool.false_eq_true, if_false]
      linarith
  | some time =>
      have htime := hlinks.1 time source rfl hsource
      simp only [Option.getD_some] at horigin
      simp only [Option.isSome_some, if_true]
      linarith

/-- From node to node, time of receipt minus experienced delay minus link time is
    the time of encapsulation. -/
theorem journey_marked (hfresh : header.findOptionByType DBFPARAMETERS = none)
    {path : List (PathNode × Scheduler)} {departures : List Departure}
    (hjourney : Journey packet path departures now) :
    ∀ {incoming : Option SimTime} {tRcv eDelay : SimTime},
      (∀ x ∈ path, x.2 = dbfPriorityScheduler ∨ x.2 = dbfDynamicPriorityScheduler) →
      Marked sender datagram header eDelay packet →
      packet.tag = some { tRcv := tRcv, fromNetwork := incoming.isSome } →
      ∀ d ∈ departures, ∃ option, HeaderAccounted sender datagram header d.sent option ∧
        ∀ origin, AccurateLinks header.srcAddress datagram incoming path →
          tRcv - eDelay - incoming.getD 0 = origin → option.eDelay = d.time - origin := by
  induction hjourney with
  | enters => simp
  | queues => simp
  | @leaves node scheduler rest packet queued sent id hadmission htransmits =>
      intro incoming tRcv eDelay hschedulers hmarked htag d hd
      have hwrite := (transmits_iff (hschedulers _ (.head _))).mp htransmits
      obtain ⟨_, hgone, source, hsource, hsent⟩ := marked_sent hfresh hmarked htag hadmission hwrite
      rw [List.mem_singleton] at hd
      subst hd
      refine ⟨_, hsent.accounted hfresh hgone, fun origin hlinks horigin => ?_⟩
      exact eDelay_of_accurateLinks hlinks hsource horigin
  | @arrives node scheduler rest packet queued sent received now id departures hadmission
      htransmits hreceived _ ih =>
      intro incoming tRcv eDelay hschedulers hmarked htag d hd
      have hwrite := (transmits_iff (hschedulers _ (.head _))).mp htransmits
      obtain ⟨hbits, hgone, source, hsource, hsent⟩ :=
        marked_sent hfresh hmarked htag hadmission hwrite
      rcases List.mem_cons.mp hd with rfl | hd
      · refine ⟨_, hsent.accounted hfresh hgone, fun origin hlinks horigin => ?_⟩
        exact eDelay_of_accurateLinks hlinks hsource horigin
      · have harrival : node.arrivalTime queued = node.arrivalTime datagram := by
          unfold PathNode.arrivalTime
          rw [calculateTransmissionTime_congr node.computer hbits]
        obtain ⟨hmarked', htag'⟩ := marked_received hfresh hsent hgone hreceived
        obtain ⟨option, haccounted, heDelay⟩ :=
          @ih (some (node.arrivalTime datagram - node.depart)) _ _
            (fun x hx => hschedulers x (.tail _ hx)) hmarked' htag' d hd
        refine ⟨option, haccounted, fun origin hlinks horigin => ?_⟩
        apply heDelay origin hlinks.2
        rw [eDelay_of_accurateLinks hlinks hsource horigin, harrival, Option.getD_some]
        ring

/-! ## Best-effort senders -/

theorem untagged_queued (htag : packet.tag = none) (h : node.admission packet = .ok queued) :
    queued = packet := by
  simp only [PathNode.admission, DBFIpv4.sendPacketToNIC, htag, Option.isSome_none,
    Bool.false_eq_true, if_false, pure, Except.pure, Except.ok.injEq] at h
  exact h.symm

theorem untagged_sent {scheduler : Scheduler} {time : SimTime}
    (hscheduler : scheduler = dbfPriorityScheduler ∨ scheduler = dbfDynamicPriorityScheduler)
    (htag : packet.tag = none)
    (htransmits : Transmits scheduler time { packet with id := id } sent) :
    sent = { packet with id := id } := by
  have hwrite := (transmits_iff hscheduler).mp htransmits
  have huntagged : writeEDelay time { packet with id := id } = some { packet with id := id } :=
    writeEDelay_untagged htag
  exact Option.some.inj (hwrite.symm.trans huntagged)

/-- The ingress leaves a packet without the option as it is. -/
theorem unmarked_received {time : SimTime}
    (hfresh : ∀ header, sent.ipv4Header = some header →
      header.findOptionByType DBFPARAMETERS = none)
    (hreceived : IngressForwarder.handleMessage time sent = .ok received) : received = sent := by
  have hcontains : IngressForwarder.containsDBFOptions sent = false := by
    unfold IngressForwarder.containsDBFOptions
    cases hheader : sent.ipv4Header with
    | none => rfl
    | some header => simp [getMutableDBFIpv4Option_of_fresh (hfresh header hheader)]
  simp only [IngressForwarder.handleMessage, hcontains, Bool.and_false, Bool.false_eq_true,
    if_false, Except.ok.injEq] at hreceived
  exact hreceived.symm

/-- A packet without option and tag stays the same up to its identity. -/
theorem journey_bestEffort {path : List (PathNode × Scheduler)} {departures : List Departure}
    (hjourney : Journey packet path departures now) :
    (∀ x ∈ path, x.2 = dbfPriorityScheduler ∨ x.2 = dbfDynamicPriorityScheduler) →
    packet.tag = none → (∀ header, packet.ipv4Header = some header →
      header.findOptionByType DBFPARAMETERS = none) →
    ∃ id, now = { packet with id := id } := by
  induction hjourney with
  | enters packet path => exact fun _ _ _ => ⟨packet.id, rfl⟩
  | @queues _ _ _ packet queued id hadmission =>
      intro _ htag _
      obtain rfl := untagged_queued htag hadmission
      exact ⟨id, rfl⟩
  | @leaves _ _ _ packet queued sent id hadmission htransmits =>
      intro hschedulers htag _
      obtain rfl := untagged_queued htag hadmission
      exact ⟨id, untagged_sent (hschedulers _ (.head _)) htag htransmits⟩
  | @arrives node scheduler rest packet queued sent received now id departures hadmission
      htransmits hreceived _ ih =>
      intro hschedulers htag hfresh
      obtain rfl := untagged_queued htag hadmission
      obtain rfl := untagged_sent (hschedulers _ (.head _)) htag htransmits
      have hsame : received = { queued with id := id } := unmarked_received hfresh hreceived
      subst hsame
      exact ih (fun x hx => hschedulers x (.tail _ hx)) htag hfresh

end

/-- **Header accounting.**  A datagram enters a path at its sender, and the nodes send it
    when they like.

    * Outside best-effort mode every node sends it with exactly one option, that of the
      sender with an experienced delay, and otherwise as it was encapsulated; with
      accurate links that delay is the time since `origin`.
    * In best-effort mode it stays the datagram it was, without option and tag. -/
theorem header_accounting (first : PathNode) (scheduler : Scheduler)
    (rest : List (PathNode × Scheduler)) (datagram packet now : Packet) (header : Ipv4Header)
    (origin : SimTime) (departures : List Departure)
    (hschedulers : ∀ x ∈ (first, scheduler) :: rest,
      x.2 = dbfPriorityScheduler ∨ x.2 = dbfDynamicPriorityScheduler)
    (hheader : datagram.ipv4Header = some header)
    (hfresh : header.findOptionByType DBFPARAMETERS = none) (htag : datagram.tag = none)
    (hencapsulate : DBFIpv4.encapsulate first.computer origin datagram = .ok packet)
    (hjourney : Journey packet ((first, scheduler) :: rest) departures now) :
    (first.computer.isBEMode = false → ∀ d ∈ departures,
      ∃ option, HeaderAccounted first.computer datagram header d.sent option ∧
        (AccurateLinks header.srcAddress datagram none ((first, scheduler) :: rest) →
          option.eDelay = d.time - origin)) ∧
    (first.computer.isBEMode = true →
      now.ipv4Header = some header ∧ now.payload = datagram.payload ∧ now.tag = none) := by
  constructor
  · intro hmode d hd
    have hmarked : Marked first.computer datagram header 0 packet ∧
        packet.tag = some { tRcv := origin, fromNetwork := false } := by
      simp only [DBFIpv4.encapsulate, hmode, htag, DBFComputer.addSLOParameters, hheader,
        Bool.false_eq_true, Option.isSome_none, if_false, Except.ok.injEq] at hencapsulate
      subst hencapsulate
      exact ⟨⟨rfl, rfl, rfl⟩, rfl⟩
    obtain ⟨option, haccounted, heDelay⟩ := @journey_marked _ _ _ _ _ hfresh _ _ hjourney none _ _
      hschedulers hmarked.1 hmarked.2 d hd
    exact ⟨option, haccounted, fun hlinks => heDelay origin hlinks (by simp)⟩
  · intro hmode
    simp only [DBFIpv4.encapsulate, hmode, if_true, Except.ok.injEq] at hencapsulate
    subst hencapsulate
    have hoptionless : ∀ header', datagram.ipv4Header = some header' →
        header'.findOptionByType DBFPARAMETERS = none := by
      intro header' hheader'
      obtain rfl := Option.some.inj (hheader.symm.trans hheader')
      exact hfresh
    obtain ⟨id, rfl⟩ := journey_bestEffort hjourney hschedulers htag hoptionless
    exact ⟨hheader, rfl, htag⟩

/-! ### The path of two nodes

Sent by a static and by a dynamic scheduler: three seconds in the sender's queue, two on
the link, three in the router's queue. -/

def sampleOnTheWay (eDelay : SimTime) (tag : Option DBFHeaderTag) : Packet :=
  { sampleDatagram with
    ipv4Header := some { srcAddress := 1, destAddress := 2,
                         options := [.dbf { dMin := 6, dMax := 10, eDelay := eDelay }] },
    tag := tag }

def sampleSenderTag : DBFHeaderTag :=
  { hDelay := 1, toDelay := 4, toHops := 2, dMin := 6, dMax := 10,
    lqBudgetMin := 1, lqBudgetMax := 3, tMin := 1, tMax := 3 }

def sampleRouterTag : DBFHeaderTag :=
  { lDelay := 1, hDelay := 1, fromDelay := 2, toDelay := 2, fromHops := 1, toHops := 1,
    tRcv := 5, eDelay := 5, dMin := 6, dMax := 10,
    lqBudgetMin := -1, lqBudgetMax := 3, tMin := 4, tMax := 8, fromNetwork := true }

theorem sample_accurateLinks : AccurateLinks 1 sampleDatagram none
    [(sampleSender, dbfPriorityScheduler), (sampleRouter, dbfDynamicPriorityScheduler)] := by
  refine ⟨fun _ _ h => (nomatch h), fun time source htime hsource => ?_, trivial⟩
  cases htime
  cases hsource
  decide +kernel

theorem header_accounting_sample :
    (∃ option, HeaderAccounted sampleSender.computer sampleDatagram
      { srcAddress := 1, destAddress := 2 } (sampleOnTheWay 3 none) option ∧
      option.eDelay = 3 - 0) ∧
    ∃ option, HeaderAccounted sampleSender.computer sampleDatagram
      { srcAddress := 1, destAddress := 2 } (sampleOnTheWay 8 none) option ∧
      option.eDelay = 8 - 0 := by
  have h := header_accounting sampleSender dbfPriorityScheduler
    [(sampleRouter, dbfDynamicPriorityScheduler)] sampleDatagram sampleEncapsulated
    (sampleOnTheWay 8 none) { srcAddress := 1, destAddress := 2 } 0
    [⟨3, sampleOnTheWay 3 none⟩, ⟨8, sampleOnTheWay 8 none⟩]
    (by simp) rfl rfl rfl rfl
    (@Journey.arrives _ _ _ _ (sampleOnTheWay 0 (some sampleSenderTag)) _
      (sampleOnTheWay 3 (some { tRcv := 5, fromNetwork := true })) _ 0 _ (by decide +kernel)
      ((transmits_iff (.inl rfl)).mpr (by decide +kernel)) (by decide +kernel)
      (@Journey.leaves _ _ _ _ (sampleOnTheWay 5 (some sampleRouterTag)) _ 0 (by decide +kernel)
        ((transmits_iff (.inr rfl)).mpr (by decide +kernel))))
  have hsent := h.1 (by decide +kernel)
  obtain ⟨first, hfirst, hfirstDelay⟩ := hsent ⟨3, sampleOnTheWay 3 none⟩ (by simp)
  obtain ⟨second, hsecond, hsecondDelay⟩ := hsent ⟨8, sampleOnTheWay 8 none⟩ (by simp)
  exact ⟨⟨first, hfirst, hfirstDelay sample_accurateLinks⟩,
    second, hsecond, hsecondDelay sample_accurateLinks⟩

end DelayBasedForwarding
