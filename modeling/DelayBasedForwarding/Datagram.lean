import DelayBasedForwarding.Network
import DelayBasedForwarding.HeaderAccounting

/-!
# The datagram inside a packet

Four functions touch a packet on its way through a network: `encapsulate` and
`sendPacketToNIC` of the network layer, the block that writes the experienced delay
back before a scheduler sends a packet, and the `IngressForwarder`.  For each of them
one lemma says what it does to the tag and to the option of the repository, and that
everything else about the packet, its `content`, stays.
-/

namespace DelayBasedForwarding

open DBFComputer

/-! ## Content and option -/

/-- The repository's option in the header, if it is there. -/
def Packet.dbfOption (packet : Packet) : Option DBFIpv4Option :=
  packet.ipv4Header.bind getMutableDBFIpv4Option

/-- All of a packet but its identity, its tag and the options of the repository. -/
def Packet.content (packet : Packet) : Packet :=
  { packet with id := 0, tag := none, ipv4Header := packet.ipv4Header.map removeDBFIpv4Options }

/-- Source and destination in the header. -/
def Packet.addresses (packet : Packet) : Option (Ipv4Address × Ipv4Address) :=
  packet.ipv4Header.map fun header => (header.srcAddress, header.destAddress)

variable {computer : DBFComputer} {packet queued received datagram sent p q : Packet}
  {header : Ipv4Header} {option : DBFIpv4Option} {tag : DBFHeaderTag} {t : SimTime}

theorem addresses_content : packet.content.addresses = packet.addresses := by
  unfold Packet.addresses Packet.content
  cases packet.ipv4Header <;> rfl

theorem addresses_of_content (h : p.content = q.content) : p.addresses = q.addresses := by
  rw [← addresses_content, h, addresses_content]

theorem bitLength_of_content (h : p.content = q.content) : p.bitLength = q.bitLength :=
  (congrArg (fun packet : Packet => packet.bitLength) h : p.content.bitLength = _)

theorem content_with_id (packet : Packet) (id : Nat) :
    { packet with id := id }.content = packet.content := rfl

@[simp] theorem removeDBFIpv4Options_idem (header : Ipv4Header) :
    removeDBFIpv4Options (removeDBFIpv4Options header) = removeDBFIpv4Options header := by
  simp [removeDBFIpv4Options]

/-- Rewriting the option and the tag leaves the content. -/
theorem content_rewritten (hheader : packet.ipv4Header = some header) (option : DBFIpv4Option)
    (tag : Option DBFHeaderTag) :
    Packet.content { packet with
      ipv4Header := some ((removeDBFIpv4Options header).addOption (.dbf option)), tag := tag } =
    packet.content := by
  simp [Packet.content, hheader]

theorem dbfOption_eq_some :
    packet.dbfOption = some option ↔
      ∃ header, packet.ipv4Header = some header ∧ getMutableDBFIpv4Option header = some option :=
  Option.bind_eq_some_iff

theorem containsDBFOptions_eq :
    IngressForwarder.containsDBFOptions packet = packet.dbfOption.isSome := by
  unfold IngressForwarder.containsDBFOptions Packet.dbfOption
  cases packet.ipv4Header <;> rfl

/-! ## What the functions do -/

/-- **Encapsulation** never fails on a fresh datagram.  In best-effort mode it adds
    nothing, and otherwise the sender's option and a tag. -/
theorem encapsulate_spec (computer : DBFComputer) (t : SimTime) (hfresh : FreshDatagram datagram) :
    ∃ packet, DBFIpv4.encapsulate computer t datagram = .ok packet ∧
      packet.content = datagram.content ∧
      (computer.isBEMode = true → packet.tag = none ∧ packet.dbfOption = none) ∧
      (computer.isBEMode = false → packet.tag = some { tRcv := t, fromNetwork := false } ∧
        packet.dbfOption = some (sloOption computer 0)) := by
  obtain ⟨htag, header, hheader, hnone⟩ := hfresh
  have hheader : datagram.ipv4Header = some header := hheader
  cases hmode : computer.isBEMode with
  | true =>
      refine ⟨datagram, by simp [DBFIpv4.encapsulate, hmode], rfl, fun _ => ⟨htag, ?_⟩, by simp⟩
      simp [Packet.dbfOption, hheader, getMutableDBFIpv4Option_of_fresh hnone]
  | false =>
      refine ⟨{ datagram with
        ipv4Header := some (header.addOption (.dbf (sloOption computer 0))),
        tag := some { tRcv := t, fromNetwork := false } }, ?_, ?_, by simp, fun _ => ⟨rfl, ?_⟩⟩
      · simp [DBFIpv4.encapsulate, hmode, htag, addSLOParameters, hheader, updateDBFIpv4Header,
          sloOption, STARTEDELAY]
      · simp [Packet.content, hheader]
      · exact getMutableDBFIpv4Option_addOption hnone _

theorem sendPacketToNIC_untagged (htag : packet.tag = none) :
    DBFIpv4.sendPacketToNIC computer packet = .ok (some packet) := by
  simp [DBFIpv4.sendPacketToNIC, htag, pure, Except.pure]

/-- The packet `processDBFPacket` makes of a tagged one with its option. -/
structure Processed (computer : DBFComputer) (packet : Packet) (tag : DBFHeaderTag)
    (option : DBFIpv4Option) (header : Ipv4Header) (source destination : DbfFibEntry)
    (queued : Packet) : Prop where
  ipv4Header : packet.ipv4Header = some header
  sourceRow : computer.dbfFIB.lookup header.srcAddress = some source
  destinationRow : computer.dbfFIB.lookup header.destAddress = some destination
  hops : destination.hops.toUInt32 ≠ 0
  queuedTag : queued.tag = some (processedTag tag option source destination
    (computer.calculateTransmissionTime packet))
  queuedOption : queued.dbfOption = some { option with
    eDelay := experienced tag option source (computer.calculateTransmissionTime packet) }
  content : queued.content = packet.content

/-- What keeps `processDBFPacket` from processing a tagged packet with its option, and the
    error it then ends with: the address without a row, or the first quotient by no hops. -/
inductive Refused (computer : DBFComputer) (packet : Packet) : ComputerError → Prop where
  | noSource {header : Ipv4Header} : packet.ipv4Header = some header →
      computer.dbfFIB.lookup header.srcAddress = none →
      Refused computer packet (.fibMiss header.srcAddress)
  | noDestination {header : Ipv4Header} {source : DbfFibEntry} :
      packet.ipv4Header = some header →
      computer.dbfFIB.lookup header.srcAddress = some source →
      computer.dbfFIB.lookup header.destAddress = none →
      Refused computer packet (.fibMiss header.destAddress)
  | noHops {header : Ipv4Header} {tag : DBFHeaderTag} {option : DBFIpv4Option}
      {source destination : DbfFibEntry} : packet.ipv4Header = some header →
      packet.tag = some tag → packet.dbfOption = some option →
      computer.dbfFIB.lookup header.srcAddress = some source →
      computer.dbfFIB.lookup header.destAddress = some destination →
      destination.hops.toUInt32 = 0 →
      Refused computer packet (zeroHopsError (queueingDelay option.dMin
        (experienced tag option source (computer.calculateTransmissionTime packet)) destination
        (computer.calculateTransmissionTime packet)))

/-- **The network layer** processes a tagged packet with its option, or refuses it. -/
theorem processDBFPacket_spec (htag : packet.tag = some tag)
    (hoption : packet.dbfOption = some option) :
    (∃ header source destination queued, computer.processDBFPacket packet = .ok queued ∧
      Processed computer packet tag option header source destination queued) ∨
    ∃ error, computer.processDBFPacket packet = .error error ∧
      Refused computer packet error := by
  obtain ⟨header, hheader, hfound⟩ := dbfOption_eq_some.mp hoption
  cases hsource : computer.dbfFIB.lookup header.srcAddress with
  | none =>
      refine .inr ⟨_, ?_, .noSource hheader hsource⟩
      simp [processDBFPacket, prepareDelays, prepareDBFTag, getMutableIpv4Header, hheader, hfound,
        htag, DbfFib.at, hsource, bind, Except.bind]
  | some source =>
      cases hdestination : computer.dbfFIB.lookup header.destAddress with
      | none =>
          refine .inr ⟨_, ?_, .noDestination hheader hsource hdestination⟩
          simp [processDBFPacket, prepareDelays, prepareDBFTag, getMutableIpv4Header, hheader,
            hfound, htag, DbfFib.at, hsource, hdestination, bind, Except.bind]
      | some destination =>
          by_cases hhops : destination.hops.toUInt32 = 0
          · exact .inr ⟨_, processDBFPacket_zeroHops computer hheader hfound htag hsource
              hdestination hhops, .noHops hheader htag hoption hsource hdestination hhops⟩
          · refine .inl ⟨header, source, destination, _, processDBFPacket_ok computer hheader
              hfound htag hsource hdestination hhops, ?_⟩
            exact ⟨hheader, hsource, hdestination, hhops, rfl,
              getMutableDBFIpv4Option_rewritten _ _, content_rewritten hheader _ _⟩

theorem sendPacketToNIC_tagged (htag : packet.tag = some tag) :
    DBFIpv4.sendPacketToNIC computer packet =
      (computer.processDBFPacket packet).map fun queued =>
        if isAlreadyExpired queued then none else some queued := by
  unfold DBFIpv4.sendPacketToNIC
  rw [htag]
  cases computer.processDBFPacket packet <;> rfl

/-- **The schedulers** write the experienced delay into the option and take off the tag. -/
theorem writeEDelay_spec (t : SimTime) (hmatch : packet.tag.isSome = packet.dbfOption.isSome) :
    ∃ sent, writeEDelay t packet = some sent ∧ sent.content = packet.content ∧ sent.tag = none ∧
      (packet.tag = none → sent = packet) ∧
      ∀ tag option, packet.tag = some tag → packet.dbfOption = some option →
        sent.dbfOption = some { option with eDelay := tag.eDelay + t - tag.tRcv } := by
  cases htag : packet.tag with
  | none =>
      exact ⟨packet, writeEDelay_untagged htag, rfl, htag, fun _ => rfl, fun _ _ h => nomatch h⟩
  | some tag =>
      rw [htag, Option.isSome_some, eq_comm, Option.isSome_iff_exists] at hmatch
      obtain ⟨option, hoption⟩ := hmatch
      obtain ⟨header, hheader, hfound⟩ := dbfOption_eq_some.mp hoption
      refine ⟨{ packet with
        ipv4Header := some ((removeDBFIpv4Options header).addOption (.dbf
          { option with eDelay := tag.eDelay + t - tag.tRcv })), tag := none }, ?_,
        content_rewritten hheader _ _, rfl, (fun h => nomatch h), ?_⟩
      · simp [writeEDelay, htag, getMutableIpv4Header, hheader, hfound, updateDBFIpv4Header]
      · intro tag' option' htag' hoption'
        cases htag'
        cases hoption.symm.trans hoption'
        exact getMutableDBFIpv4Option_rewritten _ _

/-- **The ingress** puts a tag on what has the option. -/
theorem ingress_spec (t : SimTime) (htag : packet.tag = none) :
    ∃ received, IngressForwarder.handleMessage t packet = .ok received ∧
      received.content = packet.content ∧ received.dbfOption = packet.dbfOption ∧
      received.tag =
        if packet.dbfOption.isSome then some { tRcv := t, fromNetwork := true } else none := by
  unfold IngressForwarder.handleMessage
  rw [containsDBFOptions_eq]
  cases hoption : packet.dbfOption with
  | none =>
      refine ⟨packet, ?_, rfl, hoption, htag⟩
      simp
  | some option =>
      obtain ⟨header, hheader, _⟩ := dbfOption_eq_some.mp hoption
      refine ⟨{ packet with tag := some { tRcv := t, fromNetwork := true } }, ?_, rfl, hoption, rfl⟩
      simp [hheader, IngressForwarder.attachTrcv, htag]

end DelayBasedForwarding
