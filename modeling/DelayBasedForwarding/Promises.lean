import DelayBasedForwarding.NetworkSteps
import DelayBasedForwarding.Conservation
import DelayBasedForwarding.Waiting
import Mathlib.Data.Multiset.Filter

/-!
# What a packet promises

A datagram that is encapsulated outside best-effort mode promises to arrive between
`dMin` and `dMax` after its encapsulation.  A packet does not carry the time of its
encapsulation, but at every place of a network it can be read off what the packet
does carry: the tag while it is inside a node, and the experienced delay of its option
on a link.  Each function that handles the packet keeps what is read off, and the only
one of them that needs the FIB to be right is the ingress.
-/

namespace DelayBasedForwarding

open DBFComputer

/-! ## Promises -/

structure Objective where
  origin : SimTime
  dMin : SimTime
  dMax : SimTime
deriving DecidableEq, Repr

/-- A datagram, and when it is to arrive; without an objective, at any time. -/
structure Promise where
  content : Packet
  objective : Option Objective
deriving DecidableEq, Repr

/-- Delivery at `time` keeps the promise; a bound of zero is no bound. -/
def Promise.Kept (time : SimTime) (promise : Promise) : Prop :=
  ∀ objective ∈ promise.objective,
    (objective.dMin ≠ 0 → objective.origin + objective.dMin ≤ time) ∧
    (objective.dMax ≠ 0 → time ≤ objective.origin + objective.dMax)

def Promise.HasDeadline (promise : Promise) : Prop :=
  ∃ objective ∈ promise.objective, objective.dMax ≠ 0

instance (promise : Promise) : Decidable promise.HasDeadline :=
  inferInstanceAs (Decidable (∃ objective ∈ promise.objective, _))

/-- The promise of a packet that was encapsulated at `origin`. -/
def Packet.promise (packet : Packet) (origin : SimTime) : Promise :=
  { content := packet.content,
    objective := packet.dbfOption.map fun option => ⟨origin, option.dMin, option.dMax⟩ }

/-- In a queue, the experienced delay is that at the receipt of the packet. -/
def Packet.queuedOrigin (packet : Packet) : SimTime :=
  match packet.tag with
  | none => 0
  | some tag => tag.tRcv - tag.eDelay

def Packet.queuedPromise (packet : Packet) : Promise := packet.promise packet.queuedOrigin

namespace Network

variable {N P : Type} (net : Network N P)

/-- The row of the packet's source; where there is none, one without delays. -/
def sourceRow (node : N) (packet : Packet) : DbfFibEntry :=
  (packet.ipv4Header.bind fun header =>
    (net.computer node).dbfFIB.lookup header.srcAddress).getD
    { hops := 0, lDelay := 0, hDelay := 0, fromDelay := 0, toDelay := 0 }

/-- In the network layer of `node`, the link before it is still to be counted. -/
def insideOrigin (node : N) (packet : Packet) : SimTime :=
  match packet.tag, packet.dbfOption with
  | some tag, some option =>
      tag.tRcv - experienced tag option (net.sourceRow node packet)
        ((net.computer node).calculateTransmissionTime packet)
  | _, _ => 0

def insidePromise (x : N × Packet) : Promise := x.2.promise (net.insideOrigin x.1 x.2)

/-- On a link, the option holds the delay at its departure. -/
def frameOrigin (frame : Frame P) : SimTime :=
  match frame.packet.dbfOption with
  | none => 0
  | some option =>
      frame.arrival - (net.networkInterface frame.port).linkDelay -
        (net.networkInterface frame.port).transmissionTime frame.packet.bitLength - option.eDelay

def framePromise (frame : Frame P) : Promise := frame.packet.promise (net.frameOrigin frame)

/-- What `encapsulate` promises. -/
def encapsulatedPromise (node : N) (t : SimTime) (datagram : Packet) : Promise :=
  { content := datagram.content,
    objective := if (net.computer node).isBEMode then none
      else some ⟨t, (net.computer node).dMin, (net.computer node).dMax⟩ }

variable {net} {node : N} {p : P} {packet queued received datagram stored out : Packet}
  {t : SimTime}

theorem promise_congr {origin origin' : SimTime} (hcontent : queued.content = packet.content)
    (hnone : packet.dbfOption = none → queued.dbfOption = none)
    (hsome : ∀ option, packet.dbfOption = some option → origin = origin' ∧
      ∃ option', queued.dbfOption = some option' ∧ option'.dMin = option.dMin ∧
        option'.dMax = option.dMax) :
    queued.promise origin = packet.promise origin' := by
  unfold Packet.promise
  rw [hcontent]
  cases hoption : packet.dbfOption with
  | none =>
      rw [hnone hoption]
      rfl
  | some option =>
      obtain ⟨rfl, option', hoption', hmin, hmax⟩ := hsome option hoption
      rw [hoption', Option.map_some, Option.map_some, hmin, hmax]

theorem insidePromise_encapsulate (hfresh : FreshDatagram datagram)
    (h : DBFIpv4.encapsulate (net.computer node) t datagram = .ok packet) :
    net.insidePromise (node, packet) = net.encapsulatedPromise node t datagram := by
  obtain ⟨packet', hok, hcontent, hbestEffort, hmarked⟩ :=
    encapsulate_spec (net.computer node) t hfresh
  cases hok.symm.trans h
  unfold insidePromise Packet.promise encapsulatedPromise
  rw [hcontent]
  cases hmode : (net.computer node).isBEMode with
  | true =>
      simp only [(hbestEffort hmode).2, Option.map_none, if_true]
  | false =>
      obtain ⟨htag, hoption⟩ := hmarked hmode
      simp [hoption, insideOrigin, htag, experienced, sloOption]

/-- **The network layer** counts the link before the node. -/
theorem queuedPromise_sendPacketToNIC (hlawful : packet.Lawful)
    (hsend : DBFIpv4.sendPacketToNIC (net.computer node) packet = .ok (some queued)) :
    queued.queuedPromise = net.insidePromise (node, packet) := by
  rcases sendPacketToNIC_some hlawful hsend with
    ⟨htag, rfl⟩ | ⟨tag, option, header, source, destination, htag, hoption, _, hprocessed⟩
  · have hnone : queued.dbfOption = none := by
      have hmatch := hlawful.tagged
      rw [htag, Option.isSome_none, eq_comm, Option.isSome_eq_false_iff,
        Option.isNone_iff_eq_none] at hmatch
      exact hmatch
    apply promise_congr rfl
    · exact fun _ => hnone
    · intro option hoption
      cases hnone.symm.trans hoption
  · apply promise_congr hprocessed.content
    · intro hnone
      cases hnone.symm.trans hoption
    · intro option' hoption'
      cases hoption.symm.trans hoption'
      refine ⟨?_, _, hprocessed.queuedOption, rfl, rfl⟩
      have hsource : net.sourceRow node packet = source := by
        simp [sourceRow, hprocessed.ipv4Header, hprocessed.sourceRow]
      simp [Packet.queuedOrigin, hprocessed.queuedTag, insideOrigin, htag, hoption, hsource,
        processedTag]

/-- **The egress** counts the time in the queue. -/
theorem framePromise_transmit (collectionIdx : Nat)
    (hmatch : stored.tag.isSome = stored.dbfOption.isSome)
    (hwrite : writeEDelay t stored = some out) :
    net.framePromise (net.transmit p ⟨t, collectionIdx, stored, out⟩) = stored.queuedPromise := by
  obtain ⟨out', hok, hcontent, _, huntagged, hmarked⟩ := writeEDelay_spec t hmatch
  cases hok.symm.trans hwrite
  apply promise_congr hcontent
  · intro hnone
    rw [hnone, Option.isSome_none, Option.isSome_eq_false_iff, Option.isNone_iff_eq_none] at hmatch
    have hsame : out = stored := huntagged hmatch
    rw [← hsame] at hnone
    exact hnone
  · intro option hoption
    rw [hoption, Option.isSome_some, Option.isSome_iff_exists] at hmatch
    obtain ⟨tag, htag⟩ := hmatch
    have hout := hmarked tag option htag hoption
    refine ⟨?_, _, hout, rfl, rfl⟩
    simp only [frameOrigin, transmit, hout, Packet.queuedOrigin, htag]
    ring

/-- **The ingress** puts the arrival into the tag, and the row of the source has to account
    for the link. -/
theorem insidePromise_received {frame : Frame P} (htag : frame.packet.tag = none)
    (hreceived : IngressForwarder.handleMessage frame.arrival frame.packet = .ok received)
    (hlink : (net.sourceRow node received).lDelay +
      (net.computer node).calculateTransmissionTime received =
      (net.networkInterface frame.port).linkDelay +
        (net.networkInterface frame.port).transmissionTime frame.packet.bitLength) :
    net.insidePromise (node, received) = net.framePromise frame := by
  obtain ⟨received', hok, hcontent, hoption, hreceivedTag⟩ := ingress_spec frame.arrival htag
  cases hok.symm.trans hreceived
  apply promise_congr hcontent
  · intro hnone
    rw [hoption, hnone]
  · intro option hsome
    rw [hsome] at hoption hreceivedTag
    refine ⟨?_, option, hoption, rfl, rfl⟩
    simp only [insideOrigin, hreceivedTag, hoption, Option.isSome_some, if_true, experienced,
      frameOrigin, hsome]
    linarith

/-- The network layer deletes only what has a deadline. -/
theorem hasDeadline_of_refused (hlawful : packet.Lawful)
    (hsend : DBFIpv4.sendPacketToNIC (net.computer node) packet = .ok none) :
    (net.insidePromise (node, packet)).HasDeadline := by
  cases htag : packet.tag with
  | none =>
      rw [sendPacketToNIC_untagged htag] at hsend
      cases hsend
  | some tag =>
      obtain ⟨option, hoption⟩ := hlawful.exists_option htag
      rw [sendPacketToNIC_tagged htag] at hsend
      rcases @processDBFPacket_spec (net.computer node) _ _ _ htag hoption with
        ⟨header, source, destination, processed, hprocess, hprocessed⟩ | ⟨_, herror, _⟩
      · rw [hprocess] at hsend
        have hdead : isAlreadyExpired processed = true := by
          by_contra halive
          simp [Except.map, halive] at hsend
        have hfinite := ((window_of_processed (hlawful.accepted option hoption) htag hoption
          hprocessed).1.mp hdead).1
        exact ⟨_, Option.map_eq_some_iff.mpr ⟨option, hoption, rfl⟩, hfinite⟩
      · simp [herror, Except.map] at hsend

end Network

/-! ## The packets of an egress

What an event does to the packets in the queues, as a balance. -/

section

variable {config : EgressConfig} {s s' : Egress} {event : EgressEvent}

@[simp] theorem stored_initial (count : Nat) : (Egress.initial count).stored = [] := by
  simp [Egress.stored, Egress.initial, Pools.pool, List.flatMap_eq_nil_iff]

/-- What left the queues in a step: dropped or expired, or sent by a timer. -/
theorem Effect.stored_balance (h : WellFormed config.classifier s)
    (htime : s.now ≤ event.simTime) (hadmissible : Admissible event) (hconserved : Conserved s)
    (heffect : Effect config s event s') :
    (∃ dropped expired : Multiset Packet,
      (s.stored : Multiset Packet) + event.arriving s = s'.stored + (dropped + expired) ∧
      s'.log.sent = s.log.sent ∧
      (∀ packet ∈ expired, packetExpired event.simTime packet = true) ∧
      (Unlimited config → dropped = 0)) ∨
    ∃ collectionIdx packet out, packet ∈ s.queues collectionIdx ∧
      (s.stored : Multiset Packet) = packet ::ₘ (s'.stored : Multiset Packet) ∧
      event.arriving s = [] ∧ writeEDelay event.simTime packet = some out ∧
      InWindow ⟨event.simTime, collectionIdx, packet, out⟩ ∧
      s'.log.sent = s.log.sent ++ [⟨event.simTime, collectionIdx, packet, out⟩] := by
  have hbefore := hconserved.balance
  have hafter := (heffect.conserved h htime hadmissible hconserved).balance
  have hexpired : ∀ u : Egress, ∀ packet ∈ u.registry.collections.flatMap u.expiredOf,
      packetExpired u.now packet = true := by
    intro u packet hpacket
    obtain ⟨a, _, hpacket⟩ := List.mem_flatMap.mp hpacket
    exact (List.mem_filter.mp hpacket).2
  have hlogged : ∀ (u : Egress) (timer : Timer), (u.swept timer).log.expired.map Prod.snd =
      u.log.expired.map Prod.snd ++ u.registry.collections.flatMap u.expiredOf := by
    intro u timer
    simp [Egress.swept, List.map_flatMap, Function.comp_def]
  unfold Egress.occurrences at hbefore hafter
  cases heffect with
  | @push t packet delta q registry timer hdelta hclass =>
      left
      refine ⟨((pushPacket (config.capacity q) t { packet with id := s.nextPacket }
          (s.queues q)).2 : Multiset Packet),
        ((s.pushed config t packet registry q).registry.collections.flatMap
          (s.pushed config t packet registry q).expiredOf : Multiset Packet), ?_, rfl,
        hexpired _, ?_⟩
      · have hpushed : ((s.pushed config t packet registry q).swept timer).log.pushed =
            s.log.pushed ++ [{ packet with id := s.nextPacket }] := rfl
        have hdropped : ((s.pushed config t packet registry q).swept timer).log.dropped =
            s.log.dropped ++ (pushPacket (config.capacity q) t
              { packet with id := s.nextPacket } (s.queues q)).2 := rfl
        have hsent : ((s.pushed config t packet registry q).swept timer).log.sent = s.log.sent :=
          rfl
        have hold : (s.pushed config t packet registry q).log.expired = s.log.expired := rfl
        ext x
        have hx := hafter x
        rw [hpushed, hdropped, hsent, hlogged, hold] at hx
        simp only [List.count_append] at hx
        simp only [Multiset.count_add, Multiset.coe_count, EgressEvent.arriving]
        have := hbefore x
        omega
      · intro hunlimited
        simp [hunlimited q, pushPacket_unlimited]
  | @txIdle t timer hidle =>
      left
      refine ⟨0, ((s.idled t).registry.collections.flatMap (s.idled t).expiredOf :
        Multiset Packet), ?_, rfl, hexpired _, fun _ => rfl⟩
      have hpushed : ((s.idled t).swept timer).log.pushed = s.log.pushed := rfl
      have hdropped : ((s.idled t).swept timer).log.dropped = s.log.dropped := rfl
      have hsent : ((s.idled t).swept timer).log.sent = s.log.sent := rfl
      have hold : (s.idled t).log.expired = s.log.expired := rfl
      ext x
      have hx := hafter x
      rw [hpushed, hdropped, hsent, hlogged, hold, List.count_append] at hx
      simp only [Multiset.count_add, Multiset.coe_count, EgressEvent.arriving,
        Multiset.coe_nil, Multiset.count_zero]
      have := hbefore x
      omega
  | @timer t msg p out timer hevents hidle hmem hready hunexpired hout hdisarmed =>
      right
      refine ⟨msg.collectionIdx, p, out, hmem, ?_, rfl, hout,
        inWindow_of_ready hready hunexpired, rfl⟩
      have hsent : (s.fired t msg.collectionIdx p out timer).log.sent.map SentPacket.stored =
          s.log.sent.map SentPacket.stored ++ [p] := by
        simp [Egress.fired]
      ext x
      have hx : (s.fired t msg.collectionIdx p out timer).stored.count x +
          ((s.log.sent.map SentPacket.stored).count x + [p].count x) + s.log.dropped.count x +
          (s.log.expired.map Prod.snd).count x = s.log.pushed.count x := by
        have hx := hafter x
        rw [hsent, List.count_append] at hx
        exact hx
      rw [← Multiset.singleton_add, Multiset.count_add, ← Multiset.coe_singleton]
      simp only [Multiset.coe_count]
      have := hbefore x
      omega

end

end DelayBasedForwarding
