import DelayBasedForwarding.SendWindow
import DelayBasedForwarding.Admission
import DelayBasedForwarding.HeaderAccounting
import Mathlib.Data.Fintype.Basic

/-!
# Networks

Hosts and routers are joined by links.  A node has one `DBFComputer` and one
network layer; each of its network interfaces has an egress with a classifier,
queues and a scheduler, and a link to a peer.  A packet is encapsulated at a node,
handed to one of its interfaces by `sendPacketToNIC`, queued, sent, and received by
the `IngressForwarder` at the other end of the link, where it is delivered or goes
on.  All egresses and links work at the same time, and traffic of any kind shares
them.

What surrounds the repository's modules is left open.  The routing of the network
layer is any choice of an interface of the node at any later time.  The MAC signals
once that it is idle for every packet it has been given, and the packet reaches the
peer after its transmission time and the delay of the link.
-/

namespace DelayBasedForwarding

open TransitionRuns

/-! ## Nodes and interfaces -/

/-- What the parameter `scheduler.typename` of `DBFPriorityQueue` is set to. -/
inductive SchedulerType where
  | dbfPriorityScheduler
  | dbfDynamicPriorityScheduler
deriving DecidableEq, Repr

def SchedulerType.scheduler : SchedulerType → Scheduler
  | dbfPriorityScheduler => DelayBasedForwarding.dbfPriorityScheduler
  | dbfDynamicPriorityScheduler => DelayBasedForwarding.dbfDynamicPriorityScheduler

theorem SchedulerType.eq_or (type : SchedulerType) :
    type.scheduler = DelayBasedForwarding.dbfPriorityScheduler ∨
      type.scheduler = DelayBasedForwarding.dbfDynamicPriorityScheduler := by
  cases type with
  | dbfPriorityScheduler => exact .inl rfl
  | dbfDynamicPriorityScheduler => exact .inr rfl

/-- A network interface of `node` and its link to `peer`.  `transmissionTime` is the
    time the MAC takes for a packet of that many bits.  By `keepsOne` its queues are
    unlimited or have a `packetCapacity` of at least one, without a `dataCapacity`: a
    queue that could drop the only packet it holds would leave a timer behind. -/
structure NetworkInterface (N : Type) where
  node : N
  peer : N
  linkDelay : SimTime
  transmissionTime : Nat → SimTime
  schedulerType : SchedulerType
  config : EgressConfig
  count : Nat                           -- queues of the NED file
  linkDelay_nonneg : 0 ≤ linkDelay
  transmissionTime_nonneg : ∀ bits, 0 ≤ transmissionTime bits
  keepsOne : ∀ q, KeepsOne (config.capacity q)

/-- Nodes `N` and network interfaces `P`.  All computers read the parameter `_datarate`
    of the same network. -/
structure Network (N P : Type) where
  parameters : N → ComputerParameters
  computer : N → DBFComputer
  isLocalAddress : N → Ipv4Address → Bool
  networkInterface : P → NetworkInterface N
  datarate : Option ℚ
  initialized : ∀ n, DBFComputer.initialize (parameters n) = .ok (computer n)
  sameDatarate : ∀ n, (parameters n).datarate = datarate

/-! ## State -/

/-- A packet on the link of an interface, and when it reaches the peer. -/
structure Frame (P : Type) where
  port : P
  arrival : SimTime
  packet : Packet
deriving DecidableEq

/-- What an observer of the network layers has seen: at which node, when, and what. -/
structure NetworkLog (N : Type) where
  encapsulated : List (N × SimTime × Packet) := []
  refused : List (N × SimTime × Packet) := []       -- deleted by `sendPacketToNIC`
  delivered : List (N × SimTime × Packet) := []

structure NetworkState (N P : Type) where
  now : SimTime
  inside : List (N × Packet)            -- in the network layer of a node
  egress : P → Egress
  links : List (Frame P)
  log : NetworkLog N

inductive NetworkEvent (N P : Type) where
  | encapsulate (simTime : SimTime) (node : N) (datagram : Packet)
  | sendPacketToNIC (simTime : SimTime) (port : P) (packet : Packet)
  | txIdle (simTime : SimTime) (port : P)
  | timer (simTime : SimTime) (port : P) (msg : DBFPriorityScheduleMsg)
  | receive (simTime : SimTime) (frame : Frame P)

def NetworkEvent.simTime {N P : Type} : NetworkEvent N P → SimTime
  | .encapsulate simTime _ _ => simTime
  | .sendPacketToNIC simTime _ _ => simTime
  | .txIdle simTime _ => simTime
  | .timer simTime _ _ => simTime
  | .receive simTime _ => simTime

inductive NetworkError (N P : Type) where
  | computer (node : N) (error : ComputerError)
  | egress (port : P) (error : EgressError)
deriving DecidableEq, Repr

/-- A datagram `Ipv4::encapsulate` has given its header, before `DBFIpv4` adds anything. -/
def FreshDatagram (datagram : Packet) : Prop :=
  datagram.tag = none ∧ ∃ header ∈ datagram.ipv4Header,
    header.findOptionByType DBFPARAMETERS = none

namespace Network

variable {N P : Type} (net : Network N P)

def initial : NetworkState N P :=
  { now := 0, inside := [], egress := fun p => Egress.initial (net.networkInterface p).count,
    links := [], log := {} }

def scheduler (p : P) : Scheduler := (net.networkInterface p).schedulerType.scheduler

/-- A run of the egress of `p`. -/
abbrev PortRun (p : P) (history : List (Transition Egress EgressEvent)) (s : Egress) : Prop :=
  EgressRun (net.scheduler p) (net.networkInterface p).config (net.networkInterface p).count
    history s

abbrev PortStep (p : P) : Egress → EgressEvent → Egress → Prop :=
  EgressStep (net.scheduler p) (net.networkInterface p).config

/-- The MAC puts what gate `out` gave it on the link. -/
def transmit (p : P) (sent : SentPacket) : Frame P :=
  { port := p,
    arrival := sent.time + (net.networkInterface p).linkDelay +
      (net.networkInterface p).transmissionTime sent.packet.bitLength,
    packet := sent.packet }

def isLocal (node : N) (packet : Packet) : Bool :=
  match packet.ipv4Header with
  | none => false
  | some header => net.isLocalAddress node header.destAddress

/-! ## Steps -/

section

variable [DecidableEq N] [DecidableEq P]

/-- An egress handles an event; what it sends goes to its link. -/
def handleEgress (s : NetworkState N P) (p : P) (event : EgressEvent) :
    Except (NetworkError N P) (NetworkState N P) :=
  match (net.scheduler p).handle (net.networkInterface p).config (s.egress p) event with
  | .error error => .error (.egress p error)
  | .ok egress =>
      .ok { s with
        egress := Function.update s.egress p egress,
        links := s.links ++
          (egress.log.sent.drop (s.egress p).log.sent.length).map (net.transmit p) }

def handle (s : NetworkState N P) :
    NetworkEvent N P → Except (NetworkError N P) (NetworkState N P)
  | .encapsulate simTime node datagram =>
      match DBFIpv4.encapsulate (net.computer node) simTime datagram with
      | .error error => .error (.computer node error)
      | .ok packet =>
          .ok { s with
            now := simTime, inside := s.inside ++ [(node, packet)],
            log := { s.log with
              encapsulated := s.log.encapsulated ++ [(node, simTime, datagram)] } }
  | .sendPacketToNIC simTime p packet =>
      let node := (net.networkInterface p).node
      let s := { s with now := simTime, inside := s.inside.erase (node, packet) }
      match DBFIpv4.sendPacketToNIC (net.computer node) packet with
      | .error error => .error (.computer node error)
      | .ok none =>
          .ok { s with log := { s.log with refused := s.log.refused ++ [(node, simTime, packet)] } }
      | .ok (some packet) => net.handleEgress s p (.push simTime packet)
  | .txIdle simTime p => net.handleEgress { s with now := simTime } p (.txIdle simTime)
  | .timer simTime p msg => net.handleEgress { s with now := simTime } p (.timer simTime msg)
  | .receive simTime frame =>
      let node := (net.networkInterface frame.port).peer
      let s := { s with now := simTime, links := s.links.erase frame }
      match IngressForwarder.handleMessage simTime frame.packet with
      | .error error => .error (.computer node error)
      | .ok packet =>
          if net.isLocal node packet then
            .ok { s with
              log := { s.log with delivered := s.log.delivered ++ [(node, simTime, packet)] } }
          else .ok { s with inside := s.inside ++ [(node, packet)] }

end

def Delivers (s : NetworkState N P) : NetworkEvent N P → Prop
  | .encapsulate _ _ datagram => FreshDatagram datagram
  | .sendPacketToNIC _ p packet => ((net.networkInterface p).node, packet) ∈ s.inside
  | .txIdle _ p => (s.egress p).log.idleSignals = (s.egress p).log.sent.length
  | .timer simTime p msg => (msg, simTime) ∈ (s.egress p).timer.events
  | .receive simTime frame => frame ∈ s.links ∧ frame.arrival = simTime

/-- Time passes no pending timer of any egress and no arrival on any link. -/
def Enabled (s : NetworkState N P) (event : NetworkEvent N P) : Prop :=
  s.now ≤ event.simTime ∧
  (∀ p, ∀ pending ∈ (s.egress p).timer.events, event.simTime ≤ pending.2) ∧
  (∀ frame ∈ s.links, event.simTime ≤ frame.arrival) ∧ net.Delivers s event

variable [DecidableEq N] [DecidableEq P]

def Step (s : NetworkState N P) (event : NetworkEvent N P) (s' : NetworkState N P) : Prop :=
  net.Enabled s event ∧ net.handle s event = .ok s'

/-- A run of the whole network from its initialization. -/
abbrev NetworkRun (history : List (Transition (NetworkState N P) (NetworkEvent N P)))
    (s : NetworkState N P) : Prop :=
  Run net.Step net.initial history s

/-! Whether a step is possible, and to which state, is computed. -/

instance decidableFreshDatagram (datagram : Packet) : Decidable (FreshDatagram datagram) :=
  inferInstanceAs (Decidable (_ ∧ ∃ header ∈ datagram.ipv4Header, _))

instance decidableDelivers (s : NetworkState N P) :
    (event : NetworkEvent N P) → Decidable (net.Delivers s event)
  | .encapsulate _ _ datagram => decidableFreshDatagram datagram
  | .sendPacketToNIC _ p packet =>
      inferInstanceAs (Decidable (((net.networkInterface p).node, packet) ∈ s.inside))
  | .txIdle _ p =>
      inferInstanceAs (Decidable ((s.egress p).log.idleSignals = (s.egress p).log.sent.length))
  | .timer simTime p msg =>
      inferInstanceAs (Decidable ((msg, simTime) ∈ (s.egress p).timer.events))
  | .receive simTime frame =>
      inferInstanceAs (Decidable (frame ∈ s.links ∧ frame.arrival = simTime))

instance decidableEnabled [Fintype P] (s : NetworkState N P) (event : NetworkEvent N P) :
    Decidable (net.Enabled s event) :=
  inferInstanceAs (Decidable (_ ∧ _ ∧ _ ∧ _))

def next [Fintype P] (s : NetworkState N P) (event : NetworkEvent N P) :
    Option (NetworkState N P) :=
  if net.Enabled s event then (net.handle s event).toOption else none

theorem step_of_next [Fintype P] (s : NetworkState N P) (event : NetworkEvent N P)
    (s' : NetworkState N P) (h : net.next s event = some s') : net.Step s event s' := by
  unfold next at h
  split at h
  · next henabled =>
      refine ⟨henabled, ?_⟩
      cases hhandle : net.handle s event with
      | error error =>
          rw [hhandle] at h
          cases h
      | ok t =>
          rw [hhandle] at h
          cases h
          rfl
  · cases h

end Network

/-! ### Two hosts and a router

The host 0 sends to the host 2 over the router 1.  Both links take one second, and so does
the transmission of a packet of 1000 bits.  The sender has a static scheduler, the router a
dynamic one. -/

def sampleNodeParameters : Fin 3 → ComputerParameters
  | 0 => sampleParameters
  | 1 =>
      { dMin := 0, dMax := 0, admitBit := 0, datarate := some 1208,
        dbfFIB := [
          { ip := 1, hops := ['1'], lDelay := 1, hDelay := 1, fromDelay := 1, toDelay := 1 },
          { ip := 2, hops := ['1'], lDelay := 1, hDelay := 1, fromDelay := 1, toDelay := 1 }] }
  | 2 => { dMin := 0, dMax := 0, admitBit := 0, datarate := some 1208, dbfFIB := [] }

def sampleNodeComputer (n : Fin 3) : DBFComputer :=
  { dMin := (sampleNodeParameters n).dMin, dMax := (sampleNodeParameters n).dMax,
    admitBit := 0, cableDatarate := 1208, dbfFIB := loadFib (sampleNodeParameters n).dbfFIB }

theorem sampleNode_initialized :
    ∀ n, DBFComputer.initialize (sampleNodeParameters n) = .ok (sampleNodeComputer n)
  | 0 => rfl
  | 1 => rfl
  | 2 => rfl

theorem sampleNode_datarate : ∀ n, (sampleNodeParameters n).datarate = some 1208
  | 0 => rfl
  | 1 => rfl
  | 2 => rfl

/-- A cable of 1208 bits per second. -/
def sampleTransmissionTime (bits : Nat) : SimTime :=
  (sampleNodeComputer 0).calculateTransmissionTime { bitLength := bits, ipv4Header := none }

theorem sampleTransmissionTime_nonneg (bits : Nat) : 0 ≤ sampleTransmissionTime bits := by
  unfold sampleTransmissionTime DBFComputer.calculateTransmissionTime
  have hrate : (0 : ℚ) < (sampleNodeComputer 0).cableDatarate := by decide +kernel
  rw [if_pos hrate.ne']
  apply div_nonneg _ hrate.le
  have hbits : (0 : ℚ) ≤ bits := Nat.cast_nonneg bits
  have hheader : (0 : ℚ) ≤ DBFComputer.ETHERNET_HEADER_BITS := by decide +kernel
  simp only []
  split
  · linarith
  · next hpadded =>
      have := not_le.mp hpadded
      linarith

def sampleInterface (node peer : Fin 3) (schedulerType : SchedulerType) :
    NetworkInterface (Fin 3) :=
  { node := node, peer := peer, linkDelay := 1, transmissionTime := sampleTransmissionTime,
    schedulerType := schedulerType, config := sampleConfig, count := 0,
    linkDelay_nonneg := zero_le_one, transmissionTime_nonneg := sampleTransmissionTime_nonneg,
    keepsOne := unlimited_sampleConfig.keepsOne }

def sampleNetwork : Network (Fin 3) (Fin 2) :=
  { parameters := sampleNodeParameters, computer := sampleNodeComputer,
    isLocalAddress := fun node address => node == 0 && address == 1 || node == 2 && address == 2,
    networkInterface := fun p =>
      if p = 0 then sampleInterface 0 1 .dbfPriorityScheduler
      else sampleInterface 1 2 .dbfDynamicPriorityScheduler,
    datarate := some 1208,
    initialized := sampleNode_initialized, sameDatarate := sampleNode_datarate }

/-- The interface towards host 2. -/
def sampleNext (n : Fin 3) : Fin 2 := if n = 0 then 0 else 1

/-- A datagram from host to host, and the signals of the two idle MACs. -/
def sampleNetworkEvents : List (NetworkEvent (Fin 3) (Fin 2)) :=
  [.txIdle 0 0, .txIdle 0 1, .encapsulate 0 0 sampleDatagram,
   .sendPacketToNIC 0 0 sampleEncapsulated]

def sampleCrossDatagram : Packet :=
  { bitLength := 1000,
    ipv4Header := some { srcAddress := 3, destAddress := 2, options := [] } }

/-- The datagram waits a second at the sender.  The dynamic scheduler of the router does not
    look at it again until other traffic is pushed at 4. -/
def sampleJourney : List (NetworkEvent (Fin 3) (Fin 2)) :=
  sampleNetworkEvents ++
    [.timer 1 0 ⟨0, 0⟩, .receive 3 ⟨0, 3, sampleOnTheWay 1 none⟩,
     .sendPacketToNIC 3 1 (sampleOnTheWay 1 (some { tRcv := 3, fromNetwork := true })),
     .encapsulate 4 1 sampleCrossDatagram, .sendPacketToNIC 4 1 sampleCrossDatagram,
     .timer 4 1 ⟨0, 0⟩, .receive 6 ⟨1, 6, sampleOnTheWay 4 none⟩]

def sampleSecond (packet : Packet) : Packet := { packet with id := 1, payload := [1] }

/-- Two datagrams of the flow, one behind the other. -/
def sampleConvoy : List (NetworkEvent (Fin 3) (Fin 2)) :=
  [.txIdle 0 0, .txIdle 0 1, .encapsulate 0 0 sampleDatagram,
   .encapsulate 0 0 (sampleSecond sampleDatagram), .sendPacketToNIC 0 0 sampleEncapsulated,
   .sendPacketToNIC 0 0 (sampleSecond sampleEncapsulated), .timer 1 0 ⟨1, 0⟩, .txIdle 2 0,
   .timer 2 0 ⟨2, 0⟩, .receive 3 ⟨0, 3, sampleOnTheWay 1 none⟩,
   .sendPacketToNIC 3 1 (sampleOnTheWay 1 (some { tRcv := 3, fromNetwork := true })),
   .receive 4 ⟨0, 4, sampleSecond (sampleOnTheWay 2 none)⟩,
   .sendPacketToNIC 4 1
     (sampleSecond (sampleOnTheWay 2 (some { tRcv := 4, fromNetwork := true }))),
   .timer 4 1 ⟨0, 0⟩, .txIdle 5 1, .timer 5 1 ⟨1, 0⟩, .receive 6 ⟨1, 6, sampleOnTheWay 4 none⟩,
   .receive 7 ⟨1, 7, sampleSecond (sampleOnTheWay 5 none)⟩]

end DelayBasedForwarding
