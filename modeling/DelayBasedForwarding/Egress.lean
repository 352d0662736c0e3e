import DelayBasedForwarding.Classifier
import DelayBasedForwarding.PacketQueue
import Mathlib.Logic.Function.Basic

/-!
# The egress

One egress is the classifier, its queues and a scheduler.  The scheduler is told
about every push by `handleCanPopPacket` and about an idle link by the signal of
the MAC; both times it deletes expired packets and, while the link is idle, arms
a timer for the packet it wants to send.  When the timer fires, the packet is
sent.  `DBFPriorityScheduler` and `DBFDynamicPriorityScheduler` share all of this
but three virtual functions.

Pointers are identities.  A packet gets a fresh one when it is pushed and a
message when it is created; `selfMsg` keeps its value when the message it points
to is deleted, and a use of it then sets `danglingUse`.  The cancellation of a
deleted message removes nothing from the event set.
-/

namespace DelayBasedForwarding

open TransitionRuns

/-! ## State -/

def FRONTIDX : Nat := 0

structure DBFPriorityScheduleMsg where
  id : Nat
  collectionIdx : Nat
deriving DecidableEq, Repr

inductive EgressError where
  | classifier (error : ClassifierError)
  | handleMessageTxIdleCounter (txIdleCounter : Nat) -- "Value of txIdleCounter is higher than zero"
  | receiveSignalTxIdleCounter (txIdleCounter : Nat) -- the same text
  | indexOutOfRange
  | popFromEmptyQueue
  | packetNotQueued
  | alreadyScheduled
  | scheduledInPast
  | nullPacket
  | optionMissing
deriving DecidableEq, Repr

/-- The part of the state that arming and cancelling a timer work on. -/
structure Timer where
  selfMsg : Option DBFPriorityScheduleMsg := none
  scheduledPacket : Option Packet := none            -- of the dynamic scheduler
  events : List (DBFPriorityScheduleMsg × SimTime) := []  -- the future event set
  nextMsg : Nat := 0
  -- observed: a use of `selfMsg` that is not pending, and the timers cancelled on expiry
  danglingUse : Bool := false
  expiryCancels : Nat := 0
deriving DecidableEq, Repr

structure SentPacket where
  time : SimTime
  collectionIdx : Nat
  stored : Packet       -- as it stood in the queue
  packet : Packet       -- as it went to gate `out`
deriving DecidableEq, Repr

/-- What an observer of the egress has seen. -/
structure EgressLog where
  idleSignals : Nat := 0
  pushed : List Packet := []
  sent : List SentPacket := []
  dropped : List Packet := []
  expired : List (SimTime × Packet) := []
deriving DecidableEq, Repr

structure Egress where
  now : SimTime
  registry : Registry
  queues : QueueId → List Packet
  txIdleCounter : Nat
  nextPacket : Nat
  timer : Timer
  log : EgressLog

structure EgressConfig where
  classifier : ClassifierParameters
  capacity : QueueId → QueueCapacity

/-- The egress after initialization with `count` queues of the NED file. -/
def Egress.initial (count : Nat) : Egress :=
  { now := 0, registry := Registry.prebuilt count, queues := fun _ => [], txIdleCounter := 0,
    nextPacket := 0, timer := {}, log := {} }

/-! ## Messages -/

namespace Timer

/-- `selfMsg` is read, cancelled or deleted while it points to `msg`. -/
def use (msg : DBFPriorityScheduleMsg) (timer : Timer) : Timer :=
  if timer.events.any fun event => event.1 == msg then timer
  else { timer with danglingUse := true }

def cancelAndDelete (msg : DBFPriorityScheduleMsg) (timer : Timer) : Timer :=
  let timer := timer.use msg
  { timer with events := timer.events.filter fun event => event.1.id != msg.id }

/-- `if (selfMsg) cancelAndDelete(selfMsg)`. -/
def cancelSelfMsg (timer : Timer) : Timer :=
  match timer.selfMsg with
  | none => timer
  | some msg => timer.cancelAndDelete msg

/-- `selfMsg = new DBFPriorityScheduleMsg()` and `setCollectionIdx`. -/
def newSelfMsg (collectionIdx : Nat) (timer : Timer) : Timer :=
  { timer with
    selfMsg := some { id := timer.nextMsg, collectionIdx := collectionIdx },
    nextMsg := timer.nextMsg + 1 }

/-- `scheduleAt(time, selfMsg)`. -/
def scheduleAt (simTime time : SimTime) (timer : Timer) : Except EgressError Timer :=
  match timer.selfMsg with
  | none => .ok timer
  | some msg =>
      if time < simTime then .error .scheduledInPast
      else if timer.events.any fun event => event.1.id == msg.id then .error .alreadyScheduled
      else .ok { timer with events := timer.events ++ [(msg, time)] }

end Timer

/-- The time both schedulers arm the timer for. -/
def scheduleTime (simTime : SimTime) (packet : Packet) : SimTime :=
  match packet.tag with
  | some tag => if tag.tMin ≥ simTime then tag.tMin else simTime
  | none => simTime

/-! ## The queues through the vectors of the scheduler -/

namespace Egress

/-- `collections[collectionIdx]`, as the list of its packets. -/
def getPackets (s : Egress) (collectionIdx : Nat) : Except EgressError (List Packet) :=
  match s.registry.collections[collectionIdx]? with
  | none => .error .indexOutOfRange
  | some collection => .ok (s.queues collection)

def getPacket (s : Egress) (collectionIdx index : Nat) : Except EgressError Packet := do
  let packets ← s.getPackets collectionIdx
  match packets[index]? with
  | none => .error .indexOutOfRange
  | some packet => .ok packet

/-- `providers[providerIdx]->canPopSomePacket`. -/
def canPopSomePacket (s : Egress) (providerIdx : Nat) : Except EgressError Bool :=
  match s.registry.providers[providerIdx]? with
  | none => .error .indexOutOfRange
  | some provider => .ok (!(s.queues provider).isEmpty)

def setQueue (s : Egress) (queue : QueueId) (packets : List Packet) : Egress :=
  { s with queues := Function.update s.queues queue packets }

def popPacket (s : Egress) (collectionIdx : Nat) : Except EgressError (Packet × Egress) :=
  match s.registry.collections[collectionIdx]? with
  | none => .error .indexOutOfRange
  | some collection =>
      match s.queues collection with
      | [] => .error .popFromEmptyQueue
      | packet :: rest => .ok (packet, s.setQueue collection rest)

/-- `collection->removePacket(packet)`. -/
def removePacket (s : Egress) (collection : QueueId) (packet : Packet) :
    Except EgressError Egress :=
  if (s.queues collection).any fun stored => stored.id == packet.id then
    .ok (s.setQueue collection (DelayBasedForwarding.removePacket packet (s.queues collection)))
  else .error .packetNotQueued

/-- What both `handleMessage` functions do with the packet they took. -/
def sendPacket (s : Egress) (collectionIdx : Nat) (scheduledPacket : Packet) :
    Except EgressError Egress :=
  match writeEDelay s.now scheduledPacket with
  | none => .error .optionMissing
  | some packet =>
      if s.txIdleCounter = 1 then
        .ok { s with
          txIdleCounter := s.txIdleCounter - 1,
          log := { s.log with
            sent := s.log.sent ++ [⟨s.now, collectionIdx, scheduledPacket, packet⟩] } }
      else .error (.handleMessageTxIdleCounter s.txIdleCounter)

/-! ## The expiry sweep -/

/-- `collection->removePacket(packet); delete packet`. -/
def deleteExpired (collection : QueueId) (s : Egress) (packet : Packet) :
    Except EgressError Egress := do
  let s ← s.removePacket collection packet
  .ok { s with log := { s.log with expired := s.log.expired ++ [(s.now, packet)] } }

/-- One turn of the outer loop of `lookForExpiredPackets`.  The schedulers differ
    in what they `check` for each expired packet. -/
def sweepCollection (check : Egress → Packet → Except EgressError Timer) (s : Egress)
    (collection : QueueId) : Except EgressError Egress := do
  let expiredPackets := (s.queues collection).filter (packetExpired s.now)
  let timer ← expiredPackets.foldlM (fun timer packet => check { s with timer := timer } packet)
    s.timer
  expiredPackets.foldlM (deleteExpired collection) { s with timer := timer }

end Egress

/-! ## The static scheduler -/

namespace DBFPriorityScheduler

/-- `if (selfMsg && collections[selfMsg->getCollectionIdx()]->getPacket(FRONTIDX) == packet)
    cancelAndDelete(selfMsg)`. -/
def checkExpired (s : Egress) (packet : Packet) : Except EgressError Timer :=
  match s.timer.selfMsg with
  | none => .ok s.timer
  | some msg => do
      let timer := s.timer.use msg
      let front ← s.getPacket msg.collectionIdx FRONTIDX
      if front.id == packet.id then
        .ok { timer.cancelAndDelete msg with expiryCancels := timer.expiryCancels + 1 }
      else .ok timer

def lookForExpiredPackets (s : Egress) : Except EgressError Egress :=
  s.registry.collections.foldlM (Egress.sweepCollection checkExpired) s

/-- The loop over `deltaQueueMap`: every non-empty queue becomes the candidate,
    and one with a ready front ends the loop. -/
def determineCollectionLoop (s : Egress) :
    List (SimTime × Nat) → Option Nat → Except EgressError (Option Nat)
  | [], collectionIdx => .ok collectionIdx
  | (_, index) :: rest, collectionIdx => do
      if ← s.canPopSomePacket index then
        let packet ← s.getPacket index FRONTIDX
        if isPacketReadyToSend s.now packet then .ok (some index)
        else determineCollectionLoop s rest (some index)
      else determineCollectionLoop s rest collectionIdx

/-- `none` is the index `-1`. -/
def determineCollection (s : Egress) : Except EgressError (Option Nat) :=
  determineCollectionLoop s s.registry.deltaQueueMap none

def schedule (s : Egress) : Except EgressError Timer := do
  match ← determineCollection s with
  | none => .ok s.timer
  | some collectionIdx =>
      let packet ← s.getPacket collectionIdx FRONTIDX
      let timer := (s.timer.cancelSelfMsg).newSelfMsg collectionIdx
      timer.scheduleAt s.now (scheduleTime s.now packet)

/-- `delete msg` needs no step of its own: a delivered message is in no event set. -/
def handleMessage (s : Egress) (msg : DBFPriorityScheduleMsg) : Except EgressError Egress :=
  match s.timer.selfMsg with
  | none => .ok s
  | some selfMsg =>
      if msg.id = selfMsg.id then do
        let collectionIdx := selfMsg.collectionIdx
        let s := { s with timer := { s.timer with selfMsg := none } }
        let (scheduledPacket, s) ← s.popPacket collectionIdx
        s.sendPacket collectionIdx scheduledPacket
      else .ok s

end DBFPriorityScheduler

/-! ## The dynamic scheduler -/

namespace DBFDynamicPriorityScheduler

/-- `if (selfMsg && scheduledPacket == packet)`. -/
def checkExpired (s : Egress) (packet : Packet) : Except EgressError Timer :=
  match s.timer.selfMsg with
  | none => .ok s.timer
  | some msg =>
      if s.timer.scheduledPacket.map Packet.id = some packet.id then
        let timer := { s.timer with scheduledPacket := none }
        .ok { timer.cancelAndDelete msg with expiryCancels := timer.expiryCancels + 1 }
      else .ok s.timer

def lookForExpiredPackets (s : Egress) : Except EgressError Egress :=
  s.registry.collections.foldlM (Egress.sweepCollection checkExpired) s

/-- Exact, and `0` where the window of a ready and unexpired packet is a point:
    the source then converts the quotient `0.0 / 0.0` and clamps it to `0`. -/
def calculateDynamicPriority (simTime : SimTime) (packet : Packet) : SimTime :=
  match packet.tag with
  | some tag =>
      if hasInfiniteDmax tag then 0
      else
        let priority := (simTime - tag.tMin) / (tag.tMax - tag.tMin)
        let priority := if priority < 0 then 0 else priority
        if priority > 1 then 1 else priority
  | none => 0

/-- The condition under which `newPacket` replaces `highestPriorityPacket`. -/
def replaces (simTime : SimTime) (highestPriorityPacket newPacket : Packet) : Bool :=
  (!isDBFPacket highestPriorityPacket && isDBFPacket newPacket) ||
  (isDBFPacket highestPriorityPacket && isDBFPacket newPacket &&
    decide (calculateDynamicPriority simTime highestPriorityPacket <
      calculateDynamicPriority simTime newPacket))

/-- The loop over the packets of one collection, up to the first unready one.
    `collectionIdx` and `highestPriorityPacket` are set together. -/
def packetLoop (simTime : SimTime) (index : Nat) :
    List Packet → Option (Nat × Packet) → Option (Nat × Packet)
  | [], highest => highest
  | packet :: rest, highest =>
      if isPacketReadyToSend simTime packet then
        match highest with
        | some (collectionIdx, highestPriorityPacket) =>
            if replaces simTime highestPriorityPacket packet then
              packetLoop simTime index rest (some (index, packet))
            else packetLoop simTime index rest (some (collectionIdx, highestPriorityPacket))
        | none => packetLoop simTime index rest (some (index, packet))
      else highest

/-- The loop over `deltaQueueMap`, up to the `break` that follows the first
    collection with a result. -/
def collectionLoop (s : Egress) :
    List (SimTime × Nat) → Option (Nat × Packet) → Except EgressError (Option (Nat × Packet))
  | [], _ => .ok none
  | (_, index) :: rest, highest => do
      if ← s.canPopSomePacket index then
        let packets ← s.getPackets index
        match packetLoop s.now index packets highest with
        | some result => .ok (some result)
        | none => collectionLoop s rest none
      else collectionLoop s rest highest

def prepareSelfMsg (s : Egress) : Except EgressError Timer := do
  match ← collectionLoop s s.registry.deltaQueueMap none with
  | none => .ok s.timer
  | some (collectionIdx, highestPriorityPacket) =>
      let timer := match s.timer.selfMsg with
        | none => s.timer
        | some msg => { s.timer with scheduledPacket := none }.cancelAndDelete msg
      .ok { timer.newSelfMsg collectionIdx with scheduledPacket := some highestPriorityPacket }

/-- A pending `selfMsg` that `prepareSelfMsg` left in place is scheduled again. -/
def schedule (s : Egress) : Except EgressError Timer := do
  let timer ← prepareSelfMsg s
  match timer.selfMsg with
  | none => .ok timer
  | some _ =>
      match timer.scheduledPacket with
      | none => .error .nullPacket
      | some scheduledPacket => timer.scheduleAt s.now (scheduleTime s.now scheduledPacket)

def handleMessage (s : Egress) (msg : DBFPriorityScheduleMsg) : Except EgressError Egress :=
  match s.timer.selfMsg with
  | none => .ok s
  | some selfMsg =>
      if msg.id = selfMsg.id then
        let collectionIdx := selfMsg.collectionIdx
        let scheduledPacket := s.timer.scheduledPacket
        let s := { s with timer := { s.timer with scheduledPacket := none, selfMsg := none } }
        match s.registry.collections[collectionIdx]?, scheduledPacket with
        | none, _ => .error .indexOutOfRange
        | _, none => .error .nullPacket
        | some collection, some scheduledPacket => do
            let s ← s.removePacket collection scheduledPacket
            s.sendPacket collectionIdx scheduledPacket
      else .ok s

end DBFDynamicPriorityScheduler

/-! ## The functions the schedulers inherit -/

/-- The virtual functions of a scheduler. -/
structure Scheduler where
  handleMessage : Egress → DBFPriorityScheduleMsg → Except EgressError Egress
  schedule : Egress → Except EgressError Timer
  lookForExpiredPackets : Egress → Except EgressError Egress

def dbfPriorityScheduler : Scheduler :=
  { handleMessage := DBFPriorityScheduler.handleMessage,
    schedule := DBFPriorityScheduler.schedule,
    lookForExpiredPackets := DBFPriorityScheduler.lookForExpiredPackets }

def dbfDynamicPriorityScheduler : Scheduler :=
  { handleMessage := DBFDynamicPriorityScheduler.handleMessage,
    schedule := DBFDynamicPriorityScheduler.schedule,
    lookForExpiredPackets := DBFDynamicPriorityScheduler.lookForExpiredPackets }

namespace Scheduler

variable (scheduler : Scheduler)

def handleCanPopPacket (s : Egress) : Except EgressError Egress := do
  let s ← scheduler.lookForExpiredPackets s
  if s.txIdleCounter = 1 then
    let timer ← scheduler.schedule s
    .ok { s with timer := timer }
  else .ok s

/-- `receiveSignal` for the `TX_IDLE` state of the MAC. -/
def receiveSignal (s : Egress) : Except EgressError Egress := do
  let s := { s with txIdleCounter := s.txIdleCounter + 1 }
  if s.txIdleCounter = 1 then
    let s ← scheduler.lookForExpiredPackets s
    let timer ← scheduler.schedule s
    .ok { s with timer := timer }
  else .error (.receiveSignalTxIdleCounter s.txIdleCounter)

/-- `PacketQueue::pushPacket` of `queue`, with the notification of the scheduler. -/
def pushPacket (config : EgressConfig) (s : Egress) (queue : QueueId) (packet : Packet) :
    Except EgressError Egress :=
  let (kept, dropped) :=
    DelayBasedForwarding.pushPacket (config.capacity queue) s.now packet (s.queues queue)
  let s := { s.setQueue queue kept with
    log := { s.log with dropped := s.log.dropped ++ dropped } }
  if kept.isEmpty then .ok s else scheduler.handleCanPopPacket s

/-- `DBFPriorityClassifier::handleMessage`. -/
def classifierHandleMessage (config : EgressConfig) (s : Egress) (packet : Packet) :
    Except EgressError Egress :=
  match s.registry.classifyPacket config.classifier packet with
  | .error error => .error (.classifier error)
  | .ok (consumerIdx, registry) =>
      match registry.consumers[consumerIdx]? with
      | none => .error .indexOutOfRange
      | some consumer => scheduler.pushPacket config { s with registry := registry } consumer packet

end Scheduler

/-! ## Runs -/

inductive EgressEvent where
  | push (simTime : SimTime) (packet : Packet)
  | txIdle (simTime : SimTime)
  | timer (simTime : SimTime) (msg : DBFPriorityScheduleMsg)
deriving DecidableEq, Repr

def EgressEvent.simTime : EgressEvent → SimTime
  | .push simTime _ => simTime
  | .txIdle simTime => simTime
  | .timer simTime _ => simTime

/-- The handler of an event.  A pushed packet is a new object; a timer that fires
    leaves the event set. -/
def Scheduler.handle (scheduler : Scheduler) (config : EgressConfig) (s : Egress) :
    EgressEvent → Except EgressError Egress
  | .push simTime packet =>
      let packet := { packet with id := s.nextPacket }
      scheduler.classifierHandleMessage config
        { s with now := simTime, nextPacket := s.nextPacket + 1,
                 log := { s.log with pushed := s.log.pushed ++ [packet] } } packet
  | .txIdle simTime =>
      scheduler.receiveSignal
        { s with now := simTime, log := { s.log with idleSignals := s.log.idleSignals + 1 } }
  | .timer simTime msg =>
      scheduler.handleMessage
        { s with now := simTime, timer := { s.timer with
            events := s.timer.events.filter fun event => event.1.id != msg.id } } msg

def Delivers (s : Egress) : EgressEvent → Prop
  | .push _ _ => True
  | .txIdle _ => True
  | .timer simTime msg => (msg, simTime) ∈ s.timer.events

/-- Time does not go back and passes no pending timer; what fires is pending. -/
def Enabled (s : Egress) (event : EgressEvent) : Prop :=
  s.now ≤ event.simTime ∧ (∀ pending ∈ s.timer.events, event.simTime ≤ pending.2) ∧
    Delivers s event

/-- A tag `DBFComputer` forwards, pushed no earlier than it was received. -/
def Forwarded (simTime : SimTime) (tag : DBFHeaderTag) : Prop :=
  tag.tRcv ≤ simTime ∧ (tag.dMax = 0 ∨ max tag.tMin tag.tRcv ≤ tag.tMax)

def Admissible : EgressEvent → Prop
  | .push simTime packet => ∀ tag ∈ packet.tag, Forwarded simTime tag
  | .txIdle _ => True
  | .timer _ _ => True

def EgressStep (scheduler : Scheduler) (config : EgressConfig) (s : Egress)
    (event : EgressEvent) (s' : Egress) : Prop :=
  Enabled s event ∧ Admissible event ∧ scheduler.handle config s event = .ok s'

/-- A run of one egress from its initialization. -/
abbrev EgressRun (scheduler : Scheduler) (config : EgressConfig) (count : Nat)
    (history : List (Transition Egress EgressEvent)) (s : Egress) : Prop :=
  Run (EgressStep scheduler config) (Egress.initial count) history s

/-! Whether a step is possible, and to which state, is computed. -/

instance decidableDelivers (s : Egress) : (event : EgressEvent) → Decidable (Delivers s event)
  | .push _ _ => .isTrue trivial
  | .txIdle _ => .isTrue trivial
  | .timer simTime msg => inferInstanceAs (Decidable ((msg, simTime) ∈ s.timer.events))

instance decidableEnabled (s : Egress) (event : EgressEvent) : Decidable (Enabled s event) :=
  inferInstanceAs (Decidable (_ ∧ _ ∧ _))

instance decidableForwarded (simTime : SimTime) (tag : DBFHeaderTag) :
    Decidable (Forwarded simTime tag) :=
  inferInstanceAs (Decidable (_ ∧ _))

instance decidableAdmissible : (event : EgressEvent) → Decidable (Admissible event)
  | .push simTime packet => inferInstanceAs (Decidable (∀ tag ∈ packet.tag, Forwarded simTime tag))
  | .txIdle _ => .isTrue trivial
  | .timer _ _ => .isTrue trivial

def egressNext (scheduler : Scheduler) (config : EgressConfig) (s : Egress)
    (event : EgressEvent) : Option Egress :=
  if Enabled s event ∧ Admissible event then
    match scheduler.handle config s event with
    | .error _ => none
    | .ok s' => some s'
  else none

theorem egressStep_of_next (scheduler : Scheduler) (config : EgressConfig) (s : Egress)
    (event : EgressEvent) (s' : Egress) (h : egressNext scheduler config s event = some s') :
    EgressStep scheduler config s event s' := by
  unfold egressNext at h
  split at h
  · next hpossible =>
      refine ⟨hpossible.1, hpossible.2, ?_⟩
      cases hhandle : scheduler.handle config s event with
      | error error =>
          rw [hhandle] at h
          cases h
      | ok t =>
          rw [hhandle] at h
          cases h
          rfl
  · cases h

end DelayBasedForwarding
