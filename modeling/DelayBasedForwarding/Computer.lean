import DelayBasedForwarding.SimTimeArithmetic

/-!
# The parameter computer and the network layer

`DBFComputer` holds the Service Level Objective of its node and the Forwarding
Information Base, and turns the option of a packet into the send window
`[tMin, tMax]` of this node.  `DBFIpv4` calls it when a packet is encapsulated
at its origin and when it is handed to the network interface, and
`IngressForwarder` tags what arrives from the network.
-/

namespace DelayBasedForwarding

/-- What the code throws, and the places where it computes on a null pointer or with
    the quotient of zero by zero. -/
inductive ComputerError where
  | dMaxBelowDMin                       -- "dMax must be greater than dMin."
  | negativeBound                       -- "dMin and dMax must be positive"
  | fibMiss (address : Ipv4Address)     -- `std::out_of_range` of `map::at`
  | noHeader                            -- no IPv4 header at the front
  | noOption                            -- null `DBFIpv4Option`
  | noTag                               -- null `DBFHeaderTag`
  | tagPresent                          -- `addTag` on a tagged packet
  | zeroHops                            -- `SimTime` of an infinite quotient by zero hops
  | simTime (error : SimTimeError)      -- any other conversion or sum of times
deriving DecidableEq, Repr

/-! ## The Forwarding Information Base -/

structure DbfFibEntry where
  hops : Int32
  lDelay : SimTime
  hDelay : SimTime
  fromDelay : SimTime
  toDelay : SimTime
deriving DecidableEq

/-- One `node` element of the `dbfFIB` document: its address is resolved, its
    delays are parsed, and `hops` is still the text of the attribute. -/
structure FibNode where
  ip : Ipv4Address
  hops : List Char
  lDelay : SimTime
  hDelay : SimTime
  fromDelay : SimTime
  toDelay : SimTime

/-- The value of a run of decimal digits, read until the first other character. -/
def digitsValue : Nat → List Char → Nat
  | value, [] => value
  | value, c :: rest =>
      if c.isDigit then digitsValue (10 * value + (c.toNat - 48)) rest else value

/-- White space as `isspace` has it. -/
def isSpace (c : Char) : Bool := c.toNat == 32 || (9 ≤ c.toNat && c.toNat ≤ 13)

/-- The number a text begins with: leading white space, an optional sign, digits. -/
def leadingNumber (text : List Char) : ℤ :=
  match text.dropWhile isSpace with
  | '-' :: rest => -(digitsValue 0 rest : ℤ)
  | '+' :: rest => digitsValue 0 rest
  | rest => digitsValue 0 rest

/-- `atoi`: that number, saturated at the range of `long` and then converted to `int`. -/
def atoi (text : List Char) : Int32 :=
  Int32.ofInt (max (-2 ^ 63) (min (2 ^ 63 - 1) (leadingNumber text)))

/-- The constructor call in the loading loop. -/
def FibNode.entry (node : FibNode) : DbfFibEntry :=
  { hops := atoi node.hops, lDelay := node.lDelay, hDelay := node.hDelay,
    fromDelay := node.fromDelay, toDelay := node.toDelay }

/-- `std::map<Ipv4Address, DbfFibEntry>`. -/
abbrev DbfFib := List (Ipv4Address × DbfFibEntry)

/-- `map::insert` leaves the entry of a key that is already present. -/
def DbfFib.insert (fib : DbfFib) (address : Ipv4Address) (entry : DbfFibEntry) : DbfFib :=
  if (fib.lookup address).isSome then fib else fib ++ [(address, entry)]

/-- `map::at`. -/
def DbfFib.at (fib : DbfFib) (address : Ipv4Address) : Except ComputerError DbfFibEntry :=
  match fib.lookup address with
  | some entry => .ok entry
  | none => .error (.fibMiss address)

def loadFib (nodes : List FibNode) : DbfFib :=
  nodes.foldl (fun fib node => fib.insert node.ip node.entry) []

/-! ## The computer -/

/-- The parameters `initialize` reads; `datarate` is the parameter `_datarate`
    of the network when the network has one. -/
structure ComputerParameters where
  dMin : SimTime
  dMax : SimTime
  admitBit : UInt32
  datarate : Option ℚ
  dbfFIB : List FibNode

structure DBFComputer where
  dMin : SimTime
  dMax : SimTime
  admitBit : UInt32
  cableDatarate : ℚ
  dbfFIB : DbfFib

/-- `DBFComputer::initialize`. -/
def DBFComputer.initialize (par : ComputerParameters) : Except ComputerError DBFComputer :=
  if par.dMin > 0 && par.dMax > 0 && par.dMin > par.dMax then
    .error .dMaxBelowDMin
  else if par.dMin < 0 || par.dMax < 0 then
    .error .negativeBound
  else
    .ok { dMin := par.dMin, dMax := par.dMax, admitBit := par.admitBit,
          cableDatarate := par.datarate.getD 0, dbfFIB := loadFib par.dbfFIB }

namespace DBFComputer

variable (computer : DBFComputer)

def STARTEDELAY : SimTime := 0

def ETHERNET_HEADER_BITS : ℚ := 26 * 8

def ETHERNET_MIN_PAYLOAD_BITS : ℚ := 46 * 8

def isBEMode : Bool := computer.dMin == 0 && computer.dMax == 0

def addSLOParameters (packet : Packet) : Except ComputerError Packet :=
  match packet.ipv4Header with
  | none => .error .noHeader
  | some header =>
      let option : DBFIpv4Option :=
        { dMin := computer.dMin, dMax := computer.dMax, admitBit := computer.admitBit,
          eDelay := STARTEDELAY }
      .ok (updateDBFIpv4Header packet (header.addOption (.dbf option)))

/-- `prepareDBFTag`: the option's parameters and the FIB rows of the source and
    the destination.  An `int` hop count becomes the tag's `uint32_t`. -/
def prepareDBFTag (packet : Packet) (option : DBFIpv4Option) (header : Ipv4Header) :
    Except ComputerError DBFHeaderTag :=
  match packet.tag with
  | none => .error .noTag
  | some tag => do
      let source ← computer.dbfFIB.at header.srcAddress
      let destination ← computer.dbfFIB.at header.destAddress
      return { tag with
        dMin := option.dMin, dMax := option.dMax, eDelay := option.eDelay,
        admitBit := option.admitBit,
        fromHops := source.hops.toUInt32, toHops := destination.hops.toUInt32,
        lDelay := source.lDelay, hDelay := destination.hDelay }

def calculateTransmissionTime (packet : Packet) : SimTime :=
  if computer.cableDatarate ≠ 0 then
    let ethPadding : ℚ :=
      if ETHERNET_MIN_PAYLOAD_BITS ≤ packet.bitLength then 0
      else ETHERNET_MIN_PAYLOAD_BITS - packet.bitLength
    (packet.bitLength + ETHERNET_HEADER_BITS + ethPadding) / computer.cableDatarate
  else 0

def updateEdelay (tag : DBFHeaderTag) (transmissionTime : SimTime) : DBFHeaderTag :=
  if tag.fromNetwork then
    { tag with eDelay := tag.eDelay + tag.lDelay + transmissionTime }
  else tag

def getDelay (hops transmissionTime delay : ℚ) : SimTime := hops * transmissionTime + delay

def calculateFqDelay (dBound : SimTime) (tag : DBFHeaderTag) : SimTime :=
  dBound - tag.toDelay - tag.eDelay

/-- A quotient by a zero hop count is infinite, and `SimTime` throws, or it is no number,
    and its conversion is undefined. -/
def zeroHopsError (fqDelay : SimTime) : ComputerError :=
  if fqDelay = 0 then .simTime .notANumber else .zeroHops

def calculateLqBudget (fqDelay : SimTime) (tag : DBFHeaderTag) : Except ComputerError SimTime :=
  if tag.toHops = 0 then .error (zeroHopsError fqDelay) else .ok (fqDelay / tag.toHops.toNat)

def calculateSendTime (lqBudget : SimTime) (tag : DBFHeaderTag) : SimTime :=
  lqBudget + tag.tRcv

/-- The first half of `processDBFPacket`: the tag with the delays of this node,
    the option rewritten with the experienced delay. -/
def prepareDelays (packet : Packet) : Except ComputerError (DBFHeaderTag × Ipv4Header) :=
  match getMutableIpv4Header packet with
  | none => .error .noHeader
  | some header =>
  match getMutableDBFIpv4Option header with
  | none => .error .noOption
  | some option => do
      let tag ← computer.prepareDBFTag packet option header
      let transmissionTime := computer.calculateTransmissionTime packet
      let source ← computer.dbfFIB.at header.srcAddress
      let destination ← computer.dbfFIB.at header.destAddress
      let tag := { tag with
        fromDelay := getDelay tag.fromHops.toNat transmissionTime source.fromDelay,
        toDelay := getDelay tag.toHops.toNat transmissionTime destination.toDelay }
      let tag := updateEdelay tag transmissionTime
      let header := removeDBFIpv4Options header
      let option := { option with eDelay := tag.eDelay }
      return (tag, header.addOption (.dbf option))

/-- The second half of `processDBFPacket`: queueing budgets and send times.  A
    `dMin` or `dMax` of zero is no bound, and its budget is computed from zero. -/
def calculateWindow (tag : DBFHeaderTag) : Except ComputerError DBFHeaderTag := do
  let fqdelayMin := if tag.dMin ≠ 0 then calculateFqDelay tag.dMin tag else 0
  let lqBudgetMin ← calculateLqBudget fqdelayMin tag
  let tag := { tag with lqBudgetMin := lqBudgetMin, tMin := calculateSendTime lqBudgetMin tag }
  let fqdelayMax := if hasInfiniteDmax tag then 0 else calculateFqDelay tag.dMax tag
  let lqBudgetMax ← calculateLqBudget fqdelayMax tag
  return { tag with lqBudgetMax := lqBudgetMax, tMax := calculateSendTime lqBudgetMax tag }

def processDBFPacket (packet : Packet) : Except ComputerError Packet := do
  let (tag, header) ← computer.prepareDelays packet
  let tag ← calculateWindow tag
  return { updateDBFIpv4Header packet header with tag := some tag }

def isAlreadyExpired (packet : Packet) : Bool :=
  match packet.tag with
  | none => false
  | some tag => !hasInfiniteDmax tag && decide (tag.tMax < tag.tRcv)

end DBFComputer

/-! ## The network layer and the ingress -/

/-- `DBFIpv4::sendPacketToNIC`; `none` is a packet that was deleted. -/
def DBFIpv4.sendPacketToNIC (computer : DBFComputer) (packet : Packet) :
    Except ComputerError (Option Packet) :=
  if packet.tag.isSome then do
    let packet ← computer.processDBFPacket packet
    return if DBFComputer.isAlreadyExpired packet then none else some packet
  else return some packet

/-- `DBFIpv4::encapsulate` on the packet `Ipv4::encapsulate` has given its header. -/
def DBFIpv4.encapsulate (computer : DBFComputer) (simTime : SimTime) (packet : Packet) :
    Except ComputerError Packet :=
  if computer.isBEMode then .ok packet
  else if packet.tag.isSome then .error .tagPresent
  else
    computer.addSLOParameters
      { packet with tag := some { tRcv := simTime, fromNetwork := false } }

def IngressForwarder.containsDBFOptions (packet : Packet) : Bool :=
  match packet.ipv4Header with
  | none => false
  | some header => (getMutableDBFIpv4Option header).isSome

def IngressForwarder.attachTrcv (simTime : SimTime) (packet : Packet) :
    Except ComputerError Packet :=
  if packet.tag.isSome then .error .tagPresent
  else .ok { packet with tag := some { tRcv := simTime, fromNetwork := true } }

def IngressForwarder.handleMessage (simTime : SimTime) (packet : Packet) :
    Except ComputerError Packet :=
  if packet.ipv4Header.isSome && IngressForwarder.containsDBFOptions packet then
    IngressForwarder.attachTrcv simTime packet
  else .ok packet

/-! ## What `processDBFPacket` computes

The two halves of the function in closed form: the tag a node ends up with is a
function of the received tag and option, the two FIB rows and the transmission
time. -/

namespace DBFComputer

/-- The experienced delay of a packet that has reached this node's egress queue. -/
def experienced (tag : DBFHeaderTag) (option : DBFIpv4Option) (source : DbfFibEntry)
    (transmissionTime : SimTime) : SimTime :=
  if tag.fromNetwork then option.eDelay + source.lDelay + transmissionTime else option.eDelay

/-- The delay from this node to the destination, transmissions included. -/
def remainingDelay (destination : DbfFibEntry) (transmissionTime : SimTime) : SimTime :=
  destination.hops.toUInt32.toNat * transmissionTime + destination.toDelay

/-- What a bound leaves for queueing; zero is no bound. -/
def queueingDelay (bound eDelay : SimTime) (destination : DbfFibEntry)
    (transmissionTime : SimTime) : SimTime :=
  if bound = 0 then 0 else bound - remainingDelay destination transmissionTime - eDelay

/-- This node's share of what a bound leaves for queueing; zero is no bound. -/
def localBudget (bound eDelay : SimTime) (destination : DbfFibEntry)
    (transmissionTime : SimTime) : SimTime :=
  (if bound = 0 then 0 else bound - remainingDelay destination transmissionTime - eDelay) /
    destination.hops.toUInt32.toNat

def processedTag (tag : DBFHeaderTag) (option : DBFIpv4Option)
    (source destination : DbfFibEntry) (transmissionTime : SimTime) : DBFHeaderTag :=
  let eDelay := experienced tag option source transmissionTime
  let lqBudgetMin := localBudget option.dMin eDelay destination transmissionTime
  let lqBudgetMax := localBudget option.dMax eDelay destination transmissionTime
  { lDelay := source.lDelay, hDelay := destination.hDelay,
    fromDelay := source.hops.toUInt32.toNat * transmissionTime + source.fromDelay,
    toDelay := remainingDelay destination transmissionTime,
    fromHops := source.hops.toUInt32, toHops := destination.hops.toUInt32,
    admitBit := option.admitBit, tRcv := tag.tRcv, eDelay := eDelay,
    dMin := option.dMin, dMax := option.dMax,
    lqBudgetMin := lqBudgetMin, lqBudgetMax := lqBudgetMax,
    tMin := lqBudgetMin + tag.tRcv, tMax := lqBudgetMax + tag.tRcv,
    fromNetwork := tag.fromNetwork }

theorem initialize_ok {par : ComputerParameters} {computer : DBFComputer}
    (h : DBFComputer.initialize par = .ok computer) :
    computer.dMin = par.dMin ∧ computer.dMax = par.dMax ∧ 0 ≤ par.dMin ∧ 0 ≤ par.dMax ∧
      (0 < par.dMin → 0 < par.dMax → par.dMin ≤ par.dMax) := by
  unfold DBFComputer.initialize at h
  split at h
  · cases h
  · next horder =>
      split at h
      · cases h
      · next hsign =>
          cases h
          simp only [Bool.or_eq_true, decide_eq_true_eq, not_or, not_lt] at hsign
          refine ⟨rfl, rfl, hsign.1, hsign.2, fun hmin hmax => ?_⟩
          by_contra hlt
          exact horder (by simp [hmin, hmax, not_le.mp hlt])

theorem initialize_dbfFIB {par : ComputerParameters} {computer : DBFComputer}
    (h : DBFComputer.initialize par = .ok computer) : computer.dbfFIB = loadFib par.dbfFIB := by
  unfold DBFComputer.initialize at h
  split at h
  · cases h
  · split at h
    · cases h
    · cases h
      rfl

theorem at_of_lookup {fib : DbfFib} {address : Ipv4Address} {entry : DbfFibEntry}
    (h : fib.lookup address = some entry) : fib.at address = .ok entry := by
  simp [DbfFib.at, h]

theorem calculateWindow_ok (tag : DBFHeaderTag) (hhops : tag.toHops ≠ 0) :
    calculateWindow tag = .ok
      (let lqBudgetMin :=
          (if tag.dMin = 0 then 0 else tag.dMin - tag.toDelay - tag.eDelay) / tag.toHops.toNat
       let lqBudgetMax :=
          (if tag.dMax = 0 then 0 else tag.dMax - tag.toDelay - tag.eDelay) / tag.toHops.toNat
       { tag with
         lqBudgetMin := lqBudgetMin, tMin := lqBudgetMin + tag.tRcv,
         lqBudgetMax := lqBudgetMax, tMax := lqBudgetMax + tag.tRcv }) := by
  by_cases hmin : tag.dMin = 0 <;> by_cases hmax : tag.dMax = 0 <;>
    simp [calculateWindow, calculateLqBudget, calculateFqDelay, calculateSendTime,
      hasInfiniteDmax, hhops, hmin, hmax, bind, Except.bind, pure, Except.pure]

theorem processDBFPacket_ok (computer : DBFComputer) {packet : Packet} {header : Ipv4Header}
    {option : DBFIpv4Option} {tag : DBFHeaderTag} {source destination : DbfFibEntry}
    (hheader : packet.ipv4Header = some header)
    (hoption : getMutableDBFIpv4Option header = some option)
    (htag : packet.tag = some tag)
    (hsource : computer.dbfFIB.lookup header.srcAddress = some source)
    (hdestination : computer.dbfFIB.lookup header.destAddress = some destination)
    (hhops : destination.hops.toUInt32 ≠ 0) :
    let transmissionTime := computer.calculateTransmissionTime packet
    computer.processDBFPacket packet = .ok
      { updateDBFIpv4Header packet ((removeDBFIpv4Options header).addOption (.dbf
          { option with eDelay := experienced tag option source transmissionTime })) with
        tag := some (processedTag tag option source destination transmissionTime) } := by
  intro transmissionTime
  have hdelays : computer.prepareDelays packet = .ok
      ({ tag with
          dMin := option.dMin, dMax := option.dMax, admitBit := option.admitBit,
          eDelay := experienced tag option source transmissionTime,
          fromHops := source.hops.toUInt32, toHops := destination.hops.toUInt32,
          lDelay := source.lDelay, hDelay := destination.hDelay,
          fromDelay := source.hops.toUInt32.toNat * transmissionTime + source.fromDelay,
          toDelay := remainingDelay destination transmissionTime },
        (removeDBFIpv4Options header).addOption (.dbf
          { option with eDelay := experienced tag option source transmissionTime })) := by
    simp only [prepareDelays, getMutableIpv4Header, hheader, hoption, prepareDBFTag, htag,
      at_of_lookup hsource, at_of_lookup hdestination, bind, Except.bind, pure, Except.pure]
    by_cases hnetwork : tag.fromNetwork <;>
      simp [updateEdelay, experienced, remainingDelay, getDelay, hnetwork, transmissionTime]
  simp only [processDBFPacket, hdelays, bind, Except.bind, pure, Except.pure]
  rw [calculateWindow_ok _ hhops]
  rfl

/-- Without a hop to go the first quotient is by zero. -/
theorem processDBFPacket_zeroHops (computer : DBFComputer) {packet : Packet}
    {header : Ipv4Header} {option : DBFIpv4Option} {tag : DBFHeaderTag}
    {source destination : DbfFibEntry}
    (hheader : packet.ipv4Header = some header)
    (hoption : getMutableDBFIpv4Option header = some option)
    (htag : packet.tag = some tag)
    (hsource : computer.dbfFIB.lookup header.srcAddress = some source)
    (hdestination : computer.dbfFIB.lookup header.destAddress = some destination)
    (hzero : destination.hops.toUInt32 = 0) :
    let transmissionTime := computer.calculateTransmissionTime packet
    computer.processDBFPacket packet = .error (zeroHopsError (queueingDelay option.dMin
      (experienced tag option source transmissionTime) destination transmissionTime)) := by
  intro transmissionTime
  by_cases hmin : option.dMin = 0 <;> by_cases hnetwork : tag.fromNetwork <;>
    simp [processDBFPacket, prepareDelays, prepareDBFTag, getMutableIpv4Header, hheader,
      hoption, htag, at_of_lookup hsource, at_of_lookup hdestination, updateEdelay,
      calculateWindow, calculateLqBudget, calculateFqDelay, getDelay, queueingDelay,
      remainingDelay, experienced, hzero, hmin, hnetwork, transmissionTime, bind, Except.bind,
      pure, Except.pure]

/-- The function succeeds only with both rows and a hop to go. -/
theorem processDBFPacket_cases (computer : DBFComputer) {packet queued : Packet}
    {header : Ipv4Header} {option : DBFIpv4Option} {tag : DBFHeaderTag}
    (hheader : packet.ipv4Header = some header)
    (hoption : getMutableDBFIpv4Option header = some option) (htag : packet.tag = some tag)
    (h : computer.processDBFPacket packet = .ok queued) :
    ∃ source destination, computer.dbfFIB.lookup header.srcAddress = some source ∧
      computer.dbfFIB.lookup header.destAddress = some destination ∧
      destination.hops.toUInt32 ≠ 0 := by
  cases hsource : computer.dbfFIB.lookup header.srcAddress with
  | none =>
      simp [processDBFPacket, prepareDelays, prepareDBFTag, getMutableIpv4Header, hheader, hoption,
        htag, DbfFib.at, hsource, bind, Except.bind] at h
  | some source =>
      cases hdestination : computer.dbfFIB.lookup header.destAddress with
      | none =>
          simp [processDBFPacket, prepareDelays, prepareDBFTag, getMutableIpv4Header, hheader,
            hoption, htag, DbfFib.at, hsource, hdestination, bind, Except.bind] at h
      | some destination =>
          refine ⟨source, destination, rfl, rfl, fun hzero => ?_⟩
          cases (computer.processDBFPacket_zeroHops hheader hoption htag hsource hdestination
            hzero).symm.trans h

end DBFComputer

end DelayBasedForwarding
