import DelayBasedForwarding.Computer

/-!
# The parameter computer with rounding

`DBFComputer` as it computes with the arithmetic of simulation times: every
conversion between `simtime_t` and `double` rounds, and every conversion and sum
checks its range.  With exact arithmetic it is the computer of `Computer`.  With
any other the times it computes are functions of the received tag and option, the
two FIB rows and the length of the packet, as long as all of them are in range.
-/

namespace DelayBasedForwarding

open SimTimeArithmetic

def ComputerError.ofSimTime {α : Type} : Except SimTimeError α → Except ComputerError α
  | .ok value => .ok value
  | .error error => .error (.simTime error)

open ComputerError

@[simp] theorem ofSimTime_eq_ok_iff {α : Type} {result : Except SimTimeError α} {value : α} :
    ofSimTime result = .ok value ↔ result = .ok value := by
  cases result <;> simp [ofSimTime]

@[simp] theorem bind_eq_ok_iff {ε α β : Type} {result : Except ε α} {next : α → Except ε β}
    {value : β} : (result >>= next) = .ok value ↔ ∃ a, result = .ok a ∧ next a = .ok value := by
  cases result with
  | ok a => exact ⟨fun h => ⟨a, rfl, h⟩, fun ⟨_, ha, h⟩ => by cases ha; exact h⟩
  | error error => exact ⟨fun h => (nomatch h), fun ⟨_, ha, _⟩ => (nomatch ha)⟩

namespace Rounded

variable (arith : SimTimeArithmetic) (computer : DBFComputer)

/-! ## The functions -/

/-- The bits on the wire, a `double`. -/
def frameBits (packet : Packet) : ℚ :=
  let bitLength := arith.round packet.bitLength
  let ethPadding : ℚ :=
    if DBFComputer.ETHERNET_MIN_PAYLOAD_BITS ≤ bitLength then 0
    else arith.round (DBFComputer.ETHERNET_MIN_PAYLOAD_BITS - bitLength)
  arith.round (arith.round (bitLength + DBFComputer.ETHERNET_HEADER_BITS) + ethPadding)

def calculateTransmissionTime (packet : Packet) : Except SimTimeError SimTime :=
  if computer.cableDatarate ≠ 0 then
    arith.ofDouble (arith.round (frameBits arith packet / computer.cableDatarate))
  else .ok 0

def updateEdelay (tag : DBFHeaderTag) (transmissionTime : SimTime) :
    Except SimTimeError DBFHeaderTag :=
  if tag.fromNetwork then do
    let eDelay ← arith.add tag.eDelay tag.lDelay
    let eDelay ← arith.add eDelay transmissionTime
    return { tag with eDelay := eDelay }
  else return tag

/-- The arguments are the results of `dbl()` and a hop count. -/
def getDelay (hops transmissionTime delay : ℚ) : Except SimTimeError SimTime :=
  arith.ofDouble (arith.round (arith.round (hops * transmissionTime) + delay))

def calculateFqDelay (dBound : SimTime) (tag : DBFHeaderTag) : Except SimTimeError SimTime := do
  let delay ← arith.sub dBound tag.toDelay
  arith.sub delay tag.eDelay

/-- The total queueing budget of a bound; zero is no bound. -/
def fqDelay (dBound : SimTime) (tag : DBFHeaderTag) : Except SimTimeError SimTime :=
  if dBound = 0 then .ok 0 else calculateFqDelay arith dBound tag

/-- A zero hop count makes the quotient infinite, which `SimTime` refuses, or no number. -/
def calculateLqBudget (fqDelay : SimTime) (tag : DBFHeaderTag) : Except ComputerError SimTime :=
  if tag.toHops = 0 then
    if arith.dbl fqDelay = 0 then ofSimTime arith.notANumber else .error .zeroHops
  else ofSimTime (arith.ofDouble (arith.round (arith.dbl fqDelay / tag.toHops.toNat)))

def calculateSendTime (lqBudget : SimTime) (tag : DBFHeaderTag) : Except SimTimeError SimTime :=
  arith.add lqBudget tag.tRcv

/-- The first half of `processDBFPacket`, up to the rewritten option. -/
def prepareDelays (packet : Packet) : Except ComputerError (DBFHeaderTag × Ipv4Header) :=
  match getMutableIpv4Header packet with
  | none => .error .noHeader
  | some header =>
  match getMutableDBFIpv4Option header with
  | none => .error .noOption
  | some option => do
      let tag ← computer.prepareDBFTag packet option header
      let transmissionTime ← ofSimTime (calculateTransmissionTime arith computer packet)
      let source ← computer.dbfFIB.at header.srcAddress
      let fromDelay ← ofSimTime (getDelay arith tag.fromHops.toNat (arith.dbl transmissionTime)
        (arith.dbl source.fromDelay))
      let destination ← computer.dbfFIB.at header.destAddress
      let toDelay ← ofSimTime (getDelay arith tag.toHops.toNat (arith.dbl transmissionTime)
        (arith.dbl destination.toDelay))
      let tag := { tag with fromDelay := fromDelay, toDelay := toDelay }
      let tag ← ofSimTime (updateEdelay arith tag transmissionTime)
      let header := removeDBFIpv4Options header
      let option := { option with eDelay := tag.eDelay }
      return (tag, header.addOption (.dbf option))

/-- The second half, up to the second budget. -/
def calculateBudgets (tag : DBFHeaderTag) : Except ComputerError DBFHeaderTag := do
  let fqdelayMin ← ofSimTime (fqDelay arith tag.dMin tag)
  let lqBudgetMin ← calculateLqBudget arith fqdelayMin tag
  let tMin ← ofSimTime (calculateSendTime arith lqBudgetMin tag)
  let fqdelayMax ← ofSimTime (fqDelay arith tag.dMax tag)
  let lqBudgetMax ← calculateLqBudget arith fqdelayMax tag
  return { tag with lqBudgetMin := lqBudgetMin, tMin := tMin, lqBudgetMax := lqBudgetMax }

def calculateWindow (tag : DBFHeaderTag) : Except ComputerError DBFHeaderTag := do
  let tag ← calculateBudgets arith tag
  let tMax ← ofSimTime (calculateSendTime arith tag.lqBudgetMax tag)
  return { tag with tMax := tMax }

def processDBFPacket (packet : Packet) : Except ComputerError Packet := do
  let (tag, header) ← prepareDelays arith computer packet
  let tag ← calculateWindow arith tag
  return { updateDBFIpv4Header packet header with tag := some tag }

/-- `DBFIpv4::sendPacketToNIC`; `none` is a packet that was deleted. -/
def sendPacketToNIC (packet : Packet) : Except ComputerError (Option Packet) :=
  if packet.tag.isSome then do
    let packet ← processDBFPacket arith computer packet
    return if DBFComputer.isAlreadyExpired packet then none else some packet
  else return some packet

/-! ## Exact arithmetic -/

section

variable {computer}

theorem calculateTransmissionTime_exact (packet : Packet) :
    calculateTransmissionTime exact computer packet =
      .ok (computer.calculateTransmissionTime packet) := by
  unfold calculateTransmissionTime DBFComputer.calculateTransmissionTime
  split <;> rfl

theorem getDelay_exact (hops transmissionTime delay : ℚ) :
    getDelay exact hops transmissionTime delay =
      .ok (DBFComputer.getDelay hops transmissionTime delay) :=
  rfl

theorem updateEdelay_exact (tag : DBFHeaderTag) (transmissionTime : SimTime) :
    updateEdelay exact tag transmissionTime =
      .ok (DBFComputer.updateEdelay tag transmissionTime) := by
  unfold updateEdelay DBFComputer.updateEdelay
  split <;> rfl

theorem fqDelay_exact (dBound : SimTime) (tag : DBFHeaderTag) : fqDelay exact dBound tag =
    .ok (if dBound = 0 then 0 else DBFComputer.calculateFqDelay dBound tag) := by
  unfold fqDelay
  split <;> rfl

theorem calculateLqBudget_exact (delay : SimTime) (tag : DBFHeaderTag) :
    calculateLqBudget exact delay tag = DBFComputer.calculateLqBudget delay tag := by
  unfold calculateLqBudget DBFComputer.calculateLqBudget
  by_cases hdelay : delay = 0 <;>
    simp [exact, ofSimTime, ofDouble, checked, DBFComputer.zeroHopsError, hdelay]

theorem calculateSendTime_exact (lqBudget : SimTime) (tag : DBFHeaderTag) :
    calculateSendTime exact lqBudget tag = .ok (DBFComputer.calculateSendTime lqBudget tag) :=
  rfl

theorem calculateWindow_exact (tag : DBFHeaderTag) :
    calculateWindow exact tag = DBFComputer.calculateWindow tag := by
  simp only [calculateWindow, calculateBudgets, DBFComputer.calculateWindow, fqDelay_exact,
    calculateLqBudget_exact, calculateSendTime_exact, hasInfiniteDmax, beq_iff_eq, ne_eq, ite_not,
    ofSimTime, bind, Except.bind, pure, Except.pure]
  by_cases hhops : tag.toHops = 0
  · simp only [DBFComputer.calculateLqBudget, hhops, if_true]
  · simp only [DBFComputer.calculateLqBudget, hhops, if_false]
    rfl

theorem prepareDelays_exact (packet : Packet) :
    prepareDelays exact computer packet = computer.prepareDelays packet := by
  unfold prepareDelays DBFComputer.prepareDelays
  simp only [calculateTransmissionTime_exact, getDelay_exact, updateEdelay_exact, ofSimTime,
    bind, Except.bind, pure, Except.pure]
  rfl

/-- With exact arithmetic this is the computer of `Computer`. -/
theorem processDBFPacket_exact (packet : Packet) :
    processDBFPacket exact computer packet = computer.processDBFPacket packet := by
  simp only [processDBFPacket, DBFComputer.processDBFPacket, prepareDelays_exact,
    calculateWindow_exact]

theorem sendPacketToNIC_exact (packet : Packet) :
    sendPacketToNIC exact computer packet = DBFIpv4.sendPacketToNIC computer packet := by
  simp only [sendPacketToNIC, DBFIpv4.sendPacketToNIC, processDBFPacket_exact]

end

/-! ## What the functions compute

A function that does not throw computes what its sums and conversions are without
their range checks. -/

/-- The transmission time of a packet, in range or not. -/
def transmissionTime (packet : Packet) : SimTime :=
  if computer.cableDatarate ≠ 0 then
    arith.truncate (arith.round (frameBits arith packet / computer.cableDatarate))
  else 0

/-- The delay over `hops` hops. -/
def delay (hops : UInt32) (transmissionTime rowDelay : SimTime) : SimTime :=
  arith.truncate (arith.round (arith.round (hops.toNat * arith.dbl transmissionTime) +
    arith.dbl rowDelay))

/-- The tag `prepareDelays` ends with. -/
def delayedTag (packet : Packet) (tag : DBFHeaderTag) (option : DBFIpv4Option)
    (source destination : DbfFibEntry) : DBFHeaderTag :=
  let transmissionTime := transmissionTime arith computer packet
  { tag with
    dMin := option.dMin, dMax := option.dMax, admitBit := option.admitBit,
    eDelay := DBFComputer.experienced tag option source transmissionTime,
    fromHops := source.hops.toUInt32, toHops := destination.hops.toUInt32,
    lDelay := source.lDelay, hDelay := destination.hDelay,
    fromDelay := delay arith source.hops.toUInt32 transmissionTime source.fromDelay,
    toDelay := delay arith destination.hops.toUInt32 transmissionTime destination.toDelay }

/-- The local budget of a bound. -/
def share (tag : DBFHeaderTag) (bound : SimTime) : SimTime :=
  arith.truncate (arith.round
    (arith.dbl (if bound = 0 then 0 else bound - tag.toDelay - tag.eDelay) / tag.toHops.toNat))

/-- The tag `calculateBudgets` ends with. -/
def budgetTag (tag : DBFHeaderTag) : DBFHeaderTag :=
  { tag with
    lqBudgetMin := share arith tag tag.dMin, tMin := share arith tag tag.dMin + tag.tRcv,
    lqBudgetMax := share arith tag tag.dMax }

/-- The tag `calculateWindow` ends with. -/
def windowTag (tag : DBFHeaderTag) : DBFHeaderTag :=
  { budgetTag arith tag with tMax := share arith tag tag.dMax + tag.tRcv }

/-- The delays and the experienced delay are in range. -/
structure DelaysInRange (packet : Packet) (tag : DBFHeaderTag) (option : DBFIpv4Option)
    (source destination : DbfFibEntry) : Prop where
  transmissionTime : arith.inRange (transmissionTime arith computer packet) = true
  fromDelay : arith.inRange (delay arith source.hops.toUInt32
    (Rounded.transmissionTime arith computer packet) source.fromDelay) = true
  toDelay : arith.inRange (delay arith destination.hops.toUInt32
    (Rounded.transmissionTime arith computer packet) destination.toDelay) = true
  eDelay : tag.fromNetwork = true → arith.inRange (option.eDelay + source.lDelay) = true ∧
    arith.inRange (option.eDelay + source.lDelay +
      Rounded.transmissionTime arith computer packet) = true

/-- What a bound leaves for queueing is in range. -/
def FqDelayInRange (tag : DBFHeaderTag) (bound : SimTime) : Prop :=
  bound ≠ 0 → arith.inRange (bound - tag.toDelay) = true ∧
    arith.inRange (bound - tag.toDelay - tag.eDelay) = true

/-- The queueing delays, both budgets and the first send time are in range. -/
structure BudgetsInRange (tag : DBFHeaderTag) : Prop where
  fqdelayMin : FqDelayInRange arith tag tag.dMin
  lqBudgetMin : arith.inRange (share arith tag tag.dMin) = true
  tMin : arith.inRange (share arith tag tag.dMin + tag.tRcv) = true
  fqdelayMax : FqDelayInRange arith tag tag.dMax
  lqBudgetMax : arith.inRange (share arith tag tag.dMax) = true

section

variable {arith computer} {packet : Packet} {header header' : Ipv4Header}
  {option : DBFIpv4Option} {tag tag' : DBFHeaderTag} {source destination : DbfFibEntry}
  {bound time : SimTime}

theorem calculateTransmissionTime_eq (packet : Packet) :
    calculateTransmissionTime arith computer packet =
      arith.checked (transmissionTime arith computer packet) := by
  unfold calculateTransmissionTime transmissionTime
  split
  · rfl
  · rw [checked, if_pos arith.inRange_zero]

theorem updateEdelay_eq_ok_iff : updateEdelay arith tag time = .ok tag' ↔
    (tag.fromNetwork = true → arith.inRange (tag.eDelay + tag.lDelay) = true ∧
      arith.inRange (tag.eDelay + tag.lDelay + time) = true) ∧
    DBFComputer.updateEdelay tag time = tag' := by
  unfold updateEdelay DBFComputer.updateEdelay
  by_cases hnetwork : tag.fromNetwork
  · simp [hnetwork, pure, Except.pure, and_assoc]
  · simp [hnetwork, pure, Except.pure]

theorem fqDelay_eq_ok_iff : fqDelay arith bound tag = .ok time ↔
    FqDelayInRange arith tag bound ∧
      (if bound = 0 then 0 else bound - tag.toDelay - tag.eDelay) = time := by
  unfold fqDelay FqDelayInRange calculateFqDelay
  by_cases hbound : bound = 0 <;> simp [hbound, and_assoc]

theorem calculateLqBudget_eq_ok_iff (hhops : tag.toHops ≠ 0) {delay : SimTime} :
    calculateLqBudget arith delay tag = .ok time ↔
      arith.inRange (arith.truncate (arith.round (arith.dbl delay / tag.toHops.toNat))) = true ∧
        arith.truncate (arith.round (arith.dbl delay / tag.toHops.toNat)) = time := by
  simp [calculateLqBudget, hhops]

theorem share_zero (tag : DBFHeaderTag) : share arith tag 0 = 0 := by
  simp [share, arith.dbl_zero, arith.round_zero, arith.truncate_zero]

theorem calculateBudgets_eq_ok_iff (hhops : tag.toHops ≠ 0) :
    calculateBudgets arith tag = .ok tag' ↔
      BudgetsInRange arith tag ∧ budgetTag arith tag = tag' := by
  simp only [calculateBudgets, bind_eq_ok_iff, ofSimTime_eq_ok_iff, fqDelay_eq_ok_iff,
    calculateLqBudget_eq_ok_iff hhops, calculateSendTime, add_eq_ok_iff, pure, Except.pure]
  constructor
  · rintro ⟨_, ⟨hmin, rfl⟩, _, ⟨hbudgetMin, rfl⟩, _, ⟨htMin, rfl⟩, _, ⟨hmax, rfl⟩, _,
      ⟨hbudgetMax, rfl⟩, htag⟩
    cases htag
    exact ⟨⟨hmin, hbudgetMin, htMin, hmax, hbudgetMax⟩, rfl⟩
  · rintro ⟨h, rfl⟩
    exact ⟨_, ⟨h.fqdelayMin, rfl⟩, _, ⟨h.lqBudgetMin, rfl⟩, _, ⟨h.tMin, rfl⟩, _,
      ⟨h.fqdelayMax, rfl⟩, _, ⟨h.lqBudgetMax, rfl⟩, rfl⟩

theorem calculateBudgets_toHops (h : calculateBudgets arith tag = .ok tag') :
    tag'.toHops = tag.toHops := by
  simp only [calculateBudgets, bind_eq_ok_iff, pure, Except.pure] at h
  obtain ⟨_, _, _, _, _, _, _, _, _, _, htag⟩ := h
  cases htag
  rfl

theorem calculateWindow_eq_ok_iff (hhops : tag.toHops ≠ 0) :
    calculateWindow arith tag = .ok tag' ↔
      BudgetsInRange arith tag ∧ arith.inRange (share arith tag tag.dMax + tag.tRcv) = true ∧
        windowTag arith tag = tag' := by
  simp only [calculateWindow, bind_eq_ok_iff, ofSimTime_eq_ok_iff, calculateBudgets_eq_ok_iff hhops,
    calculateSendTime, add_eq_ok_iff, pure, Except.pure]
  constructor
  · rintro ⟨_, ⟨hbudgets, rfl⟩, _, ⟨htMax, rfl⟩, htag⟩
    cases htag
    exact ⟨hbudgets, htMax, rfl⟩
  · rintro ⟨hbudgets, htMax, rfl⟩
    exact ⟨_, ⟨hbudgets, rfl⟩, _, ⟨htMax, rfl⟩, rfl⟩

section

variable (hheader : packet.ipv4Header = some header)
  (hoption : getMutableDBFIpv4Option header = some option) (htag : packet.tag = some tag)
  (hsource : computer.dbfFIB.lookup header.srcAddress = some source)
  (hdestination : computer.dbfFIB.lookup header.destAddress = some destination)

include hheader hoption htag hsource hdestination

theorem prepareDelays_eq_ok_iff :
    prepareDelays arith computer packet = .ok (tag', header') ↔
      DelaysInRange arith computer packet tag option source destination ∧
        delayedTag arith computer packet tag option source destination = tag' ∧
        (removeDBFIpv4Options header).addOption (.dbf { option with eDelay := tag'.eDelay }) =
          header' := by
  simp only [prepareDelays, getMutableIpv4Header, hheader, hoption, DBFComputer.prepareDBFTag, htag,
    DBFComputer.at_of_lookup hsource, DBFComputer.at_of_lookup hdestination, bind_eq_ok_iff,
    ofSimTime_eq_ok_iff, calculateTransmissionTime_eq, getDelay, checked_eq_ok_iff,
    ofDouble_eq_ok_iff, updateEdelay_eq_ok_iff, pure, Except.pure]
  constructor
  · rintro ⟨_, ⟨_, hsource', _, hdestination', hprepared⟩, _, ⟨htime, rfl⟩, _, hsource'', _,
      ⟨hfrom, rfl⟩, _, hdestination'', _, ⟨hto, rfl⟩, _, ⟨heDelay, rfl⟩, hresult⟩
    cases hsource'
    cases hdestination'
    cases hsource''
    cases hdestination''
    cases hprepared
    cases hresult
    refine ⟨⟨htime, hfrom, hto, heDelay⟩, ?_, rfl⟩
    unfold DBFComputer.updateEdelay delayedTag DBFComputer.experienced
    by_cases hnetwork : tag.fromNetwork <;> simp [hnetwork, delay]
  · rintro ⟨h, rfl, rfl⟩
    refine ⟨_, ⟨_, rfl, _, rfl, rfl⟩, _, ⟨h.transmissionTime, rfl⟩, _, rfl, _,
      ⟨h.fromDelay, rfl⟩, _, rfl, _, ⟨h.toDelay, rfl⟩, _, ⟨h.eDelay, rfl⟩, ?_⟩
    unfold DBFComputer.updateEdelay delayedTag DBFComputer.experienced
    by_cases hnetwork : tag.fromNetwork <;> simp [hnetwork, delay]

/-- The tags of the packets the function returns. -/
theorem exists_processed_iff (hhops : destination.hops.toUInt32 ≠ 0) :
    let delayed := delayedTag arith computer packet tag option source destination
    (∃ queued, processDBFPacket arith computer packet = .ok queued ∧ queued.tag = some tag') ↔
      DelaysInRange arith computer packet tag option source destination ∧
        BudgetsInRange arith delayed ∧
        arith.inRange (share arith delayed delayed.dMax + delayed.tRcv) = true ∧
        windowTag arith delayed = tag' := by
  intro delayed
  have hhops' : delayed.toHops ≠ 0 := hhops
  simp only [processDBFPacket, bind_eq_ok_iff, Prod.exists,
    prepareDelays_eq_ok_iff hheader hoption htag hsource hdestination, pure, Except.pure]
  constructor
  · rintro ⟨_, ⟨_, _, ⟨hdelays, rfl, rfl⟩, _, hwindow, hqueued⟩, htag'⟩
    cases hqueued
    cases htag'
    exact ⟨hdelays, (calculateWindow_eq_ok_iff hhops').mp hwindow⟩
  · rintro ⟨hdelays, hwindow⟩
    exact ⟨_, ⟨_, _, ⟨hdelays, rfl, rfl⟩, _, (calculateWindow_eq_ok_iff hhops').mpr hwindow, rfl⟩,
      rfl⟩

end

end

end Rounded

end DelayBasedForwarding
