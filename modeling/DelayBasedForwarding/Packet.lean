import Mathlib.Algebra.Order.Field.Rat

/-!
# Packets, the IPv4 option and the header tag

The data every module of the repository passes around: the `DBFIpv4Option` that
travels inside the IPv4 header from node to node, the `DBFHeaderTag` that
accompanies a packet inside one node, and the helper functions of
`utilities/HelperFunctions.cc` on both.

Simulation times are exact numbers of seconds.  `simtime_t` is a 64-bit fixed-point
number whose conversions to and from `double` round: where a result depends on that,
it is about the operations of `SimTimeArithmetic`, of which exact ones are an instance.
-/

namespace DelayBasedForwarding

/-- `simtime_t`, read as an exact number of seconds. -/
abbrev SimTime := ℚ

abbrev Ipv4Address := UInt32

/-! ## The option in the IPv4 header -/

/-- `DBFIpv4OptionType::DBFPARAMETERS`. -/
def DBFPARAMETERS : Int := 2020

/-- The option's `admit` bit is called `admitBit` here, as in the tag and the
    computer. -/
structure DBFIpv4Option where
  dMin : SimTime := 0
  dMax : SimTime := 0
  eDelay : SimTime := 0
  admitBit : UInt32 := 0
deriving DecidableEq, Repr

/-- `TlvOptionBase`: the repository's own option, or any other one. -/
inductive TlvOption where
  | dbf (option : DBFIpv4Option)
  | other (type : Int) (value : List UInt8)
deriving DecidableEq, Repr

def TlvOption.type : TlvOption → Int
  | .dbf _ => DBFPARAMETERS
  | .other type _ => type

structure Ipv4Header where
  srcAddress : Ipv4Address
  destAddress : Ipv4Address
  options : List TlvOption := []
deriving DecidableEq, Repr

def Ipv4Header.findOptionByType (header : Ipv4Header) (type : Int) : Option TlvOption :=
  header.options.find? fun option => option.type == type

def Ipv4Header.addOption (header : Ipv4Header) (option : TlvOption) : Ipv4Header :=
  { header with options := header.options ++ [option] }

/-! ## The tag inside a node -/

structure DBFHeaderTag where
  -- looked up
  lDelay : SimTime := 0
  hDelay : SimTime := 0
  fromDelay : SimTime := 0
  toDelay : SimTime := 0
  fromHops : UInt32 := 0
  toHops : UInt32 := 0
  -- calculated with
  admitBit : UInt32 := 0
  tRcv : SimTime := 0
  eDelay : SimTime := 0
  dMin : SimTime := 0
  dMax : SimTime := 0
  -- calculated
  lqBudgetMin : SimTime := 0
  lqBudgetMax : SimTime := 0
  tMin : SimTime := 0
  tMax : SimTime := 0
  fromNetwork : Bool := false
deriving DecidableEq, Repr

/-- A packet object.  `id` is the identity of the object: what a pointer to the
    packet is compared by.  `ipv4Header` is the chunk at the front when that is
    an IPv4 header, and `tag` the result of `findTag<DBFHeaderTag>()`. -/
structure Packet where
  id : Nat := 0
  bitLength : Nat
  ipv4Header : Option Ipv4Header
  payload : List UInt8 := []
  tag : Option DBFHeaderTag := none
deriving DecidableEq, Repr

/-- `DBFDynamicPriorityScheduler::isDBFPacket`: the packet carries the tag. -/
def isDBFPacket (packet : Packet) : Bool := packet.tag.isSome

/-! ## Helper functions -/

def getMutableIpv4Header (packet : Packet) : Option Ipv4Header := packet.ipv4Header

/-- `none` where the source dereferences the null pointer of a missing option or
    of a failed `dynamic_cast`. -/
def getMutableDBFIpv4Option (header : Ipv4Header) : Option DBFIpv4Option :=
  match header.findOptionByType DBFPARAMETERS with
  | some (.dbf option) => some option
  | _ => none

/-- `deleteOptionByType(DBFPARAMETERS, false)` removes every option of the type. -/
def removeDBFIpv4Options (header : Ipv4Header) : Ipv4Header :=
  { header with options := header.options.filter fun option => option.type != DBFPARAMETERS }

def updateDBFIpv4Header (packet : Packet) (header : Ipv4Header) : Packet :=
  { packet with ipv4Header := some header }

def hasInfiniteDmax (tag : DBFHeaderTag) : Bool := tag.dMax == 0

def isExpired (simTime : SimTime) (tag : DBFHeaderTag) : Bool :=
  !hasInfiniteDmax tag && decide (tag.tMax < simTime)

/-- The block both schedulers run on a packet they are about to send: the
    experienced delay grows by the time the packet spent in this node, the
    option is written back and the tag is removed. -/
def writeEDelay (simTime : SimTime) (packet : Packet) : Option Packet :=
  match packet.tag with
  | none => some packet
  | some tag => do
      let header ← getMutableIpv4Header packet
      let option ← getMutableDBFIpv4Option header
      let header := removeDBFIpv4Options header
      let option := { option with eDelay := tag.eDelay + simTime - tag.tRcv }
      let header := header.addOption (.dbf option)
      some { updateDBFIpv4Header packet header with tag := none }

theorem writeEDelay_untagged {simTime : SimTime} {packet : Packet} (h : packet.tag = none) :
    writeEDelay simTime packet = some packet := by
  simp [writeEDelay, h]

/-! ## Rewriting the option

Every module that changes the option takes it out of a copy of the header and
appends the changed one, so one lemma says what the next reader finds. -/

@[simp] theorem findOptionByType_removeDBFIpv4Options_addOption
    (header : Ipv4Header) (option : DBFIpv4Option) :
    ((removeDBFIpv4Options header).addOption (.dbf option)).findOptionByType DBFPARAMETERS =
      some (.dbf option) := by
  have hnone : (header.options.filter fun option => option.type != DBFPARAMETERS).find?
      (fun option => option.type == DBFPARAMETERS) = none := by
    simp [List.find?_eq_none]
  unfold Ipv4Header.findOptionByType Ipv4Header.addOption removeDBFIpv4Options
  rw [List.find?_append, hnone]
  rfl

@[simp] theorem getMutableDBFIpv4Option_rewritten (header : Ipv4Header)
    (option : DBFIpv4Option) :
    getMutableDBFIpv4Option ((removeDBFIpv4Options header).addOption (.dbf option)) =
      some option := by
  simp [getMutableDBFIpv4Option]

@[simp] theorem removeDBFIpv4Options_addOption (header : Ipv4Header) (option : DBFIpv4Option) :
    removeDBFIpv4Options (header.addOption (.dbf option)) = removeDBFIpv4Options header := by
  simp [removeDBFIpv4Options, Ipv4Header.addOption, TlvOption.type]

section

variable {header : Ipv4Header} (hfresh : header.findOptionByType DBFPARAMETERS = none)

include hfresh

theorem removeDBFIpv4Options_of_fresh : removeDBFIpv4Options header = header := by
  unfold Ipv4Header.findOptionByType at hfresh
  rw [List.find?_eq_none] at hfresh
  unfold removeDBFIpv4Options
  rw [List.filter_eq_self.mpr]
  intro option hoption
  simpa using hfresh option hoption

theorem getMutableDBFIpv4Option_of_fresh : getMutableDBFIpv4Option header = none := by
  simp [getMutableDBFIpv4Option, hfresh]

theorem getMutableDBFIpv4Option_addOption (option : DBFIpv4Option) :
    getMutableDBFIpv4Option (header.addOption (.dbf option)) = some option := by
  have h := getMutableDBFIpv4Option_rewritten header option
  rwa [removeDBFIpv4Options_of_fresh hfresh] at h

/-- The one option of the repository, and all the others. -/
theorem options_addOption (option : DBFIpv4Option) :
    ((header.addOption (.dbf option)).options.filter fun option =>
      option.type == DBFPARAMETERS) = [.dbf option] ∧
    ((header.addOption (.dbf option)).options.filter fun option =>
      option.type != DBFPARAMETERS) = header.options := by
  have hkept : (header.options.filter fun option => option.type != DBFPARAMETERS) =
      header.options := congrArg Ipv4Header.options (removeDBFIpv4Options_of_fresh hfresh)
  unfold Ipv4Header.findOptionByType at hfresh
  rw [List.find?_eq_none] at hfresh
  unfold Ipv4Header.addOption
  rw [List.filter_append, List.filter_append, hkept]
  constructor
  · rw [List.filter_eq_nil_iff.mpr hfresh]
    rfl
  · simp [TlvOption.type]

end

end DelayBasedForwarding
