import DelayBasedForwarding.PathGuarantee
import DelayBasedForwarding.RoundedComputer

/-!
# Hop counts

The divisor of both local budgets is a number written into the `dbfFIB` document.
It is read by `atoi`, kept as an `int` in the row of the destination, copied into
the `uint32_t` field `toHops` of the tag and divided by as a `double`.  No step of
this way checks it, except that the delay over many hops may leave the range of
simulation times before the division.
-/

namespace DelayBasedForwarding

open SimTimeArithmetic

/-! ## The rows of the document -/

/-- The row of `address`: of several the first, which `map::insert` leaves. -/
def fibRow (nodes : List FibNode) (address : Ipv4Address) : Option FibNode :=
  nodes.find? fun node => node.ip == address

theorem lookup_insert (fib : DbfFib) (address other : Ipv4Address) (entry : DbfFibEntry) :
    (fib.insert address entry).lookup other =
      (fib.lookup other).or (if other = address then some entry else none) := by
  unfold DbfFib.insert
  by_cases hsame : other = address
  · subst hsame
    cases hlookup : fib.lookup other with
    | none => simp [hlookup, List.lookup_append]
    | some kept => simp [hlookup]
  · have hne : (other == address) = false := beq_false_of_ne hsame
    rw [if_neg hsame, Option.or_none]
    split
    · rfl
    · simp [hne, List.lookup_append, List.lookup_cons]

/-- The loading loop on a FIB that has rows already: these stay. -/
theorem lookup_loadNodes (nodes : List FibNode) (fib : DbfFib) (address : Ipv4Address) :
    (nodes.foldl (fun fib node => fib.insert node.ip node.entry) fib).lookup address =
      (fib.lookup address).or ((fibRow nodes address).map FibNode.entry) := by
  induction nodes generalizing fib with
  | nil => simp [fibRow]
  | cons node nodes ih =>
      rw [List.foldl_cons, ih, lookup_insert, Option.or_assoc]
      by_cases hip : node.ip = address
      · simp [fibRow, hip]
      · simp [fibRow, hip, Ne.symm hip]

theorem lookup_loadFib (nodes : List FibNode) (address : Ipv4Address) :
    (loadFib nodes).lookup address = (fibRow nodes address).map FibNode.entry :=
  lookup_loadNodes nodes [] address

/-! ## The hop count of a row -/

theorem digitsValue_eq_ofDigitChars : ∀ {text : List Char} (value : ℕ),
    (∀ c ∈ text, c.isDigit) → digitsValue value text = Nat.ofDigitChars 10 text value := by
  intro text
  induction text with
  | nil => simp [digitsValue]
  | cons c rest ih =>
      intro value hdigits
      unfold digitsValue
      rw [if_pos (hdigits c (by simp)), ih _ fun d hd => hdigits d (by simp [hd]),
        Nat.ofDigitChars_cons]
      rfl

theorem digitsValue_toDigits (n : ℕ) : digitsValue 0 (Nat.toDigits 10 n) = n := by
  rw [digitsValue_eq_ofDigitChars 0 fun c hc =>
    Nat.isDigit_of_mem_toDigits (by decide) (by decide) hc]
  exact Nat.ofDigitChars_ten_toDigits

theorem leadingNumber_of_digits {text : List Char} (hdigits : ∀ c ∈ text, c.isDigit) :
    leadingNumber text = digitsValue 0 text := by
  have htrimmed : text.dropWhile isSpace = text := by
    cases text with
    | nil => rfl
    | cons c rest =>
        have hc : 48 ≤ c.toNat := (Char.isDigit_iff_toNat.mp (hdigits c (by simp))).1
        -- a digit is no white space
        have hspace : isSpace c = false := by
          simp only [isSpace, Bool.or_eq_false_iff, beq_eq_false_iff_ne, Bool.and_eq_false_imp,
            decide_eq_true_eq, decide_eq_false_iff_not]
          omega
        exact List.dropWhile_cons_of_neg (by simp [hspace])
  unfold leadingNumber
  rw [htrimmed]
  split
  · exact absurd (hdigits '-' (by simp)) (by decide)
  · exact absurd (hdigits '+' (by simp)) (by decide)
  · rfl

/-- The decimal text of a number reads as the number. -/
theorem leadingNumber_repr (n : ℤ) : leadingNumber n.repr.toList = n := by
  cases n with
  | ofNat n =>
      have hdigits : ∀ c ∈ Nat.toDigits 10 n, c.isDigit := fun c hc =>
        Nat.isDigit_of_mem_toDigits (by decide) (by decide) hc
      show leadingNumber n.repr.toList = n
      rw [Nat.toList_repr, leadingNumber_of_digits hdigits, digitsValue_toDigits]
  | negSucc n =>
      have htext : (Int.negSucc n).repr.toList = '-' :: Nat.toDigits 10 (n + 1) := by
        simp [Int.repr, Nat.toList_repr]
      rw [htext]
      show -(digitsValue 0 (Nat.toDigits 10 (n + 1)) : ℤ) = Int.negSucc n
      rw [digitsValue_toDigits]
      rfl

theorem toNat_toUInt32_ofInt (n : ℤ) : ((Int32.ofInt n).toUInt32.toNat : ℤ) = n % 2 ^ 32 := by
  show ((BitVec.ofInt 32 n).toNat : ℤ) = n % 2 ^ 32
  rw [BitVec.toNat_ofInt]
  exact Int.toNat_of_nonneg (Int.emod_nonneg n (by decide))

theorem toInt_eq_toNat (i : Int32) :
    i.toInt = if 2 * i.toUInt32.toNat < 2 ^ 32 then (i.toUInt32.toNat : ℤ)
      else i.toUInt32.toNat - 2 ^ 32 :=
  BitVec.toInt_eq_toNat_cond i.toBitVec

/-! ## The divisor -/

/-- Both local budgets of `tag` are conversions of quotients by `count`, the hop count
    of the tag. -/
structure DividedBy (arith : SimTimeArithmetic) (tag : DBFHeaderTag) (count : ℤ) : Prop where
  nonzero : tag.toHops ≠ 0
  divisor : (tag.toHops.toNat : ℤ) = count
  lqBudgetMin : ∃ fqdelayMin, Rounded.fqDelay arith tag.dMin tag = .ok fqdelayMin ∧
    arith.ofDouble (arith.round (arith.dbl fqdelayMin / count)) = .ok tag.lqBudgetMin
  lqBudgetMax : ∃ fqdelayMax, Rounded.fqDelay arith tag.dMax tag = .ok fqdelayMax ∧
    arith.ofDouble (arith.round (arith.dbl fqdelayMax / count)) = .ok tag.lqBudgetMax

/-- `processDBFPacket` comes to both local budgets of the packet, divided by `count`. -/
def BudgetsDividedBy (arith : SimTimeArithmetic) (computer : DBFComputer) (packet : Packet)
    (count : ℤ) : Prop :=
  ∃ delayed header tag, Rounded.prepareDelays arith computer packet = .ok (delayed, header) ∧
    Rounded.calculateBudgets arith delayed = .ok tag ∧ DividedBy arith tag count

/-- All simulation times on the way to the budgets are in range. -/
structure TimesInRange (arith : SimTimeArithmetic) (computer : DBFComputer) (packet : Packet)
    (tag : DBFHeaderTag) (option : DBFIpv4Option) (source destination : DbfFibEntry) : Prop where
  delays : Rounded.DelaysInRange arith computer packet tag option source destination
  budgets : Rounded.BudgetsInRange arith
    (Rounded.delayedTag arith computer packet tag option source destination)

/-- The `uint32_t` decides, as far as the range of the times lets it. -/
theorem budgetsDividedBy_iff {arith : SimTimeArithmetic} {computer : DBFComputer}
    {packet : Packet} {header : Ipv4Header} {option : DBFIpv4Option} {tag : DBFHeaderTag}
    {source destination : DbfFibEntry} (hheader : packet.ipv4Header = some header)
    (hoption : getMutableDBFIpv4Option header = some option) (htag : packet.tag = some tag)
    (hsource : computer.dbfFIB.lookup header.srcAddress = some source)
    (hdestination : computer.dbfFIB.lookup header.destAddress = some destination) {count : ℤ} :
    BudgetsDividedBy arith computer packet count ↔
      0 < count ∧ (destination.hops.toUInt32.toNat : ℤ) = count ∧
        TimesInRange arith computer packet tag option source destination := by
  have hprepare := @Rounded.prepareDelays_eq_ok_iff arith computer packet header
  constructor
  · rintro ⟨delayed, header', budgeted, hprepared, hbudgets, hdivided⟩
    obtain ⟨hdelays, rfl, _⟩ := (hprepare hheader hoption htag hsource hdestination).mp hprepared
    have hhops : destination.hops.toUInt32 ≠ 0 := by
      have hnonzero := hdivided.nonzero
      rwa [Rounded.calculateBudgets_toHops hbudgets] at hnonzero
    obtain ⟨hinRange, rfl⟩ := (Rounded.calculateBudgets_eq_ok_iff hhops).mp hbudgets
    have hdivisor : (destination.hops.toUInt32.toNat : ℤ) = count := hdivided.divisor
    have hne : destination.hops.toUInt32.toNat ≠ 0 := fun h => hhops (UInt32.toNat_inj.mp h)
    exact ⟨by omega, hdivisor, ⟨hdelays, hinRange⟩⟩
  · rintro ⟨hpos, rfl, hrange⟩
    have hhops : destination.hops.toUInt32 ≠ 0 := by
      intro hzero
      rw [hzero] at hpos
      exact absurd hpos (by decide)
    refine ⟨_, _, _, (hprepare hheader hoption htag hsource hdestination).mpr
      ⟨hrange.delays, rfl, rfl⟩, (Rounded.calculateBudgets_eq_ok_iff hhops).mpr
      ⟨hrange.budgets, rfl⟩, hhops, rfl, ?_, ?_⟩
    · exact ⟨_, Rounded.fqDelay_eq_ok_iff.mpr ⟨hrange.budgets.fqdelayMin, rfl⟩,
        ofDouble_eq_ok_iff.mpr ⟨by exact_mod_cast hrange.budgets.lqBudgetMin, by norm_cast⟩⟩
    · exact ⟨_, Rounded.fqDelay_eq_ok_iff.mpr ⟨hrange.budgets.fqdelayMax, rfl⟩,
        ofDouble_eq_ok_iff.mpr ⟨by exact_mod_cast hrange.budgets.lqBudgetMax, by norm_cast⟩⟩

/-- **The divisor of the local budgets.**  For every document that `initialize`
    loads, and every tagged packet whose source and destination have rows in it:

    * both budgets are divided by the number written into the destination's row
      exactly when that number is positive and fits into 32 bits, and no simulation
      time on the way to the budgets is out of range;
    * they are divided by the `int` that `atoi` makes of it exactly when that is
      positive and no simulation time is out of range. -/
theorem hop_divisor_iff (arith : SimTimeArithmetic) (par : ComputerParameters)
    (computer : DBFComputer) (packet : Packet) (header : Ipv4Header) (option : DBFIpv4Option)
    (tag : DBFHeaderTag) (source destination : FibNode)
    (hinit : DBFComputer.initialize par = .ok computer)
    (hheader : packet.ipv4Header = some header)
    (hoption : getMutableDBFIpv4Option header = some option) (htag : packet.tag = some tag)
    (hsource : fibRow par.dbfFIB header.srcAddress = some source)
    (hdestination : fibRow par.dbfFIB header.destAddress = some destination) :
    (BudgetsDividedBy arith computer packet (leadingNumber destination.hops) ↔
      (0 < leadingNumber destination.hops ∧ leadingNumber destination.hops < 2 ^ 32) ∧
        TimesInRange arith computer packet tag option source.entry destination.entry) ∧
    (BudgetsDividedBy arith computer packet (atoi destination.hops).toInt ↔
      0 < (atoi destination.hops).toInt ∧
        TimesInRange arith computer packet tag option source.entry destination.entry) := by
  have hfib := DBFComputer.initialize_dbfFIB hinit
  have hsource' : computer.dbfFIB.lookup header.srcAddress = some source.entry := by
    rw [hfib, lookup_loadFib, hsource]
    rfl
  have hdestination' : computer.dbfFIB.lookup header.destAddress = some destination.entry := by
    rw [hfib, lookup_loadFib, hdestination]
    rfl
  have hhops : destination.entry.hops = atoi destination.hops := rfl
  rw [budgetsDividedBy_iff hheader hoption htag hsource' hdestination',
    budgetsDividedBy_iff hheader hoption htag hsource' hdestination', hhops, ← and_assoc,
    ← and_assoc]
  refine ⟨and_congr_left' ?_, and_congr_left' ?_⟩
  · have hwrap : ((atoi destination.hops).toUInt32.toNat : ℤ) =
        max (-2 ^ 63) (min (2 ^ 63 - 1) (leadingNumber destination.hops)) % 2 ^ 32 :=
      toNat_toUInt32_ofInt _
    rw [hwrap]
    omega
  · have hlt := (atoi destination.hops).toUInt32.toNat_lt
    rw [toInt_eq_toNat]
    split <;> omega

/-! A sender with a row for its own address, and one with a row whose count is negative or
large. -/

theorem sample_timesInRange : TimesInRange picoseconds sampleSender.computer sampleEncapsulated
    { tRcv := 0, fromNetwork := false } { dMin := 6, dMax := 10 }
    { hops := 0, lDelay := 0, hDelay := 0, fromDelay := 0, toDelay := 0 }
    { hops := 2, lDelay := 1, hDelay := 1, fromDelay := 2, toDelay := 2 } :=
  ⟨⟨by decide +kernel, by decide +kernel, by decide +kernel, fun h => nomatch h⟩,
    ⟨fun _ => by decide +kernel, by decide +kernel, by decide +kernel, fun _ => by decide +kernel,
      by decide +kernel⟩⟩

theorem hop_divisor_sample :
    BudgetsDividedBy picoseconds sampleSender.computer sampleEncapsulated 2 :=
  (hop_divisor_iff picoseconds sampleParameters sampleSender.computer sampleEncapsulated
    { srcAddress := 1, destAddress := 2, options := [.dbf { dMin := 6, dMax := 10 }] }
    { dMin := 6, dMax := 10 } { tRcv := 0, fromNetwork := false }
    { ip := 1, hops := ['0'], lDelay := 0, hDelay := 0, fromDelay := 0, toDelay := 0 }
    { ip := 2, hops := ['2'], lDelay := 1, hDelay := 1, fromDelay := 2, toDelay := 2 }
    rfl rfl rfl rfl rfl rfl).1.mpr ⟨by decide, sample_timesInRange⟩

/-- A datagram of the sender to itself. -/
def sampleLoopback : Packet :=
  { bitLength := 1000, ipv4Header := some { srcAddress := 1, destAddress := 1 } }

/-- `sampleLoopback` as the sender's `encapsulate` leaves it at time 0. -/
def sampleLoopbackEncapsulated : Packet :=
  { sampleLoopback with
    ipv4Header := some
      { srcAddress := 1, destAddress := 1, options := [.dbf { dMin := 6, dMax := 10 }] },
    tag := some { tRcv := 0, fromNetwork := false } }

/-- The sender on links of `datarate`, with `hops` in the row of the destination. -/
def hopsParameters (datarate : ℚ) (hops : List Char) : ComputerParameters :=
  { sampleParameters with
    datarate := some datarate,
    dbfFIB := [
      { ip := 1, hops := ['0'], lDelay := 0, hDelay := 0, fromDelay := 0, toDelay := 0 },
      { ip := 2, hops := hops, lDelay := 1, hDelay := 1, fromDelay := 2, toDelay := 2 }] }

def hopsSender (datarate : ℚ) (hops : List Char) : DBFComputer :=
  { dMin := 6, dMax := 10, admitBit := 0, cableDatarate := datarate,
    dbfFIB := loadFib (hopsParameters datarate hops).dbfFIB }

/-- The budgets of the loopback datagram are divided by zero.  At one gigabit per second
    those of a datagram to the negative row are divided by its count modulo `2 ^ 32`.  At a
    second for each hop the delay over very many hops is out of range before any division. -/
theorem hop_divisor_fails :
    ((fibRow sampleParameters.dbfFIB 1).map (fun node => leadingNumber node.hops) = some 0 ∧
      DBFComputer.initialize sampleParameters = .ok sampleSender.computer ∧
      DBFIpv4.encapsulate sampleSender.computer 0 sampleLoopback =
        .ok sampleLoopbackEncapsulated ∧
      Rounded.processDBFPacket picoseconds sampleSender.computer sampleLoopbackEncapsulated =
        .error .zeroHops ∧
      ¬ BudgetsDividedBy picoseconds sampleSender.computer sampleLoopbackEncapsulated 0) ∧
    ((fibRow (hopsParameters (10 ^ 9) ['-', '1']).dbfFIB 2).map
        (fun node => leadingNumber node.hops) = some (-1) ∧
      DBFComputer.initialize (hopsParameters (10 ^ 9) ['-', '1']) =
        .ok (hopsSender (10 ^ 9) ['-', '1']) ∧
      BudgetsDividedBy picoseconds (hopsSender (10 ^ 9) ['-', '1']) sampleEncapsulated
        4294967295 ∧
      ¬ BudgetsDividedBy picoseconds (hopsSender (10 ^ 9) ['-', '1']) sampleEncapsulated (-1)) ∧
    ((fibRow (hopsParameters 1208 "9300000".toList).dbfFIB 2).map
        (fun node => leadingNumber node.hops) = some 9300000 ∧
      DBFComputer.initialize (hopsParameters 1208 "9300000".toList) =
        .ok (hopsSender 1208 "9300000".toList) ∧
      Rounded.prepareDelays picoseconds (hopsSender 1208 "9300000".toList) sampleEncapsulated =
        .error (.simTime .outOfRange) ∧
      ¬ BudgetsDividedBy picoseconds (hopsSender 1208 "9300000".toList) sampleEncapsulated
        9300000) := by
  have hiff := fun count => @budgetsDividedBy_iff picoseconds (hopsSender (10 ^ 9) ['-', '1'])
    sampleEncapsulated _ _ _ { hops := 0, lDelay := 0, hDelay := 0, fromDelay := 0, toDelay := 0 }
    { hops := -1, lDelay := 1, hDelay := 1, fromDelay := 2, toDelay := 2 }
    rfl rfl rfl rfl rfl count
  have hthrows : Rounded.prepareDelays picoseconds (hopsSender 1208 "9300000".toList)
      sampleEncapsulated = .error (.simTime .outOfRange) := by decide +kernel
  refine ⟨⟨by decide, rfl, by decide +kernel, by decide +kernel, ?_⟩, ⟨by decide, rfl, ?_, ?_⟩,
    by decide, rfl, hthrows, ?_⟩
  · exact fun h => absurd ((budgetsDividedBy_iff rfl rfl rfl rfl rfl).mp h).1 (by decide)
  · exact (hiff 4294967295).mpr ⟨by decide, by decide, ⟨⟨by decide +kernel, by decide +kernel,
      by decide +kernel, fun h => nomatch h⟩, ⟨fun _ => by decide +kernel, by decide +kernel,
      by decide +kernel, fun _ => by decide +kernel, by decide +kernel⟩⟩⟩
  · exact fun h => absurd ((hiff (-1)).mp h).1 (by decide)
  · rintro ⟨_, _, _, hprepared, _⟩
    cases hthrows.symm.trans hprepared

end DelayBasedForwarding
