import DelayBasedForwarding.Admission
import DelayBasedForwarding.Egress
import DelayBasedForwarding.RoundedComputer

/-!
# The dynamic priority

The dynamic scheduler divides the elapsed part of a send window by its length.  The
window of a forwarded packet is not inverted, also when the budgets are cut to the
resolution of simulation times.  It may be a single point, though, and nothing
between the parameters of the sender and the division keeps it from being one.
-/

namespace DelayBasedForwarding

open SimTimeArithmetic

namespace Rounded

variable (arith : SimTimeArithmetic)

/-- `SimTime` of the quotient of two times. -/
def ofRatio (elapsed window : SimTime) : Except SimTimeError SimTime :=
  if window = 0 then if elapsed = 0 then arith.notANumber else .error .outOfRange
  else arith.ofDouble (arith.ratio elapsed window)

/-- `DBFDynamicPriorityScheduler::calculateDynamicPriority`. -/
def calculateDynamicPriority (simTime : SimTime) (packet : Packet) : Except SimTimeError ℚ :=
  match packet.tag with
  | some tag =>
      if hasInfiniteDmax tag then .ok 0
      else do
        let elapsed ← arith.sub simTime tag.tMin
        let window ← arith.sub tag.tMax tag.tMin
        let result ← ofRatio arith elapsed window
        let priority := arith.dbl result
        let priority := if priority < 0 then 0 else priority
        return if priority > 1 then 1 else priority
  | none => .ok 0

/-- What the dynamic scheduler computes of a packet while it is ready and unexpired. -/
structure PriorityWellDefined (packet : Packet) (tag : DBFHeaderTag) : Prop where
  divisor : ∃ window, arith.sub tag.tMax tag.tMin = .ok window ∧ window ≠ 0
  bounded : ∀ t, tag.tMin ≤ t → t ≤ tag.tMax → ∃ priority,
    calculateDynamicPriority arith t packet = .ok priority ∧ 0 ≤ priority ∧ priority ≤ 1
  first : calculateDynamicPriority arith tag.tMin packet = .ok 0
  last : calculateDynamicPriority arith tag.tMax packet = .ok 1
  monotone : ∀ t t' priority priority', tag.tMin ≤ t → t ≤ t' → t' ≤ tag.tMax →
    calculateDynamicPriority arith t packet = .ok priority →
    calculateDynamicPriority arith t' packet = .ok priority' → priority ≤ priority'

section

variable {arith} {packet : Packet} {tag : DBFHeaderTag} {t : SimTime}

theorem not_priorityWellDefined (hlast : calculateDynamicPriority arith tag.tMax packet = .ok 0) :
    ¬ PriorityWellDefined arith packet tag :=
  fun h => absurd (h.last.symm.trans hlast) (by decide)

/-- With exact arithmetic this is the function of the scheduler's model. -/
theorem calculateDynamicPriority_exact (htag : packet.tag = some tag)
    (hwindow : tag.tMin ≠ tag.tMax) : calculateDynamicPriority exact t packet =
      .ok (DBFDynamicPriorityScheduler.calculateDynamicPriority t packet) := by
  have hlength : tag.tMax - tag.tMin ≠ 0 := sub_ne_zero.mpr hwindow.symm
  unfold calculateDynamicPriority DBFDynamicPriorityScheduler.calculateDynamicPriority
  simp only [htag]
  split
  · rfl
  · simp [sub, checked, ofRatio, ofDouble, exact, hlength, bind, Except.bind, pure, Except.pure]
    rfl

/-- Inside a window that is not a point nothing is out of range, and nothing clamped. -/
theorem calculateDynamicPriority_eq (htag : packet.tag = some tag) (hfinite : tag.dMax ≠ 0)
    (hlt : tag.tMin < tag.tMax) (hrange : arith.inRange (tag.tMax - tag.tMin) = true)
    (hready : tag.tMin ≤ t) (hunexpired : t ≤ tag.tMax) :
    let priority := arith.dbl (arith.truncate (arith.ratio (t - tag.tMin) (tag.tMax - tag.tMin)))
    calculateDynamicPriority arith t packet = .ok priority ∧ 0 ≤ priority ∧ priority ≤ 1 := by
  intro priority
  have hlength : 0 < tag.tMax - tag.tMin := sub_pos.mpr hlt
  have helapsed : 0 ≤ t - tag.tMin := sub_nonneg.mpr hready
  have hpart : t - tag.tMin ≤ tag.tMax - tag.tMin := sub_le_sub_right hunexpired _
  obtain ⟨hratio, hratio'⟩ := @ratio_unit arith _ _ hlength helapsed hpart
  have hresult : 0 ≤ arith.truncate (arith.ratio (t - tag.tMin) (tag.tMax - tag.tMin)) :=
    truncate_nonneg hratio
  have hresult' := @truncate_le_one arith _ hratio'
  have hnonneg : 0 ≤ priority := dbl_nonneg hresult
  have hle : priority ≤ 1 := dbl_le_one hresult'
  refine ⟨?_, hnonneg, hle⟩
  have hinfinite : hasInfiniteDmax tag = false := by simp [hasInfiniteDmax, hfinite]
  simp only [calculateDynamicPriority, htag, hinfinite]
  have hsub := arith.inRange_between arith.inRange_zero hrange helapsed hpart
  have hround := @inRange_unit arith _ hresult hresult'
  simp [sub, checked, ofRatio, ofDouble, hsub, hrange, hround, hlength.ne', bind, Except.bind, pure,
    Except.pure, priority, not_lt.mpr hnonneg, not_lt.mpr hle]

/-- The length of the window decides. -/
theorem priorityWellDefined_iff (htag : packet.tag = some tag) (hfinite : tag.dMax ≠ 0)
    (hwindow : tag.tMin ≤ tag.tMax) : PriorityWellDefined arith packet tag ↔
      tag.tMin ≠ tag.tMax ∧ arith.inRange (tag.tMax - tag.tMin) = true := by
  constructor
  · intro h
    obtain ⟨window, hsub, hne⟩ := h.divisor
    obtain ⟨hrange, rfl⟩ := sub_eq_ok_iff.mp hsub
    exact ⟨(sub_ne_zero.mp hne).symm, hrange⟩
  · rintro ⟨hne, hrange⟩
    have hlt : tag.tMin < tag.tMax := lt_of_le_of_ne hwindow hne
    have hlength : 0 < tag.tMax - tag.tMin := sub_pos.mpr hlt
    have heq := fun t => @calculateDynamicPriority_eq arith packet tag t htag hfinite hlt hrange
    constructor
    · exact ⟨_, sub_eq_ok_iff.mpr ⟨hrange, rfl⟩, hlength.ne'⟩
    · intro t hready hunexpired
      exact ⟨_, heq t hready hunexpired⟩
    · rw [(heq _ le_rfl hwindow).1, sub_self, arith.ratio_zero, arith.truncate_zero,
        arith.dbl_zero]
    · rw [(heq _ hwindow le_rfl).1, arith.ratio_self hlength, arith.truncate_one, arith.dbl_one]
    · intro t t' priority priority' hready hlater hunexpired hpriority hpriority'
      rw [(heq t hready (hlater.trans hunexpired)).1] at hpriority
      rw [(heq t' (hready.trans hlater) hunexpired).1] at hpriority'
      cases hpriority
      cases hpriority'
      apply arith.dbl_mono
      apply arith.truncate_mono
      exact arith.ratio_mono hlength (sub_le_sub_right hlater _)

end

/-! ## The window of a forwarded packet -/

section

variable {arith} {par : ComputerParameters} {computer : DBFComputer} {packet forwarded : Packet}
  {tag tag' : DBFHeaderTag} {option : DBFIpv4Option} {source destination : DbfFibEntry}

/-- A smaller bound leaves a smaller share. -/
theorem share_mono (tag : DBFHeaderTag) {bound bound' : SimTime} (hbound : bound ≠ 0)
    (hbound' : bound' ≠ 0) (hle : bound ≤ bound') :
    share arith tag bound ≤ share arith tag bound' := by
  unfold share
  rw [if_neg hbound, if_neg hbound']
  apply arith.truncate_mono
  apply arith.round_mono
  apply div_le_div_of_nonneg_right _ (Nat.cast_nonneg _)
  apply arith.dbl_mono
  linarith

/-- With exact arithmetic the shares of the two bounds differ unless the bounds are equal or
    the one without a minimum has no queueing budget left. -/
theorem share_exact_ne_iff (hhops : tag.toHops ≠ 0) {dMin dMax : SimTime} (hfinite : dMax ≠ 0) :
    share exact tag dMin ≠ share exact tag dMax ↔
      dMin ≠ 0 ∧ dMin ≠ dMax ∨ dMin = 0 ∧ tag.eDelay + tag.toDelay ≠ dMax := by
  have hcount : (tag.toHops.toNat : ℚ) ≠ 0 := by
    exact_mod_cast fun h => hhops (UInt32.toNat_inj.mp h)
  simp only [share, exact, if_neg hfinite, ne_eq, div_left_inj' hcount]
  by_cases hmin : dMin = 0
  · simp only [hmin, if_true, not_true_eq_false, false_and, false_or, true_and]
    refine not_congr ⟨fun h => ?_, fun h => ?_⟩ <;> linarith
  · simp [hmin]

/-- What `sendPacketToNIC` forwards has the window of its tag, which is not inverted. -/
theorem forwarded_window (h : AtNode par computer packet tag option source destination)
    (hfinite : par.dMax ≠ 0) (hsend : sendPacketToNIC arith computer packet = .ok (some forwarded))
    (htag' : forwarded.tag = some tag') :
    let delayed := delayedTag arith computer packet tag option source destination
    tag' = windowTag arith delayed ∧ tag'.tMin ≤ tag'.tMax := by
  intro delayed
  obtain ⟨header, hheader, hoption, hsource, hdestination⟩ := h.header
  have hhops : destination.hops.toUInt32 ≠ 0 := by
    rintro hzero
    have := h.hops
    rw [hzero] at this
    exact absurd this (by decide)
  simp only [sendPacketToNIC, h.tag, Option.isSome_some, if_true, bind_eq_ok_iff, pure,
    Except.pure] at hsend
  obtain ⟨queued, hprocess, hkept⟩ := hsend
  split at hkept
  · cases hkept
  next halive =>
  cases hkept
  obtain ⟨_, _, _, hwindow⟩ := (exists_processed_iff hheader hoption h.tag hsource hdestination
    hhops).mp ⟨forwarded, hprocess, htag'⟩
  refine ⟨hwindow.symm, ?_⟩
  have hmax : tag'.dMax = par.dMax := by rw [← hwindow]; exact h.dMax
  -- the packet is not expired, so the budget of the upper bound is not negative
  have hunexpired : tag'.tRcv ≤ tag'.tMax := by
    simpa [DBFComputer.isAlreadyExpired, htag', hasInfiniteDmax, hmax, hfinite] using halive
  rw [← hwindow] at hunexpired ⊢
  apply add_le_add_left
  change share arith delayed option.dMin ≤ share arith delayed option.dMax
  by_cases hmin : option.dMin = 0
  · rw [hmin, share_zero]
    exact (le_add_iff_nonneg_left _).mp hunexpired
  · exact share_mono delayed hmin (by rwa [h.dMax]) (h.bounds.2.2 hmin (by rwa [h.dMax]))

end

end Rounded

/-- **The dynamic priority.**  Whatever the resolution of simulation times and the
    rounding of `double`: for a forwarded packet of finite `dMax` the priority is well
    defined exactly when the shares of `dMin` and `dMax`, cut to this resolution, differ
    and their difference is in range. -/
theorem dynamic_priority_iff (arith : SimTimeArithmetic) (par : ComputerParameters)
    (computer : DBFComputer) (packet : Packet) (tag : DBFHeaderTag) (option : DBFIpv4Option)
    (source destination : DbfFibEntry)
    (h : AtNode par computer packet tag option source destination) (hfinite : par.dMax ≠ 0)
    (forwarded : Packet) (tag' : DBFHeaderTag)
    (hsend : Rounded.sendPacketToNIC arith computer packet = .ok (some forwarded))
    (htag' : forwarded.tag = some tag') :
    let delayed := Rounded.delayedTag arith computer packet tag option source destination
    Rounded.PriorityWellDefined arith forwarded tag' ↔
      Rounded.share arith delayed par.dMin ≠ Rounded.share arith delayed par.dMax ∧
      arith.inRange (Rounded.share arith delayed par.dMax -
        Rounded.share arith delayed par.dMin) = true := by
  intro delayed
  obtain ⟨htag, hle⟩ := Rounded.forwarded_window h hfinite hsend htag'
  have htMin : tag'.tMin = Rounded.share arith delayed par.dMin + tag.tRcv := by
    rw [htag, ← h.dMin]
    rfl
  have htMax : tag'.tMax = Rounded.share arith delayed par.dMax + tag.tRcv := by
    rw [htag, ← h.dMax]
    rfl
  have hdMax : tag'.dMax ≠ 0 := by
    rw [htag]
    change option.dMax ≠ 0
    rwa [h.dMax]
  rw [Rounded.priorityWellDefined_iff htag' hdMax hle, htMin, htMax, ne_eq, add_left_inj,
    add_sub_add_right_eq_sub]

/-- The tag of `sampleEncapsulated` in the sender's queue. -/
def sampleWindowTag : DBFHeaderTag :=
  { hDelay := 1, toDelay := 4, toHops := 2, dMin := 6, dMax := 10, lqBudgetMin := 1,
    lqBudgetMax := 3, tMin := 1, tMax := 3 }

theorem dynamic_priority_sample :
    Rounded.PriorityWellDefined picoseconds
      { sampleEncapsulated with tag := some sampleWindowTag } sampleWindowTag :=
  (dynamic_priority_iff picoseconds sampleParameters sampleSender.computer sampleEncapsulated
    { tRcv := 0, fromNetwork := false } { dMin := 6, dMax := 10 }
    { hops := 0, lDelay := 0, hDelay := 0, fromDelay := 0, toDelay := 0 }
    { hops := 2, lDelay := 1, hDelay := 1, fromDelay := 2, toDelay := 2 }
    sampleEncapsulated_atNode (by decide +kernel) _ sampleWindowTag (by decide +kernel) rfl).mpr
    (by decide +kernel)

/-! `initialize` accepts a minimum and a maximum of ten seconds, or of a picosecond more:
with two hops to go both send times are three seconds after the packet was received. -/

def samplePointSender (dMax : SimTime) : DBFComputer :=
  { sampleSender.computer with dMin := 10, dMax := dMax }

def samplePoint (dMax : SimTime) : Packet :=
  { bitLength := 1000,
    ipv4Header := some
      { srcAddress := 1, destAddress := 2, options := [.dbf { dMin := 10, dMax := dMax }] },
    tag := some { tRcv := 0, fromNetwork := false } }

def samplePointTag (dMax : SimTime) : DBFHeaderTag :=
  { hDelay := 1, toDelay := 4, toHops := 2, dMin := 10, dMax := dMax, lqBudgetMin := 3,
    lqBudgetMax := 3, tMin := 3, tMax := 3 }

/-- The sender forwards such a packet, and its priority at `tMax` is 0. -/
structure FailsAtPoint (dMax : SimTime) (forwarded : Packet) : Prop where
  accepted : DBFComputer.initialize { sampleParameters with dMin := 10, dMax := dMax } =
    .ok (samplePointSender dMax)
  encapsulated : DBFIpv4.encapsulate (samplePointSender dMax) 0 sampleDatagram =
    .ok (samplePoint dMax)
  forwards : Rounded.sendPacketToNIC picoseconds (samplePointSender dMax) (samplePoint dMax) =
    .ok (some forwarded)
  window : forwarded.tag = some (samplePointTag dMax)
  compared : isPacketReadyToSend 3 forwarded = true ∧ packetExpired 3 forwarded = false
  last : Rounded.calculateDynamicPriority picoseconds (samplePointTag dMax).tMax forwarded = .ok 0
  undefined : ¬ Rounded.PriorityWellDefined picoseconds forwarded (samplePointTag dMax)

theorem samplePoint_accepted {dMax : SimTime} (hle : 10 ≤ dMax) :
    DBFComputer.initialize { sampleParameters with dMin := 10, dMax := dMax } =
      .ok (samplePointSender dMax) := by
  have hmin : ¬ (10 : SimTime) < 0 := by norm_num
  have hmax : ¬ dMax < 0 := by linarith
  unfold DBFComputer.initialize
  rw [if_neg (by simp [not_lt.mpr hle]), if_neg (by simp [hmin, hmax])]
  rfl

theorem dynamic_priority_fails : (∃ forwarded, FailsAtPoint 10 forwarded) ∧
    ∃ forwarded, FailsAtPoint (10 + 1 / 10 ^ 12) forwarded := by
  constructor
  · have hlast : Rounded.calculateDynamicPriority picoseconds 3
        { samplePoint 10 with tag := some (samplePointTag 10) } = .ok 0 := by decide +kernel
    exact ⟨_, samplePoint_accepted (by decide +kernel), by decide +kernel, by decide +kernel, rfl,
      by decide +kernel, hlast, Rounded.not_priorityWellDefined hlast⟩
  · have hlast : Rounded.calculateDynamicPriority picoseconds 3
        { samplePoint (10 + 1 / 10 ^ 12) with
          tag := some (samplePointTag (10 + 1 / 10 ^ 12)) } = .ok 0 := by decide +kernel
    exact ⟨_, samplePoint_accepted (by decide +kernel), by decide +kernel, by decide +kernel, rfl,
      by decide +kernel, hlast, Rounded.not_priorityWellDefined hlast⟩

end DelayBasedForwarding
