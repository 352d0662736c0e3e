import DelayBasedForwarding.PathGuarantee
import DelayBasedForwarding.RoundedComputer
import DelayBasedForwarding.SendWindow
import DelayBasedForwarding.Urgency

/-!
# Termination of the classification

The loop of `classifyPacket` adds `deltaSteps` until the local budget is reached.
`DBFPriorityClassifier::initialize` reads the step without a check.  With exact
arithmetic a step that is not positive never reaches a budget above it, so the
classifier does not return, and with it the handler of the push.  On 64 bits a
negative step leaves the range of simulation times and throws: a step of zero is
what remains.
-/

namespace DelayBasedForwarding

open SimTimeArithmetic TransitionRuns

/-! ## The loop -/

/-- Where `classifyPacket` comes to its loop, the loop ends after finitely many tests
    of its condition. -/
def LoopExits (par : ClassifierParameters) (tag : DBFHeaderTag) : Prop :=
  BelowCutoff par tag →
    ∃ fuel delta, bestDeltaLoop par.deltaSteps (lqbudget tag) fuel par.deltaSteps = some delta

theorem bestDeltaLoop_exits_iff {deltaSteps budget : SimTime} :
    (∃ fuel delta, bestDeltaLoop deltaSteps budget fuel deltaSteps = some delta) ↔
      0 < deltaSteps ∨ budget ≤ deltaSteps := by
  constructor
  · rintro ⟨fuel, delta, hloop⟩
    obtain ⟨k, _, hdelta, hreached, _⟩ := bestDeltaLoop_eq_some_iff.mp hloop
    rw [hdelta] at hreached
    by_contra hnot
    obtain ⟨hsteps, hbelow⟩ := not_or.mp hnot
    -- no turn gets nearer to the budget
    have hturns : (k : SimTime) * deltaSteps ≤ 0 :=
      mul_nonpos_of_nonneg_of_nonpos (Nat.cast_nonneg k) (not_lt.mp hsteps)
    linarith
  · rintro (hsteps | hreached)
    · obtain ⟨fuel, delta, hloop, _⟩ := bestDeltaLoop_roundsUpTo hsteps budget
      exact ⟨fuel, delta, hloop⟩
    · exact ⟨1, deltaSteps, by simp [bestDeltaLoop, hreached]⟩

variable {par : ClassifierParameters} {packet : Packet} {tag : DBFHeaderTag}

theorem lqbudget_nonneg : 0 ≤ lqbudget tag := abs_nonneg _

/-- A step that is not positive reaches a budget at once or never. -/
theorem lqbudget_le_iff {deltaSteps : SimTime} (hsteps : deltaSteps ≤ 0) :
    lqbudget tag ≤ deltaSteps ↔ deltaSteps = 0 ∧ tag.lqBudgetMax = tag.lqBudgetMin := by
  constructor
  · intro hle
    have hzero : deltaSteps = 0 := le_antisymm hsteps (lqbudget_nonneg.trans hle)
    rw [hzero] at hle
    exact ⟨hzero, sub_eq_zero.mp (abs_nonpos_iff.mp hle)⟩
  · rintro ⟨rfl, hequal⟩
    exact abs_nonpos_iff.mpr (sub_eq_zero.mpr hequal)

theorem loopExits_iff : LoopExits par tag ↔
    0 < par.deltaSteps ∨ tag.dMax = 0 ∨ par.maximumDelta ≤ lqbudget tag ∨
      par.deltaSteps = 0 ∧ tag.lqBudgetMax = tag.lqBudgetMin := by
  unfold LoopExits BelowCutoff
  rw [bestDeltaLoop_exits_iff]
  by_cases hsteps : 0 < par.deltaSteps
  · simp [hsteps]
  · rw [lqbudget_le_iff (not_lt.mp hsteps)]
    by_cases hinfinite : tag.dMax = 0
    · simp [hinfinite]
    · by_cases hbelow : lqbudget tag < par.maximumDelta
      · simp [hsteps, hinfinite, hbelow, not_le.mpr hbelow]
      · simp [hbelow, not_lt.mp hbelow]

/-- The model of `classifyPacket` has no delta exactly if the loop does not end. -/
theorem packetDelta_eq_none_iff :
    packetDelta par packet = none ↔ ∃ tag, packet.tag = some tag ∧ ¬ LoopExits par tag := by
  constructor
  · intro hnone
    by_contra hall
    have hcutoff : ∀ tag, packet.tag = some tag → ¬ BelowCutoff par tag := by
      intro tag htag hbelow
      apply hall
      refine ⟨tag, htag, fun hexits => ?_⟩
      obtain ⟨fuel, delta, hloop⟩ := hexits hbelow
      rw [packetDelta_loop htag hbelow, bestDeltaLoop_fuel.mpr ⟨fuel, hloop⟩] at hnone
      cases hnone
    cases (packetDelta_cutoff hcutoff).symm.trans hnone
  · rintro ⟨tag, htag, hendless⟩
    obtain ⟨hbelow, hnever⟩ := Classical.not_imp.mp hendless
    rw [packetDelta_loop htag hbelow, Option.eq_none_iff_forall_ne_some]
    intro delta hloop
    exact hnever ⟨_, delta, hloop⟩

/-! ## The egress -/

/-- In a run, a push hangs exactly when the loop does not end for its packet. -/
theorem push_hangs_iff (config : EgressConfig) (hcapacity : ∀ q, KeepsOne (config.capacity q))
    (scheduler : Scheduler)
    (hscheduler : scheduler = dbfPriorityScheduler ∨ scheduler = dbfDynamicPriorityScheduler)
    (count : Nat) (history : List (Transition Egress EgressEvent)) (s : Egress)
    (hrun : EgressRun scheduler config count history s) {t : SimTime}
    (henabled : Enabled s (.push t packet)) (hadmissible : Admissible (.push t packet)) :
    scheduler.handle config s (.push t packet) = .error (.classifier .endlessLoop) ↔
      ∃ tag, packet.tag = some tag ∧ ¬ LoopExits config.classifier tag := by
  obtain ⟨d⟩ := exists_discipline config hcapacity hscheduler
  obtain ⟨h, htimer⟩ := (d.inv_run hcapacity hrun).1
  rw [← packetDelta_eq_none_iff]
  rcases d.handle_push_cases hcapacity h htimer henabled hadmissible with
    ⟨hnone, hendless⟩ | ⟨delta, _, _, _, hdelta, _, hok, _⟩
  · exact ⟨fun _ => hnone, fun _ => hendless⟩
  · rw [hok, hdelta]
    simp

/-! ## The loop with rounding -/

namespace Rounded

section

variable (arith : SimTimeArithmetic)

def lqbudget (tag : DBFHeaderTag) : Except SimTimeError SimTime :=
  arith.ofDouble |arith.round (arith.dbl tag.lqBudgetMax - arith.dbl tag.lqBudgetMin)|

/-- The loop after `fuel` tests of its condition: `none` while it runs, and otherwise the
    delta it leaves with or the exception of `bestDelta += deltaSteps`. -/
def bestDeltaLoop (deltaSteps lqbudget : SimTime) :
    Nat → SimTime → Option (Except SimTimeError SimTime)
  | 0, _ => none
  | fuel + 1, bestDelta =>
      if lqbudget > bestDelta then
        match arith.add bestDelta deltaSteps with
        | .ok bestDelta => bestDeltaLoop deltaSteps lqbudget fuel bestDelta
        | .error error => some (.error error)
      else some (.ok bestDelta)

/-- The part of `classifyPacket` that computes the delta of a tagged packet. -/
def tagDelta (par : ClassifierParameters) (tag : DBFHeaderTag) (fuel : Nat) :
    Option (Except SimTimeError SimTime) :=
  match lqbudget arith tag with
  | .error error => some (.error error)
  | .ok lqbudget =>
      if !hasInfiniteDmax tag && lqbudget < par.maximumDelta then
        bestDeltaLoop arith par.deltaSteps lqbudget fuel par.deltaSteps
      else some (.ok par.maximumDelta)

/-- `classifyPacket` leaves its loop, or does not come to it. -/
def LoopExits (par : ClassifierParameters) (tag : DBFHeaderTag) : Prop :=
  ∃ fuel result, tagDelta arith par tag fuel = some result

/-- The tag is one that `processDBFPacket` leaves on a packet, at a node whose
    parameters `initialize` accepts. -/
def Produced (tag : DBFHeaderTag) : Prop :=
  ∃ par computer packet queued, DBFComputer.initialize par = .ok computer ∧
    processDBFPacket arith computer packet = .ok queued ∧ queued.tag = some tag

end

section

variable {arith : SimTimeArithmetic} {par : ClassifierParameters} {tag : DBFHeaderTag}
  {deltaSteps budget : SimTime}

theorem lqbudget_exact (tag : DBFHeaderTag) :
    lqbudget exact tag = .ok (DelayBasedForwarding.lqbudget tag) :=
  rfl

theorem bestDeltaLoop_exact (fuel : Nat) (bestDelta : SimTime) :
    bestDeltaLoop exact deltaSteps budget fuel bestDelta =
      (DelayBasedForwarding.bestDeltaLoop deltaSteps budget fuel bestDelta).map .ok := by
  induction fuel generalizing bestDelta with
  | zero => rfl
  | succ fuel ih =>
      unfold bestDeltaLoop DelayBasedForwarding.bestDeltaLoop
      split
      · exact ih (bestDelta + deltaSteps)
      · rfl

/-- While the loop runs, the delta stays in range. -/
theorem inRange_of_bestDeltaLoop {fuel : Nat} {bestDelta : SimTime}
    (h : bestDeltaLoop arith deltaSteps budget fuel bestDelta = none) :
    ∀ k < fuel, arith.inRange (bestDelta + (k + 1 : ℕ) * deltaSteps) = true := by
  induction fuel generalizing bestDelta with
  | zero => simp
  | succ fuel ih =>
      unfold bestDeltaLoop at h
      split at h
      · split at h
        · next next hadd =>
          obtain ⟨hrange, rfl⟩ := add_eq_ok_iff.mp hadd
          intro k hk
          cases k with
          | zero => simpa using hrange
          | succ k =>
              have hlater := ih h k (by omega)
              rwa [show bestDelta + deltaSteps + (k + 1 : ℕ) * deltaSteps =
                bestDelta + (k + 1 + 1 : ℕ) * deltaSteps by push_cast; ring] at hlater
        · cases h
      · cases h

/-- Any step but zero takes the delta to the budget or out of range. -/
theorem bestDeltaLoop_exits (hbounded : ∃ bound, ∀ t, arith.inRange t = true → |t| ≤ bound)
    (hsteps : deltaSteps ≠ 0) (bestDelta : SimTime) :
    ∃ fuel result, bestDeltaLoop arith deltaSteps budget fuel bestDelta = some result := by
  obtain ⟨bound, hbound⟩ := hbounded
  obtain ⟨n, hn⟩ := exists_nat_gt ((bound + |bestDelta|) / |deltaSteps|)
  rw [div_lt_iff₀ (abs_pos.mpr hsteps)] at hn
  refine ⟨n + 1, Option.ne_none_iff_exists'.mp fun hruns => ?_⟩
  have hle := hbound _ (inRange_of_bestDeltaLoop hruns n (by omega))
  -- after `n + 1` turns the delta is out of range
  have hfar : |((n + 1 : ℕ) : SimTime) * deltaSteps| ≤
      |bestDelta + (n + 1 : ℕ) * deltaSteps| + |bestDelta| := by
    calc |((n + 1 : ℕ) : SimTime) * deltaSteps| =
          |bestDelta + (n + 1 : ℕ) * deltaSteps - bestDelta| := by rw [add_sub_cancel_left]
      _ ≤ _ := abs_sub _ _
  rw [abs_mul, Nat.abs_cast] at hfar
  have hturn : (n : SimTime) * |deltaSteps| ≤ ((n + 1 : ℕ) : SimTime) * |deltaSteps| := by
    apply mul_le_mul_of_nonneg_right _ (abs_nonneg _)
    push_cast
    linarith
  linarith

/-- A step of zero never reaches a positive budget. -/
theorem bestDeltaLoop_zero (hpos : 0 < budget) (fuel : Nat) :
    bestDeltaLoop arith 0 budget fuel 0 = none := by
  induction fuel with
  | zero => rfl
  | succ fuel ih =>
      unfold bestDeltaLoop
      rw [if_pos hpos]
      simpa [add, checked, arith.inRange_zero] using ih

theorem lqbudget_nonneg (h : lqbudget arith tag = .ok budget) : 0 ≤ budget := by
  obtain ⟨_, rfl⟩ := ofDouble_eq_ok_iff.mp h
  exact truncate_nonneg (abs_nonneg _)

/-- On a bounded range only a step of zero keeps the loop from ending. -/
theorem loopExits_iff (hbounded : ∃ bound, ∀ t, arith.inRange t = true → |t| ≤ bound) :
    LoopExits arith par tag ↔
      ¬ (par.deltaSteps = 0 ∧ tag.dMax ≠ 0 ∧
        ∃ budget, lqbudget arith tag = .ok budget ∧ 0 < budget ∧ budget < par.maximumDelta) := by
  unfold LoopExits tagDelta
  cases hbudget : lqbudget arith tag with
  | error error => simp
  | ok budget =>
      by_cases hloop : tag.dMax ≠ 0 ∧ budget < par.maximumDelta
      · have hcond : (!hasInfiniteDmax tag && decide (budget < par.maximumDelta)) = true := by
          simp [hasInfiniteDmax, hloop.1, hloop.2]
        simp only [hcond, if_true]
        by_cases hsteps : par.deltaSteps = 0
        · rw [hsteps]
          rcases (lqbudget_nonneg hbudget).eq_or_lt with rfl | hpos
          · simp only [Except.ok.injEq, exists_eq_left', lt_irrefl, false_and, and_false,
              not_false_eq_true, iff_true]
            exact ⟨1, .ok 0, by simp [bestDeltaLoop]⟩
          · simp [bestDeltaLoop_zero hpos, hloop, hpos]
        · simp only [hsteps, false_and, not_false_eq_true, iff_true]
          exact bestDeltaLoop_exits hbounded hsteps par.deltaSteps
      · have hcond : (!hasInfiniteDmax tag && decide (budget < par.maximumDelta)) = false := by
          simpa [hasInfiniteDmax] using hloop
        simp only [hcond]
        refine ⟨fun _ h => hloop ?_, fun _ => ⟨0, _, rfl⟩⟩
        obtain ⟨_, hfinite, _, hequal, _, hbelow⟩ := h
        cases hequal
        exact ⟨hfinite, hbelow⟩

end

end Rounded

/-! ## The tags of `DBFComputer` -/

/-- A row without delays. -/
def nearRow (hops : Int32) : DbfFibEntry :=
  { hops := hops, lDelay := 0, hDelay := 0, fromDelay := 0, toDelay := 0 }

/-- A sender one hop before the destination, where nothing but queueing takes time. -/
def nearParameters (dMax : SimTime) : ComputerParameters :=
  { dMin := 0, dMax := dMax, admitBit := 0, datarate := none,
    dbfFIB := [
      { ip := 1, hops := ['0'], lDelay := 0, hDelay := 0, fromDelay := 0, toDelay := 0 },
      { ip := 2, hops := ['1'], lDelay := 0, hDelay := 0, fromDelay := 0, toDelay := 0 }] }

def nearSender (dMax : SimTime) : DBFComputer :=
  { dMin := 0, dMax := dMax, admitBit := 0, cableDatarate := 0,
    dbfFIB := loadFib (nearParameters dMax).dbfFIB }

/-- `sampleDatagram` as `encapsulate` of that sender leaves it at time 0. -/
def nearPacket (dMax : SimTime) : Packet :=
  { sampleDatagram with
    ipv4Header := some
      { srcAddress := 1, destAddress := 2, options := [.dbf { dMax := dMax }] },
    tag := some { tRcv := 0, fromNetwork := false } }

/-- The tag of that packet at its sender. -/
def nearTag (dMax : SimTime) : DBFHeaderTag :=
  { toHops := 1, dMax := dMax, lqBudgetMax := dMax, tMax := dMax }

theorem nearParameters_accepted {dMax : SimTime} (hpos : 0 < dMax) :
    DBFComputer.initialize (nearParameters dMax) = .ok (nearSender dMax) := by
  unfold DBFComputer.initialize
  simp [nearParameters, nearSender, not_lt.mpr hpos.le]

section

variable {arith : SimTimeArithmetic} {tick : SimTime}

section

variable (dMax : SimTime)

theorem near_transmissionTime :
    Rounded.transmissionTime arith (nearSender dMax) (nearPacket dMax) = 0 := by
  simp [Rounded.transmissionTime, nearSender]

theorem near_delay (hops : UInt32) : Rounded.delay arith hops 0 0 = 0 := by
  simp [Rounded.delay, arith.dbl_zero, arith.round_zero, arith.truncate_zero]

theorem near_delayedTag :
    Rounded.delayedTag arith (nearSender dMax) (nearPacket dMax)
      { tRcv := 0, fromNetwork := false } { dMax := dMax } (nearRow 0)
      (nearRow 1) = { toHops := 1, dMax := dMax } := by
  unfold Rounded.delayedTag
  rw [near_transmissionTime]
  simp only [nearRow, near_delay, DBFComputer.experienced]
  rfl

theorem near_delaysInRange :
    Rounded.DelaysInRange arith (nearSender dMax) (nearPacket dMax)
      { tRcv := 0, fromNetwork := false } { dMax := dMax } (nearRow 0) (nearRow 1) := by
  constructor
  · rw [near_transmissionTime]
    exact arith.inRange_zero
  · rw [near_transmissionTime]
    exact (near_delay _).symm ▸ arith.inRange_zero
  · rw [near_transmissionTime]
    exact (near_delay _).symm ▸ arith.inRange_zero
  · exact fun h => (nomatch h)

end

/-- One count is the budget of a tag with a finite `dMax`. -/
theorem near_share (hfixed : arith.FixedPoint tick) :
    Rounded.share arith { toHops := 1, dMax := tick } tick = tick := by
  have hone : (1 : UInt32).toNat = 1 := by decide
  simp [Rounded.share, hfixed.tick_pos.ne', hone, arith.round_dbl, hfixed.truncate_dbl]

theorem produced_tick (hfixed : arith.FixedPoint tick) :
    Rounded.Produced arith (nearTag tick) ∧ Rounded.lqbudget arith (nearTag tick) = .ok tick := by
  have hshare := near_share hfixed
  have hzero := @Rounded.share_zero arith { toHops := 1, dMax := tick }
  constructor
  · have hbudgets : Rounded.BudgetsInRange arith { toHops := 1, dMax := tick } := by
      refine ⟨fun h => absurd rfl h, ?_, ?_, fun _ => ?_, ?_⟩
      · rw [hzero]
        exact arith.inRange_zero
      · rw [hzero, add_zero]
        exact arith.inRange_zero
      · simp [hfixed.inRange_tick]
      · rw [hshare]
        exact hfixed.inRange_tick
    obtain ⟨queued, hprocess, htag⟩ := (@Rounded.exists_processed_iff arith (nearSender tick)
      (nearPacket tick) _ _ _ (nearTag tick) (nearRow 0) (nearRow 1)
      rfl rfl rfl rfl rfl (by decide)).mpr (by
        rw [near_delayedTag]
        refine ⟨near_delaysInRange tick, hbudgets, ?_, ?_⟩
        · rw [hshare, add_zero]
          exact hfixed.inRange_tick
        · simp only [Rounded.windowTag, Rounded.budgetTag, hshare, hzero, add_zero]
          rfl)
    exact ⟨_, _, _, queued, nearParameters_accepted hfixed.tick_pos, hprocess, htag⟩
  · have hdbl : 0 ≤ arith.dbl tick := dbl_nonneg hfixed.tick_pos.le
    simp [Rounded.lqbudget, nearTag, arith.dbl_zero, arith.round_dbl, abs_of_nonneg hdbl,
      hfixed.truncate_dbl, hfixed.inRange_tick]

end

/-- **Termination of the classification.**  `initialize` of the classifier accepts
    every `deltaSteps` and every `maximumDelta`.  Where simulation times are counts of a
    tick in a bounded range, as on 64 bits:

    * for a given tag the loop of `classifyPacket` ends, at the budget or with the
      exception of a sum out of range, unless the step is zero, `dMax` is finite and the
      budget is positive and below the cut-off;
    * it ends for every tag `DBFComputer` can produce exactly when the step is not zero
      or no budget lies between zero and the cut-off. -/
theorem classification_terminates_iff (arith : SimTimeArithmetic) (tick : SimTime)
    (hfixed : arith.FixedPoint tick) (par : ClassifierParameters) :
    (∀ tag : DBFHeaderTag, Rounded.LoopExits arith par tag ↔
      ¬ (par.deltaSteps = 0 ∧ tag.dMax ≠ 0 ∧ ∃ budget,
        Rounded.lqbudget arith tag = .ok budget ∧ 0 < budget ∧ budget < par.maximumDelta)) ∧
    ((∀ tag, Rounded.Produced arith tag → Rounded.LoopExits arith par tag) ↔
      par.deltaSteps ≠ 0 ∨ par.maximumDelta ≤ tick) := by
  have hiff := fun tag => @Rounded.loopExits_iff arith par tag hfixed.bounded
  refine ⟨hiff, fun hexits => ?_, ?_⟩
  · by_contra hnot
    obtain ⟨hsteps, hcutoff⟩ := not_or.mp hnot
    obtain ⟨hproduced, hbudget⟩ := produced_tick hfixed
    exact (hiff _).mp (hexits _ hproduced) ⟨not_not.mp hsteps, hfixed.tick_pos.ne', tick, hbudget,
      hfixed.tick_pos, not_le.mp hcutoff⟩
  · rintro hcond tag _
    refine (hiff tag).mpr ?_
    rintro ⟨hsteps, _, budget, hbudget, hpos, hbelow⟩
    rcases hcond with hne | hcutoff
    · exact hne hsteps
    · -- a positive budget is at least one count
      obtain ⟨_, rfl⟩ := ofDouble_eq_ok_iff.mp hbudget
      exact absurd (hcutoff.trans (hfixed.tick_le hpos)) (not_le.mpr hbelow)

theorem classification_terminates_sample :
    Rounded.LoopExits picoseconds ⟨3, 10⟩ (sampleBudgetTag 4) :=
  ((classification_terminates_iff picoseconds _ picoseconds_fixedPoint ⟨3, 10⟩).1
    (sampleBudgetTag 4)).mpr fun h => absurd h.1 (by decide +kernel)

/-- A step of zero, the default cut-off, and a packet that its sender forwards with a
    budget of ten seconds. -/
theorem classification_terminates_fails :
    DBFComputer.initialize (nearParameters 10) = .ok (nearSender 10) ∧
    DBFIpv4.encapsulate (nearSender 10) 0 sampleDatagram = .ok (nearPacket 10) ∧
    Rounded.sendPacketToNIC picoseconds (nearSender 10) (nearPacket 10) =
      .ok (some { nearPacket 10 with tag := some (nearTag 10) }) ∧
    Rounded.Produced picoseconds (nearTag 10) ∧
    ¬ Rounded.LoopExits picoseconds ⟨0, 9000000⟩ (nearTag 10) := by
  have hprocess : Rounded.processDBFPacket picoseconds (nearSender 10) (nearPacket 10) =
      .ok { nearPacket 10 with tag := some (nearTag 10) } := by decide +kernel
  refine ⟨rfl, by decide +kernel, by decide +kernel,
    ⟨nearParameters 10, _, _, _, rfl, hprocess, rfl⟩, ?_⟩
  rw [Rounded.loopExits_iff picoseconds_fixedPoint.bounded, not_not]
  exact ⟨rfl, by decide +kernel, 10, by decide +kernel, by decide +kernel, by decide +kernel⟩

end DelayBasedForwarding
