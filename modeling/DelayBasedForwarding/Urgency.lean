import DelayBasedForwarding.Registry
import DelayBasedForwarding.Library.Multiples

/-!
# Deltas and urgency

The loop of `classifyPacket` rounds the local budget of a packet up to a positive
multiple of `deltaSteps`.  The cut-off against `maximumDelta` is tested before
the rounding, so a budget between the last full step and the cut-off ends above
it, and its packet in a queue behind that of the best-effort packets.
-/

namespace DelayBasedForwarding

open PositiveMultiples TransitionRuns

variable {par : ClassifierParameters} {packet : Packet} {tag : DBFHeaderTag}

/-! ## Bucket computation -/

/-- The loop ends, with the rounded budget. -/
theorem bestDeltaLoop_roundsUpTo {deltaSteps : SimTime} (hsteps : 0 < deltaSteps)
    (budget : SimTime) : ∃ fuel delta,
    bestDeltaLoop deltaSteps budget fuel deltaSteps = some delta ∧
      RoundsUpTo deltaSteps budget delta := by
  -- the first turn at which the loop condition fails
  obtain ⟨k, hreached, hbefore⟩ : ∃ k : ℕ, budget ≤ (k + 1 : ℕ) * deltaSteps ∧
      ∀ j < k, ((j + 1 : ℕ) : SimTime) * deltaSteps < budget := by
    rcases le_or_gt budget 0 with hneg | hpos
    · exact ⟨0, by push_cast; linarith, by simp⟩
    · obtain ⟨k, hlast, hnext⟩ := exists_multiple_lt_le hsteps hpos
      refine ⟨k, hnext, fun j hj => ?_⟩
      exact (mul_le_mul_of_nonneg_right (Nat.cast_le.mpr hj) hsteps.le).trans_lt hlast
  refine ⟨k + 1, (k + 1 : ℕ) * deltaSteps, ?_, roundsUpTo_of_first hsteps hreached hbefore⟩
  rw [bestDeltaLoop_eq_some_iff]
  refine ⟨k, by omega, by push_cast; ring, hreached, fun j hj => ?_⟩
  have := hbefore j hj
  push_cast at this
  linarith

/-- The packets whose budget the loop rounds: `dMax` is finite and the budget
    below the cut-off. -/
def BelowCutoff (par : ClassifierParameters) (tag : DBFHeaderTag) : Prop :=
  tag.dMax ≠ 0 ∧ lqbudget tag < par.maximumDelta

theorem packetDelta_loop (htag : packet.tag = some tag) (hbelow : BelowCutoff par tag) :
    packetDelta par packet = bestDeltaLoop par.deltaSteps (lqbudget tag)
      (bestDeltaFuel par.deltaSteps (lqbudget tag)) par.deltaSteps := by
  simp [packetDelta, htag, hasInfiniteDmax, hbelow.1, hbelow.2]

theorem packetDelta_below (hsteps : 0 < par.deltaSteps) (htag : packet.tag = some tag)
    (hbelow : BelowCutoff par tag) :
    ∃ delta, packetDelta par packet = some delta ∧
      RoundsUpTo par.deltaSteps (lqbudget tag) delta := by
  obtain ⟨fuel, delta, hloop, hround⟩ := bestDeltaLoop_roundsUpTo hsteps (lqbudget tag)
  refine ⟨delta, ?_, hround⟩
  rw [packetDelta_loop htag hbelow]
  exact bestDeltaLoop_fuel.mpr ⟨fuel, hloop⟩

theorem packetDelta_cutoff (hcutoff : ∀ tag, packet.tag = some tag → ¬ BelowCutoff par tag) :
    packetDelta par packet = some par.maximumDelta := by
  cases htag : packet.tag with
  | none => simp [packetDelta, htag]
  | some tag =>
      rcases not_and_or.mp (hcutoff tag htag) with hinfinite | hhigh
      · simp [packetDelta, htag, hasInfiniteDmax, not_not.mp hinfinite]
      · simp [packetDelta, htag, hhigh]

/-- **Bucket computation.**  For a positive step:

    * a packet of finite `dMax` whose budget is below `maximumDelta` gets the
      least positive multiple of the step that reaches its budget, after finitely
      many turns of the loop;
    * every other packet gets exactly `maximumDelta`;
    * in any sequence of classifications, two packets of the first kind share a
      queue exactly when their budgets round up to the same multiple. -/
theorem bucket_computation (par : ClassifierParameters) (hsteps : 0 < par.deltaSteps) :
    (∀ packet tag, packet.tag = some tag → tag.dMax ≠ 0 → lqbudget tag < par.maximumDelta →
      ∃ fuel delta, bestDeltaLoop par.deltaSteps (lqbudget tag) fuel par.deltaSteps = some delta ∧
        packetDelta par packet = some delta ∧
        IsLeast {m | ∃ k : ℕ, 1 ≤ k ∧ m = k * par.deltaSteps ∧ lqbudget tag ≤ m} delta) ∧
    (∀ packet : Packet, (∀ tag, packet.tag = some tag →
        tag.dMax = 0 ∨ par.maximumDelta ≤ lqbudget tag) →
      packetDelta par packet = some par.maximumDelta) ∧
    ∀ count history registry, Run (Registry.Classify par) (Registry.prebuilt count) history
        registry → ∀ x ∈ history, ∀ y ∈ history, ∀ tag other,
      x.event.1.tag = some tag → tag.dMax ≠ 0 → lqbudget tag < par.maximumDelta →
      y.event.1.tag = some other → other.dMax ≠ 0 → lqbudget other < par.maximumDelta →
      (x.event.2 = y.event.2 ↔ ∃ m, RoundsUpTo par.deltaSteps (lqbudget tag) m ∧
        RoundsUpTo par.deltaSteps (lqbudget other) m) := by
  refine ⟨?_, ?_, ?_⟩
  · intro packet tag htag hfinite hbelow
    obtain ⟨delta, hdelta, hround⟩ := packetDelta_below hsteps htag ⟨hfinite, hbelow⟩
    obtain ⟨fuel, delta', hloop, hround'⟩ := bestDeltaLoop_roundsUpTo hsteps (lqbudget tag)
    rw [hround'.unique hround] at hloop
    exact ⟨fuel, delta, hloop, hdelta, hround⟩
  · intro packet hcutoff
    apply packetDelta_cutoff
    rintro tag htag ⟨hfinite, hbelow⟩
    rcases hcutoff tag htag with hinfinite | hle
    · exact hfinite hinfinite
    · exact absurd hbelow (not_lt.mpr hle)
  · intro count history registry hrun x hx y hy tag other htag hfinite hbelow hother hfinite'
      hbelow'
    obtain ⟨delta, delta', hdelta, hdelta', hqueues, _⟩ :=
      Registry.run_queue_iff (Registry.coherent_prebuilt count) hrun hx hy
    obtain ⟨d, hd, hround⟩ := packetDelta_below hsteps htag ⟨hfinite, hbelow⟩
    obtain ⟨d', hd', hround'⟩ := packetDelta_below hsteps hother ⟨hfinite', hbelow'⟩
    cases hd.symm.trans hdelta
    cases hd'.symm.trans hdelta'
    rw [hqueues]
    constructor
    · rintro rfl
      exact ⟨delta, hround, hround'⟩
    · rintro ⟨m, hm, hm'⟩
      rw [hround.unique hm, hround'.unique hm']

/-! A budget of four seconds with steps of three. -/

/-- One hop before the destination, with what is left of twenty seconds. -/
def sampleBudgetTag (budget : SimTime) : DBFHeaderTag :=
  { toHops := 1, dMax := 20, eDelay := 20 - budget, lqBudgetMax := budget, tMax := budget }

def sampleBudget (budget : SimTime) : Packet :=
  { bitLength := 800, ipv4Header := none, tag := some (sampleBudgetTag budget) }

theorem bucket_computation_sample :
    ∃ delta, packetDelta ⟨3, 10⟩ (sampleBudget 4) = some delta ∧
      IsLeast {m : SimTime | ∃ k : ℕ, 1 ≤ k ∧ m = k * 3 ∧ (4 : SimTime) ≤ m} delta := by
  have hbudget : lqbudget (sampleBudgetTag 4) = 4 := by decide +kernel
  obtain ⟨_, delta, _, hdelta, hleast⟩ :=
    (bucket_computation ⟨3, 10⟩ (by decide +kernel)).1 (sampleBudget 4) _ rfl
      (by decide +kernel) (by decide +kernel)
  rw [hbudget] at hleast
  exact ⟨delta, hdelta, hleast⟩

/-! ## Priority and urgency -/

/-- `packet` has a finite `dMax`. -/
def LatencyBound (packet : Packet) (tag : DBFHeaderTag) : Prop :=
  packet.tag = some tag ∧ tag.dMax ≠ 0

/-- The delta of `p`, if it is latency bound, is at most that of `q` if `q` is not,
    or has at least the budget of `p`. -/
def FollowsUrgency (par : ClassifierParameters) (p q : Packet) : Prop :=
  ∃ delta delta', packetDelta par p = some delta ∧ packetDelta par q = some delta' ∧
    ∀ tag, LatencyBound p tag →
      ((∀ other, ¬ LatencyBound q other) → delta ≤ delta') ∧
      ∀ other, LatencyBound q other → lqbudget tag ≤ lqbudget other → delta ≤ delta'

/-- If the budget of a latency-bound packet is below the cut-off, so is a multiple
    of the step that reaches it. -/
def RoundsInside (par : ClassifierParameters) (packet : Packet) : Prop :=
  ∀ tag, LatencyBound packet tag → lqbudget tag < par.maximumDelta →
    ∃ k : ℕ, 1 ≤ k ∧ lqbudget tag ≤ k * par.deltaSteps ∧ k * par.deltaSteps ≤ par.maximumDelta

/-- The packet is latency bound and its budget is below the cut-off. -/
def BudgetBelow (par : ClassifierParameters) (packet : Packet) : Prop :=
  ∃ tag, LatencyBound packet tag ∧ lqbudget tag < par.maximumDelta

theorem packetDelta_of_budgetBelow {p : Packet} (hsteps : 0 < par.deltaSteps)
    (htag : LatencyBound p tag) (hbelow : lqbudget tag < par.maximumDelta) :
    ∃ delta, packetDelta par p = some delta ∧ RoundsUpTo par.deltaSteps (lqbudget tag) delta :=
  packetDelta_below hsteps htag.1 ⟨htag.2, hbelow⟩

theorem packetDelta_of_not_budgetBelow {p : Packet} (h : ¬ BudgetBelow par p) :
    packetDelta par p = some par.maximumDelta := by
  apply packetDelta_cutoff
  rintro tag htag ⟨hfinite, hbelow⟩
  exact h ⟨tag, ⟨htag, hfinite⟩, hbelow⟩

theorem exists_packetDelta (hsteps : 0 < par.deltaSteps) (p : Packet) :
    ∃ delta, packetDelta par p = some delta := by
  by_cases hbelow : BudgetBelow par p
  · obtain ⟨tag, htag, hlt⟩ := hbelow
    obtain ⟨delta, hdelta, _⟩ := packetDelta_of_budgetBelow hsteps htag hlt
    exact ⟨delta, hdelta⟩
  · exact ⟨_, packetDelta_of_not_budgetBelow hbelow⟩

/-- What the cut-off means for the delta of a latency-bound packet. -/
theorem roundsInside_iff {p : Packet} {delta : SimTime} (hsteps : 0 < par.deltaSteps)
    (hdelta : packetDelta par p = some delta) :
    RoundsInside par p ↔ ((∃ tag, LatencyBound p tag) → delta ≤ par.maximumDelta) := by
  by_cases hbelow : BudgetBelow par p
  · obtain ⟨tag, htag, hlt⟩ := hbelow
    obtain ⟨d, hd, hround⟩ := packetDelta_of_budgetBelow hsteps htag hlt
    cases hd.symm.trans hdelta
    have hinside : RoundsInside par p ↔ delta ≤ par.maximumDelta := by
      rw [hround.le_iff]
      constructor
      · intro h
        exact h tag htag hlt
      · intro h other hother _
        cases hother.1.symm.trans htag.1
        exact h
    rw [hinside]
    exact ⟨fun h _ => h, fun h => h ⟨tag, htag⟩⟩
  · cases (packetDelta_of_not_budgetBelow hbelow).symm.trans hdelta
    constructor
    · intro _ _
      exact le_rfl
    · intro _ tag htag hlt
      exact absurd ⟨tag, htag, hlt⟩ hbelow

theorem followsUrgency_iff (hsteps : 0 < par.deltaSteps) (p q : Packet) :
    FollowsUrgency par p q ↔ RoundsInside par p ∨ BudgetBelow par q := by
  obtain ⟨delta, hdelta⟩ := exists_packetDelta hsteps p
  rw [roundsInside_iff hsteps hdelta]
  by_cases hq : BudgetBelow par q
  · -- two budgets below the cut-off are rounded in order
    obtain ⟨other, hother, hlt⟩ := hq
    obtain ⟨delta', hdelta', hround'⟩ := packetDelta_of_budgetBelow hsteps hother hlt
    have hfollows : FollowsUrgency par p q := by
      refine ⟨delta, delta', hdelta, hdelta', fun tag htag => ⟨fun hnone => ?_, ?_⟩⟩
      · exact absurd hother (hnone other)
      · intro other' hother' hle
        cases hother'.1.symm.trans hother.1
        obtain ⟨d, hd, hround⟩ := packetDelta_of_budgetBelow hsteps htag (hle.trans_lt hlt)
        cases hd.symm.trans hdelta
        exact hround.mono hround' hle
    exact ⟨fun _ => .inr ⟨other, hother, hlt⟩, fun _ => hfollows⟩
  · have hmax := packetDelta_of_not_budgetBelow hq
    constructor
    · rintro ⟨d, d', hd, hd', hfollows⟩
      cases hd.symm.trans hdelta
      cases hd'.symm.trans hmax
      left
      rintro ⟨tag, htag⟩
      by_cases hbound : ∃ other, LatencyBound q other
      · obtain ⟨other, hother⟩ := hbound
        by_cases hp : lqbudget tag < par.maximumDelta
        · have hbeyond : par.maximumDelta ≤ lqbudget other :=
            not_lt.mp fun hlt => hq ⟨other, hother, hlt⟩
          exact (hfollows tag htag).2 other hother (hp.le.trans hbeyond)
        · have hcut : ¬ BudgetBelow par p := by
            rintro ⟨tag', htag', hlt⟩
            cases htag'.1.symm.trans htag.1
            exact hp hlt
          cases (packetDelta_of_not_budgetBelow hcut).symm.trans hdelta
          exact le_rfl
      · exact (hfollows tag htag).1 (not_exists.mp hbound)
    · rintro (hinside | hbelow)
      · refine ⟨delta, par.maximumDelta, hdelta, hmax, fun tag htag => ?_⟩
        exact ⟨fun _ => hinside ⟨tag, htag⟩, fun _ _ _ => hinside ⟨tag, htag⟩⟩
      · exact absurd hbelow hq

/-- A packet of any non-negative budget is possible. -/
theorem lqbudget_sampleBudgetTag {budget : SimTime} (h : 0 ≤ budget) :
    lqbudget (sampleBudgetTag budget) = budget := by
  simp [lqbudget, sampleBudgetTag, abs_of_nonneg h]

theorem latencyBound_sampleBudget (budget : SimTime) :
    LatencyBound (sampleBudget budget) (sampleBudgetTag budget) :=
  ⟨rfl, by simp [sampleBudgetTag]⟩

/-- **Priority follows urgency.**  For a positive step and a positive cut-off:

    * the deltas of two packets are in the order of their urgency exactly when the
      first is not rounded beyond the cut-off, or the second is latency bound with
      a budget below the cut-off;
    * they are for all packets exactly when the cut-off is a multiple of the step. -/
theorem priority_follows_urgency_iff (par : ClassifierParameters) (hsteps : 0 < par.deltaSteps)
    (hmaximum : 0 < par.maximumDelta) :
    (∀ p q, FollowsUrgency par p q ↔ RoundsInside par p ∨ BudgetBelow par q) ∧
    ((∀ p q, FollowsUrgency par p q) ↔ ∃ k : ℕ, 1 ≤ k ∧ par.maximumDelta = k * par.deltaSteps) := by
  refine ⟨followsUrgency_iff hsteps, ?_⟩
  constructor
  · intro hfollows
    by_contra hnot
    obtain ⟨budget, hnonneg, hlt, hovershoot⟩ := exists_overshoot hsteps hmaximum hnot
    have hbudget := lqbudget_sampleBudgetTag hnonneg
    have hbound := latencyBound_sampleBudget budget
    rcases (followsUrgency_iff hsteps (sampleBudget budget) Registry.sampleRest).mp
      (hfollows _ _) with hinside | ⟨_, ⟨htag, _⟩, _⟩
    · have := hinside _ hbound (by rwa [hbudget])
      rw [hbudget] at this
      exact hovershoot this
    · cases htag
  · rintro ⟨k, hk, hmultiple⟩ p q
    rw [followsUrgency_iff hsteps]
    left
    intro tag _ hlt
    exact ⟨k, hk, by rw [← hmultiple]; exact hlt.le, hmultiple.ge⟩

/-- The shipped cut-off of 50 ms is five steps of 10 ms. -/
theorem priority_follows_urgency_sample :
    FollowsUrgency ⟨1 / 100, 5 / 100⟩ (sampleBudget (49 / 1000)) Registry.sampleRest := by
  have h := priority_follows_urgency_iff ⟨1 / 100, 5 / 100⟩ (by decide +kernel) (by decide +kernel)
  exact h.2.mpr ⟨5, by decide, by decide +kernel⟩ _ _

/-- With steps of three seconds and a cut-off of ten, a budget of nine and a half
    ranks below best-effort traffic. -/
theorem priority_follows_urgency_fails :
    packetDelta ⟨3, 10⟩ (sampleBudget (19 / 2)) = some 12 ∧
    packetDelta ⟨3, 10⟩ Registry.sampleRest = some 10 ∧
    ¬ FollowsUrgency ⟨3, 10⟩ (sampleBudget (19 / 2)) Registry.sampleRest := by
  have hbudget : packetDelta ⟨3, 10⟩ (sampleBudget (19 / 2)) = some 12 := by decide +kernel
  have hrest : packetDelta ⟨3, 10⟩ Registry.sampleRest = some 10 := by decide +kernel
  refine ⟨hbudget, hrest, ?_⟩
  rintro ⟨delta, delta', hdelta, hdelta', hfollows⟩
  cases hbudget.symm.trans hdelta
  cases hrest.symm.trans hdelta'
  have hle := (hfollows _ (latencyBound_sampleBudget _)).1 (by
    rintro other ⟨htag, _⟩
    cases htag)
  exact absurd hle (by decide +kernel)

end DelayBasedForwarding
