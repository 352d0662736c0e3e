import DelayBasedForwarding.Packet
import DelayBasedForwarding.Library.SortedMap
import DelayBasedForwarding.Library.Runs
import Mathlib.Algebra.Order.Ring.Rat
import Mathlib.Algebra.Order.Ring.Abs
import Mathlib.Data.Rat.Floor
import Mathlib.Tactic.Linarith
import Mathlib.Tactic.Ring

/-!
# The classifier and its queues

`DBFPriorityClassifier` computes a delta from the local budgets of a packet and
keeps one queue for each delta, created when the first packet of that delta
arrives.  A queue is entered into five vectors of the classifier and the
scheduler and into the map from deltas to indices, over which the scheduler
iterates in the order of its keys.
-/

namespace DelayBasedForwarding

open SortedMap TransitionRuns

structure ClassifierParameters where
  deltaSteps : SimTime
  maximumDelta : SimTime
deriving DecidableEq, Repr

/-! ## The delta of a packet -/

/-- The loop `while (lqbudget > bestDelta) bestDelta += deltaSteps`, cut off
    after `fuel` tests of its condition. -/
def bestDeltaLoop (deltaSteps lqbudget : SimTime) : Nat → SimTime → Option SimTime
  | 0, _ => none
  | fuel + 1, bestDelta =>
      if lqbudget > bestDelta then bestDeltaLoop deltaSteps lqbudget fuel (bestDelta + deltaSteps)
      else some bestDelta

/-- As many tests as the loop needs if it ends at all (`bestDeltaLoop_fuel`). -/
def bestDeltaFuel (deltaSteps lqbudget : SimTime) : Nat := (lqbudget / deltaSteps).ceil.toNat + 1

def lqbudget (tag : DBFHeaderTag) : SimTime := |tag.lqBudgetMax - tag.lqBudgetMin|

/-- The delta `classifyPacket` computes; `none` is a loop that never ends. -/
def packetDelta (par : ClassifierParameters) (packet : Packet) : Option SimTime :=
  match packet.tag with
  | none => some par.maximumDelta
  | some tag =>
      if !hasInfiniteDmax tag && lqbudget tag < par.maximumDelta then
        bestDeltaLoop par.deltaSteps (lqbudget tag)
          (bestDeltaFuel par.deltaSteps (lqbudget tag)) par.deltaSteps
      else some par.maximumDelta

/-- The loop ends at the first `bestDelta + k * deltaSteps` that reaches the budget. -/
theorem bestDeltaLoop_eq_some_iff {deltaSteps budget : SimTime} :
    ∀ {fuel : Nat} {bestDelta delta : SimTime},
      bestDeltaLoop deltaSteps budget fuel bestDelta = some delta ↔
        ∃ k < fuel, delta = bestDelta + k * deltaSteps ∧ budget ≤ delta ∧
          ∀ j < k, bestDelta + j * deltaSteps < budget := by
  intro fuel
  induction fuel with
  | zero => simp [bestDeltaLoop]
  | succ fuel ih =>
      intro bestDelta delta
      unfold bestDeltaLoop
      by_cases hloop : budget > bestDelta
      · rw [if_pos hloop, ih]
        constructor
        · rintro ⟨k, hk, hdelta, hreached, hbefore⟩
          refine ⟨k + 1, by omega, by rw [hdelta]; push_cast; ring, hreached, ?_⟩
          intro j hj
          cases j with
          | zero => simpa using hloop
          | succ j =>
              have := hbefore j (by omega)
              push_cast
              linarith
        · rintro ⟨k, hk, hdelta, hreached, hbefore⟩
          cases k with
          | zero =>
              simp only [Nat.cast_zero, zero_mul, add_zero] at hdelta
              rw [hdelta] at hreached
              exact absurd hloop (not_lt.mpr hreached)
          | succ k =>
              refine ⟨k, by omega, by rw [hdelta]; push_cast; ring, hreached, ?_⟩
              intro j hj
              have := hbefore (j + 1) (by omega)
              push_cast at this
              linarith
      · rw [if_neg hloop, Option.some.injEq]
        constructor
        · rintro rfl
          exact ⟨0, by omega, by simp, not_lt.mp hloop, by simp⟩
        · rintro ⟨k, _, hdelta, _, hbefore⟩
          cases k with
          | zero => simpa using hdelta.symm
          | succ k =>
              have := hbefore 0 (by omega)
              simp only [Nat.cast_zero, zero_mul, add_zero] at this
              exact absurd this hloop

/-- The fuel decides nothing: the loop ends with some fuel exactly when it ends
    with `bestDeltaFuel`, and with the same delta. -/
theorem bestDeltaLoop_fuel {deltaSteps budget delta : SimTime} :
    bestDeltaLoop deltaSteps budget (bestDeltaFuel deltaSteps budget) deltaSteps = some delta ↔
      ∃ fuel, bestDeltaLoop deltaSteps budget fuel deltaSteps = some delta := by
  constructor
  · exact fun h => ⟨_, h⟩
  · rintro ⟨fuel, h⟩
    rw [bestDeltaLoop_eq_some_iff] at h ⊢
    obtain ⟨k, _, hdelta, hreached, hbefore⟩ := h
    refine ⟨k, ?_, hdelta, hreached, hbefore⟩
    cases k with
    | zero => simp [bestDeltaFuel]
    | succ k =>
        -- the loop took a turn at `k`, so the step is positive and `k + 1` below the quotient
        have hlast := hbefore k (by omega)
        have hpos : 0 < deltaSteps := by
          rw [hdelta] at hreached
          push_cast at hreached
          linarith
        have hquotient : ((k + 1 : Nat) : SimTime) < budget / deltaSteps := by
          rw [lt_div_iff₀ hpos]
          push_cast
          linarith
        have hceil : ((k + 1 : Nat) : Int) < (budget / deltaSteps).ceil := by
          have hle : budget / deltaSteps ≤ ((budget / deltaSteps).ceil : SimTime) :=
            Rat.le_ceil
          have hlt : (((k + 1 : Nat) : Int) : SimTime) <
              ((budget / deltaSteps).ceil : SimTime) := by
            rw [Int.cast_natCast]
            exact lt_of_lt_of_le hquotient hle
          exact_mod_cast hlt
        unfold bestDeltaFuel
        omega

/-! ## The vectors of the classifier and the scheduler -/

/-- A queue module of the compound module. -/
abbrev QueueId := Nat

/-- A gate of the vector `out` of the classifier or `in` of the scheduler, and
    the queue at its other end. -/
structure Gate where
  index : Nat
  queue : QueueId
deriving DecidableEq, Repr

/-- The names of queue modules: those of the NED file and `queue(delta=...)`. -/
inductive QueueName where
  | queue (index : Nat)
  | delta (delta : SimTime)
deriving DecidableEq, Repr

structure Registry where
  modules : List QueueName
  -- the classifier
  deltaQueueMap : List (SimTime × Nat)
  outGateSize : Nat
  outputGates : List Gate
  consumers : List QueueId
  -- the scheduler
  inGateSize : Nat
  inputGates : List Gate
  providers : List QueueId
  collections : List QueueId
deriving DecidableEq, Repr

inductive ClassifierError where
  | gateNotCreated                                        -- "Gate not created."
  | differentIndices (consumerIdx providerIdx : Nat)      -- "Queues are in different indices"
  | endlessLoop                                           -- `classifyPacket` does not return
deriving DecidableEq, Repr

namespace Registry

/-- The gates to `count` queues. -/
def gates (count : Nat) : List Gate :=
  (List.range count).map fun index => { index := index, queue := index }

/-- The registry after initialization with `count` queues of the NED file. -/
def prebuilt (count : Nat) : Registry :=
  { modules := (List.range count).map .queue, deltaQueueMap := [],
    outGateSize := count, outputGates := gates count, consumers := List.range count,
    inGateSize := count, inputGates := gates count, providers := List.range count,
    collections := List.range count }

/-- `DBFPriorityScheduler::addDBFQueue`. -/
def addDBFQueue (registry : Registry) (dbfQueue : QueueId) :
    Except ClassifierError (Nat × Registry) :=
  let numGates := registry.inGateSize
  let registry := { registry with inGateSize := numGates + 1 }
  if registry.inGateSize - numGates ≠ 1 then .error .gateNotCreated
  else
    let providerIdx := registry.inGateSize - 1
    let inputGate : Gate := { index := providerIdx, queue := dbfQueue }
    .ok (providerIdx, { registry with
      inputGates := registry.inputGates ++ [inputGate],
      providers := registry.providers ++ [dbfQueue],
      collections := registry.collections ++ [dbfQueue] })

/-- `DBFPriorityClassifier::createDBFQueue`. -/
def createDBFQueue (registry : Registry) (delta : SimTime) :
    Except ClassifierError (Nat × Registry) :=
  let dbfQueue : QueueId := registry.modules.length
  let registry := { registry with modules := registry.modules ++ [QueueName.delta delta] }
  let numGates := registry.outGateSize
  let registry := { registry with outGateSize := numGates + 1 }
  if registry.outGateSize - numGates ≠ 1 then .error .gateNotCreated
  else
    let consumerIdx := registry.outGateSize - 1
    let outputGate : Gate := { index := consumerIdx, queue := dbfQueue }
    let registry := { registry with
      outputGates := registry.outputGates ++ [outputGate],
      consumers := registry.consumers ++ [dbfQueue] }
    match registry.addDBFQueue dbfQueue with
    | .error error => .error error
    | .ok (providerIdx, registry) =>
        if consumerIdx ≠ providerIdx then .error (.differentIndices consumerIdx providerIdx)
        else .ok (consumerIdx, registry)

/-- `DBFPriorityClassifier::getIndexOfQueueForDelta`. -/
def getIndexOfQueueForDelta (registry : Registry) (delta : SimTime) :
    Except ClassifierError (Nat × Registry) :=
  match registry.deltaQueueMap.find? fun entry => entry.1 == delta with
  | some entry => .ok (entry.2, registry)
  | none =>
      match registry.createDBFQueue delta with
      | .error error => .error error
      | .ok (consumerIdx, registry) =>
          .ok (consumerIdx, { registry with
            deltaQueueMap := insertNew delta consumerIdx registry.deltaQueueMap })

/-- `DBFPriorityClassifier::classifyPacket`. -/
def classifyPacket (par : ClassifierParameters) (registry : Registry) (packet : Packet) :
    Except ClassifierError (Nat × Registry) :=
  match packetDelta par packet with
  | none => .error .endlessLoop
  | some delta => registry.getIndexOfQueueForDelta delta

end Registry

end DelayBasedForwarding
