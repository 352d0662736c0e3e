import DelayBasedForwarding.Library.Runs
import Mathlib.Data.Multiset.MapFold
import Mathlib.Algebra.Order.Group.Multiset
import Mathlib.Tactic.Abel

/-!
# Delivery services

A delivery service accepts promises and keeps them pending.  A pending promise is
delivered at a time at which it is kept, or it is lost if it may be.  Whatever the
order of all this, what was accepted is then pending, delivered or lost, each promise
as often as it was accepted.  An observer sees what is accepted, and of a delivery the
time and as much of the promise as `view` shows.
-/

namespace Delivery

open TransitionRuns

variable {α β τ : Type*}

inductive Act (α τ : Type*) where
  | accept (promise : α)
  | deliver (time : τ) (promise : α)
  | lose (lost : Multiset α)

/-- The state is what is pending. -/
inductive Step (Kept : τ → α → Prop) (MayLose : α → Prop) :
    Multiset α → Act α τ → Multiset α → Prop where
  | accept {pending : Multiset α} (promise : α) :
      Step Kept MayLose pending (.accept promise) (promise ::ₘ pending)
  | deliver {pending : Multiset α} {time : τ} {promise : α} :
      Kept time promise → Step Kept MayLose (promise ::ₘ pending) (.deliver time promise) pending
  | lose {pending lost : Multiset α} :
      (∀ promise ∈ lost, MayLose promise) →
      Step Kept MayLose (pending + lost) (.lose lost) pending

/-! ## What was done -/

def Act.accepted : Act α τ → Multiset α
  | .accept promise => {promise}
  | .deliver _ _ => 0
  | .lose _ => 0

def Act.delivered : Act α τ → Multiset (τ × α)
  | .accept _ => 0
  | .deliver time promise => {(time, promise)}
  | .lose _ => 0

def Act.lost : Act α τ → Multiset α
  | .accept _ => 0
  | .deliver _ _ => 0
  | .lose lost => lost

/-- All a history did of one kind. -/
def total {γ : Type*} (kind : Act α τ → Multiset γ)
    (history : List (Transition (Multiset α) (Act α τ))) : Multiset γ :=
  (history.map fun x => kind x.event).sum

theorem total_append {γ : Type*} (kind : Act α τ → Multiset γ)
    (history : List (Transition (Multiset α) (Act α τ))) (x : Transition (Multiset α) (Act α τ)) :
    total kind (history ++ [x]) = total kind history + kind x.event := by
  simp [total]

theorem total_cons {γ : Type*} (kind : Act α τ → Multiset γ)
    (x : Transition (Multiset α) (Act α τ)) (history : List (Transition (Multiset α) (Act α τ))) :
    total kind (x :: history) = kind x.event + total kind history := by
  simp [total]

variable {Kept : τ → α → Prop} {MayLose : α → Prop} {pending : Multiset α}
  {history : List (Transition (Multiset α) (Act α τ))}

/-- **Balance.**  Everything accepted is pending, delivered or lost. -/
theorem accepted_eq (hrun : Run (Step Kept MayLose) 0 history pending) :
    total Act.accepted history =
      pending + (total Act.delivered history).map Prod.snd + total Act.lost history := by
  induction hrun with
  | start => simp [total]
  | @next history s s' event _ hstep ih =>
      rw [total_append, total_append, total_append, ih]
      cases hstep with
      | accept promise =>
          simp only [Act.accepted, Act.delivered, Act.lost, add_zero]
          rw [← Multiset.singleton_add]
          abel
      | @deliver _ time promise _ =>
          simp only [Act.accepted, Act.delivered, Act.lost, add_zero, Multiset.map_add,
            Multiset.map_singleton]
          rw [← Multiset.singleton_add]
          abel
      | lose _ =>
          simp only [Act.accepted, Act.delivered, Act.lost, add_zero]
          abel

/-- Deliveries keep their promises. -/
theorem kept_of_delivered (hrun : Run (Step Kept MayLose) 0 history pending) :
    ∀ x ∈ total Act.delivered history, Kept x.1 x.2 := by
  induction hrun with
  | start => simp [total]
  | @next history s s' event _ hstep ih =>
      intro x hx
      rw [total_append, Multiset.mem_add] at hx
      rcases hx with hx | hx
      · exact ih x hx
      · cases hstep with
        | accept promise => cases hx
        | deliver hkept =>
            cases Multiset.mem_singleton.mp hx
            exact hkept
        | lose _ => cases hx

theorem mayLose_of_lost (hrun : Run (Step Kept MayLose) 0 history pending) :
    ∀ promise ∈ total Act.lost history, MayLose promise := by
  induction hrun with
  | start => simp [total]
  | @next history s s' event _ hstep ih =>
      intro promise hpromise
      rw [total_append, Multiset.mem_add] at hpromise
      rcases hpromise with hpromise | hpromise
      · exact ih promise hpromise
      · cases hstep with
        | accept promise => cases hpromise
        | deliver hkept => cases hpromise
        | lose hlost => exact hlost promise hpromise

/-- What may not be lost is pending or delivered. -/
theorem accepted_filter_eq (hrun : Run (Step Kept MayLose) 0 history pending)
    (P : α → Prop) [DecidablePred P] (hsafe : ∀ promise, P promise → ¬ MayLose promise) :
    (total Act.accepted history).filter P =
      pending.filter P + ((total Act.delivered history).map Prod.snd).filter P := by
  have hnone : (total Act.lost history).filter P = 0 := by
    rw [Multiset.filter_eq_nil]
    exact fun promise hlost hP => hsafe promise hP (mayLose_of_lost hrun promise hlost)
  rw [accepted_eq hrun, Multiset.filter_add, Multiset.filter_add, hnone, add_zero]

/-! ## What is shown -/

inductive Shown (α β τ : Type*) where
  | accepted (promise : α)
  | delivered (time : τ) (content : β)

def Act.shown (view : α → β) : Act α τ → Option (Shown α β τ)
  | .accept promise => some (.accepted promise)
  | .deliver time promise => some (.delivered time (view promise))
  | .lose _ => none

def Shown.acceptance : Shown α β τ → Multiset α
  | .accepted promise => {promise}
  | .delivered _ _ => 0

def Shown.delivery : Shown α β τ → Multiset (τ × β)
  | .accepted _ => 0
  | .delivered time content => {(time, content)}

/-- What a history accepted and delivered can be read off what it has shown. -/
theorem shown_total (view : α → β) (history : List (Transition (Multiset α) (Act α τ))) :
    (((history.filterMap fun x => x.event.shown view).map Shown.acceptance).sum =
      total Act.accepted history) ∧
    ((history.filterMap fun x => x.event.shown view).map Shown.delivery).sum =
      (total Act.delivered history).map fun x => (x.1, view x.2) := by
  induction history with
  | nil => simp [total]
  | cons x rest ih =>
      obtain ⟨haccepted, hdelivered⟩ := ih
      rw [total_cons, total_cons, List.filterMap_cons, ← haccepted, Multiset.map_add, ← hdelivered]
      generalize rest.filterMap (fun x => x.event.shown view) = shown
      cases x.event with
      | accept promise =>
          simp [Act.shown, Act.accepted, Act.delivered, Shown.acceptance, Shown.delivery]
      | deliver time promise =>
          simp [Act.shown, Act.accepted, Act.delivered, Shown.acceptance, Shown.delivery]
      | lose lost => simp [Act.shown, Act.accepted, Act.delivered]

/-- **What an observer may conclude.**  There is a promise behind every delivery, accepted
    as often as it was delivered, and kept by it; and what may not be lost is pending or
    delivered. -/
theorem exists_promises (view : α → β) (hrun : Run (Step Kept MayLose) 0 history pending) :
    ∃ deliveries : Multiset (τ × α),
      deliveries.map (fun x => (x.1, view x.2)) =
        ((history.filterMap fun x => x.event.shown view).map Shown.delivery).sum ∧
      pending + deliveries.map Prod.snd ≤
        ((history.filterMap fun x => x.event.shown view).map Shown.acceptance).sum ∧
      (∀ x ∈ deliveries, Kept x.1 x.2) ∧
      ∀ (P : α → Prop) [DecidablePred P], (∀ promise, P promise → ¬ MayLose promise) →
        (((history.filterMap fun x => x.event.shown view).map Shown.acceptance).sum).filter P =
          (pending + deliveries.map Prod.snd).filter P := by
  obtain ⟨haccepted, hdelivered⟩ := shown_total view history
  refine ⟨total Act.delivered history, hdelivered.symm, ?_, kept_of_delivered hrun,
    fun P _ hsafe => ?_⟩
  · rw [haccepted, accepted_eq hrun]
    exact Multiset.le_add_right _ _
  · rw [haccepted, accepted_filter_eq hrun P hsafe, Multiset.filter_add]

end Delivery
