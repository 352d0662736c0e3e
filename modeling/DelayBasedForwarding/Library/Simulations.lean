import DelayBasedForwarding.Library.Runs
import Mathlib.Data.List.Basic

/-!
# Runs seen through another system

A run of a system of several parts is a run of each part, once the transitions of
the others are left out.  A run of an implementation is a run of its specification,
once states are read through an abstraction; the two then show an observer the same.
A run whose every step lowers a rank ends, and where it cannot end before, it can be
completed.
-/

namespace TransitionRuns

variable {σ ε σ' ε' ο : Type*} {step : σ → ε → σ → Prop} {step' : σ' → ε' → σ' → Prop}
  {start s : σ} {history : List (Transition σ ε)}

/-! ## Parts -/

/-- What a part of the system sees of a transition that concerns it. -/
def Transition.part (view : σ → σ') (event : Transition σ ε → Option ε') (x : Transition σ ε) :
    Option (Transition σ' ε') :=
  (event x).map fun e => ⟨view x.pre, e, view x.post⟩

/-- **Projection.**  If every transition is a step of the part or leaves it as it is,
    the transitions that concern the part are a run of it. -/
theorem Run.project {view : σ → σ'} {event : Transition σ ε → Option ε'}
    (hrun : Run step start history s)
    (hframe : ∀ x ∈ history, event x = none → view x.post = view x.pre)
    (hpart : ∀ x ∈ history, ∀ e, event x = some e → step' (view x.pre) e (view x.post)) :
    Run step' (view start) (history.filterMap (Transition.part view event)) (view s) := by
  induction hrun with
  | start => exact .start
  | @next history s s' e _ _ ih =>
      rw [List.forall_mem_append, List.forall_mem_singleton] at hframe hpart
      have hbefore := ih hframe.1 hpart.1
      rw [List.filterMap_append]
      cases hevent : event ⟨s, e, s'⟩ with
      | none =>
          have hsame : view s' = view s := hframe.2 hevent
          simpa [Transition.part, hevent, hsame] using hbefore
      | some e' =>
          have hstep : step' (view s) e' (view s') := hpart.2 e' hevent
          simpa [Transition.part, hevent] using hbefore.next hstep

/-! ## Abstractions -/

/-- **Simulation.**  If every transition, read through `abstract`, is a step of the other
    system that shows the same, the run is a run of the other system that shows the same. -/
theorem Run.simulate {abstract : σ → σ'} {shown : Transition σ ε → Option ο}
    {shown' : ε' → Option ο} (hrun : Run step start history s)
    (hsimulates : ∀ x ∈ history, ∃ e, step' (abstract x.pre) e (abstract x.post) ∧
      shown' e = shown x) :
    ∃ history', Run step' (abstract start) history' (abstract s) ∧
      history'.filterMap (fun x => shown' x.event) = history.filterMap shown := by
  induction hrun with
  | start => exact ⟨[], .start, rfl⟩
  | @next history s s' event _ _ ih =>
      rw [List.forall_mem_append, List.forall_mem_singleton] at hsimulates
      obtain ⟨history', hrun', hshown⟩ := ih hsimulates.1
      obtain ⟨e, hstep, hsame⟩ := hsimulates.2
      refine ⟨_, hrun'.next hstep, ?_⟩
      rw [List.filterMap_append, List.filterMap_append, hshown]
      simp only [List.filterMap_cons, List.filterMap_nil, hsame]

/-! ## Ranks -/

/-- A run whose steps lower a rank is no longer than the rank at its start. -/
theorem Run.length_add_rank_le {rank : σ → Nat} (hrun : Run step start history s)
    (hlowers : ∀ x ∈ history, rank x.post < rank x.pre) :
    history.length + rank s ≤ rank start := by
  induction hrun with
  | start => simp
  | @next history s s' event _ _ ih =>
      rw [List.forall_mem_append, List.forall_mem_singleton] at hlowers
      have hbefore := ih hlowers.1
      have hlast : rank s' < rank s := hlowers.2
      simp only [List.length_append, List.length_singleton]
      omega

/-- A run may also grow at its start. -/
theorem Run.cons {event : ε} {t : σ} (hstep : step start event t) (hrun : Run step t history s) :
    Run step start (⟨start, event, t⟩ :: history) s := by
  induction hrun with
  | start => exact Run.start.next hstep
  | next _ hlast ih => exact ih.next hlast

/-- **Completion.**  If every step keeps `I` and lowers a rank, and where `Final` does not
    hold there is a step, then from every state with `I` some run leads to `Final`. -/
theorem exists_run_to {I Final : σ → Prop} {rank : σ → Nat}
    (hkept : ∀ s event s', I s → step s event s' → I s' ∧ rank s' < rank s)
    (hprogress : ∀ s, I s → ¬ Final s → ∃ event s', step s event s') :
    ∀ s, I s → ∃ history s', Run step s history s' ∧ I s' ∧ Final s' := by
  intro s
  induction hrank : rank s using Nat.strongRecOn generalizing s with
  | ind n ih =>
      intro hI
      by_cases hfinal : Final s
      · exact ⟨[], s, .start, hI, hfinal⟩
      · obtain ⟨event, t, hstep⟩ := hprogress s hI hfinal
        obtain ⟨hI', hlower⟩ := hkept s event t hI hstep
        obtain ⟨history, s', hrun, hend⟩ := ih (rank t) (hrank ▸ hlower) t rfl hI'
        exact ⟨_, s', hrun.cons hstep, hend⟩

end TransitionRuns
