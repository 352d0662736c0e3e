import Mathlib.Data.Nat.Notation

/-!
# Runs of a labelled transition system

A system is a relation `step` between a state, an event and the next state.  A
run keeps its whole history, so that a statement can speak about every state
that was reached and every step that was taken.  The induction over runs is done
here once, in the form most proofs need: an invariant of the steps that meet a
condition.
-/

namespace TransitionRuns

variable {σ ε : Type*}

structure Transition (σ ε : Type*) where
  pre : σ
  event : ε
  post : σ

/-- `Run step start history s`: from `start` the transitions of `history` lead to `s`. -/
inductive Run (step : σ → ε → σ → Prop) (start : σ) : List (Transition σ ε) → σ → Prop where
  | start : Run step start [] start
  | next {history : List (Transition σ ε)} {s s' : σ} {event : ε} :
      Run step start history s → step s event s' →
      Run step start (history ++ [⟨s, event, s'⟩]) s'

variable {step : σ → ε → σ → Prop} {start : σ} {history : List (Transition σ ε)} {s : σ}

/-- Every transition of a run is a step. -/
theorem Run.step_of_mem (hrun : Run step start history s) :
    ∀ x ∈ history, step x.pre x.event x.post := by
  induction hrun with
  | start => simp
  | next _ hstep ih =>
      intro x hx
      rcases List.mem_append.mp hx with h | h
      · exact ih x h
      · rw [List.mem_singleton] at h
        subst h
        exact hstep

/-- What holds at the start and after every transition holds at the end. -/
theorem Run.forall_post {P : σ → Prop} (hrun : Run step start history s) (hstart : P start)
    (hpost : ∀ x ∈ history, P x.post) : P s := by
  cases hrun with
  | start => exact hstart
  | next _ _ => exact hpost _ (List.mem_append_right _ (List.mem_singleton.mpr rfl))

/-- A run of one system is a run of another that has all its steps. -/
theorem Run.imp {step' : σ → ε → σ → Prop} (h : ∀ s event s', step s event s' → step' s event s')
    (hrun : Run step start history s) : Run step' start history s := by
  induction hrun with
  | start => exact .start
  | next _ hstep ih => exact ih.next (h _ _ _ hstep)

/-- A run up to one of its transitions. -/
theorem Run.upTo (hrun : Run step start history s) :
    ∀ {before : List (Transition σ ε)} {x : Transition σ ε} {behind : List (Transition σ ε)},
      history = before ++ x :: behind → Run step start (before ++ [x]) x.post := by
  induction hrun with
  | start => simp
  | @next history s s' event hrun hstep ih =>
      intro before x behind hsplit
      rcases List.eq_nil_or_concat behind with rfl | ⟨init, last, rfl⟩
      · obtain ⟨rfl, hlast⟩ := List.append_inj' hsplit rfl
        cases hlast
        exact hrun.next hstep
      · have hsplit : history ++ [⟨s, event, s'⟩] = (before ++ x :: init) ++ [last] := by
          rw [hsplit, List.concat_eq_append, List.append_assoc, List.cons_append]
        exact ih (List.append_inj' hsplit rfl).1

/-- **Conditional invariants.**  What holds at the start and is preserved by
    every step that meets `C` holds at both ends of every transition of a run
    whose steps all meet `C`. -/
theorem Run.conditional {I : σ → Prop} {C : σ → ε → Prop} (hstart : I start)
    (hpreserved : ∀ s event s', I s → C s event → step s event s' → I s')
    (hrun : Run step start history s) (hC : ∀ x ∈ history, C x.pre x.event) :
    I s ∧ ∀ x ∈ history, I x.pre ∧ I x.post := by
  induction hrun with
  | start => exact ⟨hstart, by simp⟩
  | @next history s s' event _ hstep ih =>
      obtain ⟨hs, hbefore⟩ := ih fun x hx => hC x (List.mem_append_left _ hx)
      have hs' : I s' := hpreserved s event s' hs (hC ⟨s, event, s'⟩ (by simp)) hstep
      refine ⟨hs', fun x hx => ?_⟩
      rcases List.mem_append.mp hx with h | h
      · exact hbefore x h
      · rw [List.mem_singleton] at h
        subst h
        exact ⟨hs, hs'⟩

/-- An invariant of all steps holds at both ends of every transition. -/
theorem Run.invariant {I : σ → Prop} (hstart : I start)
    (hpreserved : ∀ s event s', I s → step s event s' → I s')
    (hrun : Run step start history s) : I s ∧ ∀ x ∈ history, I x.pre ∧ I x.post :=
  hrun.conditional (C := fun _ _ => True) hstart
    (fun s event s' hI _ => hpreserved s event s' hI) fun _ _ => trivial

/-- **Exact conditions.**  If every step that meets `C` keeps an invariant `J` that
    implies `P`, and from a state with `J` no other step ends in `P`, then `P` holds
    in every state a run reaches exactly when all its steps meet `C`. -/
theorem Run.forall_iff_of_invariant {J P : σ → Prop} {C : σ → ε → Prop} (hstart : J start)
    (hkept : ∀ s event s', J s → C s event → step s event s' → J s') (himplies : ∀ s, J s → P s)
    (hneeded : ∀ s event s', J s → step s event s' → P s' → C s event)
    (hrun : Run step start history s) :
    (∀ x ∈ history, P x.post) ↔ ∀ x ∈ history, C x.pre x.event := by
  constructor
  · intro hP
    suffices h : (∀ x ∈ history, C x.pre x.event) ∧ J s from h.1
    induction hrun with
    | start => exact ⟨by simp, hstart⟩
    | @next history s s' event hrun hstep ih =>
        rw [List.forall_mem_append, List.forall_mem_singleton] at hP ⊢
        obtain ⟨hbefore, hJ⟩ := ih hP.1
        have hC : C s event := hneeded s event s' hJ hstep hP.2
        exact ⟨⟨hbefore, hC⟩, hkept s event s' hJ hC hstep⟩
  · intro hC x hx
    exact himplies x.post ((hrun.conditional hstart hkept hC).2 x hx).2

/-- The same where the invariant is kept by all steps, and `C` decides about `P`. -/
theorem Run.forall_iff {I P : σ → Prop} {C : σ → ε → Prop} (hstart : I start) (hP : P start)
    (hpreserved : ∀ s event s', I s → step s event s' → I s')
    (hexact : ∀ s event s', I s → P s → step s event s' → (P s' ↔ C s event))
    (hrun : Run step start history s) :
    (∀ x ∈ history, P x.post) ↔ ∀ x ∈ history, C x.pre x.event := by
  apply hrun.forall_iff_of_invariant (J := fun s => I s ∧ P s) ⟨hstart, hP⟩
  · rintro s event s' ⟨hI, hP⟩ hC hstep
    exact ⟨hpreserved s event s' hI hstep, (hexact s event s' hI hP hstep).mpr hC⟩
  · exact fun s h => h.2
  · rintro s event s' ⟨hI, hP⟩ hstep hP'
    exact (hexact s event s' hI hP hstep).mp hP'

/-! ## Executable systems

Where the steps are computed by a function, a list of events has at most one
run, and a computation that ends shows that the run exists. -/

def replay (next : σ → ε → Option σ) : σ → List ε → Option σ
  | s, [] => some s
  | s, event :: events =>
      match next s event with
      | none => none
      | some s' => replay next s' events

theorem Run.of_replay {next : σ → ε → Option σ}
    (hnext : ∀ s event s', next s event = some s' → step s event s') :
    ∀ {events : List ε} {history : List (Transition σ ε)} {s s' : σ},
      Run step start history s → replay next s events = some s' →
      ∃ history', Run step start history' s' ∧
        history'.map Transition.event = history.map Transition.event ++ events := by
  intro events
  induction events with
  | nil =>
      intro history s s' hrun hreplay
      cases hreplay
      exact ⟨history, hrun, by simp⟩
  | cons event events ih =>
      intro history s s' hrun hreplay
      rw [replay] at hreplay
      cases hs : next s event with
      | none =>
          rw [hs] at hreplay
          cases hreplay
      | some t =>
          rw [hs] at hreplay
          obtain ⟨history', hrun', hevents⟩ := ih (hrun.next (hnext s event t hs)) hreplay
          exact ⟨history', hrun', by simpa using hevents⟩

/-- A check of the last state that succeeds shows a run to such a state. -/
theorem Run.exists_of_replay {next : σ → ε → Option σ}
    (hnext : ∀ s event s', next s event = some s' → step s event s') {events : List ε}
    {check : σ → Bool} (h : (replay next start events).any check = true) :
    ∃ history s, Run step start history s ∧ history.map Transition.event = events ∧
      check s = true := by
  cases hreplay : replay next start events with
  | none =>
      rw [hreplay] at h
      cases h
  | some s =>
      rw [hreplay] at h
      obtain ⟨history, hrun, hevents⟩ := Run.of_replay hnext Run.start hreplay
      exact ⟨history, s, hrun, hevents, h⟩

/-- The same with a check of every step. -/
theorem Run.exists_of_guarded_replay {next : σ → ε → Option σ} {C : σ → ε → Prop}
    [∀ s event, Decidable (C s event)]
    (hnext : ∀ s event s', next s event = some s' → step s event s') {events : List ε}
    {check : σ → Bool}
    (h : (replay (fun s event => if C s event then next s event else none) start events).any
      check = true) :
    ∃ history s, Run step start history s ∧ (∀ x ∈ history, C x.pre x.event) ∧
      history.map Transition.event = events ∧ check s = true := by
  have hguard : ∀ s event s', (if C s event then next s event else none) = some s' →
      C s event ∧ step s event s' := by
    intro s event s' hguarded
    split at hguarded
    · next hC => exact ⟨hC, hnext s event s' hguarded⟩
    · cases hguarded
  obtain ⟨history, s, hrun, hevents, hcheck⟩ := Run.exists_of_replay hguard h
  exact ⟨history, s, hrun.imp fun _ _ _ h => h.2, fun x hx => (hrun.step_of_mem x hx).1, hevents,
    hcheck⟩

/-- The same with a check of the last step. -/
theorem Run.exists_last_of_replay {next : σ → ε → Option σ}
    (hnext : ∀ s event s', next s event = some s' → step s event s') {events : List ε}
    {event : ε} {check : σ → σ → Bool}
    (h : (replay next start events).any (fun s => (next s event).any (check s)) = true) :
    ∃ history s s', Run step start (history ++ [⟨s, event, s'⟩]) s' ∧
      history.map Transition.event = events ∧ check s s' = true := by
  obtain ⟨history, s, hrun, hevents, hlast⟩ := Run.exists_of_replay hnext h
  cases hs : next s event with
  | none =>
      rw [hs] at hlast
      cases hlast
  | some s' =>
      rw [hs] at hlast
      exact ⟨history, s, s', hrun.next (hnext s event s' hs), hevents, hlast⟩

end TransitionRuns
