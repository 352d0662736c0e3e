import Mathlib.Data.Nat.Notation

/-!
# Loops over a list that may fail

A loop that stops at its first error is `List.foldlM` in `Except`.  The rule for
such a loop shows that it does not fail: an invariant speaks about the elements
that are done, and every turn succeeds and re-establishes it.
-/

namespace FoldInvariant

universe u v w

variable {α : Type u} {τ τ' : Type v} {ε : Type w}

@[simp] theorem ok_bind (t : τ) (f : τ → Except ε τ') :
    ((Except.ok t : Except ε τ) >>= f) = f t := rfl

/-- **The rule for loops.**  `R done t` holds after the turns of `done`; each
    turn knows where in the list it is. -/
theorem foldlM_ok {f : τ → α → Except ε τ} (R : List α → τ → Prop) {l : List α} {t : τ}
    (hstart : R [] t)
    (hturn : ∀ done a rest t, l = done ++ a :: rest → R done t →
      ∃ t', f t a = .ok t' ∧ R (done ++ [a]) t') :
    ∃ t', l.foldlM f t = .ok t' ∧ R l t' := by
  suffices h : ∀ rest done t, l = done ++ rest → R done t →
      ∃ t', rest.foldlM f t = .ok t' ∧ R l t' from h l [] t rfl hstart
  intro rest
  induction rest with
  | nil =>
      intro done t hl hR
      rw [List.append_nil] at hl
      exact ⟨t, rfl, by rwa [hl]⟩
  | cons a rest ih =>
      intro done t hl hR
      obtain ⟨t', hf, hR'⟩ := hturn done a rest t hl hR
      obtain ⟨t'', hrest, hR''⟩ := ih (done ++ [a]) t' (by simpa using hl) hR'
      refine ⟨t'', ?_, hR''⟩
      rw [List.foldlM_cons, hf]
      exact hrest

/-- A loop whose turns change nothing. -/
theorem foldlM_same {f : τ → α → Except ε τ} {l : List α} {t : τ}
    (hturn : ∀ a ∈ l, f t a = .ok t) : l.foldlM f t = .ok t := by
  obtain ⟨t', hfold, rfl⟩ := foldlM_ok (f := f) (l := l) (fun _ t' => t' = t) rfl (by
    rintro done a rest _ rfl rfl
    exact ⟨_, hturn a (by simp), rfl⟩)
  exact hfold

end FoldInvariant
