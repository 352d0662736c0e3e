import Mathlib.Data.List.MinMax

/-!
# The first of the greatest elements

A loop over a list that keeps a candidate and replaces it by what is strictly greater
ends with the first of the greatest elements: `List.argmax`.  Here is where this
element stands, in the whole list and among the elements of one kind.
-/

namespace FirstMaxima

/-- Of the elements with `P`, those in front of the first greatest one are smaller, and those
    behind are not greater. -/
theorem exists_split_of_argmax {α β : Type*} [LinearOrder β] {f : α → β} {P : α → Bool} {m : α} :
    ∀ {l : List α}, (l.filter P).argmax f = some m →
      ∃ before behind, l = before ++ m :: behind ∧
        (∀ a ∈ before, P a = true → f a < f m) ∧ ∀ a ∈ behind, P a = true → f a ≤ f m := by
  intro l
  induction l with
  | nil =>
      intro h
      cases h
  | cons a l ih =>
      intro h
      by_cases ha : P a = true
      · rw [List.filter_cons_of_pos ha, List.argmax_cons] at h
        cases hrest : (l.filter P).argmax f with
        | none =>
            rw [hrest] at h
            cases h
            refine ⟨[], l, rfl, by simp, ?_⟩
            intro b hb hPb
            have hmem : b ∈ l.filter P := List.mem_filter.mpr ⟨hb, hPb⟩
            rw [List.argmax_eq_none.mp hrest] at hmem
            cases hmem
        | some c =>
            rw [hrest] at h
            simp only at h
            by_cases hlt : f a < f c
            · rw [if_pos hlt] at h
              cases h
              obtain ⟨before, behind, hsplit, hbefore, hbehind⟩ := ih hrest
              refine ⟨a :: before, behind, by rw [hsplit]; rfl, ?_, hbehind⟩
              exact List.forall_mem_cons.mpr ⟨fun _ => hlt, hbefore⟩
            · rw [if_neg hlt] at h
              cases h
              refine ⟨[], l, rfl, by simp, ?_⟩
              intro b hb hPb
              have hmem : b ∈ l.filter P := List.mem_filter.mpr ⟨hb, hPb⟩
              exact (List.le_of_mem_argmax hmem hrest).trans (not_lt.mp hlt)
      · rw [List.filter_cons_of_neg ha] at h
        obtain ⟨before, behind, hsplit, hbefore, hbehind⟩ := ih h
        refine ⟨a :: before, behind, by rw [hsplit]; rfl, ?_, hbehind⟩
        exact List.forall_mem_cons.mpr ⟨fun hPa => absurd hPa ha, hbefore⟩

/-- Where `argmax` is of a kind whose members do not grow along the list, it is the first of
    the kind. -/
theorem head?_filter_of_argmax {α β : Type*} [LinearOrder β] {f : α → β} {P : α → Bool} {m : α}
    (hm : P m = true) : ∀ {l : List α}, l.argmax f = some m →
      (l.filter P).Pairwise (fun a b => f b ≤ f a) → (l.filter P).head? = some m := by
  intro l
  induction l with
  | nil =>
      intro hmax
      cases hmax
  | cons a rest ih =>
      intro hmax hordered
      rw [List.argmax_cons] at hmax
      cases hrest : rest.argmax f with
      | none =>
          rw [hrest] at hmax
          cases hmax
          simp [hm]
      | some c =>
          rw [hrest] at hmax
          simp only at hmax
          split at hmax
          · next hlt =>
              cases hmax
              cases hkind : P a with
              | true =>
                  rw [List.filter_cons_of_pos hkind, List.pairwise_cons] at hordered
                  have hmem := List.mem_filter.mpr ⟨List.argmax_mem hrest, hm⟩
                  exact absurd (hordered.1 m hmem) (not_le.mpr hlt)
              | false =>
                  have hnot : ¬ P a = true := by simp [hkind]
                  rw [List.filter_cons_of_neg hnot] at hordered ⊢
                  exact ih hrest hordered
          · cases hmax
            simp [hm]

/-- The first element with `R` is the first of all if `R` holds before an element that has
    it. -/
theorem head?_of_head?_filter {α : Type*} {R : α → Bool} {l : List α} {m : α}
    (h : (l.filter R).head? = some m) (hordered : l.Pairwise fun a b => R b = true → R a = true) :
    l.head? = some m := by
  cases l with
  | nil => exact h
  | cons a rest =>
      rw [List.pairwise_cons] at hordered
      cases hfirst : R a with
      | true =>
          rw [List.filter_cons_of_pos hfirst] at h
          exact h
      | false =>
          have hnot : ¬ R a = true := by simp [hfirst]
          rw [List.filter_cons_of_neg hnot] at h
          obtain ⟨hmem, hlater⟩ := List.mem_filter.mp (List.mem_of_head? h)
          exact absurd (hordered.1 m hmem hlater) hnot

end FirstMaxima
