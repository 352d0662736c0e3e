import Mathlib.Data.List.DropRight
import Mathlib.Data.List.Basic

/-!
# Insertion from the back

A priority queue that is kept as a list inserts an element by walking from the
back while the element goes before the stored one.  The comparison need not be
an order: nothing is assumed of `before` here.  What insertion preserves is a
pairwise relation `R` for which passing an element and stopping at one both give
the right pairs.
-/

namespace BackInsertion

variable {α : Type*} (before : α → α → Bool) (x : α) (l : List α)

/-- Insert `x` behind the last element it does not go before. -/
def insertBack : List α := l.rdropWhile (before x) ++ x :: l.rtakeWhile (before x)

theorem insertBack_perm : (insertBack before x l).Perm (x :: l) := by
  have h : (l.rdropWhile (before x) ++ l.rtakeWhile (before x)) = l :=
    List.rdropWhile_append_rtakeWhile
  have hmiddle : (insertBack before x l).Perm
      (x :: (l.rdropWhile (before x) ++ l.rtakeWhile (before x))) := List.perm_middle
  rwa [h] at hmiddle

theorem insertBack_split : l.rdropWhile (before x) ++ l.rtakeWhile (before x) = l :=
  List.rdropWhile_append_rtakeWhile

variable {before x l}

theorem mem_insertBack {y : α} : y ∈ insertBack before x l ↔ y = x ∨ y ∈ l := by
  rw [(insertBack_perm before x l).mem_iff, List.mem_cons]

theorem length_insertBack : (insertBack before x l).length = l.length + 1 := by
  rw [(insertBack_perm before x l).length_eq, List.length_cons]

/-- The new element is the first one exactly if it goes before all others. -/
theorem head?_insertBack {first : α} {rest : List α} :
    (insertBack before x (first :: rest)).head? =
      some (if (first :: rest).all (before x) then x else first) := by
  unfold insertBack
  by_cases hall : (first :: rest).all (before x) = true
  · rw [if_pos hall]
    have hnone : (first :: rest).rdropWhile (before x) = [] :=
      List.rdropWhile_eq_nil_iff.mpr (List.all_eq_true.mp hall)
    rw [hnone]
    rfl
  · rw [if_neg hall]
    have hsome : (first :: rest).rdropWhile (before x) ≠ [] := by
      intro hnone
      exact hall (List.all_eq_true.mpr (List.rdropWhile_eq_nil_iff.mp hnone))
    obtain ⟨passed, hsplit⟩ := List.rdropWhile_prefix (before x) (first :: rest)
    obtain ⟨a, kept, hkept⟩ := List.exists_cons_of_ne_nil hsome
    rw [hkept] at hsplit ⊢
    cases hsplit
    rfl

theorem before_of_mem_rtakeWhile {y : α} (h : y ∈ l.rtakeWhile (before x)) :
    before x y = true :=
  List.mem_rtakeWhile_imp h

/-- Passing gives `R x _`, stopping gives `R _ x`, and what stands before the
    stop inherits it.  The old elements may be related by a stronger `S`. -/
theorem pairwise_insertBack {S R : α → α → Prop} (hl : l.Pairwise S)
    (hold : ∀ y ∈ l, ∀ z ∈ l, S y z → R y z)
    (hpass : ∀ y ∈ l, before x y = true → R x y)
    (hstop : ∀ y ∈ l, before x y = false → R y x)
    (hinherit : ∀ z ∈ l, ∀ y ∈ l, S z y → before x y = false → R z x) :
    (insertBack before x l).Pairwise R := by
  have hkept : l.rdropWhile (before x) <+: l := List.rdropWhile_prefix _ _
  have hpassed : l.rtakeWhile (before x) <:+ l := List.rtakeWhile_suffix _ _
  -- everything the walk leaves in front of `x` is related to it
  have hfront : ∀ z ∈ l.rdropWhile (before x), R z x := by
    intro z hz
    have hne : l.rdropWhile (before x) ≠ [] := List.ne_nil_of_mem hz
    have hlast := List.rdropWhile_last_not _ _ hne
    rw [Bool.not_eq_true] at hlast
    have hlastMem := List.getLast_mem hne
    by_cases hzlast : z = (l.rdropWhile (before x)).getLast hne
    · rw [hzlast]
      exact hstop _ (hkept.subset hlastMem) hlast
    · have hpair : S z ((l.rdropWhile (before x)).getLast hne) := by
        have hkeptPairwise := hl.sublist hkept.sublist
        rw [← List.dropLast_append_getLast hne] at hkeptPairwise hz
        rcases List.mem_append.mp hz with h | h
        · exact (List.pairwise_append.mp hkeptPairwise).2.2 z h _ (by simp)
        · exact absurd (List.mem_singleton.mp h) hzlast
      exact hinherit z (hkept.subset hz) _ (hkept.subset hlastMem) hpair hlast
  have hback : ∀ y ∈ l.rtakeWhile (before x), R x y := fun y hy =>
    hpass y (hpassed.subset hy) (before_of_mem_rtakeWhile hy)
  have hl : l.Pairwise R := hl.imp_of_mem fun hy hz h => hold _ hy _ hz h
  rw [← insertBack_split before x l, List.pairwise_append] at hl
  rw [insertBack, List.pairwise_append, List.pairwise_cons]
  refine ⟨hl.1, ⟨hback, hl.2.1⟩, fun z hz y hy => ?_⟩
  rcases List.mem_cons.mp hy with rfl | hy
  · exact hfront z hz
  · exact hl.2.2 z hz y hy

/-- In a list that insertion has put in order, what stands before an element the
    walk does not pass is related to the new one. -/
theorem pairwise_of_insertBack {R : α → α → Prop} (h : (insertBack before x l).Pairwise R) :
    l.Pairwise fun z y => before x y = false → R z x := by
  rw [insertBack, List.pairwise_append] at h
  have hkept : ∀ z ∈ l.rdropWhile (before x), R z x := fun z hz => h.2.2 z hz x (by simp)
  have hpassed : ∀ y ∈ l.rtakeWhile (before x), before x y ≠ false := by
    intro y hy
    simp [before_of_mem_rtakeWhile hy]
  rw [← insertBack_split before x l, List.pairwise_append]
  refine ⟨?_, ?_, ?_⟩
  · exact List.pairwise_of_forall_mem_list fun z hz _ _ _ => hkept z hz
  · exact List.pairwise_of_forall_mem_list fun _ _ y hy hstop => absurd hstop (hpassed y hy)
  · exact fun _ _ y hy hstop => absurd hstop (hpassed y hy)

/-- Elements of a kind that never pass each other stay in their order of insertion. -/
theorem filter_insertBack {P : α → Bool} (hx : P x = true)
    (hstop : ∀ y ∈ l, P y = true → before x y = false) :
    (insertBack before x l).filter P = l.filter P ++ [x] := by
  have hpassed : (l.rtakeWhile (before x)).filter P = [] := by
    rw [List.filter_eq_nil_iff]
    intro y hy hPy
    have hmem : y ∈ l := (List.rtakeWhile_suffix _ _).subset hy
    have := hstop y hmem hPy
    rw [before_of_mem_rtakeWhile hy] at this
    cases this
  have hsplit := congrArg (List.filter P) (insertBack_split before x l)
  rw [List.filter_append, hpassed, List.append_nil] at hsplit
  rw [insertBack, List.filter_append, List.filter_cons_of_pos hx, hpassed, hsplit]

theorem filter_insertBack_of_not {P : α → Bool} (hx : P x = false) :
    (insertBack before x l).filter P = l.filter P := by
  have hsplit := congrArg (List.filter P) (insertBack_split before x l)
  rw [List.filter_append] at hsplit
  rw [insertBack, List.filter_append, List.filter_cons_of_neg (by simp [hx]), hsplit]

/-- No element with `Q` is left in front of `x` exactly if `x` goes before each of
    them and before all that stands behind one. -/
theorem forall_rdropWhile_iff {Q : α → Prop} :
    (∀ y ∈ l.rdropWhile (before x), ¬ Q y) ↔
      (∀ y ∈ l, Q y → before x y = true) ∧ l.Pairwise fun y z => Q y → before x z = true := by
  have hsplit := insertBack_split before x l
  constructor
  · intro hfront
    refine ⟨?_, ?_⟩
    · intro y hy hQ
      rw [← hsplit, List.mem_append] at hy
      rcases hy with hy | hy
      · exact absurd hQ (hfront y hy)
      · exact before_of_mem_rtakeWhile hy
    · rw [← hsplit, List.pairwise_append]
      refine ⟨?_, ?_, ?_⟩
      · exact List.pairwise_of_forall_mem_list fun y hy _ _ hQ => absurd hQ (hfront y hy)
      · exact List.pairwise_of_forall_mem_list fun _ _ z hz _ => before_of_mem_rtakeWhile hz
      · exact fun y hy _ _ hQ => absurd hQ (hfront y hy)
  · rintro ⟨hbefore, hbehind⟩ y hy hQ
    -- the walk has stopped at the last element it leaves in front
    have hne : l.rdropWhile (before x) ≠ [] := List.ne_nil_of_mem hy
    have hstopped := List.rdropWhile_last_not _ _ hne
    have hkept : l.rdropWhile (before x) <+: l := List.rdropWhile_prefix _ _
    have hpairs := hbehind.sublist hkept.sublist
    rw [← List.dropLast_append_getLast hne] at hpairs hy
    rcases List.mem_append.mp hy with hy | hy
    · exact hstopped ((List.pairwise_append.mp hpairs).2.2 y hy _ (by simp) hQ)
    · rw [List.mem_singleton] at hy
      rw [hy] at hQ
      exact hstopped (hbefore _ (hkept.subset (List.getLast_mem hne)) hQ)

/-! ## Predicates that hold of a front part

If `R`-earlier elements satisfy `P` whenever later ones do, the elements with
`P` are exactly a front part of the list. -/

theorem filter_eq_takeWhile {R : α → α → Prop} {P : α → Bool}
    (hdown : ∀ x y, R x y → P y = true → P x = true) (hl : l.Pairwise R) :
    l.filter P = l.takeWhile P := by
  induction l with
  | nil => rfl
  | cons x l ih =>
      rw [List.pairwise_cons] at hl
      by_cases hx : P x = true
      · simp [hx, ih hl.2]
      · have hrest : l.filter P = [] := List.filter_eq_nil_iff.mpr fun y hy hPy =>
          hx (hdown x y (hl.1 y hy) hPy)
        simp [hx, hrest]

theorem not_of_mem_dropWhile {R : α → α → Prop} {P : α → Bool}
    (hdown : ∀ x y, R x y → P y = true → P x = true) (hl : l.Pairwise R) :
    ∀ y ∈ l.dropWhile P, P y = false := by
  induction l with
  | nil => simp
  | cons x l ih =>
      rw [List.pairwise_cons] at hl
      by_cases hx : P x = true
      · rw [List.dropWhile_cons_of_pos hx]
        exact ih hl.2
      · rw [List.dropWhile_cons_of_neg hx]
        intro y hy
        rcases List.mem_cons.mp hy with rfl | hy
        · exact eq_false_of_ne_true hx
        · exact eq_false_of_ne_true fun hPy => hx (hdown x y (hl.1 y hy) hPy)

end BackInsertion
