import Mathlib.Data.List.Perm.Basic
import Mathlib.Logic.Function.Basic
import Mathlib.Algebra.BigOperators.Group.Finset.Basic
import Mathlib.Tactic.Abel

/-!
# Pools

A pool is what lies in finitely many places together, up to the order.  Only the
places that are not empty matter.  Two things happen to a pool: the content of one
place is replaced, and the content of all places is sorted into two kinds.  Where a
finite type indexes the places, a sum over them changes by what is replaced.
-/

namespace Pools

variable {ι α : Type*} {places : List ι} {content : ι → List α} {i : ι}

def pool (places : List ι) (content : ι → List α) : List α := places.flatMap content

theorem mem_pool {x : α} : x ∈ pool places content ↔ ∃ i ∈ places, x ∈ content i :=
  List.mem_flatMap

/-- What is taken out of one place and what is put there instead balance. -/
theorem pool_update [DecidableEq ι] (hnodup : places.Nodup) (hi : i ∈ places) (new : List α) :
    (pool places (Function.update content i new) ++ content i).Perm
      (new ++ pool places content) := by
  obtain ⟨front, back, rfl⟩ := List.append_of_mem hi
  have hapart : i ∉ front ∧ i ∉ back := by
    rw [List.perm_middle.nodup_iff, List.nodup_cons, List.mem_append] at hnodup
    exact not_or.mp hnodup.1
  have hsame : ∀ part : List ι, i ∉ part →
      part.flatMap (Function.update content i new) = part.flatMap content := by
    intro part hpart
    apply List.flatMap_congr
    intro j hj
    rw [Function.update_of_ne (ne_of_mem_of_not_mem hj hpart)]
  unfold pool
  rw [List.flatMap_append, List.flatMap_append, List.flatMap_cons, List.flatMap_cons,
    hsame front hapart.1, hsame back hapart.2, Function.update_self]
  classical
  rw [List.perm_iff_count]
  intro x
  simp only [List.count_append]
  omega

/-- If only one place is not empty, its content is the pool. -/
theorem pool_eq (hnodup : places.Nodup) (hi : i ∈ places)
    (hothers : ∀ j ∈ places, j ≠ i → content j = []) : pool places content = content i := by
  obtain ⟨front, back, rfl⟩ := List.append_of_mem hi
  rw [List.perm_middle.nodup_iff, List.nodup_cons, List.mem_append] at hnodup
  obtain ⟨hfront, hback⟩ := not_or.mp hnodup.1
  have hempty : ∀ part : List ι, (∀ j ∈ part, j ∈ front ++ i :: back) → i ∉ part →
      part.flatMap content = [] := by
    intro part hpart hnot
    rw [List.flatMap_eq_nil_iff]
    exact fun j hj => hothers j (hpart j hj) (ne_of_mem_of_not_mem hj hnot)
  rw [pool, List.flatMap_append, List.flatMap_cons, hempty front (by simp +contextual) hfront,
    hempty back (by simp +contextual) hback, List.nil_append, List.append_nil]

/-- Every place is sorted into what satisfies `P` and what does not. -/
theorem pool_filter (P : α → Bool) :
    (pool places (fun i => (content i).filter P) ++
      pool places (fun i => (content i).filter fun x => !P x)).Perm (pool places content) := by
  refine (List.flatMap_append_perm _ _ _).trans ?_
  exact List.Perm.flatMap_left _ fun i _ => List.filter_append_perm P (content i)

theorem pool_nonempty (places : List ι) (content : ι → List α) :
    pool (places.filter fun i => !(content i).isEmpty) content = pool places content := by
  unfold pool
  induction places with
  | nil => rfl
  | cons i rest ih =>
      by_cases hempty : content i = []
      · rw [List.filter_cons_of_neg (by simp [hempty]), ih, List.flatMap_cons, hempty,
          List.nil_append]
      · rw [List.filter_cons_of_pos (by simp [hempty]), List.flatMap_cons, ih, List.flatMap_cons]

/-- A pool does not depend on the places beyond those that are not empty. -/
theorem pool_congr {places' : List ι} (hnodup : places.Nodup) (hnodup' : places'.Nodup)
    (h : ∀ i, content i ≠ [] → i ∈ places ∧ i ∈ places') :
    (pool places content).Perm (pool places' content) := by
  rw [← pool_nonempty places, ← pool_nonempty places']
  apply List.Perm.flatMap_right
  rw [List.perm_ext_iff_of_nodup (hnodup.filter _) (hnodup'.filter _)]
  intro i
  simp only [List.mem_filter, Bool.not_eq_true', List.isEmpty_eq_false_iff]
  constructor
  · exact fun hi => ⟨(h i hi.2).2, hi.2⟩
  · exact fun hi => ⟨(h i hi.2).1, hi.2⟩

/-- What is taken out of a list. -/
theorem map_erase {α β : Type*} [BEq α] [LawfulBEq α] (f : α → β) {l : List α} {x : α}
    (hx : x ∈ l) : (l : Multiset α).map f = (l.erase x : Multiset α).map f + {f x} := by
  rw [← Multiset.map_singleton f x, ← Multiset.map_add, add_comm, Multiset.singleton_add]
  congr 1
  exact Quot.sound (List.perm_cons_erase hx)

/-- A sum over the places changes by what is put into one of them. -/
theorem sum_update {ι α β : Type*} [Fintype ι] [DecidableEq ι] [AddCommMonoid β]
    (f : ι → α → β) (content : ι → α) (i : ι) (new : α) :
    (∑ j, f j (Function.update content i new j)) + f i (content i) =
      (∑ j, f j (content j)) + f i new := by
  have hsplit : ∀ g : ι → β, ∑ j, g j = g i + ∑ j ∈ Finset.univ.erase i, g j :=
    fun g => (Finset.add_sum_erase _ g (Finset.mem_univ i)).symm
  have hothers : ∑ j ∈ Finset.univ.erase i, f j (Function.update content i new j) =
      ∑ j ∈ Finset.univ.erase i, f j (content j) := by
    apply Finset.sum_congr rfl
    intro j hj
    rw [Function.update_of_ne (Finset.ne_of_mem_erase hj)]
  rw [hsplit, hsplit fun j => f j (content j), hothers, Function.update_self]
  abel

end Pools
