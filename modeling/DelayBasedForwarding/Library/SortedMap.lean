import Mathlib.Data.List.Basic
import Mathlib.Order.Lattice

/-!
# Maps as lists sorted by key

An ordered map is the list of its entries in the order in which an iterator
visits them.  `insertNew` is insertion into such a map: a key that is present
keeps its value.
-/

namespace SortedMap

variable {κ ν : Type*} [LinearOrder κ]

def insertNew (key : κ) (value : ν) : List (κ × ν) → List (κ × ν)
  | [] => [(key, value)]
  | entry :: rest =>
      if key < entry.1 then (key, value) :: entry :: rest
      else if entry.1 < key then entry :: insertNew key value rest
      else entry :: rest

/-- The keys ascend strictly. -/
def Ascending (map : List (κ × ν)) : Prop := map.Pairwise fun a b => a.1 < b.1

variable {map : List (κ × ν)} {key : κ} {value : ν}

theorem mem_of_mem_insertNew {entry : κ × ν} (h : entry ∈ insertNew key value map) :
    entry = (key, value) ∨ entry ∈ map := by
  induction map with
  | nil => simpa [insertNew] using h
  | cons first rest ih =>
      unfold insertNew at h
      split at h
      · simpa using h
      · split at h
        · rcases List.mem_cons.mp h with h | h
          · exact .inr (by simp [h])
          · rcases ih h with h | h
            · exact .inl h
            · exact .inr (List.mem_cons_of_mem _ h)
        · exact .inr h

theorem subset_insertNew : map ⊆ insertNew key value map := by
  intro entry h
  induction map with
  | nil => cases h
  | cons first rest ih =>
      unfold insertNew
      split
      · exact List.mem_cons_of_mem _ h
      · split
        · rcases List.mem_cons.mp h with h | h
          · simp [h]
          · exact List.mem_cons_of_mem _ (ih h)
        · exact h

theorem mem_insertNew_self (hnew : ∀ entry ∈ map, entry.1 ≠ key) :
    (key, value) ∈ insertNew key value map := by
  induction map with
  | nil => simp [insertNew]
  | cons first rest ih =>
      unfold insertNew
      split
      · exact List.mem_cons_self
      · split
        · exact List.mem_cons_of_mem _ (ih fun entry h => hnew entry (List.mem_cons_of_mem _ h))
        · next hge hle =>
            exact absurd (le_antisymm (not_lt.mp hge) (not_lt.mp hle))
              (hnew first List.mem_cons_self)

theorem ascending_insertNew (h : Ascending map) : Ascending (insertNew key value map) := by
  induction map with
  | nil => exact List.pairwise_singleton _ _
  | cons first rest ih =>
      have hrest : ∀ entry ∈ rest, first.1 < entry.1 := fun _ => List.rel_of_pairwise_cons h
      unfold insertNew
      split
      · next hlt =>
          refine List.Pairwise.cons ?_ h
          intro entry hentry
          rcases List.mem_cons.mp hentry with rfl | hentry
          · exact hlt
          · exact lt_trans hlt (hrest entry hentry)
      · split
        · next hgt =>
            refine List.Pairwise.cons ?_ (ih (List.Pairwise.of_cons h))
            intro entry hentry
            rcases mem_of_mem_insertNew hentry with rfl | hentry
            · exact hgt
            · exact hrest entry hentry
        · exact h

theorem eq_of_key_eq (h : Ascending map) {a b : κ × ν} (ha : a ∈ map) (hb : b ∈ map)
    (hkey : a.1 = b.1) : a = b := by
  induction map with
  | nil => cases ha
  | cons first rest ih =>
      have hrest : ∀ entry ∈ rest, first.1 < entry.1 := fun _ => List.rel_of_pairwise_cons h
      rcases List.mem_cons.mp ha with rfl | ha' <;> rcases List.mem_cons.mp hb with rfl | hb'
      · rfl
      · exact absurd hkey (ne_of_lt (hrest b hb'))
      · exact absurd hkey.symm (ne_of_lt (hrest a ha'))
      · exact ih (List.Pairwise.of_cons h) ha' hb'

/-- The iterator visits entries in the order of their keys. -/
theorem pair_sublist_iff (h : Ascending map) {a b : κ × ν} (ha : a ∈ map) (hb : b ∈ map) :
    [a, b].Sublist map ↔ a.1 < b.1 := by
  constructor
  · intro hsub
    exact List.pairwise_iff_forall_sublist.mp h hsub
  · intro hlt
    induction map with
    | nil => cases ha
    | cons first rest ih =>
        have hrest : ∀ entry ∈ rest, first.1 < entry.1 := fun _ => List.rel_of_pairwise_cons h
        rcases List.mem_cons.mp ha with rfl | ha' <;> rcases List.mem_cons.mp hb with rfl | hb'
        · exact absurd hlt (lt_irrefl _)
        · exact (List.singleton_sublist.mpr hb').cons_cons _
        · exact absurd hlt (lt_asymm (hrest a ha'))
        · exact (ih (List.Pairwise.of_cons h) ha' hb').cons _

/-- Around an entry, the smaller keys stand before it and the larger ones behind. -/
theorem mem_left_of_lt {left right : List (κ × ν)} {a b : κ × ν}
    (h : Ascending (left ++ a :: right)) (hb : b ∈ left ++ a :: right) (hlt : b.1 < a.1) :
    b ∈ left := by
  rcases List.mem_append.mp hb with hb | hb
  · exact hb
  · have htail := (List.pairwise_append.mp h).2.1
    rcases List.mem_cons.mp hb with rfl | hb
    · exact absurd hlt (lt_irrefl _)
    · exact absurd hlt (lt_asymm (List.rel_of_pairwise_cons htail hb))

theorem mem_right_of_lt {left right : List (κ × ν)} {a b : κ × ν}
    (h : Ascending (left ++ a :: right)) (hb : b ∈ left ++ a :: right) (hlt : a.1 < b.1) :
    b ∈ right := by
  rcases List.mem_append.mp hb with hb | hb
  · have hcross := (List.pairwise_append.mp h).2.2 b hb a (by simp)
    exact absurd hlt (lt_asymm hcross)
  · rcases List.mem_cons.mp hb with rfl | hb
    · exact absurd hlt (lt_irrefl _)
    · exact hb

end SortedMap
