import Mathlib.Data.List.Basic
import Mathlib.Logic.Function.Basic
import Mathlib.Order.Basic

/-!
# Lines

Messages go from a sender over a path of connections.  A station takes a message in and
pushes it to the connection that leaves it; the connection sends it at some later time,
carries it and hands it to the next station, or delivers it at the end of the path.  If
the stations and the connections hand on the first of what they have, and each connection
sends in the order in which it was pushed to, then the messages arrive in the order in
which they were accepted, and what is lost leaves no more than a gap.
-/

namespace Lines

variable {N P α β : Type*}

/-- The connections in use form a path from `sender`, and `rank` is the distance to its end. -/
structure IsPath (source target : P → N) (uses final : P → Prop) (rank : N → Nat)
    (sender : N) : Prop where
  within : ∀ p, uses p → rank (source p) ≤ rank sender
  unique : ∀ p a, uses p → uses a → rank (source p) = rank (source a) → p = a
  previous : ∀ p, uses p → source p = sender ∨ ∃ a, uses a ∧ ¬ final a ∧ target a = source p
  next : ∀ p, uses p → ¬ final p → rank (source p) = rank (target p) + 1
  end_rank : ∀ p, uses p → final p → rank (source p) = 1
  exists_final : ∃ p, uses p ∧ final p

/-- The messages at each place, and those that have passed it. -/
structure Line (N P α β : Type*) where
  accepted : List α
  inside : N → List α
  pushed : P → List α
  sent : P → List α
  carried : P → List α
  delivered : List β

section

variable [DecidableEq N] [DecidableEq P]

/-- The first message moves on.  What a connection sends is open here. -/
inductive Step (source target : P → N) (uses final : P → Prop) (sender : N) (view : α → β) :
    Line N P α β → Line N P α β → Prop where
  | stay {l : Line N P α β} : Step source target uses final sender view l l
  | accept {l : Line N P α β} (x : α) : Step source target uses final sender view l
      { l with
        accepted := l.accepted ++ [x],
        inside := Function.update l.inside sender (l.inside sender ++ [x]) }
  | lose {l : Line N P α β} {n : N} (rest : List α) : rest.Sublist (l.inside n) →
      Step source target uses final sender view l
        { l with inside := Function.update l.inside n rest }
  | push {l : Line N P α β} {p : P} (x : α) (rest : List α) : uses p →
      l.inside (source p) = x :: rest →
      Step source target uses final sender view l
        { l with
          inside := Function.update l.inside (source p) rest,
          pushed := Function.update l.pushed p (l.pushed p ++ [x]) }
  | send {l : Line N P α β} {p : P} (x : α) : uses p →
      Step source target uses final sender view l
        { l with
          sent := Function.update l.sent p (l.sent p ++ [x]),
          carried := Function.update l.carried p (l.carried p ++ [x]) }
  | forward {l : Line N P α β} {p : P} (x : α) (rest : List α) : uses p → ¬ final p →
      l.carried p = x :: rest →
      Step source target uses final sender view l
        { l with
          carried := Function.update l.carried p rest,
          inside := Function.update l.inside (target p) (l.inside (target p) ++ [x]) }
  | deliver {l : Line N P α β} {p : P} (x : α) (rest : List α) : uses p → final p →
      l.carried p = x :: rest →
      Step source target uses final sender view l
        { l with
          carried := Function.update l.carried p rest,
          delivered := l.delivered ++ [view x] }

end

variable {source target : P → N} {uses final : P → Prop} {rank : N → Nat} {sender : N}
  {view : α → β} {l l' : Line N P α β} {p a : P}

/-! ## Between the queues -/

/-- What was pushed to a connection, is inside its station and on the way there, in this order,
    has left the connection before it in this order. -/
structure Sections (source target : P → N) (uses final : P → Prop) (sender : N) (view : α → β)
    (l : Line N P α β) : Prop where
  first : ∀ p, uses p → source p = sender →
    (l.pushed p ++ l.inside (source p)).Sublist l.accepted
  between : ∀ a p, uses a → uses p → ¬ final a → target a = source p →
    (l.pushed p ++ l.inside (source p) ++ l.carried a).Sublist (l.sent a)
  last : ∀ p, uses p → final p →
    (l.delivered ++ (l.carried p).map view).Sublist ((l.sent p).map view)

theorem IsPath.target_ne_sender (h : IsPath source target uses final rank sender) (huses : uses p)
    (hnot : ¬ final p) : target p ≠ sender := by
  intro hsame
  have hnext := h.next p huses hnot
  have hwithin := h.within p huses
  rw [hsame] at hnext
  omega

theorem IsPath.eq_of_source (h : IsPath source target uses final rank sender) (hp : uses p)
    (ha : uses a) (hsame : source p = source a) : p = a :=
  h.unique p a hp ha (congrArg rank hsame)

theorem IsPath.eq_of_target (h : IsPath source target uses final rank sender) (hp : uses p)
    (ha : uses a) (hpnot : ¬ final p) (hanot : ¬ final a) (hsame : target p = target a) :
    p = a := by
  apply h.unique p a hp ha
  rw [h.next p hp hpnot, h.next a ha hanot, hsame]

theorem IsPath.eq_of_final (h : IsPath source target uses final rank sender) (hp : uses p)
    (ha : uses a) (hpfinal : final p) (hafinal : final a) : p = a :=
  h.unique p a hp ha ((h.end_rank p hp hpfinal).trans (h.end_rank a ha hafinal).symm)

variable [DecidableEq N] [DecidableEq P]

theorem Step.of_eq {l'' : Line N P α β}
    (hstep : Step source target uses final sender view l l') (hsame : l'' = l') :
    Step source target uses final sender view l l'' :=
  hsame ▸ hstep

theorem Sections.step (hpath : IsPath source target uses final rank sender)
    (h : Sections source target uses final sender view l)
    (hstep : Step source target uses final sender view l l') :
    Sections source target uses final sender view l' := by
  cases hstep with
  | stay => exact h
  | accept x =>
      refine ⟨fun p hp hsource => ?_, fun a p ha hp hnot htarget => ?_, h.last⟩
      · simp only [hsource, Function.update_self, ← List.append_assoc]
        have hfirst := h.first p hp hsource
        rw [hsource] at hfirst
        exact hfirst.append_right [x]
      · have hne := htarget ▸ hpath.target_ne_sender ha hnot
        simp only [Function.update_of_ne hne]
        exact h.between a p ha hp hnot htarget
  | @lose n rest hrest =>
      have hinside : ∀ m, (Function.update l.inside n rest m).Sublist (l.inside m) := by
        intro m
        by_cases hm : m = n
        · subst hm
          rwa [Function.update_self]
        · rw [Function.update_of_ne hm]
      exact ⟨fun p hp hsource => ((hinside _).append_left _).trans (h.first p hp hsource),
        fun a p ha hp hnot htarget =>
          (((hinside _).append_left _).append_right _).trans (h.between a p ha hp hnot htarget),
        h.last⟩
  | @push b x rest hb hinside =>
      -- the order of what was pushed and is inside does not change
      have hsame : ∀ p, uses p →
          Function.update l.pushed b (l.pushed b ++ [x]) p ++
            Function.update l.inside (source b) rest (source p) =
          l.pushed p ++ l.inside (source p) := by
        intro p hp
        by_cases hpb : p = b
        · subst hpb
          rw [Function.update_self, Function.update_self, hinside, List.append_assoc,
            List.singleton_append]
        · have hsource : source p ≠ source b := fun hs => hpb (hpath.eq_of_source hp hb hs)
          rw [Function.update_of_ne hpb, Function.update_of_ne hsource]
      refine ⟨fun p hp hsource => ?_, fun a p ha hp hnot htarget => ?_, h.last⟩
      · simp only [hsame p hp]
        exact h.first p hp hsource
      · simp only [hsame p hp]
        exact h.between a p ha hp hnot htarget
  | @send b x hb =>
      refine ⟨h.first, fun a p ha hp hnot htarget => ?_, fun p hp hfinal => ?_⟩
      · have hbetween := h.between a p ha hp hnot htarget
        by_cases hab : a = b
        · subst hab
          simp only [Function.update_self, ← List.append_assoc]
          exact hbetween.append_right [x]
        · simp only [Function.update_of_ne hab]
          exact hbetween
      · have hlast := h.last p hp hfinal
        by_cases hpb : p = b
        · subst hpb
          simp only [Function.update_self, List.map_append, ← List.append_assoc]
          exact hlast.append_right _
        · simp only [Function.update_of_ne hpb]
          exact hlast
  | @forward b x rest hb hbnot hcarried =>
      have hlater : ∀ p, source p ≠ target b →
          Function.update l.inside (target b) (l.inside (target b) ++ [x]) (source p) =
            l.inside (source p) := fun p hne => Function.update_of_ne hne _ _
      refine ⟨fun p hp hsource => ?_, fun a p ha hp hnot htarget => ?_, fun p hp hfinal => ?_⟩
      · have hne : source p ≠ target b := hsource ▸ (hpath.target_ne_sender hb hbnot).symm
        simp only [hlater p hne]
        exact h.first p hp hsource
      · have hbetween := h.between a p ha hp hnot htarget
        by_cases hab : a = b
        · subst hab
          rw [hcarried, List.append_cons, List.append_assoc (l.pushed p)] at hbetween
          simp only [← htarget, Function.update_self] at hbetween ⊢
          exact hbetween
        · have hne : source p ≠ target b := fun hs =>
            hab (hpath.eq_of_target ha hb hnot hbnot (htarget.trans hs))
          simp only [hlater p hne, Function.update_of_ne hab]
          exact hbetween
      · have hpb : p ≠ b := fun hs => hbnot (hs ▸ hfinal)
        simp only [Function.update_of_ne hpb]
        exact h.last p hp hfinal
  | @deliver b x rest hb hbfinal hcarried =>
      refine ⟨h.first, fun a p ha hp hnot htarget => ?_, fun p hp hfinal => ?_⟩
      · have hab : a ≠ b := fun hs => hnot (hs ▸ hbfinal)
        simp only [Function.update_of_ne hab]
        exact h.between a p ha hp hnot htarget
      · obtain rfl := hpath.eq_of_final hp hb hfinal hbfinal
        have hlast := h.last p hp hfinal
        rw [hcarried, List.map_cons, List.append_cons] at hlast
        simp only [Function.update_self]
        exact hlast

/-! ## Along the path -/

omit [DecidableEq N] [DecidableEq P]

/-- What a connection was pushed to, and what is inside before it, was accepted in this order. -/
theorem Sections.pushed_sublist (hpath : IsPath source target uses final rank sender)
    (h : Sections source target uses final sender view l)
    (hordered : ∀ p, uses p → (l.sent p).Sublist (l.pushed p)) :
    ∀ p, uses p → (l.pushed p ++ l.inside (source p)).Sublist l.accepted := by
  intro p hp
  induction hrank : rank sender - rank (source p) using Nat.strongRecOn generalizing p with
  | ind k ih =>
      rcases hpath.previous p hp with hsource | ⟨a, ha, hnot, htarget⟩
      · exact h.first p hp hsource
      · have hnext := hpath.next a ha hnot
        have hwithin := hpath.within a ha
        rw [htarget] at hnext
        have hbefore := ih (rank sender - rank (source a)) (by omega) a ha rfl
        calc List.Sublist (l.pushed p ++ l.inside (source p))
              (l.pushed p ++ l.inside (source p) ++ l.carried a) := List.sublist_append_left _ _
          List.Sublist _ (l.sent a) := h.between a p ha hp hnot htarget
          List.Sublist _ (l.pushed a) := hordered a ha
          List.Sublist _ (l.pushed a ++ l.inside (source a)) := List.sublist_append_left _ _
          List.Sublist _ l.accepted := hbefore

/-- **In order.**  What arrives has been accepted in this order. -/
theorem Sections.delivered_sublist (hpath : IsPath source target uses final rank sender)
    (h : Sections source target uses final sender view l)
    (hordered : ∀ p, uses p → (l.sent p).Sublist (l.pushed p)) :
    l.delivered.Sublist (l.accepted.map view) := by
  obtain ⟨p, hp, hfinal⟩ := hpath.exists_final
  have hsent := (hordered p hp).trans ((List.sublist_append_left _ _).trans
    (h.pushed_sublist hpath hordered p hp))
  exact (List.sublist_append_left _ _).trans ((h.last p hp hfinal).trans (hsent.map view))

/-! ## One list for all places

A system may keep the messages of all places in one list, with others between them. -/

section

variable {ι : Type*} [DecidableEq ι] {place : α → ι} {P : α → Bool} {list : List α} {x : α} {i : ι}

/-- The messages in the list that are at place `i`. -/
def atPlace (place : α → ι) (P : α → Bool) (list : List α) (i : ι) : List α :=
  list.filter fun x => P x && decide (place x = i)

theorem mem_atPlace : x ∈ atPlace place P list i ↔ x ∈ list ∧ P x = true ∧ place x = i := by
  simp [atPlace]

theorem atPlace_append (hx : P x = true) : atPlace place P (list ++ [x]) =
    Function.update (atPlace place P list) (place x) (atPlace place P list (place x) ++ [x]) := by
  funext i
  by_cases hi : i = place x
  · subst hi
    simp [atPlace, hx]
  · rw [Function.update_of_ne hi]
    simp [atPlace, Ne.symm hi]

theorem atPlace_append_of_not (hx : P x = false) :
    atPlace place P (list ++ [x]) = atPlace place P list := by
  funext i
  simp [atPlace, hx]

theorem atPlace_sublist {list' : List α} (h : list'.Sublist list) (i : ι) :
    (atPlace place P list' i).Sublist (atPlace place P list i) :=
  h.filter _

theorem atPlace_append_sublist (list : List α) (x : α) (i : ι) :
    (atPlace place P (list ++ [x]) i).Sublist (atPlace place P list i ++ [x]) := by
  unfold atPlace
  rw [List.filter_append]
  exact List.filter_sublist.append_left _

variable [BEq α] [LawfulBEq α]

theorem atPlace_erase (list : List α) (x : α) : atPlace place P (list.erase x) =
    Function.update (atPlace place P list) (place x)
      ((atPlace place P list (place x)).erase x) := by
  funext i
  by_cases hi : i = place x
  · subst hi
    rw [Function.update_self]
    exact List.erase_filter.symm
  · rw [Function.update_of_ne hi]
    unfold atPlace
    rw [← List.erase_filter, List.erase_of_not_mem]
    simp [Ne.symm hi]

theorem atPlace_erase_of_not (hx : P x = false) :
    atPlace place P (list.erase x) = atPlace place P list := by
  rw [atPlace_erase, List.erase_of_not_mem, Function.update_eq_self]
  simp [atPlace, hx]

/-- The first message of a place is taken. -/
theorem exists_atPlace_erase (hfirst : (atPlace place P list (place x)).head? = some x) :
    ∃ rest, atPlace place P list (place x) = x :: rest ∧ atPlace place P (list.erase x) =
      Function.update (atPlace place P list) (place x) rest := by
  obtain ⟨rest, hrest⟩ := List.head?_eq_some_iff.mp hfirst
  refine ⟨rest, hrest, ?_⟩
  rw [atPlace_erase, hrest, List.erase_cons_head]

end

/-! ## Times

A place sees its messages at times that do not go down, because what comes to it comes now. -/

section

variable {τ : Type*} [Preorder τ] {now later : τ} {times times' : List (Option τ)}

/-- The times on the list, where there are any, do not go down and have passed. -/
structure Chronological (now : τ) (times : List (Option τ)) : Prop where
  ordered : times.Pairwise fun first second => ∀ t ∈ first, ∀ t' ∈ second, t ≤ t'
  passed : ∀ time ∈ times, ∀ t ∈ time, t ≤ now

theorem Chronological.append (h : Chronological now times) (hlater : now ≤ later)
    {time : Option τ} (htime : ∀ t ∈ time, t = later) (hsub : times'.Sublist (times ++ [time])) :
    Chronological later times' := by
  have hpassed : ∀ other ∈ times ++ [time], ∀ t ∈ other, t ≤ later := by
    rw [List.forall_mem_append, List.forall_mem_singleton]
    exact ⟨fun other hmem t ht => (h.passed other hmem t ht).trans hlater,
      fun t ht => (htime t ht).le⟩
  refine ⟨List.Pairwise.sublist hsub (List.pairwise_append.mpr
    ⟨h.ordered, List.pairwise_singleton _ _, ?_⟩), fun other hmem => ?_⟩
  · intro first hfirst second hsecond t ht t' ht'
    rw [List.mem_singleton] at hsecond
    subst hsecond
    rw [htime t' ht']
    exact hpassed first (List.mem_append_left _ hfirst) t ht
  · exact hpassed other (hsub.subset hmem)

end

end Lines
