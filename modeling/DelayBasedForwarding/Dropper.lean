import DelayBasedForwarding.ReadyPrefix
import Mathlib.Data.List.Nodup

/-!
# The dropper

`DBFPacketDropper::selectPacket` returns the first expired packet of a queue, and
the last packet if none has expired.  That the last packet is the one to drop
follows from the order of the queue: it is unready as soon as any packet is, and
then no `tMin` is larger.  A queue that drops packets until it is inside its
limits keeps its first unexpired packet to the end.
-/

namespace DelayBasedForwarding

open TransitionRuns

variable {t : SimTime} {packet victim p : Packet} {packets : List Packet}

/-! ## The victim -/

/-- The victim has expired, or no packet has and it is the last one. -/
theorem selectPacket_cases (h : selectPacket t packets = some victim) :
    packetExpired t victim = true ∨
    (∀ p ∈ packets, packetExpired t p = false) ∧ packets.getLast? = some victim := by
  unfold selectPacket at h
  cases hfind : packets.find? (packetExpired t) with
  | some first =>
      rw [hfind] at h
      cases h
      exact .inl (List.find?_some hfind)
  | none =>
      rw [hfind] at h
      refine .inr ⟨fun p hp => ?_, h⟩
      exact eq_false_of_ne_true (List.find?_eq_none.mp hfind p hp)

/-- Every packet precedes the last one. -/
theorem precedes_getLast (h : QueueOrdered t packets) (hlast : packets.getLast? = some victim)
    (hp : p ∈ packets) : p = victim ∨ Precedes t p victim := by
  obtain ⟨front, rfl⟩ := List.getLast?_eq_some_iff.mp hlast
  rcases List.mem_append.mp hp with hp | hp
  · exact .inr ((List.pairwise_append.mp h).2.2 p hp victim (by simp))
  · exact .inl (List.mem_singleton.mp hp)

/-- If some packet is unready, so is the last one, and no `tMin` is larger. -/
theorem getLast_greatest (h : QueueOrdered t packets) (hlast : packets.getLast? = some victim)
    (hunready : ∃ p ∈ packets, isPacketReadyToSend t p = false) :
    isPacketReadyToSend t victim = false ∧ ∃ tag, victim.tag = some tag ∧ t < tag.tMin ∧
      ∀ p ∈ packets, ∀ other, p.tag = some other → other.tMin ≤ tag.tMin := by
  have hvictim : isPacketReadyToSend t victim = false := by
    obtain ⟨p, hp, hunready⟩ := hunready
    by_contra hready
    rw [Bool.not_eq_false] at hready
    rcases precedes_getLast h hlast hp with rfl | hprecedes
    · cases hunready.symm.trans hready
    · cases hunready.symm.trans (ready_of_precedes le_rfl hprecedes hready)
  refine ⟨hvictim, ?_⟩
  rw [← Bool.not_eq_true, isPacketReadyToSend_iff] at hvictim
  push Not at hvictim
  obtain ⟨tag, htag, hlate⟩ := hvictim
  refine ⟨tag, htag, hlate, fun p hp other hother => ?_⟩
  rcases precedes_getLast h hlast hp with rfl | hprecedes
  · cases hother.symm.trans htag
    exact le_rfl
  · have := hprecedes other hother
    rw [htag] at this
    exact this

/-! ## The first unexpired packet -/

def firstUnexpired (t : SimTime) (packets : List Packet) : Option Packet :=
  packets.find? fun packet => !packetExpired t packet

theorem firstUnexpired_spec (h : firstUnexpired t packets = some p) :
    p ∈ packets ∧ packetExpired t p = false :=
  ⟨List.mem_of_find?_eq_some h, by simpa using List.find?_some h⟩

theorem exists_firstUnexpired (hp : p ∈ packets) (hunexpired : packetExpired t p = false) :
    ∃ first, firstUnexpired t packets = some first := by
  apply Option.isSome_iff_exists.mp
  exact List.find?_isSome.mpr ⟨p, hp, by simp [hunexpired]⟩

/-- If any unexpired packet of a queue is ready, so is the first one. -/
theorem firstUnexpired_ready {first : Packet} (h : QueueOrdered t packets)
    (hfirst : firstUnexpired t packets = some first) (hp : p ∈ packets)
    (hunexpired : packetExpired t p = false) (hready : isPacketReadyToSend t p = true) :
    isPacketReadyToSend t first = true := by
  obtain ⟨_, front, back, rfl, hfront⟩ := List.find?_eq_some_iff_append.mp hfirst
  rcases List.mem_append.mp hp with hp | hp
  · have hexpired := hfront p hp
    simp [hunexpired] at hexpired
  · rcases List.mem_cons.mp hp with rfl | hp
    · exact hready
    · have hordered := (List.pairwise_cons.mp (List.pairwise_append.mp h).2.1).1
      exact ready_of_precedes le_rfl (hordered p hp) hready

/-- The victim is the first unexpired packet only when no other packet is left. -/
theorem eq_singleton_of_victim (hids : (packets.map Packet.id).Nodup)
    (hvictim : selectPacket t packets = some victim)
    (hfirst : firstUnexpired t packets = some victim) : packets = [victim] := by
  obtain ⟨hmem, hunexpired⟩ := firstUnexpired_spec hfirst
  rcases selectPacket_cases hvictim with hexpired | ⟨hnone, hlast⟩
  · rw [hunexpired] at hexpired
    cases hexpired
  · obtain ⟨front, rest, rfl⟩ := List.exists_cons_of_ne_nil (List.ne_nil_of_mem hmem)
    obtain rfl : front = victim := by simpa [firstUnexpired, hnone front (.head _)] using hfirst
    rcases List.eq_nil_or_concat rest with rfl | ⟨init, last, rfl⟩
    · rfl
    · rw [List.concat_eq_append, ← List.cons_append, List.getLast?_concat,
        Option.some.injEq] at hlast
      rw [hlast] at hids
      simp at hids

theorem firstUnexpired_removePacket {first : Packet} (hids : (packets.map Packet.id).Nodup)
    (hfirst : firstUnexpired t packets = some first) (hother : first.id ≠ victim.id) :
    firstUnexpired t (removePacket victim packets) = some first := by
  unfold firstUnexpired at hfirst ⊢
  rw [removePacket_eq_filter hids, List.find?_filter]
  obtain ⟨hunexpired, front, back, hsplit, hfront⟩ := List.find?_eq_some_iff_append.mp hfirst
  apply List.find?_eq_some_iff_append.mpr
  refine ⟨by simpa [hother] using hunexpired, front, back, hsplit, fun p hp => ?_⟩
  have hexpired := hfront p hp
  simp only [Bool.not_not] at hexpired
  simp [hexpired]

/-- **What an overload leaves.**  The loop keeps the first unexpired packet, or that
    packet alone overloads the queue and nothing is kept. -/
theorem dropOverload_first (capacity : QueueCapacity) (first : Packet) :
    ∀ (fuel : Nat) (packets : List Packet), (packets.map Packet.id).Nodup →
      firstUnexpired t packets = some first →
      first ∈ (dropOverload capacity t fuel packets).1 ∨
      (dropOverload capacity t fuel packets).1 = [] ∧ isOverloaded capacity [first] = true := by
  intro fuel
  induction fuel with
  | zero => exact fun packets _ hfirst => .inl (firstUnexpired_spec hfirst).1
  | succ fuel ih =>
      intro packets hids hfirst
      have hmem := (firstUnexpired_spec hfirst).1
      unfold dropOverload
      by_cases hover : isOverloaded capacity packets = true
      · obtain ⟨victim, hvictim⟩ := selectPacket_isSome t (List.ne_nil_of_mem hmem)
        rw [if_pos hover, hvictim]
        by_cases hsame : first.id = victim.id
        · obtain rfl : first = victim :=
            List.inj_on_of_nodup_map hids hmem (selectPacket_mem hvictim) hsame
          obtain rfl := eq_singleton_of_victim hids hvictim hfirst
          have hnil : removePacket first [first] = [] := by simp [removePacket]
          have hempty : (dropOverload capacity t fuel []).1 = [] :=
            List.sublist_nil.mp (dropOverload_sublist capacity t fuel [])
          right
          refine ⟨?_, hover⟩
          simp only [hnil]
          exact hempty
        · exact ih _ (hids.sublist (removePacket_sublist.map _))
            (firstUnexpired_removePacket hids hfirst hsame)
      · rw [if_neg hover]
        exact .inl hmem

/-- A push empties its queue of unexpired packets exactly if the first of them does
    not fit alone. -/
theorem pushPacket_first (capacity : QueueCapacity) {first : Packet}
    (hids : ((insertPacket t packet packets).map Packet.id).Nodup)
    (hfirst : firstUnexpired t (insertPacket t packet packets) = some first) :
    isOverloaded capacity [first] = false ∧ first ∈ (pushPacket capacity t packet packets).1 ∨
    isOverloaded capacity [first] = true ∧ (pushPacket capacity t packet packets).1 = [] := by
  rcases dropOverload_first capacity first _ _ hids hfirst with hkept | ⟨hnil, hover⟩
  · refine .inl ⟨?_, hkept⟩
    by_contra hover
    rw [Bool.not_eq_false] at hover
    have hfits := pushPacket_fits capacity t packet packets
    have hover := isOverloaded_mono (List.singleton_sublist.mpr hkept) hover
    cases hfits.symm.trans hover
  · exact .inr ⟨hover, hnil⟩

/-- **Victim choice.**  After any history of a queue, at any time `t` not before
    its last operation and for any content that is left, the dropper returns a
    stored packet:

    * an expired one, if any packet has expired;
    * otherwise, if any packet is unready, an unready DBF packet with the largest
      `tMin` of the queue;
    * and otherwise every packet it leaves is ready. -/
theorem dropper_victim (start : SimTime)
    (history : List (Transition QueueState (SimTime × QueueOp))) (s : QueueState)
    (hrun : Run QueueStep ⟨start, []⟩ history s) (hne : s.packets ≠ []) (t : SimTime)
    (ht : s.now ≤ t) :
    ∃ victim ∈ s.packets, selectPacket t s.packets = some victim ∧
      ((∃ p ∈ s.packets, packetExpired t p = true) → packetExpired t victim = true) ∧
      ((∀ p ∈ s.packets, packetExpired t p = false) →
        (∃ p ∈ s.packets, isPacketReadyToSend t p = false) →
        isPacketReadyToSend t victim = false ∧ ∃ tag, victim.tag = some tag ∧ t < tag.tMin ∧
          ∀ p ∈ s.packets, ∀ other, p.tag = some other → other.tMin ≤ tag.tMin) ∧
      ((∀ p ∈ s.packets, isPacketReadyToSend t p = true) →
        ∀ p ∈ removePacket victim s.packets, isPacketReadyToSend t p = true) := by
  have hordered : QueueOrdered t s.packets := queueOrdered_mono ht (queueRun_ordered hrun).1
  obtain ⟨victim, hvictim⟩ := selectPacket_isSome t hne
  have hmem := selectPacket_mem hvictim
  refine ⟨victim, hmem, hvictim, ?_, ?_, ?_⟩
  · rintro ⟨p, hp, hexpired⟩
    rcases selectPacket_cases hvictim with h | ⟨hnone, _⟩
    · exact h
    · cases (hnone p hp).symm.trans hexpired
  · intro hnone hunready
    rcases selectPacket_cases hvictim with h | ⟨_, hlast⟩
    · cases (hnone victim hmem).symm.trans h
    · exact getLast_greatest hordered hlast hunready
  · intro hready p hp
    exact hready p (removePacket_sublist.subset hp)

/-! A best-effort packet overtakes a waiting one, which is then dropped. -/

theorem dropper_victim_sample :
    ∃ victim ∈ [sampleBestEffort, sampleWaiting],
      selectPacket 1 [sampleBestEffort, sampleWaiting] = some victim ∧
      isPacketReadyToSend 1 victim = false := by
  have hfirst : QueueStep ⟨0, []⟩ (0, .push sampleWaiting) ⟨0, [sampleWaiting]⟩ :=
    ⟨by decide +kernel, rfl, by decide +kernel⟩
  have hsecond : QueueStep ⟨0, [sampleWaiting]⟩ (1, .push sampleBestEffort)
      ⟨1, [sampleBestEffort, sampleWaiting]⟩ :=
    ⟨by decide +kernel, rfl, by decide +kernel⟩
  obtain ⟨victim, hmem, hvictim, _, hunready, _⟩ := dropper_victim 0 _ _
    ((Run.start.next hfirst).next hsecond) (by simp) 1 (by decide +kernel)
  exact ⟨victim, hmem, hvictim,
    (hunready (by decide +kernel) ⟨sampleWaiting, by simp, by decide +kernel⟩).1⟩

end DelayBasedForwarding
