import DelayBasedForwarding.SendWindow
import DelayBasedForwarding.Library.Pools

/-!
# Conservation of packets

A packet that is pushed into an egress lies in a queue until it is sent by a timer,
dropped by a push or deleted by the expiry sweep.  The log of the egress records the
three ways out, so the packets in the queues and those of the log together are
always those that were pushed, each of them once.
-/

namespace DelayBasedForwarding

open BackInsertion Pools TransitionRuns

namespace Egress

/-- What lies in the queues of the scheduler. -/
def stored (s : Egress) : List Packet := pool s.registry.collections s.queues

/-- How often `p` is somewhere: stored, sent, dropped or deleted as expired. -/
def occurrences (s : Egress) (p : Packet) : Nat :=
  s.stored.count p + (s.log.sent.map SentPacket.stored).count p + s.log.dropped.count p +
    (s.log.expired.map Prod.snd).count p

end Egress

variable {config : EgressConfig} {s s' : Egress} {t : SimTime} {packet p : Packet}
  {event : EgressEvent} {par : ClassifierParameters}

theorem mem_stored (h : WellFormed par s) {q : QueueId} (hp : p ∈ s.queues q) : p ∈ s.stored :=
  mem_pool.mpr ⟨q, List.mem_of_getElem? (h.collection hp), hp⟩

theorem nodup_collections (h : WellFormed par s) : s.registry.collections.Nodup := by
  rw [h.coherent.collections]
  exact List.nodup_range

/-! ## The ways of a packet -/

/-- The sweep moves the expired packets from the queues to the log. -/
theorem occurrences_swept (timer : Timer) : (s.swept timer).occurrences p = s.occurrences p := by
  have hpool : (pool s.registry.collections s.expiredOf ++
      pool s.registry.collections s.unexpired).Perm s.stored :=
    pool_filter (packetExpired s.now)
  have hlogged : (s.registry.collections.flatMap fun q => (s.expiredOf q).map (s.now, ·)).map
      Prod.snd = pool s.registry.collections s.expiredOf := by
    simp [pool, List.map_flatMap, Function.comp_def]
  have hbalance := hpool.count_eq p
  simp only [List.count_append] at hbalance
  simp only [Egress.occurrences, Egress.stored, Egress.swept, List.map_append, hlogged,
    List.count_append]
  unfold Egress.stored at hbalance
  omega

/-- A push keeps or drops each packet of its queue and the new one. -/
theorem kept_or_dropped (h : WellFormed par s) (q : QueueId) :
    ((pushPacket (config.capacity q) t { packet with id := s.nextPacket } (s.queues q)).1 ++
      (pushPacket (config.capacity q) t { packet with id := s.nextPacket } (s.queues q)).2).Perm
      ({ packet with id := s.nextPacket } :: s.queues q) :=
  pushPacket_perm (h.nodup q) (h.fresh_id q)

/-- A push brings one new packet, stored or dropped at once. -/
theorem occurrences_pushed {delta : SimTime} {q : QueueId} {registry : Registry}
    (h : WellFormed config.classifier s) (hclass : Registry.Classified s.registry delta q registry)
    (hpushed : WellFormed config.classifier (s.pushed config t packet registry q)) :
    (s.pushed config t packet registry q).occurrences p =
      s.occurrences p + [{ packet with id := s.nextPacket }].count p := by
  have hplaces : registry.collections.Nodup := nodup_collections hpushed
  have hcollection : q ∈ registry.collections := by
    rw [hclass.coherent.collections, List.mem_range]
    exact hclass.coherent.index_lt hclass.entry
  -- the classifier may have added a queue, which is still empty
  have hgrown : s.stored.Perm (pool registry.collections s.queues) := by
    refine pool_congr (nodup_collections h) hplaces fun q' hq' => ?_
    obtain ⟨p, hp⟩ := List.exists_mem_of_ne_nil _ hq'
    obtain ⟨d, _, hentry⟩ := h.classified q' p hp
    refine ⟨List.mem_of_getElem? (h.collection hp), ?_⟩
    rw [hclass.coherent.collections, List.mem_range]
    exact hclass.coherent.index_lt (hclass.kept hentry)
  have hupdate := @pool_update _ _ _ s.queues _ _ hplaces hcollection
    (pushPacket (config.capacity q) t { packet with id := s.nextPacket } (s.queues q)).1
  have houtcome := @kept_or_dropped config _ t packet _ h q
  have hbefore := hgrown.count_eq p
  have hafter := hupdate.count_eq p
  have hsplit := houtcome.count_eq p
  rw [← List.singleton_append] at hsplit
  simp only [List.count_append] at hafter hsplit
  unfold Egress.stored at hbefore
  simp only [Egress.occurrences, Egress.stored, Egress.pushed, Egress.arrived, Egress.setQueue,
    List.count_append]
  omega

/-- A timer moves one packet from its queue to the log. -/
theorem occurrences_fired {q : QueueId} {p' out : Packet} (timer : Timer)
    (h : WellFormed par s) (hp : p' ∈ s.queues q) :
    (s.fired t q p' out timer).occurrences p = s.occurrences p := by
  have hupdate := @pool_update _ _ _ s.queues _ _ (nodup_collections h)
    (List.mem_of_getElem? (h.collection hp)) (removePacket p' (s.queues q))
  have hsplit := (removePacket_perm (h.nodup q) hp).count_eq p
  have hafter := hupdate.count_eq p
  rw [← List.singleton_append] at hsplit
  simp only [List.count_append] at hafter hsplit
  simp only [Egress.occurrences, Egress.stored, Egress.fired, Egress.setQueue, List.map_append,
    List.map_cons, List.map_nil, List.count_append]
  omega

/-! ## The invariant -/

structure Conserved (s : Egress) : Prop where
  ids : s.log.pushed.map Packet.id = List.range s.nextPacket
  balance : ∀ p, s.occurrences p = s.log.pushed.count p
  expired : ∀ x ∈ s.log.expired, packetExpired x.1 x.2 = true

theorem conserved_initial (count : Nat) : Conserved (Egress.initial count) := by
  constructor
  · rfl
  · intro p
    simp [Egress.occurrences, Egress.stored, Egress.initial, mem_pool, List.count_eq_zero]
  · simp [Egress.initial]

theorem Conserved.swept (h : Conserved s) (timer : Timer) : Conserved (s.swept timer) := by
  refine ⟨h.ids, fun p => (occurrences_swept timer).trans (h.balance p), fun x hx => ?_⟩
  rcases List.mem_append.mp hx with hold | hnew
  · exact h.expired x hold
  · obtain ⟨q, _, hx⟩ := List.mem_flatMap.mp hnew
    obtain ⟨p, hp, rfl⟩ := List.mem_map.mp hx
    exact (List.mem_filter.mp hp).2

theorem Effect.conserved (h : WellFormed config.classifier s) (htime : s.now ≤ event.simTime)
    (hadmissible : Admissible event) (heffect : Effect config s event s')
    (hconserved : Conserved s) : Conserved s' := by
  induction heffect with
  | @push t packet delta q registry timer hdelta hclass =>
      have hpushed : WellFormed config.classifier (s.pushed config t packet registry q) :=
        wellFormed_pushed h htime hadmissible hdelta hclass
      suffices hbefore : Conserved (s.pushed config t packet registry q) from hbefore.swept timer
      refine ⟨?_, fun p => ?_, hconserved.expired⟩
      · show (s.log.pushed ++ [_]).map Packet.id = List.range (s.nextPacket + 1)
        rw [List.map_append, hconserved.ids, List.range_succ]
        rfl
      · rw [occurrences_pushed h hclass hpushed, hconserved.balance p]
        exact List.count_append.symm
  | @txIdle t timer hidle =>
      have hbefore : Conserved (s.idled t) :=
        ⟨hconserved.ids, hconserved.balance, hconserved.expired⟩
      exact hbefore.swept timer
  | @timer t msg p out timer hevents hidle hmem hready hunexpired hout hdisarmed =>
      refine ⟨hconserved.ids, fun p' => ?_, hconserved.expired⟩
      exact (occurrences_fired timer h hmem).trans (hconserved.balance p')

/-! ## What a step may drop and delete -/

/-- A step drops packets only where a push has overloaded its queue. -/
def DropsOnOverflow (config : EgressConfig) (x : Transition Egress EgressEvent) : Prop :=
  x.post.log.dropped = x.pre.log.dropped ∨
  ∃ t packet delta q, x.event = .push t packet ∧
    packetDelta config.classifier packet = some delta ∧
    (delta, q) ∈ x.post.registry.deltaQueueMap ∧
    isOverloaded (config.capacity q)
      (insertPacket t { packet with id := x.pre.nextPacket } (x.pre.queues q)) = true

/-- No expired packet is left, and the others stay in their order unless dropped. -/
def LeavesUnexpired (x : Transition Egress EgressEvent) : Prop :=
  ∀ q, (∀ p ∈ x.post.queues q, packetExpired x.event.simTime p = false) ∧
    ((x.post.queues q).filter fun p => p.id != x.pre.nextPacket).Sublist (x.pre.queues q) ∧
    ∀ p ∈ x.pre.queues q, packetExpired x.event.simTime p = false →
      p ∈ x.post.queues q ∨ p ∈ x.post.log.dropped

theorem Effect.dropsOnOverflow (heffect : Effect config s event s') :
    DropsOnOverflow config ⟨s, event, s'⟩ := by
  induction heffect with
  | @push t packet delta q registry timer hdelta hclass =>
      by_cases hover : isOverloaded (config.capacity q)
          (insertPacket t { packet with id := s.nextPacket } (s.queues q)) = true
      · exact .inr ⟨t, packet, delta, q, rfl, hdelta, hclass.entry, hover⟩
      · left
        show s.log.dropped ++ (pushPacket _ _ _ _).2 = s.log.dropped
        rw [pushPacket_of_fits (eq_false_of_ne_true hover), List.append_nil]
  | txIdle timer hidle => exact .inl rfl
  | timer timer hevents hidle hmem hready hunexpired hout hdisarmed => exact .inl rfl

theorem leavesUnexpired_push {q : QueueId} {registry : Registry} {timer : Timer}
    (h : WellFormed par s) :
    LeavesUnexpired ⟨s, .push t packet, (s.pushed config t packet registry q).swept timer⟩ := by
  intro a
  refine ⟨fun p hp => (mem_unexpired.mp hp).2, ?_, fun p hp hunexpired => ?_⟩
  · have hunexpired : (((s.pushed config t packet registry q).unexpired a).filter
        fun p => p.id != s.nextPacket).Sublist
        (((s.pushed config t packet registry q).queues a).filter fun p => p.id != s.nextPacket) :=
      List.filter_sublist.filter _
    refine hunexpired.trans ?_
    by_cases ha : a = q
    · subst ha
      rw [queues_pushed_self]
      refine ((pushPacket_sublist (config.capacity a)).filter _).trans ?_
      unfold insertPacket
      rw [filter_insertBack_of_not (by simp)]
      exact List.filter_sublist
    · rw [queues_pushed_of_ne ha]
      exact List.filter_sublist
  · by_cases ha : a = q
    · subst ha
      have hkept : p ∈ (pushPacket (config.capacity a) t { packet with id := s.nextPacket }
          (s.queues a)).1 ++ (pushPacket (config.capacity a) t
            { packet with id := s.nextPacket } (s.queues a)).2 :=
        (kept_or_dropped h a).mem_iff.mpr (.tail _ hp)
      rcases List.mem_append.mp hkept with hkept | hdropped
      · refine .inl (mem_unexpired.mpr ⟨?_, hunexpired⟩)
        rwa [queues_pushed_self]
      · exact .inr (List.mem_append_right _ hdropped)
    · refine .inl (mem_unexpired.mpr ⟨?_, hunexpired⟩)
      rwa [queues_pushed_of_ne ha]

theorem leavesUnexpired_txIdle {timer : Timer} :
    LeavesUnexpired ⟨s, .txIdle t, (s.idled t).swept timer⟩ := by
  intro q
  refine ⟨fun p hp => (mem_unexpired.mp hp).2, ?_, fun p hp hunexpired => ?_⟩
  · exact List.filter_sublist.trans List.filter_sublist
  · exact .inl (mem_unexpired.mpr ⟨hp, hunexpired⟩)

theorem Effect.leavesUnexpired (h : WellFormed config.classifier s)
    (heffect : Effect config s event s') (hsweeps : ∀ t msg, event ≠ .timer t msg) :
    LeavesUnexpired ⟨s, event, s'⟩ := by
  induction heffect with
  | push timer hdelta hclass => exact leavesUnexpired_push h
  | txIdle timer hidle => exact leavesUnexpired_txIdle
  | timer timer hevents hidle hmem hready hunexpired hout hdisarmed =>
      exact absurd rfl (hsweeps _ _)

/-! ## Runs -/

theorem run_conserved {scheduler : Scheduler} (d : Discipline scheduler config) {count : Nat}
    {history : List (Transition Egress EgressEvent)}
    (hcapacity : ∀ q, KeepsOne (config.capacity q))
    (hrun : EgressRun scheduler config count history s) : Conserved s := by
  refine (d.run_invariant hcapacity (conserved_initial count) ?_ hrun).2
  intro s event s' hinv hconserved hstep
  obtain ⟨heffect, _⟩ := d.step hcapacity hinv.1 hinv.2 hstep
  exact heffect.conserved hinv.1 hstep.1.1 hstep.2.1 hconserved

/-- **Conservation.**  In every run of an egress with either scheduler, on queues that
    are unlimited or hold at least one packet:

    * every pushed packet is stored, sent, dropped or deleted, and only once;
    * what a queue stores was pushed, is of the delta of that queue and is in no other;
    * packets are dropped only by a push that overloads its queue;
    * what was deleted as expired is a DBF packet with an upper bound, after its `tMax`;
    * a push and an idle signal leave no expired packet and keep the order of the others. -/
theorem packet_conservation (config : EgressConfig)
    (hcapacity : ∀ q, KeepsOne (config.capacity q)) (scheduler : Scheduler)
    (hscheduler : scheduler = dbfPriorityScheduler ∨ scheduler = dbfDynamicPriorityScheduler)
    (count : Nat) (history : List (Transition Egress EgressEvent)) (s : Egress)
    (hrun : EgressRun scheduler config count history s) :
    (∀ p ∈ s.log.pushed, s.occurrences p = 1) ∧
    (∀ q, ∀ p ∈ s.queues q, p ∈ s.log.pushed ∧ p ∈ s.stored ∧
      (∃ delta, packetDelta config.classifier p = some delta ∧
        (delta, q) ∈ s.registry.deltaQueueMap) ∧
      ∀ q', p ∈ s.queues q' → q' = q) ∧
    (∀ x ∈ history, DropsOnOverflow config x) ∧
    (∀ x ∈ s.log.expired, ∃ tag, x.2.tag = some tag ∧ tag.dMax ≠ 0 ∧ tag.tMax < x.1) ∧
    (∀ x ∈ history, (∀ t msg, x.event ≠ .timer t msg) → LeavesUnexpired x) := by
  obtain ⟨d⟩ := exists_discipline config hcapacity hscheduler
  have hconserved := run_conserved d hcapacity hrun
  have heffects := d.effects hcapacity hrun
  obtain ⟨⟨h, _⟩, hbefore⟩ := d.inv_run hcapacity hrun
  refine ⟨fun p hp => ?_, fun q p hp => ?_, fun x hx => (heffects x hx).dropsOnOverflow,
    fun x hx => packetExpired_iff.mp (hconserved.expired x hx),
    fun x hx => (heffects x hx).leavesUnexpired (hbefore x hx).1.1⟩
  · have hnodup : s.log.pushed.Nodup := by
      apply List.Nodup.of_map Packet.id
      rw [hconserved.ids]
      exact List.nodup_range
    rw [hconserved.balance p]
    exact List.count_eq_one_of_mem hnodup hp
  · have hstored := mem_stored h hp
    refine ⟨?_, hstored, h.classified q p hp, fun q' hp' => (h.eq_of_id hp' hp rfl).1⟩
    rw [← List.count_pos_iff, ← hconserved.balance p]
    have := List.count_pos_iff.mpr hstored
    unfold Egress.occurrences
    omega

/-! A queue for two packets: the third packet is dropped, the first two expire, the
fourth is sent and the fifth waits. -/

def sampleConservationConfig : EgressConfig :=
  { classifier := ⟨1, 10⟩, capacity := fun _ => { packetCapacity := some 2 } }

theorem packet_conservation_sample : ∃ s : Egress, s.log.pushed.length = 5 ∧
    s.stored.length = 1 ∧ s.log.sent.length = 1 ∧ s.log.dropped.length = 1 ∧
    s.log.expired.length = 2 ∧ ∀ p ∈ s.log.pushed, s.occurrences p = 1 := by
  obtain ⟨history, s, hrun, _, hlengths⟩ := Run.exists_of_replay
    (egressStep_of_next dbfPriorityScheduler sampleConservationConfig)
    (show (replay (egressNext dbfPriorityScheduler sampleConservationConfig) (Egress.initial 0)
      [.push 0 (samplePacket 0 1 3), .push 0 (samplePacket 0 1 3), .push 0 (samplePacket 0 1 3),
       .txIdle 4, .push 4 (samplePacket 4 1 3), .timer 5 ⟨0, 0⟩, .push 5 (samplePacket 5 1 3)]).any
      (fun s => s.log.pushed.length == 5 && s.stored.length == 1 && s.log.sent.length == 1 &&
        s.log.dropped.length == 1 && s.log.expired.length == 2) = true by decide +kernel)
  have hcapacity : ∀ q, KeepsOne (sampleConservationConfig.capacity q) := fun _ =>
    ⟨rfl, fun limit hlimit => by cases hlimit; decide⟩
  have h := packet_conservation sampleConservationConfig hcapacity dbfPriorityScheduler (.inl rfl)
    0 history s hrun
  simp only [Bool.and_eq_true, beq_iff_eq] at hlengths
  obtain ⟨⟨⟨⟨hpushed, hstored⟩, hsent⟩, hdropped⟩, hexpired⟩ := hlengths
  exact ⟨s, hpushed, hstored, hsent, hdropped, hexpired, h.1⟩

end DelayBasedForwarding
