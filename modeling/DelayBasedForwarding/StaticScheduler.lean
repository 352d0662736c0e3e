import DelayBasedForwarding.Discipline

/-!
# The static scheduler

`determineCollection` returns the queue of the smallest delta with a ready front
packet, and if there is none the non-empty queue of the largest delta.  The timer
invariant says that no timer is pending and `selfMsg` is null, or that the one
pending timer is what `schedule` would arm now: it fires for the front packet of
the queue `determineCollection` chooses, which is ready and unexpired then.
-/

namespace DelayBasedForwarding

open FoldInvariant SortedMap TransitionRuns

namespace DBFPriorityScheduler

variable {par : ClassifierParameters} {s : Egress} {msg : DBFPriorityScheduleMsg}
  {front : Packet} {rest : List Packet} {T : SimTime}

/-! ## The choice of a queue -/

/-- The result of `determineCollection`. -/
inductive Choice (s : Egress) : Option Nat → Prop where
  | nothing : (∀ q, s.queues q = []) → Choice s none
  | ready {delta : SimTime} {index : Nat} {front : Packet} {rest : List Packet} :
      (delta, index) ∈ s.registry.deltaQueueMap → s.queues index = front :: rest →
      isPacketReadyToSend s.now front = true →
      (∀ entry ∈ s.registry.deltaQueueMap, entry.1 < delta →
        ∀ p ∈ s.queues entry.2, isPacketReadyToSend s.now p = false) →
      Choice s (some index)
  | waiting {delta : SimTime} {index : Nat} {front : Packet} {rest : List Packet} :
      (delta, index) ∈ s.registry.deltaQueueMap → s.queues index = front :: rest →
      (∀ q, ∀ p ∈ s.queues q, isPacketReadyToSend s.now p = false) →
      (∀ entry ∈ s.registry.deltaQueueMap, delta < entry.1 → s.queues entry.2 = []) →
      Choice s (some index)

theorem determineCollectionLoop_cons (h : WellFormed par s) {delta : SimTime} {index : Nat}
    (hentry : (delta, index) ∈ s.registry.deltaQueueMap) (entries : List (SimTime × Nat))
    (collectionIdx : Option Nat) :
    determineCollectionLoop s ((delta, index) :: entries) collectionIdx =
      match s.queues index with
      | [] => determineCollectionLoop s entries collectionIdx
      | front :: _ =>
          if isPacketReadyToSend s.now front then .ok (some index)
          else determineCollectionLoop s entries (some index) := by
  rw [determineCollectionLoop, h.canPopSomePacket hentry]
  cases hqueue : s.queues index with
  | nil => simp
  | cons front rest => simp [h.getPacket_front hqueue]

theorem unready_of_front {q : QueueId} (h : WellFormed par s) (hqueue : s.queues q = front :: rest)
    (hfront : isPacketReadyToSend s.now front = false) :
    ∀ p ∈ s.queues q, isPacketReadyToSend s.now p = false := by
  have hordered := h.ordered q
  rw [hqueue] at hordered ⊢
  intro p hp
  by_contra hready
  rw [Bool.not_eq_false] at hready
  rw [front_ready le_rfl hordered ⟨p, hp, hready⟩] at hfront
  cases hfront

/-- What the loop over `entries` returns: the first queue with a ready front, or
    without one the last non-empty queue, or without that the candidate it began with. -/
inductive LoopResult (s : Egress) (entries : List (SimTime × Nat)) (collectionIdx : Option Nat) :
    Option Nat → Prop where
  | nothing : (∀ entry ∈ entries, s.queues entry.2 = []) →
      LoopResult s entries collectionIdx collectionIdx
  | ready {left right : List (SimTime × Nat)} {delta : SimTime} {index : Nat} {front : Packet}
      {rest : List Packet} :
      entries = left ++ (delta, index) :: right → s.queues index = front :: rest →
      isPacketReadyToSend s.now front = true →
      (∀ entry ∈ left, ∀ p ∈ s.queues entry.2, isPacketReadyToSend s.now p = false) →
      LoopResult s entries collectionIdx (some index)
  | waiting {left right : List (SimTime × Nat)} {delta : SimTime} {index : Nat} {front : Packet}
      {rest : List Packet} :
      entries = left ++ (delta, index) :: right → s.queues index = front :: rest →
      (∀ entry ∈ entries, ∀ p ∈ s.queues entry.2, isPacketReadyToSend s.now p = false) →
      (∀ entry ∈ right, s.queues entry.2 = []) →
      LoopResult s entries collectionIdx (some index)

/-- A turn at an empty queue. -/
theorem LoopResult.cons_empty {entries : List (SimTime × Nat)} {collectionIdx result : Option Nat}
    {entry : SimTime × Nat} (hempty : s.queues entry.2 = [])
    (h : LoopResult s entries collectionIdx result) :
    LoopResult s (entry :: entries) collectionIdx result := by
  have hunready : ∀ p ∈ s.queues entry.2, isPacketReadyToSend s.now p = false := by
    simp [hempty]
  cases h with
  | nothing hrest =>
      apply LoopResult.nothing
      exact List.forall_mem_cons.mpr ⟨hempty, hrest⟩
  | @ready left right delta index _ _ hsplit hqueue hready hleft =>
      have hsplit' : entry :: entries = (entry :: left) ++ (delta, index) :: right := by
        rw [hsplit, List.cons_append]
      apply LoopResult.ready hsplit' hqueue hready
      exact List.forall_mem_cons.mpr ⟨hunready, hleft⟩
  | @waiting left right delta index _ _ hsplit hqueue hrest hright =>
      have hsplit' : entry :: entries = (entry :: left) ++ (delta, index) :: right := by
        rw [hsplit, List.cons_append]
      apply LoopResult.waiting hsplit' hqueue _ hright
      exact List.forall_mem_cons.mpr ⟨hunready, hrest⟩

/-- A turn at a queue whose front has to wait makes it the candidate. -/
theorem LoopResult.cons_waiting {entries : List (SimTime × Nat)} {delta : SimTime} {index : Nat}
    {collectionIdx result : Option Nat} (hqueue : s.queues index = front :: rest)
    (hunready : ∀ p ∈ s.queues index, isPacketReadyToSend s.now p = false)
    (h : LoopResult s entries (some index) result) :
    LoopResult s ((delta, index) :: entries) collectionIdx result := by
  cases h with
  | nothing hrest =>
      have hrest' : ∀ entry ∈ entries, ∀ p ∈ s.queues entry.2,
          isPacketReadyToSend s.now p = false := by
        intro entry hentry
        simp [hrest entry hentry]
      apply LoopResult.waiting (List.nil_append _).symm hqueue _ hrest
      exact List.forall_mem_cons.mpr ⟨hunready, hrest'⟩
  | @ready left right d i _ _ hsplit hqueue' hready hleft =>
      have hsplit' : (delta, index) :: entries = ((delta, index) :: left) ++ (d, i) :: right := by
        rw [hsplit, List.cons_append]
      apply LoopResult.ready hsplit' hqueue' hready
      exact List.forall_mem_cons.mpr ⟨hunready, hleft⟩
  | @waiting left right d i _ _ hsplit hqueue' hrest hright =>
      have hsplit' : (delta, index) :: entries = ((delta, index) :: left) ++ (d, i) :: right := by
        rw [hsplit, List.cons_append]
      apply LoopResult.waiting hsplit' hqueue' _ hright
      exact List.forall_mem_cons.mpr ⟨hunready, hrest⟩

theorem determineCollectionLoop_spec (h : WellFormed par s) :
    ∀ (entries : List (SimTime × Nat)) (collectionIdx : Option Nat),
      entries ⊆ s.registry.deltaQueueMap →
      ∃ result, determineCollectionLoop s entries collectionIdx = .ok result ∧
        LoopResult s entries collectionIdx result := by
  intro entries
  induction entries with
  | nil =>
      intro collectionIdx _
      refine ⟨collectionIdx, rfl, ?_⟩
      apply LoopResult.nothing
      simp
  | cons entry entries ih =>
      intro collectionIdx hsub
      obtain ⟨delta, index⟩ := entry
      have hentries : entries ⊆ s.registry.deltaQueueMap := fun _ he => hsub (.tail _ he)
      rw [determineCollectionLoop_cons h (hsub (.head _))]
      cases hqueue : s.queues index with
      | nil =>
          obtain ⟨result, hloop, hresult⟩ := ih collectionIdx hentries
          exact ⟨result, hloop, hresult.cons_empty hqueue⟩
      | cons front rest =>
          by_cases hready : isPacketReadyToSend s.now front = true
          · refine ⟨some index, by simp [hready], ?_⟩
            apply LoopResult.ready (List.nil_append _).symm hqueue hready
            simp
          · have hunready := unready_of_front h hqueue (eq_false_of_ne_true hready)
            obtain ⟨result, hloop, hresult⟩ := ih (some index) hentries
            refine ⟨result, ?_, hresult.cons_waiting hqueue hunready⟩
            simp only [hready, Bool.false_eq_true, if_false]
            exact hloop

/-- What holds of every queue of the map holds of every queue. -/
theorem forall_queues (h : WellFormed par s) {P : Packet → Prop}
    (hmap : ∀ entry ∈ s.registry.deltaQueueMap, ∀ p ∈ s.queues entry.2, P p) :
    ∀ q, ∀ p ∈ s.queues q, P p := by
  intro q p hp
  obtain ⟨delta, _, hentry⟩ := h.classified q p hp
  exact hmap (delta, q) hentry p hp

theorem determineCollection_choice (h : WellFormed par s) :
    ∃ choice, determineCollection s = .ok choice ∧ Choice s choice := by
  have hascending := h.coherent.ascending
  obtain ⟨choice, hloop, hresult⟩ :=
    determineCollectionLoop_spec h s.registry.deltaQueueMap none (List.Subset.refl _)
  refine ⟨choice, hloop, ?_⟩
  cases hresult with
  | nothing hempty =>
      apply Choice.nothing
      intro q
      rw [List.eq_nil_iff_forall_not_mem]
      apply forall_queues h (P := fun _ => False)
      intro entry hentry p hp
      rw [hempty entry hentry] at hp
      cases hp
  | @ready left right delta index _ _ hsplit hqueue hready hleft =>
      have hentry : (delta, index) ∈ s.registry.deltaQueueMap := by simp [hsplit]
      apply Choice.ready hentry hqueue hready
      intro entry hmem hlt
      rw [hsplit] at hascending hmem
      exact hleft entry (mem_left_of_lt hascending hmem hlt)
  | @waiting left right delta index _ _ hsplit hqueue hunready hright =>
      have hentry : (delta, index) ∈ s.registry.deltaQueueMap := by simp [hsplit]
      apply Choice.waiting hentry hqueue (forall_queues h hunready)
      intro entry hmem hlt
      rw [hsplit] at hascending hmem
      exact hright entry (mem_right_of_lt hascending hmem hlt)

theorem Choice.exists_front {index : Nat} (h : Choice s (some index)) :
    ∃ front rest, s.queues index = front :: rest := by
  cases h with
  | ready _ hqueue _ _ => exact ⟨_, _, hqueue⟩
  | waiting _ hqueue _ _ => exact ⟨_, _, hqueue⟩

/-- The timer plays no part in the choice. -/
theorem Choice.swept {timer timer' : Timer} {choice : Option Nat}
    (h : Choice (s.swept timer) choice) : Choice (s.swept timer') choice := by
  cases h with
  | nothing hempty => exact .nothing hempty
  | ready hentry hqueue hready hbefore => exact .ready hentry hqueue hready hbefore
  | waiting hentry hqueue hunready hbehind => exact .waiting hentry hqueue hunready hbehind

theorem schedule_none (h : determineCollection s = .ok none) : schedule s = .ok s.timer := by
  simp [schedule, h]

theorem schedule_some (h : WellFormed par s) {index : Nat}
    (hchoice : determineCollection s = .ok (some index)) (hqueue : s.queues index = front :: rest)
    (hcancel : s.timer.cancelSelfMsg.events = []) :
    schedule s = .ok (s.timer.cancelSelfMsg.rearm index (scheduleTime s.now front)) := by
  simp only [schedule, hchoice, ok_bind, h.getPacket_front hqueue]
  exact Timer.scheduleAt_newSelfMsg hcancel le_scheduleTime

/-! ## The sweep -/

/-- Whether the armed queue, if there is one, starts with an expired packet. -/
def ArmedFrontExpired (s : Egress) : Prop :=
  ∃ msg front rest, s.timer.selfMsg = some msg ∧ s.queues msg.collectionIdx = front :: rest ∧
    packetExpired s.now front = true

theorem lookForExpiredPackets_disarmed (h : WellFormed par s) (hself : s.timer.selfMsg = none) :
    lookForExpiredPackets s = .ok (s.swept s.timer) := by
  obtain ⟨timer', hsweep, rfl⟩ := sweep_ok checkExpired h
    (fun _ timer => timer = s.timer) rfl (by
      rintro done q _ _ rfl
      refine ⟨s.timer, foldlM_same fun packet _ => ?_, rfl⟩
      have hself' : (s.sweptTo done s.timer).timer.selfMsg = none := hself
      simp only [checkExpired, hself']
      rfl)
  exact hsweep

theorem checkExpired_eq {packet : Packet} (hself : s.timer.selfMsg = some msg)
    (hfront : s.getPacket msg.collectionIdx FRONTIDX = .ok front) :
    checkExpired s packet = .ok
      (if front.id = packet.id then
        { (s.timer.use msg).cancelAndDelete msg with
          expiryCancels := (s.timer.use msg).expiryCancels + 1 }
       else s.timer.use msg) := by
  simp only [checkExpired, hself, hfront, ok_bind]
  by_cases hid : front.id = packet.id
  · simp [hid]
  · simp [hid]

/-- The front of a queue whose first packet has not expired is the same all through the sweep. -/
theorem getPacket_sweptTo (h : WellFormed par s) {q : QueueId} (hqueue : s.queues q = front :: rest)
    (hfront : packetExpired s.now front = false) (done : List QueueId) (timer : Timer) :
    (s.sweptTo done timer).getPacket q FRONTIDX = .ok front := by
  have hcollection := h.collection (show front ∈ s.queues q by simp [hqueue])
  by_cases hq : q ∈ done
  · have hqueues : (s.sweptTo done timer).queues q =
        front :: rest.filter fun p => !packetExpired s.now p := by
      simp [Egress.sweptTo, hq, Egress.unexpired, hqueue, hfront]
    exact getPacket_of_queue hcollection hqueues
  · have hqueues : (s.sweptTo done timer).queues q = front :: rest := by
      simp [Egress.sweptTo, hq, hqueue]
    exact getPacket_of_queue hcollection hqueues

/-- A queue with an unexpired packet has a front packet all through the sweep. -/
theorem exists_getPacket_sweptTo (h : WellFormed par s) {q : QueueId}
    (hqueue : s.queues q = front :: rest)
    (hleft : ∃ p ∈ s.queues q, packetExpired s.now p = false) (done : List QueueId)
    (timer : Timer) :
    ∃ first, (s.sweptTo done timer).getPacket q FRONTIDX = .ok first ∧
      (q ∉ done → first = front) := by
  obtain ⟨p, hp, hunexpired⟩ := hleft
  by_cases hq : q ∈ done
  · have hmem : p ∈ s.unexpired q := mem_unexpired.mpr ⟨hp, hunexpired⟩
    obtain ⟨first, others, hfirst⟩ := List.exists_cons_of_ne_nil (List.ne_nil_of_mem hmem)
    have hqueues : (s.sweptTo done timer).queues q = first :: others := by
      simp [Egress.sweptTo, hq, hfirst]
    exact ⟨first, getPacket_of_queue (h.collection hp) hqueues, fun hnot => absurd hq hnot⟩
  · have hqueues : (s.sweptTo done timer).queues q = front :: rest := by
      simp [Egress.sweptTo, hq, hqueue]
    exact ⟨front, getPacket_of_queue (h.collection hp) hqueues, fun _ => rfl⟩

theorem lookForExpiredPackets_armed (h : WellFormed par s) (hself : s.timer.selfMsg = some msg)
    (hevents : s.timer.events = [(msg, T)])
    (hqueue : s.queues msg.collectionIdx = front :: rest)
    (hfront : packetExpired s.now front = false) :
    lookForExpiredPackets s = .ok (s.swept s.timer) := by
  have hfrontMem : front ∈ s.queues msg.collectionIdx := by simp [hqueue]
  obtain ⟨timer', hsweep, rfl⟩ := sweep_ok checkExpired h
    (fun _ timer => timer = s.timer) rfl (by
      rintro done q _ _ rfl
      refine ⟨s.timer, foldlM_same fun packet hpacket => ?_, rfl⟩
      have hself' : (s.sweptTo done s.timer).timer.selfMsg = some msg := hself
      rw [checkExpired_eq hself' (getPacket_sweptTo h hqueue hfront done s.timer)]
      have huse : (s.sweptTo done s.timer).timer.use msg = s.timer := Timer.use_pending hevents
      have hne : front.id ≠ packet.id := by
        intro hid
        have hmem := List.mem_filter.mp hpacket
        rw [(h.eq_of_id hfrontMem hmem.1 hid).2, hmem.2] at hfront
        cases hfront
      rw [if_neg hne, huse])
  exact hsweep

/-- The checks of one queue.  A deleted timer stays deleted, and the front packet of
    the armed queue has it deleted when its own turn comes. -/
theorem foldlM_checkExpired (h : WellFormed par s)
    (hqueue : s.queues msg.collectionIdx = front :: rest)
    (hleft : ∃ p ∈ s.queues msg.collectionIdx, packetExpired s.now p = false)
    (done : List QueueId) (q : QueueId) {timer : Timer} (hself : timer.selfMsg = some msg)
    (hevents : timer.events = [(msg, T)] ∨ timer.events = []) :
    ∃ timer', (s.expiredOf q).foldlM
        (fun timer packet => checkExpired (s.sweptTo done timer) packet) timer = .ok timer' ∧
      timer'.selfMsg = some msg ∧ (timer'.events = [(msg, T)] ∨ timer'.events = []) ∧
      (timer.events = [] → timer'.events = []) ∧
      (msg.collectionIdx ∉ done → front ∈ s.expiredOf q → timer'.events = []) := by
  apply foldlM_ok (fun (checked : List Packet) (timer' : Timer) => timer'.selfMsg = some msg ∧
    (timer'.events = [(msg, T)] ∨ timer'.events = []) ∧
    (timer.events = [] → timer'.events = []) ∧
    (msg.collectionIdx ∉ done → front ∈ checked → timer'.events = []))
    ⟨hself, hevents, fun h => h, by simp⟩
  rintro checked packet others timer' _ ⟨hself, hevents, hdeleted, hchecked⟩
  obtain ⟨first, hfirst, hfirstEq⟩ := exists_getPacket_sweptTo h hqueue hleft done timer'
  refine ⟨_, checkExpired_eq hself hfirst, ?_⟩
  by_cases hid : first.id = packet.id
  · rw [if_pos hid]
    have hnone : ((timer'.use msg).cancelAndDelete msg).events = [] :=
      Timer.events_cancelAndDelete (by rwa [Timer.events_use])
    exact ⟨by simpa using hself, .inr hnone, fun _ => hnone, fun _ _ => hnone⟩
  · rw [if_neg hid]
    have huse : ((s.sweptTo done timer').timer.use msg).events = timer'.events :=
      Timer.events_use
    rw [huse]
    refine ⟨by simpa using hself, hevents, hdeleted, ?_⟩
    intro hnot hmem
    rcases List.mem_append.mp hmem with hmem | hmem
    · exact hchecked hnot hmem
    · rw [List.mem_singleton] at hmem
      exact absurd (by rw [hfirstEq hnot, hmem]) hid

/-- An expired front packet of the armed queue has the timer deleted, and
    `selfMsg` keeps pointing to it. -/
theorem lookForExpiredPackets_hit (h : WellFormed par s) (hself : s.timer.selfMsg = some msg)
    (hevents : s.timer.events = [(msg, T)])
    (hqueue : s.queues msg.collectionIdx = front :: rest)
    (hfront : packetExpired s.now front = true)
    (hleft : ∃ p ∈ s.queues msg.collectionIdx, packetExpired s.now p = false) :
    ∃ timer, lookForExpiredPackets s = .ok (s.swept timer) ∧ timer.selfMsg = some msg ∧
      timer.events = [] := by
  have hfrontMem : front ∈ s.queues msg.collectionIdx := by simp [hqueue]
  obtain ⟨timer', hsweep, hself', _, hdeleted⟩ := sweep_ok checkExpired h
    (fun done timer => timer.selfMsg = some msg ∧
      (timer.events = [(msg, T)] ∨ timer.events = []) ∧
      (msg.collectionIdx ∈ done → timer.events = []))
    ⟨hself, .inl hevents, by simp⟩ (by
      rintro done q timer hq ⟨hself, hevents, hdone⟩
      obtain ⟨timer', hfold, hself', hevents', hkept, hhit⟩ :=
        foldlM_checkExpired h hqueue hleft done q hself hevents
      refine ⟨timer', hfold, hself', hevents', ?_⟩
      intro hmem
      by_cases hin : msg.collectionIdx ∈ done
      · exact hkept (hdone hin)
      · have heq : msg.collectionIdx = q := by
          rcases List.mem_append.mp hmem with hmem | hmem
          · exact absurd hmem hin
          · exact List.mem_singleton.mp hmem
        apply hhit hin
        rw [← heq]
        exact List.mem_filter.mpr ⟨hfrontMem, hfront⟩)
  refine ⟨timer', hsweep, hself', hdeleted ?_⟩
  exact List.mem_of_getElem? (h.collection hfrontMem)

/-! ## The timer invariant -/

/-- The one pending timer, and the front packet it was armed for. -/
structure Armed (s : Egress) (msg : DBFPriorityScheduleMsg) (T : SimTime) (front : Packet) :
    Prop where
  selfMsg : s.timer.selfMsg = some msg
  events : s.timer.events = [(msg, T)]
  time : T = scheduleTime s.now front
  idle : s.txIdleCounter = 1
  choice : Choice s (some msg.collectionIdx)
  queue : ∃ rest, s.queues msg.collectionIdx = front :: rest
  unexpired : packetExpired s.now front = false

/-- What a notification finds: the armed queue has an unexpired packet, which
    need not be its front packet any more. -/
def Notifiable (s : Egress) : Prop :=
  (s.timer.selfMsg = none ∧ s.timer.events = []) ∨
  ∃ msg T, s.timer.selfMsg = some msg ∧ s.timer.events = [(msg, T)] ∧ s.txIdleCounter = 1 ∧
    ∃ p ∈ s.queues msg.collectionIdx, packetExpired s.now p = false

/-- A sweep followed by `schedule`, when the old timer is gone or about to be cancelled. -/
theorem schedule_swept (h : WellFormed par s) {timer : Timer} (hidle : s.txIdleCounter = 1)
    (hcancel : timer.cancelSelfMsg.events = []) :
    (∀ q, s.unexpired q = []) ∧ schedule (s.swept timer) = .ok timer ∨
    ∃ timer' msg T front, schedule (s.swept timer) = .ok timer' ∧
      Armed (s.swept timer') msg T front ∧
      timer'.danglingUse = timer.cancelSelfMsg.danglingUse := by
  have h' := wellFormed_swept h timer
  obtain ⟨choice, hchoice, hspec⟩ := determineCollection_choice h'
  cases choice with
  | none =>
      left
      cases hspec with
      | nothing hempty => exact ⟨hempty, schedule_none hchoice⟩
  | some index =>
      right
      obtain ⟨front, rest, hqueue⟩ := hspec.exists_front
      have hmem : front ∈ (s.swept timer).queues index := by
        rw [hqueue]
        exact List.mem_cons_self
      refine ⟨_, { id := timer.cancelSelfMsg.nextMsg, collectionIdx := index },
        scheduleTime s.now front, front, schedule_some h' hchoice hqueue hcancel, ?_, rfl⟩
      constructor
      · rfl
      · rfl
      · rfl
      · exact hidle
      · exact hspec.swept
      · exact ⟨rest, hqueue⟩
      · exact (mem_unexpired.mp hmem).2

/-- The outcome of a notification.  The scheduler ends in its invariant; while
    the link is idle it has a timer if any packet is left; and `selfMsg` is used
    after its deletion exactly when the front packet of the armed queue had expired. -/
structure Notified (s : Egress) (timer : Timer) : Prop where
  rearmed : (timer.selfMsg = none ∧ timer.events = []) ∨
    ∃ msg T front, Armed (s.swept timer) msg T front
  armed : s.txIdleCounter = 1 → (∃ q, s.unexpired q ≠ []) →
    ∃ msg T front, Armed (s.swept timer) msg T front
  dangling : s.timer.danglingUse = false → (timer.danglingUse = true ↔ ArmedFrontExpired s)

theorem not_armedFrontExpired (hself : s.timer.selfMsg = none) : ¬ ArmedFrontExpired s := by
  rintro ⟨msg, _, _, hsome, _⟩
  cases hsome.symm.trans hself

/-- Without a timer, one is armed if the link is idle and a packet is left. -/
theorem notified_disarmed (h : WellFormed par s) (hself : s.timer.selfMsg = none)
    (hevents : s.timer.events = []) :
    ∃ timer, dbfPriorityScheduler.handleCanPopPacket s = .ok (s.swept timer) ∧
      Notified s timer := by
  have hsweep : dbfPriorityScheduler.lookForExpiredPackets s = .ok (s.swept s.timer) :=
    lookForExpiredPackets_disarmed h hself
  have hnot := not_armedFrontExpired hself
  by_cases hidle : s.txIdleCounter = 1
  · have hcancel : s.timer.cancelSelfMsg = s.timer := Timer.cancelSelfMsg_none hself
    rcases schedule_swept h hidle (by rwa [hcancel]) with
      ⟨hempty, hschedule⟩ | ⟨timer, msg, T, front, hschedule, harmed, hdangling⟩
    · refine ⟨s.timer, handleCanPopPacket_idle hidle hsweep hschedule,
        ⟨.inl ⟨hself, hevents⟩, ?_, ?_⟩⟩
      · rintro _ ⟨q, hq⟩
        exact absurd (hempty q) hq
      · intro hfalse
        simp [hfalse, hnot]
    · refine ⟨timer, handleCanPopPacket_idle hidle hsweep hschedule,
        ⟨.inr ⟨msg, T, front, harmed⟩, fun _ _ => ⟨msg, T, front, harmed⟩, ?_⟩⟩
      intro hfalse
      rw [hdangling, hcancel]
      simp [hfalse, hnot]
  · refine ⟨s.timer, handleCanPopPacket_busy hidle hsweep,
      ⟨.inl ⟨hself, hevents⟩, fun h => absurd h hidle, ?_⟩⟩
    intro hfalse
    simp [hfalse, hnot]

/-- A sweep that leaves a packet of the armed queue is followed by a new timer. -/
theorem notified_rearmed (h : WellFormed par s) {timer : Timer} (hidle : s.txIdleCounter = 1)
    (hsweep : lookForExpiredPackets s = .ok (s.swept timer))
    (hcancel : timer.cancelSelfMsg.events = []) (hleft : ∃ q, s.unexpired q ≠ [])
    (hdangling : s.timer.danglingUse = false →
      (timer.cancelSelfMsg.danglingUse = true ↔ ArmedFrontExpired s)) :
    ∃ timer, dbfPriorityScheduler.handleCanPopPacket s = .ok (s.swept timer) ∧
      Notified s timer := by
  have hsweep' : dbfPriorityScheduler.lookForExpiredPackets s = .ok (s.swept timer) := hsweep
  rcases schedule_swept h hidle hcancel with
    ⟨hempty, _⟩ | ⟨timer', msg, T, front, hschedule, harmed, hsame⟩
  · obtain ⟨q, hq⟩ := hleft
    exact absurd (hempty q) hq
  · refine ⟨timer', handleCanPopPacket_idle hidle hsweep' hschedule,
      ⟨.inr ⟨msg, T, front, harmed⟩, fun _ _ => ⟨msg, T, front, harmed⟩, ?_⟩⟩
    rw [hsame]
    exact hdangling

theorem handleCanPopPacket_ok (h : WellFormed par s) (hn : Notifiable s) :
    ∃ timer, dbfPriorityScheduler.handleCanPopPacket s = .ok (s.swept timer) ∧
      Notified s timer := by
  rcases hn with ⟨hself, hevents⟩ | ⟨msg, T, hself, hevents, hidle, p, hp, hunexpired⟩
  · exact notified_disarmed h hself hevents
  · obtain ⟨front, rest, hqueue⟩ := List.exists_cons_of_ne_nil (List.ne_nil_of_mem hp)
    have hleft : ∃ q, s.unexpired q ≠ [] :=
      ⟨_, List.ne_nil_of_mem (mem_unexpired.mpr ⟨hp, hunexpired⟩)⟩
    cases hfront : packetExpired s.now front with
    | false =>
        have hcancel := Timer.cancelSelfMsg_pending hself hevents
        apply notified_rearmed h hidle (lookForExpiredPackets_armed h hself hevents hqueue hfront)
          (by rw [hcancel]) hleft
        intro hfalse
        rw [hcancel]
        constructor
        · intro htrue
          cases hfalse.symm.trans htrue
        · rintro ⟨m, f, r, hm, hq, hexpired⟩
          cases hm.symm.trans hself
          cases hq.symm.trans hqueue
          cases hfront.symm.trans hexpired
    | true =>
        obtain ⟨timer, hsweep, hself', hevents'⟩ :=
          lookForExpiredPackets_hit h hself hevents hqueue hfront ⟨p, hp, hunexpired⟩
        have hcancel := Timer.cancelSelfMsg_deleted hself' hevents'
        apply notified_rearmed h hidle hsweep (by rw [hcancel]; exact hevents') hleft
        intro _
        rw [hcancel]
        simp only [true_iff]
        exact ⟨msg, front, rest, hself, hqueue, hfront⟩

/-- What the invariant says of the armed packet. -/
theorem Armed.stored (harmed : Armed s msg T front) : front ∈ s.queues msg.collectionIdx := by
  obtain ⟨rest, hqueue⟩ := harmed.queue
  simp [hqueue]

theorem Armed.ready (harmed : Armed s msg T front) : isPacketReadyToSend T front = true := by
  rw [harmed.time]
  exact ready_at_scheduleTime

theorem Armed.unexpired_at (h : WellFormed par s) (harmed : Armed s msg T front) :
    packetExpired T front = false := by
  rw [harmed.time]
  exact unexpired_at_scheduleTime harmed.unexpired (h.window _ front harmed.stored)

/-- What remains of `Armed` when other queues change: the timer, and the front packet of
    the queue it was armed for. -/
structure Pending (s : Egress) (msg : DBFPriorityScheduleMsg) (T : SimTime) (front : Packet) :
    Prop where
  selfMsg : s.timer.selfMsg = some msg
  events : s.timer.events = [(msg, T)]
  idle : s.txIdleCounter = 1
  queue : ∃ rest, s.queues msg.collectionIdx = front :: rest
  unexpired : packetExpired T front = false

theorem Armed.pending (h : WellFormed par s) (harmed : Armed s msg T front) :
    Pending s msg T front :=
  ⟨harmed.selfMsg, harmed.events, harmed.idle, harmed.queue, harmed.unexpired_at h⟩

theorem Pending.stored (hpending : Pending s msg T front) :
    front ∈ s.queues msg.collectionIdx := by
  obtain ⟨rest, hqueue⟩ := hpending.queue
  simp [hqueue]

/-- Why the timer is armed for `front`, of delta `delta`: it is ready and no packet
    of a smaller delta is, or nothing is ready and it is the earliest packet of the
    largest delta. -/
inductive Reason (par : ClassifierParameters) (s : Egress) (T : SimTime) (front : Packet)
    (delta : SimTime) : Prop where
  | ready : T = s.now → isPacketReadyToSend s.now front = true →
      (∀ q, ∀ p ∈ s.queues q, ∀ delta', packetDelta par p = some delta' → delta' < delta →
        isPacketReadyToSend s.now p = false) →
      Reason par s T front delta
  | waiting : T = readyAt s.now front →
      (∀ q, ∀ p ∈ s.queues q, isPacketReadyToSend s.now p = false) →
      (∀ q, ∀ p ∈ s.queues q, ∀ delta', packetDelta par p = some delta' →
        delta' ≤ delta ∧ (delta' = delta → T ≤ readyAt s.now p)) →
      Reason par s T front delta

theorem Armed.reason (h : WellFormed par s) (harmed : Armed s msg T front) :
    ∃ delta, packetDelta par front = some delta ∧ Reason par s T front delta := by
  obtain ⟨rest, hqueue⟩ := harmed.queue
  obtain ⟨delta, hdelta, hentry⟩ := h.classified _ front harmed.stored
  refine ⟨delta, hdelta, ?_⟩
  cases harmed.choice with
  | @ready d _ f r hentry' hqueue' hready hbefore =>
      obtain rfl : d = delta := h.coherent.delta_unique hentry' hentry
      rw [hqueue] at hqueue'
      cases hqueue'
      have htime : T = s.now := by rw [harmed.time, scheduleTime_of_ready hready]
      apply Reason.ready htime hready
      intro q p hp delta' hdelta' hlt
      exact hbefore (delta', q) (h.entry_of_delta hp hdelta') hlt p hp
  | @waiting d _ f r hentry' hqueue' hunready hbehind =>
      obtain rfl : d = delta := h.coherent.delta_unique hentry' hentry
      have htime : T = readyAt s.now front := by rw [harmed.time, scheduleTime_eq]
      apply Reason.waiting htime hunready
      intro q p hp delta' hdelta'
      have hq := h.entry_of_delta hp hdelta'
      constructor
      · by_contra hlt
        have hempty := hbehind (delta', q) hq (not_le.mp hlt)
        rw [hempty] at hp
        cases hp
      · rintro rfl
        obtain rfl : q = msg.collectionIdx := h.coherent.index_unique hq hentry
        have hordered := h.ordered msg.collectionIdx
        rw [hqueue] at hordered hp
        obtain ⟨tag, htag, hlate, hleast⟩ :=
          front_least le_rfl hordered (hunready _ front harmed.stored)
        obtain ⟨other, hother, hle⟩ := hleast p hp
        rw [htime]
        unfold readyAt
        rw [htag, hother]
        exact max_le_max_left s.now hle

/-- While nothing is ready, no packet of the largest delta is ready before `T`. -/
theorem le_readyAt_of_largest {delta e : SimTime} {q : QueueId} {p : Packet}
    (hlargest : ∀ q, ∀ p ∈ s.queues q, ∀ delta', packetDelta par p = some delta' →
      delta' ≤ delta ∧ (delta' = delta → T ≤ readyAt s.now p))
    (hp : p ∈ s.queues q) (he : packetDelta par p = some e) (hle : delta ≤ e) :
    e = delta ∧ T ≤ readyAt s.now p := by
  obtain ⟨hge, hearliest⟩ := hlargest q p hp e he
  have hsame : e = delta := le_antisymm hge hle
  exact ⟨hsame, hearliest hsame⟩

/-! ## The discipline -/

section

variable {config : EgressConfig} {t : SimTime} {packet : Packet}

theorem sweeps (h : WellFormed par s) (hn : Notifiable s) :
    ∃ timer, dbfPriorityScheduler.lookForExpiredPackets s = .ok (s.swept timer) := by
  rcases hn with ⟨hself, _⟩ | ⟨msg, T, hself, hevents, _, p, hp, hunexpired⟩
  · exact ⟨_, lookForExpiredPackets_disarmed h hself⟩
  · obtain ⟨front, rest, hqueue⟩ := List.exists_cons_of_ne_nil (List.ne_nil_of_mem hp)
    cases hfront : packetExpired s.now front with
    | false => exact ⟨_, lookForExpiredPackets_armed h hself hevents hqueue hfront⟩
    | true =>
        obtain ⟨timer, hsweep, _⟩ :=
          lookForExpiredPackets_hit h hself hevents hqueue hfront ⟨p, hp, hunexpired⟩
        exact ⟨timer, hsweep⟩

theorem notifiable_pushed (h : WellFormed config.classifier s) (hpending : Pending s msg T front)
    (henabled : Enabled s (.push t packet)) (hadmissible : Admissible (.push t packet))
    {delta : SimTime} {q : QueueId} {registry : Registry}
    (hdelta : packetDelta config.classifier packet = some delta)
    (hclass : Registry.Classified s.registry delta q registry)
    (hne : (s.pushed config t packet registry q).queues msg.collectionIdx ≠ []) :
    Notifiable (s.pushed config t packet registry q) := by
  right
  refine ⟨msg, T, hpending.selfMsg, hpending.events, hpending.idle, ?_⟩
  -- the armed packet does not expire before its timer, and no event passes the timer
  have htime : t ≤ T := henabled.2.1 (msg, T) (by simp [hpending.events])
  have hunexpired : packetExpired t front = false := unexpired_mono htime hpending.unexpired
  obtain ⟨p, hp, hunexpired, _⟩ :=
    exists_pushed h henabled.1 hadmissible hdelta hclass hne hpending.stored hunexpired
  exact ⟨p, hp, hunexpired⟩

theorem fires (h : WellFormed config.classifier s) (hpending : Pending s msg T front)
    (t : SimTime) :
    dbfPriorityScheduler.handle config s (.timer t msg) =
      match writeEDelay t front with
      | none => .error .optionMissing
      | some out => .ok (s.fired t msg.collectionIdx front out
          { s.timer with selfMsg := none, events := [] }) := by
  obtain ⟨rest, hqueue⟩ := hpending.queue
  have hcollection := h.collection hpending.stored
  have hrest : removePacket front (s.queues msg.collectionIdx) = rest := by
    simp [removePacket, hqueue]
  simp only [Scheduler.handle, dbfPriorityScheduler, handleMessage, hpending.selfMsg, if_true,
    Egress.popPacket, hcollection, hqueue, ok_bind, Egress.sendPacket, Egress.setQueue]
  cases writeEDelay t front with
  | none => rfl
  | some out =>
      simp [hpending.idle, hpending.events, Egress.fired, Egress.setQueue, hrest]

/-- The discipline of the static scheduler, on queues that keep a packet. -/
def discipline (config : EgressConfig) (hcapacity : ∀ q, KeepsOne (config.capacity q)) :
    Discipline dbfPriorityScheduler config where
  Armed := Armed
  Notifiable := Notifiable
  Notified := Notified
  disarm timer := { timer with selfMsg := none, events := [] }
  disarm_ok _ := ⟨rfl, rfl⟩
  selfMsg harmed := harmed.selfMsg
  events harmed := harmed.events
  idle harmed := harmed.idle
  stored harmed := harmed.stored
  ready harmed := harmed.ready
  unexpired h harmed := harmed.unexpired_at h
  disarmed hself hevents := .inl ⟨hself, hevents⟩
  pushed h harmed henabled hadmissible hdelta hclass :=
    notifiable_pushed h (harmed.pending h) henabled hadmissible hdelta hclass
      (pushed_ne_nil (hcapacity _) harmed.stored)
  sweeps := sweeps
  notifies := handleCanPopPacket_ok
  rearmed hnotified := hnotified.rearmed
  fires h harmed t := fires h (harmed.pending h) t

end

end DBFPriorityScheduler

end DelayBasedForwarding
