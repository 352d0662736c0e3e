import DelayBasedForwarding.Discipline
import Mathlib.Data.List.MinMax

/-!
# The dynamic scheduler

The abstract choice is an `argmax`: among the ready packets of the first queue
that has any, the first of greatest urgency.  The two loops of `prepareSelfMsg`
compute it, because the ready packets of a queue are the part in front of its
first unready one.  The timer invariant says that no timer is pending and
`selfMsg` is null, or that the one pending timer fires at the current time for
`scheduledPacket`, which is the choice for the queues as they are.
-/

namespace DelayBasedForwarding

open FoldInvariant SortedMap TransitionRuns

namespace DBFDynamicPriorityScheduler

variable {par : ClassifierParameters} {s : Egress} {msg : DBFPriorityScheduleMsg}
  {p packet : Packet}

/-! ## Urgency -/

/-- Best-effort packets below all DBF packets, and those by the elapsed part of
    their window, between 0 and 1; without an upper bound it is 0. -/
def urgency (t : SimTime) (packet : Packet) : WithBot SimTime :=
  match packet.tag with
  | none => ⊥
  | some tag =>
      if tag.dMax = 0 then ((0 : SimTime) : WithBot SimTime)
      else ((max 0 (min 1 ((t - tag.tMin) / (tag.tMax - tag.tMin))) : SimTime) : WithBot SimTime)

theorem urgency_of_tag {t : SimTime} {tag : DBFHeaderTag} (h : packet.tag = some tag) :
    urgency t packet = (calculateDynamicPriority t packet : WithBot SimTime) := by
  unfold urgency calculateDynamicPriority
  rw [h]
  by_cases hinfinite : tag.dMax = 0
  · simp [hasInfiniteDmax, hinfinite]
  · simp only [hinfinite, if_false, hasInfiniteDmax, beq_iff_eq]
    generalize (t - tag.tMin) / (tag.tMax - tag.tMin) = quotient
    rcases lt_or_ge quotient 0 with hneg | hpos
    · have hle : min 1 quotient ≤ 0 := (min_le_right _ _).trans hneg.le
      simp [hneg, hle]
    · rcases lt_or_ge 1 quotient with hbig | hsmall
      · simp [not_lt.mpr hpos, hbig, min_eq_left hbig.le]
      · simp [not_lt.mpr hpos, not_lt.mpr hsmall, min_eq_right hsmall, hpos]

/-- The four-way condition of the loop compares urgencies. -/
theorem replaces_iff {t : SimTime} {highest new : Packet} :
    replaces t highest new = true ↔ urgency t highest < urgency t new := by
  unfold replaces isDBFPacket
  cases hhighest : highest.tag with
  | none =>
      cases hnew : new.tag with
      | none => simp [urgency, hhighest, hnew]
      | some tag =>
          rw [urgency_of_tag hnew]
          simp [urgency, hhighest]
  | some tag =>
      cases hnew : new.tag with
      | none =>
          rw [urgency_of_tag hhighest]
          simp [urgency, hnew]
      | some tag' =>
          rw [urgency_of_tag hhighest, urgency_of_tag hnew]
          simp

/-! ## The choice of a packet -/

def readyPackets (s : Egress) (q : QueueId) : List Packet :=
  (s.queues q).filter (isPacketReadyToSend s.now)

/-- `p` is the first most urgent ready packet of the queue of the smallest delta
    that has a ready packet, and `index` is that queue. -/
def Chosen (s : Egress) (index : Nat) (p : Packet) : Prop :=
  ∃ delta, (delta, index) ∈ s.registry.deltaQueueMap ∧
    (readyPackets s index).argmax (urgency s.now) = some p ∧
    ∀ entry ∈ s.registry.deltaQueueMap, entry.1 < delta → readyPackets s entry.2 = []

theorem Chosen.mem {index : Nat} (h : Chosen s index p) :
    p ∈ s.queues index ∧ isPacketReadyToSend s.now p = true := by
  obtain ⟨_, _, hargmax, _⟩ := h
  exact List.mem_filter.mp (List.argmax_mem hargmax)

/-- The inner loop is the fold of `argmax` over the packets in front of the
    first unready one. -/
theorem packetLoop_eq_foldl (t : SimTime) (index : Nat) :
    ∀ (packets : List Packet) (highest : Option Packet),
      packetLoop t index packets (highest.map (index, ·)) =
        ((packets.takeWhile (isPacketReadyToSend t)).foldl
          (List.argAux fun b c => urgency t c < urgency t b) highest).map (index, ·) := by
  intro packets
  induction packets with
  | nil => simp [packetLoop]
  | cons packet rest ih =>
      intro highest
      unfold packetLoop
      by_cases hready : isPacketReadyToSend t packet = true
      · rw [if_pos hready, List.takeWhile_cons_of_pos hready, List.foldl_cons]
        cases highest with
        | none => exact ih (some packet)
        | some current =>
            simp only [Option.map_some, List.argAux]
            by_cases hreplaces : replaces t current packet = true
            · rw [if_pos hreplaces, if_pos (replaces_iff.mp hreplaces)]
              exact ih (some packet)
            · rw [if_neg hreplaces, if_neg (mt replaces_iff.mpr hreplaces)]
              exact ih (some current)
      · rw [if_neg hready, List.takeWhile_cons_of_neg hready]
        rfl

theorem packetLoop_eq (h : WellFormed par s) (index : Nat) :
    packetLoop s.now index (s.queues index) none =
      ((readyPackets s index).argmax (urgency s.now)).map (index, ·) := by
  unfold readyPackets
  rw [filter_ready_eq_takeWhile le_rfl (h.ordered index)]
  exact packetLoop_eq_foldl s.now index (s.queues index) none

theorem collectionLoop_cons (h : WellFormed par s) {delta : SimTime} {index : Nat}
    (hentry : (delta, index) ∈ s.registry.deltaQueueMap) (entries : List (SimTime × Nat)) :
    collectionLoop s ((delta, index) :: entries) none =
      match (readyPackets s index).argmax (urgency s.now) with
      | some p => .ok (some (index, p))
      | none => collectionLoop s entries none := by
  rw [collectionLoop, h.canPopSomePacket hentry]
  cases hqueue : s.queues index with
  | nil => simp [readyPackets, hqueue]
  | cons front rest =>
      have hpackets := h.getPackets (show front ∈ s.queues index by simp [hqueue])
      have hloop := packetLoop_eq h index
      rw [hqueue] at hpackets hloop
      simp only [ok_bind, List.isEmpty_cons, Bool.not_false, if_true, hpackets, hloop]
      cases (readyPackets s index).argmax (urgency s.now) with
      | none => rfl
      | some p => rfl

/-- The outer loop ends at the first queue with a ready packet. -/
theorem collectionLoop_spec (h : WellFormed par s) :
    ∀ entries : List (SimTime × Nat), entries ⊆ s.registry.deltaQueueMap →
      (collectionLoop s entries none = .ok none ∧
        ∀ entry ∈ entries, readyPackets s entry.2 = []) ∨
      (∃ left delta index right p, entries = left ++ (delta, index) :: right ∧
        collectionLoop s entries none = .ok (some (index, p)) ∧
        (readyPackets s index).argmax (urgency s.now) = some p ∧
        ∀ entry ∈ left, readyPackets s entry.2 = []) := by
  intro entries
  induction entries with
  | nil =>
      intro _
      exact .inl ⟨rfl, by simp⟩
  | cons entry entries ih =>
      intro hsub
      obtain ⟨delta, index⟩ := entry
      rw [collectionLoop_cons h (hsub (.head _))]
      cases hargmax : (readyPackets s index).argmax (urgency s.now) with
      | some p =>
          right
          exact ⟨[], delta, index, entries, p, rfl, rfl, hargmax, by simp⟩
      | none =>
          have hnone : readyPackets s index = [] := List.argmax_eq_none.mp hargmax
          rcases ih fun _ he => hsub (.tail _ he) with
            ⟨hloop, hunready⟩ | ⟨left, d, i, right, p, hsplit, hloop, hp, hleft⟩
          · left
            exact ⟨hloop, List.forall_mem_cons.mpr ⟨hnone, hunready⟩⟩
          · right
            exact ⟨(delta, index) :: left, d, i, right, p, by rw [hsplit]; rfl, hloop, hp,
              List.forall_mem_cons.mpr ⟨hnone, hleft⟩⟩

theorem collectionLoop_choice (h : WellFormed par s) :
    (collectionLoop s s.registry.deltaQueueMap none = .ok none ∧
      ∀ q, ∀ p ∈ s.queues q, isPacketReadyToSend s.now p = false) ∨
    ∃ index p, collectionLoop s s.registry.deltaQueueMap none = .ok (some (index, p)) ∧
      Chosen s index p := by
  have hascending := h.coherent.ascending
  rcases collectionLoop_spec h s.registry.deltaQueueMap (List.Subset.refl _) with
    ⟨hloop, hunready⟩ | ⟨left, d, i, right, p, hsplit, hloop, hp, hleft⟩
  · left
    refine ⟨hloop, fun q p hp => ?_⟩
    obtain ⟨delta, _, hentry⟩ := h.classified q p hp
    have hnone := hunready (delta, q) hentry
    simpa using List.filter_eq_nil_iff.mp hnone p hp
  · right
    refine ⟨i, p, hloop, d, by simp [hsplit], hp, fun entry hentry hlt => ?_⟩
    rw [hsplit] at hascending hentry
    exact hleft entry (mem_left_of_lt hascending hentry hlt)

/-! ## The timer invariant -/

/-- The one pending timer, and the packet it sends. -/
structure Armed (s : Egress) (msg : DBFPriorityScheduleMsg) (T : SimTime) (p : Packet) :
    Prop where
  selfMsg : s.timer.selfMsg = some msg
  events : s.timer.events = [(msg, T)]
  time : T = s.now
  idle : s.txIdleCounter = 1
  scheduled : s.timer.scheduledPacket = some p
  chosen : Chosen s msg.collectionIdx p
  unexpired : packetExpired s.now p = false

/-- What remains of `Armed` when other queues change: the timer, due now, and the
    packet it sends. -/
structure Pending (s : Egress) (msg : DBFPriorityScheduleMsg) (T : SimTime) (p : Packet) :
    Prop where
  selfMsg : s.timer.selfMsg = some msg
  events : s.timer.events = [(msg, T)]
  time : T = s.now
  idle : s.txIdleCounter = 1
  scheduled : s.timer.scheduledPacket = some p
  stored : p ∈ s.queues msg.collectionIdx
  ready : isPacketReadyToSend s.now p = true
  unexpired : packetExpired s.now p = false

theorem Armed.pending {T : SimTime} (harmed : Armed s msg T p) : Pending s msg T p :=
  ⟨harmed.selfMsg, harmed.events, harmed.time, harmed.idle, harmed.scheduled,
    harmed.chosen.mem.1, harmed.chosen.mem.2, harmed.unexpired⟩

/-- What a notification finds: `scheduledPacket` may have been evicted, but no
    expired packet is that object, and the armed queue has a packet to send. -/
def Notifiable (s : Egress) : Prop :=
  (s.timer.selfMsg = none ∧ s.timer.events = []) ∨
  ∃ msg p, s.timer.selfMsg = some msg ∧ s.timer.events = [(msg, s.now)] ∧
    s.txIdleCounter = 1 ∧ s.timer.scheduledPacket = some p ∧
    (∀ q, ∀ e ∈ s.queues q, packetExpired s.now e = true → e.id ≠ p.id) ∧
    ∃ p' ∈ s.queues msg.collectionIdx,
      isPacketReadyToSend s.now p' = true ∧ packetExpired s.now p' = false

/-- The sweep finds no expired packet to cancel the timer for. -/
theorem lookForExpiredPackets_ok (h : WellFormed par s) (hn : Notifiable s) :
    lookForExpiredPackets s = .ok (s.swept s.timer) := by
  obtain ⟨timer', hsweep, rfl⟩ := sweep_ok checkExpired h
    (fun _ timer => timer = s.timer) rfl (by
      rintro done q _ _ rfl
      refine ⟨s.timer, foldlM_same fun packet hpacket => ?_, rfl⟩
      unfold checkExpired
      rcases hn with ⟨hself, _⟩ | ⟨msg, p, hself, _, _, hscheduled, hapart, _⟩
      · simp [hself]
      · obtain ⟨hmem, hexpired⟩ := List.mem_filter.mp hpacket
        have hne := hapart q packet hmem hexpired
        simp [hself, hscheduled, Ne.symm hne])
  exact hsweep

/-- The timer `schedule` leaves when it has found `p`. -/
theorem schedule_chosen {index : Nat}
    (hloop : collectionLoop s s.registry.deltaQueueMap none = .ok (some (index, p)))
    (hready : isPacketReadyToSend s.now p = true)
    (htimer : (s.timer.selfMsg = none ∧ s.timer.events = []) ∨
      ∃ msg T, s.timer.selfMsg = some msg ∧ s.timer.events = [(msg, T)]) :
    schedule s = .ok { s.timer.rearm index s.now with scheduledPacket := some p } := by
  have htime := scheduleTime_of_ready hready
  rcases htimer with ⟨hself, hevents⟩ | ⟨msg, T, hself, hevents⟩
  · simp [schedule, prepareSelfMsg, hloop, hself, Timer.newSelfMsg, Timer.scheduleAt, hevents,
      htime, Timer.rearm]
  · simp [schedule, prepareSelfMsg, hloop, hself, Timer.newSelfMsg, Timer.scheduleAt, hevents,
      htime, Timer.rearm, Timer.cancelAndDelete, Timer.use]

theorem schedule_nothing
    (hloop : collectionLoop s s.registry.deltaQueueMap none = .ok none)
    (hself : s.timer.selfMsg = none) : schedule s = .ok s.timer := by
  simp [schedule, prepareSelfMsg, hloop, hself]

/-- The outcome of a notification.  The scheduler ends in its invariant, has
    neither cancelled a timer for an expired packet nor used a deleted one, and
    while the link is idle it has a timer exactly if some packet left is ready. -/
structure Notified (s : Egress) (timer : Timer) : Prop where
  rearmed : (timer.selfMsg = none ∧ timer.events = []) ∨
    ∃ msg T p, Armed (s.swept timer) msg T p
  cancels : timer.expiryCancels = s.timer.expiryCancels
  dangling : timer.danglingUse = s.timer.danglingUse
  armed : s.txIdleCounter = 1 →
    ((∃ msg T p, Armed (s.swept timer) msg T p) ↔
      ∃ q, ∃ p ∈ s.unexpired q, isPacketReadyToSend s.now p = true)

theorem handleCanPopPacket_ok (h : WellFormed par s) (hn : Notifiable s) :
    ∃ timer, dbfDynamicPriorityScheduler.handleCanPopPacket s = .ok (s.swept timer) ∧
      Notified s timer := by
  have hsweep : dbfDynamicPriorityScheduler.lookForExpiredPackets s = .ok (s.swept s.timer) :=
    lookForExpiredPackets_ok h hn
  have h' := wellFormed_swept h s.timer
  by_cases hidle : s.txIdleCounter = 1
  · rcases collectionLoop_choice h' with ⟨hloop, hunready⟩ | ⟨index, p, hloop, hchosen⟩
    · rcases hn with ⟨hself, hevents⟩ | ⟨msg, p, _, _, _, _, _, p', hp', hready, hunexpired⟩
      · have hschedule := schedule_nothing hloop hself
        refine ⟨s.timer, handleCanPopPacket_idle hidle hsweep hschedule,
          ⟨.inl ⟨hself, hevents⟩, rfl, rfl, fun _ => ?_⟩⟩
        constructor
        · rintro ⟨msg, T, p, harmed⟩
          cases harmed.selfMsg.symm.trans hself
        · rintro ⟨q, p, hp, hready⟩
          have hnot := hunready q p hp
          rw [now_swept, hready] at hnot
          cases hnot
      · have hnot := hunready _ p' (mem_unexpired.mpr ⟨hp', hunexpired⟩)
        rw [now_swept, hready] at hnot
        cases hnot
    · obtain ⟨hmem, hready⟩ := hchosen.mem
      have hschedule := schedule_chosen hloop hready (by
        rcases hn with hnone | ⟨msg, _, hself, hevents, _⟩
        · exact .inl hnone
        · exact .inr ⟨msg, _, hself, hevents⟩)
      have harmed : Armed (s.swept { s.timer.rearm index s.now with scheduledPacket := some p })
          { id := s.timer.nextMsg, collectionIdx := index } s.now p := by
        constructor
        · rfl
        · rfl
        · rfl
        · exact hidle
        · rfl
        · exact hchosen
        · exact (mem_unexpired.mp hmem).2
      refine ⟨_, handleCanPopPacket_idle hidle hsweep hschedule,
        ⟨.inr ⟨_, _, p, harmed⟩, rfl, rfl, fun _ => ?_⟩⟩
      exact ⟨fun _ => ⟨index, p, hmem, hready⟩, fun _ => ⟨_, _, p, harmed⟩⟩
  · rcases hn with ⟨hself, hevents⟩ | ⟨_, _, _, _, hidle', _⟩
    · exact ⟨s.timer, handleCanPopPacket_busy hidle hsweep,
        ⟨.inl ⟨hself, hevents⟩, rfl, rfl, fun h => absurd h hidle⟩⟩
    · exact absurd hidle' hidle

/-! ## The discipline -/

section

variable {config : EgressConfig} {T t : SimTime}

/-- The timer is due now, so a push happens now. -/
theorem Pending.now_of_push (hpending : Pending s msg T p)
    (henabled : Enabled s (.push t packet)) : t = s.now := by
  have hle : t ≤ T := henabled.2.1 (msg, T) (by simp [hpending.events])
  rw [hpending.time] at hle
  exact le_antisymm hle henabled.1

theorem notifiable_pushed (h : WellFormed config.classifier s) (hpending : Pending s msg T p)
    (henabled : Enabled s (.push t packet)) (hadmissible : Admissible (.push t packet))
    {delta : SimTime} {q : QueueId} {registry : Registry}
    (hdelta : packetDelta config.classifier packet = some delta)
    (hclass : Registry.Classified s.registry delta q registry)
    (hne : (s.pushed config t packet registry q).queues msg.collectionIdx ≠ []) :
    Notifiable (s.pushed config t packet registry q) := by
  obtain rfl : t = s.now := hpending.now_of_push henabled
  right
  refine ⟨msg, p, hpending.selfMsg, ?_, hpending.idle, hpending.scheduled, ?_, ?_⟩
  · rw [← hpending.time]
    exact hpending.events
  · intro a e he hexpired hid
    rcases mem_of_mem_pushed he with hold | ⟨_, rfl⟩
    · obtain ⟨_, rfl⟩ := h.eq_of_id hold hpending.stored hid
      cases hexpired.symm.trans hpending.unexpired
    · have hid : s.nextPacket = p.id := hid
      have := h.fresh _ p hpending.stored
      omega
  · obtain ⟨p', hp', hunexpired, hready⟩ :=
      exists_pushed h le_rfl hadmissible hdelta hclass hne hpending.stored hpending.unexpired
    exact ⟨p', hp', hready hpending.ready, hunexpired⟩

theorem fires (h : WellFormed config.classifier s) (hpending : Pending s msg T p) (t : SimTime) :
    dbfDynamicPriorityScheduler.handle config s (.timer t msg) =
      match writeEDelay t p with
      | none => .error .optionMissing
      | some out => .ok (s.fired t msg.collectionIdx p out
          { s.timer with selfMsg := none, scheduledPacket := none, events := [] }) := by
  have hcollection := h.collection hpending.stored
  have hany : (s.queues msg.collectionIdx).any (fun stored => stored.id == p.id) = true :=
    List.any_eq_true.mpr ⟨p, hpending.stored, by simp⟩
  simp only [Scheduler.handle, dbfDynamicPriorityScheduler, handleMessage, hpending.selfMsg,
    if_true, hcollection, hpending.scheduled, Egress.removePacket, hany, ok_bind,
    Egress.sendPacket, Egress.setQueue]
  cases writeEDelay t p with
  | none => rfl
  | some out => simp [hpending.idle, hpending.events, Egress.fired, Egress.setQueue]

/-- The discipline of the dynamic scheduler, on queues that keep a packet. -/
def discipline (config : EgressConfig) (hcapacity : ∀ q, KeepsOne (config.capacity q)) :
    Discipline dbfDynamicPriorityScheduler config where
  Armed := Armed
  Notifiable := Notifiable
  Notified := Notified
  disarm timer := { timer with selfMsg := none, scheduledPacket := none, events := [] }
  disarm_ok _ := ⟨rfl, rfl⟩
  selfMsg harmed := harmed.selfMsg
  events harmed := harmed.events
  idle harmed := harmed.idle
  stored harmed := harmed.chosen.mem.1
  ready harmed := harmed.time ▸ harmed.chosen.mem.2
  unexpired _ harmed := harmed.time ▸ harmed.unexpired
  disarmed hself hevents := .inl ⟨hself, hevents⟩
  pushed h harmed henabled hadmissible hdelta hclass :=
    notifiable_pushed h harmed.pending henabled hadmissible hdelta hclass
      (pushed_ne_nil (hcapacity _) harmed.chosen.mem.1)
  sweeps h hn := ⟨_, lookForExpiredPackets_ok h hn⟩
  notifies := handleCanPopPacket_ok
  rearmed hnotified := hnotified.rearmed
  fires h harmed t := fires h harmed.pending t

end

end DBFDynamicPriorityScheduler

end DelayBasedForwarding
