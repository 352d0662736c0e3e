import DelayBasedForwarding.Library.FirstMaxima
import DelayBasedForwarding.QueueOrder
import DelayBasedForwarding.SendWindow

/-!
# The order in which packets are sent

A queue keeps the order of arrival among packets the comparator does not tell apart.
Whether they are also sent in this order is up to the scheduler: the static one takes
the front packet of a queue, the dynamic one the most urgent ready packet, and the
first of several.  Both keep the order among packets of one timing, and among
best-effort packets, whatever else is queued, dropped or deleted.
-/

namespace DelayBasedForwarding

open BackInsertion FirstMaxima SortedMap TransitionRuns

/-! ## Kinds of packets -/

/-- A kind of packets that neither the classifier nor the comparator tells apart. -/
structure Kind (par : ClassifierParameters) (P : Packet → Bool) : Prop where
  id : ∀ packet id, P { packet with id := id } = P packet
  neverPass : NeverPass P
  sameDelta : ∀ x y, P x = true → P y = true → packetDelta par x = packetDelta par y

/-- Nor do the schedulers. -/
structure Alike (P : Packet → Bool) : Prop where
  ready : ∀ t x y, P x = true → P y = true → isPacketReadyToSend t x = isPacketReadyToSend t y
  urgency : ∀ t x y, P x = true → P y = true →
    DBFDynamicPriorityScheduler.urgency t x = DBFDynamicPriorityScheduler.urgency t y

/-- What the handling of a DBF packet depends on. -/
structure Timing where
  tMin : SimTime
  tMax : SimTime
  lqbudget : SimTime
  finite : Bool
  admitted : Bool
deriving DecidableEq, Repr

def DBFHeaderTag.timing (tag : DBFHeaderTag) : Timing :=
  { tMin := tag.tMin, tMax := tag.tMax, lqbudget := lqbudget tag, finite := !hasInfiniteDmax tag,
    admitted := tag.admitBit != 0 }

def ofTiming (timing : Timing) (packet : Packet) : Bool :=
  packet.tag.any fun tag => tag.timing == timing

theorem ofTiming_iff {timing : Timing} {packet : Packet} :
    ofTiming timing packet = true ↔ ∃ tag, packet.tag = some tag ∧ tag.timing = timing := by
  unfold ofTiming
  cases packet.tag <;> simp

theorem kind_isBestEffort (par : ClassifierParameters) : Kind par isBestEffort where
  id _ _ := rfl
  neverPass := neverPass_isBestEffort
  sameDelta x y hx hy := by
    unfold isBestEffort at hx hy
    rw [Option.isNone_iff_eq_none] at hx hy
    simp [packetDelta, hx, hy]

theorem alike_isBestEffort : Alike isBestEffort := by
  constructor <;> intro t x y hx hy
  all_goals
    unfold isBestEffort at hx hy
    rw [Option.isNone_iff_eq_none] at hx hy
  · simp [isPacketReadyToSend, hx, hy]
  · simp [DBFDynamicPriorityScheduler.urgency, hx, hy]

theorem kind_ofTiming (par : ClassifierParameters) (timing : Timing) :
    Kind par (ofTiming timing) where
  id _ _ := rfl
  neverPass t x y hx hy := by
    have hclass : ∀ z, ofTiming timing z = true → ofClass timing.tMin timing.admitted z = true := by
      intro z hz
      obtain ⟨tag, htag, rfl⟩ := ofTiming_iff.mp hz
      simp [ofClass, htag, DBFHeaderTag.timing]
    exact neverPass_ofClass timing.tMin timing.admitted t x y (hclass x hx) (hclass y hy)
  sameDelta x y hx hy := by
    obtain ⟨tag, htag, rfl⟩ := ofTiming_iff.mp hx
    obtain ⟨tag', htag', hsame⟩ := ofTiming_iff.mp hy
    simp only [DBFHeaderTag.timing, Timing.mk.injEq, Bool.not_eq_eq_eq_not, Bool.not_not] at hsame
    obtain ⟨_, _, hbudget, hfinite, _⟩ := hsame
    simp only [packetDelta, htag, htag', hbudget, hfinite]

theorem alike_ofTiming (timing : Timing) : Alike (ofTiming timing) := by
  constructor <;> intro t x y hx hy
  all_goals
    obtain ⟨tag, htag, rfl⟩ := ofTiming_iff.mp hx
    obtain ⟨tag', htag', hsame⟩ := ofTiming_iff.mp hy
    simp only [DBFHeaderTag.timing, Timing.mk.injEq, Bool.not_eq_eq_eq_not, Bool.not_not] at hsame
    obtain ⟨hmin, hmax, _, hfinite, _⟩ := hsame
  · simp [isPacketReadyToSend, htag, htag', hmin]
  · have hzero : tag'.dMax = 0 ↔ tag.dMax = 0 := by
      simpa [hasInfiniteDmax] using hfinite
    simp only [DBFDynamicPriorityScheduler.urgency, htag, htag', hmin, hmax, hzero]

/-! ## Packets of one stream -/

/-- The second packet may be sent no earlier than the first, and their windows are equally
    long. -/
structure DBFHeaderTag.Leads (first second : DBFHeaderTag) : Prop where
  tMin : first.tMin ≤ second.tMin
  dMax : second.dMax = first.dMax
  length : first.dMax ≠ 0 → second.tMax - second.tMin = first.tMax - first.tMin
  ordered : first.dMax ≠ 0 → first.tMin ≤ first.tMax
  admitBit : second.admitBit = first.admitBit

/-- Two best-effort packets, or two DBF packets with such windows. -/
def Packet.Leads (x y : Packet) : Prop :=
  (isBestEffort x = true ∧ isBestEffort y = true) ∨
  ∃ first second, x.tag = some first ∧ y.tag = some second ∧ first.Leads second

section

variable {x y : Packet} {t : SimTime}

theorem Packet.Leads.not_passes (h : x.Leads y) : ¬ comparePackets t y x < 0 := by
  rcases h with ⟨hx, hy⟩ | ⟨first, second, hx, hy, h⟩
  · exact neverPass_isBestEffort t y x hy hx
  · rw [passes_iff hy hx]
    rintro (hlt | ⟨_, hadmitted, hnot⟩)
    · exact not_lt.mpr h.tMin hlt
    · exact hadmitted (h.admitBit.trans hnot)

theorem Packet.Leads.ready (h : x.Leads y) (hready : isPacketReadyToSend t y = true) :
    isPacketReadyToSend t x = true := by
  rcases h with ⟨hx, hy⟩ | ⟨first, second, hx, hy, h⟩
  · exact (alike_isBestEffort.ready t x y hx hy).trans hready
  · have hle := h.tMin
    simp only [isPacketReadyToSend, hx, hy, decide_eq_true_eq] at hready ⊢
    linarith

theorem Packet.Leads.urgency (h : x.Leads y) :
    DBFDynamicPriorityScheduler.urgency t y ≤ DBFDynamicPriorityScheduler.urgency t x := by
  rcases h with ⟨hx, hy⟩ | ⟨first, second, hx, hy, h⟩
  · exact (alike_isBestEffort.urgency t x y hx hy).ge
  · simp only [DBFDynamicPriorityScheduler.urgency, hx, hy, h.dMax]
    split
    · exact le_rfl
    · next hfinite =>
        rw [h.length hfinite, WithBot.coe_le_coe]
        have hwindow : 0 ≤ first.tMax - first.tMin := sub_nonneg.mpr (h.ordered hfinite)
        have hle := h.tMin
        gcongr

end

/-! ## The scheduler takes the first -/

section

variable {scheduler : Scheduler} {config : EgressConfig} {P : Packet → Bool}

/-- The timer is armed for the first packet of the kind in its queue. -/
def TakesFirst (d : Discipline scheduler config) (P : Packet → Bool) : Prop :=
  ∀ s msg T p, d.Armed s msg T p → P p = true →
    ((s.queues msg.collectionIdx).filter P).head? = some p

theorem static_takesFirst (hcapacity : ∀ q, KeepsOne (config.capacity q)) :
    TakesFirst (DBFPriorityScheduler.discipline config hcapacity) P := by
  intro s msg T p harmed hkind
  have harmed : DBFPriorityScheduler.Armed s msg T p := harmed
  obtain ⟨rest, hqueue⟩ := harmed.queue
  rw [hqueue, List.filter_cons_of_pos hkind, List.head?_cons]

/-- The dynamic scheduler takes the first of a kind whose packets get ready in the order of
    the queue and whose urgency does not grow along it. -/
theorem DBFDynamicPriorityScheduler.Armed.head?_filter {s : Egress} {msg : DBFPriorityScheduleMsg}
    {T : SimTime} {p : Packet} (harmed : DBFDynamicPriorityScheduler.Armed s msg T p)
    (hkind : P p = true)
    (hordered : ((s.queues msg.collectionIdx).filter P).Pairwise fun x y =>
      (isPacketReadyToSend s.now y = true → isPacketReadyToSend s.now x = true) ∧
      DBFDynamicPriorityScheduler.urgency s.now y ≤ DBFDynamicPriorityScheduler.urgency s.now x) :
    ((s.queues msg.collectionIdx).filter P).head? = some p := by
  obtain ⟨_, _, hargmax, _⟩ := harmed.chosen
  have hready : (DBFDynamicPriorityScheduler.readyPackets s msg.collectionIdx).filter P =
      ((s.queues msg.collectionIdx).filter P).filter (isPacketReadyToSend s.now) :=
    List.filter_comm P (isPacketReadyToSend s.now) (s.queues msg.collectionIdx)
  have hmost := head?_filter_of_argmax hkind hargmax (by
    rw [hready]
    exact (hordered.sublist List.filter_sublist).imp fun h => h.2)
  rw [hready] at hmost
  exact head?_of_head?_filter hmost (hordered.imp fun h => h.1)

theorem dynamic_takesFirst (hcapacity : ∀ q, KeepsOne (config.capacity q)) (halike : Alike P) :
    TakesFirst (DBFDynamicPriorityScheduler.discipline config hcapacity) P := by
  intro s msg T p harmed hkind
  have harmed : DBFDynamicPriorityScheduler.Armed s msg T p := harmed
  apply harmed.head?_filter hkind
  apply List.pairwise_of_forall_mem_list
  intro x hx y hy
  have hx := (List.mem_filter.mp hx).2
  have hy := (List.mem_filter.mp hy).2
  exact ⟨fun hready => (halike.ready s.now x y hx hy).trans hready,
    (halike.urgency s.now x y hx hy).ge⟩

/-! ## Runs -/

/-- What was sent of the kind, and then what a queue holds of it, are in the order of
    arrival. -/
def InArrivalOrder (P : Packet → Bool) (s : Egress) : Prop :=
  ∀ q, ((s.log.sent.map SentPacket.stored).filter P ++ (s.queues q).filter P).Sublist
    (s.log.pushed.filter P)

variable {s s' : Egress} {event : EgressEvent} {t : SimTime} {packet : Packet}

/-- What passes none of its kind is inserted behind them. -/
theorem filter_insertPacket_of_behind {packets : List Packet}
    (h : ∀ stored ∈ packets, P stored = true → P packet = true →
      ¬ comparePackets t packet stored < 0) :
    (insertPacket t packet packets).filter P = packets.filter P ++ [packet].filter P := by
  unfold insertPacket
  cases hpacket : P packet with
  | true =>
      rw [filter_insertBack hpacket]
      · simp [hpacket]
      · intro stored hmem hstored
        simpa using h stored hmem hstored hpacket
  | false =>
      rw [filter_insertBack_of_not hpacket]
      simp [hpacket]

theorem inArrivalOrder_pushed (h : InArrivalOrder P s) (registry : Registry) (q : QueueId)
    (hbehind : ∀ stored ∈ s.queues q, P stored = true →
      P { packet with id := s.nextPacket } = true →
      ¬ comparePackets t { packet with id := s.nextPacket } stored < 0) :
    InArrivalOrder P (s.pushed config t packet registry q) := by
  intro a
  have hsent : (s.pushed config t packet registry q).log.sent = s.log.sent := rfl
  have hpushed : (s.pushed config t packet registry q).log.pushed =
      s.log.pushed ++ [{ packet with id := s.nextPacket }] := rfl
  rw [hsent, hpushed, List.filter_append]
  by_cases ha : a = q
  · subst ha
    rw [queues_pushed_self]
    have hkept := (@pushPacket_sublist (config.capacity a) t { packet with id := s.nextPacket }
      (s.queues a)).filter P
    rw [filter_insertPacket_of_behind hbehind] at hkept
    refine ((List.Sublist.refl _).append hkept).trans ?_
    rw [← List.append_assoc]
    exact (h a).append (List.Sublist.refl _)
  · rw [queues_pushed_of_ne ha]
    exact (h a).trans (List.sublist_append_left _ _)

theorem inArrivalOrder_swept (h : InArrivalOrder P s) (timer : Timer) :
    InArrivalOrder P (s.swept timer) := by
  intro q
  have hkept : (s.unexpired q).Sublist (s.queues q) := List.filter_sublist
  exact ((List.Sublist.refl _).append (hkept.filter P)).trans (h q)

theorem queues_fired_self {q : QueueId} {p out : Packet} {timer : Timer} :
    (s.fired t q p out timer).queues q = removePacket p (s.queues q) :=
  Function.update_self _ _ _

theorem queues_fired_of_ne {q a : QueueId} {p out : Packet} {timer : Timer} (ha : a ≠ q) :
    (s.fired t q p out timer).queues a = s.queues a :=
  Function.update_of_ne ha _ _

/-- Removing the first of the kind leaves the rest. -/
theorem filter_removePacket {par : ClassifierParameters} {p : Packet} {q : QueueId}
    (h : WellFormed par s) (hfirst : ((s.queues q).filter P).head? = some p) :
    (s.queues q).filter P = p :: (removePacket p (s.queues q)).filter P := by
  have hp : p ∈ s.queues q := (List.mem_filter.mp (List.mem_of_head? hfirst)).1
  obtain ⟨a, front, back, hbefore, hid, hsplit, herased⟩ :=
    List.exists_of_eraseP (p := fun stored => stored.id == p.id) hp (by simp)
  have ha : a = p := by
    have hmem : a ∈ s.queues q := by simp [hsplit]
    exact (h.eq_of_id hmem hp (by simpa using hid)).2
  subst ha
  have hnone : front.filter P = [] := by
    rw [hsplit, List.filter_append] at hfirst
    cases hfront : front.filter P with
    | nil => rfl
    | cons b rest =>
        rw [hfront, List.cons_append, List.head?_cons, Option.some.injEq] at hfirst
        subst hfirst
        have hb : b ∈ front := (List.mem_filter.mp (hfront ▸ List.mem_cons_self)).1
        exact absurd (by simp) (hbefore b hb)
  have hkind : P a = true := (List.mem_filter.mp (List.mem_of_head? hfirst)).2
  have hremoved : removePacket a (s.queues q) = front ++ back := herased
  rw [hremoved, hsplit, List.filter_append, List.filter_append, hnone,
    List.filter_cons_of_pos hkind, List.nil_append, List.nil_append]

/-- Packets of one delta are in one queue. -/
theorem WellFormed.queue_unique {par : ClassifierParameters} (hwell : WellFormed par s)
    {a q : QueueId} {x p : Packet} (hx : x ∈ s.queues a) (hp : p ∈ s.queues q)
    (hsame : packetDelta par x = packetDelta par p) : a = q := by
  obtain ⟨delta, hdelta, hentry⟩ := hwell.classified q p hp
  have hentry' := hwell.entry_of_delta hx (hsame.trans hdelta)
  have hsame := eq_of_key_eq hwell.coherent.ascending hentry' hentry rfl
  exact (Prod.mk.inj hsame).2

theorem inArrivalOrder_fired (hwell : WellFormed config.classifier s) (h : InArrivalOrder P s)
    {q : QueueId} {p out : Packet} (hp : p ∈ s.queues q)
    (hsame : P p = true → ∀ a, ∀ x ∈ s.queues a, P x = true →
      packetDelta config.classifier x = packetDelta config.classifier p)
    (hfirst : P p = true → ((s.queues q).filter P).head? = some p) (timer : Timer) :
    InArrivalOrder P (s.fired t q p out timer) := by
  intro a
  have hsent : (s.fired t q p out timer).log.sent.map SentPacket.stored =
      s.log.sent.map SentPacket.stored ++ [p] := by
    simp [Egress.fired]
  have hpushed : (s.fired t q p out timer).log.pushed = s.log.pushed := rfl
  rw [hsent, hpushed, List.filter_append]
  by_cases hmember : P p = true
  · have hqueue := filter_removePacket hwell (hfirst hmember)
    have hq := h q
    rw [hqueue] at hq
    rw [List.filter_cons_of_pos hmember, List.filter_nil, List.append_assoc, List.singleton_append]
    by_cases ha : a = q
    · subst ha
      rwa [queues_fired_self]
    · have hnone : (s.queues a).filter P = [] := by
        rw [List.filter_eq_nil_iff]
        exact fun x hx hxkind => ha (hwell.queue_unique hx hp (hsame hmember a x hx hxkind))
      rw [queues_fired_of_ne ha, hnone]
      refine List.Sublist.trans ?_ hq
      exact (List.Sublist.refl _).append (List.singleton_sublist.mpr List.mem_cons_self)
  · rw [List.filter_cons_of_neg hmember, List.filter_nil, List.append_nil]
    have hkept := (fired_sublist s t q p out timer a).filter P
    exact ((List.Sublist.refl _).append hkept).trans (h a)

/-- **One step** keeps the order if a packet that is pushed passes none of its kind in the
    queues, these are of one delta and the scheduler takes the first of them. -/
theorem Discipline.step_inArrivalOrder (d : Discipline scheduler config)
    (hcapacity : ∀ q, KeepsOne (config.capacity q)) (hinv : d.Inv s) (h : InArrivalOrder P s)
    (hstep : EgressStep scheduler config s event s')
    (hbehind : ∀ t packet, event = .push t packet → ∀ q, ∀ stored ∈ s.queues q,
      P stored = true → P { packet with id := s.nextPacket } = true →
      ¬ comparePackets t { packet with id := s.nextPacket } stored < 0)
    (hsame : ∀ a q, ∀ x ∈ s.queues a, ∀ y ∈ s.queues q, P x = true → P y = true →
      packetDelta config.classifier x = packetDelta config.classifier y)
    (hfirst : ∀ msg T p, d.Armed s msg T p → P p = true →
      ((s.queues msg.collectionIdx).filter P).head? = some p) : InArrivalOrder P s' := by
  cases event with
  | push t packet =>
      obtain ⟨_, q, registry, timer, _, _, rfl, _⟩ := d.step_push hcapacity hinv.1 hinv.2 hstep
      exact inArrivalOrder_swept
        (inArrivalOrder_pushed h registry q (hbehind t packet rfl q)) timer
  | txIdle t =>
      obtain ⟨_, timer, rfl, _⟩ := d.step_txIdle hinv.1 hinv.2 hstep
      have hidled : InArrivalOrder P (s.idled t) := h
      exact inArrivalOrder_swept hidled timer
  | timer t msg =>
      obtain ⟨p, out, harmed, _, rfl⟩ := d.step_timer hinv.1 hinv.2 hstep
      have hp := d.stored harmed
      exact inArrivalOrder_fired hinv.1 h hp
        (fun hkind a x hx hxkind => hsame a _ x hx p hp hxkind hkind) (hfirst msg t p harmed) _

variable {count : Nat} {history : List (Transition Egress EgressEvent)}

theorem Discipline.run_inArrivalOrder (d : Discipline scheduler config)
    (hcapacity : ∀ q, KeepsOne (config.capacity q)) (hkind : Kind config.classifier P)
    (hfirst : TakesFirst d P) (hrun : EgressRun scheduler config count history s) :
    InArrivalOrder P s := by
  refine (d.run_invariant hcapacity (X := InArrivalOrder P) ?_ ?_ hrun).2
  · intro q
    simp [Egress.initial]
  · intro s event s' hinv h hstep
    exact d.step_inArrivalOrder hcapacity hinv h hstep
      (fun t packet _ q stored _ hstored hpacket => hkind.neverPass t _ stored hpacket hstored)
      (fun _ _ x _ y _ => hkind.sameDelta x y) (hfirst s)

/-- Both schedulers keep the order of a kind they do not tell apart. -/
theorem run_inArrivalOrder (hcapacity : ∀ q, KeepsOne (config.capacity q))
    (hscheduler : scheduler = dbfPriorityScheduler ∨ scheduler = dbfDynamicPriorityScheduler)
    (hkind : Kind config.classifier P) (halike : Alike P)
    (hrun : EgressRun scheduler config count history s) : InArrivalOrder P s := by
  rcases hscheduler with rfl | rfl
  · exact (DBFPriorityScheduler.discipline config hcapacity).run_inArrivalOrder hcapacity hkind
      (static_takesFirst hcapacity) hrun
  · exact (DBFDynamicPriorityScheduler.discipline config hcapacity).run_inArrivalOrder hcapacity
      hkind (dynamic_takesFirst hcapacity halike) hrun

/-- Both schedulers keep the order of a stream in the queues. -/
theorem step_inArrivalOrder (hcapacity : ∀ q, KeepsOne (config.capacity q))
    (hscheduler : scheduler = dbfPriorityScheduler ∨ scheduler = dbfDynamicPriorityScheduler)
    (hrun : EgressRun scheduler config count history s) (h : InArrivalOrder P s)
    (hstep : EgressStep scheduler config s event s')
    (hbehind : ∀ t packet, event = .push t packet → ∀ q, ∀ stored ∈ s.queues q,
      P stored = true → P { packet with id := s.nextPacket } = true →
      stored.Leads { packet with id := s.nextPacket })
    (hsame : ∀ a q, ∀ x ∈ s.queues a, ∀ y ∈ s.queues q, P x = true → P y = true →
      packetDelta config.classifier x = packetDelta config.classifier y)
    (hordered : ∀ q, ((s.queues q).filter P).Pairwise Packet.Leads) : InArrivalOrder P s' := by
  have hpass : ∀ t packet, event = .push t packet → ∀ q, ∀ stored ∈ s.queues q,
      P stored = true → P { packet with id := s.nextPacket } = true →
      ¬ comparePackets t { packet with id := s.nextPacket } stored < 0 :=
    fun t packet hevent q stored hmem hstored hnew =>
      (hbehind t packet hevent q stored hmem hstored hnew).not_passes
  rcases hscheduler with rfl | rfl
  · exact (DBFPriorityScheduler.discipline config hcapacity).step_inArrivalOrder hcapacity
      ((DBFPriorityScheduler.discipline config hcapacity).inv_run hcapacity hrun).1 h hstep hpass
      hsame (static_takesFirst hcapacity s)
  · exact (DBFDynamicPriorityScheduler.discipline config hcapacity).step_inArrivalOrder hcapacity
      ((DBFDynamicPriorityScheduler.discipline config hcapacity).inv_run hcapacity hrun).1 h hstep
      hpass hsame fun msg T p harmed hkind =>
        DBFDynamicPriorityScheduler.Armed.head?_filter harmed hkind
          ((hordered _).imp fun hleads => ⟨hleads.ready, hleads.urgency⟩)

/-- **Order of sending.**  In every run of an egress whose queues are unlimited or have a
    `packetCapacity` of at least one without a `dataCapacity`:

    * the best-effort packets that are sent leave in the order in which they were pushed;
    * so do the DBF packets of each timing;
    * with the static scheduler, so do the packets of any kind that the classifier and the
      comparator do not tell apart, whatever their upper bounds are. -/
theorem send_order (config : EgressConfig) (hcapacity : ∀ q, KeepsOne (config.capacity q))
    (scheduler : Scheduler)
    (hscheduler : scheduler = dbfPriorityScheduler ∨ scheduler = dbfDynamicPriorityScheduler)
    (count : Nat) (history : List (Transition Egress EgressEvent)) (s : Egress)
    (hrun : EgressRun scheduler config count history s) :
    ((s.log.sent.map SentPacket.stored).filter isBestEffort).Sublist
      (s.log.pushed.filter isBestEffort) ∧
    (∀ timing, ((s.log.sent.map SentPacket.stored).filter (ofTiming timing)).Sublist
      (s.log.pushed.filter (ofTiming timing))) ∧
    (scheduler = dbfPriorityScheduler → ∀ P, Kind config.classifier P →
      ((s.log.sent.map SentPacket.stored).filter P).Sublist (s.log.pushed.filter P)) := by
  have hsent : ∀ P, InArrivalOrder P s →
      ((s.log.sent.map SentPacket.stored).filter P).Sublist (s.log.pushed.filter P) :=
    fun P h => (List.sublist_append_left _ _).trans (h 0)
  have halike : ∀ P, Kind config.classifier P → Alike P → InArrivalOrder P s :=
    fun P hkind halike => run_inArrivalOrder hcapacity hscheduler hkind halike hrun
  refine ⟨hsent _ (halike _ (kind_isBestEffort _) alike_isBestEffort), fun timing =>
    hsent _ (halike _ (kind_ofTiming _ timing) (alike_ofTiming timing)), ?_⟩
  rintro rfl P hkind
  exact hsent P ((DBFPriorityScheduler.discipline config hcapacity).run_inArrivalOrder hcapacity
    hkind (static_takesFirst hcapacity) hrun)

/-! Two packets of one timing behind a packet that is ready earlier. -/

theorem send_order_sample : ∃ s : Egress, s.log.pushed.length = 3 ∧ s.log.sent.length = 2 ∧
    ∀ timing, ((s.log.sent.map SentPacket.stored).filter (ofTiming timing)).Sublist
      (s.log.pushed.filter (ofTiming timing)) := by
  obtain ⟨history, s, hrun, _, hlengths⟩ := Run.exists_of_replay
    (egressStep_of_next dbfPriorityScheduler sampleConfig)
    (show (replay (egressNext dbfPriorityScheduler sampleConfig) (Egress.initial 0)
      [.push 0 (samplePacket 0 2 5), .push 0 (samplePacket 0 2 5), .push 0 (samplePacket 0 1 4),
       .txIdle 0, .timer 1 ⟨0, 0⟩, .txIdle 1, .timer 2 ⟨1, 0⟩]).any
      (fun s => s.log.pushed.length == 3 && s.log.sent.length == 2) = true by decide +kernel)
  have h := send_order sampleConfig unlimited_sampleConfig.keepsOne dbfPriorityScheduler (.inl rfl)
    0 history s hrun
  simp only [Bool.and_eq_true, beq_iff_eq] at hlengths
  exact ⟨s, hlengths.1, hlengths.2, h.2.1⟩

end

end DelayBasedForwarding
