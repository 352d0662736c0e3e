import DelayBasedForwarding.SendWindow

/-!
# Evictions under a pending timer

A push may drop every packet of its queue, and `PacketQueue::pushPacket` then
notifies nobody.  If that queue is the one a timer was armed for, the timer stays
pending for an empty queue; the expiry sweep, which deletes packets too, cancels it
in that case.  On queues with limits of any kind this happens exactly when the packet
that is pushed does not fit alone and goes in front of every unexpired one.
-/

namespace DelayBasedForwarding

open BackInsertion TransitionRuns

variable {config : EgressConfig} {s s' : Egress} {t T : SimTime} {packet p : Packet}
  {msg : DBFPriorityScheduleMsg} {event : EgressEvent} {delta : SimTime} {q : QueueId}
  {registry : Registry}

/-! ## The condition -/

/-- The packet goes in front of every unexpired packet of the queue. -/
def LeadsUnexpired (t : SimTime) (packet : Packet) (packets : List Packet) : Prop :=
  (∀ p ∈ packets, packetExpired t p = false → comparePackets t packet p < 0) ∧
  packets.Pairwise fun p p' => packetExpired t p = false → comparePackets t packet p' < 0

instance (t : SimTime) (packet : Packet) (packets : List Packet) :
    Decidable (LeadsUnexpired t packet packets) :=
  inferInstanceAs (Decidable (_ ∧ _))

/-- A packet that exceeds the limits of the armed queue by itself is pushed in front of
    all that is worth keeping there. -/
def OversizeInFront (config : EgressConfig) (s : Egress) : EgressEvent → Prop
  | .push t packet => ∃ pending ∈ s.timer.events, ∃ entry ∈ s.registry.deltaQueueMap,
      packetDelta config.classifier packet = some entry.1 ∧
      entry.2 = pending.1.collectionIdx ∧ packetExpired t packet = false ∧
      isOverloaded (config.capacity entry.2) [packet] = true ∧
      LeadsUnexpired t packet (s.queues entry.2)
  | .txIdle _ => False
  | .timer _ _ => False

instance decidableOversizeInFront (config : EgressConfig) (s : Egress) :
    (event : EgressEvent) → Decidable (OversizeInFront config s event)
  | .push _ _ => inferInstanceAs (Decidable (∃ pending ∈ s.timer.events, _))
  | .txIdle _ => .isFalse id
  | .timer _ _ => .isFalse id

/-- A new packet is the first unexpired one exactly if it leads the others. -/
theorem firstUnexpired_insertPacket_iff {packets : List Packet}
    (hnew : packet.id ∉ packets.map Packet.id) :
    firstUnexpired t (insertPacket t packet packets) = some packet ↔
      packetExpired t packet = false ∧ LeadsUnexpired t packet packets := by
  let before : Packet → Packet → Bool := fun new stored =>
    decide (comparePackets t new stored < 0)
  have hleads : LeadsUnexpired t packet packets ↔
      ∀ p ∈ packets.rdropWhile (before packet), ¬ packetExpired t p = false := by
    rw [forall_rdropWhile_iff]
    simp [LeadsUnexpired, before]
  have hsub : ∀ p ∈ packets.rdropWhile (before packet), p ∈ packets :=
    fun p hp => (List.rdropWhile_prefix (before packet) packets).subset hp
  rw [hleads]
  constructor
  · intro hfirst
    refine ⟨(firstUnexpired_spec hfirst).2, fun p hp hunexpired => ?_⟩
    -- an unexpired packet left in front would be found first
    obtain ⟨first, hfound⟩ := exists_firstUnexpired hp hunexpired
    have heq : firstUnexpired t (insertPacket t packet packets) = some first :=
      List.find?_append.trans (by
        rw [show (packets.rdropWhile (before packet)).find? _ = some first from hfound]
        rfl)
    obtain rfl := Option.some.inj (heq.symm.trans hfirst)
    exact hnew (List.mem_map_of_mem (hsub _ (firstUnexpired_spec hfound).1))
  · rintro ⟨hunexpired, hexpired⟩
    apply List.find?_eq_some_iff_append.mpr
    refine ⟨by simp [hunexpired], _, _, rfl, fun p hp => ?_⟩
    simpa using hexpired p hp

/-! ## Queues inside their limits -/

def Fits (config : EgressConfig) (s : Egress) : Prop :=
  ∀ q, isOverloaded (config.capacity q) (s.queues q) = false

theorem Fits.sublist (h : Fits config s) (hsub : ∀ q, (s'.queues q).Sublist (s.queues q)) :
    Fits config s' := by
  intro q
  by_contra hover
  rw [Bool.not_eq_false] at hover
  cases (h q).symm.trans (isOverloaded_mono (hsub q) hover)

theorem Fits.pushed (h : Fits config s) : Fits config (s.pushed config t packet registry q) := by
  intro a
  by_cases ha : a = q
  · subst ha
    rw [queues_pushed_self]
    exact pushPacket_fits _ _ _ _
  · rw [queues_pushed_of_ne ha]
    exact h a

/-- A push empties a queue with an unexpired packet exactly if it goes to that queue,
    exceeds its limits and leads its unexpired packets. -/
theorem pushed_empty_iff {a : QueueId} (h : WellFormed config.classifier s) (hfits : Fits config s)
    (htime : s.now ≤ t) (hadmissible : Admissible (.push t packet))
    (hdelta : packetDelta config.classifier packet = some delta)
    (hclass : Registry.Classified s.registry delta q registry) (hp : p ∈ s.queues a)
    (hunexpired : packetExpired t p = false) :
    (s.pushed config t packet registry q).queues a = [] ↔
      a = q ∧ packetExpired t packet = false ∧ isOverloaded (config.capacity a) [packet] = true ∧
        LeadsUnexpired t packet (s.queues a) := by
  let object : Packet := { packet with id := s.nextPacket }
  by_cases ha : a = q
  · subst ha
    rw [queues_pushed_self]
    have hlead : firstUnexpired t (insertPacket t object (s.queues a)) = some object ↔
        packetExpired t packet = false ∧ LeadsUnexpired t packet (s.queues a) :=
      firstUnexpired_insertPacket_iff (h.fresh_id a)
    obtain ⟨_, hids⟩ := wellFormed_inserted h htime hadmissible hdelta hclass
    obtain ⟨first, hfirst⟩ := exists_firstUnexpired
      (show p ∈ insertPacket t object (s.queues a) from mem_insertPacket.mpr (.inr hp)) hunexpired
    rcases pushPacket_first (config.capacity a) hids hfirst with ⟨hfit, hkept⟩ | ⟨hover, hnil⟩
    · constructor
      · intro hnil
        rw [hnil] at hkept
        cases hkept
      · rintro ⟨_, hpacket, hover, hleads⟩
        cases hfirst.symm.trans (hlead.mpr ⟨hpacket, hleads⟩)
        cases hfit.symm.trans hover
    · refine iff_of_true hnil ?_
      rcases mem_insertPacket.mp (firstUnexpired_spec hfirst).1 with rfl | hstored
      · obtain ⟨hpacket, hleads⟩ := hlead.mp hfirst
        exact ⟨rfl, hpacket, hover, hleads⟩
      · -- what is stored fits
        have hover := isOverloaded_mono (List.singleton_sublist.mpr hstored) hover
        cases (hfits a).symm.trans hover
  · rw [queues_pushed_of_ne ha]
    exact iff_of_false (List.ne_nil_of_mem hp) fun h => ha h.1

/-! ## What a scheduler has to show on any queues

Without a notification the timer is not renewed, so `Pending` asks less than the
`Armed` of a `Discipline`: it survives every push into another queue. -/

structure Resilience (scheduler : Scheduler) (config : EgressConfig) where
  Pending : Egress → DBFPriorityScheduleMsg → SimTime → Packet → Prop
  Backed : Egress → Prop
  Notifiable : Egress → Prop
  disarm : Timer → Timer
  disarm_ok : ∀ timer, (disarm timer).selfMsg = none ∧ (disarm timer).events = []
  events : ∀ {s msg T p}, Pending s msg T p → s.timer.events = [(msg, T)]
  idle : ∀ {s msg T p}, Pending s msg T p → s.txIdleCounter = 1
  stored : ∀ {s msg T p}, Pending s msg T p → p ∈ s.queues msg.collectionIdx
  unexpired : ∀ {s msg T p}, Pending s msg T p → packetExpired T p = false
  backed : ∀ {s msg T p}, Pending s msg T p → Backed s
  backed_disarmed : ∀ {s : Egress}, s.timer.events = [] → Backed s
  nonempty : ∀ {s msg T}, Backed s → (msg, T) ∈ s.timer.events → s.queues msg.collectionIdx ≠ []
  disarmed : ∀ {s : Egress}, s.timer.selfMsg = none → s.timer.events = [] → Notifiable s
  untouched : ∀ {s msg T p t packet q registry}, Pending s msg T p →
    Enabled s (.push t packet) → msg.collectionIdx ≠ q →
    Pending (s.pushed config t packet registry q) msg T p
  pushed : ∀ {s msg T p t packet delta q registry}, WellFormed config.classifier s →
    Pending s msg T p → Enabled s (.push t packet) → Admissible (.push t packet) →
    packetDelta config.classifier packet = some delta →
    Registry.Classified s.registry delta q registry →
    (s.pushed config t packet registry q).queues msg.collectionIdx ≠ [] →
    Notifiable (s.pushed config t packet registry q)
  notifies : ∀ {s}, WellFormed config.classifier s → Notifiable s →
    (∃ timer, scheduler.lookForExpiredPackets s = .ok (s.swept timer)) ∧
    ∃ timer, scheduler.handleCanPopPacket s = .ok (s.swept timer) ∧
      ((timer.selfMsg = none ∧ timer.events = []) ∨ ∃ msg T p, Pending (s.swept timer) msg T p)
  fires : ∀ {s msg T p}, WellFormed config.classifier s → Pending s msg T p → ∀ t,
    scheduler.handle config s (.timer t msg) =
      match writeEDelay t p with
      | none => .error .optionMissing
      | some out => .ok (s.fired t msg.collectionIdx p out (disarm s.timer))

namespace Resilience

variable {scheduler : Scheduler} (r : Resilience scheduler config)

structure Inv (s : Egress) : Prop where
  well : WellFormed config.classifier s
  fits : Fits config s
  timer : (s.timer.selfMsg = none ∧ s.timer.events = []) ∨ ∃ msg T p, r.Pending s msg T p

theorem Inv.backed {r : Resilience scheduler config} (h : r.Inv s) : r.Backed s := by
  rcases h.timer with ⟨_, hevents⟩ | ⟨msg, T, p, hpending⟩
  · exact r.backed_disarmed hevents
  · exact r.backed hpending

theorem inv_initial (count : Nat) : r.Inv (Egress.initial count) :=
  ⟨wellFormed_initial _ count, fun _ => not_isOverloaded_nil _, .inl ⟨rfl, rfl⟩⟩

/-- A notification after a step that kept the queues in order ends in the invariant. -/
theorem notified (h : WellFormed config.classifier s) (hfits : Fits config s)
    (hn : r.Notifiable s) :
    ∃ timer, scheduler.handleCanPopPacket s = .ok (s.swept timer) ∧ r.Inv (s.swept timer) := by
  obtain ⟨_, timer, hresult, htimer⟩ := r.notifies h hn
  exact ⟨timer, hresult, wellFormed_swept h timer, hfits.sublist fun _ => List.filter_sublist,
    htimer⟩

/-- What becomes of the timer in a step. -/
def Outcome (s : Egress) (event : EgressEvent) (s' : Egress) : Prop :=
  (OversizeInFront config s event ∧ ¬ r.Backed s') ∨ (¬ OversizeInFront config s event ∧ r.Inv s')

theorem oversizeInFront_iff (h : r.Inv s) (hpending : r.Pending s msg T p)
    (henabled : Enabled s (.push t packet)) (hadmissible : Admissible (.push t packet))
    (hdelta : packetDelta config.classifier packet = some delta)
    (hclass : Registry.Classified s.registry delta q registry) :
    OversizeInFront config s (.push t packet) ↔
      (s.pushed config t packet registry q).queues msg.collectionIdx = [] := by
  have hevents := r.events hpending
  have hnow : s.now ≤ t := henabled.1
  have htime : t ≤ T := henabled.2.1 (msg, T) (by simp [hevents])
  have hunexpired : packetExpired t p = false := unexpired_mono htime (r.unexpired hpending)
  rw [pushed_empty_iff h.well h.fits hnow hadmissible hdelta hclass (r.stored hpending)
    hunexpired]
  constructor
  · rintro ⟨pending, hmem, ⟨delta', index⟩, hentry, hdelta', hindex, hpacket, hover, hleads⟩
    rw [hevents, List.mem_singleton] at hmem
    subst hmem
    obtain rfl : index = msg.collectionIdx := hindex
    cases hdelta.symm.trans hdelta'
    have hsame : msg.collectionIdx = q :=
      hclass.coherent.index_unique (hclass.kept hentry) hclass.entry
    exact ⟨hsame, hpacket, hover, hleads⟩
  · rintro ⟨rfl, hpacket, hover, hleads⟩
    obtain ⟨delta', hdelta', hentry⟩ := h.well.classified _ p (r.stored hpending)
    obtain rfl : delta = delta' :=
      hclass.coherent.delta_unique hclass.entry (hclass.kept hentry)
    exact ⟨(msg, T), by simp [hevents], _, hentry, hdelta, rfl, hpacket, hover, hleads⟩

/-- A push keeps the invariant if the timer survives where nobody is notified, and the
    notification finds what it relies on where there is one. -/
theorem inv_of_push (h : r.Inv s) (hnow : s.now ≤ t) (hadmissible : Admissible (.push t packet))
    (hdelta : packetDelta config.classifier packet = some delta)
    (hclass : Registry.Classified s.registry delta q registry)
    (hsilent : (s.pushed config t packet registry q).queues q = [] →
      (s.timer.selfMsg = none ∧ s.timer.events = []) ∨
        ∃ msg T p, r.Pending (s.pushed config t packet registry q) msg T p)
    (hnotified : (s.pushed config t packet registry q).queues q ≠ [] →
      r.Notifiable (s.pushed config t packet registry q)) :
    ∃ s', (if ((s.pushed config t packet registry q).queues q).isEmpty then
        .ok (s.pushed config t packet registry q)
      else scheduler.handleCanPopPacket (s.pushed config t packet registry q)) = .ok s' ∧
      r.Inv s' := by
  have hwell : WellFormed config.classifier (s.pushed config t packet registry q) :=
    wellFormed_pushed h.well hnow hadmissible hdelta hclass
  by_cases hempty : (s.pushed config t packet registry q).queues q = []
  · rw [if_pos (List.isEmpty_iff.mpr hempty)]
    exact ⟨_, rfl, hwell, h.fits.pushed, hsilent hempty⟩
  · rw [if_neg (mt List.isEmpty_iff.mp hempty)]
    obtain ⟨timer, hresult, hinv⟩ := r.notified hwell h.fits.pushed (hnotified hempty)
    exact ⟨_, hresult, hinv⟩

/-- A push that empties the armed queue went there and leaves the timer unbacked. -/
theorem unbacked_of_push (hpending : r.Pending s msg T p) (henabled : Enabled s (.push t packet))
    (hempty : (s.pushed config t packet registry q).queues msg.collectionIdx = []) :
    msg.collectionIdx = q ∧ ¬ r.Backed (s.pushed config t packet registry q) := by
  constructor
  · by_contra hother
    have hp : p ∈ (s.pushed config t packet registry q).queues msg.collectionIdx :=
      r.stored (r.untouched hpending henabled hother)
    rw [hempty] at hp
    cases hp
  · intro hbacked
    have hmem : (msg, T) ∈ (s.pushed config t packet registry q).timer.events := by
      show (msg, T) ∈ s.timer.events
      rw [r.events hpending]
      exact List.mem_singleton_self _
    exact r.nonempty hbacked hmem hempty

theorem handle_push_cases (h : r.Inv s) (henabled : Enabled s (.push t packet))
    (hadmissible : Admissible (.push t packet)) :
    scheduler.handle config s (.push t packet) = .error (.classifier .endlessLoop) ∨
    ∃ s', scheduler.handle config s (.push t packet) = .ok s' ∧
      r.Outcome s (.push t packet) s' := by
  have hnow : s.now ≤ t := henabled.1
  rcases handle_push h.well.coherent with
    ⟨_, herror⟩ | ⟨delta, q, registry, hdelta, hclass, hhandle⟩
  · exact .inl herror
  right
  rw [hhandle]
  rcases h.timer with ⟨hself, hevents⟩ | ⟨msg, T, p, hpending⟩
  · have hnot : ¬ OversizeInFront config s (.push t packet) := by
      rintro ⟨pending, hmem, _⟩
      rw [hevents] at hmem
      cases hmem
    obtain ⟨s', hok, hinv⟩ := r.inv_of_push h hnow hadmissible hdelta hclass
      (fun _ => .inl ⟨hself, hevents⟩) (fun _ => r.disarmed hself hevents)
    exact ⟨s', hok, .inr ⟨hnot, hinv⟩⟩
  · have hiff := r.oversizeInFront_iff h hpending henabled hadmissible hdelta hclass
    by_cases hemptied : (s.pushed config t packet registry q).queues msg.collectionIdx = []
    · obtain ⟨hsame, hnot⟩ := r.unbacked_of_push hpending henabled hemptied
      rw [if_pos (List.isEmpty_iff.mpr (hsame ▸ hemptied))]
      exact ⟨_, rfl, .inl ⟨hiff.mpr hemptied, hnot⟩⟩
    · obtain ⟨s', hok, hinv⟩ := r.inv_of_push h hnow hadmissible hdelta hclass
        (fun hempty => by
          have hother : msg.collectionIdx ≠ q := by
            rintro rfl
            exact hemptied hempty
          exact .inr ⟨msg, T, p, r.untouched hpending henabled hother⟩)
        (fun _ => r.pushed h.well hpending henabled hadmissible hdelta hclass hemptied)
      exact ⟨s', hok, .inr ⟨mt hiff.mp hemptied, hinv⟩⟩

theorem handle_txIdle_cases (h : r.Inv s) (htime : s.now ≤ t) :
    s.txIdleCounter ≠ 0 ∧ scheduler.handle config s (.txIdle t) =
      .error (.receiveSignalTxIdleCounter (s.txIdleCounter + 1)) ∨
    ∃ s', scheduler.handle config s (.txIdle t) = .ok s' ∧ r.Inv s' := by
  by_cases hidle : s.txIdleCounter = 0
  · right
    have hn : r.Notifiable (s.idled t) := by
      rcases h.timer with ⟨hself, hevents⟩ | ⟨msg, T, p, hpending⟩
      · exact r.disarmed hself hevents
      · have := r.idle hpending
        omega
    have hwell := wellFormed_idled h.well htime
    obtain ⟨⟨_, hsweep⟩, _⟩ := r.notifies hwell hn
    obtain ⟨timer, hresult, hinv⟩ :=
      r.notified hwell (h.fits.sublist fun _ => List.Sublist.refl _) hn
    exact ⟨_, (handle_txIdle hidle hsweep).trans hresult, hinv⟩
  · exact .inl ⟨hidle, handle_txIdle_error hidle⟩

theorem handle_timer_cases (h : r.Inv s) (henabled : Enabled s (.timer t msg)) :
    scheduler.handle config s (.timer t msg) = .error .optionMissing ∨
    ∃ s', scheduler.handle config s (.timer t msg) = .ok s' ∧ r.Inv s' := by
  have hmem : (msg, t) ∈ s.timer.events := henabled.2.2
  rcases h.timer with ⟨_, hevents⟩ | ⟨msg', T, p, hpending⟩
  · rw [hevents] at hmem
    cases hmem
  · rw [r.events hpending, List.mem_singleton] at hmem
    obtain ⟨rfl, rfl⟩ := Prod.mk.inj hmem
    have hhandle := r.fires h.well hpending t
    cases hout : writeEDelay t p with
    | none =>
        rw [hout] at hhandle
        exact .inl hhandle
    | some out =>
        rw [hout] at hhandle
        exact .inr ⟨_, hhandle, wellFormed_fired h.well henabled.1 _ _ _ _,
          h.fits.sublist (fired_sublist s t _ p out _), .inl (r.disarm_ok s.timer)⟩

/-- A step that is possible is tolerated to fail, or has its outcome. -/
theorem handle_cases (h : r.Inv s) (henabled : Enabled s event) (hadmissible : Admissible event) :
    (∃ error, scheduler.handle config s event = .error error ∧ Tolerated s event error) ∨
    ∃ s', scheduler.handle config s event = .ok s' ∧ r.Outcome s event s' := by
  cases event with
  | push t packet =>
      rcases r.handle_push_cases h henabled hadmissible with herror | hok
      · exact .inl ⟨_, herror, .endlessLoop t packet⟩
      · exact .inr hok
  | txIdle t =>
      rcases r.handle_txIdle_cases h henabled.1 with ⟨hbusy, herror⟩ | ⟨s', hok, hinv⟩
      · exact .inl ⟨_, herror, .idleTwice t hbusy⟩
      · exact .inr ⟨s', hok, .inr ⟨id, hinv⟩⟩
  | timer t msg =>
      rcases r.handle_timer_cases h henabled with herror | ⟨s', hok, hinv⟩
      · exact .inl ⟨_, herror, .optionMissing t msg⟩
      · exact .inr ⟨s', hok, .inr ⟨id, hinv⟩⟩

theorem outcome_of_step (h : r.Inv s) (hstep : EgressStep scheduler config s event s') :
    r.Outcome s event s' := by
  obtain ⟨henabled, hadmissible, hok⟩ := hstep
  rcases r.handle_cases h henabled hadmissible with ⟨error, herror, _⟩ | ⟨t, hok', houtcome⟩
  · cases herror.symm.trans hok
  · cases hok'.symm.trans hok
    exact houtcome

theorem tolerated (h : r.Inv s) (henabled : Enabled s event) (hadmissible : Admissible event)
    {error : EgressError} (herror : scheduler.handle config s event = .error error) :
    Tolerated s event error := by
  rcases r.handle_cases h henabled hadmissible with ⟨error', herror', htolerated⟩ | ⟨_, hok, _⟩
  · cases herror'.symm.trans herror
    exact htolerated
  · cases hok.symm.trans herror

theorem inv_step (s : Egress) (event : EgressEvent) (s' : Egress) (h : r.Inv s)
    (hcondition : ¬ OversizeInFront config s event)
    (hstep : EgressStep scheduler config s event s') : r.Inv s' := by
  rcases r.outcome_of_step h hstep with ⟨hoversize, _⟩ | ⟨_, hinv⟩
  · exact absurd hoversize hcondition
  · exact hinv

/-! ## Runs -/

section

variable {count : Nat} {history : List (Transition Egress EgressEvent)}
  (hrun : EgressRun scheduler config count history s)

include hrun

theorem inv_run (hcondition : ∀ x ∈ history, ¬ OversizeInFront config x.pre x.event) :
    r.Inv s :=
  (hrun.conditional (r.inv_initial count) r.inv_step hcondition).1

/-- The timer is backed in all states of a run exactly when no step is a push of an
    oversize packet in front. -/
theorem run_backed_iff :
    (∀ x ∈ history, r.Backed x.post) ↔
      ∀ x ∈ history, ¬ OversizeInFront config x.pre x.event := by
  refine hrun.forall_iff_of_invariant (r.inv_initial count) r.inv_step (fun s h => h.backed) ?_
  intro s event s' h hstep hbacked
  rcases r.outcome_of_step h hstep with ⟨_, hnot⟩ | ⟨hcondition, _⟩
  · exact absurd hbacked hnot
  · exact hcondition

end

end Resilience

/-! ## The two schedulers -/

namespace DBFPriorityScheduler

/-- A pending timer names a queue with a packet. -/
def Backed (s : Egress) : Prop :=
  ∀ pending ∈ s.timer.events, s.queues pending.1.collectionIdx ≠ []

theorem backed_disarmed (hevents : s.timer.events = []) : Backed s := by
  unfold Backed
  simp [hevents]

theorem Pending.backed (hpending : Pending s msg T p) : Backed s := by
  unfold Backed
  rw [hpending.events, List.forall_mem_singleton]
  exact List.ne_nil_of_mem hpending.stored

theorem Pending.untouched (hpending : Pending s msg T p) (hother : msg.collectionIdx ≠ q) :
    Pending (s.pushed config t packet registry q) msg T p := by
  obtain ⟨rest, hqueue⟩ := hpending.queue
  refine ⟨hpending.selfMsg, hpending.events, hpending.idle, ⟨rest, ?_⟩, hpending.unexpired⟩
  rw [queues_pushed_of_ne hother]
  exact hqueue

theorem notified_pending {par : ClassifierParameters} (h : WellFormed par s) (hn : Notifiable s) :
    (∃ timer, dbfPriorityScheduler.lookForExpiredPackets s = .ok (s.swept timer)) ∧
    ∃ timer, dbfPriorityScheduler.handleCanPopPacket s = .ok (s.swept timer) ∧
      ((timer.selfMsg = none ∧ timer.events = []) ∨
        ∃ msg T p, Pending (s.swept timer) msg T p) := by
  obtain ⟨timer, hresult, hnotified⟩ := handleCanPopPacket_ok h hn
  refine ⟨sweeps h hn, timer, hresult, hnotified.rearmed.imp_right ?_⟩
  rintro ⟨msg, T, front, harmed⟩
  exact ⟨msg, T, front, harmed.pending (wellFormed_swept h timer)⟩

def disarm (timer : Timer) : Timer := { timer with selfMsg := none, events := [] }

theorem disarm_ok (timer : Timer) : (disarm timer).selfMsg = none ∧ (disarm timer).events = [] :=
  ⟨rfl, rfl⟩

theorem notifiable_disarmed (hself : s.timer.selfMsg = none) (hevents : s.timer.events = []) :
    Notifiable s :=
  .inl ⟨hself, hevents⟩

def resilience (config : EgressConfig) : Resilience dbfPriorityScheduler config where
  Pending := Pending
  Backed := Backed
  Notifiable := Notifiable
  disarm := disarm
  disarm_ok := disarm_ok
  events hpending := hpending.events
  idle hpending := hpending.idle
  stored hpending := hpending.stored
  unexpired hpending := hpending.unexpired
  backed hpending := hpending.backed
  backed_disarmed hevents := backed_disarmed hevents
  nonempty hbacked hmem := hbacked _ hmem
  disarmed hself hevents := notifiable_disarmed hself hevents
  untouched hpending _ hother := hpending.untouched hother
  pushed h hpending henabled hadmissible hdelta hclass hne :=
    notifiable_pushed h hpending henabled hadmissible hdelta hclass hne
  notifies := notified_pending
  fires h hpending t := fires h hpending t

end DBFPriorityScheduler

namespace DBFDynamicPriorityScheduler

/-- A pending timer names a queue in which `scheduledPacket` is stored. -/
def Backed (s : Egress) : Prop :=
  ∀ pending ∈ s.timer.events, ∃ p, s.timer.scheduledPacket = some p ∧
    p ∈ s.queues pending.1.collectionIdx

theorem backed_disarmed (hevents : s.timer.events = []) : Backed s := by
  unfold Backed
  simp [hevents]

theorem Pending.backed (hpending : Pending s msg T p) : Backed s := by
  unfold Backed
  rw [hpending.events, List.forall_mem_singleton]
  exact ⟨p, hpending.scheduled, hpending.stored⟩

theorem Backed.nonempty (hbacked : Backed s) (hmem : (msg, T) ∈ s.timer.events) :
    s.queues msg.collectionIdx ≠ [] := by
  obtain ⟨p, _, hp⟩ := hbacked _ hmem
  exact List.ne_nil_of_mem hp

theorem Pending.untouched (hpending : Pending s msg T p) (henabled : Enabled s (.push t packet))
    (hother : msg.collectionIdx ≠ q) :
    Pending (s.pushed config t packet registry q) msg T p := by
  obtain rfl : t = s.now := hpending.now_of_push henabled
  refine ⟨hpending.selfMsg, hpending.events, hpending.time, hpending.idle, hpending.scheduled,
    ?_, hpending.ready, hpending.unexpired⟩
  rw [queues_pushed_of_ne hother]
  exact hpending.stored

theorem notified_pending {par : ClassifierParameters} (h : WellFormed par s) (hn : Notifiable s) :
    (∃ timer, dbfDynamicPriorityScheduler.lookForExpiredPackets s = .ok (s.swept timer)) ∧
    ∃ timer, dbfDynamicPriorityScheduler.handleCanPopPacket s = .ok (s.swept timer) ∧
      ((timer.selfMsg = none ∧ timer.events = []) ∨
        ∃ msg T p, Pending (s.swept timer) msg T p) := by
  obtain ⟨timer, hresult, hnotified⟩ := handleCanPopPacket_ok h hn
  refine ⟨⟨_, lookForExpiredPackets_ok h hn⟩, timer, hresult, hnotified.rearmed.imp_right ?_⟩
  rintro ⟨msg, T, p, harmed⟩
  exact ⟨msg, T, p, harmed.pending⟩

def disarm (timer : Timer) : Timer :=
  { timer with selfMsg := none, scheduledPacket := none, events := [] }

theorem disarm_ok (timer : Timer) : (disarm timer).selfMsg = none ∧ (disarm timer).events = [] :=
  ⟨rfl, rfl⟩

theorem notifiable_disarmed (hself : s.timer.selfMsg = none) (hevents : s.timer.events = []) :
    Notifiable s :=
  .inl ⟨hself, hevents⟩

def resilience (config : EgressConfig) : Resilience dbfDynamicPriorityScheduler config where
  Pending := Pending
  Backed := Backed
  Notifiable := Notifiable
  disarm := disarm
  disarm_ok := disarm_ok
  events hpending := hpending.events
  idle hpending := hpending.idle
  stored hpending := hpending.stored
  unexpired hpending := hpending.time ▸ hpending.unexpired
  backed hpending := hpending.backed
  backed_disarmed hevents := backed_disarmed hevents
  nonempty hbacked hmem := hbacked.nonempty hmem
  disarmed hself hevents := notifiable_disarmed hself hevents
  untouched hpending henabled hother := hpending.untouched henabled hother
  pushed h hpending henabled hadmissible hdelta hclass hne :=
    notifiable_pushed h hpending henabled hadmissible hdelta hclass hne
  notifies := notified_pending
  fires h hpending t := fires h hpending t

end DBFDynamicPriorityScheduler

/-- **The armed timer and evictions.**  In a run of an egress with either scheduler, on
    queues with any limits:

    * every pending timer is backed by its queue, in all states, exactly when no push
      brings an oversize packet to the front of the armed queue;
    * and then no event that comes next ends in an error but a tolerated one, so no timer
      fires for an empty queue or an evicted packet, and no sweep reads an empty queue. -/
theorem armed_timer_iff (config : EgressConfig) (count : Nat)
    (history : List (Transition Egress EgressEvent)) (s : Egress) :
    (EgressRun dbfPriorityScheduler config count history s →
      ((∀ x ∈ history, DBFPriorityScheduler.Backed x.post) ↔
        ∀ x ∈ history, ¬ OversizeInFront config x.pre x.event) ∧
      ((∀ x ∈ history, ¬ OversizeInFront config x.pre x.event) →
        ∀ event error, Enabled s event → Admissible event →
          dbfPriorityScheduler.handle config s event = .error error →
          Tolerated s event error)) ∧
    (EgressRun dbfDynamicPriorityScheduler config count history s →
      ((∀ x ∈ history, DBFDynamicPriorityScheduler.Backed x.post) ↔
        ∀ x ∈ history, ¬ OversizeInFront config x.pre x.event) ∧
      ((∀ x ∈ history, ¬ OversizeInFront config x.pre x.event) →
        ∀ event error, Enabled s event → Admissible event →
          dbfDynamicPriorityScheduler.handle config s event = .error error →
          Tolerated s event error)) := by
  constructor
  · intro hrun
    let r := DBFPriorityScheduler.resilience config
    refine ⟨r.run_backed_iff hrun, fun hcondition event error henabled hadmissible herror => ?_⟩
    exact r.tolerated (r.inv_run hrun hcondition) henabled hadmissible herror
  · intro hrun
    let r := DBFDynamicPriorityScheduler.resilience config
    refine ⟨r.run_backed_iff hrun, fun hcondition event error henabled hadmissible herror => ?_⟩
    exact r.tolerated (r.inv_run hrun hcondition) henabled hadmissible herror

/-! Queues for 1000 bits, and packets of 800 and of 2000. -/

def sampleEvictionConfig : EgressConfig :=
  { classifier := ⟨1, 10⟩, capacity := fun _ => { dataCapacity := some 1000 } }

def sampleOversize (tRcv dMin dMax : SimTime) : Packet :=
  { samplePacket tRcv dMin dMax with bitLength := 2000 }

/-- An oversize packet behind the armed one is dropped alone. -/
theorem armed_timer_sample : ∃ history s,
    EgressRun dbfPriorityScheduler sampleEvictionConfig 0 history s ∧
    s.log.dropped.length = 1 ∧ s.timer.events.length = 1 ∧
    ∀ x ∈ history, DBFPriorityScheduler.Backed x.post := by
  obtain ⟨history, s, hrun, hcondition, _, hdropped⟩ := Run.exists_of_guarded_replay
    (egressStep_of_next dbfPriorityScheduler sampleEvictionConfig)
    (show (replay (fun s event => if ¬ OversizeInFront sampleEvictionConfig s event then
        egressNext dbfPriorityScheduler sampleEvictionConfig s event else none)
      (Egress.initial 0)
      [.txIdle 0, .push 0 (samplePacket 0 1 3), .push (1 / 2) (sampleOversize (1 / 2) 1 3)]).any
      (fun s => s.log.dropped.length == 1 && s.timer.events.length == 1) = true by decide +kernel)
  simp only [Bool.and_eq_true, beq_iff_eq] at hdropped
  have h := (armed_timer_iff sampleEvictionConfig 0 history s).1 hrun
  exact ⟨history, s, hrun, hdropped.1, hdropped.2, h.1.mpr hcondition⟩

/-- A timer is pending for `msg`, its queue is empty, and its delivery ends in `error`. -/
def firesInVain (scheduler : Scheduler) (config : EgressConfig) (msg : DBFPriorityScheduleMsg)
    (error : EgressError) (s : Egress) : Bool :=
  decide (Enabled s (.timer 2 msg)) && (s.queues msg.collectionIdx).isEmpty &&
    match scheduler.handle config s (.timer 2 msg) with
    | .error e => e == error
    | .ok _ => false

theorem firesInVain_iff {scheduler : Scheduler} {error : EgressError} :
    firesInVain scheduler config msg error s = true ↔
      Enabled s (.timer 2 msg) ∧ s.queues msg.collectionIdx = [] ∧
        scheduler.handle config s (.timer 2 msg) = .error error := by
  unfold firesInVain
  cases scheduler.handle config s (.timer 2 msg) with
  | ok t => simp
  | error e => simp [and_assoc]

/-- An oversize packet in front takes the armed one with it. -/
theorem armed_timer_fails :
    (∃ history s msg, EgressRun dbfPriorityScheduler sampleEvictionConfig 0 history s ∧
      history.map Transition.event = [.txIdle 0, .push 1 (samplePacket 1 1 3),
        .push 1 (sampleOversize 0 1 3)] ∧
      ¬ DBFPriorityScheduler.Backed s ∧ Enabled s (.timer 2 msg) ∧
      dbfPriorityScheduler.handle sampleEvictionConfig s (.timer 2 msg) =
        .error .popFromEmptyQueue) ∧
    ∃ history s msg, EgressRun dbfDynamicPriorityScheduler sampleEvictionConfig 0 history s ∧
      history.map Transition.event = [.txIdle 0, .push 2 (samplePacket 1 1 3),
        .push 2 (sampleOversize 0 1 3)] ∧
      ¬ DBFDynamicPriorityScheduler.Backed s ∧ Enabled s (.timer 2 msg) ∧
      dbfDynamicPriorityScheduler.handle sampleEvictionConfig s (.timer 2 msg) =
        .error .packetNotQueued := by
  constructor
  · obtain ⟨history, s, hrun, hevents, hvain⟩ := Run.exists_of_replay
      (egressStep_of_next dbfPriorityScheduler sampleEvictionConfig)
      (show (replay (egressNext dbfPriorityScheduler sampleEvictionConfig) (Egress.initial 0)
        [.txIdle 0, .push 1 (samplePacket 1 1 3), .push 1 (sampleOversize 0 1 3)]).any
        (firesInVain dbfPriorityScheduler sampleEvictionConfig ⟨0, 0⟩ .popFromEmptyQueue) = true
        by decide +kernel)
    obtain ⟨henabled, hempty, herror⟩ := firesInVain_iff.mp hvain
    exact ⟨history, s, ⟨0, 0⟩, hrun, hevents, fun hbacked => hbacked _ henabled.2.2 hempty,
      henabled, herror⟩
  · obtain ⟨history, s, hrun, hevents, hvain⟩ := Run.exists_of_replay
      (egressStep_of_next dbfDynamicPriorityScheduler sampleEvictionConfig)
      (show (replay (egressNext dbfDynamicPriorityScheduler sampleEvictionConfig)
        (Egress.initial 0)
        [.txIdle 0, .push 2 (samplePacket 1 1 3), .push 2 (sampleOversize 0 1 3)]).any
        (firesInVain dbfDynamicPriorityScheduler sampleEvictionConfig ⟨0, 0⟩ .packetNotQueued) =
        true by decide +kernel)
    obtain ⟨henabled, hempty, herror⟩ := firesInVain_iff.mp hvain
    refine ⟨history, s, ⟨0, 0⟩, hrun, hevents, fun hbacked => ?_, henabled, herror⟩
    obtain ⟨p, _, hp⟩ := hbacked _ henabled.2.2
    rw [hempty] at hp
    cases hp

end DelayBasedForwarding
