import DelayBasedForwarding.Attention
import DelayBasedForwarding.Interfaces
import DelayBasedForwarding.NetworkConservation
import Mathlib.Data.Finset.Max

/-!
# Networks drain

Where the routing has no loops, every event but an encapsulation brings a network nearer
to the end of its work: a packet has a bounded number of hops before it, and each hop a
bounded number of events.  And as long as there is work, some event is possible.  So a
network that gets no new datagrams delivers, refuses, drops or deletes what it has, but
for what a dynamic scheduler leaves waiting.
-/

namespace DelayBasedForwarding

open DBFComputer TransitionRuns

/-- The event brings a new datagram. -/
def NetworkEvent.Brings {N P : Type} : NetworkEvent N P → Prop
  | .encapsulate _ _ _ => True
  | .sendPacketToNIC _ _ _ => False
  | .txIdle _ _ => False
  | .timer _ _ _ => False
  | .receive _ _ => False

namespace Network

variable {N P : Type}

/-! ## Routing -/

/-- Routing by content.  `serves c n` says that a packet of content `c` may have to be sent
    at node `n`; it is then handed to the interface `next c n`, and `rank` bounds the hops
    that are left. -/
structure Routing (net : Network N P) where
  serves : Packet → N → Prop
  next : Packet → N → P
  rank : Packet → N → Nat
  node : ∀ c n, serves c n → (net.networkInterface (next c n)).node = n
  rows : ∀ c n, serves c n → net.HasRows (next c n) c
  exits : ∀ c n, serves c n → ∀ tag,
    LoopExits (net.networkInterface (next c n)).config.classifier tag
  lower : ∀ c n, serves c n → rank c (net.networkInterface (next c n)).peer < rank c n
  forwards : ∀ c n, serves c n →
    net.isLocal (net.networkInterface (next c n)).peer c = false →
    serves c (net.networkInterface (next c n)).peer

variable {net : Network N P} (R : net.Routing)

/-- The network layers route by `R`, and datagrams are encapsulated where it serves them. -/
def Routing.Follows : NetworkEvent N P → Prop
  | .encapsulate _ node datagram => R.serves datagram.content node
  | .sendPacketToNIC _ p packet =>
      R.next packet.content (net.networkInterface p).node = p
  | .txIdle _ _ => True
  | .timer _ _ _ => True
  | .receive _ _ => True

variable {R} {s s' : NetworkState N P} {event : NetworkEvent N P} {p : P} {packet queued : Packet}

theorem isLocal_of_content {node : N} (h : queued.content = packet.content) :
    net.isLocal node queued = net.isLocal node packet := by
  have haddresses := addresses_of_content h
  unfold Packet.addresses at haddresses
  unfold isLocal
  cases hqueued : queued.ipv4Header with
  | none =>
      rw [hqueued, Option.map_none, eq_comm, Option.map_eq_none_iff] at haddresses
      rw [haddresses]
  | some header =>
      rw [hqueued, Option.map_some, eq_comm, Option.map_eq_some_iff] at haddresses
      obtain ⟨header', hheader', heq⟩ := haddresses
      rw [hheader']
      simp only [(Prod.mk.inj heq).2]

theorem content_idem (packet : Packet) : packet.content.content = packet.content := by
  unfold Packet.content
  cases packet.ipv4Header <;> simp

theorem hasRows_of_content [DecidableEq N] [DecidableEq P] (h : net.HasRows p packet.content) :
    net.HasRows p packet := by
  intro header hheader
  exact h (removeDBFIpv4Options header) (by simp [Packet.content, hheader])

/-- Where `R` serves the packets of a network. -/
structure Served (R : net.Routing) (s : NetworkState N P) : Prop where
  inside : ∀ x ∈ s.inside, R.serves x.2.content x.1
  queued : ∀ p q, ∀ packet ∈ (s.egress p).queues q,
    R.serves packet.content (net.networkInterface p).node ∧
      R.next packet.content (net.networkInterface p).node = p
  links : ∀ frame ∈ s.links,
    R.serves frame.packet.content (net.networkInterface frame.port).node ∧
      R.next frame.packet.content (net.networkInterface frame.port).node = frame.port

theorem served_initial (R : net.Routing) : Served R net.initial := by
  constructor <;> simp [Network.initial, Egress.initial]

variable [DecidableEq N] [DecidableEq P]

theorem Served.step (hsound : net.Sound s) (h : Served R s) (hfollows : R.Follows event)
    (heffect : NetworkEffect net s event s') : Served R s' := by
  have hcarried := Carried.step hsound ⟨h.inside, h.queued, h.links⟩ heffect
    (I := fun node packet => R.serves packet.content node) ?_ ?_ ?_ ?_
  · exact ⟨hcarried.inside, hcarried.queued, hcarried.links⟩
  · rintro t node datagram packet rfl hfresh hpacket
    obtain ⟨packet', hok, hcontent, _⟩ := encapsulate_spec (net.computer node) t hfresh
    cases hok.symm.trans hpacket
    rw [hcontent]
    exact hfollows
  · rintro t p packet queued id rfl hmem _ hcontent
    rw [content_with_id, hcontent]
    exact ⟨h.inside _ hmem, hfollows⟩
  · intro t p q collectionIdx stored out hmem _ _ hcontent _
    have hserved := h.queued p q _ hmem
    rw [← hcontent] at hserved
    exact hserved
  · intro frame received hframe _ hcontent hlocal
    obtain ⟨hserves, hnext⟩ := h.links frame hframe
    have hforwards := R.forwards _ _ hserves
    rw [hnext, isLocal_of_content (content_idem frame.packet),
      ← isLocal_of_content hcontent] at hforwards
    rw [hcontent]
    exact hforwards hlocal

/-! ## Work

A packet inside a node costs one event more than in a queue, and a packet in a queue more
than two events more than on the link, which pays for the next idle signal. -/

section

omit [DecidableEq N] [DecidableEq P]

def insideWork (R : net.Routing) (x : N × Packet) : Nat := 4 * R.rank x.2.content x.1 + 1

def queueWork (R : net.Routing) (p : P) (packet : Packet) : Nat :=
  4 * R.rank packet.content (net.networkInterface p).node

def linkWork (R : net.Routing) (frame : Frame P) : Nat :=
  4 * R.rank frame.packet.content (net.networkInterface frame.port).peer + 2

/-- The packets in the queues, and the idle signal that is still to come. -/
def egressWork (R : net.Routing) (p : P) (egress : Egress) : Nat :=
  ((egress.stored : Multiset Packet).map (queueWork R p)).sum + (1 - egress.txIdleCounter)

def work [Fintype P] (R : net.Routing) (s : NetworkState N P) : Nat :=
  (s.inside.map (insideWork R)).sum + (∑ p, egressWork R p (s.egress p)) +
    (s.links.map (linkWork R)).sum

theorem sum_erase {α : Type} [BEq α] [LawfulBEq α] (f : α → Nat) {l : List α} {x : α}
    (hx : x ∈ l) : (l.map f).sum = f x + ((l.erase x).map f).sum := by
  have herase := congrArg Multiset.sum (Pools.map_erase f hx)
  simpa [add_comm] using herase

/-- What is left in the queues by a push or an idle signal was there or is pushed. -/
theorem queueWork_le (hsound : net.Sound s) {e : EgressEvent} {egress : Egress}
    (hstep : net.PortStep p (s.egress p) e egress) (hnot : ∀ t msg, e ≠ .timer t msg) :
    ((egress.stored : Multiset Packet).map (queueWork R p)).sum ≤
      (((s.egress p).stored : Multiset Packet).map (queueWork R p)).sum +
        ((e.arriving (s.egress p) : Multiset Packet).map (queueWork R p)).sum := by
  obtain ⟨lost, hbalance, _⟩ := hsound.exists_lost hstep hnot
  rw [← Multiset.sum_add, ← Multiset.map_add, hbalance, Multiset.map_add, Multiset.sum_add]
  exact Nat.le_add_right _ _

theorem egressWork_push (hsound : net.Sound s) {t : SimTime} {egress : Egress}
    (hstep : net.PortStep p (s.egress p) (.push t queued) egress) :
    egressWork R p egress ≤ egressWork R p (s.egress p) + queueWork R p queued := by
  have hqueues := @queueWork_le _ _ _ R _ p hsound _ _ hstep (by simp)
  have hcounter : egress.txIdleCounter = (s.egress p).txIdleCounter := by
    cases hsound.portEffect hstep with
    | push timer hdelta hclass => rfl
  rw [EgressEvent.arriving, Multiset.coe_singleton, Multiset.map_singleton,
    Multiset.sum_singleton] at hqueues
  have hsame : queueWork R p { queued with id := (s.egress p).nextPacket } =
      queueWork R p queued := rfl
  unfold egressWork
  omega

theorem egressWork_txIdle (hsound : net.Sound s) {t : SimTime} {egress : Egress}
    (hstep : net.PortStep p (s.egress p) (.txIdle t) egress) :
    egressWork R p egress < egressWork R p (s.egress p) := by
  have hqueues := @queueWork_le _ _ _ R _ p hsound _ _ hstep (by simp)
  have hcounter : (s.egress p).txIdleCounter = 0 ∧ egress.txIdleCounter = 1 := by
    cases hsound.portEffect hstep with
    | txIdle timer hidle => exact ⟨hidle, rfl⟩
  rw [EgressEvent.arriving, Multiset.coe_nil, Multiset.map_zero, Multiset.sum_zero] at hqueues
  unfold egressWork
  omega

theorem egressWork_timer (hsound : net.Sound s) {t : SimTime} {msg : DBFPriorityScheduleMsg}
    {egress : Egress} {sent : SentPacket}
    (hstep : net.PortStep p (s.egress p) (.timer t msg) egress)
    (hsent : egress.log.sent = (s.egress p).log.sent ++ [sent]) :
    egressWork R p egress + queueWork R p sent.packet = egressWork R p (s.egress p) + 1 := by
  obtain ⟨_, hmatch, _, hwrite, _, hstored⟩ := exists_stored hsound hstep hsent
  obtain ⟨out, hok, hcontent, _⟩ := writeEDelay_spec t hmatch
  cases hok.symm.trans hwrite
  have hcounter : (s.egress p).txIdleCounter = 1 ∧ egress.txIdleCounter = 0 := by
    cases hsound.portEffect hstep with
    | timer timer hevents hidle => exact ⟨hidle, rfl⟩
  unfold egressWork
  rw [hstored, Multiset.map_cons, Multiset.sum_cons, queueWork, queueWork, hcontent]
  omega

end

variable [Fintype P]

omit [DecidableEq N] in
theorem sum_egressWork (egress : Egress) :
    (∑ a, egressWork R a (Function.update s.egress p egress a)) + egressWork R p (s.egress p) =
      (∑ a, egressWork R a (s.egress a)) + egressWork R p egress :=
  Pools.sum_update (egressWork R) s.egress p egress

/-- **Every event but an encapsulation is work done.** -/
theorem work_lt (hsound : net.Sound s) (hserved : Served R s) (hfollows : R.Follows event)
    (hnone : ¬ event.Brings) (heffect : NetworkEffect net s event s') : work R s' < work R s := by
  cases heffect with
  | encapsulate hfresh hpacket => exact absurd trivial hnone
  | refuse hmem hsend =>
      have hinside := sum_erase (insideWork R) hmem
      simp only [work, insideWork] at hinside ⊢
      omega
  | @push t p packet queued egress hmem hsend hqueued hcontent hstep =>
      have hinside := sum_erase (insideWork R) hmem
      have hport := @egressWork_push _ _ _ R _ _ _ hsound _ _ hstep
      have hsum := @sum_egressWork _ _ _ R s p _ _ egress
      have hqueue : queueWork R p queued + 1 =
          insideWork R ((net.networkInterface p).node, packet) := by
        rw [queueWork, insideWork, hcontent]
      simp only [work]
      omega
  | @txIdle t p egress hstep =>
      have hport := @egressWork_txIdle _ _ _ R _ _ hsound _ _ hstep
      have hsum := @sum_egressWork _ _ _ R s p _ _ egress
      simp only [work]
      omega
  | @timer t p msg egress sent hstep hsent =>
      have hport := @egressWork_timer _ _ _ R _ _ hsound _ _ _ _ hstep hsent
      have hsum := @sum_egressWork _ _ _ R s p _ _ egress
      have hlink : linkWork R (net.transmit p sent) + 2 ≤ queueWork R p sent.packet := by
        obtain ⟨_, hmatch, ⟨q, hmem⟩, hwrite, _⟩ := exists_stored hsound hstep hsent
        obtain ⟨out, hok, hcontent, _⟩ := writeEDelay_spec t hmatch
        cases hok.symm.trans hwrite
        obtain ⟨hserves, hnext⟩ := hserved.queued p q _ hmem
        have hlower := R.lower _ _ hserves
        rw [hnext, ← hcontent] at hlower
        simp only [linkWork, transmit, queueWork]
        omega
      simp only [work, List.map_append, List.sum_append, List.map_singleton, List.sum_singleton]
      omega
  | deliver hframe harrival hreceived hlocal =>
      have hlinks := sum_erase (linkWork R) hframe
      simp only [work, linkWork] at hlinks ⊢
      omega
  | @forward t frame received hframe harrival hreceived hlocal =>
      have hlinks := sum_erase (linkWork R) hframe
      obtain ⟨received', hok, hcontent, _⟩ := ingress_spec t (hsound.links frame hframe).1
      cases hok.symm.trans hreceived
      have hinside : insideWork R ((net.networkInterface frame.port).peer, received) + 1 =
          linkWork R frame := by
        rw [insideWork, linkWork, hcontent]
      simp only [work, List.map_append, List.sum_append, List.map_singleton, List.sum_singleton]
      omega

/-! ## Progress -/

/-- Nothing is under way, and what is left in a queue its scheduler has looked at. -/
structure Drained (net : Network N P) (s : NetworkState N P) : Prop where
  inside : s.inside = []
  links : s.links = []
  queues : ∀ p q, ∀ packet ∈ (s.egress p).queues q,
    (net.networkInterface p).schedulerType.Leaves (s.egress p) packet

/-- When the next timer fires or the next packet arrives. -/
def due (s : NetworkState N P) : Finset SimTime :=
  (s.links.map Frame.arrival).toFinset ∪
    Finset.univ.biUnion fun p => ((s.egress p).timer.events.map Prod.snd).toFinset

omit [DecidableEq N] [DecidableEq P] in
theorem mem_due {t : SimTime} :
    t ∈ due s ↔ (∃ frame ∈ s.links, frame.arrival = t) ∨
      ∃ p msg, (msg, t) ∈ (s.egress p).timer.events := by
  simp [due]

/-- The earliest of what is due is possible, and does not fail. -/
theorem exists_due (hsound : net.Sound s) (hdue : (due s).Nonempty) :
    ∃ event s', net.Step s event s' ∧ R.Follows event ∧ ¬ event.Brings := by
  have hmin := (due s).min'_mem hdue
  have hle : ∀ t ∈ due s, (due s).min' hdue ≤ t := fun t ht => (due s).min'_le t ht
  generalize (due s).min' hdue = t at hmin hle
  have htimers : ∀ p, ∀ pending ∈ (s.egress p).timer.events, t ≤ pending.2 :=
    fun p pending hpending => hle _ (mem_due.mpr (.inr ⟨p, pending.1, hpending⟩))
  have hlinks : ∀ frame ∈ s.links, t ≤ frame.arrival :=
    fun frame hframe => hle _ (mem_due.mpr (.inl ⟨frame, hframe, rfl⟩))
  rcases mem_due.mp hmin with ⟨frame, hframe, rfl⟩ | ⟨p, msg, hpending⟩
  · have henabled : net.Enabled s (.receive frame.arrival frame) :=
      ⟨(hsound.links frame hframe).2.1, htimers, hlinks, hframe, rfl⟩
    obtain ⟨s', hok⟩ := handle_receive hsound henabled
    exact ⟨_, s', ⟨henabled, hok⟩, trivial, fun h => h⟩
  · have henabled : net.Enabled s (.timer t p msg) :=
      ⟨hsound.timers p _ hpending, htimers, hlinks, hpending⟩
    obtain ⟨s', hok⟩ := handleEgress_timer hsound henabled
    exact ⟨_, s', ⟨henabled, hok⟩, trivial, fun h => h⟩

/-- **Progress.**  Until the network is drained, some event is possible. -/
theorem exists_step (hsound : net.Sound s) (hserved : Served R s) (hleft : ¬ Drained net s) :
    ∃ event s', net.Step s event s' ∧ R.Follows event ∧ ¬ event.Brings := by
  have hnow : ∀ frame ∈ s.links, s.now ≤ frame.arrival :=
    fun frame hframe => (hsound.links frame hframe).2.1
  by_cases hdue : (due s).Nonempty
  · exact exists_due hsound hdue
  · cases hinside : s.inside with
    | cons x rest =>
        obtain ⟨node, packet⟩ := x
        have hmem : (node, packet) ∈ s.inside := by simp [hinside]
        have hserves := hserved.inside _ hmem
        have hnode := R.node _ _ hserves
        have henabled : net.Enabled s (.sendPacketToNIC s.now (R.next packet.content node)
            packet) := by
          refine ⟨le_rfl, hsound.timers, hnow, ?_⟩
          show ((net.networkInterface (R.next packet.content node)).node, packet) ∈ s.inside
          rwa [hnode]
        rcases handle_sendPacketToNIC hsound henabled with ⟨_, hnot, _⟩ | ⟨_, s', hok⟩
        · exact absurd ⟨hasRows_of_content (R.rows _ _ hserves),
            fun _ _ tag _ => R.exits _ _ hserves tag⟩ hnot
        · refine ⟨_, s', ⟨henabled, hok⟩, ?_, fun h => h⟩
          show R.next packet.content _ = _
          rw [hnode]
    | nil =>
        by_cases hidle : ∃ p, (s.egress p).txIdleCounter = 0
        · obtain ⟨p, hcounter⟩ := hidle
          have henabled : net.Enabled s (.txIdle s.now p) := by
            have hsignals := (hsound.port p).2.1.signals
            refine ⟨le_rfl, hsound.timers, hnow, ?_⟩
            show (s.egress p).log.idleSignals = (s.egress p).log.sent.length
            omega
          obtain ⟨s', hok⟩ := handleEgress_txIdle hsound henabled
          exact ⟨_, s', ⟨henabled, hok⟩, trivial, fun h => h⟩
        · -- idle links without timers: the schedulers have looked at what is queued
          have hnothing : ∀ t, t ∉ due s := by
            rwa [Finset.not_nonempty_iff_eq_empty, Finset.eq_empty_iff_forall_notMem] at hdue
          refine absurd ⟨hinside, ?_, fun p => ?_⟩ hleft
          · rw [List.eq_nil_iff_forall_not_mem]
            exact fun frame hframe => hnothing _ (mem_due.mpr (.inl ⟨frame, hframe, rfl⟩))
          · obtain ⟨history, hrun⟩ := hsound.egress p
            have hcounter := (hsound.port p).2.1.idle
            apply (net.networkInterface p).schedulerType.run_attended
              (net.networkInterface p).keepsOne hrun
            · have hbusy := not_exists.mp hidle p
              omega
            · rw [List.eq_nil_iff_forall_not_mem]
              exact fun pending hpending =>
                hnothing _ (mem_due.mpr (.inr ⟨p, pending.1, hpending⟩))

/-! ## Over runs -/

/-- A step that brings no new datagram. -/
def WorkStep (R : net.Routing) (s : NetworkState N P) (event : NetworkEvent N P)
    (s' : NetworkState N P) : Prop :=
  net.Step s event s' ∧ R.Follows event ∧ ¬ event.Brings

/-- Everything that was encapsulated is delivered, or logged as lost. -/
def Settled (s : NetworkState N P) : Prop :=
  contents (s.log.encapsulated.map fun x => x.2.2) =
    contents (s.log.delivered.map fun x => x.2.2) +
    contents (s.log.refused.map fun x => x.2.2) +
    ∑ p, (contents (s.egress p).log.dropped + contents ((s.egress p).log.expired.map Prod.snd))

omit [DecidableEq N] [DecidableEq P] in
theorem Drained.settled (h : Drained net s) (hlogged : net.Logged s)
    (hstatic : ∀ p, (net.networkInterface p).schedulerType = .dbfPriorityScheduler) :
    Settled s := by
  have hunsent : ∀ p, contents (s.egress p).unsent =
      contents (s.egress p).log.dropped + contents ((s.egress p).log.expired.map Prod.snd) := by
    intro p
    have hstored : (s.egress p).stored = [] := by
      rw [List.eq_nil_iff_forall_not_mem]
      intro packet hpacket
      obtain ⟨q, _, hq⟩ := Pools.mem_pool.mp hpacket
      have hleaves := h.queues p q packet hq
      rw [hstatic p] at hleaves
      exact hleaves
    simp [Egress.unsent, hstored]
  have hbalance := hlogged.balance
  rw [places, h.inside, h.links] at hbalance
  simp only [hunsent, List.map_nil, contents_nil, zero_add, add_zero] at hbalance
  rw [Settled, hbalance]
  abel

/-- What the runs keep. -/
theorem working_run {history : List (Transition (NetworkState N P) (NetworkEvent N P))}
    (hrun : net.NetworkRun history s) (hfollows : ∀ x ∈ history, R.Follows x.event) :
    net.Sound s ∧ net.Logged s ∧ Served R s :=
  (hrun.conditional (I := fun s => net.Sound s ∧ net.Logged s ∧ Served R s)
    (C := fun _ event => R.Follows event)
    ⟨sound_initial net, logged_initial net, served_initial R⟩
    (fun _ _ _ ⟨hsound, hlogged, hserved⟩ hfollows hstep =>
      have heffect := hsound.effect hstep
      ⟨hsound.step hstep, hlogged.step hsound heffect, hserved.step hsound hfollows heffect⟩)
    hfollows).1

theorem workStep_kept (event : NetworkEvent N P)
    (h : net.Sound s ∧ net.Logged s ∧ Served R s) (hstep : WorkStep R s event s') :
    (net.Sound s' ∧ net.Logged s' ∧ Served R s') ∧ work R s' < work R s := by
  obtain ⟨hsound, hlogged, hserved⟩ := h
  obtain ⟨hstep, hfollows, hnone⟩ := hstep
  have heffect := hsound.effect hstep
  exact ⟨⟨hsound.step hstep, hlogged.step hsound heffect, hserved.step hsound hfollows heffect⟩,
    work_lt hsound hserved hfollows hnone heffect⟩

/-- **Networks drain.**  From every state a network reaches, when it gets no new datagrams
    and its routing has no loops:

    * it handles no more events than the work it has, whatever their order;
    * when it cannot go on, nothing is inside a node or on a link, and what is left in a
      queue is a packet that was not ready when a dynamic scheduler last looked at it;
    * with static schedulers only, every datagram has then been delivered, refused, dropped
      or deleted as expired;
    * and it can always go on until then. -/
theorem network_drains (net : Network N P) (R : net.Routing)
    (history : List (Transition (NetworkState N P) (NetworkEvent N P))) (s : NetworkState N P)
    (hrun : net.NetworkRun history s) (hfollows : ∀ x ∈ history, R.Follows x.event) :
    (∀ history' s', Run (WorkStep R) s history' s' →
      history'.length + work R s' ≤ work R s ∧
      ((∀ event s'', ¬ WorkStep R s' event s'') → Drained net s' ∧
        ((∀ p, (net.networkInterface p).schedulerType = .dbfPriorityScheduler) →
          Settled s'))) ∧
    ∃ history' s', Run (WorkStep R) s history' s' ∧ Drained net s' := by
  have hinv := working_run hrun hfollows
  have hprogress : ∀ s, net.Sound s ∧ net.Logged s ∧ Served R s → ¬ Drained net s →
      ∃ event s', WorkStep R s event s' :=
    fun s h hleft => exists_step h.1 h.2.2 hleft
  refine ⟨fun history' s' hrun' => ?_, ?_⟩
  · obtain ⟨hend, hbefore⟩ := hrun'.invariant (I := fun s =>
      net.Sound s ∧ net.Logged s ∧ Served R s) hinv
      fun s event s' h hstep => (workStep_kept event h hstep).1
    refine ⟨hrun'.length_add_rank_le fun x hx =>
      (workStep_kept x.event (hbefore x hx).1 (hrun'.step_of_mem x hx)).2, fun hstuck => ?_⟩
    have hdrained : Drained net s' := by
      by_contra hleft
      obtain ⟨event, s'', hstep⟩ := hprogress s' hend hleft
      exact hstuck event s'' hstep
    exact ⟨hdrained, hdrained.settled hend.2.1⟩
  · obtain ⟨history', s', hrun', _, hdrained⟩ := exists_run_to
      (fun s event s' h hstep => workStep_kept event h hstep) hprogress s hinv
    exact ⟨history', s', hrun', hdrained⟩

/-! ### The sample datagram over two hops -/

theorem sampleDatagram_hasRows : ∀ p : Fin 2, sampleNetwork.HasRows p sampleDatagram.content
  | 0, _, hheader => by
      cases hheader
      exact ⟨{ hops := 0, lDelay := 0, hDelay := 0, fromDelay := 0, toDelay := 0 },
        { hops := 2, lDelay := 1, hDelay := 1, fromDelay := 2, toDelay := 2 },
        by decide +kernel, by decide +kernel, by decide⟩
  | 1, _, hheader => by
      cases hheader
      exact ⟨{ hops := 1, lDelay := 1, hDelay := 1, fromDelay := 1, toDelay := 1 },
        { hops := 1, lDelay := 1, hDelay := 1, fromDelay := 1, toDelay := 1 },
        by decide +kernel, by decide +kernel, by decide⟩

theorem sampleNetwork_config : ∀ p : Fin 2, (sampleNetwork.networkInterface p).config = sampleConfig
  | 0 => rfl
  | 1 => rfl

theorem sampleNext_lower : ∀ n : Fin 3, n.val ≠ 2 →
    (sampleNetwork.networkInterface (sampleNext n)).node = n ∧
      2 - (sampleNetwork.networkInterface (sampleNext n)).peer.val < 2 - n.val
  | 0, _ => ⟨rfl, by decide +kernel⟩
  | 1, _ => ⟨rfl, by decide +kernel⟩
  | 2, h => absurd rfl h

theorem sampleNext_forwards : ∀ n : Fin 3, n.val ≠ 2 →
    sampleNetwork.isLocal (sampleNetwork.networkInterface (sampleNext n)).peer
      sampleDatagram.content = false →
    (sampleNetwork.networkInterface (sampleNext n)).peer.val ≠ 2
  | 0, _, _ => by decide +kernel
  | 1, _, hlocal => absurd hlocal (by decide +kernel)
  | 2, h, _ => absurd rfl h

theorem sampleInterface_exits (p : Fin 2) (tag : DBFHeaderTag) :
    LoopExits (sampleNetwork.networkInterface p).config.classifier tag := by
  rw [sampleNetwork_config]
  exact loopExits_iff.mpr (.inl (by decide +kernel))

theorem sampleServes_forwards (c : Packet) (n : Fin 3)
    (h : c = sampleDatagram.content ∧ n.val ≠ 2)
    (hlocal : sampleNetwork.isLocal (sampleNetwork.networkInterface (sampleNext n)).peer c =
      false) :
    c = sampleDatagram.content ∧ (sampleNetwork.networkInterface (sampleNext n)).peer.val ≠ 2 :=
  ⟨h.1, sampleNext_forwards n h.2 (h.1 ▸ hlocal)⟩

def sampleRouting : sampleNetwork.Routing :=
  { serves := fun c n => c = sampleDatagram.content ∧ n.val ≠ 2,
    next := fun _ n => sampleNext n,
    rank := fun _ n => 2 - n.val,
    node := fun _ n h => (sampleNext_lower n h.2).1,
    rows := fun _ n h => h.1 ▸ sampleDatagram_hasRows (sampleNext n),
    exits := fun _ n _ tag => sampleInterface_exits (sampleNext n) tag,
    lower := fun _ n h => (sampleNext_lower n h.2).2,
    forwards := sampleServes_forwards }

theorem network_drains_sample : ∃ history s, sampleNetwork.NetworkRun history s ∧
    (∀ history' s', Run (WorkStep sampleRouting) s history' s' → history'.length ≤ 8) ∧
    ∃ history' s', Run (WorkStep sampleRouting) s history' s' ∧ Drained sampleNetwork s' := by
  obtain ⟨history, s, hrun, hevents, hwork⟩ := Run.exists_of_replay sampleNetwork.step_of_next
    (show (replay sampleNetwork.next sampleNetwork.initial sampleNetworkEvents).any
      (fun s => work sampleRouting s == 8) = true by decide +kernel)
  have hfollows : ∀ event ∈ history.map Transition.event, sampleRouting.Follows event := by
    rw [hevents]
    simp only [sampleNetworkEvents, List.forall_mem_cons, List.not_mem_nil, false_implies,
      implies_true, and_true]
    exact ⟨trivial, trivial, ⟨rfl, by decide⟩, rfl⟩
  obtain ⟨hbound, hcompletes⟩ := network_drains sampleNetwork sampleRouting history s hrun
    (List.forall_mem_map.mp hfollows)
  refine ⟨history, s, hrun, fun history' s' hrun' => ?_, hcompletes⟩
  have hlength := (hbound history' s' hrun').1
  rw [beq_iff_eq.mp hwork] at hlength
  omega

end Network

end DelayBasedForwarding
