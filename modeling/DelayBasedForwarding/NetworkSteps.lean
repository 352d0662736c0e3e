import DelayBasedForwarding.Datagram
import DelayBasedForwarding.Conservation
import DelayBasedForwarding.Library.Simulations

/-!
# The steps of a network

In every state of a network the egresses are in states of their own runs, a packet
carries the tag exactly where it carries the option, and its bounds are some that
`initialize` has accepted.  So a network layer only pushes packets an egress may rely
on, and what an egress sends can be received.  `NetworkEffect` states what is left for
a step to do.
-/

namespace DelayBasedForwarding

open DBFComputer TransitionRuns

/-! ## Packets inside a node -/

/-- The bounds are those of a sender `initialize` has accepted. -/
def DBFIpv4Option.Accepted (option : DBFIpv4Option) : Prop :=
  ∃ par sender, DBFComputer.initialize par = .ok sender ∧ option.dMin = par.dMin ∧
    option.dMax = par.dMax

/-- A packet inside a node has the tag if and only if it has the option. -/
structure Packet.Lawful (packet : Packet) : Prop where
  tagged : packet.tag.isSome = packet.dbfOption.isSome
  accepted : ∀ option, packet.dbfOption = some option → option.Accepted

section

variable {computer : DBFComputer} {packet queued sent datagram : Packet} {tag : DBFHeaderTag}
  {option : DBFIpv4Option} {t : SimTime}

theorem Packet.Lawful.exists_option (h : packet.Lawful) (htag : packet.tag = some tag) :
    ∃ option, packet.dbfOption = some option := by
  have hmatch := h.tagged
  rw [htag, Option.isSome_some, eq_comm, Option.isSome_iff_exists] at hmatch
  exact hmatch

theorem lawful_encapsulate {par : ComputerParameters}
    (hinit : DBFComputer.initialize par = .ok computer) (hfresh : FreshDatagram datagram)
    (h : DBFIpv4.encapsulate computer t datagram = .ok packet) :
    packet.Lawful ∧ packet.content = datagram.content ∧ ∀ tag ∈ packet.tag, tag.tRcv = t := by
  obtain ⟨packet', hok, hcontent, hbestEffort, hmarked⟩ := encapsulate_spec computer t hfresh
  cases hok.symm.trans h
  cases hmode : computer.isBEMode with
  | true =>
      obtain ⟨htag, hnone⟩ := hbestEffort hmode
      refine ⟨⟨by simp [htag, hnone], by simp [hnone]⟩, hcontent, by simp [htag]⟩
  | false =>
      obtain ⟨htag, hoption⟩ := hmarked hmode
      refine ⟨⟨by simp [htag, hoption], ?_⟩, hcontent, by simp [htag]⟩
      rintro option hfound
      cases hoption.symm.trans hfound
      obtain ⟨hmin, hmax, _⟩ := initialize_ok hinit
      exact ⟨par, computer, hinit, hmin, hmax⟩

/-- The window of what the network layer has processed and not deleted. -/
theorem window_of_processed {header : Ipv4Header} {source destination : DbfFibEntry}
    (haccepted : option.Accepted) (htag : packet.tag = some tag)
    (hoption : packet.dbfOption = some option)
    (h : Processed computer packet tag option header source destination queued) :
    (isAlreadyExpired queued = true ↔ option.dMax ≠ 0 ∧
      option.dMax < updatedDelay computer packet tag option source +
        toDelay computer packet destination) ∧
    (isAlreadyExpired queued = false → ∀ tag' ∈ queued.tag,
      tag'.tRcv = tag.tRcv ∧ (tag'.dMax = 0 ∨ max tag'.tMin tag'.tRcv ≤ tag'.tMax)) := by
  obtain ⟨par, sender, hinit, hmin, hmax⟩ := haccepted
  obtain ⟨header', hheader', hfound⟩ := dbfOption_eq_some.mp hoption
  cases h.ipv4Header.symm.trans hheader'
  have hops : 1 ≤ destination.hops.toUInt32 := by
    rw [UInt32.le_iff_toNat_le, UInt32.toNat_one, Nat.one_le_iff_ne_zero]
    exact fun hzero => h.hops (UInt32.toNat_inj.mp hzero)
  have hnode : AtNode par computer packet tag option source destination :=
    ⟨⟨sender, hinit⟩, htag, ⟨header, hheader', hfound, h.sourceRow, h.destinationRow⟩, hmin, hmax,
      hops⟩
  have hwindow : Window computer packet tag option source destination
      (processedTag tag option source destination (computer.calculateTransmissionTime packet)) :=
    ⟨rfl, rfl, rfl, experienced_eq, rfl, rfl, rfl⟩
  have hexpired := isAlreadyExpired_iff hops h.queuedTag hwindow
  refine ⟨by rw [hexpired, hwindow.eDelay, hwindow.toDelay], fun halive tag' htag' => ?_⟩
  cases h.queuedTag.symm.trans htag'
  refine ⟨rfl, ?_⟩
  by_cases hfinite : option.dMax = 0
  · exact .inl hfinite
  · right
    apply window_le hnode hwindow hfinite
    intro hlate
    rw [hexpired.mpr ⟨hfinite, hlate⟩] at halive
    cases halive

/-- What `sendPacketToNIC` forwards: an untagged packet as it is, or a processed one. -/
theorem sendPacketToNIC_some (h : packet.Lawful)
    (hsend : DBFIpv4.sendPacketToNIC computer packet = .ok (some queued)) :
    packet.tag = none ∧ queued = packet ∨
    ∃ tag option header source destination, packet.tag = some tag ∧
      packet.dbfOption = some option ∧ isAlreadyExpired queued = false ∧
      Processed computer packet tag option header source destination queued := by
  cases htag : packet.tag with
  | none =>
      rw [sendPacketToNIC_untagged htag] at hsend
      cases hsend
      exact .inl ⟨rfl, rfl⟩
  | some tag =>
      right
      obtain ⟨option, hoption⟩ := h.exists_option htag
      rw [sendPacketToNIC_tagged htag] at hsend
      rcases @processDBFPacket_spec computer _ _ _ htag hoption with
        ⟨header, source, destination, processed, hprocess, hprocessed⟩ | ⟨_, herror, _⟩
      · rw [hprocess] at hsend
        by_cases hdead : isAlreadyExpired processed = true
        · simp [hdead, Except.map] at hsend
        · simp only [Except.map, hdead, Bool.false_eq_true, if_false, Except.ok.injEq,
            Option.some.injEq] at hsend
          subst hsend
          exact ⟨tag, option, header, source, destination, rfl, hoption,
            eq_false_of_ne_true hdead, hprocessed⟩
      · simp [herror, Except.map] at hsend

/-- **The network layer pushes what an egress may rely on.** -/
theorem sendPacketToNIC_admissible (h : packet.Lawful) (htime : ∀ tag ∈ packet.tag, tag.tRcv ≤ t)
    (hsend : DBFIpv4.sendPacketToNIC computer packet = .ok (some queued)) :
    Admissible (.push t queued) ∧ queued.Lawful ∧ queued.content = packet.content := by
  rcases sendPacketToNIC_some h hsend with
    ⟨htag, rfl⟩ | ⟨tag, option, header, source, destination, htag, hoption, halive, hprocessed⟩
  · refine ⟨?_, h, rfl⟩
    intro tag hsome
    cases htag.symm.trans hsome
  · have hwindow := (window_of_processed (h.accepted option hoption) htag hoption hprocessed).2
    refine ⟨?_, ⟨?_, ?_⟩, hprocessed.content⟩
    · intro tag' htag'
      obtain ⟨htRcv, hordered⟩ := hwindow halive tag' htag'
      refine ⟨?_, hordered⟩
      rw [htRcv]
      exact htime tag htag
    · rw [hprocessed.queuedTag, hprocessed.queuedOption]
      rfl
    · intro option' hoption'
      cases hprocessed.queuedOption.symm.trans hoption'
      exact h.accepted option hoption

end

/-! ## Egresses -/

section

variable {config : EgressConfig} {s s' : Egress} {event : EgressEvent}

/-- What is queued after a step was queued before it or is the packet pushed. -/
theorem Effect.mem_queues (heffect : Effect config s event s') {q : QueueId} {p : Packet}
    (hp : p ∈ s'.queues q) :
    p ∈ s.queues q ∨
      ∃ t packet, event = .push t packet ∧ p = { packet with id := s.nextPacket } := by
  cases heffect with
  | @push t packet _ _ _ timer =>
      have hp : p ∈ _ := (mem_unexpired.mp hp).1
      rcases mem_of_mem_pushed hp with hold | ⟨_, hnew⟩
      · exact .inl hold
      · exact .inr ⟨t, packet, rfl, hnew⟩
  | txIdle timer => exact .inl (mem_unexpired.mp hp).1
  | timer timer => exact .inl ((fired_sublist _ _ _ _ _ _ _).subset hp)

theorem Effect.now (heffect : Effect config s event s') : s'.now = event.simTime := by
  cases heffect <;> rfl

end

/-- In a run of an egress, the timer is not overdue. -/
theorem timer_ahead {scheduler : Scheduler} {config : EgressConfig} {count : Nat}
    {history : List (Transition Egress EgressEvent)} {s : Egress}
    (hcapacity : ∀ q, KeepsOne (config.capacity q))
    (hscheduler : scheduler = dbfPriorityScheduler ∨ scheduler = dbfDynamicPriorityScheduler)
    (hrun : EgressRun scheduler config count history s) :
    ∀ pending ∈ s.timer.events, s.now ≤ pending.2 := by
  intro pending hpending
  rcases hscheduler with rfl | rfl
  · have hinv := ((DBFPriorityScheduler.discipline config hcapacity).inv_run hcapacity hrun).1
    rcases hinv.2 with ⟨_, hevents⟩ | ⟨msg, T, p, harmed⟩
    · rw [hevents] at hpending
      cases hpending
    · have harmed : DBFPriorityScheduler.Armed s msg T p := harmed
      rw [harmed.events, List.mem_singleton] at hpending
      subst hpending
      rw [harmed.time, scheduleTime_eq]
      exact le_readyAt
  · have hinv := ((DBFDynamicPriorityScheduler.discipline config hcapacity).inv_run hcapacity
      hrun).1
    rcases hinv.2 with ⟨_, hevents⟩ | ⟨msg, T, p, harmed⟩
    · rw [hevents] at hpending
      cases hpending
    · have harmed : DBFDynamicPriorityScheduler.Armed s msg T p := harmed
      rw [harmed.events, List.mem_singleton] at hpending
      subst hpending
      exact harmed.time.ge

namespace Network

variable {N P : Type} (net : Network N P)

theorem exists_portDiscipline (p : P) :
    Nonempty (Discipline (net.scheduler p) (net.networkInterface p).config) :=
  exists_discipline _ (net.networkInterface p).keepsOne (net.networkInterface p).schedulerType.eq_or

variable {net} {p : P} {s s' : NetworkState N P} {event : NetworkEvent N P}

theorem portStep_effect {history : List (Transition Egress EgressEvent)} {e e' : Egress}
    {event : EgressEvent} (hrun : net.PortRun p history e) (hstep : net.PortStep p e event e') :
    Effect (net.networkInterface p).config e event e' := by
  obtain ⟨d⟩ := net.exists_portDiscipline p
  have hkeeps := (net.networkInterface p).keepsOne
  obtain ⟨hwell, htimer⟩ := (d.inv_run hkeeps hrun).1
  exact (d.step hkeeps hwell htimer hstep).1

/-! ## The invariant -/

structure Sound (net : Network N P) (s : NetworkState N P) : Prop where
  egress : ∀ p, ∃ history, net.PortRun p history (s.egress p)
  clock : ∀ p, (s.egress p).now ≤ s.now
  timers : ∀ p, ∀ pending ∈ (s.egress p).timer.events, s.now ≤ pending.2
  inside : ∀ x ∈ s.inside, x.2.Lawful ∧ ∀ tag ∈ x.2.tag, tag.tRcv ≤ s.now
  queued : ∀ p q, ∀ packet ∈ (s.egress p).queues q, packet.Lawful
  links : ∀ frame ∈ s.links, frame.packet.tag = none ∧ s.now ≤ frame.arrival ∧
    ∀ option, frame.packet.dbfOption = some option → option.Accepted

theorem sound_initial (net : Network N P) : net.Sound net.initial := by
  constructor
  · exact fun p => ⟨[], .start⟩
  · exact fun _ => le_rfl
  all_goals simp [Network.initial, Egress.initial]

/-- A step of an egress in a sound network has one of the effects. -/
theorem Sound.portEffect (h : net.Sound s) {e : EgressEvent} {egress : Egress}
    (hstep : net.PortStep p (s.egress p) e egress) :
    Effect (net.networkInterface p).config (s.egress p) e egress := by
  obtain ⟨history, hrun⟩ := h.egress p
  exact portStep_effect hrun hstep

/-- What every run of an egress keeps holds at every interface. -/
theorem Sound.port (h : net.Sound s) (p : P) :
    WellFormed (net.networkInterface p).config.classifier (s.egress p) ∧
      Accounted (s.egress p) ∧ Conserved (s.egress p) := by
  obtain ⟨history, hrun⟩ := h.egress p
  obtain ⟨d⟩ := net.exists_portDiscipline p
  have hkeeps := (net.networkInterface p).keepsOne
  exact ⟨(d.inv_run hkeeps hrun).1.1, run_accounted d hkeeps hrun, run_conserved d hkeeps hrun⟩

/-! ## Effects -/

variable [DecidableEq N] [DecidableEq P]

inductive NetworkEffect (net : Network N P) (s : NetworkState N P) :
    NetworkEvent N P → NetworkState N P → Prop where
  | encapsulate {t : SimTime} {node : N} {datagram packet : Packet} :
      FreshDatagram datagram →
      DBFIpv4.encapsulate (net.computer node) t datagram = .ok packet →
      NetworkEffect net s (.encapsulate t node datagram)
        { s with
          now := t, inside := s.inside ++ [(node, packet)],
          log := { s.log with encapsulated := s.log.encapsulated ++ [(node, t, datagram)] } }
  | refuse {t : SimTime} {p : P} {packet : Packet} :
      ((net.networkInterface p).node, packet) ∈ s.inside →
      DBFIpv4.sendPacketToNIC (net.computer (net.networkInterface p).node) packet = .ok none →
      NetworkEffect net s (.sendPacketToNIC t p packet)
        { s with
          now := t, inside := s.inside.erase ((net.networkInterface p).node, packet),
          log := { s.log with
            refused := s.log.refused ++ [((net.networkInterface p).node, t, packet)] } }
  | push {t : SimTime} {p : P} {packet queued : Packet} {egress : Egress} :
      ((net.networkInterface p).node, packet) ∈ s.inside →
      DBFIpv4.sendPacketToNIC (net.computer (net.networkInterface p).node) packet =
        .ok (some queued) →
      queued.Lawful → queued.content = packet.content →
      net.PortStep p (s.egress p) (.push t queued) egress →
      NetworkEffect net s (.sendPacketToNIC t p packet)
        { s with
          now := t, inside := s.inside.erase ((net.networkInterface p).node, packet),
          egress := Function.update s.egress p egress }
  | txIdle {t : SimTime} {p : P} {egress : Egress} :
      net.PortStep p (s.egress p) (.txIdle t) egress →
      NetworkEffect net s (.txIdle t p)
        { s with now := t, egress := Function.update s.egress p egress }
  | timer {t : SimTime} {p : P} {msg : DBFPriorityScheduleMsg} {egress : Egress}
      {sent : SentPacket} :
      net.PortStep p (s.egress p) (.timer t msg) egress →
      egress.log.sent = (s.egress p).log.sent ++ [sent] →
      NetworkEffect net s (.timer t p msg)
        { s with
          now := t, egress := Function.update s.egress p egress,
          links := s.links ++ [net.transmit p sent] }
  | deliver {t : SimTime} {frame : Frame P} {received : Packet} :
      frame ∈ s.links → frame.arrival = t →
      IngressForwarder.handleMessage t frame.packet = .ok received →
      net.isLocal (net.networkInterface frame.port).peer received = true →
      NetworkEffect net s (.receive t frame)
        { s with
          now := t, links := s.links.erase frame,
          log := { s.log with delivered := s.log.delivered ++
            [((net.networkInterface frame.port).peer, t, received)] } }
  | forward {t : SimTime} {frame : Frame P} {received : Packet} :
      frame ∈ s.links → frame.arrival = t →
      IngressForwarder.handleMessage t frame.packet = .ok received →
      net.isLocal (net.networkInterface frame.port).peer received = false →
      NetworkEffect net s (.receive t frame)
        { s with
          now := t, links := s.links.erase frame,
          inside := s.inside ++ [((net.networkInterface frame.port).peer, received)] }

omit [DecidableEq N] [DecidableEq P] in
/-- An event of an egress that is possible in the network is possible for the egress. -/
theorem Sound.enabled (h : net.Sound s) (henabled : net.Enabled s event) {e : EgressEvent}
    (htime : e.simTime = event.simTime) (hdelivers : DelayBasedForwarding.Delivers (s.egress p) e) :
    DelayBasedForwarding.Enabled (s.egress p) e := by
  obtain ⟨hnow, htimers, _⟩ := henabled
  rw [← htime] at hnow htimers
  exact ⟨(h.clock p).trans hnow, htimers p, hdelivers⟩

omit [DecidableEq N] in
/-- What `handleEgress` does when the handler of the egress succeeds. -/
theorem handleEgress_ok {e : EgressEvent} {u : NetworkState N P}
    (hok : net.handleEgress u p e = .ok s')
    (henabled : DelayBasedForwarding.Enabled (u.egress p) e) (hadmissible : Admissible e) :
    ∃ egress, net.PortStep p (u.egress p) e egress ∧
      s' = { u with
        egress := Function.update u.egress p egress,
        links := u.links ++
          (egress.log.sent.drop (u.egress p).log.sent.length).map (net.transmit p) } := by
  unfold handleEgress at hok
  cases hhandle : (net.scheduler p).handle (net.networkInterface p).config (u.egress p) e with
  | error error =>
      rw [hhandle] at hok
      cases hok
  | ok egress =>
      rw [hhandle] at hok
      cases hok
      exact ⟨egress, ⟨henabled, hadmissible, hhandle⟩, rfl⟩

omit [DecidableEq N] [DecidableEq P] in
/-- Only a timer sends. -/
theorem sent_of_step (h : net.Sound s) {e : EgressEvent} {egress : Egress}
    (hstep : net.PortStep p (s.egress p) e egress) :
    (∀ t msg, e ≠ .timer t msg) ∧ egress.log.sent = (s.egress p).log.sent ∨
    ∃ t msg sent, e = .timer t msg ∧ egress.log.sent = (s.egress p).log.sent ++ [sent] := by
  cases h.portEffect hstep with
  | push timer => exact .inl ⟨fun _ _ => nofun, rfl⟩
  | txIdle timer => exact .inl ⟨fun _ _ => nofun, rfl⟩
  | timer timer => exact .inr ⟨_, _, _, rfl, rfl⟩

theorem Sound.effect (h : net.Sound s) (hstep : net.Step s event s') :
    NetworkEffect net s event s' := by
  obtain ⟨henabled, hok⟩ := hstep
  have hdelivers := henabled.2.2.2
  cases event with
  | encapsulate t node datagram =>
      simp only [handle] at hok
      obtain ⟨packet, hpacket, _⟩ := encapsulate_spec (net.computer node) t hdelivers
      rw [hpacket] at hok
      cases hok
      exact .encapsulate hdelivers hpacket
  | sendPacketToNIC t p packet =>
      obtain ⟨hlawful, hreceived⟩ := h.inside _ hdelivers
      have hearlier : ∀ tag ∈ packet.tag, tag.tRcv ≤ t := fun tag htag =>
        (hreceived tag htag).trans henabled.1
      simp only [handle] at hok
      cases hsend : DBFIpv4.sendPacketToNIC (net.computer (net.networkInterface p).node)
          packet with
      | error error =>
          rw [hsend] at hok
          cases hok
      | ok result =>
          rw [hsend] at hok
          cases result with
          | none =>
              cases hok
              exact .refuse hdelivers hsend
          | some queued =>
              obtain ⟨hadmissible, hqueued, hcontent⟩ :=
                sendPacketToNIC_admissible hlawful hearlier hsend
              have hpush : DelayBasedForwarding.Enabled (s.egress p) (.push t queued) :=
                h.enabled henabled rfl trivial
              have hok : net.handleEgress { s with
                  now := t, inside := s.inside.erase ((net.networkInterface p).node, packet) } p
                  (.push t queued) = .ok s' := hok
              obtain ⟨egress, hportStep, rfl⟩ := handleEgress_ok hok hpush hadmissible
              rcases sent_of_step h hportStep with ⟨_, hsent⟩ | ⟨_, _, _, hevent, _⟩
              · simpa [hsent] using NetworkEffect.push hdelivers hsend hqueued hcontent hportStep
              · cases hevent
  | txIdle t p =>
      have hidle : DelayBasedForwarding.Enabled (s.egress p) (.txIdle t) :=
        h.enabled henabled rfl trivial
      have hok : net.handleEgress { s with now := t } p (.txIdle t) = .ok s' := hok
      obtain ⟨egress, hportStep, rfl⟩ := handleEgress_ok hok hidle trivial
      rcases sent_of_step h hportStep with ⟨_, hsent⟩ | ⟨_, _, _, hevent, _⟩
      · simpa [hsent] using NetworkEffect.txIdle (s := s) hportStep
      · cases hevent
  | timer t p msg =>
      have hfires : DelayBasedForwarding.Enabled (s.egress p) (.timer t msg) :=
        h.enabled henabled rfl hdelivers
      have hok : net.handleEgress { s with now := t } p (.timer t msg) = .ok s' := hok
      obtain ⟨egress, hportStep, rfl⟩ := handleEgress_ok hok hfires trivial
      rcases sent_of_step h hportStep with ⟨hnot, _⟩ | ⟨_, _, sent, _, hsent⟩
      · exact absurd rfl (hnot t msg)
      · simpa [hsent] using NetworkEffect.timer (s := s) hportStep hsent
  | receive t frame =>
      obtain ⟨hframe, harrival⟩ := hdelivers
      obtain ⟨received, hreceived, _⟩ := ingress_spec t (h.links frame hframe).1
      simp only [handle, hreceived] at hok
      cases hlocal : net.isLocal (net.networkInterface frame.port).peer received with
      | true =>
          rw [hlocal] at hok
          cases hok
          exact .deliver hframe harrival hreceived hlocal
      | false =>
          rw [hlocal] at hok
          cases hok
          exact .forward hframe harrival hreceived hlocal

/-! ## The invariant is kept -/

omit [DecidableEq N] in
/-- What an egress has done is part of a run of it, and only its own state changes. -/
theorem Sound.step_egress (h : net.Sound s) {e : EgressEvent} {egress : Egress}
    (hstep : net.PortStep p (s.egress p) e egress) :
    (∀ a, ∃ history, net.PortRun a history (Function.update s.egress p egress a)) ∧
    (∀ a, (Function.update s.egress p egress a).now ≤ max (s.egress a).now e.simTime) ∧
    (∀ a, ∀ pending ∈ (Function.update s.egress p egress a).timer.events,
      pending ∈ (s.egress a).timer.events ∨ e.simTime ≤ pending.2) ∧
    ∀ a q, ∀ packet ∈ (Function.update s.egress p egress a).queues q,
      packet ∈ (s.egress a).queues q ∨
      a = p ∧ ∃ t queued id, e = .push t queued ∧ packet = { queued with id := id } := by
  obtain ⟨history, hrun⟩ := h.egress p
  have heffect := portStep_effect hrun hstep
  have hrun' : net.PortRun p _ egress := hrun.next hstep
  have hnow := heffect.now
  have hahead := timer_ahead (net.networkInterface p).keepsOne
    (net.networkInterface p).schedulerType.eq_or hrun'
  refine ⟨fun a => ?_, fun a => ?_, fun a pending hpending => ?_, fun a q packet hpacket => ?_⟩
  all_goals by_cases ha : a = p
  · subst ha
    rw [Function.update_self]
    exact ⟨_, hrun'⟩
  · rw [Function.update_of_ne ha]
    exact h.egress a
  · subst ha
    rw [Function.update_self, hnow]
    exact le_max_right _ _
  · rw [Function.update_of_ne ha]
    exact le_max_left _ _
  · subst ha
    rw [Function.update_self] at hpending
    right
    rw [← hnow]
    exact hahead pending hpending
  · rw [Function.update_of_ne ha] at hpending
    exact .inl hpending
  · subst ha
    rw [Function.update_self] at hpacket
    rcases heffect.mem_queues hpacket with hold | ⟨t, queued, hevent, hnew⟩
    · exact .inl hold
    · exact .inr ⟨rfl, t, queued, _, hevent, hnew⟩
  · rw [Function.update_of_ne ha] at hpacket
    exact .inl hpacket

omit [DecidableEq N] in
/-- A step of one egress keeps the parts of the invariant about egresses. -/
theorem Sound.update (h : net.Sound s) (henabled : net.Enabled s event) {e : EgressEvent}
    {egress : Egress} (hstep : net.PortStep p (s.egress p) e egress)
    (htime : e.simTime = event.simTime) (hlawful : ∀ t queued, e = .push t queued → queued.Lawful)
    (hinside : ∀ x ∈ s'.inside, x.2.Lawful ∧ ∀ tag ∈ x.2.tag, tag.tRcv ≤ s'.now)
    (hlinks : ∀ frame ∈ s'.links, frame.packet.tag = none ∧ s'.now ≤ frame.arrival ∧
      ∀ option, frame.packet.dbfOption = some option → option.Accepted)
    (hnow : s'.now = event.simTime) (hegress : s'.egress = Function.update s.egress p egress) :
    net.Sound s' := by
  obtain ⟨hruns, hclock, htimers, hqueued⟩ := h.step_egress hstep
  obtain ⟨hpassed, hahead, _⟩ := henabled
  rw [htime] at hclock htimers
  rw [← hegress] at hruns hclock htimers hqueued
  rw [← hnow] at hpassed hahead hclock htimers
  refine ⟨hruns, fun a => ?_, fun a pending hpending => ?_, hinside, fun a q packet hpacket => ?_,
    hlinks⟩
  · exact (hclock a).trans (max_le ((h.clock a).trans hpassed) le_rfl)
  · rcases htimers a pending hpending with hold | hnew
    · exact hahead a pending hold
    · exact hnew
  · rcases hqueued a q packet hpacket with hold | ⟨_, t, queued, id, hevent, rfl⟩
    · exact h.queued a q packet hold
    · exact ⟨(hlawful t queued hevent).tagged, (hlawful t queued hevent).accepted⟩

omit [DecidableEq N] [DecidableEq P] in
/-- A step that no egress takes part in. -/
theorem Sound.pass (h : net.Sound s) (henabled : net.Enabled s event)
    (hinside : ∀ x ∈ s'.inside, x.2.Lawful ∧ ∀ tag ∈ x.2.tag, tag.tRcv ≤ s'.now)
    (hlinks : ∀ frame ∈ s'.links, frame ∈ s.links)
    (hnow : s'.now = event.simTime) (hegress : s'.egress = s.egress) : net.Sound s' := by
  obtain ⟨hpassed, hahead, harrivals, _⟩ := henabled
  rw [← hnow] at hpassed hahead harrivals
  rw [← hegress] at hahead
  refine ⟨?_, ?_, hahead, hinside, ?_, fun frame hframe => ?_⟩
  · rw [hegress]
    exact h.egress
  · rw [hegress]
    exact fun p => (h.clock p).trans hpassed
  · rw [hegress]
    exact h.queued
  · obtain ⟨htag, _, haccepted⟩ := h.links frame (hlinks frame hframe)
    exact ⟨htag, harrivals frame (hlinks frame hframe), haccepted⟩

omit [DecidableEq N] [DecidableEq P] in
theorem Sound.inside_later (h : net.Sound s) (henabled : net.Enabled s event) :
    ∀ x ∈ s.inside, x.2.Lawful ∧ ∀ tag ∈ x.2.tag, tag.tRcv ≤ event.simTime := by
  intro x hx
  obtain ⟨hlawful, hreceived⟩ := h.inside x hx
  exact ⟨hlawful, fun tag htag => (hreceived tag htag).trans henabled.1⟩

omit [DecidableEq N] [DecidableEq P] in
theorem Sound.links_later (h : net.Sound s) (henabled : net.Enabled s event) :
    ∀ frame ∈ s.links, frame.packet.tag = none ∧ event.simTime ≤ frame.arrival ∧
      ∀ option, frame.packet.dbfOption = some option → option.Accepted := by
  intro frame hframe
  obtain ⟨htag, _, haccepted⟩ := h.links frame hframe
  exact ⟨htag, henabled.2.2.1 frame hframe, haccepted⟩

omit [DecidableEq N] [DecidableEq P] in
/-- What the ingress of a node takes from a link. -/
theorem Sound.received (h : net.Sound s) {frame : Frame P} (hframe : frame ∈ s.links) {t : SimTime}
    {received : Packet} (hreceived : IngressForwarder.handleMessage t frame.packet = .ok received) :
    received.Lawful ∧ ∀ tag ∈ received.tag, tag.tRcv ≤ t := by
  obtain ⟨htag, _, haccepted⟩ := h.links frame hframe
  obtain ⟨received', hok, _, hoption, hreceivedTag⟩ := ingress_spec t htag
  cases hok.symm.trans hreceived
  cases hsome : frame.packet.dbfOption with
  | none =>
      rw [hsome] at hoption hreceivedTag
      exact ⟨⟨by simp [hoption, hreceivedTag], by simp [hoption]⟩, by simp [hreceivedTag]⟩
  | some option =>
      rw [hsome] at hoption hreceivedTag
      refine ⟨⟨by simp [hoption, hreceivedTag], ?_⟩, by simp [hreceivedTag]⟩
      intro option' hoption'
      cases hoption.symm.trans hoption'
      exact haccepted option hsome

theorem Sound.step (h : net.Sound s) (hstep : net.Step s event s') : net.Sound s' := by
  have henabled := hstep.1
  cases h.effect hstep with
  | @encapsulate t node datagram packet hfresh hpacket =>
      refine h.pass henabled (fun x hx => ?_) (fun frame hframe => hframe) rfl rfl
      rcases List.mem_append.mp hx with hold | hnew
      · exact h.inside_later henabled x hold
      · rw [List.mem_singleton] at hnew
        subst hnew
        obtain ⟨hlawful, _, hreceived⟩ :=
          lawful_encapsulate (net.initialized node) hfresh hpacket
        exact ⟨hlawful, fun tag htag => (hreceived tag htag).le⟩
  | @refuse t p packet hmem hsend =>
      refine h.pass henabled (fun x hx => ?_) (fun frame hframe => hframe) rfl rfl
      exact h.inside_later henabled x (List.mem_of_mem_erase hx)
  | @push t p packet queued egress hmem hsend hqueued hcontent hport =>
      refine h.update henabled hport rfl ?_ (fun x hx => ?_) (h.links_later henabled) rfl rfl
      · intro t' queued' hevent
        cases hevent
        exact hqueued
      · exact h.inside_later henabled x (List.mem_of_mem_erase hx)
  | @txIdle t p egress hport =>
      exact h.update henabled hport rfl (fun _ _ => nofun) (h.inside_later henabled)
        (h.links_later henabled) rfl rfl
  | @timer t p msg egress sent hport hsent =>
      refine h.update henabled hport rfl (fun _ _ => nofun) (h.inside_later henabled)
        (fun frame hframe => ?_) rfl rfl
      rcases List.mem_append.mp hframe with hold | hnew
      · exact h.links_later henabled frame hold
      · rw [List.mem_singleton] at hnew
        subst hnew
        cases h.portEffect hport with
        | @timer _ _ stored out timer _ _ hstored _ _ hout _ =>
            cases List.append_cancel_left hsent
            have hlawful := h.queued p _ stored hstored
            obtain ⟨sent, hwrite, _, htag, huntagged, hmarked⟩ := writeEDelay_spec t hlawful.tagged
            cases hwrite.symm.trans hout
            refine ⟨htag, ?_, fun option hoption => ?_⟩
            · have := (net.networkInterface p).linkDelay_nonneg
              have := (net.networkInterface p).transmissionTime_nonneg out.bitLength
              show t ≤ t + _ + _
              linarith
            · cases hstoredTag : stored.tag with
              | none =>
                  obtain rfl := huntagged hstoredTag
                  exact hlawful.accepted option hoption
              | some tag =>
                  obtain ⟨option', hoption'⟩ := hlawful.exists_option hstoredTag
                  cases (hmarked tag option' hstoredTag hoption').symm.trans hoption
                  exact hlawful.accepted option' hoption'
  | @deliver t frame received hframe harrival hreceived hlocal =>
      exact h.pass henabled (h.inside_later henabled)
        (fun frame hframe => List.mem_of_mem_erase hframe) rfl rfl
  | @forward t frame received hframe harrival hreceived hlocal =>
      refine h.pass henabled (fun x hx => ?_) (fun frame hframe => List.mem_of_mem_erase hframe)
        rfl rfl
      rcases List.mem_append.mp hx with hold | hnew
      · exact h.inside_later henabled x hold
      · rw [List.mem_singleton] at hnew
        subst hnew
        exact h.received hframe hreceived

variable {history : List (Transition (NetworkState N P) (NetworkEvent N P))}

theorem run_sound (hrun : net.NetworkRun history s) :
    net.Sound s ∧ ∀ x ∈ history, net.Sound x.pre ∧ net.Sound x.post :=
  hrun.invariant (I := net.Sound) (sound_initial net) fun _ _ _ h hstep => h.step hstep

theorem run_effects (hrun : net.NetworkRun history s) :
    ∀ x ∈ history, NetworkEffect net x.pre x.event x.post := by
  intro x hx
  exact ((run_sound hrun).2 x hx).1.effect (hrun.step_of_mem x hx)

end Network

end DelayBasedForwarding
