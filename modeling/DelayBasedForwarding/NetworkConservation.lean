import DelayBasedForwarding.Flows

/-!
# Conservation in a network

What is encapsulated is, until it is delivered, in a network layer, in a queue or on a
link, and the ways out are those the network layers and the egresses log: refused,
dropped or deleted as expired.  Tags, options and identities change on the way, the
contents do not.
-/

namespace DelayBasedForwarding

open DBFComputer TransitionRuns

/-- What the packets are about. -/
def contents (packets : List Packet) : Multiset Packet :=
  (packets.map Packet.content : List Packet)

@[simp] theorem contents_nil : contents [] = 0 := rfl

@[simp] theorem contents_append (l l' : List Packet) :
    contents (l ++ l') = contents l + contents l' := by
  simp [contents, ← Multiset.coe_add]

@[simp] theorem contents_singleton (packet : Packet) : contents [packet] = {packet.content} := rfl

/-- What is taken out of a list. -/
theorem contents_erase {α : Type} [BEq α] [LawfulBEq α] (f : α → Packet) {l : List α} {x : α}
    (hx : x ∈ l) : contents (l.map f) = contents ((l.erase x).map f) + {(f x).content} := by
  have herase := Pools.map_erase (fun a => (f a).content) hx
  simpa [contents, Function.comp_def] using herase

/-! ## Egresses -/

namespace Egress

/-- The packets an egress has not sent: in its queues, dropped or deleted as expired. -/
def unsent (s : Egress) : List Packet :=
  s.stored ++ s.log.dropped ++ s.log.expired.map Prod.snd

end Egress

section

variable {config : EgressConfig} {s s' : Egress} {event : EgressEvent}

theorem Conserved.pushed_perm (h : Conserved s) :
    (s.unsent ++ s.log.sent.map SentPacket.stored).Perm s.log.pushed := by
  rw [List.perm_iff_count]
  intro packet
  have hbalance := h.balance packet
  unfold Egress.occurrences at hbalance
  simp only [Egress.unsent, List.count_append]
  omega

theorem Effect.pushed (heffect : Effect config s event s') :
    s'.log.pushed = s.log.pushed ++ event.arriving s := by
  cases heffect with
  | push timer hdelta hclass => rfl
  | txIdle timer hidle => exact (List.append_nil _).symm
  | timer timer => exact (List.append_nil _).symm

/-- What a step adds to an egress or takes out of it. -/
theorem Effect.unsent (h : WellFormed config.classifier s) (htime : s.now ≤ event.simTime)
    (hadmissible : Admissible event) (hconserved : Conserved s)
    (heffect : Effect config s event s') :
    contents s'.unsent + contents (s'.log.sent.map SentPacket.stored) =
      contents s.unsent + contents (s.log.sent.map SentPacket.stored) +
        contents (event.arriving s) := by
  have hbefore := hconserved.pushed_perm
  have hafter := (heffect.conserved h htime hadmissible hconserved).pushed_perm
  rw [← contents_append, ← contents_append, ← contents_append]
  apply Quot.sound
  apply List.Perm.map
  rw [heffect.pushed] at hafter
  exact hafter.trans (hbefore.symm.append_right _)

/-- An egress of unlimited queues drops nothing. -/
theorem dropped_of_unlimited {scheduler : Scheduler} (d : Discipline scheduler config)
    {count : Nat} {history : List (Transition Egress EgressEvent)} (hunlimited : Unlimited config)
    (hrun : EgressRun scheduler config count history s) : s.log.dropped = [] := by
  refine (d.run_invariant hunlimited.keepsOne (X := fun s => s.log.dropped = []) rfl ?_ hrun).2
  intro s event s' hinv hnone hstep
  obtain ⟨heffect, _⟩ := d.step hunlimited.keepsOne hinv.1 hinv.2 hstep
  cases heffect with
  | @push t packet delta q registry timer hdelta hclass =>
      show s.log.dropped ++ _ = []
      rw [hnone, hunlimited q, pushPacket_unlimited, List.nil_append]
  | txIdle timer hidle => exact hnone
  | timer timer => exact hnone

end

namespace Network

variable {N P : Type} {net : Network N P} {s s' : NetworkState N P} {p : P}
  {event : NetworkEvent N P}

/-- What an egress does to its unsent packets, in a network. -/
theorem unsent_step (hsound : net.Sound s) {e : EgressEvent} {egress : Egress}
    (hstep : net.PortStep p (s.egress p) e egress) :
    contents egress.unsent + contents (egress.log.sent.map SentPacket.stored) =
      contents (s.egress p).unsent + contents ((s.egress p).log.sent.map SentPacket.stored) +
        contents (e.arriving (s.egress p)) := by
  obtain ⟨hwell, _, hconserved⟩ := hsound.port p
  exact (hsound.portEffect hstep).unsent hwell hstep.1.1 hstep.2.1 hconserved

/-- Where a step of an egress sends nothing, its unsent packets are those it had and what
    it was pushed. -/
theorem unsent_of_not_timer (hsound : net.Sound s) {e : EgressEvent} {egress : Egress}
    (hstep : net.PortStep p (s.egress p) e egress) (hnot : ∀ t msg, e ≠ .timer t msg) :
    contents egress.unsent =
      contents (s.egress p).unsent + contents (e.arriving (s.egress p)) := by
  have hbalance := unsent_step hsound hstep
  rcases sent_of_step hsound hstep with ⟨_, hsame⟩ | ⟨t, msg, _, hevent, _⟩
  · rw [hsame, add_right_comm] at hbalance
    exact add_right_cancel hbalance
  · exact absurd hevent (hnot t msg)

theorem unsent_of_timer (hsound : net.Sound s) {t : SimTime} {msg : DBFPriorityScheduleMsg}
    {egress : Egress} {sent : SentPacket}
    (hstep : net.PortStep p (s.egress p) (.timer t msg) egress)
    (hsent : egress.log.sent = (s.egress p).log.sent ++ [sent]) :
    contents (s.egress p).unsent = contents egress.unsent + {sent.packet.content} := by
  have hbalance := unsent_step hsound hstep
  obtain ⟨_, hmatch, _, hwrite, _⟩ := exists_stored hsound hstep hsent
  obtain ⟨out, hok, hcontent, _⟩ := writeEDelay_spec t hmatch
  cases hok.symm.trans hwrite
  rw [hsent, List.map_append, contents_append, List.map_singleton, contents_singleton,
    EgressEvent.arriving, contents_nil, add_zero, ← hcontent] at hbalance
  apply add_right_cancel (b := contents ((s.egress p).log.sent.map SentPacket.stored))
  rw [← hbalance]
  abel

variable [DecidableEq N] [DecidableEq P] [Fintype P]

/-- Every place a network has for a packet. -/
def places (s : NetworkState N P) : Multiset Packet :=
  contents (s.inside.map Prod.snd) + (∑ p, contents (s.egress p).unsent) +
    contents (s.links.map Frame.packet) + contents (s.log.delivered.map fun x => x.2.2) +
    contents (s.log.refused.map fun x => x.2.2)

omit [DecidableEq N] in
theorem sum_unsent_update (egress : Egress) :
    (∑ a, contents (Function.update s.egress p egress a).unsent) + contents (s.egress p).unsent =
      (∑ a, contents (s.egress a).unsent) + contents egress.unsent :=
  Pools.sum_update (fun _ e => contents e.unsent) s.egress p egress

/-- **One step** moves a content from one place to another, or brings a new one. -/
theorem places_step (hsound : net.Sound s) (heffect : NetworkEffect net s event s')
    (h : contents (s.log.encapsulated.map fun x => x.2.2) = places s) :
    contents (s'.log.encapsulated.map fun x => x.2.2) = places s' := by
  cases heffect with
  | @encapsulate t node datagram packet hfresh hpacket =>
      obtain ⟨packet', hok, hcontent, _⟩ := encapsulate_spec (net.computer node) t hfresh
      cases hok.symm.trans hpacket
      simp only [places, List.map_append, contents_append, List.map_singleton,
        contents_singleton] at h ⊢
      rw [h, hcontent]
      abel
  | @refuse t p packet hmem hsend =>
      rw [h]
      simp only [places, List.map_append, contents_append, List.map_singleton,
        contents_singleton]
      rw [contents_erase Prod.snd hmem]
      abel
  | @push t p packet queued egress hmem hsend hqueued hcontent hstep =>
      have hunsent := unsent_of_not_timer hsound hstep (by simp)
      have hsum := sum_unsent_update (s := s) (p := p) egress
      have harrived : contents (EgressEvent.arriving (s.egress p) (.push t queued)) =
          {packet.content} := by
        rw [← hcontent]
        rfl
      rw [hunsent, harrived, add_left_comm, add_comm _ (contents (s.egress p).unsent)] at hsum
      have hsum := add_left_cancel hsum
      rw [h]
      simp only [places, hsum]
      rw [contents_erase Prod.snd hmem]
      abel
  | @txIdle t p egress hstep =>
      have hunsent := unsent_of_not_timer hsound hstep (by simp)
      have hsum := sum_unsent_update (s := s) (p := p) egress
      rw [hunsent, EgressEvent.arriving, contents_nil, add_zero] at hsum
      rw [h]
      simp only [places, add_right_cancel hsum]
  | @timer t p msg egress sent hstep hsent =>
      have hunsent := unsent_of_timer hsound hstep hsent
      have hsum := sum_unsent_update (s := s) (p := p) egress
      rw [hunsent, ← add_assoc, add_right_comm] at hsum
      have hsum := add_right_cancel hsum
      rw [h]
      simp only [places, ← hsum, List.map_append, contents_append, List.map_singleton,
        contents_singleton, transmit]
      abel
  | @deliver t frame received hframe harrival hreceived hlocal =>
      obtain ⟨received', hok, hcontent, _⟩ := ingress_spec t (hsound.links frame hframe).1
      cases hok.symm.trans hreceived
      rw [h]
      simp only [places, List.map_append, contents_append, List.map_singleton,
        contents_singleton, hcontent]
      rw [contents_erase Frame.packet hframe]
      abel
  | @forward t frame received hframe harrival hreceived hlocal =>
      obtain ⟨received', hok, hcontent, _⟩ := ingress_spec t (hsound.links frame hframe).1
      cases hok.symm.trans hreceived
      rw [h]
      simp only [places, List.map_append, contents_append, List.map_singleton,
        contents_singleton, hcontent]
      rw [contents_erase Frame.packet hframe]
      abel

/-! ## Over runs -/

/-- What the network layers log. -/
structure Logged (net : Network N P) (s : NetworkState N P) : Prop where
  balance : contents (s.log.encapsulated.map fun x => x.2.2) = places s
  refused : ∀ x ∈ s.log.refused, ∃ option, x.2.2.dbfOption = some option ∧ option.dMax ≠ 0
  delivered : ∀ x ∈ s.log.delivered, net.isLocal x.1 x.2.2 = true

omit [DecidableEq N] [DecidableEq P] in
theorem logged_initial (net : Network N P) : net.Logged net.initial := by
  have hempty : ∀ p, contents (Egress.initial (net.networkInterface p).count).unsent = 0 := by
    intro p
    rw [Egress.unsent, stored_initial]
    rfl
  constructor <;> simp [places, Network.initial, hempty]

theorem Logged.step (hsound : net.Sound s) (h : net.Logged s)
    (heffect : NetworkEffect net s event s') : net.Logged s' := by
  have hbalance := places_step hsound heffect h.balance
  cases heffect with
  | encapsulate hfresh hpacket => exact ⟨hbalance, h.refused, h.delivered⟩
  | @refuse t p packet hmem hsend =>
      refine ⟨hbalance, fun x hx => ?_, h.delivered⟩
      rcases List.mem_append.mp hx with hold | hnew
      · exact h.refused x hold
      · rw [List.mem_singleton] at hnew
        subst hnew
        obtain ⟨objective, hobjective, hfinite⟩ :=
          hasDeadline_of_refused (hsound.inside _ hmem).1 hsend
        obtain ⟨option, hoption, rfl⟩ := Option.map_eq_some_iff.mp hobjective
        exact ⟨option, hoption, hfinite⟩
  | push hmem hsend hqueued hcontent hstep => exact ⟨hbalance, h.refused, h.delivered⟩
  | txIdle hstep => exact ⟨hbalance, h.refused, h.delivered⟩
  | timer hstep hsent => exact ⟨hbalance, h.refused, h.delivered⟩
  | deliver hframe harrival hreceived hlocal =>
      refine ⟨hbalance, h.refused, fun x hx => ?_⟩
      rcases List.mem_append.mp hx with hold | hnew
      · exact h.delivered x hold
      · rw [List.mem_singleton] at hnew
        subst hnew
        exact hlocal
  | forward hframe harrival hreceived hlocal => exact ⟨hbalance, h.refused, h.delivered⟩

/-- **No packet is lost or duplicated.**  In every run of a network, with any routing and
    any FIBs:

    * what was encapsulated is, content by content, inside a node, in a queue, on a link,
      delivered, refused, dropped or deleted as expired, as often as it was encapsulated;
    * what was delivered was delivered at a node of its destination address;
    * a queue drops only if it is limited, and only a packet with an upper bound is refused,
      or deleted, and the latter after its `tMax`. -/
theorem network_conservation (net : Network N P)
    (history : List (Transition (NetworkState N P) (NetworkEvent N P))) (s : NetworkState N P)
    (hrun : net.NetworkRun history s) :
    contents (s.log.encapsulated.map fun x => x.2.2) =
      contents (s.inside.map Prod.snd) +
      (∑ p, (contents (s.egress p).stored + contents (s.egress p).log.dropped +
        contents ((s.egress p).log.expired.map Prod.snd))) +
      contents (s.links.map Frame.packet) + contents (s.log.delivered.map fun x => x.2.2) +
      contents (s.log.refused.map fun x => x.2.2) ∧
    (∀ x ∈ s.log.delivered, net.isLocal x.1 x.2.2 = true) ∧
    (∀ p, Unlimited (net.networkInterface p).config → (s.egress p).log.dropped = []) ∧
    (∀ x ∈ s.log.refused, ∃ option, x.2.2.dbfOption = some option ∧ option.dMax ≠ 0) ∧
    ∀ p, ∀ x ∈ (s.egress p).log.expired,
      ∃ tag, x.2.tag = some tag ∧ tag.dMax ≠ 0 ∧ tag.tMax < x.1 := by
  have hinv := (hrun.invariant (I := fun s => net.Sound s ∧ net.Logged s)
    ⟨sound_initial net, logged_initial net⟩
    (fun _ _ _ ⟨hsound, hlogged⟩ hstep =>
      ⟨hsound.step hstep, hlogged.step hsound (hsound.effect hstep)⟩)).1
  obtain ⟨hsound, hlogged⟩ := hinv
  refine ⟨?_, hlogged.delivered, fun p hunlimited => ?_, hlogged.refused, fun p x hx => ?_⟩
  · rw [hlogged.balance, places]
    simp only [Egress.unsent, contents_append]
  · obtain ⟨_, hport⟩ := hsound.egress p
    obtain ⟨d⟩ := net.exists_portDiscipline p
    exact dropped_of_unlimited d hunlimited hport
  · exact packetExpired_iff.mp ((hsound.port p).2.2.expired x hx)

/-! Of two datagrams, one is delivered and one is in the queue of the router. -/

theorem network_conservation_sample : ∃ history s, sampleNetwork.NetworkRun history s ∧
    (s.egress 1).stored.length = 1 ∧ s.log.delivered.length = 1 ∧
    (∀ x ∈ s.log.delivered, sampleNetwork.isLocal x.1 x.2.2 = true) ∧
    contents (s.log.encapsulated.map fun x => x.2.2) =
      contents (s.inside.map Prod.snd) +
      (∑ p, (contents (s.egress p).stored + contents (s.egress p).log.dropped +
        contents ((s.egress p).log.expired.map Prod.snd))) +
      contents (s.links.map Frame.packet) + contents (s.log.delivered.map fun x => x.2.2) +
      contents (s.log.refused.map fun x => x.2.2) := by
  obtain ⟨history, s, hrun, _, hlengths⟩ := Run.exists_of_replay sampleNetwork.step_of_next
    (show (replay sampleNetwork.next sampleNetwork.initial sampleJourney).any
      (fun s => (s.egress 1).stored.length == 1 && s.log.delivered.length == 1) = true by
        decide +kernel)
  obtain ⟨hbalance, hlocal, _⟩ := network_conservation sampleNetwork history s hrun
  simp only [Bool.and_eq_true, beq_iff_eq] at hlengths
  exact ⟨history, s, hrun, hlengths.1, hlengths.2, hlocal, hbalance⟩

end Network

end DelayBasedForwarding
