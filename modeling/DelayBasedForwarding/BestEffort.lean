import DelayBasedForwarding.Interfaces
import DelayBasedForwarding.NetworkConservation
import DelayBasedForwarding.SendOrder
import DelayBasedForwarding.Attention
import DelayBasedForwarding.Library.FifoServers

/-!
# Best-effort networks

If all senders are in best-effort mode, no packet has a tag or an option.  The network then
does what it would do without delay-based forwarding: nothing is refused, expires or is
changed, and an interface with unlimited queues is a first-come-first-served server that
sends whenever its link is idle and a packet is there.
-/

namespace DelayBasedForwarding

open FifoServers TransitionRuns

/-! ## An egress without tags -/

section

variable {config : EgressConfig} {s s' : Egress} {event : EgressEvent} {q : QueueId}
  {packet : Packet}

/-- Everything the egress was pushed is best effort. -/
def PushedBestEffort (s : Egress) : Prop := ∀ packet ∈ s.log.pushed, packet.tag = none

theorem PushedBestEffort.unsent (hbestEffort : PushedBestEffort s) (hconserved : Conserved s)
    (hpacket : packet ∈ s.unsent) : packet.tag = none :=
  hbestEffort packet (hconserved.pushed_perm.subset (List.mem_append_left _ hpacket))

theorem PushedBestEffort.queued (hbestEffort : PushedBestEffort s) (hconserved : Conserved s)
    (hwell : WellFormed config.classifier s) (hpacket : packet ∈ s.queues q) :
    packet.tag = none := by
  apply hbestEffort.unsent hconserved
  simp [Egress.unsent, mem_stored hwell hpacket]

/-- Nothing expires. -/
theorem PushedBestEffort.expired (hbestEffort : PushedBestEffort s) (hconserved : Conserved s) :
    s.log.expired = [] := by
  rw [List.eq_nil_iff_forall_not_mem]
  intro x hx
  obtain ⟨tag, htag, _⟩ := packetExpired_iff.mp (hconserved.expired x hx)
  have hunsent : x.2 ∈ s.unsent := List.mem_append_right _ (List.mem_map_of_mem hx)
  cases (hbestEffort.unsent hconserved hunsent).symm.trans htag

/-- All packets are in one queue. -/
theorem PushedBestEffort.exists_queue (hbestEffort : PushedBestEffort s)
    (hconserved : Conserved s) (hwell : WellFormed config.classifier s) :
    ∃ q, s.stored = s.queues q := by
  by_cases hempty : ∀ q, s.queues q = []
  · exact ⟨0, by simp [Egress.stored, Pools.pool, hempty]⟩
  · obtain ⟨q, hq⟩ := not_forall.mp hempty
    obtain ⟨p, hp⟩ := List.exists_mem_of_ne_nil _ hq
    refine ⟨q, Pools.pool_eq (nodup_collections hwell)
      (List.mem_of_getElem? (hwell.collection hp)) fun a _ ha => ?_⟩
    rw [List.eq_nil_iff_forall_not_mem]
    intro x hx
    apply ha
    apply hwell.queue_unique hx hp
    apply (kind_isBestEffort config.classifier).sameDelta
    · simp [isBestEffort, hbestEffort.queued hconserved hwell hx]
    · simp [isBestEffort, hbestEffort.queued hconserved hwell hp]

/-! ## Service -/

/-- The egress as a server of its packets. -/
def served (s : Egress) : Server Packet SimTime :=
  { now := s.now, queue := s.stored, idle := s.txIdleCounter == 1 }

/-- A transition of the egress as an event of the server. -/
def servedEvent (x : Transition Egress EgressEvent) : Option (Event Packet SimTime) :=
  match x.event with
  | .push t packet => some (.arrive t { packet with id := x.pre.nextPacket })
  | .txIdle t => some (.free t)
  | .timer t _ => x.post.log.sent.getLast?.map fun sent => .depart t sent.packet

variable {type : SchedulerType} {count : Nat} {history : List (Transition Egress EgressEvent)}

theorem run_invariants (hcapacity : ∀ q, KeepsOne (config.capacity q))
    (hrun : EgressRun type.scheduler config count history s) :
    WellFormed config.classifier s ∧ Conserved s := by
  obtain ⟨d⟩ := exists_discipline config hcapacity type.eq_or
  exact ⟨(d.inv_run hcapacity hrun).1.1, run_conserved d hcapacity hrun⟩

/-- What was pushed was sent or is stored, in this order. -/
theorem pushed_eq (hunlimited : Unlimited config)
    (hrun : EgressRun type.scheduler config count history s)
    (hbestEffort : PushedBestEffort s) :
    s.log.pushed = s.log.sent.map SentPacket.stored ++ s.stored := by
  obtain ⟨d⟩ := exists_discipline config hunlimited.keepsOne type.eq_or
  obtain ⟨hwell, hconserved⟩ := run_invariants hunlimited.keepsOne hrun
  obtain ⟨q, hq⟩ := hbestEffort.exists_queue hconserved hwell
  have hall : ∀ packets : List Packet, (∀ packet ∈ packets, packet ∈ s.log.pushed) →
      packets.filter isBestEffort = packets := by
    intro packets hpackets
    rw [List.filter_eq_self]
    intro packet hpacket
    simp [isBestEffort, hbestEffort packet (hpackets packet hpacket)]
  have hperm := hconserved.pushed_perm
  have hsublist := run_inArrivalOrder hunlimited.keepsOne type.eq_or
    (kind_isBestEffort config.classifier) alike_isBestEffort hrun q
  rw [hall _ fun packet hpacket => hperm.subset (List.mem_append_right _ hpacket), ← hq,
    hall _ fun packet hpacket => hperm.subset (by simp [Egress.unsent, hpacket]),
    hall _ fun packet hpacket => hpacket] at hsublist
  refine (hsublist.eq_of_length ?_).symm
  have hlength := hperm.length_eq
  rw [Egress.unsent, dropped_of_unlimited d hunlimited hrun, hbestEffort.expired hconserved]
    at hlength
  simp only [List.length_append, List.length_nil, List.map_nil] at hlength ⊢
  omega

/-- A pending timer is due. -/
theorem due_of_bestEffort (hcapacity : ∀ q, KeepsOne (config.capacity q))
    (hrun : EgressRun type.scheduler config count history s)
    (hbestEffort : PushedBestEffort s) : ∀ pending ∈ s.timer.events, pending.2 = s.now := by
  obtain ⟨hwell, hconserved⟩ := run_invariants hcapacity hrun
  cases type with
  | dbfPriorityScheduler =>
      rcases ((DBFPriorityScheduler.discipline config hcapacity).inv_run hcapacity hrun).1.2 with
        ⟨_, hevents⟩ | ⟨msg, T, front, harmed⟩
      · simp [hevents]
      · have harmed : DBFPriorityScheduler.Armed s msg T front := harmed
        obtain ⟨rest, hqueue⟩ := harmed.queue
        have htag : front.tag = none :=
          hbestEffort.queued hconserved hwell (hqueue ▸ List.mem_cons_self)
        simp [harmed.events, harmed.time, scheduleTime, htag]
  | dbfDynamicPriorityScheduler =>
      rcases ((DBFDynamicPriorityScheduler.discipline config hcapacity).inv_run hcapacity hrun).1.2
        with ⟨_, hevents⟩ | ⟨msg, T, p, harmed⟩
      · simp [hevents]
      · have harmed : DBFDynamicPriorityScheduler.Armed s msg T p := harmed
        simp [harmed.events, harmed.time]

/-- A timer is pending whenever the link is idle and a packet is stored. -/
theorem armed_of_bestEffort (hcapacity : ∀ q, KeepsOne (config.capacity q))
    (hrun : EgressRun type.scheduler config count history s) (hbestEffort : PushedBestEffort s)
    (hidle : s.txIdleCounter = 1) (hpacket : packet ∈ s.queues q) : s.timer.events ≠ [] := by
  intro hevents
  obtain ⟨hwell, hconserved⟩ := run_invariants hcapacity hrun
  have hleft := type.run_attended hcapacity hrun hidle hevents q packet hpacket
  cases type with
  | dbfPriorityScheduler => exact hleft
  | dbfDynamicPriorityScheduler =>
      have hunready : isPacketReadyToSend s.now packet = false := hleft
      simp [isPacketReadyToSend, hbestEffort.queued hconserved hwell hpacket] at hunready

theorem passes_of_bestEffort (hcapacity : ∀ q, KeepsOne (config.capacity q))
    (hrun : EgressRun type.scheduler config count history s) (hbestEffort : PushedBestEffort s)
    (henabled : Enabled s event) : Passes (served s) event.simTime := by
  obtain ⟨hnow, htimers, _⟩ := henabled
  refine ⟨hnow, fun hidle hwaiting => ?_⟩
  obtain ⟨packet, hpacket⟩ := List.exists_mem_of_ne_nil _ hwaiting
  obtain ⟨q, _, hq⟩ := Pools.mem_pool.mp hpacket
  have hidle : s.txIdleCounter = 1 := eq_of_beq hidle
  obtain ⟨pending, hpending⟩ := List.exists_mem_of_ne_nil _
    (armed_of_bestEffort hcapacity hrun hbestEffort hidle hq)
  have hdue := due_of_bestEffort hcapacity hrun hbestEffort pending hpending
  exact le_antisymm ((htimers pending hpending).trans_eq hdue) hnow

/-- **One step** of an egress is one of the server. -/
theorem serves (hunlimited : Unlimited config)
    (hrun : EgressRun type.scheduler config count history s)
    (hstep : EgressStep type.scheduler config s event s') (hbestEffort : PushedBestEffort s') :
    ∃ e, servedEvent ⟨s, event, s'⟩ = some e ∧ Step (served s) e (served s') := by
  obtain ⟨d⟩ := exists_discipline config hunlimited.keepsOne type.eq_or
  obtain ⟨hwell, htimer⟩ := (d.inv_run hunlimited.keepsOne hrun).1
  obtain ⟨heffect, _⟩ := d.step hunlimited.keepsOne hwell htimer hstep
  have hbefore : PushedBestEffort s := fun packet hpacket =>
    hbestEffort packet (heffect.pushed ▸ List.mem_append_left _ hpacket)
  have hpasses := passes_of_bestEffort hunlimited.keepsOne hrun hbefore hstep.1
  -- what is stored follows from what was pushed and sent
  have horder := pushed_eq hunlimited hrun hbefore
  have horder' := pushed_eq hunlimited (hrun.next hstep) hbestEffort
  rw [heffect.pushed, horder] at horder'
  cases heffect with
  | @push t packet delta q registry timer hdelta hclass =>
      refine ⟨_, rfl, ?_⟩
      have hstored : ((s.pushed config t packet registry q).swept timer).stored =
          s.stored ++ [{ packet with id := s.nextPacket }] := by
        rw [List.append_assoc] at horder'
        exact (List.append_cancel_left horder').symm
      have harrive := Step.arrive { packet with id := s.nextPacket } hpasses
      unfold served at harrive ⊢
      rw [hstored]
      exact harrive
  | @txIdle t timer hidle =>
      refine ⟨_, rfl, ?_⟩
      have hstored : ((s.idled t).swept timer).stored = s.stored := by
        rw [EgressEvent.arriving, List.append_nil] at horder'
        exact (List.append_cancel_left horder').symm
      have hfree := Step.free hpasses (by simp [served, hidle])
      unfold served at hfree ⊢
      rw [hstored]
      exact hfree
  | @timer t msg p out timer hevents hidle hmem hready hunexpired hout hdisarmed =>
      have htag : p.tag = none := hbefore.queued (run_invariants hunlimited.keepsOne hrun).2 hwell
        hmem
      cases (writeEDelay_untagged htag).symm.trans hout
      refine ⟨.depart t p, by simp [servedEvent, Egress.fired], ?_⟩
      have hstored : s.stored = p :: (s.fired t msg.collectionIdx p p timer).stored := by
        have hsent : (s.fired t msg.collectionIdx p p timer).log.sent.map SentPacket.stored =
            s.log.sent.map SentPacket.stored ++ [p] := by
          simp [Egress.fired]
        rw [EgressEvent.arriving, List.append_nil, hsent, List.append_assoc] at horder'
        exact List.append_cancel_left horder'
      exact Step.depart hpasses (by simp [served, hidle]) hstored

end

/-! ## A network without tags -/

namespace Network

variable {N P : Type} {net : Network N P} {s s' : NetworkState N P} {event : NetworkEvent N P}

/-- Only senders in best-effort mode encapsulate. -/
def EncapsulatesBestEffort (net : Network N P) (event : NetworkEvent N P) : Prop :=
  ∀ t node datagram, event = .encapsulate t node datagram → (net.computer node).isBEMode = true

structure BestEffortOnly (s : NetworkState N P) : Prop where
  inside : ∀ x ∈ s.inside, x.2.tag = none
  pushed : ∀ p, PushedBestEffort (s.egress p)
  links : ∀ frame ∈ s.links, frame.packet.dbfOption = none
  refused : s.log.refused = []

/-- What one egress was pushed, after a step of it. -/
theorem BestEffortOnly.pushed_update [DecidableEq P] (h : BestEffortOnly s) (hsound : net.Sound s)
    {p : P} {e : EgressEvent} {egress : Egress} (hstep : net.PortStep p (s.egress p) e egress)
    (harriving : ∀ packet ∈ e.arriving (s.egress p), packet.tag = none) (a : P) :
    PushedBestEffort (Function.update s.egress p egress a) := by
  by_cases ha : a = p
  · subst ha
    rw [Function.update_self]
    intro packet hpacket
    rw [(hsound.portEffect hstep).pushed] at hpacket
    exact (List.mem_append.mp hpacket).elim (h.pushed a packet) (harriving packet)
  · rw [Function.update_of_ne ha]
    exact h.pushed a

variable [DecidableEq N] [DecidableEq P]

theorem BestEffortOnly.step (hsound : net.Sound s) (h : BestEffortOnly s)
    (hsender : net.EncapsulatesBestEffort event) (heffect : NetworkEffect net s event s') :
    BestEffortOnly s' := by
  cases heffect with
  | @encapsulate t node datagram packet hfresh hpacket =>
      refine ⟨fun x hx => ?_, h.pushed, h.links, h.refused⟩
      rcases List.mem_append.mp hx with hold | hnew
      · exact h.inside x hold
      · rw [List.mem_singleton] at hnew
        subst hnew
        obtain ⟨packet', hok, _, hbestEffort, _⟩ :=
          encapsulate_spec (net.computer node) t hfresh
        cases hok.symm.trans hpacket
        exact (hbestEffort (hsender t node datagram rfl)).1
  | refuse hmem hsend =>
      rw [sendPacketToNIC_untagged (h.inside _ hmem)] at hsend
      cases hsend
  | @push t p packet queued egress hmem hsend hqueued hcontent hstep =>
      have htag := h.inside _ hmem
      rw [sendPacketToNIC_untagged htag] at hsend
      cases hsend
      refine ⟨fun x hx => h.inside x (List.mem_of_mem_erase hx),
        h.pushed_update hsound hstep fun packet' hpacket => ?_, h.links, h.refused⟩
      cases List.mem_singleton.mp hpacket
      exact htag
  | txIdle hstep =>
      exact ⟨h.inside, h.pushed_update hsound hstep (by simp [EgressEvent.arriving]), h.links,
        h.refused⟩
  | @timer t p msg egress sent hstep hsent =>
      refine ⟨h.inside, h.pushed_update hsound hstep (by simp [EgressEvent.arriving]),
        fun frame hframe => ?_, h.refused⟩
      rcases List.mem_append.mp hframe with hold | hnew
      · exact h.links frame hold
      · rw [List.mem_singleton] at hnew
        subst hnew
        obtain ⟨_, hmatch, ⟨q, hmem⟩, hwrite, _⟩ := exists_stored hsound hstep hsent
        obtain ⟨hwell, _, hconserved⟩ := hsound.port p
        have htag := (h.pushed p).queued hconserved hwell hmem
        rw [writeEDelay_untagged htag, Option.some.injEq] at hwrite
        rw [htag, Option.isSome_none, eq_comm, Option.isSome_eq_false_iff,
          Option.isNone_iff_eq_none, hwrite] at hmatch
        exact hmatch
  | deliver hframe harrival hreceived hlocal =>
      exact ⟨h.inside, h.pushed, fun frame hframe => h.links frame (List.mem_of_mem_erase hframe),
        h.refused⟩
  | @forward t frame received hframe harrival hreceived hlocal =>
      refine ⟨fun x hx => ?_, h.pushed, fun frame hframe =>
        h.links frame (List.mem_of_mem_erase hframe), h.refused⟩
      rcases List.mem_append.mp hx with hold | hnew
      · exact h.inside x hold
      · rw [List.mem_singleton] at hnew
        subst hnew
        obtain ⟨received', hok, _, hoption, htag⟩ :=
          ingress_spec t (hsound.links frame hframe).1
        cases hok.symm.trans hreceived
        simpa [hoption, h.links frame hframe] using htag

end Network

end DelayBasedForwarding
