import DelayBasedForwarding.DeliveryService
import DelayBasedForwarding.RouteAdmission

/-!
# What the headers of a flow say

A packet does not carry the time of its encapsulation.  Over a consistent route it can be
told from the headers all the same: the delay in an option is exactly the time since the
encapsulation, and the window of a queued packet is an equal share of the time that the
sender's bounds leave there.
-/

namespace DelayBasedForwarding

open DBFComputer TransitionRuns

theorem DBFIpv4Option.Accepted.le_dMax {option : DBFIpv4Option} (h : option.Accepted)
    (hfinite : option.dMax ≠ 0) : option.dMin ≤ option.dMax := by
  obtain ⟨par, sender, hinitialize, hmin, hmax⟩ := h
  obtain ⟨_, _, hmin_nonneg, hmax_nonneg, horder⟩ := initialize_ok hinitialize
  rw [hmax] at hfinite
  rw [hmin, hmax]
  rcases hmin_nonneg.eq_or_lt with hzero | hpos
  · rw [← hzero]
    exact hmax_nonneg
  · exact horder hpos (hmax_nonneg.lt_of_ne' hfinite)

namespace Network

variable {N P : Type} {net : Network N P} {r : FlowRoute N P} {p : P}
  {packet : Packet} {tag : DBFHeaderTag} {option : DBFIpv4Option} {s : NetworkState N P}

/-- When the transmission of a frame began. -/
def departure (net : Network N P) (frame : Frame P) : SimTime :=
  frame.arrival - (net.networkInterface frame.port).linkDelay -
    (net.networkInterface frame.port).transmissionTime frame.packet.bitLength

/-- The packet was encapsulated at `origin`, by a sender with these bounds. -/
def EncapsulatedAt (net : Network N P) (log : NetworkLog N) (packet : Packet)
    (origin dMin dMax : SimTime) : Prop :=
  ∃ x ∈ log.encapsulated, x.2.1 = origin ∧ x.2.2.content = packet.content ∧
    (net.computer x.1).isBEMode = false ∧
    (net.computer x.1).dMin = dMin ∧ (net.computer x.1).dMax = dMax

/-- Until when a packet received at `tRcv` waits at `node` for a bound of its sender: an equal
    share of what the bound leaves on the rest of the route. -/
def localBound (net : Network N P) (r : FlowRoute N P) (node : N) (packet : Packet)
    (origin bound tRcv : SimTime) : SimTime :=
  if bound = 0 then tRcv
  else tRcv + (origin + bound - tRcv - net.travelTime r node packet) / r.hops node

/-! ## Promises and encapsulations -/

theorem exists_encapsulated {log : NetworkLog N} {promise : Promise}
    (h : promise ∈ net.promised r log) :
    ∃ x ∈ log.encapsulated, promise = net.encapsulatedPromise x.1 x.2.1 x.2.2 := by
  obtain ⟨x, hx, hpromise⟩ := List.mem_map.mp (Multiset.mem_coe.mp h)
  exact ⟨x, (List.mem_filter.mp hx).1, hpromise.symm⟩

/-- What a packet with an option promises is what its sender has promised. -/
theorem encapsulatedAt_of_promised {log : NetworkLog N} {origin : SimTime}
    (h : packet.promise origin ∈ net.promised r log) (hoption : packet.dbfOption = some option) :
    net.EncapsulatedAt log packet origin option.dMin option.dMax := by
  obtain ⟨x, hx, hpromise⟩ := exists_encapsulated h
  unfold Packet.promise encapsulatedPromise at hpromise
  rw [hoption, Option.map_some, Promise.mk.injEq] at hpromise
  obtain ⟨hcontent, hobjective⟩ := hpromise
  split at hobjective
  · cases hobjective
  · rename_i hmode
    rw [Option.some.injEq, Objective.mk.injEq] at hobjective
    obtain ⟨horigin, hmin, hmax⟩ := hobjective
    exact ⟨x, hx, horigin.symm, hcontent.symm, Bool.eq_false_of_not_eq_true hmode, hmin.symm,
      hmax.symm⟩

section

variable [DecidableEq N] [DecidableEq P] [Fintype P]

/-- What is pending of a flow was promised by its senders. -/
theorem pending_le_promised
    {history : List (Transition (NetworkState N P) (NetworkEvent N P))}
    (hroute : net.Consistent r) (hrun : net.NetworkRun history s)
    (hrouted : ∀ x ∈ history, RoutedOver r x.event) :
    net.pending r s ≤ net.promised r s.log := by
  obtain ⟨history', hrun', hshown⟩ := hrun.simulate (run_simulates hroute hrun hrouted)
  rw [pending_initial net r] at hrun'
  obtain ⟨deliveries, _, haccepted, _, _⟩ := Delivery.exists_promises Promise.content hrun'
  rw [hshown, ← (log_run hrun).1] at haccepted
  exact (Multiset.le_add_right _ _).trans haccepted

omit [DecidableEq N] [DecidableEq P] in
theorem queuedPromise_mem_pending (hsound : net.Sound s) {q : QueueId}
    (hmem : packet ∈ (s.egress p).queues q) (hin : packet.InFlow r) :
    packet.queuedPromise ∈ net.pending r s := by
  refine Multiset.mem_filter.mpr ⟨?_, inFlow_content.mpr hin⟩
  apply Multiset.mem_add.mpr ∘ Or.inl
  apply Multiset.mem_add.mpr ∘ Or.inr
  refine Multiset.mem_sum.mpr ⟨p, Finset.mem_univ p, ?_⟩
  exact Multiset.mem_map_of_mem _ (mem_stored (hsound.port p).1 hmem)

omit [DecidableEq N] [DecidableEq P] in
theorem framePromise_mem_pending {frame : Frame P} (hmem : frame ∈ s.links)
    (hin : frame.packet.InFlow r) : net.framePromise frame ∈ net.pending r s := by
  refine Multiset.mem_filter.mpr ⟨?_, inFlow_content.mpr hin⟩
  apply Multiset.mem_add.mpr ∘ Or.inr
  exact Multiset.mem_map_of_mem _ hmem

end

/-! ## Windows -/

/-- The window of a queued packet, from the time of its encapsulation. -/
theorem localBudget_eq_localBound (hroute : net.Consistent r) (huses : r.uses p)
    {row : DbfFibEntry}
    (hrow : (net.computer (net.networkInterface p).node).dbfFIB.lookup r.destination = some row)
    (packet : Packet) (bound eDelay tRcv : SimTime) :
    localBudget bound eDelay row
        ((net.computer (net.networkInterface p).node).calculateTransmissionTime packet) + tRcv =
      net.localBound r (net.networkInterface p).node packet (tRcv - eDelay) bound tRcv := by
  obtain ⟨hremaining, hhops⟩ := remainingDelay_eq hroute huses hrow packet
  unfold localBudget localBound
  rw [hremaining, hhops]
  split
  · simp
  · ring

theorem localBound_mono {node : N} {origin dMin dMax tRcv : SimTime} (hmax : dMax ≠ 0)
    (hle : dMin ≤ dMax)
    (hreach : tRcv + net.travelTime r node packet ≤ origin + dMax) :
    tRcv ≤ net.localBound r node packet origin dMax tRcv ∧
      net.localBound r node packet origin dMin tRcv ≤
        net.localBound r node packet origin dMax tRcv := by
  have hhops : (0 : ℚ) ≤ r.hops node := Nat.cast_nonneg _
  have hopen : tRcv ≤ net.localBound r node packet origin dMax tRcv := by
    rw [localBound, if_neg hmax, le_add_iff_nonneg_right]
    exact div_nonneg (by linarith) hhops
  refine ⟨hopen, ?_⟩
  rw [localBound]
  split
  · exact hopen
  · rw [localBound, if_neg hmax]
    gcongr

/-! ## Over runs -/

variable [DecidableEq N] [DecidableEq P] [Fintype P]

/-- **What the headers say.**  In every run in which a flow keeps to a consistent route:

    * the option of each of its packets on a link holds the bounds of a sender that has
      encapsulated this content, and the time from then to the departure;
    * the tag of each of its packets in a queue holds the bounds of such a sender and the time
      from then to the receipt, and its window follows from these;
    * a window with an end is not over at the receipt and not empty. -/
theorem flow_headers (net : Network N P) (r : FlowRoute N P)
    (history : List (Transition (NetworkState N P) (NetworkEvent N P))) (s : NetworkState N P)
    (hroute : net.Consistent r) (hrun : net.NetworkRun history s)
    (hrouted : ∀ x ∈ history, RoutedOver r x.event) :
    (∀ frame ∈ s.links, frame.packet.InFlow r → ∀ option, frame.packet.dbfOption = some option →
      ∃ origin, net.EncapsulatedAt s.log frame.packet origin option.dMin option.dMax ∧
        option.eDelay = net.departure frame - origin) ∧
    ∀ p q, ∀ packet ∈ (s.egress p).queues q, packet.InFlow r → ∀ tag, packet.tag = some tag →
      ∃ origin, net.EncapsulatedAt s.log packet origin tag.dMin tag.dMax ∧
        tag.eDelay = tag.tRcv - origin ∧
        tag.tMin = net.localBound r (net.networkInterface p).node packet origin tag.dMin tag.tRcv ∧
        tag.tMax = net.localBound r (net.networkInterface p).node packet origin tag.dMax tag.tRcv ∧
        (tag.dMax ≠ 0 → tag.tRcv ≤ tag.tMax ∧ tag.tMin ≤ tag.tMax) := by
  have hpromised := pending_le_promised hroute hrun hrouted
  obtain ⟨hsound, hflowing, hadmitted⟩ := (run_admitted hroute hrun hrouted).1
  refine ⟨fun frame hframe hin option hoption => ?_, fun p q packet hpacket hin tag htag => ?_⟩
  · have hmem := Multiset.mem_of_le hpromised (framePromise_mem_pending hframe hin)
    refine ⟨_, encapsulatedAt_of_promised hmem hoption, ?_⟩
    simp [frameOrigin, hoption, departure]
  · have hlawful := hsound.queued p q packet hpacket
    obtain ⟨option, hoption⟩ := hlawful.exists_option htag
    have hqueued := hflowing.queued p q packet hpacket
    have huses := hqueued.uses hin
    obtain ⟨hmin, hmax⟩ := hqueued.bounds tag option htag hoption
    obtain ⟨row, hrow, htMin, htMax⟩ := hqueued.window hin tag htag
    rw [localBudget_eq_localBound hroute huses hrow] at htMin htMax
    have hmem := Multiset.mem_of_le hpromised (queuedPromise_mem_pending hsound hpacket hin)
    have hencapsulated := encapsulatedAt_of_promised hmem hoption
    rw [← hmin, ← hmax] at hencapsulated
    have horigin : packet.queuedOrigin = tag.tRcv - tag.eDelay := by
      simp [Packet.queuedOrigin, htag]
    rw [horigin] at hencapsulated
    refine ⟨_, hencapsulated, by ring, htMin, htMax, fun hfinite => ?_⟩
    have hreach := hadmitted.queued p q packet hpacket hin tag htag hfinite
    rw [htMin, htMax]
    apply localBound_mono hfinite
    · rw [hmin, hmax]
      exact (hlawful.accepted option hoption).le_dMax (hmax ▸ hfinite)
    · linarith

/-! The datagram of the sample has waited a second at its sender, and its window at the router
is what its bounds of 6 and 10 seconds leave there: it comes at 3, and the last link takes 2. -/

theorem flow_headers_sample : ∃ history s, sampleNetwork.NetworkRun history s ∧
    ∃ packet ∈ (s.egress 1).queues 0, ∃ tag, packet.tag = some tag ∧
      tag.tMin = 4 ∧ tag.tMax = 8 ∧
      ∃ origin, sampleNetwork.EncapsulatedAt s.log packet origin tag.dMin tag.dMax ∧
        tag.eDelay = tag.tRcv - origin ∧
        tag.tMax = sampleNetwork.localBound sampleRoute 1 packet origin tag.dMax tag.tRcv := by
  obtain ⟨history, s, hrun, _, hqueued⟩ := Run.exists_of_replay sampleNetwork.step_of_next
    (show (replay sampleNetwork.next sampleNetwork.initial (sampleJourney.take 7)).any
      (fun s => ((s.egress 1).queues 0).any fun packet => decide (packet.InFlow sampleRoute) &&
        packet.tag.any fun tag => decide (tag.tMin = 4 ∧ tag.tMax = 8)) = true by decide +kernel)
  obtain ⟨packet, hpacket, hmarked⟩ := List.any_eq_true.mp hqueued
  rw [Bool.and_eq_true, decide_eq_true_eq, Option.any_eq_true] at hmarked
  obtain ⟨hin, tag, htag, hwindow⟩ := hmarked
  obtain ⟨hmin, hmax⟩ := of_decide_eq_true hwindow
  obtain ⟨origin, hencapsulated, heDelay, _, htMax, _⟩ := (flow_headers sampleNetwork sampleRoute
    history s sampleRoute_consistent hrun fun _ _ _ _ _ _ _ => trivial).2 1 0 packet hpacket hin
    tag htag
  exact ⟨history, s, hrun, packet, hpacket, tag, htag, hmin, hmax, origin, hencapsulated, heDelay,
    htMax⟩

end Network

end DelayBasedForwarding
