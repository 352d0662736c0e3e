import DelayBasedForwarding.PathGuarantee

/-!
# Admission and the send window

`DBFIpv4::sendPacketToNIC` deletes a packet whose window has closed before it was
received, and forwards any other.  The Service Level Objective that `initialize`
accepts makes the forwarded window one that is not inverted.
-/

namespace DelayBasedForwarding

open DBFComputer

/-! ## The packets of one node -/

/-- A tagged packet of a sender whose parameters `initialize` accepted, at a node
    that knows its source and its destination, at least one hop away. -/
structure AtNode (par : ComputerParameters) (computer : DBFComputer) (packet : Packet)
    (tag : DBFHeaderTag) (option : DBFIpv4Option) (source destination : DbfFibEntry) : Prop where
  accepted : ∃ sender, DBFComputer.initialize par = .ok sender
  tag : packet.tag = some tag
  header : ∃ header, packet.ipv4Header = some header ∧
    getMutableDBFIpv4Option header = some option ∧
    computer.dbfFIB.lookup header.srcAddress = some source ∧
    computer.dbfFIB.lookup header.destAddress = some destination
  dMin : option.dMin = par.dMin
  dMax : option.dMax = par.dMax
  hops : 1 ≤ destination.hops.toUInt32

/-- The experienced delay after the update: the link counts for what came from the network. -/
def updatedDelay (computer : DBFComputer) (packet : Packet) (tag : DBFHeaderTag)
    (option : DBFIpv4Option) (source : DbfFibEntry) : SimTime :=
  option.eDelay +
    if tag.fromNetwork then source.lDelay + computer.calculateTransmissionTime packet else 0

/-- `toDelay` of the tag: the row's delay and one transmission for each hop. -/
def toDelay (computer : DBFComputer) (packet : Packet) (destination : DbfFibEntry) : SimTime :=
  destination.hops.toUInt32.toNat * computer.calculateTransmissionTime packet +
    destination.toDelay

section

variable {par : ComputerParameters} {computer : DBFComputer} {packet : Packet}
  {tag : DBFHeaderTag} {option : DBFIpv4Option} {source destination : DbfFibEntry}

theorem experienced_eq :
    experienced tag option source (computer.calculateTransmissionTime packet) =
      updatedDelay computer packet tag option source := by
  unfold experienced updatedDelay
  by_cases hnetwork : tag.fromNetwork <;> simp [hnetwork, add_assoc]

theorem hops_pos (h : 1 ≤ destination.hops.toUInt32) :
    (0 : SimTime) < destination.hops.toUInt32.toNat := by
  have hone : 1 ≤ destination.hops.toUInt32.toNat := h
  exact_mod_cast hone

/-- The Service Level Objective of the packet. -/
theorem AtNode.bounds (h : AtNode par computer packet tag option source destination) :
    0 ≤ option.dMin ∧ 0 ≤ option.dMax ∧
      (option.dMin ≠ 0 → option.dMax ≠ 0 → option.dMin ≤ option.dMax) := by
  obtain ⟨sender, hinit⟩ := h.accepted
  obtain ⟨_, _, hmin, hmax, horder⟩ := initialize_ok hinit
  rw [h.dMin, h.dMax]
  exact ⟨hmin, hmax, fun hmin' hmax' => horder (hmin.lt_of_ne' hmin') (hmax.lt_of_ne' hmax')⟩

/-- The tag `processDBFPacket` leaves: every field the window is made of. -/
structure Window (computer : DBFComputer) (packet : Packet) (tag : DBFHeaderTag)
    (option : DBFIpv4Option) (source destination : DbfFibEntry) (tag' : DBFHeaderTag) : Prop where
  dMin : tag'.dMin = option.dMin
  dMax : tag'.dMax = option.dMax
  tRcv : tag'.tRcv = tag.tRcv
  eDelay : tag'.eDelay = updatedDelay computer packet tag option source
  toDelay : tag'.toDelay = toDelay computer packet destination
  tMin : tag'.tMin = (if option.dMin = 0 then 0 else option.dMin - tag'.toDelay - tag'.eDelay) /
    destination.hops.toUInt32.toNat + tag.tRcv
  tMax : tag'.tMax = (if option.dMax = 0 then 0 else option.dMax - tag'.toDelay - tag'.eDelay) /
    destination.hops.toUInt32.toNat + tag.tRcv

/-- `sendPacketToNIC` on such a packet: it is processed, and then forwarded or deleted. -/
theorem sendPacketToNIC_ok (h : AtNode par computer packet tag option source destination) :
    ∃ processed tag', processed.tag = some tag' ∧
      Window computer packet tag option source destination tag' ∧
      DBFIpv4.sendPacketToNIC computer packet =
        .ok (if isAlreadyExpired processed then none else some processed) := by
  obtain ⟨header, hheader, hoption, hsource, hdestination⟩ := h.header
  have hhops : destination.hops.toUInt32 ≠ 0 := by
    rintro hzero
    have := h.hops
    rw [hzero] at this
    exact absurd this (by decide)
  obtain ⟨processed, hprocess, htag⟩ : ∃ processed,
      computer.processDBFPacket packet = .ok processed ∧
      processed.tag = some (processedTag tag option source destination
        (computer.calculateTransmissionTime packet)) :=
    ⟨_, processDBFPacket_ok computer hheader hoption h.tag hsource hdestination hhops, rfl⟩
  refine ⟨processed, _, htag, ⟨rfl, rfl, rfl, experienced_eq, rfl, rfl, rfl⟩, ?_⟩
  simp only [DBFIpv4.sendPacketToNIC, h.tag, Option.isSome_some, if_true, hprocess, bind,
    Except.bind, pure, Except.pure]

theorem isAlreadyExpired_iff {processed : Packet} {tag' : DBFHeaderTag}
    (hops : 1 ≤ destination.hops.toUInt32) (htag : processed.tag = some tag')
    (hwindow : Window computer packet tag option source destination tag') :
    isAlreadyExpired processed = true ↔
      option.dMax ≠ 0 ∧ option.dMax < tag'.eDelay + tag'.toDelay := by
  have hpos := hops_pos hops
  unfold isAlreadyExpired
  rw [htag]
  simp only [hasInfiniteDmax, hwindow.dMax, hwindow.tMax, hwindow.tRcv, Bool.and_eq_true,
    Bool.not_eq_true', beq_eq_false_iff_ne, decide_eq_true_eq]
  apply and_congr_right
  intro hfinite
  -- the budget for the upper bound is negative
  rw [if_neg hfinite, add_lt_iff_neg_right, div_neg_iff]
  constructor
  · rintro (⟨_, hneg⟩ | ⟨hbudget, _⟩)
    · exact absurd hneg (not_lt.mpr hpos.le)
    · linarith
  · intro hlate
    right
    exact ⟨by linarith, hpos⟩

/-- The window of a packet of finite `dMax` that is not deleted. -/
theorem window_le (h : AtNode par computer packet tag option source destination)
    {tag' : DBFHeaderTag} (hwindow : Window computer packet tag option source destination tag')
    (hfinite : option.dMax ≠ 0) (halive : ¬ option.dMax < tag'.eDelay + tag'.toDelay) :
    max tag'.tMin tag'.tRcv ≤ tag'.tMax := by
  have hpos := hops_pos h.hops
  have hbudget : 0 ≤ option.dMax - tag'.toDelay - tag'.eDelay := by linarith
  have hmax : 0 ≤ (option.dMax - tag'.toDelay - tag'.eDelay) /
      destination.hops.toUInt32.toNat := div_nonneg hbudget hpos.le
  rw [hwindow.tMin, hwindow.tMax, hwindow.tRcv, if_neg hfinite]
  apply max_le
  · by_cases hmin : option.dMin = 0
    · rw [if_pos hmin, zero_div]
      linarith
    · rw [if_neg hmin]
      have hbounds := h.bounds.2.2 hmin hfinite
      have : (option.dMin - tag'.toDelay - tag'.eDelay) / destination.hops.toUInt32.toNat ≤
          (option.dMax - tag'.toDelay - tag'.eDelay) / destination.hops.toUInt32.toNat :=
        div_le_div_of_nonneg_right (by linarith) hpos.le
      linarith
  · linarith

end

/-- **Admission and well-formed window.**  For parameters `initialize` accepts and
    a destination at least one hop away, `sendPacketToNIC` deletes a tagged packet
    exactly when its `dMax` is finite and the updated experienced delay and the
    delay to the destination exceed it, and otherwise forwards it.  What it
    forwards with a finite `dMax` has a window that is not inverted. -/
theorem admission_and_window (par : ComputerParameters) (computer : DBFComputer)
    (packet : Packet) (tag : DBFHeaderTag) (option : DBFIpv4Option)
    (source destination : DbfFibEntry)
    (h : AtNode par computer packet tag option source destination) :
    (DBFIpv4.sendPacketToNIC computer packet = .ok none ↔
      par.dMax ≠ 0 ∧ par.dMax < updatedDelay computer packet tag option source +
        toDelay computer packet destination) ∧
    (DBFIpv4.sendPacketToNIC computer packet ≠ .ok none →
      ∃ forwarded, DBFIpv4.sendPacketToNIC computer packet = .ok (some forwarded)) ∧
    ∀ forwarded, DBFIpv4.sendPacketToNIC computer packet = .ok (some forwarded) →
      ∃ tag', forwarded.tag = some tag' ∧ tag'.dMin = par.dMin ∧ tag'.dMax = par.dMax ∧
        tag'.tRcv = tag.tRcv ∧ tag'.eDelay = updatedDelay computer packet tag option source ∧
        tag'.toDelay = toDelay computer packet destination ∧
        (par.dMax ≠ 0 → max tag'.tMin tag'.tRcv ≤ tag'.tMax) := by
  obtain ⟨processed, tag', htag, hwindow, hsend⟩ := sendPacketToNIC_ok h
  have hexpired := isAlreadyExpired_iff h.hops htag hwindow
  rw [hwindow.eDelay, hwindow.toDelay, h.dMax] at hexpired
  rw [hsend, ← hexpired]
  by_cases hdead : isAlreadyExpired processed = true
  · simp [hdead]
  · simp only [hdead]
    refine ⟨by simp, fun _ => ⟨processed, rfl⟩, ?_⟩
    rintro _ hforwarded
    cases hforwarded
    refine ⟨tag', htag, by rw [hwindow.dMin, h.dMin], by rw [hwindow.dMax, h.dMax],
      hwindow.tRcv, hwindow.eDelay, hwindow.toDelay, fun hfinite => ?_⟩
    apply window_le h hwindow (by rwa [h.dMax])
    rw [hwindow.eDelay, hwindow.toDelay, h.dMax]
    exact fun hlate => hdead (hexpired.mpr ⟨hfinite, hlate⟩)

/-! The sender of the two-node path: two hops of one second and two of delay. -/

theorem sampleEncapsulated_atNode : AtNode sampleParameters sampleSender.computer
    sampleEncapsulated { tRcv := 0, fromNetwork := false } { dMin := 6, dMax := 10 }
    { hops := 0, lDelay := 0, hDelay := 0, fromDelay := 0, toDelay := 0 }
    { hops := 2, lDelay := 1, hDelay := 1, fromDelay := 2, toDelay := 2 } :=
  ⟨⟨_, rfl⟩, rfl, ⟨_, rfl, rfl, by decide +kernel, by decide +kernel⟩, rfl, rfl, by decide⟩

theorem admission_and_window_sample : ∃ forwarded tag',
    DBFIpv4.sendPacketToNIC sampleSender.computer sampleEncapsulated = .ok (some forwarded) ∧
    forwarded.tag = some tag' ∧ max tag'.tMin tag'.tRcv ≤ tag'.tMax := by
  obtain ⟨hdropped, hforwards, hwindow⟩ := admission_and_window _ _ _ _ _ _ _
    sampleEncapsulated_atNode
  have hkept : DBFIpv4.sendPacketToNIC sampleSender.computer sampleEncapsulated ≠ .ok none :=
    fun h => absurd (hdropped.mp h).2 (by decide +kernel)
  obtain ⟨forwarded, hsend⟩ := hforwards hkept
  obtain ⟨tag', htag, _, _, _, _, _, hle⟩ := hwindow forwarded hsend
  exact ⟨forwarded, tag', hsend, htag, hle (by decide +kernel)⟩

end DelayBasedForwarding
