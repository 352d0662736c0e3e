import DelayBasedForwarding.EgressSteps

/-!
# Arming and cancelling

The small facts about the timer both schedulers use: what `cancelAndDelete` does
to a pending and to a deleted message, and what the time a packet is scheduled
for means for that packet.
-/

namespace DelayBasedForwarding

open FoldInvariant

namespace Timer

variable {timer : Timer} {msg : DBFPriorityScheduleMsg} {T : SimTime}

/-- One timer is pending, for a new message. -/
def rearm (timer : Timer) (collectionIdx : Nat) (time : SimTime) : Timer :=
  { timer with
    selfMsg := some { id := timer.nextMsg, collectionIdx := collectionIdx },
    events := [({ id := timer.nextMsg, collectionIdx := collectionIdx }, time)],
    nextMsg := timer.nextMsg + 1 }

@[simp] theorem selfMsg_use : (timer.use msg).selfMsg = timer.selfMsg := by
  unfold use
  split <;> rfl

@[simp] theorem events_use : (timer.use msg).events = timer.events := by
  unfold use
  split <;> rfl

@[simp] theorem selfMsg_cancelAndDelete :
    (timer.cancelAndDelete msg).selfMsg = timer.selfMsg := by
  simp [cancelAndDelete]

theorem events_cancelAndDelete (h : timer.events = [(msg, T)] ∨ timer.events = []) :
    (timer.cancelAndDelete msg).events = [] := by
  rcases h with h | h <;> simp [cancelAndDelete, h]

theorem use_pending (h : timer.events = [(msg, T)]) : timer.use msg = timer := by
  simp [use, h]

theorem cancelAndDelete_pending (h : timer.events = [(msg, T)]) :
    timer.cancelAndDelete msg = { timer with events := [] } := by
  simp [cancelAndDelete, use_pending h, h]

theorem cancelAndDelete_deleted (h : timer.events = []) :
    timer.cancelAndDelete msg = { timer with danglingUse := true } := by
  simp [cancelAndDelete, use, h]

theorem cancelSelfMsg_none (h : timer.selfMsg = none) : timer.cancelSelfMsg = timer := by
  simp [cancelSelfMsg, h]

theorem cancelSelfMsg_some (h : timer.selfMsg = some msg) :
    timer.cancelSelfMsg = timer.cancelAndDelete msg := by
  simp [cancelSelfMsg, h]

theorem cancelSelfMsg_pending (hself : timer.selfMsg = some msg)
    (h : timer.events = [(msg, T)]) : timer.cancelSelfMsg = { timer with events := [] } := by
  rw [cancelSelfMsg_some hself]
  exact cancelAndDelete_pending h

theorem cancelSelfMsg_deleted (hself : timer.selfMsg = some msg) (h : timer.events = []) :
    timer.cancelSelfMsg = { timer with danglingUse := true } := by
  rw [cancelSelfMsg_some hself]
  exact cancelAndDelete_deleted h

theorem scheduleAt_newSelfMsg {simTime time : SimTime} {collectionIdx : Nat}
    (h : timer.events = []) (htime : simTime ≤ time) :
    (timer.newSelfMsg collectionIdx).scheduleAt simTime time =
      .ok (timer.rearm collectionIdx time) := by
  simp [scheduleAt, newSelfMsg, rearm, h, not_lt.mpr htime]

end Timer

section

variable {simTime : SimTime} {packet : Packet}

/-- The earliest time from `t` on at which the packet is ready. -/
def readyAt (t : SimTime) (packet : Packet) : SimTime :=
  match packet.tag with
  | some tag => max t tag.tMin
  | none => t

theorem scheduleTime_eq : scheduleTime simTime packet = readyAt simTime packet := by
  unfold scheduleTime readyAt
  cases packet.tag with
  | none => rfl
  | some tag =>
      simp only [ge_iff_le]
      split
      · next h => exact (max_eq_right h).symm
      · next h => exact (max_eq_left (le_of_not_ge h)).symm

theorem le_readyAt : simTime ≤ readyAt simTime packet := by
  unfold readyAt
  cases packet.tag with
  | none => exact le_rfl
  | some tag => exact le_max_left _ _

theorem isPacketReadyToSend_iff_readyAt {t : SimTime} (htime : simTime ≤ t) :
    isPacketReadyToSend t packet = true ↔ readyAt simTime packet ≤ t := by
  rw [isPacketReadyToSend_iff]
  unfold readyAt
  cases packet.tag with
  | none => simp [htime]
  | some tag => simp [htime]

theorem le_scheduleTime : simTime ≤ scheduleTime simTime packet := by
  rw [scheduleTime_eq]
  exact le_readyAt

theorem ready_at_scheduleTime :
    isPacketReadyToSend (scheduleTime simTime packet) packet = true := by
  rw [isPacketReadyToSend_iff_readyAt le_scheduleTime, scheduleTime_eq]

theorem scheduleTime_of_ready (h : isPacketReadyToSend simTime packet = true) :
    scheduleTime simTime packet = simTime := by
  rw [isPacketReadyToSend_iff_readyAt le_rfl] at h
  rw [scheduleTime_eq]
  exact le_antisymm h le_readyAt

/-- A packet that is not expired and whose window is not inverted does not expire
    before it is ready. -/
theorem unexpired_at_scheduleTime (h : packetExpired simTime packet = false)
    (hwindow : ∀ tag ∈ packet.tag, tag.dMax = 0 ∨ tag.tMin ≤ tag.tMax) :
    packetExpired (scheduleTime simTime packet) packet = false := by
  rw [← Bool.not_eq_true, packetExpired_iff] at h ⊢
  rintro ⟨tag, htag, hfinite, hexpired⟩
  apply h
  refine ⟨tag, htag, hfinite, ?_⟩
  rw [scheduleTime_eq] at hexpired
  unfold readyAt at hexpired
  rw [htag] at hexpired
  rcases hwindow tag htag with hinfinite | hle
  · exact absurd hinfinite hfinite
  · rcases lt_max_iff.mp hexpired with hlt | hlt
    · exact hlt
    · exact absurd hle (not_le.mpr hlt)

theorem unexpired_mono {later : SimTime} (htime : simTime ≤ later)
    (h : packetExpired later packet = false) : packetExpired simTime packet = false := by
  by_contra hexpired
  rw [Bool.not_eq_false] at hexpired
  rw [packetExpired_mono htime hexpired] at h
  cases h

end

/-! ## Notifications -/

variable {scheduler : Scheduler} {s : Egress} {timer : Timer}

/-- A notification after which the link is busy, or idle. -/
theorem handleCanPopPacket_busy (hbusy : s.txIdleCounter ≠ 1)
    (hsweep : scheduler.lookForExpiredPackets s = .ok (s.swept timer)) :
    scheduler.handleCanPopPacket s = .ok (s.swept timer) := by
  simp [Scheduler.handleCanPopPacket, hsweep, hbusy]

theorem handleCanPopPacket_idle {timer' : Timer} (hidle : s.txIdleCounter = 1)
    (hsweep : scheduler.lookForExpiredPackets s = .ok (s.swept timer))
    (hschedule : scheduler.schedule (s.swept timer) = .ok timer') :
    scheduler.handleCanPopPacket s = .ok (s.swept timer') := by
  have hidle' : (s.swept timer).txIdleCounter = 1 := hidle
  simp only [Scheduler.handleCanPopPacket, hsweep, ok_bind]
  rw [if_pos hidle', hschedule]
  rfl

end DelayBasedForwarding
