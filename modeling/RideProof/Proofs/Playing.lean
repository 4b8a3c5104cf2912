import RideProof.Proofs.Run
import RideProof.Proofs.TickByTick
import RideProof.Proofs.Writing
import RideProof.Session

/-!
# Playing and writing at once

A live ride plays its ticks and writes its log at once. The invariant is `World.Logged`: the log is
well formed, and driving it from the start leads to the state that the ride is in, and to how it
stands. Playing one tick keeps it (`World.Logged.tick`), and so does playing many
(`World.Logged.playTicks`).

* `World.Logged.truncate` — the invariant after the log was cut.
* `World.Logged.replay_checkLimit`, `World.Logged.replay_numFrames` — replaying such a log in full,
  and up to its last tick.
-/

namespace RideProof

/-- How a drive stands after a tick with this result. -/
def StepResult.halt : StepResult → Option Halt
  | .continue => none
  | .success => some .success
  | .failure reason => some (.failed reason)

/-- A state that a ride on a course got to, and the log that was written on the way. `halt` is how
the ride stands. -/
structure World.Logged (w : World) (s : RideState) (log : RideLog) (halt : Option Halt) : Prop where
  /-- The log has no more records than there is room for. -/
  room : log.updates.length ≤ maxRecords
  /-- It is well formed. -/
  wellFormed : log.WellFormed
  /-- The ride is no longer than a ride may be. -/
  cap : log.numFrames.toNat ≤ 15000
  /-- The state counts the ticks that the log counts. -/
  frame : s.frame.toInt = log.numFrames.toNat
  /-- If the ride has failed, it has failed for good. -/
  fatal : ∀ reason, halt = some (.failed reason) → reason.isFatal = true
  /-- The controls of the log lead from the start to the state, and stop there as the ride does. -/
  drive : w.drive checkLimit log.timeline startState = (s, halt)

variable {w : World} {s t : RideState} {log log' : RideLog} {c played : Control}
  {halt : Option Halt} {n : Nat} {r : StepResult}

/-! ## What is known of a logged ride -/

namespace World.Logged

/-- The start of a course is a state with an empty log. -/
theorem empty (w : World) (nonce : UInt32) : w.Logged startState (.empty nonce) none where
  room := Nat.zero_le _
  wellFormed := RideLog.wellFormed_of_no_updates rfl
  cap := Nat.zero_le _
  frame := rfl
  fatal _ := nofun
  drive := rfl

/-- The log was written before its last tick. -/
theorem writtenUpTo (h : w.Logged s log halt) : log.WrittenUpTo log.numFrames.toNat :=
  RideLog.wellFormed_iff_writtenUpTo.mp h.wellFormed

/-- A ride that goes on has played fewer ticks than permitted. -/
theorem numFrames_lt (h : w.Logged s log none) : log.numFrames.toNat < 15000 := by
  have hlt := (drive_frame h.drive (n := 0) rfl (by decide)).2
  rw [RideLog.length_timeline] at hlt
  omega

/-- A ride stands in one of three ways. -/
theorem halt_cases (h : w.Logged s log halt) :
    halt = none ∨ halt = some .success ∨
      ∃ reason, reason.isFatal = true ∧ halt = some (.failed reason) := by
  rcases halt with _ | _ | reason | _
  · exact .inl rfl
  · exact .inr (.inl rfl)
  · exact .inr (.inr ⟨reason, h.fatal reason rfl, rfl⟩)
  · have hne : (w.drive checkLimit log.timeline startState).2 ≠ some .limit :=
      drive_ne_limit (n := 0) rfl (by decide) (by decide)
    rw [h.drive] at hne
    exact absurd rfl hne

/-- The state is alive unless the ride has failed. -/
theorem alive (h : w.Logged s log halt) (hr : ∀ reason, halt ≠ some (.failed reason)) :
    s.dead = false := by
  rw [Bool.eq_false_iff]
  intro hdead
  obtain ⟨reason, -, hfail⟩ := (drive_dead h.drive rfl).mp hdead
  exact hr reason hfail

/-- A ride that has failed is dead. -/
theorem dead {reason : Failure} (h : w.Logged s log (some (.failed reason))) : s.dead = true :=
  (drive_dead h.drive rfl).mpr ⟨reason, h.fatal reason rfl, rfl⟩

/-- A ride goes on at every tick before its last. -/
theorem drive_take (h : w.Logged s log halt) (hn : n < log.numFrames.toNat) :
    ∃ u, w.drive checkLimit (log.timeline.take n) startState = (u, none) := by
  have hcounted : s.frame.toInt = (0 : Nat) + log.timeline.length := by
    rw [RideLog.length_timeline, h.frame]
    omega
  rw [← RideLog.length_timeline] at hn
  exact World.drive_take h.drive rfl (by decide) hcounted hn

end World.Logged

/-! ## One tick -/

/-- A drive of one tick is a step, if the limit is not reached. -/
theorem World.drive_step {limit : Int} (h : w.step s c = (t, r))
    (hlimit : r = .continue → t.frame.toInt < limit) : w.drive limit [c] s = (t, r.halt) := by
  rw [drive, h]
  rcases r with _ | _ | reason
  · have hbelow := Int.not_le.mpr (hlimit rfl)
    simp only [hbelow, if_false]
    rfl
  · rfl
  · rfl

/-- A count of ticks as the log has it. -/
theorem toNat_toUInt16_of_toInt {a : Int32} (h : a.toInt = n) (hn : n < 65536) :
    a.toUInt32.toUInt16.toNat = n := by
  have hnonneg : 0 ≤ a := by
    rw [Int32.le_iff_toInt_le, h]
    exact Int.natCast_nonneg n
  rw [UInt32.toNat_toUInt16, Int32.toNat_toUInt32_of_le hnonneg, ← Int32.toNat_toInt, h,
    Int.toNat_natCast, Nat.mod_eq_of_lt hn]

/-- A count that fits is the number of its word. -/
theorem toNat_ofInt_of_lt (hn : n < 65536) : (UInt16.ofInt n).toNat = n := by
  rw [UInt16.ofInt, UInt16.toNat_ofNat']
  omega

/-- The control that a tick is played under is the one that the log goes on with, and has no
rotation that would be refused. -/
theorem Session.controlFor_recordedFrom {log₁ : RideLog} (h : log.WrittenUpTo n)
    (hroom : log.updates.length ≤ maxRecords) (hs : s.frame.toInt = n)
    (hcontrol : controlFor s log c = (log₁, played)) :
    log₁.RecordedFrom log n played ∧
      (played.rotation ≠ .none → rotationPeriod ≤ s.sinceRotation) := by
  unfold controlFor at hcontrol
  dsimp only at hcontrol
  rw [hs] at hcontrol
  rcases hrecord : log.record n ⟨c.accel, if s.canRotate rotationPeriod then c.rotation else .none⟩
    with ⟨log', _ | _⟩
  · have hrecorded := h.record hroom hrecord
    rw [hrecord] at hcontrol
    cases hcontrol
    exact ⟨hrecorded, fun hrot => absurd rfl hrot⟩
  · have hrecorded := h.record hroom hrecord
    rw [hrecord] at hcontrol
    cases hcontrol
    refine ⟨hrecorded, ?_⟩
    intro hrot
    by_cases hcan : s.canRotate rotationPeriod = true
    · exact of_decide_eq_true hcan
    · simp [hcan] at hrot

/-- A log that was recorded in goes on with the control of the tick. -/
theorem RideLog.RecordedFrom.timeline {m : UInt16}
    (h : log'.RecordedFrom log log.numFrames.toNat c) (hm : m.toNat = log.numFrames.toNat + 1) :
    RideLog.timeline { log' with numFrames := m } = log.timeline ++ [c] := by
  unfold RideLog.timeline
  dsimp only
  rw [hm, List.range_succ, List.map_append, List.map_singleton]
  congr 1
  · apply List.map_congr_left
    intro t ht
    exact h.earlier t (List.mem_range.mp ht)
  · exact congrArg (fun d => [d]) h.controlAt

/-- Playing a tick of a ride that goes on, and writing it down. -/
theorem World.Logged.tick {log₁ : RideLog} (h : w.Logged s log none)
    (hcontrol : Session.controlFor s log c = (log₁, played)) (hstep : w.step s played = (t, r)) :
    w.Logged t { log₁ with numFrames := t.frame.toUInt32.toUInt16 } r.halt ∧
      log₁.nonce = log.nonce ∧ t.frame.toInt = s.frame.toInt + 1 := by
  have alive := h.alive fun _ => nofun
  have hlt := h.numFrames_lt
  have hframe := toInt_step_frame hstep alive h.frame hlt
  have hcount : t.frame.toUInt32.toUInt16.toNat = log.numFrames.toNat + 1 :=
    toNat_toUInt16_of_toInt hframe (by omega)
  obtain ⟨hrecorded, hsince⟩ :=
    Session.controlFor_recordedFrom h.writtenUpTo h.room h.frame hcontrol
  refine ⟨⟨hrecorded.room, ?_, ?_, ?_, ?_, ?_⟩, hrecorded.nonce, by rw [h.frame]; exact hframe⟩
  · have hwritten := hrecorded.written
    rw [← hcount] at hwritten
    exact ⟨hwritten.below, hwritten.increasing, hwritten.effective⟩
  · exact hcount ▸ hlt
  · dsimp only
    rw [hcount, hframe]
    rfl
  · intro reason hhalt
    obtain rfl : r = .failure reason := by
      cases r <;> cases hhalt
      rfl
    rcases step_failure hstep alive with hfatal | ⟨-, hrot, hsoon⟩
    · exact hfatal
    · -- the rotation was asked for after a period, and one more tick has passed
      have hlong := hsince hrot
      unfold RideState.sinceRotation at hlong hsoon
      unfold RideState.counted at hsoon
      dsimp only at hsoon
      rw [toInt_succ_of_lt h.frame hlt] at hsoon
      rw [h.frame] at hlong
      omega
  · rw [hrecorded.timeline hcount, drive_append, h.drive]
    apply drive_step hstep
    rintro rfl
    obtain ⟨hnext, hcap⟩ := step_continue hstep h.frame hlt
    unfold checkLimit
    omega

/-- Playing ticks of a ride that goes on, and writing them down. -/
theorem World.Logged.playTicks {m : Nat} (h : w.Logged s log none)
    (hplay : Session.playTicks w m c s log = (t, log', r)) :
    w.Logged t log' r.halt ∧ log'.nonce = log.nonce ∧ t.frame.toInt ≤ s.frame.toInt + m := by
  induction m generalizing c s log with
  | zero =>
      cases hplay
      exact ⟨h, rfl, by omega⟩
  | succ m ih =>
      rw [Session.playTicks] at hplay
      rcases hcontrol : Session.controlFor s log c with ⟨log₁, played⟩
      rcases hstep : w.step s played with ⟨u, answer⟩
      obtain ⟨hlogged, hnonce, hframe⟩ := h.tick hcontrol hstep
      rw [hcontrol] at hplay
      simp only [hstep] at hplay
      rcases answer with _ | _ | reason
      · obtain ⟨hrest, hnonce', hframe'⟩ := ih hlogged hplay
        exact ⟨hrest, hnonce'.trans hnonce, by omega⟩
      · cases hplay
        exact ⟨hlogged, hnonce, by omega⟩
      · cases hplay
        exact ⟨hlogged, hnonce, by omega⟩

/-! ## Cutting and replaying -/

/-- The ride up to an earlier tick, or up to the last one. -/
theorem World.Logged.truncate {frame : UInt16} (h : w.Logged s log halt)
    (hle : frame.toNat ≤ log.numFrames.toNat) :
    ∃ t halt', w.Logged t (log.truncate frame) halt' := by
  have htimeline := RideLog.timeline_truncate hle
  have hwf := h.writtenUpTo.truncate frame
  have hroom := Nat.le_trans (RideLog.length_updates_truncate log frame) h.room
  have hcap := Nat.le_trans hle h.cap
  rcases Nat.lt_or_eq_of_le hle with hlt | heq
  · obtain ⟨u, hu⟩ := h.drive_take hlt
    have hframe := (drive_frame hu (n := 0) rfl (by decide)).1
    rw [RideLog.length_timeline_take hle] at hframe
    refine ⟨u, none, hroom, hwf, hcap, ?_, fun _ => nofun, ?_⟩
    · rw [hframe]
      exact Int.zero_add _
    · rw [htimeline, hu]
  · refine ⟨s, halt, hroom, hwf, hcap, ?_, h.fatal, ?_⟩
    · rw [h.frame, ← heq]
      rfl
    · rw [htimeline, heq, ← RideLog.length_timeline, List.take_length]
      exact h.drive

/-- The verdict on a ride that halted is on its last tick. -/
theorem World.Logged.final (h : w.Logged s log halt) (early : Halt) :
    early.final log.numFrames.toNat s =
      if early = .success then .ok () else .error (early.early s) := by
  simp [Halt.final, h.frame]

/-- The full replay of the log of a ride. -/
theorem World.Logged.replay_checkLimit (h : w.Logged s log halt) :
    w.replay startState log checkLimit =
      (s, match halt with
        | none => .error (.noSuccess s.frame)
        | some .success => .ok ()
        | some early => .error (early.early s)) := by
  rw [replay_of_wellFormed rfl h.wellFormed, playThrough_eq_drive, h.drive]
  rcases halt with _ | early
  · rfl
  · dsimp only
    rw [h.final early]
    cases early <;> rfl

/-- The replay of the log of a ride up to its last tick. A ride that goes on is stopped there. -/
theorem World.Logged.replay_numFrames (h : w.Logged s log halt) :
    w.replay startState log log.numFrames.toNat =
      (s, match halt with
        | none =>
          .error (if log.numFrames.toNat = 0 then .noSuccess s.frame else .stopped s.frame)
        | some .success => .ok ()
        | some early => .error (early.early s)) := by
  have hlength : ((0 : Nat) + log.timeline.length : Int) = log.numFrames.toNat := by
    rw [RideLog.length_timeline]
    exact Int.zero_add _
  have hlimit : (log.numFrames.toNat : Int) < checkLimit := by
    have hcap := h.cap
    unfold checkLimit
    omega
  have hnil : log.timeline = [] ↔ log.numFrames.toNat = 0 := by
    rw [← List.length_eq_zero_iff, RideLog.length_timeline]
  rw [replay_of_wellFormed rfl h.wellFormed, playThrough_eq_drive,
    drive_at_limit rfl (by decide) hlength hlimit, h.drive]
  rcases halt with _ | early
  · dsimp only
    by_cases hzero : log.numFrames.toNat = 0
    · rw [if_pos (hnil.mpr hzero), if_pos hzero]
    · rw [if_neg fun h => hzero (hnil.mp h), if_neg hzero]
      dsimp only
      rw [h.final .limit]
      rfl
  · dsimp only
    rw [h.final early]
    cases early <;> rfl

end RideProof
