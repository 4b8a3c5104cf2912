import RideProof.Proofs.Drive
import RideProof.Proofs.Records

/-!
# Replaying a log tick by tick

A replay goes from record to record: it holds the control of one until the next takes effect, and
looks at each only when it gets there. A rider goes from tick to tick, under the control that the
timeline of the log has for each. From the first tick on both are the same ride.

* `World.playThrough` — a ride tick by tick, with its verdict.
* `World.replay_eq_drive_take` — a replay that has got to record `k` has played the ticks before it.
* `World.replay_of_wellFormed`, `World.replay_of_fault` — a replay without a fault, and one with a
  first fault.
* `World.replay_eq_playThrough` — the two together.
-/

namespace RideProof

/-- Play a ride of `numFrames` ticks, one under each of a list of controls: it is accepted if the
finish is reached on the last tick, and ends early on an earlier finish, on a failure, or when a
tick that goes on has reached the limit. -/
def World.playThrough (w : World) (numFrames : Nat) (limit : Int) :
    List Control → RideState → RideState × Except ReplayError Unit
  | [], s => (s, .error (.noSuccess s.frame))
  | c :: cs, s =>
    match w.step s c with
    | (s, .continue) =>
      if limit ≤ s.frame.toInt then (s, .error (.stopped s.frame))
      else w.playThrough numFrames limit cs s
    | (s, .success) =>
      (s, if s.frame.toInt = numFrames then .ok () else .error (.unexpectedSuccess s.frame))
    | (s, .failure reason) => (s, .error (.failed s.frame reason))

variable {w : World} {s t : RideState} {log : RideLog} {limit : Int} {k m n p : Nat}

/-! ## Verdicts -/

/-- The verdict on a halt before the last tick of the ride. -/
theorem Halt.final_of_lt (halt : Halt) (h : t.frame.toInt < n) :
    halt.final n t = .error (halt.early t) := by
  have hne : t.frame.toInt ≠ n := Int.ne_of_lt h
  simp [final, hne]

/-- The verdict on a ride that was played through is the verdict on how its drive ended. -/
theorem World.playThrough_eq_drive (w : World) (n : Nat) (limit : Int) (cs : List Control)
    (s : RideState) :
    w.playThrough n limit cs s =
      match w.drive limit cs s with
      | (t, some halt) => (t, halt.final n t)
      | (t, none) => (t, .error (.noSuccess t.frame)) := by
  induction cs generalizing s with
  | nil => rfl
  | cons c cs ih =>
    rw [playThrough, drive]
    rcases w.step s c with ⟨t, _ | _ | reason⟩
    · by_cases hlimit : limit ≤ t.frame.toInt
      · simp [hlimit, Halt.final, Halt.early]
      · simp only [hlimit, if_false, ih]
    · by_cases hframe : t.frame.toInt = n <;> simp [hframe, Halt.final, Halt.early]
    · simp [Halt.final, Halt.early]

/-- A halt before the last tick is the end of the whole ride. -/
theorem World.playThrough_of_halt {halt : Halt}
    (h : w.drive limit (log.timeline.take m) s = (t, some halt)) (ht : t.frame.toInt < n) :
    w.playThrough n limit log.timeline s = (t, .error (halt.early t)) := by
  have hdrive : w.drive limit log.timeline s = (t, some halt) := by
    rw [← List.take_append_drop m log.timeline, drive_append, h]
  rw [playThrough_eq_drive, hdrive]
  exact Prod.ext_iff.mpr ⟨rfl, halt.final_of_lt ht⟩

/-! ## The timeline up to a tick -/

namespace RideLog

/-- From the last of the first `k` records on, its control is held until the next record. -/
theorem timeline_take_hold (hfault : ∀ j < k, log.faultAt j = none)
    (hend : tickBefore log.records k + m ≤ log.numFrames.toNat)
    (hd : ∀ r ∈ log.records.drop k, tickBefore log.records k + m ≤ r.position) :
    log.timeline.take (tickBefore log.records k + m) =
      log.timeline.take (tickBefore log.records k) ++ (controlBefore log.records k).hold m := by
  rw [timeline_take hend, timeline_take (Nat.le_of_add_right_le hend), List.range_eq_range',
    List.range_eq_range', ← List.range'_append_1, List.map_append, Nat.zero_add]
  congr 1
  exact map_controlAt_range' (pairwise_take hfault) hd

/-- A record without a fault lies no earlier than the one before it. -/
theorem tickBefore_le_position {r : Record} (hr : log.records[k]? = some r)
    (hnone : log.faultAt k = none) : tickBefore log.records k ≤ r.position := by
  have hbefore := ((faultAt_eq_none hr).mp hnone).2.1
  unfold tickBefore
  rcases h : recordBefore log.records k with _ | b
  · exact Nat.zero_le _
  · exact Nat.le_of_lt (hbefore b h)

/-- Before the last of the first `k` records the ride is not at its end. -/
theorem tickBefore_lt (hfault : ∀ j < k, log.faultAt j = none) (hk : k ≤ log.records.length)
    (hpos : 0 < k) : tickBefore log.records k < log.numFrames.toNat := by
  obtain ⟨j, rfl⟩ := Nat.exists_eq_add_of_lt hpos
  rw [Nat.zero_add] at hk hfault ⊢
  have hr : log.records[j]? = some log.records[j] := List.getElem?_eq_getElem hk
  rw [tickBefore_succ hr]
  exact ((faultAt_eq_none hr).mp (hfault j (Nat.lt_succ_self j))).1

end RideLog

/-! ## From record to record -/

/-- The replay that has got to record `k` without a fault has played the ticks before it. -/
theorem World.replay_eq_drive_take (hs : s.frame.toInt = 0)
    (hfault : ∀ j < k, log.faultAt j = none) (hk : k ≤ log.records.length) :
    w.replay s log limit =
      match w.drive limit (log.timeline.take (tickBefore log.records k)) s with
      | (t, some halt) => (t, .error (halt.early t))
      | (t, none) =>
        w.replayFrom log.numFrames.toNat limit (log.records.drop k) k
          ((recordBefore log.records k).map Record.position) (controlBefore log.records k) t := by
  induction k with
  | zero => simp [replay, tickBefore, controlBefore, drive]
  | succ k ih =>
    have hearlier : ∀ j < k, log.faultAt j = none := fun j hj => hfault j (Nat.lt_succ_of_lt hj)
    have hr : log.records[k]? = some log.records[k] := List.getElem?_eq_getElem hk
    have hnone : log.faultAt k = none := hfault k (Nat.lt_succ_self k)
    obtain ⟨m, hm⟩ := Nat.exists_eq_add_of_le (RideLog.tickBefore_le_position hr hnone)
    have hend : tickBefore log.records k + m ≤ log.numFrames.toNat := by
      rw [← hm, ← tickBefore_succ hr]
      exact RideLog.tickBefore_le hfault hk
    have hdrop : ∀ r ∈ log.records.drop k, tickBefore log.records k + m ≤ r.position := by
      rw [← hm]
      exact position_le_of_mem_drop (pairwise_position_le 0 log.updates) hr
    rw [ih hearlier (Nat.le_of_succ_le hk), tickBefore_succ hr, hm,
      RideLog.timeline_take_hold hearlier hend hdrop, drive_append]
    rcases hdrive : w.drive limit (log.timeline.take (tickBefore log.records k)) s with
      ⟨t, _ | halt⟩
    · -- the ride is at the record before this one, so this one is `m` ticks away
      have hframe := (drive_frame hdrive (n := 0) hs (by decide)).1
      rw [RideLog.length_timeline_take (Nat.le_of_add_right_le hend)] at hframe
      have hticks : t.ticksTo log.records[k].position = m := by
        rw [RideState.ticksTo, hframe, hm]
        omega
      rw [RideLog.faultAt, hr, Option.bind_some] at hnone
      rcases hon : w.drive limit ((controlBefore log.records k).hold m) t with ⟨u, _ | halt⟩ <;>
        simp only [List.drop_eq_getElem_cons hk, replayFrom, hnone, hticks, driveHeld_eq_drive, hon,
          recordBefore_succ hr, controlBefore_succ hr, Option.map_some]
    · rfl

/-- A halt on the way to the last of the first `k` records comes before the end of the ride. -/
theorem World.frame_lt_of_halt (hs : s.frame.toInt = 0) (hfault : ∀ j < k, log.faultAt j = none)
    (hk : k ≤ log.records.length) {halt : Halt}
    (h : w.drive limit (log.timeline.take (tickBefore log.records k)) s = (t, some halt)) :
    t.frame.toInt < log.numFrames.toNat := by
  rcases Nat.eq_zero_or_pos k with rfl | hpos
  · simp [tickBefore, drive] at h
  · have hlt := RideLog.tickBefore_lt hfault hk hpos
    have hle := drive_frame_le h (n := 0) hs (by decide)
    rw [RideLog.length_timeline_take (Nat.le_of_lt hlt)] at hle
    omega

/-- Without a fault, a replay is the ride tick by tick. -/
theorem World.replay_of_wellFormed (hs : s.frame.toInt = 0) (hwf : log.WellFormed) :
    w.replay s log limit = w.playThrough log.numFrames.toNat limit log.timeline s := by
  have hfault : ∀ j < log.records.length, log.faultAt j = none :=
    fun j _ => RideLog.wellFormed_iff.mp hwf j
  have hle := RideLog.tickBefore_le hfault (Nat.le_refl _)
  obtain ⟨m, hm⟩ := Nat.exists_eq_add_of_le hle
  have hdrop : ∀ r ∈ log.records.drop log.records.length,
      tickBefore log.records log.records.length + m ≤ r.position := by
    rw [List.drop_length]
    exact fun r hr => absurd hr List.not_mem_nil
  rw [replay_eq_drive_take hs hfault (Nat.le_refl _)]
  rcases hdrive : w.drive limit (log.timeline.take (tickBefore log.records log.records.length)) s
    with ⟨t, _ | halt⟩
  · have hframe := (drive_frame hdrive (n := 0) hs (by decide)).1
    rw [RideLog.length_timeline_take hle] at hframe
    have hticks : t.ticksTo log.numFrames.toNat = m := by
      rw [RideState.ticksTo, hframe, hm]
      omega
    have htimeline := RideLog.timeline_take_hold hfault (Nat.le_of_eq hm.symm) hdrop
    rw [← hm, ← RideLog.length_timeline, List.take_length] at htimeline
    rw [playThrough_eq_drive, htimeline, drive_append, hdrive]
    rcases hon : w.drive limit ((controlBefore log.records log.records.length).hold m) t with
      ⟨u, _ | halt⟩ <;>
      simp only [List.drop_length, replayFrom, hticks, driveHeld_eq_drive, hon]
  · have hlt := frame_lt_of_halt hs hfault (Nat.le_refl _) hdrive
    exact (playThrough_of_halt hdrive hlt).symm

/-- With a first fault, a replay is the ride up to the record before it, and then the fault. -/
theorem World.replay_of_fault (hs : s.frame.toInt = 0) {e : ReplayError}
    (hk : log.faultAt k = some e) (hfault : ∀ j < k, log.faultAt j = none) :
    w.replay s log limit =
      match w.drive limit (log.timeline.take (tickBefore log.records k)) s with
      | (t, some halt) => (t, .error (halt.early t))
      | (t, none) => (t, .error e) := by
  have hlt := RideLog.lt_length_of_faultAt hk
  rw [RideLog.faultAt, List.getElem?_eq_getElem hlt, Option.bind_some] at hk
  rw [replay_eq_drive_take hs hfault (Nat.le_of_lt hlt)]
  simp only [List.drop_eq_getElem_cons hlt, replayFrom, hk]

/-- **A replay is the ride tick by tick.** If no record has a fault, state and verdict are those of
playing the whole timeline through. Otherwise the ride goes as far as the record before the first
one with a fault: if it ends on the way there, that is its end, and if not, the fault is; the log is
never accepted. -/
theorem World.replay_eq_playThrough (w : World) (log : RideLog) (limit : Int) {s : RideState}
    (hs : s.frame = 0) :
    (log.WellFormed →
      w.replay s log limit = w.playThrough log.numFrames.toNat limit log.timeline s) ∧
    ∀ k e, log.faultAt k = some e → (∀ j < k, log.faultAt j = none) →
      (w.replay s log limit).2 ≠ .ok () ∧
      w.replay s log limit =
        match w.drive limit (log.timeline.take (tickBefore log.records k)) s with
        | (_, some _) => w.playThrough log.numFrames.toNat limit log.timeline s
        | (t, none) => (t, .error e) := by
  have hzero : s.frame.toInt = 0 := by rw [hs, Int32.toInt_zero]
  refine ⟨replay_of_wellFormed hzero, ?_⟩
  intro k e hk hfault
  have hle := Nat.le_of_lt (RideLog.lt_length_of_faultAt hk)
  rw [replay_of_fault hzero hk hfault]
  rcases hdrive : w.drive limit (log.timeline.take (tickBefore log.records k)) s with ⟨t, _ | halt⟩
  · exact ⟨nofun, rfl⟩
  · have hlt := frame_lt_of_halt hzero hfault hle hdrive
    exact ⟨nofun, (playThrough_of_halt hdrive hlt).symm⟩

/-- A flat course with its finish a little further below the left wheel than a wheel reaches: the
ride gets there by falling for two ticks. -/
def World.shortDrop : World := ⟨Field.zero.flattenFirstRow, ⟨0, -342950000⟩⟩

/-- On the short drop, a log with one record replays to the finish, and a log whose second record
does not come after its first is rejected on the second tick. -/
theorem World.replay_shortDrop :
    startState.frame = 0 ∧
    (RideLog.WellFormed ⟨0, 2, [19]⟩ ∧
      shortDrop.replay startState ⟨0, 2, [19]⟩ checkLimit =
        shortDrop.playThrough 2 checkLimit (RideLog.timeline ⟨0, 2, [19]⟩) startState ∧
      (shortDrop.replay startState ⟨0, 2, [19]⟩ checkLimit).2.isOk = true) ∧
    RideLog.faultAt ⟨0, 2, [14, 2]⟩ 1 = some (.recordOutOfOrder 1 1) ∧
      (shortDrop.replay startState ⟨0, 2, [14, 2]⟩ checkLimit).2 ≠ .ok () := by
  have hwf : RideLog.WellFormed ⟨0, 2, [19]⟩ := by decide +kernel
  have hfault : RideLog.faultAt ⟨0, 2, [14, 2]⟩ 1 = some (.recordOutOfOrder 1 1) := by
    decide +kernel
  have hearlier : ∀ j < 1, RideLog.faultAt ⟨0, 2, [14, 2]⟩ j = none := by decide +kernel
  refine ⟨rfl, ⟨hwf, ?_, by decide +kernel⟩, hfault, ?_⟩
  · exact (replay_eq_playThrough shortDrop ⟨0, 2, [19]⟩ checkLimit rfl).1 hwf
  · exact ((replay_eq_playThrough shortDrop ⟨0, 2, [14, 2]⟩ checkLimit rfl).2 1 _ hfault
      hearlier).1

end RideProof
