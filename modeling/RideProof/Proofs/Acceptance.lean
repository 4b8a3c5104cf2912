import RideProof.Proofs.Run
import RideProof.Proofs.TickByTick
import RideProof.Verify

/-!
# What acceptance means

A log is accepted for a work unit when it is a well-formed log of a ride, on the course of its
nonce, that reaches the finish on its last tick and no sooner, in fewer ticks than the target.

* `World.playThrough_range_ok` — the rides that end on the finish.
* `World.replay_checkLimit_ok` — the logs that replay to the finish.
* `Generator.check_ok_iff` — the logs that a check accepts.
* `Generator.verify_ok_iff` — the logs that are accepted, and what is known of their rides.
-/

namespace RideProof

variable {w : World} {s t : RideState} {cs : Nat → Control} {log : RideLog} {limit : Int} {n : Nat}

/-! ## Rides that end on the finish -/

/-- A ride of `n` ticks is accepted when all but the last go on and the last reaches the finish. -/
theorem World.playThrough_range_ok (hs : s.frame.toInt = 0) (hlimit : 15000 ≤ limit) :
    w.playThrough n limit ((List.range n).map cs) s = (t, .ok ()) ↔
      ∃ last, n = last + 1 ∧ w.GoesOn s cs last ∧ w.resultAt s cs last = .success ∧
        t = w.stateAfter s cs n := by
  rw [playThrough_eq_drive]
  constructor
  · intro h
    cases n with
    | zero => simp [drive] at h
    | succ last =>
        refine ⟨last, rfl, ?_⟩
        rw [List.range_succ, List.map_append, List.map_singleton, drive_append] at h
        rcases hd : w.drive limit ((List.range last).map cs) s with ⟨u, _ | halt⟩
        · obtain ⟨hgo, rfl⟩ := (drive_range hs hlimit).mp hd
          simp only [hd, drive_singleton] at h
          rcases hr : w.resultAt s cs last with _ | _ | reason
          · by_cases hl : limit ≤ (w.stateAfter s cs (last + 1)).frame.toInt
            · simp [hr, hl, Halt.final] at h
            · simp [hr, hl] at h
          · simp only [hr, Prod.mk.injEq] at h
            exact ⟨hgo, rfl, h.1.symm⟩
          · simp [hr, Halt.final] at h
        · -- a halt on an earlier tick is not at the end of the ride
          have hle := drive_frame_le hd (n := 0) hs (by decide)
          rw [List.length_map, List.length_range] at hle
          have hlt : u.frame.toInt < (last + 1 : Nat) := by omega
          simp [hd, halt.final_of_lt hlt] at h
  · rintro ⟨last, rfl, hgo, hr, rfl⟩
    obtain ⟨hframe, -⟩ := frame_stateAfter hs (hgo.unfailing_succ hr)
    rw [List.range_succ, List.map_append, List.map_singleton, drive_append,
      (drive_range hs hlimit).mpr ⟨hgo, rfl⟩]
    simp only [drive_singleton, hr, Halt.final, hframe, and_self, if_true]

/-- A log is accepted by a full replay when it is well formed and its ride ends on the finish. -/
theorem World.replay_checkLimit_ok (hs : s.frame = 0) :
    w.replay s log checkLimit = (t, .ok ()) ↔
      log.WellFormed ∧ ∃ last, log.numFrames.toNat = last + 1 ∧ w.GoesOn s log.controlAt last ∧
        w.resultAt s log.controlAt last = .success ∧
        t = w.stateAfter s log.controlAt log.numFrames.toNat := by
  have hzero : s.frame.toInt = 0 := by rw [hs, Int32.toInt_zero]
  have hlimit : (15000 : Int) ≤ checkLimit := by decide
  by_cases hwf : log.WellFormed
  · rw [replay_of_wellFormed hzero hwf, RideLog.timeline, playThrough_range_ok hzero hlimit]
    simp only [hwf, true_and]
  · obtain ⟨k, e, hk, hfault⟩ := RideLog.exists_first_fault hwf
    rw [replay_of_fault hzero hk hfault]
    simp only [hwf, false_and, iff_false]
    rcases w.drive checkLimit (log.timeline.take (tickBefore log.records k)) s with ⟨u, _ | halt⟩
    · intro heq
      cases heq
    · intro heq
      cases heq

/-! ## Checks -/

/-- A generated course starts from the same state as all others. -/
theorem Generator.eq_startState_of_generate {g : Generator} {block : Block} {nonce : UInt32}
    (h : g.generate block nonce = .ok (w, s)) : s = startState := by
  have htrial {v : World} (h : trial v = .ok (w, s)) : s = startState := by
    unfold trial at h
    dsimp only at h
    split_ifs at h
    split at h
    · cases h
      rfl
    · cases h
    · cases h
  unfold generate at h
  dsimp only at h
  split_ifs at h
  · exact htrial h
  · exact htrial h

/-- A check accepts when the course exists and the log replays on it. -/
theorem Generator.check_eq_ok {g : Generator} {block : Block} :
    g.check block log = .ok t ↔
      log.updates.length ≤ maxRecords ∧ ∃ w s, g.generate block log.nonce = .ok (w, s) ∧
        w.replay s log checkLimit = (t, .ok ()) := by
  unfold check
  by_cases hroom : maxRecords < log.updates.length
  · simp [hroom, Nat.not_le.mpr hroom]
  · rw [if_neg hroom]
    rcases hg : g.generate block log.nonce with reason | ⟨w, s⟩
    · simp
    · dsimp only
      rcases hreplay : w.replay s log checkLimit with ⟨u, e | ⟨⟩⟩
      · simp [hreplay]
      · constructor
        · intro h
          obtain rfl := Except.ok.inj h
          exact ⟨Nat.not_lt.mp hroom, w, s, rfl, hreplay⟩
        · rintro ⟨-, w', s', hcourse, h⟩
          cases hcourse
          rw [hreplay] at h
          cases h
          rfl

/-- What it takes for a check to accept a log, and the state that it answers. -/
theorem Generator.check_ok_iff {g : Generator} {block : Block} :
    g.check block log = .ok t ↔
      log.updates.length ≤ maxRecords ∧ log.WellFormed ∧
        ∃ w s, g.generate block log.nonce = .ok (w, s) ∧
          ∃ last, log.numFrames.toNat = last + 1 ∧ w.GoesOn s log.controlAt last ∧
            w.resultAt s log.controlAt last = .success ∧
            t = w.stateAfter s log.controlAt log.numFrames.toNat := by
  have hstart {w : World} {s : RideState} (h : g.generate block log.nonce = .ok (w, s)) :
      s.frame = 0 := by
    rw [eq_startState_of_generate h]
    rfl
  rw [check_eq_ok]
  constructor
  · rintro ⟨hroom, w, s, hg, hreplay⟩
    obtain ⟨hwf, hride⟩ := (World.replay_checkLimit_ok (hstart hg)).mp hreplay
    exact ⟨hroom, hwf, w, s, hg, hride⟩
  · rintro ⟨hroom, hwf, w, s, hg, hride⟩
    exact ⟨hroom, w, s, hg, (World.replay_checkLimit_ok (hstart hg)).mpr ⟨hwf, hride⟩⟩

/-- A record by itself is never a reason to stop. -/
theorem Record.fault_ne_stopped {r : Record} {index : Nat} {before : Option Nat} {accel : Accel}
    {frame : Int32} : r.fault n index before accel ≠ some (.stopped frame) := by
  unfold fault
  split_ifs <;> nofun

/-- A full replay never stops at its limit. -/
theorem World.replay_checkLimit_ne_stopped (log : RideLog) (hs : s.frame = 0) (frame : Int32) :
    (w.replay s log checkLimit).2 ≠ .error (.stopped frame) := by
  have hzero : s.frame.toInt = 0 := by rw [hs, Int32.toInt_zero]
  have hnever (ds : List Control) : (w.drive checkLimit ds s).2 ≠ some .limit :=
    drive_ne_limit (n := 0) hzero (by decide) (by decide)
  by_cases hwf : log.WellFormed
  · rw [replay_of_wellFormed hzero hwf, playThrough_eq_drive]
    have hn := hnever log.timeline
    rcases hd : w.drive checkLimit log.timeline s with ⟨u, _ | _ | _ | _⟩
    · intro he
      cases he
    · by_cases hframe : u.frame.toInt = log.numFrames.toNat
      · simp [Halt.final, hframe]
      · simp [Halt.final, Halt.early, hframe]
    · intro he
      cases he
    · exact absurd (congrArg Prod.snd hd) hn
  · obtain ⟨k, e, hk, hfault⟩ := RideLog.exists_first_fault hwf
    have hn := hnever (log.timeline.take (tickBefore log.records k))
    rw [replay_of_fault hzero hk hfault]
    rcases hd : w.drive checkLimit (log.timeline.take (tickBefore log.records k)) s with
      ⟨u, _ | _ | _ | _⟩
    · intro he
      rw [RideLog.faultAt, List.getElem?_eq_getElem (RideLog.lt_length_of_faultAt hk),
        Option.bind_some] at hk
      obtain rfl : e = .stopped frame := Except.error.inj he
      exact Record.fault_ne_stopped hk
    · intro he
      cases he
    · intro he
      cases he
    · exact absurd (congrArg Prod.snd hd) hn

/-- No check ends because of the limit on the ticks of a replay. -/
theorem Generator.check_ne_stopped (g : Generator) (block : Block) (log : RideLog)
    (frame : Int32) : g.check block log ≠ .error (.replay (.stopped frame)) := by
  unfold check
  split_ifs
  · nofun
  · rcases hg : g.generate block log.nonce with reason | ⟨w, s⟩
    · nofun
    · have hs : s.frame = 0 := by
        rw [eq_startState_of_generate hg]
        rfl
      have hstop := w.replay_checkLimit_ne_stopped log hs frame
      dsimp only
      rcases hreplay : w.replay s log checkLimit with ⟨u, e | ⟨⟩⟩
      · intro he
        obtain rfl : e = .stopped frame := by
          cases he
          rfl
        rw [hreplay] at hstop
        exact hstop rfl
      · nofun

/-! ## Acceptance -/

/-- A record is in force with its own rotation. -/
theorem RideLog.WellFormed.rotation_controlAt (hwf : log.WellFormed) {r : Record}
    (hr : r ∈ log.records) : (log.controlAt r.position).rotation = r.control.rotation := by
  obtain ⟨k, hk⟩ := List.mem_iff_getElem?.mp hr
  have hlt : (log.records.take (k + 1)).Pairwise fun r r' => r.position < r'.position :=
    hwf.increasing.sublist (List.take_sublist _ _)
  have hbeyond : ∀ b ∈ log.records.drop (k + 1), r.position < b.position := by
    intro b hb
    have hsplit := hwf.increasing
    rw [← List.take_append_drop (k + 1) log.records, List.pairwise_append] at hsplit
    refine hsplit.2.2 r ?_ b hb
    rw [List.take_add_one, hk]
    exact List.mem_append_right _ (List.mem_singleton.mpr rfl)
  have htick := tickBefore_succ hk
  unfold controlAt
  dsimp only
  rw [rotationAt_between hlt (Nat.le_of_eq htick) hbeyond, if_pos htick.symm, controlBefore_succ hk]

/-- A log is accepted when its check is, and its ride is shorter than the target. -/
theorem Generator.verify_eq_ok {g : Generator} {work : WorkUnit} {journal : Journal} :
    g.verify work log = .ok journal ↔
      log.numFrames.toNat < work.timeTarget.toInt ∧ ∃ t, g.check work.block log = .ok t ∧
        journal =
          ⟨log.nonce, log.numFrames, log.updates.length, work.height, work.timeTarget, t⟩ := by
  unfold verify
  by_cases htarget : work.timeTarget.toInt ≤ log.numFrames.toNat
  · simp [htarget, Int.not_lt.mpr htarget]
  · rw [if_neg htarget]
    rcases g.check work.block log with reason | t
    · simp
    · simp [Int.not_le.mp htarget, eq_comm]

/-- **What acceptance means.** A log is accepted for a work unit if and only if its ride is shorter
than the target, it has no more records than a log can hold, its course exists, it is well formed,
and its ride goes on up to the last tick and reaches the finish there. Its ride then has at least
one tick and fewer than the limit of the physics, ends alive in the state of the journal, and its
rotations are a period apart. No check ends at the limit of the replay. -/
theorem Generator.verify_ok_iff (g : Generator) (work : WorkUnit) (log : RideLog) :
    ((∃ journal, g.verify work log = .ok journal) ↔
      log.numFrames.toNat < work.timeTarget.toInt ∧ log.updates.length ≤ maxRecords ∧
        log.WellFormed ∧ ∃ w s, g.generate work.block log.nonce = .ok (w, s) ∧
          ∃ last, log.numFrames.toNat = last + 1 ∧
            (∀ f < last, w.resultAt s log.controlAt f = .continue) ∧
            w.resultAt s log.controlAt last = .success) ∧
    (∀ journal, g.verify work log = .ok journal →
      1 ≤ log.numFrames.toNat ∧ log.numFrames.toNat ≤ 14999 ∧
        (∃ w s, g.generate work.block log.nonce = .ok (w, s) ∧
          journal = {
            nonce := log.nonce
            frames := log.numFrames
            updates := log.updates.length
            height := work.height
            timeTarget := work.timeTarget
            finalState := w.stateAfter s log.controlAt log.numFrames.toNat }) ∧
        journal.finalState.dead = false ∧
        journal.finalState.frame.toInt = log.numFrames.toNat ∧
        log.records.Pairwise fun r r' => r.control.rotation ≠ .none →
          r'.control.rotation ≠ .none → r.position + 200 ≤ r'.position) ∧
    ∀ (block : Block) (frame : Int32), g.check block log ≠ .error (.replay (.stopped frame)) := by
  refine ⟨⟨?_, ?_⟩, ?_, fun block frame => g.check_ne_stopped block log frame⟩
  · rintro ⟨journal, h⟩
    obtain ⟨htarget, t, hcheck, -⟩ := verify_eq_ok.mp h
    obtain ⟨hroom, hwf, w, s, hg, last, hlast, hgo, hr, -⟩ := check_ok_iff.mp hcheck
    exact ⟨htarget, hroom, hwf, w, s, hg, last, hlast, hgo, hr⟩
  · rintro ⟨htarget, hroom, hwf, w, s, hg, last, hlast, hgo, hr⟩
    have hcheck := check_ok_iff.mpr ⟨hroom, hwf, w, s, hg, last, hlast, hgo, hr, rfl⟩
    exact ⟨_, verify_eq_ok.mpr ⟨htarget, _, hcheck, rfl⟩⟩
  · intro journal h
    obtain ⟨-, t, hcheck, rfl⟩ := verify_eq_ok.mp h
    obtain ⟨-, hwf, w, s, hg, last, hlast, hgo, hr, rfl⟩ := check_ok_iff.mp hcheck
    have hs : s.frame.toInt = 0 := by
      rw [eq_startState_of_generate hg]
      rfl
    have hun : w.Unfailing s log.controlAt log.numFrames.toNat := by
      rw [hlast]
      exact World.GoesOn.unfailing_succ hgo hr
    obtain ⟨hframe, hlt⟩ := World.frame_stateAfter hs hun
    refine ⟨by omega, by omega, ⟨w, s, hg, rfl⟩, ?_, hframe, ?_⟩
    · rw [hlast] at hun ⊢
      exact World.dead_stateAfter hun
    · apply hwf.increasing.imp_of_mem
      intro r r' hmem hmem' hpos hrot hrot'
      rw [← hwf.rotation_controlAt hmem] at hrot
      rw [← hwf.rotation_controlAt hmem'] at hrot'
      exact World.rotations_apart hs hun hpos (hwf.below r' hmem') hrot hrot'

end RideProof
