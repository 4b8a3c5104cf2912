import RideProof.Proofs.Advancing

/-!
# Riding with a full log

A full log takes no record, so the ride goes on under the last throttle position in it, without
rotations, whatever its rider asks for. A control that is in force already is granted and another
one is refused, but a refused control is replaced by the one that is in force, so that both play the
same tick.

* `RideLog.record_of_isFull` — a full log stays as it is.
* `Session.controlFor_of_isFull`, `Session.playTicks_of_isFull` — one tick, and a play.
* `Session.advance_of_full_log` — an advance with a full log.
-/

namespace RideProof

variable {w : World} {s t : RideState} {log log' : RideLog} {c d : Control} {r : StepResult}
  {n : Nat}

/-- A control that is repeated is that of every tick. -/
theorem Control.atTick_replicate {f : Nat} (c : Control) (hf : f < n) :
    atTick (List.replicate n c) f = c := by
  simp [atTick, hf]

/-! ## A full log -/

namespace RideLog

/-- A full log refuses what it would have to write down, fillers included. -/
theorem record_of_isFull (h : log.isFull = true) (frame : Int)
    (hc : ¬ (c.accel = log.lastAccel ∧ c.rotation = .none)) :
    log.record frame c = (log, false) := by
  have hpush (word : UInt16) : log.push word = (log, false) := push_of_le (isFull_iff.mp h) word
  unfold record
  dsimp only
  rw [if_neg hc]
  by_cases hgap : frame - log.lastPosition < 0
  · rw [if_pos hgap]
  · rw [if_neg hgap]
    cases fillersFor (frame - log.lastPosition).toNat with
    | zero => exact hpush _
    | succ k => rw [pushMany, hpush]

end RideLog

namespace Session

/-- With a full log, every control gives way to the last one in it. -/
theorem controlFor_of_isFull (h : log.isFull = true) (s : RideState) (c : Control) :
    controlFor s log c = (log, ⟨log.lastAccel, .none⟩) := by
  unfold controlFor
  dsimp only
  generalize (if s.canRotate rotationPeriod = true then c.rotation else .none) = rotation
  by_cases hc : c.accel = log.lastAccel ∧ rotation = .none
  · -- what was asked for is in force already
    have hrecord : log.record s.frame.toInt ⟨c.accel, rotation⟩ = (log, true) :=
      RideLog.record_of_unchanged log _ hc.1 hc.2
    rw [hrecord, hc.1, hc.2]
  · have hrecord : log.record s.frame.toInt ⟨c.accel, rotation⟩ = (log, false) :=
      RideLog.record_of_isFull h _ hc
    rw [hrecord]

/-- With a full log, a play does not depend on the control that was asked for. -/
theorem playTicks_of_isFull (h : log.isFull = true) (w : World) (n : Nat) (s : RideState)
    (c d : Control) : playTicks w n c s log = playTicks w n d s log := by
  induction n generalizing c d s log with
  | zero => rfl
  | succ n ih =>
    rw [playTicks, playTicks, controlFor_of_isFull h, controlFor_of_isFull h]
    dsimp only
    rcases w.step s ⟨log.lastAccel, .none⟩ with ⟨t, _ | _ | reason⟩
    · have hnext : RideLog.isFull { log with numFrames := t.frame.toUInt32.toUInt16 } = true := h
      exact ih hnext t _ _
    · rfl
    · rfl

/-- With a full log, a play writes no record, and its ticks are played under the last control. -/
theorem Play.of_isFull {played : List Control} {z : RideState × RideLog × StepResult}
    (hplay : Play w n c s log played z) (h : log.isFull = true) :
    z.2.1.updates = log.updates ∧ played = List.replicate played.length ⟨log.lastAccel, .none⟩ := by
  induction hplay with
  | nil => exact ⟨rfl, rfl⟩
  | last hcontrol =>
    rw [controlFor_of_isFull h] at hcontrol
    cases hcontrol
    exact ⟨rfl, rfl⟩
  | next hcontrol _ _ ih =>
    rw [controlFor_of_isFull h] at hcontrol
    cases hcontrol
    obtain ⟨hupdates, hplayed⟩ := ih h
    exact ⟨hupdates, congrArg (_ :: ·) hplayed⟩

variable {x : Session}

/-- With a full log, an advance does not depend on the control that was asked for. -/
theorem advance_of_isFull (h : x.log.isFull = true) (c d : Control) (frames : Nat) :
    x.advance c frames = x.advance d frames := by
  unfold advance
  rw [playTicks_of_isFull h _ _ _ c d]

/-- With a full log, an advance plays the last throttle position throughout. -/
theorem controlsOfAdvance_of_isFull (h : x.log.isFull = true) (c : Control) (frames : Nat) :
    x.controlsOfAdvance c frames =
      List.replicate (x.controlsOfAdvance c frames).length ⟨x.log.lastAccel, .none⟩ := by
  by_cases hstopped : x.finished = true ∨ x.state.dead = true
  · rw [controlsOfAdvance_of_stopped hstopped]
    rfl
  · simp only [not_or, Bool.not_eq_true] at hstopped
    rw [controlsOfAdvance_of_going hstopped.1 hstopped.2]
    exact ((play_of_eq rfl).of_isFull h).2

/-- With a full log, an advance writes no record. -/
theorem Stands.updates_of_isFull {cause : Option Failure} (hx : x.Stands cause)
    (h : x.log.isFull = true) (c : Control) (frames : Nat) :
    (x.advance c frames).1.log.updates = x.log.updates := by
  rcases hx.cases with ⟨hfinished, -⟩ | ⟨hfinished, hdead⟩ | ⟨hfinished, alive, -⟩
  · rw [advance_of_finished hfinished]
  · rw [advance_of_dead hfinished hdead]
  · rcases hplay : playTicks x.world (min frames x.remaining) c x.state x.log with ⟨t, log, r⟩
    obtain ⟨state, hend⟩ := x.conclude_eq t log r
    rw [advance_of_going hfinished alive, hplay, hend]
    exact ((play_of_eq hplay).of_isFull h).1

/-- **A full log ignores its rider.** After any steps that leave the log full, an advance answers
the same under every two controls and leaves the same session. The records stay as they are, and the
ticks, as many as the log counts from then on, are played under the last throttle position in it,
without rotations: the state is the one that they lead to, and they are all that were asked for if
the ride goes on. -/
theorem advance_of_full_log (w : World) (nonce : UInt32) (target : Int16) (steps : List ScriptStep)
    (hfull : ((ofWorld w startState nonce target).afterAll steps).log.isFull = true)
    (c d : Control) (frames : Nat) :
    let x := (ofWorld w startState nonce target).afterAll steps
    let held : Control := ⟨x.log.lastAccel, .none⟩
    let y := (x.advance c frames).1
    let answer := (x.advance c frames).2
    x.advance c frames = x.advance d frames ∧ y.log.updates = x.log.updates ∧
      ∃ k : Nat, y.log.numFrames.toNat = x.log.numFrames.toNat + k ∧
        x.controlsOfAdvance c frames = List.replicate k held ∧
        y.state = { w.stateAfter x.state (fun _ => held) k with dead := y.state.dead } ∧
        (answer = .continue → k = frames) := by
  intro x held y answer
  obtain ⟨hx, hstands⟩ :=
    (continues_ofWorld w nonce target).afterAll (stands_ofWorld w nonce target) steps
  change x.Continues w nonce target at hx
  change x.Stands _ at hstands
  change x.log.isFull = true at hfull
  have hcontrols := controlsOfAdvance_of_isFull hfull c frames
  have hstate := x.advance_state c frames
  have hlength := congrArg List.length (timeline_advance hstands c frames)
  rw [List.length_append, RideLog.length_timeline, RideLog.length_timeline] at hlength
  have hplayed := (hstands.lawfulAdvance hx c frames).played
  generalize (x.controlsOfAdvance c frames).length = k at hcontrols hstate hlength hplayed
  rw [hcontrols, hx.world, World.stateAfter_congr fun f hf => Control.atTick_replicate held hf]
    at hstate
  exact ⟨advance_of_isFull hfull c d frames, hstands.updates_of_isFull hfull c frames, k, hlength,
    hcontrols, hstate, fun hanswer => (hplayed hanswer).1⟩

end Session

/-- A flat course with its finish a long way below the start. -/
def World.longDrop : World := ⟨Field.zero.flattenFirstRow, testFinish⟩

/-- Sixty ticks under the throttle and without it in turns. -/
def ScriptStep.toggles : List ScriptStep :=
  (List.replicate 30 [advance ⟨.gasLeft, .none⟩ 1, advance ⟨.idle, .none⟩ 1]).flatten

/-- The log is full after sixty changes of the throttle. A rotation under the brake is then as good
as no request. -/
theorem Session.advance_of_full_log_toggles :
    let x := (ofWorld .longDrop startState 0 15000).afterAll ScriptStep.toggles
    x.log.isFull = true ∧ x.advance ⟨.brake, .cw⟩ 5 = x.advance ⟨.idle, .none⟩ 5 ∧
      (x.advance ⟨.brake, .cw⟩ 5).1.log.updates = x.log.updates := by
  have hfull : ((ofWorld .longDrop startState 0 15000).afterAll
      ScriptStep.toggles).log.isFull = true := by decide +kernel
  obtain ⟨hsame, hupdates, -⟩ := advance_of_full_log .longDrop 0 15000 ScriptStep.toggles hfull
    ⟨.brake, .cw⟩ ⟨.idle, .none⟩ 5
  dsimp only
  exact ⟨hfull, hsame, hupdates⟩

end RideProof
