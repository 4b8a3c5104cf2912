import Mathlib.Tactic.SplitIfs
import RideProof.Physics.Step

/-!
# What a tick can do

`World.Tick` lists the ways in which a tick can end, each with its guards and the state that it
leaves. Every tick is one of them (`World.tick_step`), so the laws below are read off the seven
cases and never off the motion of the bodies.

* `RideState.request_eq_none`, `RideState.eq_of_request` — when a control is refused, and what it
  changes when it is taken over.
* `World.move_frame`, `World.move_lastRotate`, `World.move_dead` — moving the bodies leaves the
  rest of the state alone.
* `World.TickMap.step_eq` — a tick ends as one that corresponds to it under a map of states.
* `World.step_frame`, `World.step_dead`, `World.step_cap` — the count of the ticks, death, and the
  tick that no ride survives.
* `World.lastRotate_of_step_some` — a tick under a rotation request that goes through.
-/

namespace RideProof

/-! ## Counting ticks -/

/-- The state with one more tick counted. -/
def RideState.counted (s : RideState) : RideState := { s with frame := s.frame + 1 }

/-- A count below the last permitted tick does not wrap. -/
theorem toInt_succ_of_lt {a : Int32} {n : Nat} (ha : a.toInt = n) (hn : n < 15000) :
    (a + 1).toInt = n + 1 := by
  rw [Int32.toInt_add, ha, Int32.toInt_one]
  exact Int.bmod_eq_of_le (by omega) (by omega)

/-- A word is determined by the number that it stands for. -/
theorem eq_frameCap_iff (a : Int32) : a = frameCap ↔ a.toInt = 15000 := by
  rw [← Int32.toInt_inj]
  rfl

/-! ## Reasons to fail -/

/-- The failures that leave the ride dead. -/
def Failure.isFatal : Failure → Bool
  | .frameCap | .wheelInGround | .headCrash => true
  | .alreadyDead | .rotationCooldown | .timeTargetReached => false

/-- There are three failures that end a ride for good. -/
theorem Failure.mem_of_isFatal {reason : Failure} (h : reason.isFatal = true) :
    reason ∈ [wheelInGround, headCrash, frameCap] := by
  cases reason <;> first | decide | exact absurd h Bool.false_ne_true

/-! ## Requests -/

/-- A request is refused if it has a rotation that comes too soon. -/
theorem RideState.request_eq_none {s : RideState} {c : Control} :
    s.request c = none ↔ c.rotation ≠ .none ∧ s.sinceRotation < rotationPeriod := by
  unfold request
  split_ifs with hr hs
  · simp [hr]
  · simp [hr, hs]
  · simp [hs]

/-- A request that goes through sets the throttle, and the rotation if it has one. -/
theorem RideState.eq_of_request {s q : RideState} {c : Control} (h : s.request c = some q) :
    (c.rotation = .none ∧ q = { s with accel := c.accel }) ∨
      (c.rotation ≠ .none ∧ rotationPeriod ≤ s.sinceRotation ∧
        q = { s with accel := c.accel, rotation := c.rotation, lastRotate := s.frame }) := by
  unfold request at h
  split_ifs at h with hr hs
  · exact .inl ⟨hr, (Option.some.inj h).symm⟩
  · exact .inr ⟨hr, Int.not_lt.mp hs, (Option.some.inj h).symm⟩

/-- A request leaves the frame count alone. -/
theorem RideState.frame_of_request {s q : RideState} {c : Control} (h : s.request c = some q) :
    q.frame = s.frame := by
  rcases eq_of_request h with ⟨-, rfl⟩ | ⟨-, -, rfl⟩ <;> rfl

/-- A request leaves a state as alive as it is. -/
theorem RideState.dead_of_request {s q : RideState} {c : Control} (h : s.request c = some q) :
    q.dead = s.dead := by
  rcases eq_of_request h with ⟨-, rfl⟩ | ⟨-, -, rfl⟩ <;> rfl

/-! ## Motion -/

/-- Moving the bodies changes bodies only. -/
theorem World.move_eq (w : World) (s : RideState) :
    ∃ left right chassis headPos headVel, (w.move s).1 =
      { s with leftWheel := left, rightWheel := right, chassis := chassis, headPos := headPos,
               headVel := headVel } := by
  unfold move
  dsimp only
  split
  · exact ⟨_, _, _, _, _, rfl⟩
  · split <;> exact ⟨_, _, _, _, _, rfl⟩

/-- Moving the bodies does not count. -/
@[simp] theorem World.move_frame (w : World) (s : RideState) : (w.move s).1.frame = s.frame := by
  obtain ⟨_, _, _, _, _, h⟩ := w.move_eq s
  rw [h]

/-- Moving the bodies leaves the last rotation alone. -/
@[simp] theorem World.move_lastRotate (w : World) (s : RideState) :
    (w.move s).1.lastRotate = s.lastRotate := by
  obtain ⟨_, _, _, _, _, h⟩ := w.move_eq s
  rw [h]

/-- Moving the bodies does not kill. -/
@[simp] theorem World.move_dead (w : World) (s : RideState) : (w.move s).1.dead = s.dead := by
  obtain ⟨_, _, _, _, _, h⟩ := w.move_eq s
  rw [h]

/-! ## The ways a tick can end -/

/-- The ways in which a tick can end: what each needs, the state after it and its result. -/
inductive World.Tick (w : World) (s : RideState) (c : Control) : RideState × StepResult → Prop
  /-- The ride had ended before. -/
  | dead (hdead : s.dead = true) : w.Tick s c (s, .failure .alreadyDead)
  /-- The tick is the one that no ride survives. -/
  | capped (alive : s.dead = false) (hcap : s.frame + 1 = frameCap) :
      w.Tick s c ({ s.counted with dead := true }, .failure .frameCap)
  /-- The rotation comes too soon. -/
  | refused (alive : s.dead = false) (hcap : s.frame + 1 ≠ frameCap)
      (hreq : s.counted.request c = none) : w.Tick s c (s.counted, .failure .rotationCooldown)
  /-- A wheel is inside the ground. -/
  | stuck (alive : s.dead = false) (hcap : s.frame + 1 ≠ frameCap) {q : RideState}
      (hreq : s.counted.request c = some q) (hmove : (w.move q).2 = true) :
      w.Tick s c ({ (w.move q).1 with dead := true }, .failure .wheelInGround)
  /-- The finish is reached. -/
  | finished (alive : s.dead = false) (hcap : s.frame + 1 ≠ frameCap) {q : RideState}
      (hreq : s.counted.request c = some q) (hmove : (w.move q).2 = false)
      (hcapture : (w.move q).1.captured w.finish = true) : w.Tick s c ((w.move q).1, .success)
  /-- The head hits the ground. -/
  | crashed (alive : s.dead = false) (hcap : s.frame + 1 ≠ frameCap) {q : RideState}
      (hreq : s.counted.request c = some q) (hmove : (w.move q).2 = false)
      (hcapture : (w.move q).1.captured w.finish = false)
      (hhead : w.field.groundDistance (w.move q).1.headPos < headRadius) :
      w.Tick s c ({ (w.move q).1 with dead := true }, .failure .headCrash)
  /-- The ride goes on. -/
  | on (alive : s.dead = false) (hcap : s.frame + 1 ≠ frameCap) {q : RideState}
      (hreq : s.counted.request c = some q) (hmove : (w.move q).2 = false)
      (hcapture : (w.move q).1.captured w.finish = false)
      (hhead : ¬ w.field.groundDistance (w.move q).1.headPos < headRadius) :
      w.Tick s c ((w.move q).1, .continue)

/-- The tick of a live ride. -/
theorem World.step_of_alive {w : World} {s : RideState} (alive : s.dead = false) (c : Control) :
    w.step s c =
      if s.frame + 1 = frameCap then ({ s.counted with dead := true }, .failure .frameCap)
      else
        match s.counted.request c with
        | none => (s.counted, .failure .rotationCooldown)
        | some q =>
          if (w.move q).2 then ({ (w.move q).1 with dead := true }, .failure .wheelInGround)
          else w.judge (w.move q).1 := by
  have hcounted : ({ s with frame := s.frame + 1 } : RideState) = s.counted := rfl
  unfold step
  rw [if_neg (Bool.eq_false_iff.mp alive)]
  dsimp only
  split_ifs with hcap
  · rfl
  · rw [hcounted]
    rcases s.counted.request c with _ | q
    · rfl
    · dsimp only
      rcases w.move q with ⟨t, _ | _⟩ <;> rfl

/-- Every tick ends in one of these ways. -/
theorem World.tick_step (w : World) (s : RideState) (c : Control) : w.Tick s c (w.step s c) := by
  by_cases hdead : s.dead = true
  · rw [w.step_of_dead hdead]
    exact .dead hdead
  · have alive : s.dead = false := Bool.eq_false_iff.mpr hdead
    rw [step_of_alive alive]
    split_ifs with hcap
    · exact .capped alive hcap
    · rcases hreq : s.counted.request c with _ | q
      · exact .refused alive hcap hreq
      · dsimp only [judge]
        split_ifs with hmove hcapture hhead
        · exact .stuck alive hcap hreq hmove
        · exact .finished alive hcap hreq (Bool.eq_false_iff.mpr hmove) hcapture
        · exact .crashed alive hcap hreq (Bool.eq_false_iff.mpr hmove)
            (Bool.eq_false_iff.mpr hcapture) hhead
        · exact .on alive hcap hreq (Bool.eq_false_iff.mpr hmove)
            (Bool.eq_false_iff.mpr hcapture) hhead

/-! ## Ticks that correspond -/

section TickMap

variable {w w' : World} {s : RideState} {c c' : Control} {φ : RideState → RideState}

/-- The map `φ` takes what goes on in the tick of `s` under `c` on one course to what goes on in the
tick of `φ s` under `c'` on another. -/
structure World.TickMap (w w' : World) (s : RideState) (c c' : Control)
    (φ : RideState → RideState) : Prop where
  /-- One state is as alive as the other. -/
  dead : (φ s).dead = s.dead
  /-- Both have counted the same ticks. -/
  frame : (φ s).frame = s.frame
  /-- One more tick is one more tick. -/
  counted : (φ s).counted = φ s.counted
  /-- The controls are taken over together, or refused together. -/
  request : (φ s.counted).request c' = (s.counted.request c).map φ
  /-- The bodies move as the map says, or are stopped together. -/
  move : ∀ q, s.counted.request c = some q → w'.move (φ q) = (φ (w.move q).1, (w.move q).2)
  /-- The finishes are captured together. -/
  captured : ∀ q, (φ q).captured w'.finish = q.captured w.finish
  /-- The heads are equally far from the ground. -/
  head : ∀ q, w'.field.groundDistance (φ q).headPos = w.field.groundDistance q.headPos
  /-- What dies is otherwise left as it is. -/
  killed : ∀ q, { φ q with dead := true } = φ { q with dead := true }

/-- Bodies that have moved are judged together. -/
theorem World.TickMap.judge_eq (h : w.TickMap w' s c c' φ) (q : RideState) :
    w'.judge (φ q) = (φ (w.judge q).1, (w.judge q).2) := by
  unfold judge
  rw [h.captured, h.head, h.killed]
  split_ifs <;> rfl

/-- A tick ends as the one that corresponds to it, in the state that the map says. -/
theorem World.TickMap.step_eq (h : w.TickMap w' s c c' φ) :
    w'.step (φ s) c' = (φ (w.step s c).1, (w.step s c).2) := by
  rcases hdead : s.dead with _ | _
  · have alive : (φ s).dead = false := h.dead.trans hdead
    rw [step_of_alive alive, step_of_alive hdead, h.frame, h.counted, h.request, h.killed]
    split_ifs with hcap
    · rfl
    · rcases hreq : s.counted.request c with _ | q
      · rfl
      · dsimp only [Option.map_some]
        rw [h.move q hreq, h.judge_eq, h.killed]
        split_ifs <;> rfl
  · rw [w'.step_of_dead (h.dead.trans hdead), w.step_of_dead hdead]

end TickMap

/-! ## The laws of a tick -/

section laws

variable {w : World} {s t : RideState} {c : Control} {r : StepResult}

/-- What is known of a tick is how it ended. -/
theorem World.tick_of_step (h : w.step s c = (t, r)) : w.Tick s c (t, r) := h ▸ w.tick_step s c

/-- A tick that does anything at all finds the ride alive. -/
theorem World.alive_of_step (h : w.step s c = (t, r)) (hr : r ≠ .failure .alreadyDead) :
    s.dead = false := by
  cases tick_of_step h with
  | dead => exact absurd rfl hr
  | capped alive => exact alive
  | refused alive => exact alive
  | stuck alive => exact alive
  | finished alive => exact alive
  | crashed alive => exact alive
  | on alive => exact alive

/-- A tick of a live ride is counted. -/
theorem World.step_frame (h : w.step s c = (t, r)) (alive : s.dead = false) :
    t.frame = s.frame + 1 := by
  cases tick_of_step h with
  | dead hdead => rw [alive] at hdead; cases hdead
  | capped => rfl
  | refused => rfl
  | stuck _ _ hreq => exact (w.move_frame _).trans (RideState.frame_of_request hreq)
  | finished _ _ hreq => exact (w.move_frame _).trans (RideState.frame_of_request hreq)
  | crashed _ _ hreq => exact (w.move_frame _).trans (RideState.frame_of_request hreq)
  | on _ _ hreq => exact (w.move_frame _).trans (RideState.frame_of_request hreq)

/-- A live ride is dead after a tick that fails for a fatal reason, and after no other. -/
theorem World.step_dead (h : w.step s c = (t, r)) (alive : s.dead = false) :
    t.dead = true ↔ ∃ reason, reason.isFatal = true ∧ r = .failure reason := by
  have hq {q : RideState} (hreq : s.counted.request c = some q) : q.dead = false :=
    (RideState.dead_of_request hreq).trans alive
  cases tick_of_step h with
  | dead hdead => rw [alive] at hdead; cases hdead
  | capped => exact ⟨fun _ => ⟨_, rfl, rfl⟩, fun _ => rfl⟩
  | refused =>
    constructor
    · intro hdead
      exact absurd (alive.symm.trans hdead) Bool.false_ne_true
    · rintro ⟨reason, hfatal, hr⟩
      cases hr
      exact absurd hfatal Bool.false_ne_true
  | stuck => exact ⟨fun _ => ⟨_, rfl, rfl⟩, fun _ => rfl⟩
  | finished _ _ hreq => simp [hq hreq]
  | crashed => exact ⟨fun _ => ⟨_, rfl, rfl⟩, fun _ => rfl⟩
  | on _ _ hreq => simp [hq hreq]

/-- A ride that goes on, or is finished, is alive. -/
theorem World.alive_after_step (h : w.step s c = (t, r)) (hr : ∀ reason, r ≠ .failure reason) :
    t.dead = false := by
  have alive := alive_of_step h (hr _)
  rw [Bool.eq_false_iff]
  intro hdead
  obtain ⟨reason, -, rfl⟩ := (step_dead h alive).mp hdead
  exact hr reason rfl

/-- The tick limit ends a live ride on the tick of that number, and on no other. -/
theorem World.step_cap (h : w.step s c = (t, r)) (alive : s.dead = false) :
    r = .failure .frameCap ↔ t.frame = frameCap := by
  rw [step_frame h alive]
  cases tick_of_step h with
  | dead hdead => rw [alive] at hdead; cases hdead
  | capped _ hcap => simp [hcap]
  | refused _ hcap => simp [hcap]
  | stuck _ hcap => simp [hcap]
  | finished _ hcap => simp [hcap]
  | crashed _ hcap => simp [hcap]
  | on _ hcap => simp [hcap]

/-- A live ride fails for a fatal reason, or because of a rotation that comes too soon. -/
theorem World.step_failure {reason : Failure} (h : w.step s c = (t, .failure reason))
    (alive : s.dead = false) :
    reason.isFatal = true ∨ (reason = .rotationCooldown ∧ c.rotation ≠ .none ∧
      s.counted.sinceRotation < rotationPeriod) := by
  cases tick_of_step h with
  | dead hdead => rw [alive] at hdead; cases hdead
  | capped => exact .inl rfl
  | refused _ _ hreq =>
    obtain ⟨hrot, hsince⟩ := RideState.request_eq_none.mp hreq
    exact .inr ⟨rfl, hrot, hsince⟩
  | stuck => exact .inl rfl
  | crashed => exact .inl rfl

/-- A tick that does not fail has let its control through. -/
theorem World.request_of_step (h : w.step s c = (t, r)) (hr : ∀ reason, r ≠ .failure reason) :
    ∃ q, s.counted.request c = some q ∧ t = (w.move q).1 := by
  cases tick_of_step h with
  | dead => exact absurd rfl (hr _)
  | capped => exact absurd rfl (hr _)
  | refused => exact absurd rfl (hr _)
  | stuck => exact absurd rfl (hr _)
  | finished _ _ hreq => exact ⟨_, hreq, rfl⟩
  | crashed => exact absurd rfl (hr _)
  | on _ _ hreq => exact ⟨_, hreq, rfl⟩

/-- A tick without a rotation request leaves the last rotation as it is. -/
theorem World.lastRotate_of_step_none (h : w.step s c = (t, r))
    (hr : ∀ reason, r ≠ .failure reason) (hc : c.rotation = .none) :
    t.lastRotate = s.lastRotate := by
  obtain ⟨q, hreq, rfl⟩ := request_of_step h hr
  rw [w.move_lastRotate]
  rcases RideState.eq_of_request hreq with ⟨-, rfl⟩ | ⟨hne, -, -⟩
  · rfl
  · exact absurd hc hne

/-- A rotation request that goes through comes a period after the last rotation, and is the last
rotation from then on. -/
theorem World.lastRotate_of_step_some (h : w.step s c = (t, r))
    (hr : ∀ reason, r ≠ .failure reason) (hc : c.rotation ≠ .none) :
    rotationPeriod ≤ s.counted.sinceRotation ∧ t.lastRotate = s.frame + 1 := by
  obtain ⟨q, hreq, rfl⟩ := request_of_step h hr
  rw [w.move_lastRotate]
  rcases RideState.eq_of_request hreq with ⟨heq, -⟩ | ⟨-, hsince, rfl⟩
  · exact absurd heq hc
  · exact ⟨hsince, rfl⟩

end laws

end RideProof
