import RideProof.Proofs.MachineContact
import RideProof.Proofs.Run

/-!
# Ticks and rides on a machine

`Machine.step` plays one tick as a machine does: it counts in checked words, works out forces,
ground and contact in the words of `Word`, and reads every table and every corner of the lattice at
a checked index. What may not fit is counting alone: the tick count and the ticks since the last
rotation. They fit in every state whose last rotation lies in the past, and not further back than at
the start of a course, and which has a tick left (`RideState.Countable`).

* `Machine.step_eq` — from such a state a machine of either kind plays the tick of the library, for
  any bodies on any course, under any control.
* `World.countable_step` — the state after the tick is such a state again, unless it is dead.
* `Machine.stateAfter_eq`, `Machine.plays_without_fault` — so a ride of any length never meets a
  fault, and is the same on both kinds of machines.
-/

namespace RideProof

/-! ## One tick -/

namespace Machine

variable (m : Machine)

/-- Whether two points of the torus are nearer than `radius`. -/
def within (a b : Point) (radius : Int32) : Option Bool := do
  let dx : Word m .i64 := ((Word.ofInt32 a.x).wrappingSub (.ofInt32 b.x)).cast .i64
  let dy : Word m .i64 := ((Word.ofInt32 a.y).wrappingSub (.ofInt32 b.y)).cast .i64
  let r : Word m .i64 := (Word.ofInt32 radius).cast .i64
  let distance ← ((dx * dx) >>> 32 + (dy * dy) >>> 32 : Word m .i64).value?
  let bound ← ((r * r) >>> 32).value?
  return decide (distance < bound)

/-- Whether a wheel or the head has reached the finish; the first that has ends the test. -/
def captured (s : RideState) (finish : Point) : Option Bool := do
  if ← m.within s.leftWheel.pos finish wheelCaptureRadius then return true
  else if ← m.within s.rightWheel.pos finish wheelCaptureRadius then return true
  else m.within s.headPos finish headCaptureRadius

/-- The state with the control taken over, or nothing if its rotation comes too soon. -/
def request (s : RideState) (c : Control) : Option (Option RideState) := do
  if c.rotation = .none then return some { s with accel := c.accel }
  else
    let since ← (Word.ofInt32 s.frame - Word.ofInt32 s.lastRotate : Word m .i32).value?
    if since < rotationPeriod then return none
    else return some { s with accel := c.accel, rotation := c.rotation, lastRotate := s.frame }

/-- The state with the frame and the head moved for one tick. -/
def moveUpperBodies (s : RideState) (forces : Forces) : Option RideState := do
  let chassis ←
    m.integrate s.chassis forces.chassis forces.chassisTorque chassisMass chassisAngularMass
  let headPos ← Word.toPoint? (Word.addPoint (Word.ofPoint s.headPos) (Word.ofPoint s.headVel) :
    Pair (Word m .i32))
  let headVel ← Word.toPoint? (Word.addPoint (Word.ofPoint s.headVel)
    (forces.head.map fun f => (.of f / .of headMass : Word m .i64).cast .i32))
  return { s with chassis := chassis, headPos := headPos, headVel := headVel }

/-- The state with all bodies moved for one tick, and whether a wheel in the ground stopped it. -/
def move (w : World) (s : RideState) : Option (RideState × Bool) := do
  let forces ← m.forces s
  match ← m.advanceWheel w.field ⟨s.leftWheel, forces.left, forces.leftTorque⟩ with
  | none => return (s, true)
  | some left =>
    let s := { s with leftWheel := left }
    match ← m.advanceWheel w.field ⟨s.rightWheel, forces.right, forces.rightTorque⟩ with
    | none => return (s, true)
    | some right =>
      let s ← m.moveUpperBodies { s with rightWheel := right } forces
      return (s, false)

/-- The result of a tick whose bodies have moved. -/
def judge (w : World) (s : RideState) : Option (RideState × StepResult) := do
  if ← m.captured s w.finish then return (s, .success)
  else
    let distance ← m.groundDistance w.field s.headPos
    if distance < headRadius then return ({ s with dead := true }, .failure .headCrash)
    else return (s, .continue)

/-- One tick of a ride. -/
def step (w : World) (s : RideState) (c : Control) : Option (RideState × StepResult) := do
  if s.dead then return (s, .failure .alreadyDead)
  else
    let frame ← (Word.ofInt32 s.frame + .of 1 : Word m .i32).toInt32?
    let s := { s with frame := frame }
    if s.frame = frameCap then return ({ s with dead := true }, .failure .frameCap)
    else
      match ← m.request s c with
      | none => return (s, .failure .rotationCooldown)
      | some s =>
        match ← m.move w s with
        | (s, true) => return ({ s with dead := true }, .failure .wheelInGround)
        | (s, false) => m.judge w s

end Machine

/-! ## Counting -/

/-- What counting needs: a tick is left, and the last rotation lies in the past, though not further
back than at the start of a course. -/
structure RideState.Countable (s : RideState) : Prop where
  /-- The count has started at zero or later. -/
  started : 0 ≤ s.frame.toInt
  /-- There is a tick left. -/
  left : s.frame.toInt < 15000
  /-- The last rotation is no longer ago than at the start. -/
  recent : -10000 ≤ s.lastRotate.toInt
  /-- The last rotation is not ahead. -/
  past : s.lastRotate.toInt ≤ s.frame.toInt

/-- Counting a tick that is left does not wrap. -/
theorem RideState.Countable.toInt_succ {s : RideState} (hs : s.Countable) :
    (s.frame + 1).toInt = s.frame.toInt + 1 := by
  have hstarted := hs.started
  have hleft := hs.left
  have h := toInt_succ_of_lt (Int.toNat_of_nonneg hstarted).symm (by omega)
  rwa [Int.toNat_of_nonneg hstarted] at h

/-- After the tick is counted, the ticks since the last rotation fit a word. -/
theorem RideState.Countable.fits_counted {s : RideState} (hs : s.Countable) :
    WordKind.i32.Fits s.counted.sinceRotation := by
  have hframe : s.counted.frame.toInt = s.frame.toInt + 1 := hs.toInt_succ
  have hlast : s.counted.lastRotate.toInt = s.lastRotate.toInt := rfl
  obtain ⟨hstarted, hleft, hrecent, hpast⟩ := hs
  refine WordKind.fits_of_le_reach (Nat.le_trans (m := 25000) ?_ (by decide))
  unfold sinceRotation
  omega

/-- They still do if a rotation is let through. -/
theorem RideState.fits_of_request {s q : RideState} {c : Control}
    (hs : WordKind.i32.Fits s.sinceRotation) (hq : s.request c = some q) :
    WordKind.i32.Fits q.sinceRotation := by
  rcases eq_of_request hq with ⟨-, rfl⟩ | ⟨-, -, rfl⟩
  · exact hs
  · have hzero : s.frame.toInt - s.frame.toInt = 0 := Int.sub_self _
    unfold sinceRotation
    rw [hzero]
    decide

/-! ## The tick of the library -/

namespace Machine

variable (m : Machine)

/-- A machine of either kind tells whether points are near. -/
theorem within_eq (a b : Point) (radius : Int32) :
    m.within a b radius = some (RideProof.within a b radius) := by
  have hsquare (x : Int32) : (((Word.ofInt32 x).cast .i64 * (Word.ofInt32 x).cast .i64 :
      Word m .i64) >>> 32).Shows (x.toInt * x.toInt / (4294967296 : Nat)) 1073741825 :=
    ((Word.shows_cast_ofInt32 x).mul (Word.shows_cast_ofInt32 x) (by decide)).shiftRight
      (by decide) rfl
  simp only [within, Word.wrappingSub_ofInt32]
  rw [((hsquare _).add (hsquare _) (by decide)).eq, (hsquare radius).eq]
  rfl

/-- A machine of either kind tells whether the finish is reached. -/
theorem captured_eq (s : RideState) (finish : Point) :
    m.captured s finish = some (s.captured finish) := by
  simp only [captured, m.within_eq, Option.bind_eq_bind, Option.bind_some, RideState.captured]
  split_ifs with hleft hright
  · simp [hleft]
  · simp [hright]
  · simp [hleft, hright]

/-- A machine of either kind takes up what is asked for, if the ticks since the last rotation
fit. -/
theorem request_eq {s : RideState} (hs : WordKind.i32.Fits s.sinceRotation) (c : Control) :
    m.request s c = some (s.request c) := by
  have hsince : (Word.ofInt32 s.frame - Word.ofInt32 s.lastRotate : Word m .i32) =
      .of s.sinceRotation := Word.settle_of_fits hs
  simp only [request, RideState.request, hsince, Word.value?_of, Option.bind_eq_bind,
    Option.bind_some]
  split_ifs <;> rfl

/-- A machine of either kind moves the frame and the head, if the forces leave room. -/
theorem moveUpperBodies_eq (s : RideState) {forces : Forces}
    (h : forces.Within 4503599627370496) :
    m.moveUpperBodies s forces = some (s.moveUpperBodies forces) := by
  have hwide {n : Nat} (hn : n ≤ 4503599627370496) : n ≤ 9007199254740992 :=
    Nat.le_trans hn (by decide)
  have hhead : forces.head.map (fun f => (.of f / .of headMass : Word m .i64).cast .i32) =
      Word.ofPoint (forces.head.map fun f => Int32.ofInt (f.tdiv headMass)) := by
    simp only [Pair.map, Word.cast_div (hwide h.head.1) (by decide : headMass ≠ 0),
      Word.cast_div (hwide h.head.2) (by decide : headMass ≠ 0), Word.ofPoint]
  simp only [moveUpperBodies, hhead, m.integrate_eq _ (hwide h.chassis.1) (hwide h.chassis.2)
    (hwide h.chassisTorque) (by decide : chassisMass ≠ 0) (by decide : chassisAngularMass ≠ 0),
    Word.addPoint_ofPoint, Word.toPoint?_ofPoint, Option.bind_eq_bind, Option.bind_some]
  rfl

/-- A machine of either kind moves all bodies, if the ticks since the last rotation fit. -/
theorem move_eq (w : World) {s : RideState} (hs : WordKind.i32.Fits s.sinceRotation) :
    m.move w s = some (w.move s) := by
  -- From here on only the size of the forces matters, not how they came about.
  have hforces := Forces.within_of hs
  unfold move World.move
  rw [m.forces_eq hs]
  generalize Forces.of s = forces at hforces
  have hleft : WheelLoad.Within ⟨s.leftWheel, forces.left, forces.leftTorque⟩ 4503599627370496 :=
    ⟨hforces.left, hforces.leftTorque⟩
  have hright : WheelLoad.Within ⟨s.rightWheel, forces.right, forces.rightTorque⟩
      4503599627370496 := ⟨hforces.right, hforces.rightTorque⟩
  simp only [Option.bind_eq_bind, Option.bind_some, m.advanceWheel_eq _ hleft]
  rcases w.field.advanceWheel ⟨s.leftWheel, forces.left, forces.leftTorque⟩ with _ | left
  · rfl
  · simp only [m.advanceWheel_eq _ hright, Option.bind_some]
    rcases w.field.advanceWheel ⟨s.rightWheel, forces.right, forces.rightTorque⟩ with _ | right
    · rfl
    · simp only [m.moveUpperBodies_eq _ hforces, Option.bind_some]
      rfl

/-- A machine of either kind judges the state after a tick. -/
theorem judge_eq (w : World) (s : RideState) : m.judge w s = some (w.judge s) := by
  simp only [judge, m.captured_eq, m.groundDistance_eq, Option.bind_eq_bind, Option.bind_some,
    World.judge]
  split_ifs <;> rfl

/-- A machine of either kind plays the tick of the library, if counting has room. -/
theorem step_eq (w : World) {s : RideState} (hs : s.dead = false → s.Countable) (c : Control) :
    m.step w s c = some (w.step s c) := by
  cases hdead : s.dead with
  | true =>
      rw [w.step_of_dead hdead, step, if_pos hdead]
      rfl
  | false =>
      have hcount := hs hdead
      -- The count has room even at the cap: it is a whole word, and the cap is far below its end.
      have hframe : (Word.ofInt32 s.frame + .of 1 : Word m .i32).toInt32? = some (s.frame + 1) := by
        have hfits : WordKind.i32.Fits (s.frame.toInt + 1) := by
          have hlow := s.frame.le_toInt
          have hleft := hcount.left
          exact ⟨Int.le_add_one hlow, by show _ ≤ (2147483647 : Int); omega⟩
        rw [Word.ofInt32, Word.add_of hfits, Word.toInt32?, Word.value?_of, Option.map_some,
          Int32.ofInt_add, Int32.ofInt_toInt]
        rfl
      rw [World.step_of_alive hdead, step, if_neg (Bool.eq_false_iff.mp hdead), hframe]
      simp only [Option.bind_eq_bind, Option.bind_some]
      split_ifs with hcap
      · rfl
      · have hcounted : ({ s with frame := s.frame + 1 } : RideState) = s.counted := rfl
        rw [hcounted, m.request_eq hcount.fits_counted]
        rcases hq : s.counted.request c with _ | q
        · rfl
        · have hfits := RideState.fits_of_request hcount.fits_counted hq
          simp only [Option.bind_some, m.move_eq w hfits]
          rcases w.move q with ⟨t, _ | _⟩
          · exact m.judge_eq w t
          · rfl

end Machine

/-! ## Rides -/

/-- The state after `n` ticks. -/
def Machine.stateAfter (m : Machine) (w : World) (s : RideState) (cs : Nat → Control) :
    Nat → Option RideState
  | 0 => some s
  | n + 1 => do
    let t ← m.stateAfter w s cs n
    let tick ← m.step w t (cs n)
    return tick.1

/-- The result of tick `n`, the first tick being tick 0. -/
def Machine.resultAt (m : Machine) (w : World) (s : RideState) (cs : Nat → Control) (n : Nat) :
    Option StepResult := do
  let t ← m.stateAfter w s cs n
  let tick ← m.step w t (cs n)
  return tick.2

/-! ## Rides of the library -/

/-- A tick that is counted, but is not the one that no ride survives, leaves room for another. -/
theorem RideState.Countable.counted {s t : RideState} (hs : s.Countable)
    (hcap : s.frame + 1 ≠ frameCap) (hframe : t.frame = s.frame + 1)
    (hlast : t.lastRotate = s.lastRotate ∨ t.lastRotate = s.frame + 1) : t.Countable := by
  have hnext : t.frame.toInt = s.frame.toInt + 1 := hframe ▸ hs.toInt_succ
  have hne : t.frame.toInt ≠ 15000 := fun h => hcap (hframe ▸ (eq_frameCap_iff t.frame).mpr h)
  have hrotate : t.lastRotate.toInt = s.lastRotate.toInt ∨
      t.lastRotate.toInt = s.frame.toInt + 1 := by
    rcases hlast with h | h
    · exact .inl (congrArg Int32.toInt h)
    · exact .inr (h ▸ hs.toInt_succ)
  obtain ⟨hstarted, hleft, hrecent, hpast⟩ := hs
  constructor <;> omega

/-- After a tick counting has room again, unless the ride is dead. -/
theorem World.countable_step {w : World} {s t : RideState} {c : Control} {r : StepResult}
    (h : w.step s c = (t, r)) (hs : s.dead = false → s.Countable) (ht : t.dead = false) :
    t.Countable := by
  have hmoved {q : RideState} (alive : s.dead = false) (hcap : s.frame + 1 ≠ frameCap)
      (hreq : s.counted.request c = some q) : (w.move q).1.Countable := by
    refine (hs alive).counted hcap ?_ ?_
    · exact (w.move_frame q).trans (RideState.frame_of_request hreq)
    · rw [w.move_lastRotate]
      rcases RideState.eq_of_request hreq with ⟨-, rfl⟩ | ⟨-, -, rfl⟩
      · exact .inl rfl
      · exact .inr rfl
  cases tick_of_step h with
  | dead hdead => exact hs ht
  | capped => cases ht
  | refused alive hcap => exact (hs alive).counted hcap rfl (.inl rfl)
  | stuck => cases ht
  | finished alive hcap hreq => exact hmoved alive hcap hreq
  | crashed => cases ht
  | on alive hcap hreq => exact hmoved alive hcap hreq

/-- All along a ride counting has room, unless the ride is dead. -/
theorem World.countable_stateAfter (w : World) {s : RideState} (hs : s.Countable)
    (cs : Nat → Control) (n : Nat) :
    (w.stateAfter s cs n).dead = false → (w.stateAfter s cs n).Countable := by
  induction n with
  | zero => exact fun _ => hs
  | succ n ih => exact countable_step (w.step_stateAfter s cs n) ih

namespace Machine

variable (m : Machine)

/-- A machine of either kind plays the whole ride of the library. -/
theorem stateAfter_eq (w : World) {s : RideState} (hs : s.Countable) (cs : Nat → Control)
    (n : Nat) : m.stateAfter w s cs n = some (w.stateAfter s cs n) := by
  induction n with
  | zero => rfl
  | succ n ih =>
      rw [stateAfter, ih]
      simp only [Option.bind_eq_bind, Option.bind_some,
        m.step_eq w (w.countable_stateAfter hs cs n)]
      rfl

/-- A machine of either kind gets the result of every tick of a ride. -/
theorem resultAt_eq (w : World) {s : RideState} (hs : s.Countable) (cs : Nat → Control)
    (n : Nat) : m.resultAt w s cs n = some (w.resultAt s cs n) := by
  rw [resultAt, m.stateAfter_eq w hs]
  simp only [Option.bind_eq_bind, Option.bind_some,
    m.step_eq w (w.countable_stateAfter hs cs n)]
  rfl

/-- **No fault is met on any course** from a state whose count has started and has a tick left and
whose last rotation lies in the past, though not further back than at the start of a course.
Whatever its bodies do and whatever is asked for, the next tick goes through, and so does every ride
from there, however long; and a checking machine and a wrapping one get the same of both. -/
theorem plays_without_fault (w : World) {s : RideState} (hstarted : 0 ≤ s.frame.toInt)
    (hleft : s.frame.toInt < 15000) (hrecent : -10000 ≤ s.lastRotate.toInt)
    (hpast : s.lastRotate.toInt ≤ s.frame.toInt) :
    (∀ c, m.step w s c = some (w.step s c)) ∧
      ∀ cs n, m.stateAfter w s cs n = some (w.stateAfter s cs n) ∧
        m.resultAt w s cs n = some (w.resultAt s cs n) := by
  have hs : s.Countable := ⟨hstarted, hleft, hrecent, hpast⟩
  exact ⟨fun c => m.step_eq w (fun _ => hs) c,
    fun cs n => ⟨m.stateAfter_eq w hs cs n, m.resultAt_eq w hs cs n⟩⟩

/-- Every ride from the start of a course is such a ride. -/
theorem plays_without_fault_from_start :
    (0 ≤ startState.frame.toInt ∧ startState.frame.toInt < 15000 ∧
      -10000 ≤ startState.lastRotate.toInt ∧
      startState.lastRotate.toInt ≤ startState.frame.toInt) ∧
    (∀ c, checking.step ⟨.zero, start⟩ startState c =
      some (World.step ⟨.zero, start⟩ startState c)) ∧
    ∀ cs n, checking.stateAfter ⟨.zero, start⟩ startState cs n =
      some (World.stateAfter ⟨.zero, start⟩ startState cs n) := by
  have hrange : 0 ≤ startState.frame.toInt ∧ startState.frame.toInt < 15000 ∧
      -10000 ≤ startState.lastRotate.toInt ∧
      startState.lastRotate.toInt ≤ startState.frame.toInt := by decide
  obtain ⟨hstarted, hleft, hrecent, hpast⟩ := hrange
  have hplays := plays_without_fault checking ⟨.zero, start⟩ hstarted hleft hrecent hpast
  exact ⟨⟨hstarted, hleft, hrecent, hpast⟩, hplays.1, fun cs n => (hplays.2 cs n).1⟩

/-- A count at the end of its word cannot be counted on: there a checking machine stops. -/
example : checking.step ⟨.zero, start⟩ { startState with frame := 2147483647 } ⟨.idle, .none⟩ =
    none := by decide

end Machine

end RideProof
