import RideProof.Physics.Contact

/-!
# One tick of a ride

`World.step` plays one tick of a state under a control. In order: a dead state stays as it is; the
tick is counted, and the last permitted one ends the ride; a rotation that comes too soon is
refused; the bodies move; the finish is captured or the head crashes.

* `RideState.request` — the control taken over, or refused.
* `World.move` — the motion of the bodies.
* `captured` — the finish test.
-/

namespace RideProof

/-- The tick that no ride survives. -/
def frameCap : Int32 := 15000

/-- The distance to the ground below which the head crashes. -/
def headRadius : Int32 := 13000

/-- How close to the finish a wheel has to come. -/
def wheelCaptureRadius : Int32 := 42949672

/-- How close to the finish the head has to come. -/
def headCaptureRadius : Int32 := 34252364

/-- The mass of the frame. -/
def chassisMass : Int := 99999

/-- The angular mass of the frame. -/
def chassisAngularMass : Int := 30249

/-- The mass of the head. -/
def headMass : Int := 2500

/-- Whether two points of the torus are nearer than `radius`. The squares are compared in units of
`2^32`, each rounded down. -/
def within (a b : Point) (radius : Int32) : Bool :=
  let d := a - b
  decide (d.x.toInt * d.x.toInt / 4294967296 + d.y.toInt * d.y.toInt / 4294967296 <
    radius.toInt * radius.toInt / 4294967296)

/-- Whether a wheel or the head has reached the finish. -/
def RideState.captured (s : RideState) (finish : Point) : Bool :=
  within s.leftWheel.pos finish wheelCaptureRadius ||
    within s.rightWheel.pos finish wheelCaptureRadius ||
    within s.headPos finish headCaptureRadius

/-- The state with the control taken over, or nothing if its rotation comes too soon. -/
def RideState.request (s : RideState) (c : Control) : Option RideState :=
  if c.rotation = .none then some { s with accel := c.accel }
  else if s.sinceRotation < rotationPeriod then none
  else some { s with accel := c.accel, rotation := c.rotation, lastRotate := s.frame }

/-- The state with the frame and the head moved for one tick. -/
def RideState.moveUpperBodies (s : RideState) (forces : Forces) : RideState :=
  { s with
    chassis :=
      s.chassis.integrate forces.chassis forces.chassisTorque chassisMass chassisAngularMass
    headPos := s.headPos + s.headVel
    headVel := s.headVel + forces.head.map fun f => Int32.ofInt (Int.tdiv f headMass) }

/-- The state with all bodies moved for one tick; on the right, whether a wheel's centre was inside
the ground, which stops the motion where it stands. -/
def World.move (w : World) (s : RideState) : RideState × Bool :=
  let forces := Forces.of s
  match w.field.advanceWheel ⟨s.leftWheel, forces.left, forces.leftTorque⟩ with
  | none => (s, true)
  | some left =>
    let s := { s with leftWheel := left }
    match w.field.advanceWheel ⟨s.rightWheel, forces.right, forces.rightTorque⟩ with
    | none => (s, true)
    | some right => ({ s with rightWheel := right }.moveUpperBodies forces, false)

/-- The result of a tick whose bodies have moved. -/
def World.judge (w : World) (s : RideState) : RideState × StepResult :=
  if s.captured w.finish then (s, .success)
  else if w.field.groundDistance s.headPos < headRadius then
    ({ s with dead := true }, .failure .headCrash)
  else (s, .continue)

/-- One tick of a ride. -/
def World.step (w : World) (s : RideState) (c : Control) : RideState × StepResult :=
  if s.dead then (s, .failure .alreadyDead)
  else
    let s := { s with frame := s.frame + 1 }
    if s.frame = frameCap then ({ s with dead := true }, .failure .frameCap)
    else
      match s.request c with
      | none => (s, .failure .rotationCooldown)
      | some s =>
        match w.move s with
        | (s, true) => ({ s with dead := true }, .failure .wheelInGround)
        | (s, false) => w.judge s

/-- A dead state is left as it is. -/
theorem World.step_of_dead (w : World) {s : RideState} (h : s.dead = true) (c : Control) :
    w.step s c = (s, .failure .alreadyDead) := by
  simp [World.step, h]

end RideProof
