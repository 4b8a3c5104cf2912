import RideProof.Control
import RideProof.Plane

/-!
# The state of a ride

* `Body` — a wheel or the frame: position, velocity, angle and spin.
* `RideState` — the two wheels, the frame and the head, with the tick count, the last control and
  the tick of the last rotation.
* `Failure`, `StepResult` — how a tick can end.
* `startState` — all bodies at rest at the start of every course.
-/

namespace RideProof

/-- A rigid body. Its angle, like its position, is a word whose whole range is one turn. -/
structure Body where
  /-- Where its centre is. -/
  pos : Point
  /-- How far its centre moves in a tick. -/
  vel : Point
  /-- Its angle. -/
  ang : Int32
  /-- How far it turns in a tick. -/
  angVel : Int32
  deriving DecidableEq, Repr, Inhabited

/-- The state of a ride between two ticks. -/
structure RideState where
  /-- The number of ticks played. -/
  frame : Int32
  /-- The tick of the last rotation that was let through. -/
  lastRotate : Int32
  /-- The throttle position of the last tick. -/
  accel : Accel
  /-- The last rotation that was let through. -/
  rotation : Rotation
  /-- The left wheel. -/
  leftWheel : Body
  /-- The right wheel. -/
  rightWheel : Body
  /-- The frame that carries both wheels and the head. -/
  chassis : Body
  /-- Where the head is, a point mass. -/
  headPos : Point
  /-- The velocity of the head. -/
  headVel : Point
  /-- Whether the ride has ended without success. -/
  dead : Bool
  deriving DecidableEq, Repr, Inhabited

/-- Why a tick ended a ride. -/
inductive Failure
  /-- The ride had ended before. -/
  | alreadyDead
  /-- The greatest number of ticks is reached. -/
  | frameCap
  /-- A rotation was requested too soon after the last one. -/
  | rotationCooldown
  /-- A wheel's centre is inside the ground. -/
  | wheelInGround
  /-- The head touched the ground. -/
  | headCrash
  /-- The time allowed for the work is used up. -/
  | timeTargetReached
  deriving DecidableEq, Repr, Inhabited

/-- The sentence that reports a failure. -/
def Failure.message : Failure → String
  | .alreadyDead => "state is already dead"
  | .frameCap => "frame cap reached"
  | .rotationCooldown => "rotation requested during cool-down"
  | .wheelInGround => "wheel penetrated the ground"
  | .headCrash => "head hit the ground"
  | .timeTargetReached => "time target reached"

/-- The result of a tick. -/
inductive StepResult
  /-- The ride goes on. -/
  | continue
  /-- A wheel or the head is at the finish. -/
  | success
  /-- The ride, or the request, failed. -/
  | failure (reason : Failure)
  deriving DecidableEq, Repr, Inhabited

/-- The fewest ticks between two rotations. -/
def rotationPeriod : Int := 200

/-- The ticks since the last rotation that was let through. -/
def RideState.sinceRotation (s : RideState) : Int := s.frame.toInt - s.lastRotate.toInt

/-- Whether a rotation requested now comes `period` ticks or more after the last one. -/
def RideState.canRotate (s : RideState) (period : Int) : Bool := decide (period ≤ s.sinceRotation)

/-! ## The start of a course -/

/-- The distance between the wheels. -/
def wheelBase : Int32 := 91268056

/-- The frame's centre, as seen from the left wheel. -/
def chassisOffset : Point := ⟨45634028, 32212256⟩

/-- The height of the head over the frame's centre. -/
def headHeight : Int32 := 53687092

/-- Where the left wheel starts. -/
def start : Point := ⟨0, -300000000⟩

/-- A body at rest. -/
def Body.atRest (pos : Point) : Body := ⟨pos, ⟨0, 0⟩, 0, 0⟩

/-- The state before the first tick: all at rest, and no rotation in living memory. -/
def startState : RideState where
  frame := 0
  lastRotate := -10000
  accel := .idle
  rotation := .none
  leftWheel := .atRest start
  rightWheel := .atRest (start + ⟨wheelBase, 0⟩)
  chassis := .atRest (start + chassisOffset)
  headPos := start + chassisOffset + ⟨0, headHeight⟩
  headVel := ⟨0, 0⟩
  dead := false

/-- A rotation is allowed at the start. -/
example : startState.canRotate rotationPeriod = true := by decide

end RideProof
