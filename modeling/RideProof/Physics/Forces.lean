import RideProof.State
import RideProof.FixedPoint
import RideProof.Trig

/-!
# Forces and torques of a tick

All bodies fall; the wheels hang off the frame on stiff springs, the head on a softer one that
takes no hold of the frame. Forces and torques are exact integers, since none of their terms comes
near the limits of a 64-bit word; positions, velocities and angles wrap.

* `motorTorques` — throttle and brake, on the two wheels.
* `rotationTorque` — the kick of a rotation and its counter-kick a quarter of a period later.
* `Frame.of` — the points of the frame that carry the wheels and the head, for its angle.
* `coupleWheel`, `coupleHead` — springs and dampers between the frame and what it carries.
* `Forces.of` — the sum of all of them for a state.
-/

namespace RideProof

/-- A force: change of velocity per tick times a mass constant. -/
abbrev Force := Pair Int

/-! ## Gravity -/

/-- Gravity on a wheel. -/
def wheelGravity : Force := ⟨0, -10522670⟩

/-- Gravity on the frame. -/
def chassisGravity : Force := ⟨0, -210453408⟩

/-- Gravity on the head. -/
def headGravity : Force := ⟨0, -5261335⟩

/-! ## Motor, brake and rotation -/

/-- The number of angle units in a radian. -/
def radian : Int := 683565248

/-- The spin at which the motor drives no faster. -/
def maxSpin : Int32 := 150384368

/-- The torque of the motor. -/
def motorTorque : Int := 820278336

/-- The friction of the brake. -/
def brakeFriction : Int := 40

/-- How fast the brake grows with the spin that it works against. -/
def brakeGain : Nat := 4

/-- The torque of the brake on a wheel: against its spin relative to the frame, and growing with it
up to a bound. -/
def brakeTorque (wheel chassis : Body) : Int :=
  let rel := (wheel.angVel - chassis.angVel).toInt
  rel.sign * min radian (Int32.ofInt (rel.natAbs * brakeGain)).toInt * -brakeFriction

/-- The torques of throttle or brake on the left and the right wheel. -/
def motorTorques (s : RideState) : Int × Int :=
  match s.accel with
  | .idle => (0, 0)
  | .gasLeft => (if -maxSpin < s.leftWheel.angVel then -motorTorque else 0, 0)
  | .gasRight => (0, if s.rightWheel.angVel < maxSpin then motorTorque else 0)
  | .brake => (brakeTorque s.leftWheel s.chassis, brakeTorque s.rightWheel s.chassis)

/-- The torque of the kick that starts a rotation. -/
def kickTorque : Int := 496268378112

/-- The strength of the counter-kick. -/
def counterKickTorque : Int := 544

/-- How fast the counter-kick grows with the spin that it works against. -/
def counterKickGain : Int := 55

/-- A quarter of a period after the kick, the counter-kick works against the frame's spin. -/
def counterKickDelay : Int := rotationPeriod / 4

/-- The torque of the last rotation on the frame: its kick on the tick that let it through, its
counter-kick `counterKickDelay` ticks later, and nothing on other ticks. -/
def rotationTorque (s : RideState) : Int :=
  let spin := s.chassis.angVel.toInt
  if s.sinceRotation = 0 then
    if s.rotation = .cw then -kickTorque else kickTorque
  else if s.sinceRotation = counterKickDelay then
    if s.rotation = .cw then
      counterKickTorque * min radian (Int32.ofInt (-spin * counterKickGain)).toInt
    else
      -counterKickTorque * min radian (Int32.ofInt (spin * counterKickGain)).toInt
  else 0

/-! ## Where the frame carries the wheels and the head -/

/-- The offsets from the frame's centre at which the wheels and the head are at rest. -/
structure Frame where
  /-- The rest of the left wheel. -/
  left : Point
  /-- The rest of the right wheel. -/
  right : Point
  /-- The rest of the head. -/
  head : Point

/-- A length on the frame, projected by a sine or cosine. -/
def project (axis length : Int32) : Int32 := mulQ31Nat axis length.toUInt32

/-- The frame at an angle, of which the top 16 bits count. -/
def Frame.of (ang : Int32) : Frame :=
  let a := (ang >>> 16).toInt16
  let c := cosine a
  let s := sine a
  let w := chassisOffset.x
  let h := chassisOffset.y
  { left := ⟨project s h - project c w, -project s w - project c h⟩
    right := ⟨project c w + project s h, project s w - project c h⟩
    head := ⟨-project s headHeight, project c headHeight⟩ }

/-! ## Springs and dampers -/

/-- The velocity of the frame at an offset from its centre, as seen from a point with velocity
`vel`. -/
def relativeVelocity (chassis : Body) (arm vel : Point) : Point :=
  let spin := chassis.angVel.toInt
  ⟨Int32.ofInt (-Int.tdiv (arm.y.toInt * spin) radian) + chassis.vel.x - vel.x,
    Int32.ofInt (Int.tdiv (arm.x.toInt * spin) radian) + chassis.vel.y - vel.y⟩

/-- A multiple of a pair of words, taken exactly. -/
def scaleWords (k : Int) (p : Point) : Force := p.map fun w => w.toInt * k

/-- The stiffness of a wheel's spring. -/
def springConstant : Int := 20

/-- The strength of a wheel's damper. -/
def damperConstant : Int := 1000

/-- How far the spring is from turning the frame. -/
def springLever : Int := 210828

/-- How far the damper is from turning the frame. -/
def damperLever : Int := 4216

/-- What the spring and damper of a wheel do. -/
structure Coupling where
  /-- The force on the wheel, its weight included; the frame takes the opposite. -/
  force : Force
  /-- The torque on the frame. -/
  torque : Int

/-- The coupling of a wheel whose rest on the frame is `anchor`. -/
def coupleWheel (chassis wheel : Body) (anchor : Point) : Coupling :=
  let arm := wheel.pos - chassis.pos
  let stretch := anchor - arm
  let v := relativeVelocity chassis arm wheel.vel
  let spring := anchor.x.toInt * stretch.y.toInt - anchor.y.toInt * stretch.x.toInt
  let damper := -v.x.toInt * arm.y.toInt + v.y.toInt * arm.x.toInt
  { force := wheelGravity + scaleWords springConstant stretch + scaleWords damperConstant v
    torque := -(Int.tdiv spring springLever + Int.tdiv damper damperLever) }

/-- The squared stretch from which the spring of the head is ten times as stiff, twice as stiff as
that of a wheel. -/
def headStretchLimit : Int := 1037629403430912

/-- The force on the head, its weight included, for its rest `anchor` on the frame. The squared
stretch is a signed 64-bit word: at the one stretch that exceeds it, both differences at the far
side of the map, it counts as small. -/
def coupleHead (s : RideState) (anchor : Point) : Force :=
  let arm := s.headPos - s.chassis.pos
  let stretch := anchor - arm
  let stretchSq :=
    (stretch.x.toInt * stretch.x.toInt + stretch.y.toInt * stretch.y.toInt).bmod UInt64.size
  let stiffness := if headStretchLimit ≤ stretchSq then 2 * springConstant else springConstant / 5
  headGravity + scaleWords stiffness stretch +
    scaleWords (damperConstant / 5) (relativeVelocity s.chassis arm s.headVel)

/-! ## All of them -/

/-- The forces and torques of a tick, before the wheels meet the ground. -/
structure Forces where
  /-- The force on the left wheel. -/
  left : Force
  /-- The force on the right wheel. -/
  right : Force
  /-- The torque on the left wheel. -/
  leftTorque : Int
  /-- The torque on the right wheel. -/
  rightTorque : Int
  /-- The force on the frame. -/
  chassis : Force
  /-- The torque on the frame. -/
  chassisTorque : Int
  /-- The force on the head. -/
  head : Force

/-- The forces and torques in a state. -/
def Forces.of (s : RideState) : Forces :=
  let frame := Frame.of s.chassis.ang
  let motor := motorTorques s
  let left := coupleWheel s.chassis s.leftWheel frame.left
  let right := coupleWheel s.chassis s.rightWheel frame.right
  { left := left.force
    right := right.force
    leftTorque := motor.1
    rightTorque := motor.2
    chassis := chassisGravity - left.force - right.force
    chassisTorque := rotationTorque s + left.torque + right.torque
    head := coupleHead s frame.head }

end RideProof
