import RideProof.Physics.Step

/-!
# Where the constants come from

The constants of the physics are integers that stand for lengths, masses and times. `derivation`
computes each of them again from its quantity in everyday units, for a map 80 length units wide and
500 ticks to the second, and sets the one in force beside it.

The quantities are rounded to single precision after every operation where that is said by their
type, and kept in double precision elsewhere.
-/

namespace RideProof

/-- A constant, derived and in force. -/
structure DerivedConstant where
  /-- The name of the constant. -/
  name : String
  /-- The value that its quantity gives. -/
  derived : Int
  /-- The value in force. -/
  inForce : Int
  deriving DecidableEq, Repr

/-- Whether the derivation gives the value in force. -/
def DerivedConstant.agrees (c : DerivedConstant) : Bool := c.derived == c.inForce

namespace Quantity

/-- A single-precision number, rounded toward zero. -/
def whole32 (x : Float32) : Int := x.toInt64.toInt

/-- A double-precision number, rounded toward zero. -/
def whole (x : Float) : Int := x.toInt64.toInt

/-- The low 16 bits of a double-precision number, rounded toward zero. -/
def low16 (x : Float) : Int := (x.toInt64 &&& 0xffff).toInt

/-- The length of a unit of position. -/
def position : Float32 := 80.0 / 4294967296.0

/-- The radians of a unit of angle. -/
def angle : Float32 := (6.283185307179586 / 4294967296.0 : Float).toFloat32

/-- The duration of a tick. -/
def tick : Float32 := 1.0 / 500.0

/-- The radius of a wheel. -/
def wheelRadius : Float := 0.4

/-- The mass of a wheel. -/
def wheelMass : Float32 := 10.0

/-- The angular mass of a wheel. -/
def wheelAngularMass : Float32 := 0.32

/-- The mass of the frame. -/
def chassisMass : Float32 := 200.0

/-- The angular mass of the frame. -/
def chassisAngularMass : Float32 := 60.5

/-- The mass of the head. -/
def headMass : Float32 := 5.0

/-- The speed of the kick of a rotation. -/
def kick : Float32 := 12.0

/-- The speed of its counter-kick. -/
def counterKick : Float32 := 9.0

/-- The acceleration of gravity. -/
def gravity : Float32 := -9.8

/-- The friction of the brake. -/
def friction : Int := whole32 (20000.0 * tick)

/-- The stiffness of a wheel's spring. -/
def stiffness : Int := whole32 (10000.0 * tick)

/-- What one unit of force in the contact is worth. -/
def contactForce : Int :=
  low16 (1.0 / (((1.0 / wheelMass : Float32).toFloat +
    wheelRadius * wheelRadius / wheelAngularMass.toFloat) * tick.toFloat))

end Quantity

open Quantity in
/-- All derived constants. -/
def derivation : List DerivedConstant :=
  [⟨"INV_ANG_POS_K", whole32 (1.0 / angle), radian⟩,
    ⟨"WHEEL_K", stiffness, springConstant⟩,
    ⟨"MAX_SPEED", whole32 (110.0 * tick / angle), maxSpin.toInt⟩,
    ⟨"ACCELERATION", whole32 (600.0 * tick / angle), motorTorque⟩,
    ⟨"ROTATION_PERIOD", whole32 (0.4 / tick), rotationPeriod⟩,
    ⟨"WHEEL_DIST", whole32 (1.7 / position), wheelBase.toInt⟩,
    ⟨"BIKE_POS0", whole32 (0.85 / position), chassisOffset.x.toInt⟩,
    ⟨"BIKE_POS1", whole32 (0.6 / position), chassisOffset.y.toInt⟩,
    ⟨"HEAD_POS", whole32 (1.0 / position), headHeight.toInt⟩,
    ⟨"WHEEL_ANGULAR_MASS_DIV_DT", whole32 (Quantity.wheelAngularMass / tick),
      RideProof.wheelAngularMass⟩,
    ⟨"WHEEL_MASS_DIV_DT", whole32 (Quantity.wheelMass / tick), RideProof.wheelMass⟩,
    ⟨"BIKE_ANGULAR_MASS_DIV_DT", whole32 (Quantity.chassisAngularMass / tick),
      RideProof.chassisAngularMass⟩,
    ⟨"BIKE_MASS_DIV_DT", whole32 (Quantity.chassisMass / tick), RideProof.chassisMass⟩,
    ⟨"HEAD_MASS_DIV_DT", whole32 (Quantity.headMass / tick), RideProof.headMass⟩,
    ⟨"ROTATION_IMPULSE_FAST", whole32 (kick * Quantity.chassisAngularMass / angle), kickTorque⟩,
    ⟨"ROTATION_IMPULSE_SLOW", whole32 (counterKick * Quantity.chassisAngularMass),
      counterKickTorque⟩,
    ⟨"GRAVITY_WHEEL", whole32 (gravity * Quantity.wheelMass * tick / position), wheelGravity.y⟩,
    ⟨"GRAVITY_BIKE", whole32 (gravity * Quantity.chassisMass * tick / position),
      chassisGravity.y⟩,
    ⟨"GRAVITY_HEAD", whole32 (gravity * Quantity.headMass * tick / position), headGravity.y⟩,
    ⟨"FRICTION", friction, brakeFriction⟩,
    ⟨"CONTACT_FORCE_DIV", contactForce, contactForceUnit⟩,
    ⟨"INV_MAX_BRAKING_DELTA_V",
      whole32 (1.0 / Float32.ofInt friction * Quantity.wheelAngularMass / tick), brakeGain⟩,
    ⟨"MIN_CLOSING_SPEED", whole (0.01 * tick.toFloat / position.toFloat), minClosingSpeed.toInt⟩,
    ⟨"WHEEL_SPIN_DIV",
      low16 ((1.0 / angle : Float32).toFloat / Quantity.wheelRadius * position.toFloat),
      rimSpin.toInt⟩,
    ⟨"WHEEL_R_TORQUE_ARM",
      low16 (Quantity.wheelRadius * position.toFloat / angle.toFloat * Float.ofInt contactForce),
      rimTorque⟩,
    ⟨"WHEEL_R_65536", whole (Quantity.wheelRadius * 65536.0), RideProof.wheelRadius.toInt⟩,
    ⟨"INV_65536_POS_K", whole (1.0 / (65536.0 * position : Float32).toFloat), lengthUnit.toInt⟩,
    ⟨"WHEEL_R_DIV_POS_K",
      whole (Quantity.wheelRadius * (0.997 : Float32).toFloat / position.toFloat),
      pushReach.toInt⟩,
    ⟨"INV_MAX_DELTA_ROT_V", whole32 (1.0 / (counterKick * tick)), counterKickGain⟩,
    ⟨"HEAD_POS_THRESHOLD", whole32 (0.6 * 0.6 / (position * position)), headStretchLimit⟩,
    ⟨"INV_K", whole32 (angle / (Float32.ofInt stiffness * position * position)), springLever⟩,
    ⟨"INV_K0", whole32 (angle / (Float32.ofInt damperConstant * position * position)),
      damperLever⟩,
    ⟨"WHEEL_CAPTURE_R", whole (2.0 * Quantity.wheelRadius / position.toFloat),
      wheelCaptureRadius.toInt⟩,
    ⟨"HEAD_CAPTURE_R",
      whole (((0.238 : Float32).toFloat + Quantity.wheelRadius) / position.toFloat),
      headCaptureRadius.toInt⟩]

end RideProof
