import RideProof.World
import RideProof.Physics.Forces

/-!
# A wheel on the ground

* `touch` — what contact does to a wheel: it is pushed out along the normal, bounces if it closes
  in, and grips if it bears load.
* `Body.integrate` — one tick of motion under a force and a torque.
* `Field.advanceWheel` — both together; a wheel with its centre inside the ground has no next
  state.
-/

namespace RideProof

/-- The radius of a wheel, in 65536ths of a length unit. -/
def wheelRadius : Int32 := 26214

/-- A contact closing in no faster than this does not bounce. -/
def minClosingSpeed : Int32 := 1073

/-- What one unit of force in the contact is worth. -/
def contactForceUnit : Int := 833

/-- The spin of a wheel for one unit of speed at its rim. -/
def rimSpin : Int32 := 31

/-- The torque of one unit of friction at the rim. -/
def rimTorque : Int := 4242

/-- How far a 65536th of a length unit is on the map. -/
def lengthUnit : Int32 := 819

/-- How far from the ground contact pushes a wheel. -/
def pushReach : Int32 := 21410411

/-- The mass of a wheel. -/
def wheelMass : Int := 5000

/-- The angular mass of a wheel. -/
def wheelAngularMass : Int := 159

/-- A wheel with what acts on it. -/
structure WheelLoad where
  /-- The wheel. -/
  wheel : Body
  /-- The force on it. -/
  force : Force
  /-- The torque on it. -/
  torque : Int

/-- The outward normal of the ground: the gradient divided by its length. -/
def Sample.normal (s : Sample) : Point :=
  s.gradient.map fun g => Int32.ofInt (g.toInt * inverseLength (magnitudeSq s.gradient))

/-- Twice the inner product of two pairs of signed fractions. -/
def innerProduct (p q : Point) : Int32 := mulQ31 p.x q.x * 2 + mulQ31 p.y q.y * 2

/-- The friction between ground and wheel, at most ten times the load, and no more than brings the
rim to rest. -/
def gripOf (load slip : Int32) : Int32 :=
  Int32.ofInt (slip.toInt.sign * min (load * 10).toInt slip.toInt.natAbs)

/-- Friction on a wheel that bears `load`. -/
def WheelLoad.grip (l : WheelLoad) (normal : Point) (load : Int32) : WheelLoad :=
  let w := l.wheel
  let slip := mulQ31 w.vel.x normal.y * 2 - mulQ31 w.vel.y normal.x * 2 - w.angVel / rimSpin
  let grip := gripOf load slip
  { wheel := w
    force :=
      ⟨l.force.x - (mulQ31 normal.y grip).toInt * contactForceUnit * 2,
        l.force.y + (mulQ31 normal.x grip).toInt * contactForceUnit * 2⟩
    torque := l.torque + grip.toInt * rimTorque }

/-- What contact with the ground at a sample does to a wheel. -/
def WheelLoad.touch (l : WheelLoad) (s : Sample) : WheelLoad :=
  let normal := s.normal
  let push := pushReach - s.groundDistance * lengthUnit
  let pos := l.wheel.pos - normal.map fun n => mulQ31 n push * 2
  let closing := -innerProduct normal l.wheel.vel
  if closing < -minClosingSpeed then
    let vel := l.wheel.vel + normal.map fun n => mulQ31 closing n * 2
    let load :=
      innerProduct normal (l.force.map fun f => Int32.ofInt (Int.tdiv f contactForceUnit))
    let bounced := { l with wheel := { l.wheel with pos := pos, vel := vel } }
    if 0 < load then bounced.grip normal load else bounced
  else { l with wheel := { l.wheel with pos := pos } }

/-- One tick of motion: the old velocities move the body, and what acts on it changes them. -/
def Body.integrate (b : Body) (force : Force) (torque mass angularMass : Int) : Body where
  pos := b.pos + b.vel
  vel := b.vel + force.map fun f => Int32.ofInt (Int.tdiv f mass)
  ang := b.ang + b.angVel
  angVel := b.angVel + Int32.ofInt (Int.tdiv torque angularMass)

/-- One tick of a wheel, or nothing if its centre is inside the ground. -/
def Field.advanceWheel (f : Field) (l : WheelLoad) : Option Body :=
  let s := f.sample l.wheel.pos
  if groundLevel < s.height.toInt then none
  else
    let l := if s.groundDistance < wheelRadius then l.touch s else l
    some (l.wheel.integrate l.force l.torque wheelMass wheelAngularMass)

end RideProof
