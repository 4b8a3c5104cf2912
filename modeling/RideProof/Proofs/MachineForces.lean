import Mathlib.Tactic.Linarith
import Mathlib.Tactic.SplitIfs
import RideProof.Physics.Forces
import RideProof.Proofs.MachineTables

/-!
# The forces of a tick on a machine

Motor, brake, rotation, springs and dampers as a machine works them out: in words of 64 bits with a
sign, checked but for the sums that are said to wrap. None of them wraps or stops, for any state of
the bodies. What has to be seen is how much room there is: the torques of springs and dampers are
differences of two products of 32-bit words, and those leave the range of a 64-bit word by no more
than the rounding only because a product of two such words is never as far below zero as it can be
above (`mul_toInt_bounds`). The one sum that does wrap is the squared stretch of the head.

* `Machine.forces` — the forces and torques of a state.
* `Machine.forces_eq` — they are those of the library if the ticks since the last rotation fit a
  word.
* `Forces.within_of` — how large they are.
-/

namespace RideProof

/-! ## Words of 32 bits -/

/-- A product of two words is further from the lower end of a 63-bit word than from the upper. -/
theorem mul_toInt_bounds (a b : Int32) :
    -4611686016279904256 ≤ a.toInt * b.toInt ∧ a.toInt * b.toInt ≤ 4611686018427387904 := by
  have ha := a.le_toInt
  have ha' := a.toInt_lt
  have hb := b.le_toInt
  have hb' := b.toInt_lt
  constructor
  · -- The lower end is met where the signs differ; with equal signs there is nothing below zero.
    rcases Int.le_total 0 a.toInt with h | h
    · nlinarith
    · rcases Int.le_total 0 b.toInt with h' | h'
      · nlinarith
      · nlinarith
  · nlinarith

/-- A sum and a difference may wrap once at their end. -/
theorem ofInt_add_sub (a b c : Int32) :
    Int32.ofInt (a.toInt + b.toInt - c.toInt) = a + b - c := by
  rw [Int32.ofInt_sub, Int32.ofInt_add, Int32.ofInt_toInt, Int32.ofInt_toInt, Int32.ofInt_toInt]

namespace Word

variable {m : Machine}

/-! ## Pairs of words -/

/-- A point as a pair of words. -/
def ofPoint (p : Point) : Pair (Word m .i32) := p.map ofInt32

/-- The point, if the machine got to both of its words. -/
def toPoint? (p : Pair (Word m .i32)) : Option Point := do
  return ⟨← p.x.toInt32?, ← p.y.toInt32?⟩

/-- The force, if the machine got to both of its words. -/
def toForce? (p : Pair (Word m .i64)) : Option Force := do
  return ⟨← p.x.value?, ← p.y.value?⟩

/-- The words of a point are its coordinates. -/
@[simp] theorem ofPoint_x (p : Point) : (ofPoint p : Pair (Word m .i32)).x = ofInt32 p.x := rfl

/-- The words of a point are its coordinates. -/
@[simp] theorem ofPoint_y (p : Point) : (ofPoint p : Pair (Word m .i32)).y = ofInt32 p.y := rfl

/-- A point is read off a machine as it was put there. -/
@[simp] theorem toPoint?_ofPoint (p : Point) :
    toPoint? (ofPoint p : Pair (Word m .i32)) = some p := by
  simp [toPoint?]

/-- The sum of two points, which wraps. -/
def addPoint (p q : Pair (Word m .i32)) : Pair (Word m .i32) := p.zipWith wrappingAdd q

/-- The difference of two points, which wraps. -/
def subPoint (p q : Pair (Word m .i32)) : Pair (Word m .i32) := p.zipWith wrappingSub q

/-- A machine adds points as the library does. -/
@[simp] theorem addPoint_ofPoint (p q : Point) :
    addPoint (ofPoint p : Pair (Word m .i32)) (ofPoint q) = ofPoint (p + q) := by
  simp only [addPoint, ofPoint, Pair.zipWith, Pair.map, wrappingAdd_ofInt32]
  rfl

/-- A machine subtracts points as the library does. -/
@[simp] theorem subPoint_ofPoint (p q : Point) :
    subPoint (ofPoint p : Pair (Word m .i32)) (ofPoint q) = ofPoint (p - q) := by
  simp only [subPoint, ofPoint, Pair.zipWith, Pair.map, wrappingSub_ofInt32]
  rfl

/-- Both words of a pair show what a force has there. -/
structure ShowsForce (p : Pair (Word m .i64)) (f : Force) (bound : Nat) : Prop where
  /-- The horizontal part. -/
  x : p.x.Shows f.x bound
  /-- The vertical part. -/
  y : p.y.Shows f.y bound

/-- A force is read off the words that show it. -/
theorem ShowsForce.toForce? {p : Pair (Word m .i64)} {f : Force} {bound : Nat}
    (h : ShowsForce p f bound) : toForce? p = some f := by
  rw [Word.toForce?, h.x.eq, h.y.eq]
  rfl

/-! ## Motor, brake and rotation -/

/-- The torque of the brake on a wheel. -/
def brakeTorque (wheel chassis : Body) : Word m .i64 :=
  let rel : Word m .i64 := ((ofInt32 wheel.angVel).wrappingSub (ofInt32 chassis.angVel)).cast .i64
  let k := (of radian).least (((rel.abs * of brakeGain).cast .i32).cast .i64)
  of 0 - rel.sign * k * of brakeFriction

/-- The torques of throttle or brake on the left and the right wheel. -/
def motorTorques (s : RideState) : Word m .i64 × Word m .i64 :=
  match s.accel with
  | .idle => (of 0, of 0)
  | .gasLeft => (if -maxSpin < s.leftWheel.angVel then -of motorTorque else of 0, of 0)
  | .gasRight => (of 0, if s.rightWheel.angVel < maxSpin then of motorTorque else of 0)
  | .brake => (brakeTorque s.leftWheel s.chassis, brakeTorque s.rightWheel s.chassis)

/-- The torque of the last rotation on the frame. -/
def rotationTorque (s : RideState) : Word m .i64 :=
  let since : Word m .i32 := ofInt32 s.frame - ofInt32 s.lastRotate
  let spin : Word m .i64 := (ofInt32 s.chassis.angVel).cast .i64
  since.bind fun n =>
    if n = 0 then
      if s.rotation = .cw then -of kickTorque else of kickTorque
    else if n = rotationPeriod / 4 then
      if s.rotation = .cw then
        of counterKickTorque *
          (of radian).least (((-spin * of counterKickGain).cast .i32).cast .i64)
      else
        -of counterKickTorque *
          (of radian).least (((spin * of counterKickGain).cast .i32).cast .i64)
    else of 0

/-- The unit of angles fits into its word. -/
theorem shows_radian : (of radian : Word m .i64).Shows radian 2147483648 := .of (by decide)

/-- A bounded product of a spin and a gain, narrowed to 32 bits before it is bounded. -/
theorem shows_least_cast {a : Word m .i64} {v : Int} {A : Nat} (ha : a.Shows v A) :
    ((of radian).least ((a.cast .i32).cast .i64)).Shows (min radian (Int32.ofInt v).toInt)
      2147483648 := by
  rw [ha.cast_i32]
  exact shows_radian.least (shows_cast_ofInt32 _)

/-- A machine gets the torque of the brake. -/
theorem shows_brakeTorque (wheel chassis : Body) :
    (brakeTorque wheel chassis : Word m .i64).Shows (RideProof.brakeTorque wheel chassis)
      85899345920 := by
  have hrel : (((ofInt32 wheel.angVel).wrappingSub (ofInt32 chassis.angVel)).cast .i64 :
      Word m .i64).Shows (wheel.angVel - chassis.angVel).toInt 2147483648 := by
    rw [wrappingSub_ofInt32]
    exact shows_cast_ofInt32 _
  have hgain : (of brakeGain : Word m .i64).Shows brakeGain 4 := .of (by decide)
  have hfriction : (of brakeFriction : Word m .i64).Shows brakeFriction 40 := .of (by decide)
  have hzero : (of 0 : Word m .i64).Shows 0 0 := .of (by decide)
  have hk := shows_least_cast ((hrel.abs (by decide)).mul hgain (by decide))
  refine (hzero.sub ((hrel.sign.mul hk (by decide)).mul hfriction (by decide))
    (by decide)).congr ?_
  rw [Int.zero_sub, ← Int.mul_neg]
  rfl

/-- A machine gets the torques of throttle and brake. -/
theorem shows_motorTorques (s : RideState) :
    (motorTorques s : Word m .i64 × Word m .i64).1.Shows (RideProof.motorTorques s).1
        85899345920 ∧
      (motorTorques s : Word m .i64 × Word m .i64).2.Shows (RideProof.motorTorques s).2
        85899345920 := by
  have hzero : (of 0 : Word m .i64).Shows 0 85899345920 := .of (by decide)
  have hmotor : (of motorTorque : Word m .i64).Shows motorTorque 85899345920 := .of (by decide)
  unfold motorTorques RideProof.motorTorques
  rcases s.accel with _ | _ | _ | _
  · exact ⟨hzero, hzero⟩
  · refine ⟨?_, hzero⟩
    dsimp only
    split_ifs
    · exact hmotor.neg (by decide)
    · exact hzero
  · refine ⟨hzero, ?_⟩
    dsimp only
    split_ifs
    · exact hmotor
    · exact hzero
  · exact ⟨shows_brakeTorque _ _, shows_brakeTorque _ _⟩

/-- The torque of the last rotation, in a state where the ticks since then fit a word. -/
theorem shows_rotationTorque {s : RideState} (hs : WordKind.i32.Fits s.sinceRotation) :
    (rotationTorque s : Word m .i64).Shows (RideProof.rotationTorque s) 1168231104512 := by
  have hsince : (ofInt32 s.frame - ofInt32 s.lastRotate : Word m .i32) = of s.sinceRotation :=
    settle_of_fits hs
  have hspin : ((ofInt32 s.chassis.angVel).cast .i64 : Word m .i64).Shows s.chassis.angVel.toInt
      2147483648 := shows_cast_ofInt32 _
  have hkick : (of kickTorque : Word m .i64).Shows kickTorque 1168231104512 := .of (by decide)
  have hcounter : (of counterKickTorque : Word m .i64).Shows counterKickTorque 544 :=
    .of (by decide)
  have hgain : (of counterKickGain : Word m .i64).Shows counterKickGain 55 := .of (by decide)
  have hzero : (of 0 : Word m .i64).Shows 0 1168231104512 := .of (by decide)
  unfold rotationTorque RideProof.rotationTorque
  dsimp only
  rw [hsince, bind_of]
  show Shows (if _ then _ else if s.sinceRotation = counterKickDelay then _ else _) _ _
  split_ifs
  · exact hkick.neg (by decide)
  · exact hkick
  · exact hcounter.mul (shows_least_cast ((hspin.neg (by decide)).mul hgain (by decide)))
      (by decide)
  · exact (hcounter.neg (by decide)).mul (shows_least_cast (hspin.mul hgain (by decide)))
      (by decide)
  · exact hzero

/-! ## Where the frame carries the wheels and the head -/

/-- The top 16 bits of an angle. -/
theorem cast_shiftRight_ofInt32 (a : Int32) :
    ((ofInt32 a : Word m .i32) >>> 16).cast .i16 = ofInt16 (a >>> 16).toInt16 := by
  have hbits : (a >>> 16).toBitVec = a.toBitVec.sshiftRight 16 := by
    rw [Int32.toBitVec_shiftRight]
    rfl
  have hshift : (a >>> 16).toInt = a.toInt / (65536 : Nat) := by
    show (a >>> 16).toBitVec.toInt = _
    rw [hbits, BitVec.toInt_sshiftRight, Int.shiftRight_eq_div_pow]
    rfl
  rw [((shows_ofInt32 a).shiftRight (d := 65536) (by decide) rfl).cast_i16,
    ← Int16.ofInt_int32ToInt, hshift]

/-- A length on the frame, projected by a sine or cosine. -/
def project (axis : Word m .i32) (length : Int32) : Word m .i32 :=
  axis.mulQ31Nat ((ofInt32 length).cast .u32)

/-- A machine projects lengths as the library does. -/
@[simp] theorem project_ofInt32 (axis length : Int32) :
    project (ofInt32 axis : Word m .i32) length = ofInt32 (RideProof.project axis length) := by
  rw [project, cast_u32_ofInt32, mulQ31Nat_ofInt32]
  rfl

end Word

/-- The points of the frame that carry the wheels and the head. -/
def Machine.frame (m : Machine) (ang : Int32) : Option Frame := do
  let a : Word m .i16 := (Word.ofInt32 ang >>> 16).cast .i16
  let c := a.cosine
  let s := a.sine
  let w := chassisOffset.x
  let h := chassisOffset.y
  let left ← Word.toPoint? ⟨(s.project h).wrappingSub (c.project w),
    (s.project w).wrappingNeg.wrappingSub (c.project h)⟩
  let right ← Word.toPoint? ⟨(c.project w).wrappingAdd (s.project h),
    (s.project w).wrappingSub (c.project h)⟩
  let head ← Word.toPoint? ⟨(s.project headHeight).wrappingNeg, c.project headHeight⟩
  return { left := left, right := right, head := head }

/-- A machine of either kind gets the points of the frame. -/
theorem Machine.frame_eq (m : Machine) (ang : Int32) : m.frame ang = some (Frame.of ang) := by
  simp only [frame, Word.cast_shiftRight_ofInt32, Word.sine_ofInt16, Word.cosine_ofInt16,
    Word.project_ofInt32, Word.wrappingSub_ofInt32, Word.wrappingAdd_ofInt32,
    Word.wrappingNeg_ofInt32, Word.toPoint?, Word.toInt32?_ofInt32]
  rfl

namespace Word

variable {m : Machine}

/-! ## Springs and dampers -/

/-- The velocity of the frame at an offset from its centre, as seen from a point. -/
def relativeVelocity (chassis : Body) (arm : Pair (Word m .i32)) (vel : Point) :
    Pair (Word m .i32) :=
  let spin : Word m .i64 := (ofInt32 chassis.angVel).cast .i64
  ⟨(((-(arm.y.cast .i64 * spin / of radian)).cast .i32 : Word m .i32).cast .i64 +
      (ofInt32 chassis.vel.x).cast .i64 - (ofInt32 vel.x).cast .i64 : Word m .i64).cast .i32,
    (((arm.x.cast .i64 * spin / of radian).cast .i32 : Word m .i32).cast .i64 +
      (ofInt32 chassis.vel.y).cast .i64 - (ofInt32 vel.y).cast .i64 : Word m .i64).cast .i32⟩

/-- A machine gets the velocity of a point of the frame as seen from another. -/
theorem relativeVelocity_ofPoint (chassis : Body) (arm vel : Point) :
    relativeVelocity chassis (ofPoint arm : Pair (Word m .i32)) vel =
      ofPoint (RideProof.relativeVelocity chassis arm vel) := by
  have hturn (a : Int32) : ((ofInt32 a).cast .i64 * (ofInt32 chassis.angVel).cast .i64 /
      of radian : Word m .i64).Shows ((a.toInt * chassis.angVel.toInt).tdiv radian) _ :=
    ((shows_cast_ofInt32 a).mul (shows_cast_ofInt32 chassis.angVel) (by decide)).div (by decide)
      (by decide)
  have hsum (a b c : Int32) : (((ofInt32 a).cast .i64 + (ofInt32 b).cast .i64 -
      (ofInt32 c).cast .i64 : Word m .i64).cast .i32 : Word m .i32) = ofInt32 (a + b - c) := by
    rw [(((shows_cast_ofInt32 a).add (shows_cast_ofInt32 b) (by decide)).sub
      (shows_cast_ofInt32 c) (by decide)).cast_i32, ofInt_add_sub]
  simp only [relativeVelocity, ofPoint_x, ofPoint_y, ((hturn arm.y).neg (by decide)).cast_i32,
    (hturn arm.x).cast_i32, hsum]
  rfl

/-- What the spring and damper of a wheel do, in words. -/
structure Pull (m : Machine) where
  /-- The force on the wheel. -/
  force : Pair (Word m .i64)
  /-- What the frame's torque loses. -/
  turn : Word m .i64

/-- A force with a spring of one stiffness and the damper added, which wrap. -/
def addSpring (gravity : Force) (stretch v : Pair (Word m .i32)) (stiffness : Word m .i64)
    (damp : Word m .i64 → Word m .i64) : Pair (Word m .i64) :=
  ⟨((of gravity.x).wrappingAdd (stretch.x.cast .i64 * stiffness)).wrappingAdd
      (damp (v.x.cast .i64)),
    ((of gravity.y).wrappingAdd (stretch.y.cast .i64 * stiffness)).wrappingAdd
      (damp (v.y.cast .i64))⟩

/-- The coupling of a wheel whose rest on the frame is `anchor`. -/
def coupleWheel (chassis wheel : Body) (anchor : Point) : Pull m :=
  let arm := subPoint (ofPoint wheel.pos) (ofPoint chassis.pos)
  let stretch := subPoint (ofPoint anchor) arm
  let v := relativeVelocity chassis arm wheel.vel
  let spring : Word m .i64 :=
    ((ofInt32 anchor.x).cast .i64 * stretch.y.cast .i64).wrappingSub
      ((ofInt32 anchor.y).cast .i64 * stretch.x.cast .i64)
  let damper : Word m .i64 :=
    (-v.x.cast .i64 * arm.y.cast .i64).wrappingAdd (v.y.cast .i64 * arm.x.cast .i64)
  { force := addSpring wheelGravity stretch v (of springConstant) (· * of damperConstant)
    turn := (spring / of springLever).wrappingAdd (damper / of damperLever) }

/-- The force on the head for its rest `anchor` on the frame. -/
def coupleHead (s : RideState) (anchor : Point) : Pair (Word m .i64) :=
  let arm := subPoint (ofPoint s.headPos) (ofPoint s.chassis.pos)
  let stretch := subPoint (ofPoint anchor) arm
  let v := relativeVelocity s.chassis arm s.headVel
  let stretchSq : Word m .i64 :=
    (stretch.x.cast .i64 * stretch.x.cast .i64).wrappingAdd
      (stretch.y.cast .i64 * stretch.y.cast .i64)
  let stiffness : Word m .i64 := stretchSq.bind fun d =>
    if headStretchLimit ≤ d then of 2 * of springConstant else of springConstant / of 5
  addSpring headGravity stretch v stiffness (· * of damperConstant / of 5)

/-- The force of a spring and a damper, whose stiffnesses are at most 40 and 1000. -/
theorem showsForce_addSpring {gravity : Force} (hx : gravity.x.natAbs ≤ 10522670)
    (hy : gravity.y.natAbs ≤ 10522670) {stiffness : Word m .i64} {k : Int}
    (hk : stiffness.Shows k 40) {damp : Word m .i64 → Word m .i64} {c : Int}
    (hdamp : ∀ a : Int32,
      (damp ((ofInt32 a).cast .i64)).Shows (a.toInt * c) 2147483648000) (stretch v : Point) :
    ShowsForce (addSpring gravity (ofPoint stretch) (ofPoint v) stiffness damp)
      (gravity + scaleWords k stretch + scaleWords c v) 2233393516590 := by
  have hpart {g : Int} (hg : g.natAbs ≤ 10522670) (a b : Int32) :
      (((of g).wrappingAdd ((ofInt32 a).cast .i64 * stiffness)).wrappingAdd
        (damp ((ofInt32 b).cast .i64))).Shows (g + a.toInt * k + b.toInt * c) 2233393516590 :=
    ((Shows.of hg).wrappingAdd ((shows_cast_ofInt32 a).mul hk (by decide))
      (by decide)).wrappingAdd (hdamp b) (by decide)
  exact ⟨hpart hx stretch.x v.x, hpart hy stretch.y v.y⟩

/-- A difference of two products of words fits a word of twice the width. -/
theorem shows_sub_products (a b c d : Int32) :
    (((ofInt32 a).cast .i64 * (ofInt32 b).cast .i64 : Word m .i64).wrappingSub
      ((ofInt32 c).cast .i64 * (ofInt32 d).cast .i64)).Shows
        (a.toInt * b.toInt - c.toInt * d.toInt) 9223372034707292160 := by
  have hprod (x y : Int32) : ((ofInt32 x).cast .i64 * (ofInt32 y).cast .i64 : Word m .i64) =
      of (x.toInt * y.toInt) :=
    ((shows_cast_ofInt32 x).mul (shows_cast_ofInt32 y) (by decide)).eq
  -- Twice the size of the largest product would be one too many: `Shows.wrappingSub`, which only
  -- knows sizes, does not apply.
  have hab := mul_toInt_bounds a b
  have hcd := mul_toInt_bounds c d
  rw [hprod, hprod]
  exact .wrap (by omega) (by decide)

/-- The same with the first factor of the first product negated before it is multiplied. -/
theorem shows_add_products (a b c d : Int32) :
    ((-(ofInt32 a).cast .i64 * (ofInt32 b).cast .i64 : Word m .i64).wrappingAdd
      ((ofInt32 c).cast .i64 * (ofInt32 d).cast .i64)).Shows
        (-a.toInt * b.toInt + c.toInt * d.toInt) 9223372034707292160 := by
  have hneg : (-(ofInt32 a).cast .i64 * (ofInt32 b).cast .i64 : Word m .i64) =
      of (-a.toInt * b.toInt) :=
    (((shows_cast_ofInt32 a).neg (by decide)).mul (shows_cast_ofInt32 b) (by decide)).eq
  have hprod : ((ofInt32 c).cast .i64 * (ofInt32 d).cast .i64 : Word m .i64) =
      of (c.toInt * d.toInt) :=
    ((shows_cast_ofInt32 c).mul (shows_cast_ofInt32 d) (by decide)).eq
  have hab := mul_toInt_bounds a b
  have hcd := mul_toInt_bounds c d
  rw [hneg, hprod]
  exact .wrap (by rw [Int.neg_mul]; omega) (by decide)

/-- The machine gets what the spring and damper of a wheel do. -/
theorem shows_coupleWheel (chassis wheel : Body) (anchor : Point) :
    ShowsForce (coupleWheel chassis wheel anchor : Pull m).force
        (RideProof.coupleWheel chassis wheel anchor).force 2233393516590 ∧
      (coupleWheel chassis wheel anchor : Pull m).turn.Shows
        (-(RideProof.coupleWheel chassis wheel anchor).torque) 2231455165165792 := by
  have hspring : (of springConstant : Word m .i64).Shows springConstant 40 := .of (by decide)
  have hdamper (a : Int32) : ((ofInt32 a).cast .i64 * of damperConstant : Word m .i64).Shows
      (a.toInt * damperConstant) 2147483648000 :=
    (shows_cast_ofInt32 a).mul (B := 1000) (.of (by decide)) (by decide)
  unfold coupleWheel
  simp only [subPoint_ofPoint, relativeVelocity_ofPoint]
  refine ⟨showsForce_addSpring (by decide) (by decide) hspring hdamper _ _, ?_⟩
  refine ((((shows_sub_products _ _ _ _).div (by decide) (by decide)).wrappingAdd
    ((shows_add_products _ _ _ _).div (by decide) (by decide)) (by decide)).mono
      (by decide)).congr ?_
  rw [RideProof.coupleWheel, Int.neg_neg]

/-- The squared stretch of the head, the one sum that does not always fit. -/
theorem wrappingAdd_squares (a b : Int32) :
    ((ofInt32 a).cast .i64 * (ofInt32 a).cast .i64 : Word m .i64).wrappingAdd
      ((ofInt32 b).cast .i64 * (ofInt32 b).cast .i64) =
        of ((a.toInt * a.toInt + b.toInt * b.toInt).bmod UInt64.size) := by
  have hsquare (x : Int32) : ((ofInt32 x).cast .i64 * (ofInt32 x).cast .i64 : Word m .i64) =
      of (x.toInt * x.toInt) :=
    ((shows_cast_ofInt32 x).mul (shows_cast_ofInt32 x) (by decide)).eq
  rw [hsquare, hsquare, ← WordKind.wrap_i64]
  rfl

/-- The machine gets the force on the head. -/
theorem shows_coupleHead (s : RideState) (anchor : Point) :
    ShowsForce (coupleHead s anchor : Pair (Word m .i64)) (RideProof.coupleHead s anchor)
      2233393516590 := by
  have hspring : (of springConstant : Word m .i64).Shows springConstant 20 := .of (by decide)
  have hdamper (a : Int32) : ((ofInt32 a).cast .i64 * of damperConstant / of 5 :
      Word m .i64).Shows (a.toInt * (damperConstant / 5)) 2147483648000 := by
    have hconstant : (of damperConstant : Word m .i64).Shows damperConstant 1000 :=
      .of (by decide)
    have hmul := (shows_cast_ofInt32 a).mul hconstant (by decide)
    -- The damper is divided last, which comes to the same since five divides its constant.
    refine ((hmul.div (by decide : (5 : Int) ≠ 0) (by decide)).mono (by decide)).congr ?_
    rw [show damperConstant = damperConstant / 5 * 5 from rfl, ← Int.mul_assoc]
    exact Int.mul_tdiv_cancel _ (by decide)
  unfold coupleHead
  simp only [subPoint_ofPoint, relativeVelocity_ofPoint, ofPoint_x, ofPoint_y,
    wrappingAdd_squares, bind_of]
  refine showsForce_addSpring (by decide) (by decide) ?_ hdamper _ _
  split_ifs
  · exact (Shows.of (by decide : (2 : Int).natAbs ≤ 2)).mul hspring (by decide)
  · exact ((hspring.div (by decide : (5 : Int) ≠ 0) (by decide)).mono (by decide)).congr rfl

end Word

/-! ## All of them -/

namespace Word

variable {m : Machine}

/-- The force on the frame: its weight, less what the wheels are pulled with. -/
def chassisForce (left right : Pull m) : Pair (Word m .i64) :=
  ⟨((of chassisGravity.x).wrappingSub left.force.x).wrappingSub right.force.x,
    ((of chassisGravity.y).wrappingSub left.force.y).wrappingSub right.force.y⟩

/-- The force on the frame, from the forces that the wheels are pulled with. -/
theorem showsForce_chassisForce {left right : Pull m} {f g : Force}
    (hf : ShowsForce left.force f 2233393516590) (hg : ShowsForce right.force g 2233393516590) :
    ShowsForce (chassisForce left right) (chassisGravity - f - g) 4503599627370496 := by
  have hpart {w : Int} (hw : w.natAbs ≤ 210453408) {a b : Word m .i64} {v u : Int}
      (ha : a.Shows v 2233393516590) (hb : b.Shows u 2233393516590) :
      (((of w).wrappingSub a).wrappingSub b).Shows (w - v - u) 4503599627370496 :=
    (((Shows.of hw).wrappingSub ha (by decide)).wrappingSub hb (by decide)).mono (by decide)
  exact ⟨hpart (by decide) hf.x hg.x, hpart (by decide) hf.y hg.y⟩

/-- The torque on the frame: its rotation, less what the wheels turn it back. -/
def chassisTorque (s : RideState) (left right : Pull m) : Word m .i64 :=
  ((rotationTorque s).wrappingSub left.turn).wrappingSub right.turn

/-- The torque on the frame, from the turns of the wheels. -/
theorem shows_chassisTorque {s : RideState} (hs : WordKind.i32.Fits s.sinceRotation)
    {left right : Pull m} {v w : Int} (hv : left.turn.Shows (-v) 2231455165165792)
    (hw : right.turn.Shows (-w) 2231455165165792) :
    (chassisTorque s left right).Shows (RideProof.rotationTorque s + v + w) 4503599627370496 :=
  (((shows_rotationTorque hs).wrappingSub hv (by decide)).wrappingSub hw (by decide)
    |>.mono (by decide)).congr (by rw [Int.sub_neg, Int.sub_neg])

end Word

/-- The forces and torques in a state. -/
def Machine.forces (m : Machine) (s : RideState) : Option Forces := do
  let motor : Word m .i64 × Word m .i64 := Word.motorTorques s
  let frame ← m.frame s.chassis.ang
  let pullL : Word.Pull m := Word.coupleWheel s.chassis s.leftWheel frame.left
  let pullR : Word.Pull m := Word.coupleWheel s.chassis s.rightWheel frame.right
  let pullHead : Pair (Word m .i64) := Word.coupleHead s frame.head
  let left ← Word.toForce? pullL.force
  let right ← Word.toForce? pullR.force
  let leftTorque ← motor.1.value?
  let rightTorque ← motor.2.value?
  let chassis ← Word.toForce? (Word.chassisForce pullL pullR)
  let chassisTorque ← (Word.chassisTorque s pullL pullR).value?
  let head ← Word.toForce? pullHead
  return {
    left := left
    right := right
    leftTorque := leftTorque
    rightTorque := rightTorque
    chassis := chassis
    chassisTorque := chassisTorque
    head := head }

/-- No component of the forces and torques is larger than `bound`. -/
structure Forces.Within (f : Forces) (bound : Nat) : Prop where
  /-- The force on the left wheel. -/
  left : f.left.x.natAbs ≤ bound ∧ f.left.y.natAbs ≤ bound
  /-- The force on the right wheel. -/
  right : f.right.x.natAbs ≤ bound ∧ f.right.y.natAbs ≤ bound
  /-- The torque on the left wheel. -/
  leftTorque : f.leftTorque.natAbs ≤ bound
  /-- The torque on the right wheel. -/
  rightTorque : f.rightTorque.natAbs ≤ bound
  /-- The force on the frame. -/
  chassis : f.chassis.x.natAbs ≤ bound ∧ f.chassis.y.natAbs ≤ bound
  /-- The torque on the frame. -/
  chassisTorque : f.chassisTorque.natAbs ≤ bound
  /-- The force on the head. -/
  head : f.head.x.natAbs ≤ bound ∧ f.head.y.natAbs ≤ bound

/-- A machine of either kind gets the forces and torques of the library. -/
theorem Machine.forces_eq (m : Machine) {s : RideState}
    (hs : WordKind.i32.Fits s.sinceRotation) : m.forces s = some (Forces.of s) := by
  obtain ⟨hmotorL, hmotorR⟩ := Word.shows_motorTorques (m := m) s
  obtain ⟨hleft, hturnL⟩ :=
    Word.shows_coupleWheel (m := m) s.chassis s.leftWheel (Frame.of s.chassis.ang).left
  obtain ⟨hright, hturnR⟩ :=
    Word.shows_coupleWheel (m := m) s.chassis s.rightWheel (Frame.of s.chassis.ang).right
  have hhead := Word.shows_coupleHead (m := m) s (Frame.of s.chassis.ang).head
  simp only [forces, m.frame_eq, Option.bind_eq_bind, Option.bind_some, hleft.toForce?,
    hright.toForce?, hmotorL.eq, hmotorR.eq, Word.value?_of,
    (Word.showsForce_chassisForce hleft hright).toForce?,
    (Word.shows_chassisTorque hs hturnL hturnR).eq, hhead.toForce?]
  rfl

/-- Forces and torques use less than a thousandth of the range of a 64-bit word. -/
theorem Forces.within_of {s : RideState} (hs : WordKind.i32.Fits s.sinceRotation) :
    (Forces.of s).Within 4503599627370496 := by
  obtain ⟨hmotorL, hmotorR⟩ := Word.shows_motorTorques (m := .checking) s
  obtain ⟨hleft, hturnL⟩ :=
    Word.shows_coupleWheel (m := .checking) s.chassis s.leftWheel (Frame.of s.chassis.ang).left
  obtain ⟨hright, hturnR⟩ :=
    Word.shows_coupleWheel (m := .checking) s.chassis s.rightWheel (Frame.of s.chassis.ang).right
  have hhead := Word.shows_coupleHead (m := .checking) s (Frame.of s.chassis.ang).head
  have hchassis := Word.showsForce_chassisForce hleft hright
  have htorque := Word.shows_chassisTorque hs hturnL hturnR
  have hle {n : Nat} {bound : Nat} (h : n ≤ bound) (hb : bound ≤ 4503599627370496) :
      n ≤ 4503599627370496 := Nat.le_trans h hb
  exact {
    left := ⟨hle hleft.x.le (by decide), hle hleft.y.le (by decide)⟩
    right := ⟨hle hright.x.le (by decide), hle hright.y.le (by decide)⟩
    leftTorque := hle hmotorL.le (by decide)
    rightTorque := hle hmotorR.le (by decide)
    chassis := ⟨hchassis.x.le, hchassis.y.le⟩
    chassisTorque := htorque.le
    head := ⟨hle hhead.x.le (by decide), hle hhead.y.le (by decide)⟩ }

end RideProof
