import RideProof.Physics.Contact
import RideProof.Proofs.MachineField
import RideProof.Proofs.MachineForces

/-!
# A wheel on the ground, on a machine

Contact, friction and motion of a wheel as a machine works them out. The doubled products are taken
in 64 bits and narrowed once, where the library doubles words that wrap; both come to the same. What
acts on the wheel may be as large as the forces of a tick are (`WheelLoad.Within`), and is not much
larger after the contact.

* `Word.closing_eq`, `Word.load_eq`, `Word.slip_eq`, `Word.gripOf_eq` — the quantities of a contact.
* `Machine.grip_eq`, `Machine.touch_eq`, `Machine.integrate_eq` — what they do to a wheel.
* `Machine.advanceWheel_eq` — one tick of a wheel.
-/

namespace RideProof

/-! ## Contact with the ground -/

namespace Word

variable {m : Machine}

/-- The speed at which a wheel closes in. -/
def closing (normal vel : Point) : Word m .i32 :=
  let x : Word m .i64 := ((ofInt32 normal.x).mulQ31 (ofInt32 vel.x)).cast .i64
  let y : Word m .i64 := ((ofInt32 normal.y).mulQ31 (ofInt32 vel.y)).cast .i64
  (-x * of 2 - y * of 2).cast .i32

/-- The load on a contact under a force. -/
def load (normal : Point) (force : Force) : Word m .i32 :=
  let unit : Word m .i64 := of contactForceUnit
  let x : Word m .i64 := ((ofInt32 normal.x).mulQ31 ((of force.x / unit).cast .i32)).cast .i64
  let y : Word m .i64 := ((ofInt32 normal.y).mulQ31 ((of force.y / unit).cast .i32)).cast .i64
  (x * of 2 + y * of 2).cast .i32

/-- The speed of the rim along the ground. -/
def slip (normal vel : Point) (angVel : Int32) : Word m .i32 :=
  let x : Word m .i64 := ((ofInt32 vel.x).mulQ31 (ofInt32 normal.y)).cast .i64
  let y : Word m .i64 := ((ofInt32 vel.y).mulQ31 (ofInt32 normal.x)).cast .i64
  (x * of 2 - y * of 2 - (ofInt32 angVel / ofInt32 rimSpin).cast .i64).cast .i32

/-- The friction between ground and wheel. -/
def gripOf (load slip : Int32) : Word m .i32 :=
  let slip : Word m .i64 := (ofInt32 slip).cast .i64
  let limit : Word m .i64 := (((ofInt32 load).cast .i64 * of 10 : Word m .i64).cast .i32).cast .i64
  (slip.sign * limit.least slip.abs).cast .i32

/-- Twice a 32-bit word, in 64 bits. -/
theorem shows_double (a : Int32) :
    ((ofInt32 a).cast .i64 * of 2 : Word m .i64).Shows (a.toInt * 2) 4294967296 :=
  (shows_cast_ofInt32 a).mul (Shows.of (by decide : (2 : Int).natAbs ≤ 2)) (by decide)

/-- An inner product, taken exactly before it is narrowed. -/
theorem innerProduct_eq (p q : Point) :
    innerProduct p q =
      Int32.ofInt
        ((RideProof.mulQ31 p.x q.x).toInt * 2 + (RideProof.mulQ31 p.y q.y).toInt * 2) := by
  rw [Int32.ofInt_add, Int32.ofInt_mul, Int32.ofInt_mul, Int32.ofInt_toInt, Int32.ofInt_toInt]
  rfl

/-- A machine gets the speed at which a wheel closes in. -/
theorem closing_eq (normal vel : Point) :
    (closing normal vel : Word m .i32) = ofInt32 (-innerProduct normal vel) := by
  have hneg (a : Int32) : (-(ofInt32 a).cast .i64 * of 2 : Word m .i64).Shows (-a.toInt * 2)
      4294967296 :=
    ((shows_cast_ofInt32 a).neg (by decide)).mul (Shows.of (by decide : (2 : Int).natAbs ≤ 2))
      (by decide)
  simp only [closing, mulQ31_ofInt32]
  rw [((hneg _).sub (shows_double _) (by decide)).cast_i32, innerProduct_eq, ← Int32.ofInt_neg]
  congr 2
  omega

/-- A machine gets the part of a force that presses a wheel to the ground. -/
theorem load_eq (normal : Point) {force : Force} (hx : force.x.natAbs ≤ 4503599627370496)
    (hy : force.y.natAbs ≤ 4503599627370496) :
    (load normal force : Word m .i32) = ofInt32
      (innerProduct normal (force.map fun f => Int32.ofInt (Int.tdiv f contactForceUnit))) := by
  have hdiv {f : Int} (hf : f.natAbs ≤ 4503599627370496) :
      ((of f / of contactForceUnit : Word m .i64).cast .i32 : Word m .i32) =
        ofInt32 (Int32.ofInt (f.tdiv contactForceUnit)) :=
    ((Shows.of hf).div (by decide) (by decide)).cast_i32
  simp only [load, hdiv hx, hdiv hy, mulQ31_ofInt32]
  rw [((shows_double _).add (shows_double _) (by decide)).cast_i32, innerProduct_eq]
  rfl

/-- The spin of a wheel as the speed of its rim. -/
theorem div_rimSpin (a : Int32) :
    (ofInt32 a / ofInt32 rimSpin : Word m .i32) = ofInt32 (a / rimSpin) := by
  have hdiv : (ofInt32 a / of 31 : Word m .i32).Shows (a.toInt.tdiv 31) 69273666 :=
    (shows_ofInt32 a).div (by decide) (by decide)
  have hvalue : (a / rimSpin).toInt = a.toInt.tdiv 31 := by
    have hle := hdiv.le
    rw [Int32.toInt_div, show rimSpin.toInt = 31 from rfl]
    exact Int.bmod_eq_of_le (by omega) (by omega)
  rw [show (ofInt32 rimSpin : Word m .i32) = of 31 from rfl, hdiv.eq, ← hvalue]
  rfl

/-- A machine gets the speed of the rim along the ground. -/
theorem slip_eq (normal vel : Point) (angVel : Int32) :
    (slip normal vel angVel : Word m .i32) =
      ofInt32 (RideProof.mulQ31 vel.x normal.y * 2 - RideProof.mulQ31 vel.y normal.x * 2 -
        angVel / rimSpin) := by
  simp only [slip, mulQ31_ofInt32, div_rimSpin]
  rw [(((shows_double _).sub (shows_double _) (by decide)).sub
    (shows_cast_ofInt32 _) (by decide)).cast_i32, Int32.ofInt_sub, Int32.ofInt_sub,
    Int32.ofInt_mul, Int32.ofInt_mul, Int32.ofInt_toInt, Int32.ofInt_toInt, Int32.ofInt_toInt]
  rfl

/-- A machine gets the grip. -/
theorem gripOf_eq (load slip : Int32) :
    (gripOf load slip : Word m .i32) = ofInt32 (RideProof.gripOf load slip) := by
  have hlimit : ((ofInt32 load).cast .i64 * of 10 : Word m .i64).cast .i32 =
      (ofInt32 (load * 10) : Word m .i32) := by
    rw [((shows_cast_ofInt32 load).mul
      (Shows.of (by decide : (10 : Int).natAbs ≤ 10)) (by decide)).cast_i32, Int32.ofInt_mul,
      Int32.ofInt_toInt]
    rfl
  have hslip := shows_cast_ofInt32 (m := m) slip
  simp only [gripOf, hlimit]
  exact (hslip.sign.mul ((shows_cast_ofInt32 _).least (hslip.abs (by decide)))
    (by decide)).cast_i32

end Word

/-- Friction on a wheel that bears `load`. -/
def Machine.grip (m : Machine) (l : WheelLoad) (normal : Point) (load : Int32) :
    Option WheelLoad := do
  let slip ← (Word.slip normal l.wheel.vel l.wheel.angVel : Word m .i32).toInt32?
  let grip ← (Word.gripOf load slip : Word m .i32).toInt32?
  let x : Word m .i64 := ((Word.ofInt32 normal.x).mulQ31 (.ofInt32 grip)).cast .i64
  let y : Word m .i64 := ((Word.ofInt32 normal.y).mulQ31 (.ofInt32 grip)).cast .i64
  let torque ← ((Word.of l.torque).wrappingAdd
    ((Word.ofInt32 grip).cast .i64 * .of rimTorque) : Word m .i64).value?
  let force ← Word.toForce?
    ⟨(Word.of l.force.x).wrappingSub (y * .of contactForceUnit * .of 2),
      (Word.of l.force.y).wrappingAdd (x * .of contactForceUnit * .of 2)⟩
  return { wheel := l.wheel, force := force, torque := torque }

/-- What contact with the ground at a sample does to a wheel. -/
def Machine.touch (m : Machine) (l : WheelLoad) (s : Sample) (inverse : Int) (distance : Int32) :
    Option WheelLoad := do
  let normal ← Word.toPoint? (s.gradient.map fun g =>
    ((Word.ofInt16 g).cast .i64 * .of inverse : Word m .i64).cast .i32)
  let push : Word m .i32 :=
    (Word.ofInt32 pushReach).wrappingSub ((Word.ofInt32 distance).wrappingMul (.ofInt32 lengthUnit))
  let pos ← Word.toPoint? (Word.subPoint (Word.ofPoint l.wheel.pos)
    (normal.map fun n => ((Word.ofInt32 n).mulQ31 push).wrappingMul (.ofInt32 2)))
  let closing ← (Word.closing normal l.wheel.vel : Word m .i32).toInt32?
  if closing < -minClosingSpeed then
    let vel ← Word.toPoint? (Word.addPoint (Word.ofPoint l.wheel.vel) (normal.map fun n =>
      ((Word.ofInt32 closing).mulQ31 (.ofInt32 n) : Word m .i32).wrappingMul (.ofInt32 2)))
    let load ← (Word.load normal l.force : Word m .i32).toInt32?
    let bounced := { l with wheel := { l.wheel with pos := pos, vel := vel } }
    if 0 < load then m.grip bounced normal load else some bounced
  else some { l with wheel := { l.wheel with pos := pos } }

/-- One tick of motion. -/
def Machine.integrate (m : Machine) (b : Body) (force : Force) (torque mass angularMass : Int) :
    Option Body := do
  let ang ← ((Word.ofInt32 b.ang).wrappingAdd (.ofInt32 b.angVel) : Word m .i32).toInt32?
  let angVel ← ((Word.ofInt32 b.angVel).wrappingAdd
    ((.of torque / .of angularMass : Word m .i64).cast .i32) : Word m .i32).toInt32?
  let pos ← Word.toPoint? (Word.addPoint (Word.ofPoint b.pos) (Word.ofPoint b.vel) :
    Pair (Word m .i32))
  let vel ← Word.toPoint? (Word.addPoint (Word.ofPoint b.vel)
    (force.map fun f => (.of f / .of mass : Word m .i64).cast .i32))
  return { pos := pos, vel := vel, ang := ang, angVel := angVel }

/-- One tick of a wheel, or nothing if its centre is inside the ground. -/
def Machine.advanceWheel (m : Machine) (f : Field) (l : WheelLoad) : Option (Option Body) := do
  let s ← m.sample f l.wheel.pos
  if groundLevel < s.height.toInt then return none
  else
    let inverse ← (Word.magnitudeSq s.gradient : Word m .i64).inverseLength.value?
    let distance ← m.sampleDistance s
    let l ← if distance < wheelRadius then m.touch l s inverse distance else some l
    let moved ← m.integrate l.wheel l.force l.torque wheelMass wheelAngularMass
    return some moved

/-- What acts on a wheel is at most `bound`. -/
structure WheelLoad.Within (l : WheelLoad) (bound : Nat) : Prop where
  /-- The force on it. -/
  force : l.force.x.natAbs ≤ bound ∧ l.force.y.natAbs ≤ bound
  /-- The torque on it. -/
  torque : l.torque.natAbs ≤ bound

/-- A bound on a load may be raised. -/
theorem WheelLoad.Within.mono {l : WheelLoad} {A B : Nat} (h : l.Within A) (hAB : A ≤ B) :
    l.Within B :=
  ⟨⟨Nat.le_trans h.force.1 hAB, Nat.le_trans h.force.2 hAB⟩, Nat.le_trans h.torque hAB⟩

section agreement

variable (m : Machine)

/-- A quotient of something that acts on a body, narrowed to a change of its motion. -/
theorem Word.cast_div {m : Machine} {v d : Int} (hv : v.natAbs ≤ 9007199254740992) (hd : d ≠ 0) :
    ((.of v / .of d : Word m .i64).cast .i32 : Word m .i32) = .ofInt32 (Int32.ofInt (v.tdiv d)) :=
  ((Word.Shows.of hv).div hd (Nat.le_trans (Nat.div_le_self _ _) (by decide))).cast_i32

/-- A machine of either kind integrates the motion of a body, if the forces leave room. -/
theorem Machine.integrate_eq (b : Body) {force : Force} {torque mass angularMass : Int}
    (hx : force.x.natAbs ≤ 9007199254740992) (hy : force.y.natAbs ≤ 9007199254740992)
    (htorque : torque.natAbs ≤ 9007199254740992) (hmass : mass ≠ 0) (hangular : angularMass ≠ 0) :
    m.integrate b force torque mass angularMass =
      some (b.integrate force torque mass angularMass) := by
  have hvel : force.map (fun f => (.of f / .of mass : Word m .i64).cast .i32) =
      Word.ofPoint (force.map fun f => Int32.ofInt (f.tdiv mass)) := by
    simp only [Pair.map, Word.cast_div hx hmass, Word.cast_div hy hmass, Word.ofPoint]
  simp only [integrate, hvel, Word.cast_div htorque hangular, Word.wrappingAdd_ofInt32,
    Word.toInt32?_ofInt32, Word.addPoint_ofPoint, Word.toPoint?_ofPoint, Option.bind_eq_bind,
    Option.bind_some]
  rfl

/-- Friction adds less than there is room for. -/
theorem Machine.grip_eq {l : WheelLoad} (hl : l.Within 4503599627370496) (normal : Point)
    (load : Int32) :
    m.grip l normal load = some (l.grip normal load) ∧
      (l.grip normal load).Within 9007199254740992 := by
  have hunit : (.of contactForceUnit : Word m .i64).Shows contactForceUnit 833 := .of (by decide)
  have hrim : (.of rimTorque : Word m .i64).Shows rimTorque 4242 := .of (by decide)
  have htwo : (.of 2 : Word m .i64).Shows 2 2 := .of (by decide)
  have hpull (a : Int32) : ((Word.ofInt32 a).cast .i64 * .of contactForceUnit * .of 2 :
      Word m .i64).Shows (a.toInt * contactForceUnit * 2) 3577707757568 :=
    ((Word.shows_cast_ofInt32 a).mul hunit (by decide)).mul htwo (by decide)
  have hforce (a b : Int32) : Word.ShowsForce
      ⟨(Word.of l.force.x).wrappingSub ((Word.ofInt32 a).cast .i64 * .of contactForceUnit * .of 2),
        (Word.of l.force.y).wrappingAdd
          ((Word.ofInt32 b).cast .i64 * .of contactForceUnit * .of 2 : Word m .i64)⟩
      ⟨l.force.x - a.toInt * contactForceUnit * 2, l.force.y + b.toInt * contactForceUnit * 2⟩
      9007199254740992 :=
    ⟨((Word.Shows.of hl.force.1).wrappingSub (hpull a) (by decide)).mono (by decide),
      ((Word.Shows.of hl.force.2).wrappingAdd (hpull b) (by decide)).mono (by decide)⟩
  have htorque (a : Int32) : ((Word.of l.torque).wrappingAdd
      ((Word.ofInt32 a).cast .i64 * .of rimTorque) : Word m .i64).Shows
        (l.torque + a.toInt * rimTorque) 9007199254740992 :=
    ((Word.Shows.of hl.torque).wrappingAdd
      ((Word.shows_cast_ofInt32 a).mul hrim (by decide)) (by decide)).mono (by decide)
  constructor
  · simp only [grip, Word.slip_eq, Word.gripOf_eq, Word.mulQ31_ofInt32, Word.toInt32?_ofInt32,
      Option.bind_eq_bind, Option.bind_some, (htorque _).eq, (hforce _ _).toForce?,
      Word.value?_of]
    rfl
  · exact ⟨⟨(hforce _ _).x.le, (hforce _ _).y.le⟩, (htorque _).le⟩

/-- The normal of the ground, a gradient times the inverse of its length. -/
theorem Machine.map_normal (s : Sample) :
    (s.gradient.map fun g => ((Word.ofInt16 g).cast .i64 *
      .of (inverseLength (magnitudeSq s.gradient)) : Word m .i64).cast .i32) =
        Word.ofPoint s.normal := by
  have hinverse := Word.Shows.of (m := m) (k := .i64)
    (Word.shows_inverseLength (m := m) (magnitudeSq s.gradient)).le
  have hpart (g : Int16) : ((Word.ofInt16 g).cast .i64 *
      .of (inverseLength (magnitudeSq s.gradient)) : Word m .i64).cast .i32 =
        (.ofInt32 (Int32.ofInt (g.toInt * inverseLength (magnitudeSq s.gradient))) :
          Word m .i32) :=
    (((Word.shows_ofInt16 g).widen (by decide)).mul hinverse (by decide)).cast_i32
  simp only [Pair.map, hpart]
  rfl

/-- A machine of either kind gets what the ground does to a wheel, and the load still leaves
room. -/
theorem Machine.touch_eq {l : WheelLoad} (hl : l.Within 4503599627370496) (s : Sample) :
    m.touch l s (inverseLength (magnitudeSq s.gradient)) s.groundDistance = some (l.touch s) ∧
      (l.touch s).Within 9007199254740992 := by
  have hwide : l.Within 9007199254740992 := hl.mono (by decide)
  have hdouble (p : Point) (a : Int32) :
      p.map (fun n => ((Word.ofInt32 n).mulQ31 (.ofInt32 a) : Word m .i32).wrappingMul
        (.ofInt32 2)) = Word.ofPoint (p.map fun n => mulQ31 n a * 2) := by
    simp only [Word.mulQ31_ofInt32, Word.wrappingMul_ofInt32]
    rfl
  have hdouble' (p : Point) (a : Int32) :
      p.map (fun n => ((Word.ofInt32 a).mulQ31 (.ofInt32 n) : Word m .i32).wrappingMul
        (.ofInt32 2)) = Word.ofPoint (p.map fun n => mulQ31 a n * 2) := by
    simp only [Word.mulQ31_ofInt32, Word.wrappingMul_ofInt32]
    rfl
  simp only [touch, m.map_normal, Word.toPoint?_ofPoint, Option.bind_eq_bind, Option.bind_some,
    Word.wrappingMul_ofInt32, Word.wrappingSub_ofInt32, hdouble, hdouble', Word.subPoint_ofPoint,
    Word.addPoint_ofPoint, Word.closing_eq, Word.toInt32?_ofInt32,
    Word.load_eq _ hl.force.1 hl.force.2, WheelLoad.touch]
  -- A wheel that closes in and bears a load, one that only closes in, and one that does neither.
  split_ifs
  · refine m.grip_eq ?_ _ _
    exact ⟨hl.force, hl.torque⟩
  · exact ⟨rfl, hwide.force, hwide.torque⟩
  · exact ⟨rfl, hwide.force, hwide.torque⟩

/-- One tick of a wheel goes through on a machine of either kind, wherever the wheel is. -/
theorem Machine.advanceWheel_eq (f : Field) {l : WheelLoad} (hl : l.Within 4503599627370496) :
    m.advanceWheel f l = some (f.advanceWheel l) := by
  have hmove {l : WheelLoad} (hl : l.Within 9007199254740992) :
      m.integrate l.wheel l.force l.torque wheelMass wheelAngularMass =
        some (l.wheel.integrate l.force l.torque wheelMass wheelAngularMass) :=
    m.integrate_eq _ hl.force.1 hl.force.2 hl.torque (by decide) (by decide)
  obtain ⟨htouch, hwithin⟩ := m.touch_eq hl (f.sample l.wheel.pos)
  simp only [advanceWheel, m.sample_eq f, Option.bind_eq_bind, Option.bind_some,
    (Word.shows_magnitudeSq m _).eq, (Word.shows_inverseLength _).eq, Word.value?_of,
    m.sampleDistance_eq, Field.advanceWheel]
  split_ifs
  · rfl
  · rw [htouch, Option.bind_some, hmove hwithin]
    rfl
  · rw [hmove (hl.mono (by decide))]
    rfl

end agreement

end RideProof
