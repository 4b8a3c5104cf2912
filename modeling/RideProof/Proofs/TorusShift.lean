import Mathlib.Algebra.Group.Int.Defs
import Mathlib.Algebra.Group.Nat.Defs
import RideProof.Proofs.Run

/-!
# Shifting a course by whole cells

The map is a torus of cells without a distinguished corner. Shift the ground, the finish and the
bodies by the same number of columns and rows: every tick ends as before, and leaves the shifted
state.

A position is used in two ways. Differences of positions do not see any displacement of all of them,
so forces, contact and capture are the same (`Forces.of_displace`, `WheelLoad.touch_displace`,
`RideState.captured_displace`). The ground is looked up in the cell of a position and its
neighbours, and there the shift of the field makes up for the shift of the position, across the seam
of the map too (`Field.sample_shift`).

* `cellShift`, `Field.shift`, `World.shift`, `RideState.shift` — the shifts.
* `World.step_shift`, `World.stateAfter_shift` — one tick, and a ride.
* `World.shift_law` — both, with what the shift of a field is.
-/

namespace RideProof

variable {p q : Point} {b : Body} {l : WheelLoad} {w : World} {s : RideState} {c : Control}

/-! ## Displaced bodies -/

/-- A difference of points does not change if both are displaced. -/
theorem Pair.add_sub_add_right (p q d : Point) : p + d - (q + d) = p - q := by
  apply Pair.ext <;> simp only [sub_x, sub_y, add_x, add_y] <;> grind

/-- A displaced point may be moved before it is displaced. -/
theorem Pair.add_right_comm (p d v : Point) : p + d + v = p + v + d := by
  apply Pair.ext <;> simp only [add_x, add_y] <;> grind

/-- A displaced point may be moved back before it is displaced. -/
theorem Pair.add_sub_right_comm (p d v : Point) : p + d - v = p - v + d := by
  apply Pair.ext <;> simp only [sub_x, sub_y, add_x, add_y] <;> grind

/-- A body elsewhere. -/
def Body.displace (b : Body) (d : Point) : Body := { b with pos := b.pos + d }

/-- A state with all its bodies elsewhere. -/
def RideState.displace (s : RideState) (d : Point) : RideState :=
  { s with
    leftWheel := s.leftWheel.displace d
    rightWheel := s.rightWheel.displace d
    chassis := s.chassis.displace d
    headPos := s.headPos + d }

/-- A loaded wheel elsewhere. -/
def WheelLoad.displace (l : WheelLoad) (d : Point) : WheelLoad :=
  { l with wheel := l.wheel.displace d }

/-! ## What sees differences only -/

/-- The coupling of a wheel does not change if wheel and frame are displaced. -/
theorem coupleWheel_displace (chassis wheel : Body) (anchor d : Point) :
    coupleWheel (chassis.displace d) (wheel.displace d) anchor =
      coupleWheel chassis wheel anchor := by
  unfold coupleWheel Body.displace
  dsimp only
  rw [Pair.add_sub_add_right]
  rfl

/-- The coupling of the head does not change if the state is displaced. -/
theorem coupleHead_displace (s : RideState) (anchor d : Point) :
    coupleHead (s.displace d) anchor = coupleHead s anchor := by
  unfold coupleHead RideState.displace Body.displace
  dsimp only
  rw [Pair.add_sub_add_right]
  rfl

/-- Forces and torques are the same elsewhere. -/
theorem Forces.of_displace (s : RideState) (d : Point) :
    Forces.of (s.displace d) = Forces.of s := by
  have hleft (anchor : Point) :
      coupleWheel (s.displace d).chassis (s.displace d).leftWheel anchor =
        coupleWheel s.chassis s.leftWheel anchor := coupleWheel_displace _ _ anchor d
  have hright (anchor : Point) :
      coupleWheel (s.displace d).chassis (s.displace d).rightWheel anchor =
        coupleWheel s.chassis s.rightWheel anchor := coupleWheel_displace _ _ anchor d
  unfold Forces.of
  dsimp only
  rw [hleft, hright, coupleHead_displace]
  rfl

/-- A body elsewhere moves as it would here. -/
theorem Body.integrate_displace (b : Body) (d : Point) (force : Force)
    (torque mass angularMass : Int) :
    (b.displace d).integrate force torque mass angularMass =
      (b.integrate force torque mass angularMass).displace d := by
  unfold integrate displace
  dsimp only
  rw [Pair.add_right_comm]

/-- A loaded wheel elsewhere moves as it would here. -/
theorem WheelLoad.integrate_displace (l : WheelLoad) (d : Point) (mass angularMass : Int) :
    (l.displace d).wheel.integrate (l.displace d).force (l.displace d).torque mass angularMass =
      (l.wheel.integrate l.force l.torque mass angularMass).displace d :=
  l.wheel.integrate_displace d l.force l.torque mass angularMass

/-- Contact with the same ground does the same elsewhere. -/
theorem WheelLoad.touch_displace (l : WheelLoad) (d : Point) (sample : Sample) :
    (l.displace d).touch sample = (l.touch sample).displace d := by
  unfold touch displace Body.displace
  dsimp only
  rw [Pair.add_sub_right_comm]
  split_ifs <;> rfl

/-- Whether points are near does not change if both are displaced. -/
theorem within_displace (p q d : Point) (radius : Int32) :
    within (p + d) (q + d) radius = within p q radius := by
  unfold within
  rw [Pair.add_sub_add_right]

/-- The finish is captured where it is elsewhere too. -/
theorem RideState.captured_displace (s : RideState) (finish d : Point) :
    (s.displace d).captured (finish + d) = s.captured finish := by
  unfold captured displace Body.displace
  dsimp only
  rw [within_displace, within_displace, within_displace]

/-- The frame and the head of a displaced state move as those of the state. -/
theorem RideState.moveUpperBodies_displace (s : RideState) (d : Point) (forces : Forces) :
    (s.displace d).moveUpperBodies forces = (s.moveUpperBodies forces).displace d := by
  unfold moveUpperBodies displace
  dsimp only
  rw [Body.integrate_displace, Pair.add_right_comm]

/-- A request is let through, or refused, elsewhere as here. -/
theorem RideState.request_displace (s : RideState) (d : Point) (c : Control) :
    (s.displace d).request c = (s.request c).map (·.displace d) := by
  have hsince : (s.displace d).sinceRotation = s.sinceRotation := rfl
  unfold request
  rw [hsince]
  split_ifs <;> rfl

/-! ## What looks at the ground -/

/-- The displacement by `k` columns and `l` rows of cells. -/
def cellShift (k l : Int) : Point := ⟨Int32.ofInt (k * 2 ^ 28), Int32.ofInt (l * 2 ^ 28)⟩

/-- The field with its corners `k` columns and `l` rows further on. -/
def Field.shift (f : Field) (k l : Int) : Field :=
  ofFn fun col row => f.cell ((col - k) % 16).toNat ((row - l) % 16).toNat

/-- A corner of the shifted field is the corner that was shifted there. -/
theorem Field.cell_shift (f : Field) {k l : Int} {col row col' row' : Nat}
    (hcol : (col' - col - k) % 16 = 0) (hrow : (row' - row - l) % 16 = 0) :
    (f.shift k l).cell col' row' = f.cell col row := by
  have hcol' : (((col' % 16 : Nat) - k) % 16).toNat = col % 16 := by omega
  have hrow' : (((row' % 16 : Nat) - l) % 16).toNat = row % 16 := by omega
  rw [shift, cell_ofFn, hcol', hrow', cell_mod]

/-- A word without its sign stands for its number modulo `2 ^ 32`. -/
theorem toNat_toUInt32_ofInt (n : Int) : ((Int32.ofInt n).toUInt32.toNat : Int) = n % 2 ^ 32 := by
  have hnat : (Int32.ofInt n).toUInt32.toNat = (n % 2 ^ 32).toNat := BitVec.toNat_ofInt n
  rw [hnat]
  exact Int.toNat_of_nonneg (Int.emod_nonneg n (by decide))

/-- A word that was shifted by a number of cells: its top four bits count the cells modulo 16, and
the others stay. -/
theorem toNat_add_cells (a : Int32) (k : Int) :
    (((a + Int32.ofInt (k * 2 ^ 28)).toUInt32.toNat / 2 ^ 28 : Nat) -
        ((a.toUInt32.toNat / 2 ^ 28 : Nat) : Int) - k) % 16 = 0 ∧
      (a + Int32.ofInt (k * 2 ^ 28)).toUInt32.toNat % 2 ^ 28 = a.toUInt32.toNat % 2 ^ 28 := by
  have hshift := toNat_toUInt32_ofInt (k * 2 ^ 28)
  rw [Int32.toUInt32_add, UInt32.toNat_add]
  generalize (Int32.ofInt (k * 2 ^ 28)).toUInt32.toNat = shift at hshift ⊢
  generalize a.toUInt32.toNat = u
  -- remainders modulo `2 ^ 32` and its divisors `2 ^ 28` and 16
  omega

/-- A shifted position lies in the shifted cell, at the same place inside it. -/
theorem Field.corners_shift (f : Field) (p : Point) (k l : Int) :
    (f.shift k l).corners (Locus.of (p + cellShift k l)) = f.corners (Locus.of p) := by
  have hx := (toNat_add_cells p.x k).1
  have hy := (toNat_add_cells p.y l).1
  unfold corners Locus.of cellShift
  simp only [Pair.add_x, Pair.add_y, Corners.mk.injEq]
  refine ⟨?_, ?_, ?_, ?_⟩ <;> apply cell_shift <;> omega

/-- The ground of the shifted field at a shifted position is that of the field at the position. -/
theorem Field.sample_shift (f : Field) (p : Point) (k l : Int) :
    (f.shift k l).sample (p + cellShift k l) = f.sample p := by
  have hcorners := f.corners_shift p k l
  have hx : (Locus.of (p + cellShift k l)).x = (Locus.of p).x :=
    congrArg (· / 64) (toNat_add_cells p.x k).2
  have hy : (Locus.of (p + cellShift k l)).y = (Locus.of p).y :=
    congrArg (· / 64) (toNat_add_cells p.y l).2
  unfold sample planeHeights Locus.fracX Locus.fracY
  dsimp only
  rw [hcorners, hx, hy]

/-- Above a shifted field, the ground is as far from the shifted position. -/
theorem Field.groundDistance_shift (f : Field) (p : Point) (k l : Int) :
    (f.shift k l).groundDistance (p + cellShift k l) = f.groundDistance p := by
  unfold groundDistance
  rw [sample_shift]

/-- On a shifted field, a shifted wheel moves as the wheel, and fails if it does. -/
theorem Field.advanceWheel_shift (f : Field) (load : WheelLoad) (k l : Int) :
    (f.shift k l).advanceWheel (load.displace (cellShift k l)) =
      (f.advanceWheel load).map (·.displace (cellShift k l)) := by
  have hsample : (f.shift k l).sample (load.displace (cellShift k l)).wheel.pos =
      f.sample load.wheel.pos := f.sample_shift load.wheel.pos k l
  unfold advanceWheel
  dsimp only
  rw [hsample, WheelLoad.touch_displace]
  split_ifs
  · rfl
  · rw [WheelLoad.integrate_displace, Option.map_some]
  · rw [WheelLoad.integrate_displace, Option.map_some]

/-! ## Ticks and rides -/

/-- The course, `k` columns and `l` rows further on. -/
def World.shift (w : World) (k l : Int) : World where
  field := w.field.shift k l
  finish := w.finish + cellShift k l

/-- The state, `k` columns and `l` rows further on. -/
def RideState.shift (s : RideState) (k l : Int) : RideState := s.displace (cellShift k l)

/-- On a shifted course, a shifted state moves as the state, and fails if it does. -/
theorem World.move_shift (w : World) (s : RideState) (k l : Int) :
    (w.shift k l).move (s.shift k l) = ((w.move s).1.shift k l, (w.move s).2) := by
  have hforces : Forces.of (s.shift k l) = Forces.of s := Forces.of_displace s _
  have hleft := w.field.advanceWheel_shift
    ⟨s.leftWheel, (Forces.of s).left, (Forces.of s).leftTorque⟩ k l
  have hright := w.field.advanceWheel_shift
    ⟨s.rightWheel, (Forces.of s).right, (Forces.of s).rightTorque⟩ k l
  change (w.shift k l).field.advanceWheel
    ⟨(s.shift k l).leftWheel, (Forces.of s).left, (Forces.of s).leftTorque⟩ = _ at hleft
  change (w.shift k l).field.advanceWheel
    ⟨(s.shift k l).rightWheel, (Forces.of s).right, (Forces.of s).rightTorque⟩ = _ at hright
  -- the motion stops at the first wheel that is in the ground
  unfold move
  dsimp only
  rw [hforces, hleft]
  rcases w.field.advanceWheel ⟨s.leftWheel, (Forces.of s).left, (Forces.of s).leftTorque⟩
    with _ | left
  · rfl
  · dsimp only [Option.map_some]
    rw [hright]
    rcases w.field.advanceWheel ⟨s.rightWheel, (Forces.of s).right, (Forces.of s).rightTorque⟩
      with _ | right
    · rfl
    · exact congrArg (·, false) (RideState.moveUpperBodies_displace
        { s with leftWheel := left, rightWheel := right } _ _)

/-- The shift takes a tick on a course to one on the shifted course. -/
theorem World.tickMap_shift (w : World) (s : RideState) (k l : Int) (c : Control) :
    w.TickMap (w.shift k l) s c c (·.shift k l) where
  dead := rfl
  frame := rfl
  counted := rfl
  request := s.counted.request_displace (cellShift k l) c
  move q _ := w.move_shift q k l
  captured q := q.captured_displace w.finish (cellShift k l)
  head q := w.field.groundDistance_shift q.headPos k l
  killed _ := rfl

/-- A tick on a shifted course ends as on the course, in the shifted state. -/
theorem World.step_shift (w : World) (s : RideState) (k l : Int) (c : Control) :
    (w.shift k l).step (s.shift k l) c = ((w.step s c).1.shift k l, (w.step s c).2) :=
  (w.tickMap_shift s k l c).step_eq

/-- A ride on a shifted course is the shifted ride. -/
theorem World.stateAfter_shift (w : World) (s : RideState) (k l : Int) (cs : Nat → Control)
    (n : Nat) :
    (w.shift k l).stateAfter (s.shift k l) cs n = (w.stateAfter s cs n).shift k l := by
  induction n with
  | zero => rfl
  | succ n ih => rw [stateAfter, ih, step_shift, stateAfter]

/-- **Courses have no distinguished cell.** Shift a course and a state by the same number of columns
and rows: corner `(col + k, row + l)` of the shifted field is corner `(col, row)` of the field, both
taken modulo 16. Every tick then has the result that it had and leaves the shifted state, and so has
every tick of a ride under any controls. -/
theorem World.shift_law (w : World) (k l : Int) :
    (∀ col row : Nat, (w.shift k l).field.cell ((col + k) % 16).toNat ((row + l) % 16).toNat =
      w.field.cell col row) ∧
    (∀ (s : RideState) (c : Control),
      (w.shift k l).step (s.shift k l) c = ((w.step s c).1.shift k l, (w.step s c).2)) ∧
    ∀ (s : RideState) (cs : Nat → Control) (n : Nat),
      (w.shift k l).stateAfter (s.shift k l) cs n = (w.stateAfter s cs n).shift k l ∧
        (w.shift k l).resultAt (s.shift k l) cs n = w.resultAt s cs n := by
  refine ⟨?_, fun s c => w.step_shift s k l c, ?_⟩
  · intro col row
    apply Field.cell_shift <;> omega
  · intro s cs n
    have hstate := w.stateAfter_shift s k l cs n
    refine ⟨hstate, ?_⟩
    rw [resultAt, hstate, step_shift, resultAt]

end RideProof
