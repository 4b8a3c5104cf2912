/-!
# Controls

What a rider asks for on one tick: a throttle position (`Accel`) and a rotation of the frame
(`Rotation`). Both have a code, which log records pack; `ofCode` reads any number as a code.
-/

namespace RideProof

/-- The throttle and brake. -/
inductive Accel
  /-- Neither throttle nor brake. -/
  | idle
  /-- Drive the left wheel leftward. -/
  | gasLeft
  /-- Drive the right wheel rightward. -/
  | gasRight
  /-- Brake both wheels against the frame. -/
  | brake
  deriving DecidableEq, Repr, Inhabited

/-- A requested rotation of the frame. -/
inductive Rotation
  /-- No rotation. -/
  | none
  /-- Clockwise. -/
  | cw
  /-- Counter-clockwise. -/
  | ccw
  deriving DecidableEq, Repr, Inhabited

/-- The code of a throttle position. -/
def Accel.code : Accel → Nat
  | .idle => 0
  | .gasLeft => 1
  | .gasRight => 2
  | .brake => 3

/-- The throttle position with a code, modulo four. -/
def Accel.ofCode (code : Nat) : Accel :=
  match code % 4 with
  | 1 => .gasLeft
  | 2 => .gasRight
  | 3 => .brake
  | _ => .idle

/-- The code of a rotation. -/
def Rotation.code : Rotation → Nat
  | .none => 0
  | .cw => 1
  | .ccw => 2

/-- The rotation with a code, modulo three. -/
def Rotation.ofCode (code : Nat) : Rotation :=
  match code % 3 with
  | 1 => .cw
  | 2 => .ccw
  | _ => .none

/-- The control of one tick. -/
structure Control where
  /-- The throttle position. -/
  accel : Accel
  /-- The rotation requested. -/
  rotation : Rotation
  deriving DecidableEq, Repr, Inhabited

/-- Reading the code of a throttle position gives it back. -/
@[simp] theorem Accel.ofCode_code (a : Accel) : Accel.ofCode a.code = a := by cases a <;> rfl

/-- Reading the code of a rotation gives it back. -/
@[simp] theorem Rotation.ofCode_code (r : Rotation) : Rotation.ofCode r.code = r := by
  cases r <;> rfl

/-- Reading a throttle code looks at its remainder modulo four only. -/
theorem Accel.code_ofCode (n : Nat) : (Accel.ofCode n).code = n % 4 := by
  have h : n % 4 < 4 := Nat.mod_lt _ (by decide)
  rcases h4 : n % 4 with _ | _ | _ | _ | k <;> simp_all [Accel.ofCode, Accel.code]
  omega

/-- Reading a rotation code looks at its remainder modulo three only. -/
theorem Rotation.code_ofCode (n : Nat) : (Rotation.ofCode n).code = n % 3 := by
  have h : n % 3 < 3 := Nat.mod_lt _ (by decide)
  rcases h3 : n % 3 with _ | _ | _ | k <;> simp_all [Rotation.ofCode, Rotation.code]
  omega

end RideProof
