import RideProof.Plane

/-!
# The ground field

The map is a torus of 16 by 16 cells. A `Field` keeps one gradient, a pair of signed bytes, for
each corner of the lattice; the ground is where the height blended from them is at `groundLevel`.

* `Field.cell`, `Field.setCell` — read and write one gradient; coordinates wrap.
* `Field.flattenFirstRow` — the first row upright, the same for every course.
* `Field.ofBytes`, `Field.toBytes` — the 512 bytes of a field: gradient `(col, row)` at byte
  `(16 * col + row) * 2`, horizontal part first.
-/

namespace RideProof

/-- A gradient of the lattice. -/
abbrev Gradient := Pair Int8

/-- The cells along one side of the map. -/
def mapSize : Nat := 16

/-- The ground field: one gradient for each of 256 lattice corners, column by column. -/
structure Field where
  /-- The gradients; column `c` holds the sixteen from `16 * c` on. -/
  gradients : Vector Gradient 256
  deriving DecidableEq, Repr

namespace Field

/-- Two fields with equal gradients are equal. -/
@[ext] theorem ext {f g : Field} (h : f.gradients = g.gradients) : f = g := by
  cases f
  cases g
  simp_all

/-- The place of a lattice corner; both coordinates wrap. -/
def index (col row : Nat) : Fin 256 := ⟨col % 16 * 16 + row % 16, by omega⟩

/-- The field with a given gradient at each corner. -/
def ofFn (g : Nat → Nat → Gradient) : Field :=
  ⟨Vector.ofFn fun i => g (i.val / 16) (i.val % 16)⟩

/-- The field without any slope. -/
def zero : Field := ofFn fun _ _ => ⟨0, 0⟩

/-- The gradient at a corner. -/
def cell (f : Field) (col row : Nat) : Gradient := f.gradients[index col row]

/-- The field with another gradient at one corner. -/
def setCell (f : Field) (col row : Nat) (g : Gradient) : Field :=
  ⟨f.gradients.set (index col row).val g (index col row).isLt⟩

/-- The upright gradient. -/
def upright : Gradient := ⟨0, 127⟩

/-- The field with the first row of every column upright. -/
def flattenFirstRow (f : Field) : Field :=
  ofFn fun col row => if row = 0 then upright else f.cell col row

/-- The field that 512 bytes describe. -/
def ofBytes (bytes : Vector UInt8 512) : Field :=
  ⟨Vector.ofFn fun i => ⟨bytes[2 * i.val].toInt8, bytes[2 * i.val + 1].toInt8⟩⟩

/-- The 512 bytes of a field. -/
def toBytes (f : Field) : Vector UInt8 512 :=
  Vector.ofFn fun k =>
    let g := f.gradients[k.val / 2]
    if k.val % 2 = 0 then g.x.toUInt8 else g.y.toUInt8

/-- The corner `(col, row)` of `ofFn g` is `g col row`, the coordinates taken modulo 16. -/
@[simp] theorem cell_ofFn (g : Nat → Nat → Gradient) (col row : Nat) :
    (ofFn g).cell col row = g (col % 16) (row % 16) := by
  have hdiv : (col % 16 * 16 + row % 16) / 16 = col % 16 := by omega
  have hmod : (col % 16 * 16 + row % 16) % 16 = row % 16 := by omega
  simp [cell, ofFn, index, hdiv, hmod]

/-- The coordinates of a corner wrap. -/
@[simp] theorem cell_mod (f : Field) (col row : Nat) :
    f.cell (col % 16) (row % 16) = f.cell col row := by
  simp [cell, index]

end Field

end RideProof
