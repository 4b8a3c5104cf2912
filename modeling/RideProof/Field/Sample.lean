import RideProof.Field
import RideProof.FixedPoint
import RideProof.Root
import RideProof.Smoothstep

/-!
# Heights and slopes of the ground

At a position of the map the field has a height, blended from the four corners of its cell, and a
gradient from the same blend.

* `Locus.of` — the cell of a position and the position inside the cell, in 22 bits.
* `Field.height`, `Field.sample` — the height alone, and the height with the gradient.
* `Field.groundDistance` — how far the ground is, and 0 inside it.
* `Field.sampleFraction` — the sample at a lattice coordinate with 16 fractional bits.
-/

namespace RideProof

/-- A height of the ground field above this is inside the ground. -/
def groundLevel : Int := 650

/-- How many length units a unit of height is. -/
def heightScale : Int := 5

/-- The extent of a cell in the units of a position inside it. -/
def cellSpan : Int := 4194304

/-- Where a position lies on the lattice. -/
structure Locus where
  /-- The column of its cell. -/
  col : Nat
  /-- The row of its cell. -/
  row : Nat
  /-- How far it lies to the right of the cell's corner, of `cellSpan`. -/
  x : Nat
  /-- How far it lies above the cell's corner, of `cellSpan`. -/
  y : Nat

/-- The cell of a position, from the top four bits of each coordinate, and the place inside it, from
the next 22. -/
def Locus.of (p : Point) : Locus where
  col := p.x.toUInt32.toNat / 268435456
  row := p.y.toUInt32.toNat / 268435456
  x := p.x.toUInt32.toNat % 268435456 / 64
  y := p.y.toUInt32.toNat % 268435456 / 64

/-- The fraction of the cell to the left of a position, as a weight. -/
def Locus.fracX (l : Locus) : UInt16 := UInt16.ofNat (l.x / 64)

/-- The fraction of the cell below a position, as a weight. -/
def Locus.fracY (l : Locus) : UInt16 := UInt16.ofNat (l.y / 64)

/-- Something that each corner of a cell has. -/
structure Corners (α : Type) where
  /-- At the cell's own corner. -/
  c00 : α
  /-- One row up. -/
  c01 : α
  /-- One column to the right. -/
  c10 : α
  /-- One row up and one column to the right. -/
  c11 : α

/-- The gradients at the corners of a cell. -/
def Field.corners (f : Field) (l : Locus) : Corners Gradient where
  c00 := f.cell l.col l.row
  c01 := f.cell l.col (l.row + 1)
  c10 := f.cell (l.col + 1) l.row
  c11 := f.cell (l.col + 1) (l.row + 1)

/-- The height at an offset from a corner, along the plane of its gradient. -/
def planeHeight (g : Gradient) (dx dy : Int) : Int16 :=
  Int16.ofInt ((g.x.toInt * dx + g.y.toInt * dy) / 65536)

/-- The heights that the planes of the four corners have at a position. -/
def planeHeights (g : Corners Gradient) (l : Locus) : Corners Int16 where
  c00 := planeHeight g.c00 l.x l.y
  c01 := planeHeight g.c01 l.x (l.y - cellSpan)
  c10 := planeHeight g.c10 (l.x - cellSpan) l.y
  c11 := planeHeight g.c11 (l.x - cellSpan) (l.y - cellSpan)

/-- The mixed difference of four heights. -/
def mixedDifference (q : Corners Int16) : Int16 :=
  Int16.ofInt (q.c00.toInt - q.c01.toInt - q.c10.toInt + q.c11.toInt)

/-- The rise of the blend from the row of the corner to the row above, at weight `sx` along it. -/
def riseY (q : Corners Int16) (sx : UInt16) : Int16 :=
  (q.c01 - q.c00) + weigh (mixedDifference q) sx

/-- The rise of the blend from the column of the corner to the next, at weight `sy` along it. -/
def riseX (q : Corners Int16) (sy : UInt16) : Int16 :=
  (q.c10 - q.c00) + weigh (mixedDifference q) sy

/-- The height blended from four plane heights, with weight `sx` for the columns and `sy` for the
rows. -/
def blendHeight (q : Corners Int16) (sx sy : UInt16) : Int16 :=
  Int16.ofInt (q.c00.toInt + (weigh (q.c10 - q.c00) sx).toInt + (weigh (riseY q sx) sy).toInt)

/-- One coordinate of the four corner gradients, blended with weight `sx` for the columns, `sy` for
the rows and `sxy` for both. -/
def blendSlope (g : Corners Int) (sx sy sxy : UInt16) : Int :=
  g.c00 + (weigh (Int16.ofInt (g.c10 - g.c00)) sx).toInt +
    (weigh (Int16.ofInt (g.c01 - g.c00)) sy).toInt +
    (weigh (Int16.ofInt (g.c00 - g.c01 - g.c10 + g.c11)) sxy).toInt

/-- The gradient's component from the blend of the corner gradients and from the rise of the blend
under the moving weight. It is odd, so never zero. -/
def slopeComponent (blend : Int) (rise : Int16) (slope : UInt16) : Int16 :=
  Int16.ofInt (32 * blend + (weigh rise slope).toInt) ||| 1

/-- The ground at one position. -/
structure Sample where
  /-- The height of the field. -/
  height : Int16
  /-- The gradient of the field, both components odd. -/
  gradient : Pair Int16
  deriving DecidableEq, Repr

/-- The height of the field at a position. -/
def Field.height (f : Field) (p : Point) : Int16 :=
  let l := Locus.of p
  blendHeight (planeHeights (f.corners l) l) (smooth l.fracX) (smooth l.fracY)

/-- The height and the gradient of the field at a position. -/
def Field.sample (f : Field) (p : Point) : Sample :=
  let l := Locus.of p
  let g := f.corners l
  let q := planeHeights g l
  let sx := smooth l.fracX
  let sy := smooth l.fracY
  let sxy := weightMul sx sy
  let gx : Corners Int := ⟨g.c00.x.toInt, g.c01.x.toInt, g.c10.x.toInt, g.c11.x.toInt⟩
  let gy : Corners Int := ⟨g.c00.y.toInt, g.c01.y.toInt, g.c10.y.toInt, g.c11.y.toInt⟩
  { height := blendHeight q sx sy
    gradient :=
      ⟨slopeComponent (blendSlope gx sx sy sxy) (riseX q sy) (smoothSlope l.fracX),
        slopeComponent (blendSlope gy sx sy sxy) (riseY q sx) (smoothSlope l.fracY)⟩ }

/-- The height of a sample is the height of the field. -/
@[simp] theorem Field.height_sample (f : Field) (p : Point) : (f.sample p).height = f.height p :=
  rfl

/-- The squared length of a gradient. -/
def magnitudeSq (g : Pair Int16) : Int := g.x.toInt * g.x.toInt + g.y.toInt * g.y.toInt

/-- The distance to the ground that a sample shows, in 65536ths of a length unit. -/
def Sample.groundDistance (s : Sample) : Int32 :=
  if groundLevel < s.height.toInt then 0
  else
    Int32.ofInt
      ((groundLevel - s.height.toInt) * heightScale * inverseLength (magnitudeSq s.gradient) /
        32768)

/-- The distance from a position to the ground, 0 inside the ground. -/
def Field.groundDistance (f : Field) (p : Point) : Int32 := (f.sample p).groundDistance

/-- The sample at a lattice coordinate whose low 16 bits are a fraction of a cell. -/
def Field.sampleFraction (f : Field) (col row : UInt32) : Sample :=
  f.sample ⟨(col <<< 12).toInt32, (row <<< 12).toInt32⟩

end RideProof
