import RideProof.Proofs.MachineTables

/-!
# The ground on a machine

The sampling of the ground, operation by operation as a machine does it: every narrowing is a cast,
and every sum that is not said to wrap is checked. A machine of either kind gets the sample of the
library, for every field and every position, and never reads a corner outside the lattice.

* `Word.cellIndex_ofInt32`, `Word.shows_cellOffset`, `Shows.cellFraction` — the cell of a position.
* `Word.planeHeights_eq`, `Word.blendHeight_map`, `Word.slopeComponent_blendSlope` — the blend.
* `Machine.sample_eq`, `Machine.groundDistance_eq` — the sample at a position, and the distance to
  the ground.
-/

namespace RideProof

namespace Word

variable {m : Machine}

/-! ## The cell of a position -/

/-- A coordinate in units of which the low 32 bits lie inside a cell. -/
def cellPosition (p : Word m .i32) : Word m .u64 := (p.cast .u32).cast .u64 * of mapSize

/-- The column or row of the cell. -/
def cellIndex (x : Word m .u64) : Word m .u64 := x >>> 32

/-- The next column or row, around the torus. -/
def nextIndex (i : Word m .u64) : Word m .u64 := (i + of 1) % of mapSize

/-- How far into the cell the position lies, of `cellSpan`. -/
def cellOffset (x : Word m .u64) : Word m .i32 := (x.mask 0xFFFFFFFF >>> 10).cast .i32

/-- How far into the cell the position lies, as a weight. -/
def cellFraction (x : Word m .i32) : Word m .u16 := (x >>> 6).cast .u16

/-- A coordinate in the finer units does not leave its word. -/
theorem cellPosition_ofInt32 (p : Int32) :
    (ofInt32 p : Word m .i32).cellPosition = of (p.toUInt32.toNat * 16 : Nat) := by
  have hlt := p.toUInt32.toNat_lt
  rw [cellPosition, cast_u32_ofInt32, ofUInt32, cast_of,
    WordKind.wrap_of_fits (WordKind.fits_u64.mpr (by omega)), show (mapSize : Int) = 16 from rfl,
    mul_of (WordKind.fits_u64.mpr (by omega))]
  rfl

/-- The column or row of a coordinate is its top bits. -/
theorem cellIndex_ofInt32 (p : Int32) :
    (ofInt32 p : Word m .i32).cellPosition.cellIndex =
      of (p.toUInt32.toNat / 268435456 : Nat) := by
  have hdiv : ((p.toUInt32.toNat * 16 : Nat) : Int) / (4294967296 : Nat) =
      (p.toUInt32.toNat / 268435456 : Nat) := by omega
  have hshift : (of (p.toUInt32.toNat * 16 : Nat) : Word m .u64) >>> 32 =
      of (p.toUInt32.toNat / 268435456 : Nat) :=
    ((Shows.ofNat (Nat.le_refl _)).shiftRight (by decide) rfl |>.congr hdiv).eq
  rw [cellPosition_ofInt32, cellIndex, hshift]

/-- From every column or row a machine gets to the next. -/
theorem nextIndex_of {i : Nat} (h : i < mapSize) :
    (of i : Word m .u64).nextIndex = of ((i + 1) % mapSize : Nat) := by
  have hsize : mapSize = 16 := rfl
  have hquot : WordKind.u64.Fits ((i + 1) / mapSize : Nat) := by
    have hle := Nat.div_le_self (i + 1) mapSize
    generalize (i + 1) / mapSize = q at hle ⊢
    exact WordKind.fits_u64.mpr (by omega)
  rw [nextIndex, add_of (WordKind.fits_u64.mpr (by omega)),
    show (i : Int) + 1 = (i + 1 : Nat) from rfl, mod_of (by decide) hquot]

/-- The offset inside a cell is known, and no greater than the cell. -/
theorem shows_cellOffset (p : Int32) :
    (ofInt32 p : Word m .i32).cellPosition.cellOffset.Shows
      (p.toUInt32.toNat % 268435456 / 64 : Nat) 4194304 := by
  have hmask : p.toUInt32.toNat * 16 &&& 0xFFFFFFFF = p.toUInt32.toNat * 16 % 4294967296 :=
    Nat.and_two_pow_sub_one_eq_mod _ 32
  have hdiv : ((p.toUInt32.toNat * 16 % 4294967296 : Nat) : Int) / (1024 : Nat) =
      (p.toUInt32.toNat % 268435456 / 64 : Nat) := by omega
  have hshift : (of (p.toUInt32.toNat * 16 % 4294967296 : Nat) : Word m .u64) >>> 10 =
      of (p.toUInt32.toNat % 268435456 / 64 : Nat) :=
    ((Shows.ofNat (Nat.le_refl _)).shiftRight (by decide) rfl |>.congr hdiv).eq
  rw [cellOffset, cellPosition_ofInt32, mask, bind_of, Int.toNat_natCast, hmask, hshift]
  exact (Shows.ofNat (by omega)).widen (by decide)

/-- The weight of an offset is the offset without its low six bits. -/
theorem Shows.cellFraction {a : Word m .i32} {n A : Nat} (ha : a.Shows n A) :
    a.cellFraction = ofUInt16 (.ofNat (n / 64)) :=
  (ha.shiftRight (by decide) rfl |>.congr (Int.natCast_ediv n 64).symm).cast_u16

end Word

/-! ## Heights and slopes -/

/-- What a function makes of what each corner has. -/
def Corners.map {α β : Type} (h : α → β) (g : Corners α) : Corners β where
  c00 := h g.c00
  c01 := h g.c01
  c10 := h g.c10
  c11 := h g.c11

namespace Word

variable {m : Machine}

/-- The height at an offset from a corner. -/
def planeHeight (g : Gradient) (dx dy : Word m .i32) : Word m .i16 :=
  ((ofInt8 g.x * dx + ofInt8 g.y * dy) >>> 16).cast .i16

/-- The heights that the planes of the four corners have at an offset from the first. -/
def planeHeights (g : Corners Gradient) (x y : Word m .i32) : Corners (Word m .i16) where
  c00 := planeHeight g.c00 x y
  c01 := planeHeight g.c01 x (y - of cellSpan)
  c10 := planeHeight g.c10 (x - of cellSpan) y
  c11 := planeHeight g.c11 (x - of cellSpan) (y - of cellSpan)

/-- The mixed difference of four heights. -/
def mixedDifference (q : Corners (Word m .i16)) : Word m .i16 :=
  (q.c00.cast .i32 - q.c01.cast .i32 - q.c10.cast .i32 + q.c11.cast .i32 : Word m .i32).cast .i16

/-- The rise of the blend from the row of the corner to the row above. -/
def riseY (q : Corners (Word m .i16)) (sx : Word m .u16) : Word m .i16 :=
  (q.c01.wrappingSub q.c00).wrappingAdd ((mixedDifference q).weigh sx)

/-- The rise of the blend from the column of the corner to the next. -/
def riseX (q : Corners (Word m .i16)) (sy : Word m .u16) : Word m .i16 :=
  (q.c10.wrappingSub q.c00).wrappingAdd ((mixedDifference q).weigh sy)

/-- The height blended from four plane heights. -/
def blendHeight (q : Corners (Word m .i16)) (sx sy : Word m .u16) : Word m .i16 :=
  (q.c00.cast .i32 + ((q.c10.wrappingSub q.c00).weigh sx).cast .i32 +
    ((riseY q sx).weigh sy).cast .i32 : Word m .i32).cast .i16

/-- One coordinate of the four corner gradients, blended. -/
def blendSlope (g : Corners (Word m .i32)) (sx sy sxy : Word m .u16) : Word m .i32 :=
  g.c00 + (((g.c10 - g.c00).cast .i16).weigh sx).cast .i32 +
    (((g.c01 - g.c00).cast .i16).weigh sy).cast .i32 +
    (((g.c00 - g.c01 - g.c10 + g.c11).cast .i16).weigh sxy).cast .i32

/-- The gradient's component, made odd. -/
def slopeComponent (blend : Word m .i32) (rise : Word m .i16) (slope : Word m .u16) :
    Option Int16 :=
  (blend <<< 5 + (rise.weigh slope).cast .i32).cast .i16 |>.toInt16? |>.map (· ||| 1)

variable (q : Corners Int16) (sx sy sxy slope : UInt16)

/-- On the plane of a corner no height gets out of its word on the way. -/
theorem Shows.planeHeight (g : Gradient) {dx dy : Word m .i32} {x y : Int}
    (hx : dx.Shows x 4194304) (hy : dy.Shows y 4194304) :
    planeHeight g dx dy = ofInt16 (RideProof.planeHeight g x y) := by
  have hsum := ((shows_ofInt8 g.x).mul hx (by decide)).add ((shows_ofInt8 g.y).mul hy (by decide))
    (by decide)
  exact (hsum.shiftRight (by decide) rfl).cast_i16

/-- The far corners are no further away than the near ones can be. -/
theorem Shows.sub_cellSpan {a : Word m .i32} {n : Nat} (ha : a.Shows n 4194304) :
    (a - Word.of cellSpan).Shows (n - cellSpan) 4194304 := by
  have hspan : (Word.of cellSpan : Word m .i32).Shows cellSpan 4194304 := .of (by decide)
  have hle := ha.le
  have hcell : cellSpan = 4194304 := rfl
  exact ⟨(ha.sub hspan (by decide)).eq, by omega⟩

/-- A machine gets the heights of the planes inside a cell. -/
theorem planeHeights_eq (g : Corners Gradient) (l : Locus) {x y : Word m .i32}
    (hx : x.Shows l.x 4194304) (hy : y.Shows l.y 4194304) :
    planeHeights g x y = (RideProof.planeHeights g l).map ofInt16 := by
  rw [planeHeights, hx.planeHeight _ hy, hx.planeHeight _ hy.sub_cellSpan,
    hx.sub_cellSpan.planeHeight _ hy, hx.sub_cellSpan.planeHeight _ hy.sub_cellSpan]
  rfl

/-- A machine gets the mixed difference. -/
theorem mixedDifference_map :
    mixedDifference (q.map ofInt16 : Corners (Word m .i16)) =
      ofInt16 (RideProof.mixedDifference q) := by
  have hdiff := (shows_cast_ofInt16 (m := m) q.c00).sub (shows_cast_ofInt16 q.c01) (by decide)
  have hmixed := (hdiff.sub (shows_cast_ofInt16 q.c10) (by decide)).add (shows_cast_ofInt16 q.c11)
    (by decide)
  exact hmixed.cast_i16

/-- A machine gets the rise of the blend along the columns. -/
theorem riseY_map :
    riseY (q.map ofInt16 : Corners (Word m .i16)) (ofUInt16 sx) =
      ofInt16 (RideProof.riseY q sx) := by
  rw [riseY, mixedDifference_map, weigh_ofInt16]
  simp only [Corners.map, wrappingSub_ofInt16, wrappingAdd_ofInt16, RideProof.riseY]

/-- A machine gets the rise of the blend along the rows. -/
theorem riseX_map :
    riseX (q.map ofInt16 : Corners (Word m .i16)) (ofUInt16 sy) =
      ofInt16 (RideProof.riseX q sy) := by
  rw [riseX, mixedDifference_map, weigh_ofInt16]
  simp only [Corners.map, wrappingSub_ofInt16, wrappingAdd_ofInt16, RideProof.riseX]

/-- A machine gets the blended height. -/
theorem blendHeight_map :
    blendHeight (q.map ofInt16 : Corners (Word m .i16)) (ofUInt16 sx) (ofUInt16 sy) =
      ofInt16 (RideProof.blendHeight q sx sy) := by
  rw [blendHeight, riseY_map, weigh_ofInt16]
  simp only [Corners.map, wrappingSub_ofInt16, weigh_ofInt16]
  exact (((shows_cast_ofInt16 _).add (shows_cast_ofInt16 _) (by decide)).add
    (shows_cast_ofInt16 _) (by decide)).cast_i16

/-- A blended slope is a gradient's component with three products of 16 bits. -/
theorem shows_blendSlope (g : Corners Int8) :
    (blendSlope (g.map ofInt8 : Corners (Word m .i32)) (ofUInt16 sx) (ofUInt16 sy)
      (ofUInt16 sxy)).Shows (RideProof.blendSlope (g.map Int8.toInt) sx sy sxy) 98432 := by
  have h00 := shows_ofInt8 (m := m) g.c00
  have h01 := shows_ofInt8 (m := m) g.c01
  have h10 := shows_ofInt8 (m := m) g.c10
  have h11 := shows_ofInt8 (m := m) g.c11
  have hcol := (h10.sub h00 (by decide)).cast_i16
  have hrow := (h01.sub h00 (by decide)).cast_i16
  have hmixed := (((h00.sub h01 (by decide)).sub h10 (by decide)).add h11 (by decide)).cast_i16
  simp only [blendSlope, Corners.map, hcol, hrow, hmixed, weigh_ofInt16]
  exact ((h00.add (shows_cast_ofInt16 _) (by decide)).add (shows_cast_ofInt16 _) (by decide)).add
    (shows_cast_ofInt16 _) (by decide)

/-- A machine gets a component of the gradient. -/
theorem slopeComponent_blendSlope (g : Corners Int8) (rise : Int16) :
    slopeComponent (blendSlope (g.map ofInt8 : Corners (Word m .i32)) (ofUInt16 sx) (ofUInt16 sy)
      (ofUInt16 sxy)) (ofInt16 rise) (ofUInt16 slope) =
        some (RideProof.slopeComponent (RideProof.blendSlope (g.map Int8.toInt) sx sy sxy) rise
          slope) := by
  have hblend := (shows_blendSlope (m := m) sx sy sxy g).shiftLeft (n := 5) (d := 32) (by decide)
    rfl (by decide)
  have hsum := hblend.add (shows_cast_ofInt16 (RideProof.weigh rise slope)) (by decide)
  rw [slopeComponent, weigh_ofInt16, hsum.cast_i16, toInt16?_ofInt16, Int.mul_comm]
  rfl

end Word

/-! ## The sample at a position -/

/-- The gradient at a corner of the lattice, if there is such a corner. -/
def Machine.gradientAt (m : Machine) (f : Field) (col row : Word m .u64) : Option Gradient := do
  let i ← col.value?
  let j ← row.value?
  if i.toNat < mapSize ∧ j.toNat < mapSize then some (f.cell i.toNat j.toNat) else none

/-- The gradients at the corners of the cell of a position. -/
def Machine.corners (m : Machine) (f : Field) (x y : Word m .u64) : Option (Corners Gradient) := do
  let c00 ← m.gradientAt f x.cellIndex y.cellIndex
  let c01 ← m.gradientAt f x.cellIndex y.cellIndex.nextIndex
  let c10 ← m.gradientAt f x.cellIndex.nextIndex y.cellIndex
  let c11 ← m.gradientAt f x.cellIndex.nextIndex y.cellIndex.nextIndex
  return ⟨c00, c01, c10, c11⟩

/-- The height and the gradient of the field at a position. -/
def Machine.sample (m : Machine) (f : Field) (p : Point) : Option Sample := do
  let col : Word m .u64 := (Word.ofInt32 p.x).cellPosition
  let row : Word m .u64 := (Word.ofInt32 p.y).cellPosition
  let g ← m.corners f col row
  let x := col.cellOffset
  let y := row.cellOffset
  let sx := x.cellFraction.smooth
  let sy := y.cellFraction.smooth
  let sxy := sx.weightMul sy
  let q := Word.planeHeights g x y
  let height ← (Word.blendHeight q sx sy).toInt16?
  let gx ← Word.slopeComponent (Word.blendSlope ((g.map Pair.x).map .ofInt8) sx sy sxy)
    (Word.riseX q sy) x.cellFraction.smoothSlope
  let gy ← Word.slopeComponent (Word.blendSlope ((g.map Pair.y).map .ofInt8) sx sy sxy)
    (Word.riseY q sx) y.cellFraction.smoothSlope
  return { height := height, gradient := ⟨gx, gy⟩ }

/-- The squared length of a gradient. -/
def Word.magnitudeSq {m : Machine} (g : Pair Int16) : Word m .i64 :=
  (ofInt16 g.x).cast .i64 * (ofInt16 g.x).cast .i64 +
    (ofInt16 g.y).cast .i64 * (ofInt16 g.y).cast .i64

/-- The distance to the ground that a sample shows. -/
def Machine.sampleDistance (m : Machine) (s : Sample) : Option Int32 :=
  if groundLevel < s.height.toInt then some 0
  else
    let drop : Word m .i32 := .of groundLevel - (Word.ofInt16 s.height).cast .i32
    let inverse : Word m .i64 := (Word.magnitudeSq s.gradient).inverseLength
    ((drop.cast .i64 * .of heightScale * inverse) >>> 15).cast .i32 |>.toInt32?

/-- The distance from a position to the ground. -/
def Machine.groundDistance (m : Machine) (f : Field) (p : Point) : Option Int32 := do
  m.sampleDistance (← m.sample f p)

section agreement

variable (m : Machine) (f : Field) (p : Point) (s : Sample)

/-- The columns of the field are those of a torus. -/
theorem Field.cell_mod_col (col row : Nat) : f.cell (col % mapSize) row = f.cell col row := by
  simp [cell, index, mapSize]

/-- The rows of the field are those of a torus. -/
theorem Field.cell_mod_row (col row : Nat) : f.cell col (row % mapSize) = f.cell col row := by
  simp [cell, index, mapSize]

/-- Inside the lattice a machine finds the gradient. -/
theorem Machine.gradientAt_of {i j : Nat} (hi : i < mapSize) (hj : j < mapSize) :
    m.gradientAt f (.of i) (.of j) = some (f.cell i j) := if_pos ⟨hi, hj⟩

/-- No index leaves the lattice. -/
theorem Machine.corners_eq :
    m.corners f (Word.ofInt32 p.x).cellPosition (Word.ofInt32 p.y).cellPosition =
      some (f.corners (Locus.of p)) := by
  have hx := p.x.toUInt32.toNat_lt
  have hy := p.y.toUInt32.toNat_lt
  have hcol : p.x.toUInt32.toNat / 268435456 < mapSize := by
    show _ < 16
    omega
  have hrow : p.y.toUInt32.toNat / 268435456 < mapSize := by
    show _ < 16
    omega
  have hnext (n : Nat) : (n + 1) % mapSize < mapSize := Nat.mod_lt _ (by decide)
  rw [corners, Word.cellIndex_ofInt32, Word.cellIndex_ofInt32, Word.nextIndex_of hcol,
    Word.nextIndex_of hrow, m.gradientAt_of f hcol hrow, m.gradientAt_of f hcol (hnext _),
    m.gradientAt_of f (hnext _) hrow, m.gradientAt_of f (hnext _) (hnext _)]
  simp only [f.cell_mod_col, f.cell_mod_row]
  rfl

/-- A machine of either kind samples the ground without a fault. -/
theorem Machine.sample_eq : m.sample f p = some (f.sample p) := by
  have hx : (Word.ofInt32 p.x : Word m .i32).cellPosition.cellOffset.Shows (Locus.of p).x 4194304 :=
    Word.shows_cellOffset p.x
  have hy : (Word.ofInt32 p.y : Word m .i32).cellPosition.cellOffset.Shows (Locus.of p).y 4194304 :=
    Word.shows_cellOffset p.y
  have hfracX : (Word.ofInt32 p.x : Word m .i32).cellPosition.cellOffset.cellFraction =
      Word.ofUInt16 (Locus.of p).fracX := hx.cellFraction
  have hfracY : (Word.ofInt32 p.y : Word m .i32).cellPosition.cellOffset.cellFraction =
      Word.ofUInt16 (Locus.of p).fracY := hy.cellFraction
  simp only [sample, m.corners_eq f p, Option.bind_eq_bind, Option.bind_some, hfracX, hfracY,
    Word.smooth_ofUInt16, Word.smoothSlope_ofUInt16, Word.weightMul_ofUInt16,
    Word.planeHeights_eq _ _ hx hy, Word.blendHeight_map, Word.riseX_map, Word.riseY_map,
    Word.toInt16?_ofInt16, Word.slopeComponent_blendSlope]
  rfl

/-- The squared length of a gradient of two 16-bit words. -/
theorem Word.shows_magnitudeSq (g : Pair Int16) :
    (magnitudeSq g : Word m .i64).Shows (RideProof.magnitudeSq g) 2147483648 := by
  have hwide (a : Int16) : ((ofInt16 a : Word m .i16).cast .i64).Shows a.toInt 32768 :=
    (shows_ofInt16 a).widen (by decide)
  have hsquare (a : Int16) := (hwide a).mul (hwide a) (by decide)
  exact (hsquare g.x).add (hsquare g.y) (by decide)

/-- A machine of either kind gets the distance that a sample shows. -/
theorem Machine.sampleDistance_eq : m.sampleDistance s = some s.groundDistance := by
  unfold sampleDistance Sample.groundDistance
  split
  · rfl
  · have hlevel : (Word.of groundLevel : Word m .i32).Shows groundLevel 650 := .of (by decide)
    have hscale : (Word.of heightScale : Word m .i64).Shows heightScale 5 := .of (by decide)
    have hinverse := Word.shows_inverseLength (m := m) (RideProof.magnitudeSq s.gradient)
    have hdrop := hlevel.sub (Word.shows_cast_ofInt16 s.height) (by decide)
    have hdist := ((hdrop.widen (by decide)).mul hscale (by decide)).mul hinverse (by decide)
    have hshift := hdist.shiftRight (n := 15) (by decide) rfl
    dsimp only
    rw [(Word.shows_magnitudeSq m s.gradient).eq, hshift.cast_i32, Word.toInt32?_ofInt32]
    rfl

/-- A machine of either kind gets the distance to the ground. -/
theorem Machine.groundDistance_eq : m.groundDistance f p = some (f.groundDistance p) := by
  unfold groundDistance
  rw [m.sample_eq f p]
  exact m.sampleDistance_eq _

end agreement

end RideProof
