import RideProof.Proofs.Blending

/-!
# Sampling loses nothing

The ground is sampled with words of 16 bits for heights, rises and slopes: sums are narrowed to
them and differences wrap. For every field and every position none of these words ever loses a bit,
so that each is the number that the same formula gives over the integers (`Exact`), and the height
is the blend of the four planes up to its roundings.

* `toInt_weigh` — no product with a weight is out of its word.
* `Field.SampledExactly` — what each narrowing and each wrapping operation keeps.
* `Machine.height` — the height alone, on a machine that stops where a sum of 32 bits overflows.
* `Field.sample_exact` — all of it, with the bounds on the height.
-/

namespace RideProof

/-! ## Words -/

/-- A number that is small enough is a signed word of 16 bits. -/
theorem toInt_ofInt_of_abs_le {v : Int} (h : |v| ≤ 32767) : (Int16.ofInt v).toInt = v := by
  rw [abs_le] at h
  exact Int16.toInt_ofInt_of_le (by norm_num; omega) (by norm_num; omega)

/-- A number that is small enough is a signed word of 32 bits. -/
theorem toInt32_ofInt_of_abs_le {v : Int} (h : |v| ≤ 2147483647) : (Int32.ofInt v).toInt = v := by
  rw [abs_le] at h
  exact Int32.toInt_ofInt_of_le (by norm_num; omega) (by norm_num; omega)

/-- A difference of words that is small enough does not wrap. -/
theorem toInt_sub_of_abs_le {a b : Int16} (h : |a.toInt - b.toInt| ≤ 32767) :
    (a - b).toInt = a.toInt - b.toInt := by
  rw [← toInt_ofInt_of_abs_le h, Int16.ofInt_sub, Int16.ofInt_toInt, Int16.ofInt_toInt]

/-- A sum of words that is small enough does not wrap. -/
theorem toInt_add_of_abs_le {a b : Int16} (h : |a.toInt + b.toInt| ≤ 32767) :
    (a + b).toInt = a.toInt + b.toInt := by
  rw [← toInt_ofInt_of_abs_le h, Int16.ofInt_add, Int16.ofInt_toInt, Int16.ofInt_toInt]

/-- A word times a weight is a word. -/
theorem toInt_weigh (a : Int16) (w : UInt16) : (weigh a w).toInt = Exact.weigh a.toInt w := by
  have hlt := w.toNat_lt
  have hlow := mul_le_mul_of_nonneg_right a.le_toInt (show (0 : Int) ≤ w.toNat by omega)
  have hhigh := mul_le_mul_of_nonneg_right (Int.le_sub_one_of_lt a.toInt_lt)
    (show (0 : Int) ≤ w.toNat by omega)
  unfold weigh Exact.weigh
  refine Int16.toInt_ofInt_of_le ?_ ?_ <;> norm_num at hlow hhigh ⊢ <;> omega

/-- A sum with a weighted word, by its parts. -/
theorem toInt_add_weigh {a b : Int16} {c d : Int} {w : UInt16} (ha : a.toInt = c)
    (hb : b.toInt = d) (h : |c + Exact.weigh d w| ≤ 32767) :
    (a + weigh b w).toInt = c + Exact.weigh d w := by
  have hsum : a.toInt + (weigh b w).toInt = c + Exact.weigh d w := by rw [ha, toInt_weigh, hb]
  rw [← hsum] at h ⊢
  exact toInt_add_of_abs_le h

/-- Setting the lowest bit of a number makes it odd. -/
theorem or_one_eq (n : Nat) : n ||| 1 = n / 2 * 2 + 1 := by
  have hdiv : (n ||| 1) / 2 = n / 2 := by rw [Nat.or_div_two, Nat.or_zero]
  have hmod : (n ||| 1) % 2 = 1 := Nat.or_mod_two_eq_one.mpr (.inr rfl)
  omega

/-- Setting the lowest bit of a word makes it odd. -/
theorem toInt_or_one (a : Int16) : (a ||| 1).toInt = Exact.makeOdd a.toInt := by
  have hor : (a ||| 1).toInt = ((a.toBitVec.toNat ||| 1 : Nat) : Int).bmod 65536 :=
    BitVec.toInt_or a.toBitVec 1
  have ha : a.toInt = (a.toBitVec.toNat : Int).bmod 65536 := BitVec.toInt_eq_toNat_bmod a.toBitVec
  have hlt := a.toBitVec.isLt
  rw [hor, ha, or_one_eq, Int.bmod_def, Int.bmod_def, Exact.makeOdd]
  split_ifs <;> omega

/-! ## The formulas at a position -/

/-- The weight of the right corners. -/
def Locus.weightX (l : Locus) : UInt16 := smooth l.fracX

/-- The weight of the upper corners. -/
def Locus.weightY (l : Locus) : UInt16 := smooth l.fracY

/-- The position lies inside the cell. -/
structure Locus.Inside (l : Locus) : Prop where
  /-- To the left of the next column. -/
  x_lt : (l.x : Int) < cellSpan
  /-- Below the next row. -/
  y_lt : (l.y : Int) < cellSpan

/-- Every position lies inside its cell. -/
theorem Locus.inside_of (p : Point) : (Locus.of p).Inside := by
  have hspan : cellSpan = 4194304 := rfl
  constructor <;> simp only [Locus.of] <;> omega

/-- Inside a cell the fraction fits into its word. -/
theorem Locus.Inside.toNat_fracX {l : Locus} (h : l.Inside) : l.fracX.toNat = l.x / 64 := by
  have hspan : cellSpan = 4194304 := rfl
  have hx := h.x_lt
  rw [fracX, UInt16.toNat_ofNat']
  omega

/-- The place of the position in the mirrored cell. -/
def Locus.swap (l : Locus) : Locus where
  col := l.row
  row := l.col
  x := l.y
  y := l.x

/-- A position inside a cell is inside the mirrored cell. -/
theorem Locus.Inside.swap {l : Locus} (h : l.Inside) : l.swap.Inside := ⟨h.y_lt, h.x_lt⟩

/-- The heights of the planes of the four corners at a position. -/
def Field.planesAt (f : Field) (p : Point) : Corners Int16 :=
  planeHeights (f.corners (.of p)) (.of p)

namespace Exact

/-- The heights of the planes of the four corners at a position. -/
def planesAt (f : Field) (p : Point) : Corners Int :=
  planeHeights (f.corners (.of p)) (Locus.of p).x (Locus.of p).y

/-- The height of the field at a position. -/
def height (f : Field) (p : Point) : Int :=
  blendHeight (planesAt f p) (Locus.of p).weightX (Locus.of p).weightY

/-- The horizontal component of the gradient in a cell. -/
def slopeX (g : Corners Gradient) (l : Locus) : Int :=
  slopeComponent
    (blendSlope (g.map fun a => a.x.toInt) l.weightX l.weightY (weightMul l.weightX l.weightY))
    (riseX (planeHeights g l.x l.y) l.weightY) (smoothSlope l.fracX)

/-- The vertical component of the gradient in a cell. -/
def slopeY (g : Corners Gradient) (l : Locus) : Int :=
  slopeComponent
    (blendSlope (g.map fun a => a.y.toInt) l.weightX l.weightY (weightMul l.weightX l.weightY))
    (riseY (planeHeights g l.x l.y) l.weightX) (smoothSlope l.fracY)

/-- The gradient of the field at a position. -/
def gradient (f : Field) (p : Point) : Pair Int :=
  ⟨slopeX (f.corners (.of p)) (.of p), slopeY (f.corners (.of p)) (.of p)⟩

/-- The vertical component is the horizontal one of the mirrored cell. -/
theorem slopeX_mirror (g : Corners Gradient) (l : Locus) : slopeX g.mirror l.swap = slopeY g l := by
  have hmap : (g.mirror.map fun a => a.x.toInt) = (g.map fun a => a.y.toInt).transpose := rfl
  have hplanes : planeHeights g.mirror l.swap.x l.swap.y = (planeHeights g l.x l.y).transpose :=
    planeHeights_mirror g l.x l.y
  have hX : l.swap.weightX = l.weightY := rfl
  have hY : l.swap.weightY = l.weightX := rfl
  have hfrac : l.swap.fracX = l.fracY := rfl
  rw [slopeX, slopeY, hmap, hplanes, hX, hY, hfrac, blendSlope_transpose, riseX_transpose,
    weightMul_comm]

/-! ## Sizes of rises and slopes -/

section sizes

variable {q : Corners Int} {g : Corners Gradient} {l : Locus}

/-- A rise is no greater than the differences that it mixes. -/
theorem abs_riseX_le (s : UInt16) (hlow : |q.c10 - q.c00| ≤ 24512)
    (hhigh : |q.c11 - q.c01| ≤ 24512) : |riseX q s| ≤ 24512 := by
  have hmix := abs_le.mp (abs_mix_le (w := s) hlow hhigh)
  have hrise := riseX_bounds q s
  rw [abs_le]
  omega

/-- The rise to the right between the planes of a cell. -/
theorem abs_riseX_planeHeights_le (g : Corners Gradient) (h : l.Inside) (s : UInt16) :
    |riseX (planeHeights g l.x l.y) s| ≤ 24512 := by
  have hacross := abs_across_le g (Int.natCast_nonneg l.x) h.x_lt.le (Int.natCast_nonneg l.y)
    h.y_lt.le
  exact abs_riseX_le s hacross.1 hacross.2

/-- The rise upward between the planes of a cell, which is the other one in the mirrored cell. -/
theorem abs_riseY_planeHeights_le (g : Corners Gradient) (h : l.Inside) (s : UInt16) :
    |riseY (planeHeights g l.x l.y) s| ≤ 24512 := by
  have hmirror := abs_riseX_planeHeights_le g.mirror h.swap s
  have hplanes : planeHeights g.mirror l.swap.x l.swap.y = (planeHeights g l.x l.y).transpose :=
    planeHeights_mirror g l.x l.y
  rwa [hplanes, riseX_transpose] at hmirror

/-- One coordinate of four gradients, taken crosswise. -/
theorem abs_mixedDifference_toInt_le (a : Corners Int8) :
    |mixedDifference (a.map Int8.toInt)| ≤ 510 := by
  have hleft := abs_le.mp (abs_toInt_sub_le a.c00 a.c01)
  have hright := abs_le.mp (abs_toInt_sub_le a.c10 a.c11)
  simp only [mixedDifference, Corners.map]
  rw [abs_le]
  omega

/-- A blended gradient is hardly steeper than a gradient of the lattice can be. -/
theorem abs_blendSlope_le (a : Corners Int8) (sx sy : UInt16) :
    |blendSlope (a.map Int8.toInt) sx sy (weightMul sx sy)| ≤ 131 := by
  have hbounds := blendSlope_bounds (a.map Int8.toInt) sx sy (abs_mixedDifference_toInt_le a)
  have hlower := abs_mix_le (w := sx) (abs_toInt_le a.c00) (abs_toInt_le a.c10)
  have hupper := abs_mix_le (w := sx) (abs_toInt_le a.c01) (abs_toInt_le a.c11)
  have hblend : |(a.map Int8.toInt).blend sx sy| ≤ 65536 * (65536 * 128) := abs_mix_le hlower hupper
  rw [abs_le] at hblend ⊢
  omega

/-- A rise under half the slope of the moving weight. -/
theorem abs_weigh_smoothSlope_le {a : Int} (h : |a| ≤ 24512) (t : UInt16) :
    |weigh a (smoothSlope t)| ≤ 18384 := by
  have hslope : |((smoothSlope t).toNat : Int)| ≤ 49152 := by
    rw [abs_of_nonneg (by omega)]
    exact_mod_cast toNat_smoothSlope_le t
  have hproduct : |a * (smoothSlope t).toNat| ≤ 24512 * 49152 := by
    rw [abs_mul]
    exact mul_le_mul h hslope (abs_nonneg _) (by decide)
  have hweigh := weigh_bounds a (smoothSlope t)
  rw [abs_le] at hproduct ⊢
  omega

end sizes

end Exact

/-! ## Words and formulas -/

section words

variable {l : Locus}

/-- No height of a plane is narrowed inside its cell. -/
theorem map_planeHeights (g : Corners Gradient) (h : l.Inside) :
    (planeHeights g l).map Int16.toInt = Exact.planeHeights g l.x l.y := by
  obtain ⟨h00, h01, h10, h11⟩ := Exact.abs_planeHeights_le g l.x.cast_nonneg h.x_lt.le
    l.y.cast_nonneg h.y_lt.le
  exact congr (congr (congr (congrArg Corners.mk (toInt_ofInt_of_abs_le (h00.trans (by decide))))
    (toInt_ofInt_of_abs_le (h01.trans (by decide)))) (toInt_ofInt_of_abs_le (h10.trans (by decide))))
    (toInt_ofInt_of_abs_le (h11.trans (by decide)))

/-- What blending four heights does with their words, operation by operation. -/
structure BlendsExactly (q : Corners Int16) (e : Corners Int) (sx sy : UInt16) : Prop where
  /-- The difference along the lower side does not wrap. -/
  right : (q.c10 - q.c00).toInt = e.c10 - e.c00
  /-- The difference along the left side does not wrap. -/
  up : (q.c01 - q.c00).toInt = e.c01 - e.c00
  /-- The mixed difference is not narrowed. -/
  mixed : (mixedDifference q).toInt = Exact.mixedDifference e
  /-- The rise to the right does not wrap. -/
  riseX : (riseX q sy).toInt = Exact.riseX e sy
  /-- The rise upward does not wrap. -/
  riseY : (riseY q sx).toInt = Exact.riseY e sx
  /-- The height is not narrowed. -/
  height : (blendHeight q sx sy).toInt = Exact.blendHeight e sx sy

/-- Four heights that are small enough, and close enough to each other, to be blended in words. -/
structure Corners.Tame (e : Corners Int) : Prop where
  /-- Along the lower side. -/
  right : |e.c10 - e.c00| ≤ 24512
  /-- Along the left side. -/
  up : |e.c01 - e.c00| ≤ 24512
  /-- Crosswise. -/
  mixed : |Exact.mixedDifference e| ≤ 32641
  /-- Between the blended sides, to the right. -/
  riseX : ∀ s, |Exact.riseX e s| ≤ 24512
  /-- Between the blended sides, upward. -/
  riseY : ∀ s, |Exact.riseY e s| ≤ 24512
  /-- The blended height. -/
  height : ∀ sx sy, |Exact.blendHeight e sx sy| ≤ 16386

/-- The heights of the planes of a cell are small enough and close enough. -/
theorem tame_planeHeights (g : Corners Gradient) (h : l.Inside) :
    (Exact.planeHeights g l.x l.y).Tame where
  right := (Exact.abs_across_le g l.x.cast_nonneg h.x_lt.le l.y.cast_nonneg h.y_lt.le).1
  up := (Exact.abs_along_le g l.x.cast_nonneg h.x_lt.le l.y.cast_nonneg h.y_lt.le).1
  mixed := Exact.abs_mixedDifference_le g l.x.cast_nonneg h.x_lt.le l.y.cast_nonneg h.y_lt.le
  riseX s := Exact.abs_riseX_planeHeights_le g h s
  riseY s := Exact.abs_riseY_planeHeights_le g h s
  height sx sy := by
    have hall := Exact.abs_planeHeights_le g l.x.cast_nonneg h.x_lt.le l.y.cast_nonneg h.y_lt.le
    have hblend := abs_le.mp (Corners.abs_blend_le sx sy hall)
    have hheight := Exact.blendHeight_bounds (Exact.planeHeights g l.x l.y) sx sy
    rw [abs_le]
    omega

/-- Tame heights are blended without a loss. -/
theorem blendsExactly {q : Corners Int16} {e : Corners Int} (hq : q.map Int16.toInt = e)
    (he : e.Tame) (sx sy : UInt16) : BlendsExactly q e sx sy := by
  subst hq
  have hright : (q.c10 - q.c00).toInt = q.c10.toInt - q.c00.toInt :=
    toInt_sub_of_abs_le (he.right.trans (by decide))
  have hup : (q.c01 - q.c00).toInt = q.c01.toInt - q.c00.toInt :=
    toInt_sub_of_abs_le (he.up.trans (by decide))
  have hmixed : (mixedDifference q).toInt = Exact.mixedDifference (q.map Int16.toInt) :=
    toInt_ofInt_of_abs_le (he.mixed.trans (by decide))
  have hriseX : (riseX q sy).toInt = Exact.riseX (q.map Int16.toInt) sy :=
    toInt_add_weigh hright hmixed ((he.riseX sy).trans (by decide))
  have hriseY : (riseY q sx).toInt = Exact.riseY (q.map Int16.toInt) sx :=
    toInt_add_weigh hup hmixed ((he.riseY sx).trans (by decide))
  refine ⟨hright, hup, hmixed, hriseX, hriseY, ?_⟩
  have hsum : q.c00.toInt + (weigh (q.c10 - q.c00) sx).toInt + (weigh (riseY q sx) sy).toInt =
      Exact.blendHeight (q.map Int16.toInt) sx sy := by
    rw [toInt_weigh, toInt_weigh, hright, hriseY]
    rfl
  rw [blendHeight, hsum]
  exact toInt_ofInt_of_abs_le ((he.height sx sy).trans (by decide))

/-- What blending four numbers does with their differences. -/
structure NarrowsExactly (e : Corners Int) : Prop where
  /-- The difference along the lower side is not narrowed. -/
  right : (Int16.ofInt (e.c10 - e.c00)).toInt = e.c10 - e.c00
  /-- The difference along the left side is not narrowed. -/
  up : (Int16.ofInt (e.c01 - e.c00)).toInt = e.c01 - e.c00
  /-- The mixed difference is not narrowed. -/
  mixed : (Int16.ofInt (e.c00 - e.c01 - e.c10 + e.c11)).toInt = Exact.mixedDifference e

/-- One coordinate of four gradients is blended without a loss. -/
theorem narrowsExactly (a : Corners Int8) : NarrowsExactly (a.map Int8.toInt) where
  right := toInt_ofInt_of_abs_le ((Exact.abs_toInt_sub_le _ _).trans (by decide))
  up := toInt_ofInt_of_abs_le ((Exact.abs_toInt_sub_le _ _).trans (by decide))
  mixed := toInt_ofInt_of_abs_le ((Exact.abs_mixedDifference_toInt_le a).trans (by decide))

/-- The blend of four numbers is the one over the integers if none of their differences is
narrowed. -/
theorem blendSlope_eq {e : Corners Int} (h : NarrowsExactly e) (sx sy sxy : UInt16) :
    blendSlope e sx sy sxy = Exact.blendSlope e sx sy sxy := by
  rw [blendSlope, toInt_weigh, toInt_weigh, toInt_weigh, h.right, h.up, h.mixed, Exact.blendSlope]

/-- A component of the gradient has room in its word. -/
theorem toInt_slopeComponent (a : Corners Int8) (sx sy t : UInt16) {rise : Int16} {e : Int}
    (hrise : rise.toInt = e) (h : |e| ≤ 24512) :
    (slopeComponent (blendSlope (a.map Int8.toInt) sx sy (weightMul sx sy)) rise
      (smoothSlope t)).toInt =
      Exact.slopeComponent (Exact.blendSlope (a.map Int8.toInt) sx sy (weightMul sx sy)) e
        (smoothSlope t) := by
  have hblend := abs_le.mp (Exact.abs_blendSlope_le a sx sy)
  have hweigh := abs_le.mp (Exact.abs_weigh_smoothSlope_le h t)
  have hroom : |32 * Exact.blendSlope (a.map Int8.toInt) sx sy (weightMul sx sy) +
      Exact.weigh e (smoothSlope t)| ≤ 32767 := by
    rw [abs_le]
    omega
  rw [slopeComponent, toInt_or_one, toInt_weigh, blendSlope_eq (narrowsExactly a), hrise,
    toInt_ofInt_of_abs_le hroom, Exact.slopeComponent]

end words

/-! ## Sampling -/

/-- What each narrowing and each wrapping operation of the sampling at a position keeps. The
products with weights have their own law (`toInt_weigh`). -/
structure Field.SampledExactly (f : Field) (p : Point) : Prop where
  /-- The heights of the planes are not narrowed. -/
  planes : (f.planesAt p).map Int16.toInt = Exact.planesAt f p
  /-- Nothing is lost in blending them. -/
  blends : BlendsExactly (f.planesAt p) (Exact.planesAt f p) (Locus.of p).weightX
    (Locus.of p).weightY
  /-- Nothing is lost in blending the horizontal coordinates of the gradients. -/
  narrowsX : NarrowsExactly ((f.corners (.of p)).map fun a => a.x.toInt)
  /-- Nothing is lost in blending the vertical coordinates of the gradients. -/
  narrowsY : NarrowsExactly ((f.corners (.of p)).map fun a => a.y.toInt)
  /-- The height is that of the formula. -/
  height : (f.height p).toInt = Exact.height f p
  /-- The components of the gradient are those of the formula. -/
  gradient : (f.sample p).gradient.map Int16.toInt = Exact.gradient f p

/-- The sampling loses nothing, at every position of every field. -/
theorem Field.sampledExactly (f : Field) (p : Point) : f.SampledExactly p := by
  have hinside := Locus.inside_of p
  have hplanes : (f.planesAt p).map Int16.toInt = Exact.planesAt f p :=
    map_planeHeights (f.corners (.of p)) hinside
  have htame : (Exact.planesAt f p).Tame := tame_planeHeights (f.corners (.of p)) hinside
  have hblends := blendsExactly hplanes htame (Locus.of p).weightX (Locus.of p).weightY
  have hX : NarrowsExactly ((f.corners (.of p)).map fun a => a.x.toInt) :=
    narrowsExactly ((f.corners (.of p)).map Pair.x)
  have hY : NarrowsExactly ((f.corners (.of p)).map fun a => a.y.toInt) :=
    narrowsExactly ((f.corners (.of p)).map Pair.y)
  refine ⟨hplanes, hblends, hX, hY, hblends.height, Pair.ext ?_ ?_⟩
  · exact toInt_slopeComponent ((f.corners (.of p)).map Pair.x) _ _ _ hblends.riseX (htame.riseX _)
  · exact toInt_slopeComponent ((f.corners (.of p)).map Pair.y) _ _ _ hblends.riseY (htame.riseY _)

/-- The height alone of the field at a position, as a machine gets it. -/
def Machine.height (m : Machine) (f : Field) (p : Point) : Option Int16 := do
  let col : Word m .u64 := (Word.ofInt32 p.x).cellPosition
  let row : Word m .u64 := (Word.ofInt32 p.y).cellPosition
  let g ← m.corners f col row
  let sx := col.cellOffset.cellFraction.smooth
  let sy := row.cellOffset.cellFraction.smooth
  (Word.blendHeight (Word.planeHeights g col.cellOffset row.cellOffset) sx sy).toInt16?

/-- A machine of either kind gets the height without a fault. -/
theorem Machine.height_eq (m : Machine) (f : Field) (p : Point) :
    m.height f p = some (f.height p) := by
  have hx : (Word.ofInt32 p.x : Word m .i32).cellPosition.cellOffset.Shows (Locus.of p).x 4194304 :=
    Word.shows_cellOffset p.x
  have hy : (Word.ofInt32 p.y : Word m .i32).cellPosition.cellOffset.Shows (Locus.of p).y 4194304 :=
    Word.shows_cellOffset p.y
  have hfracX : (Word.ofInt32 p.x : Word m .i32).cellPosition.cellOffset.cellFraction =
      Word.ofUInt16 (Locus.of p).fracX := hx.cellFraction
  have hfracY : (Word.ofInt32 p.y : Word m .i32).cellPosition.cellOffset.cellFraction =
      Word.ofUInt16 (Locus.of p).fracY := hy.cellFraction
  simp only [height, m.corners_eq f p, Option.bind_eq_bind, Option.bind_some, hfracX, hfracY,
    Word.smooth_ofUInt16, Word.planeHeights_eq _ _ hx hy, Word.blendHeight_map,
    Word.toInt16?_ofInt16]
  rfl

/-! ## The height between the corners -/

/-- The least of four numbers. -/
def Corners.least (a : Corners Int) : Int := min (min a.c00 a.c01) (min a.c10 a.c11)

/-- The greatest of four numbers. -/
def Corners.greatest (a : Corners Int) : Int := max (max a.c00 a.c01) (max a.c10 a.c11)

/-- No corner is below the least. -/
theorem Corners.all_least_le (a : Corners Int) : a.All (a.least ≤ ·) := by
  unfold All least
  omega

/-- No corner is above the greatest. -/
theorem Corners.all_le_greatest (a : Corners Int) : a.All (· ≤ a.greatest) := by
  unfold All greatest
  omega

/-- A blended height does not overshoot, and falls short by its roundings only. -/
theorem Exact.blendHeight_between (q : Corners Int) (sx sy : UInt16) :
    q.least - 2 ≤ blendHeight q sx sy ∧ blendHeight q sx sy ≤ q.greatest := by
  have hlow := Corners.le_blend sx sy q.all_least_le
  have hhigh := Corners.blend_le sx sy q.all_le_greatest
  have hheight := blendHeight_bounds q sx sy
  omega

/-- **Sampling is exact.** At every position of every field, each narrowing to 16 bits and each
wrapping operation gives the number that the formula has over the integers, and so does each product
with a weight; on a machine that checks its sums no sum of 32 bits overflows, for the sample and for
the height alone. Both have the same height, both components of the gradient are odd, and the height
lies between the least of the planes' heights, less 2, and the greatest. -/
theorem Field.sample_exact (f : Field) (p : Point) :
    f.SampledExactly p ∧
    (∀ (a : Int16) (w : UInt16), (weigh a w).toInt = Exact.weigh a.toInt w) ∧
    (∀ v w : UInt16, (weightMul v w).toNat = v.toNat * w.toNat / 65536) ∧
    Machine.checking.sample f p = some (f.sample p) ∧
    Machine.checking.height f p = some (f.height p) ∧
    (f.sample p).height = f.height p ∧
    (f.sample p).gradient.x.toInt % 2 = 1 ∧ (f.sample p).gradient.y.toInt % 2 = 1 ∧
    (Exact.planesAt f p).least - 2 ≤ (f.height p).toInt ∧
    (f.height p).toInt ≤ (Exact.planesAt f p).greatest := by
  have hexact := f.sampledExactly p
  have hodd (v : Int) : Exact.makeOdd v % 2 = 1 := by
    unfold Exact.makeOdd
    omega
  have hbetween := Exact.blendHeight_between (Exact.planesAt f p) (Locus.of p).weightX
    (Locus.of p).weightY
  have hx : (f.sample p).gradient.x.toInt = (Exact.gradient f p).x :=
    congrArg Pair.x hexact.gradient
  have hy : (f.sample p).gradient.y.toInt = (Exact.gradient f p).y :=
    congrArg Pair.y hexact.gradient
  rw [hx, hy, hexact.height]
  exact ⟨hexact, toInt_weigh, toNat_weightMul, Machine.checking.sample_eq f p,
    Machine.checking.height_eq f p, rfl, hodd _, hodd _, hbetween⟩

end RideProof
