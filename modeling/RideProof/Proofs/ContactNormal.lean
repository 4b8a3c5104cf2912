import Mathlib.Algebra.Order.Ring.Abs
import RideProof.Physics.Contact
import RideProof.Proofs.ExactSampling

/-!
# The contact normal

The normal of the ground is the gradient times an inverse length, as a signed word of 32 bits. The
inverse length stops falling at a squared length of 38.4 million, so that a component of 12394 would
make the product wrap. No ground is that steep: over all fields and positions a component is 12109
at most.

The component has two parts. The horizontal gradients of the corners enter with factors that add up
to √2 at most (`abs_gains_le`), which is less than what each of them is worth where it is worth
most. The vertical ones enter with their differences over half the extent of the cell at most
(`mix_offset_le`), since a corner that is far away has little weight.

* `Exact.steepness` — the component before it is rounded.
* `Exact.abs_slopeX_le`, `Exact.abs_slopeY_le` — the bounds on the components.
* `mul_inverseLength_le` — such a component times its inverse length.
* `Field.normal_sample` — the normal does not wrap.
-/

namespace RideProof

/-! ## What the corners can contribute -/

namespace Locus

variable {l : Locus}

/-- Half the slope of the weight of the right corners. -/
def slope (l : Locus) : Int := (smoothSlope l.fracX).toNat

/-- What the horizontal gradient of a left corner is worth, in 65536ths of 65536ths: its weight less
what its plane loses to the rise. -/
def leftGain (l : Locus) : Int := 32 * 65536 * (65536 - l.weightX.toNat) - l.slope * l.x

/-- What the horizontal gradient of a right corner is worth. -/
def rightGain (l : Locus) : Int := 32 * 65536 * l.weightX.toNat - l.slope * (cellSpan - l.x)

/-- Half a slope is not negative. -/
theorem slope_nonneg (l : Locus) : 0 ≤ l.slope := Int.natCast_nonneg _

/-- Half a slope is three quarters of a weight at most. -/
theorem slope_le (l : Locus) : l.slope ≤ 49152 := Int.ofNat_le.mpr (toNat_smoothSlope_le l.fracX)

end Locus

/-- For the fraction `t` of a cell, `(1 - 2 t) (1 + 8 t (1 - t))` is √2 at most: its square is less
than 2 by `(1 - 8 t (1 - t))^2 (1 + 4 t (1 - t))`. -/
theorem abs_balance_le {i : Int} (h0 : 0 ≤ i) (h1 : i ≤ 65536) :
    |64 * ((65536 - 2 * i) * (65536 * 65536 + 8 * (i * (65536 - i))))| ≤
      91 * (65536 * 65536 * 65536) := by
  have hprod : 0 ≤ i * (65536 - i) := mul_nonneg h0 (by linarith)
  have hrest : 0 ≤ (65536 * 65536 - 8 * (i * (65536 - i))) *
      (65536 * 65536 - 8 * (i * (65536 - i))) * (65536 * 65536 + 4 * (i * (65536 - i))) :=
    mul_nonneg (mul_self_nonneg _) (by linarith)
  exact abs_le_of_sq_le_sq (by linarith) (by decide)

/-- Two numbers are no larger together than their sum and their difference may be. -/
theorem abs_add_abs_le_of_abs {a b bound : Int} (hsum : |a + b| ≤ bound)
    (hdiff : |a - b| ≤ bound) : |a| + |b| ≤ bound := by
  rw [abs_le] at hsum hdiff
  rcases abs_cases a with ⟨ha, -⟩ | ⟨ha, -⟩ <;> rcases abs_cases b with ⟨hb, -⟩ | ⟨hb, -⟩ <;>
    rw [ha, hb] <;> linarith

/-- What rounding takes off the slope, times the distance of the fraction from a half. -/
theorem abs_slope_lost_le (l : Locus) :
    |(3 * l.fracX.toNat * (65536 - l.fracX.toNat) - 65536 * l.slope) *
      (65536 - 2 * l.fracX.toNat)| ≤ 65536 * 65536 := by
  have hlt := l.fracX.toNat_lt
  have hslope : 65536 * l.slope ≤ 3 * l.fracX.toNat * (65536 - l.fracX.toNat) ∧
      3 * l.fracX.toNat * (65536 - l.fracX.toNat) < 65536 * l.slope + 65536 :=
    smoothSlope_bounds l.fracX
  rw [abs_mul]
  exact mul_le_mul (abs_le.mpr ⟨by linarith, by linarith⟩) (abs_le.mpr ⟨by omega, by omega⟩)
    (abs_nonneg _) (by decide)

/-- The place of a position is its fraction and 6 bits more, which a slope makes little of. -/
theorem exists_place_eq {l : Locus} (h : l.Inside) :
    ∃ rest : Int, (l.x : Int) = 64 * l.fracX.toNat + rest ∧ 0 ≤ l.slope * rest ∧
      l.slope * rest ≤ 49152 * 63 := by
  refine ⟨(l.x % 64 : Nat), ?_, ?_, ?_⟩
  · rw [h.toNat_fracX]
    omega
  · exact mul_nonneg l.slope_nonneg (Int.natCast_nonneg _)
  · exact mul_le_mul l.slope_le (by omega) (Int.natCast_nonneg _) (by decide)

/-- The left and the right gain hardly differ by more than the balance of the fraction. -/
theorem abs_leftGain_sub_le {l : Locus} (h : l.Inside) :
    |l.leftGain - l.rightGain| ≤ 46 * (65536 * 65536) := by
  have hspan : cellSpan = 4194304 := rfl
  have hlt := l.fracX.toNat_lt
  have hweight : 65536 * 65536 * (l.weightX.toNat : Int) ≤
        l.fracX.toNat * l.fracX.toNat * (196608 - 2 * l.fracX.toNat) ∧
      (l.fracX.toNat * l.fracX.toNat * (196608 - 2 * l.fracX.toNat) : Int) <
        65536 * 65536 * l.weightX.toNat + 65536 * 65536 := smooth_bounds l.fracX
  have hlost := abs_slope_lost_le l
  obtain ⟨rest, hplace, hslip, hslip'⟩ := exists_place_eq h
  generalize hi : (l.fracX.toNat : Int) = i at hplace hweight hlost
  have hbalance := abs_le.mp (abs_balance_le (i := i) (by omega) (by omega))
  -- the balance, less what rounding takes off the weight, off the slope and off the fraction
  have hsplit : 65536 * (l.leftGain - l.rightGain) =
      32 * ((65536 - 2 * i) * (65536 * 65536 + 8 * (i * (65536 - i)))) +
        64 * (i * i * (196608 - 2 * i) - 65536 * 65536 * l.weightX.toNat) -
        64 * ((3 * i * (65536 - i) - 65536 * l.slope) * (65536 - 2 * i)) -
        2 * 65536 * (l.slope * rest) := by
    unfold Locus.leftGain Locus.rightGain
    rw [hspan, hplace]
    ring
  rw [abs_le] at hlost ⊢
  constructor <;> linarith

/-- The gains of the left and the right corners. -/
theorem abs_gains_le {l : Locus} (h : l.Inside) :
    |l.leftGain| + |l.rightGain| ≤ 46 * (65536 * 65536) := by
  refine abs_add_abs_le_of_abs ?_ (abs_leftGain_sub_le h)
  have hspan : cellSpan = 4194304 := rfl
  have hslope := l.slope_nonneg
  have hslope' := l.slope_le
  have hsum : l.leftGain + l.rightGain = 32 * 65536 * (65536 - 2 * l.slope) := by
    unfold Locus.leftGain Locus.rightGain
    rw [hspan]
    ring
  rw [hsum, abs_le]
  omega

/-- The weight is on the same side of a half as the fraction: `1 - 2 (3 t^2 - 2 t^3)` is `1 - 2 t`
times `1 + 2 t (1 - t)`. -/
theorem smooth_half (t : UInt16) :
    (t.toNat ≤ 32768 → (smooth t).toNat ≤ 32768) ∧ (32768 ≤ t.toNat → 32768 ≤ (smooth t).toNat) := by
  have hlt := t.toNat_lt
  have hweight := smooth_bounds t
  have hprod : 0 ≤ (t.toNat : Int) * (65536 - t.toNat) := mul_nonneg (by omega) (by omega)
  have hsplit : 65536 * 65536 * 32768 - (t.toNat * t.toNat * (196608 - 2 * t.toNat) : Int) =
      (32768 - t.toNat) * (65536 * 65536 + 2 * (t.toNat * (65536 - t.toNat))) := by ring
  constructor
  · intro h
    have hle : (0 : Int) ≤ (32768 - t.toNat) * (65536 * 65536 + 2 * (t.toNat * (65536 - t.toNat))) :=
      mul_nonneg (by omega) (by linarith)
    omega
  · intro h
    have hle : (32768 - t.toNat : Int) * (65536 * 65536 + 2 * (t.toNat * (65536 - t.toNat))) ≤ 0 :=
      mul_nonpos_of_nonpos_of_nonneg (by omega) (by linarith)
    omega

/-- A corner far up or down has little weight: on the mean the corners are half a cell away at
most. -/
theorem mix_offset_le {l : Locus} (h : l.Inside) :
    mix l.weightY l.y (cellSpan - l.y) ≤ 65536 * 2097152 := by
  have hspan : cellSpan = 4194304 := rfl
  have hfrac : l.fracY.toNat = l.y / 64 := h.swap.toNat_fracX
  obtain ⟨hlow, hhigh⟩ := smooth_half l.fracY
  have hsame : (0 : Int) ≤ (65536 - 2 * (smooth l.fracY).toNat) * (cellSpan - 2 * l.y) := by
    rcases Nat.lt_or_ge l.fracY.toNat 32768 with hy | hy
    · have hle := hlow hy.le
      exact mul_nonneg (by omega) (by omega)
    · have hge := hhigh hy
      exact mul_nonneg_of_nonpos_of_nonpos (by omega) (by omega)
  unfold mix Locus.weightY
  rw [hspan] at hsame ⊢
  linarith

/-! ## The component -/

namespace Exact

/-- The height of the plane of a gradient at an offset, not rounded. -/
def plane (a : Gradient) (dx dy : Int) : Int := a.x.toInt * dx + a.y.toInt * dy

/-- What the corners on one side of the cell, `a` on the left and `b` on the right, contribute to
the component, in 65536ths of 65536ths. -/
def sideSteepness (a b : Gradient) (l : Locus) (dy : Int) : Int :=
  32 * 65536 * mix l.weightX a.x.toInt b.x.toInt +
    l.slope * (plane b (l.x - cellSpan) dy - plane a l.x dy)

/-- The horizontal component of the gradient without any rounding, times 65536 three times. -/
def steepness (g : Corners Gradient) (l : Locus) : Int :=
  mix l.weightY (sideSteepness g.c00 g.c10 l l.y) (sideSteepness g.c01 g.c11 l (l.y - cellSpan))

section bounds

variable {l : Locus}

/-- How much one side of the cell contributes to the component. -/
theorem abs_sideSteepness_le (a b : Gradient) (h : l.Inside) (dy : Int) :
    |sideSteepness a b l dy| ≤ 128 * (46 * (65536 * 65536)) + 255 * l.slope * |dy| := by
  have hsplit : sideSteepness a b l dy = a.x.toInt * l.leftGain + b.x.toInt * l.rightGain +
      (b.y.toInt - a.y.toInt) * (l.slope * dy) := by
    unfold sideSteepness plane mix Locus.leftGain Locus.rightGain
    ring
  have hleft : |a.x.toInt * l.leftGain| ≤ 128 * |l.leftGain| := by
    rw [abs_mul]
    exact mul_le_mul_of_nonneg_right (abs_toInt_le a.x) (abs_nonneg _)
  have hright : |b.x.toInt * l.rightGain| ≤ 128 * |l.rightGain| := by
    rw [abs_mul]
    exact mul_le_mul_of_nonneg_right (abs_toInt_le b.x) (abs_nonneg _)
  have hacross : |(b.y.toInt - a.y.toInt) * (l.slope * dy)| ≤ 255 * (l.slope * |dy|) := by
    rw [abs_mul, abs_mul l.slope, abs_of_nonneg l.slope_nonneg]
    exact mul_le_mul_of_nonneg_right (abs_toInt_sub_le _ _)
      (mul_nonneg l.slope_nonneg (abs_nonneg _))
  have hgains := abs_gains_le h
  rw [hsplit]
  calc |a.x.toInt * l.leftGain + b.x.toInt * l.rightGain +
        (b.y.toInt - a.y.toInt) * (l.slope * dy)|
      ≤ |a.x.toInt * l.leftGain| + |b.x.toInt * l.rightGain| +
          |(b.y.toInt - a.y.toInt) * (l.slope * dy)| := abs_add_three _ _ _
    _ ≤ 128 * (46 * (65536 * 65536)) + 255 * l.slope * |dy| := by linarith

/-- A mean is no larger than the mean of bounds on both numbers. -/
theorem abs_mix_le_mix {w : UInt16} {a b c d : Int} (ha : |a| ≤ c) (hb : |b| ≤ d) :
    |mix w a b| ≤ mix w c d := by
  have hlt := w.toNat_lt
  rw [abs_le] at ha hb ⊢
  have hl := mul_le_mul_of_nonneg_left ha.1 (show (0 : Int) ≤ 65536 - w.toNat by omega)
  have hl' := mul_le_mul_of_nonneg_left ha.2 (show (0 : Int) ≤ 65536 - w.toNat by omega)
  have hr := mul_le_mul_of_nonneg_left hb.1 (show (0 : Int) ≤ w.toNat by omega)
  have hr' := mul_le_mul_of_nonneg_left hb.2 (show (0 : Int) ≤ w.toNat by omega)
  unfold mix
  constructor <;> linarith

/-- The unrounded component, over all gradients. -/
theorem abs_steepness_le (g : Corners Gradient) (h : l.Inside) :
    |steepness g l| ≤ 12008 * (65536 * 65536 * 65536) := by
  have hspan : cellSpan = 4194304 := rfl
  have hlow := abs_sideSteepness_le g.c00 g.c10 h l.y
  have hhigh := abs_sideSteepness_le g.c01 g.c11 h (l.y - cellSpan)
  have hy := h.y_lt
  rw [abs_of_nonneg (Int.natCast_nonneg l.y)] at hlow
  rw [abs_of_nonpos (show (l.y : Int) - cellSpan ≤ 0 by omega)] at hhigh
  have hoffset := mul_le_mul_of_nonneg_left (mix_offset_le h)
    (show 0 ≤ 255 * l.slope by linarith [l.slope_nonneg])
  have hmix : mix l.weightY (128 * (46 * (65536 * 65536)) + 255 * l.slope * l.y)
      (128 * (46 * (65536 * 65536)) + 255 * l.slope * -(l.y - cellSpan)) =
        65536 * (128 * (46 * (65536 * 65536))) +
          255 * l.slope * mix l.weightY l.y (cellSpan - l.y) := by
    unfold mix
    ring
  have hle := abs_mix_le_mix (w := l.weightY) hlow hhigh
  have hslope := l.slope_le
  rw [hmix] at hle
  unfold steepness
  linarith

/-- The rounded heights of the planes differ across the cell as the planes do, up to less than 1. -/
theorem abs_across_sub_le (g : Corners Gradient) (w : UInt16) (x y : Int) :
    |65536 * mix w ((planeHeights g x y).c10 - (planeHeights g x y).c00)
        ((planeHeights g x y).c11 - (planeHeights g x y).c01) -
      mix w (plane g.c10 (x - cellSpan) y - plane g.c00 x y)
        (plane g.c11 (x - cellSpan) (y - cellSpan) - plane g.c01 x (y - cellSpan))| ≤
      65536 * 65536 := by
  have hside (a b : Gradient) (dy : Int) :
      |65536 * (planeHeight b (x - cellSpan) dy - planeHeight a x dy) -
        (plane b (x - cellSpan) dy - plane a x dy)| ≤ 65536 := by
    have hleft := planeHeight_bounds a x dy
    have hright := planeHeight_bounds b (x - cellSpan) dy
    unfold plane
    rw [abs_le]
    omega
  rw [← mix_mul, ← mix_sub]
  exact abs_mix_le (hside g.c00 g.c10 y) (hside g.c01 g.c11 (y - cellSpan))

/-- What all roundings together move the component by: less than 100. -/
theorem abs_sub_steepness_le (g : Corners Gradient) (l : Locus) :
    |65536 * 65536 * 65536 *
        (32 * blendSlope (g.map fun a => a.x.toInt) l.weightX l.weightY
            (weightMul l.weightX l.weightY) +
          weigh (riseX (planeHeights g l.x l.y) l.weightY) (smoothSlope l.fracX)) -
      steepness g l| ≤ 100 * (65536 * 65536 * 65536) := by
  have hslope : ((smoothSlope l.fracX).toNat : Int) = l.slope := rfl
  have hsplit : steepness g l =
      32 * 65536 * (g.map fun a => a.x.toInt).blend l.weightX l.weightY +
        l.slope * mix l.weightY (plane g.c10 (l.x - cellSpan) l.y - plane g.c00 l.x l.y)
          (plane g.c11 (l.x - cellSpan) (l.y - cellSpan) - plane g.c01 l.x (l.y - cellSpan)) := by
    unfold steepness sideSteepness Corners.blend Corners.map mix
    ring
  have hmixed := abs_mixedDifference_toInt_le (g.map Pair.x)
  rw [Corners.map_map] at hmixed
  have hblend := blendSlope_bounds _ l.weightX l.weightY hmixed
  have hrise := riseX_bounds (planeHeights g l.x l.y) l.weightY
  have hacross := abs_across_sub_le g l.weightY l.x l.y
  rw [hsplit]
  generalize riseX (planeHeights g l.x l.y) l.weightY = rise at hrise ⊢
  generalize blendSlope (g.map fun a => a.x.toInt) l.weightX l.weightY
    (weightMul l.weightX l.weightY) = blended at hblend ⊢
  generalize mix l.weightY ((planeHeights g l.x l.y).c10 - (planeHeights g l.x l.y).c00)
    ((planeHeights g l.x l.y).c11 - (planeHeights g l.x l.y).c01) = rounded at hrise hacross
  generalize mix l.weightY _ _ = exact at hacross ⊢
  have hweigh := weigh_bounds rise (smoothSlope l.fracX)
  rw [hslope] at hweigh
  have hle := mul_le_mul_of_nonneg_right hrise.1 l.slope_nonneg
  have hge := mul_le_mul_of_nonneg_right hrise.2.le l.slope_nonneg
  have hmoved : |(65536 * rounded - exact) * l.slope| ≤ 65536 * 65536 * 49152 := by
    rw [abs_mul, abs_of_nonneg l.slope_nonneg]
    exact mul_le_mul hacross l.slope_le l.slope_nonneg (by decide)
  have hslope' := l.slope_le
  rw [abs_le] at hmoved ⊢
  constructor <;> linarith

/-- No field is steeper than this to the right or left. -/
theorem abs_slopeX_le (g : Corners Gradient) (h : l.Inside) : |slopeX g l| ≤ 12109 := by
  have hsteep := abs_le.mp (abs_steepness_le g h)
  have hround := abs_le.mp (abs_sub_steepness_le g l)
  unfold slopeX slopeComponent makeOdd
  rw [abs_le]
  omega

/-- No field is steeper than this up or down. -/
theorem abs_slopeY_le (g : Corners Gradient) (h : l.Inside) : |slopeY g l| ≤ 12109 := by
  rw [← slopeX_mirror]
  exact abs_slopeX_le g.mirror h.swap

end bounds

end Exact

/-! ## The normal -/

/-- A component that is not too steep, times the inverse length of a gradient that has it. -/
theorem mul_inverseLength_le {n : Nat} {m : Int} (hn : n ≤ 12393) (hm : (n * n : Int) ≤ m) :
    n * inverseLength m ≤ 2147483647 := by
  have hcount : inverseLengthCount = 150000 := rfl
  have hbucket := lengthBucket_lt m
  -- in the buckets before the last one `n` is bounded by its own length, in the last by `hn`
  have hsquare : n * n ≤ 1024 * (lengthBucket m + 1) := by
    have hmax : n * n ≤ 12393 * 12393 := Nat.mul_le_mul hn hn
    unfold lengthBucket at hbucket ⊢
    omega
  have hroot : n * 8192 ≤ isqrt (UInt64.ofNat ((lengthBucket m + 1) * 68719476736)) := by
    rw [isqrt_bucket hbucket]
    refine Nat.le_sqrt.mpr ?_
    calc n * 8192 * (n * 8192) = n * n * 67108864 := by ring
      _ ≤ 1024 * (lengthBucket m + 1) * 67108864 := Nat.mul_le_mul_right _ hsquare
      _ = (lengthBucket m + 1) * 68719476736 := by ring
  have hquot : isqrt (UInt64.ofNat ((lengthBucket m + 1) * 68719476736)) * inverseLength m ≤
      17592186036224 := Nat.mul_div_le _ _
  have hle := (Nat.mul_le_mul_right (inverseLength m) hroot).trans hquot
  generalize inverseLength m = inverse at hle ⊢
  linarith

/-- A component of the normal fits into a word. -/
theorem abs_mul_inverseLength_le {c m : Int} (hc : |c| ≤ 12393) (hm : c * c ≤ m) :
    |c * inverseLength m| ≤ 2147483647 := by
  have hn : c.natAbs ≤ 12393 := by
    rw [abs_le] at hc
    omega
  have hsquare : (c.natAbs * c.natAbs : Int) ≤ m := by
    rwa [Int.natAbs_mul_self']
  rw [abs_mul, Int.abs_eq_natAbs, Nat.abs_cast]
  exact_mod_cast mul_inverseLength_le hn hsquare

/-- **The contact normal never wraps.** At every position of every field, each component of the
gradient times the inverse length of the gradient lies in the range of a signed word of 32 bits, and
is the component of the normal; so the normal points as the gradient does. -/
theorem Field.normal_sample (f : Field) (p : Point) :
    let s := f.sample p
    let inverse : Int := inverseLength (magnitudeSq s.gradient)
    (-2147483648 ≤ s.gradient.x.toInt * inverse ∧ s.gradient.x.toInt * inverse ≤ 2147483647) ∧
    (-2147483648 ≤ s.gradient.y.toInt * inverse ∧ s.gradient.y.toInt * inverse ≤ 2147483647) ∧
    s.normal.x.toInt = s.gradient.x.toInt * inverse ∧
    s.normal.y.toInt = s.gradient.y.toInt * inverse ∧
    s.normal.x.toInt.sign = s.gradient.x.toInt.sign ∧
    s.normal.y.toInt.sign = s.gradient.y.toInt.sign := by
  intro s inverse
  have hgradient := (f.sampledExactly p).gradient
  have hx : s.gradient.x.toInt = Exact.slopeX (f.corners (.of p)) (.of p) :=
    congrArg Pair.x hgradient
  have hy : s.gradient.y.toInt = Exact.slopeY (f.corners (.of p)) (.of p) :=
    congrArg Pair.y hgradient
  have hxle : |s.gradient.x.toInt| ≤ 12393 := by
    rw [hx]
    exact (Exact.abs_slopeX_le _ (Locus.inside_of p)).trans (by decide)
  have hyle : |s.gradient.y.toInt| ≤ 12393 := by
    rw [hy]
    exact (Exact.abs_slopeY_le _ (Locus.inside_of p)).trans (by decide)
  have hxrange : |s.gradient.x.toInt * inverse| ≤ 2147483647 :=
    abs_mul_inverseLength_le hxle (le_add_of_nonneg_right (mul_self_nonneg _))
  have hyrange : |s.gradient.y.toInt * inverse| ≤ 2147483647 :=
    abs_mul_inverseLength_le hyle (le_add_of_nonneg_left (mul_self_nonneg _))
  have hxnormal : s.normal.x.toInt = s.gradient.x.toInt * inverse :=
    toInt32_ofInt_of_abs_le hxrange
  have hynormal : s.normal.y.toInt = s.gradient.y.toInt * inverse :=
    toInt32_ofInt_of_abs_le hyrange
  have hpos : inverse.sign = 1 :=
    Int.sign_eq_one_of_pos (Int.natCast_pos.mpr (inverseLength_pos _))
  rw [hxnormal, hynormal, Int.sign_mul, Int.sign_mul, hpos, mul_one, mul_one]
  rw [abs_le] at hxrange hyrange
  exact ⟨⟨by linarith, hxrange.2⟩, ⟨by linarith, hyrange.2⟩, rfl, rfl, rfl, rfl⟩

end RideProof
