import Mathlib.Algebra.Order.Group.Unbundled.Int
import Mathlib.Tactic.Linarith
import Mathlib.Tactic.Ring
import RideProof.Proofs.MachineField

/-!
# Blending without words

The formulas of the ground over the integers, where nothing is ever narrowed, and how far their
roundings take them from the blend they stand for.

* `mix`, `Corners.blend` — the weighted mean of two numbers and of the four corners, as whole
  numbers: times 65536, and times 65536 twice.
* `Exact` — each formula of sampling over the integers, rounded where sampling rounds.
* `Exact.riseX_bounds`, `Exact.blendHeight_bounds`, `Exact.blendSlope_bounds` — a formula against
  the mean it rounds.
* `Exact.abs_planeHeight_le`, `Exact.abs_across_le`, `Exact.abs_mixedDifference_le` — how large the
  heights of a cell and their differences get, over all gradients.
* `Corners.mirror` — the cell seen in its diagonal. It exchanges columns and rows, so that what is
  said of one direction is said of the other.
-/

namespace RideProof

/-! ## Weighted means -/

/-- The mean of `a` and `b` with the weight `w` for `b`, times 65536. -/
def mix (w : UInt16) (a b : Int) : Int := (65536 - w.toNat) * a + w.toNat * b

section mix

variable {w : UInt16} {a b c d bound : Int}

/-- A mean of two numbers is no greater than a bound of both. -/
theorem mix_le (ha : a ≤ bound) (hb : b ≤ bound) : mix w a b ≤ 65536 * bound := by
  have hlt := w.toNat_lt
  have hleft := mul_le_mul_of_nonneg_left ha (show (0 : Int) ≤ 65536 - w.toNat by omega)
  have hright := mul_le_mul_of_nonneg_left hb (show (0 : Int) ≤ w.toNat by omega)
  unfold mix
  linarith

/-- A mean changes its sign with both numbers. -/
theorem mix_neg (w : UInt16) (a b : Int) : mix w (-a) (-b) = -mix w a b := by
  unfold mix
  ring

/-- A mean of two numbers is no less than a bound of both. -/
theorem le_mix (ha : bound ≤ a) (hb : bound ≤ b) : 65536 * bound ≤ mix w a b := by
  have hle : mix w (-a) (-b) ≤ 65536 * -bound := mix_le (neg_le_neg ha) (neg_le_neg hb)
  rw [mix_neg] at hle
  linarith

/-- A mean is no further from zero than both numbers may be. -/
theorem abs_mix_le (ha : |a| ≤ bound) (hb : |b| ≤ bound) : |mix w a b| ≤ 65536 * bound := by
  rw [abs_le] at ha hb ⊢
  exact ⟨by linarith [le_mix (w := w) ha.1 hb.1], mix_le ha.2 hb.2⟩

/-- The mean of two differences is the difference of the means. -/
theorem mix_sub (w : UInt16) (a b c d : Int) : mix w (a - c) (b - d) = mix w a b - mix w c d := by
  unfold mix
  ring

/-- A common factor of both numbers is one of their mean. -/
theorem mix_mul (w : UInt16) (a b c : Int) : mix w (c * a) (c * b) = c * mix w a b := by
  unfold mix
  ring

/-- Four numbers may be mixed along the rows or along the columns first. -/
theorem mix_mix (v w : UInt16) (a b c d : Int) :
    mix w (mix v a b) (mix v c d) = mix v (mix w a c) (mix w b d) := by
  unfold mix
  ring

end mix

/-- The mean of the four corners with the weight `sx` for the right ones and `sy` for the upper
ones, times 65536 twice. -/
def Corners.blend (a : Corners Int) (sx sy : UInt16) : Int :=
  mix sy (mix sx a.c00 a.c10) (mix sx a.c01 a.c11)

/-- All four corners have a property. -/
def Corners.All {α : Type} (holds : α → Prop) (a : Corners α) : Prop :=
  holds a.c00 ∧ holds a.c01 ∧ holds a.c10 ∧ holds a.c11

/-- The corners with columns and rows exchanged. -/
def Corners.transpose {α : Type} (a : Corners α) : Corners α where
  c00 := a.c00
  c01 := a.c10
  c10 := a.c01
  c11 := a.c11

/-- The mean of four corners is that of the exchanged corners with the weights exchanged. -/
theorem Corners.blend_transpose (a : Corners Int) (sx sy : UInt16) :
    a.transpose.blend sy sx = a.blend sx sy :=
  mix_mix sy sx _ _ _ _

section blend

variable {a : Corners Int} {bound : Int} (sx sy : UInt16)

/-- A mean of four corners is no greater than a bound of them all. -/
theorem Corners.blend_le (h : a.All (· ≤ bound)) : a.blend sx sy ≤ 65536 * (65536 * bound) :=
  mix_le (mix_le h.1 h.2.2.1) (mix_le h.2.1 h.2.2.2)

/-- A mean of four corners is no less than a bound of them all. -/
theorem Corners.le_blend (h : a.All (bound ≤ ·)) : 65536 * (65536 * bound) ≤ a.blend sx sy :=
  le_mix (le_mix h.1 h.2.2.1) (le_mix h.2.1 h.2.2.2)

/-- A mean of four corners is no further from zero than each of them may be. -/
theorem Corners.abs_blend_le (h : a.All (|·| ≤ bound)) :
    |a.blend sx sy| ≤ 65536 * (65536 * bound) :=
  abs_mix_le (abs_mix_le h.1 h.2.2.1) (abs_mix_le h.2.1 h.2.2.2)

end blend

/-! ## The weights of a fraction -/

section weights

variable (t : UInt16)

/-- No weight is out of its word: `3 t^2 - 2 t^3` is less than 1 by `(1 - t)^2 (1 + 2 t)`. -/
theorem toNat_smooth :
    (smooth t).toNat = t.toNat * t.toNat * (196608 - 2 * t.toNat) / 4294967296 := by
  have ht := t.toNat_lt
  have hrest : 0 < (65536 - t.toNat : Int) * (65536 - t.toNat) * (65536 + 2 * t.toNat) :=
    mul_pos (mul_pos (by omega) (by omega)) (by omega)
  have hlt : t.toNat * t.toNat * (196608 - 2 * t.toNat) < 4294967296 * 65536 := by
    zify [show 2 * t.toNat ≤ 196608 by omega]
    linarith
  exact Nat.mod_eq_of_lt (Nat.div_lt_of_lt_mul hlt)

/-- Half a slope is three quarters at most, as `t (1 - t)` is a quarter at most. -/
theorem three_mul_le : 3 * t.toNat * (65536 - t.toNat) ≤ 65536 * 49152 := by
  have ht := t.toNat_lt
  have hsquare := mul_self_nonneg (32768 - t.toNat : Int)
  zify [ht.le]
  linarith

/-- No half of a slope is out of its word. -/
theorem toNat_smoothSlope :
    (smoothSlope t).toNat = 3 * t.toNat * (65536 - t.toNat) / 65536 :=
  Nat.mod_eq_of_lt (Nat.lt_of_le_of_lt (Nat.div_le_of_le_mul (three_mul_le t)) (by decide))

/-- Half a slope is a weight of three quarters at most. -/
theorem toNat_smoothSlope_le : (smoothSlope t).toNat ≤ 49152 := by
  rw [toNat_smoothSlope]
  exact Nat.div_le_of_le_mul (three_mul_le t)

/-- A weight is its cubic, rounded down. -/
theorem smooth_bounds :
    65536 * 65536 * ((smooth t).toNat : Int) ≤ t.toNat * t.toNat * (196608 - 2 * t.toNat) ∧
      (t.toNat * t.toNat * (196608 - 2 * t.toNat) : Int) <
        65536 * 65536 * (smooth t).toNat + 65536 * 65536 := by
  have ht := t.toNat_lt
  have hcast : (t.toNat * t.toNat * (196608 - 2 * t.toNat) : Int) =
      (t.toNat * t.toNat * (196608 - 2 * t.toNat) : Nat) := by
    push_cast [show 2 * t.toNat ≤ 196608 by omega]
    rfl
  rw [toNat_smooth, hcast]
  omega

/-- Half a slope is its parabola, rounded down. -/
theorem smoothSlope_bounds :
    65536 * ((smoothSlope t).toNat : Int) ≤ 3 * t.toNat * (65536 - t.toNat) ∧
      (3 * t.toNat * (65536 - t.toNat) : Int) < 65536 * (smoothSlope t).toNat + 65536 := by
  have ht := t.toNat_lt
  have hcast : (3 * t.toNat * (65536 - t.toNat) : Int) =
      (3 * t.toNat * (65536 - t.toNat) : Nat) := by
    push_cast [ht.le]
    rfl
  rw [toNat_smoothSlope, hcast]
  omega

end weights

/-! ## The formulas -/

namespace Exact

/-- A number times a weight. -/
def weigh (a : Int) (w : UInt16) : Int := a * w.toNat / 65536

/-- The height at an offset from a corner, along the plane of its gradient. -/
def planeHeight (g : Gradient) (dx dy : Int) : Int :=
  (g.x.toInt * dx + g.y.toInt * dy) / 65536

/-- The heights that the planes of the four corners have at an offset from the first. -/
def planeHeights (g : Corners Gradient) (x y : Int) : Corners Int where
  c00 := planeHeight g.c00 x y
  c01 := planeHeight g.c01 x (y - cellSpan)
  c10 := planeHeight g.c10 (x - cellSpan) y
  c11 := planeHeight g.c11 (x - cellSpan) (y - cellSpan)

/-- The mixed difference of four numbers. -/
def mixedDifference (q : Corners Int) : Int := q.c00 - q.c01 - q.c10 + q.c11

/-- The rise of the blend from the row of the corner to the row above. -/
def riseY (q : Corners Int) (sx : UInt16) : Int := q.c01 - q.c00 + weigh (mixedDifference q) sx

/-- The rise of the blend from the column of the corner to the next. -/
def riseX (q : Corners Int) (sy : UInt16) : Int := q.c10 - q.c00 + weigh (mixedDifference q) sy

/-- The height blended from four heights. -/
def blendHeight (q : Corners Int) (sx sy : UInt16) : Int :=
  q.c00 + weigh (q.c10 - q.c00) sx + weigh (riseY q sx) sy

/-- One coordinate of the four corner gradients, blended. -/
def blendSlope (g : Corners Int) (sx sy sxy : UInt16) : Int :=
  g.c00 + weigh (g.c10 - g.c00) sx + weigh (g.c01 - g.c00) sy + weigh (mixedDifference g) sxy

/-- The number with its lowest bit set. -/
def makeOdd (v : Int) : Int := v / 2 * 2 + 1

/-- The gradient's component from the blend of the corner gradients and the rise of the blend. -/
def slopeComponent (blend rise : Int) (slope : UInt16) : Int :=
  makeOdd (32 * blend + weigh rise slope)

/-- Exchanging columns and rows leaves the mixed difference. -/
theorem mixedDifference_transpose (q : Corners Int) :
    mixedDifference q.transpose = mixedDifference q := by
  unfold mixedDifference Corners.transpose
  ring

/-- Across the exchanged corners is along the corners. -/
theorem riseX_transpose (q : Corners Int) (s : UInt16) : riseX q.transpose s = riseY q s := by
  unfold riseX riseY
  rw [mixedDifference_transpose]
  rfl

/-- The blended slope does not tell columns from rows. -/
theorem blendSlope_transpose (g : Corners Int) (sx sy sxy : UInt16) :
    blendSlope g.transpose sy sx sxy = blendSlope g sx sy sxy := by
  unfold blendSlope
  rw [mixedDifference_transpose]
  unfold Corners.transpose
  ring

/-! ## Formulas and means -/

section means

variable (q g : Corners Int) (s sx sy : UInt16) (a : Int)

/-- A number times a weight, rounded down. -/
theorem weigh_bounds (w : UInt16) :
    65536 * weigh a w ≤ a * w.toNat ∧ a * w.toNat < 65536 * weigh a w + 65536 := by
  unfold weigh
  omega

/-- A rise mixes the differences along two sides of the cell, and is rounded once. -/
theorem riseX_bounds :
    65536 * riseX q s ≤ mix s (q.c10 - q.c00) (q.c11 - q.c01) ∧
      mix s (q.c10 - q.c00) (q.c11 - q.c01) < 65536 * riseX q s + 65536 := by
  have hmix : mix s (q.c10 - q.c00) (q.c11 - q.c01) =
      65536 * (q.c10 - q.c00) + mixedDifference q * s.toNat := by
    unfold mix mixedDifference
    ring
  have hweigh := weigh_bounds (mixedDifference q) s
  rw [hmix, riseX]
  omega

/-- The rise the other way mixes the differences along the other two sides, and is rounded once. -/
theorem riseY_bounds :
    65536 * riseY q s ≤ mix s (q.c01 - q.c00) (q.c11 - q.c10) ∧
      mix s (q.c01 - q.c00) (q.c11 - q.c10) < 65536 * riseY q s + 65536 := by
  have h := riseX_bounds q.transpose s
  rw [riseX_transpose] at h
  exact h

/-- Three roundings, all downward, take less than 3 off a height. -/
theorem blendHeight_bounds :
    65536 * 65536 * blendHeight q sx sy ≤ q.blend sx sy ∧
      q.blend sx sy < 65536 * 65536 * (blendHeight q sx sy + 3) := by
  have hlt := sy.toNat_lt
  have hside := weigh_bounds (q.c10 - q.c00) sx
  have hrise := riseY_bounds q sx
  have htop := weigh_bounds (riseY q sx) sy
  -- the blend climbs from the lower side by the rise that `riseY` rounds
  have hblend : q.blend sx sy = 65536 * mix sx q.c00 q.c10 +
      mix sx (q.c01 - q.c00) (q.c11 - q.c10) * sy.toNat := by
    unfold Corners.blend mix
    ring
  have hlower : mix sx q.c00 q.c10 = 65536 * q.c00 + (q.c10 - q.c00) * sx.toNat := by
    unfold mix
    ring
  have hle := mul_le_mul_of_nonneg_right hrise.1 (show (0 : Int) ≤ sy.toNat by omega)
  have hge := mul_le_mul_of_nonneg_right hrise.2.le (show (0 : Int) ≤ sy.toNat by omega)
  rw [hblend, hlower, blendHeight]
  constructor <;> linarith

/-- A blended gradient is off the blend by three roundings, and by what the product of the two
weights has lost. -/
theorem blendSlope_bounds (hmixed : |mixedDifference g| ≤ 510) :
    65536 * 65536 * blendSlope g sx sy (weightMul sx sy) ≤ g.blend sx sy + 65536 * 510 ∧
      g.blend sx sy <
        65536 * 65536 * (blendSlope g sx sy (weightMul sx sy) + 3) + 65536 * 510 := by
  have hcol := weigh_bounds (g.c10 - g.c00) sx
  have hrow := weigh_bounds (g.c01 - g.c00) sy
  have hboth := weigh_bounds (mixedDifference g) (weightMul sx sy)
  have hblend : g.blend sx sy = 65536 * 65536 * g.c00 + 65536 * ((g.c10 - g.c00) * sx.toNat) +
      65536 * ((g.c01 - g.c00) * sy.toNat) + mixedDifference g * (sx.toNat * sy.toNat) := by
    unfold Corners.blend mix mixedDifference
    ring
  have hproduct : ∃ lost : Int, 0 ≤ lost ∧ lost ≤ 65536 ∧
      (sx.toNat : Int) * sy.toNat = 65536 * (weightMul sx sy).toNat + lost := by
    refine ⟨(sx.toNat * sy.toNat % 65536 : Nat), ?_, ?_, ?_⟩
    · omega
    · omega
    · rw [toNat_weightMul]
      exact_mod_cast (Nat.div_add_mod _ _).symm
  obtain ⟨lost, hlost, hlost', hproduct⟩ := hproduct
  have hloss : |mixedDifference g * lost| ≤ 510 * 65536 := by
    rw [abs_mul, abs_of_nonneg hlost]
    exact mul_le_mul hmixed hlost' hlost (by decide)
  rw [abs_le] at hloss
  rw [hblend, hproduct, blendSlope]
  constructor <;> linarith

end means

/-! ## Sizes -/

/-- A signed byte times a number that is not negative. -/
theorem mul_bounds (a : Int8) {n : Int} (h : 0 ≤ n) :
    -(128 * n) ≤ a.toInt * n ∧ a.toInt * n ≤ 127 * n := by
  have hlow := a.le_toInt
  have hhigh := a.toInt_lt
  constructor
  · linarith [mul_le_mul_of_nonneg_right hlow h]
  · exact mul_le_mul_of_nonneg_right (by omega) h

section sizes

variable (g : Corners Gradient) {x y : Int}

/-- The height of a plane is rounded once. -/
theorem planeHeight_bounds (a : Gradient) (dx dy : Int) :
    65536 * planeHeight a dx dy ≤ a.x.toInt * dx + a.y.toInt * dy ∧
      a.x.toInt * dx + a.y.toInt * dy < 65536 * planeHeight a dx dy + 65536 := by
  unfold planeHeight
  omega

/-- The size of a component of a gradient. -/
theorem abs_toInt_le (a : Int8) : |a.toInt| ≤ 128 :=
  abs_le.mpr ⟨a.le_toInt, by linarith [a.toInt_lt]⟩

/-- The size of a difference of two components. -/
theorem abs_toInt_sub_le (a b : Int8) : |a.toInt - b.toInt| ≤ 255 := by
  have ha := a.toInt_lt
  have hb := b.toInt_lt
  have ha' := a.le_toInt
  have hb' := b.le_toInt
  rw [abs_le]
  omega

/-- Within a cell, no plane rises further than this from its corner. -/
theorem abs_planeHeight_le (a : Gradient) {dx dy : Int} (hx : |dx| ≤ cellSpan)
    (hy : |dy| ≤ cellSpan) : |planeHeight a dx dy| ≤ 16384 := by
  have hspan : cellSpan = 4194304 := rfl
  have hsize (b : Int8) {n : Int} (hn : |n| ≤ cellSpan) : |b.toInt * n| ≤ 128 * cellSpan := by
    rw [abs_mul]
    exact mul_le_mul (abs_toInt_le b) hn (abs_nonneg n) (by decide)
  have hxs := abs_le.mp (hsize a.x hx)
  have hys := abs_le.mp (hsize a.y hy)
  have hplane := planeHeight_bounds a dx dy
  rw [abs_le]
  omega

/-- The planes of two corners on one side of the cell, `a` on the left and `b` on the right. -/
theorem abs_planeHeight_sub_le (a b : Gradient) {dy : Int} (hx : 0 ≤ x) (hx' : x ≤ cellSpan)
    (hy : |dy| ≤ cellSpan) : |planeHeight b (x - cellSpan) dy - planeHeight a x dy| ≤ 24512 := by
  have hspan : cellSpan = 4194304 := rfl
  have hleft := planeHeight_bounds a x dy
  have hright := planeHeight_bounds b (x - cellSpan) dy
  have hax := mul_bounds a.x hx
  have hbx := mul_bounds b.x (sub_nonneg.mpr hx')
  have hback : b.x.toInt * (x - cellSpan) = -(b.x.toInt * (cellSpan - x)) := by ring
  have hacross : |(b.y.toInt - a.y.toInt) * dy| ≤ 255 * cellSpan := by
    rw [abs_mul]
    exact mul_le_mul (abs_toInt_sub_le _ _) hy (abs_nonneg dy) (by decide)
  rw [sub_mul, abs_le] at hacross
  rw [hback] at hright
  rw [abs_le]
  omega

variable (hx : 0 ≤ x) (hx' : x ≤ cellSpan) (hy : 0 ≤ y) (hy' : y ≤ cellSpan)

include hx hx' hy hy'

/-- How much higher the planes of the right corners are than those of the left ones. -/
theorem abs_across_le :
    |(planeHeights g x y).c10 - (planeHeights g x y).c00| ≤ 24512 ∧
      |(planeHeights g x y).c11 - (planeHeights g x y).c01| ≤ 24512 := by
  have hnear : |y| ≤ cellSpan := abs_le.mpr ⟨by linarith, hy'⟩
  have hfar : |y - cellSpan| ≤ cellSpan := abs_le.mpr ⟨by linarith, by linarith⟩
  exact ⟨abs_planeHeight_sub_le _ _ hx hx' hnear, abs_planeHeight_sub_le _ _ hx hx' hfar⟩

/-- No height of a plane gets out of a word of 16 bits. -/
theorem abs_planeHeights_le : (planeHeights g x y).All (|·| ≤ 16384) := by
  have hx0 : |x| ≤ cellSpan := abs_le.mpr ⟨by linarith, hx'⟩
  have hy0 : |y| ≤ cellSpan := abs_le.mpr ⟨by linarith, hy'⟩
  have hx1 : |x - cellSpan| ≤ cellSpan := abs_le.mpr ⟨by linarith, by linarith⟩
  have hy1 : |y - cellSpan| ≤ cellSpan := abs_le.mpr ⟨by linarith, by linarith⟩
  exact ⟨abs_planeHeight_le _ hx0 hy0, abs_planeHeight_le _ hx0 hy1, abs_planeHeight_le _ hx1 hy0,
    abs_planeHeight_le _ hx1 hy1⟩

/-- The four planes taken crosswise: a signed word of 16 bits has room for 126 more. -/
theorem abs_mixedDifference_le : |mixedDifference (planeHeights g x y)| ≤ 32641 := by
  have hspan : cellSpan = 4194304 := rfl
  have hback (a : Int8) (n : Int) : a.toInt * (n - cellSpan) = -(a.toInt * (cellSpan - n)) := by
    ring
  have h00 := planeHeight_bounds g.c00 x y
  have h01 := planeHeight_bounds g.c01 x (y - cellSpan)
  have h10 := planeHeight_bounds g.c10 (x - cellSpan) y
  have h11 := planeHeight_bounds g.c11 (x - cellSpan) (y - cellSpan)
  simp only [hback] at h01 h10 h11
  have h00x := mul_bounds g.c00.x hx
  have h01x := mul_bounds g.c01.x hx
  have h10x := mul_bounds g.c10.x (sub_nonneg.mpr hx')
  have h11x := mul_bounds g.c11.x (sub_nonneg.mpr hx')
  have h00y := mul_bounds g.c00.y hy
  have h10y := mul_bounds g.c10.y hy
  have h01y := mul_bounds g.c01.y (sub_nonneg.mpr hy')
  have h11y := mul_bounds g.c11.y (sub_nonneg.mpr hy')
  simp only [mixedDifference, planeHeights, abs_le]
  omega

end sizes

end Exact

/-! ## The mirrored cell -/

/-- The pair with its coordinates exchanged. -/
def Pair.swap {α : Type} (p : Pair α) : Pair α := ⟨p.y, p.x⟩

/-- What is done to the corners one thing after the other may be done at once. -/
theorem Corners.map_map {α β γ : Type} (g : Corners α) (h : α → β) (k : β → γ) :
    (g.map h).map k = g.map fun a => k (h a) := rfl

/-- The gradients of a cell seen in its diagonal. -/
def Corners.mirror (g : Corners Gradient) : Corners Gradient := (g.map Pair.swap).transpose

/-- The product of two weights does not depend on their order. -/
theorem weightMul_comm (a b : UInt16) : weightMul a b = weightMul b a := by
  unfold weightMul
  rw [Nat.mul_comm]

namespace Exact

/-- The planes of the mirrored cell have the heights of the planes of the cell, exchanged. -/
theorem planeHeights_mirror (g : Corners Gradient) (x y : Int) :
    planeHeights g.mirror y x = (planeHeights g x y).transpose := by
  have hplane (a : Gradient) (dx dy : Int) : planeHeight a.swap dy dx = planeHeight a dx dy := by
    unfold planeHeight Pair.swap
    rw [add_comm]
  simp only [planeHeights, Corners.mirror, Corners.transpose, Corners.map, hplane]

/-- How much higher the planes of the upper corners are than those of the lower ones. -/
theorem abs_along_le (g : Corners Gradient) {x y : Int} (hx : 0 ≤ x) (hx' : x ≤ cellSpan)
    (hy : 0 ≤ y) (hy' : y ≤ cellSpan) :
    |(planeHeights g x y).c01 - (planeHeights g x y).c00| ≤ 24512 ∧
      |(planeHeights g x y).c11 - (planeHeights g x y).c10| ≤ 24512 := by
  have h := abs_across_le g.mirror hy hy' hx hx'
  rwa [planeHeights_mirror] at h

end Exact

end RideProof
