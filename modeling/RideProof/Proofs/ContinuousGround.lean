import RideProof.Proofs.ExactSampling

/-!
# The ground is continuous

One unit to the side changes the height of the ground by 4 at most: inside a cell, from one cell to
the next, and across the seam of the map.

A height is its blend rounded down by less than 3, so it is enough that the blend moves by less
than 2 (`StepRight.abs_sub_lt`). Inside a cell the heights of the planes move by 1 at most, and the
weight by two 65536ths, of differences that are 24512 at most. At a border the left cell has almost
all of its weight on the two corners that the right cell starts from, and nearly the same planes
there. A step upward is a step to the right in the mirrored cell.

* `StepRight` — a place in a cell and the place one unit to its right.
* `Field.stepRight`, `Field.stepUp` — the steps of a position.
* `Field.height_step` — the bound on the heights.
-/

namespace RideProof

/-! ## The blend under a step -/

/-- The blend of the four planes at a place in a cell, times 65536 twice. -/
def Exact.groundBlend (g : Corners Gradient) (l : Locus) : Int :=
  (planeHeights g l.x l.y).blend l.weightX l.weightY

/-- The mirrored cell has the blend of the cell. -/
theorem Exact.groundBlend_mirror (g : Corners Gradient) (l : Locus) :
    groundBlend g.mirror l.swap = groundBlend g l := by
  have hplanes : planeHeights g.mirror l.swap.x l.swap.y = (planeHeights g l.x l.y).transpose :=
    planeHeights_mirror g l.x l.y
  rw [groundBlend, hplanes]
  exact Corners.blend_transpose _ _ _

/-- `StepRight g l g' l'`: the place `l'` in a cell with the gradients `g'` is at most one unit of
the cell to the right of the place `l` in a cell with the gradients `g`. -/
inductive StepRight (g : Corners Gradient) (l : Locus) (g' : Corners Gradient) (l' : Locus) : Prop
  /-- In the same cell. -/
  | inside : g' = g → l'.y = l.y → (l'.x = l.x ∨ l'.x = l.x + 1) → StepRight g l g' l'
  /-- From the right border of one cell to the left one of the next. -/
  | across : g'.c00 = g.c10 → g'.c01 = g.c11 → l'.y = l.y → l.x + 1 = 4194304 → l'.x = 0 →
      StepRight g l g' l'

/-- One step of the fraction takes the weight up by two steps at most. -/
theorem smooth_succ {t u : UInt16} (h : u.toNat = t.toNat + 1) :
    (smooth t).toNat ≤ (smooth u).toNat ∧ (smooth u).toNat ≤ (smooth t).toNat + 2 := by
  have hlt := u.toNat_lt
  have ht := smooth_bounds t
  have hu := smooth_bounds u
  have hcast : (u.toNat : Int) = t.toNat + 1 := by exact_mod_cast h
  rw [hcast] at hu
  -- the cubic grows by `6 t (65536 - t) + 196608 - 6 t - 2`
  have hgap : 0 ≤ (t.toNat : Int) * (65535 - t.toNat) :=
    mul_nonneg (Int.natCast_nonneg _) (by omega)
  have hsquare := mul_self_nonneg (32768 - t.toNat : Int)
  have hup : (t.toNat * t.toNat * (196608 - 2 * t.toNat) : Int) ≤
      (t.toNat + 1) * (t.toNat + 1) * (196608 - 2 * (t.toNat + 1)) := by linarith
  have hdown : ((t.toNat + 1) * (t.toNat + 1) * (196608 - 2 * (t.toNat + 1)) : Int) ≤
      t.toNat * t.toNat * (196608 - 2 * t.toNat) + 2 * (65536 * 65536) := by linarith
  omega

section steps

variable {g g' : Corners Gradient} {l l' : Locus}

/-- By a unit to the right, the weight rises by two at most. -/
theorem weightX_succ (h : l.Inside) (h' : l'.Inside) (hx : l'.x = l.x + 1) :
    l.weightX.toNat ≤ l'.weightX.toNat ∧ l'.weightX.toNat ≤ l.weightX.toNat + 2 := by
  have hfrac := h.toNat_fracX
  have hfrac' := h'.toNat_fracX
  rw [hx] at hfrac'
  rcases (by omega : (l.x + 1) / 64 = l.x / 64 ∨ (l.x + 1) / 64 = l.x / 64 + 1) with hsame | hnext
  · have hweight : l'.fracX = l.fracX := UInt16.toNat_inj.mp (by omega)
    rw [Locus.weightX, Locus.weightX, hweight]
    omega
  · exact smooth_succ (by omega)

/-- A plane moves by a gradient's part of 65536 in a step. -/
theorem abs_planeHeight_succ_le (a : Gradient) (dx dy : Int) :
    |Exact.planeHeight a (dx + 1) dy - Exact.planeHeight a dx dy| ≤ 1 := by
  have hhere := Exact.planeHeight_bounds a dx dy
  have hthere := Exact.planeHeight_bounds a (dx + 1) dy
  have hslope := abs_le.mp (Exact.abs_toInt_le a.x)
  rw [mul_add, mul_one] at hthere
  rw [abs_le]
  omega

/-- Two means of the same numbers are apart by what their weights are. -/
theorem mix_weight_sub (v w : UInt16) (a b : Int) :
    mix w a b - mix v a b = (w.toNat - v.toNat) * (b - a) := by
  unfold mix
  ring

/-- Blends with the same weights are no further apart than their corners. -/
theorem Corners.abs_blend_sub_le {a b : Corners Int} {bound : Int} (sx sy : UInt16)
    (h00 : |a.c00 - b.c00| ≤ bound) (h01 : |a.c01 - b.c01| ≤ bound)
    (h10 : |a.c10 - b.c10| ≤ bound) (h11 : |a.c11 - b.c11| ≤ bound) :
    |a.blend sx sy - b.blend sx sy| ≤ 65536 * (65536 * bound) := by
  have hsub : a.blend sx sy - b.blend sx sy = mix sy (mix sx (a.c00 - b.c00) (a.c10 - b.c10))
      (mix sx (a.c01 - b.c01) (a.c11 - b.c11)) := by
    simp only [blend, mix_sub]
  rw [hsub]
  exact abs_mix_le (abs_mix_le h00 h10) (abs_mix_le h01 h11)

/-- The blend moves by two steps of a weight as by two parts of the difference it weighs. -/
theorem Corners.abs_blend_weight_sub_le {a : Corners Int} {bound : Int} {v w : UInt16} (sy : UInt16)
    (hvw : v.toNat ≤ w.toNat) (hvw' : w.toNat ≤ v.toNat + 2) (hlow : |a.c10 - a.c00| ≤ bound)
    (hhigh : |a.c11 - a.c01| ≤ bound) : |a.blend w sy - a.blend v sy| ≤ 65536 * (2 * bound) := by
  have hsub : a.blend w sy - a.blend v sy =
      mix sy ((w.toNat - v.toNat) * (a.c10 - a.c00)) ((w.toNat - v.toNat) * (a.c11 - a.c01)) := by
    rw [← mix_weight_sub, ← mix_weight_sub, mix_sub]
    rfl
  have hstep : |(w.toNat - v.toNat : Int)| ≤ 2 := abs_le.mpr ⟨by omega, by omega⟩
  have hside {d : Int} (hd : |d| ≤ bound) : |(w.toNat - v.toNat) * d| ≤ 2 * bound := by
    rw [abs_mul]
    exact mul_le_mul hstep hd (abs_nonneg d) (by decide)
  rw [hsub]
  exact abs_mix_le (hside hlow) (hside hhigh)

/-- Inside a cell. -/
theorem abs_groundBlend_succ_lt (g : Corners Gradient) (h : l.Inside) (h' : l'.Inside)
    (hx : l'.x = l.x + 1) (hy : l'.y = l.y) :
    |Exact.groundBlend g l' - Exact.groundBlend g l| < 2 * (65536 * 65536) := by
  have hY : l'.weightY = l.weightY := by simp only [Locus.weightY, Locus.fracY, hy]
  have hplanes : |(Exact.planeHeights g l'.x l'.y).blend l'.weightX l.weightY -
      (Exact.planeHeights g l.x l.y).blend l'.weightX l.weightY| ≤ 65536 * (65536 * 1) := by
    have hcast : (l'.x : Int) = l.x + 1 := by exact_mod_cast hx
    have hfar : (l.x : Int) + 1 - cellSpan = l.x - cellSpan + 1 := by ring
    rw [hcast, hy]
    apply Corners.abs_blend_sub_le <;> simp only [Exact.planeHeights, hfar] <;>
      exact abs_planeHeight_succ_le _ _ _
  obtain ⟨hup, hup'⟩ := weightX_succ h h' hx
  obtain ⟨hlow, hhigh⟩ :=
    Exact.abs_across_le g l.x.cast_nonneg h.x_lt.le l.y.cast_nonneg h.y_lt.le
  have hweights := Corners.abs_blend_weight_sub_le l.weightY hup hup' hlow hhigh
  rw [Exact.groundBlend, Exact.groundBlend, hY]
  rw [abs_le] at hplanes hweights
  rw [abs_lt]
  omega

/-- Of two sides that meet at the border, the right one has all of its weight there and the left one
all but a 65536th. -/
theorem abs_mix_border_le {a b c d : Int} (had : |a - d| ≤ 1) (hdc : |d - c| ≤ 24512) :
    |mix 0 a b - mix 65535 c d| ≤ 65536 + 24512 := by
  have hmix : mix 0 a b - mix 65535 c d = 65536 * (a - d) + (d - c) := by
    simp only [mix, UInt16.toNat_ofNat]
    ring
  rw [abs_le] at had hdc
  rw [hmix, abs_le]
  omega

/-- From one cell to the next. -/
theorem abs_groundBlend_across_lt (h : l.Inside) (hright : g'.c00 = g.c10)
    (hright' : g'.c01 = g.c11) (hy : l'.y = l.y) (hx : l.x + 1 = 4194304) (hx' : l'.x = 0) :
    |Exact.groundBlend g' l' - Exact.groundBlend g l| < 2 * (65536 * 65536) := by
  have hspan : cellSpan = 4194304 := rfl
  have hY : l'.weightY = l.weightY := by simp only [Locus.weightY, Locus.fracY, hy]
  have hend : l.weightX = 65535 := by
    rw [Locus.weightX, Locus.fracX, show l.x / 64 = 65535 by omega]
    decide
  have hstart : l'.weightX = 0 := by
    rw [Locus.weightX, Locus.fracX, hx']
    decide
  have hborder : (l'.x : Int) = l.x - cellSpan + 1 := by omega
  obtain ⟨hlow, hhigh⟩ :=
    Exact.abs_across_le g l.x.cast_nonneg h.x_lt.le l.y.cast_nonneg h.y_lt.le
  have hlow' := abs_planeHeight_succ_le g.c10 (l.x - cellSpan) l.y
  have hhigh' := abs_planeHeight_succ_le g.c11 (l.x - cellSpan) (l.y - cellSpan)
  rw [← hborder] at hlow' hhigh'
  rw [Exact.groundBlend, Exact.groundBlend, hY, hend, hstart, Corners.blend, Corners.blend,
    ← mix_sub]
  have hbound := abs_mix_le (w := l.weightY)
    (abs_mix_border_le (b := (Exact.planeHeights g' l'.x l'.y).c10) hlow' hlow)
    (abs_mix_border_le (b := (Exact.planeHeights g' l'.x l'.y).c11) hhigh' hhigh)
  simp only [Exact.planeHeights, hright, hright', hy] at hbound ⊢
  rw [abs_le] at hbound
  rw [abs_lt]
  omega

/-- A step moves the blend by less than 2. -/
theorem StepRight.abs_sub_lt (hstep : StepRight g l g' l') (h : l.Inside) (h' : l'.Inside) :
    |Exact.groundBlend g' l' - Exact.groundBlend g l| < 2 * (65536 * 65536) := by
  cases hstep with
  | inside hg hy hx =>
    subst hg
    rcases hx with hx | hx
    · have hsame : Exact.groundBlend g' l' = Exact.groundBlend g' l := by
        simp only [Exact.groundBlend, Locus.weightX, Locus.weightY, Locus.fracX, Locus.fracY, hx,
          hy]
      rw [hsame, sub_self, abs_zero]
      decide
    · exact abs_groundBlend_succ_lt g' h h' hx hy
  | across hright hright' hy hx hx' => exact abs_groundBlend_across_lt h hright hright' hy hx hx'

end steps

/-! ## Steps of a position -/

/-- The column or row of a coordinate one unit further, and its place in there: the same, or the
first one of the next column or row around the torus. -/
theorem coordinate_succ (a : Int32) :
    ((a + 1).toUInt32.toNat / 268435456 = a.toUInt32.toNat / 268435456 ∧
      ((a + 1).toUInt32.toNat % 268435456 / 64 = a.toUInt32.toNat % 268435456 / 64 ∨
        (a + 1).toUInt32.toNat % 268435456 / 64 = a.toUInt32.toNat % 268435456 / 64 + 1)) ∨
    ((a + 1).toUInt32.toNat / 268435456 = (a.toUInt32.toNat / 268435456 + 1) % 16 ∧
      a.toUInt32.toNat % 268435456 / 64 + 1 = 4194304 ∧
      (a + 1).toUInt32.toNat % 268435456 / 64 = 0) := by
  have hlt := a.toUInt32.toNat_lt
  have hsucc : (a + 1).toUInt32.toNat = (a.toUInt32.toNat + 1) % 4294967296 :=
    UInt32.toNat_add a.toUInt32 1
  rw [hsucc]
  omega

section field

variable (f : Field) (p : Point)

/-- A step to the right. -/
theorem Field.stepRight :
    StepRight (f.corners (.of p)) (.of p) (f.corners (.of (p + ⟨1, 0⟩))) (.of (p + ⟨1, 0⟩)) := by
  have hy : p.y + 0 = p.y := Int32.add_zero p.y
  rcases coordinate_succ p.x with ⟨hcol, hx⟩ | ⟨hcol, hx, hx'⟩
  · refine .inside ?_ ?_ hx
    · simp only [corners, Locus.of, Pair.add_x, Pair.add_y, hcol, hy]
    · simp only [Locus.of, Pair.add_y, hy]
  · refine .across ?_ ?_ ?_ hx hx'
    · simp only [corners, Locus.of, Pair.add_x, Pair.add_y, hcol, hy]
      exact f.cell_mod_col _ _
    · simp only [corners, Locus.of, Pair.add_x, Pair.add_y, hcol, hy]
      exact f.cell_mod_col _ _
    · simp only [Locus.of, Pair.add_y, hy]

/-- A step upward is one to the right in the mirrored cell. -/
theorem Field.stepUp :
    StepRight (f.corners (.of p)).mirror (Locus.of p).swap
      (f.corners (.of (p + ⟨0, 1⟩))).mirror (Locus.of (p + ⟨0, 1⟩)).swap := by
  have hx : p.x + 0 = p.x := Int32.add_zero p.x
  rcases coordinate_succ p.y with ⟨hrow, hy⟩ | ⟨hrow, hy, hy'⟩
  · refine .inside ?_ ?_ hy
    · simp only [corners, Locus.of, Pair.add_x, Pair.add_y, hrow, hx]
    · simp only [Locus.swap, Locus.of, Pair.add_x, hx]
  · refine .across ?_ ?_ ?_ hy hy'
    · simp only [corners, Corners.mirror, Corners.map, Corners.transpose, Locus.of, Pair.add_x,
        Pair.add_y, hrow, hx]
      exact congrArg Pair.swap (f.cell_mod_row _ _)
    · simp only [corners, Corners.mirror, Corners.map, Corners.transpose, Locus.of, Pair.add_x,
        Pair.add_y, hrow, hx]
      exact congrArg Pair.swap (f.cell_mod_row _ _)
    · simp only [Locus.swap, Locus.of, Pair.add_x, hx]

/-- Heights that round blends less than 2 apart are at most 4 apart. -/
theorem Field.abs_height_sub_le {q : Point}
    (h : |Exact.groundBlend (f.corners (.of q)) (.of q) -
      Exact.groundBlend (f.corners (.of p)) (.of p)| < 2 * (65536 * 65536)) :
    |(f.height q).toInt - (f.height p).toInt| ≤ 4 := by
  have hp := Exact.blendHeight_bounds (Exact.planesAt f p) (Locus.of p).weightX (Locus.of p).weightY
  have hq := Exact.blendHeight_bounds (Exact.planesAt f q) (Locus.of q).weightX (Locus.of q).weightY
  rw [(f.sampledExactly p).height, (f.sampledExactly q).height, Exact.height, Exact.height, abs_le]
  rw [abs_lt] at h
  unfold Exact.groundBlend at h
  unfold Exact.planesAt at hp hq ⊢
  omega

/-- By a unit to the right the height changes by 4 at most. -/
theorem Field.abs_height_right_le :
    |(f.height (p + ⟨1, 0⟩)).toInt - (f.height p).toInt| ≤ 4 :=
  f.abs_height_sub_le p ((f.stepRight p).abs_sub_lt (Locus.inside_of _) (Locus.inside_of _))

/-- By a unit upward the height changes by 4 at most. -/
theorem Field.abs_height_up_le : |(f.height (p + ⟨0, 1⟩)).toInt - (f.height p).toInt| ≤ 4 := by
  have hstep := (f.stepUp p).abs_sub_lt (Locus.inside_of p).swap (Locus.inside_of _).swap
  rw [Exact.groundBlend_mirror, Exact.groundBlend_mirror] at hstep
  exact f.abs_height_sub_le p hstep

/-- **The ground is continuous.** One unit to the right, to the left, up or down, around the torus,
changes the height by 4 at most. -/
theorem Field.height_step :
    |(f.height (p + ⟨1, 0⟩)).toInt - (f.height p).toInt| ≤ 4 ∧
    |(f.height (p - ⟨1, 0⟩)).toInt - (f.height p).toInt| ≤ 4 ∧
    |(f.height (p + ⟨0, 1⟩)).toInt - (f.height p).toInt| ≤ 4 ∧
    |(f.height (p - ⟨0, 1⟩)).toInt - (f.height p).toInt| ≤ 4 := by
  have hback (d : Point) : p - d + d = p := by
    apply Pair.ext <;> simp
  have hleft := f.abs_height_right_le (p - ⟨1, 0⟩)
  have hdown := f.abs_height_up_le (p - ⟨0, 1⟩)
  rw [hback, abs_sub_comm] at hleft hdown
  exact ⟨f.abs_height_right_le p, hleft, f.abs_height_up_le p, hdown⟩

end field

end RideProof
