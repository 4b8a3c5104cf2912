import RideProof.Proofs.ExactSampling
import RideProof.Proofs.Moves

/-!
# The walkability grid and the ground

Two passes of loops set the cells of a field's grid. Each inner loop sets the cells of a row one
after the other and leaves the rest of the grid alone (`walkable_scanRow`), each outer loop sets the
rows one after the other (`walkable_scanRows`); together they set the cells inside the border and no
other, each from a point of its own (`walkable_ofField`).

A cell is set as the height is below the level. That is where the ground is at some distance: the
inverse length never rounds the distance down to nothing (`groundDistance_pos_iff`).

* `WalkGrid.sampleX`, `WalkGrid.sampleY` — the point that a cell stands for.
* `WalkGrid.ofField_ground` — the grid by the distance to the ground.
-/

namespace RideProof

namespace WalkGrid

variable {g : WalkGrid} {c : Cell}

/-! ## The loops -/

/-- Setting a cell leaves the size of the grid. -/
@[simp] theorem side_set (g : WalkGrid) (c : Cell) (b : Bool) : (g.set c b).side = g.side := by
  unfold set
  split_ifs <;> rfl

/-- Grids of one size have the same cells. -/
theorem contains_congr {g' : WalkGrid} (h : g.side = g'.side) (c : Cell) :
    g.contains c = g'.contains c := by
  rw [contains, contains, h]

/-- Outside the grid nothing is walkable. -/
theorem walkable_of_not_contains (h : ¬ g.contains c = true) : g.walkable c = false := by
  rw [walkable, Bool.eq_false_of_not_eq_true h, Bool.false_and]

/-- A cell that was set is as it was set, and the others are as before. -/
theorem walkable_set (g : WalkGrid) (c d : Cell) (b : Bool) :
    (g.set c b).walkable d = if d = c then g.contains d && b else g.walkable d := by
  by_cases hc : g.contains c = true
  · have hread : (g.set c b).walkable d =
        (g.contains d && (g.cells.setIfInBounds (g.place c) b).getD (g.place d) false) := by
      rw [set, if_pos hc]
      rfl
    rw [hread, getD_setIfInBounds (place_lt_of_contains hc)]
    by_cases hd : g.contains d = true
    · rw [if_congr (place_eq_iff (contains_iff.mp hd).1 (contains_iff.mp hc).1) rfl rfl,
        apply_ite (g.contains d && ·)]
      rfl
    · rw [walkable_of_not_contains hd, Bool.eq_false_of_not_eq_true hd, Bool.false_and,
        Bool.false_and, ite_self]
  · rw [set, if_neg hc]
    split_ifs with hdc
    · subst hdc
      rw [walkable_of_not_contains hc, Bool.eq_false_of_not_eq_true hc, Bool.false_and]
    · rfl

/-- The loop over a row leaves the size of the grid. -/
theorem side_scanRow (f : Field) (right y : Int) (row : Nat) (g : WalkGrid) (col : Nat) (x : Int) :
    (scanRow f right y row g col x).side = g.side := by
  fun_induction scanRow f right y row g col x with
  | case1 g col x _ ih => rw [ih, side_set]
  | case2 => rfl

/-- **The cells of one row.** The loop sets the cells of its row from its column on, as far as their
points do not lie to the right of its bound, each as the ground is at its own point. -/
theorem walkable_scanRow (f : Field) (right y : Int) (row : Nat) (g : WalkGrid) (col : Nat)
    (x : Int) (c : Cell) :
    (scanRow f right y row g col x).walkable c =
      if c.y = row ∧ col ≤ c.x ∧ x + ((c.x : Int) - col) * sampleStep ≤ right then
        g.contains c && openAt f (x + ((c.x : Int) - col) * sampleStep) y
      else g.walkable c := by
  fun_induction scanRow f right y row g col x with
  | case1 g col x hx ih =>
    have hnext : x + sampleStep + ((c.x : Int) - (col + 1 : Nat)) * sampleStep =
        x + ((c.x : Int) - col) * sampleStep := by
      push_cast
      ring
    rw [ih, hnext, contains_congr (side_set g _ _), walkable_set]
    by_cases hc : c = ⟨col, row⟩
    · subst hc
      simp [hx]
    · have hrest : c.y = row → (col + 1 ≤ c.x ↔ col ≤ c.x) := by
        intro hy
        have hne : c.x ≠ col := fun hx => hc (Pair.ext hx hy)
        omega
      rw [if_neg hc]
      exact if_congr (and_congr_right fun hy => and_congr_left' (hrest hy)) rfl rfl
  | case2 g col x hx =>
    refine (if_neg ?_).symm
    rintro ⟨-, hcol, hright⟩
    have hahead : 0 ≤ ((c.x : Int) - col) * sampleStep := mul_nonneg (by omega) (by decide)
    omega

/-- The loop over the rows leaves the size of the grid. -/
theorem side_scanRows (f : Field) (right bottom : Int) (g : WalkGrid) (row : Nat) (y : Int) :
    (scanRows f right bottom g row y).1.side = g.side := by
  fun_induction scanRows f right bottom g row y with
  | case1 g row y _ ih => rw [ih, side_scanRow]
  | case2 => rfl

/-- Where the rows end that a loop sets. -/
theorem row_scanRows (f : Field) (right bottom : Int) (g : WalkGrid) (row : Nat) (y : Int)
    (h : bottom ≤ y + sampleStep) :
    ((scanRows f right bottom g row y).2 : Int) = row + (y + sampleStep - bottom) / sampleStep := by
  fun_induction scanRows f right bottom g row y with
  | case1 g row y _ ih =>
    rw [ih (by omega)]
    simp only [sampleStep]
    push_cast
    omega
  | case2 g row y hy =>
    simp only [sampleStep] at h ⊢
    omega

/-- The horizontal coordinate of the points of a column. -/
def sampleX (col : Nat) : Int := -(2 ^ 31 - 1) + (col - 1) * 2 ^ 23

/-- **The cells of the rows.** -/
theorem walkable_scanRows (f : Field) (right bottom : Int) (g : WalkGrid) (row : Nat) (y : Int)
    (c : Cell) :
    (scanRows f right bottom g row y).1.walkable c =
      if (row ≤ c.y ∧ bottom ≤ y - ((c.y : Int) - row) * sampleStep) ∧
          1 ≤ c.x ∧ sampleX c.x ≤ right then
        g.contains c && openAt f (sampleX c.x) (y - ((c.y : Int) - row) * sampleStep)
      else g.walkable c := by
  fun_induction scanRows f right bottom g row y with
  | case1 g row y hy ih =>
    have hnext : y - sampleStep - ((c.y : Int) - (row + 1 : Nat)) * sampleStep =
        y - ((c.y : Int) - row) * sampleStep := by
      push_cast
      ring
    have hleft : -2147483647 + ((c.x : Int) - (1 : Nat)) * sampleStep = sampleX c.x := rfl
    rw [ih, hnext, contains_congr (side_scanRow ..), walkable_scanRow, hleft]
    by_cases hc : c.y = row
    · simp [hc, hy]
    · have hrest : row + 1 ≤ c.y ↔ row ≤ c.y := by omega
      simp [hc, hrest]
  | case2 g row y hy =>
    refine (if_neg ?_).symm
    rintro ⟨⟨hrow, hbottom⟩, -⟩
    have hbelow : 0 ≤ ((c.y : Int) - row) * sampleStep := mul_nonneg (by omega) (by decide)
    omega

/-! ## The grid of a field -/

/-- The vertical coordinate of the points of a row. The rows start at height 0 and go downward
around the torus. -/
def sampleY (row : Nat) : Int :=
  if row ≤ 256 then -((row - 1) * 2 ^ 23) else 2 ^ 31 - 1 - (row - 257) * 2 ^ 23

/-- A cell does not lie on the border. -/
@[mk_iff inner_iff]
structure Inner (c : Cell) : Prop where
  /-- It lies in one of the columns between the outer ones. -/
  col : 1 ≤ c.x ∧ c.x ≤ 512
  /-- It lies in one of the rows between the outer ones. -/
  row : 1 ≤ c.y ∧ c.y ≤ 512

/-- A cell that does not lie on the border lies in the grid of a field. -/
theorem Inner.contains (hc : Inner c) (hside : g.side = 514) : g.contains c = true := by
  obtain ⟨hcol, hrow⟩ := hc
  rw [contains_iff, hside]
  omega

/-- In a blocked grid no cell is walkable. -/
theorem walkable_blocked (side : Nat) (c : Cell) : (blocked side).walkable c = false := by
  have hcell : (blocked side).cells.getD ((blocked side).place c) false = false := by
    by_cases hlt : (blocked side).place c < side * side
    · exact (getD_of_lt hlt).trans (Vector.getElem_ofFn hlt)
    · exact getD_of_not_lt hlt
  rw [walkable, hcell, Bool.and_false]

/-- Both bounds of the loops over a row stop behind its 512th point. -/
theorem sampleX_le_iff {col : Nat} {right : Int} (hlow : 2 ^ 31 - 2 ≤ right)
    (hhigh : right ≤ 2 ^ 31 - 1) : sampleX col ≤ right ↔ col ≤ 512 := by
  unfold sampleX
  omega

/-- The grid after the first of the two passes. -/
def lowerRows (f : Field) : WalkGrid × Nat :=
  scanRows f 2147483647 (-2147483646) (blocked (fieldCells + 2)) 1 0

/-- The grid after the first pass has its full size. -/
theorem side_lowerRows (f : Field) : (lowerRows f).1.side = 514 := side_scanRows ..

/-- The first pass ends before row 257. -/
theorem row_lowerRows (f : Field) : (lowerRows f).2 = 257 := by
  have h := row_scanRows f 2147483647 (-2147483646) (blocked (fieldCells + 2)) 1 0 (by decide)
  have hrows : (0 + sampleStep - -2147483646) / sampleStep = 256 := by decide
  rw [hrows] at h
  exact Int.ofNat.inj h

/-- The first pass sets the rows at height 0 and below. -/
theorem walkable_lowerRows (f : Field) (c : Cell) :
    (lowerRows f).1.walkable c = true ↔
      (Inner c ∧ c.y ≤ 256) ∧ openAt f (sampleX c.x) (sampleY c.y) = true := by
  have hset : ((1 ≤ c.y ∧ -2147483646 ≤ 0 - ((c.y : Int) - (1 : Nat)) * sampleStep) ∧
      1 ≤ c.x ∧ sampleX c.x ≤ 2147483647) ↔ Inner c ∧ c.y ≤ 256 := by
    rw [sampleX_le_iff (by decide) (by decide), inner_iff, sampleStep]
    omega
  rw [lowerRows, walkable_scanRows, walkable_blocked]
  split_ifs with h <;> rw [hset] at h
  · have hy : 0 - ((c.y : Int) - (1 : Nat)) * sampleStep = sampleY c.y := by
      rw [sampleY, if_pos h.2, zero_sub]
      rfl
    rw [h.1.contains rfl, Bool.true_and, hy]
    exact (and_iff_right h).symm
  · exact iff_of_false not_false fun h' => h h'.1

/-- The second pass goes on in the row where the first has ended. -/
theorem ofField_eq (f : Field) :
    ofField f = (scanRows f 2147483646 0 (lowerRows f).1 257 2147483647).1 := by
  rw [← row_lowerRows f]
  rfl

/-- The grid of a field has 514 cells on a side. -/
theorem side_ofField (f : Field) : (ofField f).side = 514 := by
  rw [ofField_eq, side_scanRows, side_lowerRows]

/-- **The cells of the grid.** Those of the border are blocked, and the others are as the ground
leaves their points. -/
theorem walkable_ofField (f : Field) (c : Cell) :
    (ofField f).walkable c = true ↔
      Inner c ∧ openAt f (sampleX c.x) (sampleY c.y) = true := by
  have hset : ((257 ≤ c.y ∧ 0 ≤ 2147483647 - ((c.y : Int) - (257 : Nat)) * sampleStep) ∧
      1 ≤ c.x ∧ sampleX c.x ≤ 2147483646) ↔ Inner c ∧ 256 < c.y := by
    rw [sampleX_le_iff (by decide) (by decide), inner_iff, sampleStep]
    omega
  rw [ofField_eq, walkable_scanRows]
  split_ifs with h <;> rw [hset] at h
  · have hy : 2147483647 - ((c.y : Int) - (257 : Nat)) * sampleStep = sampleY c.y := by
      rw [sampleY, if_neg (Nat.not_le_of_gt h.2)]
      rfl
    rw [h.1.contains (side_lowerRows f), Bool.true_and, hy]
    exact (and_iff_right h.1).symm
  · rw [walkable_lowerRows]
    have hlow (hc : Inner c) : c.y ≤ 256 := Nat.le_of_not_lt fun hy => h ⟨hc, hy⟩
    exact and_congr_left' (and_iff_left_of_imp hlow)

end WalkGrid

/-! ## The distance to the ground -/

/-- No height of the ground is further from zero than 16386. -/
theorem Field.abs_height_le (f : Field) (p : Point) : |(f.height p).toInt| ≤ 16386 := by
  rw [(f.sampledExactly p).height]
  exact (tame_planeHeights (f.corners (.of p)) (Locus.inside_of p)).height _ _

namespace Sample

variable {s : Sample}

/-- The distance over the integers that a sample outside the ground shows. -/
def exactDistance (s : Sample) : Int :=
  (groundLevel - s.height.toInt) * heightScale * inverseLength (magnitudeSq s.gradient) / 32768

/-- Each unit of height above the sample is worth between 26 and 10240 units of distance. -/
theorem exactDistance_bounds (h : s.height.toInt ≤ groundLevel) :
    26 * (groundLevel - s.height.toInt) ≤ s.exactDistance ∧
      s.exactDistance ≤ 10240 * (groundLevel - s.height.toInt) := by
  have hleast : (173274 : Int) ≤ inverseLength (magnitudeSq s.gradient) := by
    exact_mod_cast le_inverseLength _
  have hgreatest : (inverseLength (magnitudeSq s.gradient) : Int) ≤ 67108863 := by
    exact_mod_cast inverseLength_le _
  have hdepth : 0 ≤ (groundLevel - s.height.toInt) * heightScale :=
    mul_nonneg (by omega) (by decide)
  have hlow := mul_le_mul_of_nonneg_left hleast hdepth
  have hhigh := mul_le_mul_of_nonneg_left hgreatest hdepth
  unfold exactDistance
  unfold heightScale at *
  omega

/-- The distance that a sample shows is the one over the integers, or 0 inside the ground. -/
theorem toInt_groundDistance (hlow : -16386 ≤ s.height.toInt) :
    s.groundDistance.toInt = if groundLevel < s.height.toInt then 0 else s.exactDistance := by
  unfold groundDistance
  split_ifs with h
  · rfl
  · have hbounds := exactDistance_bounds (Int.not_lt.mp h)
    have hlevel : groundLevel = 650 := rfl
    have hfits : |s.exactDistance| ≤ 2147483647 := abs_le.mpr ⟨by omega, by omega⟩
    exact toInt32_ofInt_of_abs_le hfits

end Sample

/-- **The distance is positive outside the ground and 0 inside it.** -/
theorem Field.groundDistance_cases (f : Field) (p : Point) :
    ((f.height p).toInt < groundLevel ∧ 0 < (f.groundDistance p).toInt) ∨
      (groundLevel ≤ (f.height p).toInt ∧ (f.groundDistance p).toInt = 0) := by
  have hlow : -16386 ≤ (f.sample p).height.toInt := (abs_le.mp (f.abs_height_le p)).1
  rw [← f.height_sample, groundDistance, Sample.toInt_groundDistance hlow]
  split_ifs with h
  · exact .inr ⟨h.le, rfl⟩
  · have hbounds := Sample.exactDistance_bounds (Int.not_lt.mp h)
    omega

/-- The ground is at some distance exactly where its height is below the level. -/
theorem Field.groundDistance_pos_iff (f : Field) (p : Point) :
    0 < (f.groundDistance p).toInt ↔ (f.height p).toInt < groundLevel := by
  have hcases := f.groundDistance_cases p
  omega

namespace WalkGrid

/-- A cell is set exactly if the ground is at some distance from its point. -/
theorem openAt_eq_true_iff (f : Field) (x y : Int) :
    openAt f x y = true ↔ 0 < (f.groundDistance ⟨Int32.ofInt x, Int32.ofInt y⟩).toInt := by
  rw [openAt, decide_eq_true_eq, f.groundDistance_pos_iff]

/-- The horizontal coordinate of a column inside the border fits into its word. -/
theorem toInt_sampleX {col : Nat} (h : 1 ≤ col ∧ col ≤ 512) :
    (Int32.ofInt (sampleX col)).toInt = sampleX col := by
  apply toInt32_ofInt_of_abs_le
  rw [abs_le, sampleX]
  omega

/-- The vertical coordinate of a row inside the border fits into its word. -/
theorem toInt_sampleY {row : Nat} (h : 1 ≤ row ∧ row ≤ 512) :
    (Int32.ofInt (sampleY row)).toInt = sampleY row := by
  apply toInt32_ofInt_of_abs_le
  rw [abs_le, sampleY]
  split_ifs <;> omega

/-- **The grid is the ground sampled at its points.** Its side has 514 cells. A cell is walkable if
and only if it does not lie on the border and the ground is at a positive distance from the point
that the cell stands for; that distance is nowhere negative, and 0 where the height is at the level
of the ground or above it. -/
theorem ofField_ground (f : Field) :
    (ofField f).side = 514 ∧
    (∀ c : Cell, (ofField f).walkable c = true ↔
      ((1 ≤ c.x ∧ c.x ≤ 512) ∧ 1 ≤ c.y ∧ c.y ≤ 512) ∧
        ∃ p : Point, p.x.toInt = sampleX c.x ∧ p.y.toInt = sampleY c.y ∧
          0 < (f.groundDistance p).toInt) ∧
    ∀ p : Point, 0 ≤ (f.groundDistance p).toInt ∧
      ((f.groundDistance p).toInt = 0 ↔ groundLevel ≤ (f.height p).toInt) := by
  refine ⟨side_ofField f, fun c => ?_, fun p => ?_⟩
  · rw [walkable_ofField, openAt_eq_true_iff, inner_iff]
    refine and_congr_right fun hc => ?_
    constructor
    · intro hopen
      exact ⟨⟨Int32.ofInt (sampleX c.x), Int32.ofInt (sampleY c.y)⟩, toInt_sampleX hc.1,
        toInt_sampleY hc.2, hopen⟩
    · rintro ⟨p, hx, hy, hpos⟩
      have hp : p = ⟨Int32.ofInt (sampleX c.x), Int32.ofInt (sampleY c.y)⟩ := by
        rw [← hx, ← hy, Int32.ofInt_toInt, Int32.ofInt_toInt]
      rw [← hp]
      exact hpos
  · have hcases := f.groundDistance_cases p
    omega

end WalkGrid

end RideProof
