import Mathlib.Analysis.SpecialFunctions.Trigonometric.Series
import Mathlib.Analysis.SpecificLimits.Normed
import RideProof.Trig

/-!
# The range of the sine table

The sine series over the integers rounds every term down, and each term from the one before it. In
the first quadrant the rounded term is never more than 3 below the real one (`Near`), so sixteen of
them miss the real partial sum by 48 at most. That partial sum ends with a term that is taken off,
so it is at most the sine, and the sine is at most one. A table entry is therefore a fraction
between zero and `amplitude`, and never the one word that has no negative.

* `sineSeries_le` — the series is at most `sineUnit` and the rounding.
* `quarterSine_nonneg` — no entry of the table wraps.
* `sine_eq`, `cosine_eq` — which entry an angle reads, and with which sign.
-/

namespace RideProof

open Finset

/-! ## Rounded quotients -/

/-- A rounded quotient is below the real one by less than one. -/
theorem cast_div_bounds (m : Nat) {d : Nat} (hd : 0 < d) :
    (m : ℝ) / d - 1 ≤ (m / d : Nat) ∧ ((m / d : Nat) : ℝ) ≤ m / d := by
  have hpos : (0 : ℝ) < d := Nat.cast_pos.mpr hd
  refine ⟨?_, Nat.cast_div_le⟩
  have hlt : m < d * (m / d) + d := Nat.lt_mul_div_succ m hd
  have hreal : (m : ℝ) < d * (m / d : Nat) + d := by exact_mod_cast hlt
  rw [sub_le_iff_le_add, div_le_iff₀ hpos]
  nlinarith [hreal]

/-! ## One term -/

/-- A term of the rounded series stands for a real one. -/
structure Near (term : Nat) (real : ℝ) : Prop where
  /-- It is at most 3 below. -/
  lower : real - 3 ≤ term
  /-- It is not above. -/
  upper : (term : ℝ) ≤ real

/-- An angle in the first quadrant as a real number, of which `sineUnit` parts make one. -/
noncomputable def radians (theta : Nat) : ℝ := theta / sineUnit

/-- The term of degree `n` of the sine series, apart from its sign. -/
noncomputable def sineTerm (x : ℝ) (n : Nat) : ℝ := x ^ n / n.factorial

/-- From one term of the series to the next but one. -/
theorem sineTerm_add_two (x : ℝ) (n : Nat) :
    sineTerm x (n + 2) = sineTerm x n * x * x / ((n + 1) * (n + 2) : Nat) := by
  have hne : (n.factorial : ℝ) ≠ 0 := Nat.cast_ne_zero.mpr n.factorial_ne_zero
  unfold sineTerm
  rw [Nat.factorial_succ, Nat.factorial_succ]
  push_cast
  field_simp
  ring

/-- The terms of the series are not negative. -/
theorem sineTerm_nonneg {x : ℝ} (hx : 0 ≤ x) (n : Nat) : 0 ≤ sineTerm x n := by
  unfold sineTerm
  positivity

/-- Rounding one more term loses no more than the rounding of the term before lost. -/
theorem Near.next {theta n term : Nat} (hn : 0 < n) (hx : radians theta ≤ 8 / 5)
    (h : Near term (sineUnit * sineTerm (radians theta) n)) :
    Near (nextSineTerm theta n term) (sineUnit * sineTerm (radians theta) (n + 2)) := by
  have hunit : 0 < sineUnit := by decide
  have hx0 : 0 ≤ radians theta := by unfold radians; positivity
  have hd : 6 ≤ (n + 1) * (n + 2) := Nat.mul_le_mul (by omega : 2 ≤ n + 1) (by omega : 3 ≤ n + 2)
  have hd6 : (6 : ℝ) ≤ ((n + 1) * (n + 2) : Nat) := by exact_mod_cast hd
  have hdpos : (0 : ℝ) < ((n + 1) * (n + 2) : Nat) := by linarith
  have hmul (a : Nat) : ((a * theta : Nat) : ℝ) / sineUnit = a * radians theta := by
    unfold radians
    push_cast
    ring
  obtain ⟨alow, aup⟩ := cast_div_bounds (term * theta) hunit
  obtain ⟨blow, bup⟩ := cast_div_bounds (term * theta / sineUnit * theta) hunit
  obtain ⟨clow, cup⟩ :=
    cast_div_bounds (term * theta / sineUnit * theta / sineUnit) (Nat.lt_of_lt_of_le (by decide) hd)
  rw [hmul] at alow aup blow bup
  have hlow := h.lower
  have hup := h.upper
  rw [sineTerm_add_two, ← mul_div_assoc, ← mul_assoc, ← mul_assoc]
  unfold nextSineTerm
  set x := radians theta
  set t := (sineUnit : ℝ) * sineTerm x n
  set a : ℝ := ((term * theta / sineUnit : Nat) : ℝ)
  set b : ℝ := ((term * theta / sineUnit * theta / sineUnit : Nat) : ℝ)
  constructor
  · have hxx : x * x ≤ 3 := by nlinarith
    have hax : ((t - 3) * x - 1) * x ≤ a * x :=
      mul_le_mul_of_nonneg_right (by nlinarith) hx0
    have hb : t * x * x - 12 ≤ b := by nlinarith
    have hquot : (t * x * x - 12) / ((n + 1) * (n + 2) : Nat) ≤ b / ((n + 1) * (n + 2) : Nat) :=
      div_le_div_of_nonneg_right hb hdpos.le
    have hloss : (12 : ℝ) / ((n + 1) * (n + 2) : Nat) ≤ 2 := by
      rw [div_le_iff₀ hdpos]
      linarith
    rw [sub_div] at hquot
    linarith
  · have hax : a * x ≤ t * x * x := mul_le_mul_of_nonneg_right (by nlinarith) hx0
    exact cup.trans (div_le_div_of_nonneg_right (bup.trans hax) hdpos.le)

/-! ## The whole series -/

/-- Each term that is summed up adds its own rounding. -/
theorem sineSeries_near {theta : Nat} (hx : radians theta ≤ 8 / 5) (count : Nat) {n term : Nat}
    (hn : 0 < n) (h : Near term (sineUnit * sineTerm (radians theta) n)) :
    |(sineSeries theta count n term : ℝ) -
      sineUnit * ∑ k ∈ range count, (-1) ^ k * sineTerm (radians theta) (n + 2 * k)| ≤
        3 * count := by
  induction count generalizing n term with
  | zero => simp [sineSeries]
  | succ count ih =>
      have hnext := ih (Nat.lt_add_right 2 hn) (h.next hn hx)
      have hseries : sineSeries theta (count + 1) n term =
          term - sineSeries theta count (n + 2) (nextSineTerm theta n term) := by
        rw [sineSeries]
        split
        next hzero =>
          subst hzero
          have hvanish : nextSineTerm theta n 0 = 0 := by simp [nextSineTerm]
          rw [hvanish]
          cases count <;> simp [sineSeries]
        next => rfl
      have hsum : ∑ k ∈ range (count + 1), (-1) ^ k * sineTerm (radians theta) (n + 2 * k) =
          sineTerm (radians theta) n -
            ∑ k ∈ range count, (-1) ^ k * sineTerm (radians theta) (n + 2 + 2 * k) := by
        rw [sum_range_succ']
        have hterm (k : Nat) : (-1) ^ (k + 1) * sineTerm (radians theta) (n + 2 * (k + 1)) =
            -((-1) ^ k * sineTerm (radians theta) (n + 2 + 2 * k)) := by
          rw [show n + 2 * (k + 1) = n + 2 + 2 * k by ring, pow_succ]
          ring
        rw [sum_congr rfl fun k _ => hterm k, sum_neg_distrib]
        simp [sub_eq_neg_add]
      have hlow := h.lower
      have hup := h.upper
      rw [hseries, hsum]
      push_cast
      rw [abs_le] at hnext ⊢
      constructor <;> nlinarith [hnext.1, hnext.2]

/-- In the first quadrant the terms of the sine series never grow. -/
theorem sineTerm_antitone {x : ℝ} (hx0 : 0 ≤ x) (hx : x ≤ 8 / 5) :
    Antitone fun k => sineTerm x (1 + 2 * k) := by
  refine antitone_nat_of_succ_le fun k => ?_
  show sineTerm x (1 + 2 * (k + 1)) ≤ sineTerm x (1 + 2 * k)
  rw [show 1 + 2 * (k + 1) = 1 + 2 * k + 2 by ring, sineTerm_add_two]
  have hd : 6 ≤ (1 + 2 * k + 1) * (1 + 2 * k + 2) :=
    Nat.mul_le_mul (by omega : 2 ≤ 1 + 2 * k + 1) (by omega : 3 ≤ 1 + 2 * k + 2)
  have hd6 : (6 : ℝ) ≤ ((1 + 2 * k + 1) * (1 + 2 * k + 2) : Nat) := by exact_mod_cast hd
  have hterm := sineTerm_nonneg hx0 (1 + 2 * k)
  rw [div_le_iff₀ (by linarith), mul_assoc]
  exact mul_le_mul_of_nonneg_left (by nlinarith) hterm

/-- A partial sum that ends with a term taken off is at most one. -/
theorem sum_sineTerm_le {x : ℝ} (hx0 : 0 ≤ x) (hx : x ≤ 8 / 5) (k : Nat) :
    ∑ i ∈ range (2 * k), (-1) ^ i * sineTerm x (1 + 2 * i) ≤ 1 := by
  have hsum : HasSum (fun i => (-1) ^ i * sineTerm x (1 + 2 * i)) (Real.sin x) := by
    convert Real.hasSum_sin x using 2 with i
    rw [sineTerm, Nat.add_comm 1, mul_div_assoc]
  exact ((sineTerm_antitone hx0 hx).alternating_series_le_tendsto hsum.tendsto_sum_nat k).trans
    (Real.sin_le_one x)

/-! ## The table -/

/-- Up to an angle of two, no rounded term is larger than the one before it. -/
theorem nextSineTerm_le {theta n t : Nat} (htheta : theta ≤ 2 * sineUnit) (hn : 0 < n) :
    nextSineTerm theta n t ≤ t := by
  have hunit : 0 < sineUnit := by decide
  have hdouble (a : Nat) : a * theta / sineUnit ≤ 2 * a := by
    refine Nat.div_le_of_le_mul ?_
    calc a * theta ≤ a * (2 * sineUnit) := Nat.mul_le_mul_left a htheta
      _ = sineUnit * (2 * a) := by ring
  have hd : 6 ≤ (n + 1) * (n + 2) := Nat.mul_le_mul (by omega : 2 ≤ n + 1) (by omega : 3 ≤ n + 2)
  refine Nat.div_le_of_le_mul ?_
  calc t * theta / sineUnit * theta / sineUnit
      ≤ 2 * (t * theta / sineUnit) := hdouble _
    _ ≤ 2 * (2 * t) := Nat.mul_le_mul_left 2 (hdouble t)
    _ ≤ 6 * t := by omega
    _ ≤ (n + 1) * (n + 2) * t := Nat.mul_le_mul_right t hd

/-- The sum of an alternating series whose terms do not grow lies between zero and its first
term. -/
theorem sineSeries_bounds {theta : Nat} (htheta : theta ≤ 2 * sineUnit) (count : Nat) {n t : Nat}
    (hn : 0 < n) : 0 ≤ sineSeries theta count n t ∧ sineSeries theta count n t ≤ t := by
  induction count generalizing n t with
  | zero => exact ⟨Int.le_refl 0, Int.natCast_nonneg t⟩
  | succ count ih =>
      have hnext := nextSineTerm_le (t := t) htheta hn
      have hseries := ih (t := nextSineTerm theta n t) (Nat.lt_add_right 2 hn)
      rw [sineSeries]
      split <;> omega

/-- Up to the rounding of its sixteen terms, the series for an angle of the first quadrant is at
most one. -/
theorem sineSeries_le {theta : Nat} (hx : radians theta ≤ 8 / 5) :
    sineSeries theta 16 1 theta ≤ sineUnit + 48 := by
  have hunit : (sineUnit : ℝ) ≠ 0 := Nat.cast_ne_zero.mpr (by decide)
  have hx0 : 0 ≤ radians theta := by unfold radians; positivity
  have hfirst : sineUnit * sineTerm (radians theta) 1 = theta := by
    unfold sineTerm radians
    field_simp
    simp
  have hnear : Near theta (sineUnit * sineTerm (radians theta) 1) := by
    rw [hfirst]
    exact ⟨by linarith, le_refl _⟩
  have hsum := mul_le_mul_of_nonneg_left (sum_sineTerm_le hx0 hx 8) (Nat.cast_nonneg' sineUnit)
  have hseries := (abs_le.mp (sineSeries_near hx 16 Nat.one_pos hnear)).2
  have hreal : (sineSeries theta 16 1 theta : ℝ) ≤ sineUnit + 48 := by
    norm_num at hsum hseries ⊢
    linarith
  exact_mod_cast hreal

/-- No entry of the table of sines wraps to a negative one. -/
theorem quarterSine_nonneg {i : Nat} (h : i < quarterSineCount) : 0 ≤ (quarterSine i).toInt := by
  have hcount : quarterSineCount = 16385 := rfl
  have hunit : sineUnit = 4611686018427387904 := rfl
  have hturn : fullTurn = 28976077832308491369 := rfl
  have hamplitude : amplitude = 2147483647 := rfl
  unfold quarterSine
  dsimp only
  set theta := i * fullTurn / 65536
  have htheta : theta ≤ 7378697629483820646 := by
    have hle : i * fullTurn ≤ 16384 * fullTurn := Nat.mul_le_mul_right fullTurn (by omega)
    omega
  have hx : radians theta ≤ 8 / 5 := by
    have hreal : (theta : ℝ) ≤ 7378697629483820646 := by exact_mod_cast htheta
    unfold radians
    rw [hunit, div_le_iff₀ (by norm_num)]
    norm_num
    linarith
  have hle := sineSeries_le hx
  have htwice : theta ≤ 2 * sineUnit := by omega
  have hnonneg : 0 ≤ sineSeries theta 16 1 theta := (sineSeries_bounds htwice 16 Nat.one_pos).1
  rw [hunit] at hle
  rw [hamplitude, hunit, Int32.toInt_ofInt_of_le (by omega) (by omega)]
  omega

/-- The negative of an entry of the table is its negative as a number. -/
theorem toInt_neg_quarterSine {i : Nat} (h : i < quarterSineCount) :
    (-quarterSine i).toInt = -(quarterSine i).toInt := by
  have hnonneg := quarterSine_nonneg h
  have hlt := (quarterSine i).toInt_lt
  rw [Int32.toInt_neg]
  exact Int.bmod_eq_of_le (by omega) (by omega)

/-! ## The four quarters -/

/-- The sine of an angle, by the quarter of the turn that it is in. -/
theorem sine_eq (a : Int16) :
    sine a =
      if a.toInt ≤ -16384 then -quarterSine (32768 + a.toInt).toNat
      else if a.toInt < 0 then -quarterSine (-a.toInt).toNat
      else if a.toInt < 16384 then quarterSine a.toInt.toNat
      else quarterSine (32768 - a.toInt).toNat := by
  have hlow := a.le_toInt
  unfold sine
  dsimp only
  by_cases h1 : a.toInt ≤ -16384
  · rw [if_pos h1, if_pos (by omega : a.toInt < 0), if_neg (by omega : ¬ a.toInt.natAbs < 16384),
      show 32768 - a.toInt.natAbs = (32768 + a.toInt).toNat by omega]
  rw [if_neg h1]
  by_cases h2 : a.toInt < 0
  · rw [if_pos h2, if_pos h2, if_pos (by omega : a.toInt.natAbs < 16384),
      show a.toInt.natAbs = (-a.toInt).toNat by omega]
  rw [if_neg h2, if_neg h2]
  by_cases h3 : a.toInt < 16384
  · rw [if_pos h3, if_pos (by omega : a.toInt.natAbs < 16384),
      show a.toInt.natAbs = a.toInt.toNat by omega]
  · rw [if_neg h3, if_neg (by omega : ¬ a.toInt.natAbs < 16384),
      show 32768 - a.toInt.natAbs = (32768 - a.toInt).toNat by omega]

/-- The cosine of an angle, by the quarter of the turn that it is in. -/
theorem cosine_eq (a : Int16) :
    cosine a =
      if a.toInt ≤ -16384 then -quarterSine (-16384 - a.toInt).toNat
      else if a.toInt < 0 then quarterSine (16384 + a.toInt).toNat
      else if a.toInt < 16384 then quarterSine (16384 - a.toInt).toNat
      else -quarterSine (a.toInt - 16384).toNat := by
  unfold cosine
  dsimp only
  by_cases h1 : a.toInt ≤ -16384
  · rw [if_pos h1, if_neg (by omega : ¬ a.toInt.natAbs < 16384),
      show a.toInt.natAbs - 16384 = (-16384 - a.toInt).toNat by omega]
  rw [if_neg h1]
  by_cases h2 : a.toInt < 0
  · rw [if_pos h2, if_pos (by omega : a.toInt.natAbs < 16384),
      show 16384 - a.toInt.natAbs = (16384 + a.toInt).toNat by omega]
  rw [if_neg h2]
  by_cases h3 : a.toInt < 16384
  · rw [if_pos h3, if_pos (by omega : a.toInt.natAbs < 16384),
      show 16384 - a.toInt.natAbs = (16384 - a.toInt).toNat by omega]
  · rw [if_neg h3, if_neg (by omega : ¬ a.toInt.natAbs < 16384),
      show a.toInt.natAbs - 16384 = (a.toInt - 16384).toNat by omega]

end RideProof
