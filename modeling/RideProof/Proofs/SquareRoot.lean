import Mathlib.Data.Nat.Sqrt
import Mathlib.Tactic.Linarith
import Mathlib.Tactic.Ring
import Mathlib.Tactic.SplitIfs
import RideProof.Root

/-!
# The integer square root

`rootDigits` finds a square root digit by digit, and keeps the part of the radicand that the square
of the digits found so far leaves. With `k` digits to come, those digits are the ones of the
square root as long as the radicand lies between their square and that of their successor, both
moved to the place of the digits to come (`prefixSquare`).

* `isqrt_eq_sqrt` — the digits are those of the floor of the square root.
* `bucketInverseLength_le`, `le_bucketInverseLength` — the greatest and the least inverse length
  there are.
-/

namespace RideProof

/-- The square of a root that starts with the digits of `root` and goes on with `k` digits 0. -/
def prefixSquare (k root : Nat) : Nat := root * 2 ^ k * (root * 2 ^ k)

/-- Whether a digit 0 is one that is to come or one of the root, the square is the same. -/
theorem prefixSquare_even (k root : Nat) :
    prefixSquare k (2 * root) = prefixSquare (k + 1) root := by
  unfold prefixSquare
  ring

/-- What a digit 1 adds to the square. -/
theorem prefixSquare_odd (k root : Nat) :
    prefixSquare k (2 * root + 1) =
      prefixSquare (k + 1) root + (root * 4 ^ (k + 1) + 4 ^ k) := by
  have hfour : 4 ^ k = 2 ^ k * 2 ^ k := by rw [← Nat.mul_pow]
  unfold prefixSquare
  rw [Nat.pow_succ 4, hfour]
  ring

/-- The next digit is 1 if the radicand has room for the square that it adds. -/
theorem rootDigits_succ (k rem root : Nat) :
    rootDigits (k + 1) rem root =
      if root + 4 ^ k ≤ rem then rootDigits k (rem - (root + 4 ^ k)) (root / 2 + 4 ^ k)
      else rootDigits k rem (root / 2) := rfl

/-- If the digits found so far are those of the square root, the digits that follow are too. -/
theorem rootDigits_eq_sqrt (k root v : Nat) (hle : prefixSquare k root ≤ v)
    (hlt : v < prefixSquare k (root + 1)) :
    rootDigits k (v - prefixSquare k root) (root * 4 ^ k) = Nat.sqrt v := by
  induction k generalizing root with
  | zero =>
      simp only [prefixSquare, Nat.pow_zero, Nat.mul_one] at hle hlt ⊢
      exact Nat.le_antisymm (Nat.le_sqrt.mpr hle) (Nat.lt_succ_iff.mp (Nat.sqrt_lt.mpr hlt))
  | succ k ih =>
      have hodd := prefixSquare_odd k root
      have hhalf : root * 4 ^ (k + 1) / 2 = 2 * root * 4 ^ k := by
        rw [Nat.pow_succ, show root * (4 ^ k * 4) = 2 * root * 4 ^ k * 2 by ring]
        exact Nat.mul_div_cancel _ (by decide)
      rw [rootDigits_succ]
      split_ifs with hbit
      · have hrem : v - prefixSquare (k + 1) root - (root * 4 ^ (k + 1) + 4 ^ k) =
            v - prefixSquare k (2 * root + 1) := by omega
        have hroot : root * 4 ^ (k + 1) / 2 + 4 ^ k = (2 * root + 1) * 4 ^ k := by
          rw [hhalf, Nat.add_mul, Nat.one_mul]
        rw [hrem, hroot]
        refine ih (2 * root + 1) (by omega) ?_
        rw [show 2 * root + 1 + 1 = 2 * (root + 1) by ring, prefixSquare_even]
        exact hlt
      · rw [hhalf, ← prefixSquare_even]
        refine ih (2 * root) ?_ ?_
        · rw [prefixSquare_even]
          exact hle
        · omega

/-- The integer square root of a word is the floor of its square root. -/
theorem isqrt_eq_sqrt (v : UInt64) : isqrt v = Nat.sqrt v.toNat := by
  have hlt : v.toNat < prefixSquare 32 (0 + 1) := v.toNat_lt
  have h := rootDigits_eq_sqrt 32 0 v.toNat (Nat.zero_le _) hlt
  rw [Nat.zero_mul] at h
  exact h

/-- Every squared length has a bucket. -/
theorem lengthBucket_lt (v : Int) : lengthBucket v < inverseLengthCount := by
  have hcount : inverseLengthCount = 150000 := rfl
  unfold lengthBucket
  omega

/-- The square root that the inverse length of a bucket is taken of. -/
theorem isqrt_bucket {bucket : Nat} (h : bucket < inverseLengthCount) :
    isqrt (UInt64.ofNat ((bucket + 1) * 68719476736)) = Nat.sqrt ((bucket + 1) * 68719476736) := by
  have hcount : inverseLengthCount = 150000 := rfl
  have hlt : (bucket + 1) * 68719476736 < 18446744073709551616 := by omega
  rw [isqrt_eq_sqrt, UInt64.toNat_ofNat_of_lt' hlt]

/-- The square root of a bucket is not zero. -/
theorem isqrt_bucket_pos {bucket : Nat} (h : bucket < inverseLengthCount) :
    0 < isqrt (UInt64.ofNat ((bucket + 1) * 68719476736)) := by
  rw [isqrt_bucket h]
  exact Nat.sqrt_pos.mpr (by omega)

/-- The inverse length is greatest in the first bucket. -/
theorem bucketInverseLength_le {bucket : Nat} (h : bucket < inverseLengthCount) :
    bucketInverseLength bucket ≤ 67108863 := by
  have hroot : 262144 ≤ isqrt (UInt64.ofNat ((bucket + 1) * 68719476736)) := by
    rw [isqrt_bucket h]
    exact Nat.le_sqrt.mpr (by omega)
  exact Nat.le_trans (Nat.div_le_div_left hroot (by decide)) (by decide)

/-- The inverse length is least in the last bucket. -/
theorem le_bucketInverseLength {bucket : Nat} (h : bucket < inverseLengthCount) :
    173274 ≤ bucketInverseLength bucket := by
  have hcount : inverseLengthCount = 150000 := rfl
  have hroot : isqrt (UInt64.ofNat ((bucket + 1) * 68719476736)) < 101528000 := by
    rw [isqrt_bucket h]
    exact Nat.sqrt_lt.mpr (by omega)
  exact (Nat.le_div_iff_mul_le (isqrt_bucket_pos h)).mpr (by omega)

/-- No inverse length is greater than that of the shortest vector. -/
theorem inverseLength_le (v : Int) : inverseLength v ≤ 67108863 :=
  bucketInverseLength_le (lengthBucket_lt v)

/-- No inverse length is less than that of the longest vector. -/
theorem le_inverseLength (v : Int) : 173274 ≤ inverseLength v :=
  le_bucketInverseLength (lengthBucket_lt v)

/-- An inverse length is positive. -/
theorem inverseLength_pos (v : Int) : 0 < inverseLength v :=
  Nat.lt_of_lt_of_le (by decide) (le_inverseLength v)

end RideProof
