import RideProof.Proofs.Courses
import Mathlib.Algebra.Group.Nat.Defs

/-!
# The difficulty target as a number

A target of `d` digits is the mantissa times `256 ^ d`, divided by `256 ^ 3` because the mantissa
has three bytes; the bytes that fall off the end of a short target are the remainder. A digest
meets a target other than zero if its first half, as a number, is no greater.

* `BigEndian.value_append`, `BigEndian.value_take` — strings put together and cut off are sums and
  quotients.
* `CompactTarget.toList_expand` — the target is the start of the mantissa between zeros.
* `CompactTarget.value_expand` — the target is the quotient.
* `CompactTarget.metBy_numeric` — the comparison, and what follows from it.
-/

namespace RideProof

/-! ## Bytes as numbers -/

/-- The numbers that `n` bytes can stand for are counted by a power of 256. -/
theorem LittleEndian.capacity_eq_pow (n : Nat) : capacity n = 256 ^ n := by
  induction n with
  | zero => rfl
  | succ n ih => rw [capacity, ih, Nat.pow_succ']

namespace BigEndian

open LittleEndian (capacity capacity_eq_pow)

/-- A string in front of another counts by the length of the other. -/
theorem value_append (as bs : List UInt8) :
    value (as ++ bs) = value as * 256 ^ bs.length + value bs := by
  induction as with
  | nil => simp [value]
  | cons a as ih =>
    have hpow : 256 ^ (as ++ bs).length = 256 ^ as.length * 256 ^ bs.length := by
      rw [List.length_append, Nat.pow_add]
    rw [List.cons_append, value, value, ih, capacity_eq_pow, capacity_eq_pow, hpow,
      Nat.add_mul, Nat.mul_assoc, Nat.add_assoc]

/-- A string of zeros is the number zero. -/
theorem value_replicate_zero (n : Nat) : value (List.replicate n 0) = 0 := by
  induction n with
  | zero => rfl
  | succ n ih => rw [List.replicate_succ, value, ih, UInt8.toNat_zero, Nat.zero_mul]

/-- The same bytes the other way round are the same number, read the other way round. -/
theorem value_reverse (bs : List UInt8) : value bs.reverse = LittleEndian.value bs := by
  induction bs with
  | nil => rfl
  | cons b bs ih =>
    rw [List.reverse_cons, value_append, ih, LittleEndian.value]
    simp [value, capacity]
    omega

/-- Bytes cut off the end are divided away. -/
theorem value_take (bs : List UInt8) (n : Nat) :
    value (bs.take n) = value bs / 256 ^ (bs.length - n) := by
  have hdrop : value (bs.drop n) < 256 ^ (bs.length - n) := by
    rw [← List.length_drop, ← capacity_eq_pow]
    exact value_lt _
  have hsplit : value bs = value (bs.take n) * 256 ^ (bs.length - n) + value (bs.drop n) := by
    rw [← List.length_drop, ← value_append, List.take_append_drop]
  rw [hsplit, Nat.mul_comm, Nat.mul_add_div (Nat.zero_lt_of_lt hdrop), Nat.div_eq_of_lt hdrop,
    Nat.add_zero]

end BigEndian

/-- What is held against a target: the first half of a digest, as a number. -/
def Digest.number (digest : Digest) : Nat := BigEndian.value (digest.toList.take 32)

namespace CompactTarget

open BigEndian (value)

variable (t : CompactTarget)

/-! ## The target -/

/-- A target has no more digits than bytes. -/
theorem digits_le : t.digits ≤ 32 := Nat.min_le_right _ _

/-- The mantissa is the low three bytes of the compact form. -/
theorem value_mantissa : value t.mantissa.toList = t.bits.toNat % 2 ^ 24 := by
  rw [mantissa, Vector.toList_reverse, BigEndian.value_reverse, LittleEndian.value_digits]
  rfl

/-- The mantissa where a number of `digits` digits starts, and as many zeros after it: three bytes
more than a target has. -/
def unfitted : List UInt8 :=
  List.replicate (32 - t.digits) 0 ++ (t.mantissa.toList ++ List.replicate t.digits 0)

/-- Three bytes are left over behind the target. -/
theorem length_unfitted : t.unfitted.length = 35 := by
  have := t.digits_le
  simp only [unfitted, List.length_append, List.length_replicate, Vector.length_toList]
  omega

/-- Before its end is cut off, the target is the mantissa times a power of 256. -/
theorem value_unfitted : value t.unfitted = t.bits.toNat % 2 ^ 24 * 256 ^ t.digits := by
  rw [unfitted, BigEndian.value_append, BigEndian.value_append, BigEndian.value_replicate_zero,
    BigEndian.value_replicate_zero, value_mantissa, List.length_replicate, Nat.zero_mul,
    Nat.zero_add, Nat.add_zero]

/-- A byte of the target, counted from the one where the mantissa starts. -/
theorem getElem_expand {i : Nat} (hi : i < 32) : t.expand[i] =
    if i + t.digits < 32 then 0 else t.mantissa.getD (i + t.digits - 32) 0 := by
  rw [expand, Vector.getElem_ofFn]

/-- A byte of the mantissa between zeros, counted in the same way. -/
theorem getElem_unfitted {i : Nat} (hi : i < t.unfitted.length) : t.unfitted[i] =
    if i + t.digits < 32 then 0 else t.mantissa.getD (i + t.digits - 32) 0 := by
  have hdigits := t.digits_le
  have hindex : i - (32 - t.digits) = i + t.digits - 32 := by omega
  simp only [unfitted, List.getElem_append, List.length_replicate, Vector.length_toList,
    List.getElem_replicate, Vector.getElem_toList, hindex]
  by_cases h : i + t.digits < 32
  · rw [dif_pos (by omega), if_pos h]
  · -- at or behind the mantissa: the zeros after it are what reading past its end gives
    rw [dif_neg (by omega), if_neg h, Vector.getD, Array.getD_eq_getD_getElem?,
      Vector.getElem?_toArray, Vector.getD_getElem?]

/-- What does not fit is dropped from the end, whether it is zeros or a part of the mantissa. -/
theorem toList_expand : t.expand.toList = t.unfitted.take 32 := by
  apply List.ext_getElem
  · rw [Vector.length_toList, List.length_take, length_unfitted]
    rfl
  · intro i hi _
    rw [Vector.length_toList] at hi
    rw [List.getElem_take, Vector.getElem_toList, getElem_expand, getElem_unfitted]

/-- Counts above 32 are taken for 32, and counts below three drop the end of the mantissa. -/
theorem value_expand : value t.expand.toList =
    t.bits.toNat % 2 ^ 24 * 256 ^ min (t.bits.toNat >>> 24) 32 / 256 ^ 3 := by
  have hdigits : t.digits = min (t.bits.toNat >>> 24) 32 := by
    rw [digits, Nat.shiftRight_eq_div_pow]
  rw [toList_expand, BigEndian.value_take, value_unfitted, length_unfitted, hdigits]

example : (CompactTarget.mk 0x02123456).expand.toList = List.replicate 30 0 ++ [0x12, 0x34] := by
  decide +kernel

/-! ## The comparison -/

/-- **A target is a number.** It is given by its digit count and its mantissa, and a digest meets it
if the target is zero or the digest is no greater. So a digest meets every target that a greater one
meets, and a target other than zero asks for nothing else. -/
theorem metBy_numeric :
    value t.expand.toList =
        t.bits.toNat % 2 ^ 24 * 256 ^ min (t.bits.toNat >>> 24) 32 / 256 ^ 3 ∧
      (∀ digest : Digest,
        t.metBy digest ↔ t.bits = 0 ∨ digest.number ≤ value t.expand.toList) ∧
      (∀ smaller greater : Digest,
        smaller.number ≤ greater.number → t.metBy greater → t.metBy smaller) ∧
      (t.bits ≠ 0 → ∀ digest : Digest, t.metBy digest ↔
        digest.number ≤ t.bits.toNat % 2 ^ 24 * 256 ^ min (t.bits.toNat >>> 24) 32 / 256 ^ 3) := by
  refine ⟨t.value_expand, t.metBy_iff, ?monotone, ?nonzero⟩
  case monotone =>
    intro smaller greater hle hmet
    rw [metBy_iff] at hmet ⊢
    exact hmet.imp_right (Nat.le_trans hle)
  case nonzero =>
    intro hbits digest
    rw [metBy_iff, or_iff_right hbits, value_expand, Digest.number]

end CompactTarget

end RideProof
