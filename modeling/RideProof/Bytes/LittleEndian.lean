/-!
# Little-endian numbers

A number of `n` bytes, least significant first. Reading undoes writing up to what `n` bytes can
hold (`value_digits`), and writing undoes reading (`digits_value`).

* `Bytes n` — a string of `n` bytes, and `Bytes.slice`, a part of one.
* `LittleEndian.digits`, `LittleEndian.value` — write and read a number.
-/

namespace RideProof

/-- A string of a fixed number of bytes. -/
abbrev Bytes (n : Nat) := Vector UInt8 n

/-- The `len` bytes from `first` on. -/
def Bytes.slice {n : Nat} (b : Bytes n) (first len : Nat) (h : first + len ≤ n) : Bytes len :=
  Vector.ofFn fun i => b.get ⟨first + i.val, by omega⟩

namespace LittleEndian

/-- The list of the low `n` bytes of a number. -/
def digitList : (n v : Nat) → List UInt8
  | 0, _ => []
  | n + 1, v => UInt8.ofNat v :: digitList n (v / 256)

/-- The number that bytes stand for. -/
def value : List UInt8 → Nat
  | [] => 0
  | b :: bs => b.toNat + 256 * value bs

/-- A number is written with as many bytes as asked for. -/
theorem length_digitList (n v : Nat) : (digitList n v).length = n := by
  induction n generalizing v with
  | zero => rfl
  | succ n ih => simp [digitList, ih]

/-- The low `n` bytes of a number. -/
def digits (n v : Nat) : Bytes n := ⟨(digitList n v).toArray, by simp [length_digitList]⟩

/-- The bytes of a number, as a list. -/
@[simp] theorem toList_digits (n v : Nat) : (digits n v).toList = digitList n v := rfl

/-- How many numbers `n` bytes can stand for. -/
def capacity : (n : Nat) → Nat
  | 0 => 1
  | n + 1 => 256 * capacity n

/-- Reading what was written gives the number back, modulo what `n` bytes can hold. -/
theorem value_digitList (n v : Nat) : value (digitList n v) = v % capacity n := by
  induction n generalizing v with
  | zero => simp [digitList, value, capacity, Nat.mod_one]
  | succ n ih =>
    rw [digitList, value, ih, UInt8.toNat_ofNat', capacity]
    exact Nat.mod_mul.symm

/-- What is read is the number that was written, as far as the bytes can hold it. -/
theorem value_digits (n v : Nat) : value (digits n v).toList = v % capacity n :=
  value_digitList n v

/-- Writing the value of bytes gives the bytes back. -/
theorem digitList_value (bs : List UInt8) : digitList bs.length (value bs) = bs := by
  induction bs with
  | nil => rfl
  | cons b bs ih =>
    have hb := b.toNat_lt
    have hdiv : (b.toNat + 256 * value bs) / 256 = value bs := by omega
    have hbyte : UInt8.ofNat (b.toNat + 256 * value bs) = b := by
      apply UInt8.toNat_inj.mp
      rw [UInt8.toNat_ofNat']
      omega
    rw [List.length_cons, digitList, value, hdiv, hbyte, ih]

/-- Bytes are written back from the number that they are read as. -/
theorem digits_value {n : Nat} (b : Bytes n) : digits n (value b.toList) = b := by
  apply Vector.toList_inj.mp
  have h := digitList_value b.toList
  rwa [Vector.length_toList] at h

/-- No bytes still stand for one number. -/
theorem capacity_pos (n : Nat) : 0 < capacity n := by
  induction n with
  | zero => exact Nat.one_pos
  | succ n ih => exact Nat.mul_pos (by decide) ih

/-- The value of bytes is what they can stand for. -/
theorem value_lt (bs : List UInt8) : value bs < capacity bs.length := by
  have h := value_digitList bs.length (value bs)
  rw [digitList_value] at h
  rw [h]
  exact Nat.mod_lt _ (capacity_pos _)

end LittleEndian

end RideProof
