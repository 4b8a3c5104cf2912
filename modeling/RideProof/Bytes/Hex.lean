/-!
# Hexadecimal digits

* `Hex.encode` — two lower-case digits for each byte.
* `Hex.decode` — bytes from digits of either case, given as the bytes of their ASCII text.

`decode_encode` says that what is written is read back.
-/

namespace RideProof.Hex

/-- The lower-case digit of a number below 16. -/
def digit (n : Nat) : Char := if n < 10 then Char.ofNat (48 + n) else Char.ofNat (87 + n)

/-- The two digits of a byte. -/
def ofByte (b : UInt8) : List Char := [digit (b.toNat / 16), digit (b.toNat % 16)]

/-- The digits of bytes. -/
def encode (bytes : List UInt8) : List Char := bytes.flatMap ofByte

/-- The number of a digit of either case. -/
def digitValue (c : UInt8) : Option Nat :=
  let n := c.toNat
  if 48 ≤ n ∧ n ≤ 57 then some (n - 48)
  else if 97 ≤ n ∧ n ≤ 102 then some (n - 87)
  else if 65 ≤ n ∧ n ≤ 70 then some (n - 55)
  else none

/-- The bytes of digits; nothing if their number is odd or one is no digit. -/
def decode : List UInt8 → Option (List UInt8)
  | [] => some []
  | [_] => none
  | a :: b :: rest =>
    match digitValue a, digitValue b, decode rest with
    | some high, some low, some bytes => some (UInt8.ofNat (16 * high + low) :: bytes)
    | _, _, _ => none

/-- The ASCII byte of a character. -/
def asciiByte (c : Char) : UInt8 := UInt8.ofNat c.toNat

/-- A digit that is written is read back. -/
theorem digitValue_digit {n : Nat} (h : n < 16) : digitValue (asciiByte (digit n)) = some n := by
  have all : ∀ k : Fin 16, digitValue (asciiByte (digit k.val)) = some k.val := by decide
  exact all ⟨n, h⟩

/-- A byte is put together from its two digits. -/
theorem ofNat_halves (b : UInt8) : UInt8.ofNat (16 * (b.toNat / 16) + b.toNat % 16) = b := by
  rw [Nat.div_add_mod]
  exact UInt8.ofNat_toNat

/-- Bytes that are written are read back. -/
theorem decode_encode (bytes : List UInt8) :
    decode ((encode bytes).map asciiByte) = some bytes := by
  induction bytes with
  | nil => rfl
  | cons b bytes ih =>
    have hb := b.toNat_lt
    have hhigh := digitValue_digit (show b.toNat / 16 < 16 by omega)
    have hlow := digitValue_digit (show b.toNat % 16 < 16 by omega)
    simp only [encode] at ih
    simp only [encode, ofByte, List.flatMap_cons, List.cons_append, List.nil_append, List.map_cons,
      decode, hhigh, hlow, ih, ofNat_halves]

end RideProof.Hex
