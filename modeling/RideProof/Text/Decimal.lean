/-!
# Decimal numbers

* `Decimal.ofNat`, `Decimal.ofInt` — the decimal digits of a number, with a minus sign for a
  negative one.
* `Decimal.value` — the number of digits; `value_ofNat` says that it reads back what is written.
-/

namespace RideProof.Decimal

/-- The digit of a number below ten. -/
def digit (n : Nat) : Char := Char.ofNat (48 + n)

/-- The number of a digit. -/
def digitValue (c : Char) : Nat := c.toNat - 48

/-- Whether a character is a decimal digit. -/
def isDigit (c : Char) : Bool := decide ('0' ≤ c) && decide (c ≤ '9')

/-- The digits of a number in front of other characters. -/
def push (n : Nat) (rest : List Char) : List Char :=
  if n < 10 then digit n :: rest else push (n / 10) (digit (n % 10) :: rest)

/-- The digits of a number. -/
def ofNat (n : Nat) : List Char := push n []

/-- The digits of an integer, after a minus sign if it is negative. -/
def ofInt (n : Int) : List Char :=
  if n < 0 then '-' :: ofNat n.natAbs else ofNat n.natAbs

/-- The number of digits read after `acc`. -/
def valueFrom (acc : Nat) (cs : List Char) : Nat :=
  cs.foldl (fun v c => 10 * v + digitValue c) acc

/-- The number of digits. -/
def value (cs : List Char) : Nat := valueFrom 0 cs

/-- A digit that is written is read back. -/
theorem digitValue_digit {n : Nat} (h : n < 10) : digitValue (digit n) = n := by
  have all : ∀ k : Fin 10, digitValue (digit k.val) = k.val := by decide
  exact all ⟨n, h⟩

/-- Reading the digits of a number goes on with it at what follows them. -/
theorem value_push (n : Nat) (rest : List Char) : value (push n rest) = valueFrom n rest := by
  fun_induction push n rest with
  | case1 n rest h => simp [value, valueFrom, digitValue_digit h]
  | case2 n rest h ih =>
    rw [ih, valueFrom, List.foldl_cons, digitValue_digit (Nat.mod_lt _ (by decide)),
      Nat.div_add_mod, ← valueFrom]

/-- A number that is written is read back. -/
theorem value_ofNat (n : Nat) : value (ofNat n) = n := value_push n []

end RideProof.Decimal
