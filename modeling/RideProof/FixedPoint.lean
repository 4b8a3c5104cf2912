/-!
# Fixed-point products

Words stand for fractions: a 16-bit weight `w` for `w / 2^16`, a signed 32-bit word `a` for
`a / 2^31`. Each product is taken exactly over the integers, rounded toward minus infinity and
then narrowed once to the word of its result.

* `weightMul` — weight by weight.
* `weigh` — a signed 16-bit word by a weight.
* `mulQ31` — two signed 32-bit words; `mulQ31Nat` has a second factor that is never negative.
-/

namespace RideProof

/-- The product of two weights. -/
def weightMul (a b : UInt16) : UInt16 :=
  UInt16.ofNat (a.toNat * b.toNat / 65536)

/-- A signed word times a weight. -/
def weigh (a : Int16) (w : UInt16) : Int16 :=
  Int16.ofInt (a.toInt * w.toNat / 65536)

/-- The product of two signed fractions. -/
def mulQ31 (a b : Int32) : Int32 :=
  Int32.ofInt (a.toInt * b.toInt / 2147483648)

/-- The product of a signed fraction and a word without a sign. -/
def mulQ31Nat (a : Int32) (b : UInt32) : Int32 :=
  Int32.ofInt (a.toInt * b.toNat / 2147483648)

/-- No bit of the rounded product of two weights is lost. -/
theorem toNat_weightMul (a b : UInt16) :
    (weightMul a b).toNat = a.toNat * b.toNat / 65536 := by
  have hb : b.toNat ≤ 65536 := Nat.le_of_lt b.toNat_lt
  have ha : a.toNat < 65536 := a.toNat_lt
  have hle : a.toNat * b.toNat / 65536 ≤ a.toNat := by
    refine Nat.div_le_of_le_mul ?_
    rw [Nat.mul_comm 65536]
    exact Nat.mul_le_mul_left _ hb
  simp only [weightMul, UInt16.toNat_ofNat']
  omega

end RideProof
