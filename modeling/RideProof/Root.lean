/-!
# Integer square root and inverse length

* `isqrt v` — the integer square root of a 64-bit word, one binary digit at a time.
* `inverseLength m` — the inverse of the length of a gradient whose squared length is `m`. Squared
  lengths are taken in buckets of 256, of which there are `inverseLengthCount`; the end buckets
  hold everything beyond them.
-/

namespace RideProof

/-- The low `k` digits of a square root. `root` holds the digits found so far, shifted to the left
by `k`, and `rem` what their square leaves of the radicand. -/
def rootDigits : (k rem root : Nat) → Nat
  | 0, _, root => root
  | k + 1, rem, root =>
    let bit := 4 ^ k
    if root + bit ≤ rem then rootDigits k (rem - (root + bit)) (root / 2 + bit)
    else rootDigits k rem (root / 2)

/-- The integer square root. -/
def isqrt (v : UInt64) : Nat := rootDigits 32 v.toNat 0

/-- The number of buckets of squared lengths. -/
def inverseLengthCount : Nat := 150000

/-- The inverse length for one bucket, taken at its upper end. -/
def bucketInverseLength (bucket : Nat) : Nat :=
  17592186036224 / isqrt (UInt64.ofNat ((bucket + 1) * 68719476736))

/-- The bucket of a squared length. -/
def lengthBucket (magnitudeSq : Int) : Nat :=
  min (magnitudeSq / 256).toNat (inverseLengthCount - 1)

/-- The inverse of the length of a gradient with squared length `magnitudeSq`. -/
def inverseLength (magnitudeSq : Int) : Nat :=
  bucketInverseLength (lengthBucket magnitudeSq)

end RideProof
