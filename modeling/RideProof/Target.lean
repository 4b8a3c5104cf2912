import RideProof.Bytes.LittleEndian
import RideProof.Sha512

/-!
# The difficulty target

A work block ends in a compact difficulty target: a digit count in the top byte, three mantissa
bytes below it.

* `CompactTarget.ofBlock` — the target of a block; its low 14 bits are not used.
* `CompactTarget.expand` — the target as 32 bytes, most significant first: the three mantissa bytes
  are the leading digits of a number of that many digits, to base 256.
* `CompactTarget.metBy` — whether the first half of a digest, read the same way, is no greater.
-/

namespace RideProof

/-- The number of bytes in a work block. -/
abbrev blockSize : Nat := 76

/-- The block of a work unit. -/
abbrev Block := Bytes blockSize

/-- A packed difficulty target. -/
structure CompactTarget where
  /-- The digit count and the mantissa. -/
  bits : UInt32
  deriving DecidableEq, Repr

namespace CompactTarget

/-- The target in the last four bytes of a block. -/
def ofBlock (block : Block) : CompactTarget :=
  ⟨UInt32.ofNat (LittleEndian.value (block.slice 72 4 (by decide)).toList) &&& 0xFFFFC000⟩

/-- A target of zero lets every digest through. -/
def isOpen (t : CompactTarget) : Bool := t.bits == 0

/-- The number of significant digits, at most all 32. -/
def digits (t : CompactTarget) : Nat := min (t.bits.toNat / 16777216) 32

/-- The leading digits of the target, most significant first. -/
def mantissa (t : CompactTarget) : Bytes 3 :=
  (LittleEndian.digits 3 t.bits.toNat).reverse

/-- The target as a big-endian number: the mantissa starts `digits` places before the end, and what
falls off the end is dropped. -/
def expand (t : CompactTarget) : Bytes 32 :=
  Vector.ofFn fun i =>
    if i.val + t.digits < 32 then 0 else t.mantissa.getD (i.val + t.digits - 32) 0

/-- Whether a list of bytes comes before another, or is equal to it, in the order of the first
difference. -/
def bytesLe : List UInt8 → List UInt8 → Bool
  | [], _ => true
  | _ :: _, [] => false
  | a :: as, b :: bs => if a = b then bytesLe as bs else decide (a < b)

/-- Whether a digest meets the target. -/
def metBy (t : CompactTarget) (digest : Digest) : Bool :=
  t.isOpen || bytesLe (digest.toList.take 32) t.expand.toList

end CompactTarget

end RideProof
