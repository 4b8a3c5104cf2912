import RideProof.FixedPoint

/-!
# Words of a machine

A machine computes with words of a fixed width. When the result of a sum, a product or a negation
does not fit its word, a `checking` machine stops and a `wrapping` one goes on with the result taken
modulo the range of the word; some operations wrap on both. Both stop at a division by zero or with
a quotient that does not fit, at a shift by the width or more, and at the end of a table. A
computation that has a value on a checking machine, and the same on a wrapping one, has met none of
these faults.

* `WordKind`, `Machine` — the widths and the two machines.
* `Word` — a word of a machine, or nothing if the machine stopped on the way to it. The operations
  are those of the machine, and pass a stop on.
* `Table` — a table of words, with `Table.at` to read it.
* `Word.Shows` — a word is there, and its value and a bound on its magnitude are known. There is one
  rule for each operation, with the room that it needs as its side condition.
-/

namespace RideProof

/-! ## Kinds of words and machines -/

/-- The kinds of words: with a sign or without, and their width. -/
inductive WordKind
  /-- 16 bits with a sign. -/
  | i16
  /-- 16 bits without a sign. -/
  | u16
  /-- 32 bits with a sign. -/
  | i32
  /-- 32 bits without a sign. -/
  | u32
  /-- 64 bits with a sign. -/
  | i64
  /-- 64 bits without a sign. -/
  | u64
  deriving DecidableEq, Repr

namespace WordKind

/-- The width of a word. -/
def bits : WordKind → Nat
  | i16 | u16 => 16
  | i32 | u32 => 32
  | i64 | u64 => 64

/-- The least number that fits. -/
def low : WordKind → Int
  | i16 => -32768
  | i32 => -2147483648
  | i64 => -9223372036854775808
  | u16 | u32 | u64 => 0

/-- The greatest number that fits. -/
def high : WordKind → Int
  | i16 => 32767
  | u16 => 65535
  | i32 => 2147483647
  | u32 => 4294967295
  | i64 => 9223372036854775807
  | u64 => 18446744073709551615

/-- How many numbers fit. -/
def span : WordKind → Int
  | i16 | u16 => 65536
  | i32 | u32 => 4294967296
  | i64 | u64 => 18446744073709551616

/-- The greatest magnitude that fits with either sign. -/
def reach : WordKind → Nat
  | i16 => 32767
  | i32 => 2147483647
  | i64 => 9223372036854775807
  | u16 | u32 | u64 => 0

/-- A number fits a word. -/
def Fits (k : WordKind) (v : Int) : Prop := k.low ≤ v ∧ v ≤ k.high

/-- Whether a number fits can be decided. -/
instance (k : WordKind) (v : Int) : Decidable (k.Fits v) :=
  inferInstanceAs (Decidable (_ ∧ _))

/-- The number that fits a word and differs from `v` by a multiple of its range. -/
def wrap (k : WordKind) (v : Int) : Int := (v - k.low) % k.span + k.low

/-- A number within reach fits. -/
theorem fits_of_le_reach {k : WordKind} {v : Int} (h : v.natAbs ≤ k.reach) : k.Fits v := by
  unfold Fits
  cases k <;> simp only [reach, low, high] at h ⊢ <;> omega

/-- What fits 32 bits without a sign. -/
theorem fits_u32 {v : Int} : u32.Fits v ↔ 0 ≤ v ∧ v ≤ 4294967295 := .rfl

/-- What fits 64 bits without a sign. -/
theorem fits_u64 {v : Int} : u64.Fits v ↔ 0 ≤ v ∧ v ≤ 18446744073709551615 := .rfl

/-- A number that fits does not wrap. -/
theorem wrap_of_fits {k : WordKind} {v : Int} (h : k.Fits v) : k.wrap v = v := by
  unfold Fits at h
  unfold wrap
  cases k <;> simp only [low, high, span] at h ⊢ <;> omega

/-- To wrap to 16 bits is to take the signed word of the library. -/
theorem wrap_i16 (v : Int) : i16.wrap v = (Int16.ofInt v).toInt := by
  rw [Int16.toInt_ofInt, Int.bmod_def]
  simp only [wrap, low, span, Int16.size]
  split <;> omega

/-- To wrap to 32 bits is to take the signed word of the library. -/
theorem wrap_i32 (v : Int) : i32.wrap v = (Int32.ofInt v).toInt := by
  rw [Int32.toInt_ofInt, Int.bmod_def]
  simp only [wrap, low, span, Int32.size]
  split <;> omega

/-- To wrap a natural number to 16 bits is to take the word of the library. -/
theorem wrap_u16 (n : Nat) : u16.wrap n = (UInt16.ofNat n).toNat := by
  rw [UInt16.toNat_ofNat']
  simp only [wrap, low, span]
  omega

/-- To wrap to 64 bits is to take the balanced remainder. -/
theorem wrap_i64 (v : Int) : i64.wrap v = v.bmod UInt64.size := by
  rw [Int.bmod_def]
  simp only [wrap, low, span, UInt64.size]
  split <;> omega

end WordKind

/-- The two kinds of machines. -/
inductive Machine
  /-- Stops at an operation whose result does not fit. -/
  | checking
  /-- Lets a result that does not fit wrap. -/
  | wrapping
  deriving DecidableEq, Repr

/-- A word of a machine, or nothing if it stopped before. -/
structure Word (m : Machine) (k : WordKind) where
  /-- The value of the word. -/
  value? : Option Int
  deriving DecidableEq, Repr

namespace Word

variable {m : Machine} {k l : WordKind}

/-! ## Operations -/

/-- The word with a value that fits. -/
def of (v : Int) : Word m k := ⟨some v⟩

/-- The machine has stopped. -/
def stop : Word m k := ⟨none⟩

/-- Go on from the value of a word. -/
def bind (a : Word m k) (f : Int → Word m l) : Word m l :=
  match a.value? with
  | none => stop
  | some v => f v

/-- The result `v` of an operation that a checking machine checks. -/
def settle (v : Int) : Word m k :=
  if k.Fits v then of v
  else
    match m with
    | .checking => stop
    | .wrapping => of (k.wrap v)

/-- The sum of two words, which may not fit. -/
instance : Add (Word m k) := ⟨fun a b => a.bind fun x => b.bind fun y => settle (x + y)⟩

/-- The difference of two words, which may not fit. -/
instance : Sub (Word m k) := ⟨fun a b => a.bind fun x => b.bind fun y => settle (x - y)⟩

/-- The product of two words, which may not fit. -/
instance : Mul (Word m k) := ⟨fun a b => a.bind fun x => b.bind fun y => settle (x * y)⟩

/-- The negation of a word, which may not fit. -/
instance : Neg (Word m k) := ⟨fun a => a.bind fun x => settle (-x)⟩

/-- Division rounds toward zero, and stops both machines if the quotient does not exist or fit. -/
instance : Div (Word m k) :=
  ⟨fun a b => a.bind fun x => b.bind fun y =>
    if y ≠ 0 ∧ k.Fits (x.tdiv y) then of (x.tdiv y) else stop⟩

/-- The remainder has the sign of the dividend, and exists where the quotient does. -/
instance : Mod (Word m k) :=
  ⟨fun a b => a.bind fun x => b.bind fun y =>
    if y ≠ 0 ∧ k.Fits (x.tdiv y) then of (x.tmod y) else stop⟩

/-- A shift to the right keeps the sign. -/
instance : HShiftRight (Word m k) Nat (Word m k) :=
  ⟨fun a n => a.bind fun x => if n < k.bits then of (x >>> n) else stop⟩

/-- A shift to the left drops what leaves the word. -/
instance : HShiftLeft (Word m k) Nat (Word m k) :=
  ⟨fun a n => a.bind fun x => if n < k.bits then of (k.wrap (x <<< n)) else stop⟩

/-- The bits of a word without a sign that a mask keeps. -/
def mask (a : Word m k) (bits : Nat) : Word m k := a.bind fun x => of (x.toNat &&& bits : Nat)

/-- The magnitude of a word, which does not fit for the least one. -/
def abs (a : Word m k) : Word m k := a.bind fun x => settle x.natAbs

/-- The sign of a word. -/
def sign (a : Word m k) : Word m k := a.bind fun x => of x.sign

/-- The lesser of two words. -/
def least (a b : Word m k) : Word m k := a.bind fun x => b.bind fun y => of (min x y)

/-- The word nearest to `a` from `low` to `high`. -/
def clamp (a : Word m k) (low high : Int) : Word m k := a.bind fun x => of (min high (max low x))

/-- The word as one of another kind: what does not fit wraps on both machines. -/
def cast (l : WordKind) (a : Word m k) : Word m l := a.bind fun x => of (l.wrap x)

/-- A sum that wraps on both machines. -/
def wrappingAdd (a b : Word m k) : Word m k := a.bind fun x => b.bind fun y => of (k.wrap (x + y))

/-- A difference that wraps on both machines. -/
def wrappingSub (a b : Word m k) : Word m k := a.bind fun x => b.bind fun y => of (k.wrap (x - y))

/-- A product that wraps on both machines. -/
def wrappingMul (a b : Word m k) : Word m k := a.bind fun x => b.bind fun y => of (k.wrap (x * y))

/-- A negation that wraps on both machines. -/
def wrappingNeg (a : Word m k) : Word m k := a.bind fun x => of (k.wrap (-x))

/-- A machine that got to a word goes on with its value. -/
@[simp] theorem bind_of (v : Int) (f : Int → Word m l) : (of v : Word m k).bind f = f v := rfl

/-- A machine that got to a word has its value. -/
@[simp] theorem value?_of (v : Int) : (of v : Word m k).value? = some v := rfl

/-- A word that is cast wraps to the other kind. -/
@[simp] theorem cast_of (v : Int) : (of v : Word m k).cast l = of (l.wrap v) := rfl

/-- A result that fits is the word of both machines. -/
theorem settle_of_fits {v : Int} (h : k.Fits v) : (settle v : Word m k) = of v := if_pos h

/-- A sum that fits is the word of both machines. -/
theorem add_of {v w : Int} (h : k.Fits (v + w)) : (of v + of w : Word m k) = of (v + w) :=
  settle_of_fits h

/-- A product that fits is the word of both machines. -/
theorem mul_of {v w : Int} (h : k.Fits (v * w)) : (of v * of w : Word m k) = of (v * w) :=
  settle_of_fits h

/-- A remainder of numbers without a sign. -/
theorem mod_of {n d : Nat} (hd : d ≠ 0) (h : k.Fits (n / d : Nat)) :
    (of n % of d : Word m k) = of (n % d : Nat) :=
  if_pos ⟨Int.natCast_ne_zero.mpr hd, h⟩

/-! ## Words of the library -/

/-- A signed byte as a word. -/
def ofInt8 (a : Int8) : Word m .i32 := of a.toInt

/-- A signed 16-bit word. -/
def ofInt16 (a : Int16) : Word m .i16 := of a.toInt

/-- A 16-bit word without a sign. -/
def ofUInt16 (a : UInt16) : Word m .u16 := of a.toNat

/-- A signed 32-bit word. -/
def ofInt32 (a : Int32) : Word m .i32 := of a.toInt

/-- A 32-bit word without a sign. -/
def ofUInt32 (a : UInt32) : Word m .u32 := of a.toNat

/-- A signed word read without its sign. -/
theorem cast_u32_ofInt32 (a : Int32) :
    (ofInt32 a : Word m .i32).cast .u32 = ofUInt32 a.toUInt32 := by
  have hlt := a.toUInt32.toNat_lt
  have hsign : a.toInt = (a.toUInt32.toNat : Int).bmod 4294967296 :=
    BitVec.toInt_eq_toNat_bmod a.toBitVec
  have hwrap : WordKind.u32.wrap a.toInt = a.toUInt32.toNat := by
    rw [hsign, Int.bmod_def]
    simp only [WordKind.wrap, WordKind.low, WordKind.span]
    split <;> omega
  rw [ofInt32, cast_of, hwrap, ofUInt32]

/-- The signed 16-bit word, if the machine got there. -/
def toInt16? (a : Word m .i16) : Option Int16 := a.value?.map Int16.ofInt

/-- The signed 32-bit word, if the machine got there. -/
def toInt32? (a : Word m .i32) : Option Int32 := a.value?.map Int32.ofInt

/-- A signed 16-bit word is read off a machine as it was put there. -/
@[simp] theorem toInt16?_ofInt16 (a : Int16) : (ofInt16 a : Word m .i16).toInt16? = some a := by
  simp [ofInt16, toInt16?]

/-- A signed 32-bit word is read off a machine as it was put there. -/
@[simp] theorem toInt32?_ofInt32 (a : Int32) : (ofInt32 a : Word m .i32).toInt32? = some a := by
  simp [ofInt32, toInt32?]

/-! The operations that wrap on both machines are those of the library's words. -/

/-- A sum of 32 bits. -/
@[simp] theorem wrappingAdd_ofInt32 (a b : Int32) :
    (ofInt32 a : Word m .i32).wrappingAdd (ofInt32 b) = ofInt32 (a + b) := by
  simp [ofInt32, wrappingAdd, WordKind.wrap_i32, Int32.ofInt_add]

/-- A difference of 32 bits. -/
@[simp] theorem wrappingSub_ofInt32 (a b : Int32) :
    (ofInt32 a : Word m .i32).wrappingSub (ofInt32 b) = ofInt32 (a - b) := by
  simp [ofInt32, wrappingSub, WordKind.wrap_i32, Int32.ofInt_sub]

/-- A product of 32 bits. -/
@[simp] theorem wrappingMul_ofInt32 (a b : Int32) :
    (ofInt32 a : Word m .i32).wrappingMul (ofInt32 b) = ofInt32 (a * b) := by
  simp [ofInt32, wrappingMul, WordKind.wrap_i32, Int32.ofInt_mul]

/-- A negation of 32 bits. -/
@[simp] theorem wrappingNeg_ofInt32 (a : Int32) :
    (ofInt32 a : Word m .i32).wrappingNeg = ofInt32 (-a) := by
  simp [ofInt32, wrappingNeg, WordKind.wrap_i32, Int32.ofInt_neg]

/-- A sum of 16 bits. -/
@[simp] theorem wrappingAdd_ofInt16 (a b : Int16) :
    (ofInt16 a : Word m .i16).wrappingAdd (ofInt16 b) = ofInt16 (a + b) := by
  simp [ofInt16, wrappingAdd, WordKind.wrap_i16, Int16.ofInt_add]

/-- A difference of 16 bits. -/
@[simp] theorem wrappingSub_ofInt16 (a b : Int16) :
    (ofInt16 a : Word m .i16).wrappingSub (ofInt16 b) = ofInt16 (a - b) := by
  simp [ofInt16, wrappingSub, WordKind.wrap_i16, Int16.ofInt_sub]

/-! ## Values and their bounds -/

/-- The machine got to the word, its value is `v` and of magnitude `bound` at most. -/
structure Shows (a : Word m k) (v : Int) (bound : Nat) : Prop where
  /-- The word has the value. -/
  eq : a = of v
  /-- The bound on the value. -/
  le : v.natAbs ≤ bound

namespace Shows

variable {a b : Word m k} {v w : Int} {A B : Nat}

/-- A number shows itself, within every bound of its magnitude. -/
theorem of (h : v.natAbs ≤ A) : (Word.of v : Word m k).Shows v A := ⟨rfl, h⟩

/-- A bound may be raised. -/
theorem mono (h : a.Shows v A) (hAB : A ≤ B) : a.Shows v B := ⟨h.eq, Nat.le_trans h.le hAB⟩

/-- A natural number shows itself, within every bound of it. -/
theorem ofNat {n : Nat} (h : n ≤ A) : (Word.of n : Word m k).Shows n A := .of h

/-- Equal values may be exchanged. -/
theorem congr (h : a.Shows v A) (hvw : v = w) : a.Shows w A := hvw ▸ h

/-- What is shown within reach fits. -/
theorem fits (h : a.Shows v A) (hA : A ≤ k.reach) : k.Fits v :=
  WordKind.fits_of_le_reach (Nat.le_trans h.le hA)

/-- A result that fits is what a machine of either kind gets. -/
theorem settle (h : v.natAbs ≤ A) (hA : A ≤ k.reach) : (Word.settle v : Word m k).Shows v A :=
  ⟨settle_of_fits (WordKind.fits_of_le_reach (Nat.le_trans h hA)), h⟩

/-- A result that fits does not wrap. -/
theorem wrap (h : v.natAbs ≤ A) (hA : A ≤ k.reach) : (Word.of (k.wrap v) : Word m k).Shows v A := by
  rw [WordKind.wrap_of_fits (WordKind.fits_of_le_reach (Nat.le_trans h hA))]
  exact .of h

/-- A sum, if the bounds leave room for it. -/
theorem add (ha : a.Shows v A) (hb : b.Shows w B) (h : A + B ≤ k.reach) :
    (a + b).Shows (v + w) (A + B) := by
  obtain ⟨rfl, hA⟩ := ha
  obtain ⟨rfl, hB⟩ := hb
  exact settle (Nat.le_trans (Int.natAbs_add_le v w) (Nat.add_le_add hA hB)) h

/-- A difference, if the bounds leave room for it. -/
theorem sub (ha : a.Shows v A) (hb : b.Shows w B) (h : A + B ≤ k.reach) :
    (a - b).Shows (v - w) (A + B) := by
  obtain ⟨rfl, hA⟩ := ha
  obtain ⟨rfl, hB⟩ := hb
  exact settle (Nat.le_trans (Int.natAbs_sub_le v w) (Nat.add_le_add hA hB)) h

/-- A product, if the bounds leave room for it. -/
theorem mul (ha : a.Shows v A) (hb : b.Shows w B) (h : A * B ≤ k.reach) :
    (a * b).Shows (v * w) (A * B) := by
  obtain ⟨rfl, hA⟩ := ha
  obtain ⟨rfl, hB⟩ := hb
  exact settle (Int.natAbs_mul v w ▸ Nat.mul_le_mul hA hB) h

/-- A negation, if the bound leaves room for it. -/
theorem neg (ha : a.Shows v A) (h : A ≤ k.reach) : (-a).Shows (-v) A := by
  obtain ⟨rfl, hA⟩ := ha
  exact settle (Int.natAbs_neg v ▸ hA) h

/-- A magnitude, if the bound leaves room for it. -/
theorem abs (ha : a.Shows v A) (h : A ≤ k.reach) : a.abs.Shows v.natAbs A := by
  obtain ⟨rfl, hA⟩ := ha
  exact settle hA h

/-- A sign needs no room. -/
theorem sign (ha : a.Shows v A) : a.sign.Shows v.sign 1 := by
  obtain ⟨rfl, -⟩ := ha
  refine .of ?_
  rw [Int.natAbs_sign]
  split <;> decide

/-- The lesser of two words is one of them. -/
theorem least (ha : a.Shows v A) (hb : b.Shows w B) : (a.least b).Shows (min v w) (max A B) := by
  obtain ⟨rfl, hA⟩ := ha
  obtain ⟨rfl, hB⟩ := hb
  exact .of (by omega)

/-- Division by a number other than zero. -/
theorem div (ha : a.Shows v A) {d : Int} (hd : d ≠ 0) (h : A / d.natAbs ≤ k.reach) :
    (a / Word.of d).Shows (v.tdiv d) (A / d.natAbs) := by
  obtain ⟨rfl, hA⟩ := ha
  have hle : (v.tdiv d).natAbs ≤ A / d.natAbs := by
    rw [Int.natAbs_tdiv]
    exact Nat.div_le_div_right hA
  have hfits := WordKind.fits_of_le_reach (Nat.le_trans hle h)
  show (if d ≠ 0 ∧ k.Fits (v.tdiv d) then Word.of (v.tdiv d) else stop).Shows _ _
  rw [if_pos ⟨hd, hfits⟩]
  exact .of hle

/-- A shift to the right is a division that rounds toward minus infinity. -/
theorem shiftRight (ha : a.Shows v A) {n d : Nat} (hn : n < k.bits) (hd : 1 <<< n = d) :
    (a >>> n).Shows (v / d) (A / d + 1) := by
  obtain ⟨rfl, hA⟩ := ha
  have hpos : 0 < d := hd ▸ Nat.one_shiftLeft n ▸ Nat.two_pow_pos n
  have hle : (v / d).natAbs ≤ A / d + 1 := by
    obtain ⟨d, rfl⟩ := Nat.exists_eq_succ_of_ne_zero (Nat.ne_of_gt hpos)
    rcases v with v | v
    · exact Nat.le_succ_of_le (Nat.div_le_div_right hA)
    · -- below zero the quotient is rounded away from zero
      exact Nat.succ_le_succ (Nat.div_le_div_right (Nat.le_of_succ_le hA))
  show (if n < k.bits then Word.of (v >>> n) else stop).Shows (v / d) (A / d + 1)
  rw [if_pos hn, Int.shiftRight_eq_div_pow, ← Nat.one_shiftLeft, hd]
  exact .of hle

/-- A shift to the left is a product, if it fits. -/
theorem shiftLeft (ha : a.Shows v A) {n d : Nat} (hn : n < k.bits) (hd : 1 <<< n = d)
    (h : A * d ≤ k.reach) : (a <<< n).Shows (v * d) (A * d) := by
  obtain ⟨rfl, hA⟩ := ha
  have hshift : v <<< n = v * d := by
    rw [Int.shiftLeft_eq, ← hd, Nat.one_shiftLeft]
    rfl
  show (if n < k.bits then Word.of (k.wrap (v <<< n)) else stop).Shows (v * d) (A * d)
  rw [if_pos hn, hshift]
  refine wrap ?_ h
  rw [Int.natAbs_mul, Int.natAbs_natCast]
  exact Nat.mul_le_mul_right d hA

/-- A word that fits the other kind keeps its value. -/
theorem widen (ha : a.Shows v A) (h : A ≤ l.reach) : (a.cast l).Shows v A := by
  obtain ⟨rfl, hA⟩ := ha
  exact wrap hA h

/-- The low 16 bits of a word. -/
theorem cast_i16 (ha : a.Shows v A) : a.cast .i16 = ofInt16 (Int16.ofInt v) := by
  rw [ha.eq, ofInt16, ← WordKind.wrap_i16]
  rfl

/-- The low 32 bits of a word. -/
theorem cast_i32 (ha : a.Shows v A) : a.cast .i32 = ofInt32 (Int32.ofInt v) := by
  rw [ha.eq, ofInt32, ← WordKind.wrap_i32]
  rfl

/-- The low 16 bits of a word, without a sign. -/
theorem cast_u16 {n : Nat} (ha : a.Shows n A) : a.cast .u16 = ofUInt16 (UInt16.ofNat n) := by
  rw [ha.eq, ofUInt16, ← WordKind.wrap_u16]
  rfl

/-- A sum that fits does not wrap. -/
theorem wrappingAdd (ha : a.Shows v A) (hb : b.Shows w B) (h : A + B ≤ k.reach) :
    (a.wrappingAdd b).Shows (v + w) (A + B) := by
  obtain ⟨rfl, hA⟩ := ha
  obtain ⟨rfl, hB⟩ := hb
  exact wrap (Nat.le_trans (Int.natAbs_add_le v w) (Nat.add_le_add hA hB)) h

/-- A difference that fits does not wrap. -/
theorem wrappingSub (ha : a.Shows v A) (hb : b.Shows w B) (h : A + B ≤ k.reach) :
    (a.wrappingSub b).Shows (v - w) (A + B) := by
  obtain ⟨rfl, hA⟩ := ha
  obtain ⟨rfl, hB⟩ := hb
  exact wrap (Nat.le_trans (Int.natAbs_sub_le v w) (Nat.add_le_add hA hB)) h

end Shows

/-! ## Bounds that come with the words -/

/-- A signed byte. -/
theorem shows_ofInt8 (a : Int8) : (ofInt8 a : Word m .i32).Shows a.toInt 128 := by
  have hlow := a.le_toInt
  have hhigh := a.toInt_lt
  exact .of (by omega)

/-- A signed 16-bit word. -/
theorem shows_ofInt16 (a : Int16) : (ofInt16 a : Word m .i16).Shows a.toInt 32768 := by
  have hlow := a.le_toInt
  have hhigh := a.toInt_lt
  exact .of (by omega)

/-- A 16-bit word without a sign. -/
theorem shows_ofUInt16 (a : UInt16) : (ofUInt16 a : Word m .u16).Shows a.toNat 65535 := by
  have hhigh := a.toNat_lt
  exact .of (by omega)

/-- A signed 32-bit word. -/
theorem shows_ofInt32 (a : Int32) : (ofInt32 a : Word m .i32).Shows a.toInt 2147483648 := by
  have hlow := a.le_toInt
  have hhigh := a.toInt_lt
  exact .of (by omega)

/-- A 16-bit word in 32 bits. -/
theorem shows_cast_ofInt16 (a : Int16) :
    ((ofInt16 a : Word m .i16).cast .i32).Shows a.toInt 32768 :=
  (shows_ofInt16 a).widen (by decide)

/-- A 32-bit word in 64 bits. -/
theorem shows_cast_ofInt32 (a : Int32) :
    ((ofInt32 a : Word m .i32).cast .i64).Shows a.toInt 2147483648 :=
  (shows_ofInt32 a).widen (by decide)

/-- A 32-bit word without a sign. -/
theorem shows_ofUInt32 (a : UInt32) : (ofUInt32 a : Word m .u32).Shows a.toNat 4294967295 := by
  have hhigh := a.toNat_lt
  exact .of (by omega)

end Word

/-! ## Tables -/

/-- A table of words. -/
structure Table (k : WordKind) where
  /-- The number of entries. -/
  size : Nat
  /-- The entries. -/
  entry : Nat → Int

/-- The entry at an index, if it is in the table. -/
def Table.at {m : Machine} {k : WordKind} (t : Table k) (i : Word m .u64) : Word m k :=
  i.bind fun n => if n.toNat < t.size then .of (t.entry n.toNat) else .stop

/-- The entry at an index that is in the table. -/
theorem Table.at_of {m : Machine} {k : WordKind} (t : Table k) {i : Nat} (h : i < t.size) :
    t.at (.of i : Word m .u64) = .of (t.entry i) := if_pos h

end RideProof
