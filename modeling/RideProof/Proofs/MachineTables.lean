import Mathlib.Tactic.SplitIfs
import RideProof.Field.Sample
import RideProof.Proofs.MachineWords
import RideProof.Proofs.SineRange
import RideProof.Proofs.SquareRoot

/-!
# Products and tables on a machine

The fixed-point products of the library as a machine takes them, in a wider word and narrowed by a
cast, and the tables that it reads at a checked index. On a machine of either kind all of them get
the values of the library.

* `Word.weightMul_ofUInt16`, `Word.weigh_ofInt16`, `Word.mulQ31_ofInt32`, `Word.mulQ31Nat_ofInt32` —
  the products.
* `Word.sine_ofInt16`, `Word.cosine_ofInt16` — sine and cosine; no entry of their table is the word
  that has no negative.
* `Word.smooth_ofUInt16`, `Word.smoothSlope_ofUInt16`, `Word.shows_inverseLength` — the blend
  weights, and the inverse of a length.
-/

namespace RideProof

/-! ## Products -/

namespace Word

variable {m : Machine}

/-- The product of two weights. -/
def weightMul (a b : Word m .u16) : Word m .u16 := ((a.cast .u32 * b.cast .u32) >>> 16).cast .u16

/-- A signed word times a weight. -/
def weigh (a : Word m .i16) (w : Word m .u16) : Word m .i16 :=
  ((a.cast .i32 * w.cast .i32) >>> 16).cast .i16

/-- The product of two signed fractions. -/
def mulQ31 (a b : Word m .i32) : Word m .i32 := ((a.cast .i64 * b.cast .i64) >>> 31).cast .i32

/-- The product of a signed fraction and a word without a sign. -/
def mulQ31Nat (a : Word m .i32) (b : Word m .u32) : Word m .i32 :=
  ((a.cast .i64 * b.cast .i64) >>> 31).cast .i32

/-- A machine weighs words as the library does. -/
@[simp] theorem weigh_ofInt16 (a : Int16) (w : UInt16) :
    (ofInt16 a : Word m .i16).weigh (ofUInt16 w) = ofInt16 (RideProof.weigh a w) := by
  have hw : ((ofUInt16 w : Word m .u16).cast .i32).Shows w.toNat 65535 :=
    (shows_ofUInt16 w).widen (by decide)
  have hprod := (shows_cast_ofInt16 a).mul hw (by decide)
  exact (hprod.shiftRight (by decide) rfl).cast_i16

/-- A machine multiplies fractions as the library does. -/
@[simp] theorem mulQ31_ofInt32 (a b : Int32) :
    (ofInt32 a : Word m .i32).mulQ31 (ofInt32 b) = ofInt32 (RideProof.mulQ31 a b) := by
  have hprod := (shows_cast_ofInt32 (m := m) a).mul (shows_cast_ofInt32 b) (by decide)
  exact (hprod.shiftRight (by decide) rfl).cast_i32

/-- A machine multiplies a fraction with one without a sign as the library does. -/
@[simp] theorem mulQ31Nat_ofInt32 (a : Int32) (b : UInt32) :
    (ofInt32 a : Word m .i32).mulQ31Nat (ofUInt32 b) = ofInt32 (RideProof.mulQ31Nat a b) := by
  have hb : ((ofUInt32 b : Word m .u32).cast .i64).Shows b.toNat 4294967295 :=
    (shows_ofUInt32 b).widen (by decide)
  have hprod := (shows_cast_ofInt32 a).mul hb (by decide)
  exact (hprod.shiftRight (by decide) rfl).cast_i32

/-- A machine multiplies weights as the library does. -/
@[simp] theorem weightMul_ofUInt16 (a b : UInt16) :
    (ofUInt16 a : Word m .u16).weightMul (ofUInt16 b) = ofUInt16 (RideProof.weightMul a b) := by
  have ha : a.toNat ≤ 65535 := Nat.le_of_lt_succ a.toNat_lt
  have hb : b.toNat ≤ 65535 := Nat.le_of_lt_succ b.toNat_lt
  have hprod : a.toNat * b.toNat ≤ 65535 * 65535 := Nat.mul_le_mul ha hb
  have hmul : ((ofUInt16 a).cast .u32 * (ofUInt16 b).cast .u32 : Word m .u32) =
      of (a.toNat * b.toNat : Nat) := by
    rw [ofUInt16, ofUInt16, cast_of, cast_of, WordKind.wrap_of_fits, WordKind.wrap_of_fits]
    · exact settle_of_fits (WordKind.fits_u32.mpr (by omega))
    · exact WordKind.fits_u32.mpr (by omega)
    · exact WordKind.fits_u32.mpr (by omega)
  have hshift : (of (a.toNat * b.toNat : Nat) : Word m .u32) >>> 16 =
      of (a.toNat * b.toNat / 65536 : Nat) :=
    (Shows.shiftRight (.ofNat (Nat.le_refl _)) (by decide) rfl).eq
  rw [weightMul, hmul, hshift]
  exact (Shows.ofNat (Nat.le_refl _)).cast_u16

end Word

/-! ## Tables -/

/-- The sines of the first quadrant. -/
def sineTable : Table .i32 := ⟨quarterSineCount, fun i => (quarterSine i).toInt⟩

/-- The blend weights of all fractions. -/
def smoothTable : Table .u16 := ⟨65536, fun i => (smooth (.ofNat i)).toNat⟩

/-- Half the slopes of the blend weights of all fractions. -/
def smoothSlopeTable : Table .u16 := ⟨65536, fun i => (smoothSlope (.ofNat i)).toNat⟩

/-- The inverse lengths of all buckets. -/
def inverseLengthTable : Table .i32 :=
  ⟨inverseLengthCount, fun i => WordKind.i32.wrap (bucketInverseLength i)⟩

namespace Word

variable {m : Machine}

/-- The sine of an angle. -/
def sine (a : Word m .i16) : Word m .i32 :=
  let a : Word m .i32 := a.cast .i32
  a.bind fun x =>
    if x ≤ -16384 then -sineTable.at ((of 32768 + a).cast .u64)
    else if x < 0 then -sineTable.at ((-a).cast .u64)
    else if x < 16384 then sineTable.at (a.cast .u64)
    else sineTable.at ((of 32768 - a).cast .u64)

/-- The cosine of an angle. -/
def cosine (a : Word m .i16) : Word m .i32 :=
  let a : Word m .i32 := a.cast .i32
  a.bind fun x =>
    if x ≤ -16384 then -sineTable.at ((of (-16384) - a).cast .u64)
    else if x < 0 then sineTable.at ((of 16384 + a).cast .u64)
    else if x < 16384 then sineTable.at ((of 16384 - a).cast .u64)
    else -sineTable.at ((a - of 16384).cast .u64)

/-- The blend weight of a fraction. -/
def smooth (t : Word m .u16) : Word m .u16 := smoothTable.at (t.cast .u64)

/-- Half the slope of the blend weight of a fraction. -/
def smoothSlope (t : Word m .u16) : Word m .u16 := smoothSlopeTable.at (t.cast .u64)

/-- The inverse of the length of a gradient. -/
def inverseLength (magnitudeSq : Word m .i64) : Word m .i64 :=
  (inverseLengthTable.at
    (((magnitudeSq >>> 8).clamp 0 (inverseLengthCount - 1)).cast .u64)).cast .i64

/-- An index that fits the table of sines. -/
theorem sineTable_at {i : Word m .i32} {v : Int} {A : Nat} (hi : i.Shows v A) (h0 : 0 ≤ v)
    (h : v ≤ 16384) : sineTable.at (i.cast .u64) = ofInt32 (quarterSine v.toNat) := by
  obtain ⟨n, rfl⟩ := Int.eq_ofNat_of_zero_le h0
  have hfits : WordKind.u64.Fits n := by
    rw [WordKind.fits_u64]
    omega
  rw [hi.eq, cast_of, WordKind.wrap_of_fits hfits, sineTable.at_of (by omega : n < 16385)]
  rfl

/-- An entry of the table of sines has a negative. -/
theorem neg_quarterSine {v : Int} (h : v ≤ 16384) :
    -(ofInt32 (quarterSine v.toNat) : Word m .i32) = ofInt32 (-quarterSine v.toNat) := by
  have hindex : v.toNat < quarterSineCount := Nat.lt_succ_of_le (Int.toNat_le.mpr h)
  have hnonneg := quarterSine_nonneg hindex
  have hlt := (quarterSine v.toNat).toInt_lt
  have hshow : (ofInt32 (quarterSine v.toNat) : Word m .i32).Shows _ 2147483647 := .of (by omega)
  rw [(hshow.neg (by decide)).eq, ← toInt_neg_quarterSine hindex]
  rfl

/-- The machine reads the sine of an angle at the right place. -/
@[simp] theorem sine_ofInt16 (a : Int16) :
    (ofInt16 a : Word m .i16).sine = ofInt32 (RideProof.sine a) := by
  have ha := shows_cast_ofInt16 (m := m) a
  have hhalf : (of 32768 : Word m .i32).Shows 32768 32768 := .of (by decide)
  have hlow := a.le_toInt
  have hhigh := a.toInt_lt
  unfold sine
  dsimp only
  rw [ha.eq, bind_of, ← ha.eq, sine_eq]
  split_ifs
  · rw [sineTable_at (hhalf.add ha (by decide)) (by omega) (by omega), neg_quarterSine (by omega)]
  · rw [sineTable_at (ha.neg (by decide)) (by omega) (by omega), neg_quarterSine (by omega)]
  · rw [sineTable_at ha (by omega) (by omega)]
  · rw [sineTable_at (hhalf.sub ha (by decide)) (by omega) (by omega)]

/-- The machine reads the cosine of an angle at the right place. -/
@[simp] theorem cosine_ofInt16 (a : Int16) :
    (ofInt16 a : Word m .i16).cosine = ofInt32 (RideProof.cosine a) := by
  have ha := shows_cast_ofInt16 (m := m) a
  have hquarter : (of 16384 : Word m .i32).Shows 16384 16384 := .of (by decide)
  have hminus : (of (-16384) : Word m .i32).Shows (-16384) 16384 := .of (by decide)
  have hlow := a.le_toInt
  have hhigh := a.toInt_lt
  unfold cosine
  dsimp only
  rw [ha.eq, bind_of, ← ha.eq, cosine_eq]
  split_ifs
  · rw [sineTable_at (hminus.sub ha (by decide)) (by omega) (by omega), neg_quarterSine (by omega)]
  · rw [sineTable_at (hquarter.add ha (by decide)) (by omega) (by omega)]
  · rw [sineTable_at (hquarter.sub ha (by decide)) (by omega) (by omega)]
  · rw [sineTable_at (ha.sub hquarter (by decide)) (by omega) (by omega),
      neg_quarterSine (by omega)]

/-- Every weight is an index of a table with 65536 entries. -/
theorem cast_ofUInt16 (t : UInt16) : (ofUInt16 t : Word m .u16).cast .u64 = of t.toNat := by
  have hlt := t.toNat_lt
  have hfits : WordKind.u64.Fits t.toNat := by
    rw [WordKind.fits_u64]
    omega
  rw [ofUInt16, cast_of, WordKind.wrap_of_fits hfits]

/-- A machine gets the weight of a fraction. -/
@[simp] theorem smooth_ofUInt16 (t : UInt16) :
    (ofUInt16 t : Word m .u16).smooth = ofUInt16 (RideProof.smooth t) := by
  rw [smooth, cast_ofUInt16, smoothTable.at_of t.toNat_lt, ofUInt16]
  simp [smoothTable]

/-- A machine gets the slope of the weight of a fraction. -/
@[simp] theorem smoothSlope_ofUInt16 (t : UInt16) :
    (ofUInt16 t : Word m .u16).smoothSlope = ofUInt16 (RideProof.smoothSlope t) := by
  rw [smoothSlope, cast_ofUInt16, smoothSlopeTable.at_of t.toNat_lt, ofUInt16]
  simp [smoothSlopeTable]

/-- The bucket of a squared length is an index of the table. -/
theorem inverseLengthTable_at (v : Int) :
    inverseLengthTable.at (of (lengthBucket v) : Word m .u64) =
      of (WordKind.i32.wrap (RideProof.inverseLength v)) := by
  rw [inverseLengthTable.at_of (lengthBucket_lt v)]
  rfl

/-- The inverse length is that of the library, and far inside its word. -/
theorem shows_inverseLength (v : Int) :
    (of v : Word m .i64).inverseLength.Shows (RideProof.inverseLength v) 67108863 := by
  have hcount : inverseLengthCount = 150000 := rfl
  have hlt := lengthBucket_lt v
  have hentry : (of (RideProof.inverseLength v) : Word m .i32).Shows _ 67108863 :=
    .ofNat (bucketInverseLength_le hlt)
  have hshift : (of v : Word m .i64) >>> 8 = of (v / 256) :=
    (Shows.shiftRight (.of (Nat.le_refl _)) (by decide) rfl).eq
  have hclamp : min ((inverseLengthCount : Int) - 1) (max 0 (v / 256)) = lengthBucket v := by
    unfold lengthBucket
    omega
  have hindex : WordKind.u64.Fits (lengthBucket v) := by
    rw [WordKind.fits_u64]
    omega
  rw [inverseLength, hshift, clamp, bind_of, hclamp, cast_of, WordKind.wrap_of_fits hindex,
    inverseLengthTable_at, WordKind.wrap_of_fits (hentry.fits (by decide))]
  exact hentry.widen (by decide)

end Word

end RideProof
