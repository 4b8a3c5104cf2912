import RideProof.Proofs.MachineTables

/-!
# The square root on a machine

A machine finds the digits of a square root in two loops. The first moves one bit down, two places
at a time, until it is not above the radicand; there the highest digit of the root is. The second
goes on from that bit and decides on one digit at each place, until the bit has left the word. A
loop is known by its single turns, and has a result only if a run of turns without a fault comes to
an end.

* `LoopsTo` — the result of a loop. `LoopsTo.unique` — there is no other.
* `Machine.leadingTurn`, `Machine.rootTurn` — a turn of either loop.
* `Machine.IsRoot` — the square root on a machine. `Machine.IsEntry` — an entry of the table of
  inverse lengths.
* `Machine.isRoot_iff`, `Machine.isEntry_iff` — on a machine of either kind, for every radicand,
  these are the numbers of the library and no others.
* `inverseLength_antitone` — longer gradients have smaller inverse lengths.
* `isqrt_floor` — all of it.
-/

namespace RideProof

namespace Word

variable {m : Machine} {k : WordKind}

/-- A difference that fits is the word of both machines. -/
theorem sub_of {v w : Int} (h : k.Fits (v - w)) : (of v - of w : Word m k) = of (v - w) :=
  settle_of_fits h

/-- A quotient of numbers without a sign. -/
theorem div_of {n d : Nat} (hd : d ≠ 0) (h : k.Fits (n / d : Nat)) :
    (of n / of d : Word m k) = of (n / d : Nat) :=
  if_pos ⟨Int.natCast_ne_zero.mpr hd, h⟩

/-- A shift to the right of a number without a sign. -/
theorem shiftRight_of {n places : Nat} (h : places < k.bits) :
    (of n : Word m k) >>> places = of (n / 2 ^ places : Nat) := by
  show (if places < k.bits then of ((n : Int) >>> places) else stop) = _
  rw [if_pos h, Int.shiftRight_eq_div_pow]
  rfl

end Word

/-! ## Loops -/

/-- The result of a loop. A turn fails at a fault; otherwise it goes on to another state or leaves
the loop with the result. -/
inductive LoopsTo {σ ρ : Type} (turn : σ → Option (σ ⊕ ρ)) : σ → ρ → Prop
  /-- The turn is the last. -/
  | leave {s : σ} {r : ρ} : turn s = some (.inr r) → LoopsTo turn s r
  /-- There are more turns. -/
  | again {s t : σ} {r : ρ} : turn s = some (.inl t) → LoopsTo turn t r → LoopsTo turn s r

/-- A loop has no more than one result. -/
theorem LoopsTo.unique {σ ρ : Type} {turn : σ → Option (σ ⊕ ρ)} {s : σ} {r r' : ρ}
    (h : LoopsTo turn s r) (h' : LoopsTo turn s r') : r = r' := by
  induction h with
  | leave hturn =>
    cases h' with
    | leave hturn' => exact Sum.inr.inj (Option.some.inj (hturn.symm.trans hturn'))
    | again hturn' _ => cases hturn.symm.trans hturn'
  | again hturn _ ih =>
    cases h' with
    | leave hturn' => cases hturn.symm.trans hturn'
    | again hturn' h' =>
      obtain rfl := Sum.inl.inj (Option.some.inj (hturn.symm.trans hturn'))
      exact ih h'

/-- The variables of the second loop. -/
structure RootLoop where
  /-- What the digits found so far leave of the radicand. -/
  rem : Int
  /-- The digits found so far, moved to the place of `bit`. -/
  root : Int
  /-- The place of the next digit. -/
  bit : Int

namespace Machine

variable (m : Machine)

/-- A turn of the first loop, which moves a bit down as long as it is above `rem`. -/
def leadingTurn (rem bit : Int) : Option (Int ⊕ Int) := do
  if rem < bit then return .inl (← (Word.of bit >>> 2 : Word m .u64).value?)
  else return .inr bit

/-- A turn of the second loop, which decides on the digit at the place of the bit. -/
def rootTurn (s : RootLoop) : Option (RootLoop ⊕ Int) := do
  if s.bit = 0 then return .inr s.root
  else
    let sum ← (Word.of s.root + Word.of s.bit : Word m .u64).value?
    let half ← (Word.of s.root >>> 1 : Word m .u64).value?
    let bit ← (Word.of s.bit >>> 2 : Word m .u64).value?
    if sum ≤ s.rem then
      let rem ← (Word.of s.rem - Word.of sum : Word m .u64).value?
      let root ← (Word.of half + Word.of s.bit : Word m .u64).value?
      return .inl ⟨rem, root, bit⟩
    else return .inl ⟨s.rem, half, bit⟩

/-- The machine finds a square root: no step on the way is a fault, and both loops end. -/
def IsRoot (value root : Int) : Prop :=
  ∃ first bit : Int, (Word.of 1 <<< 62 : Word m .u64).value? = some first ∧
    LoopsTo (m.leadingTurn value) first bit ∧ LoopsTo m.rootTurn ⟨value, 0, bit⟩ root

/-- The machine finds the entry of a bucket in the table of inverse lengths. -/
def IsEntry (bucket entry : Int) : Prop :=
  ∃ value root : Int,
    ((.of bucket + .of 1) * .of 68719476736 : Word m .u64).value? = some value ∧
      m.IsRoot value root ∧
      ((.of 17592186036224 / .of root : Word m .u64).cast .i32).value? = some entry

end Machine

/-! ## Places of digits -/

/-- The bit at the next place, if `k` digits of a root are to come; there is none if `k` is zero. -/
def placeBit (k : Nat) : Nat := 4 ^ k / 4

/-- If no digit is to come, there is no bit. -/
theorem placeBit_zero : placeBit 0 = 0 := rfl

/-- If digits are to come, the bit at the next place is a power of four. -/
theorem placeBit_succ (k : Nat) : placeBit (k + 1) = 4 ^ k := by
  rw [placeBit, Nat.pow_succ, Nat.mul_div_cancel _ (by decide)]

/-- A root has 32 digits, so the bits at their places have room. -/
theorem four_pow_le {k : Nat} (h : k < 32) : 4 ^ k ≤ 4611686018427387904 :=
  Nat.pow_le_pow_right (by decide) (Nat.le_of_lt_succ h : k ≤ 31)

/-- A place whose bit is above the radicand holds the digit 0. -/
theorem rootDigits_of_lt {k v : Nat} (h : v < 4 ^ k) :
    rootDigits (k + 1) v 0 = rootDigits k v 0 := by
  rw [rootDigits_succ, if_neg (by omega)]

namespace Machine

variable (m : Machine)

/-- A shift by two places leads to the bit at the next. -/
theorem shift_placeBit (k : Nat) :
    (Word.of (4 ^ k : Nat) : Word m .u64) >>> 2 = .of (placeBit k : Nat) :=
  Word.shiftRight_of (by decide)

/-- The first loop ends at a place above which all digits of the root are 0. -/
theorem leadingTurn_loops (k v : Nat) :
    ∃ j ≤ k, LoopsTo (m.leadingTurn v) (placeBit k : Nat) (placeBit j : Nat) ∧
      rootDigits j v 0 = rootDigits k v 0 := by
  induction k with
  | zero =>
    have hnot : ¬ (v : Int) < (0 : Nat) := by omega
    refine ⟨0, Nat.le_refl 0, .leave ?_, rfl⟩
    rw [leadingTurn, placeBit_zero, if_neg hnot]
    rfl
  | succ k ih =>
    rcases Nat.lt_or_ge v (4 ^ k) with habove | hfound
    · obtain ⟨j, hj, hloop, hdigits⟩ := ih
      rw [← rootDigits_of_lt habove] at hdigits
      refine ⟨j, Nat.le_succ_of_le hj, .again ?_ hloop, hdigits⟩
      rw [leadingTurn, placeBit_succ, if_pos (Int.ofNat_lt.mpr habove), shift_placeBit]
      rfl
    · have hnot : ¬ (v : Int) < (4 ^ k : Nat) := Int.not_lt.mpr (Int.ofNat_le.mpr hfound)
      refine ⟨k + 1, Nat.le_refl _, .leave ?_, rfl⟩
      rw [leadingTurn, placeBit_succ, if_neg hnot]
      rfl

/-- The second loop finds the digits at all places that are left. The digits found so far, moved to
their place, fill at most half a word, and then no sum in the loop leaves its word. -/
theorem rootTurn_loops {k rem root : Nat} (hk : k ≤ 32) (hrem : rem < 18446744073709551616)
    (hroot : root ≤ 9223372036854775808) :
    LoopsTo m.rootTurn ⟨rem, root, (placeBit k : Nat)⟩ (rootDigits k rem root : Nat) := by
  induction k generalizing rem root with
  | zero => exact .leave rfl
  | succ k ih =>
    have hk' := Nat.le_of_succ_le hk
    have hle := four_pow_le hk
    have hpos : 4 ^ k ≠ 0 := Nat.ne_of_gt (Nat.pow_pos (by decide))
    have hdown := m.shift_placeBit k
    have hhalf : (Word.of root : Word m .u64) >>> 1 = .of (root / 2 : Nat) :=
      Word.shiftRight_of (by decide)
    rw [placeBit_succ, rootDigits_succ]
    generalize 4 ^ k = bit at hle hpos hdown ⊢
    have hsum : (Word.of root + Word.of bit : Word m .u64) = .of (root + bit : Nat) :=
      Word.add_of (WordKind.fits_u64.mpr (by omega))
    split_ifs with hone
    · have hrest : (Word.of rem - Word.of (root + bit : Nat) : Word m .u64) =
          .of (rem - (root + bit) : Nat) := by
        rw [Word.sub_of (WordKind.fits_u64.mpr (by omega)), Int.ofNat_sub hone]
      have hnext : (Word.of (root / 2 : Nat) + Word.of bit : Word m .u64) =
          .of (root / 2 + bit : Nat) := Word.add_of (WordKind.fits_u64.mpr (by omega))
      refine .again ?_ (ih hk' (by omega : rem - (root + bit) < _) (by omega : root / 2 + bit ≤ _))
      simp only [rootTurn, Int.natCast_eq_zero, if_neg hpos, hsum, hhalf, hdown, Word.value?_of,
        Option.bind_eq_bind, Option.bind_some, Int.ofNat_le, if_pos hone, hrest, hnext,
        Option.pure_def]
    · refine .again ?_ (ih hk' hrem (by omega : root / 2 ≤ _))
      simp only [rootTurn, Int.natCast_eq_zero, if_neg hpos, hsum, hhalf, hdown, Word.value?_of,
        Option.bind_eq_bind, Option.bind_some, Int.ofNat_le, if_neg hone, Option.pure_def]

/-- Both loops end without a fault, and leave the square root of the library. -/
theorem isRoot_iff (v : UInt64) (root : Int) :
    m.IsRoot v.toNat root ↔ root = (isqrt v : Nat) := by
  obtain ⟨j, hj, hbit, hdigits⟩ := m.leadingTurn_loops 32 v.toNat
  have hstart : (Word.of 1 <<< 62 : Word m .u64).value? = some (placeBit 32 : Nat) := rfl
  have hloop := m.rootTurn_loops hj v.toNat_lt (Nat.zero_le 9223372036854775808)
  rw [hdigits, ← isqrt] at hloop
  constructor
  · rintro ⟨first, bit, hfirst, hleading, hroot⟩
    obtain rfl := Option.some.inj (hfirst.symm.trans hstart)
    obtain rfl := hleading.unique hbit
    exact hroot.unique hloop
  · rintro rfl
    exact ⟨_, _, hstart, hbit, hloop⟩

/-- The radicand of a bucket has room in its word. -/
theorem bucketRadicand_of {bucket : Nat} (h : bucket < inverseLengthCount) :
    ((.of bucket + .of 1) * .of 68719476736 : Word m .u64) =
      .of (UInt64.ofNat ((bucket + 1) * 68719476736)).toNat := by
  have hcount : inverseLengthCount = 150000 := rfl
  have hlt : (bucket + 1) * 68719476736 < 18446744073709551616 := by omega
  have hcast : ((bucket : Int) + 1) * 68719476736 = ((bucket + 1) * 68719476736 : Nat) := by omega
  rw [Word.add_of (WordKind.fits_u64.mpr (by omega)),
    Word.mul_of (WordKind.fits_u64.mpr (by omega)), UInt64.toNat_ofNat_of_lt' hlt, hcast]

/-- An inverse length is a quotient that fits the words of the table. -/
theorem entry_of {root : Nat} (hroot : 0 < root) (hle : 17592186036224 / root ≤ 67108863) :
    (.of 17592186036224 / .of root : Word m .u64).cast .i32 =
      .of (17592186036224 / root : Nat) := by
  have hfits : WordKind.i32.Fits (17592186036224 / root : Nat) :=
    WordKind.fits_of_le_reach (Nat.le_trans hle (by decide))
  have hquotient : (.of 17592186036224 / .of root : Word m .u64) =
      .of (17592186036224 / root : Nat) := by
    refine Word.div_of (Nat.ne_of_gt hroot) (WordKind.fits_u64.mpr ?_)
    generalize 17592186036224 / root = quotient at hle
    omega
  rw [hquotient, Word.cast_of, WordKind.wrap_of_fits hfits]

/-- The machine finds the inverse length of every bucket, and loses nothing of it in its table. -/
theorem isEntry_iff {bucket : Nat} (h : bucket < inverseLengthCount) (entry : Int) :
    m.IsEntry bucket entry ↔ entry = (bucketInverseLength bucket : Nat) := by
  have hradicand := congrArg Word.value? (m.bucketRadicand_of h)
  have hle := bucketInverseLength_le h
  rw [bucketInverseLength] at hle
  have hentry := congrArg Word.value? (m.entry_of (isqrt_bucket_pos h) hle)
  rw [← bucketInverseLength] at hentry
  constructor
  · rintro ⟨value, root, hvalue, hroot, hquotient⟩
    obtain rfl := Option.some.inj (hvalue.symm.trans hradicand)
    obtain rfl := (m.isRoot_iff _ root).mp hroot
    exact Option.some.inj (hquotient.symm.trans hentry)
  · rintro rfl
    exact ⟨_, _, hradicand, (m.isRoot_iff _ _).mpr rfl, hentry⟩

end Machine

/-! ## Inverse lengths -/

/-- Later buckets have smaller inverse lengths. -/
theorem bucketInverseLength_antitone {bucket later : Nat} (hle : bucket ≤ later)
    (hlater : later < inverseLengthCount) :
    bucketInverseLength later ≤ bucketInverseLength bucket := by
  have hbucket := Nat.lt_of_le_of_lt hle hlater
  refine Nat.div_le_div_left ?_ (isqrt_bucket_pos hbucket)
  rw [isqrt_bucket hbucket, isqrt_bucket hlater]
  exact Nat.sqrt_le_sqrt (Nat.mul_le_mul_right _ (Nat.succ_le_succ hle))

/-- Longer gradients have smaller inverse lengths. -/
theorem inverseLength_antitone {a b : Int} (h : a ≤ b) : inverseLength b ≤ inverseLength a := by
  have hbucket : lengthBucket a ≤ lengthBucket b := by
    unfold lengthBucket
    omega
  exact bucketInverseLength_antitone hbucket (lengthBucket_lt b)

/-- **The integer square root is the floor of the square root, and is found without a fault.** For
every radicand both loops of a machine of either kind come to an end, no sum, difference or shift in
them leaves its word, and what they leave is the greatest number whose square is not above the
radicand. The table of inverse lengths is filled with such roots, again without a loss. An inverse
length read from it is positive, and none is greater than that of a shorter gradient. -/
theorem isqrt_floor :
    (∀ v : UInt64, (∀ m : Machine, ∀ root, m.IsRoot v.toNat root ↔ root = (isqrt v : Nat)) ∧
      isqrt v ^ 2 ≤ v.toNat ∧ v.toNat < (isqrt v + 1) ^ 2) ∧
    (∀ m : Machine, ∀ bucket < inverseLengthCount, ∀ entry,
      m.IsEntry bucket entry ↔ entry = (bucketInverseLength bucket : Nat)) ∧
    ∀ a b : Int, a ≤ b → 0 < inverseLength b ∧ inverseLength b ≤ inverseLength a := by
  refine ⟨?_, fun m bucket h => m.isEntry_iff h, ?_⟩
  · intro v
    have hsqrt := isqrt_eq_sqrt v
    refine ⟨fun m => m.isRoot_iff v, ?_, ?_⟩
    · rw [hsqrt]
      exact Nat.sqrt_le' v.toNat
    · rw [hsqrt]
      exact Nat.lt_succ_sqrt' v.toNat
  · intro a b h
    exact ⟨inverseLength_pos b, inverseLength_antitone h⟩

/-- The greatest radicand of all, the last bucket, and two gradients. -/
theorem isqrt_floor_greatest :
    Machine.checking.IsRoot (18446744073709551615 : UInt64).toNat 4294967295 ∧
      149999 < inverseLengthCount ∧
      Machine.checking.IsEntry 149999 (bucketInverseLength 149999 : Nat) ∧
      (-5 : Int) ≤ 38400000 ∧ inverseLength 38400000 ≤ inverseLength (-5) := by
  obtain ⟨hroots, hentries, hlengths⟩ := isqrt_floor
  have hroot : (4294967295 : Int) = (isqrt 18446744073709551615 : Nat) := by decide +kernel
  have hlast : 149999 < inverseLengthCount := by decide
  have hle : (-5 : Int) ≤ 38400000 := by decide
  exact ⟨((hroots 18446744073709551615).1 .checking _).mpr hroot, hlast,
    (hentries .checking 149999 hlast _).mpr rfl, hle, (hlengths _ _ hle).2⟩

end RideProof
