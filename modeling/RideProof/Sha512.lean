/-!
# SHA-512

The 512-bit hash of the secure hash standard, over lists of bytes.

* `padding n` — what a message of `n` bytes is padded with: a set bit, zeros, and the length in
  bits as a 128-bit big-endian word, to a multiple of 128 bytes.
* `schedule`, `compress` — the eighty words of a block, and the state after its eighty rounds.
* `sha512` — the digest, 64 bytes.
-/

namespace RideProof

/-- A digest: 64 bytes. -/
abbrev Digest := Vector UInt8 64

namespace Sha512

/-- The eight words of the running state. -/
structure State where
  /-- First word. -/
  a : UInt64
  /-- Second word. -/
  b : UInt64
  /-- Third word. -/
  c : UInt64
  /-- Fourth word. -/
  d : UInt64
  /-- Fifth word. -/
  e : UInt64
  /-- Sixth word. -/
  f : UInt64
  /-- Seventh word. -/
  g : UInt64
  /-- Eighth word. -/
  h : UInt64

/-- The state before the first block. -/
def initial : State :=
  ⟨0x6a09e667f3bcc908, 0xbb67ae8584caa73b, 0x3c6ef372fe94f82b, 0xa54ff53a5f1d36f1,
   0x510e527fade682d1, 0x9b05688c2b3e6c1f, 0x1f83d9abfb41bd6b, 0x5be0cd19137e2179⟩

/-- The eighty round constants. -/
def roundConstants : List UInt64 :=
  [0x428a2f98d728ae22, 0x7137449123ef65cd, 0xb5c0fbcfec4d3b2f, 0xe9b5dba58189dbbc,
   0x3956c25bf348b538, 0x59f111f1b605d019, 0x923f82a4af194f9b, 0xab1c5ed5da6d8118,
   0xd807aa98a3030242, 0x12835b0145706fbe, 0x243185be4ee4b28c, 0x550c7dc3d5ffb4e2,
   0x72be5d74f27b896f, 0x80deb1fe3b1696b1, 0x9bdc06a725c71235, 0xc19bf174cf692694,
   0xe49b69c19ef14ad2, 0xefbe4786384f25e3, 0x0fc19dc68b8cd5b5, 0x240ca1cc77ac9c65,
   0x2de92c6f592b0275, 0x4a7484aa6ea6e483, 0x5cb0a9dcbd41fbd4, 0x76f988da831153b5,
   0x983e5152ee66dfab, 0xa831c66d2db43210, 0xb00327c898fb213f, 0xbf597fc7beef0ee4,
   0xc6e00bf33da88fc2, 0xd5a79147930aa725, 0x06ca6351e003826f, 0x142929670a0e6e70,
   0x27b70a8546d22ffc, 0x2e1b21385c26c926, 0x4d2c6dfc5ac42aed, 0x53380d139d95b3df,
   0x650a73548baf63de, 0x766a0abb3c77b2a8, 0x81c2c92e47edaee6, 0x92722c851482353b,
   0xa2bfe8a14cf10364, 0xa81a664bbc423001, 0xc24b8b70d0f89791, 0xc76c51a30654be30,
   0xd192e819d6ef5218, 0xd69906245565a910, 0xf40e35855771202a, 0x106aa07032bbd1b8,
   0x19a4c116b8d2d0c8, 0x1e376c085141ab53, 0x2748774cdf8eeb99, 0x34b0bcb5e19b48a8,
   0x391c0cb3c5c95a63, 0x4ed8aa4ae3418acb, 0x5b9cca4f7763e373, 0x682e6ff3d6b2b8a3,
   0x748f82ee5defb2fc, 0x78a5636f43172f60, 0x84c87814a1f0ab72, 0x8cc702081a6439ec,
   0x90befffa23631e28, 0xa4506cebde82bde9, 0xbef9a3f7b2c67915, 0xc67178f2e372532b,
   0xca273eceea26619c, 0xd186b8c721c0c207, 0xeada7dd6cde0eb1e, 0xf57d4f7fee6ed178,
   0x06f067aa72176fba, 0x0a637dc5a2c898a6, 0x113f9804bef90dae, 0x1b710b35131c471b,
   0x28db77f523047d84, 0x32caab7b40c72493, 0x3c9ebe0a15c9bebc, 0x431d67c49c100d4c,
   0x4cc5d4becb3e42b6, 0x597f299cfc657e2a, 0x5fcb6fab3ad6faec, 0x6c44198c4a475817]

/-- Rotation to the right. -/
@[inline] def rotr (x : UInt64) (n : UInt64) : UInt64 := (x >>> n) ||| (x <<< (64 - n))

/-- The word that the schedule appends, from the words 16, 15, 7 and 2 places before it. -/
@[inline] def nextWord (w16 w15 w7 w2 : UInt64) : UInt64 :=
  let s0 := rotr w15 1 ^^^ rotr w15 8 ^^^ (w15 >>> 7)
  let s1 := rotr w2 19 ^^^ rotr w2 61 ^^^ (w2 >>> 6)
  w16 + s0 + w7 + s1

/-- The eighty words of a block: its sixteen, then each from earlier ones. -/
def schedule (block : Array UInt64) : Array UInt64 :=
  (List.range 64).foldl (fun w t =>
    w.push (nextWord (w.getD t 0) (w.getD (t + 1) 0) (w.getD (t + 9) 0) (w.getD (t + 14) 0))) block

/-- One round, with its constant and its word. -/
@[inline] def round (s : State) (k w : UInt64) : State :=
  let s1 := rotr s.e 14 ^^^ rotr s.e 18 ^^^ rotr s.e 41
  let ch := (s.e &&& s.f) ^^^ ((~~~ s.e) &&& s.g)
  let t1 := s.h + s1 + ch + k + w
  let s0 := rotr s.a 28 ^^^ rotr s.a 34 ^^^ rotr s.a 39
  let maj := (s.a &&& s.b) ^^^ (s.a &&& s.c) ^^^ (s.b &&& s.c)
  ⟨t1 + (s0 + maj), s.a, s.b, s.c, s.d + t1, s.e, s.f, s.g⟩

/-- The rounds over the remaining constants, the first of which meets word `t`. -/
def rounds (w : Array UInt64) : List UInt64 → Nat → State → State
  | [], _, s => s
  | k :: ks, t, s => rounds w ks (t + 1) (round s k (w.getD t 0))

/-- The state after one block. -/
def compress (s : State) (block : Array UInt64) : State :=
  let r := rounds (schedule block) roundConstants 0 s
  ⟨s.a + r.a, s.b + r.b, s.c + r.c, s.d + r.d, s.e + r.e, s.f + r.f, s.g + r.g, s.h + r.h⟩

/-- The bytes of a word, most significant first. -/
def wordBytes (w : UInt64) : List UInt8 :=
  [(w >>> 56).toUInt8, (w >>> 48).toUInt8, (w >>> 40).toUInt8, (w >>> 32).toUInt8,
   (w >>> 24).toUInt8, (w >>> 16).toUInt8, (w >>> 8).toUInt8, w.toUInt8]

/-- What follows a message of `n` bytes. -/
def padding (n : Nat) : List UInt8 :=
  0x80 :: List.replicate ((239 - n % 128) % 128) 0 ++
    (wordBytes (UInt64.ofNat (8 * n / UInt64.size)) ++ wordBytes (UInt64.ofNat (8 * n)))

/-- Take the bytes in by eights: `word` is the word begun, of which `owed` bytes are missing, and
`block` the words of the block begun. A full block is compressed into the state. -/
def absorb : List UInt8 → (owed : Nat) → (word : UInt64) → (block : Array UInt64) → State → State
  | [], _, _, _, s => s
  | byte :: rest, owed, word, block, s =>
    let word := (word <<< 8) ||| byte.toUInt64
    match owed with
    | owed + 2 => absorb rest (owed + 1) word block s
    | _ =>
      let block := block.push word
      if block.size = 16 then absorb rest 8 0 #[] (compress s block)
      else absorb rest 8 0 block s

/-- The state as a digest. -/
def State.digest (s : State) : Digest :=
  ⟨(wordBytes s.a ++ wordBytes s.b ++ wordBytes s.c ++ wordBytes s.d ++
    wordBytes s.e ++ wordBytes s.f ++ wordBytes s.g ++ wordBytes s.h).toArray, rfl⟩

end Sha512

/-- The SHA-512 digest of a message. -/
def sha512 (message : List UInt8) : Digest :=
  (Sha512.absorb (message ++ Sha512.padding message.length) 8 0 #[] Sha512.initial).digest

end RideProof
