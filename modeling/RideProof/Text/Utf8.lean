/-!
# Reading bytes as text

`decodeLossy` reads bytes as UTF-8. Where they are not, each longest run of bytes that could start
a character, and each byte that could not, reads as one replacement character.

`Pending` is what a character begun still needs: how many continuation bytes, and the range of the
next one, which rules out overlong forms, surrogates and numbers above the last code point.
-/

namespace RideProof.Text

/-- The character that stands for bytes that are not text. -/
def replacement : Char := '\uFFFD'

/-- A character of which some bytes are still to come. -/
structure Pending where
  /-- How many continuation bytes are to come, after the next one. -/
  more : Nat
  /-- The least value of the next byte. -/
  low : UInt8
  /-- The greatest value of the next byte. -/
  high : UInt8
  /-- The bits read so far. -/
  bits : Nat

/-- What a byte at the start of a character says. -/
inductive Lead
  /-- The byte is a character by itself. -/
  | char (c : Char)
  /-- The byte starts a longer character. -/
  | pending (p : Pending)
  /-- No character starts with this byte. -/
  | invalid

/-- Read the first byte of a character. -/
def Lead.of (b : UInt8) : Lead :=
  let n := b.toNat
  if n < 0x80 then .char (Char.ofNat n)
  else if n < 0xC2 then .invalid
  else if n < 0xE0 then .pending ⟨0, 0x80, 0xBF, n % 32⟩
  else if n = 0xE0 then .pending ⟨1, 0xA0, 0xBF, n % 16⟩
  else if n = 0xED then .pending ⟨1, 0x80, 0x9F, n % 16⟩
  else if n < 0xF0 then .pending ⟨1, 0x80, 0xBF, n % 16⟩
  else if n = 0xF0 then .pending ⟨2, 0x90, 0xBF, n % 8⟩
  else if n < 0xF4 then .pending ⟨2, 0x80, 0xBF, n % 8⟩
  else if n = 0xF4 then .pending ⟨2, 0x80, 0x8F, n % 8⟩
  else .invalid

/-- The characters that a byte completes at the start of a character, and the one it begins. -/
def startWith (b : UInt8) : List Char × Option Pending :=
  match Lead.of b with
  | .char c => ([c], none)
  | .pending p => ([], some p)
  | .invalid => ([replacement], none)

/-- The characters that the next byte completes, and the one that it leaves begun. -/
def feed (b : UInt8) : Option Pending → List Char × Option Pending
  | none => startWith b
  | some p =>
    if p.low ≤ b ∧ b ≤ p.high then
      let bits := p.bits * 64 + b.toNat % 64
      match p.more with
      | 0 => ([Char.ofNat bits], none)
      | more + 1 => ([], some ⟨more, 0x80, 0xBF, bits⟩)
    else
      let (chars, begun) := startWith b
      (replacement :: chars, begun)

/-- Read bytes, the first of them in the middle of a character if one is pending. -/
def decodeFrom : List UInt8 → Option Pending → List Char
  | [], none => []
  | [], some _ => [replacement]
  | b :: bs, pending =>
    let (chars, begun) := feed b pending
    chars ++ decodeFrom bs begun

/-- The text of bytes. -/
def decodeLossy (bytes : List UInt8) : String := String.ofList (decodeFrom bytes none)

end RideProof.Text
