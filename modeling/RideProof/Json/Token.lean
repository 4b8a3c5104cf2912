import RideProof.Text.Decimal

/-!
# JSON tokens

A text is a list of tokens with blanks between them.

* `Token.scan` — the tokens of a text, if it is one.
* `Token.chars` — the text of a token. Strings are written with the fewest escapes.
-/

namespace RideProof.Json

/-- A token of the data format. -/
inductive Token
  /-- An opening bracket. -/
  | arrayOpen
  /-- A closing bracket. -/
  | arrayClose
  /-- An opening brace. -/
  | objectOpen
  /-- A closing brace. -/
  | objectClose
  /-- A comma. -/
  | comma
  /-- A colon. -/
  | colon
  /-- The null value. -/
  | null
  /-- A truth value. -/
  | bool (b : Bool)
  /-- An integer. -/
  | int (n : Int)
  /-- Any other number, as it is written. -/
  | real (text : List Char)
  /-- A string; nothing if it has one half of a surrogate pair alone. -/
  | string (s : Option String)
  deriving DecidableEq, Repr

namespace Token

/-! ## Strings -/

/-- A piece of a string: a character, or one half of a surrogate pair. -/
inductive Piece
  /-- A character. -/
  | char (c : Char)
  /-- The first half of a pair. -/
  | high (n : Nat)
  /-- The second half of a pair. -/
  | low (n : Nat)
  deriving DecidableEq, Repr

/-- The text of pieces, if the halves of pairs stand together. -/
def joinPieces : List Piece → Option (List Char)
  | [] => some []
  | .char c :: rest => (joinPieces rest).map (c :: ·)
  | .high h :: .low l :: rest =>
    (joinPieces rest).map (Char.ofNat (0x10000 + (h - 0xD800) * 1024 + (l - 0xDC00)) :: ·)
  | _ => none

/-- The number of a hexadecimal digit. -/
def hexValue (c : Char) : Option Nat :=
  if '0' ≤ c ∧ c ≤ '9' then some (c.toNat - 48)
  else if 'a' ≤ c ∧ c ≤ 'f' then some (c.toNat - 87)
  else if 'A' ≤ c ∧ c ≤ 'F' then some (c.toNat - 55)
  else none

/-- The piece of a 16-bit unit. -/
def pieceOfUnit (n : Nat) : Piece :=
  if 0xD800 ≤ n ∧ n < 0xDC00 then .high n
  else if 0xDC00 ≤ n ∧ n < 0xE000 then .low n
  else .char (Char.ofNat n)

/-- The character that a one-letter escape stands for. -/
def shortEscape (c : Char) : Option Char :=
  match c with
  | '"' => some '"'
  | '\\' => some '\\'
  | '/' => some '/'
  | 'b' => some '\x08'
  | 'f' => some '\x0c'
  | 'n' => some '\n'
  | 'r' => some '\r'
  | 't' => some '\t'
  | _ => none

/-- The piece that an escape stands for, and what follows the escape, from after its backslash. -/
def scanEscape : List Char → Option (Piece × List Char)
  | 'u' :: a :: b :: c :: d :: rest => do
    let n := 4096 * (← hexValue a) + 256 * (← hexValue b) + 16 * (← hexValue c) + (← hexValue d)
    return (pieceOfUnit n, rest)
  | c :: rest => (shortEscape c).map fun e => (.char e, rest)
  | [] => none

/-- An escape takes characters from the text. -/
theorem scanEscape_length {cs rest : List Char} {p : Piece} (h : scanEscape cs = some (p, rest)) :
    rest.length < cs.length := by
  unfold scanEscape at h
  split at h
  · simp only [Option.bind_eq_bind, Option.bind_eq_some_iff, Option.pure_def, Option.some.injEq,
      Prod.mk.injEq] at h
    obtain ⟨_, _, _, _, _, _, _, _, _, rfl⟩ := h
    simp only [List.length_cons]
    omega
  · simp only [Option.map_eq_some_iff, Prod.mk.injEq] at h
    obtain ⟨_, _, _, rfl⟩ := h
    simp
  · simp at h

/-- The pieces of a string and what follows its closing quote, from after its opening quote. Control
characters have to be escaped. -/
def scanString (cs : List Char) : Option (List Piece × List Char) :=
  match cs with
  | [] => none
  | '"' :: rest => some ([], rest)
  | '\\' :: rest =>
    match _h : scanEscape rest with
    | some (p, rest') => (scanString rest').map fun r => (p :: r.1, r.2)
    | none => none
  | c :: rest =>
    if c.toNat < 32 then none else (scanString rest).map fun r => (.char c :: r.1, r.2)
  termination_by cs.length
  decreasing_by
    · have := scanEscape_length _h
      simp only [List.length_cons]
      omega
    · simp

/-! ## Numbers -/

/-- The digits at the start of a text, at least one, and what follows them. -/
def scanDigits (cs : List Char) : Option (List Char × List Char) :=
  match cs.takeWhile Decimal.isDigit with
  | [] => none
  | ds => some (ds, cs.dropWhile Decimal.isDigit)

/-- The digits of a whole number, which starts with zero only if it is zero. -/
def scanWhole : List Char → Option (List Char × List Char)
  | '0' :: rest => some (['0'], rest)
  | cs => scanDigits cs

/-- A fraction, which may be empty. -/
def scanFraction : List Char → Option (List Char × List Char)
  | '.' :: rest => (scanDigits rest).map fun r => ('.' :: r.1, r.2)
  | cs => some ([], cs)

/-- The sign of an exponent, which may be empty. -/
def scanSign : List Char → List Char × List Char
  | '+' :: rest => (['+'], rest)
  | '-' :: rest => (['-'], rest)
  | cs => ([], cs)

/-- An exponent, which may be empty. -/
def scanExponent : List Char → Option (List Char × List Char)
  | c :: rest =>
    if c = 'e' ∨ c = 'E' then
      let (sign, rest) := scanSign rest
      (scanDigits rest).map fun r => (c :: sign ++ r.1, r.2)
    else some ([], c :: rest)
  | [] => some ([], [])

/-- The token of a number, from its parts. -/
def numberToken (minus : Bool) (whole fraction exponent : List Char) : Token :=
  if fraction = [] ∧ exponent = [] ∧ ¬(minus = true ∧ whole = ['0']) then
    .int (if minus then -Decimal.value whole else Decimal.value whole)
  else .real ((if minus then ['-'] else []) ++ whole ++ fraction ++ exponent)

/-- A number without its minus sign, and what follows it. -/
def scanUnsigned (minus : Bool) (cs : List Char) : Option (Token × List Char) := do
  let (whole, rest) ← scanWhole cs
  let (fraction, rest) ← scanFraction rest
  let (exponent, rest) ← scanExponent rest
  return (numberToken minus whole fraction exponent, rest)

/-! ## Texts -/

/-- Whether a character may stand between tokens. -/
def isBlank (c : Char) : Bool := c == ' ' || c == '\n' || c == '\t' || c == '\r'

/-- The first token of a text that does not start with a blank, and what follows it. -/
def scanToken : List Char → Option (Token × List Char)
  | '[' :: rest => some (.arrayOpen, rest)
  | ']' :: rest => some (.arrayClose, rest)
  | '\x7b' :: rest => some (.objectOpen, rest)
  | '\x7d' :: rest => some (.objectClose, rest)
  | ',' :: rest => some (.comma, rest)
  | ':' :: rest => some (.colon, rest)
  | 'n' :: 'u' :: 'l' :: 'l' :: rest => some (.null, rest)
  | 't' :: 'r' :: 'u' :: 'e' :: rest => some (.bool true, rest)
  | 'f' :: 'a' :: 'l' :: 's' :: 'e' :: rest => some (.bool false, rest)
  | '"' :: rest =>
    (scanString rest).map fun r => (.string ((joinPieces r.1).map String.ofList), r.2)
  | '-' :: rest => scanUnsigned true rest
  | cs => scanUnsigned false cs

/-- The tokens of a text. The fuel bounds their number; the length of the text is enough. -/
def scanWith : (fuel : Nat) → List Char → Option (List Token)
  | _, [] => some []
  | 0, _ :: _ => none
  | fuel + 1, c :: cs =>
    if isBlank c then scanWith fuel cs
    else
      match scanToken (c :: cs) with
      | none => none
      | some (t, rest) => (scanWith fuel rest).map (t :: ·)

/-- The tokens of a text. -/
def scan (cs : List Char) : Option (List Token) := scanWith cs.length cs

/-! ## Writing -/

/-- The lower-case hexadecimal digit of a number below 16. -/
def hexDigit (n : Nat) : Char := if n < 10 then Char.ofNat (48 + n) else Char.ofNat (87 + n)

/-- A character of a string, escaped if it is a quote, a backslash or a control character. -/
def escapeChar (c : Char) : List Char :=
  match c with
  | '"' => ['\\', '"']
  | '\\' => ['\\', '\\']
  | '\x08' => ['\\', 'b']
  | '\x0c' => ['\\', 'f']
  | '\n' => ['\\', 'n']
  | '\r' => ['\\', 'r']
  | '\t' => ['\\', 't']
  | c =>
    if c.toNat < 32 then ['\\', 'u', '0', '0', hexDigit (c.toNat / 16), hexDigit (c.toNat % 16)]
    else [c]

/-- A string in quotes. -/
def quote (s : String) : List Char := '"' :: s.toList.flatMap escapeChar ++ ['"']

/-- The text of a token. A string without a text is written as half a pair. -/
def chars : Token → List Char
  | .arrayOpen => ['[']
  | .arrayClose => [']']
  | .objectOpen => ['\x7b']
  | .objectClose => ['\x7d']
  | .comma => [',']
  | .colon => [':']
  | .null => ['n', 'u', 'l', 'l']
  | .bool true => ['t', 'r', 'u', 'e']
  | .bool false => ['f', 'a', 'l', 's', 'e']
  | .int n => Decimal.ofInt n
  | .real text => text
  | .string (some s) => quote s
  | .string none => ['"', '\\', 'u', 'd', '8', '0', '0', '"']

end Token

end RideProof.Json
