/-!
# Blank characters

`isBlank` holds of the 25 characters that the Unicode standard calls white space; `trim` drops them
from both ends of a text.
-/

namespace RideProof.Text

/-- Whether a character is white space. -/
def isBlank (c : Char) : Bool :=
  let n := c.toNat
  (9 ≤ n && n ≤ 13) || n == 0x20 || n == 0x85 || n == 0xA0 || n == 0x1680 ||
    (0x2000 ≤ n && n ≤ 0x200A) || n == 0x2028 || n == 0x2029 || n == 0x202F || n == 0x205F ||
    n == 0x3000

/-- A text without the blanks at its start. -/
def trimStart (cs : List Char) : List Char := cs.dropWhile isBlank

/-- A text without the blanks at its end. -/
def trimEnd (cs : List Char) : List Char := (cs.reverse.dropWhile isBlank).reverse

/-- A text without the blanks at its ends. -/
def trim (cs : List Char) : List Char := trimEnd (trimStart cs)

/-- The rest of a text that starts with `tag`. -/
def afterTag? : (tag text : List Char) → Option (List Char)
  | [], text => some text
  | _ :: _, [] => none
  | t :: tag, c :: text => if t = c then afterTag? tag text else none

/-- A text starts with a tag exactly if it is the tag and a rest. -/
theorem afterTag?_eq_some_iff {tag text rest : List Char} :
    afterTag? tag text = some rest ↔ text = tag ++ rest := by
  induction tag generalizing text with
  | nil => simp [afterTag?]
  | cons t tag ih =>
    cases text with
    | nil => simp [afterTag?]
    | cons c text =>
      by_cases h : t = c
      · simp [afterTag?, h, ih]
      · simp [afterTag?, h, Ne.symm h]

end RideProof.Text
