/-!
# Columns of text

A text is filled up with blanks to the width of its column; a text that is wider stays as it is.
-/

namespace RideProof.Text

/-- A text with blanks after it up to a width. -/
def padRight (width : Nat) (s : String) : String :=
  s ++ String.ofList (List.replicate (width - s.length) ' ')

/-- A text with blanks in front of it up to a width. -/
def padLeft (width : Nat) (s : String) : String :=
  String.ofList (List.replicate (width - s.length) ' ') ++ s

/-- A padded text is as wide as its column, unless it was wider. -/
@[simp] theorem length_padRight (width : Nat) (s : String) :
    (padRight width s).length = max width s.length := by
  simp only [padRight, String.length_append, String.length_ofList, List.length_replicate]
  omega

/-- A padded text is as wide as its column, unless it was wider. -/
@[simp] theorem length_padLeft (width : Nat) (s : String) :
    (padLeft width s).length = max width s.length := by
  simp only [padLeft, String.length_append, String.length_ofList, List.length_replicate]
  omega

/-- Two columns, one row a line: the left one is as wide as its widest text, and two blanks stand
before each. -/
def twoColumns (rows : List (String × String)) : String :=
  let width := (rows.map fun r => r.1.length).foldl max 0
  String.join (rows.map fun r => "  " ++ padRight width r.1 ++ "  " ++ r.2 ++ "\n")

end RideProof.Text
