import RideProof.Json
import RideProof.Json.Token

/-!
# Writing JSON

* `Json.tokens` — the tokens of a value.
* `Json.compact` — the text of a value without blanks.
* `Json.pretty` — the text of a value on many lines, two more blanks at the start of each for every
  array or object around it.
-/

namespace RideProof.Json

mutual

/-- The tokens of a value. -/
def tokens : Json → List Token
  | .null => [.null]
  | .bool b => [.bool b]
  | .int n => [.int n]
  | .real text => [.real text]
  | .string s => [.string s]
  | .array items => .arrayOpen :: itemTokens items ++ [.arrayClose]
  | .object members => .objectOpen :: memberTokens members ++ [.objectClose]

/-- The tokens of the items of an array. -/
def itemTokens : List Json → List Token
  | [] => []
  | [v] => tokens v
  | v :: vs => tokens v ++ .comma :: itemTokens vs

/-- The tokens of the members of an object. -/
def memberTokens : List (Option String × Json) → List Token
  | [] => []
  | [(k, v)] => .string k :: .colon :: tokens v
  | (k, v) :: ms => .string k :: .colon :: tokens v ++ .comma :: memberTokens ms

end

/-- The text of a value without blanks. -/
def compact (j : Json) : String := String.ofList (j.tokens.flatMap Token.chars)

/-- The start of a line inside `depth` arrays and objects. -/
def newLine (depth : Nat) : List Char := '\n' :: List.replicate (2 * depth) ' '

mutual

/-- The text of a value that starts inside `depth` arrays and objects. -/
def prettyAt (depth : Nat) : Json → List Char
  | .array [] => ['[', ']']
  | .array items => '[' :: prettyItems (depth + 1) items ++ newLine depth ++ [']']
  | .object [] => ['\x7b', '\x7d']
  | .object members => '\x7b' :: prettyMembers (depth + 1) members ++ newLine depth ++ ['\x7d']
  | .null => Token.null.chars
  | .bool b => (Token.bool b).chars
  | .int n => (Token.int n).chars
  | .real text => text
  | .string s => (Token.string s).chars

/-- The items of an array, each on a line of its own. -/
def prettyItems (depth : Nat) : List Json → List Char
  | [] => []
  | [v] => newLine depth ++ prettyAt depth v
  | v :: vs => newLine depth ++ prettyAt depth v ++ ',' :: prettyItems depth vs

/-- The members of an object, each on a line of its own. -/
def prettyMembers (depth : Nat) : List (Option String × Json) → List Char
  | [] => []
  | [(k, v)] => newLine depth ++ (Token.string k).chars ++ ':' :: ' ' :: prettyAt depth v
  | (k, v) :: ms =>
    newLine depth ++ (Token.string k).chars ++ ':' :: ' ' :: prettyAt depth v ++
      ',' :: prettyMembers depth ms

end

/-- The text of a value on many lines. -/
def pretty (j : Json) : String := String.ofList (prettyAt 0 j)

end RideProof.Json
