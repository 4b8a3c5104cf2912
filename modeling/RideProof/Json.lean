/-!
# JSON values

* `Json` — a value of the data format. Integers are kept apart from other numbers; a number is an
  integer if it is written without fraction and exponent and is not `-0`.
* `Json.fields` — the named parts of a record, from an object or from an array.
* `Json.variant` — the constructor of a tagged value, with its payload.
-/

namespace RideProof

/-- A JSON value. A string, or a key, that has one half of a surrogate pair without the other is
well-formed and denotes no text: it is `none`. -/
inductive Json
  /-- The null value. -/
  | null
  /-- A truth value. -/
  | bool (b : Bool)
  /-- An integer. -/
  | int (n : Int)
  /-- Any other number, as it is written. -/
  | real (text : List Char)
  /-- A string. -/
  | string (s : Option String)
  /-- A list of values. -/
  | array (items : List Json)
  /-- A list of keys with values, in the order in which they are written. -/
  | object (members : List (Option String × Json))

namespace Json

/-- The string with a text. -/
def text (s : String) : Json := .string (some s)

/-- The object of a record, from the names and values of its fields. -/
def ofFields (members : List (String × Json)) : Json :=
  .object (members.map fun m => (some m.1, m.2))

/-- The value of a key: nothing if it is missing, and a failure if it occurs more than once. -/
def uniqueMember (members : List (Option String × Json)) (name : String) : Option (Option Json) :=
  match members.filter fun m => m.1 == some name with
  | [] => some none
  | [m] => some (some m.2)
  | _ => none

/-- The values of the named fields of a record, those that are missing as `none`. In an object, keys
that are not among the names do not count; in an array, the fields stand in order. -/
def fields (names : List String) : Json → Option (List (Option Json))
  | .object members =>
    if members.all fun m => m.1.isSome then names.mapM (uniqueMember members) else none
  | .array items =>
    if items.length ≤ names.length then
      some (items.map some ++ List.replicate (names.length - items.length) none)
    else none
  | _ => none

/-- The name of a constructor and its payload: a string is a constructor without one, an object with
one member is a constructor with the payload under its name. -/
def variant : Json → Option (String × Option Json)
  | .string (some name) => some (name, none)
  | .object [(some name, payload)] => some (name, some payload)
  | _ => none

/-- Whether a payload is one that a constructor without fields may have. -/
def isUnit : Option Json → Bool
  | none => true
  | some .null => true
  | some _ => false

/-- An integer in a range. -/
def intIn (low high : Int) : Json → Option Int
  | .int n => if low ≤ n ∧ n ≤ high then some n else none
  | _ => none

/-- The items of an array. -/
def items? : Json → Option (List Json)
  | .array items => some items
  | _ => none

end Json

end RideProof
