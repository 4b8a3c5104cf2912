import RideProof.Json
import RideProof.Json.Token

/-!
# Reading JSON

A machine takes the tokens of a text one by one. It keeps a stack of the arrays and objects that
are open, and a mode that says what it waits for.

* `Machine.step` — one token.
* `Json.ofTokens?`, `Json.ofText?` — the value of a list of tokens, and of a text.
-/

namespace RideProof.Json

/-- A key with its value. -/
abbrev Member := Option String × Json

/-- An array or object that is open while a value inside it is read. -/
inductive Frame
  /-- An array with the items before the value, latest first. -/
  | array (items : List Json)
  /-- An object with the members before the value, latest first, and the key of the value. -/
  | object (members : List Member) (key : Option String)

/-- What the machine waits for. -/
inductive Mode
  /-- A value. -/
  | value
  /-- The first item of the array on top of the stack, or its end. -/
  | firstItem
  /-- The first key of an object, or its end. -/
  | firstKey
  /-- The next key of an object with these members, latest first. -/
  | key (members : List Member)
  /-- The colon after a key. -/
  | colon (members : List Member) (key : Option String)
  /-- What follows a value. -/
  | done (v : Json)

/-- A machine that reads a value. -/
structure Machine where
  /-- What it waits for. -/
  mode : Mode
  /-- The open arrays and objects around it, innermost first. -/
  stack : List Frame

namespace Machine

/-- The machine before the first token. -/
def start : Machine := ⟨.value, []⟩

/-- The machine after the first token of a value. -/
def open? (stack : List Frame) : Token → Option Machine
  | .arrayOpen => some ⟨.firstItem, .array [] :: stack⟩
  | .objectOpen => some ⟨.firstKey, stack⟩
  | .null => some ⟨.done .null, stack⟩
  | .bool b => some ⟨.done (.bool b), stack⟩
  | .int n => some ⟨.done (.int n), stack⟩
  | .real text => some ⟨.done (.real text), stack⟩
  | .string s => some ⟨.done (.string s), stack⟩
  | _ => none

/-- The machine after the token that follows a value. -/
def close? (v : Json) : List Frame → Token → Option Machine
  | .array items :: stack, .comma => some ⟨.value, .array (v :: items) :: stack⟩
  | .array items :: stack, .arrayClose => some ⟨.done (.array (v :: items).reverse), stack⟩
  | .object members key :: stack, .comma => some ⟨.key ((key, v) :: members), stack⟩
  | .object members key :: stack, .objectClose =>
    some ⟨.done (.object ((key, v) :: members).reverse), stack⟩
  | _, _ => none

/-- The machine after one more token, if the token may stand there. -/
def step (m : Machine) (t : Token) : Option Machine :=
  match m.mode, t with
  | .value, t => open? m.stack t
  | .firstItem, .arrayClose => some ⟨.done (.array []), m.stack.tail⟩
  | .firstItem, t => open? m.stack t
  | .firstKey, .objectClose => some ⟨.done (.object []), m.stack⟩
  | .firstKey, .string key => some ⟨.colon [] key, m.stack⟩
  | .key members, .string key => some ⟨.colon members key, m.stack⟩
  | .colon members key, .colon => some ⟨.value, .object members key :: m.stack⟩
  | .done v, t => close? v m.stack t
  | _, _ => none

/-- The machine after more tokens. -/
def run (m : Machine) : List Token → Option Machine
  | [] => some m
  | t :: ts => (m.step t).bind fun m => m.run ts

/-- The value of a machine that may stop. -/
def result? (m : Machine) : Option Json :=
  match m.mode, m.stack with
  | .done v, [] => some v
  | _, _ => none

end Machine

/-- The value that tokens spell. -/
def ofTokens? (ts : List Token) : Option Json := (Machine.start.run ts).bind Machine.result?

/-- The value of a text. -/
def ofText? (s : String) : Option Json := (Token.scan s.toList).bind ofTokens?

end RideProof.Json
