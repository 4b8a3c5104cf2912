import RideProof.Bytes.Hex
import RideProof.Text.Blank
import RideProof.Wire.Layout

/-!
# Message lines

A message is a line of text: a tag, and the bytes of what it carries in hexadecimal digits. A
reader drops blanks at both ends of the line, takes digits of either case, and does not look at
what follows the digits it needs.

* `Message` — work, a ride log for work, or a block header for work.
* `Message.line` — the line of a message.
* `Message.ofLine` — the message of a line, or the first fault of it.
-/

namespace RideProof

/-- A message between a work server and a rider. -/
inductive Message
  /-- A unit of work. -/
  | work (work : WorkUnit)
  /-- A unit of work with the log of a ride for it. -/
  | workAndProof (work : WorkUnit) (log : RideLog)
  /-- A unit of work that is given by its block header. -/
  | getWork (work : WorkUnit)
  deriving DecidableEq, Repr

/-- The kinds of messages. -/
inductive MessageKind
  /-- Work. -/
  | work
  /-- Work with a log. -/
  | workAndProof
  /-- A block header. -/
  | getWork
  deriving DecidableEq, Repr

/-- The tag that starts the lines of a kind. -/
def MessageKind.tag : MessageKind → List Char
  | .work => ['*', '*', '*', 'W', 'o', 'r', 'k', ':']
  | .workAndProof => ['*', '*', '*', 'W', 'P', 'o', 'W', ':']
  | .getWork => ['*', '*', '*', 'G', 'e', 't', 'W', 'o', 'r', 'k', ':']

namespace Message

/-- The kind of a message. -/
def kind : Message → MessageKind
  | .work _ => .work
  | .workAndProof _ _ => .workAndProof
  | .getWork _ => .getWork

/-- The bytes that a message carries. -/
def payload : Message → List UInt8
  | .work w => w.toBytes.toList
  | .workAndProof w log => w.toBytes.toList ++ log.toBytes.toList
  | .getWork w => w.toHeader.toList

/-- The line of a message. -/
def line (m : Message) : String := String.ofList (m.kind.tag ++ Hex.encode m.payload)

/-- Read `n` bytes from digits of which `offset` are read already; on success, the digits from
there on are left over. -/
def readBytes (n offset : Nat) (digits : List UInt8) :
    Except WireError (Bytes n × List UInt8) :=
  if digits.length < 2 * n then .error (.truncated (offset + 2 * n) (offset + digits.length))
  else
    match Hex.decode (digits.take (2 * n)) with
    | none => .error .invalidHex
    | some bytes =>
      if h : bytes.toArray.size = n then .ok (⟨bytes.toArray, h⟩, digits.drop (2 * n))
      else .error .invalidHex

/-- The message of a kind, from the bytes after the tag. -/
def ofPayload (digits : List UInt8) : MessageKind → Except WireError Message
  | .workAndProof => do
    let (unit, rest) ← readBytes workSize 0 digits
    let (log, _) ← readBytes logSize (2 * workSize) rest
    return .workAndProof (WorkUnit.ofBytes unit) (← RideLog.ofBytes log)
  | .work => do
    let (unit, _) ← readBytes workSize 0 digits
    return .work (WorkUnit.ofBytes unit)
  | .getWork => do
    let (header, _) ← readBytes headerSize 0 digits
    return .getWork (WorkUnit.ofHeader header)

/-- The kind whose tag starts a text, and the bytes of the text after the tag. -/
def splitTag (text : List Char) : Option (MessageKind × List UInt8) :=
  [MessageKind.workAndProof, .work, .getWork].findSome? fun kind =>
    (Text.afterTag? kind.tag text).map fun rest => (kind, (String.ofList rest).toUTF8.toList)

/-- The message of a line. -/
def ofLine (line : String) : Except WireError Message :=
  match splitTag (Text.trim line.toList) with
  | none => .error .unknownTag
  | some (kind, digits) => ofPayload digits kind

end Message

end RideProof
