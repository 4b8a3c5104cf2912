import RideProof.Target
import RideProof.Text.Utf8

/-!
# Work units

What a work server hands out: a block to ride for, with a time target, a height and a message.

* `WorkUnit.setMessage`, `WorkUnit.messageText` — the message as text: it ends at the first NUL
  byte, and writing it leaves room for one.
-/

namespace RideProof

/-- The number of bytes that hold a message. -/
abbrev messageSize : Nat := 128

/-- A unit of work. -/
structure WorkUnit where
  /-- Not zero if all earlier work is stale. -/
  isNew : UInt16
  /-- The number of ticks that a ride has to stay below. -/
  timeTarget : Int16
  /-- The height of the block. -/
  height : Int32
  /-- The message, filled up with NUL bytes. -/
  message : Bytes messageSize
  /-- The block. -/
  block : Block
  deriving DecidableEq, Repr

namespace WorkUnit

/-- The work unit for a block, with one minute to ride. -/
def ofBlock (block : Block) : WorkUnit where
  isNew := 0
  timeTarget := 15000
  height := 0
  message := Vector.replicate messageSize 0
  block := block

/-- The work unit whose block is all zeros. -/
def zero : WorkUnit := ofBlock (Vector.replicate blockSize 0)

/-- The message as text. -/
def messageText (w : WorkUnit) : String :=
  Text.decodeLossy (w.message.toList.takeWhile (· ≠ 0))

/-- The work unit with the first 127 bytes of a text as its message. -/
def setMessage (w : WorkUnit) (text : String) : WorkUnit :=
  let bytes := text.toUTF8.toList.take (messageSize - 1)
  { w with message := Vector.ofFn fun i => bytes.getD i.val 0 }

end WorkUnit

end RideProof
