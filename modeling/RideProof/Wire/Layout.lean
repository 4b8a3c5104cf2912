import RideProof.Log
import RideProof.Wire.Error
import RideProof.Work

/-!
# Records of bytes

The layouts of what is sent, all numbers little-endian.

* A work unit takes 212 bytes: two for `isNew`, two for the time target, four for the height, 128
  for the message and 76 for the block.
* A ride log takes 128 bytes: four for the nonce, two for the number of ticks, two for the number of
  records and two for each of sixty records, those not in use zero.
* A block header takes 80 bytes: the block and a word of zeros, each of the twenty words with its
  bytes reversed.
-/

namespace RideProof

open LittleEndian

/-- The number of bytes of a work unit. -/
abbrev workSize : Nat := 212

/-- The number of bytes of a ride log. -/
abbrev logSize : Nat := 128

/-- The number of bytes of a block header. -/
abbrev headerSize : Nat := 80

namespace WorkUnit

/-- The bytes of a work unit. -/
def toBytes (w : WorkUnit) : Bytes workSize :=
  digits 2 w.isNew.toNat ++ digits 2 w.timeTarget.toUInt16.toNat ++
    digits 4 w.height.toUInt32.toNat ++ w.message ++ w.block

/-- The work unit that bytes describe. -/
def ofBytes (b : Bytes workSize) : WorkUnit where
  isNew := UInt16.ofNat (value (b.slice 0 2 (by decide)).toList)
  timeTarget := (UInt16.ofNat (value (b.slice 2 2 (by decide)).toList)).toInt16
  height := (UInt32.ofNat (value (b.slice 4 4 (by decide)).toList)).toInt32
  message := b.slice 8 messageSize (by decide)
  block := b.slice 136 blockSize (by decide)

/-- The place of a byte after the bytes of its word are reversed. -/
def swapped (i : Fin headerSize) : Fin headerSize :=
  ⟨i.val / 4 * 4 + (3 - i.val % 4), by have h : i.val < 80 := i.isLt; show _ < 80; omega⟩

/-- The same words with the bytes of each reversed. -/
def swapWords (b : Bytes headerSize) : Bytes headerSize :=
  Vector.ofFn fun i => b.get (swapped i)

/-- The work unit for a block header, whose last word, a nonce, is dropped. -/
def ofHeader (header : Bytes headerSize) : WorkUnit :=
  ofBlock ((swapWords header).slice 0 blockSize (by decide))

/-- The block header of a work unit, with a nonce of zero. -/
def toHeader (w : WorkUnit) : Bytes headerSize :=
  swapWords (w.block ++ (Vector.replicate 4 0 : Bytes 4))

end WorkUnit

namespace RideLog

/-- The two bytes of each of the first sixty records. -/
def slots (updates : List UInt16) : Bytes 120 :=
  Vector.ofFn fun i => (digitList 2 (updates.getD (i.val / 2) 0).toNat).getD (i.val % 2) 0

/-- The bytes of a ride log; records after the sixtieth are left out. -/
def toBytes (log : RideLog) : Bytes logSize :=
  digits 4 log.nonce.toNat ++ digits 2 log.numFrames.toNat ++
    digits 2 (min log.updates.length maxRecords) ++ slots log.updates

/-- The record in a slot. -/
def slot (b : Bytes logSize) (i : Fin 60) : UInt16 :=
  UInt16.ofNat (value (b.slice (8 + 2 * i.val) 2 (by show _ ≤ 128; omega)).toList)

/-- The ride log that bytes describe, if it does not declare too many records. -/
def ofBytes (b : Bytes logSize) : Except WireError RideLog :=
  let count := value (b.slice 6 2 (by decide)).toList
  if maxRecords < count then .error (.tooManyUpdates count)
  else
    .ok {
      nonce := UInt32.ofNat (value (b.slice 0 4 (by decide)).toList)
      numFrames := UInt16.ofNat (value (b.slice 4 2 (by decide)).toList)
      updates := (List.ofFn (slot b)).take count }

end RideLog

end RideProof
