import RideProof.Wire.Layout
import Mathlib.Data.List.GetD

/-!
# What is written in a layout is read back

A layout puts the bytes of its fields one behind the other. Each field is read as a slice, and the
slice that starts where a field was put is the field.

* `Bytes.slice_append_left`, `Bytes.slice_append_right` — slices of strings put together.
* `WorkUnit.ofBytes_toBytes` — a work unit is read back.
* `WorkUnit.ofHeader_toHeader` — of a work unit that is sent as a block header, the block is read
  back.
* `RideLog.ofBytes_toBytes` — a ride log is read back if it has no more records than fit.
-/

namespace RideProof

open LittleEndian

/-! ## Slices -/

namespace Bytes

variable {m n first len k : Nat} {a : Bytes m} {b : Bytes n}

/-- A byte of a slice is the byte as far behind the start of the slice. -/
theorem getElem_slice (b : Bytes n) (h : first + len ≤ n) {i : Nat} (hi : i < len) :
    (b.slice first len h)[i] = b[first + i] := by
  rw [slice, Vector.getElem_ofFn]
  rfl

/-- The slice of all bytes is the string. -/
theorem slice_self (b : Bytes n) (h : 0 + n ≤ n) : b.slice 0 n h = b := by
  apply Vector.ext
  intro i hi
  rw [getElem_slice b h hi]
  simp only [Nat.zero_add]

/-- A slice as a list: the bytes before it are dropped and those behind it cut off. -/
theorem toList_slice (b : Bytes n) (h : first + len ≤ n) :
    (b.slice first len h).toList = (b.toList.drop first).take len := by
  apply List.ext_getElem
  · rw [Vector.length_toList, List.length_take, List.length_drop, Vector.length_toList]
    omega
  · intro i hi hi'
    rw [Vector.length_toList] at hi
    rw [Vector.getElem_toList, getElem_slice b h hi, List.getElem_take, List.getElem_drop,
      Vector.getElem_toList]

/-- A slice that ends before the second string begins. -/
theorem slice_append_left (h : first + len ≤ m) (h' : first + len ≤ m + n) :
    slice (a ++ b) first len h' = a.slice first len h := by
  apply Vector.ext
  intro i hi
  rw [getElem_slice _ h' hi, getElem_slice _ h hi, Vector.getElem_append_left]

/-- A slice that starts in the second string. -/
theorem slice_append_right (hfirst : first = m + k) (h : k + len ≤ n) (h' : first + len ≤ m + n) :
    slice (a ++ b) first len h' = b.slice k len h := by
  subst hfirst
  apply Vector.ext
  intro i hi
  rw [getElem_slice _ h' hi, getElem_slice _ h hi, Vector.getElem_append_right (by omega) (by omega)]
  simp only [Nat.add_assoc, Nat.add_sub_cancel_left]

/-- The slice where the second string was put. -/
theorem slice_append (hfirst : first = m) (h' : first + n ≤ m + n) :
    slice (a ++ b) first n h' = b := by
  rw [slice_append_right (k := 0) hfirst (by omega), slice_self]

end Bytes

/-! ## Numbers -/

/-- A 16-bit word is read back from its two bytes. -/
theorem LittleEndian.uint16_value_digits (x : UInt16) :
    UInt16.ofNat (value (digits 2 x.toNat).toList) = x := by
  have hlt : x.toNat < capacity 2 := x.toNat_lt
  rw [value_digits, Nat.mod_eq_of_lt hlt, UInt16.ofNat_toNat]

/-- A 32-bit word is read back from its four bytes. -/
theorem LittleEndian.uint32_value_digits (x : UInt32) :
    UInt32.ofNat (value (digits 4 x.toNat).toList) = x := by
  have hlt : x.toNat < capacity 4 := x.toNat_lt
  rw [value_digits, Nat.mod_eq_of_lt hlt, UInt32.ofNat_toNat]

/-! ## Work units -/

namespace WorkUnit

/-- A work unit is read back from its layout: every field is the slice that it was put in. -/
theorem ofBytes_toBytes (w : WorkUnit) : ofBytes w.toBytes = w := by
  have hnew : w.toBytes.slice 0 2 (by decide) = digits 2 w.isNew.toNat := by
    unfold toBytes
    rw [Bytes.slice_append_left (by decide), Bytes.slice_append_left (by decide),
      Bytes.slice_append_left (by decide), Bytes.slice_append_left (by decide), Bytes.slice_self]
  have htarget : w.toBytes.slice 2 2 (by decide) = digits 2 w.timeTarget.toUInt16.toNat := by
    unfold toBytes
    rw [Bytes.slice_append_left (by decide), Bytes.slice_append_left (by decide),
      Bytes.slice_append_left (by decide), Bytes.slice_append rfl]
  have hheight : w.toBytes.slice 4 4 (by decide) = digits 4 w.height.toUInt32.toNat := by
    unfold toBytes
    rw [Bytes.slice_append_left (by decide), Bytes.slice_append_left (by decide),
      Bytes.slice_append rfl]
  have hmessage : w.toBytes.slice 8 messageSize (by decide) = w.message := by
    unfold toBytes
    rw [Bytes.slice_append_left (by decide), Bytes.slice_append rfl]
  have hblock : w.toBytes.slice 136 blockSize (by decide) = w.block := Bytes.slice_append rfl _
  rw [ofBytes, hnew, htarget, hheight, hmessage, hblock, uint16_value_digits,
    uint16_value_digits, uint32_value_digits, Int16.toInt16_toUInt16,
    Int32.toInt32_toUInt32]

/-- Reversing the bytes of every word twice changes nothing. -/
theorem swapWords_swapWords (b : Bytes headerSize) : swapWords (swapWords b) = b := by
  apply Vector.ext
  intro i hi
  have hplace : swapped (swapped ⟨i, hi⟩) = ⟨i, hi⟩ := by
    apply Fin.ext
    show (i / 4 * 4 + (3 - i % 4)) / 4 * 4 + (3 - (i / 4 * 4 + (3 - i % 4)) % 4) = i
    omega
  rw [swapWords, Vector.getElem_ofFn]
  show (swapWords b)[(swapped ⟨i, hi⟩).val] = b[i]
  rw [swapWords, Vector.getElem_ofFn]
  show b.get (swapped (swapped ⟨i, hi⟩)) = b[i]
  rw [hplace]
  rfl

/-- Of a work unit that is sent as a block header, the block is read back. -/
theorem ofHeader_toHeader (w : WorkUnit) : ofHeader w.toHeader = ofBlock w.block := by
  have hblock : (swapWords w.toHeader).slice 0 blockSize (by decide) = w.block := by
    rw [toHeader, swapWords_swapWords, Bytes.slice_append_left (by decide), Bytes.slice_self]
  rw [ofHeader, hblock]

end WorkUnit

/-! ## Ride logs -/

namespace RideLog

variable {log : RideLog}

/-- The two bytes of a record are where its slot is. -/
theorem slice_slots (updates : List UInt16) (i : Fin 60) (h : 2 * i.val + 2 ≤ 120) :
    (slots updates).slice (2 * i.val) 2 h = digits 2 (updates.getD i 0).toNat := by
  apply Vector.ext
  intro j hj
  have hrecord : (2 * i.val + j) / 2 = i := by omega
  have hbyte : (2 * i.val + j) % 2 = j := by omega
  have hlist : j < (digitList 2 (updates.getD i 0).toNat).length := by
    rw [length_digitList]
    exact hj
  rw [Bytes.getElem_slice _ h hj, slots, Vector.getElem_ofFn]
  dsimp only
  rw [hrecord, hbyte, List.getD_eq_getElem _ _ hlist]
  rfl

/-- A record is read back from its slot, and a slot without one is zero. -/
theorem slot_toBytes (log : RideLog) (i : Fin 60) :
    slot log.toBytes i = log.updates.getD i 0 := by
  have hslice : log.toBytes.slice (8 + 2 * i.val) 2 (by show _ ≤ 128; omega) =
      digits 2 (log.updates.getD i 0).toNat := by
    unfold toBytes
    rw [Bytes.slice_append_right (k := 2 * i.val) rfl (by omega), slice_slots]
  rw [slot, hslice, uint16_value_digits]

/-- A log is read back from its layout, if it has no more records than there are slots. -/
theorem ofBytes_toBytes (h : log.updates.length ≤ maxRecords) :
    ofBytes log.toBytes = .ok log := by
  have hnonce : log.toBytes.slice 0 4 (by decide) = digits 4 log.nonce.toNat := by
    unfold toBytes
    rw [Bytes.slice_append_left (by decide), Bytes.slice_append_left (by decide),
      Bytes.slice_append_left (by decide), Bytes.slice_self]
  have hframes : log.toBytes.slice 4 2 (by decide) = digits 2 log.numFrames.toNat := by
    unfold toBytes
    rw [Bytes.slice_append_left (by decide), Bytes.slice_append_left (by decide),
      Bytes.slice_append rfl]
  have hcount : log.toBytes.slice 6 2 (by decide) = digits 2 log.updates.length := by
    unfold toBytes
    rw [Bytes.slice_append_left (by decide), Bytes.slice_append rfl, Nat.min_eq_left h]
  have hupdates : (List.ofFn (slot log.toBytes)).take log.updates.length = log.updates := by
    apply List.ext_getElem
    · rw [List.length_take, List.length_ofFn]
      exact Nat.min_eq_left h
    · intro i hi hi'
      rw [List.getElem_take, List.getElem_ofFn, slot_toBytes, List.getD_eq_getElem _ _ hi']
  unfold maxRecords at h
  have hvalue : value (digits 2 log.updates.length).toList = log.updates.length := by
    rw [value_digits, Nat.mod_eq_of_lt (by show _ < 65536; omega)]
  rw [ofBytes, hcount, hvalue, if_neg (by unfold maxRecords; omega), hnonce, hframes, hupdates,
    uint32_value_digits, uint16_value_digits]

end RideLog

end RideProof
