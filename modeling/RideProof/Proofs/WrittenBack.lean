import RideProof.Proofs.Courses
import RideProof.Proofs.Layouts

/-!
# What is read in a layout is written back

A layout that reads every byte writes the bytes back as they were. Two layouts have bytes that they
do not read: the slots of a ride log behind its last record, and the last word of a block header.
These are written as zeros, and nothing else is lost.

* `Bytes.slice_append_slice` — slices put together.
* `Bytes.clearFrom` — a string of bytes with zeros from some place on.
* `WorkUnit.toBytes_ofBytes`, `WorkUnit.toHeader_ofHeader`, `RideLog.toBytes_of_le`,
  `Field.toBytes_ofBytes`, `Field.ofBytes_toBytes` — each layout.
* `layouts_lossless` — all of them, both ways.
-/

namespace RideProof

open LittleEndian

/-! ## Slices and zeros -/

namespace Bytes

variable {m n i p q : Nat}

/-- A slice and the one behind it are one slice. -/
theorem slice_append_slice (b : Bytes n) (h : i + (p + q) ≤ n) :
    b.slice i p (by omega) ++ b.slice (i + p) q (by omega) = b.slice i (p + q) h := by
  apply Vector.ext
  intro j hj
  rw [getElem_slice b h hj, Vector.getElem_append]
  split_ifs with hp
  · rw [getElem_slice]
  · rw [getElem_slice _ _ (by omega)]
    congr 1
    omega

/-- The same bytes up to a place, and zeros from there on. -/
def clearFrom (b : Bytes n) (first : Nat) : Bytes n :=
  Vector.ofFn fun i => if i.val < first then b.get i else 0

/-- A string whose end is cleared: the bytes before it stay, and the others are zero. -/
theorem getElem_clearFrom (b : Bytes n) (first : Nat) (hi : i < n) :
    (b.clearFrom first)[i] = if i < first then b[i] else 0 := by
  rw [clearFrom, Vector.getElem_ofFn]
  rfl

/-- The zeros of a string put behind another one. -/
theorem append_clearFrom (a : Bytes m) (b : Bytes n) (first : Nat) :
    a ++ b.clearFrom first = clearFrom (a ++ b) (m + first) := by
  apply Vector.ext
  intro j hj
  rw [getElem_clearFrom _ _ hj, Vector.getElem_append, Vector.getElem_append]
  by_cases hm : j < m
  · rw [if_pos (by omega), dif_pos hm, dif_pos hm]
  · have hplace : j - m < first ↔ j < m + first := by omega
    rw [dif_neg hm, dif_neg hm, getElem_clearFrom]
    simp only [hplace]

/-- A slice from the start with zeros behind it. -/
theorem slice_append_zeros (b : Bytes (m + n)) (h : 0 + m ≤ m + n) :
    b.slice 0 m h ++ (Vector.replicate n 0 : Bytes n) = b.clearFrom m := by
  apply Vector.ext
  intro j hj
  rw [getElem_clearFrom _ _ hj, Vector.getElem_append]
  split_ifs with hm
  · rw [getElem_slice _ _ hm]
    simp only [Nat.zero_add]
  · rw [Vector.getElem_replicate]

end Bytes

/-! ## Numbers -/

/-- Two bytes are written back from the 16-bit word that they are read as. -/
theorem LittleEndian.digits_uint16_value (b : Bytes 2) :
    digits 2 (UInt16.ofNat (value b.toList)).toNat = b := by
  have hlt : value b.toList < 65536 := by
    have h := value_lt b.toList
    rwa [Vector.length_toList] at h
  rw [UInt16.toNat_ofNat', Nat.mod_eq_of_lt hlt, digits_value]

/-- Four bytes are written back from the 32-bit word that they are read as. -/
theorem LittleEndian.digits_uint32_value (b : Bytes 4) :
    digits 4 (UInt32.ofNat (value b.toList)).toNat = b := by
  have hlt : value b.toList < 4294967296 := by
    have h := value_lt b.toList
    rwa [Vector.length_toList] at h
  rw [UInt32.toNat_ofNat', Nat.mod_eq_of_lt hlt, digits_value]

/-! ## Work units -/

namespace WorkUnit

/-- A work unit that was read is written back byte by byte. -/
theorem toBytes_ofBytes (b : Bytes workSize) : (ofBytes b).toBytes = b := by
  have hnew : digits 2 (ofBytes b).isNew.toNat = b.slice 0 2 (by decide) :=
    digits_uint16_value _
  have htarget : digits 2 (ofBytes b).timeTarget.toUInt16.toNat = b.slice 2 2 (by decide) := by
    rw [ofBytes, UInt16.toUInt16_toInt16]
    exact digits_uint16_value _
  have hheight : digits 4 (ofBytes b).height.toUInt32.toNat = b.slice 4 4 (by decide) := by
    rw [ofBytes, UInt32.toUInt32_toInt32]
    exact digits_uint32_value _
  have hmessage : (ofBytes b).message = b.slice 8 128 (by decide) := rfl
  have hblock : (ofBytes b).block = b.slice 136 76 (by decide) := rfl
  rw [toBytes, hnew, htarget, hheight, hmessage, hblock]
  calc b.slice 0 2 _ ++ b.slice 2 2 _ ++ b.slice 4 4 _ ++ b.slice 8 128 _ ++ b.slice 136 76 _
      = b.slice 0 4 (by decide) ++ b.slice 4 4 _ ++ b.slice 8 128 _ ++ b.slice 136 76 _ := by
        rw [Bytes.slice_append_slice b (i := 0) (p := 2) (by decide)]
    _ = b.slice 0 8 (by decide) ++ b.slice 8 128 _ ++ b.slice 136 76 _ := by
        rw [Bytes.slice_append_slice b (i := 0) (p := 4) (by decide)]
    _ = b.slice 0 136 (by decide) ++ b.slice 136 76 _ := by
        rw [Bytes.slice_append_slice b (i := 0) (p := 8) (by decide)]
    _ = b.slice 0 212 (by decide) := Bytes.slice_append_slice b (i := 0) (p := 136) (by decide)
    _ = b := Bytes.slice_self b _

/-- Words with zeros behind them are reversed one by one. -/
theorem swapWords_clearFrom (b : Bytes headerSize) :
    swapWords (b.clearFrom blockSize) = (swapWords b).clearFrom blockSize := by
  apply Vector.ext
  intro i hi
  have hword : i / 4 * 4 + (3 - i % 4) < 76 ↔ i < 76 := by omega
  rw [Bytes.getElem_clearFrom _ _ hi, swapWords, swapWords, Vector.getElem_ofFn,
    Vector.getElem_ofFn]
  show (b.clearFrom blockSize)[(swapped ⟨i, hi⟩).val] = _
  rw [Bytes.getElem_clearFrom]
  show (if i / 4 * 4 + (3 - i % 4) < 76 then _ else _) = if i < 76 then _ else _
  simp only [hword]
  rfl

/-- The last word of a block header is not kept. -/
theorem toHeader_ofHeader (header : Bytes headerSize) :
    (ofHeader header).toHeader = header.clearFrom 76 := by
  have hblock : (ofHeader header).block = (swapWords header).slice 0 blockSize (by decide) := rfl
  rw [toHeader, hblock]
  show swapWords ((swapWords header).slice 0 76 _ ++ (Vector.replicate 4 0 : Bytes 4)) = _
  rw [Bytes.slice_append_zeros (m := 76) (n := 4) (swapWords header)]
  show swapWords ((swapWords header).clearFrom blockSize) = _
  rw [swapWords_clearFrom, swapWords_swapWords]

end WorkUnit

/-! ## Ride logs -/

namespace RideLog

variable {log : RideLog}

/-- A byte in the slots is one of its record. -/
theorem getElem_slots (updates : List UInt16) {i : Nat} (hi : i < 120) :
    (slots updates)[i] = (digits 2 (updates.getD (i / 2) 0).toNat)[i % 2] := by
  have hbounds : 2 * (i / 2) + 2 ≤ 120 := by omega
  have hslice := congrArg (fun s : Bytes 2 => s[i % 2])
    (slice_slots updates ⟨i / 2, by omega⟩ hbounds)
  dsimp only at hslice
  rw [← hslice, Bytes.getElem_slice]
  congr 1
  omega

/-- The first records of a string of bytes are written where they were read, with zeros behind
them. -/
theorem slots_take_slot (b : Bytes logSize) (count : Nat) :
    slots ((List.ofFn (slot b)).take count) =
      (b.slice 8 120 (by decide)).clearFrom (2 * count) := by
  apply Vector.ext
  intro i hi
  have hslot : i / 2 < (List.ofFn (slot b)).length := by
    rw [List.length_ofFn]
    omega
  rw [Bytes.getElem_clearFrom _ _ hi, Bytes.getElem_slice _ _ hi, getElem_slots _ hi,
    List.getD_eq_getElem?_getD]
  -- a slot of a record that is taken, or one behind them, which holds zero
  by_cases hkept : i < 2 * count
  · have hrecord : (List.ofFn (slot b))[i / 2] = slot b ⟨i / 2, by omega⟩ := List.getElem_ofFn _
    have hbyte : 8 + 2 * (i / 2) + i % 2 = 8 + i := by omega
    rw [if_pos hkept, List.getElem?_take_of_lt (by omega), List.getElem?_eq_getElem hslot,
      Option.getD_some, hrecord]
    have hword : digits 2 (slot b ⟨i / 2, by omega⟩).toNat =
        b.slice (8 + 2 * (i / 2)) 2 (by show _ ≤ 128; omega) := digits_uint16_value _
    simp only [hword, Bytes.getElem_slice, hbyte]
  · rw [if_neg hkept, List.getElem?_eq_none (by rw [List.length_take]; omega), Option.getD_none]
    have hzeros : digits 2 (0 : UInt16).toNat = Vector.replicate 2 0 := rfl
    simp only [hzeros, Vector.getElem_replicate]

/-- How many records bytes declare. -/
def declared (b : Bytes logSize) : Nat := b[6].toNat + 256 * b[7].toNat

/-- The count that a log declares is the number in its two bytes. -/
theorem value_declared (b : Bytes logSize) :
    value (b.slice 6 2 (by decide)).toList = declared b := rfl

/-- A log that declares too many records is not read. -/
theorem ofBytes_of_lt {b : Bytes logSize} (h : 60 < declared b) :
    ofBytes b = .error (.tooManyUpdates (declared b)) := if_pos h

/-- Bytes that do not declare too many records are read, and written back with zeros behind the
last record. -/
theorem toBytes_of_le {b : Bytes logSize} (h : declared b ≤ 60) :
    ∃ log, ofBytes b = .ok log ∧ log.toBytes = b.clearFrom (8 + 2 * declared b) := by
  refine ⟨_, if_neg (Nat.not_lt.mpr h), ?_⟩
  have hlength : ((List.ofFn (slot b)).take (declared b)).length = declared b := by
    rw [List.length_take, List.length_ofFn]
    exact Nat.min_eq_left h
  have hmin : min (declared b) maxRecords = declared b := Nat.min_eq_left h
  have hcount : digits 2 (min (declared b) maxRecords) = b.slice 6 2 (by decide) := by
    rw [hmin, ← value_declared, digits_value]
  rw [toBytes]
  dsimp only
  rw [value_declared, hlength, hcount, slots_take_slot, digits_uint32_value, digits_uint16_value]
  calc b.slice 0 4 _ ++ b.slice 4 2 _ ++ b.slice 6 2 _ ++
        (b.slice 8 120 _).clearFrom (2 * declared b)
      = b.slice 0 6 (by decide) ++ b.slice 6 2 _ ++
        (b.slice 8 120 (by decide)).clearFrom (2 * declared b) := by
        rw [Bytes.slice_append_slice b (i := 0) (p := 4) (by decide)]
    _ = b.slice 0 8 (by decide) ++ (b.slice 8 120 (by decide)).clearFrom (2 * declared b) := by
        rw [Bytes.slice_append_slice b (i := 0) (p := 6) (by decide)]
    _ = Bytes.clearFrom (b.slice 0 8 (by decide) ++ b.slice 8 120 (by decide))
        (8 + 2 * declared b) := Bytes.append_clearFrom _ _ _
    _ = b.clearFrom (8 + 2 * declared b) := by
        rw [Bytes.slice_append_slice b (i := 0) (p := 8) (by decide)]
        exact congrArg (Bytes.clearFrom · _) (Bytes.slice_self b _)

end RideLog

/-! ## Fields -/

namespace Field

/-- A field that was read is written back byte by byte. -/
theorem toBytes_ofBytes (b : Bytes 512) : (ofBytes b).toBytes = b := by
  apply Vector.ext
  intro k hk
  have hgradient : (ofBytes b).gradients[k / 2] =
      ⟨b[2 * (k / 2)].toInt8, b[2 * (k / 2) + 1].toInt8⟩ := by
    rw [ofBytes, Vector.getElem_ofFn]
  rw [toBytes, Vector.getElem_ofFn]
  dsimp only
  rw [hgradient]
  dsimp only
  split_ifs with hparity
  · have hplace : 2 * (k / 2) = k := by omega
    simp only [hplace, UInt8.toUInt8_toInt8]
  · have hplace : 2 * (k / 2) + 1 = k := by omega
    simp only [hplace, UInt8.toUInt8_toInt8]

/-- Both bytes of a gradient, by its place. -/
theorem getElem_toBytes (f : Field) {i : Nat} (hi : i < 256) :
    f.toBytes[2 * i] = f.gradients[i].x.toUInt8 ∧
      f.toBytes[2 * i + 1] = f.gradients[i].y.toUInt8 := by
  have heven : 2 * i / 2 = i := by omega
  have hodd : (2 * i + 1) / 2 = i := by omega
  rw [toBytes, Vector.getElem_ofFn, Vector.getElem_ofFn]
  dsimp only
  rw [if_pos (by omega), if_neg (by omega)]
  simp only [heven, hodd, and_self]

/-- A field that was written is read back. -/
theorem ofBytes_toBytes (f : Field) : ofBytes f.toBytes = f := by
  refine ext (Vector.ext ?_)
  intro i hi
  obtain ⟨hx, hy⟩ := f.getElem_toBytes hi
  rw [ofBytes, Vector.getElem_ofFn, hx, hy, Int8.toInt8_toUInt8, Int8.toInt8_toUInt8]

end Field

/-! ## All layouts -/

/-- **The layouts lose nothing but their slack.** Bytes that are read as a work unit or as a field
are written back as they were, and so are those of a ride log up to the records that it declares,
and those of a block header but for its last word; the rest is zeros. Of the bytes of a ride log,
those that declare more than sixty records are refused, and no others. And what is written is read
back: a work unit, a field, a ride log that fits, and the block of a work unit. -/
theorem layouts_lossless :
    ((∀ b, (WorkUnit.ofBytes b).toBytes = b) ∧ ∀ w, WorkUnit.ofBytes (WorkUnit.toBytes w) = w) ∧
    ((∀ b : Bytes logSize,
        let count := b[6].toNat + 256 * b[7].toNat
        ((∃ e, RideLog.ofBytes b = .error e) ↔ 60 < count) ∧
        (count ≤ 60 →
          ∃ log, RideLog.ofBytes b = .ok log ∧ log.toBytes = b.clearFrom (8 + 2 * count))) ∧
      ∀ log : RideLog, log.updates.length ≤ 60 → RideLog.ofBytes log.toBytes = .ok log) ∧
    ((∀ header, (WorkUnit.ofHeader header).toHeader = header.clearFrom 76) ∧
      ∀ w, (WorkUnit.ofHeader (WorkUnit.toHeader w)).block = w.block) ∧
    (∀ b : Bytes 512, (Field.ofBytes b).toBytes = b ∧ ∀ col row : Fin 16,
        (Field.ofBytes b).cell col row =
          ⟨b[2 * (16 * col.val + row.val)].toInt8,
            b[2 * (16 * col.val + row.val) + 1].toInt8⟩) ∧
      ∀ f : Field, Field.ofBytes f.toBytes = f := by
  refine ⟨⟨WorkUnit.toBytes_ofBytes, WorkUnit.ofBytes_toBytes⟩,
    ⟨?records, fun log h => RideLog.ofBytes_toBytes h⟩,
    ⟨WorkUnit.toHeader_ofHeader, ?block⟩,
    fun b => ⟨Field.toBytes_ofBytes b, ?cells⟩, Field.ofBytes_toBytes⟩
  case records =>
    intro b count
    refine ⟨⟨?_, fun h => ⟨_, RideLog.ofBytes_of_lt h⟩⟩, RideLog.toBytes_of_le⟩
    rintro ⟨e, he⟩
    refine Nat.lt_of_not_le fun hfew => ?_
    obtain ⟨log, hlog, -⟩ := RideLog.toBytes_of_le hfew
    rw [hlog] at he
    cases he
  case block =>
    intro w
    rw [WorkUnit.ofHeader_toHeader]
    rfl
  case cells =>
    intro col row
    have hplace : (col.val * 16 + row.val) * 2 = 2 * (16 * col.val + row.val) := by omega
    rw [Generator.cell_ofBytes]
    simp only [hplace]

/-- A log of one record with a byte behind it, which is not written back. -/
theorem layouts_lossless_slack :
    let b : Bytes logSize := Vector.ofFn fun i =>
      if i.val = 6 then 1 else if i.val = 8 then 13 else if i.val = 10 then 7 else 0
    ∃ log, RideLog.ofBytes b = .ok log ∧ log.updates = [13] ∧ log.toBytes[10] = 0 ∧
      RideLog.ofBytes log.toBytes = .ok log := by
  intro b
  obtain ⟨log, hread, hwritten⟩ := (layouts_lossless.2.1.1 b).2 (by decide)
  have hlog : log = ⟨0, 0, [13]⟩ := by
    have hdecoded : RideLog.ofBytes b = .ok ⟨0, 0, [13]⟩ := by rfl
    rw [hdecoded] at hread
    exact (Except.ok.inj hread).symm
  refine ⟨log, hread, by rw [hlog], ?_, layouts_lossless.2.1.2 log (by rw [hlog]; decide)⟩
  rw [hwritten, Bytes.getElem_clearFrom]
  rfl

end RideProof
