import RideProof.Proofs.Layouts
import RideProof.Wire.Line
import Mathlib.Data.List.Forall2

/-!
# Lines are read as the messages that they spell

A line spells a message in more ways than the one it is written in: with blanks before it, with
digits of either case, and with any text behind its digits. All of them are read as the message, or
as what a block header says of it, and what is read is a message that is read as itself.

* `Text.trimEnd_append`, `Message.splitTag_append` — what trimming and the tags make of a line.
* `Text.toList_toUTF8_append` — the bytes of a text that starts with ASCII characters.
* `Hex.decode_eitherCase` — digits of either case stand for the same bytes.
* `Message.Spells` — the lines that spell a message, and `Message.received`, what they are read as.
* `Message.ofLine_line` — the round trip.
-/

namespace RideProof

/-! ## Blanks -/

namespace Text

variable {word rest blanks : List Char}

/-- A word without blanks has none at its start. -/
theorem dropWhile_isBlank (h : ∀ c ∈ word, isBlank c = false) : word.dropWhile isBlank = word := by
  cases word with
  | nil => rfl
  | cons c cs =>
    have hc := h c (List.mem_cons_self ..)
    rw [List.dropWhile_cons_of_neg (by simp [hc])]

/-- Blanks before a text are trimmed away. -/
theorem trimStart_append (h : ∀ c ∈ blanks, isBlank c = true) (rest : List Char) :
    trimStart (blanks ++ rest) = trimStart rest :=
  List.dropWhile_append_of_pos h

/-- A text is trimmed at its end behind the words that it starts with. -/
theorem trimEnd_append (h : ∀ c ∈ word, isBlank c = false) (rest : List Char) :
    trimEnd (word ++ rest) = word ++ trimEnd rest := by
  have hword : word.reverse.dropWhile isBlank = word.reverse :=
    dropWhile_isBlank fun c hc => h c (List.mem_reverse.mp hc)
  unfold trimEnd
  rw [List.reverse_append, List.dropWhile_append, hword]
  split_ifs with hempty
  · rw [List.isEmpty_iff.mp hempty]
    simp
  · simp

/-! ## Bytes of a text -/

/-- The list of a string of bytes, which core makes back to front. -/
theorem toList_loop (b : ByteArray) (i : Nat) (bytes : List UInt8) :
    ByteArray.toList.loop b i bytes = bytes.reverse ++ b.data.toList.drop i := by
  induction i, bytes using ByteArray.toList.loop.induct b with
  | case1 i bytes hlt ih =>
    have hi : i < b.data.toList.length := hlt
    have hget : b.get! i = b.data.toList[i] := getElem!_pos b.data i hlt
    rw [ByteArray.toList.loop, if_pos hlt, ih, List.drop_eq_getElem_cons hi, hget]
    simp
  | case2 i bytes hge =>
    have hle : b.data.toList.length ≤ i := Nat.le_of_not_lt hge
    rw [ByteArray.toList.loop, if_neg hge, List.drop_eq_nil_of_le hle, List.append_nil]

/-- The bytes of a text are those of its characters. -/
theorem toList_toUTF8 (cs : List Char) :
    (String.ofList cs).toUTF8.toList = cs.flatMap String.utf8EncodeChar := by
  rw [ByteArray.toList, toList_loop]
  show ([] : List UInt8).reverse ++ (String.ofList cs).toByteArray.data.toList.drop 0 = _
  rw [String.toByteArray_ofList, List.utf8Encode, List.data_toByteArray]
  simp

/-- An ASCII character is one byte. -/
theorem utf8EncodeChar_of_lt {c : Char} (h : c.toNat < 128) :
    String.utf8EncodeChar c = [Hex.asciiByte c] := by
  have hle : c.val.toNat ≤ 127 := Nat.le_of_lt_succ h
  simp only [String.utf8EncodeChar, if_pos hle]
  rfl

/-- The bytes of a text that starts with ASCII characters. -/
theorem toList_toUTF8_append (h : ∀ c ∈ word, c.toNat < 128) (rest : List Char) :
    (String.ofList (word ++ rest)).toUTF8.toList =
      word.map Hex.asciiByte ++ (String.ofList rest).toUTF8.toList := by
  rw [toList_toUTF8, toList_toUTF8, List.flatMap_append]
  congr 1
  induction word with
  | nil => rfl
  | cons c cs ih =>
    rw [List.flatMap_cons, List.map_cons, utf8EncodeChar_of_lt (h c (List.mem_cons_self ..)),
      ih fun d hd => h d (List.mem_cons_of_mem c hd), List.singleton_append]

end Text

/-! ## Digits of either case -/

namespace Hex

/-- A character is a digit as it is written, or that in upper case. -/
def EitherCase (d c : Char) : Prop := d = c ∨ d = c.toUpper

variable {d : Char} {ds : List Char} {n : Nat} {bytes : List UInt8}

/-- Two digits are written for each byte. -/
theorem length_encode (bytes : List UInt8) : (encode bytes).length = 2 * bytes.length := by
  induction bytes with
  | nil => rfl
  | cons b bytes ih =>
    rw [encode, List.flatMap_cons, List.length_append]
    unfold encode at ih
    rw [ih, List.length_cons, ofByte]
    simp only [List.length_cons, List.length_nil]
    omega

/-- A digit of either case is an ASCII character, no blank, and has the value of the digit. -/
theorem EitherCase.digit (h : EitherCase d (digit n)) (hn : n < 16) :
    d.toNat < 128 ∧ Text.isBlank d = false ∧ digitValue (asciiByte d) = some n := by
  have lower : ∀ k : Fin 16, (Hex.digit k).toNat < 128 ∧ Text.isBlank (Hex.digit k) = false ∧
      digitValue (asciiByte (Hex.digit k)) = some k.val := by
    decide
  have upper : ∀ k : Fin 16, (Hex.digit k).toUpper.toNat < 128 ∧
      Text.isBlank (Hex.digit k).toUpper = false ∧
      digitValue (asciiByte (Hex.digit k).toUpper) = some k.val := by
    decide
  rcases h with rfl | rfl
  · exact lower ⟨n, hn⟩
  · exact upper ⟨n, hn⟩

/-- Digits of either case are ASCII characters, no blanks, and stand for the bytes that they were
written for. -/
theorem decode_eitherCase (h : List.Forall₂ EitherCase ds (encode bytes)) :
    (∀ d ∈ ds, d.toNat < 128 ∧ Text.isBlank d = false) ∧
      decode (ds.map asciiByte) = some bytes := by
  induction bytes generalizing ds with
  | nil =>
    cases h
    exact ⟨fun _ => nofun, rfl⟩
  | cons b bytes ih =>
    rw [encode, List.flatMap_cons, ofByte, List.cons_append, List.cons_append,
      List.nil_append] at h
    cases h with
    | @cons high _ ds _ hhigh h =>
      cases h with
      | @cons low _ ds _ hlow h =>
        have hb := b.toNat_lt
        obtain ⟨hhigh₁, hhigh₂, hhigh₃⟩ := hhigh.digit (by omega)
        obtain ⟨hlow₁, hlow₂, hlow₃⟩ := hlow.digit (by omega)
        obtain ⟨hrest, hdecode⟩ := ih h
        refine ⟨?_, ?_⟩
        · intro d hd
          rcases List.mem_cons.mp hd with rfl | hd
          · exact ⟨hhigh₁, hhigh₂⟩
          · rcases List.mem_cons.mp hd with rfl | hd
            · exact ⟨hlow₁, hlow₂⟩
            · exact hrest d hd
        · rw [List.map_cons, List.map_cons, decode, hhigh₃, hlow₃, hdecode]
          dsimp only
          rw [ofNat_halves]

/-- The digits of bytes put together. -/
theorem eitherCase_append {bytes' : List UInt8}
    (h : List.Forall₂ EitherCase ds (encode (bytes ++ bytes'))) :
    ∃ ds₁ ds₂, ds = ds₁ ++ ds₂ ∧ List.Forall₂ EitherCase ds₁ (encode bytes) ∧
      List.Forall₂ EitherCase ds₂ (encode bytes') := by
  have hencode : encode (bytes ++ bytes') = encode bytes ++ encode bytes' := List.flatMap_append
  rw [hencode] at h
  exact ⟨_, _, (List.take_append_drop _ ds).symm, List.forall₂_take_append _ _ _ h,
    List.forall₂_drop_append _ _ _ h⟩

end Hex

/-! ## Reading -/

namespace Message

open Hex (EitherCase)

variable {ds : List Char} {digits rest : List UInt8} {n : Nat} {m : Message}

/-- Bytes are read from digits of either case, whatever comes behind them. -/
theorem readBytes_eitherCase {b : Bytes n} (h : List.Forall₂ EitherCase ds (Hex.encode b.toList))
    (offset : Nat) (rest : List UInt8) :
    readBytes n offset (ds.map Hex.asciiByte ++ rest) = .ok (b, rest) := by
  have hlength : (ds.map Hex.asciiByte).length = 2 * n := by
    rw [List.length_map, h.length_eq, Hex.length_encode, Vector.length_toList]
  obtain ⟨-, hdecode⟩ := Hex.decode_eitherCase h
  have henough : ¬ (ds.map Hex.asciiByte ++ rest).length < 2 * n := by
    rw [List.length_append]
    omega
  rw [readBytes, if_neg henough, List.take_left' hlength, List.drop_left' hlength, hdecode]
  dsimp only
  rw [dif_pos (by simp)]
  rfl

/-- What a message is read as: the work unit of a block header has nothing but its block. -/
def received : Message → Message
  | .getWork w => .getWork (.ofBlock w.block)
  | m => m

/-- The records of the log that a message carries fit into its layout. -/
def Fits : Message → Prop
  | .workAndProof _ log => log.updates.length ≤ maxRecords
  | _ => True

/-- The bytes of a message are read back from digits of either case, whatever comes behind them. -/
theorem ofPayload_eitherCase (hfits : m.Fits)
    (h : List.Forall₂ EitherCase ds (Hex.encode m.payload)) (rest : List UInt8) :
    ofPayload (ds.map Hex.asciiByte ++ rest) m.kind = .ok m.received := by
  cases m with
  | work w =>
    have hread := readBytes_eitherCase (b := w.toBytes) h 0 rest
    simp only [ofPayload, kind, hread, bind, Except.bind, WorkUnit.ofBytes_toBytes]
    rfl
  | workAndProof w log =>
    obtain ⟨ds₁, ds₂, rfl, hunit, hlog⟩ := Hex.eitherCase_append h
    have hfirst := readBytes_eitherCase hunit 0
    have hsecond := readBytes_eitherCase hlog (2 * workSize) rest
    rw [List.map_append, List.append_assoc]
    simp only [ofPayload, kind, hfirst, hsecond, bind, Except.bind, WorkUnit.ofBytes_toBytes,
      RideLog.ofBytes_toBytes hfits]
    rfl
  | getWork w =>
    have hread := readBytes_eitherCase (b := w.toHeader) h 0 rest
    simp only [ofPayload, kind, hread, bind, Except.bind, WorkUnit.ofHeader_toHeader]
    rfl

/-! ## Lines -/

/-- A text spells a message if it has the tag of the message and the digits of its bytes, in either
case, with blanks before them and anything behind them. -/
def Spells (text : String) (m : Message) : Prop :=
  ∃ blanks digits rest : List Char, (∀ c ∈ blanks, Text.isBlank c = true) ∧
    List.Forall₂ EitherCase digits (Hex.encode m.payload) ∧
    text.toList = blanks ++ m.kind.tag ++ digits ++ rest

/-- The line that is written for a message spells it. -/
theorem spells_line (m : Message) : Spells m.line m := by
  refine ⟨[], Hex.encode m.payload, [], fun _ => nofun, ?_, ?_⟩
  · exact List.forall₂_same.mpr fun c _ => Or.inl rfl
  · rw [line, String.toList_ofList, List.nil_append, List.append_nil]

/-- A tag has no blanks. -/
theorem isBlank_tag (kind : MessageKind) : ∀ c ∈ kind.tag, Text.isBlank c = false := by
  have hall : kind.tag.all (fun c => !Text.isBlank c) = true := by cases kind <;> rfl
  intro c hc
  simpa using List.all_eq_true.mp hall c hc

/-- The kind of a text is found by its tag. -/
theorem splitTag_append (kind : MessageKind) (rest : List Char) :
    splitTag (kind.tag ++ rest) = some (kind, (String.ofList rest).toUTF8.toList) := by
  cases kind <;> rfl

/-- A line is trimmed down to its tag, its digits and what comes behind them. -/
theorem trim_append {kind : MessageKind} {blanks digits : List Char}
    (hblanks : ∀ c ∈ blanks, Text.isBlank c = true)
    (hdigits : ∀ c ∈ digits, Text.isBlank c = false) (rest : List Char) :
    Text.trim (blanks ++ kind.tag ++ digits ++ rest) =
      kind.tag ++ (digits ++ Text.trimEnd rest) := by
  have hword : ∀ c ∈ kind.tag ++ digits, Text.isBlank c = false := by
    intro c hc
    rcases List.mem_append.mp hc with htag | hdigit
    · exact isBlank_tag kind c htag
    · exact hdigits c hdigit
  have hstart : Text.trimStart (kind.tag ++ digits ++ rest) = kind.tag ++ digits ++ rest := by
    cases kind <;> rfl
  rw [Text.trim, List.append_assoc, List.append_assoc, Text.trimStart_append hblanks,
    ← List.append_assoc, hstart, Text.trimEnd_append hword, List.append_assoc]

/-- A line that spells a message is read as it. -/
theorem ofLine_of_spells {text : String} (hfits : m.Fits) (h : Spells text m) :
    ofLine text = .ok m.received := by
  obtain ⟨blanks, digits, rest, hblanks, hdigits, htext⟩ := h
  obtain ⟨hplain, -⟩ := Hex.decode_eitherCase hdigits
  rw [ofLine, htext, trim_append hblanks fun c hc => (hplain c hc).2, splitTag_append]
  dsimp only
  rw [Text.toList_toUTF8_append fun c hc => (hplain c hc).1]
  exact ofPayload_eitherCase hfits hdigits _

/-- A message that fits into its layout is read back from the line that is written for it. -/
theorem ofLine_line_of_fits (hfits : m.Fits) : ofLine m.line = .ok m.received :=
  ofLine_of_spells hfits m.spells_line

/-! ## What is read -/

/-- What goes well in two steps goes well in each. -/
theorem exists_of_bind_eq_ok {ε α β : Type} {x : Except ε α} {f : α → Except ε β} {b : β}
    (h : x >>= f = .ok b) : ∃ a, x = .ok a ∧ f a = .ok b := by
  cases x with
  | error e => cases h
  | ok a => exact ⟨a, rfl, h⟩

/-- A log that was read has no more records than its layout has slots. -/
theorem length_updates_ofBytes {b : Bytes logSize} {log : RideLog}
    (h : RideLog.ofBytes b = .ok log) : log.updates.length ≤ maxRecords := by
  unfold RideLog.ofBytes at h
  dsimp only at h
  split_ifs at h with hmany
  cases h
  rw [List.length_take]
  omega

/-- What is read fits into its layout and is read as itself. -/
theorem received_of_ofPayload {kind : MessageKind} (h : ofPayload digits kind = .ok m) :
    m.Fits ∧ m.received = m := by
  cases kind with
  | work =>
    obtain ⟨⟨unit, rest⟩, -, h⟩ := exists_of_bind_eq_ok h
    cases h
    exact ⟨trivial, rfl⟩
  | workAndProof =>
    obtain ⟨⟨unit, rest⟩, -, h⟩ := exists_of_bind_eq_ok h
    obtain ⟨⟨bytes, rest'⟩, -, h⟩ := exists_of_bind_eq_ok h
    obtain ⟨log, hlog, h⟩ := exists_of_bind_eq_ok h
    cases h
    exact ⟨length_updates_ofBytes hlog, rfl⟩
  | getWork =>
    obtain ⟨⟨header, rest⟩, -, h⟩ := exists_of_bind_eq_ok h
    cases h
    exact ⟨trivial, rfl⟩

/-- **The round trip of lines.** A line that spells a message is read as it, if the records that the
message carries fit into its layout; of a block header, only the block is kept. The line that is
written for such a message is read as it. And a message that was read from any line is read back,
as it is, from the line that is written for it. -/
theorem ofLine_line :
    (∀ (text : String) (m : Message), m.Fits → Spells text m → ofLine text = .ok m.received) ∧
    (∀ m : Message, m.Fits → ofLine m.line = .ok m.received) ∧
    ∀ (text : String) (m : Message), ofLine text = .ok m → ofLine m.line = .ok m := by
  refine ⟨fun text m hfits h => ofLine_of_spells hfits h, fun m hfits => ofLine_line_of_fits hfits,
    ?_⟩
  intro text m h
  unfold ofLine at h
  rcases hsplit : splitTag (Text.trim text.toList) with _ | ⟨kind, digits⟩
  · rw [hsplit] at h
    cases h
  · rw [hsplit] at h
    obtain ⟨hfits, hreceived⟩ := received_of_ofPayload h
    have hread := ofLine_line_of_fits hfits
    rwa [hreceived] at hread

/-- A line with blanks before it, all digits in upper case and an umlaut behind them. -/
theorem ofLine_line_upperCase :
    let m : Message := .workAndProof .zero ⟨7, 2, [19]⟩
    let text := String.ofList
      ([' ', '\u3000'] ++ m.kind.tag ++ (Hex.encode m.payload).map Char.toUpper ++ ['ü'])
    m.Fits ∧ Spells text m ∧ ofLine text = .ok m ∧ ofLine m.line = .ok m.received ∧
      ofLine m.line = .ok m := by
  intro m text
  have hfits : m.Fits := by
    show 1 ≤ maxRecords
    decide
  have hspells : Spells text m := by
    refine ⟨_, _, _, ?_, ?_, String.toList_ofList⟩
    · intro c hc
      rcases List.mem_pair.mp hc with rfl | rfl <;> rfl
    · apply List.forall₂_map_left_iff.mpr
      exact List.forall₂_same.mpr fun c _ => Or.inr rfl
  have hread := ofLine_line.1 text m hfits hspells
  exact ⟨hfits, hspells, hread, ofLine_line.2.1 m hfits, ofLine_line.2.2 text m hread⟩

end Message

end RideProof
