import RideProof.Proofs.Lines
import Mathlib.Data.List.TakeWhile

/-!
# Texts that are stored as messages

A message has room for 127 bytes and a NUL. Of a longer text the first 127 bytes are stored, and
they may end inside a character. A reader takes the bytes before the first NUL and reads what is no
character as the replacement character. So a text is read back up to where the room or the text
before its first NUL ends; only a character that the room ends in is read as another one.

* `Text.Completes` — bytes that are read as one character, the last of them and not before;
  `Text.completes_utf8EncodeChar`, that those of each character are.
* `Text.kept`, `Text.splits` — what fits of a text, and whether a cut goes through a character;
  `Text.decodeFrom_take_flatMap`, that the reader finds both.
* `Storable`, `LongestStorable`, `SplitsBehind` — the same, said of the text alone.
* `WorkUnit.messageText_setMessage` — what is read of a text that was stored.
-/

namespace RideProof

namespace Text

open String (utf8EncodeChar)

variable {c : Char} {b : UInt8} {bs : List UInt8} {begun : Option Pending} {u v k : Nat}

/-! ## Characters byte by byte -/

/-- The bytes complete the character `c`, which is perhaps begun, with the last of them and not
before. -/
inductive Completes (c : Char) : List UInt8 → Option Pending → Prop
  /-- One byte is left. -/
  | last {b : UInt8} {begun : Option Pending} (h : feed b begun = ([c], none)) :
    Completes c [b] begun
  /-- After this byte, others are left. -/
  | more {b : UInt8} {bs : List UInt8} {begun : Option Pending} {p : Pending}
    (h : feed b begun = ([], some p)) (rest : Completes c bs (some p)) : Completes c (b :: bs) begun

/-- A completed character is read, and then what comes behind it. -/
theorem Completes.decodeFrom_append (h : Completes c bs begun) (rest : List UInt8) :
    decodeFrom (bs ++ rest) begun = c :: decodeFrom rest none := by
  induction h with
  | last hfeed => simp [decodeFrom, hfeed]
  | more hfeed _ ih => simp [decodeFrom, hfeed, ih]

/-- A character that is begun and not completed is read as the replacement character. -/
theorem Completes.decodeFrom_take (h : Completes c bs begun) (hk : k < bs.length)
    (hbegun : begun = none → 0 < k) : decodeFrom (bs.take k) begun = [replacement] := by
  induction h generalizing k with
  | @last b begun hfeed =>
    obtain rfl : k = 0 := by simpa using hk
    cases begun with
    | none => exact absurd (hbegun rfl) (Nat.lt_irrefl 0)
    | some p => rfl
  | @more b bs begun p hfeed _ ih =>
    cases k with
    | zero =>
      cases begun with
      | none => exact absurd (hbegun rfl) (Nat.lt_irrefl 0)
      | some p => rfl
    | succ k =>
      have hrest := ih (Nat.lt_of_succ_lt_succ hk) nofun
      rw [List.take_succ_cons, decodeFrom, hfeed]
      simpa using hrest

/-! ## First bytes and continuation bytes -/

/-- The continuation byte with the last six bits of a number. -/
def continuation (v : Nat) : UInt8 := UInt8.ofNat (v % 64 + 128)

/-- A continuation byte holds six bits. -/
theorem toNat_continuation (v : Nat) : (continuation v).toNat = v % 64 + 128 := by
  rw [continuation, UInt8.toNat_ofNat', Nat.mod_eq_of_lt (by omega)]

/-- A continuation byte lies between two bytes if its number does. -/
theorem within_continuation {low high : UInt8} (hlow : low.toNat ≤ v % 64 + 128)
    (hhigh : v % 64 + 128 ≤ high.toNat) : low ≤ continuation v ∧ continuation v ≤ high := by
  rw [UInt8.le_iff_toNat_le, UInt8.le_iff_toNat_le, toNat_continuation]
  exact ⟨hlow, hhigh⟩

/-- The last continuation byte of the character `v`. -/
theorem completes_last {low high : UInt8} (hlow : low.toNat ≤ v % 64 + 128)
    (hhigh : v % 64 + 128 ≤ high.toNat) :
    Completes (Char.ofNat v) [continuation v] (some ⟨0, low, high, v / 64⟩) := by
  have hbits : v / 64 * 64 + (v % 64 + 128) % 64 = v := by omega
  apply Completes.last
  rw [feed, if_pos (within_continuation hlow hhigh), toNat_continuation, hbits]

/-- A continuation byte before others, with the bits of `u`. -/
theorem Completes.cons {low high : UInt8} {more : Nat} (hlow : low.toNat ≤ u % 64 + 128)
    (hhigh : u % 64 + 128 ≤ high.toNat) (h : Completes c bs (some ⟨more, 0x80, 0xBF, u⟩)) :
    Completes c (continuation u :: bs) (some ⟨more + 1, low, high, u / 64⟩) := by
  have hbits : u / 64 * 64 + (u % 64 + 128) % 64 = u := by omega
  refine Completes.more ?_ h
  rw [feed, if_pos (within_continuation hlow hhigh), toNat_continuation, hbits]

/-- The first byte of a character of two bytes. -/
theorem feed_lead_two (hlow : 0xC2 ≤ b.toNat) (hhigh : b.toNat < 0xE0) :
    feed b none = ([], some ⟨0, 0x80, 0xBF, b.toNat % 32⟩) := by
  unfold feed startWith Lead.of
  dsimp only
  rw [if_neg (by omega), if_neg (by omega), if_pos hhigh]

/-- The first byte of a character of three bytes; the range of the next byte rules out shorter
characters and surrogates. -/
theorem feed_lead_three (hlow : 0xE0 ≤ b.toNat) (hhigh : b.toNat < 0xF0) :
    feed b none = ([], some ⟨1, if b.toNat = 0xE0 then 0xA0 else 0x80,
      if b.toNat = 0xED then 0x9F else 0xBF, b.toNat % 16⟩) := by
  have hlead : Lead.of b = .pending ⟨1, if b.toNat = 0xE0 then 0xA0 else 0x80,
      if b.toNat = 0xED then 0x9F else 0xBF, b.toNat % 16⟩ := by
    unfold Lead.of
    dsimp only
    rw [if_neg (by omega), if_neg (by omega), if_neg (by omega)]
    by_cases hfirst : b.toNat = 0xE0
    · rw [if_pos hfirst, if_pos hfirst, if_neg (by omega)]
    · rw [if_neg hfirst, if_neg hfirst, if_pos hhigh]
      split_ifs <;> rfl
  rw [feed, startWith, hlead]

/-- The first byte of a character of four bytes; the range of the next byte rules out shorter
characters and numbers that are too great. -/
theorem feed_lead_four (hlow : 0xF0 ≤ b.toNat) (hhigh : b.toNat ≤ 0xF4) :
    feed b none = ([], some ⟨2, if b.toNat = 0xF0 then 0x90 else 0x80,
      if b.toNat = 0xF4 then 0x8F else 0xBF, b.toNat % 8⟩) := by
  have hlead : Lead.of b = .pending ⟨2, if b.toNat = 0xF0 then 0x90 else 0x80,
      if b.toNat = 0xF4 then 0x8F else 0xBF, b.toNat % 8⟩ := by
    unfold Lead.of
    dsimp only
    rw [if_neg (by omega), if_neg (by omega), if_neg (by omega), if_neg (by omega),
      if_neg (by omega), if_neg (by omega)]
    by_cases hlast : b.toNat = 0xF4
    · rw [if_neg (by omega), if_neg (by omega), if_pos hlast, if_neg (by omega), if_pos hlast]
    · rw [if_neg hlast, if_pos (show b.toNat < 0xF4 by omega)]
      split_ifs <;> rfl
  rw [feed, startWith, hlead]

/-! ## Whole characters -/

/-- One byte completes a character up to 127. -/
theorem completes_one (h : v ≤ 127) : Completes (Char.ofNat v) [UInt8.ofNat v] none := by
  have hbyte : (UInt8.ofNat v).toNat = v := by
    rw [UInt8.toNat_ofNat', Nat.mod_eq_of_lt (by omega)]
  apply Completes.last
  unfold feed startWith Lead.of
  rw [hbyte]
  dsimp only
  rw [if_pos (by omega)]

/-- Two bytes complete a character from 128 to 2047. -/
theorem completes_two (hlow : 127 < v) (hhigh : v ≤ 2047) :
    Completes (Char.ofNat v) [UInt8.ofNat (v / 64 % 32 + 192), continuation v] none := by
  have hbyte : (UInt8.ofNat (v / 64 % 32 + 192)).toNat = v / 64 + 192 := by
    rw [UInt8.toNat_ofNat']
    omega
  have hbits : (v / 64 + 192) % 32 = v / 64 := by omega
  have hfeed := feed_lead_two (b := UInt8.ofNat (v / 64 % 32 + 192)) (by omega) (by omega)
  rw [hbyte, hbits] at hfeed
  exact .more hfeed (completes_last (by show 128 ≤ _; omega) (by show _ ≤ 191; omega))

/-- Three bytes complete a character from 2048 to 65535 that is no half of a pair. -/
theorem completes_three (hlow : 2047 < v) (hhigh : v ≤ 65535)
    (hvalid : v < 0xD800 ∨ 0xDFFF < v) :
    Completes (Char.ofNat v)
      [UInt8.ofNat (v / 4096 % 16 + 224), continuation (v / 64), continuation v] none := by
  have hbyte : (UInt8.ofNat (v / 4096 % 16 + 224)).toNat = v / 64 / 64 + 224 := by
    rw [UInt8.toNat_ofNat']
    omega
  have hbits : (v / 64 / 64 + 224) % 16 = v / 64 / 64 := by omega
  have hfeed := feed_lead_three (b := UInt8.ofNat (v / 4096 % 16 + 224)) (by omega) (by omega)
  rw [hbyte, hbits] at hfeed
  refine .more hfeed (.cons ?_ ?_
    (completes_last (by show 128 ≤ _; omega) (by show _ ≤ 191; omega)))
  · split_ifs
    · show 160 ≤ _
      omega
    · show 128 ≤ _
      omega
  · split_ifs
    · show _ ≤ 159
      omega
    · show _ ≤ 191
      omega

/-- Four bytes complete a character beyond 65535. -/
theorem completes_four (hlow : 65535 < v) (hhigh : v < 0x110000) :
    Completes (Char.ofNat v)
      [UInt8.ofNat (v / 262144 % 8 + 240), continuation (v / 4096), continuation (v / 64),
        continuation v] none := by
  have hdiv : v / 4096 = v / 64 / 64 := by omega
  have hbyte : (UInt8.ofNat (v / 262144 % 8 + 240)).toNat = v / 64 / 64 / 64 + 240 := by
    rw [UInt8.toNat_ofNat']
    omega
  have hbits : (v / 64 / 64 / 64 + 240) % 8 = v / 64 / 64 / 64 := by omega
  have hfeed := feed_lead_four (b := UInt8.ofNat (v / 262144 % 8 + 240)) (by omega) (by omega)
  rw [hbyte, hbits] at hfeed
  rw [hdiv]
  refine .more hfeed (.cons ?_ ?_ (.cons (by show 128 ≤ _; omega) (by show _ ≤ 191; omega)
    (completes_last (by show 128 ≤ _; omega) (by show _ ≤ 191; omega))))
  · split_ifs
    · show 144 ≤ _
      omega
    · show 128 ≤ _
      omega
  · split_ifs
    · show _ ≤ 143
      omega
    · show _ ≤ 191
      omega

/-- The bytes of a character complete it. -/
theorem completes_utf8EncodeChar (c : Char) : Completes c (utf8EncodeChar c) none := by
  have hchar : Char.ofNat c.val.toNat = c := Char.ofNat_toNat c
  have hvalid : c.val.toNat < 0xD800 ∨ 0xDFFF < c.val.toNat ∧ c.val.toNat < 0x110000 := c.valid
  have htotal : c.val.toNat < 0x110000 := by omega
  conv => arg 1; rw [← hchar]
  -- the four lengths of an encoding
  unfold utf8EncodeChar
  dsimp only
  split_ifs with hone htwo hthree
  · exact completes_one hone
  · exact completes_two (by omega) htwo
  · exact completes_three (by omega) hthree (hvalid.imp_right And.left)
  · exact completes_four (by omega) htotal

/-! ## Texts that are cut -/

variable {cs start rest : List Char} {n : Nat}

/-- Of the characters of a text, those up to the first NUL that fit into `n` bytes together. -/
def kept (n : Nat) : List Char → List Char
  | [] => []
  | c :: cs =>
    if c = '\x00' then []
    else if c.utf8Size ≤ n then c :: kept (n - c.utf8Size) cs
    else []

/-- Whether a text that is cut after `n` bytes is cut inside a character, before any NUL. -/
def splits (n : Nat) : List Char → Bool
  | [] => false
  | c :: cs =>
    if c = '\x00' then false
    else if c.utf8Size ≤ n then splits (n - c.utf8Size) cs
    else decide (0 < n)

/-- Only the NUL character has a NUL byte. -/
theorem ne_zero_of_mem_utf8EncodeChar (hc : c ≠ '\x00') : ∀ b ∈ utf8EncodeChar c, b ≠ 0 := by
  have hpos : c.val.toNat ≠ 0 := by
    intro hzero
    exact hc (Char.ext (UInt32.toNat_inj.mp hzero))
  have hbyte (n : Nat) (hn : 0 < n % 256) : UInt8.ofNat n ≠ 0 := by
    intro hzero
    have hvalue := congrArg UInt8.toNat hzero
    rw [UInt8.toNat_ofNat'] at hvalue
    exact Nat.ne_of_gt hn hvalue
  unfold utf8EncodeChar
  dsimp only
  split_ifs with hone htwo hthree
  · simp only [List.mem_singleton, forall_eq]
    exact hbyte _ (by omega)
  · simp only [List.mem_cons, List.not_mem_nil, or_false, forall_eq_or_imp, forall_eq]
    exact ⟨hbyte _ (by omega), hbyte _ (by omega)⟩
  · simp only [List.mem_cons, List.not_mem_nil, or_false, forall_eq_or_imp, forall_eq]
    exact ⟨hbyte _ (by omega), hbyte _ (by omega), hbyte _ (by omega)⟩
  · simp only [List.mem_cons, List.not_mem_nil, or_false, forall_eq_or_imp, forall_eq]
    exact ⟨hbyte _ (by omega), hbyte _ (by omega), hbyte _ (by omega), hbyte _ (by omega)⟩

/-- Reading the bytes of a text that is cut: a character that the cut goes through is read as the
replacement character. -/
theorem decodeFrom_take_flatMap (n : Nat) (cs : List Char) :
    decodeFrom (((cs.flatMap utf8EncodeChar).take n).takeWhile (· ≠ 0)) none =
      kept n cs ++ if splits n cs then [replacement] else [] := by
  induction cs generalizing n with
  | nil => simp [decodeFrom, kept, splits]
  | cons c cs ih =>
    rw [List.flatMap_cons, kept, splits]
    by_cases hnul : c = '\x00'
    · subst hnul
      cases n <;> simp [utf8EncodeChar, decodeFrom]
    have hlength : (utf8EncodeChar c).length = c.utf8Size := String.length_utf8EncodeChar c
    have hbytes : ∀ b ∈ utf8EncodeChar c, decide (b ≠ 0) = true := fun b hb =>
      decide_eq_true (ne_zero_of_mem_utf8EncodeChar hnul b hb)
    rw [if_neg hnul, if_neg hnul]
    -- either all bytes of the character are in front of the cut, or only some of them
    by_cases hfits : c.utf8Size ≤ n
    · rw [if_pos hfits, if_pos hfits, List.take_append, List.take_of_length_le (by omega), hlength,
        List.takeWhile_append_of_pos hbytes, (completes_utf8EncodeChar c).decodeFrom_append, ih,
        List.cons_append]
    · rw [if_neg hfits, if_neg hfits, List.take_append_of_le_length (by omega),
        List.takeWhile_eq_self_iff.mpr fun b hb => hbytes b (List.mem_of_mem_take hb)]
      cases n with
      | zero => simp [decodeFrom]
      | succ n =>
        rw [(completes_utf8EncodeChar c).decodeFrom_take (by omega) fun _ => Nat.succ_pos n]
        simp

/-! ## What fits -/

/-- The number of bytes of characters. -/
theorem utf8ByteSize_cons (c : Char) (cs : List Char) :
    (String.ofList (c :: cs)).utf8ByteSize = c.utf8Size + (String.ofList cs).utf8ByteSize := by
  rw [String.ofList_cons, String.utf8ByteSize_append, String.utf8ByteSize_singleton]

/-- What is kept of a text stands at its start. -/
theorem kept_prefix (n : Nat) (cs : List Char) : kept n cs <+: cs := by
  induction cs generalizing n with
  | nil => exact List.nil_prefix
  | cons c cs ih =>
    rw [kept]
    split_ifs
    · exact List.nil_prefix
    · exact List.cons_prefix_cons.mpr ⟨rfl, ih _⟩
    · exact List.nil_prefix

/-- What is kept of a text has no NUL. -/
theorem not_mem_kept (n : Nat) (cs : List Char) : '\x00' ∉ kept n cs := by
  induction cs generalizing n with
  | nil => exact List.not_mem_nil
  | cons c cs ih =>
    rw [kept]
    split_ifs with hnul
    · exact List.not_mem_nil
    · exact List.not_mem_cons_of_ne_of_not_mem (Ne.symm hnul) (ih _)
    · exact List.not_mem_nil

/-- What is kept of a text has no more bytes than there is room for. -/
theorem utf8ByteSize_kept_le (n : Nat) (cs : List Char) :
    (String.ofList (kept n cs)).utf8ByteSize ≤ n := by
  induction cs generalizing n with
  | nil => exact Nat.zero_le n
  | cons c cs ih =>
    rw [kept]
    split_ifs with hnul hfits
    · exact Nat.zero_le n
    · have hrest := ih (n - c.utf8Size)
      rw [utf8ByteSize_cons]
      omega
    · exact Nat.zero_le n

/-- What is kept is the longest start that could be. -/
theorem prefix_kept (hstart : start <+: cs) (hnul : '\x00' ∉ start)
    (hfits : (String.ofList start).utf8ByteSize ≤ n) : start <+: kept n cs := by
  induction cs generalizing n start with
  | nil => exact hstart
  | cons c cs ih =>
    cases start with
    | nil => exact List.nil_prefix
    | cons d ds =>
      obtain ⟨rfl, hds⟩ := List.cons_prefix_cons.mp hstart
      have hd := List.ne_of_not_mem_cons hnul
      have hrest := List.not_mem_of_not_mem_cons hnul
      rw [utf8ByteSize_cons] at hfits
      rw [kept, if_neg (Ne.symm hd), if_pos (by omega)]
      exact List.cons_prefix_cons.mpr ⟨rfl, ih hds hrest (by omega)⟩

/-- A text is split if it goes on behind what is kept, and there is room for a byte. -/
theorem splits_iff : splits n cs = true ↔ ∃ d rest, cs = kept n cs ++ d :: rest ∧ d ≠ '\x00' ∧
    (String.ofList (kept n cs)).utf8ByteSize < n := by
  induction cs generalizing n with
  | nil => simp [splits]
  | cons c cs ih =>
    rw [kept, splits]
    by_cases hnul : c = '\x00'
    · rw [if_pos hnul, if_pos hnul]
      simp [hnul]
    rw [if_neg hnul, if_neg hnul]
    by_cases hfits : c.utf8Size ≤ n
    · rw [if_pos hfits, if_pos hfits, ih, utf8ByteSize_cons]
      simp only [List.cons_append, List.cons.injEq, true_and, Nat.lt_sub_iff_add_lt']
    · rw [if_neg hfits, if_neg hfits]
      simp [hnul]

end Text

/-! ## Messages -/

/-- A start of a text that a message has room for: up to 127 bytes without a NUL. -/
structure Storable (text start : String) : Prop where
  /-- The text starts with it. -/
  starts : start.toList <+: text.toList
  /-- It has no NUL. -/
  noNul : '\x00' ∉ start.toList
  /-- It leaves room for one. -/
  fits : start.utf8ByteSize ≤ 127

/-- The longest start of a text that a message has room for. -/
structure LongestStorable (text kept : String) : Prop extends Storable text kept where
  /-- The others are starts of it. -/
  longest : ∀ start, Storable text start → start.toList <+: kept.toList

/-- Behind what is kept of a text, the next character has room for some of its bytes. -/
def SplitsBehind (text kept : String) : Prop :=
  ∃ c rest, text.toList = kept.toList ++ c :: rest ∧ c ≠ '\x00' ∧ kept.utf8ByteSize < 127

/-- What is kept of a text is the longest start of it that there is room for. -/
theorem longestStorable_kept (text : String) :
    LongestStorable text (String.ofList (Text.kept 127 text.toList)) where
  starts := by
    rw [String.toList_ofList]
    exact Text.kept_prefix 127 text.toList
  noNul := by
    rw [String.toList_ofList]
    exact Text.not_mem_kept 127 text.toList
  fits := Text.utf8ByteSize_kept_le 127 text.toList
  longest start h := by
    have hfits := h.fits
    rw [← String.ofList_toList (s := start)] at hfits
    rw [String.toList_ofList]
    exact Text.prefix_kept h.starts h.noNul hfits

/-- The cut behind what is kept goes through a character exactly if the next one has room for some
of its bytes. -/
theorem splitsBehind_kept_iff (text : String) :
    SplitsBehind text (String.ofList (Text.kept 127 text.toList)) ↔
      Text.splits 127 text.toList = true := by
  rw [Text.splits_iff, SplitsBehind, String.toList_ofList]

namespace WorkUnit

/-- The NUL bytes that fill up a message are not read. -/
theorem takeWhile_message {bytes : List UInt8} (h : bytes.length ≤ messageSize) :
    (Vector.ofFn fun i : Fin messageSize => bytes.getD i.val 0).toList.takeWhile (· ≠ 0) =
      bytes.takeWhile (· ≠ 0) := by
  have hfilled : (Vector.ofFn fun i : Fin messageSize => bytes.getD i.val 0).toList =
      bytes ++ List.replicate (messageSize - bytes.length) 0 := by
    apply List.ext_getElem
    · rw [Vector.length_toList, List.length_append, List.length_replicate]
      omega
    · intro i hi _
      rw [Vector.getElem_toList, Vector.getElem_ofFn, List.getElem_append]
      split_ifs with hbyte
      · exact List.getD_eq_getElem _ _ hbyte
      · rw [List.getElem_replicate]
        exact List.getD_eq_default _ _ (Nat.le_of_not_lt hbyte)
  have hzeros :
      (List.replicate (messageSize - bytes.length) (0 : UInt8)).takeWhile (· ≠ 0) = [] := by
    simp
  rw [hfilled, List.takeWhile_append, hzeros, List.append_nil]
  split_ifs with hall
  · exact ((List.takeWhile_prefix _).eq_of_length hall).symm
  · rfl

/-- What is read of a text that was stored. -/
theorem messageText_eq (w : WorkUnit) (text : String) :
    (w.setMessage text).messageText = String.ofList (Text.kept 127 text.toList ++
      if Text.splits 127 text.toList then [Text.replacement] else []) := by
  have hbytes : text.toUTF8.toList = text.toList.flatMap String.utf8EncodeChar := by
    rw [← Text.toList_toUTF8, String.ofList_toList]
  rw [messageText, setMessage, hbytes, takeWhile_message, Text.decodeLossy]
  · exact congrArg String.ofList (Text.decodeFrom_take_flatMap 127 text.toList)
  · rw [List.length_take]
    exact Nat.le_trans (Nat.min_le_left _ _) (Nat.sub_le _ _)

/-- **What is read of a text that was stored.** It is the longest start of the text that the
message has room for, unless the text goes on there with a character of which some bytes still have
room. Their place is then taken by a replacement character, which the text need not have. -/
theorem messageText_setMessage (w : WorkUnit) (text : String) :
    ∃ kept : String, LongestStorable text kept ∧
      ((w.setMessage text).messageText = kept ↔ ¬ SplitsBehind text kept) ∧
      (SplitsBehind text kept → (w.setMessage text).messageText = kept ++ "\uFFFD") := by
  refine ⟨_, longestStorable_kept text, ?_⟩
  rw [splitsBehind_kept_iff, messageText_eq]
  cases Text.splits 127 text.toList with
  | false => simp
  | true =>
    refine ⟨⟨?_, fun h => absurd rfl h⟩, fun _ => String.ofList_append⟩
    intro hkept
    simpa using String.ofList_injective hkept

/-- An umlaut of two bytes behind 126 letters is read as another character. -/
theorem messageText_setMessage_umlaut :
    let text := String.ofList (List.replicate 126 'a' ++ ['ü'])
    (zero.setMessage text).messageText = String.ofList (List.replicate 126 'a' ++ ['\uFFFD']) ∧
      ¬ (zero.setMessage text).messageText.toList <+: text.toList := by
  intro text
  have hread : (zero.setMessage text).messageText =
      String.ofList (List.replicate 126 'a' ++ ['\uFFFD']) := by
    rw [messageText_eq, String.toList_ofList]
    decide +kernel
  refine ⟨hread, ?_⟩
  rw [hread, String.toList_ofList, String.toList_ofList]
  decide

end WorkUnit

end RideProof
