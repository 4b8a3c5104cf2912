import RideProof.Proofs.Lines

/-!
# The first fault of a line

A line is refused for the first thing that is wrong with it: its tag, then for each record of bytes
that the payload has the number of its digits and then the digits themselves, and last the number
of log records that the payload declares. What stands behind the payload is never looked at.

* `Hex.IsDigit` — the bytes that are digits; `Hex.isSome_decode_iff`, the digits that stand for
  bytes.
* `Message.recordFault`, `Message.firstFault` — the faults of digits, by their places.
* `Message.readBytes_of_fault`, `Message.readBytes_of_no_fault` — a record of bytes is read exactly
  if its digits have no fault.
* `Message.ofLine_faults` — the verdict on every line.
-/

namespace RideProof

/-! ## Digits -/

namespace Hex

variable {ds : List UInt8} {bytes : List UInt8}

/-- A byte is the ASCII code of a hexadecimal digit: `0` to `9`, `A` to `F` or `a` to `f`. -/
def IsDigit (b : UInt8) : Prop :=
  (48 ≤ b.toNat ∧ b.toNat ≤ 57) ∨ (65 ≤ b.toNat ∧ b.toNat ≤ 70) ∨ (97 ≤ b.toNat ∧ b.toNat ≤ 102)

/-- Whether a byte is a digit can be decided. -/
instance : DecidablePred IsDigit := fun b => by
  unfold IsDigit
  infer_instance

/-- A test of every byte says that all of them are digits. -/
theorem all_isDigit_iff : ds.all (fun d => decide (IsDigit d)) ↔ ∀ d ∈ ds, IsDigit d := by
  simp only [List.all_eq_true, decide_eq_true_iff]

/-- A byte has a value as a digit exactly if it is one. -/
theorem isSome_digitValue_iff {b : UInt8} : (digitValue b).isSome ↔ IsDigit b := by
  unfold digitValue IsDigit
  dsimp only
  split_ifs <;> simp <;> omega

/-- An even number of bytes stands for bytes exactly if all of them are digits. -/
theorem isSome_decode_iff {n : Nat} (h : ds.length = 2 * n) :
    (decode ds).isSome ↔ ∀ d ∈ ds, IsDigit d := by
  induction n generalizing ds with
  | zero =>
    obtain rfl := List.length_eq_zero_iff.mp h
    simp [decode]
  | succ n ih =>
    rcases ds with _ | ⟨a, _ | ⟨b, rest⟩⟩
    · simp at h
    · simp only [List.length_cons, List.length_nil] at h
      omega
    · have hrest : rest.length = 2 * n := by simp only [List.length_cons] at h; omega
      rw [List.forall_mem_cons, List.forall_mem_cons, ← ih hrest, ← isSome_digitValue_iff,
        ← isSome_digitValue_iff, decode]
      rcases digitValue a with _ | high <;> rcases digitValue b with _ | low <;>
        rcases decode rest with _ | bytes <;> simp

/-- What two digits and more stand for: the byte of the two and the bytes of the others. -/
theorem decode_cons_cons {a b : UInt8} (h : decode (a :: b :: ds) = some bytes) :
    ∃ byte rest, bytes = byte :: rest ∧ decode ds = some rest ∧
      ∀ ds' rest', decode ds' = some rest' → decode (a :: b :: ds') = some (byte :: rest') := by
  rw [decode] at h
  split at h
  · rename_i high low rest hhigh hlow hrest
    refine ⟨_, rest, (Option.some.inj h).symm, hrest, ?_⟩
    intro ds' rest' h'
    simp only [decode, hhigh, hlow, h']
  · cases h

/-- Two digits stand for each byte. -/
theorem length_of_decode (h : decode ds = some bytes) : ds.length = 2 * bytes.length := by
  induction bytes generalizing ds with
  | nil =>
    rcases ds with _ | ⟨a, _ | ⟨b, rest⟩⟩
    · rfl
    · cases h
    · obtain ⟨byte, bytes', heq, -⟩ := decode_cons_cons h
      cases heq
  | cons byte bytes ih =>
    rcases ds with _ | ⟨a, _ | ⟨b, rest⟩⟩
    · cases h
    · cases h
    · obtain ⟨byte', bytes', heq, hrest, -⟩ := decode_cons_cons h
      obtain ⟨rfl, rfl⟩ := List.cons.inj heq
      simp only [List.length_cons, ih hrest]
      omega

/-- Digits behind other digits stand for bytes behind their bytes. -/
theorem decode_drop (h : decode ds = some bytes) (k : Nat) :
    decode (ds.drop (2 * k)) = some (bytes.drop k) := by
  induction k generalizing ds bytes with
  | zero => simpa using h
  | succ k ih =>
    rcases ds with _ | ⟨a, _ | ⟨b, rest⟩⟩
    · cases h
      simp [decode]
    · cases h
    · obtain ⟨byte, bytes', rfl, hrest, -⟩ := decode_cons_cons h
      simpa [Nat.mul_add] using ih hrest

/-- Digits before other digits stand for bytes before their bytes. -/
theorem decode_take (h : decode ds = some bytes) (k : Nat) :
    decode (ds.take (2 * k)) = some (bytes.take k) := by
  induction k generalizing ds bytes with
  | zero => simp [decode]
  | succ k ih =>
    rcases ds with _ | ⟨a, _ | ⟨b, rest⟩⟩
    · cases h
      simp [decode]
    · cases h
    · obtain ⟨byte, bytes', rfl, hrest, hcons⟩ := decode_cons_cons h
      simpa [Nat.mul_add] using hcons _ _ (ih hrest)

end Hex

/-! ## Records of bytes -/

/-- The number of digits of a kind of payload. -/
def MessageKind.digitCount : MessageKind → Nat
  | .work => 424
  | .getWork => 160
  | .workAndProof => 680

namespace Message

variable {p : List UInt8} {first n : Nat} {e : WireError}

/-- What is wrong with the `count` digits of a record that starts at digit `first` of a payload. -/
def recordFault (first count : Nat) (p : List UInt8) : Option WireError :=
  if p.length < first + count then some (.truncated (first + count) p.length)
  else if ((p.drop first).take count).all fun d => decide (Hex.IsDigit d) then none
  else some .invalidHex

/-- A record has no fault if its digits are all there and are digits. -/
theorem recordFault_eq_none : recordFault first n p = none ↔
    first + n ≤ p.length ∧ ∀ d ∈ (p.drop first).take n, Hex.IsDigit d := by
  rw [← Hex.all_isDigit_iff, recordFault]
  split_ifs with hshort hdigits
  · simp [Nat.not_le.mpr hshort]
  · simp [Nat.not_lt.mp hshort, hdigits]
  · simp [hdigits]

/-- A record with a fault is refused for it. -/
theorem readBytes_of_fault (hle : first ≤ p.length)
    (h : recordFault first (2 * n) p = some e) :
    readBytes n first (p.drop first) = .error e := by
  have hgot : first + (p.drop first).length = p.length := by
    rw [List.length_drop]
    omega
  rw [recordFault] at h
  split_ifs at h with hshort hdigits
  · cases h
    rw [readBytes, if_pos (by omega), hgot]
  · cases h
    have hlength : ((p.drop first).take (2 * n)).length = 2 * n := by
      rw [List.length_take]
      omega
    have hnone : Hex.decode ((p.drop first).take (2 * n)) = none := by
      rw [← Option.not_isSome_iff_eq_none, Hex.isSome_decode_iff hlength, ← Hex.all_isDigit_iff]
      exact hdigits
    rw [readBytes, if_neg (by omega), hnone]

/-- A record without a fault is read off its digits, and what follows is left. -/
theorem readBytes_of_no_fault (h : recordFault first (2 * n) p = none) :
    ∃ b : Bytes n, readBytes n first (p.drop first) = .ok (b, p.drop (first + 2 * n)) ∧
      Hex.decode ((p.drop first).take (2 * n)) = some b.toList := by
  obtain ⟨hlong, hdigits⟩ := recordFault_eq_none.mp h
  have henough : ¬ (p.drop first).length < 2 * n := by
    rw [List.length_drop]
    omega
  have hlength : ((p.drop first).take (2 * n)).length = 2 * n := by
    rw [List.length_take]
    omega
  obtain ⟨bytes, hbytes⟩ :=
    Option.isSome_iff_exists.mp ((Hex.isSome_decode_iff hlength).mpr hdigits)
  have hsize : bytes.toArray.size = n := by
    have := Hex.length_of_decode hbytes
    rw [List.size_toArray]
    omega
  refine ⟨⟨bytes.toArray, hsize⟩, ?_, hbytes⟩
  rw [readBytes, if_neg henough, hbytes]
  dsimp only
  rw [dif_pos hsize, List.drop_drop]

/-- What is behind the digits of a record does not matter to it. -/
theorem readBytes_append {q : List UInt8} (h : 2 * n ≤ q.length) (offset : Nat)
    (rest : List UInt8) :
    readBytes n offset (q ++ rest) =
      (readBytes n offset q).map fun r => (r.1, r.2 ++ rest) := by
  have henough : ¬ (q ++ rest).length < 2 * n := by
    rw [List.length_append]
    omega
  rw [readBytes, readBytes, if_neg henough, if_neg (by omega), List.take_append_of_le_length h,
    List.drop_append_of_le_length h]
  rcases Hex.decode (q.take (2 * n)) with _ | bytes
  · rfl
  · dsimp only
    split_ifs <;> rfl

/-! ## Payloads -/

variable {kind : MessageKind}

/-- The number of log records that the payload of a work unit with a log declares: a number of two
bytes, at the seventh and eighth byte of the log. -/
def declaredRecords (p : List UInt8) : Nat :=
  LittleEndian.value ((Hex.decode ((p.drop 436).take 4)).getD [])

/-- What is wrong with a payload, the first fault first. -/
def firstFault : MessageKind → List UInt8 → Option WireError
  | .work, p => recordFault 0 424 p
  | .getWork, p => recordFault 0 160 p
  | .workAndProof, p =>
    (recordFault 0 424 p).or <| (recordFault 424 256 p).or <|
      if 60 < declaredRecords p then some (.tooManyUpdates (declaredRecords p)) else none

/-- The count that a payload declares is the one in the bytes of its log. -/
theorem declaredRecords_eq {b : Bytes logSize}
    (h : Hex.decode ((p.drop 424).take 256) = some b.toList) :
    declaredRecords p = LittleEndian.value (b.slice 6 2 (by decide)).toList := by
  have hcount := Hex.decode_take (Hex.decode_drop h 6) 2
  rw [List.drop_take, List.drop_drop, List.take_take] at hcount
  rw [declaredRecords, Bytes.toList_slice]
  exact congrArg _ (congrArg (Option.getD · []) hcount)

/-- A log that declares too many records is refused for their count. -/
theorem ofBytes_of_many {b : Bytes logSize}
    (h : Hex.decode ((p.drop 424).take 256) = some b.toList) (hmany : 60 < declaredRecords p) :
    RideLog.ofBytes b = .error (.tooManyUpdates (declaredRecords p)) := by
  rw [declaredRecords_eq h] at hmany ⊢
  exact if_pos hmany

/-- A log that declares no more records than there is room for is read. -/
theorem exists_ofBytes_of_few {b : Bytes logSize}
    (h : Hex.decode ((p.drop 424).take 256) = some b.toList) (hfew : ¬ 60 < declaredRecords p) :
    ∃ log, RideLog.ofBytes b = .ok log := by
  rw [declaredRecords_eq h] at hfew
  exact ⟨_, if_neg hfew⟩

/-- A payload is refused for its first fault. -/
theorem ofPayload_of_fault (h : firstFault kind p = some e) : ofPayload p kind = .error e := by
  cases kind with
  | work =>
    have hread := readBytes_of_fault (n := workSize) (Nat.zero_le _) h
    rw [List.drop_zero] at hread
    rw [ofPayload, hread]
    rfl
  | getWork =>
    have hread := readBytes_of_fault (n := headerSize) (Nat.zero_le _) h
    rw [List.drop_zero] at hread
    rw [ofPayload, hread]
    rfl
  | workAndProof =>
    rw [firstFault] at h
    rcases hwork : recordFault 0 424 p with _ | fault
    · obtain ⟨unit, hunit, -⟩ := readBytes_of_no_fault (n := workSize) hwork
      rw [List.drop_zero] at hunit
      rw [hwork, Option.none_or] at h
      rcases hlog : recordFault 424 256 p with _ | fault
      · obtain ⟨log, hread, hdecode⟩ := readBytes_of_no_fault (n := logSize) hlog
        rw [hlog, Option.none_or] at h
        split_ifs at h with hmany
        cases h
        rw [ofPayload, hunit]
        show (readBytes logSize 424 (p.drop 424) >>= _) = _
        rw [hread]
        show (RideLog.ofBytes log >>= _) = _
        rw [ofBytes_of_many hdecode hmany]
        rfl
      · have hread := readBytes_of_fault (n := logSize) (recordFault_eq_none.mp hwork).1 hlog
        rw [hlog, Option.some_or] at h
        cases h
        rw [ofPayload, hunit]
        show (readBytes logSize 424 (p.drop 424) >>= _) = _
        rw [hread]
        rfl
    · have hread := readBytes_of_fault (n := workSize) (Nat.zero_le _) hwork
      rw [List.drop_zero] at hread
      rw [hwork, Option.some_or] at h
      cases h
      rw [ofPayload, hread]
      rfl

/-- A payload without a fault is read. -/
theorem ofPayload_of_no_fault (h : firstFault kind p = none) :
    ∃ m, ofPayload p kind = .ok m ∧ m.kind = kind := by
  cases kind with
  | work =>
    obtain ⟨unit, hread, -⟩ := readBytes_of_no_fault (n := workSize) h
    rw [List.drop_zero] at hread
    rw [ofPayload, hread]
    exact ⟨_, rfl, rfl⟩
  | getWork =>
    obtain ⟨header, hread, -⟩ := readBytes_of_no_fault (n := headerSize) h
    rw [List.drop_zero] at hread
    rw [ofPayload, hread]
    exact ⟨_, rfl, rfl⟩
  | workAndProof =>
    rw [firstFault, Option.or_eq_none_iff, Option.or_eq_none_iff] at h
    obtain ⟨hwork, hlog, hfew⟩ := h
    obtain ⟨unit, hunit, -⟩ := readBytes_of_no_fault (n := workSize) hwork
    obtain ⟨log, hread, hdecode⟩ := readBytes_of_no_fault (n := logSize) hlog
    rw [List.drop_zero] at hunit
    rw [ofPayload, hunit]
    show ∃ m, (readBytes logSize 424 (p.drop 424) >>= _) = _ ∧ _
    rw [hread]
    split_ifs at hfew with hmany
    obtain ⟨decoded, hdecoded⟩ := exists_ofBytes_of_few hdecode hmany
    show ∃ m, (RideLog.ofBytes log >>= _) = _ ∧ _
    rw [hdecoded]
    exact ⟨_, rfl, rfl⟩

/-- A payload is refused for its first fault and for nothing else. -/
theorem ofPayload_eq_error_iff : ofPayload p kind = .error e ↔ firstFault kind p = some e := by
  constructor
  · intro h
    rcases hfault : firstFault kind p with _ | e'
    · obtain ⟨m, hm, -⟩ := ofPayload_of_no_fault hfault
      rw [hm] at h
      cases h
    · rw [ofPayload_of_fault hfault] at h
      cases h
      rfl
  · exact ofPayload_of_fault

/-- A payload is read, as a message of its kind, exactly if it has no fault. -/
theorem exists_ofPayload_iff :
    (∃ m, ofPayload p kind = .ok m ∧ m.kind = kind) ↔ firstFault kind p = none := by
  constructor
  · rintro ⟨m, hm, -⟩
    rcases hfault : firstFault kind p with _ | e
    · rfl
    · rw [ofPayload_of_fault hfault] at hm
      cases hm
  · exact ofPayload_of_no_fault

/-- What is behind a payload does not matter. -/
theorem ofPayload_append {q : List UInt8} (h : q.length = kind.digitCount) (rest : List UInt8) :
    ofPayload (q ++ rest) kind = ofPayload q kind := by
  cases kind with
  | work =>
    rw [ofPayload, ofPayload, readBytes_append (Nat.le_of_eq h.symm)]
    rcases readBytes workSize 0 q with _ | _ <;> rfl
  | getWork =>
    rw [ofPayload, ofPayload, readBytes_append (Nat.le_of_eq h.symm)]
    rcases readBytes headerSize 0 q with _ | _ <;> rfl
  | workAndProof =>
    have hlength : q.length = 680 := h
    have hfirst : 2 * workSize ≤ q.length := by show 424 ≤ _; omega
    rw [ofPayload, ofPayload, readBytes_append hfirst]
    rcases hfault : recordFault 0 424 q with _ | e
    · obtain ⟨unit, hunit, -⟩ := readBytes_of_no_fault (n := workSize) hfault
      have hsecond : 2 * logSize ≤ (q.drop 424).length := by
        rw [List.length_drop]
        show 256 ≤ _
        omega
      rw [List.drop_zero] at hunit
      rw [hunit]
      show (readBytes logSize 424 (q.drop 424 ++ rest) >>= _) =
        (readBytes logSize 424 (q.drop 424) >>= _)
      rw [readBytes_append hsecond]
      rcases readBytes logSize 424 (q.drop 424) with _ | _ <;> rfl
    · have hunit := readBytes_of_fault (n := workSize) (Nat.zero_le _) hfault
      rw [List.drop_zero] at hunit
      rw [hunit]
      rfl

/-! ## Lines -/

/-- Without the blanks at its ends, a line is the tag of a kind and a text with the bytes `p`. -/
def Carries (line : String) (kind : MessageKind) (p : List UInt8) : Prop :=
  ∃ text, Text.trim line.toList = kind.tag ++ text ∧ p = (String.ofList text).toUTF8.toList

variable {line : String}

/-- A line is judged by the payload that it carries. -/
theorem ofLine_of_carries (h : Carries line kind p) : ofLine line = ofPayload p kind := by
  obtain ⟨text, htrim, rfl⟩ := h
  rw [ofLine, htrim, splitTag_append]

/-- A text has no tag if it starts with none. -/
theorem splitTag_eq_none_iff {text : List Char} :
    splitTag text = none ↔ ∀ kind : MessageKind, ¬ ∃ rest, text = kind.tag ++ rest := by
  have hkinds : ∀ kind : MessageKind, kind ∈ [MessageKind.workAndProof, .work, .getWork] := by
    intro kind
    cases kind <;> decide
  rw [splitTag, List.findSome?_eq_none_iff]
  constructor
  · intro h kind
    rintro ⟨rest, htext⟩
    have hnone := h kind (hkinds kind)
    rw [Option.map_eq_none_iff, Text.afterTag?_eq_some_iff.mpr htext] at hnone
    cases hnone
  · intro h kind _
    rw [Option.map_eq_none_iff, Option.eq_none_iff_forall_ne_some]
    exact fun rest hrest => h kind ⟨rest, Text.afterTag?_eq_some_iff.mp hrest⟩

/-- A payload is not refused for the tag, which stands before it. -/
theorem firstFault_ne_unknownTag : firstFault kind p ≠ some .unknownTag := by
  have hrecord (first count : Nat) : recordFault first count p ≠ some .unknownTag := by
    unfold recordFault
    split_ifs <;> simp
  cases kind with
  | work => exact hrecord 0 424
  | getWork => exact hrecord 0 160
  | workAndProof =>
    rw [firstFault]
    intro h
    rcases Option.or_eq_some_iff.mp h with h | ⟨-, h⟩
    · exact hrecord 0 424 h
    rcases Option.or_eq_some_iff.mp h with h | ⟨-, h⟩
    · exact hrecord 424 256 h
    split_ifs at h
    cases h

/-- **The verdict on a line.** A line is refused for its tag if it carries no payload. If it carries
one, it is refused for the first fault of the payload and read if there is none, and nothing behind
the payload matters. -/
theorem ofLine_faults :
    (∀ line, ofLine line = .error .unknownTag ↔ ∀ kind p, ¬ Carries line kind p) ∧
    (∀ line kind p, Carries line kind p →
      (∀ e, ofLine line = .error e ↔ firstFault kind p = some e) ∧
      ((∃ m, ofLine line = .ok m ∧ m.kind = kind) ↔ firstFault kind p = none)) ∧
    ∀ line line' kind p rest rest', Carries line kind (p ++ rest) →
      Carries line' kind (p ++ rest') → p.length = kind.digitCount →
      ofLine line = ofLine line' := by
  refine ⟨?_, ?_, ?_⟩
  · intro line
    constructor
    · intro h kind p hline
      rw [ofLine_of_carries hline, ofPayload_eq_error_iff] at h
      exact firstFault_ne_unknownTag h
    · intro h
      have hnone : splitTag (Text.trim line.toList) = none :=
        splitTag_eq_none_iff.mpr fun kind ⟨text, htrim⟩ => h kind _ ⟨text, htrim, rfl⟩
      rw [ofLine, hnone]
  · intro line kind p hline
    rw [ofLine_of_carries hline]
    exact ⟨fun e => ofPayload_eq_error_iff, exists_ofPayload_iff⟩
  · intro line line' kind p rest rest' hline hline' hlength
    rw [ofLine_of_carries hline, ofLine_of_carries hline', ofPayload_append hlength,
      ofPayload_append hlength]

/-- A tag before digits and a rest carries the digits and the bytes of the rest. -/
theorem carries_ofList {digits : List Char}
    (h : ∀ c ∈ digits, c.toNat < 128 ∧ Text.isBlank c = false) (rest : List Char) :
    Carries (String.ofList (kind.tag ++ digits ++ rest)) kind
      (digits.map Hex.asciiByte ++ (String.ofList (Text.trimEnd rest)).toUTF8.toList) := by
  refine ⟨digits ++ Text.trimEnd rest, ?_, ?_⟩
  · rw [String.toList_ofList]
    exact trim_append (List.forall_mem_nil _) (fun c hc => (h c hc).2) rest
  · exact (Text.toList_toUTF8_append (fun c hc => (h c hc).1) _).symm

/-- A line with umlauts that is too short, its bytes counted, and block headers that differ behind
their digits. -/
theorem ofLine_faults_umlauts :
    let short := String.ofList (MessageKind.work.tag ++ [] ++ ['ü', 'n', 'ï'])
    let header (rest : List Char) :=
      String.ofList (MessageKind.getWork.tag ++ List.replicate 160 '0' ++ rest)
    ofLine short = .error (.truncated 424 5) ∧
      (∃ m, ofLine (header []) = .ok m ∧ m.kind = .getWork) ∧
      ofLine (header []) = ofLine (header ['ü', ' ']) := by
  intro short header
  have hzeros : ∀ c ∈ List.replicate 160 '0', c.toNat < 128 ∧ Text.isBlank c = false := by
    intro c hc
    rw [List.eq_of_mem_replicate hc]
    decide
  have hshort : Carries short .work ([].map Hex.asciiByte ++ _) :=
    carries_ofList (List.forall_mem_nil _) ['ü', 'n', 'ï']
  have hheader (rest : List Char) : Carries (header rest) .getWork _ := carries_ofList hzeros rest
  refine ⟨?_, ?_, ?_⟩
  · refine ((ofLine_faults.2.1 _ _ _ hshort).1 _).mpr ?_
    rw [Text.toList_toUTF8]
    rfl
  · refine (ofLine_faults.2.1 _ _ _ (hheader [])).2.mpr (recordFault_eq_none.mpr ⟨?_, ?_⟩)
    · rw [List.length_append, List.length_map, List.length_replicate]
      exact Nat.le_add_right 160 _
    · intro d hd
      have hmem := List.mem_of_mem_take hd
      rw [List.drop_zero, List.map_replicate, Text.toList_toUTF8] at hmem
      rcases List.mem_append.mp hmem with hzero | hempty
      · rw [List.eq_of_mem_replicate hzero]
        decide
      · cases hempty
  · have hlength : ((List.replicate 160 '0').map Hex.asciiByte).length = 160 := by
      rw [List.length_map, List.length_replicate]
    exact ofLine_faults.2.2 _ _ _ _ _ _ (hheader []) (hheader ['ü', ' ']) hlength

end Message

end RideProof
