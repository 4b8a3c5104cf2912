import Mathlib.Data.List.TakeWhile
import Mathlib.Tactic.SplitIfs
import RideProof.Proofs.Records

/-!
# Writing and cutting a log

What recording a control and cutting the log do to the controls that the log stands for.

* `packRecord_delta`, `packRecord_control` — a packed record reads back.
* `RideLog.WrittenUpTo` — a log that was written before tick `n`: it is well formed as the log of a
  ride of `n` ticks.
* `RideLog.FilledFrom.pushMany` — fillers change no control, however many of them find room.
* `RideLog.WrittenUpTo.record` — recording at tick `n` leaves the controls of earlier ticks alone,
  and gives tick `n` the control asked for, or the last one if it is refused.
* `RideLog.records_truncate`, `RideLog.timeline_truncate`, `RideLog.WrittenUpTo.truncate` — cutting
  keeps the records and the controls before the cut.
-/

namespace RideProof

variable {rs : List Record} {r : Record} {t n m : Nat} {c : Control}

/-! ## Packed records -/

/-- The throttle position that a code stands for is in its lowest two bits. -/
theorem Accel.ofCode_add_mul (n k : Nat) : Accel.ofCode (4 * k + n) = Accel.ofCode n := by
  unfold ofCode
  rw [Nat.mul_add_mod]

/-- The code of a throttle position fits into two bits. -/
theorem Accel.code_lt (a : Accel) : a.code < 4 := by cases a <;> decide

/-- There are three codes of rotations. -/
theorem Rotation.code_lt (r : Rotation) : r.code < 3 := by cases r <;> decide

/-- A packed record is its ticks, its rotation and its throttle position, in this order of
weight. -/
theorem packRecord_toNat (hn : n ≤ fillerDelta) :
    (packRecord n c).toNat = n * 12 + c.rotation.code * 4 + c.accel.code := by
  have ha := c.accel.code_lt
  have hr := c.rotation.code_lt
  unfold fillerDelta at hn
  rw [packRecord, UInt16.toNat_ofNat', recordUnit]
  exact Nat.mod_eq_of_lt (by omega)

/-- A packed record carries the ticks that it was given. -/
theorem packRecord_delta (hn : n ≤ fillerDelta) : deltaOf (packRecord n c) = n := by
  have ha := c.accel.code_lt
  have hr := c.rotation.code_lt
  rw [deltaOf, packRecord_toNat hn, recordUnit]
  omega

/-- A packed record carries the control that it was given. -/
theorem packRecord_control (hn : n ≤ fillerDelta) : controlOf (packRecord n c) = c := by
  have ha := c.accel.code_lt
  have hr := c.rotation.code_lt
  have haccel : n * 12 + c.rotation.code * 4 + c.accel.code =
      4 * (3 * n + c.rotation.code) + c.accel.code := by omega
  have hrotation : (n * 12 + c.rotation.code * 4 + c.accel.code) % 12 / 4 = c.rotation.code := by
    omega
  rw [controlOf, packRecord_toNat hn, recordUnit, hrotation, haccel, Accel.ofCode_add_mul,
    Accel.ofCode_code, Rotation.ofCode_code]

/-! ## Records one after the other -/

/-- Records in front of others put them off by all their ticks. -/
theorem totalDelta_append (us vs : List UInt16) :
    totalDelta (us ++ vs) = totalDelta us + totalDelta vs := by
  induction us with
  | nil => exact (Nat.zero_add _).symm
  | cons u us ih => rw [List.cons_append, totalDelta, ih, totalDelta, Nat.add_assoc]

/-- Records behind others are read on from where the others end. -/
theorem recordsFrom_append (p : Nat) (us vs : List UInt16) :
    recordsFrom p (us ++ vs) = recordsFrom p us ++ recordsFrom (p + totalDelta us) vs := by
  induction us generalizing p with
  | nil => rfl
  | cons u us ih =>
      rw [List.cons_append, recordsFrom, ih, recordsFrom, List.cons_append, totalDelta,
        Nat.add_assoc]

/-- The first records of a log are read off its first words. -/
theorem recordsFrom_take (p k : Nat) (words : List UInt16) :
    recordsFrom p (words.take k) = (recordsFrom p words).take k := by
  induction words generalizing p k with
  | nil => simp [recordsFrom]
  | cons word words ih =>
      cases k with
      | zero => rfl
      | succ k => rw [List.take_succ_cons, recordsFrom, ih, recordsFrom, List.take_succ_cons]

/-- Of records in order, those from the first one at or behind a tick on lie there. -/
theorem le_position_of_mem_dropWhile (hle : rs.Pairwise fun r r' => r.position ≤ r'.position) :
    ∀ r ∈ rs.dropWhile fun r => decide (r.position < n), n ≤ r.position := by
  induction rs with
  | nil => exact fun r hr => absurd hr List.not_mem_nil
  | cons first rest ih =>
      rw [List.pairwise_cons] at hle
      by_cases hfirst : first.position < n
      · rw [List.dropWhile_cons, if_pos (decide_eq_true hfirst)]
        exact ih hle.2
      · rw [List.dropWhile_cons, if_neg (by simpa using hfirst)]
        intro r hr
        rcases List.mem_cons.mp hr with rfl | hr
        · exact Nat.not_lt.mp hfirst
        · exact Nat.le_trans (Nat.not_lt.mp hfirst) (hle.1 r hr)

/-- The first of effective records are effective. -/
theorem effective_append {before : Accel} {rs' : List Record} (h : Effective before (rs ++ rs')) :
    Effective before rs := by
  induction rs generalizing before with
  | nil => exact trivial
  | cons first rest ih => exact ⟨h.1, ih h.2⟩

/-- The throttle position after one more record. -/
theorem accelAt_concat (rs : List Record) (r : Record) (t : Nat) :
    accelAt (rs ++ [r]) t = if r.position ≤ t then r.control.accel else accelAt rs t := by
  unfold accelAt
  rw [List.filter_append]
  by_cases h : r.position ≤ t
  · simp [h]
  · simp [h]

/-- The rotation after one more record, which lies behind the others. -/
theorem rotationAt_concat (hlt : ∀ r' ∈ rs, r'.position < r.position) (t : Nat) :
    rotationAt (rs ++ [r]) t = if t = r.position then r.control.rotation else rotationAt rs t := by
  unfold rotationAt
  by_cases h : t = r.position
  · rw [find?_position_concat hlt (Nat.le_of_eq h.symm), if_pos h, if_pos h]
  · have hne : r.position ≠ t := fun heq => h heq.symm
    simp [List.find?_append, hne, h]

/-- Behind the last record there is no rotation. -/
theorem rotationAt_of_lt (h : ∀ r ∈ rs, r.position < t) : rotationAt rs t = .none := by
  have hnone : (rs.find? fun r => r.position == t) = none := by
    rw [List.find?_eq_none]
    intro r hr heq
    have := h r hr
    rw [beq_iff_eq] at heq
    omega
  rw [rotationAt, hnone]

namespace RideLog

variable {log log' : RideLog} {word : UInt16}

/-- The log with one more record, whether it has room for it or not. -/
def append (log : RideLog) (word : UInt16) : RideLog :=
  { log with updates := log.updates ++ [word] }

/-- One more word is one more record, as far behind the last as it says. -/
theorem records_append (log : RideLog) (word : UInt16) :
    (log.append word).records =
      log.records ++ [⟨log.lastPosition + deltaOf word, deltaOf word, controlOf word⟩] := by
  unfold records append lastPosition
  rw [recordsFrom_append, Nat.zero_add]
  rfl

/-- One more record moves the last position by its ticks. -/
theorem lastPosition_append (log : RideLog) (word : UInt16) :
    (log.append word).lastPosition = log.lastPosition + deltaOf word :=
  totalDelta_append log.updates [word]

/-- One more record gives the last throttle position. -/
theorem lastAccel_append (log : RideLog) (word : UInt16) :
    (log.append word).lastAccel = (controlOf word).accel := by
  simp [append, lastAccel]

/-- A log is full if it has all the records that there is room for. -/
theorem isFull_iff : log.isFull = true ↔ maxRecords ≤ log.updates.length := decide_eq_true_iff

/-- A record is pushed if there is room for it. -/
theorem push_of_lt (h : log.updates.length < maxRecords) (word : UInt16) :
    log.push word = (log.append word, true) := by
  simp [push, isFull, Nat.not_le.mpr h, append]

/-- A full log stays as it is. -/
theorem push_of_le (h : maxRecords ≤ log.updates.length) (word : UInt16) :
    log.push word = (log, false) := by
  simp [push, isFull, h]

/-- The last record, if there is one, has the last position and the last throttle position. -/
theorem records_cases (log : RideLog) :
    (log.records = [] ∧ log.lastPosition = 0 ∧ log.lastAccel = .idle) ∨
      ∃ rs r, log.records = rs ++ [r] ∧ r.position = log.lastPosition ∧
        r.control.accel = log.lastAccel := by
  rcases List.eq_nil_or_concat log.updates with hnil | ⟨words, word, hsplit⟩
  · refine .inl ⟨?_, ?_, ?_⟩
    · rw [records, hnil, recordsFrom]
    · rw [lastPosition, hnil, totalDelta]
    · simp [lastAccel, hnil]
  · rw [List.concat_eq_append] at hsplit
    refine .inr ⟨_, _, by rw [records, hsplit, recordsFrom_append]; rfl, ?_, ?_⟩
    · rw [lastPosition, hsplit, totalDelta_append, Nat.zero_add]
      rfl
    · simp [lastAccel, hsplit]

/-- The last throttle position is that of the last record, and idle without one. -/
theorem lastAccel_eq (log : RideLog) :
    log.lastAccel = log.records.getLast?.elim .idle fun r => r.control.accel := by
  rcases log.records_cases with ⟨hnil, -, haccel⟩ | ⟨rs, r, hsplit, -, haccel⟩
  · rw [hnil, haccel]
    rfl
  · rw [hsplit, List.getLast?_concat, Option.elim_some, haccel]

/-- If all records lie before tick `n`, the last position does not lie behind it. -/
theorem lastPosition_le (h : ∀ r ∈ log.records, r.position < n) : log.lastPosition ≤ n := by
  rcases log.records_cases with ⟨-, hpos, -⟩ | ⟨rs, r, hsplit, hpos, -⟩
  · exact hpos ▸ Nat.zero_le n
  · rw [← hpos]
    exact Nat.le_of_lt (h r (hsplit ▸ List.mem_append_right rs (List.mem_singleton.mpr rfl)))

/-- No record lies behind the last position. -/
theorem position_le_lastPosition (hr : r ∈ log.records) : r.position ≤ log.lastPosition := by
  rcases log.records_cases with ⟨hnil, -, -⟩ | ⟨rs, last, hsplit, hpos, -⟩
  · rw [hnil] at hr
    exact absurd hr List.not_mem_nil
  · have hle := pairwise_position_le 0 log.updates
    change log.records.Pairwise _ at hle
    rw [hsplit, List.pairwise_append] at hle
    rw [hsplit, List.mem_append, List.mem_singleton] at hr
    rw [← hpos]
    rcases hr with hr | rfl
    · exact hle.2.2 r hr last (List.mem_singleton.mpr rfl)
    · exact Nat.le_refl _

/-! ## Logs written before a tick -/

/-- A log that was written before tick `n`. -/
structure WrittenUpTo (log : RideLog) (n : Nat) : Prop where
  /-- All records lie before the tick. -/
  below : ∀ r ∈ log.records, r.position < n
  /-- They lie behind one another. -/
  increasing : log.records.Pairwise fun r r' => r.position < r'.position
  /-- Each of them changes something, unless it is a filler. -/
  effective : Effective .idle log.records

/-- A log is well formed if it was written before its last tick. -/
theorem wellFormed_iff_writtenUpTo : log.WellFormed ↔ log.WrittenUpTo log.numFrames.toNat :=
  ⟨fun h => ⟨h.below, h.increasing, h.effective⟩, fun h => ⟨h.below, h.increasing, h.effective⟩⟩

/-- A log that was written before a tick was written before every later one. -/
theorem WrittenUpTo.mono (h : log.WrittenUpTo n) (hm : n ≤ m) : log.WrittenUpTo m :=
  ⟨fun r hr => Nat.lt_of_lt_of_le (h.below r hr) hm, h.increasing, h.effective⟩

/-- From the tick that comes next on, the last control goes on. -/
theorem WrittenUpTo.controlAt_of_le (h : log.WrittenUpTo n) (ht : n ≤ t) :
    log.controlAt t = ⟨log.lastAccel, .none⟩ := by
  have hlt : ∀ r ∈ log.records, r.position < t :=
    fun r hr => Nat.lt_of_lt_of_le (h.below r hr) ht
  rw [controlAt, accelAt_of_le fun r hr => Nat.le_of_lt (hlt r hr), rotationAt_of_lt hlt,
    ← lastAccel_eq]

/-- Records are effective if all but the last are, and the last is after them. -/
theorem effective_concat {before : Accel} (h : Effective before rs)
    (hr : r.redundantAfter (rs.getLast?.elim before fun b => b.control.accel) = false) :
    Effective before (rs ++ [r]) := by
  induction rs generalizing before with
  | nil => exact ⟨hr, trivial⟩
  | cons first rest ih =>
      refine ⟨h.1, ih h.2 ?_⟩
      rw [List.getLast?_cons, Option.elim_some] at hr
      cases hlast : rest.getLast? <;> rw [hlast] at hr <;> exact hr

/-- One more record behind the others, which is effective. -/
theorem WrittenUpTo.append (h : log.WrittenUpTo n)
    (hpos : ∀ r ∈ log.records, r.position < log.lastPosition + deltaOf word)
    (hm : log.lastPosition + deltaOf word < m)
    (heff : Record.redundantAfter ⟨log.lastPosition + deltaOf word, deltaOf word, controlOf word⟩
      log.lastAccel = false) : (log.append word).WrittenUpTo m := by
  refine ⟨?_, ?_, ?_⟩
  · intro r hr
    rw [records_append, List.mem_append, List.mem_singleton] at hr
    rcases hr with hr | rfl
    · exact Nat.lt_trans (hpos r hr) hm
    · exact hm
  · rw [records_append, List.pairwise_append]
    refine ⟨h.increasing, List.pairwise_singleton _ _, ?_⟩
    intro r hr r' hr'
    rw [List.mem_singleton.mp hr']
    exact hpos r hr
  · rw [records_append]
    apply effective_concat h.effective
    rw [← lastAccel_eq]
    exact heff

/-- One more record behind the others, at the tick of which its control takes effect. -/
theorem controlAt_append (hpos : ∀ r ∈ log.records, r.position < log.lastPosition + deltaOf word)
    (t : Nat) :
    (log.append word).controlAt t =
      if t < log.lastPosition + deltaOf word then log.controlAt t
      else if t = log.lastPosition + deltaOf word then controlOf word
      else ⟨(controlOf word).accel, .none⟩ := by
  unfold controlAt
  rw [records_append, accelAt_concat, rotationAt_concat hpos]
  dsimp only
  rcases Nat.lt_trichotomy t (log.lastPosition + deltaOf word) with hlt | heq | hgt
  · rw [if_pos hlt, if_neg (Nat.not_le.mpr hlt), if_neg (Nat.ne_of_lt hlt)]
  · rw [if_neg (Nat.not_lt.mpr (Nat.le_of_eq heq.symm)), if_pos (Nat.le_of_eq heq.symm), if_pos heq,
      if_pos heq]
  · rw [if_neg (Nat.not_lt.mpr (Nat.le_of_lt hgt)), if_pos (Nat.le_of_lt hgt),
      if_neg (Nat.ne_of_gt hgt), if_neg (Nat.ne_of_gt hgt),
      rotationAt_of_lt fun r hr => Nat.lt_trans (hpos r hr) hgt]

/-! ## Fillers -/

/-- A log that other fillers were written to before tick `n`: it stands for the same controls. -/
structure FilledFrom (log' log : RideLog) (n : Nat) : Prop where
  /-- It was still written before the tick. -/
  written : log'.WrittenUpTo n
  /-- It has no more records than there is room for. -/
  room : log'.updates.length ≤ maxRecords
  /-- Its nonce is the same. -/
  nonce : log'.nonce = log.nonce
  /-- It ends with the same throttle position. -/
  lastAccel : log'.lastAccel = log.lastAccel
  /-- It has the same controls. -/
  controlAt : ∀ t, log'.controlAt t = log.controlAt t

/-- More fillers may be written to a log that fillers were written to. -/
theorem FilledFrom.trans {log₁ log₂ log₃ : RideLog} (h : log₃.FilledFrom log₂ n)
    (h' : log₂.FilledFrom log₁ n) : log₃.FilledFrom log₁ n where
  written := h.written
  room := h.room
  nonce := h.nonce.trans h'.nonce
  lastAccel := h.lastAccel.trans h'.lastAccel
  controlAt t := (h.controlAt t).trans (h'.controlAt t)

/-- One filler, if it ends before tick `n`. -/
theorem FilledFrom.append_filler (h : log.WrittenUpTo n) (hroom : log.updates.length < maxRecords)
    (hn : log.lastPosition + fillerDelta < n)
    (hword : word = packRecord fillerDelta ⟨log.lastAccel, .none⟩) :
    (log.append word).FilledFrom log n ∧
      (log.append word).lastPosition = log.lastPosition + fillerDelta := by
  have hdelta : deltaOf word = fillerDelta := by rw [hword, packRecord_delta (Nat.le_refl _)]
  have hcontrol : controlOf word = ⟨log.lastAccel, .none⟩ := by
    rw [hword, packRecord_control (Nat.le_refl _)]
  have hpos : ∀ r ∈ log.records, r.position < log.lastPosition + deltaOf word := by
    intro r hr
    rw [hdelta]
    exact Nat.lt_of_le_of_lt (position_le_lastPosition hr) (Nat.lt_add_of_pos_right (by decide))
  have hbefore : log.WrittenUpTo (log.lastPosition + deltaOf word) :=
    ⟨hpos, h.increasing, h.effective⟩
  refine ⟨⟨h.append hpos (by rw [hdelta]; exact hn) ?_, ?_, rfl, ?_, ?_⟩, ?_⟩
  · simp [Record.redundantAfter, Record.isFiller, hdelta]
  · rw [RideLog.append, List.length_append]
    exact hroom
  · rw [lastAccel_append, hcontrol]
  · intro t
    rw [controlAt_append hpos, hcontrol]
    split_ifs with hlt heq
    · rfl
    · exact (hbefore.controlAt_of_le (Nat.le_of_eq heq.symm)).symm
    · exact (hbefore.controlAt_of_le (Nat.not_lt.mp hlt)).symm
  · rw [lastPosition_append, hdelta]

/-- Fillers that end before tick `n` change no control, whether there is room for all of them or
not. If there is, they carry all their ticks. -/
theorem FilledFrom.pushMany {k : Nat} {ok : Bool} (h : log.WrittenUpTo n)
    (hroom : log.updates.length ≤ maxRecords) (hn : 0 < k → log.lastPosition + k * fillerDelta < n)
    (hword : word = packRecord fillerDelta ⟨log.lastAccel, .none⟩)
    (hpush : log.pushMany word k = (log', ok)) :
    log'.FilledFrom log n ∧
      (ok = true → log'.lastPosition = log.lastPosition + k * fillerDelta) := by
  induction k generalizing log with
  | zero =>
      cases hpush
      exact ⟨⟨h, hroom, rfl, rfl, fun _ => rfl⟩, fun _ => by rw [Nat.zero_mul, Nat.add_zero]⟩
  | succ k ih =>
      rw [RideLog.pushMany] at hpush
      rcases Nat.lt_or_ge log.updates.length maxRecords with hlt | hge
      · rw [push_of_lt hlt] at hpush
        have hend := hn (Nat.succ_pos k)
        rw [Nat.succ_mul] at hend
        obtain ⟨hfirst, hposition⟩ := append_filler h hlt (by omega) hword
        obtain ⟨hrest, hlast⟩ := ih hfirst.written hfirst.room (by omega)
          (by rw [hfirst.lastAccel]; exact hword) hpush
        refine ⟨hrest.trans hfirst, ?_⟩
        intro hok
        rw [hlast hok, hposition, Nat.succ_mul]
        omega
      · -- the log is full, and stays as it is
        rw [push_of_le hge] at hpush
        cases hpush
        exact ⟨⟨h, hroom, rfl, rfl, fun _ => rfl⟩, nofun⟩

/-! ## Recording -/

/-- A log written before tick `n` that goes on with a control at that tick. -/
structure RecordedFrom (log' log : RideLog) (n : Nat) (c : Control) : Prop where
  /-- It was written before the next tick. -/
  written : log'.WrittenUpTo (n + 1)
  /-- It has no more records than there is room for. -/
  room : log'.updates.length ≤ maxRecords
  /-- Its nonce is the same. -/
  nonce : log'.nonce = log.nonce
  /-- It has the same controls before the tick. -/
  earlier : ∀ t < n, log'.controlAt t = log.controlAt t
  /-- At the tick it has the control. -/
  controlAt : log'.controlAt n = c

/-- A log that nothing but fillers were written to goes on with its last control. -/
theorem FilledFrom.recordedFrom (h : log'.FilledFrom log n) :
    log'.RecordedFrom log n ⟨log'.lastAccel, .none⟩ where
  written := h.written.mono (Nat.le_succ n)
  room := h.room
  nonce := h.nonce
  earlier t _ := h.controlAt t
  controlAt := h.written.controlAt_of_le (Nat.le_refl n)

/-- The record of a change, with or without room for it. -/
theorem FilledFrom.push {log₁ : RideLog} {ok : Bool} (h : log₁.FilledFrom log n)
    (hm : m ≤ fillerDelta) (hn : log₁.lastPosition + m = n)
    (hc : ¬ (c.accel = log₁.lastAccel ∧ c.rotation = .none))
    (hpush : log₁.push (packRecord m c) = (log', ok)) :
    log'.RecordedFrom log n (if ok then c else ⟨log'.lastAccel, .none⟩) := by
  have hposition : log₁.lastPosition + deltaOf (packRecord m c) = n := by
    rw [packRecord_delta hm, hn]
  have hpos : ∀ r ∈ log₁.records, r.position < log₁.lastPosition + deltaOf (packRecord m c) := by
    rw [hposition]
    exact h.written.below
  rcases Nat.lt_or_ge log₁.updates.length maxRecords with hlt | hge
  · rw [push_of_lt hlt] at hpush
    cases hpush
    refine ⟨h.written.append hpos ?_ ?_, ?_, h.nonce, ?_, ?_⟩
    · rw [hposition]
      exact Nat.lt_succ_self n
    · rw [Record.redundantAfter, packRecord_control hm]
      by_cases haccel : c.accel = log₁.lastAccel
      · have hrotation : c.rotation ≠ .none := fun hnone => hc ⟨haccel, hnone⟩
        simp [hrotation]
      · simp [haccel]
    · rw [RideLog.append, List.length_append]
      exact hlt
    · intro t ht
      rw [controlAt_append hpos, hposition, if_pos ht]
      exact h.controlAt t
    · rw [controlAt_append hpos, hposition, if_neg (Nat.lt_irrefl n), if_pos rfl,
        packRecord_control hm]
      rfl
  · rw [push_of_le hge] at hpush
    cases hpush
    exact h.recordedFrom

/-- Recording a control at the tick that comes next leaves the controls of earlier ticks alone. The
tick gets the control, or, if it is refused, what the last record says. -/
theorem WrittenUpTo.record {ok : Bool} (h : log.WrittenUpTo n)
    (hroom : log.updates.length ≤ maxRecords) (hrecord : log.record n c = (log', ok)) :
    log'.RecordedFrom log n (if ok then c else ⟨log'.lastAccel, .none⟩) := by
  obtain ⟨gap, hgap⟩ := Nat.exists_eq_add_of_le (lastPosition_le h.below)
  have hsub : (n : Int) - log.lastPosition = gap := by omega
  have hsame : log.FilledFrom log n := ⟨h, hroom, rfl, rfl, fun _ => rfl⟩
  unfold RideLog.record at hrecord
  dsimp only at hrecord
  by_cases hc : c.accel = log.lastAccel ∧ c.rotation = .none
  · rw [if_pos hc] at hrecord
    cases hrecord
    have hcontrol : c = ⟨log.lastAccel, .none⟩ := by rw [← hc.1, ← hc.2]
    rw [if_pos rfl, hcontrol]
    exact hsame.recordedFrom
  · rw [if_neg hc, hsub, if_neg (Int.not_lt.mpr (Int.natCast_nonneg gap)), Int.toNat_natCast]
      at hrecord
    have hquotient : fillersFor gap * fillerDelta ≤ gap - 1 := Nat.div_mul_le_self _ _
    have hremainder : gap ≤ fillersFor gap * fillerDelta + fillerDelta := by
      unfold fillersFor fillerDelta
      omega
    have hbefore (hfillers : 0 < fillersFor gap) :
        log.lastPosition + fillersFor gap * fillerDelta < n := by
      have hpos : 0 < fillersFor gap * fillerDelta := Nat.mul_pos hfillers (by decide)
      omega
    rcases hmany : log.pushMany (packRecord fillerDelta ⟨log.lastAccel, .none⟩) (fillersFor gap)
      with ⟨log₁, ok₁⟩
    obtain ⟨hfilled, hlast⟩ := FilledFrom.pushMany h hroom hbefore rfl hmany
    rw [hmany] at hrecord
    cases ok₁ with
    | false =>
        cases hrecord
        exact hfilled.recordedFrom
    | true =>
        have hposition := hlast rfl
        rw [← hfilled.lastAccel] at hc
        exact hfilled.push (by omega) (by omega) hc hrecord

/-! ## Cutting -/

/-- Cutting the log leaves the records before the first at or behind the cut. -/
theorem records_truncate (log : RideLog) (frame : UInt16) :
    (log.truncate frame).records =
      log.records.takeWhile fun r => decide (r.position < frame.toNat) := by
  unfold truncate
  rw [records, recordsFrom_take]
  exact (List.prefix_iff_eq_take.mp (List.takeWhile_prefix _)).symm

/-- Cutting the log keeps the controls before the cut. -/
theorem controlAt_truncate {frame : UInt16} (ht : t < frame.toNat) :
    (log.truncate frame).controlAt t = log.controlAt t := by
  have hbehind : ∀ r ∈ log.records.dropWhile fun r => decide (r.position < frame.toNat),
      t < r.position :=
    fun r hr => Nat.lt_of_lt_of_le ht
      (le_position_of_mem_dropWhile (pairwise_position_le 0 log.updates) r hr)
  have haccel := accelAt_append_of_lt
    (log.records.takeWhile fun r => decide (r.position < frame.toNat)) hbehind
  have hrotation := rotationAt_append_of_lt
    (log.records.takeWhile fun r => decide (r.position < frame.toNat)) hbehind
  rw [List.takeWhile_append_dropWhile] at haccel hrotation
  rw [controlAt, controlAt, records_truncate, haccel, hrotation]

/-- Cutting the log cuts its timeline. -/
theorem timeline_truncate {frame : UInt16} (h : frame.toNat ≤ log.numFrames.toNat) :
    (log.truncate frame).timeline = log.timeline.take frame.toNat := by
  rw [timeline_take h, timeline]
  apply List.map_congr_left
  intro t ht
  exact controlAt_truncate (List.mem_range.mp ht)

/-- A log is still well formed after it was cut. -/
theorem WrittenUpTo.truncate (h : log.WrittenUpTo n) (frame : UInt16) :
    (log.truncate frame).WellFormed := by
  have hsplit := List.takeWhile_append_dropWhile (l := log.records)
    (p := fun r => decide (r.position < frame.toNat))
  refine ⟨?_, ?_, ?_⟩
  · intro r hr
    rw [records_truncate] at hr
    have hlt := List.mem_takeWhile_imp hr
    exact of_decide_eq_true hlt
  · rw [records_truncate]
    exact h.increasing.sublist (List.takeWhile_sublist _)
  · rw [records_truncate]
    have hall := h.effective
    rw [← hsplit] at hall
    exact effective_append hall

/-- Cutting the log adds no record. -/
theorem length_updates_truncate (log : RideLog) (frame : UInt16) :
    (log.truncate frame).updates.length ≤ log.updates.length := by
  rw [truncate, List.length_take]
  exact Nat.min_le_right _ _

end RideLog

end RideProof
