import RideProof.Proofs.Recording

/-!
# Editing a log

A log is edited by recording controls, at any ticks and in any order, and by cutting it. Whatever
the edits are, the log keeps to its capacity and holds no redundant record. Its records come
strictly one after the other until a change is recorded at the position of the last record, and no
other edit puts two records at one position. A change that is refused leaves fillers behind, as many
as there was room for, and nothing else.

* `RideLog.Recorded` — what recording a control can do to a log, case by case.
* `RideLog.Edit`, `RideLog.editAll` — edits, one after the other.
* `RideLog.Sparing` — what every edit keeps; `RideLog.increasing_edit_iff` — what some do not.
* `RideLog.increasing_editAll_iff` — the order of the records, and the edits that break it.
* `RideLog.refused_editAll` — when a change is refused, and what that leaves.
-/

namespace RideProof

/-- A control and the tick that it takes effect at. -/
structure Entry where
  /-- The tick. -/
  tick : Int
  /-- The control. -/
  control : Control
  deriving DecidableEq, Repr

namespace RideLog

variable {log : RideLog} {word : UInt16} {e : Entry} {c : Control} {k n : Nat}

/-! ## What recording does -/

/-- A control is a change if it is not the one that goes on after the last record. -/
def Changes (log : RideLog) (c : Control) : Prop :=
  ¬ (c.accel = log.lastAccel ∧ c.rotation = .none)

/-- Whether a control changes something can be decided. -/
instance (log : RideLog) (c : Control) : Decidable (log.Changes c) :=
  inferInstanceAs (Decidable (¬ _))

/-- What recording an entry can do to a log, with the answer. -/
inductive Recorded (log : RideLog) (e : Entry) : RideLog × Bool → Prop
  /-- The control goes on. -/
  | unchanged (hc : ¬ log.Changes e.control) : Recorded log e (log, true)
  /-- The tick lies before the last record. -/
  | early (hc : log.Changes e.control) (htick : e.tick < log.lastPosition) :
      Recorded log e (log, false)
  /-- The change has room behind the fillers of its gap. -/
  | added {gap : Nat} (hc : log.Changes e.control) (htick : e.tick = log.lastPosition + gap)
      (hroom : log.updates.length + (fillersFor gap + 1) ≤ maxRecords) :
      Recorded log e
        ((log.appendMany log.filler (fillersFor gap)).append (packRecord (restOf gap) e.control),
          true)
  /-- The change has no room, but its fillers take the room that there is. -/
  | refused {gap : Nat} (hc : log.Changes e.control) (htick : e.tick = log.lastPosition + gap)
      (hroom : maxRecords < log.updates.length + (fillersFor gap + 1)) :
      Recorded log e (log.appendMany log.filler (maxRecords - log.updates.length), false)

/-- A change before the last position is refused and leaves the log alone. -/
theorem record_of_early (hc : log.Changes e.control) (htick : e.tick < log.lastPosition) :
    log.record e.tick e.control = (log, false) := by
  unfold record
  dsimp only
  rw [if_neg hc, if_pos (by omega)]

/-- Recording does one of these things. -/
theorem recorded_record (hroom : log.updates.length ≤ maxRecords) (e : Entry) :
    log.Recorded e (log.record e.tick e.control) := by
  by_cases hc : log.Changes e.control
  · rcases Int.lt_or_le e.tick log.lastPosition with hearly | hlate
    · rw [record_of_early hc hearly]
      exact .early hc hearly
    · obtain ⟨n, hn⟩ := Int.eq_ofNat_of_zero_le (Int.le_trans (Int.natCast_nonneg _) hlate)
      obtain ⟨gap, hgap⟩ : ∃ gap, n = log.lastPosition + gap :=
        Nat.exists_eq_add_of_le (by omega)
      have htick : e.tick = log.lastPosition + gap := by omega
      rw [hn]
      rcases Nat.lt_or_ge maxRecords (log.updates.length + (fillersFor gap + 1)) with hlt | hge
      · rw [record_of_no_room hc hgap.symm hroom hlt]
        exact .refused hc htick hlt
      · rw [record_of_room hc hgap.symm hge]
        exact .added hc htick hge
  · have hsame := not_not.mp hc
    rw [record_of_unchanged log e.tick hsame.1 hsame.2]
    exact .unchanged hc

/-! ## Fillers -/

/-- A filler carries `fillerDelta` ticks. -/
theorem deltaOf_filler (log : RideLog) : deltaOf log.filler = fillerDelta :=
  packRecord_delta (Nat.le_refl _)

/-- A filler keeps the throttle position and asks for no rotation. -/
theorem controlOf_filler (log : RideLog) : controlOf log.filler = ⟨log.lastAccel, .none⟩ :=
  packRecord_control (Nat.le_refl _)

/-- Fillers keep the throttle position. -/
@[simp] theorem lastAccel_fillers (log : RideLog) (k : Nat) :
    (log.appendMany log.filler k).lastAccel = log.lastAccel := by
  cases k with
  | zero => rw [appendMany_zero]
  | succ k => rw [appendMany_succ, lastAccel_append, controlOf_filler]

/-- Behind its last record a log goes on with its last throttle position. -/
theorem controlAt_of_lastPosition_lt (h : log.lastPosition < n) :
    log.controlAt n = ⟨log.lastAccel, .none⟩ := by
  have hlt : ∀ r ∈ log.records, r.position < n :=
    fun r hr => Nat.lt_of_le_of_lt (position_le_lastPosition hr) h
  rw [controlAt, accelAt_of_le fun r hr => Nat.le_of_lt (hlt r hr), rotationAt_of_lt hlt,
    ← lastAccel_eq]

/-- Fillers keep every control, also where the records before them are out of order. -/
theorem controlAt_fillers (log : RideLog) (k n : Nat) :
    (log.appendMany log.filler k).controlAt n = log.controlAt n := by
  induction k with
  | zero => rw [appendMany_zero]
  | succ k ih =>
      have hpos : ∀ r ∈ (log.appendMany log.filler k).records,
          r.position < (log.appendMany log.filler k).lastPosition + deltaOf log.filler := by
        intro r hr
        rw [deltaOf_filler]
        exact Nat.lt_of_le_of_lt (position_le_lastPosition hr) (Nat.lt_add_of_pos_right (by decide))
      rw [appendMany_succ, controlAt_append hpos, controlOf_filler, ← ih]
      have hbehind : (log.appendMany log.filler k).lastPosition <
          (log.appendMany log.filler k).lastPosition + deltaOf log.filler := by
        rw [deltaOf_filler]
        exact Nat.lt_add_of_pos_right (by decide)
      split_ifs with hlt heq
      · rfl
      · rw [controlAt_of_lastPosition_lt (by omega), lastAccel_fillers]
      · rw [controlAt_of_lastPosition_lt (by omega), lastAccel_fillers]

/-- No record is redundant if none was before, and the one behind them is a filler or a change. -/
theorem effective_records_append (h : Effective .idle log.records)
    (hword : deltaOf word = fillerDelta ∨ log.Changes (controlOf word)) :
    Effective .idle (log.append word).records := by
  rw [records_append]
  apply effective_concat h
  rw [← lastAccel_eq]
  unfold Record.redundantAfter Record.isFiller
  rcases hword with hfiller | hchange
  · simp [hfiller]
  · unfold Changes at hchange
    simp only [Bool.and_eq_false_iff, beq_eq_false_iff_ne, ne_eq]
    tauto

/-- Fillers behind effective records are effective. -/
theorem effective_records_fillers (h : Effective .idle log.records) (k : Nat) :
    Effective .idle (log.appendMany log.filler k).records := by
  induction k with
  | zero => rwa [appendMany_zero]
  | succ k ih =>
      rw [appendMany_succ]
      exact effective_records_append ih (.inl log.deltaOf_filler)

/-! ## The order of the records -/

/-- Every record comes after those before it. -/
def Increasing (log : RideLog) : Prop :=
  log.records.Pairwise fun r r' => r.position < r'.position

/-- Whether records lie behind one another can be decided. -/
instance (log : RideLog) : Decidable log.Increasing :=
  inferInstanceAs (Decidable (List.Pairwise _ _))

/-- One more record keeps the order if it is the first one, or some ticks behind the last. -/
theorem increasing_append_iff :
    (log.append word).Increasing ↔
      log.Increasing ∧ (log.updates = [] ∨ 0 < deltaOf word) := by
  unfold Increasing
  rw [records_append, List.pairwise_append]
  constructor
  · rintro ⟨hlog, -, hlast⟩
    refine ⟨hlog, ?_⟩
    rcases log.records_cases with ⟨hnil, -, -⟩ | ⟨rs, r, hsplit, hpos, -⟩
    · left
      rw [← List.length_eq_zero_iff, ← length_recordsFrom 0]
      exact List.length_eq_zero_iff.mpr hnil
    · right
      have hbehind := hlast r (by simp [hsplit]) _ (List.mem_singleton.mpr rfl)
      dsimp only at hbehind
      omega
  · rintro ⟨hlog, hfirst⟩
    refine ⟨hlog, List.pairwise_singleton _ _, ?_⟩
    intro r hr r' hr'
    rw [List.mem_singleton.mp hr']
    rcases hfirst with hnil | hdelta
    · rw [records, hnil] at hr
      exact absurd hr List.not_mem_nil
    · exact Nat.lt_of_le_of_lt (position_le_lastPosition hr) (Nat.lt_add_of_pos_right hdelta)

/-- Fillers keep the order. -/
theorem increasing_fillers_iff (log : RideLog) (k : Nat) :
    (log.appendMany log.filler k).Increasing ↔ log.Increasing := by
  induction k with
  | zero => rw [appendMany_zero]
  | succ k ih =>
      have hdelta : 0 < deltaOf log.filler := by
        rw [deltaOf_filler]
        decide
      rw [appendMany_succ, increasing_append_iff, ih, and_iff_left (.inr hdelta)]

/-! ## Edits -/

/-- A call that changes a log. -/
inductive Edit
  /-- Record a control. -/
  | record (entry : Entry)
  /-- Cut the log at a tick. -/
  | truncate (frame : UInt16)
  deriving DecidableEq, Repr

/-- The log after an edit, whatever it answers. -/
def edit (log : RideLog) : Edit → RideLog
  | .record e => (log.record e.tick e.control).1
  | .truncate frame => log.truncate frame

/-- The log after several edits. -/
def editAll (log : RideLog) (edits : List Edit) : RideLog := edits.foldl edit log

/-- The edit adds a second record at the position of the last one. -/
def Doubles (log : RideLog) : Edit → Prop
  | .record e => log.updates ≠ [] ∧ log.isFull = false ∧ e.tick = log.lastPosition ∧
      log.Changes e.control
  | .truncate _ => False

/-- A log that keeps to its capacity and has no redundant record. -/
structure Sparing (log : RideLog) : Prop where
  /-- It has no more records than it can hold. -/
  room : log.updates.length ≤ maxRecords
  /-- Every record changes something or is a filler. -/
  effective : Effective .idle log.records

/-- An empty log is sparing. -/
theorem sparing_empty (nonce : UInt32) : (empty nonce).Sparing := ⟨Nat.zero_le _, trivial⟩

/-- Recording keeps a log sparing. -/
theorem Sparing.record (h : log.Sparing) (e : Entry) :
    (log.record e.tick e.control).1.Sparing := by
  have hrecorded := recorded_record h.room e
  generalize log.record e.tick e.control = after at hrecorded
  cases hrecorded with
  | unchanged => exact h
  | early => exact h
  | @added gap hc _ hroom =>
      refine ⟨?_, effective_records_append (effective_records_fillers h.effective _) (.inr ?_)⟩
      · rw [append, List.length_append, length_appendMany, List.length_singleton]
        omega
      · unfold Changes
        rwa [packRecord_control (restOf_le gap), lastAccel_fillers]
  | refused =>
      refine ⟨?_, effective_records_fillers h.effective _⟩
      have hfits := h.room
      rw [length_appendMany]
      omega

/-- Cutting keeps a log sparing. -/
theorem Sparing.truncate (h : log.Sparing) (frame : UInt16) : (log.truncate frame).Sparing := by
  refine ⟨Nat.le_trans (length_updates_truncate log frame) h.room, ?_⟩
  rw [records_truncate]
  apply effective_append
  rw [List.takeWhile_append_dropWhile]
  exact h.effective

/-- An edit of either kind keeps a log sparing. -/
theorem Sparing.edit (h : log.Sparing) (e : Edit) : (log.edit e).Sparing := by
  cases e with
  | record e => exact h.record e
  | truncate frame => exact h.truncate frame

/-- Any number of edits keep a log sparing. -/
theorem Sparing.editAll (h : log.Sparing) (edits : List Edit) : (log.editAll edits).Sparing := by
  induction edits generalizing log with
  | nil => exact h
  | cons e edits ih => exact ih (h.edit e)

/-- Recording keeps the order, unless it doubles a record. -/
theorem increasing_record_iff (hroom : log.updates.length ≤ maxRecords) (e : Entry) :
    (log.record e.tick e.control).1.Increasing ↔ log.Increasing ∧ ¬ log.Doubles (.record e) := by
  have hrecorded := recorded_record hroom e
  generalize log.record e.tick e.control = after at hrecorded
  cases hrecorded with
  | unchanged hc =>
      have hnot : ¬ log.Doubles (.record e) := fun hdouble => hc hdouble.2.2.2
      exact (and_iff_left hnot).symm
  | early hc htick =>
      have hnot : ¬ log.Doubles (.record e) := by
        rintro ⟨-, -, heq, -⟩
        omega
      exact (and_iff_left hnot).symm
  | @added gap hc htick hfits =>
      have hsum := fillers_add_restOf gap
      have hnotFull : log.isFull = false := by
        rw [← Bool.not_eq_true, isFull_iff]
        omega
      have hdoubles : log.Doubles (.record e) ↔ log.updates ≠ [] ∧ gap = 0 := by
        have hzero : e.tick = log.lastPosition ↔ gap = 0 := by omega
        simp [Doubles, hnotFull, hzero, hc]
      rw [increasing_append_iff, increasing_fillers_iff, packRecord_delta (restOf_le gap), hdoubles]
      -- a gap of no ticks needs no filler, and leaves the record none
      rcases Nat.eq_zero_or_pos gap with rfl | hpos
      · have hrest : restOf 0 = 0 := rfl
        have hnone : fillersFor 0 = 0 := rfl
        simp [hrest, hnone]
      · have hrest : 0 < restOf gap := by
          unfold restOf fillersFor fillerDelta
          omega
        simp [hrest, Nat.ne_of_gt hpos]
  | @refused gap hc htick hover =>
      have hnot : ¬ log.Doubles (.record e) := by
        rintro ⟨-, hnotFull, heq, -⟩
        have hzero : gap = 0 := by omega
        have hnone : fillersFor 0 = 0 := rfl
        rw [hzero, hnone] at hover
        rw [← Bool.not_eq_true, isFull_iff] at hnotFull
        omega
      rw [increasing_fillers_iff]
      exact (and_iff_left hnot).symm

/-- An edit keeps the order, unless it doubles a record. -/
theorem increasing_edit_iff (hroom : log.updates.length ≤ maxRecords) (h : log.Increasing)
    (e : Edit) : (log.edit e).Increasing ↔ ¬ log.Doubles e := by
  cases e with
  | record e =>
      rw [edit, increasing_record_iff hroom e]
      exact and_iff_right h
  | truncate frame =>
      have hcut : (log.truncate frame).Increasing := by
        unfold Increasing
        rw [records_truncate]
        exact h.sublist (List.takeWhile_sublist _)
      exact ⟨fun _ hdouble => hdouble, fun _ => hcut⟩

/-- The log after the first edits and one more. -/
theorem editAll_take_succ {edits : List Edit} {e : Edit} (h : edits[n]? = some e) :
    log.editAll (edits.take (n + 1)) = (log.editAll (edits.take n)).edit e := by
  unfold editAll
  rw [List.take_add_one, h, Option.toList_some, List.foldl_append]
  rfl

/-- **The order of the records.** After each of any number of edits of an empty log, the log keeps
to its capacity and has no redundant record. Its records come strictly one after the other after
each of them if and only if none of the edits doubles a record, that is, records a change at the
position of the last record of a log that has one and has room for another. -/
theorem increasing_editAll_iff (nonce : UInt32) (edits : List Edit) :
    let logAfter (n : Nat) := (empty nonce).editAll (edits.take n)
    (∀ n, (logAfter n).updates.length ≤ maxRecords ∧ Effective .idle (logAfter n).records) ∧
    ((∀ n, (logAfter n).Increasing) ↔
      ∀ (n : Nat) (e : Edit), edits[n]? = some e → ¬ (logAfter n).Doubles e) := by
  intro logAfter
  have hsparing (n : Nat) : (logAfter n).Sparing := (sparing_empty nonce).editAll (edits.take n)
  refine ⟨fun n => ⟨(hsparing n).room, (hsparing n).effective⟩, ?_, ?_⟩
  · intro hall n e he
    have hnext := hall (n + 1)
    dsimp only [logAfter] at hnext
    rw [editAll_take_succ he] at hnext
    exact (increasing_edit_iff (hsparing n).room (hall n) e).mp hnext
  · intro hnone n
    induction n with
    | zero => exact List.Pairwise.nil
    | succ n ih =>
        rcases he : edits[n]? with _ | e
        · have hsame : edits.take (n + 1) = edits.take n := by
            rw [List.take_add_one, he, Option.toList_none, List.append_nil]
          dsimp only [logAfter]
          rw [hsame]
          exact ih
        · dsimp only [logAfter]
          rw [editAll_take_succ he]
          exact (increasing_edit_iff (hsparing n).room ih e).mpr (hnone n e he)

/-- Two changes at one tick are both accepted, and stand at one position. -/
theorem doubled_position :
    let log := (empty 0).editAll
      [.record ⟨40, ⟨.gasLeft, .none⟩⟩, .record ⟨40, ⟨.brake, .none⟩⟩]
    log.records.map Record.position = [40, 40] ∧ ¬ log.Increasing := by
  decide

/-! ## Refusals -/

/-- **What a refusal leaves.** After any edits of an empty log, a control is refused if and only if
it is a change and either lies before the last record or needs more records, its fillers included,
than there is room for. The log is then as it was if the tick lies before the last record or the log
was full, and in no other case: a log with room is filled up, with fillers that keep its last
throttle position. Every tick has the control that it had. -/
theorem refused_editAll (nonce : UInt32) (edits : List Edit) (e : Entry) :
    let log := (empty nonce).editAll edits
    let after := (log.record e.tick e.control).1
    let answer := (log.record e.tick e.control).2
    let gap := (e.tick - log.lastPosition).toNat
    (answer = false ↔ log.Changes e.control ∧
      (e.tick < log.lastPosition ∨
        maxRecords < log.updates.length + max 1 (gap ⌈/⌉ fillerDelta))) ∧
    (answer = false →
      (after = log ↔ e.tick < log.lastPosition ∨ log.isFull = true) ∧
      (log.lastPosition ≤ e.tick →
        after = log.appendMany log.filler (maxRecords - log.updates.length)) ∧
      after.lastAccel = log.lastAccel ∧ ∀ tick, after.controlAt tick = log.controlAt tick) := by
  intro log after answer gap
  have hroom : log.updates.length ≤ maxRecords := ((sparing_empty nonce).editAll edits).room
  have hrecorded : log.Recorded e (after, answer) := recorded_record hroom e
  clear_value after answer
  rw [← fillersFor_succ]
  cases hrecorded with
  | unchanged hc => exact ⟨⟨nofun, fun hrefused => absurd hrefused.1 hc⟩, nofun⟩
  | early hc htick =>
      refine ⟨⟨fun _ => ⟨hc, .inl htick⟩, fun _ => rfl⟩, fun _ => ⟨⟨fun _ => .inl htick, ?_⟩, ?_⟩⟩
      · exact fun _ => rfl
      · exact ⟨fun hlate => absurd htick (Int.not_lt.mpr hlate), rfl, fun _ => rfl⟩
  | @added gap' hc htick hfits =>
      have hgap : gap = gap' := by omega
      refine ⟨⟨nofun, ?_⟩, nofun⟩
      rintro ⟨-, hearly | hover⟩
      · omega
      · rw [hgap] at hover
        exact absurd hfits (Nat.not_le.mpr hover)
  | @refused gap' hc htick hover =>
      have hgap : gap = gap' := by omega
      refine ⟨⟨fun _ => ⟨hc, .inr (hgap ▸ hover)⟩, fun _ => rfl⟩, fun _ => ⟨⟨?_, ?_⟩, ?_⟩⟩
      · intro hsame
        have hnone := (updates_appendMany_eq_iff log _ _).mp (congrArg updates hsame)
        exact .inr (isFull_iff.mpr (Nat.le_of_sub_eq_zero hnone))
      · rintro (hearly | hfull)
        · omega
        · rw [Nat.sub_eq_zero_of_le (isFull_iff.mp hfull), appendMany_zero]
      · exact ⟨fun _ => rfl, lastAccel_fillers log _, controlAt_fillers log _⟩

/-- A log of 59 records, the last of them at tick 58, has room for one record. A change at tick 5519
needs two: it is refused, and its filler takes the room. -/
theorem refused_leaves_filler :
    let log := (empty 0).editAll ((List.range 59).map fun i =>
      .record ⟨i, ⟨if i % 2 = 0 then .gasLeft else .idle, .none⟩⟩)
    log.isFull = false ∧ log.lastPosition = 58 ∧ (log.record 5519 ⟨.brake, .none⟩).2 = false ∧
      (log.record 5519 ⟨.brake, .none⟩).1 = log.append log.filler := by
  decide +kernel

end RideLog

end RideProof
