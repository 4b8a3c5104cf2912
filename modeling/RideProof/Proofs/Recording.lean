import Mathlib.Algebra.Order.Floor.Div
import RideProof.Proofs.Writing

/-!
# Recording a whole timeline

A log that is given the control of every tick, one after the other from the first tick on, writes
down the changes: the ticks that request a rotation or another throttle position than the tick
before. A change takes one record for each `fillerDelta` ticks that have begun since the last
change, and at least one.

* `Timeline.isChange`, `Timeline.recordsAt`, `Timeline.recordsNeeded` — the changes of a timeline
  and the records that they take; nothing here speaks of a log.
* `RideLog.record_of_room`, `RideLog.record_of_no_room` — a change is recorded in full, or refused.
* `RideLog.RecordedUpTo` — what a log says that has been given the first `n` ticks. Recording one
  more tick keeps it, unless the records do not fit (`RideLog.RecordedUpTo.record`).
* `RideLog.recordAll_empty` — recording stops at the capacity and at nothing else, and what was
  recorded is read back.
-/

namespace RideProof

/-- A control for each tick. -/
abbrev Timeline := Nat → Control

/-- The fillers of a gap and the record that ends it: one record for each `fillerDelta` ticks of the
gap that have begun, and at least one. -/
theorem RideLog.fillersFor_succ (gap : Nat) :
    fillersFor gap + 1 = max 1 (gap ⌈/⌉ fillerDelta) := by
  unfold fillersFor fillerDelta
  rw [Nat.ceilDiv_eq_add_pred_div]
  omega

/-! ## The changes of a timeline -/

namespace Timeline

/-- The throttle position of the tick before tick `f`; before the first tick it is idle. -/
def accelBefore (cs : Timeline) : Nat → Accel
  | 0 => .idle
  | f + 1 => (cs f).accel

/-- Tick `f` requests a rotation, or another throttle position than the tick before. -/
def isChange (cs : Timeline) (f : Nat) : Bool :=
  (cs f).rotation != .none || (cs f).accel != cs.accelBefore f

/-- The changes before tick `n`, in order. -/
def changes (cs : Timeline) (n : Nat) : List Nat := (List.range n).filter cs.isChange

/-- The last change before tick `f`; the first tick if there is none. -/
def changeBefore (cs : Timeline) (f : Nat) : Nat := (cs.changes f).getLast?.getD 0

/-- The records that a change at tick `f` takes. -/
def recordsAt (cs : Timeline) (f : Nat) : Nat := max 1 ((f - cs.changeBefore f) ⌈/⌉ fillerDelta)

/-- The records that the changes before tick `n` take. -/
def recordsNeeded (cs : Timeline) (n : Nat) : Nat := ((cs.changes n).map cs.recordsAt).sum

variable {cs : Timeline} {f n : Nat}

/-- A tick is no change if it keeps the throttle position and asks for no rotation. -/
theorem isChange_eq_false :
    cs.isChange f = false ↔ (cs f).accel = cs.accelBefore f ∧ (cs f).rotation = .none := by
  simp [isChange, and_comm]

/-- The changes up to one tick more. -/
theorem changes_succ (cs : Timeline) (n : Nat) :
    cs.changes (n + 1) = cs.changes n ++ if cs.isChange n then [n] else [] := by
  unfold changes
  rw [List.range_succ, List.filter_append, List.filter_singleton, Bool.cond_eq_ite]

/-- The last change before the next tick. -/
theorem changeBefore_succ (cs : Timeline) (n : Nat) :
    cs.changeBefore (n + 1) = if cs.isChange n then n else cs.changeBefore n := by
  unfold changeBefore
  rw [changes_succ]
  by_cases h : cs.isChange n = true
  · rw [if_pos h, if_pos h, List.getLast?_concat, Option.getD_some]
  · rw [if_neg h, if_neg h, List.append_nil]

/-- The records that one tick more needs. -/
theorem recordsNeeded_succ (cs : Timeline) (n : Nat) :
    cs.recordsNeeded (n + 1) =
      cs.recordsNeeded n + if cs.isChange n then cs.recordsAt n else 0 := by
  unfold recordsNeeded
  rw [changes_succ, List.map_append, List.sum_append]
  by_cases h : cs.isChange n = true
  · rw [if_pos h, if_pos h, List.map_singleton, List.sum_singleton]
  · rw [if_neg h, if_neg h, List.map_nil, List.sum_nil]

/-- One tick more needs no fewer records. -/
theorem recordsNeeded_le_succ (cs : Timeline) (n : Nat) :
    cs.recordsNeeded n ≤ cs.recordsNeeded (n + 1) := by
  rw [recordsNeeded_succ]
  exact Nat.le_add_right _ _

/-- A change takes its own record and the fillers of the gap before it. -/
theorem recordsAt_eq (cs : Timeline) (f : Nat) :
    cs.recordsAt f = RideLog.fillersFor (f - cs.changeBefore f) + 1 :=
  (RideLog.fillersFor_succ _).symm

/-- A gap that one record can just span, and one that is a tick longer. -/
example : max 1 (5460 ⌈/⌉ fillerDelta) = 1 ∧ max 1 (5461 ⌈/⌉ fillerDelta) = 2 := by decide

end Timeline

/-! ## A change and its fillers -/

namespace RideLog

variable {log : RideLog} {word : UInt16} {c : Control} {cs : Timeline} {f k n : Nat}

/-- The log with `k` times the same record behind it, whether it has room for them or not. -/
def appendMany (log : RideLog) (word : UInt16) (k : Nat) : RideLog :=
  { log with updates := log.updates ++ List.replicate k word }

/-- Appending many words makes the log as much longer. -/
theorem length_appendMany (log : RideLog) (word : UInt16) (k : Nat) :
    (log.appendMany word k).updates.length = log.updates.length + k := by
  rw [appendMany, List.length_append, List.length_replicate]

/-- Appending no word changes nothing. -/
@[simp] theorem appendMany_zero (log : RideLog) (word : UInt16) : log.appendMany word 0 = log := by
  simp [appendMany]

/-- Appending leaves the words as they are only if nothing is appended. -/
theorem updates_appendMany_eq_iff (log : RideLog) (word : UInt16) (k : Nat) :
    (log.appendMany word k).updates = log.updates ↔ k = 0 := by
  simp [appendMany]

/-- One more word is appended behind the others. -/
theorem appendMany_succ (log : RideLog) (word : UInt16) (k : Nat) :
    log.appendMany word (k + 1) = (log.appendMany word k).append word := by
  simp [appendMany, append, List.replicate_succ']

/-- One more word is appended in front of the others. -/
theorem append_appendMany (log : RideLog) (word : UInt16) (k : Nat) :
    (log.append word).appendMany word k = log.appendMany word (k + 1) := by
  simp [appendMany, append, List.replicate_succ]

/-- As many records are pushed as are asked for, if there is room for them. -/
theorem pushMany_of_room (h : log.updates.length + k ≤ maxRecords) (word : UInt16) :
    log.pushMany word k = (log.appendMany word k, true) := by
  induction k generalizing log with
  | zero => rw [pushMany, appendMany_zero]
  | succ k ih =>
      have hroom : (log.append word).updates.length + k ≤ maxRecords := by
        rw [append, List.length_append, List.length_singleton]
        omega
      rw [pushMany, push_of_lt (by omega)]
      dsimp only
      rw [ih hroom, append_appendMany]

/-- As many records are pushed as there is room for, if that is fewer than are asked for. -/
theorem pushMany_of_no_room (hfits : log.updates.length ≤ maxRecords)
    (h : maxRecords < log.updates.length + k) (word : UInt16) :
    log.pushMany word k = (log.appendMany word (maxRecords - log.updates.length), false) := by
  induction k generalizing log with
  | zero => exact absurd hfits (Nat.not_le.mpr h)
  | succ k ih =>
      rw [pushMany]
      rcases Nat.lt_or_ge log.updates.length maxRecords with hlt | hge
      · have hlength : (log.append word).updates.length = log.updates.length + 1 := by
          rw [append, List.length_append, List.length_singleton]
        rw [push_of_lt hlt]
        dsimp only
        rw [ih (by omega) (by omega), append_appendMany, hlength]
        congr 2
        omega
      · have hnone : maxRecords - log.updates.length = 0 := Nat.sub_eq_zero_of_le hge
        rw [push_of_le hge, hnone, appendMany_zero]

/-- The packed filler that keeps the control after the last record in force. -/
def filler (log : RideLog) : UInt16 := packRecord fillerDelta ⟨log.lastAccel, .none⟩

/-- The ticks of a gap that its fillers leave to the record that ends it. -/
def restOf (gap : Nat) : Nat := gap - fillersFor gap * fillerDelta

/-- What is left of a gap behind its fillers is no longer than a filler. -/
theorem restOf_le (gap : Nat) : restOf gap ≤ fillerDelta := by
  unfold restOf fillersFor fillerDelta
  omega

/-- A gap is its fillers and what is left of it. -/
theorem fillers_add_restOf (gap : Nat) : fillersFor gap * fillerDelta + restOf gap = gap := by
  have hquotient : fillersFor gap * fillerDelta ≤ gap - 1 := Nat.div_mul_le_self _ _
  unfold restOf
  omega

/-- Copies of a word carry its ticks as often as there are copies. -/
theorem totalDelta_replicate (k : Nat) (word : UInt16) :
    totalDelta (List.replicate k word) = k * deltaOf word := by
  induction k with
  | zero => exact (Nat.zero_mul _).symm
  | succ k ih => rw [List.replicate_succ, totalDelta, ih, Nat.succ_mul, Nat.add_comm]

/-- Fillers carry their ticks. -/
theorem lastPosition_fillers (log : RideLog) (k : Nat) :
    (log.appendMany log.filler k).lastPosition = log.lastPosition + k * fillerDelta := by
  have hdelta : deltaOf log.filler = fillerDelta := packRecord_delta (Nat.le_refl _)
  rw [lastPosition, appendMany, totalDelta_append, totalDelta_replicate, hdelta]
  rfl

/-- A change stands at the end of its gap: its own delta is what the fillers leave of it. -/
theorem lastPosition_added (log : RideLog) (gap : Nat) (c : Control) :
    ((log.appendMany log.filler (fillersFor gap)).append (packRecord (restOf gap) c)).lastPosition =
      log.lastPosition + gap := by
  rw [lastPosition_append, packRecord_delta (restOf_le gap), lastPosition_fillers, Nat.add_assoc,
    fillers_add_restOf]

/-- A change that has room is recorded behind the fillers of its gap. -/
theorem record_of_room (hc : ¬ (c.accel = log.lastAccel ∧ c.rotation = .none))
    (hgap : log.lastPosition + k = n)
    (hroom : log.updates.length + (fillersFor k + 1) ≤ maxRecords) :
    log.record n c =
      ((log.appendMany log.filler (fillersFor k)).append (packRecord (restOf k) c), true) := by
  have hsub : (n : Int) - log.lastPosition = k := by omega
  have hnext : (log.appendMany log.filler (fillersFor k)).updates.length < maxRecords := by
    rw [length_appendMany]
    omega
  unfold record
  dsimp only
  rw [if_neg hc, hsub, if_neg (Int.not_lt.mpr (Int.natCast_nonneg k)), Int.toNat_natCast]
  rw [show packRecord fillerDelta ⟨log.lastAccel, .none⟩ = log.filler from rfl]
  rw [pushMany_of_room (by omega)]
  exact push_of_lt hnext _

/-- A change that has no room is refused, and its fillers take the room that there is. -/
theorem record_of_no_room (hc : ¬ (c.accel = log.lastAccel ∧ c.rotation = .none))
    (hgap : log.lastPosition + k = n) (hfits : log.updates.length ≤ maxRecords)
    (hroom : maxRecords < log.updates.length + (fillersFor k + 1)) :
    log.record n c = (log.appendMany log.filler (maxRecords - log.updates.length), false) := by
  have hsub : (n : Int) - log.lastPosition = k := by omega
  unfold record
  dsimp only
  rw [if_neg hc, hsub, if_neg (Int.not_lt.mpr (Int.natCast_nonneg k)), Int.toNat_natCast]
  rw [show packRecord fillerDelta ⟨log.lastAccel, .none⟩ = log.filler from rfl]
  rcases Nat.lt_or_ge maxRecords (log.updates.length + fillersFor k) with hlt | hge
  · rw [pushMany_of_no_room hfits hlt]
  · -- all fillers have room, and take it up
    have hall : maxRecords - log.updates.length = fillersFor k := by omega
    have hfull : maxRecords ≤ (log.appendMany log.filler (fillersFor k)).updates.length := by
      rw [length_appendMany]
      omega
    rw [pushMany_of_room hge, hall]
    exact push_of_le hfull _

/-! ## Tick after tick -/

/-- The log after it was given the controls of the first `n` ticks, whatever it answered. -/
def recordAll (log : RideLog) (cs : Timeline) : Nat → RideLog
  | 0 => log
  | n + 1 => ((log.recordAll cs n).record n (cs n)).1

/-- The answer to the control of tick `f`, when the log was given those of all ticks before. -/
def answerAt (log : RideLog) (cs : Timeline) (f : Nat) : Bool :=
  ((log.recordAll cs f).record f (cs f)).2

/-- A log that was given the controls of the first `n` ticks and has refused none of them. -/
structure RecordedUpTo (log : RideLog) (cs : Timeline) (n : Nat) : Prop where
  /-- It was written before tick `n`. -/
  written : log.WrittenUpTo n
  /-- It has as many records as the changes take. -/
  length : log.updates.length = cs.recordsNeeded n
  /-- These are no more than it can hold. -/
  room : log.updates.length ≤ maxRecords
  /-- Its last record is at the last change. -/
  lastPosition : log.lastPosition = cs.changeBefore n
  /-- Its last throttle position is that of the last tick. -/
  lastAccel : log.lastAccel = cs.accelBefore n
  /-- It stands for the controls that it was given. -/
  control : ∀ f < n, log.controlAt f = cs f

/-- At first nothing is to be recorded. -/
theorem recordedUpTo_empty (nonce : UInt32) (cs : Timeline) : (empty nonce).RecordedUpTo cs 0 where
  written := ⟨nofun, List.Pairwise.nil, trivial⟩
  length := rfl
  room := Nat.zero_le _
  lastPosition := rfl
  lastAccel := rfl
  control f hf := absurd hf (Nat.not_lt_zero f)

/-- A tick that changes nothing is accepted, and leaves the log as it is. -/
theorem RecordedUpTo.record_of_not_change (h : log.RecordedUpTo cs n)
    (hc : cs.isChange n = false) :
    log.record n (cs n) = (log, true) ∧ log.RecordedUpTo cs (n + 1) := by
  obtain ⟨haccel, hrotation⟩ := Timeline.isChange_eq_false.mp hc
  rw [← h.lastAccel] at haccel
  refine ⟨record_of_unchanged log n haccel hrotation, ?_⟩
  refine ⟨h.written.mono (Nat.le_succ n), ?_, h.room, ?_, haccel.symm, ?_⟩
  · rw [cs.recordsNeeded_succ, hc, h.length]
    rfl
  · rw [cs.changeBefore_succ, hc, h.lastPosition]
    rfl
  · intro f hf
    rcases Nat.lt_succ_iff_lt_or_eq.mp hf with hlt | rfl
    · exact h.control f hlt
    · rw [h.written.controlAt_of_le (Nat.le_refl f), ← haccel, ← hrotation]

/-- A change is accepted if the records that it takes have room, and read back from then on. -/
theorem RecordedUpTo.record_of_change (h : log.RecordedUpTo cs n) (hc : cs.isChange n = true) :
    ((log.record n (cs n)).2 = true ↔ cs.recordsNeeded (n + 1) ≤ maxRecords) ∧
      ((log.record n (cs n)).2 = true → (log.record n (cs n)).1.RecordedUpTo cs (n + 1)) := by
  have hchange : ¬ ((cs n).accel = log.lastAccel ∧ (cs n).rotation = .none) := by
    rw [h.lastAccel, ← Timeline.isChange_eq_false, hc]
    exact nofun
  obtain ⟨gap, hgap⟩ := Nat.exists_eq_add_of_le (lastPosition_le h.written.below)
  have hneeded : cs.recordsNeeded (n + 1) = log.updates.length + (fillersFor gap + 1) := by
    have hsub : n - log.lastPosition = gap := by omega
    rw [cs.recordsNeeded_succ, if_pos hc, cs.recordsAt_eq, ← h.length, ← h.lastPosition, hsub]
  rw [hneeded]
  rcases Nat.lt_or_ge maxRecords (log.updates.length + (fillersFor gap + 1)) with hlt | hge
  · rw [record_of_no_room hchange hgap.symm h.room hlt]
    exact ⟨⟨nofun, fun hle => absurd hle (Nat.not_le.mpr hlt)⟩, nofun⟩
  · have hrecord := record_of_room hchange hgap.symm hge
    have hrecorded := h.written.record h.room hrecord
    rw [hrecord]
    refine ⟨⟨fun _ => hge, fun _ => rfl⟩, fun _ => ?_⟩
    refine ⟨hrecorded.written, ?_, hrecorded.room, ?_, ?_, ?_⟩
    · rw [hneeded, RideLog.append, List.length_append, length_appendMany, List.length_singleton]
      omega
    · rw [cs.changeBefore_succ, if_pos hc, lastPosition_added]
      omega
    · rw [lastAccel_append, packRecord_control (restOf_le gap)]
      rfl
    · intro f hf
      rcases Nat.lt_succ_iff_lt_or_eq.mp hf with hlt | rfl
      · exact (hrecorded.earlier f hlt).trans (h.control f hlt)
      · exact hrecorded.controlAt

/-- A tick is accepted if all records that are needed by then have room. -/
theorem RecordedUpTo.record (h : log.RecordedUpTo cs n) :
    ((log.record n (cs n)).2 = true ↔ cs.recordsNeeded (n + 1) ≤ maxRecords) ∧
      ((log.record n (cs n)).2 = true → (log.record n (cs n)).1.RecordedUpTo cs (n + 1)) := by
  cases hc : cs.isChange n with
  | true => exact h.record_of_change hc
  | false =>
      obtain ⟨hsame, hnext⟩ := h.record_of_not_change hc
      rw [hsame]
      refine ⟨⟨fun _ => ?_, fun _ => rfl⟩, fun _ => hnext⟩
      rw [← hnext.length]
      exact h.room

/-- None of the first `n` ticks is refused if the records that they need have room, and then the log
says what it was given. -/
theorem accepted_iff (nonce : UInt32) (cs : Timeline) (n : Nat) :
    ((∀ f < n, (empty nonce).answerAt cs f = true) ↔ cs.recordsNeeded n ≤ maxRecords) ∧
      (cs.recordsNeeded n ≤ maxRecords → ((empty nonce).recordAll cs n).RecordedUpTo cs n) := by
  induction n with
  | zero =>
      exact ⟨⟨fun _ => Nat.zero_le _, fun _ f hf => absurd hf (Nat.not_lt_zero f)⟩,
        fun _ => recordedUpTo_empty nonce cs⟩
  | succ n ih =>
      have hle := cs.recordsNeeded_le_succ n
      refine ⟨⟨?_, ?_⟩, ?_⟩
      · intro hall
        have hrecorded := ih.2 (ih.1.mp fun f hf => hall f (Nat.lt_succ_of_lt hf))
        exact hrecorded.record.1.mp (hall n (Nat.lt_succ_self n))
      · -- what has room up to `n + 1` has room up to `n`, so the log is in order there
        intro hneeded f hf
        have hbefore := Nat.le_trans hle hneeded
        rcases Nat.lt_succ_iff_lt_or_eq.mp hf with hlt | rfl
        · exact ih.1.mpr hbefore f hlt
        · exact (ih.2 hbefore).record.1.mpr hneeded
      · intro hneeded
        have hrecorded := ih.2 (Nat.le_trans hle hneeded)
        exact hrecorded.record.2 (hrecorded.record.1.mpr hneeded)

/-! ## The whole timeline -/

/-- **Recording a timeline and reading it back.** The first tick that an empty log refuses is the
change that takes the records needed above what a log can hold. Up to there the log holds exactly
the records needed; they come one after the other, the last of them at the last position, and none
is redundant; and they stand for the controls that the log was given. -/
theorem recordAll_empty (nonce : UInt32) (cs : Timeline) :
    (∀ f, ((empty nonce).answerAt cs f = false ∧ ∀ g < f, (empty nonce).answerAt cs g = true) ↔
      cs.isChange f = true ∧ cs.recordsNeeded f ≤ maxRecords ∧
        maxRecords < cs.recordsNeeded (f + 1)) ∧
    ∀ n, (∀ f < n, (empty nonce).answerAt cs f = true) →
      let log := (empty nonce).recordAll cs n
      log.records.length = cs.recordsNeeded n ∧
      (log.records.Pairwise fun r r' => r.position < r'.position) ∧
      (∀ r ∈ log.records, r.position < n) ∧
      Effective .idle log.records ∧
      log.lastPosition = log.records.getLast?.elim 0 Record.position ∧
      ∀ f < n, log.controlAt f = cs f := by
  refine ⟨?_, ?_⟩
  · intro f
    have hsucc := cs.recordsNeeded_succ f
    constructor
    · rintro ⟨hrefused, hbefore⟩
      have hneeded := (accepted_iff nonce cs f).1.mp hbefore
      have hover : maxRecords < cs.recordsNeeded (f + 1) := by
        apply Nat.lt_of_not_le
        intro hle
        rw [(accepted_iff nonce cs (f + 1)).1.mpr hle f (Nat.lt_succ_self f)] at hrefused
        cases hrefused
      refine ⟨?_, hneeded, hover⟩
      -- a tick without a change needs no more room than there was
      by_contra hc
      rw [if_neg hc] at hsucc
      omega
    · rintro ⟨-, hneeded, hover⟩
      have hbefore := (accepted_iff nonce cs f).1.mpr hneeded
      refine ⟨?_, hbefore⟩
      rw [← Bool.not_eq_true]
      intro haccepted
      have hrecord := ((accepted_iff nonce cs f).2 hneeded).record.1
      exact absurd (hrecord.mp haccepted) (Nat.not_le.mpr hover)
  · intro n haccepted log
    obtain ⟨hiff, hrecorded⟩ := accepted_iff nonce cs n
    have h : log.RecordedUpTo cs n := hrecorded (hiff.mp haccepted)
    refine ⟨?_, h.written.increasing, h.written.below, h.written.effective, ?_, h.control⟩
    · rw [records, length_recordsFrom]
      exact h.length
    · rcases log.records_cases with ⟨hnil, hpos, -⟩ | ⟨rs, r, hsplit, hpos, -⟩
      · rw [hnil, hpos]
        rfl
      · rw [hsplit, List.getLast?_concat, Option.elim_some, hpos]

end RideLog

end RideProof
