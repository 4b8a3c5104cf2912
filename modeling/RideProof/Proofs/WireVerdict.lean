import RideProof.Proofs.Lines
import RideProof.Verify

/-!
# Verdicts on what was sent

The layout of a ride log has room for sixty records, and of a longer log the rest is left out. So
a log that fits is judged the same before and after it is sent, and a log that does not fit is
judged, once sent, by its first sixty records.

* `RideLog.cut` — what the layout holds of a log; `RideLog.toBytes_cut`, that it is the same bytes.
* `Message.ofLine_line_cut` — a work unit and any log, sent as a line.
* `Generator.verify_ne_tooManyUpdates` — a log that fits is not refused for its length.
* `Generator.verify_ofLine_line` — when the verdict survives.
-/

namespace RideProof

variable {log : RideLog}

/-! ## Logs that are too long for their layout -/

namespace RideLog

/-- The log with the records that have room in its layout. -/
def cut (log : RideLog) : RideLog := { log with updates := log.updates.take maxRecords }

/-- Cutting records away leaves the count of ticks. -/
@[simp] theorem numFrames_cut (log : RideLog) : log.cut.numFrames = log.numFrames := rfl

/-- A log that is cut fits. -/
theorem length_updates_cut (log : RideLog) : log.cut.updates.length ≤ maxRecords :=
  List.length_take_le ..

/-- A log that fits is not cut. -/
theorem cut_of_length_le (h : log.updates.length ≤ maxRecords) : log.cut = log := by
  rw [cut, List.take_of_length_le h]

/-- The slots hold no record behind the sixtieth. -/
theorem slots_take (updates : List UInt16) : slots (updates.take maxRecords) = slots updates := by
  apply Vector.ext
  intro i hi
  have hslot : i / 2 < maxRecords := by
    unfold maxRecords
    omega
  have hrecord : (updates.take maxRecords).getD (i / 2) 0 = updates.getD (i / 2) 0 := by
    rw [List.getD_eq_getElem?_getD, List.getElem?_take_of_lt hslot, ← List.getD_eq_getElem?_getD]
  rw [slots, slots, Vector.getElem_ofFn, Vector.getElem_ofFn]
  dsimp only
  rw [hrecord]

/-- A log and what is left of it when it is cut have the same layout. -/
theorem toBytes_cut (log : RideLog) : log.cut.toBytes = log.toBytes := by
  have hcount : min (log.updates.take maxRecords).length maxRecords =
      min log.updates.length maxRecords := by
    rw [List.length_take]
    omega
  unfold toBytes cut
  dsimp only
  rw [hcount, slots_take]

end RideLog

/-- A work unit and a log that are sent as a line arrive with the records that have room. -/
theorem Message.ofLine_line_cut (work : WorkUnit) (log : RideLog) :
    ofLine (line (.workAndProof work log)) = .ok (.workAndProof work log.cut) := by
  have hline : line (.workAndProof work log) = line (.workAndProof work log.cut) := by
    simp only [line, kind, payload, RideLog.toBytes_cut]
  have hfits : Fits (.workAndProof work log.cut) := RideLog.length_updates_cut log
  rw [hline]
  exact ofLine_of_spells hfits (spells_line _)

/-! ## Verdicts -/

namespace Generator

variable {g : Generator} {work : WorkUnit} {block : Block} {n : Nat}

/-- A log that is too long is refused for the number of its records before anything is played. -/
theorem check_of_too_many (h : maxRecords < log.updates.length) :
    g.check block log = .error (.tooManyUpdates log.updates.length) := by
  rw [check, if_pos h]

/-- A log that fits is not refused for its length. -/
theorem check_ne_tooManyUpdates (h : log.updates.length ≤ maxRecords) :
    g.check block log ≠ .error (.tooManyUpdates n) := by
  rw [check, if_neg (Nat.not_lt.mpr h)]
  rcases g.generate block log.nonce with reason | ⟨w, s⟩
  · simp
  · dsimp only
    rcases w.replay s log checkLimit with ⟨t, reason | ⟨⟩⟩ <;> simp

/-- A log that fits is not refused for its length by the verdict either. -/
theorem verify_ne_tooManyUpdates (h : log.updates.length ≤ maxRecords) :
    g.verify work log ≠ .error (.tooManyUpdates n) := by
  unfold verify
  split_ifs
  · simp
  · rcases hcheck : g.check work.block log with reason | t
    · intro heq
      obtain rfl := Except.error.inj heq
      exact check_ne_tooManyUpdates h hcheck
    · simp

/-- If the time is in order, a log that is too long is refused for its length. -/
theorem verify_of_too_many (h : maxRecords < log.updates.length)
    (htime : ¬ work.timeTarget.toInt ≤ log.numFrames.toNat) :
    g.verify work log = .error (.tooManyUpdates log.updates.length) := by
  rw [verify, if_neg htime, check_of_too_many h]

/-- **The verdict on what was sent.** A work unit and a log that are sent as a line arrive as the
same work unit and the log cut to sixty records, which is not refused for its length. They are
judged as before they were sent exactly if the log has no more records than that or takes too much
time for the work. -/
theorem verify_ofLine_line (g : Generator) (work : WorkUnit) (log : RideLog) :
    ∃ received : RideLog,
      Message.ofLine (Message.workAndProof work log).line = .ok (.workAndProof work received) ∧
      received = { log with updates := log.updates.take 60 } ∧
      (∀ count, g.verify work received ≠ .error (.tooManyUpdates count)) ∧
      (g.verify work received = g.verify work log ↔
        log.updates.length ≤ 60 ∨ work.timeTarget.toInt ≤ log.numFrames.toNat) := by
  have hfits := RideLog.length_updates_cut log
  refine ⟨log.cut, Message.ofLine_line_cut work log, rfl,
    fun count => verify_ne_tooManyUpdates hfits, ?_⟩
  constructor
  · intro hsame
    by_contra hno
    rw [not_or, Nat.not_le] at hno
    rw [verify_of_too_many hno.1 hno.2] at hsame
    exact verify_ne_tooManyUpdates hfits hsame
  · rintro (hshort | htime)
    · rw [RideLog.cut_of_length_le hshort]
    · rw [verify, verify, RideLog.numFrames_cut, if_pos htime, if_pos htime]

/-- A log of 61 changes of throttle in the air is refused for its length, and no longer once it was
sent. -/
theorem verify_ofLine_line_too_many :
    let work := WorkUnit.zero
    let log : RideLog := ⟨0, 1956, (List.range 61).map fun i => if i % 2 = 0 then 13 else 12⟩
    let g := Generator.standard .test
    ∃ received, Message.ofLine (Message.workAndProof work log).line =
        .ok (.workAndProof work received) ∧
      g.verify work log = .error (.tooManyUpdates 61) ∧
      g.verify work received ≠ g.verify work log := by
  intro work log g
  have hlong : maxRecords < log.updates.length := by decide
  have hverdict : g.verify work log = .error (.tooManyUpdates 61) :=
    verify_of_too_many hlong (by decide)
  refine ⟨log.cut, Message.ofLine_line_cut work log, hverdict, ?_⟩
  rw [hverdict]
  exact verify_ne_tooManyUpdates (RideLog.length_updates_cut log)

end Generator

end RideProof
