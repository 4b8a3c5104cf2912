import RideProof.Log

/-!
# The timeline of a log

What a log says about every single tick, record positions aside, and what a log has to be so that
it says it in one way only.

* `RideLog.controlAt` — the control of a tick, and `RideLog.timeline`, those of the whole ride.
* `RideLog.WellFormed` — records come one after the other within the ride, and each changes
  something, fillers apart.
-/

namespace RideProof

/-- The throttle position in force at a tick: that of the last record up to it. -/
def accelAt (records : List Record) (tick : Nat) : Accel :=
  match (records.filter fun r => decide (r.position ≤ tick)).getLast? with
  | some r => r.control.accel
  | none => .idle

/-- The rotation requested at a tick: that of a record at it. -/
def rotationAt (records : List Record) (tick : Nat) : Rotation :=
  match records.find? fun r => r.position == tick with
  | some r => r.control.rotation
  | none => .none

/-- Every record changes something or is a filler, the first of them after throttle position
`before`. -/
def Effective (before : Accel) : List Record → Prop
  | [] => True
  | r :: rs => r.redundantAfter before = false ∧ Effective r.control.accel rs

/-- Whether records are effective can be decided one by one. -/
instance Effective.decidable :
    (before : Accel) → (rs : List Record) → Decidable (Effective before rs)
  | _, [] => .isTrue trivial
  | before, r :: rs =>
    have := Effective.decidable r.control.accel rs
    inferInstanceAs (Decidable (r.redundantAfter before = false ∧ Effective r.control.accel rs))

namespace RideLog

/-- The control of a tick. -/
def controlAt (log : RideLog) (tick : Nat) : Control :=
  ⟨accelAt log.records tick, rotationAt log.records tick⟩

/-- The controls of all ticks of the ride, in order. -/
def timeline (log : RideLog) : List Control := (List.range log.numFrames.toNat).map log.controlAt

/-- A log whose records could all have been written during the ride. -/
structure WellFormed (log : RideLog) : Prop where
  /-- Every record takes effect before the last tick. -/
  below : ∀ r ∈ log.records, r.position < log.numFrames.toNat
  /-- Every record comes after those before it. -/
  increasing : log.records.Pairwise fun r r' => r.position < r'.position
  /-- Every record changes something or is a filler. -/
  effective : Effective .idle log.records

/-- Whether a log is well formed can be decided. -/
instance (log : RideLog) : Decidable log.WellFormed :=
  decidable_of_iff
    ((∀ r ∈ log.records, r.position < log.numFrames.toNat) ∧
      (log.records.Pairwise fun r r' => r.position < r'.position) ∧ Effective .idle log.records)
    ⟨fun h => ⟨h.1, h.2.1, h.2.2⟩, fun h => ⟨h.1, h.2, h.3⟩⟩

/-- A ride without records idles. -/
@[simp] theorem controlAt_empty (nonce : UInt32) (tick : Nat) :
    (empty nonce).controlAt tick = ⟨.idle, .none⟩ := rfl

/-- A log without records is well formed. -/
theorem wellFormed_of_no_updates {log : RideLog} (h : log.updates = []) : log.WellFormed := by
  have hr : log.records = [] := by rw [records, h, recordsFrom]
  refine ⟨?_, ?_, ?_⟩
  · intro r hmem
    rw [hr] at hmem
    cases hmem
  · rw [hr]
    exact List.Pairwise.nil
  · rw [hr]
    exact trivial

/-- There is one control for each tick. -/
@[simp] theorem length_timeline (log : RideLog) : log.timeline.length = log.numFrames.toNat := by
  simp [timeline]

end RideLog

end RideProof
