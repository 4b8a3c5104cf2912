import RideProof.Log
import RideProof.Physics.Step

/-!
# Replaying a log

`World.replay` drives a state through the records of a log. Before a record takes effect, the
control of the record before it applies; the rotation of a record applies for one tick. The replay
is accepted when the ride reaches the finish on exactly the last tick, after every record. Each
record is looked at when the ride gets to it, so a fault in it is found only there.

* `World.drive` — a list of controls, one tick each.
* `Control.hold`, `World.driveHeld` — the controls of the ticks from one record to the next, and
  driving under them.
* `ReplayError` — why a log does not replay.
* `World.replay` — the whole log, up to a limit on the ticks.
-/

namespace RideProof

/-- Why a log does not replay to an accepted ride. -/
inductive ReplayError
  /-- The record takes effect on the last tick or later. -/
  | recordPastEnd (index : Nat) (position : Int)
  /-- The record does not come after the one before it. -/
  | recordOutOfOrder (index : Nat) (position : Int)
  /-- The record changes nothing. -/
  | redundantRecord (index : Nat)
  /-- The finish is reached early. -/
  | unexpectedSuccess (frame : Int32)
  /-- The ride failed. -/
  | failed (frame : Int32) (reason : Failure)
  /-- The limit on the ticks is reached. -/
  | stopped (frame : Int32)
  /-- The last tick did not reach the finish. -/
  | noSuccess (frame : Int32)
  deriving DecidableEq, Repr

/-- The sentence that reports a fault of a log. -/
def ReplayError.message : ReplayError → String
  | .recordPastEnd index position => s!"record {index} at frame {position} is past the end"
  | .recordOutOfOrder index position => s!"record {index} at frame {position} does not advance"
  | .redundantRecord index => s!"record {index} changes nothing"
  | .unexpectedSuccess frame =>
    s!"success at frame {frame.toInt} does not match the record list"
  | .failed frame reason => s!"run failed at frame {frame.toInt}: {reason.message}"
  | .stopped frame => s!"replay stopped at frame {frame.toInt}"
  | .noSuccess frame => s!"no success by frame {frame.toInt}"

/-- What ends a drive before its last tick. -/
inductive Halt
  /-- The finish is reached. -/
  | success
  /-- A tick failed. -/
  | failed (reason : Failure)
  /-- The limit on the ticks is reached. -/
  | limit
  deriving DecidableEq, Repr

/-- Play one tick under each of a list of controls, until a tick ends the ride or reaches the
limit. -/
def World.drive (w : World) (limit : Int) : List Control → RideState → RideState × Option Halt
  | [], s => (s, none)
  | c :: cs, s =>
    match w.step s c with
    | (s, .continue) => if limit ≤ s.frame.toInt then (s, some .limit) else w.drive limit cs s
    | (s, .success) => (s, some .success)
    | (s, .failure reason) => (s, some (.failed reason))

/-- Driving on is driving the rest from where the first part leads, unless that is a halt. -/
theorem World.drive_append (w : World) (limit : Int) (cs ds : List Control) (s : RideState) :
    w.drive limit (cs ++ ds) s =
      match w.drive limit cs s with
      | (s, some halt) => (s, some halt)
      | (s, none) => w.drive limit ds s := by
  induction cs generalizing s with
  | nil => rfl
  | cons c cs ih =>
    rw [List.cons_append, drive, drive]
    rcases w.step s c with ⟨t, _ | _ | reason⟩
    · by_cases h : limit ≤ t.frame.toInt
      · simp only [h, if_true]
      · simp only [h, if_false, ih]
    · rfl
    · rfl

/-- The controls of `n` ticks from a record on: its throttle position throughout, and its rotation
on the first of them. -/
def Control.hold (c : Control) : (n : Nat) → List Control
  | 0 => []
  | n + 1 => c :: List.replicate n ⟨c.accel, .none⟩

/-- A control is held for the number of ticks asked for. -/
@[simp] theorem Control.length_hold (c : Control) (n : Nat) : (c.hold n).length = n := by
  cases n <;> simp [hold]

/-- Play `n` ticks of a held control. The ticks are counted down and not listed, so that `n` may be
large. -/
def World.driveHeld (w : World) (limit : Int) :
    (n : Nat) → Control → RideState → RideState × Option Halt
  | 0, _, s => (s, none)
  | n + 1, c, s =>
    match w.step s c with
    | (s, .continue) =>
      if limit ≤ s.frame.toInt then (s, some .limit)
      else w.driveHeld limit n ⟨c.accel, .none⟩ s
    | (s, .success) => (s, some .success)
    | (s, .failure reason) => (s, some (.failed reason))

/-- Driving under a held control is driving under the list of its controls. -/
theorem World.driveHeld_eq_drive (w : World) (limit : Int) (n : Nat) (c : Control)
    (s : RideState) : w.driveHeld limit n c s = w.drive limit (c.hold n) s := by
  induction n generalizing c s with
  | zero => rfl
  | succ n ih =>
    have hnext : (⟨c.accel, .none⟩ : Control).hold n = List.replicate n ⟨c.accel, .none⟩ := by
      cases n <;> rfl
    rw [driveHeld, Control.hold, drive]
    simp only [ih, hnext]

/-- The number of ticks from a state to a tick. -/
def RideState.ticksTo (s : RideState) (frame : Nat) : Nat := (frame - s.frame.toInt).toNat

/-- The verdict on a halt while records remain. -/
def Halt.early (s : RideState) : Halt → ReplayError
  | .success => .unexpectedSuccess s.frame
  | .failed reason => .failed s.frame reason
  | .limit => .stopped s.frame

/-- The verdict on a halt after the last record, in a ride of `numFrames` ticks. -/
def Halt.final (numFrames : Nat) (s : RideState) (halt : Halt) : Except ReplayError Unit :=
  if halt = .success ∧ s.frame.toInt = numFrames then .ok () else .error (halt.early s)

/-- The fault of a record by itself, after a record at `before` under throttle `accel`. -/
def Record.fault (r : Record) (numFrames index : Nat) (before : Option Nat) (accel : Accel) :
    Option ReplayError :=
  if numFrames ≤ r.position then some (.recordPastEnd index r.position)
  else if before.any (fun p => decide (r.position ≤ p)) then
    some (.recordOutOfOrder index r.position)
  else if r.redundantAfter accel then some (.redundantRecord index)
  else none

/-- Replay the records from number `index` on. `before` is the position of the last record, and `c`
its control. -/
def World.replayFrom (w : World) (numFrames : Nat) (limit : Int) :
    (records : List Record) → (index : Nat) → (before : Option Nat) → (c : Control) →
      RideState → RideState × Except ReplayError Unit
  | [], _, _, c, s =>
    match w.driveHeld limit (s.ticksTo numFrames) c s with
    | (s, some halt) => (s, halt.final numFrames s)
    | (s, none) => (s, .error (.noSuccess s.frame))
  | r :: rest, index, before, c, s =>
    match r.fault numFrames index before c.accel with
    | some e => (s, .error e)
    | none =>
      match w.driveHeld limit (s.ticksTo r.position) c s with
      | (s, some halt) => (s, .error (halt.early s))
      | (s, none) => w.replayFrom numFrames limit rest (index + 1) (some r.position) r.control s

/-- Replay a log from a state, up to a limit on the ticks. -/
def World.replay (w : World) (s : RideState) (log : RideLog) (limit : Int) :
    RideState × Except ReplayError Unit :=
  w.replayFrom log.numFrames.toNat limit log.records 0 none ⟨.idle, .none⟩ s

/-- The limit of a full check lies beyond the last permitted tick, so that the tick limit itself is
what ends an overlong ride. -/
def checkLimit : Int := 15010

end RideProof
