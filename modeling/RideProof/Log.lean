import RideProof.Control

/-!
# The ride log

A ride is proved by its nonce, the number of ticks it took and a log of the changes of control. A
record packs the ticks since the record before it and the new control into a 16-bit word. A change
that comes later than one record can say is preceded by fillers: records that carry the largest
number of ticks and change nothing.

* `Record` — a record read from the log, with its position.
* `RideLog.records` — the log as a list of records.
* `RideLog.record` — write down the control of a tick, if it is a change.
* `RideLog.truncate` — cut the log at a tick.
-/

namespace RideProof

/-- The most records that a log holds. -/
def maxRecords : Nat := 60

/-- The number of controls, and so the weight of one tick in a record. -/
def recordUnit : Nat := 12

/-- The number of ticks that a filler carries. -/
def fillerDelta : Nat := 5460

/-- The packed record of a control that takes effect `delta` ticks after the last record. -/
def packRecord (delta : Nat) (c : Control) : UInt16 :=
  UInt16.ofNat (delta * recordUnit + c.rotation.code * 4 + c.accel.code)

/-- The number of ticks that a packed record carries. -/
def deltaOf (word : UInt16) : Nat := word.toNat / recordUnit

/-- All ticks that several words move on together. -/
def totalDelta : List UInt16 → Nat
  | [] => 0
  | word :: words => deltaOf word + totalDelta words

/-- The control that a packed record carries. -/
def controlOf (word : UInt16) : Control where
  accel := Accel.ofCode word.toNat
  rotation := Rotation.ofCode (word.toNat % recordUnit / 4)

/-- A record of the log. -/
structure Record where
  /-- The tick from which its control is in force. -/
  position : Nat
  /-- The ticks since the record before it. -/
  delta : Nat
  /-- Its control. -/
  control : Control
  deriving DecidableEq, Repr

/-- A record with the largest number of ticks may change nothing. -/
def Record.isFiller (r : Record) : Bool := r.delta == fillerDelta

/-- A record is redundant after a throttle position if it changes nothing and is no filler. -/
def Record.redundantAfter (r : Record) (accel : Accel) : Bool :=
  !r.isFiller && r.control.accel == accel && r.control.rotation == .none

/-- The records that packed words stand for, the first of them counted from tick `position`. -/
def recordsFrom (position : Nat) : List UInt16 → List Record
  | [] => []
  | word :: words =>
    ⟨position + deltaOf word, deltaOf word, controlOf word⟩ ::
      recordsFrom (position + deltaOf word) words

/-- The proof of a ride. -/
structure RideLog where
  /-- The nonce of the course. -/
  nonce : UInt32
  /-- The number of ticks played. -/
  numFrames : UInt16
  /-- The packed records. -/
  updates : List UInt16
  deriving DecidableEq, Repr, Inhabited

namespace RideLog

/-- The log of a ride that has not begun. -/
def empty (nonce : UInt32) : RideLog := ⟨nonce, 0, []⟩

/-- The records of a log. -/
def records (log : RideLog) : List Record := recordsFrom 0 log.updates

/-- Whether the log takes no more records. -/
def isFull (log : RideLog) : Bool := decide (maxRecords ≤ log.updates.length)

/-- The control in force after the last record. -/
def lastAccel (log : RideLog) : Accel :=
  match log.updates.getLast? with
  | some word => (controlOf word).accel
  | none => .idle

/-- The position of the last record. -/
def lastPosition (log : RideLog) : Nat := totalDelta log.updates

/-- Append one record, if the log is not full. -/
def push (log : RideLog) (word : UInt16) : RideLog × Bool :=
  if log.isFull then (log, false) else ({ log with updates := log.updates ++ [word] }, true)

/-- Append `n` times the same record, until the log is full. -/
def pushMany (log : RideLog) (word : UInt16) : (n : Nat) → RideLog × Bool
  | 0 => (log, true)
  | n + 1 =>
    match log.push word with
    | (log, true) => log.pushMany word n
    | (log, false) => (log, false)

/-- How many fillers a gap of `n` ticks needs before the record that ends it. -/
def fillersFor (n : Nat) : Nat := (n - 1) / fillerDelta

/-- Write down that a control takes effect at a tick. A control that keeps the throttle and requests
no rotation is in force already. The answer is whether the log is true to the ride afterwards: it is
not if the tick lies before the last record, or if the log has no room; fillers that still found
room stay. -/
def record (log : RideLog) (frame : Int) (c : Control) : RideLog × Bool :=
  let before := log.lastAccel
  if c.accel = before ∧ c.rotation = .none then (log, true)
  else
    let gap := frame - log.lastPosition
    if gap < 0 then (log, false)
    else
      let fillers := fillersFor gap.toNat
      match log.pushMany (packRecord fillerDelta ⟨before, .none⟩) fillers with
      | (log, true) => log.push (packRecord (gap.toNat - fillers * fillerDelta) c)
      | (log, false) => (log, false)

/-- Cut the log at a tick: the ride ends there, and records from there on are dropped. -/
def truncate (log : RideLog) (frame : UInt16) : RideLog :=
  let keep := (log.records.takeWhile fun r => decide (r.position < frame.toNat)).length
  { log with numFrames := frame, updates := log.updates.take keep }

/-- A control that is in force already leaves the log alone. -/
theorem record_of_unchanged (log : RideLog) (frame : Int) {c : Control}
    (ha : c.accel = log.lastAccel) (hr : c.rotation = .none) :
    log.record frame c = (log, true) := by
  simp [record, ha, hr]

/-- There are as many records as packed words. -/
@[simp] theorem length_recordsFrom (p : Nat) (words : List UInt16) :
    (recordsFrom p words).length = words.length := by
  induction words generalizing p with
  | nil => rfl
  | cons word words ih => simp [recordsFrom, ih]

end RideLog

end RideProof
