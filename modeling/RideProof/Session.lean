import RideProof.Verify

/-!
# Riding live

A session drives a state forward while it writes the log, and goes back by cutting the log and
replaying it.

* `Session.start`, `Session.ofWorld` — a session at its first tick.
* `Session.advance` — play ticks under one control. A rotation that comes too soon is dropped; once
  the log has no room, the last control in it stays in force; a finished ride is frozen.
* `Session.rewind` — go back to a tick.
-/

namespace RideProof

/-- A ride in progress. -/
structure Session where
  /-- The course. -/
  world : World
  /-- The state before the first tick. -/
  initial : RideState
  /-- The present state. -/
  state : RideState
  /-- The log of the ride so far. -/
  log : RideLog
  /-- The tick at which the ride is over. -/
  timeTarget : Int16
  /-- Whether the ride has reached the finish. -/
  finished : Bool

namespace Session

/-- A session on a world, from a state. -/
def ofWorld (world : World) (initial : RideState) (nonce : UInt32) (timeTarget : Int16) :
    Session where
  world := world
  initial := initial
  state := initial
  log := .empty nonce
  timeTarget := timeTarget
  finished := false

/-- A session on the course of a work unit and a nonce. -/
def start (g : Generator) (work : WorkUnit) (nonce : UInt32) : Except WorldRejection Session :=
  match g.generate work.block nonce with
  | .error reason => .error reason
  | .ok (world, initial) => .ok (ofWorld world initial nonce work.timeTarget)

/-- The control that a tick is played under, and the log that says so: the one that was asked for,
or, if the log has no room for it, the last one in the log. A rotation too soon is not asked for. -/
def controlFor (s : RideState) (log : RideLog) (c : Control) : RideLog × Control :=
  let rotation := if s.canRotate rotationPeriod then c.rotation else .none
  match log.record s.frame.toInt ⟨c.accel, rotation⟩ with
  | (log, true) => (log, ⟨c.accel, rotation⟩)
  | (log, false) => (log, ⟨log.lastAccel, .none⟩)

/-- Play up to `n` ticks, until one ends the ride. A throttle position that the log had no room for
stays replaced. -/
def playTicks (w : World) : (n : Nat) → Control → RideState → RideLog →
    RideState × RideLog × StepResult
  | 0, _, s, log => (s, log, .continue)
  | n + 1, c, s, log =>
    let (log, played) := controlFor s log c
    let (s, result) := w.step s played
    let log := { log with numFrames := s.frame.toUInt32.toUInt16 }
    match result with
    | .continue => playTicks w n ⟨played.accel, c.rotation⟩ s log
    | result => (s, log, result)

/-- The number of ticks left until the time target. -/
def remaining (x : Session) : Nat := (x.timeTarget.toInt - x.state.frame.toInt).toNat

/-- The session and the result after `playTicks`: a ride that is not at the finish by its time
target is over. -/
def conclude (x : Session) : RideState × RideLog × StepResult → Session × StepResult
  | (s, log, result) =>
    let x := { x with state := s, log := log, finished := x.finished || result == .success }
    if result ≠ .success ∧ x.timeTarget.toInt ≤ s.frame.toInt then
      ({ x with state := { s with dead := true } },
        if result = .continue then .failure .timeTargetReached else result)
    else (x, result)

/-- Play up to `frames` ticks under one control. -/
def advance (x : Session) (c : Control) (frames : Nat) : Session × StepResult :=
  if x.finished then (x, .success)
  else if x.state.dead then (x, .failure .alreadyDead)
  else x.conclude (playTicks x.world (min frames x.remaining) c x.state x.log)

/-- Go back to a tick, at most to the last one played: cut the log there and replay it. Replaying up
to the tick of the finish arrives at the finish again. -/
def rewind (x : Session) (frame : Int) : Session × Except ReplayError Unit :=
  let frame := max 0 (min frame x.log.numFrames.toNat)
  let log := x.log.truncate (UInt16.ofInt frame)
  let (s, replayed) := x.world.replay x.initial log frame
  let x := { x with state := s, log := log }
  match replayed with
  | .ok () => ({ x with finished := true }, .ok ())
  | .error (.stopped _) => ({ x with finished := false }, .ok ())
  | .error (.noSuccess _) => ({ x with finished := false }, .ok ())
  | .error reason => ({ x with finished := false }, .error reason)

end Session

end RideProof
