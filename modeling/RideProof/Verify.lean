import RideProof.Course
import RideProof.Replay
import RideProof.Work

/-!
# Verifying a ride

A verifier regenerates the course of a log's nonce, replays the log on it and holds the ride to the
time target of the work.

* `Generator.check` — the state in which an accepted ride ends, or the first reason against it.
* `Generator.verify` — the same under a time target, with a `Journal` of what was verified.
-/

namespace RideProof

/-- Why a ride is not accepted. -/
inductive VerifyError
  /-- The log has more records than a log can hold. -/
  | tooManyUpdates (count : Nat)
  /-- The nonce has no course. -/
  | world (reason : WorldRejection)
  /-- The log does not replay. -/
  | replay (reason : ReplayError)
  /-- The ride took as many ticks as the target, or more. -/
  | timeTargetExceeded (frames : UInt16) (target : Int16)
  deriving DecidableEq, Repr

/-- The sentence that reports why a ride is not accepted. -/
def VerifyError.message : VerifyError → String
  | .tooManyUpdates count => s!"too many input records: {count} (max {maxRecords})"
  | .world reason => s!"world regeneration failed: {reason.message}"
  | .replay reason => s!"replay rejected: {reason.message}"
  | .timeTargetExceeded frames target =>
    s!"run took {frames.toNat} frames, target is below {target.toInt}"

/-- What an accepted ride commits to. -/
structure Journal where
  /-- The nonce of its course. -/
  nonce : UInt32
  /-- The number of ticks it took. -/
  frames : UInt16
  /-- The number of records of its log. -/
  updates : Nat
  /-- The height of the work. -/
  height : Int32
  /-- The time target of the work. -/
  timeTarget : Int16
  /-- The state in which it ended. -/
  finalState : RideState
  deriving DecidableEq, Repr

namespace Generator

/-- The state in which the ride of a log ends on the course for a block. -/
def check (g : Generator) (block : Block) (log : RideLog) : Except VerifyError RideState :=
  if maxRecords < log.updates.length then .error (.tooManyUpdates log.updates.length)
  else
    match g.generate block log.nonce with
    | .error reason => .error (.world reason)
    | .ok (w, s) =>
      match w.replay s log checkLimit with
      | (_, .error reason) => .error (.replay reason)
      | (s, .ok ()) => .ok s

/-- The journal of the ride of a log for a work unit. -/
def verify (g : Generator) (work : WorkUnit) (log : RideLog) : Except VerifyError Journal :=
  if work.timeTarget.toInt ≤ log.numFrames.toNat then
    .error (.timeTargetExceeded log.numFrames work.timeTarget)
  else
    match g.check work.block log with
    | .error reason => .error reason
    | .ok s =>
      .ok {
        nonce := log.nonce
        frames := log.numFrames
        updates := log.updates.length
        height := work.height
        timeTarget := work.timeTarget
        finalState := s }

end Generator

end RideProof
