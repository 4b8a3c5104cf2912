import RideProof.NonceSearch
import RideProof.Session
import RideProof.Trouble
import RideProof.Wire.Line

/-!
# Scripted rides

* `Generator.verifyLine` — the journal of the ride that a message line proves.
* `Script` — controls to play one after the other, on a given nonce or on the first playable one.
* `Session.afterAll` — where steps lead, whatever they answer.
* `Generator.demonstrate` — play a script until it ends or reaches the finish. A finished ride is
  written as a message line, which is verified before it is handed out.
-/

namespace RideProof

/-- One step of a script. -/
inductive ScriptStep
  /-- Play ticks under one control. -/
  | advance (control : Control) (frames : UInt32)
  /-- Go back to a tick. -/
  | rewind (frame : Int32)
  deriving DecidableEq, Repr

/-- A ride to play. -/
structure Script where
  /-- The nonce of its course; it is searched for if there is none. -/
  nonce : Option UInt32
  /-- What to play. -/
  steps : List ScriptStep
  deriving DecidableEq, Repr

/-- The script without any control, for as long as a ride can last. -/
def Script.idle : Script := ⟨none, [.advance ⟨.idle, .none⟩ 15000]⟩

/-- How a scripted ride ended. -/
structure Demonstration where
  /-- The nonce of its course. -/
  nonce : UInt32
  /-- The result of its last step. -/
  result : StepResult
  /-- The number of ticks played. -/
  frame : Int32
  /-- Its log. -/
  log : RideLog
  /-- The message line of a ride that reached the finish. -/
  line : Option String
  deriving DecidableEq, Repr

namespace Generator

/-- Verify the ride that a message line proves. -/
def verifyLine (g : Generator) (line : String) : Except Trouble Journal :=
  match Message.ofLine line with
  | .error cause => .error (.proofLine cause)
  | .ok (.workAndProof work log) =>
    match g.verify work log with
    | .error cause => .error (.rejected cause)
    | .ok journal => .ok journal
  | .ok _ => .error .otherMessage

/-- The nonce to play a script on. -/
def scriptNonce (g : Generator) (work : WorkUnit) (script : Script) (options : SearchOptions) :
    Except Trouble UInt32 :=
  match script.nonce with
  | some nonce => .ok nonce
  | none =>
    match g.search work.block options neverCancel with
    | none => .error .noAttempts
    | some ⟨none, _⟩ => .error (.noWorld options.maxAttempts)
    | some ⟨some found, _⟩ => .ok found.nonce

end Generator

/-- Play one step. -/
def Session.perform (x : Session) : ScriptStep → Except Trouble (Session × StepResult)
  | .advance control frames => .ok (x.advance control frames.toNat)
  | .rewind frame =>
    match x.rewind frame.toInt with
    | (x, .ok ()) => .ok (x, .continue)
    | (_, .error cause) => .error (.rewind frame cause)

/-- The session after a step, whatever the step answers. -/
def Session.after (x : Session) : ScriptStep → Session
  | .advance control frames => (x.advance control frames.toNat).1
  | .rewind frame => (x.rewind frame.toInt).1

/-- The session after several steps. -/
def Session.afterAll (x : Session) (steps : List ScriptStep) : Session := steps.foldl after x

/-- Play steps until they end or one of them reaches the finish; `result` is the result of the step
before them. -/
def Session.performAll (x : Session) (result : StepResult) :
    List ScriptStep → Except Trouble (Session × StepResult)
  | [] => .ok (x, result)
  | step :: steps =>
    match x.perform step with
    | .error trouble => .error trouble
    | .ok (x, .success) => .ok (x, .success)
    | .ok (x, result) => x.performAll result steps

namespace Generator

/-- Play a script for a work unit. -/
def demonstrate (g : Generator) (work : WorkUnit) (script : Script) (options : SearchOptions) :
    Except Trouble Demonstration := do
  let nonce ← g.scriptNonce work script options
  let session ← (Session.start g work nonce).mapError (Trouble.unplayable nonce)
  let (session, result) ← session.performAll .continue script.steps
  let outcome := Demonstration.mk nonce result session.state.frame session.log none
  if result = .success then
    let line := (Message.workAndProof work session.log).line
    match g.verifyLine line with
    | .error cause => .error (.selfCheck cause)
    | .ok _ => .ok { outcome with line := some line }
  else .ok outcome

end Generator

end RideProof
