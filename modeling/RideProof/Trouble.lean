import RideProof.ReadFault
import RideProof.Verify
import RideProof.Wire.Error

/-!
# Troubles

What can go wrong for someone who uses the program, with the causes behind it.

* `Trouble.chain` — the sentences that report a trouble, outermost first.
* `Trouble.summary` — the chain in one line.
* `Trouble.report` — the outermost sentence, and the causes below it.
-/

namespace RideProof

/-- What can go wrong. -/
inductive Trouble
  /-- A line that should prove a ride is no message. -/
  | proofLine (cause : WireError)
  /-- A line that should hold work is no message. -/
  | workLine (cause : WireError)
  /-- A line that should prove a ride is another message. -/
  | otherMessage
  /-- A ride is not accepted. -/
  | rejected (cause : VerifyError)
  /-- A search may make no attempt. -/
  | noAttempts
  /-- A search for a course to demonstrate found none. -/
  | noWorld (attempts : UInt32)
  /-- A search found no course. -/
  | noCourse (attempts start : UInt32)
  /-- The nonce of a script has no course. -/
  | unplayable (nonce : UInt32) (cause : WorldRejection)
  /-- A script went back to a tick that does not replay. -/
  | rewind (frame : Int32) (cause : ReplayError)
  /-- The line of a demonstration is not accepted. -/
  | selfCheck (cause : Trouble)
  /-- The text of a script is none. -/
  | script
  /-- The file of a script cannot be read. -/
  | scriptFile (path : String) (cause : ReadFault)
  /-- The input cannot be read. -/
  | input (cause : ReadFault)
  /-- There is nothing to verify. -/
  | noLines
  /-- Some of the lines to verify are not accepted. -/
  | someRejected (count total : Nat)
  /-- Some derived constants are not the ones in force. -/
  | constants (mismatched : Nat)
  deriving DecidableEq, Repr

namespace Trouble

/-- The sentences that report a trouble, outermost first. -/
def chain : Trouble → List String
  | .proofLine cause => ["failed to decode proof line", cause.message]
  | .workLine cause => ["failed to decode work line", cause.message]
  | .otherMessage => ["expected a work-and-proof line"]
  | .rejected cause => ["proof rejected", cause.message]
  | .noAttempts => ["nonce search needs at least one attempt"]
  | .noWorld attempts => [s!"no playable world within {attempts.toNat} nonces"]
  | .noCourse attempts start =>
    [s!"no playable course in {attempts.toNat} nonces from {start.toNat}"]
  | .unplayable nonce cause => [s!"nonce {nonce.toNat} has no playable world: {cause.message}"]
  | .rewind frame cause => [s!"rewind to frame {frame.toInt} failed", cause.message]
  | .selfCheck cause => "demo proof failed self-check" :: cause.chain
  | .script => ["invalid demo script json", "the text is not a script"]
  | .scriptFile path cause => ["failed to read script: " ++ path, cause.message]
  | .input cause => ["failed to read stdin", cause.message]
  | .noLines => ["no proof lines to verify"]
  | .someRejected count total => [s!"{count} of {total} proofs rejected"]
  | .constants mismatched =>
    [s!"{mismatched} derived constants differ from the built-in values"]

/-- The sentences in one line. -/
def summary (t : Trouble) : String := String.intercalate ": " t.chain

/-- The causes behind a trouble, each on a line; they are numbered if there are several. -/
def causeLines : List String → List String
  | [] => []
  | [cause] => ["    " ++ cause]
  | causes => causes.zipIdx.map fun c => s!"    {c.2}: {c.1}"

/-- The outermost sentence, and the causes below it. -/
def report (t : Trouble) : String :=
  match t.chain with
  | [] => ""
  | [sentence] => sentence
  | sentence :: causes =>
    sentence ++ "\n\nCaused by:\n" ++ String.intercalate "\n" (causeLines causes)

end Trouble

end RideProof
