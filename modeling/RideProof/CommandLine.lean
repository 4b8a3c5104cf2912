import RideProof.CommandLine.Help
import RideProof.Derivation
import RideProof.Interchange
import RideProof.Text.Lines

/-!
# Runs of the program

* `Invocation.run` — what an invocation writes, given its settings, its input and its script.
* `Usage.outcome` — what is written to arguments that ask for no run.
* `Outcome` — the exit code, the output and the reports of either.
-/

namespace RideProof

/-- What a run leaves behind. -/
structure Outcome where
  /-- The exit code. -/
  code : UInt32
  /-- What it wrote. -/
  output : String
  /-- What it reported. -/
  errors : String
  deriving DecidableEq, Repr

/-- The outcome of a run that ends well. -/
def Outcome.success (output : String) : Outcome := ⟨0, output, ""⟩

/-- The outcome of a run that ends in trouble. -/
def Outcome.trouble (t : Trouble) : Outcome := ⟨1, "", "Error: " ++ t.report ++ "\n"⟩

/-- The outcome of arguments that ask for nothing that can be run. -/
def Usage.outcome : Usage → Outcome
  | .help topic => .success topic.page
  | .mistake => ⟨2, "", mistakeText⟩

/-- The lines of a text, without line ends. -/
def textLines (s : String) : List String := (Text.lines s.toList).map String.ofList

/-- Whether a line of the input is to be verified. -/
def isProofLine (line : String) : Bool :=
  (Text.afterTag? MessageKind.workAndProof.tag (Text.trimStart line.toList)).isSome

/-- The journals of the lines that are accepted, and the troubles of the others, in order. -/
def verdicts (g : Generator) (lines : List String) : List Journal × List Trouble :=
  lines.foldr (fun line r =>
    match g.verifyLine line with
    | .ok journal => (journal :: r.1, r.2)
    | .error t => (r.1, t :: r.2)) ([], [])

/-- Verify lines. -/
def verifyLines (g : Generator) (lines : List String) : Outcome :=
  if lines.isEmpty then .trouble .noLines
  else
    let (journals, troubles) := verdicts g lines
    let output := String.join (journals.map fun j => j.toJson.compact ++ "\n")
    if troubles.isEmpty then .success output
    else
      let reports := String.join (troubles.map fun t => "REJECTED: " ++ t.summary ++ "\n")
      ⟨1, output,
        reports ++ (Outcome.trouble (.someRejected troubles.length lines.length)).errors⟩

/-- The work unit of a line, or of zeros without one. -/
def workOfLine : Option String → Except Trouble WorkUnit
  | none => .ok .zero
  | some line =>
    match Message.ofLine line with
    | .error cause => .error (.workLine cause)
    | .ok (.work w) => .ok w
    | .ok (.getWork w) => .ok w
    | .ok (.workAndProof w _) => .ok w

/-- What is written of a course that was found. -/
def FoundCourse.report (c : FoundCourse) : String :=
  s!"Playable course found.\n  Nonce:     {c.nonce.toNat}\n  Attempts:  {c.attempts}\n" ++
    s!"  Finish:    [{c.world.finish.x.toInt}, {c.world.finish.y.toInt}]\n"

/-- Search for a course. -/
def mineCourse (g : Generator) (work : Option String) (options : SearchOptions) :
    Except Trouble String := do
  let work ← workOfLine work
  match g.search work.block options neverCancel with
  | none => .error .noAttempts
  | some ⟨none, _⟩ => .error (.noCourse options.maxAttempts options.startNonce)
  | some ⟨some found, _⟩ => .ok found.report

/-- Play a script, which is given with the path of its file and the text read from there. -/
def playScript (g : Generator) (work : Option String)
    (script : Option (String × Except ReadFault String)) (options : SearchOptions) :
    Except Trouble String := do
  let work ← workOfLine work
  let script ← match script with
    | none => Except.ok Script.idle
    | some (path, .error cause) => .error (.scriptFile path cause)
    | some (_, .ok text) => Script.ofText text
  let outcome ← g.demonstrate work script options
  return outcome.toJson.pretty ++ "\n" ++
    match outcome.line with
    | some line => "\n" ++ line ++ "\n"
    | none => ""

/-- The line of a derived constant. -/
def DerivedConstant.row (c : DerivedConstant) : String :=
  "  " ++ Text.padRight 28 c.name ++ " " ++ Text.padLeft 20 (toString c.derived) ++ " " ++
    Text.padLeft 20 (toString c.inForce) ++ "  " ++ (if c.agrees then "ok" else "MISMATCH") ++ "\n"

/-- Compare derived constants with those in force. -/
def compareConstants (constants : List DerivedConstant) : Outcome :=
  let output := String.join (constants.map DerivedConstant.row)
  match constants.countP fun c => !c.agrees with
  | 0 => .success output
  | n => { Outcome.trouble (.constants n) with output := output }

/-- An outcome from what is written or the trouble. -/
def Outcome.ofResult : Except Trouble String → Outcome
  | .ok output => .success output
  | .error t => .trouble t

namespace Invocation

/-- The file of the script that an invocation plays. -/
def scriptPath (i : Invocation) : Option String :=
  match i.command with
  | .demo _ path _ _ => path
  | _ => none

/-- Whether an invocation reads its input. -/
def readsInput (i : Invocation) : Bool :=
  match i.command with
  | .verify none => true
  | _ => false

/-- The outcome of an invocation. `input` is the text of its input, or why it cannot be read, and
`script` that of the file of its script. -/
def run (i : Invocation) (settings : Settings) (input script : Except ReadFault String) : Outcome :=
  let g := Generator.standard
    { settings with testMode := settings.testMode || i.testMode }.rules
  let options (startNonce maxAttempts : Option UInt32) : SearchOptions :=
    ⟨startNonce.getD settings.startNonce, maxAttempts.getD settings.maxAttempts⟩
  match i.command with
  | .verify (some line) => verifyLines g [line]
  | .verify none =>
    match input with
    | .error cause => .trouble (.input cause)
    | .ok text => verifyLines g ((textLines text).filter isProofLine)
  | .mine work startNonce maxAttempts =>
    .ofResult (mineCourse g work (options startNonce maxAttempts))
  | .demo work path startNonce maxAttempts =>
    .ofResult (playScript g work (path.map fun p => (p, script)) (options startNonce maxAttempts))
  | .constants => compareConstants derivation

end Invocation

end RideProof
