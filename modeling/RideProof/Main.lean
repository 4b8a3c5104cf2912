import RideProof.CommandLine

/-!
# The program

Reads the arguments, the environment, the input and the script, and hands them to the command line.
-/

namespace RideProof

/-- The fault behind an error of the system. -/
def faultOf : IO.Error → ReadFault
  | .noFileOrDirectory _ number description => .ofNumber number description
  | .permissionDenied _ number description => .ofNumber number description
  | .inappropriateType _ number description => .ofNumber number description
  | .invalidArgument _ number description => .ofNumber number description
  | .resourceExhausted _ number description => .ofNumber number description
  | .hardwareFault number description => .ofNumber number description
  | .otherError number description => .ofNumber number description
  | e => .other (toString e)

/-- A text from outside, or the reason why it cannot be read. -/
def readText (read : IO ByteArray) : IO (Except ReadFault String) := do
  try
    match String.fromUTF8? (← read) with
    | some text => return .ok text
    | none => return .error .notText
  catch e => return .error (faultOf e)

/-- All of the standard input. -/
def readInput : IO ByteArray := do
  (← IO.getStdin).readBinToEnd

/-- The settings of this run. -/
def readSettings : IO Settings := do
  let attempts ← IO.getEnv "MOTO_MAX_NONCE_ATTEMPTS"
  let start ← IO.getEnv "MOTO_START_NONCE"
  let test ← IO.getEnv "MOTO_TEST_MODE"
  return Settings.ofEnvironment fun name =>
    if name == "MOTO_MAX_NONCE_ATTEMPTS" then attempts
    else if name == "MOTO_START_NONCE" then start
    else if name == "MOTO_TEST_MODE" then test
    else none

/-- The outcome of a run with arguments. -/
def outcomeOf (args : List String) : IO Outcome := do
  match Invocation.parse args with
  | .error usage => return usage.outcome
  | .ok i =>
    let settings ← readSettings
    let input ← if i.readsInput then readText readInput else pure (.ok "")
    let script ← match i.scriptPath with
      | some path => readText (IO.FS.readBinFile path)
      | none => pure (.ok "")
    return i.run settings input script

end RideProof

/-- Run the program. -/
def main (args : List String) : IO UInt32 := do
  let outcome ← RideProof.outcomeOf args
  (← IO.getStdout).putStr outcome.output
  (← IO.getStderr).putStr outcome.errors
  return outcome.code
