import RideProof.NonceSearch
import RideProof.Text.Blank
import RideProof.Text.Decimal

/-!
# Settings

Defaults for a run of the program, read from the environment. A value that does not fit counts as
missing.

* `readWord` — a 32-bit word in decimal digits.
* `Settings.ofEnvironment` — the settings, and `Settings.options`, `Settings.rules` what they mean.
-/

namespace RideProof

/-- Read digits as a 32-bit word. -/
def readDigits (cs : List Char) : Option UInt32 :=
  if cs ≠ [] ∧ cs.all Decimal.isDigit ∧ Decimal.value cs < UInt32.size then
    some (UInt32.ofNat (Decimal.value cs))
  else none

/-- Read a 32-bit word, perhaps after a plus sign. -/
def readWord (s : String) : Option UInt32 :=
  match s.toList with
  | '+' :: cs => readDigits cs
  | cs => readDigits cs

/-- Whether a value switches something on. -/
def isOn (s : String) : Bool :=
  let word := String.ofList ((Text.trim s.toList).map Char.toLower)
  word == "1" || word == "true" || word == "yes" || word == "on"

/-- The settings of a run. -/
structure Settings where
  /-- The greatest number of attempts of a search. -/
  maxAttempts : UInt32
  /-- The first nonce of a search. -/
  startNonce : UInt32
  /-- Whether the relaxed rules are in force. -/
  testMode : Bool
  deriving DecidableEq, Repr

namespace Settings

/-- The settings of an environment. A search makes at least one attempt. -/
def ofEnvironment (env : String → Option String) : Settings where
  maxAttempts :=
    (((env "MOTO_MAX_NONCE_ATTEMPTS").bind readWord).filter fun n => decide (0 < n)).getD 10000
  startNonce := ((env "MOTO_START_NONCE").bind readWord).getD 0
  testMode := ((env "MOTO_TEST_MODE").map isOn).getD false

/-- The rules in force. -/
def rules (s : Settings) : Rules := if s.testMode then .test else .standard

/-- The options of a search. -/
def options (s : Settings) : SearchOptions := ⟨s.startNonce, s.maxAttempts⟩

end Settings

end RideProof
