/-!
# Faults of messages

Why a line or a record of bytes is no message.
-/

namespace RideProof

/-- Why a line is no message. -/
inductive WireError
  /-- The line starts with none of the tags. -/
  | unknownTag
  /-- The payload is too short, counted in digits. -/
  | truncated (expected got : Nat)
  /-- The payload has a byte that is no hexadecimal digit. -/
  | invalidHex
  /-- The log declares more records than it can hold. -/
  | tooManyUpdates (count : Nat)
  deriving DecidableEq, Repr

/-- The sentence that reports a fault of a message. -/
def WireError.message : WireError → String
  | .unknownTag => "unknown message tag"
  | .truncated expected got => s!"message truncated: expected {expected} hex chars, got {got}"
  | .invalidHex => "message payload is not valid hex"
  | .tooManyUpdates count => s!"proof declares {count} records"

end RideProof
