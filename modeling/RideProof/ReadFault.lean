/-!
# Texts that cannot be read

Why a file or the input holds no text that could be read, and the sentence that says so. The system
numbers its faults; the sentence ends in the number.
-/

namespace RideProof

/-- Why a text cannot be read. -/
inductive ReadFault
  /-- There is nothing under the path. -/
  | missing
  /-- The path may not be read. -/
  | denied
  /-- The path leads through something that is no directory. -/
  | notDirectory
  /-- The path leads to a directory. -/
  | directory
  /-- The path has a name that is too long. -/
  | nameTooLong
  /-- The bytes are no text. -/
  | notText
  /-- Another fault that the system numbers. -/
  | system (number : Nat) (description : String)
  /-- A fault without a number. -/
  | other (description : String)
  deriving DecidableEq, Repr

namespace ReadFault

/-- The fault with a number, which some calls of the system negate. -/
def ofNumber (number : UInt32) (description : String) : ReadFault :=
  match (if number < 0x80000000 then number else -number).toNat with
  | 2 => .missing
  | 13 => .denied
  | 20 => .notDirectory
  | 21 => .directory
  | 36 => .nameTooLong
  | n => .system n description

/-- The sentence on a fault. -/
def message : ReadFault → String
  | .missing => "No such file or directory (os error 2)"
  | .denied => "Permission denied (os error 13)"
  | .notDirectory => "Not a directory (os error 20)"
  | .directory => "Is a directory (os error 21)"
  | .nameTooLong => "File name too long (os error 36)"
  | .notText => "stream did not contain valid UTF-8"
  | .system number description => s!"{description.capitalize} (os error {number})"
  | .other description => description

end ReadFault

end RideProof
