import RideProof.Field.Sample

/-!
# Worlds

A `World` is a course to ride: the ground and the finish.
-/

namespace RideProof

/-- A course. -/
structure World where
  /-- The ground. -/
  field : Field
  /-- Where the ride has to get to. -/
  finish : Point
  deriving DecidableEq, Repr

end RideProof
