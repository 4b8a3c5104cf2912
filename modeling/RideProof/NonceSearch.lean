import RideProof.Course
import RideProof.Work

/-!
# Searching for a nonce

Nonces are tried in order, from a start on and around the end of the 32-bit range, until one has a
playable course. Before every attempt a hook is asked whether to give up.

* `Generator.searchFrom` — the search from one attempt on.
* `Generator.search` — the search with its options; it needs at least one attempt.
-/

namespace RideProof

/-- A playable course that a search found. -/
structure FoundCourse where
  /-- Its nonce. -/
  nonce : UInt32
  /-- The number of attempts made. -/
  attempts : Nat
  /-- The course. -/
  world : World
  /-- The state to ride it from. -/
  state : RideState

/-- How a search ended. -/
structure SearchOutcome where
  /-- The course, if one was found. -/
  found : Option FoundCourse
  /-- How often the hook was asked. -/
  polls : Nat

/-- Where a search starts and how long it is. -/
structure SearchOptions where
  /-- The first nonce. -/
  startNonce : UInt32
  /-- The greatest number of attempts. -/
  maxAttempts : UInt32
  deriving DecidableEq, Repr

/-- The hook that never gives up. -/
def neverCancel : Nat → Bool := fun _ => false

namespace Generator

/-- Search with `left` attempts left after `tried` of them. `cancel k` is the hook's answer when it
is asked for the time `k + 1`. -/
def searchFrom (g : Generator) (block : Block) (start : UInt32) (cancel : Nat → Bool) :
    (left tried : Nat) → SearchOutcome
  | 0, tried => ⟨none, tried⟩
  | left + 1, tried =>
    if cancel tried then ⟨none, tried + 1⟩
    else
      let nonce := start + UInt32.ofNat tried
      match g.generate block nonce with
      | .ok (world, state) => ⟨some ⟨nonce, tried + 1, world, state⟩, tried + 1⟩
      | .error _ => g.searchFrom block start cancel left (tried + 1)

/-- Search for a playable course for a block; nothing if no attempt is allowed. -/
def search (g : Generator) (block : Block) (options : SearchOptions) (cancel : Nat → Bool) :
    Option SearchOutcome :=
  if options.maxAttempts = 0 then none
  else some (g.searchFrom block options.startNonce cancel options.maxAttempts.toNat 0)

end Generator

end RideProof
