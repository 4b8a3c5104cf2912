import RideProof.Grid.Search
import RideProof.Physics.Step
import RideProof.Target

/-!
# Courses from work

A work block and a nonce determine a course, or no course at all.

* `Rules` — which tests a course has to pass, and where its finish is.
* `Generator` — the rules with the two functions that generation calls on: a hash, and the cost of
  a route. `Generator.standard` has SHA-512 and the cheapest route.
* `Generator.generate` — the course and the state to ride it from, or the first reason against it.
-/

namespace RideProof

/-- What generation is held to. -/
structure Rules where
  /-- Whether the work digest has to meet the block's target. -/
  gate : Bool
  /-- Whether a short enough path to a finish has to exist. -/
  filter : Bool
  /-- Whether the field is flat, not drawn from the hash. -/
  flat : Bool
  /-- Where the finish is. -/
  finish : Point
  deriving DecidableEq, Repr

/-- The finish of standard courses. -/
def standardFinish : Point := ⟨2140000000, 400000000⟩

/-- The finish straight below the start. -/
def testFinish : Point := ⟨0, 294967296⟩

/-- The rules of real work. -/
def Rules.standard : Rules := ⟨true, true, false, standardFinish⟩

/-- Relaxed rules: a flat course that every nonce has. -/
def Rules.test : Rules := ⟨false, false, true, testFinish⟩

/-- Why a block and a nonce have no playable course. -/
inductive WorldRejection
  /-- The work digest is above the target. -/
  | targetMissed
  /-- No finish is reached at a low enough cost. -/
  | pathFilter (bestCost : Option Nat)
  /-- The ground leaves no room at the finish. -/
  | finishInGround (distance : Int32)
  /-- A first tick without control does not leave the ride going on; it failed for this reason, or
  succeeded. -/
  | sanityTick (reason : Option Failure)
  deriving DecidableEq, Repr

/-- The sentence that reports a rejection. -/
def WorldRejection.message : WorldRejection → String
  | .targetMissed => "work digest above difficulty target"
  | .pathFilter (some cost) => s!"course too long: best path cost {cost}"
  | .pathFilter none => "course has no path to a finish"
  | .finishInGround distance => s!"finish is inside the ground (distance {distance.toInt})"
  | .sanityTick (some reason) => s!"first idle tick failed: {reason.message}"
  | .sanityTick none => "first idle tick reached the finish"

/-- The rules and capabilities that generation works with. -/
structure Generator where
  /-- The hash of a message. -/
  digest : List UInt8 → Digest
  /-- The least cost of a route between two cells of a grid, if there is one. -/
  pathCost : WalkGrid → Cell → Cell → Option Nat
  /-- The rules. -/
  rules : Rules

/-- The generator with SHA-512 and the cheapest route. -/
def Generator.standard (rules : Rules) : Generator := ⟨sha512, WalkGrid.pathCost, rules⟩

/-- Gate digests that end in a byte up to this need no path. -/
def pathDiscriminator : UInt8 := 2

/-- The greatest cost of a path that passes. -/
def pathCostBound : Nat := 7300

/-- The cell that paths start from. -/
def pathStart : Cell := ⟨256, 1⟩

/-- The cells that paths may lead to. -/
def pathGoals : List Cell := [⟨508, 464⟩, ⟨4, 464⟩]

/-- What the gate hashes: the nonce and the block. -/
def gatePreimage (block : Block) (nonce : UInt32) : List UInt8 :=
  LittleEndian.digitList 4 nonce.toNat ++ block.toList

namespace Generator

/-- The digest that the gate and the path filter read. -/
def gateDigest (g : Generator) (block : Block) (nonce : UInt32) : Digest :=
  g.digest (gatePreimage block nonce)

/-- One of the eight digests that the field is drawn from. -/
def chunkDigest (g : Generator) (block : Block) (nonce : UInt32) (chunk : Fin 8) : Digest :=
  g.digest (UInt8.ofNat chunk.val :: gatePreimage block nonce)

/-- The bytes of the field before its first row is flattened. -/
def rawField (g : Generator) (block : Block) (nonce : UInt32) : Bytes 512 :=
  if g.rules.flat then Vector.replicate 512 0
  else
    let chunks := Vector.ofFn (g.chunkDigest block nonce)
    Vector.ofFn fun k => chunks[k.val / 64][k.val % 64]

/-- The field of a block and a nonce. -/
def field (g : Generator) (block : Block) (nonce : UInt32) : Field :=
  (Field.ofBytes (g.rawField block nonce)).flattenFirstRow

/-- Whether the work digest passes the gate. -/
def passesGate (g : Generator) (block : Block) (nonce : UInt32) : Bool :=
  !g.rules.gate || (CompactTarget.ofBlock block).metBy (g.gateDigest block nonce)

/-- Whether the path filter looks at a course. -/
def filters (g : Generator) (block : Block) (nonce : UInt32) : Bool :=
  g.rules.filter && decide (pathDiscriminator < (g.gateDigest block nonce)[63])

/-- The least cost of a path to one of the goals. -/
def bestCost (g : Generator) (field : Field) : Option Nat :=
  (pathGoals.filterMap (g.pathCost (WalkGrid.ofField field) pathStart)).min?

/-- Whether a best cost passes the path filter. -/
def shortEnough : Option Nat → Bool
  | some cost => decide (cost ≤ pathCostBound)
  | none => false

/-- Test what does not depend on work: room at the finish, and a first tick without control. -/
def trial (w : World) : Except WorldRejection (World × RideState) :=
  let distance := w.field.groundDistance w.finish
  if distance ≤ wheelRadius then .error (.finishInGround distance)
  else
    match (w.step startState ⟨.idle, .none⟩).2 with
    | .continue => .ok (w, startState)
    | .failure reason => .error (.sanityTick (some reason))
    | .success => .error (.sanityTick none)

/-- The course of a block and a nonce, and the state to ride it from. -/
def generate (g : Generator) (block : Block) (nonce : UInt32) :
    Except WorldRejection (World × RideState) :=
  if g.passesGate block nonce then
    let field := g.field block nonce
    if g.filters block nonce then
      let best := g.bestCost field
      if shortEnough best then trial ⟨field, g.rules.finish⟩ else .error (.pathFilter best)
    else trial ⟨field, g.rules.finish⟩
  else .error .targetMissed

end Generator

end RideProof
