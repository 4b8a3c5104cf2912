import RideProof.Json.Parser
import RideProof.Json.Printer
import RideProof.Script

/-!
# JSON forms

The JSON form of each type that is stored or sent as JSON: `toJson` writes it, `ofJson?` reads it.

* Records are objects with their fields in a fixed order. A reader takes the fields of an object in
  any order, passes over fields it does not know, refuses a field that is given twice, and takes an
  array of the fields in order as well.
* Constructors without fields are strings; a reader takes an object with the name and null as well.
  Constructors with fields are objects with one member, the name and the payload.
* The rotation of a script step may be missing and is none then; so may the nonce of a script.
-/

namespace RideProof

open Json (text)

/-! ## Words -/

namespace Json

/-- A signed 32-bit word. -/
def ofInt32 (w : Int32) : Json := .int w.toInt

/-- Read a signed 32-bit word. -/
def int32? (j : Json) : Option Int32 := (j.intIn (-2147483648) 2147483647).map Int32.ofInt

/-- Read a signed 16-bit word. -/
def int16? (j : Json) : Option Int16 := (j.intIn (-32768) 32767).map Int16.ofInt

/-- Read a 16-bit word. -/
def uint16? (j : Json) : Option UInt16 := (j.intIn 0 65535).map fun n => UInt16.ofNat n.toNat

/-- Read a 32-bit word. -/
def uint32? (j : Json) : Option UInt32 := (j.intIn 0 4294967295).map fun n => UInt32.ofNat n.toNat

/-- Read a count, which fits into 64 bits. -/
def count? (j : Json) : Option Nat := (j.intIn 0 18446744073709551615).map Int.toNat

/-- Read a truth value. -/
def bool? : Json → Option Bool
  | .bool b => some b
  | _ => none

/-- Read a value that may be null. -/
def nullOr {α : Type} (read : Json → Option α) : Json → Option (Option α)
  | .null => some none
  | j => (read j).map some

/-- Read an array of two. -/
def pair? {α : Type} (read : Json → Option α) : Json → Option (Pair α)
  | .array [a, b] => do return ⟨← read a, ← read b⟩
  | _ => none

end Json

/-! ## Controls and results -/

/-- The name of a throttle position. -/
def Accel.name : Accel → String
  | .idle => "idle"
  | .gasLeft => "gas_left"
  | .gasRight => "gas_right"
  | .brake => "brake"

/-- The name of a rotation. -/
def Rotation.name : Rotation → String
  | .none => "none"
  | .cw => "cw"
  | .ccw => "ccw"

/-- The name of a failure. -/
def Failure.name : Failure → String
  | .alreadyDead => "already_dead"
  | .frameCap => "frame_cap"
  | .rotationCooldown => "rotation_cooldown"
  | .wheelInGround => "wheel_in_ground"
  | .headCrash => "head_crash"
  | .timeTargetReached => "time_target_reached"

/-- All throttle positions. -/
def Accel.all : List Accel := [.idle, .gasLeft, .gasRight, .brake]

/-- All rotations. -/
def Rotation.all : List Rotation := [.none, .cw, .ccw]

/-- All failures. -/
def Failure.all : List Failure :=
  [.alreadyDead, .frameCap, .rotationCooldown, .wheelInGround, .headCrash, .timeTargetReached]

/-- Read the name of one of several values. -/
def Json.named? {α : Type} (all : List α) (name : α → String) (j : Json) : Option α := do
  let (tag, payload) ← j.variant
  if Json.isUnit payload then all.find? fun a => name a == tag else none

/-- The JSON form of a throttle position. -/
def Accel.toJson (a : Accel) : Json := text a.name

/-- Read a throttle position. -/
def Accel.ofJson? : Json → Option Accel := Json.named? Accel.all Accel.name

/-- The JSON form of a rotation. -/
def Rotation.toJson (r : Rotation) : Json := text r.name

/-- Read a rotation. -/
def Rotation.ofJson? : Json → Option Rotation := Json.named? Rotation.all Rotation.name

/-- The JSON form of a failure. -/
def Failure.toJson (f : Failure) : Json := text f.name

/-- Read a failure. -/
def Failure.ofJson? : Json → Option Failure := Json.named? Failure.all Failure.name

/-- The JSON form of the result of a tick. -/
def StepResult.toJson : StepResult → Json
  | .continue => text "continue"
  | .success => text "success"
  | .failure reason => .ofFields [("failure", reason.toJson)]

/-- Read the result of a tick. -/
def StepResult.ofJson? (j : Json) : Option StepResult := do
  let (tag, payload) ← j.variant
  match tag, payload with
  | "continue", payload => if Json.isUnit payload then some .continue else none
  | "success", payload => if Json.isUnit payload then some .success else none
  | "failure", some reason => (Failure.ofJson? reason).map .failure
  | _, _ => none

/-! ## States -/

/-- The JSON form of a point. -/
def pointToJson (p : Point) : Json := .array [.ofInt32 p.x, .ofInt32 p.y]

/-- Read a point. -/
def pointOfJson? : Json → Option Point := Json.pair? Json.int32?

/-- The JSON form of a body. -/
def Body.toJson (b : Body) : Json :=
  .ofFields [("pos", pointToJson b.pos), ("vel", pointToJson b.vel), ("ang", .ofInt32 b.ang),
    ("ang_vel", .ofInt32 b.angVel)]

/-- Read a body. -/
def Body.ofJson? (j : Json) : Option Body := do
  match ← j.fields ["pos", "vel", "ang", "ang_vel"] with
  | [some pos, some vel, some ang, some angVel] =>
    return ⟨← pointOfJson? pos, ← pointOfJson? vel, ← ang.int32?, ← angVel.int32?⟩
  | _ => none

/-- The JSON form of a state. -/
def RideState.toJson (s : RideState) : Json :=
  .ofFields [("frame", .ofInt32 s.frame), ("last_rotate", .ofInt32 s.lastRotate),
    ("accel", s.accel.toJson), ("rotation", s.rotation.toJson),
    ("wheels", .array [s.leftWheel.toJson, s.rightWheel.toJson]), ("bike", s.chassis.toJson),
    ("head_pos", pointToJson s.headPos), ("head_vel", pointToJson s.headVel),
    ("dead", .bool s.dead)]

/-- Read a state. -/
def RideState.ofJson? (j : Json) : Option RideState := do
  match ← j.fields ["frame", "last_rotate", "accel", "rotation", "wheels", "bike", "head_pos",
      "head_vel", "dead"] with
  | [some frame, some lastRotate, some accel, some rotation, some wheels, some chassis,
      some headPos, some headVel, some dead] =>
    let wheels ← Json.pair? Body.ofJson? wheels
    return {
      frame := ← frame.int32?
      lastRotate := ← lastRotate.int32?
      accel := ← Accel.ofJson? accel
      rotation := ← Rotation.ofJson? rotation
      leftWheel := wheels.x
      rightWheel := wheels.y
      chassis := ← Body.ofJson? chassis
      headPos := ← pointOfJson? headPos
      headVel := ← pointOfJson? headVel
      dead := ← dead.bool? }
  | _ => none

/-! ## Logs and journals -/

/-- The JSON form of a log. -/
def RideLog.toJson (log : RideLog) : Json :=
  .ofFields [("nonce", .int log.nonce.toNat), ("num_frames", .int log.numFrames.toNat),
    ("updates", .array (log.updates.map fun w => .int w.toNat))]

/-- Read a log. -/
def RideLog.ofJson? (j : Json) : Option RideLog := do
  match ← j.fields ["nonce", "num_frames", "updates"] with
  | [some nonce, some numFrames, some updates] =>
    return ⟨← nonce.uint32?, ← numFrames.uint16?, ← (← updates.items?).mapM Json.uint16?⟩
  | _ => none

/-- The JSON form of a journal. -/
def Journal.toJson (x : Journal) : Json :=
  .ofFields [("nonce", .int x.nonce.toNat), ("frames", .int x.frames.toNat),
    ("updates", .int x.updates), ("height", .ofInt32 x.height),
    ("time_target", .int x.timeTarget.toInt), ("final_state", x.finalState.toJson)]

/-- Read a journal. -/
def Journal.ofJson? (j : Json) : Option Journal := do
  match ← j.fields ["nonce", "frames", "updates", "height", "time_target", "final_state"] with
  | [some nonce, some frames, some updates, some height, some timeTarget, some finalState] =>
    return {
      nonce := ← nonce.uint32?
      frames := ← frames.uint16?
      updates := ← updates.count?
      height := ← height.int32?
      timeTarget := ← timeTarget.int16?
      finalState := ← RideState.ofJson? finalState }
  | _ => none

/-! ## Scripts -/

/-- The JSON form of a script step. -/
def ScriptStep.toJson : ScriptStep → Json
  | .advance c frames =>
    .ofFields [("advance", .ofFields [("accel", c.accel.toJson), ("rotation", c.rotation.toJson),
      ("frames", .int frames.toNat)])]
  | .rewind frame => .ofFields [("rewind", .ofFields [("frame", .ofInt32 frame)])]

/-- Read a script step. -/
def ScriptStep.ofJson? (j : Json) : Option ScriptStep := do
  match ← j.variant with
  | ("advance", some payload) =>
    match ← payload.fields ["accel", "rotation", "frames"] with
    | [some accel, rotation, some frames] =>
      let rotation ← match rotation with
        | none => some .none
        | some rotation => Rotation.ofJson? rotation
      return .advance ⟨← Accel.ofJson? accel, rotation⟩ (← frames.uint32?)
    | _ => none
  | ("rewind", some payload) =>
    match ← payload.fields ["frame"] with
    | [some frame] => return .rewind (← frame.int32?)
    | _ => none
  | _ => none

/-- The JSON form of a script. -/
def Script.toJson (s : Script) : Json :=
  .ofFields [("nonce", match s.nonce with | some n => .int n.toNat | none => .null),
    ("steps", .array (s.steps.map ScriptStep.toJson))]

/-- Read a script. -/
def Script.ofJson? (j : Json) : Option Script := do
  match ← j.fields ["nonce", "steps"] with
  | [nonce, some steps] =>
    let nonce ← match nonce with
      | none => some none
      | some nonce => Json.nullOr Json.uint32? nonce
    return ⟨nonce, ← (← steps.items?).mapM ScriptStep.ofJson?⟩
  | _ => none

/-- Read the text of a script. -/
def Script.ofText (s : String) : Except Trouble Script :=
  match (Json.ofText? s).bind Script.ofJson? with
  | some script => .ok script
  | none => .error .script

/-- The JSON form of the outcome of a demonstration. -/
def Demonstration.toJson (d : Demonstration) : Json :=
  .ofFields ([("nonce", .int d.nonce.toNat), ("result", d.result.toJson),
    ("frame", .ofInt32 d.frame), ("proof", d.log.toJson)] ++
      match d.line with
      | some line => [("line", text line)]
      | none => [])

end RideProof
