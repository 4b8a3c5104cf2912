import Mathlib.Data.List.Nodup
import RideProof.Proofs.OneLine
import RideProof.Proofs.ValueText

/-!
# What is read back

States, results, logs, journals and scripts are read back from the text that is written of them, and
from every other spelling of it: with blanks between the tokens, with the fields of every record in
any order, and with further fields that the record does not have.

* `Json.Shape`, `Shape.Respells` — the records in a value, and the values that differ from it in the
  order of their fields and in fields that they do not have.
* `Shape.fields_of_respells` — the fields of a record are found in every such value.
* `RideState.ofJson?_of_respells`, `Script.ofJson?_of_respells` and the like — one type after the
  other is read off every such value of its own.
* `Shape.Spells`, `Shape.Throughout` — the texts of all those values, and what holds of them.
* `text_round_trip` — what is written is read back.
-/

namespace RideProof

namespace Json

/-! ## Records -/

/-- Where a value has records. -/
inductive Shape
  /-- Nowhere. -/
  | plain
  /-- In its items, which are of one shape. -/
  | list (item : Shape)
  /-- It is one, with these fields. -/
  | record (fields : List (String × Shape))
  /-- In the payload of a constructor, one of these. -/
  | tagged (payloads : List (String × Shape))

mutual

/-- A value and another that says the same: every record in it may have its fields in another order,
and fields with names that are not its own. -/
inductive Shape.Respells : Shape → Json → Json → Prop
  /-- A value without records stays as it is. -/
  | plain {v : Json} : Respells .plain v v
  /-- A list is respelled item by item. -/
  | list {item : Shape} {vs ws : List Json} : RespellsItems item vs ws →
      Respells (.list item) (.array vs) (.array ws)
  /-- A record is respelled field by field, and its fields stand among others in any order. -/
  | record {fields : List (String × Shape)} {ms ns others members : List (String × Json)} :
      RespellsFields fields ms ns → (∀ m ∈ others, m.1 ∉ fields.map Prod.fst) →
      members.Perm (ns ++ others) → Respells (.record fields) (.ofFields ms) (.ofFields members)
  /-- Of a constructor, its payload is respelled. -/
  | tagged {payloads : List (String × Shape)} {name : String} {payload : Shape} {v w : Json} :
      (name, payload) ∈ payloads → Respells payload v w →
      Respells (.tagged payloads) (.ofFields [(name, v)]) (.ofFields [(name, w)])

/-- Items and others that say the same. -/
inductive Shape.RespellsItems : Shape → List Json → List Json → Prop
  /-- No item. -/
  | nil {item : Shape} : RespellsItems item [] []
  /-- One more item in front. -/
  | cons {item : Shape} {v w : Json} {vs ws : List Json} : Respells item v w →
      RespellsItems item vs ws → RespellsItems item (v :: vs) (w :: ws)

/-- Fields and others that say the same. -/
inductive Shape.RespellsFields :
    List (String × Shape) → List (String × Json) → List (String × Json) → Prop
  /-- No field. -/
  | nil : RespellsFields [] [] []
  /-- One more field in front. -/
  | cons {name : String} {shape : Shape} {fields : List (String × Shape)} {v w : Json}
      {ms ns : List (String × Json)} : Respells shape v w → RespellsFields fields ms ns →
      RespellsFields ((name, shape) :: fields) ((name, v) :: ms) ((name, w) :: ns)

end

/-! ## Members of objects -/

section

variable {ms ns others members : List (String × Json)}

/-- An object of fields with values determines them. -/
theorem ofFields_injective (h : ofFields ms = ofFields ns) : ms = ns := by
  have hmember : Function.Injective fun m : String × Json => (some m.1, m.2) := by
    intro m n heq
    obtain ⟨hname, hvalue⟩ := Prod.mk.inj heq
    exact Prod.ext (Option.some.inj hname) hvalue
  exact List.map_injective_iff.mpr hmember (Json.object.inj h)

/-- Among fields with names of their own, only a field itself has its name. -/
theorem filter_fst_eq (hnodup : (ns.map Prod.fst).Nodup) {m : String × Json} (hm : m ∈ ns) :
    ns.filter (fun n => n.1 == m.1) = [m] := by
  induction ns with
  | nil => cases hm
  | cons n ns ih =>
    obtain ⟨hn, hnodup⟩ := List.nodup_cons.mp hnodup
    obtain rfl | hm := List.mem_cons.mp hm
    · have hrest : ns.filter (fun n => n.1 == m.1) = [] := by
        refine List.filter_eq_nil_iff.mpr fun n hmem heq => hn ?_
        rw [← eq_of_beq heq]
        exact List.mem_map_of_mem hmem
      rw [List.filter_cons, if_pos (beq_self_eq_true m.1), hrest]
    · have hne : n.1 ≠ m.1 := fun heq => hn (heq ▸ List.mem_map_of_mem hm)
      rw [List.filter_cons_of_neg (by simpa using hne), ih hnodup hm]

/-- A field is found among others with other names, in any order. -/
theorem uniqueMember_of_perm (hperm : members.Perm (ns ++ others))
    (hnodup : (ns.map Prod.fst).Nodup) {m : String × Json} (hm : m ∈ ns)
    (hothers : ∀ n ∈ others, n.1 ≠ m.1) :
    uniqueMember (members.map fun m => (some m.1, m.2)) m.1 = some (some m.2) := by
  have hnone : others.filter (fun n => n.1 == m.1) = [] :=
    List.filter_eq_nil_iff.mpr fun n hn => by simpa using hothers n hn
  have hperm := hperm.filter fun n => n.1 == m.1
  rw [List.filter_append, filter_fst_eq hnodup hm, hnone, List.append_nil] at hperm
  have hfilter : (members.map fun m => (some m.1, m.2)).filter (fun n => n.1 == some m.1) =
      [(some m.1, m.2)] := by
    rw [List.filter_map]
    change (members.filter fun n => n.1 == m.1).map _ = _
    rw [List.perm_singleton.mp hperm]
    rfl
  rw [uniqueMember, hfilter]

end

/-! ## Fields of records -/

namespace Shape

variable {item : Shape} {fields : List (String × Shape)} {ms ns : List (String × Json)}
  {v w k : Json}

/-- A value without records says the same as itself only. -/
theorem respells_plain_iff : Respells .plain v w ↔ w = v := by
  constructor
  · rintro ⟨⟩
    rfl
  · rintro rfl
    exact .plain

/-- What says the same as a record is an object with its fields, respelled, and with others that it
does not have. -/
theorem respells_record (h : Respells (.record fields) (.ofFields ms) k) :
    ∃ ns others members, RespellsFields fields ms ns ∧
      (∀ m ∈ others, m.1 ∉ fields.map Prod.fst) ∧ members.Perm (ns ++ others) ∧
      k = .ofFields members := by
  generalize hv : Json.ofFields ms = v at h
  cases h with
  | record hfields hothers hperm =>
    obtain rfl := ofFields_injective hv
    exact ⟨_, _, _, hfields, hothers, hperm, rfl⟩

/-- What says the same as a constructor with a payload is the constructor with that payload
respelled. -/
theorem respells_tagged {payloads : List (String × Shape)} {name : String}
    (h : Respells (.tagged payloads) (.ofFields [(name, v)]) k) :
    ∃ payload w, (name, payload) ∈ payloads ∧ Respells payload v w ∧ k = .ofFields [(name, w)] := by
  generalize hv : Json.ofFields [(name, v)] = u at h
  cases h with
  | tagged hpayload hw =>
    obtain ⟨⟨rfl, rfl⟩, -⟩ := List.cons.inj (ofFields_injective hv)
    exact ⟨_, _, hpayload, hw, rfl⟩

/-- Respelled fields keep their names, in their order. -/
theorem RespellsFields.map_fst (h : RespellsFields fields ms ns) :
    ns.map Prod.fst = fields.map Prod.fst := by
  induction fields generalizing ms ns with
  | nil =>
    cases h
    rfl
  | cons field fields ih =>
    cases h with
    | cons hv h => rw [List.map_cons, List.map_cons, ih h]

/-- If every respelled field is found under its name, the names lead to the values in their
order. -/
theorem RespellsFields.mapM (h : RespellsFields fields ms ns)
    {find : String → Option (Option Json)} (hfind : ∀ m ∈ ns, find m.1 = some (some m.2)) :
    (fields.map Prod.fst).mapM find = some (ns.map fun m => some m.2) := by
  induction fields generalizing ms ns with
  | nil =>
    cases h
    rfl
  | cons field fields ih =>
    cases h with
    | cons hv h =>
      obtain ⟨hm, hns⟩ := List.forall_mem_cons.mp hfind
      rw [List.map_cons, List.mapM_cons, hm, ih h hns]
      rfl

/-- The fields of a record are found however it is respelled. -/
theorem fields_of_respells (h : Respells (.record fields) (.ofFields ms) k)
    (hnodup : (fields.map Prod.fst).Nodup) :
    ∃ ns, RespellsFields fields ms ns ∧
      k.fields (fields.map Prod.fst) = some (ns.map fun m => some m.2) := by
  obtain ⟨ns, others, members, hfields, hothers, hperm, rfl⟩ := respells_record h
  refine ⟨ns, hfields, ?_⟩
  have hnames : (members.map fun m => (some m.1, m.2)).all (fun m => m.1.isSome) = true := by
    simp
  rw [ofFields, Json.fields, if_pos hnames]
  refine hfields.mapM fun m hm => uniqueMember_of_perm hperm (hfields.map_fst ▸ hnodup) hm ?_
  intro n hn heq
  apply hothers n hn
  rw [heq, ← hfields.map_fst]
  exact List.mem_map_of_mem hm

/-- A list is read item by item. -/
theorem mapM_of_respells {α : Type} {write : α → Json} {read : Json → Option α}
    (hread : ∀ x w, item.Respells (write x) w → read w = some x) {xs : List α} {ws : List Json}
    (h : RespellsItems item (xs.map write) ws) : ws.mapM read = some xs := by
  induction xs generalizing ws with
  | nil =>
    cases h
    rfl
  | cons x xs ih =>
    cases h with
    | cons hw h =>
      rw [List.mapM_cons, hread x _ hw, ih h]
      rfl

/-! ## What is written -/

/-- A record says the same as itself if each of its fields does. -/
theorem Respells.refl_record (h : RespellsFields fields ms ms) :
    Respells (.record fields) (.ofFields ms) (.ofFields ms) := by
  refine .record h (List.forall_mem_nil _) ?_
  rw [List.append_nil]

/-- A list of written items says the same as itself if each item does. -/
theorem Respells.refl_list {α : Type} {write : α → Json}
    (h : ∀ x, item.Respells (write x) (write x)) (xs : List α) :
    Respells (.list item) (.array (xs.map write)) (.array (xs.map write)) := by
  refine .list ?_
  induction xs with
  | nil => exact .nil
  | cons x xs ih => exact .cons (h x) ih

end Shape

/-- A number that is no integer stands in a written list only if it stands in the form of an
item. -/
theorem real_notMem_itemTokens {α : Type} {write : α → Json} {text : List Char}
    (h : ∀ x, Token.real text ∉ (write x).tokens) (xs : List α) :
    Token.real text ∉ itemTokens (xs.map write) := by
  induction xs with
  | nil => exact List.not_mem_nil
  | cons x xs ih =>
    cases xs with
    | nil => exact h x
    | cons y xs => simp_all [itemTokens]

/-! ## Words -/

/-- A signed 32-bit word is read back from the integer that is written for it. -/
@[simp] theorem int32?_ofInt32 (w : Int32) : (ofInt32 w).int32? = some w := by
  have hlow := w.le_toInt
  have hhigh := w.toInt_lt
  rw [ofInt32, int32?, intIn, if_pos (by omega), Option.map_some, Int32.ofInt_toInt]

/-- A signed 16-bit word is read back from the integer that is written for it. -/
@[simp] theorem int16?_toInt (w : Int16) : (int w.toInt).int16? = some w := by
  have hlow := w.le_toInt
  have hhigh := w.toInt_lt
  rw [int16?, intIn, if_pos (by omega), Option.map_some, Int16.ofInt_toInt]

/-- A 16-bit word is read back from the integer that is written for it. -/
@[simp] theorem uint16?_toNat (w : UInt16) : (int w.toNat).uint16? = some w := by
  have hhigh := w.toNat_lt
  rw [uint16?, intIn, if_pos (by omega), Option.map_some, Int.toNat_natCast, UInt16.ofNat_toNat]

/-- A 32-bit word is read back from the integer that is written for it. -/
@[simp] theorem uint32?_toNat (w : UInt32) : (int w.toNat).uint32? = some w := by
  have hhigh := w.toNat_lt
  rw [uint32?, intIn, if_pos (by omega), Option.map_some, Int.toNat_natCast, UInt32.ofNat_toNat]

/-- A count is read back from the integer that is written for it, if it fits into 64 bits. -/
theorem count?_natCast {n : Nat} (h : n < UInt64.size) : (int n).count? = some n := by
  have hsize : UInt64.size = 18446744073709551616 := rfl
  rw [count?, intIn, if_pos (by omega), Option.map_some, Int.toNat_natCast]

end Json

open Json (Shape)

/-! ## Controls, results and points -/

/-- A throttle position is read back from its name. -/
@[simp] theorem Accel.ofJson?_toJson (a : Accel) : Accel.ofJson? a.toJson = some a := by
  cases a <;> rfl

/-- A rotation is read back from its name. -/
@[simp] theorem Rotation.ofJson?_toJson (r : Rotation) : Rotation.ofJson? r.toJson = some r := by
  cases r <;> rfl

/-- A failure is read back from its name. -/
theorem Failure.ofJson?_toJson (f : Failure) : Failure.ofJson? f.toJson = some f := by
  cases f <;> rfl

/-- The result of a tick is read back from the value that is written for it. -/
theorem StepResult.ofJson?_toJson (r : StepResult) : StepResult.ofJson? r.toJson = some r := by
  cases r with
  | failure reason =>
    simp [StepResult.ofJson?, StepResult.toJson, Json.ofFields, Json.variant,
      Failure.ofJson?_toJson]
  | _ => rfl

/-- No number is written in the result of a tick. -/
theorem StepResult.real_notMem_tokens (r : StepResult) (text : List Char) :
    Json.Token.real text ∉ r.toJson.tokens := by
  cases r <;> simp [StepResult.toJson, Failure.toJson, Json.text, Json.ofFields, Json.tokens,
    Json.memberTokens]

/-- A point is read back from the pair that is written for it. -/
@[simp] theorem pointOfJson?_pointToJson (p : Point) : pointOfJson? (pointToJson p) = some p := by
  simp [pointOfJson?, pointToJson, Json.pair?]

/-! ## States -/

/-- The records in a body. -/
def Body.shape : Shape :=
  .record [("pos", .plain), ("vel", .plain), ("ang", .plain), ("ang_vel", .plain)]

/-- A body is read off every value that says the same as the one written for it. -/
theorem Body.ofJson?_of_respells {b : Body} {j : Json} (h : Body.shape.Respells b.toJson j) :
    Body.ofJson? j = some b := by
  obtain ⟨ns, hns, hfields⟩ := Shape.fields_of_respells h (by decide)
  obtain _ | ⟨⟨⟩, _ | ⟨⟨⟩, _ | ⟨⟨⟩, _ | ⟨⟨⟩, _ | _⟩⟩⟩⟩ := hns
  change j.fields ["pos", "vel", "ang", "ang_vel"] = _ at hfields
  simp [Body.ofJson?, hfields]

/-- What is written for a body says the same as itself. -/
theorem Body.respells_toJson (b : Body) : Body.shape.Respells b.toJson b.toJson :=
  .refl_record (.cons .plain (.cons .plain (.cons .plain (.cons .plain .nil))))

/-- The records in a state. -/
def RideState.shape : Shape :=
  .record [("frame", .plain), ("last_rotate", .plain), ("accel", .plain), ("rotation", .plain),
    ("wheels", .list Body.shape), ("bike", Body.shape), ("head_pos", .plain), ("head_vel", .plain),
    ("dead", .plain)]

/-- A state is read off every value that says the same as the one written for it. -/
theorem RideState.ofJson?_of_respells {s : RideState} {j : Json}
    (h : RideState.shape.Respells s.toJson j) : RideState.ofJson? j = some s := by
  obtain ⟨ns, hns, hfields⟩ := Shape.fields_of_respells h (by decide)
  obtain _ | ⟨⟨⟩, _ | ⟨⟨⟩, _ | ⟨⟨⟩, _ | ⟨⟨⟩, _ | ⟨hwheels, _ | ⟨hchassis, _ | ⟨⟨⟩, _ | ⟨⟨⟩,
    _ | ⟨⟨⟩, _ | _⟩⟩⟩⟩⟩⟩⟩⟩⟩ := hns
  obtain _ | ⟨_ | ⟨hleft, _ | ⟨hright, _ | _⟩⟩⟩ := hwheels
  change j.fields ["frame", "last_rotate", "accel", "rotation", "wheels", "bike", "head_pos",
    "head_vel", "dead"] = _ at hfields
  simp [RideState.ofJson?, hfields, Json.pair?, Json.bool?, Body.ofJson?_of_respells hleft,
    Body.ofJson?_of_respells hright, Body.ofJson?_of_respells hchassis]

/-- What is written for a state says the same as itself. -/
theorem RideState.respells_toJson (s : RideState) : RideState.shape.Respells s.toJson s.toJson :=
  .refl_record (.cons .plain (.cons .plain (.cons .plain (.cons .plain
    (.cons (.refl_list Body.respells_toJson [s.leftWheel, s.rightWheel])
      (.cons s.chassis.respells_toJson (.cons .plain (.cons .plain (.cons .plain .nil)))))))))

/-- All numbers in a state are integers. -/
theorem RideState.real_notMem_tokens (s : RideState) (text : List Char) :
    Json.Token.real text ∉ s.toJson.tokens := by
  simp [RideState.toJson, Body.toJson, pointToJson, Json.ofFields, Json.ofInt32, Json.tokens,
    Json.memberTokens, Json.itemTokens, Accel.toJson, Rotation.toJson, Json.text]

/-! ## Logs and journals -/

/-- The records in a log. -/
def RideLog.shape : Shape :=
  .record [("nonce", .plain), ("num_frames", .plain), ("updates", .list .plain)]

/-- A log is read off every value that says the same as the one written for it. -/
theorem RideLog.ofJson?_of_respells {log : RideLog} {j : Json}
    (h : RideLog.shape.Respells log.toJson j) : RideLog.ofJson? j = some log := by
  obtain ⟨ns, hns, hfields⟩ := Shape.fields_of_respells h (by decide)
  obtain _ | ⟨⟨⟩, _ | ⟨⟨⟩, _ | ⟨hupdates, _ | _⟩⟩⟩ := hns
  obtain _ | ⟨hitems⟩ := hupdates
  have hword (w : UInt16) (k : Json) (hk : Shape.plain.Respells (.int w.toNat) k) :
      k.uint16? = some w := by
    rw [Shape.respells_plain_iff.mp hk, Json.uint16?_toNat]
  have hread := Shape.mapM_of_respells hword hitems
  change j.fields ["nonce", "num_frames", "updates"] = _ at hfields
  simp [RideLog.ofJson?, hfields, Json.items?, hread]

/-- What is written for a log says the same as itself. -/
theorem RideLog.respells_toJson (log : RideLog) : RideLog.shape.Respells log.toJson log.toJson :=
  .refl_record (.cons .plain (.cons .plain
    (.cons (.refl_list (fun _ => .plain) log.updates) .nil)))

/-- All numbers in a log are integers. -/
theorem RideLog.real_notMem_tokens (log : RideLog) (text : List Char) :
    Json.Token.real text ∉ log.toJson.tokens := by
  have hword (w : UInt16) : Json.Token.real text ∉ (Json.int w.toNat).tokens := by
    simp [Json.tokens]
  simp [RideLog.toJson, Json.ofFields, Json.tokens, Json.memberTokens,
    Json.real_notMem_itemTokens hword]

/-- The records in a journal. -/
def Journal.shape : Shape :=
  .record [("nonce", .plain), ("frames", .plain), ("updates", .plain), ("height", .plain),
    ("time_target", .plain), ("final_state", RideState.shape)]

/-- A journal whose count of records fits into 64 bits is read off every value that says the same as
the one written for it. -/
theorem Journal.ofJson?_of_respells {x : Journal} (hupdates : x.updates < UInt64.size) {j : Json}
    (h : Journal.shape.Respells x.toJson j) : Journal.ofJson? j = some x := by
  obtain ⟨ns, hns, hfields⟩ := Shape.fields_of_respells h (by decide)
  obtain _ | ⟨⟨⟩, _ | ⟨⟨⟩, _ | ⟨⟨⟩, _ | ⟨⟨⟩, _ | ⟨⟨⟩, _ | ⟨hstate, _ | _⟩⟩⟩⟩⟩⟩ := hns
  change j.fields ["nonce", "frames", "updates", "height", "time_target", "final_state"] = _
    at hfields
  simp [Journal.ofJson?, hfields, Json.count?_natCast hupdates,
    RideState.ofJson?_of_respells hstate]

/-- What is written for a journal says the same as itself. -/
theorem Journal.respells_toJson (x : Journal) : Journal.shape.Respells x.toJson x.toJson :=
  .refl_record (.cons .plain (.cons .plain (.cons .plain (.cons .plain (.cons .plain
    (.cons x.finalState.respells_toJson .nil))))))

/-! ## Scripts -/

/-- The records in a step of a script. -/
def ScriptStep.shape : Shape :=
  .tagged [("advance", .record [("accel", .plain), ("rotation", .plain), ("frames", .plain)]),
    ("rewind", .record [("frame", .plain)])]

/-- A step of a script is read off every value that says the same as the one written for it. -/
theorem ScriptStep.ofJson?_of_respells {step : ScriptStep} {j : Json}
    (h : ScriptStep.shape.Respells step.toJson j) : ScriptStep.ofJson? j = some step := by
  cases step with
  | advance c frames =>
    obtain ⟨payload, k, hpayload, hk, rfl⟩ := Shape.respells_tagged h
    obtain rfl : payload =
        .record [("accel", .plain), ("rotation", .plain), ("frames", .plain)] := by
      simpa using hpayload
    obtain ⟨ns, hns, hfields⟩ := Shape.fields_of_respells hk (by decide)
    obtain _ | ⟨⟨⟩, _ | ⟨⟨⟩, _ | ⟨⟨⟩, _ | _⟩⟩⟩ := hns
    change k.fields ["accel", "rotation", "frames"] = _ at hfields
    simp [ScriptStep.ofJson?, Json.ofFields, Json.variant, hfields]
  | rewind frame =>
    obtain ⟨payload, k, hpayload, hk, rfl⟩ := Shape.respells_tagged h
    obtain rfl : payload = .record [("frame", .plain)] := by
      simpa using hpayload
    obtain ⟨ns, hns, hfields⟩ := Shape.fields_of_respells hk (by decide)
    obtain _ | ⟨⟨⟩, _ | _⟩ := hns
    change k.fields ["frame"] = _ at hfields
    simp [ScriptStep.ofJson?, Json.ofFields, Json.variant, hfields]

/-- What is written for a step of a script says the same as itself. -/
theorem ScriptStep.respells_toJson (step : ScriptStep) :
    ScriptStep.shape.Respells step.toJson step.toJson := by
  cases step with
  | advance c frames =>
    exact .tagged List.mem_cons_self
      (.refl_record (.cons .plain (.cons .plain (.cons .plain .nil))))
  | rewind frame =>
    exact .tagged (List.mem_cons_of_mem _ List.mem_cons_self) (.refl_record (.cons .plain .nil))

/-- All numbers in a step of a script are integers. -/
theorem ScriptStep.real_notMem_tokens (step : ScriptStep) (text : List Char) :
    Json.Token.real text ∉ step.toJson.tokens := by
  cases step <;> simp [ScriptStep.toJson, Accel.toJson, Rotation.toJson, Json.text, Json.ofFields,
    Json.ofInt32, Json.tokens, Json.memberTokens]

/-- The records in a script. -/
def Script.shape : Shape :=
  .record [("nonce", .plain), ("steps", .list ScriptStep.shape)]

/-- A script is read off every value that says the same as the one written for it. -/
theorem Script.ofJson?_of_respells {s : Script} {j : Json}
    (h : Script.shape.Respells s.toJson j) : Script.ofJson? j = some s := by
  obtain ⟨ns, hns, hfields⟩ := Shape.fields_of_respells h (by decide)
  obtain _ | ⟨⟨⟩, _ | ⟨hsteps, _ | _⟩⟩ := hns
  obtain _ | ⟨hitems⟩ := hsteps
  have hread := Shape.mapM_of_respells (fun _ _ => ScriptStep.ofJson?_of_respells) hitems
  change j.fields ["nonce", "steps"] = _ at hfields
  obtain ⟨_ | nonce, steps⟩ := s <;> simp [Script.ofJson?, hfields, Json.items?, Json.nullOr, hread]

/-- What is written for a script says the same as itself. -/
theorem Script.respells_toJson (s : Script) : Script.shape.Respells s.toJson s.toJson :=
  .refl_record (.cons .plain (.cons (.refl_list ScriptStep.respells_toJson s.steps) .nil))

/-- All numbers in a script are integers. -/
theorem Script.real_notMem_tokens (s : Script) (text : List Char) :
    Json.Token.real text ∉ s.toJson.tokens := by
  have hsteps := Json.real_notMem_itemTokens (fun step => step.real_notMem_tokens text) s.steps
  obtain ⟨_ | nonce, steps⟩ := s <;>
    simp [Script.toJson, Json.ofFields, Json.tokens, Json.memberTokens, hsteps]

/-! ## Texts -/

namespace Json.Shape

variable {shape : Shape} {v : Json}

/-- A text spells a value, or another that says the same. -/
def Spells (shape : Shape) (v : Json) (text : String) : Prop :=
  ∃ w, shape.Respells v w ∧ w.Spelled text.toList

/-- What holds of the text of a value without blanks, and of every text that spells the value or
another that says the same. -/
def Throughout (shape : Shape) (v : Json) (p : String → Prop) : Prop :=
  p v.compact ∧ ∀ text, shape.Spells v text → p text

/-- What holds of a text from which a value is read that says the same as `v` holds of every text
that spells `v` or such a value, and of the text that is written of `v`. -/
theorem throughout_of_respells (hrefl : shape.Respells v v)
    (hreal : ∀ text, Token.real text ∉ v.tokens) {p : String → Prop}
    (h : ∀ text w, shape.Respells v w → ofText? text = some w → p text) :
    shape.Throughout v p := by
  have hspelled (text : String) (hspells : shape.Spells v text) : p text := by
    obtain ⟨w, hw, htext⟩ := hspells
    exact h text w hw (ofText?_eq_some_iff.mpr htext)
  exact ⟨hspelled _ ⟨v, hrefl, spelled_compact hreal⟩, hspelled⟩

/-- What is read off every value that says the same is read off the texts. -/
theorem throughout_read {α : Type} {read : Json → Option α} {x : α} (hrefl : shape.Respells v v)
    (hreal : ∀ text, Token.real text ∉ v.tokens)
    (hread : ∀ w, shape.Respells v w → read w = some x) :
    shape.Throughout v fun text => (ofText? text).bind read = some x :=
  throughout_of_respells hrefl hreal fun text w hw htext => by
    rw [htext, Option.bind_some, hread w hw]

end Json.Shape

/-- **What is written is read back.** States, results, logs, journals and scripts are read back from
the text that is written of them and from all other spellings of it. The count in a journal is one
that fits into 64 bits, as every count of the records of a log does. -/
theorem text_round_trip :
    (∀ s : RideState, RideState.shape.Throughout s.toJson fun text =>
      (Json.ofText? text).bind RideState.ofJson? = some s) ∧
    (∀ r : StepResult, Shape.plain.Throughout r.toJson fun text =>
      (Json.ofText? text).bind StepResult.ofJson? = some r) ∧
    (∀ log : RideLog, RideLog.shape.Throughout log.toJson fun text =>
      (Json.ofText? text).bind RideLog.ofJson? = some log) ∧
    (∀ x : Journal, x.updates < UInt64.size → Journal.shape.Throughout x.toJson fun text =>
      (Json.ofText? text).bind Journal.ofJson? = some x) ∧
    (∀ s : Script, Script.shape.Throughout s.toJson fun text => Script.ofText text = .ok s) := by
  refine ⟨fun s => ?_, fun r => ?_, fun log => ?_, fun x hupdates => ?_, fun s => ?_⟩
  · exact Shape.throughout_read s.respells_toJson s.real_notMem_tokens
      fun _ => RideState.ofJson?_of_respells
  · refine Shape.throughout_read .plain r.real_notMem_tokens fun w hw => ?_
    rw [Shape.respells_plain_iff.mp hw, StepResult.ofJson?_toJson]
  · exact Shape.throughout_read log.respells_toJson log.real_notMem_tokens
      fun _ => RideLog.ofJson?_of_respells
  · exact Shape.throughout_read x.respells_toJson x.real_notMem_tokens
      fun _ => Journal.ofJson?_of_respells hupdates
  · refine Shape.throughout_of_respells s.respells_toJson s.real_notMem_tokens ?_
    intro text w hw htext
    rw [Script.ofText, htext, Option.bind_some, Script.ofJson?_of_respells hw]

/-- A script is read back from a text with its fields in another order, blanks between the tokens
and a field that it does not have, and a journal from the text that is written of it. -/
theorem text_round_trip_reordered :
    let script : Script := ⟨some 5, [.advance ⟨.gasLeft, .cw⟩ 3, .rewind (-2)]⟩
    let text := " \x7b\"steps\" : [\x7b\"advance\": \x7b\"frames\": 3, \"rotation\": \"cw\", " ++
      "\"accel\": \"gas_left\"\x7d\x7d,\n  \x7b\"rewind\": \x7b\"frame\": -2\x7d\x7d], " ++
      "\"note\": [1.5, null], \"nonce\": 5\x7d\n"
    let journal : Journal := ⟨5, 300, 2, 7, 15000, startState⟩
    Script.shape.Spells script.toJson text ∧ Script.ofText text = .ok script ∧
      journal.updates < UInt64.size ∧
      (Json.ofText? journal.toJson.compact).bind Journal.ofJson? = some journal := by
  intro script text journal
  let controls : List (String × Json) :=
    [("accel", Json.text "gas_left"), ("rotation", Json.text "cw"), ("frames", .int 3)]
  let steps : Json := .array [.ofFields [("advance", .ofFields controls.reverse)],
    .ofFields [("rewind", .ofFields [("frame", .int (-2))])]]
  let others : List (String × Json) := [("note", .array [.real ['1', '.', '5'], .null])]
  have hspells : Script.shape.Spells script.toJson text := by
    refine ⟨.ofFields (("steps", steps) :: others ++ [("nonce", .int 5)]), ?_, ?_⟩
    · have hcontrols : controls.reverse.Perm (controls ++ []) := by
        rw [List.append_nil]
        exact controls.reverse_perm
      have hadvance : ScriptStep.shape.Respells (ScriptStep.toJson (.advance ⟨.gasLeft, .cw⟩ 3))
          (.ofFields [("advance", .ofFields controls.reverse)]) :=
        .tagged List.mem_cons_self (.record (.cons .plain (.cons .plain (.cons .plain .nil)))
          (List.forall_mem_nil _) hcontrols)
      have hrewind := ScriptStep.respells_toJson (.rewind (-2))
      have hperm : List.Perm (("steps", steps) :: others ++ [("nonce", Json.int 5)])
          ([("nonce", .int 5), ("steps", steps)] ++ others) := List.perm_append_comm
      exact .record (.cons .plain (.cons (.list (.cons hadvance (.cons hrewind .nil))) .nil))
        (by decide) hperm
    · apply Json.Token.spaced_of_scan
      decide +kernel
  have hupdates : journal.updates < UInt64.size := by decide
  obtain ⟨-, -, -, hjournal, hscript⟩ := text_round_trip
  exact ⟨hspells, (hscript script).2 text hspells, hupdates, (hjournal journal hupdates).1⟩

end RideProof
