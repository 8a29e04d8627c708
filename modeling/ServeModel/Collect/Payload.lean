import ServeModel.Lib.Checks
import ServeModel.Runtime.Stage

namespace Collect

open Json

inductive FailurePolicy
  | collectAll
  | failFast
  deriving DecidableEq

structure FanoutProfile where
  itemCount : Nat
  failurePolicy : Option FailurePolicy
  deriving DecidableEq

structure FanoutItemRef where
  itemIndex : Nat
  deriving DecidableEq

structure CollectEnvelope where
  workflowId : String
  parentRunId : String
  fanoutProfile : FanoutProfile
  fanoutItem : FanoutItemRef
  result : Json
  stageContext : StageContext

-- A profile without a policy waits for all children.
def FanoutProfile.policy (profile : FanoutProfile) : FailurePolicy :=
  profile.failurePolicy.getD .collectAll

section Decode

def FailurePolicy.ofName : String → Option FailurePolicy
  | "collect_all" => some .collectAll
  | "fail_fast" => some .failFast
  | _ => none

-- A variant without data is written as its name, or as an object with that single key and no value.
def FailurePolicy.decode : Json → Option FailurePolicy
  | .str name => ofName name
  | .obj [(name, .null)] => ofName name
  | _ => none

def FanoutProfile.decode (j : Json) : Option FanoutProfile := do
  let f ← j.structFields ["item_count", "failure_policy"]
  return {
    itemCount := ← required asU64 (f "item_count")
    failurePolicy := ← withDefault none (optional FailurePolicy.decode) (f "failure_policy")
  }

def FanoutItemRef.decode (j : Json) : Option FanoutItemRef := do
  let f ← j.structFields ["item_index"]
  return { itemIndex := ← required asU64 (f "item_index") }

def CollectEnvelope.decode (j : Json) : Option CollectEnvelope := do
  let f ← j.structFields
    ["workflow_id", "parent_run_id", "fanout_profile", "fanout_item", "result", "stage_context"]
  return {
    workflowId := ← required asStr (f "workflow_id")
    parentRunId := ← required asStr (f "parent_run_id")
    fanoutProfile := ← required FanoutProfile.decode (f "fanout_profile")
    fanoutItem := ← required FanoutItemRef.decode (f "fanout_item")
    result := ← f "result"
    stageContext := ← required StageContext.decode (f "stage_context")
  }

def decodeEnvelope (value : Json) : Except Failure (CollectEnvelope × Json) := do
  if value.asObject.isNone then
    throw <| .msg "collect: payload must be a JSON object"
  let some typed := CollectEnvelope.decode value
    | throw <| .msg "collect: invalid payload schema"
  if Text.isBlank typed.workflowId then
    throw <| .msg "collect: workflow_id is required and must be non-empty"
  if Text.isBlank typed.parentRunId then
    throw <| .msg "collect: parent_run_id is required and must be non-empty"
  let phase := typed.stageContext.currentPhase
  if phase ≠ "collect" then
    throw <| .msg s!"collect: payload current_phase must be 'collect', got '{phase}'"
  if typed.fanoutProfile.itemCount = 0 then
    throw <| .msg "collect: fanout_profile.item_count must be greater than zero"
  return (typed, value)

def decodeCollectPayload (raw : Wire) : Except Failure (CollectEnvelope × Json) := do
  if Text.isBlank raw.text then
    throw <| .msg "collect: empty payload"
  let some value := raw.json
    | throw <| .msg "collect: payload must be valid JSON object"
  decodeEnvelope value

-- The checks of the decoder. The value that comes with the envelope is the payload itself.
theorem decodeEnvelope_ok_iff :
    decodeEnvelope value = .ok (typed, payload) ↔ value.asObject ≠ none ∧ CollectEnvelope.decode value = some typed ∧
      ¬Text.isBlank typed.workflowId ∧ ¬Text.isBlank typed.parentRunId ∧
      typed.stageContext.currentPhase = "collect" ∧ typed.fanoutProfile.itemCount ≠ 0 ∧ payload = value := by
  unfold decodeEnvelope
  dsimp only
  rw [Except.ite_throw_eq_ok]
  cases hd : CollectEnvelope.decode value
  case none => simp
  case some decoded =>
    simp only [Except.ite_throw_eq_ok, Except.pure_eq_ok, Prod.mk.injEq, Option.some.injEq]
    constructor
    case mp =>
      rintro ⟨ho, hw, hp, hs, hn, ht, hv⟩
      subst ht
      exact ⟨by simpa using ho, rfl, hw, hp, by simpa using hs, hn, hv.symm⟩
    case mpr =>
      rintro ⟨ho, ht, hw, hp, hs, hn, hv⟩
      subst ht
      exact ⟨by simpa using ho, hw, hp, by simpa using hs, hn, rfl, hv.symm⟩

-- The text of an encoded object is never empty.
theorem decodeCollectPayload_encode : decodeCollectPayload (.encode (.obj fs)) = decodeEnvelope (.obj fs) := by
  simp only [decodeCollectPayload, Wire.encode_obj_not_blank]
  rfl

def typedChildRunId (payload : Json) (fallback : String) : String :=
  (((payload.get "run_id").bind asStr).bind Text.nonBlank).getD fallback

def parentStageContext (payload : Json) : Except Failure StageContext := do
  let some value := payload.get "stage_context"
    | throw <| .msg "collect: parent payload missing stage_context"
  let some context := StageContext.decode value
    | throw <| .msg "collect: parent payload stage_context must be a valid object"
  return context

end Decode

def statusText (result : Json) : Option String :=
  (result.get "status").bind asStr

def childResultJson (entry : CollectedMemberResult) : Json :=
  .object [("item_index", .nat entry.itemIndex), ("child_run_id", .str entry.childRunId),
    ("fanout_item", entry.fanoutItem), ("result", entry.result)]

def buildParentResult (group : CollectGroup) : Json :=
  let results := group.results.insertionSort (·.itemIndex ≤ ·.itemIndex)
  let succeededCount := results.countP fun entry => (statusText entry.result).getD "succeeded" = "succeeded"
  let failedCount := results.length - succeededCount
  .object [
    ("status", .str (if failedCount = 0 then "succeeded" else "failed")),
    ("artifacts", .arr []),
    ("child_results", .arr (results.map childResultJson)),
    ("aggregation_summary", .object [
      ("item_count", .nat group.expectedCount),
      ("collected_count", .nat results.length),
      ("succeeded_count", .nat succeededCount),
      ("failed_count", .nat failedCount)])]

def isNonBlankStr (j? : Option Json) : Bool :=
  (j?.bind asStr).any (!Text.isBlank ·)

def artifactEntryHasStoragePath (entry : Json) : Bool :=
  ["storage_path", "path", "output_path"].any fun key => isNonBlankStr (entry.get key)

def resultHasPublishableOutput (result : Json) : Bool :=
  isNonBlankStr (result.get "output_path") ||
    ["artifacts", "outputs"].any fun key =>
      ((result.get key).bind asArray).any (·.any artifactEntryHasStoragePath)

def hasOutputPublicationTarget (parentPayload : Json) : Bool :=
  ((parentPayload.get "output_publication").bind (·.get "target")).isSome

def addMissing (key : String) (value : Option Json) (fs : Fields) : Fields :=
  match value with
  | some v => if (field key fs).isSome then fs else setField key v fs
  | none => fs

def buildRequestEnvelope (parentPayload : Json) : Json :=
  let request := ((parentPayload.get "request").bind asObject).getD []
  let operation := ((parentPayload.get "operation").bind asStr).map Json.str
  .obj (addMissing "parameters" (parentPayload.get "parameters") (addMissing "operation" operation request))

-- The payload and the execution record, after one field has moved.
def moveExecutionField (sourceKey targetKey : String) : Fields × Fields → Fields × Fields
  | (payload, execution) =>
    (eraseField sourceKey payload, addMissing targetKey (field sourceKey payload) execution)

def derivePrimaryOutputPath (outputs : Option Json) : Option String := do
  let outputs ← outputs.bind asArray
  let isPrimary (entry : Json) : Bool := ((entry.get "primary").bind asBool).getD false
  let primary ← (outputs.find? isPrimary).or outputs.head?
  let path ← ((primary.get "storage_path").or (primary.get "path")).or (primary.get "output_path")
  path.asStr

def buildExecutionAndPayload (runId workflowId status : String) (resultPayload : Json) :
    Except Failure (Json × Json) := do
  let some payload := resultPayload.asObject
    | throw <| .msg "collect: result payload must be a JSON object"
  let execution := literal [("run_id", .str runId), ("status", .str status), ("workflow", .str workflowId)]
  let (payload, execution) := [("outputs", "outputs"), ("artifacts", "outputs"), ("output_path", "output_path"),
      ("output_archive", "output_archive"), ("error", "error"),
      ("execution_time_seconds", "execution_time_seconds"), ("batch_info", "batch_info")].foldl
    (fun acc keys => moveExecutionField keys.1 keys.2 acc) (payload, execution)
  let path := (derivePrimaryOutputPath (field "outputs" execution)).map Json.str
  return (.obj (addMissing "output_path" path execution), .obj payload)

end Collect
