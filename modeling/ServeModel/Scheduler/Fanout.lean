import ServeModel.Collect.Store
import ServeModel.Runtime.Stage
import ServeModel.Scheduler.Payload

namespace Scheduler

open Json

def gatherStageId : String := "_gather"
def gatherPhase : String := "collect"
def gatherQueue : String := "collect"

-- An empty array means no fanout; any other value that is not an array is left for the expansion to
-- reject.
def isFanoutParent (payload : Json) : Bool :=
  match payload.get "fanout_items" with
  | none => false
  | some .null => false
  | some (.arr items) => items ≠ []
  | some _ => true

def setItemCount (itemCount : Nat) (parent : Fields) : Except Failure Fields := do
  let profile := (field "fanout_profile" parent).getD .null
  let profile := if profile.isNull then .object [] else profile
  let some profile := profile.asObject
    | throw <| .msg "scheduler: fanout_profile must be a JSON object"
  if let some explicit := (field "item_count" profile).filter (!·.isNull) then
    if explicit.asU64 ≠ some itemCount then
      let shown := explicit.render
      throw <| .msg (s!"scheduler: fanout_profile.item_count={shown} does not match " ++
        s!"fanout_items len={itemCount}")
  return setField "fanout_profile" (.obj (setField "item_count" (.nat itemCount) profile)) parent

def redirectStage (executeId : String) (stage : Json) : Json :=
  match stage with
  | .obj fields =>
    if stageHas "id" executeId stage then .obj (setField "next" (.str gatherStageId) fields) else stage
  | stage => stage

-- The raw pipeline of a payload, and the payload with another one in its place.
def rawPipeline (parent : Fields) : Option (Fields × List Json) := do
  let context ← (field "stage_context" parent).bind asObject
  let pipeline ← (field "pipeline" context).bind asArray
  return (context, pipeline)

def spliceGatherStage (parent : Fields) : Except Failure (StageDescriptor × Fields) := do
  let some rawContext := field "stage_context" parent
    | throw <| .msg "scheduler: fanout parent is missing stage_context"
  let some context := StageContext.decode rawContext
    | throw <| .msg "scheduler: fanout parent has invalid stage_context"
  if context.pipeline.any (·.id = gatherStageId) then
    throw <| .msg s!"scheduler: pipeline stage id '{gatherStageId}' is reserved for fanout"
  let execute ← context.nextStage "scheduler"
  let executeId := execute.id
  let phase := execute.phase
  if phase ≠ "execute" then
    let current := context.currentStageId
    throw <| .msg (s!"scheduler: fanout requires schedule stage '{current}' to be followed by an " ++
      s!"execute stage, got '{executeId}' with phase '{phase}'")
  let afterExecute := (execute.next.bind context.find).filter fun stage =>
    stage.phase = "postprocess" || stage.phase = "publish" || stage.phase = "results"
  let some afterExecute := afterExecute
    | throw <| .msg (s!"scheduler: fanout requires stage '{executeId}' to be followed by " ++
        "postprocess, publish, or results")
  let gather : StageDescriptor :=
    { id := gatherStageId, phase := gatherPhase, queue := gatherQueue, next := some afterExecute.id }
  let some (rawContext, pipeline) := rawPipeline parent
    | throw <| .msg "scheduler: fanout parent stage_context.pipeline must be an array"
  let pipeline := pipeline.map (redirectStage executeId) ++ [gather.encode]
  let rawContext := setField "pipeline" (.arr pipeline) rawContext
  return (gather, setField "stage_context" (.obj rawContext) parent)

-- A field of the item overrides the parent's.
def overrideField (item : Fields) (key : String) (child : Fields) : Fields :=
  match field key item with
  | some value => setField key value child
  | none => child

def childRunId (parentRunId : String) (index : Nat) : String :=
  s!"{parentRunId}:item:{index}"

def buildChild (parent : Fields) (parentRunId : String) (index : Nat) (item : Json)
    (scheduleStream : String) : Except Failure Output := do
  let some item := item.asObject
    | throw <| .msg s!"scheduler: fanout_items[{index}] must be a JSON object"
  let item := if (field "item_index" item).isSome then item else setField "item_index" (.nat index) item
  let runId := childRunId parentRunId index
  let child := overrideField item "resource_profile"
    (overrideField item "parameters" (overrideField item "operation" parent))
  let child := setField "fanout_item" (.obj item)
    (setField "parent_run_id" (.str parentRunId) (setField "run_id" (.str runId) child))
  let encoded := Wire.encode (.obj child)
  match decodeSchedulePayload encoded runId with
  | .ok _ =>
    return { stream := scheduleStream, payload := encoded, runId := some runId, stage := some "schedule" }
  | .error e =>
    throw <| e.context s!"scheduler: fanout_items[{index}] is not a valid schedule request"

def buildChildren (parent : Fields) (parentRunId scheduleStream : String) :
    Nat → List Json → Except Failure (List Output)
  | _, [] => .ok []
  | index, item :: rest => do
    let child ← buildChild parent parentRunId index item scheduleStream
    return child :: (← buildChildren parent parentRunId scheduleStream (index + 1) rest)

-- The collect group and the children of a fanout parent.
def fanoutPlan (parentRunId : String) (payload : Json) (scheduleStream : String) :
    Except Failure (Collect.CollectGroup × List Output) := do
  let some parent := payload.asObject
    | throw <| .msg "scheduler: fanout payload must be a JSON object"
  let some workflowId := ((field "workflow_id" parent).bind asStr).bind Text.nonBlank
    | throw <| .msg "scheduler: fanout parent requires a non-empty workflow_id"
  let some (.arr items) := field "fanout_items" parent
    | throw <| .msg "scheduler: fanout_items must be a non-empty array"
  let parent ← setItemCount items.length (eraseField "result" (eraseField "fanout_items" parent))
  let (gather, parent) ← spliceGatherStage parent
  let children ← buildChildren parent parentRunId scheduleStream 0 items
  let collectPayload ← updateStageContext gather "scheduler"
    (setField "run_id" (.str parentRunId) parent)
  return ({
    parentRunId
    workflowId
    parentPayload := .obj collectPayload
    expectedCount := items.length
    results := []
  }, children)

def expandFanoutParent (m : Message) (payload : Json) (scheduleStream : String) : RoleM τ Unit := do
  let (group, children) ← Routine.ofExcept (fanoutPlan m.runId payload scheduleStream)
  Collect.initGroup m.runId group
  RoleM.context "scheduler: failed to fan out child items" do
    Routine.ofExcept (← RoleM.perform (.forwardMany [m] children))

-- The envelope that reports a fanout child as failed to its parent's group. Other requests have none.
def failedChildEnvelope (payload : Json) (error : String) : Option Wire := do
  let root ← payload.asObject
  let (context, pipeline) ← rawPipeline root
  if pipeline.any (stageHas "id" gatherStageId) then
    let context := setField "current_phase" (.str gatherPhase)
      (setField "current_stage_id" (.str gatherStageId) context)
    let result := Json.object [("status", .str "failed"), ("error", .str error)]
    some <| .encode <| .obj <|
      setField "stage_context" (.obj context) (setField "result" result root)
  else none

end Scheduler
