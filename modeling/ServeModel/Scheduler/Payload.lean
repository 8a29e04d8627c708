import ServeModel.Runtime.Basic

namespace Scheduler

structure ScheduleResourceProfile where
  gpusRequired : Option Nat := none
  memoryMb : Option Nat := none
  executorClass : Option String := none
  tags : Option (List String) := none
  deriving DecidableEq

structure ScheduleFanoutProfile where
  itemCount : Option Nat := none
  maxInFlight : Option Nat := none
  deriving DecidableEq

structure BatchProfile where
  enabled : Bool := true
  batchKey : String := ""
  maxBatchSize : Nat := 0
  maxWaitMs : Nat := 0
  sharedMemoryMb : Option Nat := none
  incrementalMemoryMb : Option Nat := none
  deriving DecidableEq

structure SchedulePayload where
  runId : String := ""
  workflow : String := ""
  workflowId : Option String := none
  parentRunId : Option String := none
  fanoutProfile : Option ScheduleFanoutProfile := none
  batchProfile : Option BatchProfile := none
  rawPayload : Json := .object []
  resourceProfile : Option ScheduleResourceProfile := none
  gpusRequired : Nat := 0
  memoryMb : Nat := 0
  dispatchStage : String := "execute"

structure ReleasePayload where
  runId : String := ""
  parentRunId : Option String := none
  memoryMb : Nat := 0
  resourceId : Nat
  deriving DecidableEq

section Decode

open Json

-- What the derived decoders make of a JSON value.

def ScheduleResourceProfile.decode (j : Json) : Option ScheduleResourceProfile := do
  let f ← j.structFields ["gpus_required", "memory_mb", "executor_class", "tags"]
  return {
    gpusRequired := ← withDefault none (optional asU64) (f "gpus_required")
    memoryMb := ← withDefault none (optional asU64) (f "memory_mb")
    executorClass := ← withDefault none (optional asStr) (f "executor_class")
    tags := ← withDefault none (optional (list asStr)) (f "tags")
  }

def ScheduleFanoutProfile.decode (j : Json) : Option ScheduleFanoutProfile := do
  let f ← j.structFields ["item_count", "max_in_flight"]
  return {
    itemCount := ← withDefault none (optional asU64) (f "item_count")
    maxInFlight := ← withDefault none (optional asU64) (f "max_in_flight")
  }

def BatchProfile.decode (j : Json) : Option BatchProfile := do
  let f ← j.structFields ["enabled", "batch_key", "max_batch_size", "max_wait_ms",
    "shared_memory_mb", "incremental_memory_mb"]
  return {
    enabled := ← withDefault true asBool (f "enabled")
    batchKey := ← withDefault "" asStr (f "batch_key")
    maxBatchSize := ← withDefault 0 asU64 (f "max_batch_size")
    maxWaitMs := ← withDefault 0 asU64 (f "max_wait_ms")
    sharedMemoryMb := ← withDefault none (optional asU64) (f "shared_memory_mb")
    incrementalMemoryMb := ← withDefault none (optional asU64) (f "incremental_memory_mb")
  }

-- The fields `raw_payload` and `dispatch_stage` are skipped by the decoder.
def SchedulePayload.decode (j : Json) : Option SchedulePayload := do
  let f ← j.structFields ["run_id", "workflow", "workflow_id", "parent_run_id", "fanout_profile",
    "batch_profile", "resource_profile", "gpus_required", "memory_mb"]
  return {
    runId := ← withDefault "" asStr (f "run_id")
    workflow := ← withDefault "" asStr (f "workflow")
    workflowId := ← withDefault none (optional asStr) (f "workflow_id")
    parentRunId := ← withDefault none (optional asStr) (f "parent_run_id")
    fanoutProfile := ← withDefault none (optional ScheduleFanoutProfile.decode) (f "fanout_profile")
    batchProfile := ← withDefault none (optional BatchProfile.decode) (f "batch_profile")
    resourceProfile :=
      ← withDefault none (optional ScheduleResourceProfile.decode) (f "resource_profile")
    gpusRequired := ← withDefault 0 asU64 (f "gpus_required")
    memoryMb := ← withDefault 0 asU64 (f "memory_mb")
  }

def ReleasePayload.decode (j : Json) : Option ReleasePayload := do
  let f ← j.structFields ["run_id", "parent_run_id", "memory_mb", "resource_id"]
  return {
    runId := ← withDefault "" asStr (f "run_id")
    parentRunId := ← withDefault none (optional asStr) (f "parent_run_id")
    memoryMb := ← withDefault 0 asU64 (f "memory_mb")
    resourceId := ← required (asUnsigned 32) (f "resource_id")
  }

end Decode

def inferDispatchStage (_ : SchedulePayload) : String :=
  "execute"

def validateScheduleResourceProfile (payload : SchedulePayload) : Except Failure Unit := do
  let some profile := payload.resourceProfile | return
  match profile.gpusRequired with
  | some n => if n = 0 then throw <| .msg "scheduler: resource_profile.gpus_required must be at least 1"
  | none => throw <| .msg "scheduler: resource_profile.gpus_required is required"
  match profile.memoryMb with
  | some n => if n = 0 then throw <| .msg "scheduler: resource_profile.memory_mb must be greater than 0"
  | none => throw <| .msg "scheduler: resource_profile.memory_mb is required"
  match profile.executorClass.bind Text.nonBlank with
  | some _ => return
  | none => throw <| .msg "scheduler: resource_profile.executor_class is required"

-- The workflow identifier stands in for a blank workflow name.
def withWorkflow (payload : SchedulePayload) : SchedulePayload :=
  match Text.isBlank payload.workflow, payload.workflowId with
  | true, some workflowId => { payload with workflow := Text.trim workflowId }
  | _, _ => payload

def decodeSchedulePayload (raw : Wire) (runId : String) : Except Failure SchedulePayload := do
  if Text.isBlank raw.text then
    throw <| .msg "scheduler: empty payload on schedule stream"
  let some parsed := raw.json | throw <| .msg "scheduler: schedule payload is not valid JSON"
  let some payload := SchedulePayload.decode parsed
    | throw <| .msg "scheduler: invalid schedule payload JSON"
  let payload := { payload with runId, rawPayload := parsed, dispatchStage := inferDispatchStage payload }
  let payload := withWorkflow payload
  if Text.isBlank payload.workflow then
    throw <| .msg "scheduler: workflow is required and must be non-empty"
  validateScheduleResourceProfile payload
  return payload

-- The decoder looks at the text of a payload only to see whether there is any.
theorem decodeSchedulePayload_encode :
    decodeSchedulePayload (.encode (.obj fields)) runId =
      decodeSchedulePayload ⟨"object", some (.obj fields)⟩ runId := by
  have h : Text.isBlank "object" = false := by decide
  simp only [decodeSchedulePayload, Wire.encode_obj_not_blank, h]
  rfl

def decodeReleasePayload (raw : Wire) : Except Failure ReleasePayload := do
  let missing : Failure := .msg "scheduler: release payload must include resource_id and memory_mb"
  if Text.isBlank raw.text then
    throw <| .msg "scheduler: empty payload on release stream"
  let some json := raw.json | throw <| .msg "scheduler: invalid release payload JSON"
  if (json.get "resource_id").all Json.isNull then
    throw missing
  let some payload := ReleasePayload.decode json
    | throw <| .msg "scheduler: invalid release payload JSON"
  if payload.memoryMb = 0 then
    throw missing
  return payload

def scheduleResourceProfileJson (profile : ScheduleResourceProfile) : Json :=
  .object <|
    (profile.gpusRequired.map fun n => ("gpus_required", Json.nat n)).toList ++
    (profile.memoryMb.map fun n => ("memory_mb", Json.nat n)).toList ++
    ((profile.executorClass.bind Text.nonBlank).map fun c => ("executor_class", Json.str c)).toList ++
    ((profile.tags.filter (· ≠ [])).map fun ts => ("tags", Json.arr (ts.map .str))).toList

def fanoutGate (payload : SchedulePayload) : Option (String × Nat) := do
  let parentRunId ← payload.parentRunId.bind Text.nonBlank
  let maxInFlight ← (← payload.fanoutProfile).maxInFlight
  if maxInFlight = 0 then none else some (parentRunId, maxInFlight)

section StageContext

open Json

def stageHas (key value : String) (stage : Json) : Bool :=
  (stage.get key).bind asStr = some value

-- The stage that the current one names as its successor, else the first one of the dispatched phase.
def nextDispatchStage (dispatchStage : String) (context : Fields) (pipeline : List Json) :
    Option Json :=
  let successor := do
    let current ← (field "current_stage_id" context).bind asStr
    let stage ← pipeline.find? (stageHas "id" current)
    let next ← (stage.get "next").bind asStr
    pipeline.find? (stageHas "id" next)
  successor <|> pipeline.find? (stageHas "phase" dispatchStage)

def setStrField (key : String) (value : Option String) (fs : Fields) : Fields :=
  match value with
  | some v => setField key (.str v) fs
  | none => fs

-- The advanced stage context, and whether the items of the payload are advanced as well.
def advanceContext (dispatchStage : String) (context : Fields) : Option (Fields × Bool) :=
  match (field "pipeline" context).bind asArray with
  | none =>
    some (setField "current_phase" (.str dispatchStage)
      (setField "current_stage_id" (.str dispatchStage) context), false)
  | some pipeline => do
    let next ← nextDispatchStage dispatchStage context pipeline
    some (setStrField "current_phase" ((next.get "phase").bind asStr)
      (setStrField "current_stage_id" ((next.get "id").bind asStr) context), true)

mutual
def advanceStageContextForDispatch (dispatchStage : String) : Json → Json
  | .obj root =>
    match (field "stage_context" root).bind asObject with
    | none => .obj root
    | some context =>
      match advanceContext dispatchStage context with
      | none => .obj root
      | some (context', false) => .obj (setField "stage_context" (.obj context') root)
      | some (context', true) =>
        .obj (setField "stage_context" (.obj context') (advanceItems dispatchStage root))
  | j => j

def advanceItems (dispatchStage : String) : Fields → Fields
  | [] => []
  | (key, value) :: rest =>
    (key, if key = "items" then advanceArray dispatchStage value else value) ::
      advanceItems dispatchStage rest

def advanceArray (dispatchStage : String) : Json → Json
  | .arr items => .arr (advanceEach dispatchStage items)
  | j => j

def advanceEach (dispatchStage : String) : List Json → List Json
  | [] => []
  | item :: rest => advanceItem dispatchStage item :: advanceEach dispatchStage rest

def advanceItem (dispatchStage : String) : Json → Json
  | .obj fields => .obj (advancePayload dispatchStage fields)
  | j => j

def advancePayload (dispatchStage : String) : Fields → Fields
  | [] => []
  | (key, value) :: rest =>
    (key, if key = "payload" then advanceStageContextForDispatch dispatchStage value else value) ::
      advancePayload dispatchStage rest
end

end StageContext

end Scheduler
