import ServeModel.Inference.Execute

-- What a finished message is turned into: an output for each run, and the release of its device.
namespace Inference

open Python

variable (env : Env)

section Envelope

def requestFields (payload : Dict) : Dict :=
  match payload.get "request" with
  | some (.dict (request : Dict)) => request
  | _ => []

def addOperation (payload request : Dict) : Dict :=
  match payload.get "operation" with
  | some (.str operation) => if operation ≠ "" then request.setDefault "operation" (.str operation) else request
  | some .surrogate => request.setDefault "operation" .surrogate
  | _ => request

def addParameters (payload request : Dict) : Dict :=
  match payload.get "parameters" with
  | some (.dict (parameters : Dict)) => request.setDefault "parameters" (.dict parameters)
  | _ => request

def buildRequestEnvelope (payload : Dict) : Dict :=
  addParameters payload (addOperation payload (requestFields payload))

def moveExecutionField (source target : String) (fields : Dict × Dict) : Dict × Dict :=
  match fields.1.get source with
  | some v => (fields.1.pop source, fields.2.setDefault target v)
  | none => fields

def executionFields : List (String × String) :=
  [("outputs", "outputs"), ("artifacts", "outputs"), ("published_outputs", "published_outputs"),
    ("published_artifacts", "published_artifacts"), ("output_path", "output_path"),
    ("output_archive", "output_archive"), ("error", "error"),
    ("execution_time_seconds", "execution_time_seconds"), ("batch_info", "batch_info")]

def findPrimary : List Value → M (Option Dict)
  | [] => return none
  | .dict (entry : Dict) :: entries => do
    if ← truth (entry.entry "primary") then return some entry
    findPrimary entries
  | _ :: entries => findPrimary entries

def firstPath (entry : Dict) : Option Value :=
  ["storage_path", "path", "output_path"].findSome? fun key =>
    match entry.get key with
    | some (.str path) => if path ≠ "" then some (.str path) else none
    | some .surrogate => some .surrogate
    | _ => none

def derivePrimaryOutputPath : Option Value → M (Option Value)
  | some (.list (first :: rest)) => do
    match ← findPrimary (first :: rest) with
    | some entry => return firstPath entry
    | none => return first.asDict.bind firstPath
  | _ => return none

-- The name of the workflow, if it is a text that is not empty.
def workflowName (payload : Dict) : M (Option Value) := do
  match ← orElse (payload.entry "workflow_id") (payload.entry "workflow") with
  | .str s => return if s ≠ "" then some (.str s) else none
  | .surrogate => return some .surrogate
  | _ => return none

def setIfSome (key : String) (v : Option Value) (d : Dict) : Dict :=
  match v with
  | some v => d.set key v
  | none => d

def moveExecutionFields (fields : Dict × Dict) : Dict × Dict :=
  executionFields.foldl (fun fields f => moveExecutionField f.1 f.2 fields) fields

def executionBase (streamName : String) (runId status : Value) (workflow : Option Value) : Dict :=
  setIfSome "workflow" workflow [(.str "run_id", runId), (.str "status", status), (.str "gpu_stream", .str streamName),
    (.str "completed_at", .str env.now)]

def withOutputPath (execution : Dict) : M Dict := do
  if execution.contains "output_path" then return execution
  return setIfSome "output_path" (← derivePrimaryOutputPath (execution.get "outputs")) execution

def resultsEnvelope (streamName : String) (runId status : Value) (workflow : Option Value)
    (request execution pluginPayload : Dict) : Dict :=
  setIfSome "workflow" workflow [(.str "run_id", runId), (.str "status", status), (.str "request", .dict request),
    (.str "execution", .dict execution), (.str "payload", .dict pluginPayload), (.str "completed_at", .str env.now),
    (.str "gpu_stream", .str streamName)]

def buildResultsEnvelope (streamName : String) (payload result : Dict) : M Dict := do
  let workflow ← workflowName payload
  let fallback ← orElse (payload.entry "run_id") (.str "")
  let runId := strip (← env.str (result.getD "run_id" fallback))
  let status ← env.str (status result)
  let (pluginPayload, execution) :=
    moveExecutionFields ((result.pop "run_id").pop "status", executionBase env streamName runId status workflow)
  let execution ← withOutputPath execution
  return resultsEnvelope env streamName runId status workflow (buildRequestEnvelope payload) execution pluginPayload

end Envelope

section Primary

def pipelineUpdateKeys : List String :=
  ["operation", "parameters", "request", "resource_profile", "batch_profile", "prefetch_plan", "fanout_profile",
    "fanout_items"]

def deepcopy (v : Value) : M Value := do
  raiseIf v.copyError
  return v

def mergeKeys (updates : Dict) : List String → Dict → M Dict
  | [], payload => return payload
  | key :: keys, payload =>
    match updates.get key with
    | some v => do mergeKeys updates keys (payload.set key (← deepcopy v))
    | none => mergeKeys updates keys payload

def mergePipelineUpdates (payload result : Dict) : M Dict :=
  match result.get "_pipeline_updates" with
  | some (.dict (updates : Dict)) => mergeKeys updates pipelineUpdateKeys payload
  | _ => return payload

def advanceContext (nextStage payload : Dict) : Dict :=
  match payload.get "stage_context" with
  | some (.dict (context : Dict)) =>
    payload.set "stage_context" (.dict ((context.set "current_stage_id" (nextStage.entry "id")).set
      "current_phase" (stagePhase nextStage)))
  | _ => payload

-- A stream, a payload and a stage.
structure Primary where
  stream : Value
  payload : Dict
  stage : Value

-- A failed result still goes to the stages that wait for every child, or that publish what there is.
def handsOff (succeeded : Bool) (nextStage : Dict) : Bool :=
  (succeeded || isStr (stagePhase nextStage) "collect" || isStr (stagePhase nextStage) "publish") &&
    !isStr (stagePhase nextStage) "results"

def buildHandoff (payload result nextStage : Dict) (succeeded : Bool) : M Primary := do
  raiseIf (Value.dict payload).copyError
  let handoff := payload.set "result" (.dict (result.pop "_pipeline_updates"))
  let handoff ← if succeeded then mergePipelineUpdates handoff result else pure handoff
  let phase ← orElse (stagePhase nextStage) (.str "results")
  return {
    stream := ← env.str (nextStage.getD "queue" phase)
    payload := advanceContext nextStage handoff
    stage := ← env.str phase }

def buildPrimaryCompletion (streamName : String) (payload result : Dict) : M Primary := do
  let nextStage ← nextPluginStage payload
  let succeeded ← isSuccessStatus env (status result)
  match nextStage.filter (handsOff succeeded) with
  | some nextStage => buildHandoff env payload result nextStage succeeded
  | none => do
    let envelope ← buildResultsEnvelope env streamName payload (result.pop "_pipeline_updates")
    return { stream := .str "results", payload := envelope, stage := .str "results" }

end Primary

section Publication

def trimSlashes (s : String) : String :=
  String.ofList ((s.toList.dropWhile (· = '/')).rdropWhile (· = '/'))

def trimLastSlashes (s : String) : String :=
  String.ofList (s.toList.rdropWhile (· = '/'))

def onText (f : String → String) : Value → Value
  | .str s => .str (f s)
  | v => v

-- The parts that are not empty, with slashes between them.
def joinPath (parts : List Value) : Value :=
  let kept := parts.filter fun part => part.asStr.all (trimSlashes · ≠ "")
  match kept.mapM Value.asStr with
  | some texts => .str ("/".intercalate (texts.map trimSlashes))
  | none => .surrogate

def nonEmpty (s : String) : Option Value :=
  if s ≠ "" then some (.str s) else none

def strippedField (storage : Dict) (key : String) : Option Value :=
  match storage.get key with
  | some (.str s) => nonEmpty (trimText s)
  | some .surrogate => some .surrogate
  | _ => none

def resolveStorage (storage : Dict) (provider : String) (path : Value) : M (Option Dict) := do
  match provider with
  | "s3" => do
    let bucket ← env.stripped (storage.entry "bucket") ""
    if ¬(← truth bucket) then return none
    let resolved : Dict := [(.str "type", .str "s3"), (.str "bucket", bucket), (.str "prefix", path)]
    return some (setIfSome "endpoint" (strippedField storage "endpoint")
      (setIfSome "region" (strippedField storage "region") resolved))
  | "azure" => do
    let container ← env.stripped (storage.entry "container") ""
    let container := onText trimSlashes container
    let endpoint ← env.stripped (storage.entry "endpoint") ""
    if ¬(← truth container) ∨ ¬(← truth endpoint) then return none
    return some [(.str "type", .str "azure"), (.str "container", container), (.str "prefix", path),
      (.str "endpoint", onText trimLastSlashes endpoint)]
  | _ => return none

def outputPublicationFromEnv (workflowId runId : Value) : M (Option Dict) := do
  if ¬(← truth workflowId) ∨ ¬(← truth runId) then return none
  match env.publicationConfig.map Value.ofJson with
  | some (.dict (config : Dict)) => do
    if ¬(← truth (config.entry "enabled")) then return none
    match config.get "storage" with
    | some (.dict (storage : Dict)) => do
      let provider ← env.stripped (storage.entry "type") ""
      let provider := (provider.asStr.map lower).getD ""
      let root ← env.str (← orElse (storage.entry "prefix") (.str "outputs"))
      match ← resolveStorage env storage provider (joinPath [root, workflowId, runId]) with
      | some resolved => return some [(.str "target", .dict [(.str "artifact", .str "primary"),
          (.str "provider", .str provider), (.str "storage", .dict resolved)])]
      | none => return none
    | _ => return none
  | _ => return none

def publishStage (next : Value) : Value :=
  .dict [(.str "id", .str "publish"), (.str "phase", .str "publish"), (.str "handler", .str "publish_outputs"),
    (.str "queue", .str "publish"), (.str "next", next)]

def insertPublish (currentStageId : String) : List Value → List Value
  | [] => []
  | .dict (stage : Dict) :: stages =>
    if hasId currentStageId (.dict stage) then
      .dict (stage.set "next" (.str "publish")) :: publishStage (stage.entry "next") :: stages
    else .dict stage :: insertPublish currentStageId stages
  | v :: stages => v :: insertPublish currentStageId stages

def isPhase (phase : String) : Value → Bool
  | .dict (stage : Dict) => isStr (stagePhase stage) phase
  | _ => false

def ensurePublishStageAfterExecute (payload : Dict) : Dict :=
  match payload.get "stage_context" with
  | some (.dict (context : Dict)) =>
    match context.get "pipeline", context.get "current_stage_id" with
    | some (.list pipeline), some (.str currentStageId) =>
      match findStage pipeline currentStageId with
      | some stage =>
        if isStr (stagePhase stage) "execute" ∧ ¬pipeline.any (isPhase "publish") then
          payload.set "stage_context" (.dict (context.set "pipeline" (.list (insertPublish currentStageId pipeline))))
        else payload
      | none => payload
    | _, _ => payload
  | _ => payload

def copyMissing (source : Dict) (keys : List String) (payload : Dict) : Dict :=
  keys.foldl (fun payload key =>
    match source.get key with
    | some v => payload.setDefault key v
    | none => payload) payload

def firstTrue : List Value → M Value
  | [] => return .str ""
  | [v] => orElse v (.str "")
  | v :: vs => do if ← truth v then return v else firstTrue vs

def addContext (batchPayload payload : Dict) : Dict :=
  match batchPayload.get "stage_context" with
  | some (.dict (context : Dict)) => payload.set "stage_context" (.dict context)
  | _ => payload

def addPublication (batchPayload payload : Dict) (runId : Value) : M Dict := do
  if (payload.entry "output_publication").isDict then return payload
  let workflowId ← firstTrue [payload.entry "workflow_id", batchPayload.entry "workflow_id"]
  let workflowId := strip (← env.str workflowId)
  let publication ← outputPublicationFromEnv env workflowId runId
  return setIfSome "output_publication" (publication.map .dict) payload

def batchItemCompletionPayload (batchPayload itemPayload : Dict) : M Dict := do
  raiseIf (Value.dict itemPayload).copyError
  let runId ← firstTrue [itemPayload.entry "run_id", batchPayload.entry "run_id", batchPayload.entry "batch_id"]
  let runId := strip (← env.str runId)
  let payload := copyMissing batchPayload ["batch_id", "batch_info", "output_publication"]
    (addContext batchPayload itemPayload)
  let payload ← addPublication env batchPayload payload runId
  return if (payload.entry "output_publication").isDict then ensurePublishStageAfterExecute payload else payload

end Publication

-- The results of a batch. A result with a list of them is taken for the result of a batch.
def batchEntries (result : Dict) : Option (List Value) :=
  (result.get "batch_results").bind Value.asList

-- An entry of the batch results that counts: its run id, its payload and its result.
structure CountedEntry where
  runId : Value
  payload : Dict
  result : Dict
  batchInfo : Option Dict

def countEntry : Value → M (Option CountedEntry)
  | .dict (entry : Dict) =>
    match entry.get "result", entry.get "payload" with
    | some (.dict (result : Dict)), some (.dict (payload : Dict)) => do
      let runId ← env.stripped (entry.entry "run_id") ""
      if ← truth runId then
        return some { runId, payload, result, batchInfo := (entry.get "batch_info").bind Value.asDict }
      else return none
    | _, _ => return none
  | _ => return none

def CountedEntry.sentResult (entry : CountedEntry) : Dict :=
  let result := match entry.batchInfo with
    | some info => entry.result.set "batch_info" (.dict info)
    | none => entry.result
  result.set "run_id" entry.runId

def buildEntryOutput (streamName : String) (batchPayload : Dict) (entry : CountedEntry) : M Primary := do
  let payload ← batchItemCompletionPayload env batchPayload entry.payload
  raiseIf (entry.batchInfo.bind fun info => (Value.dict info).copyError)
  buildPrimaryCompletion env streamName payload entry.sentResult

def buildBatchPrimaryOutputs (streamName : String) (batchPayload : Dict) :
    List Value → M (List (Primary × Value))
  | [] => return []
  | entry :: entries => do
    match ← countEntry env entry with
    | some entry => do
      let primary ← buildEntryOutput env streamName batchPayload entry
      return (primary, entry.runId) :: (← buildBatchPrimaryOutputs streamName batchPayload entries)
    | none => buildBatchPrimaryOutputs streamName batchPayload entries

def releaseFields (runId : Value) (resource : Int × Int) (status : Value) : Dict :=
  [(.str "run_id", runId), (.str "resource_id", .int resource.1), (.str "memory_mb", .int resource.2),
    (.str "status", status), (.str "released_at", .str env.now)]

def buildReleaseEnvelope (runId : Value) (resource : Int × Int) (status parentRunId : Value) : M Dict := do
  let payload := releaseFields env runId resource status
  if ← truth parentRunId then return payload.set "parent_run_id" parentRunId
  return payload

-- The scheduler sends integers. Everything else is left to the conversion of the language.
def toInt (convert : Value → M Int) : Value → M Int
  | .int n => return n
  | v => convert v

structure Device where
  index : M Int -- from the environment of the worker
  memory : M Int
  convert : Value → M Int

def extractResourceInfo (device : Device) (payload : Dict) : M (Int × Int) := do
  let resourceId ← match payload.entry "resource_id" with
    | .none => device.index
    | v => toInt device.convert v
  let memoryMb ← match payload.entry "memory_mb" with
    | .none => device.memory
    | v => toInt device.convert v
  return (resourceId, memoryMb)

section Send

structure Sent where
  stream : String
  payload : Dict
  stage : String
  runId : String

-- The clients take text that has a UTF-8 form.
def utf8 : Value → M String
  | .str s => return s
  | _ => throw (.error "surrogates not allowed")

def resolveOutputStream (logicalStream : String) : String :=
  let streamPrefix := trimText env.streamPrefix
  if streamPrefix = "" then logicalStream
  else
    let streamPrefix := if streamPrefix.toList.getLast? = some ':' then streamPrefix else streamPrefix ++ ":"
    if streamPrefix.toList <+: logicalStream.toList then logicalStream else streamPrefix ++ logicalStream

def streamEntry (stream : Value) (payload : Dict) (stage runId : Value) : M Sent := do
  if ¬(Value.dict payload).encodes then throw (.error "Object is not JSON serializable")
  return {
    stream := resolveOutputStream env (← utf8 stream)
    payload
    stage := ← utf8 stage
    runId := ← utf8 runId }

def primaryOutputs (streamName : String) (payload result : Dict) (runId : Value) : M (List (Primary × Value)) :=
  match batchEntries result with
  | some entries => buildBatchPrimaryOutputs env streamName payload entries
  | none => do return [(← buildPrimaryCompletion env streamName payload result, runId)]

def releaseStream : String :=
  resolveOutputStream env "release"

def releaseEntry (runId : Value) (resource : Int × Int) (status parentRunId : Value) : M Sent := do
  let payload ← buildReleaseEnvelope env runId resource status parentRunId
  streamEntry env (.str "release") payload (.str "release") runId

-- What is sent for a message, in this order. Each entry is encoded when its turn comes.
def completionEntries (device : Device) (streamName : String) (payload result : Dict) : M (List (M Sent)) := do
  let runId := result.entry "run_id"
  let resource ← extractResourceInfo device payload
  let parentRunId ← orElse (result.entry "parent_run_id") (payload.entry "parent_run_id")
  let primaries ← primaryOutputs env streamName payload result runId
  return primaries.map (fun (primary, runId) => streamEntry env primary.stream primary.payload primary.stage runId) ++
    [releaseEntry env runId resource (result.entry "status") parentRunId]

inductive Command
  | xadd (entry : Sent)
  | xack (id : String)

-- Command after command, up to the first that cannot be built.
def sendEach : List (M Sent) → List Sent × Bool
  | [] => ([], true)
  | .ok entry :: entries =>
    let (sent, completed) := sendEach entries
    (entry :: sent, completed)
  | .error _ :: _ => ([], false)

def completeJob (device : Device) (streamName msgId : String) (payload result : Dict) : List Command :=
  match completionEntries env device streamName payload result with
  | .error _ => []
  | .ok entries =>
    let (sent, completed) := sendEach entries
    sent.map .xadd ++ if completed ∧ msgId ≠ "" then [.xack msgId] else []

-- The entries are all encoded before a script adds them and acknowledges the message.
def completeJobAsync (device : Device) (streamName : String) (payload result : Dict) : M (List Sent) := do
  let entries ← completionEntries env device streamName payload result
  entries.mapM id

end Send

end Inference
