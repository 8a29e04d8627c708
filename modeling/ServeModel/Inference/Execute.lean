import ServeModel.Inference.Payload

-- The executor: from a payload to the result of its plugin, or of each item of a batch.
namespace Inference

open Python

section Item

-- What a hook does. Cancelling is an exception of its own.
inductive Hook
  | returned (result : Value)
  | cancelled (text : String)
  | raised (e : Exc)

-- What happens around the hook of one item.
structure ItemRun where
  load : M Unit -- the manifest, the entry point, the module and the hook are found
  parentTerminal : Bool
  hook : Hook
  artifacts : M Value -- the outputs that the hook has registered
  primaryPath : M Value -- and the path of the primary one
  defaultOperation : Value
  seconds : Value
  traceback : String

def normalizeLegacyExecuteResult (run : ItemRun) (result : Dict) : M Dict := do
  let result ← match result.get "artifacts" with
    | some (.list (_ :: _)) => pure result
    | _ => do pure (result.set "artifacts" (← run.artifacts))
  let result ← match result.entry "output_path" with
    | .none => do pure (result.set "output_path" (← run.primaryPath))
    | _ => pure result
  return ((result.setDefault "status" (.str "succeeded")).setDefault "execution_time_seconds" run.seconds)

def raiseIf : Option String → M Unit
  | some e => throw (.error e)
  | none => return ()

def failedResult (run : ItemRun) (e : Exc) (artifacts : Value) : Dict :=
  [(.str "status", .str "failed"), (.str "output_path", .none), (.str "execution_time_seconds", run.seconds),
    (.str "error", .str e.text), (.str "error_traceback", .str run.traceback), (.str "artifacts", artifacts)]

def cancelledResult (run : ItemRun) (text : String) (artifacts : Value) : Dict :=
  [(.str "status", .str "cancelled"), (.str "output_path", .none), (.str "execution_time_seconds", run.seconds),
    (.str "error", .str text), (.str "artifacts", artifacts)]

def skippedResult (run : ItemRun) (workflowId operation runId parentRunId : Value) : Dict :=
  [(.str "status", .str "cancelled"), (.str "workflow", workflowId), (.str "operation", operation),
    (.str "run_id", runId), (.str "parent_run_id", parentRunId), (.str "artifacts", .list []),
    (.str "output_path", .none), (.str "execution_time_seconds", run.seconds),
    (.str "skipped_reason", .str "parent_run_terminal")]

-- The state of the execution is looked up by the status, which fails for a status without a hash.
def checkedResult (run : ItemRun) (workflowId : String) : Value → M Dict
  | .dict (result : Dict) => do
    let normalized ← normalizeLegacyExecuteResult run result
    raiseIf (normalized.entry "status").hashError
    return normalized
  | _ => throw (.error s!"Plugin workflow '{workflowId}' returned no dict, expected dict")

-- An error before there is a context leaves no artifacts. The handlers themselves ask for them again.
def executePluginWorkflow (run : ItemRun) (workflowId : String) (runId : Value) (payload : Dict) : M Dict :=
  match run.load with
  | .error .fatal => throw .fatal
  | .error e => return failedResult run e (.list [])
  | .ok () =>
    let operation := match payload.entry "operation" with
      | .none => run.defaultOperation
      | v => v
    if run.parentTerminal then
      return skippedResult run (.str workflowId) operation runId (payload.entry "parent_run_id")
    else
      match run.hook with
      | .cancelled text => do return cancelledResult run text (← run.artifacts)
      | .raised .fatal => throw .fatal
      | .raised e => do return failedResult run e (← run.artifacts)
      | .returned v =>
        match checkedResult run workflowId v with
        | .ok result => return result
        | .error .fatal => throw .fatal
        | .error e => do return failedResult run e (← run.artifacts)

end Item

section Batch

-- One member of a batch as the executor sees it.
structure BatchItem where
  runId : Value
  parentRunId : Value
  rawPayload : Dict
  payload : Dict -- what the hook gets

def batchItemParentRunId (env : Env) (rawItem itemPayload : Dict) : M Value := do
  let own ← env.stripped (rawItem.entry "parent_run_id") ""
  if ← truth own then return own
  let inner ← env.stripped (itemPayload.entry "parent_run_id") ""
  if ← truth inner then return inner
  return .none

-- The hook gets the envelope of a single request.
def itemPayload (rawPayload : Dict) (parentRunId operation : Value) : Dict :=
  let payload := rawPayload.without ["batch_id", "batch_info", "items", "service_objects"]
  let payload := match parentRunId with
    | .none => payload
    | v => payload.set "parent_run_id" v
  payload.setDefault "operation" operation

def readItem (env : Env) (workflowId : String) (operation : Value) (rawItem rawPayload : Dict) : M BatchItem := do
  let runId ← orElse (rawItem.entry "run_id") (rawPayload.entry "run_id")
  let runId ← env.stripped runId ""
  if ¬(← truth runId) then
    throw (.valueError s!"Plugin batch workflow '{workflowId}' item is missing run_id")
  let parentRunId ← batchItemParentRunId env rawItem rawPayload
  return { runId, parentRunId, rawPayload, payload := itemPayload rawPayload parentRunId operation }

def decodeItem (env : Env) (workflowId : String) (operation : Value) : Value → M BatchItem
  | .dict (rawItem : Dict) =>
    match rawItem.get "payload" with
    | some (.dict (rawPayload : Dict)) => readItem env workflowId operation rawItem rawPayload
    | _ => throw (.error s!"Plugin batch workflow '{workflowId}' item payload must be an object")
  | _ => throw (.error s!"Plugin batch workflow '{workflowId}' items must be objects")

def normalizeBatchInfo (batchId : Value) (payload : Dict) (itemCount : Nat) : Dict :=
  let raw := match payload.get "batch_info" with
    | some (.dict (info : Dict)) => info
    | _ => []
  (raw.setDefault "batch_id" batchId).setDefault "batch_size" (.int itemCount)

def cancelledBatchItemResult (run : ItemRun) (item : BatchItem) (batchInfo : Dict) : Dict :=
  let result : Dict :=
    [(.str "run_id", item.runId), (.str "status", .str "cancelled"), (.str "artifacts", .list []),
      (.str "output_path", .none), (.str "execution_time_seconds", run.seconds), (.str "batch_info", .dict batchInfo),
      (.str "skipped_reason", .str "parent_run_terminal")]
  match item.parentRunId with
  | .none => result
  | v => result.set "parent_run_id" v

def failedBatchItemResult (run : ItemRun) (item : BatchItem) (batchInfo : Dict) (e : Exc) : Dict :=
  [(.str "run_id", item.runId), (.str "status", .str "failed"), (.str "output_path", .none),
    (.str "execution_time_seconds", run.seconds), (.str "error", .str e.text),
    (.str "error_traceback", .str run.traceback), (.str "batch_info", .dict batchInfo)]

def batchEntry (item : BatchItem) (batchInfo result : Dict) : Value :=
  .dict [(.str "run_id", item.runId), (.str "batch_info", .dict batchInfo), (.str "payload", .dict item.rawPayload),
    (.str "result", .dict result)]

def entryStatuses (env : Env) : List Value → M (List String)
  | [] => return []
  | .dict (entry : Dict) :: entries =>
    match entry.get "result" with
    | some (.dict (result : Dict)) => do
      let status ← normalizeBatchOutcomeStatus env (result.entry "status")
      return status :: (← entryStatuses env entries)
    | _ => entryStatuses env entries
  | _ :: entries => entryStatuses env entries

def batchResultStatus (env : Env) (batchResults : List Value) : M String := do
  let statuses ← entryStatuses env batchResults
  if statuses = [] then return "failed"
  if "failed" ∈ statuses then return "failed"
  if "cancelled" ∈ statuses then return "cancelled"
  return "succeeded"

-- What happens around a batch. The parent of an item is looked up before its hook runs, and once more by it.
structure BatchRun where
  load : M Unit -- the manifest, the entry point and the module are found
  defaultOperation : M Value
  legacyBatchOnly : Bool
  accepting : Bool -- the coordinator is not closed
  items : Nat → ItemRun
  parentTerminal : Nat → Bool
  subprocess : Nat → Option (M Dict) -- the result of an item that runs in a process of its own
  legacyLoad : M Unit -- the legacy path loads everything again
  contexts : Nat → M Unit -- builds a context for each item
  batchHook : Option Hook -- and has one hook for all of them
  seconds : Value
  traceback : String

-- A conversion to a dictionary takes pairs, too.
def isPair : Value → Bool
  | .list [k, _] | .tuple [k, _] => k.hashError.isNone
  | .str s => s.toList.length = 2
  | .dict (d : Dict) => d.length = 2
  | _ => false

def convertsToDict : Value → Bool
  | .dict _ => true
  | .list xs => xs.all isPair
  | _ => false

def checkDict (v : Value) : M Unit := do
  if ← truth v then
    if ¬convertsToDict v then throw (.error "cannot convert to a dictionary")

def itemResult (batch : BatchRun) (workflowId : String) (i : Nat) (item : BatchItem) : M Dict :=
  match batch.subprocess i with
  | some result => result
  | none => executePluginWorkflow (batch.items i) workflowId item.runId item.payload

-- Ordinary exceptions stay with their item.
def runItem (batch : BatchRun) (workflowId : String) (batchInfo : Dict) (i : Nat) (item : BatchItem) : M Dict :=
  let run := batch.items i
  if batch.parentTerminal i then return cancelledBatchItemResult run item batchInfo
  else
    match itemResult batch workflowId i item with
    | .ok result => return (result.setDefault "run_id" item.runId).setDefault "batch_info" (.dict batchInfo)
    | .error .fatal => throw .fatal
    | .error e => return failedBatchItemResult run item batchInfo e

def batchResponse (env : Env) (batch : BatchRun) (batchId : Value) (batchResults : List Value) : M Dict := do
  let status ← batchResultStatus env batchResults
  return [(.str "run_id", batchId), (.str "status", .str status), (.str "execution_time_seconds", batch.seconds),
    (.str "batch_results", .list batchResults)]

def rawItems (workflowId : String) (payload : Dict) : M (List Value) :=
  match payload.get "items" with
  | some (.list (rawItem :: rawItems)) => return rawItem :: rawItems
  | _ => throw (.valueError s!"Plugin batch workflow '{workflowId}' is missing items")

def batchItems (env : Env) (workflowId : String) (operation : Value) (payload : Dict) : M (List BatchItem) := do
  (← rawItems workflowId payload).mapM (decodeItem env workflowId operation)

def itemOperation (batch : BatchRun) (payload : Dict) : M Value := do
  if ← truth (payload.entry "operation") then return payload.entry "operation"
  batch.defaultOperation

def itemwise (env : Env) (batch : BatchRun) (workflowId : String) (batchId : Value) (payload : Dict) : M Dict := do
  let operation ← itemOperation batch payload
  checkDict (payload.entry "services")
  checkDict (payload.entry "service_objects")
  let items ← batchItems env workflowId operation payload
  let batchInfo := normalizeBatchInfo batchId payload items.length
  if ¬batch.accepting then throw (.error "batch execution coordinator is closed")
  -- a fatal exception waits for the other items
  let results ← items.zipIdx.mapM fun (item, i) => runItem batch workflowId batchInfo i item
  batchResponse env batch batchId (List.zipWith (batchEntry · batchInfo ·) items results)

end Batch

section Legacy

-- An item whose parent is not terminal goes to the hook.
def legacyActive (batch : BatchRun) (items : List BatchItem) : List (Nat × BatchItem) :=
  (items.zipIdx.map fun (item, i) => (i, item)).filter fun (i, _) => ¬batch.parentTerminal i

def legacyItems (env : Env) (batch : BatchRun) (workflowId : String) (operation : Value) :
    Nat → List Value → M (List BatchItem)
  | _, [] => return []
  | i, rawItem :: rawItems => do
    let item ← decodeItem env workflowId operation rawItem
    batch.contexts i
    return item :: (← legacyItems env batch workflowId operation (i + 1) rawItems)

-- The entries of the batch, where the active items have the results given.
def legacyEntries (batch : BatchRun) (batchInfo : Dict) (result : Nat → Dict) (items : List BatchItem) : List Value :=
  items.zipIdx.map fun (item, i) =>
    batchEntry item batchInfo
      (if batch.parentTerminal i then cancelledBatchItemResult (batch.items i) item batchInfo else result i)

def legacyHookResults (env : Env) (batch : BatchRun) (workflowId : String) (batchInfo : Dict)
    (active : List (Nat × BatchItem)) : Value → M (List (Nat × Dict))
  | .list rawResults => do
    if rawResults.length ≠ active.length then
      let results := rawResults.length
      let items := active.length
      throw (.valueError s!"Plugin batch workflow '{workflowId}' returned {results} results for {items} items")
    (active.zip rawResults).mapM fun ((i, item), rawResult) =>
      match rawResult with
      | .dict (result : Dict) => do
        let normalized ← normalizeLegacyExecuteResult (batch.items i) result
        let _ ← normalizeBatchOutcomeStatus env (normalized.entry "status")
        return (i, (normalized.setDefault "run_id" item.runId).setDefault "batch_info" (.dict batchInfo))
      | _ => throw (.error s!"Plugin batch workflow '{workflowId}' returned non-dict item result")
  | _ => throw (.error s!"Plugin batch workflow '{workflowId}' returned no list, expected list")

def resultAt (results : List (Nat × Dict)) (i : Nat) : Dict :=
  (results.lookup i).getD []

def legacyFailed (batch : BatchRun) (batchInfo : Dict) (e : Exc) (items : List BatchItem) (i : Nat) : Dict :=
  match items[i]? with
  | some item => failedBatchItemResult { batch.items i with seconds := batch.seconds, traceback := batch.traceback }
      item batchInfo e
  | none => []

def legacyHooked (env : Env) (batch : BatchRun) (workflowId : String) (batchId : Value) (batchInfo : Dict)
    (items : List BatchItem) : Hook → M Dict
  | .returned v => do
    let results ← legacyHookResults env batch workflowId batchInfo (legacyActive batch items) v
    batchResponse env batch batchId (legacyEntries batch batchInfo (resultAt results) items)
  | .cancelled text => throw (.error text)
  | .raised e => throw e

def legacyParents (items : List BatchItem) : List String :=
  (items.filterMap fun item => item.parentRunId.asStr).dedup

def legacyOperation (batch : BatchRun) (payload : Dict) : M Value :=
  match payload.entry "operation" with
  | .none => batch.defaultOperation
  | v => return v

def legacyTerminal (batch : BatchRun) (batchId : Value) (batchInfo : Dict) (items : List BatchItem) : Dict :=
  let response : Dict := [(.str "run_id", batchId), (.str "status", .str "cancelled"),
    (.str "execution_time_seconds", batch.seconds),
    (.str "batch_results", .list (legacyEntries batch batchInfo (fun _ => []) items)),
    (.str "skipped_reason", .str "parent_run_terminal")]
  match legacyParents items with
  | [parent] => response.set "parent_run_id" (.str parent)
  | _ => response

-- Without a hook for batches, one item after another. An exception ends it all.
def legacyEach (batch : BatchRun) (workflowId : String) (batchInfo : Dict) (items : List BatchItem) :
    M (List (Nat × Dict)) :=
  (legacyActive batch items).mapM fun (i, item) => do
    let result ← executePluginWorkflow (batch.items i) workflowId item.runId item.rawPayload
    return (i, (result.setDefault "run_id" item.runId).setDefault "batch_info" (.dict batchInfo))

-- Any ordinary exception of the hook, or of what is made of its results, fails the active items.
def legacyRecover (env : Env) (batch : BatchRun) (batchId : Value) (batchInfo : Dict) (items : List BatchItem) :
    M Dict → M Dict
  | .ok response => return response
  | .error .fatal => throw .fatal
  | .error e => do
    let response ← batchResponse env batch batchId
      (legacyEntries batch batchInfo (legacyFailed batch batchInfo e items) items)
    return (response.set "error" (.str e.text)).set "error_traceback" (.str batch.traceback)

def legacyFinish (env : Env) (batch : BatchRun) (workflowId : String) (batchId : Value) (batchInfo : Dict)
    (items : List BatchItem) : M Dict := do
  if legacyActive batch items = [] then return legacyTerminal batch batchId batchInfo items
  match batch.batchHook with
  | none => do
    let results ← legacyEach batch workflowId batchInfo items
    batchResponse env batch batchId (legacyEntries batch batchInfo (resultAt results) items)
  | some hook =>
    legacyRecover env batch batchId batchInfo items (legacyHooked env batch workflowId batchId batchInfo items hook)

def executeLegacyPluginBatchWorkflow (env : Env) (batch : BatchRun) (workflowId : String) (batchId : Value)
    (payload : Dict) : M Dict := do
  batch.legacyLoad
  let operation ← legacyOperation batch payload
  let items ← legacyItems env batch workflowId operation 0 (← rawItems workflowId payload)
  legacyFinish env batch workflowId batchId (normalizeBatchInfo batchId payload items.length) items

end Legacy

def executePluginBatchWorkflow (env : Env) (batch : BatchRun) (workflowId : String) (batchId : Value)
    (payload : Dict) : M Dict := do
  batch.load
  if batch.legacyBatchOnly then executeLegacyPluginBatchWorkflow env batch workflowId batchId payload
  else itemwise env batch workflowId batchId payload

-- A message is either for one run or for a batch.
structure Execution where
  single : ItemRun
  batch : BatchRun

def execute (env : Env) (ex : Execution) (workflowId : String) (runId : Value) (payload : Dict) : M Dict := do
  if ← truth (payload.entry "workflow_id") then
    match payload.get "items" with
    | some (.list _) => executePluginBatchWorkflow env ex.batch workflowId runId payload
    | _ => executePluginWorkflow ex.single workflowId runId payload
  else throw (.valueError
    "Plugin-only worker received a non-plugin payload. Expected workflow_id in the message envelope.")

end Inference
