import ServeModel.Inference.Completion
import ServeModel.Scheduler.Role

-- From a message to its completion.
namespace Inference

open Python

variable (env : Env)

-- A message from the stream of a device. The server never gives out an empty id.
structure Job where
  msgId : String
  stream : String
  runId : String
  payload : Wire
  msgId_ne : msgId ≠ ""

def decodePayloadObject (raw : Wire) : Dict :=
  ((raw.json.map Value.ofJson).bind Value.asDict).getD []

-- Text that is not JSON counts as an empty payload. What is no object has no fields to ask for.
def parseJobPayload (raw : Wire) : M Dict :=
  match raw.json.map Value.ofJson with
  | none => return []
  | some (.dict (d : Dict)) => return d
  | some _ => throw (.error "object has no attribute 'get'")

def jobWorkflowName (payload : Dict) : M Value := do
  orElse (← orElse (payload.entry "workflow") (payload.entry "workflow_id")) (.str "deterministic_workflow")

-- A run whose record and result are written by the worker itself.
structure Persisted where
  runId : Value
  result : Dict
  publicationSkipped : Bool

structure JobItem where
  runId : Value
  payload : Dict
  result : Dict

def jobItem (batchPayload : Dict) : Value → M (Option JobItem)
  | .dict (entry : Dict) => do
    let runId ← env.stripped (entry.entry "run_id") ""
    if ¬(← truth runId) then return none
    match entry.get "result", entry.get "payload" with
    | some (.dict (result : Dict)), some (.dict (payload : Dict)) => do
      return some { runId, payload := ← batchItemCompletionPayload env batchPayload payload, result }
    | _, _ => return none
  | _ => return none

def jobItems (batchPayload : Dict) : List Value → M (List JobItem)
  | [] => return []
  | entry :: entries => do
    let item ← jobItem env batchPayload entry
    return item.toList ++ (← jobItems batchPayload entries)

-- Whether an item is written and, if so, whether its publication counts as skipped.
def persistDecision (item : JobItem) : M (Option Bool) := do
  if ← shouldPersistRunStatusAfterExecute env item.payload item.result then
    return some (← shouldMarkPublicationSkippedAfterExecuteFailure env item.payload item.result)
  else return none

def persistAll : List JobItem → List Persisted × M Unit
  | [] => ([], .ok ())
  | item :: items =>
    match persistDecision env item with
    | .error e => ([], .error e)
    | .ok none => persistAll items
    | .ok (some skipped) =>
      let (persisted, outcome) := persistAll items
      ({ runId := item.runId, result := item.result, publicationSkipped := skipped } :: persisted, outcome)

-- Every item is checked before any is written.
def checkedItems (runId : String) (payload result : Dict) : M (List JobItem) := do
  validateFanoutHandoff env payload result
  match batchEntries result with
  | some entries => do
    let items ← jobItems env payload entries
    items.forM fun item => validateFanoutHandoff env item.payload item.result
    return items
  | none => return [{ runId := .str runId, payload, result }]

section Job

def failedResponse (runId text : String) : Dict :=
  [(.str "run_id", .str runId), (.str "status", .str "failed"), (.str "output_path", .none), (.str "error", .str text)]

def ownFields (runId : String) (result : Dict) : Dict :=
  [(.str "run_id", .str runId), (.str "status", status result), (.str "output_path", result.entry "output_path"),
    (.str "error", result.entry "error"), (.str "execution_time_seconds", result.entry "execution_time_seconds")]

def responseKeys : List Key :=
  [.str "run_id", .str "status", .str "output_path", .str "error", .str "execution_time_seconds"]

-- The fields of the response come first, those of the result are added where they are missing.
def response (runId : String) (result : Dict) : Dict :=
  ownFields runId result ++ result.filter (·.1 ∉ responseKeys)

def handleError (runId : String) : Exc → M Dict
  | .valueError text => return failedResponse runId text
  | .error text => return failedResponse runId ("Worker error: " ++ text)
  | .fatal => throw .fatal

-- The executor is given by what it returns for the message.
def processJob (outcome : M Dict) (runId : String) (payload : Dict) : List Persisted × M Dict :=
  match outcome with
  | .error e => ([], handleError runId e)
  | .ok result =>
    match checkedItems env runId payload result with
    | .error e => ([], handleError runId e)
    | .ok items =>
      match persistAll env items with
      | (persisted, .ok ()) => (persisted, .ok (response runId result))
      | (persisted, .error e) => (persisted, handleError runId e)

-- What becomes of a message: the entries that are added, and whether it is acknowledged. The worker drops an
-- error of the completion, and ends with a fatal one.
inductive Mode
  | sync
  | async
  deriving DecidableEq

def complete (mode : Mode) (device : Device) (job : Job) (result : Dict) : List Command :=
  let payload := decodePayloadObject job.payload
  match mode with
  | .sync => completeJob env device job.stream job.msgId payload result
  | .async =>
    match completeJobAsync env device job.stream payload result with
    | .ok sent => sent.map .xadd ++ [.xack job.msgId]
    | .error _ => []

-- The commands of one call, all of which succeed.
def processMessage (mode : Mode) (device : Device) (outcome : Dict → M Dict) (job : Job) : List Command :=
  match parseJobPayload job.payload with
  | .error _ => []
  | .ok payload =>
    match (processJob env (outcome payload) job.runId payload).2 with
    | .ok result => complete env mode device job result
    | .error _ => []

end Job

def Dispatched (job : Job) : Prop :=
  ∃ payload target, job.payload = .encode (Scheduler.dispatchPayload payload target)

def workflowText (payload : Dict) : M Value := do
  env.str (← jobWorkflowName payload)

def executor (ex : Execution) (job : Job) (payload : Dict) : M Dict := do
  let workflow ← workflowText env payload
  execute env ex (workflow.asStr.getD "") (.str job.runId) payload

end Inference
