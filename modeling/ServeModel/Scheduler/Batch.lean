import ServeModel.Scheduler.Queue

namespace Scheduler

structure SchedulerRoleConfig where
  batchingEnabled : Bool
  maxBatchSize : Nat
  maxBatchWaitMs : Nat
  deriving DecidableEq

structure BatchPolicy where
  batchKey : String
  maxBatchSize : Nat
  maxWaitMs : Nat
  sharedMemoryMb : Option Nat
  incrementalMemoryMb : Option Nat
  baseResourceProfile : ScheduleResourceProfile
  singleRequestMemoryMb : Nat
  deriving DecidableEq

inductive BatchFlushReason
  | maxBatchSize
  | maxWaitMs
  | memoryFit
  deriving DecidableEq

def BatchFlushReason.asStr : BatchFlushReason → String
  | maxBatchSize => "max_batch_size"
  | maxWaitMs => "max_wait_ms"
  | memoryFit => "memory_fit"

structure BatchCandidate where
  queued : QueuedRequest
  policy : BatchPolicy

structure BatchRequest where
  head : QueuedRequest
  candidates : List BatchCandidate
  policy : BatchPolicy
  flushReason : BatchFlushReason

inductive SchedulerRequest
  | empty
  | wait (queued : QueuedRequest)
  | single (queued : QueuedRequest)
  | batch (request : BatchRequest)

structure PendingSchedule where
  sourceMsg : Message
  payload : SchedulePayload
  ackAfterDispatch : List Message

def queueKey (m : Message) : String :=
  m.stream ++ "::" ++ m.id

def checkedAdd (a b : Nat) : Option Nat :=
  if a + b < 2 ^ 64 then some (a + b) else none

-- Adds up one number per candidate; the error names the number that no longer fits.
def checkedSum (what : String) : Nat → List Nat → Except Failure Nat
  | total, [] => .ok total
  | total, n :: rest =>
    match checkedAdd total n with
    | some total => checkedSum what total rest
    | none => .error <| .msg s!"scheduler: batch memory_mb overflow while summing {what}={n}"

def hasBatchMemoryScaling (candidates : List BatchCandidate) : Bool :=
  candidates.all fun c => c.policy.sharedMemoryMb.isSome && c.policy.incrementalMemoryMb.isSome

def sharedMemoryMb (candidates : List BatchCandidate) : Nat :=
  (candidates.filterMap (·.policy.sharedMemoryMb)).foldl max 0

def batchMemoryMb (candidates : List BatchCandidate) : Except Failure Nat :=
  if !hasBatchMemoryScaling candidates then
    checkedSum "resource profile memory_mb" 0 (candidates.map (·.policy.singleRequestMemoryMb))
  else do
    let shared := sharedMemoryMb candidates
    let incremental ← checkedSum "incremental_memory_mb" 0
      (candidates.filterMap (·.policy.incrementalMemoryMb))
    match checkedAdd shared incremental with
    | some total => pure total
    | none => throw <| .msg ("scheduler: batch memory_mb overflow while adding " ++
        s!"shared_memory_mb={shared} and incremental_total_mb={incremental}")

def batchResourceProfile (policy : BatchPolicy) (candidates : List BatchCandidate) :
    Except Failure ScheduleResourceProfile := do
  let memoryMb ← batchMemoryMb candidates
  return { policy.baseResourceProfile with gpusRequired := some 1, memoryMb := some memoryMb }

def batchMemoryFitPayload (policy : BatchPolicy) (candidates : List BatchCandidate) :
    Except Failure SchedulePayload := do
  let head :: _ := candidates | throw <| .msg "scheduler: cannot evaluate empty batch"
  let profile ← batchResourceProfile policy candidates
  return { head.queued.payload with resourceProfile := some profile }

def rawStringField (payload : Json) (name : String) : Option String :=
  ((payload.get name).bind Json.asStr).bind Text.nonBlank

def defaultSchedulerBatchKey (payload : SchedulePayload) : String :=
  (rawStringField payload.rawPayload "operation").getD "default"

def positive (n : Nat) : Option Nat :=
  if n > 0 then some n else none

def batchPolicyForPayload (config : SchedulerRoleConfig) (table : ResourceReservationTable)
    (payload : SchedulePayload) : Option BatchPolicy :=
  let profile := payload.batchProfile
  if !config.batchingEnabled then none
  else if profile.any (!·.enabled) then none
  else match table.prepareResourceRequirements payload with
    | .error _ => none
    | .ok (resources, resolved) => do
      if resources.gpusRequired ≠ 1 ∨ resources.memoryMb = 0 then none
      let baseResourceProfile ← resolved.resourceProfile
      if baseResourceProfile.executorClass.all Text.isBlank then none
      some {
        batchKey := (profile.bind (Text.nonBlank ·.batchKey)).getD (defaultSchedulerBatchKey payload)
        maxBatchSize := max 1 ((profile.bind (positive ·.maxBatchSize)).getD config.maxBatchSize)
        maxWaitMs := (profile.bind (positive ·.maxWaitMs)).getD config.maxBatchWaitMs
        sharedMemoryMb := profile.bind (·.sharedMemoryMb)
        incrementalMemoryMb := profile.bind (·.incrementalMemoryMb)
        baseResourceProfile
        singleRequestMemoryMb := resources.memoryMb
      }

def batchWorkflow (payload : SchedulePayload) : String :=
  (payload.workflowId.filter (!Text.isBlank ·)).getD payload.workflow

def batchTags (policy : BatchPolicy) : List String :=
  Text.sortDedup (policy.baseResourceProfile.tags.getD [])

def batchKey (payload : SchedulePayload) (policy : BatchPolicy) : String :=
  batchWorkflow payload ++ "::" ++ policy.batchKey ++ "::" ++
    policy.baseResourceProfile.executorClass.getD "" ++ "::" ++
    ",".intercalate (batchTags policy) ++ "::" ++ payload.parentRunId.getD ""

section Form

-- What the scan over the ready requests has found so far.
structure BatchScan where
  candidates : List BatchCandidate
  effectiveMaxBatchSize : Nat
  seenRunIds : List String
  memoryLimited : Bool := false
  full : Bool := false

variable (config : SchedulerRoleConfig) (table : ResourceReservationTable)

-- One partner is tried after the other: it must belong to the batch, there must be room for it, and the
-- combined memory must fit on some eligible GPU.
def scanBatch (head : QueuedRequest) (policy : BatchPolicy) :
    List QueuedRequest → BatchScan → Except Failure BatchScan
  | [], scan => .ok scan
  | queued :: rest, scan =>
    if queueKey queued.msg = queueKey head.msg then scanBatch head policy rest scan
    else if queued.msg.runId ∈ scan.seenRunIds then scanBatch head policy rest scan
    else
      let scan := { scan with seenRunIds := queued.msg.runId :: scan.seenRunIds }
      match batchPolicyForPayload config table queued.payload with
      | none => scanBatch head policy rest scan
      | some candidatePolicy =>
        let candidateMax := min scan.effectiveMaxBatchSize candidatePolicy.maxBatchSize
        if batchKey queued.payload candidatePolicy ≠ batchKey head.payload policy then
          scanBatch head policy rest scan
        else if scan.candidates.length + 1 > candidateMax then scanBatch head policy rest scan
        else do
          let grown := scan.candidates ++ [⟨queued, candidatePolicy⟩]
          let fitPayload ← batchMemoryFitPayload policy grown
          if ← table.batchCanFitMemory fitPayload then
            let scan := { scan with candidates := grown, effectiveMaxBatchSize := candidateMax }
            if grown.length = candidateMax then return { scan with full := true }
            scanBatch head policy rest scan
          else
            scanBatch head policy rest { scan with memoryLimited := true }

def batchWaitExpired : List BatchCandidate → RoleM τ Bool
  | [] => pure false
  | candidate :: rest => do
    let now ← RoleM.perform .instantNow
    if now - candidate.queued.enqueuedAt ≥ fromMillis candidate.policy.maxWaitMs then return true
    batchWaitExpired rest

def createBatchRequest (queue : PriorityQueue QueuedRequest) (head : QueuedRequest) :
    RoleM τ (Option SchedulerRequest) := do
  let some policy := batchPolicyForPayload config table head.payload | return none
  if policy.maxBatchSize ≤ 1 then return none
  let now ← RoleM.perform .instantNow
  let scan ← Routine.ofExcept <| scanBatch config table head policy (queue.iterReady now) {
    candidates := [⟨head, policy⟩]
    effectiveMaxBatchSize := policy.maxBatchSize
    seenRunIds := [head.msg.runId]
  }
  let flush (reason : BatchFlushReason) : Option SchedulerRequest :=
    some <| .batch { head, candidates := scan.candidates, policy, flushReason := reason }
  if scan.candidates.length = 1 then
    -- without a partner, wait or go on with the head alone
    if scan.memoryLimited then return none
    if ← batchWaitExpired scan.candidates then return none
    return some (.wait head)
  if scan.full then return flush .maxBatchSize
  if scan.memoryLimited then return flush .memoryFit
  if ← batchWaitExpired scan.candidates then return flush .maxWaitMs
  return some (.wait head)

end Form

def schedulerNowMs : RoleM τ Nat := do
  match ← RoleM.perform .systemNow with
  | .ok ms => return min ms (2 ^ 64 - 1)
  | .error err => throw <| .msg s!"scheduler: system clock before unix epoch: {err}"

def batchItemJson (candidate : BatchCandidate) : Json :=
  .object [("run_id", .str candidate.queued.msg.runId), ("payload", candidate.queued.payload.rawPayload)]

-- The fields of the head's payload that the batch takes over as they are.
def copyField (source : Json) (name : String) (target : Json.Fields) : Json.Fields :=
  match source.get name with
  | some value => Json.setField name value target
  | none => target

def batchPayloadFields (batchId : String) (head : BatchCandidate) (candidates : List BatchCandidate)
    (policy : BatchPolicy) (flushReason : BatchFlushReason) (firstSeenMs formedAtMs : Nat)
    (stageContext resourceProfile : Json) : Json.Fields :=
  let raw := head.queued.payload.rawPayload
  let payload := head.queued.payload
  [
    ("run_id", .str batchId),
    ("batch_id", .str batchId),
    ("batch_info", .object [
      ("batch_id", .str batchId),
      ("batch_size", .nat candidates.length),
      ("flush_reason", .str flushReason.asStr),
      ("first_seen_ms", .nat firstSeenMs),
      ("formed_at_ms", .nat formedAtMs),
      ("waited_ms", .nat (formedAtMs - firstSeenMs))
    ]),
    ("workflow", .str payload.workflow),
    ("workflow_id", .str (payload.workflowId.getD payload.workflow)),
    ("operation", .ofOption .str (rawStringField raw "operation")),
    ("manifest_version", .ofOption .str (rawStringField raw "manifest_version")),
    ("batch_profile", .object [
      ("enabled", .bool true),
      ("batch_key", .str policy.batchKey),
      ("max_batch_size", .nat policy.maxBatchSize),
      ("max_wait_ms", .nat policy.maxWaitMs),
      ("shared_memory_mb", .ofOption .nat policy.sharedMemoryMb),
      ("incremental_memory_mb", .ofOption .nat policy.incrementalMemoryMb)
    ]),
    ("items", .arr (candidates.map batchItemJson)),
    ("resource_profile", resourceProfile),
    ("runtime", (raw.get "runtime").getD .null),
    ("stage_context", stageContext)
  ]

def buildRequestBatchPayload (batchId : String) (candidates : List BatchCandidate)
    (policy : BatchPolicy) (flushReason : BatchFlushReason) : RoleM τ SchedulePayload := do
  let head :: _ := candidates | throw <| .msg "scheduler: cannot build empty batch"
  let nowMs ← schedulerNowMs
  let now ← RoleM.perform .instantNow
  let elapsedMs := min ((now - head.queued.enqueuedAt) / 1000000) (2 ^ 64 - 1)
  let formedAtMs ← schedulerNowMs
  let raw := head.queued.payload.rawPayload
  let some stageContext := raw.get "stage_context"
    | throw <| .msg "scheduler: batch head payload missing stage_context"
  let profile ← Routine.ofExcept (batchResourceProfile policy candidates)
  let fields := Json.literal <| batchPayloadFields batchId head candidates policy flushReason
    (nowMs - elapsedMs) formedAtMs stageContext (scheduleResourceProfileJson profile)
  -- a batch only holds siblings, so the parent of the head applies to every item
  let fields := copyField raw "fanout_profile" (copyField raw "parent_run_id" fields)
  Routine.ofExcept (decodeSchedulePayload (.encode (.obj fields)) batchId)

def BatchRequest.buildPendingSchedule (request : BatchRequest) : RoleM τ PendingSchedule := do
  let batchId ← RoleM.perform .newUuid
  let payload ← buildRequestBatchPayload batchId request.candidates request.policy request.flushReason
  return {
    sourceMsg := request.head.msg
    payload
    ackAfterDispatch := request.candidates.tail.map (·.queued.msg)
  }

end Scheduler
