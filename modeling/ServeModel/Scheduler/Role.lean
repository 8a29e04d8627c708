import ServeModel.Scheduler.Batch
import ServeModel.Scheduler.Fanout

-- The retry policy and the failure counters that the scheduler shares with the engine.

structure RetryDlqPolicy where
  maxRetries : Nat
  dlqStream : String
  pos : 0 < maxRetries

def maxDlqPayloadBytes : Nat := 4096

-- The longest leading part of a text within a budget of bytes.
def takeBytes : Nat → List Char → List Char
  | _, [] => []
  | budget, c :: cs => if c.utf8Size ≤ budget then c :: takeBytes (budget - c.utf8Size) cs else []

def boundedDlqPayload (payload : String) : String :=
  if payload.utf8ByteSize ≤ maxDlqPayloadBytes then payload
  else String.ofList (takeBytes maxDlqPayloadBytes payload.toList) ++ "...(truncated)"

def buildDlqPayload (m : Message) (logicalStream error : String) (attempts : Nat) : Wire :=
  .encode <| .object [
    ("run_id", .str m.runId),
    ("status", .str "failed"),
    ("source_stream", .str logicalStream),
    ("source_stage", .str m.stage),
    ("source_message_id", .str m.id),
    ("error", .str error),
    ("attempts", .nat attempts),
    ("payload", .str (boundedDlqPayload m.payload.text))
  ]

namespace Scheduler

structure ReservedSchedule where
  sourceMsg : Message
  payload : SchedulePayload
  gpuTargets : List ReservedResource
  ackAfterDispatch : List Message
  heldParentSlot : Option String

inductive ScheduleDecision
  | blocked
  | reserved (schedule : ReservedSchedule)
  | dropped

inductive ScheduleAttemptOutcome
  | blocked
  | dispatched (schedule : ReservedSchedule)
  | dropped

structure SchedulerQueueState where
  queue : PriorityQueue QueuedRequest
  pendingIds : Finset String

structure SchedulerRole where
  streamPrefix : String
  scheduleStream : String
  releaseStream : String
  retryDlqPolicy : RetryDlqPolicy
  config : SchedulerRoleConfig
  score : Score

-- What a scheduler keeps in memory. A missing failure counter is zero.
structure RoleState where
  reservations : ResourceReservationTable
  queueState : SchedulerQueueState
  requestFailures : String → Nat

namespace RoleState

def mapQueue (f : PriorityQueue QueuedRequest → PriorityQueue QueuedRequest) (t : RoleState) :
    RoleState :=
  { t with queueState := { t.queueState with queue := f t.queueState.queue } }

def clearFailures (ms : List Message) (t : RoleState) : RoleState :=
  { t with requestFailures := fun key =>
      if key ∈ ms.map queueKey then 0 else t.requestFailures key }

def incrementFailures (m : Message) (t : RoleState) : RoleState :=
  let attempts := min (t.requestFailures (queueKey m) + 1) (2 ^ 64 - 1)
  { t with requestFailures := Function.update t.requestFailures (queueKey m) attempts }

end RoleState

-- Code of the reservation table within the role.
def onReservations (a : RoleM ResourceReservationTable α) : RoleM RoleState α :=
  Routine.zoom (·.reservations) (fun table t => { t with reservations := table }) a

def logicalStreamForRoute (role : SchedulerRole) (route : String) : String :=
  (Text.stripStart role.streamPrefix route).getD route

def dispatchPayload (payload : SchedulePayload) (target : ReservedResource) : Json :=
  let root : Json.Fields := match payload.rawPayload with
    | .obj fields => fields
    | raw => Json.literal [("raw", raw)]
  let root := Json.setField "memory_mb" (.nat payload.memoryMb)
    (Json.setField "resource_id" (.nat target.resourceId) root)
  let root := match (Json.field "resource_profile" root).all Json.isNull, payload.resourceProfile with
    | true, some profile => Json.setField "resource_profile" (scheduleResourceProfileJson profile) root
    | _, _ => root
  advanceStageContextForDispatch payload.dispatchStage (.obj root)

def buildDispatchOutputs (role : SchedulerRole) (targets : List ReservedResource) (runId : String)
    (payload : SchedulePayload) : List Output :=
  targets.map fun target => {
    stream := logicalStreamForRoute role target.streamName
    payload := .encode (dispatchPayload payload target)
    runId := some runId
    stage := some payload.dispatchStage
  }

def releaseTargets (memoryMb : Nat) : List ReservedResource → RoleM τ Unit
  | [] => pure ()
  | target :: rest => do
    let _ ← Routine.observe (ResourceReservationTable.release target.resourceId memoryMb)
    releaseTargets memoryMb rest

def releaseHeldSlot : Option String → RoleM τ Unit
  | none => pure ()
  | some parentRunId => do
    let _ ← Routine.observe (releaseSlot parentRunId)

def rollbackReservedSchedule (reserved : ReservedSchedule) : RoleM τ Unit := do
  releaseTargets reserved.payload.memoryMb reserved.gpuTargets
  releaseHeldSlot reserved.heldParentSlot

def dispatchReservedSchedule (role : SchedulerRole) (reserved : ReservedSchedule) : RoleM τ Unit := do
  let outputs := buildDispatchOutputs role reserved.gpuTargets reserved.payload.runId reserved.payload
  match ← RoleM.perform (.forwardMany (reserved.sourceMsg :: reserved.ackAfterDispatch) outputs) with
  | .ok _ => return
  | .error e =>
    rollbackReservedSchedule reserved
    throw (e.context "scheduler: failed to forward scheduled outputs")

def terminalParentId (payload : SchedulePayload) : RoleM τ (Option String) := do
  let some parentRunId := payload.parentRunId.bind Text.nonBlank | return none
  return if ← isTerminal parentRunId then some parentRunId else none

-- The parent slot for a request: `none` if the parent has no free slot, else the slot to hold, if any.
def acquireParentSlot (payload : SchedulePayload) : RoleM τ (Option (Option String)) := do
  match fanoutGate payload with
  | none => return some none
  | some (parentRunId, maxInFlight) =>
    match ← tryAcquire parentRunId maxInFlight with
    | .acquired _ => return some (some parentRunId)
    | .saturated _ => return none

def schedule (pending : PendingSchedule) : RoleM RoleState ScheduleDecision := do
  if (← terminalParentId pending.payload).isSome then return .dropped
  let some heldParentSlot ← acquireParentSlot pending.payload | return .blocked
  match ← Routine.observe (onReservations (ResourceReservationTable.reserve pending.payload)) with
  | .ok (payload, gpuTargets) =>
    return .reserved {
      sourceMsg := pending.sourceMsg
      payload
      gpuTargets
      ackAfterDispatch := pending.ackAfterDispatch
      heldParentSlot
    }
  | .error e =>
    releaseHeldSlot heldParentSlot
    if isReservationBlockedError e then return .blocked
    let text := e.text
    throw <| .msg s!"failed to reserve GPUs for schedule payload: {text}"

def executeScheduleDecision (role : SchedulerRole) (queued : QueuedRequest) :
    ScheduleDecision → RoleM RoleState ScheduleAttemptOutcome
  | .blocked => return .blocked
  | .dropped => do
    RoleM.context "scheduler: failed to ack terminal parent child request" do
      Routine.ofExcept (← RoleM.perform (.ackMessage queued.msg))
    return .dropped
  | .reserved reserved => do
    dispatchReservedSchedule role reserved
    return .dispatched reserved

def enqueueRequest (m : Message) (payload : SchedulePayload) : RoleM RoleState Bool := do
  let t ← get
  if queueKey m ∈ t.queueState.pendingIds then return false
  let enqueuedAt ← RoleM.perform .instantNow
  set { t with queueState := {
    queue := t.queueState.queue.pushBack { msg := m, payload, enqueuedAt }
    pendingIds := insert (queueKey m) t.queueState.pendingIds } }
  return true

def finishRequest (ms : List Message) : RoleM RoleState Unit :=
  modify fun t =>
    let keys := ms.map queueKey
    { t with queueState := {
      queue := t.queueState.queue.retain fun queued => queueKey queued.msg ∉ keys
      pendingIds := t.queueState.pendingIds.filter (· ∉ keys) } }

def deferRequest (now : Instant) (m : Message) : RoleM RoleState Unit :=
  modify <| RoleState.mapQueue <| PriorityQueue.defer now fun queued => queueKey queued.msg = queueKey m

-- Walks down the ranked candidates. Blocked ones are deferred unless their parent has come to an end.
def selectRequest (role : SchedulerRole) (now : Instant) :
    List QueueSelection → RoleM RoleState SchedulerRequest
  | [] => return .empty
  | selection :: rest => do
    let candidate := selection.request
    if selection.status = .temporarilyBlocked then
      if (← terminalParentId candidate.payload).isSome then return .single candidate
      deferRequest now candidate.msg
      selectRequest role now rest
    else
      let t ← get
      match ← createBatchRequest role.config t.reservations t.queueState.queue candidate with
      | some request => return request
      | none => return .single candidate

def nextRequest (role : SchedulerRole) : RoleM RoleState SchedulerRequest := do
  let now ← RoleM.perform .instantNow
  if !(← get).queueState.queue.hasReadyCandidate now then return .empty
  let view ← onReservations ResourceReservationTable.resourceAvailabilitySnapshot
  let candidates := rankReadyCandidates role.score view now (← get).queueState.queue
  modify (RoleState.mapQueue (PriorityQueue.clearExpired now))
  selectRequest role now candidates

section Tick

-- The run ids that are marked as failed together with a request.
def failedRunIds (queued : QueuedRequest) : List String :=
  let items := ((queued.payload.rawPayload.get "items").bind Json.asArray).getD []
  let itemRunIds := items.filterMap fun item => ((item.get "run_id").bind Json.asStr)
  (itemRunIds.filter (!Text.isBlank ·)).foldl
    (fun seen runId => if runId ∈ seen then seen else seen ++ [runId]) [queued.msg.runId]

def markRequestsFailed : List String → RoleM τ Unit
  | [] => pure ()
  | runId :: rest => do
    let _ ← RoleM.perform (.markRequestFailed runId)
    markRequestsFailed rest

-- The queued head of a request and its scheduling input.
def pendingSchedule : SchedulerRequest → RoleM τ (Option (QueuedRequest × Except Failure PendingSchedule))
  | .empty | .wait _ => return none
  | .single queued =>
    return some (queued, .ok { sourceMsg := queued.msg, payload := queued.payload, ackAfterDispatch := [] })
  | .batch request => do
    return some (request.head, ← Routine.observe request.buildPendingSchedule)

def attemptSchedule (role : SchedulerRole) (queued : QueuedRequest)
    (pending : Except Failure PendingSchedule) : RoleM RoleState ScheduleAttemptOutcome := do
  let decision ← schedule (← Routine.ofExcept pending)
  executeScheduleDecision role queued decision

-- A request that failed too often goes to the dead letter queue; a fanout child is reported to its group
-- as well.
def handOffToDlq (role : SchedulerRole) (queued : QueuedRequest) (error : String) (attempts : Nat) :
    RoleM τ (Except Failure Unit) := do
  let m := queued.msg
  let dlqStream := role.retryDlqPolicy.dlqStream
  let dlqPayload := buildDlqPayload m role.scheduleStream error attempts
  match failedChildEnvelope queued.payload.rawPayload error with
  | some envelope =>
    RoleM.perform <| .forwardMany [m] [
      { stream := gatherQueue, payload := envelope, runId := some m.runId, stage := some "collect" },
      { stream := dlqStream, payload := dlqPayload, runId := some m.runId, stage := some "dlq" }
    ]
  | none => RoleM.perform (.handoff m dlqStream dlqPayload "dlq")

def retryOrDlq (role : SchedulerRole) (queued : QueuedRequest) (e : Failure) : RoleM RoleState Unit := do
  modify (RoleState.incrementFailures queued.msg)
  let attempts := (← get).requestFailures (queueKey queued.msg)
  if attempts < role.retryDlqPolicy.maxRetries then return
  match ← handOffToDlq role queued e.text attempts with
  | .ok _ =>
    markRequestsFailed (failedRunIds queued)
    modify (RoleState.clearFailures [queued.msg])
    finishRequest [queued.msg]
  | .error _ => return

def settleRequest (role : SchedulerRole) (queued : QueuedRequest) :
    Except Failure ScheduleAttemptOutcome → RoleM RoleState Unit
  | .ok .blocked => do
    deferRequest (← RoleM.perform .instantNow) queued.msg
  | .ok (.dispatched reserved) => do
    let completed := reserved.ackAfterDispatch ++ [reserved.sourceMsg]
    modify (RoleState.clearFailures completed)
    finishRequest completed
  | .ok .dropped => do
    modify (RoleState.clearFailures [queued.msg])
    finishRequest [queued.msg]
  | .error e => retryOrDlq role queued e

def processNextRequest (role : SchedulerRole) : RoleM RoleState Unit := do
  let request ← nextRequest role
  let some (queued, pending) ← pendingSchedule request | return
  let outcome ← Routine.observe (attemptSchedule role queued pending)
  settleRequest role queued outcome

end Tick

def schedulerDeferredError : Failure where
  kind := .messageDeferred
  text := "scheduler: request queued for background scheduling"

def applyRelease (payload : ReleasePayload) : RoleM RoleState Unit := do
  let runId := payload.runId
  let resourceId := payload.resourceId
  RoleM.context s!"failed to release allocation for run_id '{runId}' on resource {resourceId}"
    (ResourceReservationTable.release resourceId payload.memoryMb)
  match payload.parentRunId with
  | some parentRunId => if !Text.isBlank parentRunId then let _ ← releaseSlot parentRunId
  | none => pure ()
  modify (RoleState.mapQueue PriorityQueue.clearDeferrals)

def handleSchedule (role : SchedulerRole) (m : Message) : RoleM RoleState Unit := do
  let payload ← Routine.ofExcept (decodeSchedulePayload m.payload m.runId)
  if isFanoutParent payload.rawPayload then
    expandFanoutParent m payload.rawPayload role.scheduleStream
  else
    let _ ← enqueueRequest m payload
    throw schedulerDeferredError

def handleRelease (m : Message) : RoleM RoleState Unit := do
  applyRelease (← Routine.ofExcept (decodeReleasePayload m.payload))

def handle (role : SchedulerRole) (m : Message) (stream : String) : RoleM RoleState Unit :=
  if stream = role.scheduleStream then handleSchedule role m
  else if stream = role.releaseStream then handleRelease m
  else throw <| .msg s!"scheduler: unexpected stream '{stream}'"

end Scheduler
