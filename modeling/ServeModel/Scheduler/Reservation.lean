import ServeModel.Scheduler.ParentSlots
import ServeModel.Scheduler.Profile
import ServeModel.Scheduler.ReservedMemory
import ServeModel.Scheduler.Resource

namespace Scheduler

structure ReservedResource where
  streamName : String
  resourceId : Nat
  deriving DecidableEq

def reservationBlockedError : Failure where
  kind := .reservationBlocked
  text := "insufficient resources available with sufficient memory"

def isReservationBlockedError (e : Failure) : Bool :=
  e.kind = .reservationBlocked

inductive ResourceConfigSource
  | explicitProfile
  | knownProfileFallback
  deriving DecidableEq

-- The executor class that all workers publish, if there are any workers.
def uniformWorkerExecutorClass (workflow : String) (seen : Option String) :
    List ResourceInfo → Except Failure (Option String)
  | [] => .ok seen
  | worker :: rest =>
    match worker.executorClass.bind Text.nonBlank with
    | none =>
      let stream := worker.streamName
      .error <| .msg (s!"scheduler: worker '{stream}' does not publish executor_class required by " ++
        s!"known-profile fallback for workflow '{workflow}'")
    | some executorClass =>
      if seen.all (· = executorClass) then uniformWorkerExecutorClass workflow (some executorClass) rest
      else
        .error <| .msg (s!"scheduler: resource_profile is required for workflow '{workflow}' because " ++
          "known-profile fallback matches multiple GPU worker executor classes")

-- What a request needs: the number of GPUs and the memory on each of them.
structure ResourceConfig where
  gpusRequired : Nat
  memoryMb : Nat
  source : ResourceConfigSource
  deriving DecidableEq

-- The payload is returned because the fallback fills in its resource profile.
def resolveResourceConfig (profiles : List Profile) (payload : SchedulePayload)
    (resources : List ResourceInfo) : Except Failure (ResourceConfig × SchedulePayload) :=
  match payload.resourceProfile with
  | some profile => do
    let some gpusRequired := profile.gpusRequired
      | throw <| .msg "scheduler: resource_profile.gpus_required is required"
    let some memoryMb := profile.memoryMb
      | throw <| .msg "scheduler: resource_profile.memory_mb is required"
    if gpusRequired = 0 then
      throw <| .msg "scheduler: resource_profile.gpus_required must be at least 1"
    if memoryMb = 0 then
      throw <| .msg "scheduler: resource_profile.memory_mb must be greater than 0"
    return (⟨gpusRequired, memoryMb, .explicitProfile⟩, payload)
  | none => do
    let workflow := payload.workflow
    let some profile := lookupKnownProfileResources profiles payload
      | throw <| .msg (s!"scheduler: resource_profile is required unless workflow '{workflow}' matches " ++
          "a known scheduler profile")
    let gpusRequired := profile.gpusUsed
    let some memoryMb := profile.peakMemoryMib
      | throw <| .msg s!"scheduler: matched profile for workflow '{workflow}' has invalid peak.memory.used"
    if gpusRequired = 0 then
      throw <| .msg (s!"scheduler: matched profile for workflow '{workflow}' must request at least one " ++
        "GPU because known-profile fallback is GPU-only")
    if memoryMb = 0 then
      throw <| .msg s!"scheduler: matched profile for workflow '{workflow}' has invalid memory_mb=0"
    let requested := (((payload.rawPayload.get "runtime").bind (·.get "executor_class")).bind
      Json.asStr).bind Text.nonBlank
    let executorClass ← match requested with
      | some executorClass => pure (some executorClass)
      | none => uniformWorkerExecutorClass workflow none resources
    let resourceProfile : ScheduleResourceProfile :=
      { gpusRequired := some gpusRequired, memoryMb := some memoryMb, executorClass, tags := none }
    return (⟨gpusRequired, memoryMb, .knownProfileFallback⟩,
      { payload with resourceProfile := some resourceProfile })

section Eligibility

inductive ReservationBlockReason
  | loading
  deriving DecidableEq

inductive ResourceEligibility
  | available
  | temporarilyUnavailable (reason : ReservationBlockReason)
  | ineligible
  deriving DecidableEq

def resourceMatchesStaticRequirements (resource : ResourceInfo) (payload : SchedulePayload)
    (utilizationLimit : Nat) : Bool :=
  if resource.usableMemoryMb utilizationLimit < payload.memoryMb then false
  else match payload.resourceProfile with
    | none => true
    | some profile =>
      profile.executorClass.all (fun executorClass => resource.executorClass = some executorClass) &&
        profile.tags.all (fun tags => tags.all (· ∈ resource.tags))

def requestedWorkflowId (payload : SchedulePayload) : Option String :=
  payload.workflowId.bind Text.nonBlank

def resourceHasConflictingWorkflow (resource : ResourceInfo) (payload : SchedulePayload) : Bool :=
  match requestedWorkflowId payload with
  | none => false
  | some requested =>
    let workflowIds := resource.modelCacheWorkflowIds ++ resource.warmupWorkflowId.toList
    workflowIds ≠ [] && !workflowIds.any (Text.eqIgnoreAsciiCase · requested)

def resourceEligibilityForRequest (resource : ResourceInfo) (payload : SchedulePayload)
    (utilizationLimit : Nat) : ResourceEligibility :=
  if !resourceMatchesStaticRequirements resource payload utilizationLimit then .ineligible
  else if resourceHasConflictingWorkflow resource payload then .ineligible
  else if warmupStatusIsLoading resource.warmupStatus then .temporarilyUnavailable .loading
  else if !warmupStatusAllowsScheduling resource.warmupStatus then .ineligible
  else .available

def isAvailable (payload : SchedulePayload) (limit : Nat) (resource : ResourceInfo) : Bool :=
  resourceEligibilityForRequest resource payload limit = .available

def isLoading (payload : SchedulePayload) (limit : Nat) (resource : ResourceInfo) : Bool :=
  resourceEligibilityForRequest resource payload limit = .temporarilyUnavailable .loading

def resourceHasWarmWorkflow (resource : ResourceInfo) (payload : SchedulePayload) : Bool :=
  match requestedWorkflowId payload with
  | none => false
  | some requested =>
    resource.modelCacheWorkflowIds.any (Text.eqIgnoreAsciiCase · requested) ||
      (resource.warmupWorkflowId.any (Text.eqIgnoreAsciiCase · requested) &&
        resource.warmupStatus.any (Text.eqIgnoreAsciiCase · "succeeded"))

end Eligibility

inductive QueueCandidateStatus
  | eligible (hasWarmWorker : Bool)
  | temporarilyBlocked
  deriving DecidableEq

-- The resources and their active reservations at one moment.
structure ResourceAvailabilityView where
  resources : List ResourceInfo
  activeReservedMemoryMb : List (Nat × Nat)
  memoryUtilizationPercent : Nat
  knownProfiles : List Profile

-- The resolved request: resource requirements are copied into the payload.
def resolved (config : ResourceConfig) (payload : SchedulePayload) : SchedulePayload :=
  { payload with gpusRequired := config.gpusRequired, memoryMb := config.memoryMb }

-- One pass over the resources: how many are ready, how many only temporarily blocked, and whether one of
-- the ready ones is warm.
structure Tally where
  ready : Nat := 0
  temporarilyBlocked : Nat := 0
  hasWarmWorker : Bool := false
  deriving DecidableEq

def ResourceAvailabilityView.tally (view : ResourceAvailabilityView) (payload : SchedulePayload)
    (t : Tally) (resource : ResourceInfo) : Tally :=
  match resourceEligibilityForRequest resource payload view.memoryUtilizationPercent with
  | .available =>
    if activeOf view.activeReservedMemoryMb resource.resourceId > 0 then
      { t with temporarilyBlocked := t.temporarilyBlocked + 1 }
    else
      { t with
        ready := t.ready + 1
        hasWarmWorker := t.hasWarmWorker || resourceHasWarmWorkflow resource payload }
  | .temporarilyUnavailable _ => { t with temporarilyBlocked := t.temporarilyBlocked + 1 }
  | .ineligible => t

def ResourceAvailabilityView.evaluateCandidateStatus (view : ResourceAvailabilityView)
    (payload : SchedulePayload) : QueueCandidateStatus :=
  match resolveResourceConfig view.knownProfiles payload view.resources with
  -- the reservation path reports the definitive error of an invalid request
  | .error _ => .eligible false
  | .ok (config, payload) =>
    let t := view.resources.foldl (view.tally (resolved config payload)) {}
    if t.ready ≥ config.gpusRequired then .eligible t.hasWarmWorker
    else if t.ready + t.temporarilyBlocked ≥ config.gpusRequired then .temporarilyBlocked
    else .eligible false

-- The known profiles are global to the process in the source.
structure ResourceReservationTable where
  resourceMap : Inventory
  memoryUtilizationPercent : Nat
  rrCursor : Nat
  knownProfiles : List Profile

namespace ResourceReservationTable

def resources (table : ResourceReservationTable) : List ResourceInfo :=
  table.resourceMap.resources

def prepareResourceRequirements (table : ResourceReservationTable) (payload : SchedulePayload) :
    Except Failure (ResourceConfig × SchedulePayload) := do
  let (config, payload) ← resolveResourceConfig table.knownProfiles payload table.resources
  return (config, resolved config payload)

def resourceAvailabilitySnapshot : RoleM ResourceReservationTable ResourceAvailabilityView := do
  let table ← get
  let active ← getActiveMany (table.resources.map (·.resourceId))
  return {
    resources := table.resources
    activeReservedMemoryMb := active
    memoryUtilizationPercent := table.memoryUtilizationPercent
    knownProfiles := table.knownProfiles
  }

def batchCanFitMemory (table : ResourceReservationTable) (payload : SchedulePayload) :
    Except Failure Bool := do
  let (_, payload) ← table.prepareResourceRequirements payload
  return table.resources.any (isAvailable payload table.memoryUtilizationPercent)

end ResourceReservationTable

def selectCandidateResources (resources : List ResourceInfo) (payload : SchedulePayload)
    (utilizationLimit neededGpus : Nat) : Except Failure (List ResourceInfo) :=
  let candidates := resources.filter (isAvailable payload utilizationLimit)
  let loadingCandidateCount := resources.countP (isLoading payload utilizationLimit)
  if candidates.length ≥ neededGpus then .ok candidates
  else if candidates.length + loadingCandidateCount ≥ neededGpus then .error reservationBlockedError
  else .error <| .msg "not enough workers can satisfy the requested requirements"

-- A tier of candidates in the order of their ids, rotated to the round-robin cursor.
def rotateTier (cursor : Nat) (tier : List ResourceInfo) : List ResourceInfo :=
  let sorted := tier.insertionSort (fun a b => a.resourceId ≤ b.resourceId)
  sorted.rotate (cursor % sorted.length)

-- Warm candidates always come first.
def placementOrder (payload : SchedulePayload) (cursor : Nat) (candidates : List ResourceInfo) :
    List ResourceInfo :=
  let (warm, cold) := candidates.partition (resourceHasWarmWorkflow · payload)
  rotateTier cursor warm ++ rotateTier cursor cold

def releaseClaims (memoryMb : Nat) : List Nat → RoleM τ Unit
  | [] => pure ()
  | id :: ids => do
    let _ ← Routine.observe (decrement id memoryMb)
    releaseClaims memoryMb ids

-- Claims the candidates one by one. When one cannot be had, the ones before it are given back.
def claimResources (memoryMb : Nat) (claimed : List ReservedResource) :
    List ResourceInfo → RoleM τ (List ReservedResource)
  | [] => pure claimed
  | candidate :: rest => do
    match ← Routine.observe
        (tryReserveIdle candidate.resourceId candidate.usedMemoryMb memoryMb) with
    | .ok (some _) =>
      claimResources memoryMb (claimed ++ [⟨candidate.streamName, candidate.resourceId⟩]) rest
    | .ok none =>
      releaseClaims memoryMb (claimed.map (·.resourceId))
      throw reservationBlockedError
    | .error e =>
      releaseClaims memoryMb (claimed.map (·.resourceId))
      throw e

namespace ResourceReservationTable

def advanceCursor (neededGpus : Nat) (table : ResourceReservationTable) : ResourceReservationTable :=
  { table with rrCursor := (table.rrCursor + neededGpus) % 2 ^ 64 }

def reserve (payload : SchedulePayload) :
    RoleM ResourceReservationTable (SchedulePayload × List ReservedResource) := do
  let table ← get
  let (config, payload) ← Routine.ofExcept (table.prepareResourceRequirements payload)
  let active ← getActiveMany (table.resources.map (·.resourceId))
  let eligible ← Routine.ofExcept (selectCandidateResources table.resources payload
    table.memoryUtilizationPercent config.gpusRequired)
  -- only place work on GPUs without an active reservation
  let candidates := eligible.filter fun candidate => activeOf active candidate.resourceId = 0
  if candidates.length < config.gpusRequired ∧ eligible.length ≥ config.gpusRequired then
    throw reservationBlockedError
  modify (advanceCursor config.gpusRequired)
  let ordered := placementOrder payload table.rrCursor candidates
  let targets ← claimResources config.memoryMb [] (ordered.take config.gpusRequired)
  return (payload, targets)

def release (resourceId memoryMb : Nat) : RoleM τ Unit := do
  match ← decrement resourceId memoryMb with
  | some _ => return
  | none => throw <| .msg s!"scheduler: no reserved allocation found for resource '{resourceId}'"

end ResourceReservationTable

end Scheduler
