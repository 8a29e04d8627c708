import ServeModel.Collect.Payload
import ServeModel.Collect.Store
import ServeModel.Scheduler.ParentSlots

namespace Collect

open Json
open Scheduler (isTerminal markTerminal)

structure CollectRole where
  inputStreams : List String

def validateInputStream (role : CollectRole) (stream : String) : Except Failure Unit :=
  if stream ∈ role.inputStreams then .ok ()
  else
    let expected := ", ".intercalate role.inputStreams
    .error <| .msg s!"collect: unexpected stream '{stream}' (expected one of: {expected})"

def messageDeferred (reason : String) : Failure where
  kind := .messageDeferred
  text := reason

-- What a parent is handed off as: the queue and the phase of its next stage, and its payload.
structure ParentHandoff where
  queue : String
  phase : String
  payload : Json
  publishSkipped : Bool

-- The stage that the parent enters, and whether its publish stage is bypassed as there is nothing to publish.
def parentNextStage (context : StageContext) (parentPayload resultPayload : Json) :
    Except Failure (StageDescriptor × Bool) := do
  let next ← context.nextStage "collect"
  if next.phase = "publish" ∧ hasOutputPublicationTarget parentPayload ∧
      ¬resultHasPublishableOutput resultPayload then
    let publishId := next.id
    let some resultsId := next.next
      | throw <| .msg s!"collect: publish stage '{publishId}' has no next stage"
    let some next := context.find resultsId
      | throw <| .msg s!"collect: publish bypass target stage '{resultsId}' not found in pipeline"
    let phase := next.phase
    if phase ≠ "results" then
      throw <| .msg s!"collect: publish bypass target must be 'results', got '{phase}'"
    return (next, true)
  else
    return (next, false)

-- The payload of a parent whose children's results are processed further.
def downstreamPayload (next : StageDescriptor) (parentPayload resultPayload : Json) : Except Failure Json := do
  let some parent := parentPayload.asObject
    | throw <| .msg "collect: parent payload must be a JSON object"
  return .obj (← updateStageContext next "collect" (setField "result" resultPayload parent))

-- The payload of a parent that is done.
def resultsEnvelope (group : CollectGroup) (resultPayload : Json) : Except Failure Json := do
  let status := (statusText resultPayload).getD "succeeded"
  let (execution, payload) ← buildExecutionAndPayload group.parentRunId group.workflowId status resultPayload
  return .object [("run_id", .str group.parentRunId), ("status", .str status), ("workflow", .str group.workflowId),
    ("request", buildRequestEnvelope group.parentPayload), ("execution", execution), ("payload", payload)]

def isDownstreamPhase (phase : String) : Bool :=
  phase = "postprocess" || phase = "publish"

def parentHandoff (group : CollectGroup) : Except Failure ParentHandoff := do
  let context ← parentStageContext group.parentPayload
  let resultPayload := buildParentResult group
  let (next, publishSkipped) ← parentNextStage context group.parentPayload resultPayload
  let phase := next.phase
  if isDownstreamPhase phase then
    let payload ← downstreamPayload next group.parentPayload resultPayload
    return { queue := next.queue, phase, payload, publishSkipped := false }
  else if phase ≠ "results" then
    throw <| .msg s!"collect: next stage must be 'results', 'publish', or 'postprocess', got '{phase}'"
  else
    let payload ← resultsEnvelope group resultPayload
    return { queue := next.queue, phase, payload, publishSkipped }

variable {τ : Type}

def completeFinalizationCleanup (parentRunId : String) : RoleM τ Unit := do
  markTerminal parentRunId
  discardGroup parentRunId

def handoffFailure (phase : String) : String :=
  s!"collect: failed to hand off aggregated parent to {phase}"

def finalizeParentGroup (m : Message) (typed : CollectEnvelope) (claim : CollectFinalizationClaim) :
    RoleM τ Unit := do
  let some group ← getGroup typed.parentRunId
    | do
      if ← isTerminal typed.parentRunId then return
      let parentRunId := typed.parentRunId
      throw <| .msg s!"collect: completed parent group '{parentRunId}' disappeared before flush"
  let parent ← Routine.ofExcept (parentHandoff group)
  if parent.publishSkipped then
    Routine.ofExcept (← RoleM.perform (.persistPublicationSkipped group.parentRunId))
  RoleM.context (handoffFailure parent.phase) do
    Routine.ofExcept (← RoleM.perform
      (.handoffAndCommit m parent.queue (.encode parent.payload) parent.phase group.parentRunId
        claim.parentRunId claim.ownerToken))
  commitFinalization claim
  completeFinalizationCleanup typed.parentRunId

def memberResult (m : Message) (typed : CollectEnvelope) (payload : Json) : CollectedMemberResult where
  childRunId := typedChildRunId payload m.runId
  itemIndex := typed.fanoutItem.itemIndex
  fanoutItem := (payload.get "fanout_item").getD (.object [])
  result := typed.result

-- Adds the result to the group; there is nothing to add to once the parent has been finalized.
def addMember (m : Message) (typed : CollectEnvelope) (payload : Json) :
    RoleM τ (Option CollectAppendResult) := do
  match ← Routine.observe (addResult typed.parentRunId (memberResult m typed payload)) with
  | .ok appended => return some appended
  | .error e =>
    if Text.contains "was not initialized" e.text then
      if ← isTerminal typed.parentRunId then return none
    throw e

def progressUpdate (typed : CollectEnvelope) (appended : CollectAppendResult) : CollectProgressUpdate where
  parentRunId := typed.parentRunId
  workflowId := typed.workflowId
  expectedCount := typed.fanoutProfile.itemCount
  collectedCount := appended.itemCount
  succeededCount := appended.succeededCount
  failedCount := appended.failedCount
  cancelledCount := appended.cancelledCount
  childRunIds := appended.childRunIds

def currentFailed (typed : CollectEnvelope) : Bool :=
  (statusText typed.result).any fun status =>
    ["failed", "fail", "error"].any (Text.eqIgnoreAsciiCase (Text.trim status))

def shouldFinalize (typed : CollectEnvelope) (itemCount : Nat) : Bool :=
  (typed.fanoutProfile.policy = .failFast && currentFailed typed) || typed.fanoutProfile.itemCount ≤ itemCount

-- Makes the claim and hands the parent off under it; the claim is given back when that fails.
def tryFinalize (m : Message) (typed : CollectEnvelope) : RoleM τ Unit := do
  let some claim ← claimFinalization typed.parentRunId
    | do
      if ← isFinalizationCommitted typed.parentRunId then
        completeFinalizationCleanup typed.parentRunId
      else
        throw <| messageDeferred "collect: parent finalization is already in progress"
  match ← Routine.observe (finalizeParentGroup m typed claim) with
  | .ok _ => return
  | .error e =>
    releaseFinalizationClaim claim
    throw e

-- What follows once the payload has been decoded.
def processEnvelope (m : Message) (typed : CollectEnvelope) (payload : Json) : RoleM τ Unit := do
  if ← isTerminal typed.parentRunId then
    discardGroup typed.parentRunId
    return
  let some appended ← addMember m typed payload | return
  if appended.appended then
    Routine.ofExcept (← RoleM.perform (.persistProgress (progressUpdate typed appended)))
  if ← isFinalizationCommitted typed.parentRunId then
    completeFinalizationCleanup typed.parentRunId
  else if shouldFinalize typed appended.itemCount then
    tryFinalize m typed

def processMessage (m : Message) : RoleM τ Unit := do
  let (typed, payload) ← Routine.ofExcept (decodeCollectPayload m.payload)
  processEnvelope m typed payload

def handle (role : CollectRole) (m : Message) (stream : String) : RoleM τ Unit := do
  Routine.ofExcept (validateInputStream role stream)
  processMessage m

end Collect
