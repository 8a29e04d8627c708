import ServeModel.Runtime.Basic
import Mathlib.Data.Finset.Basic

namespace Collect

def memberResultStatus (result : CollectedMemberResult) : MemberResultStatus :=
  let status := Text.trim (((result.result.get "status").bind Json.asStr).getD "succeeded")
  let isOneOf (names : List String) : Bool := names.any (Text.eqIgnoreAsciiCase status)
  if isOneOf ["failed", "fail", "error"] then .failed
  else if isOneOf ["cancelled", "canceled"] then .cancelled
  else .succeeded

def committedMark : String := "committed:"

def committedFinalizationValue (ownerToken : String) : String :=
  committedMark ++ ownerToken

def isCommittedValue (value : String) : Bool :=
  committedMark.toList.isPrefixOf value.toList

-- The keys of one group. The counter of all collected results is left out, as nothing reads it.
structure GroupState where
  metadata : Option CollectGroup := none
  items : List CollectedMemberResult := []
  runIds : Finset String := ∅
  stats : MemberResultStatus → Nat := fun _ => 0
  finalization : Option String := none

namespace GroupState

def committed (g : GroupState) : Prop :=
  g.finalization.any isCommittedValue

instance (g : GroupState) : Decidable g.committed :=
  inferInstanceAs (Decidable (_ = true))

def statValues (g : GroupState) : List Int :=
  [g.stats .succeeded, g.stats .failed, g.stats .cancelled]

-- The script `APPEND_MEMBER_RESULT_LUA`.
def append (result : CollectedMemberResult) (status : MemberResultStatus) (g : GroupState) :
    List Int × GroupState :=
  if g.metadata.isNone then ([-1, 0, 0, 0, 0], g)
  else if g.finalization.isSome then (-2 :: g.items.length :: g.statValues, g)
  else if result.childRunId ∈ g.runIds then (0 :: g.items.length :: g.statValues, g)
  else
    let g := { g with
      runIds := insert result.childRunId g.runIds
      items := g.items ++ [result]
      stats := Function.update g.stats status (g.stats status + 1) }
    (1 :: g.items.length :: g.statValues, g)

-- `SETNX` of the metadata.
def setnxMeta (group : CollectGroup) (g : GroupState) : Bool × GroupState :=
  if g.metadata.isNone then (true, { g with metadata := some group }) else (false, g)

-- `DEL` of everything but the metadata.
def delState (g : GroupState) : GroupState :=
  { metadata := g.metadata }

-- The script `DISCARD_COLLECT_GROUP_LUA`: a committed marker stays.
def discard (g : GroupState) : GroupState :=
  { finalization := g.finalization.filter isCommittedValue }

-- `SET NX EX` of the finalization state.
def claim (token : String) (g : GroupState) : Bool × GroupState :=
  if g.finalization.isNone then (true, { g with finalization := some token }) else (false, g)

-- The script `COMMIT_COLLECT_FINALIZATION_IF_OWNER_LUA`.
def commit (token value : String) (g : GroupState) : Bool × GroupState :=
  if g.finalization = some token then (true, { g with finalization := some value })
  else if g.finalization = some value then (true, g)
  else (false, g)

-- The script `RELEASE_COLLECT_FINALIZATION_IF_OWNER_LUA`.
def release (token : String) (g : GroupState) : GroupState :=
  if g.finalization = some token then { g with finalization := none } else g

end GroupState

structure CollectAppendResult where
  appended : Bool
  itemCount : Nat
  succeededCount : Nat
  failedCount : Nat
  cancelledCount : Nat
  childRunIds : List String
  deriving DecidableEq

-- The keys that a claim refers to are the ones of its parent.
structure CollectFinalizationClaim where
  parentRunId : String
  ownerToken : String
  deriving DecidableEq

section Store

variable {τ : Type}

def initGroup (parentRunId : String) (group : CollectGroup) : RoleM τ Unit := do
  let created ← RoleM.context "collect: failed to initialize redis collect group" do
    Routine.ofExcept (← RoleM.perform (.collect parentRunId (.setnxMeta { group with results := [] })))
  if created then
    RoleM.context "collect: failed to reset redis collect group state" do
      Routine.ofExcept (← RoleM.perform (.collect parentRunId .delState))
  RoleM.context "collect: failed to set parent stage to executing" do
    Routine.ofExcept (← RoleM.perform (.setExecuting parentRunId))

def discardGroup (parentRunId : String) : RoleM τ Unit :=
  RoleM.context "collect: failed to discard redis collect group" do
    Routine.ofExcept (← RoleM.perform (.collect parentRunId .discardGroup))

def addResult (parentRunId : String) (result : CollectedMemberResult) :
    RoleM τ CollectAppendResult := do
  let values ← Routine.ofExcept
    (← RoleM.perform (.collect parentRunId (.appendMember result (memberResultStatus result))))
  match values with
  | [appended, itemCount, succeeded, failed, cancelled] =>
    if appended = -1 then
      throw <| .msg s!"collect: parent group '{parentRunId}' was not initialized"
    let childRunIds ← RoleM.context "collect: failed to read child run ids for progress snapshot" do
      Routine.ofExcept (← RoleM.perform (.collect parentRunId .smembersRunIds))
    return {
      appended := appended = 1
      itemCount := itemCount.toNat
      succeededCount := succeeded.toNat
      failedCount := failed.toNat
      cancelledCount := cancelled.toNat
      childRunIds := childRunIds.insertionSort (· ≤ ·)
    }
  | values =>
    let count := values.length
    throw <| .msg s!"collect: append redis script returned {count} values, expected 5"

def getGroup (parentRunId : String) : RoleM τ (Option CollectGroup) := do
  let stored ← RoleM.context "collect: failed to load redis collect group metadata" do
    Routine.ofExcept (← RoleM.perform (.collect parentRunId .getMeta))
  let some group := stored | return none
  let results ← RoleM.context "collect: failed to load redis collect group results" do
    Routine.ofExcept (← RoleM.perform (.collect parentRunId .lrangeItems))
  return some { group with results }

def claimFinalization (parentRunId : String) : RoleM τ (Option CollectFinalizationClaim) := do
  let ownerToken ← RoleM.perform .newUuid
  let claimed ← RoleM.context "collect: failed to claim parent finalization" do
    Routine.ofExcept (← RoleM.perform (.collect parentRunId (.claimFinalization ownerToken)))
  return if claimed then some { parentRunId, ownerToken } else none

def isFinalizationCommitted (parentRunId : String) : RoleM τ Bool := do
  let value ← RoleM.context "collect: failed to inspect parent finalization state" do
    Routine.ofExcept (← RoleM.perform (.collect parentRunId .getFinalization))
  return value.any isCommittedValue

def commitFinalization (claim : CollectFinalizationClaim) : RoleM τ Unit := do
  let token := claim.ownerToken
  let byOwner ← RoleM.context "collect: failed to commit parent finalization claim" do
    Routine.ofExcept (← RoleM.perform
      (.collect claim.parentRunId (.commitFinalization token (committedFinalizationValue token))))
  if !byOwner then
    throw <| .msg "collect: finalization claim is no longer owned by this worker"

def releaseFinalizationClaim (claim : CollectFinalizationClaim) : RoleM τ Unit :=
  RoleM.context "collect: failed to release parent finalization claim" do
    Routine.ofExcept
      (← RoleM.perform (.collect claim.parentRunId (.releaseFinalization claim.ownerToken)))

end Store

end Collect
