import ServeModel.Lib.Json

namespace Collect

structure CollectedMemberResult where
  childRunId : String
  itemIndex : Nat
  fanoutItem : Json
  result : Json

-- Everything that is known about a fanout parent while its children are being collected.
structure CollectGroup where
  parentRunId : String
  workflowId : String
  parentPayload : Json
  expectedCount : Nat
  results : List CollectedMemberResult

inductive MemberResultStatus
  | succeeded
  | failed
  | cancelled
  deriving DecidableEq

structure CollectProgressUpdate where
  parentRunId : String
  workflowId : String
  expectedCount : Nat
  collectedCount : Nat
  succeededCount : Nat
  failedCount : Nat
  cancelledCount : Nat
  childRunIds : List String
  deriving DecidableEq

end Collect
