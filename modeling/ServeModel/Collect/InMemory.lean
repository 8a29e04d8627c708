import ServeModel.Collect.Store

namespace Collect

-- What the in-memory store keeps about one parent.
structure InMemoryState where
  group : Option CollectGroup
  finalization : Option String

def countResultsWithStatus (results : List CollectedMemberResult) (status : MemberResultStatus) : Nat :=
  results.countP (memberResultStatus · = status)

-- The reply to an added result, from the results that are there afterwards.
def appendSnapshot (appended : Bool) (results : List CollectedMemberResult) : CollectAppendResult where
  appended := appended
  itemCount := results.length
  succeededCount := countResultsWithStatus results .succeeded
  failedCount := countResultsWithStatus results .failed
  cancelledCount := countResultsWithStatus results .cancelled
  childRunIds := results.map (·.childRunId)

namespace InMemoryState

def addResult (parentRunId : String) (result : CollectedMemberResult) (s : InMemoryState) :
    Except Failure CollectAppendResult × InMemoryState :=
  match s.group with
  | none => (.error (.msg s!"collect: parent group '{parentRunId}' was not initialized"), s)
  | some group =>
    if s.finalization.isSome then (.ok (appendSnapshot false group.results), s)
    else if group.results.any (·.childRunId = result.childRunId) then
      (.ok (appendSnapshot false group.results), s)
    else
      let group := { group with results := group.results ++ [result] }
      (.ok (appendSnapshot true group.results), { s with group := some group })

end InMemoryState

end Collect
