import ServeModel.Collect.Workers

-- What the message of a parent says about its children.
namespace Collect

open Json Except

section Result

variable {group : CollectGroup}

def sortedResults (group : CollectGroup) : List CollectedMemberResult :=
  group.results.insertionSort (·.itemIndex ≤ ·.itemIndex)

theorem childResultJson_childRunId :
    (childResultJson entry).get "child_run_id" = some (.str entry.childRunId) := by
  simp [childResultJson, Json.object, literal]

theorem buildParentResult_childResults :
    (buildParentResult group).get "child_results" = some (.arr ((sortedResults group).map childResultJson)) := by
  simp [buildParentResult, Json.object, literal, sortedResults]

theorem mapM_childRunId (results : List CollectedMemberResult) :
    (results.map childResultJson).mapM (fun entry => (entry.get "child_run_id").bind asStr) =
      some (results.map (·.childRunId)) := by
  induction results
  case nil => rfl
  case cons r results hi =>
    rw [List.map_cons, List.mapM_cons, hi, childResultJson_childRunId]
    rfl

theorem downstreamPayload_result (h : downstreamPayload next parentPayload result = .ok payload) :
    payload.get "result" = some result := by
  unfold downstreamPayload at h
  split at h
  case h_2 => cases h
  case h_1 =>
    have ⟨fields, hf, h⟩ := bind_eq_ok.mp h
    cases h
    unfold updateStageContext at hf
    split at hf
    case h_2 => cases hf
    case h_1 => cases hf; simp

-- The entries of the children are not among the fields that move to the execution record.
theorem buildExecutionAndPayload_childResults
    (h : buildExecutionAndPayload runId workflowId status result = .ok (execution, payload)) :
    payload.get "child_results" = result.get "child_results" := by
  unfold buildExecutionAndPayload at h
  split at h
  case h_2 => cases h
  case h_1 fields hr =>
    have hp : _ = payload := congrArg Prod.snd (Except.ok.inj h)
    rw [← hp]
    simp [get_of_asObject hr]

theorem resultsEnvelope_childResults (h : resultsEnvelope group result = .ok payload) :
    (payload.get "payload").bind (·.get "child_results") = result.get "child_results" := by
  have ⟨⟨execution, inner⟩, hx, h⟩ := bind_eq_ok.mp h
  rw [← buildExecutionAndPayload_childResults hx, ← Except.ok.inj h]
  simp [Json.object, literal]

theorem parentHandoff_childRunIds (h : parentHandoff group = .ok parent) :
    ParentMessage.childRunIds ⟨parent.queue, .encode parent.payload, parent.phase, runId⟩ =
      some ((sortedResults group).map (·.childRunId)) := by
  obtain ⟨context, _, h⟩ := bind_eq_ok.mp h
  obtain ⟨⟨next, skipped⟩, _, h⟩ := bind_eq_ok.mp h
  dsimp only at h
  split at h
  case isTrue hd =>
    obtain ⟨payload, hp, h⟩ := bind_eq_ok.mp h
    cases h
    have hr : next.phase ≠ "results" := by
      intro hr
      simp [isDownstreamPhase, hr] at hd
    rw [← mapM_childRunId]
    simp [ParentMessage.childRunIds, Wire.encode, hr, downstreamPayload_result hp, buildParentResult_childResults,
      asArray]
  case isFalse =>
  split at h
  case isTrue => cases h
  case isFalse hr =>
    obtain ⟨payload, hp, h⟩ := bind_eq_ok.mp h
    cases h
    have hc := (resultsEnvelope_childResults hp).trans buildParentResult_childResults
    obtain ⟨result, hr', hc⟩ := Option.bind_eq_some_iff.mp hc
    have hr : next.phase = "results" := by simpa using hr
    rw [← mapM_childRunId]
    simp [ParentMessage.childRunIds, Wire.encode, hr, hr', hc, asArray]

end Result

end Collect
