import ServeModel.Collect.InMemory
import ServeModel.Collect.Theorems.Group
import ServeModel.Collect.Theorems.ParentResult

-- The counters of a group beside the summary of its parent.
namespace Collect

open Json List Routine

section Count

variable {entry : CollectedMemberResult}

-- The status is left out, says that the child succeeded, or says in some spelling that it did not.
def PlainStatus (result : Json) : Prop :=
  ∀ status, statusText result = some status → status = "succeeded" ∨
    ["failed", "fail", "error", "cancelled", "canceled"].any (Text.eqIgnoreAsciiCase (Text.trim status))

-- How the summary of the parent tells.
def literallySucceeded (entry : CollectedMemberResult) : Bool :=
  (statusText entry.result).getD "succeeded" = "succeeded"

theorem memberResultStatus_of_literally (h : literallySucceeded entry) : memberResultStatus entry = .succeeded := by
  have h : ((entry.result.get "status").bind asStr).getD "succeeded" = "succeeded" := of_decide_eq_true h
  rw [memberResultStatus, h]
  rfl

theorem memberResultStatus_eq_succeeded : memberResultStatus entry = .succeeded ↔
    ¬["failed", "fail", "error", "cancelled", "canceled"].any
      (Text.eqIgnoreAsciiCase (Text.trim ((statusText entry.result).getD "succeeded"))) := by
  simp only [memberResultStatus, statusText, any_cons, any_nil, Bool.or_false]
  generalize Text.eqIgnoreAsciiCase _ = is
  split_ifs
  case pos h => cases hf : is "failed" <;> cases hg : is "fail" <;> simp_all
  case pos h => cases hf : is "cancelled" <;> simp_all
  case neg h₁ h₂ => simp_all

-- A child counts as succeeded on both sides exactly if its status is plain.
theorem plainStatus_iff :
    PlainStatus entry.result ↔ (memberResultStatus entry = .succeeded → literallySucceeded entry) := by
  rw [memberResultStatus_eq_succeeded, literallySucceeded, decide_eq_true_iff, PlainStatus]
  cases statusText entry.result
  case none => simp
  case some status =>
    simp only [Option.some.injEq, forall_eq', Option.getD_some]
    exact ⟨fun h hn => h.resolve_right hn, fun h => or_iff_not_imp_right.mpr h⟩

theorem countP_literally_eq : results.countP literallySucceeded = countResultsWithStatus results .succeeded ↔
    ∀ entry ∈ results, PlainStatus entry.result := by
  simp only [plainStatus_iff, countResultsWithStatus]
  induction results
  case nil => simp
  case cons entry results hi =>
    have hle : results.countP literallySucceeded ≤ results.countP (memberResultStatus · = .succeeded) :=
      countP_mono_left fun e _ he => decide_eq_true (memberResultStatus_of_literally he)
    rw [forall_mem_cons, ← hi, countP_cons, countP_cons]
    by_cases hl : literallySucceeded entry
    case pos => simp [hl, memberResultStatus_of_literally hl]
    case neg =>
      by_cases hm : memberResultStatus entry = .succeeded
      case pos =>
        simp only [hl, hm, Bool.false_eq_true, if_false, decide_true, if_true, forall_const, false_and, iff_false]
        omega
      case neg => simp [hl, hm]

theorem countResults_add (results : List CollectedMemberResult) :
    countResultsWithStatus results .succeeded + countResultsWithStatus results .failed +
    countResultsWithStatus results .cancelled = results.length := by
  induction results
  case nil => rfl
  case cons entry results hi =>
    simp only [countResultsWithStatus] at hi
    simp only [countResultsWithStatus, countP_cons, length_cons]
    cases memberResultStatus entry <;> simp <;> omega

end Count

section Summary

variable {group : CollectGroup}

def summary (group : CollectGroup) (key : String) : Option Json :=
  ((buildParentResult group).get "aggregation_summary").bind (·.get key)

theorem countP_sorted : (group.results.insertionSort (·.itemIndex ≤ ·.itemIndex)).countP
    (fun entry => (statusText entry.result).getD "succeeded" = "succeeded") = group.results.countP literallySucceeded :=
  (perm_insertionSort _ _).countP_eq _

theorem summary_succeeded :
    summary group "succeeded_count" = some (.nat (group.results.countP literallySucceeded)) := by
  simp [summary, buildParentResult, Json.object, literal, countP_sorted]

theorem summary_failed : summary group "failed_count" =
    some (.nat (group.results.length - group.results.countP literallySucceeded)) := by
  simp [summary, buildParentResult, Json.object, literal, countP_sorted]

theorem status_eq_succeeded : (buildParentResult group).get "status" = some (.str "succeeded") ↔
    ∀ entry ∈ group.results, literallySucceeded entry := by
  have hl := countP_le_length (p := literallySucceeded) (l := group.results)
  rw [← countP_eq_length]
  have hs : (buildParentResult group).get "status" = some (.str
      (if group.results.length - group.results.countP literallySucceeded = 0 then "succeeded" else "failed")) := by
    simp [buildParentResult, Json.object, literal, countP_sorted]
  rw [hs]
  split
  case isTrue h => exact iff_of_true rfl (by omega)
  case isFalse h => exact iff_of_false (by simp) (by omega)

-- The reply to an added result says the same as the result of the parent.
structure Agrees (reply : CollectAppendResult) (group : CollectGroup) : Prop where
  succeeded : summary group "succeeded_count" = some (.nat reply.succeededCount)
  failed : summary group "failed_count" = some (.nat (reply.failedCount + reply.cancelledCount))
  status : (buildParentResult group).get "status" = some (.str "succeeded") ↔
    ∀ entry ∈ group.results, memberResultStatus entry ≠ .failed ∧ memberResultStatus entry ≠ .cancelled

-- The counters are those of the results.
structure Counts (reply : CollectAppendResult) (results : List CollectedMemberResult) : Prop where
  succeeded : reply.succeededCount = countResultsWithStatus results .succeeded
  failed : reply.failedCount = countResultsWithStatus results .failed
  cancelled : reply.cancelledCount = countResultsWithStatus results .cancelled

theorem agrees_iff (hc : Counts reply group.results) :
    Agrees reply group ↔ ∀ entry ∈ group.results, PlainStatus entry.result := by
  rw [← countP_literally_eq]
  constructor
  case mp =>
    intro h
    have hs := summary_succeeded.symm.trans h.succeeded
    rw [Option.some.injEq, Json.nat, Json.nat, Json.int.injEq, Int.natCast_inj] at hs
    exact hs.trans hc.succeeded
  case mpr =>
    intro h
    have hadd := countResults_add group.results
    refine ⟨?_, ?_, ?_⟩
    · rw [summary_succeeded, h, hc.succeeded]
    · rw [summary_failed, hc.failed, hc.cancelled]
      congr 2
      omega
    · rw [status_eq_succeeded]
      refine forall₂_congr fun entry he => ⟨fun hl => ?_, fun hn => ?_⟩
      · rw [memberResultStatus_of_literally hl]
        exact ⟨nofun, nofun⟩
      · refine plainStatus_iff.mp (countP_literally_eq.mp h entry he) ?_
        cases hm : memberResultStatus entry
        case succeeded => rfl
        case failed => exact absurd hm hn.left
        case cancelled => exact absurd hm hn.right

end Summary

section Stores

variable {g g' : GroupState} {group : CollectGroup} {reply : CollectAppendResult}

-- The store counts a result by the status that it finds in it.
def ByStatus {ρ : Type} : CollectOp ρ → Prop
  | .appendMember result status => status = memberResultStatus result
  | _ => True

-- The keys of a group after some commands of the store.
inductive Reached : GroupState → Prop
  | empty : Reached {}
  | step {ρ : Type} {op : CollectOp ρ} {g g' : GroupState} {r : ρ} (h : Reached g) (hc : ByStatus op)
      (he : GroupState.exec op g r g') : Reached g'

def Tallied (g : GroupState) : Prop :=
  ∀ status, g.stats status = countResultsWithStatus g.items status

theorem Tallied.append (h : Tallied g) (result : CollectedMemberResult) :
    Tallied (g.append result (memberResultStatus result)).2 := by
  unfold GroupState.append
  split_ifs
  case pos => exact h
  case pos => exact h
  case pos => exact h
  case neg =>
    intro status
    by_cases hs : status = memberResultStatus result
    case pos => simp [hs, h _, countResultsWithStatus]
    case neg => simp [hs, h _, countResultsWithStatus, Ne.symm hs]

theorem Tallied.congr (h : Tallied g) (hi : g'.items = g.items) (hs : g'.stats = g.stats) : Tallied g' := by
  intro status
  rw [hs, hi, h]

theorem Tallied.exec (h : Tallied g) (hc : ByStatus op) (he : GroupState.exec op g r g') : Tallied g' := by
  -- a command takes effect or not
  have attempt {α : Type} {f : GroupState → α × GroupState} {x : Except Failure α} (hf : Tallied (f g).2)
      (ha : Attempt f g x g') : Tallied g' := by
    obtain rfl | rfl := ha.state
    case inl => exact hf
    case inr => exact h
  cases op
  case setnxMeta group =>
    refine attempt ?_ he
    unfold GroupState.setnxMeta
    split
    case isTrue => exact h.congr rfl rfl
    case isFalse => exact h
  case delState =>
    have he : Attempt (fun g => ((), g.delState)) g r g' := he
    exact attempt (fun _ => rfl) he
  case getMeta | lrangeItems | getFinalization => exact attempt h he
  case appendMember result status =>
    obtain rfl : status = memberResultStatus result := hc
    exact attempt (h.append result) he
  case smembersRunIds => exact he.left ▸ h
  case claimFinalization =>
    refine attempt ?_ he
    unfold GroupState.claim
    split
    case isTrue => exact h.congr rfl rfl
    case isFalse => exact h
  case commitFinalization =>
    refine attempt ?_ he
    unfold GroupState.commit
    split_ifs
    case pos => exact h.congr rfl rfl
    case pos | neg => exact h
  case releaseFinalization token =>
    have he : Attempt (fun g => ((), g.release token)) g r g' := he
    refine attempt ?_ he
    unfold GroupState.release
    split
    case isTrue => exact h.congr rfl rfl
    case isFalse => exact h
  case discardGroup =>
    have he : Attempt (fun g => ((), g.discard)) g r g' := he
    exact attempt (fun _ => rfl) he

theorem Reached.tallied (h : Reached g) : Tallied g := by
  induction h
  case empty => exact fun _ => rfl
  case step hc he ih => exact ih.exec hc he

-- A store that holds this one group.
def storeMachine : Machine Op GroupState
  | _, .collect _ op, g, r, g' => GroupState.exec op g r g'
  | _, _, g, _, g' => g' = g

-- The script replies with the counters that it leaves behind, unless there is no group.
theorem append_reply (g : GroupState) (result : CollectedMemberResult) (status : MemberResultStatus) :
    (g.append result status).1 = [-1, 0, 0, 0, 0] ∨ ∃ appended : Int, appended ≠ -1 ∧ (g.append result status).1 =
      appended :: (g.append result status).2.items.length :: (g.append result status).2.statValues := by
  unfold GroupState.append
  split_ifs
  case pos => exact .inl rfl
  case pos => exact .inr ⟨-2, by decide, rfl⟩
  case pos => exact .inr ⟨0, by decide, rfl⟩
  case neg => exact .inr ⟨1, by decide, rfl⟩

variable {τ : Type} {runId : String} {result : CollectedMemberResult}

theorem counts_of_addResult (h : Tallied g) (he : (addResult runId result).Ends storeMachine t g (.ok reply) t' g') :
    Counts reply g'.items := by
  have hw : (addResult runId result).wp (.alone storeMachine)
      (fun x _ g' => ∀ reply, x = .ok reply → Counts reply g'.items) t g := by
    simp only [addResult, wp_bind, RoleM.wp_perform_alone, andThen_ok, wp_ofExcept]
    intro values g₁ hv
    cases values
    case error => simp
    case ok values =>
      obtain ⟨rfl, rfl⟩ := hv.reply
      have ht := h.append result
      obtain hr | ⟨appended, hn, hr⟩ := append_reply g result (memberResultStatus result)
      case inl => simp [hr]
      case inr =>
        simp only [hr, GroupState.statValues, hn, if_false, andThen_ok, wp_bind, RoleM.wp_context,
          RoleM.wp_perform_alone, wp_ofExcept]
        intro ids g₂ hids
        obtain rfl := hids.left
        cases ids
        case error => simp [Except.mapError]
        case ok ids =>
          rintro reply ⟨⟩
          exact ⟨by simp [ht _], by simp [ht _], by simp [ht _]⟩
  exact wp_alone_iff.mp hw _ _ _ he reply rfl

theorem counts_of_addResult_inMemory {s s' : InMemoryState} (he : s.addResult runId result = (.ok reply, s'))
    (hg : s'.group = some group) : Counts reply group.results := by
  unfold InMemoryState.addResult at he
  split at he
  case h_1 => cases he
  case h_2 group' hs =>
    split_ifs at he
    case pos =>
      cases he
      obtain rfl := Option.some.inj (hs.symm.trans hg)
      exact ⟨rfl, rfl, rfl⟩
    case pos =>
      cases he
      obtain rfl := Option.some.inj (hs.symm.trans hg)
      exact ⟨rfl, rfl, rfl⟩
    case neg =>
      cases he
      obtain rfl := Option.some.inj hg
      exact ⟨rfl, rfl, rfl⟩

theorem counters_agree_iff (runId : String) (result : CollectedMemberResult) (reply : CollectAppendResult)
    (group : CollectGroup) :
    (∀ g g' : GroupState, Reached g → (addResult runId result : RoleM Unit _).Ends storeMachine () g (.ok reply) () g' →
      g'.metadata = some group → (Agrees reply { group with results := g'.items } ↔
        ∀ entry ∈ g'.items, PlainStatus entry.result)) ∧
    (∀ s s' : InMemoryState, s.addResult runId result = (.ok reply, s') → s'.group = some group →
      (Agrees reply group ↔ ∀ entry ∈ group.results, PlainStatus entry.result)) := by
  constructor
  case left => exact fun g g' hr he _ => agrees_iff (counts_of_addResult hr.tallied he)
  case right => exact fun s s' he hg => agrees_iff (counts_of_addResult_inMemory he hg)

end Stores

section Sample

def sampleGroup : CollectGroup where
  parentRunId := "p"
  workflowId := "weather"
  parentPayload := .object []
  expectedCount := 1
  results := []

def sampleMember (status : String) : CollectedMemberResult where
  childRunId := "p:item:0"
  itemIndex := 0
  fanoutItem := .object []
  result := .object [("status", .str status)]

def sampleReply (status : String) : CollectAppendResult :=
  appendSnapshot true [sampleMember status]

def sampleStore : GroupState :=
  { metadata := some sampleGroup }

theorem sampleStore_reached : Reached sampleStore := by
  have he : GroupState.exec (.setnxMeta sampleGroup) {} (.ok true) sampleStore := .inl ⟨rfl, rfl⟩
  have hc : ByStatus (.setnxMeta sampleGroup) := trivial
  exact .step .empty hc he

def sampleAdded (status : String) : GroupState :=
  (sampleStore.append (sampleMember status) (memberResultStatus (sampleMember status))).2

theorem addResult_failed : (addResult "p" (sampleMember "failed") : RoleM Unit _).Ends storeMachine () sampleStore
    (.ok (sampleReply "failed")) () (sampleAdded "failed") :=
  .call (r := .ok [1, 1, 0, 1, 0]) (.inl ⟨rfl, rfl⟩) (.call (r := .ok ["p:item:0"]) ⟨rfl, by rintro _ ⟨⟩; rfl⟩ .ret)

theorem addResult_completed : (addResult "p" (sampleMember "completed") : RoleM Unit _).Ends storeMachine () sampleStore
    (.ok (sampleReply "completed")) () (sampleAdded "completed") :=
  .call (r := .ok [1, 1, 1, 0, 0]) (.inl ⟨rfl, rfl⟩) (.call (r := .ok ["p:item:0"]) ⟨rfl, by rintro _ ⟨⟩; rfl⟩ .ret)

theorem plainStatus_failed : ∀ entry ∈ [sampleMember "failed"], PlainStatus entry.result := by
  refine forall_mem_singleton.mpr fun status h => ?_
  obtain rfl : "failed" = status := Option.some.inj h
  exact .inr rfl

theorem counters_agree_failed :
    Agrees (sampleReply "failed") { sampleGroup with results := (sampleAdded "failed").items } ∧
    Agrees (sampleReply "failed") { sampleGroup with results := [sampleMember "failed"] } := by
  have h := counters_agree_iff "p" (sampleMember "failed") (sampleReply "failed")
  refine ⟨((h sampleGroup).left _ _ sampleStore_reached addResult_failed rfl).mpr plainStatus_failed, ?_⟩
  have hs : InMemoryState.addResult "p" (sampleMember "failed") ⟨some sampleGroup, none⟩ =
    (.ok (sampleReply "failed"), ⟨some { sampleGroup with results := [sampleMember "failed"] }, none⟩) := rfl
  exact ((h _).right _ _ hs rfl).mpr plainStatus_failed

-- A child that says it has completed counts as succeeded while it is collected, and as failed in the end.
theorem counters_disagree_completed :
    (addResult "p" (sampleMember "completed") : RoleM Unit _).Ends storeMachine () sampleStore
      (.ok (sampleReply "completed")) () (sampleAdded "completed") ∧ (sampleReply "completed").succeededCount = 1 ∧
    (sampleReply "completed").failedCount = 0 ∧ (sampleReply "completed").cancelledCount = 0 ∧
    InMemoryState.addResult "p" (sampleMember "completed") ⟨some sampleGroup, none⟩ =
      (.ok (sampleReply "completed"), ⟨some { sampleGroup with results := [sampleMember "completed"] }, none⟩) ∧
    ∀ group ∈ [{ sampleGroup with results := (sampleAdded "completed").items },
        { sampleGroup with results := [sampleMember "completed"] }],
      summary group "succeeded_count" = some (.nat 0) ∧ summary group "failed_count" = some (.nat 1) ∧
        (buildParentResult group).get "status" = some (.str "failed") := by
  refine ⟨addResult_completed, by decide, by decide, by decide, rfl, ?_⟩
  refine forall_mem_cons.mpr ⟨⟨rfl, rfl, rfl⟩, forall_mem_singleton.mpr ⟨rfl, rfl, rfl⟩⟩

end Sample

end Collect
