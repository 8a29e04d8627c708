import ServeModel.Inference.Theorems.Release

-- What becomes of the members of a batch.
namespace Inference

open List hiding head

open Python
open Except (bind_eq_ok pure_eq_ok)

variable (env : Env)

section Dispatch

-- A member of a batch is the id of a run and the payload of its request.
abbrev Member := String × Json

def memberJson (m : Member) : Json :=
  .object [("run_id", .str m.1), ("payload", m.2)]

-- The id of the batch is new.
structure DispatchedBatch (job : Job) (members : List Member) : Prop where
  dispatched : Dispatched job
  items : job.payload.json.bind (·.get "items") = some (.arr (members.map memberJson))
  nonempty : members ≠ []
  fresh : job.runId ∉ members.map (·.1)

open Scheduler

theorem memberJson_eq (m : Member) : memberJson m = .obj [("payload", m.2), ("run_id", .str m.1)] := by
  have h : "payload" < "run_id" := by decide
  simp [memberJson, Json.object, Json.literal, Json.setField, h]

theorem advanceEach_members (members : List Member) :
    advanceEach stage (members.map memberJson) =
      (members.map fun m => (m.1, advanceStageContextForDispatch stage m.2)).map memberJson := by
  induction members
  case nil => rfl
  case cons m ms hi =>
    rw [map_cons, map_cons, map_cons, advanceEach, hi, memberJson_eq, memberJson_eq]
    simp [advanceItem, advancePayload]

theorem field_items_advanceItems {members : List Member}
    (h : Json.field "items" fs = some (.arr (members.map memberJson))) :
    Json.field "items" (advanceItems stage fs) =
      some (.arr ((members.map fun m => (m.1, advanceStageContextForDispatch stage m.2)).map memberJson)) := by
  induction fs
  case nil => cases h
  case cons f fs hi =>
    have ⟨k, v⟩ := f
    by_cases hk : "items" = k
    case pos =>
      subst hk
      simp only [Json.field, if_true, Option.some.injEq] at h
      subst h
      simp [advanceItems, Json.field, advanceArray, advanceEach_members]
    case neg =>
      rw [Json.field, if_neg hk] at h
      rw [advanceItems, Json.field, if_neg hk]
      exact hi h

-- The items of a dispatched payload still name the runs of the batch.
theorem items_advance {members : List Member}
    (h : Json.field "items" root = some (.arr (members.map memberJson))) :
    ∃ advanced : List Member, advanced.map (·.1) = members.map (·.1) ∧
      (advanceStageContextForDispatch stage (.obj root)).get "items" = some (.arr (advanced.map memberJson)) := by
  rw [advanceStageContextForDispatch]
  split
  case h_1 => exact ⟨members, rfl, h⟩
  case h_2 =>
    split
    case h_1 => exact ⟨members, rfl, h⟩
    case h_2 => exact ⟨members, rfl, (Json.field_setField_of_ne (by decide)).trans h⟩
    case h_3 =>
      refine ⟨_, ?_, (Json.field_setField_of_ne (by decide)).trans (field_items_advanceItems h)⟩
      simp

theorem items_dispatchPayload (target : ReservedResource) {fs : Json.Fields}
    {members : List Member} (hr : payload.rawPayload = .obj fs)
    (h : Json.field "items" fs = some (.arr (members.map memberJson))) :
    ∃ advanced : List Member, advanced.map (·.1) = members.map (·.1) ∧
      (dispatchPayload payload target).get "items" = some (.arr (advanced.map memberJson)) := by
  rw [dispatchPayload, hr]
  apply items_advance
  split
  case h_1 | h_2 => simpa using h

variable {batchId : String} {stageContext resourceProfile raw : Json}

theorem field_copyField_of_ne (h : key ≠ name) :
    Json.field key (copyField raw name fs) = Json.field key fs := by
  rw [copyField]
  split
  case h_1 => exact Json.field_setField_of_ne h
  case h_2 => rfl

theorem field_items_batchPayloadFields :
    Json.field "items" (Json.literal (batchPayloadFields batchId head candidates policy flushReason firstSeenMs
        formedAtMs stageContext resourceProfile)) =
      some (.arr ((candidates.map fun c => (c.queued.msg.runId, c.queued.payload.rawPayload)).map memberJson)) := by
  rw [List.map_map]
  simp only [Json.literal, batchPayloadFields, List.foldl_cons, List.foldl_nil]
  simp only [ne_eq, String.reduceEq, not_false_eq_true, Json.field_setField_of_ne, Json.field_setField_self]
  rfl

-- Every batch of the scheduler is of this kind, once its id differs from those of its members.
theorem dispatchedBatch_of_candidates {target : ReservedResource}
    (hc : candidates ≠ []) (hf : job.runId ∉ candidates.map (·.queued.msg.runId))
    (hr : payload.rawPayload = .obj (copyField raw "fanout_profile" (copyField raw "parent_run_id" (Json.literal
      (batchPayloadFields batchId head candidates policy flushReason firstSeenMs formedAtMs stageContext
        resourceProfile)))))
    (hj : job.payload = .encode (dispatchPayload payload target)) :
    ∃ members, DispatchedBatch job members ∧ members.map (·.1) = candidates.map (·.queued.msg.runId) := by
  have hp : "items" ≠ "parent_run_id" := by decide
  have hn : "items" ≠ "fanout_profile" := by decide
  have ⟨members, hm, hi⟩ := items_dispatchPayload target hr
    ((field_copyField_of_ne hn).trans ((field_copyField_of_ne hp).trans field_items_batchPayloadFields))
  have hm : members.map (·.1) = candidates.map (·.queued.msg.runId) := by
    rw [hm, List.map_map]
    rfl
  refine ⟨members, ⟨⟨payload, target, hj⟩, ?_, ?_, hm ▸ hf⟩, hm⟩
  · rw [hj]
    exact hi
  · rintro rfl
    exact hc (List.map_eq_nil_iff.mp hm.symm)

end Dispatch

section Items

variable {workflowId : String} {operation : Value} {m : Member} {item : BatchItem} {members : List Member}

@[simp]
theorem trimText_trimText : trimText (trimText s) = trimText s := by
  simp only [trimText, String.toList_ofList]
  exact congrArg String.ofList Text.dropWhile_rdropWhile

theorem truth_str : truth (.str s) = .ok (decide (s ≠ "")) := rfl

theorem orElse_str (h : s ≠ "") : orElse (.str s) v = .ok (.str s) := by
  rw [orElse_of_truth truth_str, decide_eq_true h]
  rfl

theorem stripped_str (h : s ≠ "") : env.stripped (.str s) "" = .ok (.str (trimText s)) := by
  rw [Env.stripped, orElse_str h]
  rfl

structure IsItem (m : Member) (item : BatchItem) : Prop where
  payload : ∃ gs, m.2 = .obj gs ∧ item.rawPayload = Value.ofFields gs
  runId : ∃ r, item.runId = .str r ∧ r ≠ "" ∧ trimText r = r ∧ (m.1 ≠ "" → r = trimText m.1)

theorem strip_of_stripped (h : env.stripped v text = .ok w) : strip w = w := by
  simp only [Env.stripped, bind_eq_ok, pure_eq_ok] at h
  obtain ⟨_, -, x, -, rfl⟩ := h
  cases x <;> simp [strip]

theorem ofJson_memberJson : Value.ofJson (memberJson m) =
    .dict [(.str "payload", .ofJson m.2), (.str "run_id", .str m.1)] := by
  rw [memberJson_eq]
  rfl

theorem decodeItem_obj (hp : m.2 = .obj gs) :
    decodeItem env workflowId operation (Value.ofJson (memberJson m)) =
      readItem env workflowId operation [(.str "payload", .ofJson m.2), (.str "run_id", .str m.1)]
        (Value.ofFields gs) := by
  rw [ofJson_memberJson, hp]
  rfl

theorem IsItem.of_decodeItem (h : decodeItem env workflowId operation (Value.ofJson (memberJson m)) = .ok item) :
    IsItem m item := by
  obtain ⟨gs, hp⟩ : ∃ gs, m.2 = .obj gs := by
    rw [ofJson_memberJson] at h
    cases hm : m.2
    case obj gs => exact ⟨gs, rfl⟩
    all_goals
      rw [hm] at h
      cases h
  rw [decodeItem_obj env hp, readItem] at h
  simp only [bind_eq_ok] at h
  obtain ⟨v, ho, w, hs, b, hb, h⟩ := h
  obtain ⟨hn, h⟩ := Except.ite_throw_eq_ok.mp h
  simp only [bind_eq_ok, pure_eq_ok] at h
  obtain ⟨parent, -, rfl⟩ := h
  have hg : (Value.dict (Value.ofFields gs)).IsJson := Value.isJson_ofFields
  have hv : Gives Value.IsJson (.ok v) := ho ▸ orElse_isJson (Value.isJson_str (s := m.1)) hg.entry
  obtain ⟨_, he, hv⟩ := hv
  obtain rfl := Except.ok.inj he
  obtain ⟨_, hs', r, rfl⟩ := stripped_isJson env hv ""
  obtain rfl : w = .str r := Except.ok.inj (hs.symm.trans hs')
  have hr : r ≠ "" := by
    rintro rfl
    cases hb
    exact hn Bool.false_ne_true
  refine ⟨⟨gs, hp, rfl⟩, r, rfl, hr, Value.str.inj (strip_of_stripped env hs), fun hm => ?_⟩
  have ho' : orElse (.str m.1) (Dict.entry (Value.ofFields gs) "run_id") = .ok v := ho
  rw [orElse_str hm] at ho'
  obtain rfl := Except.ok.inj ho'
  rw [stripped_str env hm] at hs
  exact (Value.str.inj (Except.ok.inj hs)).symm

end Items

section Run

variable (batch : BatchRun) (workflowId : String) (batchId : Value) (payload : Dict)

def Shows (result : Dict) : Prop :=
  Builds (normalizeBatchOutcomeStatus env (result.entry "status"))

-- The results of the items of a legacy batch, where those of active items are given.
def legacyResults (batchInfo : Dict) (result : Nat → Dict) (items : List BatchItem) : List Dict :=
  items.zipIdx.map fun (item, i) =>
    if batch.parentTerminal i then cancelledBatchItemResult (batch.items i) item batchInfo else result i

-- Where the results of the active items of a legacy batch come from.
inductive LegacyRan (batchInfo : Dict) (items : List BatchItem) : (Nat → Dict) → Prop
  | terminal (h : legacyActive batch items = []) : LegacyRan batchInfo items fun _ => []
  | each {results : List (Nat × Dict)} (h : legacyActive batch items ≠ []) (hb : batch.batchHook = none)
      (hr : legacyEach batch workflowId batchInfo items = .ok results)
      (hs : ∀ result ∈ legacyResults batch batchInfo (resultAt results) items, Shows env result) :
      LegacyRan batchInfo items (resultAt results)
  | hook {v : Value} {results : List (Nat × Dict)} (h : legacyActive batch items ≠ [])
      (hb : batch.batchHook = some (.returned v))
      (hr : legacyHookResults env batch workflowId batchInfo (legacyActive batch items) v = .ok results)
      (hs : ∀ result ∈ legacyResults batch batchInfo (resultAt results) items, Shows env result) :
      LegacyRan batchInfo items (resultAt results)
  | failed {hook : Hook} {e : Exc} (h : legacyActive batch items ≠ []) (hb : batch.batchHook = some hook)
      (hr : legacyHooked env batch workflowId batchId batchInfo items hook = .error e) (he : e ≠ .fatal) :
      LegacyRan batchInfo items (legacyFailed batch batchInfo e items)

-- The results of a batch, by the way it is run: each of them is what the hook of its member gave.
inductive Ran : List BatchItem → List Dict → Prop
  | itemwise {operation : Value} {items : List BatchItem} {results : List Dict}
      (hload : batch.load = .ok ()) (hmode : batch.legacyBatchOnly = false)
      (hop : itemOperation batch payload = .ok operation)
      (hservices : checkDict (payload.entry "services") = .ok ())
      (hobjects : checkDict (payload.entry "service_objects") = .ok ())
      (hitems : batchItems env workflowId operation payload = .ok items)
      (hopen : batch.accepting)
      (hrun : List.Forall₂ (fun (x : BatchItem × Nat) result =>
        runItem batch workflowId (normalizeBatchInfo batchId payload items.length) x.2 x.1 = .ok result)
        items.zipIdx results)
      (hs : ∀ result ∈ results, Shows env result) : Ran items results
  | legacy {operation : Value} {raw : List Value} {items : List BatchItem} {result : Nat → Dict}
      (hload : batch.load = .ok ()) (hmode : batch.legacyBatchOnly) (hlegacy : batch.legacyLoad = .ok ())
      (hop : legacyOperation batch payload = .ok operation) (hraw : rawItems workflowId payload = .ok raw)
      (hitems : legacyItems env batch workflowId operation 0 raw = .ok items)
      (hrun : LegacyRan env batch workflowId batchId (normalizeBatchInfo batchId payload items.length) items result) :
      Ran items (legacyResults batch (normalizeBatchInfo batchId payload items.length) result items)

-- The response for a batch, as far as it is read again.
structure Shape (batchInfo : Dict) (items : List BatchItem) (results : List Dict) (response : Dict) : Prop where
  entries : batchEntries response = some (List.zipWith (batchEntry · batchInfo ·) items results)
  status : IsText (response.entry "status")
  updates : response.get "_pipeline_updates" = none
  parent : response.entry "parent_run_id" = .none ∨ IsText (response.entry "parent_run_id")

variable {batch workflowId batchId payload}
variable {items : List BatchItem} {results : List Dict} {batchInfo response : Dict} {result : Nat → Dict}

theorem map_zipIdx_eq_zipWith {f : α × Nat → β} {g : α → β → γ} {xs : List α} :
    ((xs.zipIdx k).map fun x => g x.1 (f x)) = List.zipWith g xs ((xs.zipIdx k).map f) := by
  induction xs generalizing k
  case nil => rfl
  case cons x xs hi => simp [zipIdx_cons, hi]

theorem legacyEntries_eq : legacyEntries batch batchInfo result items =
    List.zipWith (batchEntry · batchInfo ·) items (legacyResults batch batchInfo result items) := by
  rw [legacyEntries, legacyResults, ← map_zipIdx_eq_zipWith]

theorem length_legacyResults : (legacyResults batch batchInfo result items).length = items.length := by
  simp [legacyResults]

theorem entryStatuses_builds (h : items.length = results.length) :
    Builds (entryStatuses env (List.zipWith (batchEntry · batchInfo ·) items results)) ↔
      ∀ result ∈ results, Shows env result := by
  induction items generalizing results
  case nil =>
    obtain rfl := length_eq_zero_iff.mp h.symm
    exact iff_of_true ⟨[], rfl⟩ nofun
  case cons item items hi =>
    cases results
    case nil => cases h
    case cons result results =>
      have he : entryStatuses env (List.zipWith (batchEntry · batchInfo ·) (item :: items) (result :: results)) = (do
          let status ← normalizeBatchOutcomeStatus env (result.entry "status")
          return status :: (← entryStatuses env (List.zipWith (batchEntry · batchInfo ·) items results))) := rfl
      rw [forall_mem_cons, ← hi (Nat.succ.inj h), he, Builds, Shows, Builds, Builds]
      simp only [bind_eq_ok, pure_eq_ok]
      constructor
      case mp =>
        rintro ⟨_, a, ha, b, hb, -⟩
        exact ⟨⟨a, ha⟩, b, hb⟩
      case mpr =>
        rintro ⟨⟨a, ha⟩, b, hb⟩
        exact ⟨_, a, ha, b, hb, rfl⟩

theorem batchResponse_eq_ok : batchResponse env batch batchId entries = .ok response ↔
    ∃ status, batchResultStatus env entries = .ok status ∧
      [(.str "run_id", batchId), (.str "status", .str status), (.str "execution_time_seconds", batch.seconds),
        (.str "batch_results", .list entries)] = response := by
  simp only [batchResponse, bind_eq_ok, pure_eq_ok]

theorem batchResultStatus_builds :
    Builds (batchResultStatus env entries) ↔ Builds (entryStatuses env entries) := by
  simp only [Builds, batchResultStatus, bind_eq_ok]
  constructor
  case mp =>
    rintro ⟨_, statuses, hs, _⟩
    exact ⟨statuses, hs⟩
  case mpr =>
    rintro ⟨statuses, hs⟩
    by_cases h₁ : statuses = []
    case pos => exact ⟨_, statuses, hs, by rw [if_pos h₁]; rfl⟩
    case neg =>
      by_cases h₂ : "failed" ∈ statuses
      case pos => exact ⟨_, statuses, hs, by rw [if_neg h₁, if_pos h₂]; rfl⟩
      case neg =>
        by_cases h₃ : "cancelled" ∈ statuses
        case pos => exact ⟨_, statuses, hs, by rw [if_neg h₁, if_neg h₂, if_pos h₃]; rfl⟩
        case neg => exact ⟨_, statuses, hs, by rw [if_neg h₁, if_neg h₂, if_neg h₃]; rfl⟩

theorem shape_of_batchResponse
    (h : batchResponse env batch batchId (List.zipWith (batchEntry · batchInfo ·) items results) = .ok response) :
    Shape batchInfo items results response := by
  obtain ⟨status, -, rfl⟩ := (batchResponse_eq_ok env).mp h
  exact ⟨rfl, ⟨_, rfl⟩, rfl, .inl rfl⟩

theorem batchResponse_builds (batch : BatchRun) (batchId : Value) (batchInfo : Dict)
    (h : items.length = results.length) :
    Builds (batchResponse env batch batchId (List.zipWith (batchEntry · batchInfo ·) items results)) ↔
      ∀ result ∈ results, Shows env result := by
  have he : Builds (entryStatuses env (List.zipWith (batchEntry · batchInfo ·) items results)) ↔ _ :=
    entryStatuses_builds env h
  rw [← he, ← batchResultStatus_builds]
  simp only [Builds, batchResponse_eq_ok]
  constructor
  case mp =>
    rintro ⟨_, status, hs, _⟩
    exact ⟨status, hs⟩
  case mpr =>
    rintro ⟨status, hs⟩
    exact ⟨_, status, hs, rfl⟩

theorem itemwise_eq_ok : itemwise env batch workflowId batchId payload = .ok response ↔
    ∃ operation, itemOperation batch payload = .ok operation ∧
      checkDict (payload.entry "services") = .ok () ∧ checkDict (payload.entry "service_objects") = .ok () ∧
      ∃ items, batchItems env workflowId operation payload = .ok items ∧ batch.accepting ∧
      ∃ results, List.Forall₂ (fun (x : BatchItem × Nat) result =>
          runItem batch workflowId (normalizeBatchInfo batchId payload items.length) x.2 x.1 = .ok result)
          items.zipIdx results ∧
        batchResponse env batch batchId (List.zipWith (batchEntry · (normalizeBatchInfo batchId payload items.length) ·)
          items results) = .ok response := by
  simp only [itemwise, bind_eq_ok, Except.ite_throw_eq_ok, Except.mapM_eq_ok, Bool.not_eq_true,
    Bool.not_eq_false]
  constructor
  case mp =>
    rintro ⟨operation, hop, ⟨⟩, hs, ⟨⟩, ho, h⟩
    exact ⟨operation, hop, hs, ho, h⟩
  case mpr =>
    rintro ⟨operation, hop, hs, ho, h⟩
    exact ⟨operation, hop, (), hs, (), ho, h⟩

theorem shape_legacyTerminal : Shape batchInfo items (legacyResults batch batchInfo (fun _ => []) items)
    (legacyTerminal batch batchId batchInfo items) := by
  rw [legacyTerminal]
  split
  case h_1 parent _ =>
    refine ⟨?_, ⟨_, rfl⟩, rfl, .inr ⟨parent, rfl⟩⟩
    rw [← legacyEntries_eq]
    rfl
  case h_2 =>
    refine ⟨?_, ⟨_, rfl⟩, rfl, .inl rfl⟩
    rw [← legacyEntries_eq]
    rfl

theorem shows_of_text {result : Dict} (h : IsText (result.entry "status")) : Shows env result := by
  have ⟨_, hs, text, ht⟩ := stripped_isJson env h.isJson "succeeded"
  subst ht
  rw [Shows, normalizeBatchOutcomeStatus, hs]
  by_cases h₁ : lower text ∈ ["success", "succeeded", "completed"]
  case pos => exact ⟨_, if_pos h₁⟩
  case neg =>
    by_cases h₂ : lower text ∈ ["cancelled", "canceled"]
    case pos => exact ⟨_, (if_neg h₁).trans (if_pos h₂)⟩
    case neg => exact ⟨_, (if_neg h₁).trans (if_neg h₂)⟩

theorem cancelled_shows : Shows env (cancelledBatchItemResult run item batchInfo) := by
  refine shows_of_text env ⟨"cancelled", ?_⟩
  rw [cancelledBatchItemResult]
  cases item.parentRunId <;> rfl

theorem legacyFailed_shows (batch : BatchRun) (batchInfo : Dict) (items : List BatchItem) (e : Exc) :
    ∀ result ∈ legacyResults batch batchInfo (legacyFailed batch batchInfo e items) items, Shows env result := by
  intro result hr
  obtain ⟨⟨item, i⟩, hi, rfl⟩ := mem_map.mp hr
  have hi : items[i]? = some item := mem_zipIdx_iff_getElem?.mp hi
  dsimp only
  split
  case isTrue => exact cancelled_shows env
  case isFalse =>
    rw [legacyFailed, hi]
    exact shows_of_text env ⟨"failed", rfl⟩

theorem Shape.set (key : String) (v : Value) (h : Shape batchInfo items results response)
    (hk : key ∉ ["batch_results", "status", "_pipeline_updates", "parent_run_id"]) :
    Shape batchInfo items results (response.set key v) := by
  have hg {k : String} (hm : k ∈ ["batch_results", "status", "_pipeline_updates", "parent_run_id"]) :
      (response.set key v).get k = response.get k :=
    Dict.get_set_of_ne fun he => hk (he ▸ hm)
  have he {k : String} (hm : k ∈ ["batch_results", "status", "_pipeline_updates", "parent_run_id"]) :
      (response.set key v).entry k = response.entry k := by
    rw [Dict.entry, Dict.getD, hg hm]
    rfl
  refine ⟨?_, ?_, ?_, ?_⟩
  · rw [batchEntries, hg (by simp)]; exact h.entries
  · rw [he (by simp)]; exact h.status
  · rw [hg (by simp)]; exact h.updates
  · rw [he (by simp)]; exact h.parent

theorem legacyRecover_error (batch : BatchRun) (batchId : Value) (batchInfo : Dict) (items : List BatchItem)
    (he : e ≠ .fatal) :
    ∃ response, legacyRecover env batch batchId batchInfo items (.error e) = .ok response ∧
      Shape batchInfo items (legacyResults batch batchInfo (legacyFailed batch batchInfo e items) items) response := by
  have ⟨response, hr⟩ := (batchResponse_builds env batch batchId batchInfo length_legacyResults.symm).mpr
    (legacyFailed_shows env batch batchInfo items e)
  have hs := ((shape_of_batchResponse env hr).set "error" (.str e.text) (by decide)).set "error_traceback"
    (.str batch.traceback) (by decide)
  rw [← legacyEntries_eq] at hr
  refine ⟨_, ?_, hs⟩
  cases e
  case fatal => exact absurd rfl he
  all_goals exact bind_eq_ok.mpr ⟨response, hr, rfl⟩

theorem LegacyRan.of_finish (h : legacyFinish env batch workflowId batchId batchInfo items = .ok response) :
    ∃ result, LegacyRan env batch workflowId batchId batchInfo items result ∧
      Shape batchInfo items (legacyResults batch batchInfo result items) response := by
  by_cases ha : legacyActive batch items = []
  case pos =>
    rw [legacyFinish, if_pos ha] at h
    cases h
    exact ⟨_, .terminal ha, shape_legacyTerminal⟩
  case neg =>
    rw [legacyFinish, if_neg ha] at h
    cases hb : batch.batchHook
    case none =>
      simp only [hb, bind_eq_ok, legacyEntries_eq] at h
      have ⟨results, hr, h⟩ := h
      exact ⟨_, .each ha hb hr ((batchResponse_builds env batch batchId batchInfo length_legacyResults.symm).mp ⟨_, h⟩),
        shape_of_batchResponse env h⟩
    case some hook =>
      simp only [hb] at h
      cases hh : legacyHooked env batch workflowId batchId batchInfo items hook
      case ok r =>
        rw [hh] at h
        cases h
        cases hook
        case returned v =>
          simp only [legacyHooked, bind_eq_ok, legacyEntries_eq] at hh
          have ⟨results, hr, hh⟩ := hh
          have hs := (batchResponse_builds env batch batchId batchInfo length_legacyResults.symm).mp ⟨_, hh⟩
          exact ⟨_, .hook ha hb hr hs, shape_of_batchResponse env hh⟩
        case cancelled | raised => cases hh
      case error e =>
        have he : e ≠ .fatal := by
          rintro rfl
          rw [hh] at h
          cases h
        have ⟨r, hr, hs⟩ := legacyRecover_error env batch batchId batchInfo items he
        rw [hh, hr] at h
        cases h
        exact ⟨_, .failed ha hb hh he, hs⟩

theorem LegacyRan.finish (h : LegacyRan env batch workflowId batchId batchInfo items result) :
    ∃ response, legacyFinish env batch workflowId batchId batchInfo items = .ok response ∧
      Shape batchInfo items (legacyResults batch batchInfo result items) response := by
  cases h
  case terminal ha => exact ⟨_, if_pos ha, shape_legacyTerminal⟩
  case each results ha hb hr hs =>
    have ⟨response, hx⟩ := (batchResponse_builds env batch batchId batchInfo length_legacyResults.symm).mpr hs
    refine ⟨response, ?_, shape_of_batchResponse env hx⟩
    rw [legacyFinish, if_neg ha]
    simp only [hb, bind_eq_ok, legacyEntries_eq]
    exact ⟨results, hr, hx⟩
  case hook v results ha hb hr hs =>
    have ⟨response, hx⟩ := (batchResponse_builds env batch batchId batchInfo length_legacyResults.symm).mpr hs
    refine ⟨response, ?_, shape_of_batchResponse env hx⟩
    have hh : legacyHooked env batch workflowId batchId batchInfo items (.returned v) = .ok response := by
      simp only [legacyHooked, bind_eq_ok, legacyEntries_eq]
      exact ⟨results, hr, hx⟩
    rw [legacyFinish, if_neg ha]
    simp only [hb, hh]
    rfl
  case failed hook e ha hb hr he =>
    have ⟨response, hx, hs⟩ := legacyRecover_error env batch batchId batchInfo items he
    refine ⟨response, ?_, hs⟩
    rw [legacyFinish, if_neg ha]
    simp only [hb, hr]
    exact hx

theorem Ran.of_execute (h : executePluginBatchWorkflow env batch workflowId batchId payload = .ok response) :
    ∃ items results, Ran env batch workflowId batchId payload items results ∧
      Shape (normalizeBatchInfo batchId payload items.length) items results response := by
  have ⟨⟨⟩, hl, h⟩ := bind_eq_ok.mp h
  cases hm : batch.legacyBatchOnly
  case true =>
    rw [if_pos hm] at h
    simp only [executeLegacyPluginBatchWorkflow, bind_eq_ok] at h
    obtain ⟨⟨⟩, hg, operation, hop, raw, hraw, items, hi, h⟩ := h
    have ⟨result, hr, hs⟩ := LegacyRan.of_finish env h
    exact ⟨items, _, .legacy hl hm hg hop hraw hi hr, hs⟩
  case false =>
    rw [if_neg (by simp [hm])] at h
    obtain ⟨operation, hop, hs, ho, items, hi, hx, results, hr, h⟩ := (itemwise_eq_ok env).mp h
    have hlen : items.length = results.length := by simpa using hr.length_eq
    have hshow := (batchResponse_builds env batch batchId _ hlen).mp ⟨_, h⟩
    exact ⟨items, results, .itemwise hl hm hop hs ho hi hx hr hshow, shape_of_batchResponse env h⟩

theorem Ran.execute (h : Ran env batch workflowId batchId payload items results) :
    ∃ response, executePluginBatchWorkflow env batch workflowId batchId payload = .ok response ∧
      Shape (normalizeBatchInfo batchId payload items.length) items results response := by
  cases h
  case itemwise operation hl hm hop hs ho hx hi hshow hr =>
    have hlen : items.length = results.length := by simpa using hr.length_eq
    have ⟨response, hb⟩ := (batchResponse_builds env batch batchId (normalizeBatchInfo batchId payload items.length)
      hlen).mpr hshow
    refine ⟨response, ?_, shape_of_batchResponse env hb⟩
    refine bind_eq_ok.mpr ⟨(), hl, ?_⟩
    rw [if_neg (by simp [hm])]
    exact (itemwise_eq_ok env).mpr ⟨operation, hop, hs, ho, items, hi, hx, results, hr, hb⟩
  case legacy operation raw result hl hm hg hop hraw hi hr =>
    have ⟨response, hf, hs⟩ := hr.finish
    refine ⟨response, bind_eq_ok.mpr ⟨(), hl, ?_⟩, hs⟩
    rw [if_pos hm]
    simp only [executeLegacyPluginBatchWorkflow, bind_eq_ok]
    exact ⟨(), hg, operation, hop, raw, hraw, items, hi, hf⟩

theorem Ran.length_eq (h : Ran env batch workflowId batchId payload items results) : items.length = results.length := by
  cases h
  case itemwise hr => simpa using hr.length_eq
  case legacy => exact length_legacyResults.symm

end Run

section Kept

-- The completion is sent, and each of these runs has one output in it.
def Kept (job : Job) (runIds : List String) (commands : List Command) : Prop :=
  ∃ (primaries : List Sent) (release : Sent), commands = primaries.map .xadd ++ [.xadd release, .xack job.msgId] ∧
    ∀ runId ∈ runIds, (primaries.map (·.runId)).count runId = 1

-- What an item asks of its result: it goes to a stage that takes it, the worker can tell whether to write it down, and
-- it can be encoded.
structure Fine (payload batchInfo : Dict) (item : BatchItem) (result : Dict) : Prop where
  handed : ∃ own, batchItemCompletionPayload env payload item.rawPayload = .ok own ∧
    validateFanoutHandoff env own result = .ok () ∧ Builds (shouldPersistRunStatusAfterExecute env own result) ∧
    Sends env own ((result.set "batch_info" (.dict batchInfo)).set "run_id" item.runId)

-- The batch is run to its end, with a result for each member that can be sent.
def Handled (ex : Execution) (job : Job) (payload : Dict) : Prop :=
  truth (payload.entry "workflow_id") = .ok true ∧
    ∃ workflow items results, workflowText env payload = .ok (.str workflow) ∧
      Ran env ex.batch workflow (.str job.runId) payload items results ∧
      List.Forall₂ (Fine env payload (normalizeBatchInfo (.str job.runId) payload items.length)) items results

-- The runs of a batch can be told apart, and their ids are not changed by the worker.
def Distinct (runIds : List String) : Prop :=
  runIds.Nodup ∧ ∀ runId ∈ runIds, runId ≠ "" ∧ trimText runId = runId

variable {env} {job : Job} {members : List Member} {device : Device} {mode : Mode} {ex : Execution}

section Items

variable {payload : Dict} {workflowId : String} {operation : Value} {items : List BatchItem} {results : List Dict}

theorem DispatchedBatch.rawItems (hb : DispatchedBatch job members) (hd : decodePayloadObject job.payload = payload) :
    payload.get "items" = some (.list (members.map fun m => Value.ofJson (memberJson m))) := by
  have ⟨j, hj, hi⟩ := Option.bind_eq_some_iff.mp hb.items
  have ⟨fs, hf, hi⟩ := Option.bind_eq_some_iff.mp hi
  have hp : payload = Value.ofFields fs := by
    cases j
    case obj gs =>
      obtain rfl : gs = fs := Option.some.inj hf
      rw [← hd, decodePayloadObject, hj]
      rfl
    all_goals cases hf
  rw [hp, Value.get_ofFields, hi, Option.map_some, Value.ofJson, Value.ofJsons_eq_map, map_map]
  rfl

theorem rawItems_eq_ok (hn : members ≠ [])
    (hi : payload.get "items" = some (.list (members.map fun m => Value.ofJson (memberJson m)))) :
    rawItems workflowId payload = .ok raw ↔ raw = members.map fun m => Value.ofJson (memberJson m) := by
  rw [rawItems, hi]
  cases members
  case nil => exact absurd rfl hn
  case cons => exact pure_eq_ok.trans eq_comm

theorem isItem_of_decodeItems (h : List.Forall₂ (fun x item => decodeItem env workflowId operation x = .ok item)
    (members.map fun m => Value.ofJson (memberJson m)) items) : List.Forall₂ IsItem members items := by
  rw [List.forall₂_map_left_iff] at h
  exact h.imp fun m item h => IsItem.of_decodeItem env h

theorem forall₂_of_legacyItems (h : legacyItems env batch workflowId operation i raw = .ok items) :
    List.Forall₂ (fun x item => decodeItem env workflowId operation x = .ok item) raw items := by
  induction raw generalizing i items
  case nil =>
    cases h
    exact .nil
  case cons x raw hi =>
    simp only [legacyItems, bind_eq_ok, pure_eq_ok] at h
    obtain ⟨item, hx, _, -, items, hr, rfl⟩ := h
    exact .cons hx (hi hr)

theorem Ran.isItem (hn : members ≠ [])
    (hi : payload.get "items" = some (.list (members.map fun m => Value.ofJson (memberJson m))))
    (h : Ran env batch workflowId batchId payload items results) : List.Forall₂ IsItem members items := by
  cases h
  case itemwise hitems _ _ =>
    have ⟨raw, hraw, hitems⟩ := bind_eq_ok.mp hitems
    obtain rfl := (rawItems_eq_ok hn hi).mp hraw
    exact isItem_of_decodeItems (Except.mapM_eq_ok.mp hitems)
  case legacy hraw hitems _ =>
    obtain rfl := (rawItems_eq_ok hn hi).mp hraw
    exact isItem_of_decodeItems (forall₂_of_legacyItems hitems)

end Items

section Entries

variable {payload batchInfo result : Dict} {item : BatchItem} {items : List BatchItem} {results : List Dict}

-- The id of an item is not changed any more.
def Named (item : BatchItem) : Prop :=
  ∃ r, item.runId = .str r ∧ r ≠ "" ∧ trimText r = r

def PlainItem (item : BatchItem) : Prop :=
  (Value.dict item.rawPayload).IsJson

theorem IsItem.named (h : IsItem m item) : Named item := by
  have ⟨r, hr, hn, ht, _⟩ := h.runId
  exact ⟨r, hr, hn, ht⟩

theorem IsItem.plain (h : IsItem m item) : PlainItem item := by
  have ⟨gs, _, hg⟩ := h.payload
  rw [PlainItem, hg]
  exact Value.isJson_ofFields

theorem named_of_isItem (h : List.Forall₂ IsItem members items) : ∀ item ∈ items, Named item := by
  intro item hx
  have ⟨_, _, h⟩ := h.exists_of_mem_right hx
  exact h.named

theorem plain_of_isItem (h : List.Forall₂ IsItem members items) :
    ∀ item ∈ items, PlainItem item := by
  intro item hx
  have ⟨_, _, h⟩ := h.exists_of_mem_right hx
  exact h.plain

theorem Named.stripped (env : Env) (h : Named item) :
    env.stripped item.runId "" = .ok item.runId ∧ truth item.runId = .ok true := by
  have ⟨r, hr, hn, ht⟩ := h
  rw [hr, stripped_str env hn, ht, truth_str, decide_eq_true hn]
  exact ⟨rfl, rfl⟩

theorem countEntry_batchEntry (h : Named item) : countEntry env (batchEntry item batchInfo result) =
    .ok (some { runId := item.runId, payload := item.rawPayload, result, batchInfo := some batchInfo }) := by
  have ⟨hs, ht⟩ := h.stripped env
  have he : countEntry env (batchEntry item batchInfo result) = (do
      let runId ← env.stripped item.runId ""
      if ← truth runId then
        return some { runId, payload := item.rawPayload, result, batchInfo := some batchInfo }
      else return none) := rfl
  rw [he]
  exact bind_eq_ok.mpr ⟨_, hs, bind_eq_ok.mpr ⟨true, ht, rfl⟩⟩

theorem jobItem_batchEntry {own : Dict} (h : Named item)
    (ho : batchItemCompletionPayload env payload item.rawPayload = .ok own) :
    jobItem env payload (batchEntry item batchInfo result) =
      .ok (some { runId := item.runId, payload := own, result }) := by
  have ⟨hs, ht⟩ := h.stripped env
  have he : jobItem env payload (batchEntry item batchInfo result) = (do
      let runId ← env.stripped item.runId ""
      if ¬(← truth runId) then return none
      let own ← batchItemCompletionPayload env payload item.rawPayload
      return some { runId, payload := own, result }) := rfl
  rw [he]
  refine bind_eq_ok.mpr ⟨_, hs, bind_eq_ok.mpr ⟨true, ht, ?_⟩⟩
  rw [if_neg (by simp)]
  exact bind_eq_ok.mpr ⟨own, ho, rfl⟩

def Handed (env : Env) (payload : Dict) (item : BatchItem) (result : Dict) : Prop :=
  ∃ own, batchItemCompletionPayload env payload item.rawPayload = .ok own ∧
    validateFanoutHandoff env own result = .ok () ∧ Builds (shouldPersistRunStatusAfterExecute env own result)

def Forwards (env : Env) (payload batchInfo : Dict) (item : BatchItem) (result : Dict) : Prop :=
  ∃ own, batchItemCompletionPayload env payload item.rawPayload = .ok own ∧
    Sends env own ((result.set "batch_info" (.dict batchInfo)).set "run_id" item.runId)

theorem fine_iff : List.Forall₂ (Fine env payload batchInfo) items results ↔
    List.Forall₂ (Handed env payload) items results ∧ List.Forall₂ (Forwards env payload batchInfo) items results := by
  constructor
  case mp =>
    intro h
    refine ⟨h.imp fun item result h => ?_, h.imp fun item result h => ?_⟩
    · have ⟨own, ho, hv, hw, _⟩ := h.handed
      exact ⟨own, ho, hv, hw⟩
    · have ⟨own, ho, _, _, hs⟩ := h.handed
      exact ⟨own, ho, hs⟩
  case mpr =>
    rintro ⟨hh, hs⟩
    induction hh
    case nil => exact .nil
    case cons hx _ ih =>
      have ⟨⟨own, ho, hs⟩, hss⟩ := List.forall₂_cons.mp hs
      have ⟨own', ho', hv, hw⟩ := hx
      obtain rfl := Except.ok.inj (ho.symm.trans ho')
      exact .cons ⟨own, ho, hv, hw, hs⟩ (ih hss)

theorem jobItems_zipWith (env : Env) (batchInfo : Dict) (hp : (Value.dict payload).IsJson)
    (hn : ∀ item ∈ items, Named item) (hq : ∀ item ∈ items, PlainItem item) (hl : items.length = results.length) :
    ∃ jobs, jobItems env payload (List.zipWith (batchEntry · batchInfo ·) items results) = .ok jobs ∧
      (∀ j ∈ jobs, (Value.dict j.payload).IsJson) ∧
      ((∀ j ∈ jobs, validateFanoutHandoff env j.payload j.result = .ok () ∧
          Builds (shouldPersistRunStatusAfterExecute env j.payload j.result)) ↔
        List.Forall₂ (Handed env payload) items results) := by
  induction items generalizing results
  case nil =>
    obtain rfl := length_eq_zero_iff.mp hl.symm
    exact ⟨[], rfl, nofun, iff_of_true nofun .nil⟩
  case cons item items hi =>
    cases results
    case nil => cases hl
    case cons result results =>
      have ⟨hn, hns⟩ := forall_mem_cons.mp hn
      have ⟨hq, hqs⟩ := forall_mem_cons.mp hq
      have ⟨jobs, hj, hjp, hjv⟩ := hi hns hqs (Nat.succ.inj hl)
      have ⟨own, ho, hown⟩ := batchItemCompletionPayload_isJson env hp hq
      refine ⟨{ runId := item.runId, payload := own, result } :: jobs, ?_, ?_, ?_⟩
      · refine bind_eq_ok.mpr ⟨_, jobItem_batchEntry hn ho, bind_eq_ok.mpr ⟨jobs, hj, rfl⟩⟩
      · exact forall_mem_cons.mpr ⟨hown, hjp⟩
      · rw [forall_mem_cons, hjv, List.forall₂_cons]
        refine and_congr_left' ⟨fun hv => ⟨own, ho, hv⟩, ?_⟩
        rintro ⟨own', ho', hv⟩
        obtain rfl := Except.ok.inj (ho.symm.trans ho')
        exact hv

theorem persistDecision_builds_iff (hp : (Value.dict j.payload).IsJson)
    (hv : validateFanoutHandoff env j.payload j.result = .ok ()) :
    Builds (persistDecision env j) ↔ Builds (shouldPersistRunStatusAfterExecute env j.payload j.result) := by
  constructor
  case mp =>
    rintro ⟨_, h⟩
    have ⟨b, hb, _⟩ := bind_eq_ok.mp h
    exact ⟨b, hb⟩
  case mpr =>
    rintro ⟨b, hb⟩
    have ⟨c, hc, _⟩ := bind_eq_ok.mp hv
    have hs : Gives (fun _ => True) (isSuccessStatus env (status j.result)) := ⟨c, hc, trivial⟩
    have hm : Gives (fun _ => True) (shouldMarkPublicationSkippedAfterExecuteFailure env j.payload j.result) :=
      hs.bind fun _ _ => .ite (.pure trivial)
        (.ite (.pure trivial) ((nextPluginStage_isJson hp).bind fun _ _ => .pure trivial))
    have hw : Gives (fun _ => True) (shouldPersistRunStatusAfterExecute env j.payload j.result) := ⟨b, hb, trivial⟩
    have hd : Gives (fun _ => True) (persistDecision env j) :=
      hw.bind fun _ _ => .ite (hm.bind fun _ _ => .pure trivial) (.pure trivial)
    exact hd.imp fun _ h => h.left

theorem persistAll_eq_ok_iff : (persistAll env jobs).2 = .ok () ↔ ∀ j ∈ jobs, Builds (persistDecision env j) := by
  induction jobs
  case nil => simp [persistAll]
  case cons j jobs hi =>
    rw [forall_mem_cons, ← hi, persistAll, Builds]
    split
    case h_1 he => simp [he]
    case h_2 hd | h_3 hd => simp [hd]

end Entries

section Response

variable {payload batchInfo response : Dict} {items : List BatchItem} {results : List Dict} {runId : String}

theorem accepted_iff (hs : Shape batchInfo items results response) (hp : (Value.dict payload).IsJson)
    (hn : ∀ item ∈ items, Named item) (hq : ∀ item ∈ items, PlainItem item) (hl : items.length = results.length) :
    Accepted env runId payload response ↔ List.Forall₂ (Handed env payload) items results := by
  have hv : validateFanoutHandoff env payload response = .ok () := by
    have ht : IsText (status response) := by
      obtain ⟨s, hs⟩ := hs.status
      rw [status, Dict.getD]
      cases hg : response.get "status"
      case none => exact ⟨_, rfl⟩
      case some v => exact ⟨s, by simpa [Dict.entry, Dict.getD, hg] using hs⟩
    have hf : fanoutItems response = .none := by
      rw [fanoutItems, hs.updates]
    obtain ⟨b, hb, _⟩ : Gives (fun _ => True) (isSuccessStatus env (status response)) := by
      refine (stripped_isJson env ht.isJson _).bind fun v _ => ?_
      split <;> exact .pure trivial
    rw [validateFanoutHandoff, hb, hf]
    cases b <;> rfl
  obtain ⟨jobs, hj, hjp, hjv⟩ := jobItems_zipWith env batchInfo hp hn hq hl
  rw [Accepted, ← hjv]
  simp only [checkedItems, hs.entries, bind_eq_ok, pure_eq_ok]
  constructor
  case mp =>
    rintro ⟨_, ⟨⟨⟩, -, _, hj', ⟨⟩, hf, ⟨⟩⟩, hw⟩
    obtain rfl := Except.ok.inj (hj.symm.trans hj')
    have hf := Except.forM_eq_ok.mp hf
    have hw := persistAll_eq_ok_iff.mp hw
    exact fun j hj => ⟨hf j hj, (persistDecision_builds_iff (hjp j hj) (hf j hj)).mp (hw j hj)⟩
  case mpr =>
    intro hf
    have hw : ∀ j ∈ jobs, Builds (persistDecision env j) :=
      fun j hj => (persistDecision_builds_iff (hjp j hj) (hf j hj).left).mpr (hf j hj).right
    refine ⟨jobs, ⟨(), hv, jobs, hj, (), ?_, rfl⟩, persistAll_eq_ok_iff.mpr hw⟩
    exact Except.forM_eq_ok.mpr fun j hj => (hf j hj).left

theorem get_response (h : .str key ∉ responseKeys) :
    (Inference.response runId response).get key = response.get key := by
  have hn : Dict.get (ownFields runId response) key = none := by
    simp only [responseKeys, mem_cons, not_or] at h
    simp [ownFields, Dict.get_cons, Ne.symm h.1, Ne.symm h.2.1, Ne.symm h.2.2.1, Ne.symm h.2.2.2.1, Ne.symm h.2.2.2.2.1]
  rw [Inference.response, Dict.get_append, hn, Option.none_or]
  exact Dict.get_filter fun _ => by simpa using h

theorem batchEntries_response : batchEntries (Inference.response runId response) = batchEntries response := by
  rw [batchEntries, get_response (by decide), batchEntries]

theorem sendsRelease_response (hs : Shape batchInfo items results response) :
    SendsRelease (Inference.response runId response) := by
  obtain ⟨s, hst⟩ := hs.status
  have hp : (Inference.response runId response).entry "parent_run_id" = response.entry "parent_run_id" := by
    rw [Dict.entry, Dict.getD, get_response (by decide)]
    rfl
  refine ⟨?_, ?_⟩
  · show (status response).encodes
    rw [status, Dict.getD]
    cases hg : response.get "status"
    case none => rfl
    case some v =>
      have hv : v = .str s := by simpa [Dict.entry, Dict.getD, hg] using hst
      rw [Option.getD_some, hv]
      rfl
  · rw [hp]
    obtain hn | ⟨t, ht⟩ := hs.parent
    case inl => exact ⟨false, by rw [hn]; rfl, fun h => (by cases h)⟩
    case inr => exact ⟨_, by rw [ht]; rfl, fun _ => by rw [ht]; rfl⟩

theorem sendsPrimaries_response (hs : Shape batchInfo items results response) (hn : ∀ item ∈ items, Named item)
    (hi : (Value.dict batchInfo).copyError = none) (hl : items.length = results.length) :
    SendsPrimaries env payload (Inference.response runId response) ↔
      List.Forall₂ (Forwards env payload batchInfo) items results := by
  simp only [SendsPrimaries, batchEntries_response, hs.entries]
  clear hs
  induction items generalizing results
  case nil =>
    obtain rfl := length_eq_zero_iff.mp hl.symm
    exact iff_of_true (by simp) .nil
  case cons item items ih =>
    cases results
    case nil => cases hl
    case cons result results =>
      obtain ⟨hn, hns⟩ := forall_mem_cons.mp hn
      rw [zipWith_cons_cons, forall_mem_cons, List.forall₂_cons]
      refine and_congr ?_ (ih hns (Nat.succ.inj hl))
      rw [countEntry_batchEntry hn]
      constructor
      case mp =>
        rintro ⟨_, hc, h⟩
        cases hc
        exact (h _ rfl).sends
      case mpr =>
        intro h
        refine ⟨_, rfl, fun c hc => ?_⟩
        cases hc
        refine ⟨?_, hn.imp fun r h => h.left, h⟩
        rintro _ ⟨⟩
        exact hi

end Response

section Sent

variable {payload result batchInfo : Dict} {entries : List (M Sent)} {items : List BatchItem} {results : List Dict}

theorem streamEntry_runId (h : streamEntry env stream payload stage runId = .ok e) : runId = .str e.runId := by
  rw [streamEntry] at h
  split at h
  case isTrue => cases h
  case isFalse =>
    simp only [bind_eq_ok, pure_eq_ok] at h
    obtain ⟨_, -, _, -, r, hr, rfl⟩ := h
    cases runId <;> cases hr
    rfl

theorem forall₂_sendEach (h : (sendEach entries).2) :
    List.Forall₂ (fun x e => x = .ok e) entries (sendEach entries).1 :=
  Except.mapM_eq_ok.mp (mapM_eq_ok.mpr ⟨h, rfl⟩)

theorem sendEach_completion (hc : completionEntries env device streamName payload result = .ok entries)
    (hs : (sendEach entries).2) :
    ∃ outputs primaries release, primaryOutputs env streamName payload result (result.entry "run_id") = .ok outputs ∧
      (sendEach entries).1 = primaries ++ [release] ∧ outputs.map (·.2) = primaries.map (.str ·.runId) := by
  simp only [completionEntries, bind_eq_ok, pure_eq_ok] at hc
  obtain ⟨resource, -, parent, -, outputs, ho, rfl⟩ := hc
  -- the last entry is the release, and the others are those of the outputs
  have hf := (forall₂_sendEach hs).flip
  generalize (sendEach _).1 = sent at hf
  have ht := List.forall₂_take_append _ _ _ hf
  have hd := List.forall₂_drop_append _ _ _ hf
  rw [length_map] at ht hd
  have ⟨release, _, _, hn, hr⟩ := List.forall₂_cons_right_iff.mp hd
  obtain rfl := List.forall₂_nil_right_iff.mp hn
  refine ⟨outputs, sent.take outputs.length, release, ho, ?_, ?_⟩
  · rw [← hr, take_append_drop]
  · rw [List.forall₂_map_right_iff] at ht
    have ht := ht.flip.imp fun x e (h : streamEntry env _ _ _ _ = .ok e) => streamEntry_runId h
    rw [← List.forall₂_eq_eq_eq, List.forall₂_map_left_iff, List.forall₂_map_right_iff]
    exact ht

theorem kept_complete (hj : decodePayloadObject job.payload = payload) :
    Kept job runIds (complete env mode device job result) ↔
      ∃ (entries : List (M Sent)) (outputs : List (Primary × Value)) (sent : List String),
        completionEntries env device job.stream payload result = .ok entries ∧ (∀ x ∈ entries, Builds x) ∧
        primaryOutputs env job.stream payload result (result.entry "run_id") = .ok outputs ∧
        outputs.map (·.2) = sent.map .str ∧ ∀ runId ∈ runIds, sent.count runId = 1 := by
  obtain ⟨entries, hc, hs, he⟩ | ⟨hn, hm⟩ := complete_cases env mode device result hj
  case inr =>
    refine iff_of_false ?_ ?_
    · rintro ⟨primaries, release, hk, -⟩
      exact hm (by simp [hk])
    · rintro ⟨entries, _, _, hc, hb, -⟩
      exact hn entries hc (sendEach_completed.mpr hb)
  case inl =>
    have ⟨outputs, primaries, release, ho, hp, hr⟩ := sendEach_completion hc hs
    have hr : outputs.map (·.2) = (primaries.map (·.runId)).map .str := by rw [hr, map_map]; rfl
    rw [he, hp]
    constructor
    case mp =>
      rintro ⟨primaries', release', hk, hcount⟩
      have hx : (primaries ++ [release]).map Command.xadd = (primaries' ++ [release']).map .xadd := by
        refine append_inj_left' (hk.trans ?_) rfl
        simp
      have hx := map_injective_iff.mpr (fun _ _ h => Command.xadd.inj h) hx
      obtain ⟨rfl, -⟩ := append_inj' hx rfl
      exact ⟨entries, outputs, _, hc, sendEach_completed.mp hs, ho, hr, hcount⟩
    case mpr =>
      rintro ⟨entries', outputs', sent, hc', -, ho', hr', hcount⟩
      obtain rfl := Except.ok.inj (ho.symm.trans ho')
      have hx : primaries.map (·.runId) = sent :=
        map_injective_iff.mpr (fun _ _ h => Value.str.inj h) (hr.symm.trans hr')
      exact ⟨primaries, release, by simp, hx ▸ hcount⟩

theorem buildBatchPrimaryOutputs_runIds (hn : ∀ item ∈ items, Named item) (hl : items.length = results.length)
    (h : buildBatchPrimaryOutputs env streamName payload (List.zipWith (batchEntry · batchInfo ·) items results) =
      .ok outputs) :
    outputs.map (·.2) = items.map (·.runId) := by
  induction items generalizing results outputs
  case nil =>
    cases h
    rfl
  case cons item items ih =>
    cases results
    case nil => cases hl
    case cons result results =>
      obtain ⟨hn, hns⟩ := forall_mem_cons.mp hn
      rw [zipWith_cons_cons, buildBatchPrimaryOutputs, countEntry_batchEntry hn] at h
      obtain ⟨_, he, h⟩ := bind_eq_ok.mp h
      cases he
      simp only [bind_eq_ok, pure_eq_ok] at h
      obtain ⟨p, -, rest, hr, rfl⟩ := h
      rw [map_cons, map_cons, ih hns (Nat.succ.inj hl) hr]

theorem executor_eq_ok {response : Dict} (hi : payload.get "items" = some (.list xs)) :
    executor env ex job payload = .ok response ↔ truth (payload.entry "workflow_id") = .ok true ∧
      ∃ workflow, workflowText env payload = .ok workflow ∧
        executePluginBatchWorkflow env ex.batch (workflow.asStr.getD "") (.str job.runId) payload = .ok response := by
  simp only [executor, execute, bind_eq_ok, hi]
  constructor
  case mp =>
    rintro ⟨workflow, hw, b, hb, h⟩
    cases b
    case false => cases h
    case true => exact ⟨hb, workflow, hw, h⟩
  case mpr =>
    rintro ⟨hb, workflow, hw, h⟩
    exact ⟨workflow, hw, true, hb, h⟩

end Sent

theorem normalizeBatchInfo_isJson {payload : Dict} (hp : (Value.dict payload).IsJson) :
    (Value.dict (normalizeBatchInfo (.str runId) payload n)).IsJson := by
  unfold normalizeBatchInfo
  split
  case h_1 hg => exact ((hp.get hg).setDefault Value.isJson_str).setDefault ⟨.int n, rfl⟩
  case h_2 => exact (isJson_nil.setDefault Value.isJson_str).setDefault ⟨.int n, rfl⟩

theorem copyError_of_isJson {v : Value} (h : v.IsJson) : v.copyError = none := by
  obtain ⟨j, rfl⟩ := h
  exact Value.copyError_ofJson j

section Ids

variable {items : List BatchItem} {sent : List String}

theorem kept_ids (hi : List.Forall₂ IsItem members items) (hs : items.map (·.runId) = sent.map .str) :
    ∀ r ∈ sent, r ≠ "" ∧ trimText r = r := by
  intro r hr
  have hm : .str r ∈ items.map (·.runId) := hs ▸ mem_map_of_mem hr
  have ⟨item, hx, hr⟩ := mem_map.mp hm
  have ⟨m, _, h⟩ := hi.exists_of_mem_right hx
  have ⟨r', hr', hn⟩ := h.named
  obtain rfl : r' = r := Value.str.inj (hr'.symm.trans hr)
  exact hn

theorem ids_eq (hi : List.Forall₂ IsItem members items) (hs : items.map (·.runId) = sent.map .str)
    (hm : ∀ runId ∈ members.map (·.1), runId ≠ "" ∧ trimText runId = runId) : sent = members.map (·.1) := by
  refine map_injective_iff.mpr (fun _ _ h => Value.str.inj h) (hs.symm.trans ?_)
  clear hs
  induction hi
  case nil => rfl
  case cons m item _ _ h _ ih =>
    have ⟨hm, hms⟩ := forall_mem_cons.mp hm
    have ⟨r, hr, _, _, he⟩ := h.runId
    rw [map_cons, ih hms, hr, he hm.left, hm.right]
    rfl

theorem distinct_iff (hi : List.Forall₂ IsItem members items) (hs : items.map (·.runId) = sent.map .str) :
    (∀ runId ∈ members.map (·.1), sent.count runId = 1) ↔ Distinct (members.map (·.1)) := by
  constructor
  case mp =>
    intro h
    have hm : ∀ runId ∈ members.map (·.1), runId ≠ "" ∧ trimText runId = runId :=
      fun r hr => kept_ids hi hs r (count_pos_iff.mp (by rw [h r hr]; exact Nat.one_pos))
    obtain rfl := ids_eq hi hs hm
    exact ⟨nodup_iff_count_eq_one.mpr h, hm⟩
  case mpr =>
    rintro ⟨hd, hm⟩
    obtain rfl := ids_eq hi hs hm
    exact nodup_iff_count_eq_one.mp hd

end Ids

section Message

variable {payload response : Dict} {items : List BatchItem} {results : List Dict} {resource : Int × Int}

theorem workflowText_isText (hd : (Value.dict payload).IsJson) (h : workflowText env payload = .ok v) :
    ∃ workflow, v = .str workflow := by
  have ht : Gives IsText (workflowText env payload) :=
    Gives.bind ((orElse_isJson hd.entry hd.entry).bind fun _ hv => orElse_isJson hv Value.isJson_str)
      fun _ hv => str_isJson env hv
  have ⟨_, hx, ht⟩ := ht
  obtain rfl := Except.ok.inj (hx.symm.trans h)
  exact ht

theorem kept_response (hd : (Value.dict payload).IsJson) (hj : decodePayloadObject job.payload = payload)
    (hr : extractResourceInfo device payload = .ok resource) (hi : List.Forall₂ IsItem members items)
    (hs : Shape (normalizeBatchInfo (.str job.runId) payload items.length) items results response)
    (hl : items.length = results.length) :
    Kept job (members.map (·.1)) (complete env mode device job (Inference.response job.runId response)) ↔
      Distinct (members.map (·.1)) ∧
        List.Forall₂
          (Forwards env payload (normalizeBatchInfo (.str job.runId) payload items.length)) items results := by
  have hn := named_of_isItem hi
  have hb : (∃ entries, completionEntries env device job.stream payload (Inference.response job.runId response) =
      .ok entries ∧ ∀ x ∈ entries, Builds x) ↔ _ := completionEntries_builds env hd hr rfl
  have hp : SendsPrimaries env payload (Inference.response job.runId response) ↔ _ :=
    sendsPrimaries_response hs hn (copyError_of_isJson (normalizeBatchInfo_isJson hd)) hl
  have hids {outputs : List (Primary × Value)} (h : primaryOutputs env job.stream payload
      (Inference.response job.runId response) (.str job.runId) = .ok outputs) :
      outputs.map (·.2) = items.map (·.runId) := by
    rw [primaryOutputs, batchEntries_response, hs.entries] at h
    exact buildBatchPrimaryOutputs_runIds hn hl h
  rw [kept_complete hj, ← hp]
  constructor
  case mp =>
    rintro ⟨entries, outputs, sent, hc, hx, ho, hsent, hcount⟩
    exact ⟨(distinct_iff hi ((hids ho).symm.trans hsent)).mp hcount, (hb.mp ⟨entries, hc, hx⟩).left⟩
  case mpr =>
    rintro ⟨hdist, hsend⟩
    obtain ⟨entries, hc, hx⟩ := hb.mpr ⟨hsend, sendsRelease_response hs⟩
    obtain ⟨outputs, primaries, _, ho, _, hsent⟩ := sendEach_completion hc (sendEach_completed.mpr hx)
    have hsent : outputs.map (·.2) = (primaries.map (·.runId)).map .str := by rw [hsent, map_map]; rfl
    exact ⟨entries, outputs, _, hc, hx, ho, hsent, (distinct_iff hi ((hids ho).symm.trans hsent)).mpr hdist⟩

-- A response for the batch as a whole has no output for a member.
theorem not_kept_failedResponse (hb : DispatchedBatch job members)
    (hj : decodePayloadObject job.payload = payload) :
    ¬Kept job (members.map (·.1)) (complete env mode device job (failedResponse job.runId text)) := by
  intro hk
  have ⟨entries, outputs, sent, _, _, ho, hsent, hcount⟩ := (kept_complete hj).mp hk
  have ⟨primary, _, ho⟩ := bind_eq_ok.mp ho
  obtain rfl := Except.ok.inj ho
  have ⟨m, hm⟩ := exists_mem_of_ne_nil _ hb.nonempty
  have hc := hcount m.1 (mem_map_of_mem hm)
  obtain rfl : [job.runId] = sent := map_injective_iff.mpr (fun _ _ h => Value.str.inj h) hsent
  have hm' : m.1 ∈ [job.runId] := count_pos_iff.mp (by rw [hc]; exact Nat.one_pos)
  exact hb.fresh (mem_singleton.mp hm' ▸ mem_map_of_mem hm)

end Message

theorem kept_iff (hb : DispatchedBatch job members) :
    Kept job (members.map (·.1)) (processMessage env mode device (executor env ex job) job) ↔
      Distinct (members.map (·.1)) ∧ Handled env ex job (decodePayloadObject job.payload) := by
  obtain ⟨payload, resource, hd, hp, hj, hr⟩ := hb.dispatched.plain device
  have hi := hb.rawItems hj
  rw [hj]
  simp only [processMessage, hp]
  constructor
  case mp =>
    intro hk
    by_cases hf : executor env ex job payload = .error .fatal
    case pos =>
      rw [hf, processJob_fatal] at hk
      obtain ⟨primaries, release, hk, -⟩ := hk
      simp at hk
    by_cases ha : ∃ response, executor env ex job payload = .ok response ∧ Accepted env job.runId payload response
    case neg =>
      obtain ⟨text, ht⟩ := processJob_failed hf fun response ho h => ha ⟨response, ho, h⟩
      rw [ht] at hk
      exact absurd hk (not_kept_failedResponse hb hj)
    case pos =>
      obtain ⟨response, ho, ha⟩ := ha
      rw [ho, processJob_accepted ha] at hk
      obtain ⟨hw, v, hv, hx⟩ := (executor_eq_ok hi).mp ho
      obtain ⟨workflow, rfl⟩ := workflowText_isText hd hv
      obtain ⟨items, results, hran, hs⟩ := Ran.of_execute env hx
      have hit := hran.isItem hb.nonempty hi
      obtain ⟨hdist, hsend⟩ := (kept_response hd hj hr hit hs hran.length_eq).mp hk
      have hh := (accepted_iff hs hd (named_of_isItem hit) (plain_of_isItem hit) hran.length_eq).mp ha
      exact ⟨hdist, hw, workflow, items, results, hv, hran, fine_iff.mpr ⟨hh, hsend⟩⟩
  case mpr =>
    rintro ⟨hdist, hw, workflow, items, results, ht, hran, hfine⟩
    obtain ⟨response, hx, hs⟩ := hran.execute
    have hit := hran.isItem hb.nonempty hi
    have ho : executor env ex job payload = .ok response := (executor_eq_ok hi).mpr ⟨hw, _, ht, hx⟩
    obtain ⟨hh, hsend⟩ := fine_iff.mp hfine
    have ha : Accepted env job.runId payload response :=
      (accepted_iff hs hd (named_of_isItem hit) (plain_of_isItem hit) hran.length_eq).mpr hh
    rw [ho, processJob_accepted ha]
    exact (kept_response hd hj hr hit hs hran.length_eq).mpr ⟨hdist, hsend⟩

end Kept

section Sample

open Scheduler

-- A batch of two requests that go from the scheduler to the worker and from there to the results.
def sampleContext : Json :=
  .object [("current_stage_id", .str "schedule"), ("current_phase", .str "schedule"), ("pipeline", .arr [
    StageDescriptor.encode { id := "schedule", phase := "schedule", queue := "schedule", next := some "execute" },
    StageDescriptor.encode { id := "execute", phase := "execute", queue := "gpu", next := some "results" },
    StageDescriptor.encode { id := "results", phase := "results", queue := "results", next := none }])]

def sampleRequest : Json :=
  .object [("workflow_id", .str "weather"), ("stage_context", sampleContext)]

def samplePolicy : BatchPolicy where
  batchKey := "default"
  maxBatchSize := 2
  maxWaitMs := 0
  sharedMemoryMb := none
  incrementalMemoryMb := none
  baseResourceProfile := { gpusRequired := some 1, memoryMb := some 1, executorClass := some "gpu" }
  singleRequestMemoryMb := 1

def sampleCandidate (runId : String) : BatchCandidate where
  policy := samplePolicy
  queued := {
    msg := { id := runId, stream := "schedule", group := "scheduler", runId, payload := .encode sampleRequest,
                    stage := "schedule" }
    payload := { runId, workflow := "weather", rawPayload := sampleRequest, memoryMb := 1 }
    enqueuedAt := 0
  }

def sampleCandidates : List BatchCandidate :=
  [sampleCandidate "a", sampleCandidate "b"]

def sampleBatch : SchedulePayload where
  runId := "batch"
  workflow := "weather"
  memoryMb := 2
  rawPayload := .obj (copyField sampleRequest "fanout_profile" (copyField sampleRequest "parent_run_id" (Json.literal
    (batchPayloadFields "batch" (sampleCandidate "a") sampleCandidates samplePolicy .maxBatchSize 0 0 sampleContext
      (.object [])))))

def sampleJob : Job where
  msgId := "1-0"
  stream := "gpu"
  runId := "batch"
  payload := .encode (dispatchPayload sampleBatch { streamName := "gpu", resourceId := 0 })
  msgId_ne := by simp

theorem sampleJob_dispatched : ∃ members, DispatchedBatch sampleJob members ∧
    members.map (·.1) = sampleCandidates.map (·.queued.msg.runId) :=
  dispatchedBatch_of_candidates (by decide) (by decide) rfl rfl

-- Each of the two hooks returns an empty result.
def sampleExecution : Execution :=
  plainExecution (.returned (.dict []))

def sampleCommands : List Command :=
  processMessage plainEnv .sync plainDevice (executor plainEnv sampleExecution sampleJob) sampleJob

def sampleSent : List Sent :=
  sampleCommands.filterMap fun
    | .xadd e => some e
    | .xack _ => none

theorem sampleCommands_kept : Kept sampleJob ["a", "b"] sampleCommands := by
  have hn : sampleSent ≠ [] := by decide +kernel
  refine ⟨sampleSent.take 2, sampleSent.getLast hn, ?_, ?_⟩
  · rfl
  · decide +kernel

theorem handled_of_empty_results :
    Distinct ["a", "b"] ∧ Handled plainEnv sampleExecution sampleJob (decodePayloadObject sampleJob.payload) := by
  have ⟨members, hb, hm⟩ := sampleJob_dispatched
  have hm : members.map (·.1) = ["a", "b"] := hm
  rw [← hm]
  exact (kept_iff hb).mp (hm ▸ sampleCommands_kept)

-- Without the manifest there is one output, for the batch.
theorem not_kept_of_load_error : ∃ members, DispatchedBatch sampleJob members ∧ members.map (·.1) = ["a", "b"] ∧
    ∀ mode, ¬Kept sampleJob (members.map (·.1)) (processMessage plainEnv mode plainDevice (executor plainEnv
      { sampleExecution with batch.load := .error (.error "unknown plugin") } sampleJob) sampleJob) := by
  have ⟨members, hb, hm⟩ := sampleJob_dispatched
  exact ⟨members, hb, hm, fun mode => not_kept_failedResponse hb rfl⟩

end Sample

end Inference
