import ServeModel.Lib.Checks
import ServeModel.Scheduler.Fanout

-- What the children of an accepted fanout parent carry.
namespace Scheduler

open List hiding count

open Json

section Child

variable {parent item : Fields} {key : String}

theorem field_overrideField (h : key ≠ k) : field key (overrideField item k parent) = field key parent := by
  unfold overrideField
  split
  case h_1 => exact field_setField_of_ne h
  case h_2 => rfl

-- The item as a child carries it: with an index of its own, or else with its position.
def indexedItem (index : Nat) (item : Fields) : Fields :=
  if (field "item_index" item).isSome then item else setField "item_index" (.nat index) item

theorem field_indexedItem :
    field "item_index" (indexedItem index item) = some ((field "item_index" item).getD (.nat index)) := by
  unfold indexedItem
  split
  case isTrue h =>
    have ⟨_, h⟩ := Option.isSome_iff_exists.mp h
    simp [h]
  case isFalse h =>
    have h := Option.not_isSome_iff_eq_none.mp h
    simp [h]

theorem childRunId_eq : childRunId runId index = (runId ++ ":item:") ++ index.repr := rfl

theorem childRunId_stem_not_blank (runId : String) : ¬Text.isBlank (runId ++ ":item:") := by
  have h : Text.isWhitespace ':' = false := by decide
  simp [Text.isBlank, h]

theorem childRunId_not_blank : ¬Text.isBlank (childRunId runId index) := by
  intro h
  apply childRunId_stem_not_blank runId
  simp only [Text.isBlank, childRunId_eq, String.toList_append, all_append] at h ⊢
  exact (Bool.and_eq_true_iff.mp h).left

theorem isWhitespace_of_isDigit (h : c.isDigit) : ¬Text.isWhitespace c := by
  simp only [Char.isDigit, Bool.and_eq_true, decide_eq_true_eq] at h
  have hl : 48 ≤ c.toNat := UInt32.le_iff_toNat_le.mp h.left
  have hu : c.toNat ≤ 57 := UInt32.le_iff_toNat_le.mp h.right
  simp only [Text.isWhitespace, Bool.or_eq_true, Bool.and_eq_true, decide_eq_true_eq, beq_iff_eq]
  omega

-- Children are told apart by their position, even after their run ids have been trimmed.
theorem trim_childRunId_inj (h : Text.trim (childRunId runId i) = Text.trim (childRunId runId j)) : i = j := by
  have hv (n : Nat) : ∀ c ∈ n.repr.toList, ¬Text.isWhitespace c := by
    intro c hc
    rw [Nat.toList_repr] at hc
    exact isWhitespace_of_isDigit (Nat.isDigit_of_mem_toDigits (by decide) (by decide) hc)
  have hn (n : Nat) : n.repr ≠ "" := by
    intro hn
    have := congrArg String.toList hn
    rw [Nat.toList_repr] at this
    exact Nat.toDigits_ne_nil this
  have h := congrArg String.toList h
  rw [childRunId_eq, childRunId_eq, Text.toList_trim_append (childRunId_stem_not_blank _) (hn i) (hv i),
    Text.toList_trim_append (childRunId_stem_not_blank _) (hn j) (hv j)] at h
  exact Text.repr_inj (String.toList_inj.mp (append_cancel_left h))

-- The fields in which a child differs from its parent.
def childKeys : List String :=
  ["operation", "parameters", "resource_profile", "run_id", "parent_run_id", "fanout_item"]

structure IsChild (parent : Fields) (runId : String) (index : Nat) (item : Json) (child : Output) : Prop where
  runId_eq : child.runId = some (childRunId runId index)
  carried : ∃ itemFields fields, item = .obj itemFields ∧ child.payload = .encode (.obj fields) ∧
    field "run_id" fields = some (.str (childRunId runId index)) ∧
    field "parent_run_id" fields = some (.str runId) ∧
    field "fanout_item" fields = some (.obj (indexedItem index itemFields)) ∧
    ∀ key, key ∉ childKeys → field key fields = field key parent

theorem buildChild_ok {item : Json} (h : buildChild parent runId index item stream = .ok child) :
    IsChild parent runId index item child := by
  cases item
  case obj itemFields =>
    unfold buildChild at h
    dsimp only [asObject] at h
    split at h
    case h_2 => cases h
    case h_1 =>
      cases h
      refine ⟨rfl, itemFields, _, rfl, rfl, by simp, by simp, by simp [indexedItem], ?_⟩
      intro key hk
      simp only [childKeys, mem_cons, not_mem_nil, or_false, not_or] at hk
      have ⟨ho, hp, hr, hi, hn, hf⟩ := hk
      rw [field_setField_of_ne hf, field_setField_of_ne hn, field_setField_of_ne hi, field_overrideField hr,
        field_overrideField hp, field_overrideField ho]
  all_goals cases h

theorem buildChildren_built (h : buildChildren parent runId stream start items = .ok children) :
    children.length = items.length ∧ ∀ (i : Nat) child, children[i]? = some child →
      ∃ item, items[i]? = some item ∧ buildChild parent runId (start + i) item stream = .ok child := by
  induction items generalizing start children
  case nil =>
    cases h
    exact ⟨rfl, fun i child hc => (nomatch hc)⟩
  case cons item items hi =>
    have ⟨child, hb, h⟩ := Except.bind_eq_ok.mp h
    have ⟨rest, hr, h⟩ := Except.bind_eq_ok.mp h
    cases h
    have ⟨hl, hs⟩ := hi hr
    constructor
    case left => simp [hl]
    case right =>
      intro i c hc
      cases i
      case zero =>
        cases hc
        exact ⟨item, rfl, hb⟩
      case succ i =>
        have ⟨it, hit, hch⟩ := hs i c hc
        refine ⟨it, hit, ?_⟩
        rwa [show start + (i + 1) = start + 1 + i by omega]

theorem buildChildren_ok {items : List Json} (h : buildChildren parent runId stream start items = .ok children) :
    children.length = items.length ∧ ∀ (i : Nat) child, children[i]? = some child →
      ∃ item, items[i]? = some item ∧ IsChild parent runId (start + i) item child := by
  have ⟨hl, hs⟩ := buildChildren_built h
  refine ⟨hl, fun i child hc => ?_⟩
  have ⟨item, hi, hb⟩ := hs i child hc
  exact ⟨item, hi, buildChild_ok hb⟩

end Child

section Parent

variable {parent : Fields}

-- A missing profile is an empty one.
def fanoutProfile (parent : Fields) : Fields :=
  ((field "fanout_profile" parent).bind asObject).getD []

theorem setItemCount_ok (h : setItemCount count parent = .ok parent') :
    parent' = setField "fanout_profile" (.obj (setField "item_count" (.nat count) (fanoutProfile parent))) parent := by
  unfold setItemCount at h
  dsimp only at h
  split at h
  case h_2 => cases h
  case h_1 profile hp =>
    have he : fanoutProfile parent = profile := by
      unfold fanoutProfile
      cases hf : field "fanout_profile" parent
      case none =>
        rw [hf] at hp
        exact Option.some.inj hp
      case some value =>
        rw [hf] at hp
        cases value
        case obj | null => exact Option.some.inj hp
        all_goals cases hp
    rw [he]
    split at h
    case h_2 => exact (Except.ok.inj h).symm
    case h_1 =>
      split at h
      case isTrue => cases h
      case isFalse => exact (Except.ok.inj h).symm

-- A stage that is written as an object decodes where its three required fields do, and `next` if it is there.
theorem decode_stage_obj :
    (StageDescriptor.decode (.obj fs)).isSome ↔ (∃ id, field "id" fs = some (.str id)) ∧
      (∃ phase, field "phase" fs = some (.str phase)) ∧ (∃ queue, field "queue" fs = some (.str queue)) ∧
      (withDefault none (optional asStr) (field "next" fs)).isSome := by
  simp [StageDescriptor.decode, structFields, asArray, Option.isSome_iff_exists, guard, Option.bind_eq_some_iff,
    required_asStr_eq_some]

theorem decode_redirectStage (h : (StageDescriptor.decode stage).isSome) :
    (StageDescriptor.decode (redirectStage executeId stage)).isSome := by
  cases stage
  case obj fs =>
    unfold redirectStage
    split_ifs
    case neg => exact h
    case pos =>
      have ⟨hi, hp, hq, _⟩ := decode_stage_obj.mp h
      apply decode_stage_obj.mpr
      simp [hi, hp, hq, withDefault, Json.optional, asStr]
  all_goals exact h

theorem decode_encode_stage (stage : StageDescriptor) : (StageDescriptor.decode stage.encode).isSome := by
  apply decode_stage_obj.mpr
  cases stage.next <;> simp [withDefault, Json.optional, asStr, ofOption, literal]

theorem isSome_mapM {f : α → Option β} {xs : List α} : (xs.mapM f).isSome ↔ ∀ x ∈ xs, (f x).isSome := by
  induction xs
  case nil => simp
  case cons x xs hi =>
    rw [forall_mem_cons, ← hi, mapM_cons]
    cases f x <;> cases xs.mapM f <;> simp

-- A raw pipeline that decodes and ends in the gather stage.
structure Spliced (context : Fields) (pipeline : List Json) : Prop where
  listed : field "pipeline" context = some (.arr pipeline)
  decodes : ∀ stage ∈ pipeline, (StageDescriptor.decode stage).isSome
  gathers : pipeline.any (stageHas "id" gatherStageId)

theorem decode_context_obj :
    StageContext.decode (.obj fs) = some context ↔
      field "current_stage_id" fs = some (.str context.currentStageId) ∧
      field "current_phase" fs = some (.str context.currentPhase) ∧
      ∃ stages, field "pipeline" fs = some (.arr stages) ∧
        stages.mapM StageDescriptor.decode = some context.pipeline := by
  have ⟨id, phase, pipeline⟩ := context
  simp [StageContext.decode, structFields, Option.bind_eq_some_iff, required_asStr_eq_some, required_list_eq_some]

theorem rawPipeline_eq_some (h : rawPipeline parent = some (context, pipeline)) :
    field "stage_context" parent = some (.obj context) ∧ field "pipeline" context = some (.arr pipeline) := by
  simp only [rawPipeline, Option.bind_eq_bind, Option.bind_eq_some_iff] at h
  have ⟨_, ⟨raw, hr, hc⟩, _, ⟨list, hl, ha⟩, he⟩ := h
  cases he
  cases raw <;> cases hc
  cases list <;> cases ha
  exact ⟨hr, hl⟩

-- What a successful call has found in the parent, and what it has made of it.
theorem spliceGatherStage_eq_ok (h : spliceGatherStage parent = .ok (gather, parent')) :
    ∃ raw raws context execute, field "stage_context" parent = some (.obj raw) ∧
      field "pipeline" raw = some (.arr raws) ∧ StageContext.decode (.obj raw) = some context ∧
      context.find gatherStageId = none ∧ context.nextStage "scheduler" = .ok execute ∧
      gather = { id := gatherStageId, phase := gatherPhase, queue := gatherQueue, next := execute.next } ∧
      parent' = setField "stage_context" (.obj (setField "pipeline"
        (.arr (raws.map (redirectStage execute.id) ++ [gather.encode])) raw)) parent := by
  unfold spliceGatherStage at h
  split at h
  case h_2 => cases h
  case h_1 rawContext hr =>
  split at h
  case h_2 => cases h
  case h_1 context hd =>
  have ⟨hg, h⟩ := Except.ite_throw_eq_ok.mp h
  have ⟨execute, hx, h⟩ := Except.bind_eq_ok.mp h
  have ⟨_, h⟩ := Except.ite_throw_eq_ok.mp h
  dsimp only at h
  split at h
  case h_2 => cases h
  case h_1 after ha =>
  split at h
  case h_2 => cases h
  case h_1 raw raws hp =>
  cases h
  have ⟨hc, hl⟩ := rawPipeline_eq_some hp
  cases hr.symm.trans hc
  have ⟨next, hn, hf⟩ := Option.bind_eq_some_iff.mp (Option.filter_eq_some_iff.mp ha).1
  refine ⟨raw, raws, context, execute, hc, hl, hd, by simpa [StageContext.find] using hg, hx, ?_, rfl⟩
  rw [hn, StageContext.find_id hf]

theorem spliceGatherStage_ok (h : spliceGatherStage parent = .ok (gather, parent')) :
    ∃ context pipeline, parent' = setField "stage_context" (.obj context) parent ∧ Spliced context pipeline := by
  obtain ⟨raw, raws, _, _, _, hl, hd, _, _, hg, rfl⟩ := spliceGatherStage_eq_ok h
  have ⟨_, _, stages, hs, hm⟩ := decode_context_obj.mp hd
  cases hl.symm.trans hs
  have hdec := isSome_mapM.mp (Option.isSome_iff_exists.mpr ⟨_, hm⟩)
  refine ⟨_, _, rfl, field_setField_self, ?_, ?_⟩
  · intro stage hmem
    cases mem_append.mp hmem
    case inl hmem =>
      have ⟨old, ho, he⟩ := mem_map.mp hmem
      exact he ▸ decode_redirectStage (hdec old ho)
    case inr hmem =>
      cases mem_singleton.mp hmem
      exact decode_encode_stage _
  · simp [hg, stageHas, StageDescriptor.encode, Json.object, literal, asStr]

-- The payload that the children of a fanout parent and its group start from.
structure IsParent (payload : Fields) (count : Nat) (parent : Fields) : Prop where
  workflow : ∃ workflowId, field "workflow_id" parent = some (.str workflowId) ∧ ¬Text.isBlank workflowId
  profile : field "fanout_profile" parent = some (.obj (setField "item_count" (.nat count) (fanoutProfile payload)))
  context : ∃ context pipeline, field "stage_context" parent = some (.obj context) ∧ Spliced context pipeline

end Parent

section Plan

variable {payload : Json}

-- The children of a plan are those of the items, in order.
structure Plan (payload : Fields) (runId : String) (items : List Json) (group : Collect.CollectGroup)
    (children : List Output) : Prop where
  listed : field "fanout_items" payload = some (.arr items)
  parent : group.parentRunId = runId
  expected : group.expectedCount = items.length
  empty : group.results = []
  length : children.length = items.length
  children : ∃ parent, IsParent payload items.length parent ∧ ∀ (i : Nat) child, children[i]? = some child →
    ∃ item, items[i]? = some item ∧ IsChild parent runId i item child

theorem Plan.exists_child {payload : Fields} (plan : Plan payload runId items group cs)
    {i : Nat} (h : items[i]? = some item) : ∃ child, cs[i]? = some child := by
  have ⟨hi, _⟩ := List.getElem?_eq_some_iff.mp h
  exact ⟨_, List.getElem?_eq_getElem (plan.length ▸ hi)⟩

theorem fanoutPlan_eq_ok (h : fanoutPlan runId payload stream = .ok (group, children)) :
    ∃ fields workflowId items counted gather parent collectPayload, payload = .obj fields ∧
      ((field "workflow_id" fields).bind asStr).bind Text.nonBlank = some workflowId ∧
      field "fanout_items" fields = some (.arr items) ∧
      setItemCount items.length (eraseField "result" (eraseField "fanout_items" fields)) = .ok counted ∧
      spliceGatherStage counted = .ok (gather, parent) ∧ buildChildren parent runId stream 0 items = .ok children ∧
      updateStageContext gather "scheduler" (setField "run_id" (.str runId) parent) = .ok collectPayload ∧
      group = { parentRunId := runId, workflowId, parentPayload := .obj collectPayload, expectedCount := items.length,
                results := [] } := by
  cases payload
  case obj fields =>
    unfold fanoutPlan at h
    dsimp only [asObject] at h
    split at h
    case h_2 => cases h
    case h_1 workflowId hw =>
    split at h
    case h_2 => cases h
    case h_1 items hi =>
    have ⟨counted, hc, h⟩ := Except.bind_eq_ok.mp h
    have ⟨⟨gather, parent⟩, hg, h⟩ := Except.bind_eq_ok.mp h
    have ⟨cs, hb, h⟩ := Except.bind_eq_ok.mp h
    have ⟨collectPayload, hu, h⟩ := Except.bind_eq_ok.mp h
    cases h
    exact ⟨fields, workflowId, items, counted, gather, parent, collectPayload, rfl, hw, hi, hc, hg, hb, hu, rfl⟩
  all_goals cases h

theorem fanoutPlan_ok (h : fanoutPlan runId payload stream = .ok (group, children)) :
    ∃ fields items, payload = .obj fields ∧ Plan fields runId items group children := by
  have ⟨fields, workflowId, items, counted, gather, parent, _, hf, hw, hi, hc, hg, hb, _, he⟩ := fanoutPlan_eq_ok h
  subst he
  have ⟨hl, hs⟩ := buildChildren_ok hb
  have ⟨context, pipeline, hp, hsp⟩ := spliceGatherStage_ok hg
  refine ⟨fields, items, hf, hi, rfl, rfl, rfl, hl, parent, ⟨?_, ?_, ?_⟩, ?_⟩
  · have ⟨text, ht, hn⟩ := Option.bind_eq_some_iff.mp hw
    refine ⟨text, ?_, fun hb => by simp [Text.nonBlank, hb] at hn⟩
    rw [hp, setItemCount_ok hc]
    simpa using required_asStr_eq_some.mp ht
  · rw [hp, setItemCount_ok hc]
    simp [fanoutProfile]
  · exact ⟨context, pipeline, by simp [hp], hsp⟩
  · simpa using hs

end Plan

section Accepted

variable {parent fields : Fields}

def fanoutChild (parent : Fields) (runId : String) (index : Nat) (item : Fields) : Fields :=
  setField "fanout_item" (.obj (indexedItem index item)) (setField "parent_run_id" (.str runId)
    (setField "run_id" (.str (childRunId runId index))
      (overrideField (indexedItem index item) "resource_profile" (overrideField (indexedItem index item) "parameters"
        (overrideField (indexedItem index item) "operation" parent)))))

def admits (parent : Fields) (runId : String) (index : Nat) (item : Json) : Bool :=
  item.asObject.any fun item =>
    (decodeSchedulePayload ⟨"object", some (.obj (fanoutChild parent runId index item))⟩ (childRunId runId index)).isOk

theorem buildChild_isOk : (buildChild parent runId index item stream).isOk = admits parent runId index item := by
  cases item
  case obj item =>
    simp only [admits, asObject, Option.any_some, ← decodeSchedulePayload_encode]
    unfold buildChild
    simp only [asObject]
    split
    all_goals
      rename_i hd
      rw [show decodeSchedulePayload (.encode (.obj (fanoutChild ..))) _ = _ from hd]
      rfl
  all_goals rfl

theorem buildChildren_isOk (stream : String) :
    (buildChildren parent runId stream start items).isOk =
      (items.zipIdx start).all fun entry => admits parent runId entry.2 entry.1 := by
  induction items generalizing start
  case nil => rfl
  case cons item items hi =>
    rw [zipIdx_cons, all_cons, ← hi, ← buildChild_isOk, buildChildren]
    cases buildChild parent runId start item stream
    case error => rfl
    case ok => cases buildChildren parent runId stream (start + 1) items <;> rfl

def accepts (runId : String) (payload : Fields) : Bool :=
  (((field "workflow_id" payload).bind asStr).bind Text.nonBlank).isSome &&
    match field "fanout_items" payload with
    | some (.arr items) =>
      match setItemCount items.length
        (eraseField "result" (eraseField "fanout_items" payload)) >>= spliceGatherStage with
      | .ok (_, parent) => items.zipIdx.all fun entry => admits parent runId entry.2 entry.1
      | .error _ => false
    | _ => false

theorem fanoutPlan_of_accepts (stream : String) (h : accepts runId fields) :
    ∃ group children, fanoutPlan runId (.obj fields) stream = .ok (group, children) := by
  have ⟨hw, h⟩ := Bool.and_eq_true_iff.mp h
  have ⟨workflowId, hw⟩ := Option.isSome_iff_exists.mp hw
  split at h
  case h_2 => cases h
  case h_1 items hi =>
  split at h
  case h_2 => cases h
  case h_1 gather parent hs =>
  have ⟨counted, hc, hg⟩ := Except.bind_eq_ok.mp hs
  rw [← buildChildren_isOk stream] at h
  have ⟨context, _, hp, _⟩ := spliceGatherStage_ok hg
  have hx : field "stage_context" parent = some (.obj context) := by rw [hp, field_setField_self]
  cases hb : buildChildren parent runId stream 0 items
  case error => simp [hb, Except.isOk, Except.toBool] at h
  case ok children =>
    unfold fanoutPlan
    simp [asObject, hw, hi, hc, hg, hb, bind, Except.bind, updateStageContext, hx, pure, Except.pure]

end Accepted

end Scheduler
