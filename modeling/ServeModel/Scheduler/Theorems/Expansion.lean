import ServeModel.Lib.Walk
import ServeModel.Scheduler.Theorems.Fanout

namespace StageContext

open Option

variable {context : StageContext} {id next role : String}

def successor (context : StageContext) (id : String) : Option String := do
  let stage ← context.find id
  let next ← stage.next
  let next ← context.find next
  return next.id

-- The stages that a run goes through, at most `n` of them.
def visits (context : StageContext) : Nat → String → List String :=
  Walk.walk context.successor

theorem successor_eq_some : context.successor id = some next ↔
      ∃ stage, context.find id = some stage ∧ stage.next = some next ∧ (context.find next).isSome := by
  simp only [successor, bind_eq_bind, bind_eq_some_iff, pure_def, Option.some.injEq]
  constructor
  case mp =>
    rintro ⟨stage, hs, n, hn, found, hf, rfl⟩
    obtain rfl := find_id hf
    exact ⟨stage, hs, hn, by rw [hf]; rfl⟩
  case mpr =>
    rintro ⟨stage, hs, hn, hf⟩
    have ⟨found, hf⟩ := isSome_iff_exists.mp hf
    exact ⟨stage, hs, next, hn, found, hf, find_id hf⟩

-- The successor of the current stage is the one that the roles go to.
theorem successor_of_nextStage {next : StageDescriptor} (h : context.nextStage role = .ok next) :
    context.successor context.currentStageId = some next.id ∧ context.find next.id = some next := by
  unfold nextStage at h
  dsimp only at h
  split at h
  case h_2 => cases h
  case h_1 current hc =>
  have ⟨_, h⟩ := Except.ite_throw_eq_ok.mp h
  split at h
  case h_2 => cases h
  case h_1 nextId hn =>
  split at h
  case h_2 => cases h
  case h_1 found hf =>
  cases h
  obtain rfl := find_id hf
  exact ⟨successor_eq_some.mpr ⟨current, hc, hn, by rw [hf]; rfl⟩, hf⟩

end StageContext

-- What becomes of a fanout parent.
namespace Scheduler

open Json

section Stage

variable {raw : Json} {raws : List Json} {stage : StageDescriptor} {stages stages' : List StageDescriptor}
  {executeId : String}

theorem decode_stage_eq_some : StageDescriptor.decode (.obj fs) = some stage ↔
    field "id" fs = some (.str stage.id) ∧ field "phase" fs = some (.str stage.phase) ∧
      field "queue" fs = some (.str stage.queue) ∧
      withDefault none (optional asStr) (field "next" fs) = some stage.next := by
  have ⟨id, phase, queue, next⟩ := stage
  simp [StageDescriptor.decode, structFields, asArray, guard, Option.bind_eq_some_iff, required_asStr_eq_some]

theorem decode_encode (stage : StageDescriptor) : StageDescriptor.decode stage.encode = some stage := by
  refine decode_stage_eq_some.mpr ?_
  cases stage.next <;> simp [literal, ofOption, withDefault, Json.optional, asStr]

-- A stage that is written as an object is redirected by its id, any other stays as it is.
def redirected (executeId : String) (raw : Json) (stage : StageDescriptor) : StageDescriptor :=
  if raw.asObject.isSome ∧ stage.id = executeId then { stage with next := some gatherStageId } else stage

theorem decode_redirectStage_eq (h : StageDescriptor.decode raw = some stage) :
    StageDescriptor.decode (redirectStage executeId raw) = some (redirected executeId raw stage) := by
  cases raw
  case obj fs =>
    have ⟨hi, hp, hq, hn⟩ := decode_stage_eq_some.mp h
    have hs : stageHas "id" executeId (.obj fs) ↔ stage.id = executeId := by
      simp [stageHas, hi, asStr]
    by_cases he : stage.id = executeId
    case pos =>
      rw [redirectStage, if_pos (hs.mpr he), redirected, if_pos ⟨rfl, he⟩]
      refine decode_stage_eq_some.mpr ?_
      simp [hi, hp, hq, withDefault, Json.optional, asStr]
    case neg =>
      rw [redirectStage, if_neg (mt hs.mp he), redirected, if_neg (mt And.right he)]
      exact h
  all_goals simpa [redirectStage, redirected, asObject] using h

-- The stage that counts as the one with this id is written as an object.
def ObjectStage (raws : List Json) (id : String) : Prop :=
  ∀ raw, raws.find? (fun raw => (StageDescriptor.decode raw).any (·.id = id)) = some raw → raw.asObject.isSome

def Decodes (raws : List Json) (stages : List StageDescriptor) : Prop :=
  List.Forall₂ (fun raw stage => StageDescriptor.decode raw = some stage) raws stages

theorem Decodes.redirected (h : Decodes raws stages) :
    Decodes (raws.map (redirectStage executeId)) (List.zipWith (redirected executeId) raws stages) := by
  induction h
  case nil => exact .nil
  case cons hd _ ih => exact .cons (decode_redirectStage_eq hd) ih

@[simp]
theorem redirected_id : (redirected executeId raw stage).id = stage.id := by
  unfold redirected
  split <;> rfl

theorem redirected_of_ne (h : stage.id ≠ executeId) : redirected executeId raw stage = stage :=
  if_neg (mt And.right h)

theorem find_redirected_of_ne (h : Decodes raws stages) {id : String} (hn : id ≠ executeId) :
    (List.zipWith (redirected executeId) raws stages).find? (·.id = id) = stages.find? (·.id = id) := by
  induction h
  case nil => rfl
  case cons raw stage _ _ _ _ ih =>
    rw [List.zipWith_cons_cons, List.find?_cons, List.find?_cons, redirected_id, ih]
    by_cases hi : stage.id = id
    case pos => simp [hi, redirected_of_ne (hi ▸ hn)]
    case neg => simp [hi]

theorem find_redirected (h : Decodes raws stages) (ho : ObjectStage raws executeId) :
    (List.zipWith (redirected executeId) raws stages).find? (·.id = executeId) =
      (stages.find? (·.id = executeId)).map fun s => { s with next := some gatherStageId } := by
  induction h
  case nil => rfl
  case cons raw stage raws stages hd _ ih =>
    by_cases hi : stage.id = executeId
    case pos =>
      have hr : raw.asObject.isSome := ho raw (List.find?_cons_of_pos (by simp [hd, hi]))
      simp [hi, redirected, hr]
    case neg =>
      have ho : ObjectStage raws executeId := fun raw hr => ho raw <| by
        rwa [List.find?_cons_of_neg (by simp [hd, hi])]
      simpa [hi] using ih ho

end Stage

section Splice

variable {context context' : StageContext} {execute gather : StageDescriptor}

-- The pipeline before and after the splice. All that changes is where the execute stage leads to, and the stage that
-- comes after it.
structure Splices (raws : List Json) (context : StageContext) (execute : StageDescriptor) (context' : StageContext) :
    Prop where
  reserved : context.find gatherStageId = none
  listed : context.find execute.id = some execute
  follows : context.successor context.currentStageId = some execute.id
  current : context'.currentStageId = context.currentStageId ∧ context'.currentPhase = context.currentPhase
  gather : context'.find gatherStageId =
    some { id := gatherStageId, phase := gatherPhase, queue := gatherQueue, next := execute.next }
  leads : ObjectStage raws execute.id →
    context'.find execute.id = some { execute with next := some gatherStageId }
  others : ∀ id, id ≠ execute.id → id ≠ gatherStageId → context'.find id = context.find id

theorem spliceGatherStage_splices (h : spliceGatherStage parent = .ok (gather, parent')) :
    ∃ raw raw' raws context execute context', parent' = setField "stage_context" (.obj raw') parent ∧
      field "stage_context" parent = some (.obj raw) ∧ field "pipeline" raw = some (.arr raws) ∧
      StageContext.decode (.obj raw) = some context ∧ context.nextStage "scheduler" = .ok execute ∧
      StageContext.decode (.obj raw') = some context' ∧ Splices raws context execute context' := by
  obtain ⟨raw, raws, context, execute, hc, hl, hd, hnone, hx, rfl, rfl⟩ := spliceGatherStage_eq_ok h
  have ⟨hid, hph, stages, hs, hm⟩ := decode_context_obj.mp hd
  obtain rfl := Json.arr.inj (Option.some.inj (hl.symm.trans hs))
  have ⟨hsucc, hfind⟩ := StageContext.successor_of_nextStage hx
  have hdec : Decodes raws context.pipeline := Option.mapM_eq_some.mp hm
  let gather : StageDescriptor :=
    { id := gatherStageId, phase := gatherPhase, queue := gatherQueue, next := execute.next }
  let context' : StageContext :=
    { context with pipeline := List.zipWith (redirected execute.id) raws context.pipeline ++ [gather] }
  have hdec' : StageContext.decode (.obj (setField "pipeline" (.arr (raws.map (redirectStage execute.id) ++
      [gather.encode])) raw)) = some context' := by
    refine decode_context_obj.mpr ⟨?_, ?_, _, field_setField_self, Option.mapM_eq_some.mpr ?_⟩
    · simpa using hid
    · simpa using hph
    · exact List.rel_append hdec.redirected (.cons (decode_encode _) .nil)
  refine ⟨raw, _, raws, context, execute, context', rfl, hc, hl, hd, hx, hdec', ?_⟩
  have hne : gatherStageId ≠ execute.id := by
    rintro he
    rw [he, hfind] at hnone
    cases hnone
  have hx (id : String) : context'.find id =
      ((List.zipWith (redirected execute.id) raws context.pipeline).find? (·.id = id)).or
        (if gatherStageId = id then some gather else none) := by
    by_cases hi : gatherStageId = id <;> simp [StageContext.find, context', gather, List.find?_append, hi]
  refine ⟨hnone, hfind, hsucc, ⟨rfl, rfl⟩, ?_, fun ho => ?_, fun id hi hg => ?_⟩
  · have hn : context.pipeline.find? (·.id = gatherStageId) = none := hnone
    rw [hx, find_redirected_of_ne hdec hne, hn, if_pos rfl]
    rfl
  · have hf : context.pipeline.find? (·.id = execute.id) = some execute := hfind
    rw [hx, find_redirected hdec ho, hf]
    rfl
  · rw [hx, find_redirected_of_ne hdec hi, if_neg (Ne.symm hg), Option.or_none]
    rfl

-- No stage names the gather stage as its successor.
def Unlinked (context : StageContext) : Prop :=
  ∀ stage ∈ context.pipeline, stage.next ≠ some gatherStageId

section Visits

theorem Splices.find_isSome (h : Splices raws context execute context') (ho : ObjectStage raws execute.id) {id : String}
    (hi : id ≠ gatherStageId) : (context'.find id).isSome = (context.find id).isSome := by
  by_cases he : id = execute.id
  case pos => rw [he, h.leads ho, h.listed]; rfl
  case neg => rw [h.others id he hi]

theorem Unlinked.next_ne (hu : Unlinked context) {id next : String}
    (hs : context.find id = some stage) (hn : stage.next = some next) : next ≠ gatherStageId := by
  rintro rfl
  exact hu stage (List.mem_of_find?_eq_some hs) hn

theorem Splices.successor_eq (h : Splices raws context execute context') (ho : ObjectStage raws execute.id)
    (hu : Unlinked context) {id id' : String} (hs : context.find id = some stage)
    (hs' : context'.find id' = some stage') (hn : stage'.next = stage.next) :
    context'.successor id' = context.successor id := by
  apply Option.ext
  intro next
  rw [StageContext.successor_eq_some, StageContext.successor_eq_some]
  simp only [hs, hs', Option.some.injEq, exists_eq_left', hn]
  exact and_congr_right fun hx => by rw [h.find_isSome ho (hu.next_ne hs hx)]

-- A run goes through the same stages as before, and through the gather stage after it was executed.
theorem Splices.visits (h : Splices raws context execute context') (ho : ObjectStage raws execute.id)
    (hu : Unlinked context) (n : Nat) :
    context'.visits (Walk.insertAfter execute.id gatherStageId (context.visits n context.currentStageId)).length
      context'.currentStageId =
        Walk.insertAfter execute.id gatherStageId (context.visits n context.currentStageId) := by
  have hn (id : String) : context.successor id ≠ some gatherStageId := by
    intro hs
    have ⟨_, _, _, hs⟩ := StageContext.successor_eq_some.mp hs
    rw [h.reserved] at hs
    cases hs
  have hc : context.currentStageId ≠ gatherStageId := by
    intro he
    have ⟨_, hs, _⟩ := StageContext.successor_eq_some.mp h.follows
    rw [he, h.reserved] at hs
    cases hs
  rw [h.current.left]
  refine Walk.walk_insertAfter ?_ ?_ ?_ hn n hc
  · exact StageContext.successor_eq_some.mpr ⟨_, h.leads ho, rfl, by rw [h.gather]; rfl⟩
  · exact h.successor_eq ho hu h.listed h.gather rfl
  · intro id hi hg
    cases hf : context.find id
    case none =>
      rw [StageContext.successor, StageContext.successor, h.others id hi hg, hf]
      rfl
    case some stage =>
      exact h.successor_eq ho hu hf ((h.others id hi hg).trans hf) rfl

end Visits

end Splice

section Expand

-- What an accepted parent becomes: its group and its children.
structure Expansion (payload : Fields) (runId stream : String) (items : List Json) (group : Collect.CollectGroup)
    (children : List Output) : Prop where
  listed : field "fanout_items" payload = some (.arr items)
  runIds : children.map (·.runId) = (List.range items.length).map fun i => some (childRunId runId i)
  distinct : (children.map (·.runId)).Nodup
  expected : group.parentRunId = runId ∧ group.expectedCount = items.length ∧ group.results = []
  counted : ∃ parent profile, group.parentPayload = .obj parent ∧ field "fanout_profile" parent = some (.obj profile) ∧
    field "item_count" profile = some (.nat items.length)
  spliced : ∃ raw raw' raws context execute context', field "stage_context" payload = some (.obj raw) ∧
    field "pipeline" raw = some (.arr raws) ∧ StageContext.decode (.obj raw) = some context ∧
    context.nextStage "scheduler" = .ok execute ∧ StageContext.decode (.obj raw') = some context' ∧
    Splices raws context execute context' ∧
    (ObjectStage raws execute.id → Unlinked context → ∀ n, ∃ m,
      context'.visits m context'.currentStageId =
        Walk.insertAfter execute.id gatherStageId (context.visits n context.currentStageId)) ∧
    ∀ (i : Nat) child, children[i]? = some child → ∃ item fields, items[i]? = some (.obj item) ∧
      child.stream = stream ∧ child.payload = .encode (.obj fields) ∧ isFanoutParent (.obj fields) = false ∧
      (∃ request, decodeSchedulePayload child.payload (childRunId runId i) = .ok request) ∧
      field "fanout_item" fields = some (.obj (indexedItem i item)) ∧ field "stage_context" fields = some (.obj raw')

variable {payload : Json} {runId stream : String} {group : Collect.CollectGroup} {children : List Output}

theorem buildChild_accepted (h : buildChild parent runId index item stream = .ok child) :
    child.stream = stream ∧ ∃ request, decodeSchedulePayload child.payload (childRunId runId index) = .ok request := by
  cases item
  case obj =>
    unfold buildChild at h
    dsimp only [asObject] at h
    split at h
    case h_1 request hd =>
      cases h
      exact ⟨rfl, request, hd⟩
    case h_2 => cases h
  all_goals cases h

theorem updateStageContext_ok (h : updateStageContext stage role fields = .ok updated) :
    ∃ context, updated = setField "stage_context" (.obj context) fields := by
  unfold updateStageContext at h
  split at h
  case h_2 => cases h
  case h_1 =>
    cases h
    exact ⟨_, rfl⟩

theorem expansion_of_fanoutPlan (h : fanoutPlan runId payload stream = .ok (group, children)) :
    ∃ fields items, payload = .obj fields ∧ Expansion fields runId stream items group children := by
  have ⟨fields, workflowId, items, counted, gather, parent, collectPayload, hf, _, hi, hc, hg, hb, hu, he⟩ :=
    fanoutPlan_eq_ok h
  subst he
  have ⟨raw, raw', raws, context, execute, context', hp, hr, hl, hd, hx, hd', hs⟩ := spliceGatherStage_splices hg
  have ⟨hlen, hchild⟩ := buildChildren_built hb
  have hcounted := setItemCount_ok hc
  have hids : children.map (·.runId) = (List.range items.length).map fun i => some (childRunId runId i) := by
    apply List.ext_getElem?
    intro i
    rw [List.getElem?_map, List.getElem?_map, ← hlen]
    cases hci : children[i]?
    case none =>
      have hi := List.getElem?_eq_none_iff.mp hci
      rw [List.getElem?_eq_none (by simpa using hi)]
      rfl
    case some child =>
      have ⟨item, _, hb⟩ := hchild i child hci
      have ⟨hi, _⟩ := List.getElem?_eq_some_iff.mp hci
      simp [List.getElem?_range hi, (buildChild_ok hb).runId_eq]
  refine ⟨fields, items, hf, hi, hids, ?_, ⟨rfl, rfl, rfl⟩, ?_, ?_⟩
  · rw [hids]
    refine List.nodup_range.map fun i j hij => ?_
    exact trim_childRunId_inj (congrArg Text.trim (Option.some.inj hij))
  · have ⟨context, hcp⟩ := updateStageContext_ok hu
    have hprofile : field "fanout_profile" collectPayload = some (.obj (setField "item_count" (.nat items.length)
        (fanoutProfile (eraseField "result" (eraseField "fanout_items" fields))))) := by
      rw [hcp, hp, hcounted]
      simp
    exact ⟨collectPayload, _, rfl, hprofile, field_setField_self⟩
  · refine ⟨raw, raw', raws, context, execute, context', ?_, hl, hd, hx, hd', hs, ?_, ?_⟩
    · rw [hcounted] at hr
      simpa using hr
    · exact fun ho hu n => ⟨_, hs.visits ho hu n⟩
    · intro i child hci
      have ⟨item, hit, hb⟩ := hchild i child hci
      rw [Nat.zero_add] at hb
      have ⟨itemFields, childFields, ho, hpay, _, _, hfi, hkeys⟩ := (buildChild_ok hb).carried
      have ⟨hstream, hacc⟩ := buildChild_accepted hb
      refine ⟨itemFields, childFields, ho ▸ hit, hstream, hpay, ?_, hacc, hfi, ?_⟩
      · have hn : field "fanout_items" childFields = none := by
          rw [hkeys _ (by decide), hp, hcounted]
          simp
        simp [isFanoutParent, hn]
      · rw [hkeys _ (by decide), hp]
        simp

-- A parent is rejected before anything has happened, or it is expanded.
theorem expandFanoutParent_expansion {τ : Type} (m : Message) (payload : Json) (stream : String) :
    (∃ e, (expandFanoutParent m payload stream : RoleM τ Unit) = throw e) ∨
    ∃ fields items group children, payload = .obj fields ∧ Expansion fields m.runId stream items group children ∧
      (expandFanoutParent m payload stream : RoleM τ Unit) = (do
        Collect.initGroup m.runId group
        RoleM.context "scheduler: failed to fan out child items" do
          Routine.ofExcept (← RoleM.perform (.forwardMany [m] children))) := by
  cases h : fanoutPlan m.runId payload stream
  case error e =>
    refine .inl ⟨e, ?_⟩
    rw [expandFanoutParent, h]
    rfl
  case ok plan =>
    have ⟨fields, items, hf, he⟩ := expansion_of_fanoutPlan h
    refine .inr ⟨fields, items, plan.1, plan.2, hf, he, ?_⟩
    rw [expandFanoutParent, h]
    rfl

end Expand

-- A parent of one item whose execute stage is written as given and whose last stage has the given successor.
def twistedStages (execute : Json) (last : Option String) : List Json :=
  [StageDescriptor.encode { id := "s", phase := "schedule", queue := "schedule", next := some "e" }, execute,
    StageDescriptor.encode { id := "r", phase := "results", queue := "results", next := last }]

def twistedParent (execute : Json) (last : Option String) : Json :=
  .object [("workflow_id", .str "weather"), ("workflow", .str "weather"), ("fanout_items", .arr [.object []]),
    ("stage_context", .object [("current_stage_id", .str "s"), ("current_phase", .str "schedule"),
      ("pipeline", .arr (twistedStages execute last))])]

def executeArray : Json :=
  .arr [.str "e", .str "execute", .str "gpu", .str "r"]

def executeObject : Json :=
  StageDescriptor.encode { id := "e", phase := "execute", queue := "gpu", next := some "r" }

-- The stages that the child of an accepted parent goes through.
def childVisits (payload : Json) (n : Nat) : Option (List String) := do
  let (_, children) ← (fanoutPlan "p" payload "schedule").toOption
  let child ← children.head?
  let context ← ((child.payload.json.bind (·.get "stage_context")).bind StageContext.decode)
  return context.visits n "s"

def parentVisits (payload : Json) (n : Nat) : Option (List String) := do
  let context ← (payload.get "stage_context").bind StageContext.decode
  return context.visits n "s"

-- An execute stage that is written as an array is not redirected, and a last stage that leads nowhere now leads back.
theorem not_inserted :
    childVisits (twistedParent executeArray none) 9 = some ["s", "e", "r"] ∧
    parentVisits (twistedParent executeObject (some gatherStageId)) 9 = some ["s", "e", "r"] ∧
    childVisits (twistedParent executeObject (some gatherStageId)) 6 =
      some ["s", "e", "_gather", "r", "_gather", "r"] := by
  have hi (execute last) : field "fanout_items" ((twistedParent execute last).asObject.getD []) =
      some (.arr [.object []]) := by
    simp [twistedParent, object, asObject, literal]
  have ha (execute last) : (twistedParent execute last).asObject =
      some ((twistedParent execute last).asObject.getD []) := rfl
  refine ⟨?_, by decide +kernel, ?_⟩
  -- The text of a child is not blank whatever it is, so that it need not be computed.
  all_goals
    rw [childVisits, fanoutPlan, ha]
    simp only [hi, buildChildren, buildChild, decodeSchedulePayload, Wire.encode_obj_not_blank]
    decide +kernel

end Scheduler
