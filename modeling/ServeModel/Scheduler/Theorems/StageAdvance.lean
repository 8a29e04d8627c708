import ServeModel.Scheduler.Theorems.Dispatch
import ServeModel.Scheduler.Theorems.Expansion

-- What a dispatch makes of the stage contexts of a payload and of the members of a batch in it.
namespace Scheduler

open Json List

-- The payload and, at any depth, the payloads of its items have a stage context with a next stage. The
-- parameter is what is asked of each of these contexts besides.
inductive Advanceable (P : Json → Prop) : Json → Prop
  | level {root : Fields} {raw : Json} {context : StageContext} {next : StageDescriptor}
    (found   : field "stage_context" root = some raw)
    (decoded : StageContext.decode raw = some context)
    (moves   : context.nextStage "scheduler" = .ok next)
    (besides : P raw)
    (items   : ∀ items, field "items" root = some (.arr items) → ∀ item ∈ items,
      ∀ payload, item.get "payload" = some payload → Advanceable P payload) :
    Advanceable P (.obj root)

-- At each level the stage context has moved on to its next stage, and nothing else is different.
mutual

inductive Advanced : Json → Json → Prop
  | level {root root' : Fields} {raw raw' : Json} {context : StageContext} {next : StageDescriptor}
    (found   : field "stage_context" root = some raw)
    (decoded : StageContext.decode raw = some context)
    (moves   : context.nextStage "scheduler" = .ok next)
    (found'  : field "stage_context" root' = some raw')
    (stageId : raw'.get "current_stage_id" = some (.str next.id))
    (phase   : raw'.get "current_phase" = some (.str next.phase))
    (rest    : ∀ key, key ≠ "current_stage_id" → key ≠ "current_phase" → raw'.get key = raw.get key)
    (items   : AdvancedItems (field "items" root) (field "items" root'))
    (others  : ∀ key, key ≠ "stage_context" → key ≠ "items" → field key root' = field key root) :
    Advanced (.obj root) (.obj root')

inductive AdvancedItems : Option Json → Option Json → Prop
  | array {items items' : List Json} (each : AdvancedEach items items') :
    AdvancedItems (some (.arr items)) (some (.arr items'))
  | other {items? : Option Json} (h : items?.bind asArray = none) : AdvancedItems items? items?

inductive AdvancedEach : List Json → List Json → Prop
  | nil : AdvancedEach [] []
  | bare {item : Json} {items items' : List Json} (h : item.get "payload" = none)
    (rest : AdvancedEach items items') : AdvancedEach (item :: items) (item :: items')
  | member {fs fs' : Fields} {payload payload' : Json} {items items' : List Json}
    (found  : field "payload" fs = some payload)
    (found' : field "payload" fs' = some payload')
    (here   : Advanced payload payload')
    (others : ∀ key, key ≠ "payload" → field key fs' = field key fs)
    (rest   : AdvancedEach items items') : AdvancedEach (.obj fs :: items) (.obj fs' :: items')

end

section Context

variable {stage id : String} {raws : List Json} {stages : List StageDescriptor} {raw : Fields}
  {context : StageContext} {next : StageDescriptor}

theorem stageHas_eq_false (h : StageDescriptor.decode j = some found)
    (hi : found.id ≠ id) : stageHas "id" id j = false := by
  cases j
  case obj fs =>
    have ⟨hid, _⟩ := decode_stage_eq_some.mp h
    simpa [stageHas, hid, asStr] using hi
  all_goals rfl

-- A stage that is written as an object is found by its id.
theorem find_stageHas (h : Decodes raws stages) (ho : ObjectStage raws id)
    (hf : stages.find? (·.id = id) = some next) :
    ∃ fs, raws.find? (stageHas "id" id) = some (.obj fs) ∧ StageDescriptor.decode (.obj fs) = some next := by
  induction h
  case nil => cases hf
  case cons raw found raws stages hd _ hi =>
    by_cases hid : found.id = id
    case pos =>
      rw [find?_cons_of_pos (by simpa using hid)] at hf
      cases hf
      have hr : raw.asObject.isSome := ho raw (find?_cons_of_pos (by simp [hd, hid]))
      obtain ⟨fs, rfl⟩ : ∃ fs, raw = .obj fs := by
        cases raw
        case obj fs => exact ⟨fs, rfl⟩
        all_goals cases hr
      obtain ⟨hfield, _⟩ := decode_stage_eq_some.mp hd
      exact ⟨fs, find?_cons_of_pos (by simp [stageHas, hfield, asStr, hid]), hd⟩
    case neg =>
      rw [find?_cons_of_neg (by simpa using hid)] at hf
      have ho : ObjectStage raws id := fun raw hr => ho raw <| by
        rwa [find?_cons_of_neg (by simp [hd, hid])]
      obtain ⟨fs, hfind, hdec⟩ := hi ho hf
      exact ⟨fs, by rwa [find?_cons_of_neg (by simp [stageHas_eq_false hd hid])], hdec⟩

-- The context and the stages that its next stage is found by are written as objects.
def ByName (raw : Json) : Prop :=
  ∃ fs raws, raw = .obj fs ∧ field "pipeline" fs = some (.arr raws) ∧
    ∀ context, StageContext.decode raw = some context →
      ObjectStage raws context.currentStageId ∧
      ∀ next, context.nextStage "scheduler" = .ok next → ObjectStage raws next.id

-- On such a context the dispatch finds the next stage of the roles.
theorem advanceContext_eq (hd : StageContext.decode (.obj raw) = some context)
    (hn : context.nextStage "scheduler" = .ok next) (hb : ByName (.obj raw)) :
    advanceContext stage raw = some (setField "current_phase" (.str next.phase)
      (setField "current_stage_id" (.str next.id) raw), true) := by
  have ⟨fs, raws, hfs, hp, ho⟩ := hb
  cases hfs
  have ⟨hcur, hnext⟩ := ho context hd
  have ⟨hid, _, raws', hp', hm⟩ := decode_context_obj.mp hd
  obtain rfl := Json.arr.inj (Option.some.inj (hp.symm.trans hp'))
  have hdec : Decodes raws context.pipeline := Option.mapM_eq_some.mp hm
  have ⟨hsucc, hfind⟩ := StageContext.successor_of_nextStage hn
  have ⟨current, hc, hlink, _⟩ := StageContext.successor_eq_some.mp hsucc
  have ⟨fs, hfs, hfd⟩ := find_stageHas hdec hcur hc
  have ⟨fs', hfs', hfd'⟩ := find_stageHas hdec (hnext next hn) hfind
  have ⟨_, _, _, hl⟩ := decode_stage_eq_some.mp hfd
  have ⟨hi', hp', _, _⟩ := decode_stage_eq_some.mp hfd'
  have hstr : (field "next" fs).bind asStr = some next.id := by
    rw [hlink] at hl
    cases hf : field "next" fs
    case none => rw [hf] at hl; cases hl
    case some j =>
      cases j <;> simp_all [withDefault, Json.optional, asStr]
  simp [advanceContext, hp, asArray, nextDispatchStage, hid, asStr, hfs, hstr, hfs', setStrField, hi', hp']

end Context

section Fields

variable {stage key : String}

theorem field_items_advance (fs : Fields) :
    field "items" (advanceItems stage fs) = (field "items" fs).map (advanceArray stage) := by
  induction fs
  case nil => rfl
  case cons f fs hi =>
    have ⟨k, v⟩ := f
    by_cases h : "items" = k
    case pos => simp [advanceItems, field, h]
    case neg => simp [advanceItems, field, h, hi]

theorem field_advancePayload_of_ne (hk : key ≠ "payload") (fs : Fields) :
    field key (advancePayload stage fs) = field key fs := by
  induction fs
  case nil => rfl
  case cons f fs hi =>
    have ⟨k, v⟩ := f
    by_cases h : k = "payload"
    case pos => simp [advancePayload, field, h, hk, hi]
    case neg => simp [advancePayload, field, h, hi]

theorem field_advancePayload (fs : Fields) :
    field "payload" (advancePayload stage fs) =
      (field "payload" fs).map (advanceStageContextForDispatch stage) := by
  induction fs
  case nil => rfl
  case cons f fs hi =>
    have ⟨k, v⟩ := f
    by_cases h : "payload" = k
    case pos => simp [advancePayload, field, h]
    case neg => simp [advancePayload, field, h, hi]

theorem advancePayload_eq_self (h : field "payload" fs = none) : advancePayload stage fs = fs := by
  induction fs
  case nil => rfl
  case cons f fs hi =>
    have ⟨k, v⟩ := f
    by_cases hk : "payload" = k
    case pos => simp [field, hk] at h
    case neg =>
      rw [field, if_neg hk] at h
      rw [advancePayload, hi h, if_neg (Ne.symm hk)]

theorem advanced_each (h : ∀ item ∈ items, ∀ payload, item.get "payload" = some payload →
      Advanced payload (advanceStageContextForDispatch stage payload)) :
    AdvancedEach items (advanceEach stage items) := by
  induction items
  case nil => exact .nil
  case cons item items hi =>
    have hrest := hi fun item hm => h item (mem_cons_of_mem _ hm)
    have hhere := h item mem_cons_self
    rw [advanceEach]
    cases item
    case obj fs =>
      rw [advanceItem]
      cases hp : field "payload" fs
      case none =>
        rw [advancePayload_eq_self hp]
        exact .bare hp hrest
      case some payload =>
        refine .member hp ?_ (hhere payload hp) (fun key hk => field_advancePayload_of_ne hk fs) hrest
        rw [field_advancePayload, hp]
        rfl
    all_goals exact .bare rfl hrest

end Fields

section Advance

variable {stage : String} {payload : Json}

theorem advanced_items (h : ∀ items, items? = some (.arr items) → AdvancedEach items (advanceEach stage items)) :
    AdvancedItems items? (items?.map (advanceArray stage)) := by
  rcases items? with _ | items
  case none => exact .other rfl
  case some =>
    cases items
    case arr items => exact .array (h items rfl)
    all_goals exact .other rfl

-- A stage context and a batch of one member, both at the same stage.

def stagesByName : List Json :=
  [.obj [("id", .str "schedule"), ("next", .str "execute"), ("phase", .str "schedule"), ("queue", .str "s")],
    .obj [("id", .str "execute"), ("next", .null), ("phase", .str "run"), ("queue", .str "e")]]

def stagesByPosition : List Json :=
  [.arr [.str "schedule", .str "schedule", .str "s", .str "execute"],
    .arr [.str "execute", .str "run", .str "e", .null]]

def contextAt (id phase : String) (stages : List Json) : Json :=
  .obj [("current_phase", .str phase), ("current_stage_id", .str id), ("pipeline", .arr stages)]

def batchAt (id phase : String) (stages : List Json) : Json :=
  .obj [
    ("items", .arr [.obj [
      ("payload", .obj [("stage_context", contextAt id phase stages)]), ("run_id", .str "member")]]),
    ("stage_context", contextAt id phase stages)]

theorem batch_advanceable {id phase : String} {next : StageDescriptor}
    (hd : StageContext.decode (contextAt id phase stages) = some context)
    (hn : context.nextStage "scheduler" = .ok next) (hp : P (contextAt id phase stages)) :
    Advanceable P (batchAt id phase stages) := by
  refine .level rfl hd hn hp fun items h item hm payload hpay => ?_
  cases h
  cases mem_singleton.mp hm
  cases hpay
  exact .level rfl hd hn hp fun items h => (nomatch h)

-- A dispatch moves the stage contexts of a payload on as the roles would.
theorem advanceStageContextForDispatch_advances (stage : String) (h : Advanceable ByName payload) :
    Advanced payload (advanceStageContextForDispatch stage payload) := by
  induction h
  case level root raw context next hfound hdec hmoves hname _ hi =>
    obtain ⟨fs, _, rfl, _⟩ := id hname
    have hctx : advanceContext stage fs = _ := advanceContext_eq hdec hmoves hname
    rw [advanceStageContextForDispatch]
    simp only [hfound, Option.bind_some, asObject, hctx]
    refine .level hfound hdec hmoves field_setField_self (by simp) (by simp)
      (fun key h₁ h₂ => by simp [h₁, h₂]) ?_ fun key h₁ h₂ => ?_
    · rw [field_setField_of_ne (by decide), field_items_advance]
      exact advanced_items fun items hitems => advanced_each (hi items hitems)
    · rw [field_setField_of_ne h₁, field_advanceItems h₂]

theorem batch_advances :
    Advanced (batchAt "schedule" "schedule" stagesByName) (batchAt "execute" "run" stagesByName) := by
  have hn : ByName (contextAt "schedule" "schedule" stagesByName) := by
    refine ⟨_, _, rfl, rfl, fun context hd => ?_⟩
    cases hd
    refine ⟨fun raw h => ?_, fun next hn raw h => ?_⟩
    · cases h; rfl
    · cases hn; cases h; rfl
  exact advanceStageContextForDispatch_advances "execute" (batch_advanceable rfl rfl hn)

-- The roles read a stage that is written as an array, the dispatch does not.
theorem batch_stays :
    Advanceable (fun _ => True) (batchAt "schedule" "schedule" stagesByPosition) ∧
    ¬Advanced (batchAt "schedule" "schedule" stagesByPosition)
      (advanceStageContextForDispatch "execute" (batchAt "schedule" "schedule" stagesByPosition)) := by
  refine ⟨batch_advanceable rfl rfl trivial, fun h => ?_⟩
  generalize hj : advanceStageContextForDispatch "execute" (batchAt "schedule" "schedule" stagesByPosition) = j at h
  rcases h with ⟨hc, hd, hn, hc', hi, _⟩
  cases hc
  cases hd
  cases hn
  cases hj
  cases hc'
  have hs : "schedule" = "execute" := Json.str.inj (Option.some.inj hi)
  exact absurd hs (by decide)

end Advance

end Scheduler
