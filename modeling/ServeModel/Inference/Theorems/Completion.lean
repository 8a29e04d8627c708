import ServeModel.Inference.Process

-- Which results can be sent: their values have to go through the encoder, and some of them have to be tested,
-- copied or shown before.
namespace Inference

open Python Except Dict
open Value (dict encodes_dict)

section Move

theorem get_moveExecutionField (h : key ≠ s) : (moveExecutionField s t p).1.get key = p.1.get key := by
  rw [moveExecutionField]
  split
  case h_1 => exact get_pop_of_ne h
  case h_2 => rfl

theorem mem_moveExecutionField :
    e ∈ (moveExecutionField s t p).1 ↔ e ∈ p.1 ∧ e.1 ≠ .str s := by
  rw [moveExecutionField]
  split
  case h_1 => exact mem_pop
  case h_2 h =>
    have hn : ¬p.1.contains s := by simp [Dict.contains, show p.1.get s = none from h]
    refine ⟨fun he => ⟨he, fun hs => ?_⟩, And.left⟩
    exact hn (contains_iff.mpr ⟨e.2, hs ▸ he⟩)

theorem contains_moveExecutionField :
    (moveExecutionField s t p).2.contains key ↔ p.2.contains key ∨ (key = t ∧ p.1.contains s) := by
  rw [moveExecutionField]
  split
  case h_1 v h =>
    have hc : p.1.contains s := by simp [Dict.contains, show p.1.get s = some v from h]
    simp only [contains_iff, mem_setDefault] at hc ⊢
    constructor
    case mp =>
      rintro ⟨w, hw | ⟨-, hw⟩⟩
      case inl => exact .inl ⟨w, hw⟩
      case inr => exact .inr ⟨by simpa using congrArg Prod.fst hw, hc⟩
    case mpr =>
      rintro (⟨w, hw⟩ | ⟨rfl, -⟩)
      case inl => exact ⟨w, .inl hw⟩
      case inr =>
        by_cases hx : ∃ w, (Key.str key, w) ∈ p.2
        case pos => exact hx.imp fun w hw => .inl hw
        case neg => exact ⟨v, .inr ⟨hx, rfl⟩⟩
  case h_2 h =>
    have hn : ¬p.1.contains s := by simp [Dict.contains, show p.1.get s = none from h]
    simp [hn]

theorem encodes_moveExecutionField :
    (dict (moveExecutionField s t p).2).encodes ↔
      (dict p.2).encodes ∧ ∀ v, p.1.get s = some v → ¬p.2.contains t → v.encodes := by
  rw [moveExecutionField]
  split
  case h_1 v h =>
    have hg : p.1.get s = some v := h
    simp only [encodes_dict, mem_setDefault, hg, Option.some.injEq]
    constructor
    case mp =>
      refine fun he => ⟨fun e hx => he e (.inl hx), ?_⟩
      rintro _ rfl hn
      exact (he _ (.inr ⟨hn, rfl⟩)).right
    case mpr =>
      rintro ⟨hx, hv⟩ e (he | ⟨hn, rfl⟩)
      case inl => exact hx e he
      case inr => exact ⟨by simp, hv v rfl hn⟩
  case h_2 h =>
    have hg : p.1.get s = none := h
    simp [hg]

end Move

variable (env : Env)

section Handoff

def update (result : Dict) (key : String) : Option Value :=
  match result.get "_pipeline_updates" with
  | some (.dict (updates : Dict)) => updates.get key
  | _ => none

-- The fields of a payload that give way to it.
def replacedKeys (succeeded : Bool) (result : Dict) : List String :=
  if succeeded then pipelineUpdateKeys.filter fun key => (update result key).isSome else []

structure HandsOver (payload result next : Dict) (succeeded : Bool) : Prop where
  copies : (dict payload).copyError = none
  fields : (dict (result.pop "_pipeline_updates")).encodes
  updates : succeeded → ∀ key ∈ pipelineUpdateKeys, ∀ v, update result key = some v → v.copyError = none ∧ v.encodes
  payload : (dict (advanceContext next (payload.without ("result" :: replacedKeys succeeded result)))).encodes
  target : ∃ phase stream stage, orElse (stagePhase next) (.str "results") = .ok phase ∧
    env.str (next.getD "queue" phase) = .ok (.str stream) ∧ env.str phase = .ok (.str stage)

def merged (f : String → Option Value) (keys : List String) (d : Dict) : Dict :=
  keys.foldl (fun d key => setIfSome key (f key) d) d

variable {payload result next d d' : Dict} {f : String → Option Value} {succeeded : Bool}

theorem mem_setIfSome :
    e ∈ setIfSome key v? d ↔ (∃ v, v? = some v ∧ e = (.str key, v)) ∨ (e ∈ d ∧ (v?.isSome → e.1 ≠ .str key)) := by
  cases v?
  case none => simp [setIfSome]
  case some v => simp [setIfSome, mem_set]

theorem mem_merged :
    e ∈ merged f keys d ↔ (∃ key ∈ keys, ∃ v, f key = some v ∧ e = (.str key, v)) ∨
      (e ∈ d ∧ ∀ key ∈ keys, (f key).isSome → e.1 ≠ .str key) := by
  induction keys generalizing d
  case nil => simp [merged]
  case cons key keys hi =>
    rw [merged, List.foldl_cons, ← merged, hi, mem_setIfSome]
    constructor
    case mp =>
      rintro (⟨k, hk, h⟩ | ⟨⟨v, hv, rfl⟩ | ⟨he, hn⟩, hr⟩)
      case inl => exact .inl ⟨k, .tail _ hk, h⟩
      case inr.inl => exact .inl ⟨key, .head _, v, hv, rfl⟩
      case inr.inr => exact .inr ⟨he, List.forall_mem_cons.mpr ⟨hn, hr⟩⟩
    case mpr =>
      rintro (⟨k, hk, v, hv, rfl⟩ | ⟨he, hr⟩)
      case inr =>
        have ⟨hn, hr⟩ := List.forall_mem_cons.mp hr
        exact .inr ⟨.inr ⟨he, hn⟩, hr⟩
      case inl =>
        by_cases hm : k ∈ keys
        case pos => exact .inl ⟨k, hm, v, hv, rfl⟩
        case neg =>
          have hk : k = key := (List.mem_cons.mp hk).resolve_right hm
          subst hk
          refine .inr ⟨.inl ⟨v, hv, rfl⟩, fun key hk _ hn => hm ?_⟩
          have hn : k = key := by simpa using hn
          exact hn ▸ hk

theorem get_merged_of_not_mem (h : k ∉ keys) : (merged f keys d).get k = d.get k := by
  induction keys generalizing d
  case nil => rfl
  case cons key keys hi =>
    have ⟨hk, hr⟩ : k ≠ key ∧ k ∉ keys := by simpa using h
    rw [merged, List.foldl_cons, ← merged, hi hr]
    cases hf : f key
    case none => rfl
    case some v => exact get_set_of_ne hk

theorem raiseIf_eq_ok : raiseIf e? = .ok u ↔ e? = none := by
  cases e? <;> simp [raiseIf]

theorem mergeKeys_eq_ok : mergeKeys updates keys d = .ok d' ↔
    (∀ key ∈ keys, ∀ v, updates.get key = some v → v.copyError = none) ∧ d' = merged updates.get keys d := by
  induction keys generalizing d
  case nil =>
    simp only [mergeKeys, merged, List.foldl_nil, List.not_mem_nil, pure_eq_ok]
    simp [eq_comm]
  case cons key keys hi =>
    rw [mergeKeys, merged, List.foldl_cons, ← merged]
    cases hu : updates.get key
    case none => simp [hi, hu, setIfSome]
    case some v =>
      simp only [deepcopy, bind_eq_ok, raiseIf_eq_ok, hi, List.forall_mem_cons, hu, setIfSome]
      simp [and_assoc]

theorem mergePipelineUpdates_eq_ok : mergePipelineUpdates d result = .ok d' ↔
    (∀ key ∈ pipelineUpdateKeys, ∀ v, update result key = some v → v.copyError = none) ∧
      d' = merged (update result) pipelineUpdateKeys d := by
  have hid : merged (fun _ => none) pipelineUpdateKeys d = d := by
    exact List.foldl_fixed _
  rw [mergePipelineUpdates]
  split
  case h_1 updates h =>
    have hu : update result = Dict.get updates := by
      funext key
      simp [update, h]
    rw [mergeKeys_eq_ok, hu]
  case h_2 h =>
    have hu : update result = fun _ => none := by
      funext key
      rw [update]
      split
      case h_1 updates hn => exact absurd hn (h updates)
      case h_2 => rfl
    rw [hu, hid, pure_eq_ok]
    simp [eq_comm]

theorem encodes_advanceContext {P : Key × Value → Prop} (hg : d.get "stage_context" = d'.get "stage_context")
    (hm : ∀ e, e ∈ d ↔ P e ∨ e ∈ d') (hp : ∀ e, P e → e.1 ≠ .str "stage_context") :
    (dict (advanceContext next d)).encodes ↔
      (∀ e, P e → e.1 ≠ .other ∧ e.2.encodes) ∧ (dict (advanceContext next d')).encodes := by
  rw [advanceContext, advanceContext, hg]
  split
  case h_1 =>
    simp only [encodes_dict, mem_set, hm]
    grind
  case h_2 =>
    simp only [encodes_dict, hm]
    grind

-- An output that the clients take.
structure Postable (p : Primary) : Prop where
  payload : (dict p.payload).encodes
  stream : ∃ s, p.stream = .str s
  stage : ∃ s, p.stage = .str s

def handoff (payload result : Dict) (succeeded : Bool) : Dict :=
  let handoff := payload.set "result" (.dict (result.pop "_pipeline_updates"))
  if succeeded then merged (update result) pipelineUpdateKeys handoff else handoff

theorem buildHandoff_eq_ok : buildHandoff env payload result next succeeded = .ok p ↔
    (dict payload).copyError = none ∧
    (succeeded → ∀ key ∈ pipelineUpdateKeys, ∀ v, update result key = some v → v.copyError = none) ∧
    ∃ phase, orElse (stagePhase next) (.str "results") = .ok phase ∧
      env.str (next.getD "queue" phase) = .ok p.stream ∧ env.str phase = .ok p.stage ∧
      p.payload = advanceContext next (handoff payload result succeeded) := by
  obtain ⟨stream, handed, stage⟩ := p
  cases succeeded <;>
    simp only [buildHandoff, handoff, bind_eq_ok, raiseIf_eq_ok, pure_eq_ok, mergePipelineUpdates_eq_ok,
      Bool.false_eq_true, if_false, if_true, Primary.mk.injEq]
  case false =>
    constructor
    case mp =>
      rintro ⟨-, hc, _, rfl, phase, hp, _, hs, _, ht, rfl, rfl, rfl⟩
      exact ⟨hc, fun h => (by cases h), phase, hp, hs, ht, rfl⟩
    case mpr =>
      rintro ⟨hc, -, phase, hp, hs, ht, rfl⟩
      exact ⟨(), hc, _, rfl, phase, hp, _, hs, _, ht, rfl, rfl, rfl⟩
  case true =>
    constructor
    case mp =>
      rintro ⟨-, hc, _, ⟨hu, rfl⟩, phase, hp, _, hs, _, ht, rfl, rfl, rfl⟩
      exact ⟨hc, fun _ => hu, phase, hp, hs, ht, rfl⟩
    case mpr =>
      rintro ⟨hc, hu, phase, hp, hs, ht, rfl⟩
      exact ⟨(), hc, _, ⟨hu trivial, rfl⟩, phase, hp, _, hs, _, ht, rfl, rfl, rfl⟩

-- The entries of a handoff: those that are new, and those of the payload that stay.
def Added (result : Dict) (succeeded : Bool) (e : Key × Value) : Prop :=
  e = (.str "result", .dict (result.pop "_pipeline_updates")) ∨
    (succeeded ∧ ∃ key ∈ pipelineUpdateKeys, ∃ v, update result key = some v ∧ e = (.str key, v))

theorem mem_handoff : e ∈ handoff payload result succeeded ↔
    Added result succeeded e ∨ e ∈ payload.without ("result" :: replacedKeys succeeded result) := by
  have hr : "result" ∉ pipelineUpdateKeys := by decide
  rw [handoff, Added, replacedKeys, mem_without]
  cases succeeded
  case false => simp [mem_set]
  case true =>
    simp only [if_true, mem_merged, mem_set, List.forall_mem_cons, List.mem_filter]
    constructor
    case mp | mpr => grind

theorem get_handoff : (handoff payload result succeeded).get "stage_context" =
    (payload.without ("result" :: replacedKeys succeeded result)).get "stage_context" := by
  have hk : "stage_context" ∉ pipelineUpdateKeys := by decide
  have hr : "stage_context" ∉ "result" :: replacedKeys succeeded result := by
    rw [replacedKeys]
    cases succeeded <;> simp [hk]
  rw [get_without_of_not_mem hr, handoff]
  cases succeeded
  case false => exact get_set_of_ne (by decide)
  case true => exact (get_merged_of_not_mem hk).trans (get_set_of_ne (by decide))

theorem added_encodes : (∀ e, Added result succeeded e → e.1 ≠ .other ∧ e.2.encodes) ↔
    (dict (result.pop "_pipeline_updates")).encodes ∧
      (succeeded → ∀ key ∈ pipelineUpdateKeys, ∀ v, update result key = some v → v.encodes) := by
  constructor
  case mp =>
    intro h
    refine ⟨(h _ (.inl rfl)).right, fun hs key hk v hv => ?_⟩
    exact (h _ (.inr ⟨hs, key, hk, v, hv, rfl⟩)).right
  case mpr =>
    rintro ⟨hr, hu⟩ e (rfl | ⟨hs, key, hk, v, hv, rfl⟩)
    case inl => exact ⟨by simp, hr⟩
    case inr => exact ⟨by simp, hu hs key hk v hv⟩

theorem added_ne (e : Key × Value) (h : Added result succeeded e) : e.1 ≠ .str "stage_context" := by
  have hk : "stage_context" ∉ pipelineUpdateKeys := by decide
  obtain rfl | ⟨-, key, hm, v, -, rfl⟩ := h
  case inl => simp
  case inr =>
    intro h
    have h : key = "stage_context" := by simpa using h
    exact hk (h ▸ hm)

theorem encodes_handoff : (dict (advanceContext next (handoff payload result succeeded))).encodes ↔
    ((dict (result.pop "_pipeline_updates")).encodes ∧
      (succeeded → ∀ key ∈ pipelineUpdateKeys, ∀ v, update result key = some v → v.encodes)) ∧
    (dict (advanceContext next (payload.without ("result" :: replacedKeys succeeded result)))).encodes := by
  rw [encodes_advanceContext get_handoff (fun _ => mem_handoff) added_ne, added_encodes]

theorem buildHandoff_postable :
    (∃ p, buildHandoff env payload result next succeeded = .ok p ∧ Postable p) ↔
      HandsOver env payload result next succeeded := by
  constructor
  case mp =>
    rintro ⟨p, hp, ⟨he, ⟨stream, hs⟩, ⟨stage, ht⟩⟩⟩
    have ⟨hc, hu, phase, hp, hq, hn, hf⟩ := (buildHandoff_eq_ok env).mp hp
    have ⟨⟨hr, hv⟩, ha⟩ := encodes_handoff.mp (hf ▸ he)
    exact {
      copies := hc
      fields := hr
      updates := fun h key hk v hg => ⟨hu h key hk v hg, hv h key hk v hg⟩
      payload := ha
      target := ⟨phase, stream, stage, hp, hs ▸ hq, ht ▸ hn⟩ }
  case mpr =>
    rintro ⟨hc, hr, hu, ha, phase, stream, stage, hp, hq, hn⟩
    have hcopy : succeeded → ∀ key ∈ pipelineUpdateKeys, ∀ v, update result key = some v → v.copyError = none :=
      fun h key hk v hg => (hu h key hk v hg).left
    have henc : succeeded → ∀ key ∈ pipelineUpdateKeys, ∀ v, update result key = some v → v.encodes :=
      fun h key hk v hg => (hu h key hk v hg).right
    refine ⟨⟨.str stream, advanceContext next (handoff payload result succeeded), .str stage⟩, ?_, ?_⟩
    · exact (buildHandoff_eq_ok env).mpr ⟨hc, hcopy, phase, hp, hq, hn, rfl⟩
    · exact ⟨encodes_handoff.mpr ⟨⟨hr, henc⟩, ha⟩, ⟨stream, rfl⟩, ⟨stage, rfl⟩⟩

end Handoff

section Results

-- The fields that belong to the execution move there, where the first of two with one name stays.
def Moves (result : Dict) (f : String × String) : Prop :=
  f ∈ executionFields ∧ (f.1 = "artifacts" → ¬result.contains "outputs")

structure EndsUp (payload result : Dict) : Prop where
  named : ∃ fallback text, orElse (payload.entry "run_id") (.str "") = .ok fallback ∧
    env.str (result.getD "run_id" fallback) = .ok text
  shown : ∃ text, env.str (status result) = .ok text
  request : (dict (buildRequestEnvelope payload)).encodes
  moved : ∀ f, Moves result f → ∀ v, result.get f.1 = some v → v.encodes
  fields : (dict (result.without (["_pipeline_updates", "run_id", "status"] ++
    executionFields.map (·.1)))).encodes

variable {payload result d d' x : Dict} {v t : Value}

theorem encodes_of_str (h : env.str v = .ok t) : t.encodes ∧ (strip t).encodes := by
  have ht : t = .surrogate ∨ ∃ s, t = .str s := by
    rw [Env.str.eq_def] at h
    split at h <;> cases h <;> simp
  obtain rfl | ⟨s, rfl⟩ := ht <;> simp [strip, Value.encodes]

theorem moved_fst :
    e ∈ (moveExecutionFields (d, x)).1 ↔ e ∈ d ∧ ∀ key ∈ executionFields.map (·.1), e.1 ≠ .str key := by
  simp [moveExecutionFields, executionFields, mem_moveExecutionField, and_assoc]

theorem moved_snd (hx : ∀ f ∈ executionFields, ¬x.contains f.2) :
    (dict (moveExecutionFields (d, x)).2).encodes ↔
      (dict x).encodes ∧ ∀ f, Moves d f → ∀ v, d.get f.1 = some v → v.encodes := by
  simp only [executionFields, List.forall_mem_cons, Bool.not_eq_true] at hx
  simp [moveExecutionFields, executionFields, encodes_moveExecutionField, contains_moveExecutionField,
    get_moveExecutionField, Moves, hx, and_assoc, or_imp, forall_and]
  intros
  exact ⟨fun h hn v hv => h v hv hn, fun h v hv hn => h hn v hv⟩

theorem truth_of_encodes (h : v.encodes) : ∃ b, truth v = .ok b := by
  cases v
  case object => simp [Value.encodes] at h
  all_goals exact ⟨_, rfl⟩

theorem findPrimary_of_encodes (h : ∀ x ∈ xs, x.encodes) :
    ∃ p, findPrimary xs = .ok p := by
  induction xs
  case nil => exact ⟨none, rfl⟩
  case cons x xs hi =>
    have ⟨hx, hr⟩ := List.forall_mem_cons.mp h
    have ⟨p, hp⟩ := hi hr
    cases x
    case dict entry =>
      have ⟨b, hb⟩ := truth_of_encodes (Value.encodes_entry hx : (Dict.entry entry "primary").encodes)
      cases b <;> simp [findPrimary, hb, hp, bind_eq_ok]
    all_goals exact ⟨p, hp⟩

theorem firstPath_encodes (h : firstPath d = some v) : v.encodes := by
  have ⟨key, _, hk⟩ := List.exists_of_findSome?_eq_some h
  split at hk
  case h_1 =>
    split at hk <;> cases hk
    rfl
  case h_2 =>
    cases hk
    rfl
  case h_3 => cases hk

theorem derivePrimaryOutputPath_of_encodes (h : ∀ v, outputs = some v → v.encodes) :
    ∃ path, derivePrimaryOutputPath outputs = .ok path ∧ ∀ v, path = some v → v.encodes := by
  rw [derivePrimaryOutputPath.eq_def]
  split
  case h_1 first rest =>
    have ⟨p, hp⟩ := findPrimary_of_encodes (Value.encodes_list.mp (h _ rfl))
    rw [hp]
    cases p
    case none =>
      refine ⟨_, rfl, fun v hv => ?_⟩
      have ⟨entry, _, he⟩ := Option.bind_eq_some_iff.mp hv
      exact firstPath_encodes he
    case some entry => exact ⟨_, rfl, fun v hv => firstPath_encodes hv⟩
  case h_2 => exact ⟨none, rfl, nofun⟩

theorem withOutputPath_encodes :
    (∃ y, withOutputPath x = .ok y ∧ (dict y).encodes) ↔ (dict x).encodes := by
  by_cases hc : x.contains "output_path"
  case pos => simp [withOutputPath, hc]
  case neg =>
    simp only [withOutputPath, hc, Bool.false_eq_true, if_false, bind_eq_ok, pure_eq_ok]
    constructor
    case mp =>
      rintro ⟨_, ⟨path, -, rfl⟩, he⟩
      refine encodes_dict.mpr fun e hx =>
        encodes_dict.mp he e (mem_setIfSome.mpr (.inr ⟨hx, fun _ hk => ?_⟩))
      exact hc (contains_iff.mpr ⟨e.2, hk ▸ hx⟩)
    case mpr =>
      intro he
      obtain ⟨path, hp, hv⟩ := derivePrimaryOutputPath_of_encodes
        fun v (hv : x.get "outputs" = some v) => Value.encodes_of_get he hv
      refine ⟨_, ⟨path, hp, rfl⟩, encodes_dict.mpr fun e hy => ?_⟩
      obtain ⟨v, hs, rfl⟩ | ⟨hx, -⟩ := mem_setIfSome.mp hy
      case inl => exact ⟨by simp, hv v hs⟩
      case inr => exact encodes_dict.mp he e hx

theorem workflowName_encodes (h : workflowName payload = .ok w) (v : Value) (hw : w = some v) :
    v.encodes := by
  simp only [workflowName, bind_eq_ok] at h
  have ⟨name, _, hn⟩ := h
  subst hw
  split at hn
  case h_1 =>
    split at hn <;> cases hn
    rfl
  case h_2 =>
    cases hn
    rfl
  case h_3 => cases hn

section Base

variable {streamName : String} {runId status : Value} {workflow : Option Value} {request execution plugin : Dict}

theorem executionBase_encodes (streamName : String) (hr : runId.encodes) (hs : status.encodes)
    (hw : ∀ v, workflow = some v → v.encodes) :
    (dict (executionBase env streamName runId status workflow)).encodes := by
  refine encodes_dict.mpr fun e he => ?_
  obtain ⟨v, hv, rfl⟩ | ⟨he, -⟩ := mem_setIfSome.mp he
  case inl => exact ⟨by simp, hw v hv⟩
  case inr =>
    simp only [List.mem_cons, List.not_mem_nil, or_false] at he
    obtain rfl | rfl | rfl | rfl := he <;> simp [*, Value.encodes]

theorem executionBase_not_contains :
    ∀ f ∈ executionFields, ¬(executionBase env streamName runId status workflow).contains f.2 := by
  intro f hf hc
  have ⟨v, hv⟩ := contains_iff.mp hc
  have hk : f.2 ∈ ["workflow", "run_id", "status", "gpu_stream", "completed_at"] := by
    obtain ⟨_, -, he⟩ | ⟨he, -⟩ := mem_setIfSome.mp hv <;> simp_all
    grind
  have hd : ∀ f ∈ executionFields, f.2 ∉ ["workflow", "run_id", "status", "gpu_stream", "completed_at"] := by decide
  exact hd f hf hk

theorem resultsEnvelope_encodes (hr : runId.encodes) (hs : status.encodes) (hw : ∀ v, workflow = some v → v.encodes) :
    (dict (resultsEnvelope env streamName runId status workflow request execution plugin)).encodes ↔
      (dict request).encodes ∧ (dict execution).encodes ∧ (dict plugin).encodes := by
  rw [encodes_dict]
  constructor
  case mp =>
    intro h
    refine ⟨(h (.str "request", _) ?_).right, (h (.str "execution", _) ?_).right, (h (.str "payload", _) ?_).right⟩
    all_goals exact mem_setIfSome.mpr (.inr ⟨by simp, by simp⟩)
  case mpr =>
    rintro ⟨hq, hx, hp⟩ e he
    obtain ⟨v, hv, rfl⟩ | ⟨he, -⟩ := mem_setIfSome.mp he
    case inl => exact ⟨by simp, hw v hv⟩
    case inr =>
      simp only [List.mem_cons, List.not_mem_nil, or_false] at he
      obtain rfl | rfl | rfl | rfl | rfl | rfl | rfl := he <;> simp_all [Value.encodes]

end Base

-- What is left of a result for the execution and for the payload.
def own (result : Dict) : Dict :=
  result.without ["_pipeline_updates", "run_id", "status"]

theorem get_own (h : f ∈ executionFields) : (own result).get f.1 = result.get f.1 := by
  have hd : ∀ f ∈ executionFields, f.1 ∉ ["_pipeline_updates", "run_id", "status"] := by decide
  exact get_without_of_not_mem (hd f h)

theorem moves_own : Moves (own result) f ↔ Moves result f := by
  have ho : (own result).get "outputs" = result.get "outputs" := get_own (f := ("outputs", "outputs")) (by decide)
  simp only [Moves, Dict.contains, ho]

theorem own_moved : (∀ f, Moves (own result) f → ∀ v, (own result).get f.1 = some v → v.encodes) ↔
    ∀ f, Moves result f → ∀ v, result.get f.1 = some v → v.encodes := by
  refine forall_congr' fun f => ?_
  rw [moves_own]
  refine forall_congr' fun h => ?_
  rw [get_own h.left]

theorem own_fields : (dict (moveExecutionFields (own result, x)).1).encodes ↔
    (dict (result.without (["_pipeline_updates", "run_id", "status"] ++ executionFields.map (·.1)))).encodes := by
  simp only [encodes_dict, moved_fst, own, mem_without, List.forall_mem_append, and_assoc]

theorem buildResultsEnvelope_eq_ok :
    buildResultsEnvelope env streamName payload (result.pop "_pipeline_updates") = .ok d ↔
      ∃ workflow, workflowName payload = .ok workflow ∧
      ∃ fallback, orElse (payload.entry "run_id") (.str "") = .ok fallback ∧
      ∃ text, env.str (result.getD "run_id" fallback) = .ok text ∧
      ∃ st, env.str (status result) = .ok st ∧
      ∃ execution, withOutputPath (moveExecutionFields
        (own result, executionBase env streamName (strip text) st workflow)).2 = .ok execution ∧
      resultsEnvelope env streamName (strip text) st workflow (buildRequestEnvelope payload) execution
        (moveExecutionFields (own result, executionBase env streamName (strip text) st workflow)).1 = d := by
  have hr (v : Value) : (result.pop "_pipeline_updates").getD "run_id" v = result.getD "run_id" v := by
    rw [Dict.getD, Dict.getD, get_pop_of_ne (by decide)]
  have hs : status (result.pop "_pipeline_updates") = status result := by
    rw [status, status, Dict.getD, Dict.getD, get_pop_of_ne (by decide)]
  simp only [buildResultsEnvelope, bind_eq_ok, pure_eq_ok, hr, hs]
  rfl

theorem buildResultsEnvelope_encodes (streamName : String) :
    (∃ d, buildResultsEnvelope env streamName payload (result.pop "_pipeline_updates") = .ok d ∧
      (dict d).encodes) ↔
      (∃ w, workflowName payload = .ok w) ∧ EndsUp env payload result := by
  simp only [buildResultsEnvelope_eq_ok]
  constructor
  case mp =>
    rintro ⟨_, ⟨w, hw, fallback, hf, text, ht, st, hs, execution, hx, rfl⟩, he⟩
    have hr := (encodes_of_str env ht).right
    have hst := (encodes_of_str env hs).left
    have ⟨hq, hex, hp⟩ := (resultsEnvelope_encodes env hr hst (workflowName_encodes hw)).mp he
    have hmv := (moved_snd (executionBase_not_contains env)).mp (withOutputPath_encodes.mp ⟨_, hx, hex⟩)
    exact ⟨⟨w, hw⟩, ⟨fallback, text, hf, ht⟩, ⟨st, hs⟩, hq, own_moved.mp hmv.right, own_fields.mp hp⟩
  case mpr =>
    rintro ⟨⟨w, hw⟩, ⟨fallback, text, hf, ht⟩, ⟨st, hs⟩, hq, hm, hp⟩
    have hr := (encodes_of_str env ht).right
    have hst := (encodes_of_str env hs).left
    have hb := executionBase_encodes env streamName hr hst (workflowName_encodes hw)
    have ⟨execution, hx, hex⟩ := withOutputPath_encodes.mpr
      ((moved_snd (executionBase_not_contains env)).mpr ⟨hb, own_moved.mpr hm⟩)
    refine ⟨_, ⟨w, hw, fallback, hf, text, ht, st, hs, execution, hx, rfl⟩, ?_⟩
    exact (resultsEnvelope_encodes env hr hst (workflowName_encodes hw)).mpr ⟨hq, hex, own_fields.mpr hp⟩

end Results

section Primary

-- Whether the output of a run can be built, encoded and sent.
inductive Sends (payload result : Dict) : Prop
  | handoff {nextStage : Option Dict} {succeeded : Bool} {next : Dict} (hn : nextPluginStage payload = .ok nextStage)
      (hs : isSuccessStatus env (status result) = .ok succeeded)
      (hh : nextStage.filter (handsOff succeeded) = some next)
      (h : HandsOver env payload result next succeeded)
  | results {nextStage : Option Dict} {succeeded : Bool} (hn : nextPluginStage payload = .ok nextStage)
      (hs : isSuccessStatus env (status result) = .ok succeeded) (hh : nextStage.filter (handsOff succeeded) = none)
      (h : EndsUp env payload result)

variable {payload result : Dict}

theorem orElse_of_truth (h : truth v = .ok b) : orElse v w = .ok (if b then v else w) := by
  rw [orElse, h]
  cases b <;> rfl

theorem workflowName_of_nextPluginStage (h : nextPluginStage payload = .ok next?) :
    ∃ w, workflowName payload = .ok w := by
  simp only [nextPluginStage, bind_eq_ok] at h
  have ⟨b, hb, _⟩ := h
  simp only [workflowName, orElse_of_truth hb]
  cases (if b then payload.entry "workflow_id" else payload.entry "workflow") <;> exact ⟨_, rfl⟩

theorem buildPrimaryCompletion_postable (streamName : String) :
    (∃ p, buildPrimaryCompletion env streamName payload result = .ok p ∧ Postable p) ↔ Sends env payload result := by
  simp only [buildPrimaryCompletion, bind_eq_ok]
  constructor
  case mp =>
    rintro ⟨p, ⟨nextStage, hn, succeeded, hs, hb⟩, hp⟩
    split at hb
    case h_1 next hh => exact .handoff hn hs hh ((buildHandoff_postable env).mp ⟨p, hb, hp⟩)
    case h_2 hh =>
      have ⟨d, hd, he⟩ := bind_eq_ok.mp hb
      cases he
      exact .results hn hs hh ((buildResultsEnvelope_encodes env streamName).mp ⟨d, hd, hp.payload⟩).right
  case mpr =>
    rintro (⟨hn, hs, hh, h⟩ | ⟨hn, hs, hh, h⟩)
    case handoff next? succeeded next =>
      have ⟨p, hb, hp⟩ := (buildHandoff_postable env).mpr h
      exact ⟨p, ⟨_, hn, _, hs, by rw [hh]; exact hb⟩, hp⟩
    case results next? succeeded =>
      have ⟨d, hd, he⟩ := (buildResultsEnvelope_encodes env streamName).mpr ⟨workflowName_of_nextPluginStage hn, h⟩
      refine ⟨⟨.str "results", d, .str "results"⟩, ⟨_, hn, _, hs, ?_⟩, ⟨he, ⟨_, rfl⟩, ⟨_, rfl⟩⟩⟩
      rw [hh]
      exact bind_eq_ok.mpr ⟨d, hd, rfl⟩

end Primary

end Inference
