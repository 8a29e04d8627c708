import ServeModel.Inference.Theorems.Completion
import ServeModel.Inference.Theorems.Ordinary

-- Payloads come from JSON texts. What the worker computes from them raises nothing, and is JSON again.
namespace Inference

open Python List
open Value (dict isJson_str)

variable (env : Env)

-- A computation that ends well, with a value of this kind.
def Gives {α : Type} (P : α → Prop) (x : M α) : Prop :=
  ∃ a, x = .ok a ∧ P a

namespace Gives

variable {α β : Type}

theorem pure (h : P a) : Gives P (Pure.pure a : M α) :=
  ⟨a, rfl, h⟩

theorem bind (hx : Gives P x) (hf : ∀ a, P a → Gives Q (f a)) : Gives Q (x >>= f) := by
  have ⟨a, ha, hp⟩ := hx
  have ⟨b, hb, hq⟩ := hf a hp
  exact ⟨b, Except.bind_eq_ok.mpr ⟨a, ha, hb⟩, hq⟩

theorem ite [Decidable p] (hx : Gives P x) (hy : Gives P y) :
    Gives P (if p then x else y) := by
  split <;> assumption

end Gives

section Values

variable {v w : Value} {d : Dict}

def IsText (v : Value) : Prop :=
  ∃ s, v = .str s

theorem IsText.isJson (h : IsText v) : v.IsJson := by
  obtain ⟨s, rfl⟩ := h
  exact isJson_str

theorem truth_isJson (h : v.IsJson) : Gives (fun _ => True) (truth v) := by
  have ⟨b, hb⟩ := truth_of_encodes h.encodes
  exact ⟨b, hb, trivial⟩

theorem str_isJson (h : v.IsJson) : Gives IsText (env.str v) := by
  obtain ⟨j, rfl⟩ := h
  have h := Value.textError_ofJson j
  rw [Env.str.eq_def, h]
  cases j <;> exact ⟨_, rfl, _, rfl⟩

theorem orElse_isJson (hv : v.IsJson) (hw : w.IsJson) : Gives Value.IsJson (orElse v w) :=
  (truth_isJson hv).bind fun _ _ => .ite (.pure hv) (.pure hw)

theorem strip_isText (h : IsText v) : IsText (strip v) := by
  obtain ⟨s, rfl⟩ := h
  exact ⟨_, rfl⟩

theorem stripped_isJson (h : v.IsJson) (text : String) : Gives IsText (env.stripped v text) :=
  (orElse_isJson h isJson_str).bind fun _ ha => (str_isJson env ha).bind fun _ hb => .pure (strip_isText hb)

theorem firstTrue_isJson (h : ∀ v ∈ vs, v.IsJson) : Gives Value.IsJson (firstTrue vs) := by
  fun_induction firstTrue
  case case1 => exact .pure isJson_str
  case case2 v => exact orElse_isJson (h v (.head _)) isJson_str
  case case3 vs hi =>
    obtain ⟨hv, hr⟩ := forall_mem_cons.mp h
    exact (truth_isJson hv).bind fun _ _ => .ite (.pure hv) (hi hr)

end Values

section Publication

variable {d storage : Dict} {v workflowId runId : Value}

theorem setIfSome_isJson (h : (dict d).IsJson) (hv : ∀ v, v? = some v → v.IsJson) :
    (dict (setIfSome key v? d)).IsJson := by
  cases v?
  case none => exact h
  case some v => exact h.set (hv v rfl)

theorem onText_isText (h : IsText v) : IsText (onText f v) := by
  obtain ⟨s, rfl⟩ := h
  exact ⟨_, rfl⟩

theorem mapM_asStr_ne_none {vs : List Value} (h : ∀ v ∈ vs, IsText v) : vs.mapM Value.asStr ≠ none := by
  induction vs
  case nil => nofun
  case cons v vs hi =>
    have ⟨⟨s, hs⟩, hr⟩ := forall_mem_cons.mp h
    have ⟨texts, ht⟩ := Option.ne_none_iff_exists'.mp (hi hr)
    simp [mapM_cons, hs, Value.asStr, ht]

theorem joinPath_isText {parts : List Value} (h : ∀ v ∈ parts, IsText v) : IsText (joinPath parts) := by
  rw [joinPath]
  split
  case h_1 => exact ⟨_, rfl⟩
  case h_2 hn => exact absurd hn (mapM_asStr_ne_none fun v hv => h v (mem_of_mem_filter hv))

theorem strippedField_isJson (h : (dict storage).IsJson) (hs : strippedField storage key = some v) :
    v.IsJson := by
  rw [strippedField] at hs
  split at hs
  case h_1 =>
    rw [nonEmpty] at hs
    split at hs <;> cases hs
    exact isJson_str
  case h_2 hg => exact Option.some.inj hs ▸ h.get hg
  case h_3 => cases hs

def PlainIfAny (d? : Option Dict) : Prop :=
  ∀ d, d? = some d → (dict d).IsJson

theorem PlainIfAny.none : PlainIfAny none :=
  nofun

theorem PlainIfAny.some (h : (dict d).IsJson) : PlainIfAny (some d) := by
  intro _ hd
  cases hd
  exact h

theorem isJson_cons (hv : v.IsJson) (h : (dict d).IsJson) :
    (dict ((.str key, v) :: d)).IsJson := by
  obtain ⟨fs, rfl⟩ := h.fields
  obtain ⟨j, rfl⟩ := hv
  exact ⟨.obj ((key, j) :: fs), rfl⟩

theorem isJson_nil : (dict []).IsJson :=
  ⟨.obj [], rfl⟩

theorem resolveStorage_isJson (h : (dict storage).IsJson) (hp : IsText path) :
    Gives PlainIfAny (resolveStorage env storage provider path) := by
  rw [resolveStorage.eq_def]
  split
  case h_1 =>
    refine (stripped_isJson env h.entry _).bind fun bucket hb => (truth_isJson hb.isJson).bind fun _ _ => ?_
    refine .ite (.pure .none) (.pure (.some (setIfSome_isJson (setIfSome_isJson ?_ ?_) ?_)))
    · exact isJson_cons isJson_str (isJson_cons hb.isJson (isJson_cons hp.isJson isJson_nil))
    all_goals exact fun v hv => strippedField_isJson h hv
  case h_2 =>
    refine (stripped_isJson env h.entry _).bind fun container hc =>
      (stripped_isJson env h.entry _).bind fun endpoint he => ?_
    have hc : IsText (onText trimSlashes container) := onText_isText hc
    refine (truth_isJson hc.isJson).bind fun _ _ => (truth_isJson he.isJson).bind fun _ _ =>
      .ite (.pure .none) (.pure (.some ?_))
    have he : IsText (onText trimLastSlashes endpoint) := onText_isText he
    exact isJson_cons isJson_str
      (isJson_cons hc.isJson (isJson_cons hp.isJson (isJson_cons he.isJson isJson_nil)))
  case h_3 => exact .pure .none

theorem outputPublicationFromEnv_isJson (hw : IsText workflowId) (hr : IsText runId) :
    Gives PlainIfAny (outputPublicationFromEnv env workflowId runId) := by
  refine (truth_isJson hw.isJson).bind fun _ _ => (truth_isJson hr.isJson).bind fun _ _ => .ite (.pure .none) ?_
  split
  case h_2 => exact .pure .none
  case h_1 config hc =>
    have ⟨j, _, hj⟩ := Option.map_eq_some_iff.mp hc
    have hc : (dict config).IsJson := ⟨j, hj.symm⟩
    refine (truth_isJson hc.entry).bind fun _ _ => .ite (.pure .none) ?_
    split
    case h_2 => exact .pure .none
    case h_1 storage hs =>
      have hs : (dict storage).IsJson := hc.get hs
      refine (stripped_isJson env hs.entry _).bind fun provider _ => ?_
      refine (orElse_isJson hs.entry isJson_str).bind fun root hroot =>
        (str_isJson env hroot).bind fun root hroot => ?_
      have hp : IsText (joinPath [root, workflowId, runId]) := joinPath_isText (by simp [hroot, hw, hr])
      refine (resolveStorage_isJson env hs hp).bind fun resolved hres => ?_
      split
      case h_2 => exact .pure .none
      case h_1 resolved =>
        refine .pure (.some (isJson_cons (isJson_cons isJson_str (isJson_cons isJson_str ?_)) isJson_nil))
        exact isJson_cons (hres resolved rfl) isJson_nil

theorem publishStage_isJson (h : v.IsJson) : (publishStage v).IsJson :=
  isJson_cons isJson_str (isJson_cons isJson_str (isJson_cons isJson_str
    (isJson_cons isJson_str (isJson_cons h isJson_nil))))

theorem insertPublish_isJson {id : String} (h : ∀ v ∈ pipeline, v.IsJson) :
    ∀ v ∈ insertPublish id pipeline, v.IsJson := by
  fun_induction insertPublish
  case case1 => exact h
  case case2 stage stages _ =>
    have ⟨hs, hr⟩ := forall_mem_cons.mp h
    exact forall_mem_cons.mpr ⟨hs.set isJson_str, forall_mem_cons.mpr ⟨publishStage_isJson hs.entry, hr⟩⟩
  case case3 hi | case4 hi =>
    have ⟨hs, hr⟩ := forall_mem_cons.mp h
    exact forall_mem_cons.mpr ⟨hs, hi hr⟩

theorem ensurePublishStageAfterExecute_isJson (h : (dict d).IsJson) :
    (dict (ensurePublishStageAfterExecute d)).IsJson := by
  rw [ensurePublishStageAfterExecute]
  split
  case h_2 => exact h
  case h_1 context hc =>
    have hc : (dict context).IsJson := h.get hc
    split
    case h_2 => exact h
    case h_1 pipeline _ hp _ =>
      split
      case h_2 => exact h
      case h_1 =>
        split
        case isFalse => exact h
        case isTrue =>
          have hp := Value.isJson_list.mp (hc.get hp)
          exact h.set (hc.set (Value.isJson_list.mpr (insertPublish_isJson hp)))

theorem copyMissing_isJson {keys : List String} (h : (dict d).IsJson) (hs : (dict source).IsJson) :
    (dict (copyMissing source keys d)).IsJson := by
  induction keys generalizing d
  case nil => exact h
  case cons key keys hi =>
    rw [copyMissing, foldl_cons]
    refine hi ?_
    split
    case h_1 hg => exact h.setDefault (hs.get hg)
    case h_2 => exact h

theorem addContext_isJson (h : (dict d).IsJson) (hb : (dict batch).IsJson) :
    (dict (addContext batch d)).IsJson := by
  rw [addContext]
  split
  case h_1 hg => exact h.set (hb.get hg)
  case h_2 => exact h

theorem addPublication_isJson {batch : Dict} (hb : (dict batch).IsJson) (h : (dict d).IsJson)
    (hr : IsText runId) : Gives (fun own => (dict own).IsJson) (addPublication env batch d runId) := by
  refine .ite (.pure h) ?_
  have hw : ∀ v ∈ [d.entry "workflow_id", batch.entry "workflow_id"], v.IsJson := by
    simp [h.entry, hb.entry]
  refine (firstTrue_isJson hw).bind fun w hw => (str_isJson env hw).bind fun w hw => ?_
  refine (outputPublicationFromEnv_isJson env (strip_isText hw) hr).bind fun publication hp => ?_
  refine .pure (setIfSome_isJson h fun v hv => ?_)
  obtain ⟨d, hd, rfl⟩ := Option.map_eq_some_iff.mp hv
  exact hp d hd

theorem batchItemCompletionPayload_isJson {batch : Dict} (hb : (dict batch).IsJson) (h : (dict d).IsJson) :
    Gives (fun own => (dict own).IsJson) (batchItemCompletionPayload env batch d) := by
  obtain ⟨fs, rfl⟩ := h.fields
  have hn : raiseIf (dict (Value.ofFields fs)).copyError = .ok () :=
    raiseIf_eq_ok.mpr (Value.copyError_ofJson (.obj fs))
  have hr :
      ∀ v ∈ [Dict.entry (Value.ofFields fs) "run_id", batch.entry "run_id", batch.entry "batch_id"], v.IsJson := by
    simp [h.entry, hb.entry]
  rw [batchItemCompletionPayload, hn]
  refine (firstTrue_isJson hr).bind fun runId hr => (str_isJson env hr).bind fun text ht => ?_
  refine (addPublication_isJson env hb (copyMissing_isJson (addContext_isJson h hb) hb) (strip_isText ht)).bind ?_
  refine fun own ho => .pure ?_
  split
  case isTrue => exact ensurePublishStageAfterExecute_isJson ho
  case isFalse => exact ho

end Publication

section Stages

variable {d stage : Dict}

theorem findStage_isJson {id : String} (h : ∀ v ∈ pipeline, v.IsJson)
    (hf : findStage pipeline id = some stage) : (dict stage).IsJson := by
  have ⟨v, hv, hs⟩ := Option.bind_eq_some_iff.mp hf
  have hj := h v (mem_of_find?_eq_some hv)
  cases v
  case dict d => exact Option.some.inj hs ▸ hj
  all_goals cases hs

theorem nextStageOf_eq_some (h : nextStageOf context = some stage) :
    ∃ pipeline id, context.get "pipeline" = some (.list pipeline) ∧ findStage pipeline id = some stage := by
  rw [nextStageOf] at h
  split at h
  case h_2 => cases h
  case h_1 pipeline _ hp _ =>
    split at h
    case h_1 => cases h
    case h_2 =>
      split at h
      case h_1 | h_3 =>
        split at h
        case isTrue => exact ⟨pipeline, _, hp, h⟩
        case isFalse => cases h
      case h_2 | h_4 => cases h

theorem nextPluginStage_isJson (h : (dict d).IsJson) : Gives PlainIfAny (nextPluginStage d) := by
  refine (truth_isJson h.entry).bind fun _ _ => .ite ?_ (.pure .none)
  split
  case h_2 => exact .pure .none
  case h_1 context hc =>
    refine .pure fun stage hs => ?_
    have ⟨pipeline, id, hp, hf⟩ := nextStageOf_eq_some hs
    exact findStage_isJson (Value.isJson_list.mp ((h.get hc).get hp)) hf

theorem advanceContext_encodes {next : Dict} (hn : (dict next).IsJson) (h : (dict d).encodes) :
    (dict (advanceContext next d)).encodes := by
  have he {key : String} : (next.entry key).encodes := Value.encodes_entry hn.encodes
  rw [advanceContext]
  split
  case h_1 context hc =>
    exact Value.encodes_set h (Value.encodes_set (Value.encodes_set (Value.encodes_of_get h hc) he) he)
  case h_2 => exact h

theorem buildRequestEnvelope_encodes (h : (dict d).encodes) : (dict (buildRequestEnvelope d)).encodes := by
  have hr : (dict (requestFields d)).encodes := by
    rw [requestFields]
    split
    case h_1 hg => exact Value.encodes_of_get h hg
    case h_2 => rfl
  have ho : (dict (addOperation d (requestFields d))).encodes := by
    rw [addOperation]
    split
    case h_1 =>
      split
      case isTrue => exact Value.encodes_setDefault hr rfl
      case isFalse => exact hr
    case h_2 => exact Value.encodes_setDefault hr rfl
    case h_3 => exact hr
  rw [buildRequestEnvelope, addParameters]
  split
  case h_1 hg => exact Value.encodes_setDefault ho (Value.encodes_of_get h hg)
  case h_2 => exact ho

theorem target_isJson (h : (dict stage).IsJson) : ∃ phase stream st,
    orElse (stagePhase stage) (.str "results") = .ok phase ∧ env.str (stage.getD "queue" phase) = .ok (.str stream) ∧
      env.str phase = .ok (.str st) := by
  have hp : (stagePhase stage).IsJson := h.entry
  have ⟨phase, hp, hj⟩ := orElse_isJson hp (isJson_str (s := "results"))
  have hq : (stage.getD "queue" phase).IsJson := by
    rw [Dict.getD]
    cases hg : stage.get "queue"
    case none => exact hj
    case some v => exact h.get hg
  obtain ⟨_, hs, stream, rfl⟩ := str_isJson env hq
  obtain ⟨_, ht, st, rfl⟩ := str_isJson env hj
  exact ⟨phase, stream, st, hp, hs, ht⟩

end Stages

section Sends

variable {d result : Dict}

-- A result whose values all go through the encoder is no obstacle.
theorem sends_of_encodes {succeeded : Bool} (hd : (dict d).IsJson)
    (hr : (dict (result.pop "_pipeline_updates")).encodes)
    (hu : succeeded → ∀ key ∈ pipelineUpdateKeys, ∀ v, update result key = some v → v.copyError = none ∧ v.encodes)
    (hs : isSuccessStatus env (status result) = .ok succeeded) (ht : env.str (status result) = .ok text)
    (hn : result.get "run_id" = some (.str runId)) : Sends env d result := by
  have ⟨next?, hg, hf⟩ := nextPluginStage_isJson hd
  have ⟨fs, hfs⟩ := hd.fields
  cases hh : next?.filter (handsOff succeeded)
  case some next =>
    have hj := hf next (Option.eq_some_of_filter_eq_some hh)
    exact .handoff hg hs hh {
      copies := hfs ▸ Value.copyError_ofJson (.obj fs)
      fields := hr
      updates := hu
      payload :=
        advanceContext_encodes hj (Value.encodes_of_subset hd.encodes fun _ he => (Dict.mem_without.mp he).left)
      target := target_isJson env hj }
  case none =>
    have hr' : (d.entry "run_id").IsJson := hd.entry
    have ⟨fallback, hb, _⟩ := orElse_isJson hr' (isJson_str (s := ""))
    have hk : ∀ f ∈ executionFields, f.1 ≠ "_pipeline_updates" := by decide
    exact .results hg hs hh {
      named := ⟨fallback, .str runId, hb, by rw [Dict.getD, hn]; rfl⟩
      shown := ⟨text, ht⟩
      request := buildRequestEnvelope_encodes hd.encodes
      moved := fun f hm v hv => Value.encodes_of_get hr ((Dict.get_pop_of_ne (hk f hm.left)).trans hv)
      fields := Value.encodes_of_subset hr fun _ he =>
        have ⟨he, hn⟩ := Dict.mem_without.mp he
        Dict.mem_pop.mpr ⟨he, hn _ (.head _)⟩ }

end Sends

end Inference
