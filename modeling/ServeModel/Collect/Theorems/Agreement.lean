import ServeModel.Collect.Payload
import ServeModel.Scheduler.Theorems.Fanout

-- What the scheduler reports about the children of a fanout parent, and what collect makes of it.
namespace Collect

open Json Scheduler Option

section Decode

theorem decode_profile_obj :
    FanoutProfile.decode (.obj fs) = some profile ↔ required asU64 (field "item_count" fs) = some profile.itemCount ∧
      withDefault none (Json.optional FailurePolicy.decode) (field "failure_policy" fs) =
        some profile.failurePolicy := by
  have ⟨count, policy⟩ := profile
  simp [FanoutProfile.decode, structFields, bind_eq_some_iff]

theorem decode_item_obj :
    FanoutItemRef.decode (.obj fs) = some item ↔ required asU64 (field "item_index" fs) = some item.itemIndex := by
  have ⟨index⟩ := item
  simp [FanoutItemRef.decode, structFields, bind_eq_some_iff]

theorem decode_envelope_obj :
    CollectEnvelope.decode (.obj fs) = some typed ↔ field "workflow_id" fs = some (.str typed.workflowId) ∧
      field "parent_run_id" fs = some (.str typed.parentRunId) ∧
      required FanoutProfile.decode (field "fanout_profile" fs) = some typed.fanoutProfile ∧
      required FanoutItemRef.decode (field "fanout_item" fs) = some typed.fanoutItem ∧
      field "result" fs = some typed.result ∧
      required StageContext.decode (field "stage_context" fs) = some typed.stageContext := by
  have ⟨workflowId, parentRunId, profile, item, result, context⟩ := typed
  simp [CollectEnvelope.decode, structFields, bind_eq_some_iff, required_asStr_eq_some]

-- The values of `failure_policy` that collect knows.
def PolicyFits : Option Json → Prop
  | none | some .null => True
  | some j => ∃ name ∈ ["collect_all", "fail_fast"], j = .str name ∨ j = .obj [(name, .null)]

theorem ofName_isSome : (FailurePolicy.ofName name).isSome ↔ name ∈ ["collect_all", "fail_fast"] := by
  unfold FailurePolicy.ofName
  split <;> simp_all

theorem decode_policy_isSome :
    (FailurePolicy.decode j).isSome ↔
      ∃ name ∈ ["collect_all", "fail_fast"], j = .str name ∨ j = .obj [(name, .null)] := by
  unfold FailurePolicy.decode
  split
  case h_1 name =>
    rw [ofName_isSome]
    constructor
    case mp => exact fun h => ⟨name, h, .inl rfl⟩
    case mpr =>
      intro ⟨_, h, he⟩
      cases he
      case inl he => exact Json.str.inj he ▸ h
      case inr he => cases he
  case h_2 name =>
    rw [ofName_isSome]
    constructor
    case mp => exact fun h => ⟨name, h, .inr rfl⟩
    case mpr =>
      intro ⟨_, h, he⟩
      cases he
      case inl he => cases he
      case inr he =>
        cases he
        exact h
  case h_3 hs ho =>
    constructor
    case mp => exact fun h => nomatch h
    case mpr =>
      intro ⟨name, _, he⟩
      cases he
      case inl he => exact absurd he (hs name)
      case inr he => exact absurd he (ho name)

theorem policy_decodes_iff :
    (withDefault none (Json.optional FailurePolicy.decode) j?).isSome ↔ PolicyFits j? := by
  cases j?
  case none => simp [withDefault, PolicyFits]
  case some j =>
    cases j
    case null => simp [withDefault, Json.optional, PolicyFits]
    all_goals
      simp only [withDefault, Json.optional, PolicyFits, isSome_map]
      exact decode_policy_isSome

end Decode

section Report

variable {fs : Fields}

-- A child's payload at the gather stage, with its result.
def gatherFields (result : Json) (context fs : Fields) : Fields :=
  setField "stage_context" (.obj (setField "current_phase" (.str gatherPhase)
      (setField "current_stage_id" (.str gatherStageId) context)))
    (setField "result" result fs)

def childEnvelope (child result : Json) : Option Wire := do
  let fs ← child.asObject
  let (context, _) ← rawPipeline fs
  return .encode (.obj (gatherFields result context fs))

theorem childEnvelope_spliced {pipeline : List Json} (h : Spliced context pipeline)
    (hc : field "stage_context" fs = some (.obj context)) :
    childEnvelope (.obj fs) result = some (.encode (.obj (gatherFields result context fs))) := by
  simp [childEnvelope, rawPipeline, hc, h.listed, asObject, asArray]

-- A failure is reported like any other result.
theorem failedChildEnvelope_spliced {pipeline : List Json} (error : String) (h : Spliced context pipeline)
    (hc : field "stage_context" fs = some (.obj context)) :
    failedChildEnvelope (.obj fs) error =
      childEnvelope (.obj fs) (Json.object [("status", .str "failed"), ("error", .str error)]) := by
  have hr : rawPipeline fs = some (context, pipeline) := by simp [rawPipeline, hc, h.listed, asObject, asArray]
  simp only [failedChildEnvelope, childEnvelope, asObject, bind_eq_bind, bind_some, hr, h.gathers, if_true]
  rfl

theorem decode_gathered {pipeline : List Json} (h : Spliced context pipeline) :
    ∃ decoded, decoded.currentPhase = "collect" ∧ StageContext.decode (.obj (setField "current_phase" (.str gatherPhase)
      (setField "current_stage_id" (.str gatherStageId) context))) = some decoded := by
  have ⟨stages, hs⟩ := isSome_iff_exists.mp (isSome_mapM.mpr h.decodes)
  refine ⟨⟨gatherStageId, "collect", stages⟩, rfl, decode_context_obj.mpr ⟨?_, ?_, pipeline, ?_, hs⟩⟩
  · simp
  · simp [gatherPhase]
  · simp [h.listed]

def childIndex (child : Json) : Option Nat :=
  ((child.get "fanout_item").bind (·.get "item_index")).bind asU64

-- Collect takes the report that this child has failed, and sees in it the group and the child.
def ReportAccepted (runId : String) (count : Nat) (child : Output) (error : String) : Prop :=
  ∃ json report typed value, child.payload.json = some json ∧ failedChildEnvelope json error = some report ∧
    decodeCollectPayload report = .ok (typed, value) ∧ typed.parentRunId = runId ∧
    typed.fanoutProfile.itemCount = count ∧ childIndex json = some typed.fanoutItem.itemIndex

theorem asU64_nat : (Json.nat n).asU64 = some m ↔ n < 2 ^ 64 ∧ n = m := by
  simp only [Json.nat, asU64, asUnsigned, ite_none_right_eq_some, Option.some.injEq, Int.toNat_natCast]
  omega

-- The fields of a child that its report is decoded from.
structure Carries (fs : Fields) (workflowId runId : String) (profile item context : Fields) : Prop where
  workflow : field "workflow_id" fs = some (.str workflowId)
  parent : field "parent_run_id" fs = some (.str runId)
  profile : field "fanout_profile" fs = some (.obj profile)
  item : field "fanout_item" fs = some (.obj item)
  context : field "stage_context" fs = some (.obj context)

theorem decode_gatherFields {pipeline : List Json} (result : Json) (hs : Spliced context pipeline)
    (hc : Carries fs workflowId runId profile item context)
    (hw : ¬Text.isBlank workflowId) :
    ∃ decoded, ∀ typed value,
      decodeCollectPayload (.encode (.obj (gatherFields result context fs))) = .ok (typed, value) ↔
        typed = ⟨workflowId, runId, typed.fanoutProfile, typed.fanoutItem, result, decoded⟩ ∧
        value = .obj (gatherFields result context fs) ∧ ¬Text.isBlank runId ∧ typed.fanoutProfile.itemCount ≠ 0 ∧
        FanoutProfile.decode (.obj profile) = some typed.fanoutProfile ∧
        FanoutItemRef.decode (.obj item) = some typed.fanoutItem := by
  obtain ⟨decoded, hph, hd⟩ := decode_gathered hs
  refine ⟨decoded, fun typed value => ?_⟩
  simp only [decodeCollectPayload_encode, decodeEnvelope_ok_iff, decode_envelope_obj]
  simp only [gatherFields, ne_eq, not_false_eq_true, field_setField_of_ne, field_setField_self,
    String.reduceEq, hc.workflow, hc.parent, hc.profile, hc.item, required, bind_some, hd, Option.some.injEq,
    Json.str.injEq]
  obtain ⟨w, r, f, i, x, c⟩ := typed
  simp only [CollectEnvelope.mk.injEq, true_and]
  constructor
  case mp =>
    rintro ⟨_, ⟨hw, hp, hf, hi, hr, hx⟩, _, hb, _, hn, hv⟩
    cases hp
    exact ⟨⟨hw.symm, rfl, hr.symm, hx.symm⟩, hv, hb, hn, hf, hi⟩
  case mpr =>
    rintro ⟨⟨hw', hp, hr, hx⟩, hv, hb, hn, hf, hi⟩
    subst hw' hp hr hx
    exact ⟨by simp [asObject], ⟨rfl, rfl, hf, hi, rfl, rfl⟩, hw, hb, hph, hn, hv⟩

theorem decode_counted_profile {fs : Fields} :
    FanoutProfile.decode (.obj (setField "item_count" (.nat count) fs)) = some profile ↔
      (count < 2 ^ 64 ∧ count = profile.itemCount) ∧
      withDefault none (Json.optional FailurePolicy.decode) (field "failure_policy" fs) =
        some profile.failurePolicy := by
  rw [decode_profile_obj, field_setField_self, required_some, asU64_nat, field_setField_of_ne (by decide)]

-- What collect needs to know about the parent, apart from the indices of its items.
structure Collectable (runId : String) (count : Nat) (policy : Option Json) : Prop where
  named : ¬Text.isBlank runId
  counted : count < 2 ^ 64
  policy : PolicyFits policy

def itemIndex (position : Nat) (item : Json) : Option Nat :=
  ((item.get "item_index").getD (.nat position)).asU64

-- The result of a child as collect decodes it.
def received (child : Output) (result : Json) : Option (CollectEnvelope × Json) := do
  let json ← child.payload.json
  let report ← childEnvelope json result
  (decodeCollectPayload report).toOption

structure Identifies (runId : String) (count position : Nat) (item result : Json) (typed : CollectEnvelope)
    (value : Json) : Prop where
  index : itemIndex position item = some typed.fanoutItem.itemIndex
  parent : typed.parentRunId = runId
  count : typed.fanoutProfile.itemCount = count
  result : typed.result = result
  runId : value.get "run_id" = some (.str (childRunId runId position))

end Report

section Child

theorem carries_child (hp : IsParent payload count parent) (hc : IsChild parent runId position item child) :
    ∃ fs itemFields workflowId context pipeline, child.payload = .encode (.obj fs) ∧ item = .obj itemFields ∧
      field "run_id" fs = some (.str (childRunId runId position)) ∧ ¬Text.isBlank workflowId ∧
      Spliced context pipeline ∧ Carries fs workflowId runId
        (setField "item_count" (.nat count) (fanoutProfile payload)) (indexedItem position itemFields) context := by
  have ⟨itemFields, fs, hi, hj, hid, hr, hf, hk⟩ := hc.carried
  have ⟨workflowId, hw, hb⟩ := hp.workflow
  have ⟨context, pipeline, hx, hs⟩ := hp.context
  refine ⟨fs, itemFields, workflowId, context, pipeline, hj, hi, hid, hb, hs, ?_⟩
  exact {
    workflow := (hk _ (by decide)).trans hw
    parent := hr
    profile := (hk _ (by decide)).trans hp.profile
    item := hf
    context := (hk _ (by decide)).trans hx
  }

theorem decode_indexedItem {item : Fields} :
    FanoutItemRef.decode (.obj (indexedItem position item)) = some ref ↔
      itemIndex position (.obj item) = some ref.itemIndex := by
  rw [decode_item_obj, field_indexedItem, required_some]
  rfl

theorem received_eq {pipeline : List Json} (hj : child.payload = .encode (.obj fs)) (hs : Spliced context pipeline)
    (hx : field "stage_context" fs = some (.obj context)) :
    received child result = (decodeCollectPayload (.encode (.obj (gatherFields result context fs)))).toOption := by
  simp only [received, hj, Wire.encode, bind_eq_bind, bind_some, childEnvelope_spliced hs hx]

theorem received_spec (hp : IsParent payload count parent) (hc : IsChild parent runId position item child)
    (h : received child result = some (typed, value)) :
    Collectable runId count (field "failure_policy" (fanoutProfile payload)) ∧
      Identifies runId count position item result typed value := by
  have ⟨fs, itemFields, workflowId, context, pipeline, hj, hi, hid, hb, hs, hcarries⟩ := carries_child hp hc
  have ⟨decoded, hd⟩ := decode_gatherFields result hs hcarries hb
  rw [received_eq hj hs hcarries.context, Except.toOption_eq_some] at h
  have ⟨ht, hv, hr, _, hf, hx⟩ := (hd typed value).mp h
  have ⟨⟨hl, hn⟩, hpolicy⟩ := decode_counted_profile.mp hf
  have hfits := policy_decodes_iff.mp (isSome_iff_exists.mpr ⟨_, hpolicy⟩)
  refine ⟨⟨hr, hl, hfits⟩, ⟨?_, ?_, hn.symm, ?_, ?_⟩⟩
  · exact hi ▸ decode_indexedItem.mp hx
  · rw [ht]
  · rw [ht]
  · simp [hv, gatherFields, hid]

theorem received_isSome (hp : IsParent payload count parent) (hn : count ≠ 0)
    (hc : IsChild parent runId position item child) :
    (received child result).isSome ↔ Collectable runId count (field "failure_policy" (fanoutProfile payload)) ∧
      (itemIndex position item).isSome := by
  constructor
  case mp =>
    intro h
    have ⟨⟨typed, value⟩, h⟩ := isSome_iff_exists.mp h
    have ⟨hcollect, hid⟩ := received_spec hp hc h
    exact ⟨hcollect, isSome_iff_exists.mpr ⟨_, hid.index⟩⟩
  case mpr =>
    intro ⟨hcollect, hindex⟩
    have ⟨fs, itemFields, workflowId, context, pipeline, hj, hi, _, hb, hs, hcarries⟩ := carries_child hp hc
    have ⟨decoded, hd⟩ := decode_gatherFields result hs hcarries hb
    have ⟨index, hindex⟩ := isSome_iff_exists.mp hindex
    have ⟨policy, hpolicy⟩ := isSome_iff_exists.mp (policy_decodes_iff.mpr hcollect.policy)
    apply isSome_iff_exists.mpr
    refine ⟨(⟨workflowId, runId, ⟨count, policy⟩, ⟨index⟩, result, decoded⟩, .obj (gatherFields result context fs)), ?_⟩
    rw [received_eq hj hs hcarries.context, Except.toOption_eq_some]
    exact (hd _ _).mpr ⟨rfl, rfl, hcollect.named, hn, decode_counted_profile.mpr ⟨⟨hcollect.counted, rfl⟩, hpolicy⟩,
      decode_indexedItem.mpr (hi ▸ hindex)⟩

theorem reportAccepted_iff (hp : IsParent payload count parent) (hn : count ≠ 0)
    (hc : IsChild parent runId position item child) :
    ReportAccepted runId count child error ↔
      Collectable runId count (field "failure_policy" (fanoutProfile payload)) ∧ (itemIndex position item).isSome := by
  rw [← received_isSome hp hn hc]
  obtain ⟨fs, itemFields, workflowId, context, pipeline, hj, hi, _, _, hs, hcarries⟩ := carries_child hp hc
  have hf := failedChildEnvelope_spliced error hs hcarries.context
  have hx : childIndex (.obj fs) = itemIndex position item := by
    simp [childIndex, hcarries.item, hi, field_indexedItem, itemIndex]
  constructor
  case mp =>
    rintro ⟨json, report, typed, value, hjson, hreport, hd, _⟩
    cases (congrArg Wire.json hj).symm.trans hjson
    apply isSome_iff_exists.mpr
    refine ⟨(typed, value), ?_⟩
    rw [received, hj, Wire.encode, bind_eq_bind, bind_some, ← hf, hreport]
    exact Except.toOption_eq_some.mpr hd
  case mpr =>
    intro h
    obtain ⟨⟨typed, value⟩, h⟩ := isSome_iff_exists.mp h
    obtain ⟨_, hid⟩ := received_spec hp hc h
    rw [received_eq hj hs hcarries.context, Except.toOption_eq_some] at h
    exact ⟨.obj fs, _, typed, value, congrArg Wire.json hj, hf.trans (childEnvelope_spliced hs hcarries.context), h,
      hid.parent, hid.count, hx.trans hid.index⟩

end Child

def fanoutItems (payload : Json) : List Json :=
  ((payload.get "fanout_items").bind asArray).getD []

-- The items may well be empty, then there is no child to report. Otherwise collect takes the reports if
-- it knows the policy and the indices that the payload brings along are unsigned 64-bit integers.
def Reportable (runId : String) (payload : Json) : Prop :=
  fanoutItems payload = [] ∨
    Collectable runId (fanoutItems payload).length ((payload.get "fanout_profile").bind (·.get "failure_policy")) ∧
    ∀ item ∈ fanoutItems payload, ∀ index, item.get "item_index" = some index → index.asU64.isSome

theorem failure_policy_fanoutProfile :
    field "failure_policy" (fanoutProfile fs) = (field "fanout_profile" fs).bind (·.get "failure_policy") := by
  unfold fanoutProfile
  cases field "fanout_profile" fs
  case none => rfl
  case some j => cases j <;> rfl

theorem child_reports_accepted_iff {payload : Json}
    (h : fanoutPlan runId payload stream = .ok (group, children)) :
    (∀ child ∈ children, ∀ error, ReportAccepted runId group.expectedCount child error) ↔
      Reportable runId payload := by
  obtain ⟨fields, items, hf, plan⟩ := fanoutPlan_ok h
  obtain ⟨parent, hparent, hchildren⟩ := plan.children
  cases hf
  have hi : fanoutItems (.obj fields) = items := by simp [fanoutItems, plan.listed, asArray]
  rw [Reportable, hi, plan.expected, get_obj, ← failure_policy_fanoutProfile]
  by_cases hn : items = []
  case pos =>
    cases hn
    have hc := List.eq_nil_of_length_eq_zero plan.length
    simp [hc]
  case neg =>
    have hz : items.length ≠ 0 := fun hz => hn (List.eq_nil_of_length_eq_zero hz)
    constructor
    case mp =>
      intro hall
      have hall {i : Nat} {item} (hitem : items[i]? = some item) :
          Collectable runId items.length (field "failure_policy" (fanoutProfile fields)) ∧
            (itemIndex i item).isSome := by
        obtain ⟨child, hc⟩ := plan.exists_child hitem
        obtain ⟨_, hitem', hchild⟩ := hchildren i child hc
        cases hitem.symm.trans hitem'
        exact (reportAccepted_iff hparent hz hchild).mp (hall child (List.mem_of_getElem? hc) "")
      obtain ⟨first, hfirst⟩ := List.exists_mem_of_ne_nil _ hn
      obtain ⟨_, hi⟩ := List.mem_iff_getElem?.mp hfirst
      refine .inr ⟨(hall hi).left, ?_⟩
      intro item hitem index hindex
      obtain ⟨i, hi⟩ := List.mem_iff_getElem?.mp hitem
      obtain ⟨_, hs⟩ := hall hi
      simpa only [itemIndex, hindex, getD_some] using hs
    case mpr =>
      intro hr child hc error
      obtain ⟨hcollect, hs⟩ := hr.resolve_left hn
      obtain ⟨i, hi⟩ := List.mem_iff_getElem?.mp hc
      obtain ⟨item, hitem, hchild⟩ := hchildren i _ hi
      refine (reportAccepted_iff hparent hz hchild).mpr ⟨hcollect, ?_⟩
      obtain ⟨hlt, _⟩ := List.getElem?_eq_some_iff.mp hitem
      unfold itemIndex
      cases hx : item.get "item_index"
      case none => exact isSome_iff_exists.mpr ⟨i, asU64_nat.mpr ⟨hlt.trans hcollect.counted, rfl⟩⟩
      case some index => exact hs item (List.mem_of_getElem? hitem) index hx

def fanoutContext : Json :=
  .object [("current_stage_id", .str "schedule"), ("current_phase", .str "schedule"), ("pipeline", .arr [
    .object [("id", .str "schedule"), ("phase", .str "schedule"), ("queue", .str "schedule"), ("next", .str "execute")],
    .object [("id", .str "execute"), ("phase", .str "execute"), ("queue", .str "execute"), ("next", .str "results")],
    .object [("id", .str "results"), ("phase", .str "results"), ("queue", .str "results")]])]

def fanoutFields (items : List Json) : Fields :=
  literal [("workflow_id", .str "w"), ("fanout_items", .arr items), ("stage_context", fanoutContext)]

theorem fanoutFields_items (items : List Json) : fanoutItems (.obj (fanoutFields items)) = items := by
  simp [fanoutItems, fanoutFields, literal, asArray]

theorem child_reports_accepted :
    ∃ group children, fanoutPlan "p" (.obj (fanoutFields [.object []])) "schedule" = .ok (group, children) ∧
      ∀ child ∈ children, ∀ error, ReportAccepted "p" group.expectedCount child error := by
  have ha : accepts "p" (fanoutFields [.object []]) := by decide +kernel
  have ⟨group, children, h⟩ := fanoutPlan_of_accepts "schedule" ha
  refine ⟨group, children, h, (child_reports_accepted_iff h).mpr (.inr ⟨⟨by decide, ?_, ?_⟩, ?_⟩)⟩
  · simp [fanoutFields_items]
  · simp [fanoutFields, literal, field, PolicyFits]
  · simp [fanoutFields_items, Json.object, literal, field]

-- The index of an item may be any value, yet collect wants a number.
theorem child_report_rejected :
    ∃ group children, fanoutPlan "p" (.obj (fanoutFields [.object [("item_index", .str "first")]])) "schedule" =
      .ok (group, children) ∧ ∃ child ∈ children, ∀ error, ¬ReportAccepted "p" group.expectedCount child error := by
  have ha : accepts "p" (fanoutFields [.object [("item_index", .str "first")]]) := by decide +kernel
  obtain ⟨group, children, h⟩ := fanoutPlan_of_accepts "schedule" ha
  obtain ⟨_, items, hf, plan⟩ := fanoutPlan_ok h
  cases hf
  have hi := plan.listed
  cases hi
  obtain ⟨parent, hparent, hchildren⟩ := plan.children
  obtain ⟨child, hc⟩ := plan.exists_child (i := 0) rfl
  obtain ⟨item, hitem, hchild⟩ := hchildren 0 child hc
  cases hitem
  refine ⟨group, children, h, child, List.mem_of_getElem? hc, fun error hr => ?_⟩
  rw [plan.expected] at hr
  obtain ⟨_, hn⟩ := (reportAccepted_iff hparent (by decide) hchild).mp hr
  simp [itemIndex, Json.object, literal, asU64, asUnsigned] at hn

end Collect
