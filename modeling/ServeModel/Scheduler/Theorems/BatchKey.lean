import ServeModel.Lib.Join
import ServeModel.Scheduler.Batch

namespace Scheduler

section Key

variable {config : SchedulerRoleConfig} {table : ResourceReservationTable}
variable {payload payload₁ payload₂ : SchedulePayload} {policy policy₁ policy₂ : BatchPolicy}

def routingTags (policy : BatchPolicy) : Finset String :=
  (policy.baseResourceProfile.tags.getD []).toFinset

-- What the members of a batch are meant to have in common.
structure SameBatch (payload₁ payload₂ : SchedulePayload) (policy₁ policy₂ : BatchPolicy) : Prop where
  workflow : batchWorkflow payload₁ = batchWorkflow payload₂
  batchKey : policy₁.batchKey = policy₂.batchKey
  executorClass : policy₁.baseResourceProfile.executorClass = policy₂.baseResourceProfile.executorClass
  tags : routingTags policy₁ = routingTags policy₂
  parentRunId : payload₁.parentRunId = payload₂.parentRunId

-- The texts that a batch key joins by "::".
def keyTexts (payload : SchedulePayload) (policy : BatchPolicy) : List String :=
  [batchWorkflow payload, policy.batchKey, policy.baseResourceProfile.executorClass.getD "",
    ",".intercalate (batchTags policy), payload.parentRunId.getD ""]

-- Three ways in which a key reads two different requests as the same: a text holds the separator and slips into
-- its neighbour, a tag holds a comma (or is the only one and empty), or a parent has the empty name.
inductive Confusable (payload₁ payload₂ : SchedulePayload) (policy₁ policy₂ : BatchPolicy) : Prop
  | slip : Join.Slips "::".toList ((keyTexts payload₁ policy₁).map String.toList)
      ((keyTexts payload₂ policy₂).map String.toList) → Confusable ..
  | tags : (keyTexts payload₁ policy₁ = keyTexts payload₂ policy₂) → (routingTags policy₁ ≠ routingTags policy₂) →
      Confusable ..
  | parent : (keyTexts payload₁ policy₁ = keyTexts payload₂ policy₂) →
      (payload₁.parentRunId = none ∧ payload₂.parentRunId = some "" ∨
        payload₁.parentRunId = some "" ∧ payload₂.parentRunId = none) → Confusable ..

theorem batchKey_eq_intercalate : batchKey payload policy = "::".intercalate (keyTexts payload policy) := by
  simp [batchKey, keyTexts, String.intercalate_cons_cons, String.append_assoc]

theorem map_toList_injective {ss ts : List String} : ss.map String.toList = ts.map String.toList ↔ ss = ts :=
  (List.map_injective_iff.mpr fun _ _ => String.toList_inj.mp).eq_iff

-- Keys are equal exactly if all their texts are, or if one text slips into the next.
theorem batchKey_eq_iff :
    batchKey payload₁ policy₁ = batchKey payload₂ policy₂ ↔
      keyTexts payload₁ policy₁ = keyTexts payload₂ policy₂ ∨
      Join.Slips "::".toList ((keyTexts payload₁ policy₁).map String.toList)
        ((keyTexts payload₂ policy₂).map String.toList) := by
  have hl : ((keyTexts payload₁ policy₁).map String.toList).length =
      ((keyTexts payload₂ policy₂).map String.toList).length := rfl
  rw [batchKey_eq_intercalate, batchKey_eq_intercalate, ← String.toList_inj, String.toList_intercalate,
    String.toList_intercalate, Join.intercalate_eq_iff hl, map_toList_injective]

theorem batchTags_congr (h : routingTags policy₁ = routingTags policy₂) : batchTags policy₁ = batchTags policy₂ :=
  Join.destutter_insertionSort_congr h

theorem SameBatch.keyTexts_eq (h : SameBatch payload₁ payload₂ policy₁ policy₂) :
    keyTexts payload₁ policy₁ = keyTexts payload₂ policy₂ := by
  rw [keyTexts, keyTexts, h.workflow, h.batchKey, h.executorClass, batchTags_congr h.tags, h.parentRunId]

-- A batch policy is only made for a request that names its executor class.
theorem executorClass_of_batchPolicy (h : batchPolicyForPayload config table payload = some policy) :
    ∃ c, policy.baseResourceProfile.executorClass = some c := by
  unfold batchPolicyForPayload at h
  dsimp only at h
  split at h
  case isTrue => cases h
  case isFalse =>
  split at h
  case isTrue => cases h
  case isFalse =>
  split at h
  case h_1 => cases h
  case h_2 resources resolved _ =>
    cases hr : resolved.resourceProfile
    case none => simp [hr] at h
    case some profile =>
      cases hc : profile.executorClass
      case none => simp [hr, hc] at h
      case some c =>
        simp only [hr, hc, bind, Option.bind] at h
        split at h
        case isTrue => cases h
        case isFalse =>
        split at h
        case isTrue => cases h
        case isFalse => cases h; exact ⟨c, hc⟩

theorem getD_empty_eq_iff :
    p.getD "" = q.getD "" ↔ p = q ∨ (p = none ∧ q = some "" ∨ p = some "" ∧ q = none) := by
  cases p <;> cases q <;> simp [eq_comm]

theorem confusable_or_sameBatch (h₁ : batchPolicyForPayload config table payload₁ = some policy₁)
    (h₂ : batchPolicyForPayload config table payload₂ = some policy₂)
    (h : keyTexts payload₁ policy₁ = keyTexts payload₂ policy₂) :
    Confusable payload₁ payload₂ policy₁ policy₂ ∨ SameBatch payload₁ payload₂ policy₁ policy₂ := by
  have ⟨c₁, hc₁⟩ := executorClass_of_batchPolicy h₁
  have ⟨c₂, hc₂⟩ := executorClass_of_batchPolicy h₂
  have ht := h
  simp only [keyTexts, List.cons.injEq, and_true] at ht
  have ⟨hw, hk, hc, _, hp⟩ := ht
  have hc : c₁ = c₂ := by simpa [hc₁, hc₂] using hc
  by_cases htags : routingTags policy₁ = routingTags policy₂
  case neg => exact .inl (.tags h htags)
  case pos =>
    apply (getD_empty_eq_iff.mp hp).elim
    case left =>
      intro hp
      exact .inr ⟨hw, hk, by rw [hc₁, hc₂, hc], htags, hp⟩
    case right =>
      intro hp
      exact .inl (.parent h hp)

-- The key of a batch keeps two requests apart exactly if their texts cannot be confused.
theorem batchKey_separates_iff (h₁ : batchPolicyForPayload config table payload₁ = some policy₁)
    (h₂ : batchPolicyForPayload config table payload₂ = some policy₂) :
    (batchKey payload₁ policy₁ = batchKey payload₂ policy₂ → SameBatch payload₁ payload₂ policy₁ policy₂) ↔
      ¬Confusable payload₁ payload₂ policy₁ policy₂ := by
  constructor
  case mp =>
    intro h hc
    cases hc
    case slip hs =>
      have hs' := (h (batchKey_eq_iff.mpr (.inr hs))).keyTexts_eq
      exact hs.ne (map_toList_injective.mpr hs')
    case tags ht hn => exact hn (h (batchKey_eq_iff.mpr (.inl ht))).tags
    case parent ht hn =>
      have hp := (h (batchKey_eq_iff.mpr (.inl ht))).parentRunId
      cases hn
      case inl hn | inr hn => simp [hn] at hp
  case mpr =>
    intro hc h
    cases batchKey_eq_iff.mp h
    case inl ht => exact (confusable_or_sameBatch h₁ h₂ ht).resolve_left hc
    case inr hs => exact absurd (.slip hs) hc

end Key

-- A child that is to run on a GPU with some tag.
def taggedChild (tags : List String) (parent : String) : SchedulePayload where
  runId := "r"
  workflow := "forecast"
  parentRunId := some parent
  resourceProfile := some ⟨some 1, some 100, some "gpu", some tags⟩

def batching : SchedulerRoleConfig where
  batchingEnabled := true
  maxBatchSize := 8
  maxBatchWaitMs := 50

def emptyTable : ResourceReservationTable :=
  ⟨⟨[], .nil⟩, 80, 0, []⟩

def taggedPolicy (tags : List String) : BatchPolicy where
  batchKey := "default"
  maxBatchSize := 8
  maxWaitMs := 50
  sharedMemoryMb := none
  incrementalMemoryMb := none
  baseResourceProfile := ⟨some 1, some 100, some "gpu", some tags⟩
  singleRequestMemoryMb := 100

theorem batchPolicy_taggedChild (tags : List String) (parent : String) :
    batchPolicyForPayload batching emptyTable (taggedChild tags parent) = some (taggedPolicy tags) :=
  rfl

theorem batchKey_separates_parents :
    ¬Confusable (taggedChild ["a"] "p") (taggedChild ["a"] "q") (taggedPolicy ["a"]) (taggedPolicy ["a"]) := by
  apply (batchKey_separates_iff (batchPolicy_taggedChild ["a"] "p") (batchPolicy_taggedChild ["a"] "q")).mp
  intro h
  exact absurd h (by decide +kernel)

-- The start of one parent's name reads as the end of the other's tag.
theorem batchKey_confuses_parents :
    batchPolicyForPayload batching emptyTable (taggedChild ["t"] "u::v") = some (taggedPolicy ["t"]) ∧
    batchPolicyForPayload batching emptyTable (taggedChild ["t::u"] "v") = some (taggedPolicy ["t::u"]) ∧
    batchKey (taggedChild ["t"] "u::v") (taggedPolicy ["t"]) =
      batchKey (taggedChild ["t::u"] "v") (taggedPolicy ["t::u"]) ∧
    (taggedChild ["t"] "u::v").parentRunId ≠ (taggedChild ["t::u"] "v").parentRunId :=
  ⟨rfl, rfl, by decide +kernel, by decide⟩

end Scheduler
