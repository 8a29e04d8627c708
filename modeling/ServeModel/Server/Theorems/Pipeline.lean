import ServeModel.Lib.Checks
import ServeModel.Lib.Walk
import ServeModel.Server.Pipeline
import Mathlib.Data.List.Perm.Subperm

-- The stages that a run goes through, against those that the manifest declares.
namespace Server

open List Except

section Relink

-- Relinking changes nothing that does not depend on the links.
theorem map_relink (f : StageDescriptor → α) (hf : ∀ s n, f { s with next := n } = f s) :
    (relink stages).map f = stages.map f := by
  fun_induction relink stages <;> simp_all

@[simp]
theorem map_id_relink : (relink stages).map PluginStage.id = stages.map PluginStage.id :=
  map_relink _ fun _ _ => rfl

@[simp]
theorem map_phase_relink : (relink stages).map PluginStage.phase = stages.map PluginStage.phase :=
  map_relink _ fun _ _ => rfl

theorem chained_relink : Walk.Chained PluginStage.id PluginStage.next (relink stages) := by
  fun_induction relink stages
  case case1 => trivial
  case case2 => rfl
  case case3 s t ts hi =>
    cases ts <;> exact ⟨rfl, hi⟩

end Relink

section Unused

variable {pipeline : List StageDescriptor}

theorem suffixed_inj (h : suffixed base i = suffixed base j) : i = j := by
  have h := congrArg String.toList h
  simp only [suffixed, String.toList_append] at h
  exact Text.repr_inj (String.toList_inj.mp (append_cancel_left h))

-- Either the search stops at an id that is free or all that it has tried are taken.
theorem searchSuffix_mem (h : searchSuffix used base tries suffix ∈ used) :
    ∀ i ≤ tries, suffixed base (suffix + i) ∈ used := by
  fun_induction searchSuffix used base tries suffix
  case case1 suffix =>
    intro i hi
    obtain rfl : i = 0 := Nat.le_zero.mp hi
    exact h
  case case2 hu => exact absurd h hu
  case case3 tries suffix hu ih =>
    intro i hi
    cases i
    case zero => exact not_not.mp hu
    case succ i => exact Nat.add_right_comm suffix 1 i ▸ ih h i (Nat.le_of_succ_le_succ hi)

-- There are more tries than ids in use.
theorem searchSuffix_not_mem : searchSuffix used base used.length suffix ∉ used := by
  intro h
  let tried := (List.range (used.length + 1)).map fun i => suffixed base (suffix + i)
  have hn : tried.Nodup :=
    nodup_range.map fun i j he => Nat.add_left_cancel (suffixed_inj he)
  have hs : tried ⊆ used := by
    intro id hid
    have ⟨i, hi, he⟩ := mem_map.mp hid
    exact he ▸ searchSuffix_mem h i (Nat.le_of_lt_succ (mem_range.mp hi))
  have := (subperm_of_subset hn hs).length_le
  simp [tried] at this

theorem unusedStageId_not_mem : unusedStageId pipeline base ∉ pipeline.map (·.id) := by
  simp only [unusedStageId]
  split
  case isTrue h => exact h
  case isFalse => exact searchSuffix_not_mem

theorem searchSuffix_eq (tries suffix : Nat) :
    ∃ i, searchSuffix used base tries suffix = suffixed base i := by
  fun_induction searchSuffix used base tries suffix
  case case1 suffix | case2 suffix _ => exact ⟨suffix, rfl⟩
  case case3 hi => exact hi

theorem unusedStageId_eq : ∃ rest, unusedStageId pipeline base = base ++ rest := by
  simp only [unusedStageId]
  split
  case isTrue => exact ⟨"", (String.append_empty).symm⟩
  case isFalse =>
    let used := pipeline.map (·.id)
    have ⟨i, h⟩ : ∃ i, searchSuffix used base used.length 1 = suffixed base i := searchSuffix_eq ..
    exact ⟨"_" ++ i.repr, h.trans String.append_assoc⟩

end Unused

section Accepted

variable {m : PluginManifest}

theorem validateStages_ok (h : validateStages seen stages = .ok ()) :
    (stages.map (·.id)).Nodup ∧ ∀ stage ∈ stages, stage.id ∉ seen := by
  fun_induction validateStages seen stages
  case case1 => simp
  case case2 seen stage stages hi =>
    have ⟨_, _, h⟩ := bind_eq_ok.mp h
    have ⟨hs, h⟩ := ite_throw_eq_ok.mp h
    have ⟨hn, hd⟩ := hi h
    refine ⟨?_, ?_⟩
    · refine nodup_cons.mpr ⟨fun hm => ?_, hn⟩
      have ⟨t, ht, he⟩ := mem_map.mp hm
      exact hd t ht (he ▸ mem_cons_self)
    · intro t ht
      cases ht
      case head => exact hs
      case tail ht => exact fun hm => hd t ht (mem_cons_of_mem _ hm)

theorem validate_nodup (h : m.validate = .ok ()) : (m.stages.map (·.id)).Nodup := by
  have ⟨_, _, h⟩ := bind_eq_ok.mp h
  have ⟨_, _, h⟩ := bind_eq_ok.mp h
  have ⟨_, hp, _⟩ := bind_eq_ok.mp h
  have ⟨_, hp⟩ := ite_throw_eq_ok.mp hp
  have ⟨_, hs, _⟩ := bind_eq_ok.mp hp
  exact (validateStages_ok hs).left

end Accepted

-- The stages that are left of the manifest.
def PluginManifest.kept (m : PluginManifest) (usePrefetch : Bool) : List PluginStage :=
  m.stages.filter (keeps usePrefetch)

-- Publication is asked for, or the manifest has a stage for it.
def publishes (publication : Bool) (pipeline : List PluginStage) : Bool :=
  publication || pipeline.any (isPhase "publish")

def arrange (publication : Bool) (pipeline : List PluginStage) : List StageDescriptor :=
  if publishes publication pipeline then appendPublication pipeline else pipeline

section Build

variable {m : PluginManifest}

def unlink (stage : StageDescriptor) : StageDescriptor :=
  { stage with next := none }

theorem map_unlink_relink : (relink stages).map unlink = stages.map unlink :=
  map_relink _ fun _ _ => rfl

theorem relink_map_unlink : relink (stages.map unlink) = relink stages := by
  fun_induction relink stages
  case case1 | case2 => rfl
  case case3 s t ts hi =>
    rw [← hi]
    rfl

theorem unusedStageId_unlink : unusedStageId (stages.map unlink) base = unusedStageId stages base := by
  simp [unusedStageId, Function.comp_def, unlink]

theorem appendPublication_unlink : appendPublication (stages.map unlink) = (appendPublication stages).map unlink := by
  have hp (phase : String) : isPhase phase ∘ unlink = isPhase phase := rfl
  have hd (o : Option StageDescriptor) (s : StageDescriptor) (hs : unlink s = s) :
      (o.map unlink).getD s = unlink (o.getD s) := by cases o <;> simp [hs]
  simp only [appendPublication, unusedStageId_unlink, find?_map, eraseP_map, hp, map_append,
    map_cons, map_nil]
  rw [hd _ _ rfl, hd _ _ rfl]

theorem relink_appendPublication : relink (appendPublication (relink stages)) = relink (appendPublication stages) := by
  rw [← relink_map_unlink, ← appendPublication_unlink, map_unlink_relink, appendPublication_unlink,
    relink_map_unlink]

theorem any_isPhase_relink : (relink stages).any (isPhase phase) = stages.any (isPhase phase) := by
  have h : (relink stages).map (isPhase phase) = stages.map (isPhase phase) := map_relink _ fun _ _ => rfl
  simpa [any_map] using congrArg (List.any · id) h

theorem buildStagePipeline_eq_ok :
    buildStagePipeline m usePrefetch publication = .ok built ↔
      m.kept usePrefetch ≠ [] ∧ relink (arrange publication (m.kept usePrefetch)) = built := by
  simp only [buildStagePipeline, ite_throw_eq_ok, any_isPhase_relink, relink_appendPublication, arrange,
    publishes, PluginManifest.kept, Bool.or_eq_true]
  refine and_congr_right fun _ => ?_
  split <;> exact pure_eq_ok

end Build

section TakeOut

variable {α : Type} {p : α → Bool} {xs : List α}

theorem find?_eraseP_perm : ((xs.find? p).toList ++ xs.eraseP p).Perm xs := by
  induction xs
  case nil => exact .nil
  case cons x xs hi =>
    cases h : p x
    case true => simp [h]
    case false =>
      simp only [find?_cons, eraseP_cons, h, cond_false]
      exact perm_middle.trans (hi.cons x)

-- Where there is at most one match, nothing but the match is taken out.
theorem eraseP_eq_filter (h : ∀ x ∈ xs.eraseP p, ¬p x) :
    (xs.find? p).toList = xs.filter p ∧ xs.eraseP p = xs.filter (!p ·) := by
  induction xs
  case nil => exact ⟨rfl, rfl⟩
  case cons x xs hi =>
    cases hx : p x
    case true =>
      rw [eraseP_cons_of_pos hx] at h ⊢
      have hn : xs.filter p = [] := filter_eq_nil_iff.mpr h
      have ha : xs.filter (!p ·) = xs := filter_eq_self.mpr fun a ha => by simpa using h a ha
      simp [hx, hn, ha]
    case false =>
      rw [eraseP_cons_of_neg (by simp [hx])] at h ⊢
      have ⟨hf, he⟩ := hi fun a ha => h a (mem_cons_of_mem _ ha)
      simp [hx, hf, he]

theorem eraseP_none_iff : (∀ x ∈ xs.eraseP p, ¬p x) ↔ (xs.filter p).length ≤ 1 := by
  constructor
  case mp =>
    intro h
    rw [← (eraseP_eq_filter h).left]
    cases xs.find? p <;> simp
  case mpr =>
    intro h x hx hp
    have hl : (((xs.find? p).toList ++ xs.eraseP p).filter p).length = (xs.filter p).length :=
      (find?_eraseP_perm.filter p).length_eq
    have hf : (xs.find? p).isSome := find?_isSome.mpr ⟨x, mem_of_mem_eraseP hx, hp⟩
    have ⟨y, hy⟩ := Option.isSome_iff_exists.mp hf
    have he : x ∈ (xs.eraseP p).filter p := mem_filter.mpr ⟨hx, hp⟩
    have := length_pos_of_mem he
    simp [hy, find?_some hy] at hl
    omega

theorem filter_eraseP (h : ∀ x, p x → ¬q x) : (xs.eraseP p).filter q = xs.filter q := by
  induction xs
  case nil => rfl
  case cons x xs hi =>
    cases hx : p x
    case true => simp [hx, h x hx]
    case false => simp [hx, filter_cons, hi]

end TakeOut

section Publication

variable {pipeline : List StageDescriptor}

-- The stages that publication leaves where they are.
def others (pipeline : List StageDescriptor) : List StageDescriptor :=
  (pipeline.eraseP (isPhase "publish")).eraseP (isPhase "results")

def published (pipeline : List StageDescriptor) : StageDescriptor :=
  (pipeline.find? (isPhase "publish")).getD (publishStage (unusedStageId pipeline "publish"))

def recorded (pipeline : List StageDescriptor) : StageDescriptor :=
  ((pipeline.eraseP (isPhase "publish")).find? (isPhase "results")).getD
    (resultsStage (unusedStageId pipeline "results"))

theorem appendPublication_eq :
    appendPublication pipeline = others pipeline ++ [published pipeline, recorded pipeline] := rfl

theorem phase_getD (hs : s.phase = phase) :
    ((pipeline.find? (isPhase phase)).getD s).phase = phase := by
  cases h : pipeline.find? (isPhase phase)
  case none => exact hs
  case some t =>
    have ht : isPhase phase t := find?_some h
    exact of_decide_eq_true ht

theorem phase_published : (published pipeline).phase = "publish" :=
  phase_getD rfl

theorem phase_recorded : (recorded pipeline).phase = "results" :=
  phase_getD rfl

theorem map_phase_appendPublication :
    (appendPublication pipeline).map (·.phase) = (others pipeline).map (·.phase) ++ ["publish", "results"] := by
  simp [appendPublication_eq, phase_published, phase_recorded]

def taken (pipeline : List StageDescriptor) : List StageDescriptor :=
  (pipeline.find? (isPhase "publish")).toList ++
    ((pipeline.eraseP (isPhase "publish")).find? (isPhase "results")).toList

theorem taken_others_perm : (taken pipeline ++ others pipeline).Perm pipeline := by
  rw [taken, append_assoc]
  exact (find?_eraseP_perm.append_left _).trans find?_eraseP_perm

theorem unused_publish_ne_results : unusedStageId pipeline "publish" ≠ unusedStageId pipeline "results" := by
  have ⟨s, hs⟩ : ∃ s, unusedStageId pipeline "publish" = "publish" ++ s := unusedStageId_eq
  have ⟨t, ht⟩ : ∃ t, unusedStageId pipeline "results" = "results" ++ t := unusedStageId_eq
  intro h
  rw [hs, ht] at h
  have := congrArg String.toList h
  simp at this

variable (pipeline)

theorem published_cases :
    (pipeline.find? (isPhase "publish")).toList = [published pipeline] ∨
      (pipeline.find? (isPhase "publish")).toList = [] ∧
        (published pipeline).id = unusedStageId pipeline "publish" := by
  cases h : pipeline.find? (isPhase "publish")
  case none => exact .inr ⟨rfl, by simp [published, h, publishStage]⟩
  case some => exact .inl (by simp [published, h])

theorem recorded_cases :
    ((pipeline.eraseP (isPhase "publish")).find? (isPhase "results")).toList = [recorded pipeline] ∨
      ((pipeline.eraseP (isPhase "publish")).find? (isPhase "results")).toList = [] ∧
        (recorded pipeline).id = unusedStageId pipeline "results" := by
  cases h : (pipeline.eraseP (isPhase "publish")).find? (isPhase "results")
  case none => exact .inr ⟨rfl, by simp [recorded, h, resultsStage]⟩
  case some => exact .inl (by simp [recorded, h])

theorem unused_not_mem_others (base : String) :
    unusedStageId pipeline base ∉ (others pipeline).map (·.id) ∧
      unusedStageId pipeline base ∉ (taken pipeline).map (·.id) := by
  have hn : unusedStageId pipeline base ∉ pipeline.map (·.id) := unusedStageId_not_mem
  rw [← (taken_others_perm.map _).mem_iff, map_append, mem_append, not_or] at hn
  exact hn.symm

variable {pipeline}

theorem nodup_appendPublication (h : (pipeline.map (·.id)).Nodup) :
    ((appendPublication pipeline).map (·.id)).Nodup := by
  have hn : ((others pipeline ++ taken pipeline).map (·.id)).Nodup :=
    ((perm_append_comm.trans taken_others_perm).map _).nodup_iff.mpr h
  have ⟨hp, hp'⟩ := unused_not_mem_others pipeline "publish"
  have ⟨hr, hr'⟩ := unused_not_mem_others pipeline "results"
  have hd : unusedStageId pipeline "publish" ≠ unusedStageId pipeline "results" := unused_publish_ne_results
  rw [appendPublication_eq]
  unfold taken at hn hp' hr'
  -- New ids are in use neither by the other stages nor by each other.
  obtain hP | ⟨hP, hp⟩ := published_cases pipeline <;>
  obtain hR | ⟨hR, hr⟩ := recorded_cases pipeline <;>
  rw [hP, hR] at hn hp' hr' <;> grind

-- Of the arranged stages those of the pipeline are the ones that stayed and the ones that were moved.
theorem filter_appendPublication :
    ((appendPublication pipeline).map (·.id)).filter (· ∈ pipeline.map (·.id)) =
      (others pipeline ++ taken pipeline).map (·.id) := by
  have hm (id : String) : id ∈ pipeline.map (·.id) ↔ id ∈ (taken pipeline ++ others pipeline).map (·.id) :=
    (taken_others_perm.map _).mem_iff.symm
  have ho : ((others pipeline).map (·.id)).filter (· ∈ pipeline.map (·.id)) = (others pipeline).map (·.id) := by
    refine filter_eq_self.mpr fun id hid => decide_eq_true ((hm id).mpr ?_)
    exact map_append ▸ mem_append_right _ hid
  have hn (base : String) : unusedStageId pipeline base ∉ pipeline.map (·.id) := unusedStageId_not_mem
  rw [appendPublication_eq, map_append, filter_append, ho, map_append]
  congr 1
  unfold taken at hm ⊢
  obtain hP | ⟨hP, hp⟩ := published_cases pipeline <;>
  obtain hR | ⟨hR, hr⟩ := recorded_cases pipeline <;>
  rw [hP, hR] at hm ⊢ <;> grind

-- The pipeline with its publish and results stages at the end.
def lastMoved (pipeline : List StageDescriptor) : List StageDescriptor :=
  pipeline.filter (fun s => !isPhase "publish" s && !isPhase "results" s) ++
    (pipeline.filter (isPhase "publish") ++ pipeline.filter (isPhase "results"))

structure Single (pipeline : List StageDescriptor) : Prop where
  publish : (pipeline.filter (isPhase "publish")).length ≤ 1
  results : (pipeline.filter (isPhase "results")).length ≤ 1

theorem not_results_of_publish (s : StageDescriptor) (h : isPhase "publish" s) : ¬isPhase "results" s := by
  simp_all [isPhase]

theorem not_mem_phase : phase ∉ pipeline.map (·.phase) ↔ ∀ s ∈ pipeline, ¬isPhase phase s := by
  simp [isPhase]

theorem single_iff :
    Single pipeline ↔ "publish" ∉ (others pipeline).map (·.phase) ∧ "results" ∉ (others pipeline).map (·.phase) := by
  have hr : (∀ s ∈ others pipeline, ¬isPhase "results" s) ↔ (pipeline.filter (isPhase "results")).length ≤ 1 := by
    rw [others, eraseP_none_iff, filter_eraseP not_results_of_publish]
  have hp : (∀ s ∈ others pipeline, ¬isPhase "publish" s) ↔ (pipeline.filter (isPhase "publish")).length ≤ 1 := by
    rw [← eraseP_none_iff]
    refine ⟨fun h s hs hp => h s ?_ hp, fun h s hs => h s (mem_of_mem_eraseP hs)⟩
    exact (mem_eraseP_of_neg (not_results_of_publish s hp)).mpr hs
  rw [not_mem_phase, not_mem_phase, hr, hp]
  exact ⟨fun ⟨hp, hr⟩ => ⟨hp, hr⟩, fun ⟨hp, hr⟩ => ⟨hp, hr⟩⟩

theorem last_iff_single :
    (∃ phases, (appendPublication pipeline).map (·.phase) = phases ++ ["publish", "results"] ∧
      "publish" ∉ phases ∧ "results" ∉ phases) ↔ Single pipeline := by
  rw [single_iff, map_phase_appendPublication]
  refine ⟨fun ⟨phases, he, hn⟩ => ?_, fun hn => ⟨_, rfl, hn⟩⟩
  rwa [append_cancel_right he]

theorem Single.others_taken (h : Single pipeline) : others pipeline ++ taken pipeline = lastMoved pipeline := by
  have ⟨hp, hp'⟩ := eraseP_eq_filter (eraseP_none_iff.mpr h.publish)
  have hf : ((pipeline.eraseP (isPhase "publish")).filter (isPhase "results")) =
      pipeline.filter (isPhase "results") := filter_eraseP not_results_of_publish
  have ⟨hr, hr'⟩ := eraseP_eq_filter (eraseP_none_iff.mpr (hf.symm ▸ h.results))
  rw [others, taken, lastMoved, hp, hr, hf, hr', hp', filter_filter]
  simp only [Bool.and_comm]

end Publication

end Server
