import ServeModel.Server.Theorems.Pipeline

-- What the manifest declares about the order of its stages, and what becomes of it.
namespace Server

variable {m : PluginManifest} {usePrefetch publication : Bool} {built : List StageDescriptor}

section Order

-- The stages in the order of the links, from the first one on.
-- Twice as many steps as there are stages come by every stage of a cycle twice.
def PluginManifest.linkOrder (m : PluginManifest) (usePrefetch : Bool) : List String :=
  let visited := match m.stages with
    | [] => []
    | first :: _ =>
      Walk.walk (Walk.follow PluginStage.id PluginStage.next m.stages) (2 * m.stages.length) first.id
  visited.filter (· ∈ (m.kept usePrefetch).map (·.id))

structure Follows (m : PluginManifest) (usePrefetch publication : Bool) (built : List StageDescriptor) : Prop where
  distinct : (built.map (·.id)).Nodup
  visits : ∀ first ∈ built.head?,
    Walk.walk (Walk.follow PluginStage.id PluginStage.next built) (built.length + 1) first.id = built.map (·.id)
  order : (built.map (·.id)).filter (· ∈ (m.kept usePrefetch).map (·.id)) = m.linkOrder usePrefetch
  last : publication ∨ "publish" ∈ m.stages.map (·.phase) →
    ∃ phases, built.map (·.phase) = phases ++ ["publish", "results"] ∧ "publish" ∉ phases ∧ "results" ∉ phases

-- The manifest's links go along its list, and of the stages that end a publication there is one each.
structure Straight (m : PluginManifest) (usePrefetch publication : Bool) : Prop where
  order : m.linkOrder usePrefetch = (if publication ∨ "publish" ∈ m.stages.map (·.phase)
    then lastMoved (m.kept usePrefetch) else m.kept usePrefetch).map (·.id)
  single : publication ∨ "publish" ∈ m.stages.map (·.phase) → Single (m.kept usePrefetch)

theorem publishes_kept :
    publishes publication (m.kept usePrefetch) ↔ publication ∨ "publish" ∈ m.stages.map (·.phase) := by
  simp only [publishes, PluginManifest.kept, Bool.or_eq_true, List.any_eq_true, List.mem_filter, List.mem_map]
  refine or_congr_right ⟨?_, ?_⟩
  · rintro ⟨s, ⟨hs, _⟩, hp⟩
    exact ⟨s, hs, of_decide_eq_true hp⟩
  · rintro ⟨s, hs, hp⟩
    exact ⟨s, ⟨hs, by simp [keeps, hp]⟩, decide_eq_true hp⟩

theorem arrange_kept : arrange publication (m.kept usePrefetch) =
    if publication ∨ "publish" ∈ m.stages.map (·.phase) then appendPublication (m.kept usePrefetch)
    else m.kept usePrefetch :=
  if_congr publishes_kept rfl rfl

theorem nodup_arrange (h : (m.stages.map (·.id)).Nodup) :
    ((arrange publication (m.kept usePrefetch)).map (·.id)).Nodup := by
  have hk : ((m.kept usePrefetch).map (·.id)).Nodup := h.sublist (List.filter_sublist.map _)
  unfold arrange
  split
  case isTrue => exact nodup_appendPublication hk
  case isFalse => exact hk

theorem visits_relink (h : (stages.map (·.id)).Nodup) :
    ∀ first ∈ (relink stages).head?, Walk.walk (Walk.follow PluginStage.id PluginStage.next (relink stages))
      ((relink stages).length + 1) first.id = (relink stages).map (·.id) := by
  have hc : Walk.Chained PluginStage.id PluginStage.next (relink stages) := chained_relink
  have hn : ((relink stages).map PluginStage.id).Nodup := map_id_relink.symm ▸ h
  intro first hf
  have ⟨rest, hr⟩ := List.head?_eq_some_iff.mp hf
  rw [hr] at hc hn ⊢
  exact Walk.walk_chained hn (List.nil_append _).symm hc (by rw [List.length_cons]; omega)

theorem follows_relink (h : (stages.map (·.id)).Nodup) :
    Follows m usePrefetch publication (relink stages) ↔
      (stages.map (·.id)).filter (· ∈ (m.kept usePrefetch).map (·.id)) = m.linkOrder usePrefetch ∧
      (publication ∨ "publish" ∈ m.stages.map (·.phase) →
        ∃ phases, stages.map (·.phase) = phases ++ ["publish", "results"] ∧ "publish" ∉ phases ∧
          "results" ∉ phases) := by
  have hi : (relink stages).map (·.id) = stages.map (·.id) := map_id_relink
  have hp : (relink stages).map (·.phase) = stages.map (·.phase) := map_phase_relink
  constructor
  case mp =>
    intro ⟨_, _, ho, hl⟩
    rw [hi] at ho
    rw [hp] at hl
    exact ⟨ho, hl⟩
  case mpr =>
    intro ⟨ho, hl⟩
    rw [← hi] at ho
    rw [← hp] at hl
    exact ⟨hi.symm ▸ h, visits_relink h, ho, hl⟩

-- The run follows the manifest exactly when its links go along its list.
theorem follows_iff_straight (accepted : m.validate = .ok ())
    (h : buildStagePipeline m usePrefetch publication = .ok built) :
    Follows m usePrefetch publication built ↔ Straight m usePrefetch publication := by
  have ⟨_, hb⟩ := buildStagePipeline_eq_ok.mp h
  rw [← hb, follows_relink (nodup_arrange (validate_nodup accepted))]
  by_cases hp : publication ∨ "publish" ∈ m.stages.map (·.phase)
  case pos =>
    rw [arrange_kept, if_pos hp, filter_appendPublication, last_iff_single]
    constructor
    case mp =>
      intro ⟨ho, hs⟩
      exact ⟨by rw [if_pos hp, ← (hs hp).others_taken, ho], hs⟩
    case mpr =>
      intro ⟨ho, hs⟩
      exact ⟨by rw [ho, if_pos hp, (hs hp).others_taken], hs⟩
  case neg =>
    have hf : ((m.kept usePrefetch).map (·.id)).filter (· ∈ (m.kept usePrefetch).map (·.id)) =
        (m.kept usePrefetch).map (·.id) := List.filter_eq_self.mpr fun _ h => decide_eq_true h
    rw [arrange_kept, if_neg hp, hf]
    constructor
    case mp => exact fun ⟨ho, _⟩ => ⟨by rw [if_neg hp, ho], fun h => absurd h hp⟩
    case mpr => exact fun ⟨ho, _⟩ => ⟨by rw [ho, if_neg hp], fun h => absurd h hp⟩

def plainStage (id phase handler : String) (next : Option String) : PluginStage :=
  { id, phase, handler, queue := id, next }

-- A manifest that passes every check on account of its other fields.
def plainManifest (stages : List PluginStage) : PluginManifest where
  metadata := ⟨"plugin", "Plugin", "1", "A plugin"⟩
  ingress := {
    contentTypes := ["application/json"], defaultContentType := "application/json", operations := ⟨"run", ["run"]⟩ }
  stages := stages
  runtime := ⟨"python", "plugin.py", "default", none, none, none⟩
  outputs := { primaryArtifact := ⟨"result", "application/json"⟩ }

def straightManifest : PluginManifest :=
  plainManifest [plainStage "run" "execute" "plugin_phase" "store", plainStage "store" "results" "persist_results" none]

-- The links leave the middle stage out.
def bentManifest : PluginManifest :=
  plainManifest [plainStage "first" "execute" "plugin_phase" "store",
    plainStage "second" "execute" "plugin_phase" "store", plainStage "store" "results" "persist_results" none]

theorem follows_straightManifest :
    ∃ built, buildStagePipeline straightManifest true true = .ok built ∧ Follows straightManifest true true built :=
  ⟨_, rfl, (follows_iff_straight (by decide +kernel) rfl).mpr
    ⟨by decide +kernel, fun _ => ⟨by decide +kernel, by decide +kernel⟩⟩⟩

theorem not_follows_bentManifest :
    bentManifest.validate = .ok () ∧ ∃ built, buildStagePipeline bentManifest true false = .ok built ∧
      ¬Follows bentManifest true false built :=
  ⟨by decide +kernel, _, rfl, fun h => absurd h.order (by decide +kernel)⟩

end Order

section Completion

-- What the roles of postprocess and publish stages ask of the stage that comes next.
def Hands (phase next : String) : Prop :=
  (phase = "postprocess" → next = "publish" ∨ next = "results") ∧ (phase = "publish" → next = "results")

instance {phase next : String} : Decidable (Hands phase next) :=
  inferInstanceAs <| Decidable (_ ∧ _)

-- A run can be handed on from stage to stage until its results are stored.
structure Completes (built : List StageDescriptor) : Prop where
  hands : built.IsChain fun s t => s.next = some t.id ∧ Hands s.phase t.phase
  ends : (built.map (·.phase)).getLast? = some "results"

-- With publication, only what the stages that stay do among themselves and before the publish stage is open.
def Admissible (m : PluginManifest) (usePrefetch publication : Bool) : Prop :=
  let kept := m.kept usePrefetch
  if publication ∨ "publish" ∈ m.stages.map (·.phase) then
    ((others kept).map (·.phase)).IsChain Hands ∧ ((others kept).map (·.phase)).getLast? ≠ some "publish"
  else
    (kept.map (·.phase)).IsChain Hands ∧ (kept.map (·.phase)).getLast? = some "results"

theorem hands_relink :
    (relink stages).IsChain (fun s t => s.next = some t.id ∧ Hands s.phase t.phase) ↔
      (stages.map (·.phase)).IsChain Hands := by
  fun_induction relink stages
  case case1 | case2 => simp
  case case3 s t ts hi => cases ts <;> simp_all [relink]

theorem isChain_publication :
    (phases ++ ["publish", "results"]).IsChain Hands ↔ phases.IsChain Hands ∧ phases.getLast? ≠ some "publish" := by
  have he : ["publish", "results"].IsChain Hands := by simp [Hands]
  have hp (phase : String) : Hands phase "publish" ↔ phase ≠ "publish" := by simp [Hands]
  rw [List.isChain_append]
  refine and_congr_right fun _ => ?_
  cases phases.getLast? <;> simp [he, hp]

-- Whether runs can complete is a matter of the phases that the manifest lists.
theorem completes_iff_admissible
    (h : buildStagePipeline m usePrefetch publication = .ok built) :
    Completes built ↔ Admissible m usePrefetch publication := by
  have ⟨_, hb⟩ := buildStagePipeline_eq_ok.mp h
  have hc : Completes built ↔ ((arrange publication (m.kept usePrefetch)).map (·.phase)).IsChain Hands ∧
      ((arrange publication (m.kept usePrefetch)).map (·.phase)).getLast? = some "results" := by
    rw [← hands_relink, hb, ← map_phase_relink, hb]
    exact ⟨fun ⟨hh, he⟩ => ⟨hh, he⟩, fun ⟨hh, he⟩ => ⟨hh, he⟩⟩
  rw [hc, Admissible]
  by_cases hp : publication ∨ "publish" ∈ m.stages.map (·.phase)
  case pos =>
    rw [arrange_kept, if_pos hp, if_pos hp, map_phase_appendPublication, isChain_publication]
    simp
  case neg =>
    rw [arrange_kept, if_neg hp, if_neg hp]

theorem completes_straightManifest :
    ∃ built, buildStagePipeline straightManifest true false = .ok built ∧ Completes built :=
  have h : Admissible straightManifest true false := by
    rw [Admissible, if_neg (by decide +kernel)]
    decide +kernel
  ⟨_, rfl, (completes_iff_admissible rfl).mpr h⟩

-- The postprocess role hands a run to no execute stage.
def misplacedManifest : PluginManifest :=
  plainManifest [plainStage "refine" "postprocess" "plugin_phase" "run",
    plainStage "run" "execute" "plugin_phase" "store", plainStage "store" "results" "persist_results" none]

theorem not_completes_misplacedManifest :
    misplacedManifest.validate = .ok () ∧ ∃ built, buildStagePipeline misplacedManifest true false = .ok built ∧
      ¬Completes built :=
  ⟨by decide +kernel, _, rfl, fun h => absurd h.hands (by decide +kernel)⟩

end Completion

end Server
