import ServeModel.Server.Manifest

-- The stages that a run goes through.
namespace Server

-- A stage of a run has the fields of a stage of the manifest.
abbrev StageDescriptor := PluginStage

-- Each stage leads to the one that follows it in the list.
def relink : List StageDescriptor → List StageDescriptor
  | [] => []
  | [stage] => [{ stage with next := none }]
  | stage :: t :: ts => { stage with next := some t.id } :: relink (t :: ts)

def suffixed (base : String) (suffix : Nat) : String :=
  s!"{base}_{suffix}"

-- As many tries as there are ids in use, and one more, are enough.
def searchSuffix (used : List String) (base : String) : Nat → Nat → String
  | 0, suffix => suffixed base suffix
  | tries + 1, suffix =>
    if suffixed base suffix ∉ used then suffixed base suffix else searchSuffix used base tries (suffix + 1)

def unusedStageId (pipeline : List StageDescriptor) (base : String) : String :=
  let used := pipeline.map (·.id)
  if base ∉ used then base else searchSuffix used base used.length 1

def publishStage (id : String) : StageDescriptor where
  id := id
  phase := "publish"
  handler := "publish_outputs"
  queue := "publish"

def resultsStage (id : String) : StageDescriptor where
  id := id
  phase := "results"
  handler := "persist_results"
  queue := "results"

def isPhase (phase : String) (stage : StageDescriptor) : Bool :=
  stage.phase = phase

-- The first publish stage and the first results stage move to the end, and new ones are added where there are none.
def appendPublication (pipeline : List StageDescriptor) : List StageDescriptor :=
  let publishStageId := unusedStageId pipeline "publish"
  let resultsStageId := unusedStageId pipeline "results"
  let publish := (pipeline.find? (isPhase "publish")).getD (publishStage publishStageId)
  let pipeline := pipeline.eraseP (isPhase "publish")
  let results := (pipeline.find? (isPhase "results")).getD (resultsStage resultsStageId)
  pipeline.eraseP (isPhase "results") ++ [publish, results]

def keeps (usePrefetch : Bool) (stage : PluginStage) : Bool :=
  usePrefetch || stage.phase ≠ "prefetch"

def buildStagePipeline (m : PluginManifest) (usePrefetch publication : Bool) :
    Except Failure (List StageDescriptor) := do
  let pipeline := m.stages.filter (keeps usePrefetch)
  let id := m.metadata.id
  if pipeline = [] then throw <| .msg s!"plugin '{id}' must define at least one pipeline stage"
  let pipeline := relink pipeline
  if publication ∨ pipeline.any (isPhase "publish") then return relink (appendPublication pipeline)
  return pipeline

end Server
