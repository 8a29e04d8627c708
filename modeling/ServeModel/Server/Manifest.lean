import ServeModel.Runtime.Basic

-- The manifest of a plugin, and the checks that it has to pass.
namespace Server

structure PluginMetadata where
  id : String
  displayName : String
  version : String
  description : String

structure PluginOperations where
  default : String
  allowed : List String
  deriving DecidableEq

structure PluginFileField where
  name : String
  mediaTypes : List String

structure PluginIngress where
  contentTypes : List String
  defaultContentType : String
  operations : PluginOperations
  jsonSchema : Option String := none
  jsonSchemaInline : Option Json := none
  formSchema : Option String := none
  formSchemaInline : Option Json := none
  files : List PluginFileField := []

structure PluginStage where
  id : String
  phase : String
  handler : String
  queue : String
  next : Option String := none
  deriving DecidableEq

structure PluginRuntime where
  kind : String
  entrypoint : String
  executorClass : String
  prepareExecutorClass : Option String := none
  postprocessExecutorClass : Option String := none
  readinessExecutorClass : Option String := none

structure PluginPrimaryArtifact where
  name : String
  mediaType : String

structure PluginOutputs where
  resultSchema : Option String := none
  resultSchemaInline : Option Json := none
  primaryArtifact : PluginPrimaryArtifact

structure PluginReadinessEnvCheck where
  name : Option String := none
  anyOf : List String := []
  kind : Option String := none

structure PluginReadinessPathCheck where
  path : String
  kind : Option String := none

structure PluginReadinessConfig where
  recommendedCheckPhase : Option String := none
  pythonModules : List String := []
  env : List PluginReadinessEnvCheck := []
  paths : List PluginReadinessPathCheck := []

structure PluginManifest where
  metadata : PluginMetadata
  ingress : PluginIngress
  stages : List PluginStage
  runtime : PluginRuntime
  outputs : PluginOutputs
  readiness : PluginReadinessConfig := {}
  configuration : Json := .null

def validateNonEmpty (fieldName value : String) : Except Failure Unit :=
  if Text.isBlank value then .error <| .msg s!"{fieldName} must not be empty" else .ok ()

def validateOptional (fieldName : String) : Option String → Except Failure Unit
  | some value => validateNonEmpty fieldName value
  | none => .ok ()

def validateReadinessKind (field : String) (kind : Option String) : Except Failure Unit :=
  match kind.bind Text.nonBlank with
  | some kind =>
    if kind ∈ ["file", "dir", "path", "string"] then .ok ()
    else .error <| .msg s!"{field} must be one of: file, dir, path, string"
  | none => .ok ()

def validateSchemaSource (path : Option String) (inline : Option Json) (pathField inlineField : String)
    (required : Bool) : Except Failure Unit := do
  validateOptional pathField path
  if inline.any (·.asObject.isNone) then
    throw <| .msg s!"{inlineField} must be a JSON object"
  if path.isSome ∧ inline.isSome then
    throw <| .msg s!"manifest must not define both '{pathField}' and '{inlineField}'"
  if required ∧ path.isNone ∧ inline.isNone then
    throw <| .msg s!"manifest must define '{pathField}' or '{inlineField}'"

def isSupportedStageHandler (phase handler : String) : Bool :=
  (phase, handler) ∈ [("prepare", "plugin_phase"), ("prefetch", "prefetch"), ("schedule", "schedule"),
    ("execute", "plugin_phase"), ("postprocess", "plugin_phase"), ("publish", "plugin_phase"),
    ("publish", "publish_outputs"), ("results", "persist_results")]

def validateStage (stage : PluginStage) : Except Failure Unit := do
  validateNonEmpty "pipeline.stages[].id" stage.id
  validateNonEmpty "pipeline.stages[].phase" stage.phase
  validateNonEmpty "pipeline.stages[].handler" stage.handler
  validateNonEmpty "pipeline.stages[].queue" stage.queue
  if ¬isSupportedStageHandler stage.phase stage.handler then
    let (id, phase, handler) := (stage.id, stage.phase, stage.handler)
    throw <| .msg s!"pipeline stage '{id}' uses unsupported phase/handler combination '{phase}/{handler}'"

-- Every stage is checked by itself, and its id against those that came before.
def validateStages (seen : List String) : List PluginStage → Except Failure Unit
  | [] => .ok ()
  | stage :: stages => do
    validateStage stage
    let id := stage.id
    if id ∈ seen then throw <| .msg s!"duplicate pipeline stage id '{id}'"
    validateStages (id :: seen) stages

def validateNext (ids : List String) (stage : PluginStage) : Except Failure Unit :=
  match stage.next with
  | some next => do
    validateNonEmpty "pipeline.stages[].next" next
    let id := stage.id
    if next ∉ ids then throw <| .msg s!"pipeline stage '{id}' references unknown next stage '{next}'"
  | none => .ok ()

namespace PluginManifest

variable (m : PluginManifest)

def validateMetadata : Except Failure Unit := do
  validateNonEmpty "metadata.id" m.metadata.id
  validateNonEmpty "metadata.display_name" m.metadata.displayName
  validateNonEmpty "metadata.version" m.metadata.version
  validateNonEmpty "metadata.description" m.metadata.description
  if ¬m.configuration.isNull ∧ m.configuration.asObject.isNone then
    throw <| .msg "configuration must be an object when provided"

def validateFile (file : PluginFileField) : Except Failure Unit := do
  validateNonEmpty "ingress.files[].name" file.name
  let name := file.name
  if file.mediaTypes = [] then
    throw <| .msg s!"ingress.files entry '{name}' must declare at least one media type"

def validateIngress : Except Failure Unit := do
  let ingress := m.ingress
  if ingress.contentTypes = [] then
    throw <| .msg "ingress.content_types must contain at least one content type"
  ingress.contentTypes.forM (validateNonEmpty "ingress.content_types[]")
  let contentType := ingress.defaultContentType
  if contentType ∉ ingress.contentTypes then
    throw <| .msg s!"default content type '{contentType}' must be present in ingress.content_types"
  if ingress.operations.allowed = [] then
    throw <| .msg "ingress.operations.allowed must contain at least one operation"
  ingress.operations.allowed.forM (validateNonEmpty "ingress.operations.allowed[]")
  let operation := ingress.operations.default
  if operation ∉ ingress.operations.allowed then
    throw <| .msg s!"default operation '{operation}' must be present in ingress.operations.allowed"
  if ingress.files ≠ [] ∧ "multipart/form-data" ∉ ingress.contentTypes then
    throw <| .msg "file upload fields require 'multipart/form-data' in ingress.content_types"
  ingress.files.forM validateFile
  validateSchemaSource ingress.jsonSchema ingress.jsonSchemaInline "ingress.json_schema" "ingress.json_schema_inline"
    ("application/json" ∈ ingress.contentTypes ∧ m.runtime.kind ≠ "python")
  validateSchemaSource ingress.formSchema ingress.formSchemaInline "ingress.form_schema" "ingress.form_schema_inline"
    ("multipart/form-data" ∈ ingress.contentTypes ∧ m.runtime.kind ≠ "python")

def validatePipeline : Except Failure Unit := do
  if m.stages = [] then throw <| .msg "pipeline.stages must contain at least one stage"
  validateStages [] m.stages
  m.stages.forM (validateNext (m.stages.map (·.id)))

def validateRuntime : Except Failure Unit := do
  validateNonEmpty "runtime.kind" m.runtime.kind
  validateNonEmpty "runtime.entrypoint" m.runtime.entrypoint
  validateNonEmpty "runtime.executor_class" m.runtime.executorClass
  validateOptional "runtime.prepare_executor_class" m.runtime.prepareExecutorClass
  validateOptional "runtime.postprocess_executor_class" m.runtime.postprocessExecutorClass
  validateOptional "runtime.readiness_executor_class" m.runtime.readinessExecutorClass

def validateOutputs : Except Failure Unit := do
  validateSchemaSource m.outputs.resultSchema m.outputs.resultSchemaInline "outputs.result_schema"
    "outputs.result_schema_inline" (m.runtime.kind ≠ "python")
  validateNonEmpty "outputs.primary_artifact.name" m.outputs.primaryArtifact.name
  validateNonEmpty "outputs.primary_artifact.media_type" m.outputs.primaryArtifact.mediaType

def validateEnvCheck (check : PluginReadinessEnvCheck) : Except Failure Unit := do
  if (check.name.bind Text.nonBlank).isNone ∧ check.anyOf.all Text.isBlank then
    throw <| .msg ("developer.readiness.env entries must define 'name' or at least one non-empty " ++
      "'any_of' entry")
  validateReadinessKind "developer.readiness.env[].kind" check.kind

def validatePathCheck (check : PluginReadinessPathCheck) : Except Failure Unit := do
  validateNonEmpty "developer.readiness.paths[].path" check.path
  validateReadinessKind "developer.readiness.paths[].kind" check.kind

def validateReadiness : Except Failure Unit := do
  validateOptional "developer.readiness.recommended_check_phase" m.readiness.recommendedCheckPhase
  m.readiness.pythonModules.forM (validateNonEmpty "developer.readiness.python_modules[]")
  m.readiness.env.forM validateEnvCheck
  m.readiness.paths.forM validatePathCheck

def validate : Except Failure Unit := do
  m.validateMetadata
  m.validateIngress
  m.validatePipeline
  m.validateRuntime
  m.validateOutputs
  m.validateReadiness

end PluginManifest

end Server
