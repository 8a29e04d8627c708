import ServeModel.Lib.Python
import ServeModel.Lib.Checks

-- The worker that runs the hooks of a plugin: what it reads from payloads and from results.
namespace Inference

open Python

inductive Exc
  | valueError (text : String)
  | error (text : String) -- any other exception that the handlers for ordinary ones take
  | fatal -- ends the process
  deriving DecidableEq

def Exc.text : Exc → String
  | valueError text | error text => text
  | fatal => ""

abbrev M := Except Exc

-- What the worker finds around it.
structure Env where
  repr : Value → String -- the text of containers and of numbers with a fraction
  publicationConfig : Option Json -- the decoded configuration of the output publication
  streamPrefix : String
  now : String

section Values

variable (env : Env)

def raising {α : Type} (x : Except String α) : M α :=
  x.mapError .error

def truth (v : Value) : M Bool :=
  raising v.truth

-- The first value if it is true, otherwise the second.
def orElse (a b : Value) : M Value := do
  if ← truth a then return a else return b

def Env.str (v : Value) : M Value :=
  match v.textError, v with
  | some e, _ => .error (.error e)
  | none, .str s => .ok (.str s)
  | none, .surrogate => .ok .surrogate
  | none, .none => .ok (.str "None")
  | none, .bool b => .ok (.str (if b then "True" else "False"))
  | none, .int n => .ok (.str (toString n))
  | none, .object ⟨_, .ok t, _, _⟩ => .ok (.str t)
  | none, v => .ok (.str (env.repr v))

-- Besides the Unicode property there are four separators.
def isSpace (c : Char) : Bool :=
  Text.isWhitespace c || (0x1C ≤ c.toNat && c.toNat ≤ 0x1F)

def trimText (s : String) : String :=
  String.ofList ((s.toList.dropWhile isSpace).rdropWhile isSpace)

def strip : Value → Value
  | .str s => .str (trimText s)
  | v => v

def lower (s : String) : String :=
  String.ofList (s.toList.map Char.toLower)

-- The idiom `str(v or default).strip()`.
def Env.stripped (v : Value) (default : String) : M Value := do
  return strip (← env.str (← orElse v (.str default)))

def isSuccessStatus (rawStatus : Value) : M Bool := do
  match ← env.stripped rawStatus "succeeded" with
  | .str s => return lower s ∈ ["success", "succeeded", "completed"]
  | _ => return false

end Values

def hasId (id : String) : Value → Bool
  | .dict (stage : Dict) => (stage.get "id").bind Value.asStr = some id
  | _ => false

def findStage (pipeline : List Value) (id : String) : Option Dict :=
  (pipeline.find? (hasId id)).bind Value.asDict

def stagePhase (stage : Dict) : Value :=
  stage.entry "phase"

def isStr (v : Value) (s : String) : Bool :=
  v.asStr = some s

def nextStageOf (context : Dict) : Option Dict :=
  match context.get "pipeline", context.get "current_stage_id" with
  | some (.list pipeline), some (.str currentStageId) =>
    match findStage pipeline currentStageId with
    | none => none
    | some currentStage =>
      match context.get "current_phase", currentStage.get "next" with
      | some (.str phase), some (.str next) =>
        if isStr (stagePhase currentStage) phase ∧ next ≠ "" then findStage pipeline next else none
      | some .surrogate, _ => none
      | _, some (.str next) => if next ≠ "" then findStage pipeline next else none
      | _, _ => none
  | _, _ => none

def nextPluginStage (payload : Dict) : M (Option Dict) := do
  if ← truth (payload.entry "workflow_id") then
    match payload.get "stage_context" with
    | some (.dict (context : Dict)) => return nextStageOf context
    | _ => return none
  else return none

def nextPhase (nextStage : Option Dict) : Value :=
  (nextStage.map stagePhase).getD .none

section Results

variable (env : Env)

def status (result : Dict) : Value :=
  result.getD "status" (.str "succeeded")

-- The items that are left for the scheduler to expand.
def fanoutItems (result : Dict) : Value :=
  match result.get "_pipeline_updates" with
  | some (.dict (updates : Dict)) => updates.entry "fanout_items"
  | _ => .none

def validateFanoutHandoff (payload result : Dict) : M Unit := do
  if ← isSuccessStatus env (status result) then
    if ← truth (fanoutItems result) then
      let nextPhase := nextPhase (← nextPluginStage payload)
      if ¬isStr nextPhase "schedule" then
        let shown := env.repr nextPhase
        throw (.valueError s!"fanout_items require a schedule stage next, but the next stage phase is {shown}")

-- Membership in a set asks for a hash, which lists and mappings do not have.
def isOneOf (v : Value) (texts : List String) : M Bool :=
  match v with
  | .list _ => throw (.error "unhashable type: 'list'")
  | .dict _ => throw (.error "unhashable type: 'dict'")
  | v => return texts.any (isStr v)

def shouldPersistRunStatusAfterExecute (payload result : Dict) : M Bool := do
  if ¬(← isSuccessStatus env (status result)) then return true
  match ← nextPluginStage payload with
  | none => return true
  | some stage => return !(← isOneOf (stagePhase stage) ["postprocess", "publish", "schedule"])

def shouldMarkPublicationSkippedAfterExecuteFailure (payload result : Dict) : M Bool := do
  if ← isSuccessStatus env (status result) then return false
  if ¬(payload.entry "output_publication").isDict then return false
  return ¬isStr (nextPhase (← nextPluginStage payload)) "publish"

def normalizeBatchOutcomeStatus (rawStatus : Value) : M String := do
  match ← env.stripped rawStatus "succeeded" with
  | .str s =>
    if lower s ∈ ["success", "succeeded", "completed"] then return "succeeded"
    else if lower s ∈ ["cancelled", "canceled"] then return "cancelled"
    else return "failed"
  | _ => return "failed"

end Results

end Inference
