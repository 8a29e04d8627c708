import ServeModel.Runtime.Basic

open Json

structure StageDescriptor where
  id : String
  phase : String
  queue : String
  next : Option String
  deriving DecidableEq

structure StageContext where
  currentStageId : String
  currentPhase : String
  pipeline : List StageDescriptor
  deriving DecidableEq

namespace StageDescriptor

-- A missing `next` is no successor in an object, but an error in an array.
def decode (j : Json) : Option StageDescriptor := do
  let f ← j.structFields ["id", "phase", "queue", "next"]
  guard (j.asArray.all (·.length = 4))
  return {
    id := ← required asStr (f "id")
    phase := ← required asStr (f "phase")
    queue := ← required asStr (f "queue")
    next := ← withDefault none (optional asStr) (f "next")
  }

def encode (stage : StageDescriptor) : Json :=
  .object [("id", .str stage.id), ("phase", .str stage.phase), ("queue", .str stage.queue),
    ("next", .ofOption .str stage.next)]

end StageDescriptor

namespace StageContext

def decode (j : Json) : Option StageContext := do
  let f ← j.structFields ["current_stage_id", "current_phase", "pipeline"]
  return {
    currentStageId := ← required asStr (f "current_stage_id")
    currentPhase := ← required asStr (f "current_phase")
    pipeline := ← required (list StageDescriptor.decode) (f "pipeline")
  }

def find (context : StageContext) (id : String) : Option StageDescriptor :=
  context.pipeline.find? (·.id = id)

theorem find_id {context : StageContext} (h : context.find name = some stage) : stage.id = name := by
  simpa using List.find?_some h

def nextStage (context : StageContext) (role : String) : Except Failure StageDescriptor := do
  let currentId := context.currentStageId
  let some current := context.find currentId
    | throw <| .msg s!"{role}: current stage '{currentId}' not found in pipeline"
  let currentPhase := context.currentPhase
  let phase := current.phase
  if phase ≠ currentPhase then
    throw <| .msg s!"{role}: current phase '{currentPhase}' does not match pipeline phase '{phase}'"
  let some nextId := current.next
    | throw <| .msg s!"{role}: current stage '{currentId}' has no next stage"
  let some next := context.find nextId
    | throw <| .msg s!"{role}: next stage '{nextId}' not found in pipeline"
  return next

end StageContext

def updateStageContext (next : StageDescriptor) (role : String) (payload : Fields) :
    Except Failure Fields := do
  let some context := (field "stage_context" payload).bind asObject
    | throw <| .msg s!"{role}: payload missing object stage_context"
  let context := setField "current_phase" (.str next.phase)
    (setField "current_stage_id" (.str next.id) context)
  return setField "stage_context" (.obj context) payload
