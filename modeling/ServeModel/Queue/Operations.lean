import ServeModel.Queue.Lua
import ServeModel.Runtime.Basic

namespace Queue

open Redis

def runHashPrefix : String := "run:"

def nonEmpty (name text : String) : Except String Unit :=
  if Text.isBlank text then .error s!"{name} must be non-empty" else .ok ()

def validateMessageContext (m : Message) : Except String Unit := do
  nonEmpty "message.id" m.id
  nonEmpty "message.stream" m.stream
  nonEmpty "message.group" m.group
  nonEmpty "message.run_id" m.runId

-- The messages after the first one, with the ids that have been seen before.
def validateSources (first : Message) : List String → List Message → Except String Unit
  | _, [] => .ok ()
  | seen, m :: rest => do
    validateMessageContext m
    if m.stream ≠ first.stream ∨ m.group ≠ first.group then
      .error "forward_many source messages must share a stream and consumer group"
    else if m.id ∈ seen then .error "forward_many source message IDs must be unique"
    else validateSources first (m.id :: seen) rest

def validateForwardManySources : List Message → Except String Unit
  | [] => .error "forward_many requires at least one source message"
  | first :: rest => do
    validateMessageContext first
    validateSources first [first.id] rest

def validateForwardManyOutputs (outputs : List Output) : Except String Unit :=
  if outputs = [] then .error "forward_many requires at least one output"
  else if outputs.any (·.runId.any Text.isBlank) then
    .error "forward_many output run_id must be non-empty when provided"
  else .ok ()

structure ResolvedOutput where
  stream : String
  runId : String
  payload : String
  stage : String

-- The stage is called after the stream by default.
def resolveOutput (message : Message) (o : Output) : ResolvedOutput where
  stream := o.stream
  runId := o.runId.getD message.runId
  payload := o.payload.text
  stage := o.stage.getD o.stream

variable (srv : Server)

def ofExcept : Except String α → Script α
  | .ok a => pure a
  | .error e => .fail e

def evalForwardMany (message : Message) (messages : List Message) (outputs : List ResolvedOutput) :
    Script (List EntryId) :=
  luaForwardMany srv (outputs.map (·.stream) ++ [message.stream])
    ([message.group, toString messages.length, toString outputs.length, runHashPrefix] ++
      messages.map (·.id) ++ outputs.flatMap fun o => [o.runId, o.payload, o.stage])

def forwardManyFrom (messages : List Message) (outputs : List Output) : Script (List EntryId) := do
  ofExcept (validateForwardManySources messages)
  ofExcept (validateForwardManyOutputs outputs)
  match messages with
  | [] => .fail "index out of bounds"
  | message :: _ => evalForwardMany srv message messages (outputs.map (resolveOutput message))

structure HandoffRequest where
  currentStream : String
  nextStream : String
  group : String
  runId : String
  payloadJson : String
  currentMsgId : String
  nextStage : String

def HandoffRequest.new (r : HandoffRequest) : Except String HandoffRequest := do
  nonEmpty "current_stream" r.currentStream
  nonEmpty "next_stream" r.nextStream
  nonEmpty "group" r.group
  nonEmpty "run_id" r.runId
  nonEmpty "payload_json" r.payloadJson
  nonEmpty "current_msg_id" r.currentMsgId
  nonEmpty "next_stage" r.nextStage
  return r

def evalHandoff (r : HandoffRequest) : Script EntryId :=
  luaHandoff srv [r.nextStream, r.currentStream, runHashPrefix ++ r.runId]
    [r.runId, r.payloadJson, r.group, r.currentMsgId, r.nextStage]

def handoffMessageToRun (m : Message) (destStream : String) (payload stage runId : Option String) :
    Script EntryId := do
  ofExcept (validateMessageContext m)
  let request ← ofExcept (HandoffRequest.new {
    currentStream := m.stream
    nextStream := destStream
    group := m.group
    runId := runId.getD m.runId
    payloadJson := payload.getD m.payload.text
    currentMsgId := m.id
    nextStage := stage.getD destStream })
  evalHandoff srv request

def claimRollbackTtlSecs : Nat := 600
def committedTtlSecs : Nat := 86400

def handoffToRunAndCommitForConsumer (m : Message) (destStream payload stage runId finalizationKey ownerToken : String)
    (recoveryKeys : List String) (consumer : String) : Script EntryId :=
  luaHandoffAndCommit srv ([destStream, m.stream, runHashPrefix ++ runId, finalizationKey] ++ recoveryKeys)
    [runId, payload, m.group, m.id, stage, ownerToken, toString claimRollbackTtlSecs, consumer,
      toString committedTtlSecs]

end Queue
