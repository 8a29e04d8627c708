import ServeModel.Runtime.Basic

-- Reading the replies of a Redis server.
namespace Queue

inductive RedisValue
  | nil
  | int (i : Int)
  | bulkString (bytes : ByteArray)
  | simpleString (text : String)
  | okay
  | array (items : List RedisValue)
  | other

def valueToString : RedisValue → Option String
  | .bulkString bytes => String.fromUTF8? bytes
  | .simpleString text => some text
  | .okay => some "OK"
  | .int i => some (toString i)
  | .nil => none
  | .array _ => none
  | .other => none

inductive QueueError
  | redis (text : String)
  | config (text : String)
  deriving DecidableEq

def QueueError.display : QueueError → String
  | redis text => "Redis error: " ++ text
  | config text => "Configuration error: " ++ text

-- The fields that have been seen so far. A field that occurs again replaces the first one.
structure SeenFields where
  runId : Option String := none
  payload : Option String := none
  stage : Option String := none

def SeenFields.see (key val : String) (seen : SeenFields) : SeenFields :=
  if key = "run_id" then { seen with runId := some val }
  else if key = "payload" then { seen with payload := some val }
  else if key = "stage" then { seen with stage := some val }
  else seen

def SeenFields.scan : SeenFields → List RedisValue → Option SeenFields
  | seen, k :: v :: kvs => do
    let key ← valueToString k
    let val ← valueToString v
    scan (seen.see key val) kvs
  | seen, _ => some seen

structure MessageFields where
  runId : String
  payload : String
  stage : String
  deriving DecidableEq

def SeenFields.finish (seen : SeenFields) : Option MessageFields :=
  match seen.runId, seen.payload with
  | some runId, some payload =>
    if Text.isBlank runId ∨ Text.isBlank payload then none else
    match seen.stage with
    | some stage => if Text.isBlank stage then none else some ⟨runId, payload, stage⟩
    | none => some ⟨runId, payload, ""⟩
  | _, _ => none

def extractMessageFields : RedisValue → Option MessageFields
  | .array kvs => if kvs.length % 2 ≠ 0 then none else (SeenFields.scan {} kvs).bind SeenFields.finish
  | _ => none

def parseMessageEntry : RedisValue → Option (String × MessageFields)
  | .array [id, fields] => do
    let msgId ← valueToString id
    let fields ← extractMessageFields fields
    return (msgId, fields)
  | _ => none

-- The messages of one stream in a reply. What is malformed is dropped.
def extractStreamMessages : RedisValue → List (String × MessageFields)
  | .array [_, .array items] => items.filterMap parseMessageEntry
  | _ => []

def parseStreamEntries : RedisValue → List (String × MessageFields)
  | .array streams => streams.flatMap extractStreamMessages
  | _ => []

section Messages

-- What the JSON library makes of a text.
variable (json : String → Option Json) (stream group : String)

def toMessage (entry : String × MessageFields) : Message where
  id := entry.1
  stream := stream
  group := group
  runId := entry.2.runId
  payload := ⟨entry.2.payload, json entry.2.payload⟩
  stage := entry.2.stage

def parseStreamMessages (response : RedisValue) : List Message :=
  (parseStreamEntries response).map (toMessage json stream group)

def parseXclaimMessages : RedisValue → List Message
  | .array items => (items.filterMap parseMessageEntry).map (toMessage json stream group)
  | _ => []

def parseXpendingIds : RedisValue → List String
  | .array items => items.filterMap fun
    | .array (id :: _) => valueToString id
    | _ => none
  | _ => []

def malformedEntry (index : Nat) (what : String) : QueueError :=
  .config s!"malformed XAUTOCLAIM message entry at index {index}: {what}"

-- An entry may have more than two parts here.
def parseXautoclaimEntry (index : Nat) : RedisValue → Except QueueError (String × MessageFields)
  | .array (id :: fields :: _) =>
    match valueToString id with
    | none => .error (malformedEntry index "missing/non-string id")
    | some msgId =>
      match extractMessageFields fields with
      | none => .error (malformedEntry index "invalid field payload")
      | some fields => .ok (msgId, fields)
  | .array _ => .error (malformedEntry index "missing fields")
  | _ => .error (malformedEntry index "expected array")

def parseXautoclaimEntries : Nat → List RedisValue → Except QueueError (List (String × MessageFields))
  | _, [] => .ok []
  | index, item :: items => do
    let entry ← parseXautoclaimEntry index item
    let entries ← parseXautoclaimEntries (index + 1) items
    return entry :: entries

def malformedResponse (what : String) : QueueError :=
  .config ("malformed XAUTOCLAIM response: " ++ what)

def parseXautoclaimMessages : RedisValue → Except QueueError (String × List Message)
  | .array (next :: messages :: _) =>
    match valueToString next with
    | none => .error (malformedResponse "next_start_id is not a string")
    | some nextStartId =>
      match messages with
      | .array items => do
        let entries ← parseXautoclaimEntries 0 items
        return (nextStartId, entries.map (toMessage json stream group))
      | _ => .error (malformedResponse "messages element is not an array")
  | .array _ => .error (malformedResponse "expected at least [next_id, messages]")
  | _ => .error (malformedResponse "expected array")

end Messages

end Queue
