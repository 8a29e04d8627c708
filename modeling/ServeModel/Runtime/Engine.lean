import ServeModel.Queue.Reply

-- One pass of a worker over its input streams.
namespace Engine

open Queue

structure InputStreamSpec where
  stream : String
  maxDequeueItems : Nat
  blockMs : Nat
  reclaimIdleMs : Nat

structure RunOnceStats where
  polled : Nat := 0
  succeeded : Nat := 0
  failed : Nat := 0
  acked : Nat := 0
  deriving DecidableEq

inductive Command
  | xautoclaim (key group consumer : String) (minIdleMs : Nat) (start : String) (count : Nat)
  | xpending (key group : String) (count : Nat)
  | xclaim (key group consumer : String) (minIdleMs : Nat) (ids : List String)
  | xreadgroup (key group consumer : String) (blockMs count : Nat)

inductive Call
  | backgroundTasks
  | command (c : Command)
  | dispatch (stream : String) (messages : List Message)

-- Everything around the pass: the server with its replies, the background tasks, and what the role does with
-- the messages. The JSON library and the prefix of the stream keys are part of it.
structure Host (σ : Type) where
  exec : Command → σ → Except String RedisValue × σ
  backgroundTasks : σ → Except Failure Unit × σ
  dispatch : InputStreamSpec → List Message → RunOnceStats → σ → Except Failure RunOnceStats × σ
  json : String → Option Json
  keyStart : String
  consumer : String

-- The state of the surroundings, and what the pass has done so far.
structure World (σ : Type) where
  state : σ
  calls : List Call

abbrev Pass (σ : Type) := ExceptT Failure (StateM (World σ))

variable {σ : Type} (host : Host σ)

def call (c : Call) (act : σ → α × σ) : Pass σ α :=
  ExceptT.mk fun w => (.ok (act w.state).1, ⟨(act w.state).2, w.calls ++ [c]⟩)

def command (c : Command) : Pass σ (Except String RedisValue) :=
  call (.command c) (host.exec c)

def fromQueue (e : QueueError) : Failure :=
  .msg e.display

def streamKey (logical : String) : String :=
  host.keyStart ++ logical

def consumerGroupName (stream : String) : String :=
  stream ++ ":grp"

def isXautoclaimUnsupported (e : QueueError) : Bool :=
  Text.contains "unknown command" e.display && Text.contains "XAUTOCLAIM" e.display

-- Servers that do not know `XAUTOCLAIM` are asked for the pending entries first.
def claimIdleMessages (key group consumer : String) (minIdleMs : Nat) (start : String) (count : Nat) :
    Pass σ (String × List Message) := do
  match ← command host (.xautoclaim key group consumer minIdleMs start count) with
  | .ok val =>
    match parseXautoclaimMessages host.json key group val with
    | .ok claimed => return claimed
    | .error e => throw (fromQueue e)
  | .error text =>
    if ¬isXautoclaimUnsupported (.redis text) then throw (fromQueue (.redis text)) else
    match ← command host (.xpending key group count) with
    | .error text => throw (fromQueue (.redis text))
    | .ok pending =>
      let ids := parseXpendingIds pending
      if ids = [] then return ("0-0", []) else
      match ← command host (.xclaim key group consumer minIdleMs ids) with
      | .error text => throw (fromQueue (.redis text))
      | .ok val => return ("0-0", parseXclaimMessages host.json key group val)

def reclaimIdle (input : InputStreamSpec) : Pass σ (List Message) := do
  let (_, messages) ← claimIdleMessages host (streamKey host input.stream) (consumerGroupName input.stream)
    host.consumer input.reclaimIdleMs "0-0" input.maxDequeueItems
  return messages

def pollStream (input : InputStreamSpec) : Pass σ (List Message) := do
  let key := streamKey host input.stream
  let group := consumerGroupName input.stream
  match ← command host (.xreadgroup key group host.consumer input.blockMs input.maxDequeueItems) with
  | .error text => throw (fromQueue (.redis text))
  | .ok val => return parseStreamMessages host.json key group val

def dispatchMessages (input : InputStreamSpec) (messages : List Message) (stats : RunOnceStats) :
    Pass σ RunOnceStats := do
  match ← call (.dispatch input.stream messages) (host.dispatch input messages stats) with
  | .error e => throw e
  | .ok stats => return stats

def runInput (input : InputStreamSpec) (stats : RunOnceStats) : Pass σ RunOnceStats := do
  let reclaimed ← reclaimIdle host input
  let stats ← dispatchMessages host input reclaimed { stats with polled := stats.polled + reclaimed.length }
  let messages ← pollStream host input
  dispatchMessages host input messages { stats with polled := stats.polled + messages.length }

def runInputs : List InputStreamSpec → RunOnceStats → Pass σ RunOnceStats
  | [], stats => return stats
  | input :: inputs, stats => do
    let stats ← runInput host input stats
    runInputs inputs stats

def runWithInputs (inputs : List InputStreamSpec) : Pass σ RunOnceStats := do
  match ← call .backgroundTasks host.backgroundTasks with
  | .error e => throw e
  | .ok _ => runInputs host inputs {}

end Engine
