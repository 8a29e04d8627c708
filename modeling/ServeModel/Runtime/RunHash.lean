import ServeModel.Queue.Lua

-- The commands that write `updated_at` in the hash of a run.
namespace RunHash

open Redis

variable (clock : Nat)

-- The clock counts milliseconds.
def getTimestamp : String :=
  toString clock

def nowSecs : String :=
  toString (clock / 1000)

inductive Writer
  -- the server, before it hands a run to its first stage
  | storeQueuedRun
  -- the scripts that hand a message on to a stage
  | handoff (stage : String)
  -- the results, publish and collect roles
  | persistHashFields
  | persistStatus
  | persistProgress
  | persistPublicationSkipped
  | initGroup
  -- the Python worker
  | persistRunStatusAndResult

structure Write where
  writer : Writer
  -- The other fields of the command, if it is not a script.
  rest : EntryFields
  -- When the clock was read, and when Redis ran the command.
  clock : Nat
  applied : Nat
  clock_le : clock ≤ applied
  rest_ne : ∀ field ∈ rest, field.1 ≠ "updated_at"

def Write.fields (w : Write) : EntryFields :=
  match w.writer with
  | .storeQueuedRun => ("updated_at", getTimestamp w.clock) :: w.rest
  | .handoff stage => Queue.stageFields stage (nowSecs w.clock)
  | _ => ("updated_at", nowSecs w.clock) :: w.rest

def run (ws : List Write) : String → Option String :=
  ws.foldl (fun hash w => setAll w.fields hash) fun _ => none

def updatedAt (hash : String → Option String) : Option Nat :=
  (hash "updated_at").map fun text => Nat.ofDigitChars 10 text.toList 0

end RunHash
