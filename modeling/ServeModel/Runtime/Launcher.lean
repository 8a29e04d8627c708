import Mathlib.Data.List.Basic

-- The launcher starts the workers of a pod, replaces those that exit, and stops them when it gets a signal.
namespace Launcher

-- The stream and the number that a worker is given, and under which it registers.
structure Key where
  streamName : String
  workerIndex : Int

-- What the launcher reads of an entry of the registry. `int` fails on an index, or overflows.
inductive Index
  | value (n : Int)
  | invalid
  | infinite
  deriving DecidableEq

inductive Metadata
  | invalid -- not JSON
  | other -- JSON that is not an object, or no UTF-8
  | object (stream : Option String) (workerIndex : Index)
  deriving DecidableEq

abbrev Registry := List (String × Metadata)

-- Fails if an exception leaves the loop.
def matchesKey (streamName : String) (workerIndex : Option Int) : Metadata → Option Bool
  | .invalid => some false
  | .other => none
  | .object stream index =>
    if stream ≠ some streamName then some false
    else
      match workerIndex, index with
      | none, _ => some true
      | some _, .infinite => none
      | some _, .invalid => some false
      | some i, .value n => some (n = i)

def matchingRegistryFields (streamName : String) (workerIndex : Option Int) : Registry → Option (List String)
  | [] => some []
  | (field, metadata) :: registry => do
    let hit ← matchesKey streamName workerIndex metadata
    let fields ← matchingRegistryFields streamName workerIndex registry
    return if hit then field :: fields else fields

def hdel (fields : List String) (registry : Registry) : Registry :=
  registry.filter (·.1 ∉ fields)

-- All exceptions are swallowed, those of an unreachable server too.
def cleanupRegistration (answers : Bool) (streamName : String) (workerIndex : Option Int)
    (registry : Registry) : Registry :=
  match if answers then matchingRegistryFields streamName workerIndex registry else none with
  | none => registry
  | some [] => hdel [workerIndex.elim streamName fun i => s!"{streamName}:worker:{i}"] registry
  | some fields => hdel fields registry

structure Process where
  running : Bool
  terminated : Bool -- has been sent SIGTERM

def Process.terminate (p : Process) : Process :=
  if p.running then { p with terminated := true } else p

inductive Signal
  | sigterm
  | sigint
  deriving DecidableEq

-- Where `main` stands.
inductive Location
  | starting (i : Nat)
  | installing -- SIGTERM has its handler, SIGINT not yet
  | checking
  | polling (i : Nat)
  | exited (i : Nat)
  | cleaned (i : Nat)
  | restarting (i : Nat) -- the restart delay
  | restarted (i : Nat) -- the new worker runs, but is not in the list yet
  | waiting (i : Nat)
  | waited (i : Nat)
  | ended
  deriving DecidableEq

@[simp]
def Location.settled : Location → Bool
  | starting _ | restarting _ | restarted _ => false
  | _ => true

end Launcher

open Launcher

-- `procs` has the last process that was started for each spec. Whether a signal has come, and whether a worker was
-- started after it, is noted for the sake of the proof.
structure Launcher where
  location : Location
  procs : Nat → Option Process
  registry : Registry
  shutdownRequested : Bool
  signalled : Bool
  late : Bool

namespace Launcher

def start (registry : Registry) : Launcher where
  location := .starting 0
  procs := fun _ => none
  registry := registry
  shutdownRequested := false
  signalled := false
  late := false

def setProc (s : Launcher) (i : Nat) (p : Process) : Launcher :=
  { s with procs := Function.update s.procs i (some p) }

def spawnWorker (s : Launcher) (i : Nat) (location : Location) : Launcher :=
  { s.setProc i ⟨true, false⟩ with location, late := s.late || s.signalled }

-- The list still has the old process of a worker that has just been restarted.
def handleSignal (s : Launcher) : Launcher :=
  { s with
    shutdownRequested := true
    signalled := true
    procs := fun i => if s.location = .restarted i then s.procs i else (s.procs i).map Process.terminate }

-- As long as there is no handler, a signal ends the launcher.
def signal (s : Launcher) (signum : Signal) : Option Launcher :=
  match s.location with
  | .ended => none
  | .starting _ => some { s with location := .ended, signalled := true }
  | .installing =>
    if signum = .sigint then some { s with location := .ended, signalled := true } else some s.handleSignal
  | _ => some s.handleSignal

variable (specs : List Key)

def cleanup (s : Launcher) (answers : Bool) (key : Key) (location : Location) : Launcher :=
  { s with location, registry := cleanupRegistration answers key.streamName (some key.workerIndex) s.registry }

-- The next thing that `main` does. A wait for a worker that does not exit runs into its timeout, and the worker is
-- killed.
def main (s : Launcher) (answers : Bool) : Option Launcher :=
  match s.location with
  | .starting i =>
    if i < specs.length then some (s.spawnWorker i (.starting (i + 1))) else some { s with location := .installing }
  | .installing => some { s with location := .checking }
  | .checking => some { s with location := if s.shutdownRequested then .waiting 0 else .polling 0 }
  | .polling i =>
    if i < specs.length then
      (s.procs i).map fun p => { s with location := if p.running then .polling (i + 1) else .exited i }
    else some { s with location := .checking }
  | .exited i => specs[i]?.map (s.cleanup answers · (.cleaned i))
  | .cleaned i => some { s with location := if s.shutdownRequested then .polling (i + 1) else .restarting i }
  | .restarting i => if i < specs.length then some (s.spawnWorker i (.restarted i)) else none
  | .restarted i => some { s with location := .polling (i + 1) }
  | .waiting i =>
    if i < specs.length then
      (s.procs i).map fun p => { s.setProc i { p with running := false } with location := .waited i }
    else some { s with location := .ended }
  | .waited i => specs[i]?.map (s.cleanup answers · (.waiting (i + 1)))
  | .ended => none

def named (key : Key) (metadata : Metadata) : Prop :=
  matchesKey key.streamName (some key.workerIndex) metadata = some true

instance : Decidable (named key metadata) :=
  inferInstanceAs <| Decidable (_ = some true)

inductive Action
  | main (answers : Bool)
  | signal (signum : Signal)
  | exit (i : Nat)
  | register (i : Nat) (field : String)
  | others (registry : Registry)

def step (s : Launcher) : Action → Option Launcher
  | .main answers => s.main specs answers
  | .signal signum => s.signal signum
  | .exit i => (s.procs i).map fun p => s.setProc i { p with running := false }
  | .register i field => do
    let key ← specs[i]?
    let p ← s.procs i
    let metadata := .object (some key.streamName) (.value key.workerIndex)
    if p.running then some { s with registry := (field, metadata) :: hdel [field] s.registry } else none
  -- entries go, and come under other names
  | .others registry =>
    if ∀ e ∈ registry, e ∈ s.registry ∨ ∀ key ∈ specs, ¬named key e.2 then some { s with registry } else none

-- The workers come to a clean end.
structure Orderly (s : Launcher) : Prop where
  noStart : s.late = false
  terminated : s.signalled → ∀ i p, s.procs i = some p → p.running → p.terminated
  stopped : s.location = .ended → ∀ i p, s.procs i = some p → p.running = false
  removed : s.location = .ended → ∀ i p key, s.procs i = some p → specs[i]? = some key →
    ∀ e ∈ s.registry, ¬named key e.2

-- A signal finds its handler, and no worker about to be replaced. The last calls of `cleanup_registration` get through,
-- and can read the whole registry.
def Handled (s : Launcher) : Action → Prop
  | .signal signum => s.location.settled ∧ (s.location = .installing → signum = .sigterm)
  | .main answers => ∀ i key, s.location = .waited i → specs[i]? = some key →
    answers ∧ ∀ e ∈ s.registry, (matchesKey key.streamName (some key.workerIndex) e.2).isSome
  | _ => True

end Launcher
