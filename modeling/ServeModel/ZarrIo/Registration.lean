import ServeModel.ZarrIo.Basic
import ServeModel.Lib.Transition

-- The metadata of a registration is written by a thread of its own, which writes and a close wait for.
namespace ZarrIo

namespace Registration

-- How far the one `add_array` has come that finds the registry empty. Another one changes nothing.
inductive AddArray
  | idle
  | begun -- the backend was not closed
  | registered -- the registry has the arrays
  | spawned
  | stored -- the handle of the thread is in its place
  | returned -- the flag is set
  | failed -- there is no thread
  deriving DecidableEq

-- A thread of the operating system.
inductive Thread
  | absent
  | running
  | returned (result : Except SyncWriteError Unit)
  | panicked

-- The thread with the metadata first writes the root and coordinate files.
inductive MetadataThread
  | absent
  | consolidating
  | joiningPool
  | returned (result : Except SyncWriteError Unit)
  | panicked

-- A call of `submit_write` or of `close`, from `wait_for_registration_metadata` on.
inductive Phase
  | loading -- reads the flag
  | taking -- the flag was set
  | joining -- has taken the handle
  | clearing (result : Except SyncWriteError Unit) -- has joined the thread, and resets the flag
  | waited (result : Except SyncWriteError Unit)
  | rejected (err : SyncWriteError)
  | working -- plans and dispatches, or drains and consolidates
  | returned (result : Except SyncWriteError Unit) -- a close that returns Ok reports metadata_consolidated = true

structure Caller where
  isClose : Bool
  phase : Phase

end Registration

open Registration

structure Registration where
  closed : Bool
  add : AddArray
  thread : MetadataThread
  poolInit : Thread -- absent without early initialisation
  filesWritten : Bool -- the root and coordinate files
  hasPendingRegistration : Bool
  pendingRegistrationJoin : Bool -- the handle is there
  callers : List Caller

namespace Registration

def start : Registration where
  closed := false
  add := .idle
  thread := .absent
  poolInit := .absent
  filesWritten := false
  hasPendingRegistration := false
  pendingRegistrationJoin := false
  callers := []

inductive Action
  | addArray
  | register
  | spawn (earlyInit : Bool)
  | spawnFails
  | store
  | setFlag
  | consolidate
  | consolidateFails (err : SyncWriteError)
  | threadPanics
  | poolReturns (result : Except SyncWriteError Unit)
  | poolPanics
  | joinPool
  | write
  | close
  | load (i : Nat)
  | take (i : Nat)
  | join (i : Nat)
  | clear (i : Nat)
  | goOn (i : Nat)
  | finish (i : Nat) (result : Except SyncWriteError Unit)

-- The registry has the arrays.
def isRegistered (s : Registration) : Bool :=
  match s.add with
  | .idle | .begun => false
  | _ => true

def setPhase (s : Registration) (i : Nat) (caller : Caller) (phase : Phase) : Registration :=
  { s with callers := s.callers.set i { caller with phase } }

def stepAddArray (s : Registration) : Action → Option Registration
  | .addArray => if s.add = .idle ∧ ¬s.closed then some { s with add := .begun } else none
  | .register => if s.add = .begun then some { s with add := .registered } else none
  | .spawn earlyInit =>
    if s.add = .registered then
      some { s with
        add := .spawned, thread := .consolidating, poolInit := if earlyInit then .running else .absent }
    else none
  | .spawnFails => if s.add = .registered then some { s with add := .failed } else none
  | .store => if s.add = .spawned then some { s with add := .stored, pendingRegistrationJoin := true } else none
  | .setFlag => if s.add = .stored then some { s with add := .returned, hasPendingRegistration := true } else none
  | _ => none

-- What the thread returns for the result of the pool's initialisation, which it waits for.
def poolResult : Thread → Option (Except SyncWriteError Unit)
  | .absent => some (.ok ())
  | .running => none
  | .returned r => some r
  | .panicked => some (.error (.contractViolation "early pool init thread panicked"))

def stepThreads (s : Registration) : Action → Option Registration
  | .consolidate =>
    match s.thread with
    | .consolidating => some { s with thread := .joiningPool, filesWritten := true }
    | _ => none
  | .consolidateFails err =>
    match s.thread with
    | .consolidating => some { s with thread := .returned (.error err) }
    | _ => none
  | .threadPanics =>
    match s.thread with
    | .consolidating | .joiningPool => some { s with thread := .panicked }
    | _ => none
  | .poolReturns result =>
    match s.poolInit with
    | .running => some { s with poolInit := .returned result }
    | _ => none
  | .poolPanics =>
    match s.poolInit with
    | .running => some { s with poolInit := .panicked }
    | _ => none
  | .joinPool =>
    match s.thread with
    | .joiningPool => (poolResult s.poolInit).map fun r => { s with thread := .returned r }
    | _ => none
  | _ => none

-- Only the first close gets this far. A write needs the arrays in the registry.
def stepCallers (s : Registration) : Action → Option Registration
  | .write =>
    if s.isRegistered then some { s with callers := s.callers ++ [⟨false, .loading⟩] } else none
  | .close =>
    if s.closed then none else some { s with closed := true, callers := s.callers ++ [⟨true, .loading⟩] }
  | .load i => do
    let caller ← s.callers[i]?
    match caller.phase with
    | .loading =>
      return s.setPhase i caller (if s.hasPendingRegistration then .taking else .waited (.ok ()))
    | _ => none
  | .take i => do
    let caller ← s.callers[i]?
    match caller.phase with
    | .taking =>
      if s.pendingRegistrationJoin then
        return { s.setPhase i caller .joining with pendingRegistrationJoin := false }
      else return s.setPhase i caller (.waited (.ok ()))
    | _ => none
  | .join i => do
    let caller ← s.callers[i]?
    match caller.phase, s.thread with
    | .joining, .returned result => return s.setPhase i caller (.clearing result)
    | .joining, .panicked =>
      return s.setPhase i caller (.waited (.error (.contractViolation "registration metadata thread panicked")))
    | _, _ => none
  | .clear i => do
    let caller ← s.callers[i]?
    match caller.phase with
    | .clearing result => return { s.setPhase i caller (.waited result) with hasPendingRegistration := false }
    | _ => none
  | .goOn i => do
    let caller ← s.callers[i]?
    match caller.phase with
    | .waited (.ok ()) => return s.setPhase i caller .working
    | .waited (.error err) => return s.setPhase i caller (.rejected err)
    | _ => none
  | .finish i result => do
    let caller ← s.callers[i]?
    match caller.phase with
    | .working => return s.setPhase i caller (.returned result)
    | _ => none
  | _ => none

def step (s : Registration) (act : Action) : Option Registration :=
  (s.stepAddArray act).or ((s.stepThreads act).or (s.stepCallers act))

end Registration

end ZarrIo
