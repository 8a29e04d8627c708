import ServeModel.ZarrIo.Basic
import ServeModel.Lib.Transition

-- The scheduler counts the tasks of each batch. A write waits there until all of its tasks are copied.
namespace ZarrIo

namespace CopyBarrier

structure SchedulerState where
  submittedByBatch : BatchId → Option Nat
  copiedByBatch : BatchId → Option Nat
  shutdown : Bool

namespace SchedulerState

def submit (s : SchedulerState) (batchId : BatchId) : Except SyncWriteError SchedulerState :=
  if s.shutdown then .error .objectClosed
  else
    let submitted := (s.submittedByBatch batchId).getD 0 + 1
    .ok { s with submittedByBatch := Function.update s.submittedByBatch batchId (some submitted) }

def unknownBatch (batchId : BatchId) : SyncWriteError :=
  .validation s!"unknown batch id: BatchId({batchId})"

-- The task is counted even if it is one too many.
def markCopied (s : SchedulerState) (batchId : BatchId) : Except SyncWriteError Unit × SchedulerState :=
  match s.submittedByBatch batchId with
  | none => (.error (unknownBatch batchId), s)
  | some expected =>
    let copied := (s.copiedByBatch batchId).getD 0 + 1
    let s := { s with copiedByBatch := Function.update s.copiedByBatch batchId (some copied) }
    if expected < copied then
      (.error (.validation s!"mark_copied exceeded submitted task count for batch BatchId({batchId}): copied={copied} submitted={expected}"), s)
    else (.ok (), s)

-- Removes the entries of these batches from both maps.
def forget (gone : BatchId → Bool) (s : SchedulerState) : SchedulerState :=
  { s with
    submittedByBatch := fun b => if gone b then none else s.submittedByBatch b
    copiedByBatch := fun b => if gone b then none else s.copiedByBatch b }

end SchedulerState

-- A call of `wait_copied`. It reads the number of submitted tasks once, before it waits. Whether all tasks were marked
-- when it returned is noted for the sake of the proof.
inductive WaitCopied
  | waiting (batchId : BatchId) (submitted : Nat) (notified : Bool)
  | returned (batchId : BatchId) (result : Except SyncWriteError Unit) (marked : Bool)

def WaitCopied.notify : WaitCopied → WaitCopied
  | waiting batchId submitted _ => waiting batchId submitted true
  | call => call

end CopyBarrier

open CopyBarrier

-- The calls have numbers. `tasks` and `marks` say how many tasks of a batch were submitted and how many were marked,
-- successfully and since the batch was last forgotten.
structure CopyBarrier where
  state : SchedulerState
  waits : Nat → Option WaitCopied
  tasks : BatchId → Nat
  marks : BatchId → Nat

namespace CopyBarrier

def start : CopyBarrier where
  state := { submittedByBatch := fun _ => none, copiedByBatch := fun _ => none, shutdown := false }
  waits := fun _ => none
  tasks := fun _ => 0
  marks := fun _ => 0

-- Every call holds the lock from its beginning to its end, but for the time in which it waits.
inductive Action
  | submit (batchId : BatchId)
  | markCopied (batchId : BatchId)
  | waitCopied (i : Nat) (batchId : BatchId)
  | wake (i : Nat) -- after a notification, or for no reason
  | abortBatch (batchId : BatchId)
  | drain
  | shutdown

def notifyAll (s : CopyBarrier) : CopyBarrier :=
  { s with waits := fun i => (s.waits i).map WaitCopied.notify }

def forget (gone : BatchId → Bool) (s : CopyBarrier) : CopyBarrier :=
  { s with
    state := s.state.forget gone
    tasks := fun b => if gone b then 0 else s.tasks b
    marks := fun b => if gone b then 0 else s.marks b }

-- One round of the loop of `wait_copied`.
def round (s : CopyBarrier) (i : Nat) (batchId : BatchId) (submitted : Nat) : CopyBarrier :=
  if (s.state.copiedByBatch batchId).getD 0 = submitted then
    { s.forget (· = batchId) with
      waits := Function.update s.waits i (some (.returned batchId (.ok ()) (s.tasks batchId = s.marks batchId))) }
  else { s with waits := Function.update s.waits i (some (.waiting batchId submitted false)) }

def step (s : CopyBarrier) : Action → Option CopyBarrier
  | .submit b =>
    match s.state.submit b with
    | .error _ => some s
    | .ok state => some { s with state, tasks := Function.update s.tasks b (s.tasks b + 1) }
  | .markCopied b =>
    match s.state.markCopied b with
    | (.error _, state) => some { s with state }
    | (.ok _, state) => some (notifyAll { s with state, marks := Function.update s.marks b (s.marks b + 1) })
  | .waitCopied i b =>
    match s.waits i, s.state.submittedByBatch b with
    | some _, _ => none
    | none, none =>
      let result := .returned b (.error (SchedulerState.unknownBatch b)) (s.tasks b = s.marks b)
      some { s with waits := Function.update s.waits i (some result) }
    | none, some submitted => some (s.round i b submitted)
  | .wake i =>
    match s.waits i with
    | some (.waiting b submitted _) => some (s.round i b submitted)
    | _ => none
  | .abortBatch b => some (s.forget (· = b)).notifyAll
  | .drain => some (s.forget fun _ => true).notifyAll
  | .shutdown =>
    let s := (s.forget fun _ => true).notifyAll
    some { s with state := { s.state with shutdown := true } }

end CopyBarrier

end ZarrIo
