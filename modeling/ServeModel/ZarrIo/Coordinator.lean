import ServeModel.ZarrIo.Dataset
import ServeModel.ZarrIo.Submit
import Mathlib.Data.Finset.Basic

-- The write coordinator: concurrent writes, their flush jobs, and a close.
namespace ZarrIo

structure ChunkRegistry where
  reserved : Finset ChunkId
  committed : Finset ChunkId

namespace ChunkRegistry

-- All ids are looked at before one of them is reserved, but not against each other.
def reserveManyIds (r : ChunkRegistry) (ids : List ChunkId) : Except SyncWriteError ChunkRegistry :=
  match ids.find? fun id => id ∈ r.reserved ∨ id ∈ r.committed with
  | some id => .error (.chunkKeyConflict id)
  | none => .ok { r with reserved := r.reserved ∪ ids.toFinset }

def markCommittedId (r : ChunkRegistry) (id : ChunkId) : ChunkRegistry where
  reserved := r.reserved.erase id
  committed := insert id r.committed

def releaseFailedId (r : ChunkRegistry) (id : ChunkId) : ChunkRegistry :=
  { r with reserved := r.reserved.erase id }

end ChunkRegistry

-- How far a job of the flush pool has come. The clean-up returns the lease and then drops the inflight guard.
inductive FlushPhase
  | writing
  | written -- the file is in its place
  | failed -- an error of the writer, or a panic
  | released -- the id has been given back
  | settled (success : Bool) -- the id is committed, or the error has been deferred
  | returned (success : Bool) -- the lease is back
  | finished (success : Bool)
  deriving DecidableEq

structure FlushJob where
  call : Nat
  task : Nat
  batchId : BatchId
  chunkId : ChunkId
  bytes : List UInt8 -- the contents of the lease, which belongs to the job alone
  phase : FlushPhase

def FlushPhase.holdsLease : FlushPhase → Bool
  | returned _ | finished _ => false
  | _ => true

def FlushPhase.holdsGuard : FlushPhase → Bool
  | finished _ => false
  | _ => true

-- One `submit_write` from the reservation of its ids on. A task is known by its place in the batch.
structure WriteCall where
  batch : PlannedWriteBatch
  queueCapacity : Nat
  scope : SubmitWrite Nat
  leases : Nat → Option (List UInt8) -- what each task has copied into its lease
  handed : List Nat -- tasks that have a flush job and are not on the list of dispatched ids yet
  dispatched : List ChunkId -- `flush_dispatched_chunk_ids`
  rollback : Option (List ChunkId) -- the ids that the rollback has yet to come to

def WriteCall.start (numThreads queueCapacity : Nat) (batch : PlannedWriteBatch) : WriteCall where
  batch
  queueCapacity
  scope := .start numThreads (List.range batch.tasks.length)
  leases _ := none
  handed := []
  dispatched := []
  rollback := none

def WriteCall.acknowledged (call : WriteCall) : Bool :=
  match call.scope.result with
  | some (.ok _) => true
  | _ => false

inductive CloseStage
  | idle
  | registration
  | drain
  | leases
  | inflight
  | errors
  | metadata (drained : Except SyncWriteError Unit)
  | teardown (combined : Except SyncWriteError Unit)
  | returned (result : Except SyncWriteError Unit)

structure Coordinator where
  registry : ChunkRegistry
  calls : List WriteCall
  jobs : List FlushJob
  inflight : Nat
  deferred : List DeferredWriteError
  files : List (ChunkId × List UInt8) -- what the chunk writer has written, in the order of time
  stage : CloseStage
  before : List Nat -- the writes that had returned Ok when close was called

namespace Coordinator

def start : Coordinator where
  registry := ⟨∅, ∅⟩
  calls := []
  jobs := []
  inflight := 0
  deferred := []
  files := []
  stage := .idle
  before := []

def setCall (s : Coordinator) (c : Nat) (call : WriteCall) : Coordinator :=
  { s with calls := s.calls.set c call }

def setPhase (s : Coordinator) (j : Nat) (job : FlushJob) (phase : FlushPhase) : Coordinator :=
  { s with jobs := s.jobs.set j { job with phase } }

-- No worker of the scope has filled its lease.
def KeepsLeases (call : WriteCall) (scope : SubmitWrite Nat) : Prop :=
  ∀ (i t : Nat), call.scope.workers[i]? = some (CopyWorker.copying t) →
    scope.workers[i]? ≠ some (CopyWorker.enqueuing t)

-- No worker of the scope goes on from the hand-over of a task to a flush worker.
def KeepsTasks (call : WriteCall) (scope : SubmitWrite Nat) : Prop :=
  ∀ (i t : Nat), call.scope.workers[i]? = some (CopyWorker.enqueuing t) →
    scope.workers[i]? ≠ some CopyWorker.checking ∧
      (t ∈ call.handed → scope.workers[i]? = some (CopyWorker.enqueuing t))

-- The steps of the copy workers and of the producer are those of the scope. A write whose reservation fails
-- returns, and nothing changes.
inductive Step (numThreads : Nat) (Plans : PlannedWriteBatch → Prop) (s : Coordinator) : Coordinator → Prop
  | reserve : (Plans batch) → (s.registry.reserveManyIds batch.chunkIds = .ok reg) →
      Step numThreads Plans s
        { s with registry := reg, calls := s.calls ++ [.start numThreads queueCapacity batch] }
  | copy : (s.calls[c]? = some call) → (call.scope.Step numThreads call.queueCapacity scope) →
      (KeepsLeases call scope) → (KeepsTasks call scope) → (scope.result = call.scope.result) →
      Step numThreads Plans s (s.setCall c { call with scope := scope })
  -- the copy is complete: what the memory of the caller held is in the lease of the task
  | markCopied (memory : Memory) : (s.calls[c]? = some call) →
      (call.scope.workers[i]? = some (CopyWorker.copying t)) → (call.batch.tasks[t]? = some task) →
      Step numThreads Plans s (s.setCall c { call with
        scope := { call.scope.setWorker i (.enqueuing t) with copied := call.scope.copied + 1 }
        leases := Function.update call.leases t (some (task.bytes memory)) })
  -- `spawn_async_write_handle`: the guard is registered, and the job is in the pool
  | spawn {i : Nat} : (s.calls[c]? = some call) → (call.scope.workers[i]? = some (CopyWorker.enqueuing t)) →
      (t ∉ call.handed) → (call.batch.tasks[t]? = some task) → (call.leases t = some bytes) →
      Step numThreads Plans s
        { s.setCall c { call with handed := t :: call.handed } with
          inflight := s.inflight + 1
          jobs := s.jobs ++ [⟨c, t, task.batchId, task.chunkId, bytes, .writing⟩] }
  | track : (s.calls[c]? = some call) → (call.scope.workers[i]? = some (CopyWorker.enqueuing t)) →
      (t ∈ call.handed) → (call.batch.tasks[t]? = some task) →
      Step numThreads Plans s (s.setCall c { call with
        scope := call.scope.setWorker i .checking
        handed := call.handed.erase t
        dispatched := call.dispatched ++ [task.chunkId] })
  | acknowledge : (s.calls[c]? = some call) → (call.rollback = none) →
      (call.scope.Step numThreads call.queueCapacity scope) → (call.scope.result = none) →
      (scope.result = some (.ok n)) →
      Step numThreads Plans s (s.setCall c { call with scope := scope })
  -- after an error of a worker, or of `wait_copied`
  | rollback : (s.calls[c]? = some call) → call.scope.ScopeEnded → (call.scope.result = none) →
      (call.rollback = none) →
      Step numThreads Plans s (s.setCall c { call with rollback := some call.batch.chunkIds })
  | rollbackNext : (s.calls[c]? = some call) → (call.rollback = some (chunkId :: rest)) →
      Step numThreads Plans s
        { s.setCall c { call with rollback := some rest } with
          registry := if chunkId ∈ call.dispatched then s.registry else s.registry.releaseFailedId chunkId }
  | fail (err : SyncWriteError) : (s.calls[c]? = some call) → (call.rollback = some []) →
      (call.scope.result = none) →
      Step numThreads Plans s
        (s.setCall c { call with scope := { call.scope with result := some (.error err) } })
  | write : (s.jobs[j]? = some job) → (job.phase = .writing) →
      Step numThreads Plans s
        { s.setPhase j job .written with files := s.files ++ [(job.chunkId, job.bytes)] }
  | writeFails : (s.jobs[j]? = some job) → (job.phase = .writing) →
      Step numThreads Plans s (s.setPhase j job .failed)
  | commit : (s.jobs[j]? = some job) → (job.phase = .written) →
      Step numThreads Plans s
        { s.setPhase j job (.settled true) with registry := s.registry.markCommittedId job.chunkId }
  | release : (s.jobs[j]? = some job) → (job.phase = .failed) →
      Step numThreads Plans s
        { s.setPhase j job .released with registry := s.registry.releaseFailedId job.chunkId }
  | defer (err : DeferredWriteError) : (s.jobs[j]? = some job) → (job.phase = .released) →
      Step numThreads Plans s
        { s.setPhase j job (.settled false) with deferred := s.deferred ++ [err] }
  | returnLease : (s.jobs[j]? = some job) → (job.phase = .settled success) →
      Step numThreads Plans s (s.setPhase j job (.returned success))
  | dropGuard : (s.jobs[j]? = some job) → (job.phase = .returned success) →
      Step numThreads Plans s
        { s.setPhase j job (.finished success) with inflight := s.inflight - 1 }
  -- there is one close only: it swaps the flag of the backend
  | close : (s.stage = .idle) →
      Step numThreads Plans s
        { s with
          stage := .registration
          before := (List.range s.calls.length).filter fun c => s.calls[c]?.any WriteCall.acknowledged }
  | registrationJoined : (s.stage = .registration) → Step numThreads Plans s { s with stage := .drain }
  | registrationFails (err : SyncWriteError) : (s.stage = .registration) →
      Step numThreads Plans s { s with stage := .returned (.error err) }
  | drained : (s.stage = .drain) → Step numThreads Plans s { s with stage := .leases }
  | drainFails (err : SyncWriteError) : (s.stage = .drain) →
      Step numThreads Plans s { s with stage := .returned (.error err) }
  | leasesReturned : (s.stage = .leases) → (∀ job ∈ s.jobs, job.phase.holdsLease = false) →
      Step numThreads Plans s { s with stage := .inflight }
  | leasesTimeout (err : SyncWriteError) : (s.stage = .leases) →
      Step numThreads Plans s { s with stage := .metadata (.error err) }
  | noInflight : (s.stage = .inflight) → (s.inflight = 0) →
      Step numThreads Plans s { s with stage := .errors }
  | inflightTimeout (err : SyncWriteError) : (s.stage = .inflight) →
      Step numThreads Plans s { s with stage := .metadata (.error err) }
  | noErrors : (s.stage = .errors) → (s.deferred = []) →
      Step numThreads Plans s { s with stage := .metadata (.ok ()) }
  | takeErrors : (s.stage = .errors) → (s.deferred ≠ []) →
      Step numThreads Plans s
        { s with stage := .metadata (.error (.deferredWriteFailures s.deferred)), deferred := [] }
  -- the consolidation runs beside the waits or after them, and not after a failure of a wait that it comes after
  | consolidated : (s.stage = .metadata drained) →
      Step numThreads Plans s { s with stage := .teardown drained }
  | consolidateFails (err : SyncWriteError) : (s.stage = .metadata drained) →
      Step numThreads Plans s { s with stage := .teardown (.error err) }
  | tornDown : (s.stage = .teardown combined) →
      Step numThreads Plans s { s with stage := .returned combined }
  | teardownFails (err : SyncWriteError) : (s.stage = .teardown combined) →
      Step numThreads Plans s { s with stage := .returned (.error err) }

def Reachable (numThreads : Nat) (Plans : PlannedWriteBatch → Prop) (s : Coordinator) : Prop :=
  Relation.ReflTransGen (Step numThreads Plans) start s

end Coordinator

end ZarrIo
