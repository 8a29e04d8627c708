import ServeModel.ZarrIo.Basic
import ServeModel.Lib.Transition

namespace ZarrIo

def defaultQueueBurstSteps : Nat := 2

-- The cell `effective_queue_capacity` is written once.
def resolveQueueCapacity (configuredQueueCapacity : Nat) (effective : Option Nat) (firstWriteTaskCount : Nat) : Nat :=
  effective.getD
    (max configuredQueueCapacity (max (saturatingMul firstWriteTaskCount defaultQueueBurstSteps) 1))

-- The cell after writes with these numbers of tasks. A write without tasks returns before it needs a queue.
def effectiveQueueCapacity (configuredQueueCapacity : Nat) : List Nat → Option Nat
  | [] => none
  | 0 :: rest => effectiveQueueCapacity configuredQueueCapacity rest
  | (n + 1) :: _ => some (resolveQueueCapacity configuredQueueCapacity none (n + 1))

variable {Task : Type}

-- One of the jobs that the scope spawns into the copy pool.
inductive CopyWorker (Task : Type)
  | queued
  | checking -- reads the flag
  | receiving
  | copying (task : Task) -- acquires a lease, copies and marks the task as copied
  | enqueuing (task : Task) -- hands the lease to a flush worker
  | failing (err : SyncWriteError) -- the result of an error and of a panic
  | finished

-- The body of the scope.
inductive Producer
  | checking
  | submitting
  | sending
  | finished

-- The state of one `submit_write` from the reservation of its ids on. The queue is a channel whose sender is
-- dropped by the producer as it finishes; the receiver lives as long as the call.
structure SubmitWrite (Task : Type) where
  tasks : List Task
  producer : Producer
  queue : List Task
  cancelled : Bool
  firstError : Option SyncWriteError
  workers : List (CopyWorker Task)
  submitted : Nat
  copied : Nat
  result : Option (Except SyncWriteError Nat)

namespace CopyWorker

def isRunning : CopyWorker Task → Bool
  | queued | finished => false
  | _ => true

end CopyWorker

namespace Producer

def isRunning : Producer → Bool
  | finished => false
  | _ => true

end Producer

namespace SubmitWrite

-- A write without tasks returns at once.
def start (numThreads : Nat) (tasks : List Task) : SubmitWrite Task where
  tasks := tasks
  producer := .checking
  queue := []
  cancelled := false
  firstError := none
  workers := .replicate (if tasks.isEmpty then 0 else min (max tasks.length 1) numThreads) .queued
  submitted := 0
  copied := 0
  result := if tasks.isEmpty then some (.ok 0) else none

def setWorker (s : SubmitWrite Task) (i : Nat) (w : CopyWorker Task) : SubmitWrite Task :=
  { s with workers := s.workers.set i w }

def recordFirstError (s : SubmitWrite Task) (err : SyncWriteError) : SubmitWrite Task :=
  { s with firstError := s.firstError.or (some err), cancelled := true }

-- The threads of the pool that are in use: the body of the scope has one until it returns.
def busyThreads (s : SubmitWrite Task) : Nat :=
  s.producer.isRunning.toNat + s.workers.countP CopyWorker.isRunning

-- The scope returns once its body and all of its jobs have.
structure ScopeEnded (s : SubmitWrite Task) : Prop where
  producer : s.producer = .finished
  workers : ∀ w ∈ s.workers, w = .finished

inductive Step (numThreads queueCapacity : Nat) (s : SubmitWrite Task) : SubmitWrite Task → Prop
  | start : (s.workers[i]? = some .queued) → (s.busyThreads < numThreads) →
      Step numThreads queueCapacity s (s.setWorker i .checking)
  | quit : (s.workers[i]? = some .checking) → (s.cancelled = true) →
      Step numThreads queueCapacity s (s.setWorker i .finished)
  | goOn : (s.workers[i]? = some .checking) → (s.cancelled = false) →
      Step numThreads queueCapacity s (s.setWorker i .receiving)
  | recv : (s.workers[i]? = some .receiving) → (s.queue = task :: rest) →
      Step numThreads queueCapacity s { s.setWorker i (.copying task) with queue := rest }
  | disconnected : (s.workers[i]? = some .receiving) → (s.queue = []) → (s.producer = .finished) →
      Step numThreads queueCapacity s (s.setWorker i .finished)
  | markCopied : (s.workers[i]? = some (.copying task)) →
      Step numThreads queueCapacity s { s.setWorker i (.enqueuing task) with copied := s.copied + 1 }
  | enqueue : (s.workers[i]? = some (.enqueuing task)) →
      Step numThreads queueCapacity s (s.setWorker i .checking)
  -- an error of the pool, of the copy engine or of the scheduler, or a panic in any of them
  | copyFails (err : SyncWriteError) : (s.workers[i]? = some (.copying task)) →
      Step numThreads queueCapacity s (s.setWorker i (.failing err))
  | enqueueFails (err : SyncWriteError) : (s.workers[i]? = some (.enqueuing task)) →
      Step numThreads queueCapacity s (s.setWorker i (.failing err))
  | record : (s.workers[i]? = some (.failing err)) →
      Step numThreads queueCapacity s ((s.recordFirstError err).setWorker i .finished)
  | stop : (s.result = none) → (s.producer = .checking) → (s.tasks ≠ []) → (s.cancelled = true) →
      Step numThreads queueCapacity s { s with producer := .finished }
  | next : (s.result = none) → (s.producer = .checking) → (s.tasks ≠ []) → (s.cancelled = false) →
      Step numThreads queueCapacity s { s with producer := .submitting }
  | dropSender : (s.result = none) → (s.producer = .checking) → (s.tasks = []) →
      Step numThreads queueCapacity s { s with producer := .finished }
  | submit : (s.producer = .submitting) →
      Step numThreads queueCapacity s { s with producer := .sending, submitted := s.submitted + 1 }
  | submitFails (err : SyncWriteError) : (s.producer = .submitting) →
      Step numThreads queueCapacity s { s.recordFirstError err with producer := .finished }
  | send : (s.producer = .sending) → (s.tasks = task :: rest) → (s.queue.length < queueCapacity) →
      Step numThreads queueCapacity s
        { s with producer := .checking, tasks := rest, queue := s.queue ++ [task] }
  -- `fail_with_abort_batch_cleanup` puts the error of the cleanup around it if that fails too
  | fail (err' : SyncWriteError) : (s.result = none) → s.ScopeEnded → (s.firstError = some err) →
      Step numThreads queueCapacity s { s with result := some (.error err') }
  -- `wait_copied` blocks while the two counters differ
  | acknowledge : (s.result = none) → s.ScopeEnded → (s.firstError = none) → (s.copied = s.submitted) →
      Step numThreads queueCapacity s { s with result := some (.ok s.submitted) }

-- The call returns, whatever the order of the steps is and whichever of them fail.
def Returns (numThreads queueCapacity : Nat) (tasks : List Task) : Prop :=
  Transition.Terminates (Step numThreads queueCapacity) (·.result.isSome) (start numThreads tasks)

end SubmitWrite

-- Each of some writes, one after the other, returns.
def AllReturn (numThreads configuredQueueCapacity : Nat) (writes : List (List Task)) : Prop :=
  ∀ before tasks after, writes = before ++ tasks :: after →
    SubmitWrite.Returns numThreads
      (resolveQueueCapacity configuredQueueCapacity
        (effectiveQueueCapacity configuredQueueCapacity (before.map List.length)) tasks.length)
      tasks

end ZarrIo
