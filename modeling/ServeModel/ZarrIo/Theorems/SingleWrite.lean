import ServeModel.ZarrIo.Coordinator

-- Runs of a coordinator in which nothing fails.
namespace ZarrIo

open List

namespace Coordinator

-- A write that has a coordinator and a thread for itself.
section Alone

open Relation

variable {Plans : PlannedWriteBatch → Prop} {reg : ChunkRegistry} {batch : PlannedWriteBatch} {queueCapacity : Nat}
  {jobs : List FlushJob} {leases : Nat → Option (List UInt8)} {dispatched : List ChunkId}

def scopeAlone (tasks : List Nat) (producer : Producer) (queue : List Nat) (worker : CopyWorker Nat)
    (submitted copied : Nat) : SubmitWrite Nat where
  tasks
  producer
  queue
  cancelled := false
  firstError := none
  workers := [worker]
  submitted
  copied
  result := none

def alone (reg : ChunkRegistry) (call : WriteCall) (jobs : List FlushJob) : Coordinator :=
  { start with registry := reg, calls := [call], jobs, inflight := jobs.length }

theorem alone_copy (h : call.scope.Step 1 call.queueCapacity scope) (hw : call.scope.workers = [worker])
    (he : ∀ t, worker ≠ .enqueuing t ∧ worker ≠ .copying t) (hr : scope.result = call.scope.result) :
    Step 1 Plans (alone reg call jobs) (alone reg { call with scope } jobs) := by
  have hworker {i : Nat} {w : CopyWorker Nat} (hi : call.scope.workers[i]? = some w) : worker = w := by
    rw [hw] at hi
    exact (mem_singleton.mp (mem_of_getElem? hi)).symm
  refine .copy (c := 0) rfl h (fun i t hi => ?_) (fun i t hi => ?_) hr
  · exact absurd (hworker hi) (he t).2
  · exact absurd (hworker hi) (he t).1

def callAlone (queueCapacity : Nat) (batch : PlannedWriteBatch) (leases : Nat → Option (List UInt8))
    (dispatched : List ChunkId) (scope : SubmitWrite Nat) : WriteCall where
  batch
  queueCapacity
  scope
  leases
  handed := []
  dispatched
  rollback := none

theorem alone_sends (hq : queue.length + sent.length ≤ queueCapacity) :
    ReflTransGen (Step 1 Plans)
      (alone reg (callAlone queueCapacity batch leases dispatched
        (scopeAlone (sent ++ rest) .checking queue .queued k 0)) jobs)
      (alone reg (callAlone queueCapacity batch leases dispatched
        (scopeAlone rest .checking (queue ++ sent) .queued (k + sent.length) 0)) jobs) := by
  induction sent generalizing queue k
  case nil => simpa using ReflTransGen.refl
  case cons t sent hi =>
    simp only [length_cons] at hq
    have hnext := @hi (queue ++ [t]) (k + 1) (by simp; omega)
    simp only [append_assoc, singleton_append, Nat.add_assoc, Nat.add_comm 1] at hnext
    refine .head (alone_copy (.next rfl rfl (by simp [callAlone, scopeAlone]) rfl) rfl (by simp) rfl) ?_
    refine .head (alone_copy (.submit rfl) rfl (by simp) rfl) ?_
    refine .head (alone_copy (.send rfl rfl (by show queue.length < queueCapacity; omega)) rfl
      (by simp) rfl) ?_
    exact hnext

def jobAlone (memory : Memory) (task : Nat → ChunkTask) (t : Nat) : FlushJob :=
  ⟨0, t, (task t).batchId, (task t).chunkId, (task t).bytes memory, .writing⟩

def leasesAlone (memory : Memory) (task : Nat → ChunkTask) (leases : Nat → Option (List UInt8)) (copied : List Nat) :
    Nat → Option (List UInt8) :=
  copied.foldl (fun leases t => Function.update leases t (some ((task t).bytes memory))) leases

theorem alone_takes (memory : Memory) (task : Nat → ChunkTask)
    (ht : ∀ t ∈ queue, batch.tasks[t]? = some (task t)) :
    ReflTransGen (Step 1 Plans)
      (alone reg (callAlone queueCapacity batch leases dispatched (scopeAlone [] .finished queue .checking n k)) jobs)
      (alone reg (callAlone queueCapacity batch (leasesAlone memory task leases queue)
        (dispatched ++ queue.map fun t => (task t).chunkId)
        (scopeAlone [] .finished [] .checking n (k + queue.length))) (jobs ++ queue.map (jobAlone memory task))) := by
  induction queue generalizing k leases dispatched jobs
  case nil => simpa [leasesAlone] using ReflTransGen.refl
  case cons t queue hi =>
    have hnext := @hi (jobs ++ [jobAlone memory task t])
      (Function.update leases t (some ((task t).bytes memory))) (dispatched ++ [(task t).chunkId]) (k + 1)
      fun t' ht' => ht t' (mem_cons_of_mem _ ht')
    simp only [append_assoc, singleton_append, Nat.add_assoc, Nat.add_comm 1] at hnext
    refine .head (alone_copy (.goOn (i := 0) rfl rfl) rfl (by simp) rfl) ?_
    refine .head (alone_copy (.recv (i := 0) rfl rfl) rfl (by simp) rfl) ?_
    have htask := ht t mem_cons_self
    refine .head (.markCopied (c := 0) (i := 0) memory rfl rfl htask) ?_
    refine .head (.spawn (c := 0) (i := 0) rfl rfl not_mem_nil htask (Function.update_self ..)) ?_
    refine .head (.track (c := 0) (i := 0) rfl rfl (mem_singleton_self t) htask) ?_
    simpa [alone, setCall, callAlone, scopeAlone, SubmitWrite.setWorker, jobAlone, leasesAlone] using hnext

theorem alone_submits (memory : Memory) (task : Nat → ChunkTask) (hp : Plans batch)
    (hreg : start.registry.reserveManyIds batch.chunkIds = .ok reg) (hn : batch.tasks.length = n + 1)
    (ht : ∀ t < n + 1, batch.tasks[t]? = some (task t)) :
    Reachable 1 Plans (alone reg
      (callAlone (n + 1) batch (leasesAlone memory task (fun _ => none) (List.range (n + 1)))
        ((List.range (n + 1)).map fun t => (task t).chunkId)
        { scopeAlone [] .finished [] .finished (n + 1) (n + 1) with result := some (.ok (n + 1)) })
      ((List.range (n + 1)).map (jobAlone memory task))) := by
  have hstart : WriteCall.start 1 (n + 1) batch =
      callAlone (n + 1) batch (fun _ => none) [] (scopeAlone (List.range (n + 1) ++ []) .checking [] .queued 0 0) := by
    simp [WriteCall.start, SubmitWrite.start, callAlone, scopeAlone, hn]
  have hsends := @alone_sends Plans reg batch (n + 1) [] (fun _ => none) [] (List.range (n + 1)) [] [] 0 (by simp)
  have htakes := @alone_takes Plans reg batch (n + 1) [] (fun _ => none) [] (List.range (n + 1)) (n + 1) 0 memory task
    fun t h => ht t (mem_range.mp h)
  simp only [nil_append, Nat.zero_add, length_range] at hsends htakes
  have hreserve : Step 1 Plans start { start with registry := reg, calls := [.start 1 (n + 1) batch] } :=
    .reserve hp hreg
  rw [hstart] at hreserve
  refine .head hreserve ?_
  refine hsends.trans ?_
  refine .head (alone_copy (.dropSender rfl rfl rfl) rfl (by simp) rfl) ?_
  refine .head (alone_copy (.start (i := 0) rfl (by decide : 0 < 1)) rfl (by simp) rfl) ?_
  refine htakes.trans ?_
  refine .head (alone_copy (.goOn (i := 0) rfl rfl) rfl (by simp) rfl) ?_
  refine .head (alone_copy (.disconnected (i := 0) rfl rfl rfl) rfl (by simp) rfl) ?_
  have hended (leases : Nat → Option (List UInt8)) (dispatched : List ChunkId) (jobs : List FlushJob) : Step 1 Plans
      (alone reg (callAlone (n + 1) batch leases dispatched
        (scopeAlone [] .finished [] .finished (n + 1) (n + 1))) jobs) _ :=
    .acknowledge (c := 0) rfl rfl (.acknowledge rfl ⟨rfl, fun w hw => mem_singleton.mp hw⟩ rfl rfl) rfl rfl
  exact .single (hended _ _ _)

end Alone

section Flushes

open Relation

variable {Plans : PlannedWriteBatch → Prop} {s : Coordinator}

-- The state once a job has written its chunk and has cleaned up.
def flushed (s : Coordinator) (j : Nat) (job : FlushJob) : Coordinator :=
  { s.setPhase j job (.finished true) with
    registry := s.registry.markCommittedId job.chunkId
    inflight := s.inflight - 1
    files := s.files ++ [(job.chunkId, job.bytes)] }

theorem flushes (hj : s.jobs[j]? = some job) (hp : job.phase = .writing) :
    ReflTransGen (Step numThreads Plans) s (s.flushed j job) := by
  have hlt := (List.getElem?_eq_some_iff.mp hj).1
  have hget (phase : FlushPhase) : (s.jobs.set j { job with phase })[j]? = some { job with phase } := by
    simp [hlt]
  refine .head (.write hj hp) ?_
  refine .head (@Step.commit numThreads Plans _ j { job with phase := .written } (hget _) rfl) ?_
  refine .head (@Step.returnLease numThreads Plans _ j { job with phase := .settled true } true ?_ rfl) ?_
  · simpa [setPhase] using hget (.settled true)
  refine .head (@Step.dropGuard numThreads Plans _ j { job with phase := .returned true } true ?_ rfl) ?_
  · simpa [setPhase] using hget (.returned true)
  simpa [setPhase, flushed] using ReflTransGen.refl

theorem closes (hs : s.stage = .idle) (hi : s.inflight = 0) (hd : s.deferred = [])
    (hj : ∀ job ∈ s.jobs, job.phase.holdsLease = false) :
    ReflTransGen (Step numThreads Plans) s { s with
      stage := .returned (.ok ())
      before := (List.range s.calls.length).filter fun c => s.calls[c]?.any WriteCall.acknowledged } := by
  refine .head (.close hs) ?_
  refine .head (.registrationJoined rfl) (.head (.drained rfl) (.head (.leasesReturned rfl hj) ?_))
  refine .head (.noInflight rfl hi) (.head (.noErrors rfl hd) ?_)
  exact .head (.consolidated rfl) (.single (.tornDown rfl))

end Flushes

end Coordinator

end ZarrIo
