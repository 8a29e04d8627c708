import ServeModel.ZarrIo.Coordinator
import ServeModel.ZarrIo.Theorems.Submit

namespace ZarrIo

open List

namespace SubmitWrite

open CopyWorker

variable {numThreads queueCapacity t : Nat} {s s' : SubmitWrite Nat}

section Accounting

def holding (t : Nat) : CopyWorker Nat → Bool
  | copying t' | enqueuing t' => t == t'
  | _ => false

-- How often a task is still to be handed over.
def owed (s : SubmitWrite Nat) (t : Nat) : Nat :=
  s.tasks.count t + s.queue.count t + s.workers.countP (holding t)

def Sound (s : SubmitWrite Nat) : Prop :=
  s.cancelled = false ∧ s.workers.countP isFailing = 0

variable (h : Step numThreads queueCapacity s s')
  (hk : ∀ i t : Nat, s.workers[i]? = some (enqueuing t) → s'.workers[i]? ≠ some checking)
include h hk

-- A step that hands no task over loses one only if a worker fails.
theorem Step.owed_le : s'.owed t ≤ s.owed t := by
  cases h
  case enqueue i task hw =>
    have hlt := (List.getElem?_eq_some_iff.mp hw).1
    exact absurd (by simp [setWorker, hlt]) (hk i task hw)
  all_goals simp only [owed, setWorker, recordFirstError, count_append, count_singleton]
  all_goals grind [countP_set, holding]

theorem Step.owed_eq (hs : s'.Sound) : s'.owed t = s.owed t ∧ s.Sound := by
  cases h
  case enqueue i task hw =>
    have hlt := (List.getElem?_eq_some_iff.mp hw).1
    exact absurd (by simp [setWorker, hlt]) (hk i task hw)
  all_goals simp only [owed, Sound, setWorker, recordFirstError, count_append, count_singleton] at hs ⊢
  all_goals grind [countP_set, holding, isFailing]

end Accounting

-- The producer only stops before the last task because of an error.
theorem Step.tasks_eq_nil (h : Step numThreads queueCapacity s s')
    (hp : s.producer = .finished → s.cancelled = false → s.tasks = []) :
    s'.producer = .finished → s'.cancelled = false → s'.tasks = [] := by
  cases h
  all_goals simp only [setWorker, recordFirstError]
  all_goals grind

theorem ScopeEnded.countP_eq_zero (h : s.ScopeEnded) (p : CopyWorker Nat → Bool) (hp : p .finished = false) :
    s.workers.countP p = 0 := by
  rw [List.countP_eq_zero]
  intro w hw
  simp [h.workers w hw, hp]

theorem Step.workers_eq (h : Step numThreads queueCapacity s s') (hf : ∀ w ∈ s.workers, w = .finished) :
    s'.workers = s.workers := by
  have hw (i : Nat) (w : CopyWorker Nat) (hi : s.workers[i]? = some w) : w = .finished :=
    hf w (mem_of_getElem? hi)
  cases h
  all_goals grind [recordFirstError]

end SubmitWrite

def FlushJob.isFor (c t : Nat) (job : FlushJob) : Bool :=
  job.call == c && job.task == t

namespace WriteCall

open SubmitWrite CopyWorker

variable {call : WriteCall} {count : Nat → Nat} {numThreads t : Nat}

-- What holds of a call, where a number of jobs has been spawned for each of its tasks.
structure Accounted (count : Nat → Nat) (call : WriteCall) : Prop where
  cancelled : call.scope.cancelled = call.scope.firstError.isSome
  sent : call.scope.producer = .finished → call.scope.cancelled = false → call.scope.tasks = []
  copied : call.scope.cancelled = false → call.scope.workers.countP isFailing = 0 →
    call.scope.submitted =
      call.scope.copied + call.scope.queue.length + call.scope.workers.countP isCopying +
        call.scope.producer.isSending.toNat
  once t : call.scope.owed t + count t ≤ (if t < call.batch.tasks.length then 1 else 0) + call.handed.count t
  all t : call.scope.Sound →
    call.scope.owed t + count t = (if t < call.batch.tasks.length then 1 else 0) + call.handed.count t
  nodup : call.handed.Nodup
  handed : ∀ t ∈ call.handed, ∃ i : Nat, call.scope.workers[i]? = some (.enqueuing t)
  ended : call.acknowledged →
    (∀ w ∈ call.scope.workers, w = .finished) ∧ ∀ t < call.batch.tasks.length, 0 < count t
  rollback ids : call.rollback = some ids →
    (∀ w ∈ call.scope.workers, w = .finished) ∧ ids <:+ call.batch.chunkIds
  spawned : ∀ t ∈ call.handed, 0 < count t
  tracked t task : call.batch.tasks[t]? = some task → 0 < count t → t ∈ call.handed ∨ task.chunkId ∈ call.dispatched
  dispatched : ∀ chunkId ∈ call.dispatched, ∃ (t : Nat) (task : ChunkTask), call.batch.tasks[t]? = some task ∧
    task.chunkId = chunkId ∧ 0 < count t

-- The bytes in each lease are those of a copy of its task.
def Copied (call : WriteCall) : Prop :=
  ∀ t bytes, call.leases t = some bytes → ∃ task memory, call.batch.tasks[t]? = some task ∧ bytes = task.bytes memory

theorem Accounted.start {batch : PlannedWriteBatch} {queueCapacity : Nat} :
    Accounted (fun _ => 0) (start numThreads queueCapacity batch) where
  cancelled := rfl
  sent h := by cases h
  copied _ _ := by
    simp only [WriteCall.start]
    rw [countP_start isCopying rfl]
    rfl
  once t := by
    simp only [WriteCall.start, owed]
    rw [countP_start (holding t) rfl]
    grind [SubmitWrite.start]
  all t _ := by
    simp only [WriteCall.start, owed]
    rw [countP_start (holding t) rfl]
    grind [SubmitWrite.start]
  nodup := .nil
  handed := by simp [WriteCall.start]
  ended h := by
    -- a write without tasks has neither workers nor jobs
    have : batch.tasks.length = 0 := by
      by_contra hn
      simp [acknowledged, WriteCall.start, SubmitWrite.start, hn] at h
    simp [WriteCall.start, SubmitWrite.start, this]
  rollback _ h := by cases h
  spawned := by simp [WriteCall.start]
  tracked := by simp
  dispatched := by simp [WriteCall.start]

variable (ha : Accounted count call)
include ha

theorem Accounted.copy {scope : SubmitWrite Nat} (h : call.scope.Step numThreads call.queueCapacity scope)
    (hk : Coordinator.KeepsTasks call scope) (hr : scope.result = call.scope.result) :
    Accounted count { call with scope } := by
  have hk' (i t : Nat) (hw : call.scope.workers[i]? = some (.enqueuing t)) : scope.workers[i]? ≠ some .checking :=
    (hk i t hw).1
  exact {
    cancelled := h.cancelled_eq ha.cancelled
    sent := h.tasks_eq_nil ha.sent
    copied := h.copied_eq ha.copied
    once t := by
      have := h.owed_le hk' (t := t)
      have := ha.once t
      simp only
      omega
    all t hs := by
      have ⟨he, hs'⟩ := h.owed_eq hk' (t := t) hs
      rw [he]
      exact ha.all t hs'
    nodup := ha.nodup
    handed t ht := by
      have ⟨i, hi⟩ := ha.handed t ht
      exact ⟨i, (hk i t hi).2 ht⟩
    ended hack := by
      have ⟨hw, hc⟩ := ha.ended (by simpa [acknowledged, hr] using hack)
      exact ⟨h.workers_eq hw ▸ hw, hc⟩
    rollback ids hb := by
      have ⟨hw, hs⟩ := ha.rollback ids hb
      exact ⟨h.workers_eq hw ▸ hw, hs⟩
    spawned := ha.spawned
    tracked := ha.tracked
    dispatched := ha.dispatched }

theorem Accounted.markCopied {i : Nat} (hw : call.scope.workers[i]? = some (.copying t))
    (leases : Nat → Option (List UInt8)) :
    Accounted count { call with
      scope := { call.scope.setWorker i (.enqueuing t) with copied := call.scope.copied + 1 }
      leases } := by
  have hk : Coordinator.KeepsTasks call
      { call.scope.setWorker i (.enqueuing t) with copied := call.scope.copied + 1 } := by
    intro i' t' hw'
    have hne : i ≠ i' := fun he => by simp [← he, hw] at hw'
    simp [setWorker, hne, hw']
  exact { ha.copy (.markCopied hw : call.scope.Step 0 call.queueCapacity _) hk rfl with }

-- A task that has a job is not copied again.
theorem Accounted.ne_copying {i : Nat} (hpos : 0 < count t) : call.scope.workers[i]? ≠ some (.copying t) := by
  intro hw
  have honce := ha.once t
  have hone : 0 < call.scope.workers.countP (holding t) :=
    countP_pos_iff.mpr ⟨_, mem_of_getElem? hw, by simp [holding]⟩
  simp only [owed] at honce
  by_cases hh : t ∈ call.handed
  case neg =>
    rw [count_eq_zero_of_not_mem hh] at honce
    split at honce <;> omega
  case pos =>
    -- the worker that hands it over holds it as well
    have ⟨i', hi'⟩ := ha.handed t hh
    have hne : i' ≠ i := fun he => by simp [he, hw] at hi'
    have hset := countP_set (b := .finished) (holding t) hi'
    have hrest : 0 < (call.scope.workers.set i' .finished).countP (holding t) := by
      refine countP_pos_iff.mpr ⟨.copying t, mem_of_getElem? (i := i) ?_, by simp [holding]⟩
      rw [getElem?_set_ne hne, hw]
    simp only [holding, beq_self_eq_true, Bool.toNat_true, Bool.toNat_false] at hset
    rw [count_eq_one_of_mem ha.nodup hh] at honce
    split at honce <;> omega

theorem Accounted.spawn {i : Nat} (hw : call.scope.workers[i]? = some (.enqueuing t)) (ht : t ∉ call.handed) :
    Accounted (fun t' => count t' + if t' = t then 1 else 0) { call with handed := t :: call.handed } := by
  exact { ha with
    once t' := by
      have := ha.once t'
      grind
    all t' hs := by
      have := ha.all t' hs
      grind
    nodup := nodup_cons.mpr ⟨ht, ha.nodup⟩
    handed t' ht' := by
      cases mem_cons.mp ht'
      case inl h => exact ⟨i, h ▸ hw⟩
      case inr h => exact ha.handed t' h
    ended hack := ⟨(ha.ended hack).1, fun t' ht' => Nat.add_pos_left ((ha.ended hack).2 t' ht') _⟩
    spawned t' ht' := by
      cases mem_cons.mp ht'
      case inl h => simp [h]
      case inr h => exact Nat.add_pos_left (ha.spawned t' h) _
    tracked t' task htask hpos := by
      by_cases he : t' = t
      case pos => exact .inl (mem_cons.mpr (.inl he))
      case neg =>
        rw [if_neg he] at hpos
        exact (ha.tracked t' task htask hpos).imp (mem_cons_of_mem t) id
    dispatched chunkId hm := by
      have ⟨t', task, htask, hid, hpos⟩ := ha.dispatched chunkId hm
      exact ⟨t', task, htask, hid, Nat.add_pos_left hpos _⟩ }

theorem Accounted.track (hw : call.scope.workers[i]? = some (.enqueuing t))
    (ht : t ∈ call.handed) (htask : call.batch.tasks[t]? = some task) :
    Accounted count { call with
      scope := call.scope.setWorker i .checking
      handed := call.handed.erase t
      dispatched := call.dispatched ++ [task.chunkId] } := by
  have howed (t' : Nat) :
      (call.scope.setWorker i .checking).owed t' + (if t' = t then 1 else 0) = call.scope.owed t' := by
    simp only [owed, setWorker]
    grind [holding]
  have hcount (t' : Nat) : (call.handed.erase t).count t' + (if t' = t then 1 else 0) = call.handed.count t' := by
    grind
  exact { ha with
    copied hc hf := by
      have := ha.copied hc
      simp only [setWorker] at hf ⊢
      grind [isCopying, isFailing]
    once t' := by
      have := ha.once t'
      have := howed t'
      have := hcount t'
      simp only
      omega
    all t' hs := by
      have := ha.all t' (by
        simp only [Sound, setWorker] at hs ⊢
        grind [isFailing])
      have := howed t'
      have := hcount t'
      simp only
      omega
    nodup := ha.nodup.erase t
    handed t' ht' := by
      have hne := (List.Nodup.mem_erase_iff ha.nodup).mp ht'
      obtain ⟨i', hi'⟩ := ha.handed t' hne.2
      refine ⟨i', ?_⟩
      simp only [setWorker]
      grind
    ended hack := by
      have := (ha.ended hack).1 _ (mem_of_getElem? hw)
      cases this
    rollback ids hb := by
      have := (ha.rollback ids hb).1 _ (mem_of_getElem? hw)
      cases this
    spawned t' ht' := ha.spawned t' (mem_of_mem_erase ht')
    tracked t' task' htask' hpos := by
      by_cases he : t' = t
      case pos =>
        subst he
        cases htask.symm.trans htask'
        exact .inr (mem_append_right _ (mem_singleton_self _))
      case neg =>
        exact (ha.tracked t' task' htask' hpos).imp (mem_erase_of_ne he).mpr (mem_append_left _)
    dispatched chunkId hm := by
      cases mem_append.mp hm
      case inl hm => exact ha.dispatched chunkId hm
      case inr hm => exact ⟨t, task, htask, (mem_singleton.mp hm).symm, ha.spawned t ht⟩ }

theorem Accounted.acknowledge {scope : SubmitWrite Nat}
    (h : call.scope.Step numThreads call.queueCapacity scope) (hr : call.scope.result = none)
    (hok : scope.result = some (.ok n)) : Accounted count { call with scope } := by
  cases h
  case acknowledge hn he hf hc =>
    have hcancel : call.scope.cancelled = false := by rw [ha.cancelled, hf]; rfl
    have hfail := he.countP_eq_zero isFailing rfl
    exact { ha with
      ended _ := by
        refine ⟨he.workers, fun t ht => ?_⟩
        have hq := ha.copied hcancel hfail
        have hqueue : call.scope.queue = [] := eq_nil_of_length_eq_zero (by omega)
        have := ha.all t ⟨hcancel, hfail⟩
        simp only [owed, ha.sent he.producer hcancel, hqueue, he.countP_eq_zero (holding t) rfl, ht, if_true,
          count_nil] at this
        omega }
  all_goals simp_all [setWorker, recordFirstError]

theorem Accounted.count_le (t : Nat) : count t ≤ if t < call.batch.tasks.length then 1 else 0 := by
  have := ha.once t
  by_cases ht : t ∈ call.handed
  case pos =>
    have := count_eq_one_of_mem ha.nodup ht
    have ⟨i, hi⟩ := ha.handed t ht
    have : 0 < call.scope.workers.countP (holding t) :=
      countP_pos_iff.mpr ⟨_, mem_of_getElem? hi, by simp [holding]⟩
    simp only [owed] at *
    omega
  case neg =>
    rw [count_eq_zero_of_not_mem ht] at this
    omega

theorem Accounted.fail (err : SyncWriteError) :
    Accounted count { call with scope := { call.scope with result := some (.error err) } } :=
  { ha with ended h := by simp [acknowledged] at h }

theorem Accounted.setRollback (hw : ∀ w ∈ call.scope.workers, w = .finished)
    (hs : ids <:+ call.batch.chunkIds) : Accounted count { call with rollback := some ids } :=
  { ha with
    rollback _ h := by
      cases h
      exact ⟨hw, hs⟩ }

end WriteCall

namespace Coordinator

variable {numThreads : Nat} {Plans : PlannedWriteBatch → Prop} {s s' : Coordinator}

section Access

variable {c : Nat}

def jobCount (s : Coordinator) (c t : Nat) : Nat :=
  s.jobs.countP (FlushJob.isFor c t)

theorem jobCount_setPhase (h : s.jobs[j]? = some job) (c t : Nat) :
    (s.setPhase j job phase).jobCount c t = s.jobCount c t := by
  have := countP_set (b := { job with phase }) (FlushJob.isFor c t) h
  simpa [jobCount, setPhase, FlushJob.isFor] using this

theorem jobCount_append (h : s'.jobs = s.jobs ++ [job]) (c t : Nat) :
    s'.jobCount c t = s.jobCount c t + if job.isFor c t then 1 else 0 := by
  simp [jobCount, h, countP_append, countP_singleton]

theorem forall_mem_setPhase {p : FlushJob → Prop} (h : ∀ job ∈ s.jobs, p job) (hp : p { job with phase }) :
    ∀ job' ∈ (s.setPhase j job phase).jobs, p job' := by
  intro job' hm
  cases mem_or_eq_of_mem_set hm
  case inl hm => exact h job' hm
  case inr he => rwa [he]

theorem forall_setCall {p : Nat → WriteCall → Prop}
    (h : ∀ (c' : Nat) (call : WriteCall), c' ≠ c → s.calls[c']? = some call → p c' call) (hp : p c call') :
    ∀ c' call, (s.setCall c call').calls[c']? = some call → p c' call := by
  intro c' call hc
  simp only [setCall, getElem?_set] at hc
  grind

end Access

structure Calls (s : Coordinator) : Prop where
  accounted : ∀ (c : Nat) (call : WriteCall), s.calls[c]? = some call → call.Accounted (s.jobCount c)
  called : ∀ job ∈ s.jobs, job.call < s.calls.length

namespace Calls

theorem start : Calls start where
  accounted c call h := by simp [Coordinator.start] at h
  called job h := by simp [Coordinator.start] at h

variable (hi : Calls s)
include hi

theorem congr (hc : s'.calls = s.calls) (hj : s'.jobs = s.jobs) : Calls s' where
  accounted c call h := by
    have hcount : s'.jobCount c = s.jobCount c := funext fun t => by simp [jobCount, hj]
    exact hcount ▸ hi.accounted c call (hc ▸ h)
  called := by simpa [hc, hj] using hi.called

theorem setCall (ha : call'.Accounted (s.jobCount c)) : Calls (s.setCall c call') where
  accounted := forall_setCall (fun c' call' _ => hi.accounted c' call') ha
  called := by simpa [Coordinator.setCall] using hi.called

theorem setPhase (hj : s.jobs[j]? = some job) : Calls (s.setPhase j job phase) where
  accounted c call hc := by
    have := hi.accounted c call hc
    rwa [← funext (jobCount_setPhase hj c)] at this
  called := forall_mem_setPhase hi.called (hi.called job (mem_of_getElem? hj))

theorem reserve {queueCapacity : Nat} {batch : PlannedWriteBatch} :
    Calls { s with calls := s.calls ++ [.start numThreads queueCapacity batch] } where
  accounted c call hc := by
    simp only [getElem?_append] at hc
    split at hc
    case isTrue => exact hi.accounted c call hc
    case isFalse hlt =>
      -- there is no job of a call that is yet to come
      have hzero : s.jobCount c = fun _ => 0 := by
        funext t
        apply countP_eq_zero.mpr
        intro job hj
        have := hi.called job hj
        simp only [FlushJob.isFor, Bool.and_eq_true, beq_iff_eq]
        omega
      have := mem_singleton.mp (mem_of_getElem? hc)
      rw [this]
      exact hzero ▸ .start
  called job hj := by
    have := hi.called job hj
    simp only [length_append]
    omega

theorem spawn (hc : s.calls[c]? = some call) (ha : call'.Accounted fun t' => s.jobCount c t' + if t' = t then 1 else 0)
    (hcall : job.call = c) (htask : job.task = t) :
    Calls { s.setCall c call' with jobs := s.jobs ++ [job] } where
  accounted c' call'' hc' := by
    have hcount (t' : Nat) : jobCount { s.setCall c call' with jobs := s.jobs ++ [job] } c' t' =
        s.jobCount c' t' + if c' = c ∧ t' = t then 1 else 0 := by
      rw [jobCount_append rfl]
      simp only [FlushJob.isFor, hcall, htask]
      grind
    rw [funext hcount]
    refine forall_setCall (s := s) (c := c) (p := fun c' call'' => call''.Accounted fun t' =>
      s.jobCount c' t' + if c' = c ∧ t' = t then 1 else 0) (fun c' call hne hc' => ?_) (by simpa using ha) c' call'' hc'
    simpa [hne] using hi.accounted c' call hc'
  called job' hj := by
    have := (List.getElem?_eq_some_iff.mp hc).1
    cases mem_append.mp hj
    case inl hj => simpa [Coordinator.setCall] using hi.called job' hj
    case inr hj => simpa [Coordinator.setCall, mem_singleton.mp hj, hcall] using this

theorem step (h : Step numThreads Plans s s') : Calls s' := by
  cases h
  case reserve => exact hi.reserve.congr rfl rfl
  case copy c call scope hc hs _ hk hr => exact hi.setCall ((hi.accounted c call hc).copy hs hk hr)
  case markCopied c call i t task memory hc hw htask => exact hi.setCall ((hi.accounted c call hc).markCopied hw _)
  case spawn c call t task bytes i hc hw ht htask _ =>
    exact (hi.spawn hc ((hi.accounted c call hc).spawn hw ht) rfl rfl).congr rfl rfl
  case track c call i t task hc hw ht htask => exact hi.setCall ((hi.accounted c call hc).track hw ht htask)
  case acknowledge c call scope n hc hb hs hr hok => exact hi.setCall ((hi.accounted c call hc).acknowledge hs hr hok)
  case rollback c call hc he hr hb =>
    exact hi.setCall ((hi.accounted c call hc).setRollback he.workers (suffix_refl _))
  case rollbackNext c call chunkId rest hc hb =>
    have ⟨hw, hs⟩ := (hi.accounted c call hc).rollback _ hb
    exact (hi.setCall ((hi.accounted c call hc).setRollback hw ((suffix_cons _ _).trans hs))).congr rfl rfl
  case fail c call err hc hb hr => exact hi.setCall ((hi.accounted c call hc).fail err)
  case write hj _ | commit hj _ | release hj _ | defer hj _ | dropGuard hj _ => exact (hi.setPhase hj).congr rfl rfl
  case writeFails hj _ | returnLease hj _ => exact hi.setPhase hj
  all_goals exact hi.congr rfl rfl

end Calls

section Jobs

variable {job : FlushJob}

def batches (s : Coordinator) : List PlannedWriteBatch :=
  s.calls.map WriteCall.batch

theorem batches_setCall (hc : s.calls[c]? = some call) (hb : call'.batch = call.batch) :
    (s.setCall c call').batches = s.batches := by
  have ⟨hlt, he⟩ := List.getElem?_eq_some_iff.mp hc
  simp only [batches, setCall, map_set, hb, ← he]
  rw [← getElem_map WriteCall.batch (h := by simpa using hlt), set_getElem_self]

-- The job has the id of its task and the lease that its task has been copied into.
def IsFlushOf (s : Coordinator) (job : FlushJob) : Prop :=
  ∃ (call : WriteCall) (task : ChunkTask), s.calls[job.call]? = some call ∧ call.batch.tasks[job.task]? = some task ∧
    job.chunkId = task.chunkId ∧ call.leases job.task = some job.bytes

section

variable (h : Step numThreads Plans s s')
include h

theorem Step.batches_eq : s'.batches = s.batches ∨ ∃ batch, Plans batch ∧ s'.batches = s.batches ++ [batch] := by
  cases h
  case reserve batch _ _ hp _ => exact .inr ⟨batch, hp, by simp [batches, WriteCall.start]⟩
  case copy hc _ _ _ _ | markCopied hc _ _ | spawn hc _ _ _ _ | track hc _ _ _ | acknowledge hc _ _ _ _
      | rollback hc _ _ _ | rollbackNext hc _ | fail hc _ _ =>
    exact .inl (batches_setCall hc rfl)
  all_goals exact .inl rfl

-- The lease of a task belongs to its job.
theorem Step.call_of_job (hi : Calls s) (hc : s.calls[c]? = some call) (hj : 0 < s.jobCount c t) :
    ∃ call', s'.calls[c]? = some call' ∧ call'.batch = call.batch ∧ call'.leases t = call.leases t := by
  have hset {c' : Nat} {call₀ call' : WriteCall} (hc' : s.calls[c']? = some call₀) (hb : call'.batch = call₀.batch)
      (hl : c' = c → call'.leases t = call₀.leases t) :
      ∃ next, (s.setCall c' call').calls[c]? = some next ∧ next.batch = call.batch ∧
        next.leases t = call.leases t := by
    simp only [setCall, getElem?_set]
    grind
  cases h
  case reserve =>
    have hlt := (List.getElem?_eq_some_iff.mp hc).1
    exact ⟨call, by rw [getElem?_append_left hlt, hc], rfl, rfl⟩
  case markCopied c' call' i t' task memory hc' hw htask =>
    refine hset hc' rfl fun he => Function.update_of_ne (fun ht => ?_) ..
    subst he ht
    exact (hi.accounted _ call' hc').ne_copying hj hw
  case copy hc' _ _ _ _ | spawn hc' _ _ _ _ | track hc' _ _ _ | acknowledge hc' _ _ _ _ | rollback hc' _ _ _
      | rollbackNext hc' _ | fail hc' _ _ =>
    exact hset hc' rfl fun _ => rfl
  all_goals exact ⟨call, hc, rfl, rfl⟩

theorem Step.mem_jobs (hj : job ∈ s'.jobs) :
    (∃ job₀ ∈ s.jobs, ∃ phase, job = { job₀ with phase }) ∨ (job.phase = .writing ∧ s'.IsFlushOf job) := by
  have hphase {j : Nat} {job₀ : FlushJob} (phase : FlushPhase) (hj : s.jobs[j]? = some job₀) :
      ∀ job ∈ (s.setPhase j job₀ phase).jobs, ∃ job₁ ∈ s.jobs, ∃ phase, job = { job₁ with phase } :=
    forall_mem_setPhase (fun job hm => ⟨job, hm, job.phase, rfl⟩) ⟨job₀, mem_of_getElem? hj, phase, rfl⟩
  cases h
  case spawn c call t task bytes i hc hw ht htask hl =>
    cases mem_append.mp hj
    case inl hj => exact .inl ⟨job, hj, job.phase, rfl⟩
    case inr hj =>
      have hlt := (List.getElem?_eq_some_iff.mp hc).1
      rw [mem_singleton.mp hj]
      exact .inr ⟨rfl, { call with handed := t :: call.handed }, task, by simp [setCall, hlt], htask, rfl, hl⟩
  case write hj₀ _ | writeFails hj₀ _ | commit hj₀ _ | release hj₀ _ | defer hj₀ _ | returnLease hj₀ _
      | dropGuard hj₀ _ =>
    exact .inl (hphase _ hj₀ job hj)
  all_goals exact .inl ⟨job, hj, job.phase, rfl⟩

theorem Step.isFlushOf (hcalls : Calls s) (hi : ∀ job ∈ s.jobs, s.IsFlushOf job) :
    ∀ job ∈ s'.jobs, s'.IsFlushOf job := by
  intro job hj
  cases h.mem_jobs hj
  case inl hm =>
    obtain ⟨job₀, hm, phase, rfl⟩ := hm
    obtain ⟨call, task, hc, htask, hid, hl⟩ := hi job₀ hm
    have hpos : 0 < s.jobCount job₀.call job₀.task :=
      countP_pos_iff.mpr ⟨job₀, hm, by simp [FlushJob.isFor]⟩
    have ⟨call', hc', hb, hl'⟩ := h.call_of_job hcalls hc hpos
    exact ⟨call', task, hc', hb ▸ htask, hid, hl'.trans hl⟩
  case inr hn => exact hn.2

-- What is in a lease has been read from the memory of the caller.
theorem Step.leases (hi : ∀ call ∈ s.calls, call.Copied) : ∀ call ∈ s'.calls, call.Copied := by
  have hset {c : Nat} {call' : WriteCall} (hp : call'.Copied) : ∀ call ∈ (s.setCall c call').calls, call.Copied := by
    intro call hm
    cases mem_or_eq_of_mem_set hm
    case inl hm => exact hi call hm
    case inr he => rwa [he]
  have hmem {c : Nat} {call : WriteCall} (hc : s.calls[c]? = some call) : call.Copied :=
    hi call (mem_of_getElem? hc)
  cases h
  case reserve =>
    rw [forall_mem_append, forall_mem_singleton]
    exact ⟨hi, fun t bytes hl => by simp [WriteCall.start] at hl⟩
  case markCopied c call i t task memory hc hw htask =>
    refine hset fun t' bytes hl => ?_
    simp only [Function.update_apply] at hl
    split at hl
    case isTrue he =>
      subst he
      cases hl
      exact ⟨task, memory, htask, rfl⟩
    case isFalse => exact hmem hc t' bytes hl
  case copy hc _ _ _ _ | spawn hc _ _ _ _ | track hc _ _ _ | acknowledge hc _ _ _ _ | rollback hc _ _ _
      | rollbackNext hc _ | fail hc _ _ =>
    exact hset fun t bytes hl => hmem hc t bytes hl
  all_goals exact hi

theorem Step.inflight_eq (hi : s.inflight = s.jobs.countP (·.phase.holdsGuard)) :
    s'.inflight = s'.jobs.countP (·.phase.holdsGuard) := by
  cases h
  all_goals simp only [setPhase, setCall, countP_append, countP_singleton]
  all_goals grind [countP_set, FlushPhase.holdsGuard]

end

end Jobs

end Coordinator

end ZarrIo
