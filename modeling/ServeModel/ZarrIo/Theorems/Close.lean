import ServeModel.ZarrIo.Theorems.Coordinator
import ServeModel.ZarrIo.Theorems.RoundTrip
import ServeModel.ZarrIo.Theorems.SingleWrite
import Mathlib.Tactic.IntervalCases

namespace ZarrIo

open List

namespace FlushPhase

def succeeded : FlushPhase → Bool
  | settled b | returned b | finished b => b
  | _ => false

def reported : FlushPhase → Bool
  | settled b | returned b | finished b => !b
  | _ => false

end FlushPhase

namespace CloseStage

-- The deferred errors have not been taken.
def keepsErrors : CloseStage → Bool
  | idle | registration | drain | leases | inflight | errors => true
  | _ => false

-- How far a job of an earlier write is at this stage.
def Accepts : CloseStage → FlushPhase → Prop
  | errors, phase => phase = .finished true ∨ phase = .finished false
  | metadata (.ok ()), phase => phase = .finished true
  | teardown (.ok ()), phase => phase = .finished true
  | returned (.ok ()), phase => phase = .finished true
  | _, _ => True

variable {stage : CloseStage} {phase phase' : FlushPhase}

theorem Accepts.of_holdsGuard (h : stage.Accepts phase) (hg : phase.holdsGuard = true) : stage.Accepts phase' := by
  fun_cases Accepts stage phase
  case case1 => rcases h with rfl | rfl <;> cases hg
  case case5 => simp_all [Accepts]
  all_goals
    cases h
    cases hg

end CloseStage

namespace Coordinator

variable {numThreads : Nat} {Plans : PlannedWriteBatch → Prop} {s s' : Coordinator}

-- What has been done for a job by the time it has come to its phase.
structure Stored (s : Coordinator) (job : FlushJob) : Prop where
  written : job.phase = .written ∨ job.phase.succeeded → (job.chunkId, job.bytes) ∈ s.files
  committed : job.phase.succeeded → job.chunkId ∈ s.registry.committed

theorem Stored.mono (h : s.Stored job) (hf : s.files ⊆ s'.files)
    (hc : s.registry.committed ⊆ s'.registry.committed) : s'.Stored job :=
  ⟨fun hp => hf (h.written hp), fun hp => hc (h.committed hp)⟩

theorem Stored.of_unfinished (hw : job.phase ≠ .written) (hs : job.phase.succeeded = false) :
    s.Stored job :=
  ⟨fun hp => by simp [hw, hs] at hp, fun hp => by simp [hs] at hp⟩

section

variable (h : Step numThreads Plans s s')
include h

theorem Step.files_subset : s.files ⊆ s'.files := by
  cases h
  case write => exact subset_append_left _ _
  all_goals exact List.Subset.refl _

theorem Step.committed_subset : s.registry.committed ⊆ s'.registry.committed := by
  cases h
  case reserve batch reg queueCapacity hp hr =>
    simp only [ChunkRegistry.reserveManyIds] at hr
    split at hr
    case h_1 => cases hr
    case h_2 =>
      cases hr
      exact Finset.Subset.refl _
  case commit => exact Finset.subset_insert _ _
  case rollbackNext =>
    split
    all_goals exact Finset.Subset.refl _
  all_goals exact Finset.Subset.refl _

theorem Step.stored (hi : ∀ job ∈ s.jobs, s.Stored job) : ∀ job ∈ s'.jobs, s'.Stored job := by
  have hmono : ∀ job ∈ s.jobs, s'.Stored job :=
    fun job hj => (hi job hj).mono h.files_subset h.committed_subset
  cases h
  case spawn =>
    intro job hj
    cases mem_append.mp hj
    case inl hj => exact hmono job hj
    case inr hj =>
      rw [mem_singleton.mp hj]
      exact .of_unfinished (by simp) rfl
  case write j job hj hp =>
    refine forall_mem_setPhase hmono ⟨fun _ => ?_, fun hs => by cases hs⟩
    exact mem_append_right _ (mem_singleton_self _)
  case writeFails j job hj hp | release j job hj hp | defer j job err hj hp =>
    exact forall_mem_setPhase hmono (.of_unfinished (by simp) rfl)
  case commit j job hj hp =>
    refine forall_mem_setPhase hmono ⟨fun _ => ?_, fun _ => Finset.mem_insert_self _ _⟩
    exact (hi job (mem_of_getElem? hj)).written (.inl hp)
  case returnLease j job success hj hp | dropGuard j job success hj hp =>
    have hs := hi job (mem_of_getElem? hj)
    refine forall_mem_setPhase hmono ⟨fun h => hs.written (.inr ?_), fun h => hs.committed ?_⟩
    all_goals simpa [hp, FlushPhase.succeeded] using h
  all_goals exact hmono

theorem Step.keepsErrors : s'.stage.keepsErrors → s.stage.keepsErrors := by
  intro hk
  cases h
  all_goals simp_all [CloseStage.keepsErrors, setCall, setPhase]

-- An error stays on the list until close takes it.
theorem Step.deferred (hi : s.stage.keepsErrors → ∀ job ∈ s.jobs, job.phase.reported → s.deferred ≠ []) :
    s'.stage.keepsErrors → ∀ job ∈ s'.jobs, job.phase.reported → s'.deferred ≠ [] := by
  have hkeep := h.keepsErrors
  cases h
  case spawn =>
    intro hk job hj hr
    cases mem_append.mp hj
    case inl hj => exact hi hk job hj hr
    case inr hj =>
      rw [mem_singleton.mp hj] at hr
      cases hr
  case write | writeFails | commit | release => exact fun hk => forall_mem_setPhase (hi hk) fun hr => by cases hr
  case defer => exact fun hk job hj hr => by simp
  case returnLease hj hp | dropGuard hj hp =>
    exact fun hk => forall_mem_setPhase (hi hk) fun hr =>
      hi hk _ (mem_of_getElem? hj) (by simpa [hp, FlushPhase.reported] using hr)
  case takeErrors => exact fun hk => by cases hk
  all_goals exact fun hk => hi (hkeep hk)

theorem Step.acknowledged {c : Nat} (ha : s.calls[c]?.any WriteCall.acknowledged) :
    s'.calls[c]?.any WriteCall.acknowledged := by
  have hset {c' : Nat} {call call' : WriteCall} (hc : s.calls[c']? = some call)
      (hk : call.acknowledged → call'.acknowledged) :
      (s.setCall c' call').calls[c]?.any WriteCall.acknowledged := by
    simp only [setCall, getElem?_set]
    grind
  cases h
  case reserve => grind
  case copy hc _ _ _ hr | acknowledge hc _ _ hr _ | fail hc _ hr =>
    exact hset hc (by simp [WriteCall.acknowledged, hr])
  case markCopied hc _ _ | spawn hc _ _ _ _ | track hc _ _ _ | rollback hc _ _ _ | rollbackNext hc _ =>
    exact hset hc id
  all_goals exact ha

theorem Step.before_acknowledged (hi : ∀ c ∈ s.before, s.calls[c]?.any WriteCall.acknowledged) :
    ∀ c ∈ s'.before, s'.calls[c]?.any WriteCall.acknowledged := by
  have hstep (c : Nat) (hc : c ∈ s.before) := h.acknowledged (hi c hc)
  cases h
  case close =>
    intro c hc
    exact (mem_filter.mp hc).2
  all_goals exact hstep

-- A job of an earlier write is done when the wait for the jobs is over, and none of them has failed when
-- there are no errors.
theorem Step.accepts (hcalls : Calls s) (hinflight : s.inflight = s.jobs.countP (·.phase.holdsGuard))
    (hdeferred : s.stage.keepsErrors → ∀ job ∈ s.jobs, job.phase.reported → s.deferred ≠ [])
    (hbefore : ∀ c ∈ s.before, s.calls[c]?.any WriteCall.acknowledged)
    (hi : ∀ job ∈ s.jobs, job.call ∈ s.before → s.stage.Accepts job.phase) :
    ∀ job ∈ s'.jobs, job.call ∈ s'.before → s'.stage.Accepts job.phase := by
  have hphase {j : Nat} {job : FlushJob} {phase : FlushPhase} (hj : s.jobs[j]? = some job)
      (hg : job.phase.holdsGuard = true) :
      ∀ job' ∈ (s.setPhase j job phase).jobs, job'.call ∈ s.before → s.stage.Accepts job'.phase :=
    forall_mem_setPhase hi fun hb => (hi job (mem_of_getElem? hj) hb).of_holdsGuard hg
  cases h
  case spawn c call t task bytes i hc hw ht htask hl =>
    intro job hj hb
    cases mem_append.mp hj
    case inl hj => exact hi job hj hb
    case inr hj =>
      -- the workers of an earlier write have all finished
      rw [mem_singleton.mp hj] at hb
      have := hbefore c hb
      rw [hc] at this
      have := ((hcalls.accounted c call hc).ended this).1 _ (mem_of_getElem? hw)
      cases this
  case write hj hp | writeFails hj hp | commit hj hp | release hj hp | defer hj hp | returnLease hj hp
      | dropGuard hj hp =>
    exact hphase hj (by rw [hp]; rfl)
  case noInflight hs hz =>
    intro job hj _
    have hg := countP_eq_zero.mp (hinflight.symm.trans hz) job hj
    cases hp : job.phase
    case finished b => cases b <;> simp [CloseStage.Accepts]
    all_goals simp [hp, FlushPhase.holdsGuard] at hg
  case noErrors hs hd =>
    intro job hj hb
    have := hi job hj hb
    rw [hs] at this
    cases this
    case inl hp => exact hp
    case inr hp => exact absurd hd (hdeferred (by rw [hs]; rfl) job hj (by rw [hp]; rfl))
  case consolidated drained hs =>
    intro job hj hb
    have := hi job hj hb
    rw [hs] at this
    cases drained <;> exact this
  case tornDown combined hs =>
    intro job hj hb
    have := hi job hj hb
    rw [hs] at this
    cases combined <;> exact this
  all_goals
    first
    | exact hi
    | exact fun _ _ _ => trivial

end

structure Inv (s : Coordinator) : Prop where
  calls : Calls s
  leases : ∀ call ∈ s.calls, call.Copied
  flushes : ∀ job ∈ s.jobs, s.IsFlushOf job
  inflight : s.inflight = s.jobs.countP (·.phase.holdsGuard)
  stored : ∀ job ∈ s.jobs, s.Stored job
  deferred : s.stage.keepsErrors → ∀ job ∈ s.jobs, job.phase.reported → s.deferred ≠ []
  before : ∀ c ∈ s.before, s.calls[c]?.any WriteCall.acknowledged
  accepts : ∀ job ∈ s.jobs, job.call ∈ s.before → s.stage.Accepts job.phase

theorem Inv.start : Inv start where
  calls := .start
  leases := by simp [Coordinator.start]
  flushes := by simp [Coordinator.start]
  inflight := rfl
  stored := by simp [Coordinator.start]
  deferred := by simp [Coordinator.start]
  before := by simp [Coordinator.start]
  accepts := by simp [Coordinator.start]

theorem Inv.step (hi : Inv s) (h : Step numThreads Plans s s') : Inv s' where
  calls := hi.calls.step h
  leases := h.leases hi.leases
  flushes := h.isFlushOf hi.calls hi.flushes
  inflight := h.inflight_eq hi.inflight
  stored := h.stored hi.stored
  deferred := h.deferred hi.deferred
  before := h.before_acknowledged hi.before
  accepts := h.accepts hi.calls hi.inflight hi.deferred hi.before hi.accepts

theorem Reachable.inv (h : Reachable numThreads Plans s) : Inv s := by
  induction h
  case refl => exact .start
  case tail h hi => exact hi.step h

theorem Inv.exists_job (hi : Inv s) (hack : s.calls[c]?.any WriteCall.acknowledged) (hc : s.calls[c]? = some call)
    (ht : t < call.batch.tasks.length) : ∃ job ∈ s.jobs, job.call = c ∧ job.task = t := by
  rw [hc] at hack
  have hpos := ((hi.calls.accounted c call hc).ended hack).2 t ht
  obtain ⟨job, hj, hp⟩ := countP_pos_iff.mp hpos
  simp only [FlushJob.isFor, Bool.and_eq_true, beq_iff_eq] at hp
  exact ⟨job, hj, hp⟩

-- When close returns Ok, each chunk of each write that had returned Ok before has been written with the bytes
-- that its task copied from the memory of the caller and is committed, and no job of such a write has failed.
theorem close_durable (hr : Reachable numThreads Plans s) (hs : s.stage = .returned (.ok ())) :
    (∀ c ∈ s.before, ∀ (call : WriteCall), s.calls[c]? = some call →
      ∀ (t : Nat) (task : ChunkTask), call.batch.tasks[t]? = some task →
        ∃ bytes, call.leases t = some bytes ∧ (∃ memory, bytes = task.bytes memory) ∧
          (task.chunkId, bytes) ∈ s.files ∧ task.chunkId ∈ s.registry.committed) ∧
      ∀ job ∈ s.jobs, job.call ∈ s.before → job.phase = .finished true := by
  have hi := hr.inv
  have hdone (job : FlushJob) (hj : job ∈ s.jobs) (hb : job.call ∈ s.before) : job.phase = .finished true := by
    have := hi.accepts job hj hb
    rwa [hs] at this
  refine ⟨fun c hb call hc t task ht => ?_, hdone⟩
  obtain ⟨job, hj, rfl, rfl⟩ := hi.exists_job (hi.before c hb) hc (List.getElem?_eq_some_iff.mp ht).1
  obtain ⟨call', task', hc', ht', hid, hl⟩ := hi.flushes job hj
  obtain rfl := Option.some.inj (hc.symm.trans hc')
  obtain rfl := Option.some.inj (ht.symm.trans ht')
  have ⟨task', memory, ht', hbytes⟩ := hi.leases call (mem_of_getElem? hc) job.task job.bytes hl
  obtain rfl := Option.some.inj (ht.symm.trans ht')
  have hsucc : job.phase.succeeded := by rw [hdone job hj hb]; rfl
  have hst := hi.stored job hj
  exact ⟨job.bytes, hl, ⟨memory, hbytes⟩, hid ▸ hst.written (.inr hsucc), hid ▸ hst.committed hsucc⟩

theorem close_durable_twoChunks : ∃ s,
    (Reachable 1 (Planned splitByTime.planner temperature (writeOf timeAndLat) [0]) s ∧
      s.stage = .returned (.ok ())) ∧ s.before = [0] ∧ (⟨0, 1⟩, [2, 3]) ∈ s.files := by
  have h₁ := @alone_submits _ ⟨{⟨0, 0⟩, ⟨0, 1⟩}, ∅⟩ _ 1 (fun _ n => UInt8.ofNat n) taskAt planned_timeAndLat rfl rfl
    fun t ht => by interval_cases t <;> rfl
  have h₂ := h₁.trans (flushes (j := 0) rfl rfl)
  have h₃ := h₂.trans (flushes (j := 1) rfl rfl)
  have h₄ : Reachable 1 _ _ := h₃.trans (closes rfl rfl rfl (by decide))
  have ⟨bytes, hl, _, hfile, _⟩ := (close_durable h₄ rfl).1 0 (by decide) _ rfl 1 (taskAt 1) rfl
  have hbytes : bytes = [2, 3] := (Option.some.inj hl).symm
  exact ⟨_, ⟨h₄, rfl⟩, rfl, hbytes ▸ hfile⟩

end Coordinator

end ZarrIo
