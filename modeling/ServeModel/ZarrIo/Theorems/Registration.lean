import ServeModel.ZarrIo.Registration

namespace ZarrIo

open List

namespace Registration

namespace MetadataThread

def isFinished : MetadataThread → Bool
  | returned _ | panicked => true
  | _ => false

def failed : MetadataThread → Bool
  | returned (.error _) | panicked => true
  | _ => false

theorem eq_ok {thread : MetadataThread} (h : thread.isFinished) (hf : ¬thread.failed) : thread = returned (.ok ()) := by
  fun_cases failed thread
  case case1 | case2 => simp [failed] at hf
  case case3 hne hnp =>
    fun_cases isFinished thread
    case case1 result =>
      cases result
      case ok => rfl
      case error err => exact absurd rfl (hne err)
    case case2 => exact absurd rfl hnp
    case case3 => simp_all [isFinished]

end MetadataThread

def Thread.succeeded : Thread → Bool
  | absent | returned (.ok ()) => true
  | _ => false

namespace Phase

-- The call has planned or dispatched tasks, or it has come to the consolidation.
def passed : Phase → Bool
  | working | returned _ => true
  | _ => false

-- Nothing holds the call back any more.
def cleared : Phase → Bool
  | waited (.ok ()) | working | returned _ => true
  | _ => false

end Phase

-- There is a thread that has not finished, or there will be one.
def awaitsThread (s : Registration) : Bool :=
  s.isRegistered && s.add != .failed && !s.thread.isFinished

-- What the wait for the thread is for.
structure IsBarrier (s : Registration) : Prop where
  waits : s.awaitsThread → ∀ caller ∈ s.callers, ¬caller.phase.passed
  reports : s.thread.failed → ∀ caller ∈ s.callers, caller.isClose → caller.phase ≠ .returned (.ok ())
  written : s.isRegistered → s.add ≠ .failed → ∀ caller ∈ s.callers, caller.isClose →
    caller.phase = .returned (.ok ()) → s.filesWritten ∧ s.poolInit.succeeded

-- A call need not wait: there is no thread, or the thread has finished, for a close with success.
def settledFor (s : Registration) (caller : Caller) : Bool :=
  !s.isRegistered || s.add == .failed || s.thread.isFinished && !(caller.isClose && s.thread.failed)

-- The arrays are not registered behind the back of a close, and each call that looks for the flag or the handle
-- finds it, unless it need not wait.
def Orderly (s : Registration) : Action → Prop
  | .register => ∀ caller ∈ s.callers, caller.phase.cleared = false
  | .load i => ∀ caller ∈ s.callers[i]?, s.hasPendingRegistration ∨ s.settledFor caller
  | .take i => ∀ caller ∈ s.callers[i]?, s.pendingRegistrationJoin ∨ s.settledFor caller
  | _ => True

instance (s : Registration) (act : Action) : Decidable (s.Orderly act) :=
  match act with
  | .register => inferInstanceAs (Decidable (∀ caller ∈ s.callers, caller.phase.cleared = false))
  | .load i => inferInstanceAs (Decidable (∀ caller ∈ s.callers[i]?, s.hasPendingRegistration ∨ s.settledFor caller))
  | .take i => inferInstanceAs (Decidable (∀ caller ∈ s.callers[i]?, s.pendingRegistrationJoin ∨ s.settledFor caller))
  | .addArray | .spawn _ | .spawnFails | .store | .setFlag | .consolidate | .consolidateFails _ | .threadPanics
  | .poolReturns _ | .poolPanics | .joinPool | .write | .close | .join _ | .clear _ | .goOn _ | .finish _ _ =>
    isTrue trivial

structure Inv (s : Registration) : Prop where
  thread : s.thread = .absent ∨ s.add = .spawned ∨ s.add = .stored ∨ s.add = .returned
  waits : s.awaitsThread → ∀ caller ∈ s.callers, caller.phase.cleared = false
  reports : s.thread.failed → ∀ caller ∈ s.callers, caller.isClose → caller.phase.cleared = false
  clearing : ∀ caller ∈ s.callers, ∀ result, caller.phase = .clearing result → s.thread = .returned result
  joining : s.thread = .joiningPool → s.filesWritten
  written : s.thread = .returned (.ok ()) → s.filesWritten ∧ s.poolInit.succeeded

variable {s s' : Registration} {caller : Caller}

theorem Inv.start : Inv start where
  thread := .inl rfl
  waits := by simp [Registration.start]
  reports := by simp [Registration.start]
  clearing := by simp [Registration.start]
  joining := by simp [Registration.start]
  written := by simp [Registration.start]

theorem Inv.setPhase (hi : Inv s) (hw : s.awaitsThread → phase.cleared = false)
    (hr : s.thread.failed → caller.isClose → phase.cleared = false)
    (hc : ∀ result, phase = .clearing result → s.thread = .returned result) : Inv (s.setPhase i caller phase) where
  thread := hi.thread
  waits h := by
    intro caller' hm
    cases mem_or_eq_of_mem_set hm
    case inl hm => exact hi.waits h caller' hm
    case inr he => exact he ▸ hw h
  reports h := by
    intro caller' hm hcl
    cases mem_or_eq_of_mem_set hm
    case inl hm => exact hi.reports h caller' hm hcl
    case inr he =>
      subst he
      exact hr h hcl
  clearing := by
    intro caller' hm result hp
    cases mem_or_eq_of_mem_set hm
    case inl hm => exact hi.clearing caller' hm result hp
    case inr he =>
      subst he
      exact hc result hp
  joining := hi.joining
  written := hi.written

section Steps

variable (hi : Inv s)
include hi

theorem Inv.stepAddArray (ho : s.Orderly act) (h : s.stepAddArray act = some s') : Inv s' := by
  have ⟨ht, hw, hr, hc, hj, hf⟩ := hi
  cases act
  all_goals simp only [Registration.stepAddArray, Option.ite_none_right_eq_some, Option.some.injEq, reduceCtorEq] at h
  all_goals
    have ⟨ha, he⟩ := h
    constructor
  all_goals grind [awaitsThread, isRegistered, MetadataThread.failed, MetadataThread.isFinished, Orderly]

theorem Inv.awaitsThread (hu : s.thread = .consolidating ∨ s.thread = .joiningPool) : s.awaitsThread := by
  have := hi.thread
  grind [Registration.awaitsThread, isRegistered, MetadataThread.isFinished]

theorem Inv.setThread (thread : MetadataThread) (files : Bool)
    (hu : s.thread = .consolidating ∨ s.thread = .joiningPool) (hj : thread = .joiningPool → files)
    (hf : thread = .returned (.ok ()) → files ∧ s.poolInit.succeeded) :
    Inv { s with thread, filesWritten := files } where
  thread := by
    have := hi.thread
    grind
  waits _ := hi.waits (hi.awaitsThread hu)
  reports _ c hm _ := hi.waits (hi.awaitsThread hu) c hm
  clearing c hm result hp := by
    have := hi.clearing c hm result hp
    grind
  joining := hj
  written := hf

theorem Inv.setPool (pool : Thread) (hp : s.poolInit = .running) : Inv { s with poolInit := pool } :=
  { hi with
    written ht := by
      have := (hi.written ht).2
      rw [hp] at this
      cases this }

theorem Inv.stepThreads (h : s.stepThreads act = some s') : Inv s' := by
  cases act
  all_goals simp only [Registration.stepThreads, reduceCtorEq] at h
  case consolidate =>
    split at h
    case h_1 ht =>
      cases h
      exact hi.setThread .joiningPool true (.inl ht) (fun _ => rfl) (by simp)
    case h_2 => cases h
  case consolidateFails err =>
    split at h
    case h_1 ht =>
      cases h
      exact hi.setThread (.returned (.error err)) s.filesWritten (.inl ht) (by simp) (by simp)
    case h_2 => cases h
  case threadPanics =>
    split at h
    case h_1 ht =>
      cases h
      exact hi.setThread .panicked s.filesWritten (.inl ht) (by simp) (by simp)
    case h_2 ht =>
      cases h
      exact hi.setThread .panicked s.filesWritten (.inr ht) (by simp) (by simp)
    case h_3 => cases h
  case poolReturns result =>
    split at h
    case h_1 hp =>
      cases h
      exact hi.setPool (.returned result) hp
    case h_2 => cases h
  case poolPanics =>
    split at h
    case h_1 hp =>
      cases h
      exact hi.setPool .panicked hp
    case h_2 => cases h
  case joinPool =>
    split at h
    case h_1 ht =>
      have ⟨r, hr, he⟩ := Option.map_eq_some_iff.mp h
      subst he
      refine hi.setThread (.returned r) s.filesWritten (.inr ht) (by simp) fun hok => ⟨hi.joining ht, ?_⟩
      cases hok
      cases hp : s.poolInit
      all_goals simp_all [poolResult, Thread.succeeded]
    case h_2 => cases h

theorem Inv.addCaller (isClose closed : Bool) :
    Inv { s with closed, callers := s.callers ++ [⟨isClose, .loading⟩] } where
  thread := hi.thread
  waits h := forall_mem_append.mpr ⟨hi.waits h, by simp [Phase.cleared]⟩
  reports h := forall_mem_append.mpr ⟨hi.reports h, by simp [Phase.cleared]⟩
  clearing := forall_mem_append.mpr ⟨hi.clearing, by simp⟩
  joining := hi.joining
  written := hi.written

theorem Inv.letThrough (h : s.settledFor caller) : Inv (s.setPhase i caller (.waited (.ok ()))) := by
  have := hi.thread
  refine hi.setPhase (fun ha => ?_) (fun hf hc => ?_) (by simp)
  all_goals grind [Registration.awaitsThread, settledFor, isRegistered, MetadataThread.isFinished,
    MetadataThread.failed]

theorem Inv.stepCallers (ho : s.Orderly act) (h : s.stepCallers act = some s') : Inv s' := by
  cases act
  all_goals simp only [Registration.stepCallers, reduceCtorEq, Option.bind_eq_bind, Option.bind_eq_some_iff] at h
  case write =>
    split at h
    case isTrue =>
      cases h
      exact hi.addCaller false s.closed
    case isFalse => cases h
  case close =>
    split at h
    case isTrue => cases h
    case isFalse =>
      cases h
      exact hi.addCaller true true
  case load i =>
    have ⟨caller, hc, h⟩ := h
    split at h
    case h_1 =>
      cases h
      split
      case isTrue => exact hi.setPhase (fun _ => rfl) (fun _ _ => rfl) (by simp)
      case isFalse hf => exact hi.letThrough ((ho caller hc).resolve_left hf)
    case h_2 => cases h
  case take i =>
    have ⟨caller, hc, h⟩ := h
    split at h
    case h_1 =>
      split at h
      case isTrue =>
        cases h
        exact { hi.setPhase (fun _ => rfl) (fun _ _ => rfl) (by simp) with }
      case isFalse hf =>
        cases h
        exact hi.letThrough ((ho caller hc).resolve_left hf)
    case h_2 => cases h
  case join i =>
    have ⟨caller, hc, h⟩ := h
    split at h
    case h_1 result _ ht =>
      cases h
      exact hi.setPhase (fun _ => rfl) (fun _ _ => rfl) (by simpa using ht)
    case h_2 =>
      cases h
      exact hi.setPhase (fun _ => rfl) (fun _ _ => rfl) (by simp)
    case h_3 => cases h
  case clear i =>
    have ⟨caller, hc, h⟩ := h
    split at h
    case h_1 result hp =>
      cases h
      have ht := hi.clearing caller (mem_of_getElem? hc) result hp
      have hinv : Inv (s.setPhase i caller (.waited result)) := by
        refine hi.setPhase (fun ha => ?_) (fun hf _ => ?_) (by simp)
        · simp [Registration.awaitsThread, ht, MetadataThread.isFinished] at ha
        · cases result
          case ok => simp [ht, MetadataThread.failed] at hf
          case error => rfl
      exact { hinv with }
    case h_2 => cases h
  case goOn i =>
    have ⟨caller, hc, h⟩ := h
    have hm := mem_of_getElem? hc
    split at h
    case h_1 hp =>
      cases h
      refine hi.setPhase (fun ha => ?_) (fun hf hcl => ?_) (by simp)
      · simpa [hp, Phase.cleared] using hi.waits ha caller hm
      · simpa [hp, Phase.cleared] using hi.reports hf caller hm hcl
    case h_2 =>
      cases h
      exact hi.setPhase (fun _ => rfl) (fun _ _ => rfl) (by simp)
    case h_3 => cases h
  case finish i result =>
    have ⟨caller, hc, h⟩ := h
    have hm := mem_of_getElem? hc
    split at h
    case h_1 hp =>
      cases h
      refine hi.setPhase (fun ha => ?_) (fun hf hcl => ?_) (by simp)
      · simpa [hp, Phase.cleared] using hi.waits ha caller hm
      · simpa [hp, Phase.cleared] using hi.reports hf caller hm hcl
    case h_2 => cases h

theorem Inv.step (ho : s.Orderly act) (h : s.step act = some s') : Inv s' := by
  rw [Registration.step, Option.or_eq_some_iff, Option.or_eq_some_iff] at h
  cases h
  case inl h => exact hi.stepAddArray ho h
  case inr h =>
    cases h.2
    case inl h => exact hi.stepThreads h
    case inr h => exact hi.stepCallers ho h.2

theorem Inv.isBarrier : IsBarrier s where
  waits ha caller hm hp := by
    have := hi.waits ha caller hm
    cases hphase : caller.phase
    all_goals simp [hphase, Phase.passed, Phase.cleared] at hp this
  reports hf caller hm hc hp := by
    have := hi.reports hf caller hm hc
    simp [hp, Phase.cleared] at this
  written hr ha caller hm hc hp := by
    have hcl : caller.phase.cleared := by rw [hp]; rfl
    have hw := mt (fun h => hi.waits h caller hm) (by simp [hcl])
    have hf := mt (fun h => hi.reports h caller hm hc) (by simp [hcl])
    refine hi.written (MetadataThread.eq_ok ?_ hf)
    simpa [Registration.awaitsThread, hr, ha] using hw

end Steps

open Transition Relation

-- In a run whose calls find the flag and the handle of the thread they have to wait for, the wait is a barrier.
theorem registration_barrier (h : ReflTransGen (Moves step Orderly) start s) : IsBarrier s :=
  (Transition.invariant (fun hi ⟨_, ho, hs⟩ => hi.step ho hs) Inv.start h).isBarrier

-- The thread succeeds, a write waits for it, and so does the close.
theorem registration_barrier_of_success : ∃ s, ReflTransGen (Moves step Orderly) start s ∧
    s.callers.map (·.phase.passed) = [true, true] ∧ IsBarrier s := by
  have h : ReflTransGen (Moves step Orderly) start _ := reachable_of_runs [
    .addArray, .register, .spawn true, .store, .setFlag, .write, .load 0, .take 0, .consolidate,
    .poolReturns (.ok ()), .joinPool, .join 0, .clear 0, .goOn 0, .finish 0 (.ok ()),
    .close, .load 1, .goOn 1, .finish 1 (.ok ())] rfl
  exact ⟨_, h, rfl, registration_barrier h⟩

-- A write that finds the handle taken dispatches its tasks while the thread is still running. The error of the
-- thread goes to a write, and the close after it reports that the metadata has been consolidated.
theorem registration_not_barrier :
    (∃ s, ReflTransGen (Moves step fun _ _ => True) start s ∧ s.awaitsThread ∧
      (∃ caller ∈ s.callers, caller.phase = .working) ∧ ¬IsBarrier s) ∧
    ∃ s, ReflTransGen (Moves step fun _ _ => True) start s ∧ s.thread.failed ∧ s.filesWritten = false ∧
      (∃ caller ∈ s.callers, caller.isClose ∧ caller.phase = .returned (.ok ())) ∧ ¬IsBarrier s := by
  constructor
  case left =>
    have h : ReflTransGen (Moves step fun _ _ => True) start _ := reachable_of_runs [
      .addArray, .register, .spawn false, .store, .setFlag, .write, .write, .load 0, .take 0, .load 1, .take 1,
      .goOn 1] rfl
    refine ⟨_, h, rfl, ⟨_, mem_cons_of_mem _ mem_cons_self, rfl⟩, fun hb => ?_⟩
    exact hb.waits rfl _ (mem_cons_of_mem _ mem_cons_self) rfl
  case right =>
    have h : ReflTransGen (Moves step fun _ _ => True) start _ := reachable_of_runs [
      .addArray, .register, .spawn false, .store, .setFlag, .consolidateFails (.validation ""), .write, .load 0,
      .take 0, .join 0, .clear 0, .goOn 0, .close, .load 1, .goOn 1, .finish 1 (.ok ())] rfl
    refine ⟨_, h, rfl, rfl, ⟨_, mem_cons_of_mem _ mem_cons_self, rfl, rfl⟩, fun hb => ?_⟩
    exact hb.reports rfl _ (mem_cons_of_mem _ mem_cons_self) rfl rfl

end Registration

end ZarrIo
