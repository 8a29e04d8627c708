import ServeModel.ZarrIo.CopyBarrier

-- When the copy barrier does what it is for.
namespace ZarrIo

namespace CopyBarrier

variable {s s' : CopyBarrier} {act : Action} {i n : Nat} {b : BatchId}

-- The batch that an action is about.
def Action.batchId (s : CopyBarrier) : Action → Option BatchId
  | submit b | markCopied b | waitCopied _ b | abortBatch b => some b
  | wake i =>
    match s.waits i with
    | some (.waiting b _ _) => some b
    | _ => none
  | drain | shutdown => none

def SameCounts (s s' : CopyBarrier) (b : BatchId) : Prop :=
  s'.state.submittedByBatch b = s.state.submittedByBatch b ∧ s'.state.copiedByBatch b = s.state.copiedByBatch b

structure Right (s : CopyBarrier) : Prop where
  -- a call that has returned Ok did so when all tasks were marked
  marked : ∀ i b marked, s.waits i = some (.returned b (.ok ()) marked) → marked = true
  -- a call does not sleep when nothing is left to wait for, and returns as soon as it has the lock
  returns : ∀ i b n notified, s.waits i = some (.waiting b n notified) → s.tasks b = s.marks b →
    notified = true ∧ ∃ s', s.step (.wake i) = some s' ∧ s'.waits i = some (.returned b (.ok ()) true)
  removed : ∀ act s' i b marked, s.step act = some s' → s.waits i ≠ some (.returned b (.ok ()) marked) →
    s'.waits i = some (.returned b (.ok ()) marked) →
    s'.state.submittedByBatch b = none ∧ s'.state.copiedByBatch b = none
  others : ∀ act s' b, s.step act = some s' → act.batchId s = some b → ∀ c ≠ b, SameCounts s s' c

def NobodyWaits (s : CopyBarrier) (gone : BatchId → Bool) : Prop :=
  ∀ i b n notified, s.waits i = some (.waiting b n notified) → gone b = false

-- Tasks are marked once each, and while a call waits for a batch there is no other call for it, and the batch is
-- neither extended nor aborted, drained or shut down.
def Orderly (s : CopyBarrier) : Action → Prop
  | .submit b | .waitCopied _ b | .abortBatch b => s.NobodyWaits (· = b)
  | .markCopied b => ∀ n, s.state.submittedByBatch b = some n → (s.state.copiedByBatch b).getD 0 < n
  | .wake _ => True
  | .drain | .shutdown => s.NobodyWaits fun _ => true

-- A call that waits has the right number, and sleeps only if something is missing. It is the only one for its batch.
structure Inv (s : CopyBarrier) : Prop where
  tasks : ∀ b, (s.state.submittedByBatch b).getD 0 = s.tasks b
  marks : ∀ b, (s.state.copiedByBatch b).getD 0 = s.marks b
  waits : ∀ i b n notified, s.waits i = some (.waiting b n notified) →
    s.tasks b = n ∧ (notified = false → s.marks b ≠ n)
  single : ∀ i j b n m x y, s.waits i = some (.waiting b n x) → s.waits j = some (.waiting b m y) → i = j
  marked : ∀ i b marked, s.waits i = some (.returned b (.ok ()) marked) → marked = true

theorem notify_eq_waiting (h : w.map WaitCopied.notify = some (.waiting b n x)) :
    x = true ∧ ∃ y, w = some (.waiting b n y) := by
  have ⟨w, hw, he⟩ := Option.map_eq_some_iff.mp h
  cases w
  case waiting => cases he; exact ⟨rfl, _, hw⟩
  case returned => cases he

theorem notify_eq_returned
    (h : w.map WaitCopied.notify = some (.returned b r x)) : w = some (.returned b r x) := by
  have ⟨w, hw, he⟩ := Option.map_eq_some_iff.mp h
  cases w
  case waiting => cases he
  case returned => cases he; exact hw

theorem Inv.notifyAll (h : Inv s) : Inv s.notifyAll where
  tasks := h.tasks
  marks := h.marks
  waits i b n x hw := by
    obtain ⟨rfl, y, hy⟩ := notify_eq_waiting hw
    exact ⟨(h.waits i b n y hy).1, nofun⟩
  single i j b n m x y hx hy := by
    obtain ⟨-, _, hx⟩ := notify_eq_waiting hx
    obtain ⟨-, _, hy⟩ := notify_eq_waiting hy
    exact h.single i j b n m _ _ hx hy
  marked i b marked hm := h.marked i b marked (notify_eq_returned hm)

theorem Inv.forget (h : Inv s) (hg : s.NobodyWaits gone) : Inv (s.forget gone) where
  tasks b := by
    have := h.tasks b
    simp only [CopyBarrier.forget, SchedulerState.forget]
    split <;> simp_all
  marks b := by
    have := h.marks b
    simp only [CopyBarrier.forget, SchedulerState.forget]
    split <;> simp_all
  waits i b n x hw := by simpa [CopyBarrier.forget, hg i b n x hw] using h.waits i b n x hw
  single := h.single
  marked := h.marked

-- A call is at a new place. If it waits there, nobody else waits for its batch.
theorem Inv.setWait (h : Inv s) (hw : ∀ b n x, w = .waiting b n x → s.tasks b = n ∧ (x = false → s.marks b ≠ n) ∧
      ∀ j m y, s.waits j = some (.waiting b m y) → j = i)
    (hm : ∀ b marked, w = .returned b (.ok ()) marked → marked = true) :
    Inv { s with waits := Function.update s.waits i (some w) } := by
  constructor
  case tasks => exact h.tasks
  case marks => exact h.marks
  case waits =>
    intro j b n x hj
    by_cases he : j = i
    case pos =>
      have ⟨ht, hn, _⟩ := hw b n x (by simpa [he] using hj)
      exact ⟨ht, hn⟩
    case neg => exact h.waits j b n x (by simpa [he] using hj)
  case single =>
    intro j k b n m x y hj hk
    by_cases he : j = i <;> by_cases hf : k = i
    · exact he.trans hf.symm
    · have ⟨_, _, hu⟩ := hw b n x (by simpa [he] using hj)
      exact he.trans (hu k m y (by simpa [hf] using hk)).symm
    · have ⟨_, _, hu⟩ := hw b m y (by simpa [hf] using hk)
      exact (hu j n x (by simpa [he] using hj)).trans hf.symm
    · exact h.single j k b n m x y (by simpa [he] using hj) (by simpa [hf] using hk)
  case marked =>
    intro j b marked hj
    by_cases he : j = i
    case pos => exact hm b marked (by simpa [he] using hj)
    case neg => exact h.marked j b marked (by simpa [he] using hj)

theorem Inv.round (h : Inv s) (ht : s.tasks b = n) (hu : ∀ j m y, s.waits j = some (.waiting b m y) → j = i) :
    Inv (s.round i b n) := by
  have hc := h.marks b
  unfold CopyBarrier.round
  split
  case isTrue he =>
    have hm : s.tasks b = s.marks b := by omega
    have hs := h.setWait (i := i) (w := .returned b (.ok ()) (s.tasks b = s.marks b)) nofun
      (fun _ _ he => by cases he; exact decide_eq_true hm)
    refine hs.forget fun j c m y hj => decide_eq_false fun hcb => ?_
    by_cases hij : j = i
    case pos => simp [hij] at hj
    case neg => exact hij (hu j m y (by simpa [hij, hcb] using hj))
  case isFalse he =>
    refine h.setWait (fun c m y hw => ?_) nofun
    cases hw
    exact ⟨ht, fun _ hm => he (hc.trans hm), hu⟩

theorem Inv.submit (h : Inv s) (ho : s.NobodyWaits (· = b)) (hs : s.step (.submit b) = some s') : Inv s' := by
  cases hd : s.state.shutdown
  case true =>
    simp only [CopyBarrier.step, SchedulerState.submit, hd, if_true] at hs
    cases hs
    exact h
  case false =>
    simp only [CopyBarrier.step, SchedulerState.submit, hd, Bool.false_eq_true, if_false] at hs
    cases hs
    refine ⟨fun c => ?_, h.marks, fun i c n x hw => ?_, h.single, h.marked⟩
    · have := h.tasks c
      by_cases hc : c = b
      case pos => subst hc; simpa using this
      case neg => simpa [hc] using this
    · have hc : c ≠ b := fun hc => by simpa [hc] using ho i c n x hw
      simpa [hc] using h.waits i c n x hw

theorem Inv.markCopied (h : Inv s) (ho : Orderly s (.markCopied b)) (hs : s.step (.markCopied b) = some s') :
    Inv s' := by
  cases hb : s.state.submittedByBatch b
  case none =>
    simp only [CopyBarrier.step, SchedulerState.markCopied, hb] at hs
    cases hs
    exact h
  case some n =>
    simp only [CopyBarrier.step, SchedulerState.markCopied, hb, if_neg (Nat.not_lt.mpr (ho n hb))] at hs
    cases hs
    refine ⟨h.tasks, fun c => ?_, fun i c m x hw => ?_, h.notifyAll.single, h.notifyAll.marked⟩
    · have := h.marks c
      by_cases hc : c = b
      case pos => subst hc; simpa [CopyBarrier.notifyAll] using this
      case neg => simpa [CopyBarrier.notifyAll, hc] using this
    · obtain ⟨rfl, y, hy⟩ := notify_eq_waiting hw
      exact ⟨(h.waits i c m y hy).1, nofun⟩

theorem Inv.waitCopied (h : Inv s) (ho : s.NobodyWaits (· = b)) (hs : s.step (.waitCopied i b) = some s') : Inv s' := by
  simp only [CopyBarrier.step] at hs
  split at hs
  case h_1 => cases hs
  case h_2 =>
    cases hs
    exact h.setWait nofun nofun
  case h_3 n _ hb =>
    cases hs
    refine h.round (by rw [← h.tasks, hb]; rfl) fun j m y hj => ?_
    simpa using ho j b m y hj

theorem Inv.step (h : Inv s) (ho : Orderly s act) (hs : s.step act = some s') : Inv s' := by
  cases act
  case submit => exact h.submit ho hs
  case markCopied => exact h.markCopied ho hs
  case waitCopied => exact h.waitCopied ho hs
  case wake i =>
    simp only [CopyBarrier.step] at hs
    split at hs
    case h_1 b n x hi =>
      cases hs
      exact h.round (h.waits i b n x hi).1 fun j m y hj => h.single j i b m n y x hj hi
    case h_2 => cases hs
  case abortBatch | drain => cases hs; exact (h.forget ho).notifyAll
  case shutdown =>
    cases hs
    exact { (h.forget ho).notifyAll with }

theorem Inv.returns (h : Inv s) (hi : s.waits i = some (.waiting b n x)) (hm : s.tasks b = s.marks b) :
    x = true ∧ ∃ s', s.step (.wake i) = some s' ∧ s'.waits i = some (.returned b (.ok ()) true) := by
  have ⟨ht, hn⟩ := h.waits i b n x hi
  refine ⟨Bool.eq_true_of_not_eq_false fun hx => hn hx (hm.symm.trans ht), s.round i b n, ?_, ?_⟩
  · simp only [CopyBarrier.step, hi]
  · rw [CopyBarrier.round, if_pos (by rw [h.marks, ← hm, ht])]
    simp [hm]

-- What a round does to the counts, whoever else is there.

theorem round_others (hc : c ≠ b) : SameCounts s (s.round i b n) c := by
  unfold CopyBarrier.round
  split
  case isTrue => simp [SameCounts, CopyBarrier.forget, SchedulerState.forget, hc]
  case isFalse => exact ⟨rfl, rfl⟩

theorem round_removed (hn : s.waits j ≠ some (.returned c (.ok ()) x))
    (hr : (s.round i b n).waits j = some (.returned c (.ok ()) x)) :
    (s.round i b n).state.submittedByBatch c = none ∧ (s.round i b n).state.copiedByBatch c = none := by
  by_cases hj : j = i
  case neg =>
    refine absurd ?_ hn
    unfold CopyBarrier.round at hr
    split at hr
    all_goals simpa [hj] using hr
  case pos =>
    unfold CopyBarrier.round at hr ⊢
    split
    case isTrue he =>
      simp only [he, if_true, hj, Function.update_self, Option.some.injEq, WaitCopied.returned.injEq] at hr
      simp [CopyBarrier.forget, SchedulerState.forget, hr.1]
    case isFalse he => simp [he, hj] at hr

theorem markCopied_others {t : SchedulerState} (hc : c ≠ b) :
    (t.markCopied b).2.submittedByBatch c = t.submittedByBatch c ∧
      (t.markCopied b).2.copiedByBatch c = t.copiedByBatch c := by
  unfold SchedulerState.markCopied
  split
  case h_1 => exact ⟨rfl, rfl⟩
  case h_2 =>
    dsimp only
    split
    all_goals exact ⟨rfl, Function.update_of_ne hc ..⟩

theorem step_others (hs : s.step act = some s') (hb : act.batchId s = some b) {c : BatchId} (hc : c ≠ b) :
    SameCounts s s' c := by
  cases act
  case submit =>
    cases hb
    simp only [CopyBarrier.step, SchedulerState.submit] at hs
    cases hd : s.state.shutdown <;> simp only [hd, if_true, Bool.false_eq_true, if_false] at hs <;> cases hs
    · exact ⟨Function.update_of_ne hc .., rfl⟩
    · exact ⟨rfl, rfl⟩
  case markCopied =>
    cases hb
    have hm := markCopied_others (t := s.state) hc
    simp only [CopyBarrier.step] at hs
    split at hs
    all_goals
      rename_i he
      cases hs
      rw [he] at hm
      exact hm
  case waitCopied =>
    cases hb
    simp only [CopyBarrier.step] at hs
    split at hs <;> cases hs
    · exact ⟨rfl, rfl⟩
    · exact round_others hc
  case wake i =>
    simp only [Action.batchId, CopyBarrier.step] at hb hs
    split at hs
    case h_1 hi =>
      rw [hi] at hb
      cases hb
      cases hs
      exact round_others hc
    case h_2 => cases hs
  case abortBatch =>
    cases hb
    cases hs
    simp [SameCounts, CopyBarrier.notifyAll, CopyBarrier.forget, SchedulerState.forget, hc]
  case drain | shutdown => cases hb

theorem step_removed (hs : s.step act = some s') (hn : s.waits i ≠ some (.returned b (.ok ()) x))
    (hr : s'.waits i = some (.returned b (.ok ()) x)) :
    s'.state.submittedByBatch b = none ∧ s'.state.copiedByBatch b = none := by
  cases act
  case submit =>
    simp only [CopyBarrier.step] at hs
    split at hs <;> cases hs <;> exact absurd hr hn
  case markCopied =>
    simp only [CopyBarrier.step] at hs
    split at hs <;> cases hs
    · exact absurd hr hn
    · exact absurd (notify_eq_returned hr) hn
  case waitCopied j c =>
    simp only [CopyBarrier.step] at hs
    split at hs <;> cases hs
    · by_cases hj : i = j
      case pos => simp [hj] at hr
      case neg => exact absurd (by simpa [hj] using hr) hn
    · exact round_removed hn hr
  case wake =>
    simp only [CopyBarrier.step] at hs
    split at hs <;> cases hs
    exact round_removed hn hr
  all_goals
    cases hs
    exact absurd (notify_eq_returned hr) hn

open Transition Relation

theorem Inv.start : Inv start :=
  ⟨fun _ => rfl, fun _ => rfl, fun _ _ _ _ h => (by cases h), fun _ _ _ _ _ _ _ h => (by cases h),
    fun _ _ _ h => (by cases h)⟩

-- In an orderly run the barrier is right all the time.
theorem copy_barrier (h : ReflTransGen (Moves step Orderly) start s) : Right s := by
  have hi : Inv s := Transition.invariant (fun hi ⟨_, ho, hs⟩ => Inv.step hi ho hs) Inv.start h
  exact ⟨hi.marked, fun _ _ _ _ => hi.returns, fun _ _ _ _ _ => step_removed, fun _ _ _ hs hb _ => step_others hs hb⟩

-- The call sleeps until the only task is marked.
theorem copy_barrier_one : ∃ s, ReflTransGen (Moves step Orderly) start s ∧
    s.waits 0 = some (.returned 1 (.ok ()) true) ∧ Right s := by
  have h : ReflTransGen (Moves step Orderly) start _ :=
    .head ⟨.submit 1, fun _ _ _ _ h => (nomatch h), rfl⟩ <|
    .head ⟨.waitCopied 0 1, fun _ _ _ _ h => (nomatch h), rfl⟩ <|
    .head ⟨.markCopied 1, fun _ h => by cases h; exact Nat.one_pos, rfl⟩ <|
    .single ⟨.wake 0, trivial, rfl⟩
  exact ⟨_, h, rfl, copy_barrier h⟩

-- A batch that is aborted leaves its call asleep for good, and one that is extended is not waited for to its end.
theorem not_copy_barrier :
    (∃ s, ReflTransGen (Moves step fun _ _ => True) start s ∧ s.waits 0 = some (.waiting 1 1 true) ∧
      s.state.submittedByBatch 1 = none ∧ (∃ s', s.step (.wake 0) = some s' ∧ s'.waits 0 = some (.waiting 1 1 false)) ∧
      ¬Right s) ∧
    ∃ s, ReflTransGen (Moves step fun _ _ => True) start s ∧ s.waits 0 = some (.returned 1 (.ok ()) false) ∧
      ¬Right s := by
  constructor
  · have h : ReflTransGen (Moves step fun _ _ => True) start _ :=
      reachable_of_runs [.submit 1, .waitCopied 0 1, .abortBatch 1] rfl
    refine ⟨_, h, rfl, rfl, ⟨_, rfl, rfl⟩, fun hr => ?_⟩
    have ⟨_, s', hs, hw⟩ := hr.returns 0 1 1 true rfl rfl
    cases hs
    cases hw
  · have h : ReflTransGen (Moves step fun _ _ => True) start _ :=
      reachable_of_runs [.submit 1, .waitCopied 0 1, .submit 1, .markCopied 1, .wake 0] rfl
    exact ⟨_, h, rfl, fun hr => nomatch hr.marked 0 1 false rfl⟩

end CopyBarrier

end ZarrIo
