import ServeModel.Scheduler.Batch
import Mathlib.Algebra.BigOperators.Group.List.Basic

namespace Scheduler

open Nat

def combinedMemory (candidates : List BatchCandidate) : Nat :=
  if hasBatchMemoryScaling candidates then
    sharedMemoryMb candidates + (candidates.filterMap (·.policy.incrementalMemoryMb)).sum
  else
    (candidates.map (·.policy.singleRequestMemoryMb)).sum

-- A combination of requests whose memory can be requested at all.
def Combinable (candidates : List BatchCandidate) : Prop :=
  0 < combinedMemory candidates ∧ combinedMemory candidates < 2 ^ 64

theorem checkedAdd_some (h : a + b < 2 ^ 64) : checkedAdd a b = some (a + b) :=
  if_pos h

theorem checkedAdd_none (h : 2 ^ 64 ≤ a + b) : checkedAdd a b = none :=
  if_neg (not_lt.mpr h)

section Sum

variable (what : String)

theorem checkedSum_ok (h : total + ns.sum < 2 ^ 64) :
    checkedSum what total ns = .ok (total + ns.sum) := by
  induction ns generalizing total
  case nil => rfl
  case cons n ns hi =>
    rw [List.sum_cons, ← add_assoc] at h
    have hn : checkedAdd total n = some (total + n) := checkedAdd_some (by omega)
    simp only [checkedSum, hn, hi h, List.sum_cons, add_assoc]

theorem checkedSum_error (ht : total < 2 ^ 64) (h : 2 ^ 64 ≤ total + ns.sum) :
    ∃ e, checkedSum what total ns = .error e := by
  induction ns generalizing total
  case nil =>
    rw [List.sum_nil] at h
    omega
  case cons n ns hi =>
    rw [List.sum_cons] at h
    rcases lt_or_ge (total + n) (2 ^ 64) with hn | hn
    · have ⟨e, he⟩ := hi hn (by omega)
      exact ⟨e, by simp only [checkedSum, checkedAdd_some hn, he]⟩
    · exact ⟨_, by simp only [checkedSum, checkedAdd_none hn]; rfl⟩

theorem checkedSum_zero_ok (h : ns.sum < 2 ^ 64) : checkedSum what 0 ns = .ok ns.sum := by
  have h : 0 + ns.sum < 2 ^ 64 := by rwa [zero_add]
  rw [checkedSum_ok what h, zero_add]

theorem checkedSum_zero_error (h : 2 ^ 64 ≤ ns.sum) : ∃ e, checkedSum what 0 ns = .error e :=
  checkedSum_error what (by decide) (by rwa [zero_add])

end Sum

theorem batchMemoryMb_ok (h : combinedMemory cs < 2 ^ 64) :
    batchMemoryMb cs = .ok (combinedMemory cs) := by
  unfold combinedMemory at h ⊢
  unfold batchMemoryMb
  split at h
  case isTrue hs =>
    simp only [hs, Bool.not_true, Bool.false_eq_true, if_false, if_true, bind, Except.bind,
      checkedSum_zero_ok _ (lt_of_le_of_lt (le_add_left _ _) h), checkedAdd_some h]
    rfl
  case isFalse hs =>
    simp [hs, checkedSum_zero_ok _ h]

theorem batchMemoryMb_error (h : 2 ^ 64 ≤ combinedMemory cs) : ∃ e, batchMemoryMb cs = .error e := by
  unfold combinedMemory at h
  unfold batchMemoryMb
  split at h
  case isTrue hs =>
    simp only [hs, Bool.not_true, Bool.false_eq_true, if_false, bind, Except.bind]
    rcases lt_or_ge (cs.filterMap (·.policy.incrementalMemoryMb)).sum (2 ^ 64) with hi | hi
    · exact ⟨_, by simp only [checkedSum_zero_ok _ hi, checkedAdd_none h]; rfl⟩
    · have ⟨e, he⟩ := checkedSum_zero_error "incremental_memory_mb" hi
      exact ⟨e, by simp only [he]⟩
  case isFalse hs =>
    have ⟨e, he⟩ := checkedSum_zero_error "resource profile memory_mb" h
    exact ⟨e, by simp only [hs, he, Bool.not_false, if_true]⟩

section Scan

variable (config : SchedulerRoleConfig) (table : ResourceReservationTable)

-- The requests among `ready` that may join the batch of `head`, in the order in which they are tried.
def partners (head : QueuedRequest) (policy : BatchPolicy) :
    List String → List QueuedRequest → List BatchCandidate
  | _, [] => []
  | seen, queued :: rest =>
    if queueKey queued.msg = queueKey head.msg ∨ queued.msg.runId ∈ seen then
      partners head policy seen rest
    else
      let later := partners head policy (queued.msg.runId :: seen) rest
      match batchPolicyForPayload config table queued.payload with
      | none => later
      | some own =>
        if batchKey queued.payload own = batchKey head.payload policy then ⟨queued, own⟩ :: later
        else later

-- Whether some GPU could hold the combined memory of a group with this head.
def groupFits (head : QueuedRequest) (policy : BatchPolicy) (group : List BatchCandidate) : Bool :=
  let profile := { policy.baseResourceProfile with
    gpusRequired := some 1, memoryMb := some (combinedMemory group) }
  let payload := { head.payload with
    resourceProfile := some profile, gpusRequired := 1, memoryMb := combinedMemory group }
  table.resources.any (isAvailable payload table.memoryUtilizationPercent)

-- The groups whose combined memory is looked at. A group that fits somewhere is grown further until it is
-- as large as its members allow; one that does not fit loses its last member again.
def triedGroups (head : QueuedRequest) (policy : BatchPolicy) :
    List BatchCandidate → Nat → List BatchCandidate → List (List BatchCandidate)
  | _, _, [] => []
  | group, maxSize, partner :: rest =>
    let size := min maxSize partner.policy.maxBatchSize
    let grown := group ++ [partner]
    if grown.length > size then triedGroups head policy group maxSize rest
    else if groupFits table head policy grown then
      grown :: if grown.length = size then [] else triedGroups head policy grown size rest
    else grown :: triedGroups head policy group maxSize rest

theorem batchMemoryFit_ok (h : Combinable (⟨head, policy⟩ :: group)) :
    (batchMemoryFitPayload policy (⟨head, policy⟩ :: group) >>= table.batchCanFitMemory) =
      .ok (groupFits table head policy (⟨head, policy⟩ :: group)) := by
  have hm := batchMemoryMb_ok h.2
  have h0 := pos_iff_ne_zero.mp h.1
  simp [batchMemoryFitPayload, batchResourceProfile, hm, bind, Except.bind, pure, Except.pure,
    ResourceReservationTable.batchCanFitMemory, ResourceReservationTable.prepareResourceRequirements,
    resolveResourceConfig, h0, resolved, groupFits]

theorem batchMemoryFit_error (h : ¬Combinable (⟨head, policy⟩ :: group)) :
    ∃ e, (batchMemoryFitPayload policy (⟨head, policy⟩ :: group) >>= table.batchCanFitMemory) =
      .error e := by
  rcases lt_or_ge (combinedMemory (⟨head, policy⟩ :: group)) (2 ^ 64) with hl | hl
  · have h0 : combinedMemory (⟨head, policy⟩ :: group) = 0 := by
      by_contra h0
      exact h ⟨pos_iff_ne_zero.mpr h0, hl⟩
    have hm := batchMemoryMb_ok hl
    rw [h0] at hm
    exact ⟨_, by
      simp [batchMemoryFitPayload, batchResourceProfile, hm, bind, Except.bind, pure, Except.pure,
        ResourceReservationTable.batchCanFitMemory,
        ResourceReservationTable.prepareResourceRequirements, resolveResourceConfig]
      rfl⟩
  · have ⟨e, hm⟩ := batchMemoryMb_error hl
    exact ⟨e, by simp [batchMemoryFitPayload, batchResourceProfile, hm, bind, Except.bind]⟩

theorem scanBatch_room (hk : queueKey queued.msg ≠ queueKey head.msg) (hs : queued.msg.runId ∉ scan.seenRunIds)
    (hp : batchPolicyForPayload config table queued.payload = some own)
    (hb : batchKey queued.payload own = batchKey head.payload policy)
    (hl : scan.candidates.length + 1 ≤ min scan.effectiveMaxBatchSize own.maxBatchSize) :
    scanBatch config table head policy (queued :: ready) scan =
      (batchMemoryFitPayload policy (scan.candidates ++ [⟨queued, own⟩]) >>= table.batchCanFitMemory) >>=
        fun fits =>
          let size := min scan.effectiveMaxBatchSize own.maxBatchSize
          let seen := { scan with seenRunIds := queued.msg.runId :: scan.seenRunIds }
          let grown := { seen with
            candidates := scan.candidates ++ [⟨queued, own⟩], effectiveMaxBatchSize := size }
          if fits then
            if scan.candidates.length + 1 = size then .ok { grown with full := true }
            else scanBatch config table head policy ready grown
          else scanBatch config table head policy ready { seen with memoryLimited := true } := by
  have hl := not_lt.mpr hl
  simp only [scanBatch, hk, hs, hp, hb, hl, if_false, ne_eq, not_true, bind_assoc,
    List.length_append, List.length_singleton]
  rfl

theorem scanBatch_ok_iff (head : QueuedRequest) (policy : BatchPolicy) (ready : List QueuedRequest)
    (scan : BatchScan) (hc : ∃ others, scan.candidates = ⟨head, policy⟩ :: others) :
    (∃ s, scanBatch config table head policy ready scan = .ok s) ↔
      ∀ group ∈ triedGroups table head policy scan.candidates scan.effectiveMaxBatchSize
        (partners config table head policy scan.seenRunIds ready), Combinable group := by
  induction ready generalizing scan
  case nil => simp [scanBatch, partners, triedGroups]
  case cons queued ready hi =>
    by_cases hk : queueKey queued.msg = queueKey head.msg
    case pos => simpa [scanBatch, partners, hk] using hi scan hc
    by_cases hs : queued.msg.runId ∈ scan.seenRunIds
    case pos => simpa [scanBatch, partners, hk, hs] using hi scan hc
    have hi' := hi { scan with seenRunIds := queued.msg.runId :: scan.seenRunIds } hc
    cases hp : batchPolicyForPayload config table queued.payload
    case none => simpa [scanBatch, partners, hk, hs, hp] using hi'
    case some own =>
      by_cases hb : batchKey queued.payload own = batchKey head.payload policy
      case neg => simpa [scanBatch, partners, hk, hs, hp, hb] using hi'
      by_cases hl : scan.candidates.length + 1 ≤ min scan.effectiveMaxBatchSize own.maxBatchSize
      case neg =>
        have hl := not_le.mp hl
        simpa [scanBatch, partners, triedGroups, hk, hs, hp, hb, hl] using hi'
      case pos =>
        have ⟨others, ho⟩ := hc
        have hn := not_lt.mpr hl
        rw [scanBatch_room config table hk hs hp hb hl]
        simp only [partners, hk, hs, hp, hb, or_self, if_false, if_true, triedGroups, gt_iff_lt,
          List.length_append, List.length_singleton, hn]
        by_cases hg : Combinable (scan.candidates ++ [⟨queued, own⟩])
        case neg =>
          rw [ho, List.cons_append] at hg
          have ⟨e, he⟩ := batchMemoryFit_error table hg
          rw [ho, List.cons_append, he]
          constructor
          · intro ⟨_, h⟩
            cases h
          · intro h
            exact absurd (h _ (by split <;> simp)) hg
        case pos =>
          have hf := hg
          rw [ho, List.cons_append] at hf
          have hf := batchMemoryFit_ok table hf
          rw [← List.cons_append, ← ho] at hf
          rw [hf]
          simp only [bind, Except.bind]
          split
          case isFalse =>
            exact (hi { scan with seenRunIds := _, memoryLimited := true } hc).trans (by simp [hg])
          case isTrue =>
            split
            case isTrue => simp [hg]
            case isFalse =>
              have hi := hi { scan with
                seenRunIds := queued.msg.runId :: scan.seenRunIds
                candidates := scan.candidates ++ [⟨queued, own⟩]
                effectiveMaxBatchSize := min scan.effectiveMaxBatchSize own.maxBatchSize } ⟨_, by rw [ho]; rfl⟩
              exact hi.trans (by simp [hg])

end Scan

section Wait

variable {σ τ : Type} {M : Machine Op σ} {I : σ → Prop} {t : τ} {s : σ}

-- Waiting only looks at the clock, and never fails.
theorem wp_batchWaitExpired (hI : ∀ s r s', I s → M .instantNow s r s' → I s') (hi : I s)
    (h : ∀ b s, I s → Q (.ok b) t s) : (batchWaitExpired candidates).wp (.alone M) Q t s := by
  induction candidates generalizing s
  case nil => exact h false s hi
  case cons ih =>
    simp only [batchWaitExpired, Routine.wp_bind, RoleM.wp_perform_alone, Routine.andThen_ok, Routine.wp_ite]
    intro now s' hs
    replace hi := hI s now s' hi hs
    split
    case isTrue => exact h true s' hi
    case isFalse => exact ih hi

end Wait

end Scheduler
