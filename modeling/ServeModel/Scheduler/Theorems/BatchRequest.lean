import ServeModel.Scheduler.Theorems.Batch
import ServeModel.Lib.Checks
import Mathlib.Order.Bounds.Basic

-- The batches that are formed.
namespace Scheduler

open Routine List

variable {config : SchedulerRoleConfig} {table : ResourceReservationTable} {head : QueuedRequest} {policy : BatchPolicy}

-- The largest batch that each member allows.
def limits (candidates : List BatchCandidate) : Set Nat :=
  { n | ∃ c ∈ candidates, c.policy.maxBatchSize = n }

-- Some resource that is available for the members together has the memory for them.
def Fits (table : ResourceReservationTable) (head : QueuedRequest) (policy : BatchPolicy)
    (candidates : List BatchCandidate) : Prop :=
  ∃ memoryMb profile, batchMemoryMb candidates = .ok memoryMb ∧ batchResourceProfile policy candidates = .ok profile ∧
    profile.gpusRequired = some 1 ∧ profile.memoryMb = some memoryMb ∧
    ∃ resource ∈ table.resources, memoryMb ≤ resource.usableMemoryMb table.memoryUtilizationPercent ∧
      resourceEligibilityForRequest resource
        { head.payload with resourceProfile := some profile, gpusRequired := 1, memoryMb := memoryMb }
        table.memoryUtilizationPercent = .available

theorem fits_of_batchCanFitMemory
    (h : (batchMemoryFitPayload policy (⟨head, policy⟩ :: group) >>= table.batchCanFitMemory) = .ok true) :
    Fits table head policy (⟨head, policy⟩ :: group) := by
  have hc : Combinable (⟨head, policy⟩ :: group) := by
    by_contra hc
    obtain ⟨e, he⟩ := batchMemoryFit_error table hc
    rw [he] at h
    cases h
  have hm := batchMemoryMb_ok hc.right
  rw [batchMemoryFit_ok table hc, Except.ok.injEq, groupFits, any_eq_true] at h
  obtain ⟨resource, hr, ha⟩ := h
  have ha := of_decide_eq_true ha
  refine ⟨_, _, hm, by rw [batchResourceProfile, hm]; rfl, rfl, rfl, resource, hr, ?_, ha⟩
  by_contra hl
  have hs : resourceMatchesStaticRequirements resource { head.payload with
      resourceProfile := some { policy.baseResourceProfile with
        gpusRequired := some 1, memoryMb := some (combinedMemory (⟨head, policy⟩ :: group)) }
      gpusRequired := 1, memoryMb := combinedMemory (⟨head, policy⟩ :: group) }
      table.memoryUtilizationPercent = false := if_pos (Nat.not_le.mp hl)
  rw [resourceEligibilityForRequest, hs] at ha
  cases ha

section Scan

structure Joins (config : SchedulerRoleConfig) (table : ResourceReservationTable) (head : QueuedRequest)
    (policy : BatchPolicy) (scan : BatchScan) (c : BatchCandidate) : Prop where
  other : queueKey c.queued.msg ≠ queueKey head.msg
  unseen : c.queued.msg.runId ∉ scan.seenRunIds
  own : batchPolicyForPayload config table c.queued.payload = some c.policy
  key : batchKey c.queued.payload c.policy = batchKey head.payload policy
  room : scan.candidates.length + 1 ≤ min scan.effectiveMaxBatchSize c.policy.maxBatchSize
  fits : (batchMemoryFitPayload policy (scan.candidates ++ [c]) >>= table.batchCanFitMemory) = .ok true

def BatchScan.join (scan : BatchScan) (c : BatchCandidate) : BatchScan :=
  { scan with
    candidates := scan.candidates ++ [c]
    effectiveMaxBatchSize := min scan.effectiveMaxBatchSize c.policy.maxBatchSize
    seenRunIds := c.queued.msg.runId :: scan.seenRunIds }

variable {scan s : BatchScan}

-- A request is passed over, or it joins; the scan ends early with the request that makes the batch full.
theorem scanBatch_cons (h : scanBatch config table head policy (queued :: ready) scan = .ok s) :
    (∃ seen limited, scan.seenRunIds ⊆ seen ∧ scanBatch config table head policy ready
      { scan with seenRunIds := seen, memoryLimited := limited } = .ok s) ∨
    ∃ own, Joins config table head policy scan ⟨queued, own⟩ ∧
      if scan.candidates.length + 1 = (scan.join ⟨queued, own⟩).effectiveMaxBatchSize
      then s = { scan.join ⟨queued, own⟩ with full := true }
      else scanBatch config table head policy ready (scan.join ⟨queued, own⟩) = .ok s := by
  have hsub : scan.seenRunIds ⊆ queued.msg.runId :: scan.seenRunIds := subset_cons_self ..
  by_cases hk : queueKey queued.msg = queueKey head.msg
  case pos =>
    rw [scanBatch, if_pos hk] at h
    exact .inl ⟨scan.seenRunIds, scan.memoryLimited, List.Subset.refl _, h⟩
  by_cases hs : queued.msg.runId ∈ scan.seenRunIds
  case pos =>
    rw [scanBatch, if_neg hk, if_pos hs] at h
    exact .inl ⟨scan.seenRunIds, scan.memoryLimited, List.Subset.refl _, h⟩
  cases hp : batchPolicyForPayload config table queued.payload
  case none =>
    simp only [scanBatch, if_neg hk, if_neg hs, hp] at h
    exact .inl ⟨_, scan.memoryLimited, hsub, h⟩
  case some own =>
    by_cases hb : batchKey queued.payload own = batchKey head.payload policy
    case neg =>
      simp only [scanBatch, if_neg hk, if_neg hs, hp, ne_eq, hb, not_false_eq_true, if_true] at h
      exact .inl ⟨_, scan.memoryLimited, hsub, h⟩
    by_cases hl : scan.candidates.length + 1 ≤ min scan.effectiveMaxBatchSize own.maxBatchSize
    case neg =>
      simp only [scanBatch, if_neg hk, if_neg hs, hp, ne_eq, hb, not_true, if_false, gt_iff_lt,
        if_pos (Nat.not_le.mp hl)] at h
      exact .inl ⟨_, scan.memoryLimited, hsub, h⟩
    rw [scanBatch_room config table hk hs hp hb hl] at h
    obtain ⟨fits, hf, h⟩ := Except.bind_eq_ok.mp h
    cases fits
    case false => exact .inl ⟨_, true, hsub, h⟩
    case true =>
      refine .inr ⟨own, ⟨hk, hs, hp, hb, hl, hf⟩, ?_⟩
      simp only [if_true] at h
      split at h
      case isTrue he =>
        rw [if_pos (by exact he)]
        exact (Except.ok.inj h).symm
      case isFalse he =>
        rw [if_neg (by exact he)]
        exact h

-- A scan only adds requests other than the head, each of them once and in the order of the queue.
theorem scanBatch_adds (h : scanBatch config table head policy ready scan = .ok s) :
    ∃ added, s.candidates = scan.candidates ++ added ∧ (added.map (·.queued)).Sublist ready ∧
      ∀ c ∈ added, queueKey c.queued.msg ≠ queueKey head.msg := by
  induction ready generalizing scan
  case nil =>
    cases h
    exact ⟨[], by simp⟩
  case cons queued ready hi =>
    obtain ⟨_, _, _, h⟩ | ⟨own, hj, h⟩ := scanBatch_cons h
    case inl =>
      have ⟨added, ha, hs, hk⟩ := hi h
      exact ⟨added, ha, hs.cons queued, hk⟩
    case inr =>
      split at h
      case isTrue =>
        subst h
        exact ⟨[⟨queued, own⟩], rfl, by simp, forall_mem_singleton.mpr hj.other⟩
      case isFalse =>
        have ⟨added, ha, hs, hk⟩ := hi h
        refine ⟨⟨queued, own⟩ :: added, ?_, hs.cons_cons queued, forall_mem_cons.mpr ⟨hj.other, hk⟩⟩
        rw [ha, BatchScan.join, append_assoc, singleton_append]

-- What holds of the candidates at each point of the scan.
structure Gathered (config : SchedulerRoleConfig) (table : ResourceReservationTable) (head : QueuedRequest)
    (policy : BatchPolicy) (scan : BatchScan) : Prop where
  first : ∃ others, scan.candidates = ⟨head, policy⟩ :: others ∧
    ∀ c ∈ others, queueKey c.queued.msg ≠ queueKey head.msg
  policies : ∀ c ∈ scan.candidates, batchPolicyForPayload config table c.queued.payload = some c.policy
  keys : ∀ c ∈ scan.candidates, batchKey c.queued.payload c.policy = batchKey head.payload policy
  runIds : (scan.candidates.map (·.queued.msg.runId)).Nodup
  seen : ∀ c ∈ scan.candidates, c.queued.msg.runId ∈ scan.seenRunIds
  limit : IsLeast (limits scan.candidates) scan.effectiveMaxBatchSize
  fits : scan.candidates.length = 1 ∨ Fits table head policy scan.candidates

theorem Gathered.join (hg : Gathered config table head policy scan)
    (hj : Joins config table head policy scan c) : Gathered config table head policy (scan.join c) := by
  have ⟨others, ho, hk⟩ := hg.first
  refine ⟨⟨others ++ [c], ?_, ?_⟩, ?_, ?_, ?_, ?_, ?_, .inr ?_⟩
  · rw [BatchScan.join, ho, cons_append]
  · exact forall_mem_append.mpr ⟨hk, forall_mem_singleton.mpr hj.other⟩
  · exact forall_mem_append.mpr ⟨hg.policies, forall_mem_singleton.mpr hj.own⟩
  · exact forall_mem_append.mpr ⟨hg.keys, forall_mem_singleton.mpr hj.key⟩
  · rw [BatchScan.join, map_append, map_singleton, nodup_append_comm]
    refine nodup_cons.mpr ⟨fun hm => ?_, hg.runIds⟩
    have ⟨d, hd, he⟩ := mem_map.mp hm
    exact hj.unseen (he ▸ hg.seen d hd)
  · refine forall_mem_append.mpr ⟨fun d hd => mem_cons_of_mem _ (hg.seen d hd), ?_⟩
    exact forall_mem_singleton.mpr (mem_cons_self ..)
  · have hl : limits (scan.candidates ++ [c]) = limits scan.candidates ∪ {c.policy.maxBatchSize} := by
      ext n
      simp [limits, or_and_right, exists_or, eq_comm, or_comm]
    rw [BatchScan.join, hl]
    exact hg.limit.union isLeast_singleton
  · have hf := hj.fits
    rw [ho, cons_append] at hf
    rw [BatchScan.join, ho, cons_append]
    exact fits_of_batchCanFitMemory hf

-- A scan is full if its candidates are as many as the smallest limit, and has room otherwise.
def Room (scan : BatchScan) : Prop :=
  scan.full = false ∧ scan.candidates.length < scan.effectiveMaxBatchSize

def Full (scan : BatchScan) : Prop :=
  scan.full = true ∧ scan.candidates.length = scan.effectiveMaxBatchSize

theorem gathered_of_scanBatch (h : scanBatch config table head policy ready scan = .ok s)
    (hg : Gathered config table head policy scan) (hr : Room scan) :
    Gathered config table head policy s ∧ (Room s ∨ Full s) := by
  induction ready generalizing scan
  case nil =>
    cases h
    exact ⟨hg, .inl hr⟩
  case cons queued ready hi =>
    obtain ⟨seen, limited, hsub, h⟩ | ⟨own, hj, h⟩ := scanBatch_cons h
    case inl => exact hi h { hg with seen := fun c hc => hsub (hg.seen c hc) } hr
    case inr =>
      have hg := hg.join hj
      split at h
      case isTrue he =>
        subst h
        refine ⟨{ hg with }, .inr ⟨rfl, ?_⟩⟩
        simpa [BatchScan.join] using he
      case isFalse he =>
        refine hi h hg ⟨hr.left, Nat.lt_of_le_of_ne ?_ ?_⟩
        · simpa [BatchScan.join] using hj.room
        · simpa [BatchScan.join] using he

end Scan

-- A batch as it is handed to the reservation.
structure Formed (config : SchedulerRoleConfig) (table : ResourceReservationTable) (queue : PriorityQueue QueuedRequest)
    (head : QueuedRequest) (request : BatchRequest) : Prop where
  selected : request.head = head
  first : ∃ others, request.candidates = ⟨head, request.policy⟩ :: others ∧
    (others.map (·.queued)).Sublist queue.items ∧ ∀ c ∈ others, queueKey c.queued.msg ≠ queueKey head.msg
  policies : ∀ c ∈ request.candidates, batchPolicyForPayload config table c.queued.payload = some c.policy
  runIds : (request.candidates.map (·.queued.msg.runId)).Nodup
  keys : ∀ c ∈ request.candidates, batchKey c.queued.payload c.policy = batchKey head.payload request.policy
  size : 2 ≤ request.candidates.length ∧ ∀ c ∈ request.candidates, request.candidates.length ≤ c.policy.maxBatchSize
  fits : Fits table head request.policy request.candidates
  reason : request.flushReason = .maxBatchSize ↔ IsLeast (limits request.candidates) request.candidates.length

theorem iterReady_sublist_items {queue : PriorityQueue QueuedRequest} :
    (queue.iterReady now).Sublist queue.items :=
  filter_sublist.map _

def BatchScan.start (head : QueuedRequest) (policy : BatchPolicy) : BatchScan where
  candidates := [⟨head, policy⟩]
  effectiveMaxBatchSize := policy.maxBatchSize
  seenRunIds := [head.msg.runId]

theorem gathered_start (hp : batchPolicyForPayload config table head.payload = some policy) :
    Gathered config table head policy (.start head policy) := by
  refine ⟨⟨[], rfl, forall_mem_nil _⟩, ?_, ?_, nodup_singleton _, ?_, ?_, .inl rfl⟩
  · simpa [BatchScan.start] using hp
  · simp [BatchScan.start]
  · simp [BatchScan.start]
  · have hl : limits [⟨head, policy⟩] = {policy.maxBatchSize} := by
      ext n
      simp [limits, eq_comm]
    exact hl ▸ isLeast_singleton

theorem formed_of_scanBatch (queue : PriorityQueue QueuedRequest) (now : Instant) (scan : BatchScan)
    (hp : batchPolicyForPayload config table head.payload = some policy) (hm : 1 < policy.maxBatchSize)
    (hs : scanBatch config table head policy (queue.iterReady now) (.start head policy) = .ok scan)
    (hl : scan.candidates.length ≠ 1) {reason : BatchFlushReason} (hf : reason = .maxBatchSize ↔ scan.full = true) :
    Formed config table queue head { head, candidates := scan.candidates, policy, flushReason := reason } := by
  have ⟨hg, hr⟩ := gathered_of_scanBatch hs (gathered_start hp) ⟨rfl, hm⟩
  have ⟨added, ha, hq, _⟩ := scanBatch_adds hs
  have ⟨others, ho, hk⟩ := hg.first
  obtain rfl : others = added := tail_eq_of_cons_eq (ho.symm.trans ha)
  have hle : scan.candidates.length ≤ scan.effectiveMaxBatchSize := hr.elim (·.right.le) (·.right.le)
  refine ⟨rfl, ⟨others, ho, hq.trans iterReady_sublist_items, hk⟩, hg.policies, hg.runIds, hg.keys, ⟨?_, ?_⟩,
    hg.fits.resolve_left hl, ?_⟩
  · rw [ho, length_cons] at hl ⊢
    omega
  · exact fun c hc => hle.trans (hg.limit.right ⟨c, hc, rfl⟩)
  · refine hf.trans ⟨fun h => ?_, fun h => ?_⟩
    · obtain hr | hr := hr
      case inl => cases hr.left.symm.trans h
      case inr => exact hr.right ▸ hg.limit
    · obtain hr | hr := hr
      case inl => exact absurd (h.unique hg.limit) hr.right.ne
      case inr => exact hr.left

section Request

variable {σ τ : Type} {M : Machine Op σ} {t t' : τ} {s s' : σ} {queue : PriorityQueue QueuedRequest}
    {request : BatchRequest}

variable (config table head queue) in
structure Scanned (policy : BatchPolicy) (scanned : Except Failure BatchScan) : Prop where
  own : batchPolicyForPayload config table head.payload = some policy
  many : 1 < policy.maxBatchSize
  scan : ∃ now, scanBatch config table head policy (queue.iterReady now) (.start head policy) = scanned

-- What may come of the search for a batch.
variable (config table head queue) in
inductive BatchOutcome : Except Failure (Option SchedulerRequest) → Prop
  | alone : BatchOutcome (.ok none)
  | wait : BatchOutcome (.ok (some (.wait head)))
  | failed (h : Scanned config table head queue own (.error e)) : BatchOutcome (.error e)
  | batch (h : Scanned config table head queue own (.ok scan)) (hl : scan.candidates.length ≠ 1)
      (hf : reason = .maxBatchSize ↔ scan.full = true) :
      BatchOutcome (.ok (some (.batch ⟨head, scan.candidates, own, reason⟩)))

theorem wp_createBatchRequest_outcome {I : σ → Prop} (hI : ∀ s r s', I s → M .instantNow s r s' → I s') (hi : I s)
    (hq : ∀ x s, I s → BatchOutcome config table head queue x → Q x t s) :
    (createBatchRequest config table queue head).wp (.alone M) Q t s := by
  rw [createBatchRequest]
  cases hp : batchPolicyForPayload config table head.payload
  case none => exact hq _ _ hi .alone
  case some policy =>
    by_cases hm : policy.maxBatchSize ≤ 1
    case pos => simpa [hm] using hq _ _ hi .alone
    simp only [hm, if_false, wp_bind, RoleM.wp_perform_alone, andThen_ok, wp_ofExcept]
    intro now s' hs
    replace hi := hI s now s' hi hs
    have hscan (scanned)
      (hs : scanBatch config table head policy (queue.iterReady now) (.start head policy) = scanned) :
        Scanned config table head queue policy scanned := ⟨hp, Nat.not_le.mp hm, now, hs⟩
    cases hs : scanBatch config table head policy (queue.iterReady now) _
    case error => exact hq _ _ hi (.failed (hscan _ hs))
    case ok scan =>
      replace hscan := hscan _ hs
      rw [andThen_ok]
      split
      case isTrue =>
        split
        case isTrue => exact hq _ _ hi .alone
        case isFalse =>
          refine wp_bind.mpr <| wp_batchWaitExpired hI hi fun b s hi => ?_
          cases b
          case true => exact hq _ _ hi .alone
          case false => exact hq _ _ hi .wait
      case isFalse hl =>
        split
        case isTrue hx => exact hq _ _ hi (.batch hscan hl (by simp [hx]))
        case isFalse hx =>
          split
          case isTrue => exact hq _ _ hi (.batch hscan hl (by simp [hx]))
          case isFalse =>
            refine wp_bind.mpr <| wp_batchWaitExpired hI hi fun b s hi => ?_
            cases b
            case true => exact hq _ _ hi (.batch hscan hl (by simp [hx]))
            case false => exact hq _ _ hi .wait

theorem formed_of_createBatchRequest
    (h : (createBatchRequest config table queue head).Ends M t s (.ok (some (.batch request))) t' s') :
    Formed config table queue head request := by
  have hw : (createBatchRequest config table queue head).wp (.alone M)
      (fun x _ _ => ∀ request, x = .ok (some (.batch request)) → Formed config table queue head request) t s := by
    refine wp_createBatchRequest_outcome (I := fun _ => True) (fun _ _ _ h _ => h) trivial ?_
    intro x s _ ho request hx
    subst hx
    cases ho
    case batch hs hl hf =>
      have ⟨now, hscan⟩ := hs.scan
      exact formed_of_scanBatch queue now _ hs.own hs.many hscan hl hf
  exact wp_alone_iff.mp hw _ _ _ h request rfl

end Request

-- Two requests of the same kind, and a worker with room for both.
def pairRequest (runId : String) : QueuedRequest where
  msg := ⟨runId, "stream:schedule", "scheduler", runId, .encode (.object []), "schedule"⟩
  payload := { runId, workflow := "forecast", resourceProfile := some ⟨some 1, some 1024, some "gpu", none⟩ }
  enqueuedAt := 0

def pairQueue : PriorityQueue QueuedRequest :=
  ⟨[{ item := pairRequest "1" }, { item := pairRequest "2" }], fromMillis 100⟩

def pairConfig : SchedulerRoleConfig where
  batchingEnabled := true
  maxBatchSize := 2
  maxBatchWaitMs := 50

def pairTable : ResourceReservationTable where
  resourceMap := ⟨[⟨0, "stream:gpu", 4096, 0, some "gpu", [], [], none, none⟩], by decide⟩
  memoryUtilizationPercent := 80
  rrCursor := 0
  knownProfiles := []

def anyReply : Machine Op Unit :=
  fun _ _ _ _ => True

theorem formed_pair : ∃ request : BatchRequest, Formed pairConfig pairTable pairQueue (pairRequest "1") request ∧
    request.candidates.map (·.queued) = [pairRequest "1", pairRequest "2"] ∧ request.flushReason = .maxBatchSize := by
  have h :
      ∃ request : BatchRequest, (createBatchRequest pairConfig pairTable pairQueue (pairRequest "1")).Ends anyReply ()
      () (.ok (some (.batch request))) () () ∧
      request.candidates.map (·.queued) = [pairRequest "1", pairRequest "2"] ∧ request.flushReason = .maxBatchSize :=
    ⟨_, .call (r := 0) trivial .ret, rfl, rfl⟩
  have ⟨request, he, hc, hf⟩ := h
  exact ⟨request, formed_of_createBatchRequest he, hc, hf⟩

end Scheduler
