import ServeModel.Scheduler.Role
import ServeModel.Scheduler.Theorems.Batch

namespace Scheduler

open Routine

-- The stores as one scheduler sees them while it looks for its next request: they answer, and what they
-- hold does not change. Time passes between any two looks at the clock.
structure StoreWorld where
  now : Instant
  active : Nat → Option Nat
  terminal : String → Bool

namespace StoreWorld

def activeMany (w : StoreWorld) (ids : List Nat) : List (Nat × Nat) :=
  ids.filterMap fun id => (w.active id).map (id, ·)

def parentTerminal (w : StoreWorld) (payload : SchedulePayload) : Bool :=
  (payload.parentRunId.bind Text.nonBlank).any fun parent => w.terminal (terminalKey parent)

def view (w : StoreWorld) (table : ResourceReservationTable) : ResourceAvailabilityView where
  resources := table.resources
  activeReservedMemoryMb := w.activeMany (table.resources.map (·.resourceId))
  memoryUtilizationPercent := table.memoryUtilizationPercent
  knownProfiles := table.knownProfiles

end StoreWorld

def steady : Machine Op StoreWorld
  | _, .instantNow, w, now, w' => w.now ≤ now ∧ w' = { w with now }
  | _, .hmgetActive ids, w, r, w' => r = .ok (w.activeMany ids) ∧ w' = w
  | _, .isTerminal key, w, r, w' => r = .ok (w.terminal key) ∧ w' = w
  | _, _, w, _, w' => w' = w

theorem steady_total : Machine.Total steady := by
  intro ρ op w
  have ⟨r⟩ := op.reply_nonempty
  cases op
  case instantNow => exact ⟨w.now, w, le_refl _, rfl⟩
  case hmgetActive | isTerminal => exact ⟨_, w, rfl, rfl⟩
  all_goals exact ⟨r, w, rfl⟩

section Steady

variable {τ α : Type}

@[simp]
theorem wp_steady_instantNow :
    wp (.alone steady) (RoleM.perform .instantNow) Q t w ↔
      ∀ now, w.now ≤ now → Q (.ok now) t { w with now } := by
  simp [RoleM.wp_perform_alone, steady]

@[simp]
theorem wp_steady_getActiveMany :
    wp (.alone steady) (getActiveMany ids) Q t w ↔ Q (.ok (w.activeMany ids)) t w := by
  simp [getActiveMany, RoleM.wp_perform_alone, steady]

@[simp]
theorem wp_steady_isTerminal :
    wp (.alone steady) (isTerminal parent) Q t w ↔ Q (.ok (w.terminal (terminalKey parent))) t w := by
  simp [isTerminal, RoleM.wp_perform_alone, steady]

@[simp]
theorem wp_steady_terminalParentId :
    wp (.alone steady) (terminalParentId payload) Q t w ↔
      Q (.ok (if w.parentTerminal payload then payload.parentRunId.bind Text.nonBlank else none)) t w := by
  unfold terminalParentId StoreWorld.parentTerminal
  cases payload.parentRunId.bind Text.nonBlank <;> simp [Except.map]

end Steady

section Head

variable {role : SchedulerRole} {t : RoleState} {w : StoreWorld}

-- Every group of requests that batch formation tries with this head can be combined.
def BatchSafe (config : SchedulerRoleConfig) (table : ResourceReservationTable) (head : QueuedRequest)
    (ready : List QueuedRequest) : Prop :=
  ∀ policy, batchPolicyForPayload config table head.payload = some policy → 1 < policy.maxBatchSize →
    ∀ group ∈ triedGroups table head policy [⟨head, policy⟩] policy.maxBatchSize
      (partners config table head policy [head.msg.runId] ready), Combinable group

-- The first candidate that is not blocked, and the blocked ones that are passed over on the way to it. A
-- blocked candidate of a terminal parent is taken as it is, without forming a batch.
def firstUnblocked (terminal : SchedulePayload → Bool) :
    List QueueSelection → Option (List Message × QueuedRequest)
  | [] => none
  | selection :: rest =>
    if selection.status ≠ .temporarilyBlocked then some ([], selection.request)
    else if terminal selection.request.payload then none
    else (firstUnblocked terminal rest).map fun (passed, head) => (selection.request.msg :: passed, head)

def deferAll (now : Instant) (ms : List Message) (queue : PriorityQueue QueuedRequest) :
    PriorityQueue QueuedRequest :=
  ms.foldl (fun queue m => queue.defer now fun queued => queueKey queued.msg = queueKey m) queue

theorem createBatchRequest_ok_iff (config : SchedulerRoleConfig) (table : ResourceReservationTable)
    (queue : PriorityQueue QueuedRequest) (head : QueuedRequest) :
    wp (.alone steady) (createBatchRequest config table queue head) (fun x _ _ => ∃ r, x = .ok r) u w ↔
      ∀ later, w.now ≤ later → BatchSafe config table head (queue.iterReady later) := by
  unfold createBatchRequest BatchSafe
  cases hp : batchPolicyForPayload config table head.payload
  case none => simp
  case some policy =>
    by_cases hm : policy.maxBatchSize ≤ 1
    case pos => simp [hm, Nat.not_lt.mpr hm]
    case neg =>
      simp only [hm, if_false, wp_bind, wp_steady_instantNow, andThen_ok, wp_ofExcept,
        Option.some.injEq, forall_eq', Nat.not_le.mp hm, forall_const]
      refine forall_congr' fun later => forall_congr' fun _ => ?_
      rw [← scanBatch_ok_iff config table head policy (queue.iterReady later)
        { candidates            := [⟨head, policy⟩]
          effectiveMaxBatchSize := policy.maxBatchSize
          seenRunIds := [head.msg.runId] } ⟨[], rfl⟩]
      -- once the scan has succeeded, nothing else can fail
      cases scanBatch config table head policy (queue.iterReady later) _
      case error => simp
      case ok scan =>
        simp only [andThen_ok, Except.ok.injEq, exists_eq', iff_true]
        split_ifs
        case pos => simp
        case neg =>
          refine wp_bind.mpr <| wp_batchWaitExpired (I := fun _ => True) (by simp) trivial fun b _ _ => ?_
          cases b <;> simp
        case pos => simp
        case pos => simp
        case neg =>
          refine wp_bind.mpr <| wp_batchWaitExpired (I := fun _ => True) (by simp) trivial fun b _ _ => ?_
          cases b <;> simp

theorem selectRequest_ok_iff :
    wp (.alone steady) (selectRequest role now candidates) (fun x _ _ => ∃ r, x = .ok r) t w ↔
      ∀ passed head, firstUnblocked w.parentTerminal candidates = some (passed, head) → ∀ later, w.now ≤ later →
        BatchSafe role.config t.reservations head
          ((deferAll now passed t.queueState.queue).iterReady later) := by
  induction candidates generalizing t
  case nil => simp [selectRequest, firstUnblocked]
  case cons selection rest hi =>
    by_cases hb : selection.status = .temporarilyBlocked
    case neg =>
      simp only [selectRequest, firstUnblocked, hb, if_false, ne_eq, not_false_eq_true, if_true,
        wp_bind, wp_get, andThen_ok, Option.some.injEq, Prod.mk.injEq]
      refine (wp_congr fun x _ _ => ?_).trans ((createBatchRequest_ok_iff _ _ _ _).trans ?_)
      · rcases x with _ | (_ | _) <;> simp
      · simp [deferAll]
    case pos =>
      by_cases ht : w.parentTerminal selection.request.payload
      case pos =>
        have hs : (selection.request.payload.parentRunId.bind Text.nonBlank).isSome := by
          rw [StoreWorld.parentTerminal] at ht
          cases h : selection.request.payload.parentRunId.bind Text.nonBlank <;> simp_all
        simp [selectRequest, firstUnblocked, hb, ht, hs]
      case neg =>
        simp only [selectRequest, firstUnblocked, hb, if_true, ne_eq, not_true, if_false, ht,
          wp_bind, wp_steady_terminalParentId, andThen_ok, Option.isSome_none, deferRequest,
          Bool.false_eq_true, wp_modify]
        rw [hi]
        rcases firstUnblocked w.parentTerminal rest with _ | ⟨passed, head⟩ <;> simp [deferAll, RoleState.mapQueue]

theorem iterReady_of_not_hasReadyCandidate {queue : PriorityQueue QueuedRequest}
    (h : queue.hasReadyCandidate now = false) : queue.iterReady now = [] := by
  simp only [PriorityQueue.hasReadyCandidate, List.any_eq_false] at h
  simp only [PriorityQueue.iterReady, List.map_eq_nil_iff, List.filter_eq_nil_iff]
  exact h

-- With stores that answer, looking for the next request succeeds on every run of the clock exactly if
-- every group is combinable that batch formation tries with the head that is selected.
theorem nextRequest_ok_iff :
    (nextRequest role).Returns steady t w (fun x _ _ => ∃ request, x = .ok request) ↔
      ∀ now, w.now ≤ now → ∀ passed head,
        firstUnblocked w.parentTerminal
            (rankReadyCandidates role.score (w.view t.reservations) now t.queueState.queue) =
          some (passed, head) →
        ∀ later, now ≤ later → BatchSafe role.config t.reservations head
          ((deferAll now passed (t.queueState.queue.clearExpired now)).iterReady later) := by
  rw [returns_iff_wp steady_total]
  simp only [nextRequest, wp_bind, wp_steady_instantNow, andThen_ok, wp_get]
  refine forall_congr' fun now => forall_congr' fun _ => ?_
  cases hr : t.queueState.queue.hasReadyCandidate now
  case false =>
    simp [iterReady_of_not_hasReadyCandidate hr, rankReadyCandidates, firstUnblocked]
  case true =>
    simp only [Bool.not_true, Bool.false_eq_true, if_false, wp_bind, onReservations,
      wp_zoom, ResourceReservationTable.resourceAvailabilitySnapshot, wp_get,
      andThen_ok, wp_steady_getActiveMany, wp_pure, wp_modify, selectRequest_ok_iff]
    rfl

end Head

section Overflow

-- A request for half of what the sum of a batch can hold.
def largeFields : Json :=
  .object [("workflow", .str "forecast"), ("resource_profile", .object [
    ("gpus_required", .nat 1), ("memory_mb", .nat (2 ^ 63)), ("executor_class", .str "gpu")])]

def largePayload (runId : String) : SchedulePayload where
  runId := runId
  workflow := "forecast"
  rawPayload := largeFields
  resourceProfile := some ⟨some 1, some (2 ^ 63), some "gpu", none⟩

def largeRequest (runId : String) : QueuedRequest where
  msg := ⟨runId, "stream:schedule", "scheduler", runId, .encode largeFields, "schedule"⟩
  payload := largePayload runId
  enqueuedAt := 0

def batchingRole : SchedulerRole where
  streamPrefix := "stream:"
  scheduleStream := "schedule"
  releaseStream := "release"
  retryDlqPolicy := ⟨3, "dlq", Nat.succ_pos 2⟩
  config := { batchingEnabled := true, maxBatchSize := 8, maxBatchWaitMs := 50 }
  score _ _ _ := 0

def queueing (requests : List QueuedRequest) : RoleState where
  reservations := ⟨⟨[], by decide⟩, 80, 0, []⟩
  queueState := ⟨⟨requests.map ({ item := · }), fromMillis 100⟩,
                      (requests.map (queueKey ·.msg)).toFinset⟩
  requestFailures := fun _ => 0

set_option maxRecDepth 10000 in
-- The tick leaves the queue as it was, so that the next one fails in the same way.
theorem nextRequest_batch_overflow :
    (∀ e ∈ [largeRequest "1", largeRequest "2"],
      decodeSchedulePayload e.msg.payload e.msg.runId = .ok e.payload) ∧
    (nextRequest batchingRole).Ends steady (queueing [largeRequest "1", largeRequest "2"])
      ⟨0, fun _ => none, fun _ => false⟩
      (.error <| .msg
        "scheduler: batch memory_mb overflow while summing resource profile memory_mb=9223372036854775808")
      (queueing [largeRequest "1", largeRequest "2"]) ⟨0, fun _ => none, fun _ => false⟩ := by
  constructor
  case left =>
    rw [List.forall_mem_cons, List.forall_mem_singleton]
    exact ⟨by rfl, by rfl⟩
  case right =>
    refine .call (r := 0) ⟨le_refl _, rfl⟩ ?_
    refine .call (r := .ok []) ⟨rfl, rfl⟩ ?_
    refine .call (r := 0) ⟨le_refl _, rfl⟩ ?_
    exact .ret

end Overflow

end Scheduler
