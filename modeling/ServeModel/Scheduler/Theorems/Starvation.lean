import ServeModel.Scheduler.Tick
import ServeModel.Scheduler.Theorems.NextRequest
import ServeModel.Scheduler.Theorems.Settlement
import Mathlib.Algebra.Order.BigOperators.Group.Finset

-- A request whose dispatch keeps failing leaves the queue after some retries, if the dead letter queue takes it.
namespace Scheduler

open Routine List RoleState PriorityQueue
open Queue (decimalServer)

section Ready

def QueueEntry.key (entry : QueueEntry QueuedRequest) : String :=
  queueKey entry.item.msg

namespace RoleState

variable {t : RoleState} {now : Instant}

def entryKeys (p : QueueEntry QueuedRequest → Bool) (t : RoleState) : Finset String :=
  ((t.queueState.queue.entries.filter p).map QueueEntry.key).toFinset

-- The requests that are not deferred.
def readyKeys (t : RoleState) : Finset String :=
  t.entryKeys (·.deferredUntil.isNone)

-- The requests that a tick at this time looks at.
def dueKeys (now : Instant) (t : RoleState) : Finset String :=
  t.entryKeys (·.isReady now)

theorem mem_entryKeys {p : QueueEntry QueuedRequest → Bool} :
    key ∈ t.entryKeys p ↔ ∃ entry ∈ t.queueState.queue.entries, p entry ∧ entry.key = key := by
  simp [entryKeys, and_assoc]

theorem readyKeys_subset_dueKeys : t.readyKeys ⊆ t.dueKeys now := by
  intro key h
  have ⟨entry, he, hp, hk⟩ := mem_entryKeys.mp h
  refine mem_entryKeys.mpr ⟨entry, he, ?_, hk⟩
  simp [QueueEntry.isReady, Option.isNone_iff_eq_none.mp hp]

theorem mem_keys_of_mem_entryKeys {p : QueueEntry QueuedRequest → Bool} (h : key ∈ t.entryKeys p) :
    key ∈ t.queueState.keys := by
  have ⟨entry, he, _, hk⟩ := mem_entryKeys.mp h
  exact mem_map.mpr ⟨entry.item, mem_map_of_mem he, hk⟩

theorem mem_dueKeys_of_mem_iterReady {queued : QueuedRequest} (h : queued ∈ t.queueState.queue.iterReady now) :
    queueKey queued.msg ∈ t.dueKeys now := by
  have ⟨entry, he, hq⟩ := mem_map.mp h
  have ⟨he, hr⟩ := mem_filter.mp he
  exact mem_entryKeys.mpr ⟨entry, he, hr, by rw [QueueEntry.key, hq]⟩

theorem exists_mem_iterReady (h : key ∈ t.dueKeys now) :
    ∃ queued ∈ t.queueState.queue.iterReady now, queueKey queued.msg = key := by
  have ⟨entry, he, hr, hk⟩ := mem_entryKeys.mp h
  exact ⟨entry.item, mem_map_of_mem (mem_filter.mpr ⟨he, hr⟩), hk⟩

theorem readyKeys_clearExpired :
    (t.mapQueue (PriorityQueue.clearExpired now)).readyKeys = t.dueKeys now := by
  ext key
  rw [readyKeys, dueKeys, mem_entryKeys, mem_entryKeys]
  simp only [mapQueue, PriorityQueue.clearExpired, mem_map, exists_exists_and_eq_and]
  apply exists_congr
  intro entry
  apply and_congr_right
  intro _
  cases hr : entry.isReady now
  case true => simp [QueueEntry.clear, QueueEntry.key]
  case false =>
    have hd : entry.deferredUntil ≠ none := fun hd => by simp [QueueEntry.isReady, hd] at hr
    simp [hd]

theorem deferFirst_mem {entries : List (QueueEntry QueuedRequest)} {entry : QueueEntry QueuedRequest}
    {deadline : Instant} (hn : (entries.map QueueEntry.key).Nodup)
    (h : entry ∈ PriorityQueue.deferFirst deadline (fun queued => queueKey queued.msg = key) entries)
    (hd : entry.deferredUntil = none) : entry ∈ entries ∧ entry.key ≠ key := by
  induction entries
  case nil => cases h
  case cons first rest hi =>
    have ⟨hf, hn⟩ := nodup_cons.mp hn
    simp only [PriorityQueue.deferFirst, decide_eq_true_eq] at h
    split at h
    case isTrue hk =>
      cases mem_cons.mp h
      case inl h => subst h; cases hd
      case inr h =>
        refine ⟨mem_cons_of_mem _ h, fun he => hf ?_⟩
        exact mem_map.mpr ⟨entry, h, he.trans hk.symm⟩
    case isFalse hk =>
      cases mem_cons.mp h
      case inl h => exact h ▸ ⟨mem_cons_self, h ▸ hk⟩
      case inr h => exact (hi hn h).imp_left (mem_cons_of_mem _)

theorem nodup_entries (hn : t.queueState.keys.Nodup) : (t.queueState.queue.entries.map QueueEntry.key).Nodup := by
  rw [SchedulerQueueState.keys, PriorityQueue.items, map_map] at hn
  exact hn

-- A deferred request is not ready, and no other one becomes ready.
theorem readyKeys_defer (hn : t.queueState.keys.Nodup) (m : Message)
    (h : key ∈ (t.mapQueue (PriorityQueue.defer now fun queued => queueKey queued.msg = queueKey m)).readyKeys) :
    key ∈ t.readyKeys ∧ key ≠ queueKey m := by
  have ⟨entry, he, hd, hk⟩ := mem_entryKeys.mp h
  have ⟨hm, hne⟩ := deferFirst_mem (nodup_entries hn) he (Option.isNone_iff_eq_none.mp hd)
  exact ⟨mem_entryKeys.mpr ⟨entry, hm, hd, hk⟩, hk ▸ hne⟩

end RoleState

end Ready

section Head

-- The queue holds the same requests as before, and only some of them are ready.
structure Kept (t : RoleState) (ready : Finset String) (t' : RoleState) : Prop where
  items : t'.queueState.queue.items = t.queueState.queue.items
  ids : t'.queueState.pendingIds = t.queueState.pendingIds
  failures : t'.requestFailures = t.requestFailures
  ready : t'.readyKeys ⊆ ready

variable {t t₀ : RoleState} {ready : Finset String}

namespace Kept

theorem keys (h : Kept t₀ ready t) : t.queueState.keys = t₀.queueState.keys := by
  rw [SchedulerQueueState.keys, h.items]
  rfl

theorem defer (h : Kept t₀ ready t) (hn : t₀.queueState.keys.Nodup) (m : Message) :
    Kept t₀ (ready.erase (queueKey m))
      (t.mapQueue (PriorityQueue.defer now fun queued => queueKey queued.msg = queueKey m)) where
  items := items_defer.trans h.items
  ids := h.ids
  failures := h.failures
  ready := by
    intro key hk
    have ⟨hr, hne⟩ := readyKeys_defer (h.keys ▸ hn) m hk
    exact Finset.mem_erase.mpr ⟨hne, h.ready hr⟩

theorem mono {ready' : Finset String} (h : Kept t₀ ready t) (hs : ready ⊆ ready') : Kept t₀ ready' t :=
  { h with ready := h.ready.trans hs }

theorem unreserved : Unreserved (Kept t₀ ready) :=
  fun _ _ h => ⟨h.items, h.ids, h.failures, h.ready⟩

end Kept

-- The choice of a head does not look at the reservations of the role.
def Choosing (t₀ : RoleState) (ready : Finset String) (t : RoleState) : Prop :=
  Kept t₀ ready t ∧ t.reservations = t₀.reservations

theorem wp_selectHead (hn : t₀.queueState.keys.Nodup) (candidates : List QueueSelection)
    (h : Quiet (Choosing t₀ ready) w₀ t w) :
    wp (.alone sink) (selectHead now candidates)
      (fun x t w => Quiet (Choosing t₀ ready) w₀ t w ∧ Yields (fun found => (∀ s ∈ found, s ∈ candidates) ∧
        (found = none → ∀ s ∈ candidates, queueKey s.request.msg ∉ t.readyKeys)) x) t w := by
  induction candidates generalizing t w ready
  case nil =>
    have hnone : (∀ s ∈ (none : Option QueueSelection), s ∈ []) ∧ ((none : Option QueueSelection) = none →
        ∀ s ∈ ([] : List QueueSelection), queueKey s.request.msg ∉ t.readyKeys) := by simp
    exact ⟨h, hnone⟩
  case cons selection rest hi =>
    have hfound : ∀ {t : RoleState}, (∀ s ∈ some selection, s ∈ selection :: rest) ∧ (some selection = none →
        ∀ s ∈ selection :: rest, queueKey s.request.msg ∉ t.readyKeys) :=
      ⟨by simp, fun hs => nomatch hs⟩
    simp only [selectHead, wp_ite]
    split
    case isFalse => exact ⟨h, hfound⟩
    case isTrue =>
      apply (terminalParentId_silent _).seq h fun _ _ _ h => ⟨h, trivial⟩
      intro parent t w h
      cases parent
      case some => exact ⟨h, hfound⟩
      case none =>
        simp only [Option.isSome_none, Bool.false_eq_true, if_false, deferRequest, wp_bind,
          wp_modify, andThen_ok]
        have ⟨⟨hk, ht⟩, hw⟩ := h
        apply wp_mono ?_ (hi ⟨⟨hk.defer hn selection.request.msg, ht⟩, hw⟩)
        intro x t w ⟨⟨⟨hk, ht⟩, hw⟩, hx⟩
        refine ⟨⟨⟨hk.mono (Finset.erase_subset _ _), ht⟩, hw⟩, ?_⟩
        cases x
        case error => trivial
        case ok found =>
          refine ⟨fun s hs => mem_cons_of_mem _ (hx.left s hs), fun hnone => forall_mem_cons.mpr ⟨?_, hx.right hnone⟩⟩
          exact fun hr => (Finset.mem_erase.mp (hk.ready hr)).left rfl

theorem wp_snapshot (P : RoleState → Prop) (h : Quiet P w₀ t w) :
    wp (.alone sink) (onReservations ResourceReservationTable.resourceAvailabilitySnapshot)
      (fun _ t w => Quiet P w₀ t w) t w := by
  obtain ⟨hp, hw⟩ := h
  apply wp_zoom.mpr
  simp only [ResourceReservationTable.resourceAvailabilitySnapshot, wp_bind, wp_get,
    andThen_ok]
  apply (getActiveMany_silent _ (· = t.reservations) w₀).wp ⟨rfl, hw⟩
  rintro x table w ⟨ht, hw⟩
  subst ht
  cases x
  case error | ok => exact ⟨hp, hw⟩

-- A head is a request that is due; without one nothing is ready any more.
theorem wp_nextHead (hn : t.queueState.keys.Nodup) :
    wp (.alone sink) (nextHead role now)
      (fun x t' w' => Quiet (Choosing t (t.dueKeys now)) w t' w' ∧ Yields (fun found =>
        (∀ s ∈ found, s.request ∈ t.queueState.queue.iterReady now) ∧ (found = none → t'.readyKeys = ∅)) x) t w := by
  simp only [nextHead, wp_bind, wp_get, andThen_ok, wp_ite]
  have h : Quiet (Choosing t (t.dueKeys now)) w t w :=
    ⟨⟨⟨rfl, rfl, rfl, readyKeys_subset_dueKeys⟩, rfl⟩, rfl, fun _ h => h⟩
  split
  case isTrue hr =>
    refine ⟨h, fun _ hs => (by cases hs), fun _ => Finset.eq_empty_of_forall_notMem fun key hk => ?_⟩
    obtain ⟨entry, he, hd, _⟩ := mem_entryKeys.mp (@readyKeys_subset_dueKeys t now _ hk)
    have hr : t.queueState.queue.hasReadyCandidate now = false := by simpa using hr
    simp only [PriorityQueue.hasReadyCandidate, any_eq_false] at hr
    exact hr entry he hd
  case isFalse =>
    have hs : Quiet (· = t) w t w := ⟨rfl, rfl, fun _ h => h⟩
    apply wp_mono ?_ (wp_snapshot _ hs)
    rintro x t' w' ⟨ht, hw⟩
    subst ht
    cases x
    case error => exact ⟨⟨h.left, hw⟩, trivial⟩
    case ok view =>
      simp only [andThen_ok, wp_bind, wp_get, wp_modify]
      have hc : Quiet (Choosing t' (t'.dueKeys now)) w (t'.mapQueue (PriorityQueue.clearExpired now)) w' := by
        refine ⟨⟨⟨items_clearExpired, rfl, rfl, ?_⟩, rfl⟩, hw⟩
        rw [readyKeys_clearExpired]
      apply wp_mono ?_ (wp_selectHead hn _ hc)
      rintro x t w ⟨h, hx⟩
      refine ⟨h, ?_⟩
      cases x
      case error => trivial
      case ok found =>
        refine ⟨fun s hs => (mem_rankReadyCandidates.mp (hx.left s hs)).left, fun hnone => ?_⟩
        apply Finset.eq_empty_of_forall_notMem
        intro key hk
        obtain ⟨queued, hq, he⟩ := exists_mem_iterReady (h.left.left.ready hk)
        have hm : (⟨queued, view.evaluateCandidateStatus queued.payload⟩ : QueueSelection) ∈
            rankReadyCandidates role.score view now t'.queueState.queue := mem_rankReadyCandidates.mpr ⟨hq, rfl⟩
        exact hx.right hnone _ hm (he ▸ hk)

end Head

section Form

variable {head : QueuedRequest} {role : SchedulerRole} {t : RoleState}

-- The memory of no batch of queued requests overflows.
def RoleState.Formable (role : SchedulerRole) (t : RoleState) : Prop :=
  ∀ head ∈ t.queueState.queue.items, ∀ ready, ready.Sublist t.queueState.queue.items →
    BatchSafe role.config t.reservations head ready

def SchedulerRequest.HasHead (head : QueuedRequest) : SchedulerRequest → Prop
  | .empty => False
  | .wait queued | .single queued => queued = head
  | .batch request => request.head = head

theorem wp_createBatchRequest_head {t : τ} (h : ∀ now, BatchSafe config table head (queue.iterReady now)) :
    wp (.alone sink) (createBatchRequest config table queue head)
      (fun x _ _ => ∃ found, x = .ok found ∧ ∀ r ∈ found, r.HasHead head) t w := by
  refine wp_createBatchRequest_outcome (I := fun _ => True) (fun _ _ _ h _ => h) trivial ?_
  intro x w _ ho
  cases ho
  case alone => exact ⟨none, rfl, by simp⟩
  case wait | batch => exact ⟨_, rfl, fun _ hr => by cases hr; rfl⟩
  case failed policy e hs =>
    have ⟨hp, hm, now, hs⟩ := hs
    obtain ⟨scan, hok⟩ := (scanBatch_ok_iff config table head policy (queue.iterReady now) (.start head policy)
      ⟨[], rfl⟩).mpr (h now policy hp hm)
    cases hs.symm.trans hok

theorem wp_formRequest {selection : QueueSelection} (hm : selection.request ∈ t.queueState.queue.items)
    (hs : ∀ now, BatchSafe role.config t.reservations selection.request (t.queueState.queue.iterReady now))
    (h : Quiet (· = t) w₀ t w) :
    wp (.alone sink) (formRequest role selection) (fun x t' w' => Quiet (· = t) w₀ t' w' ∧
      ∃ request, x = .ok request ∧ request.HasHead selection.request ∧
        request.FormedOf t.queueState.queue.items) t w := by
  have hsingle : ∃ request, (Except.ok (.single selection.request) : Except Failure SchedulerRequest) = .ok request ∧
      request.HasHead selection.request ∧ request.FormedOf t.queueState.queue.items := ⟨_, rfl, rfl, hm⟩
  simp only [formRequest, wp_ite]
  split
  case isTrue => exact ⟨h, hsingle⟩
  case isFalse =>
    simp only [wp_bind, wp_get, andThen_ok]
    apply wp_mono ?_ (wp_alone_and (wp_createBatchRequest hm h) (wp_createBatchRequest_head hs))
    rintro x t' w' ⟨⟨h, hf⟩, found, hx, hh⟩
    subst hx
    cases found
    case none => exact ⟨h, hsingle⟩
    case some request => exact ⟨h, request, rfl, hh request rfl, hf request rfl⟩

theorem wp_pendingSchedule_head {t : τ} {request : SchedulerRequest} (h : request.HasHead head) :
    wp (.alone sink) (pendingSchedule request)
      (fun x _ _ => ∃ found, x = .ok found ∧ ∀ y ∈ found, y.1 = head) t w := by
  cases request
  case empty => exact h.elim
  case wait => exact ⟨none, rfl, fun _ hy => nomatch hy⟩
  case single => exact ⟨_, rfl, fun _ hy => by cases hy; exact h⟩
  case batch request =>
    simp only [pendingSchedule, wp_bind, wp_observe]
    apply wp_alone_iff.mpr
    intro x t w _
    exact ⟨_, rfl, fun _ hy => by cases hy; exact h⟩

end Form

section Settle

variable {srv : Redis.Server} {role : SchedulerRole} {queued : QueuedRequest} {t t₀ : RoleState}
  {ready : Finset String}

-- The handoff of a request that has failed too often.
def deadLetter (role : SchedulerRole) (queued : QueuedRequest) (error : String) (attempts : Nat) : SinkOp :=
  let m := queued.msg
  let dlqStream := role.retryDlqPolicy.dlqStream
  let dlqPayload := buildDlqPayload m role.scheduleStream error attempts
  match failedChildEnvelope queued.payload.rawPayload error with
  | some envelope => .forward [m] [
      { stream := gatherQueue, payload := envelope, runId := some m.runId, stage := some "collect" },
      { stream := dlqStream, payload := dlqPayload, runId := some m.runId, stage := some "dlq" }]
  | none => .handoff m dlqStream dlqPayload "dlq"

-- What Redis must be like to take a message that is handed on.
def SinkOp.Deliverable (srv : Redis.Server) (streamPrefix : String) (db : Redis.Db) : SinkOp → Prop
  | ack _ => True
  | handoff m stream payload stage =>
    let request : Queue.HandoffRequest := {
      currentStream := m.stream, nextStream := streamPrefix ++ stream, group := m.group, runId := m.runId
      payloadJson := payload.text, currentMsgId := m.id, nextStage := stage }
    Queue.validateMessageContext m = .ok () ∧ request.new = .ok request ∧ request.Accepted srv db
  | forward [] _ => False
  | forward (m :: rest) outputs =>
    Queue.ForwardAccepted srv m rest (outputs.map fun o => { o with stream := streamPrefix ++ o.stream }) db

theorem SinkOp.Deliverable.succeeds {streamPrefix : String} {db : Redis.Db} {op : SinkOp}
    (h : op.Deliverable srv streamPrefix db) : op.Succeeds srv streamPrefix db := by
  intro script hs
  cases op
  case ack => cases hs
  case handoff =>
    cases hs
    have ⟨hm, hn, ha⟩ := h
    have ⟨i, db', hr⟩ := Queue.evalHandoff_accepted ha
    rw [Queue.handoffMessageToRun_valid hm hn, Queue.single_ok hr]
    rfl
  case forward sources outputs =>
    cases hs
    cases sources
    case nil => exact h.elim
    case cons =>
      have ⟨_, _, hr⟩ := Queue.forwardManyFrom_accepted h
      rw [hr]
      rfl

-- Every handoff to the dead letter queue meets a database that takes it.
def DeadLettersTaken (srv : Redis.Server) (role : SchedulerRole) (met : List (SinkOp × Redis.Db)) : Prop :=
  ∀ queued error attempts db, (deadLetter role queued error attempts, db) ∈ met →
    (deadLetter role queued error attempts).Deliverable srv role.streamPrefix db

structure Treated (role : SchedulerRole) (ready : Finset String) (head : QueuedRequest) (failed : Bool)
    (t t' : RoleState) : Prop where
  ready : t'.readyKeys ⊆ ready
  failures : ∀ key ∈ t'.queueState.keys, (key = queueKey head.msg → failed = false) →
    t'.requestFailures key = t.requestFailures key
  -- a request that was dispatched, dropped or blocked is not ready
  left : failed = false → queueKey head.msg ∉ t'.readyKeys
  -- a request that failed is counted, unless it has gone
  retried : failed = true → queueKey head.msg ∈ t'.queueState.keys →
    t'.requestFailures (queueKey head.msg) = min (t.requestFailures (queueKey head.msg) + 1) (2 ^ 64 - 1) ∧
      t'.requestFailures (queueKey head.msg) < role.retryDlqPolicy.maxRetries

theorem handOffToDlq_eq {error : String} {attempts : Nat} {Q : Except Failure (Except Failure Unit) → RoleState →
    BrokerWorld → Prop} : wp (.alone (broker srv role.streamPrefix)) (handOffToDlq role queued error attempts) Q t w ↔
      ∀ r w', w.Calls srv role.streamPrefix (deadLetter role queued error attempts) r w' → Q (.ok r) t w' := by
  simp only [handOffToDlq, deadLetter]
  cases failedChildEnvelope queued.payload.rawPayload error
  case none | some => exact RoleM.wp_perform_alone

theorem wp_markRequestsFailed_met (runIds : List String) (h : y ∈ w.met) :
    wp (.alone (broker srv role.streamPrefix)) (markRequestsFailed runIds)
      (fun x t' w' => x = .ok () ∧ t' = t ∧ y ∈ w'.met) t w := by
  induction runIds generalizing w
  case nil => exact ⟨rfl, rfl, h⟩
  case cons hi =>
    simp only [markRequestsFailed, wp_bind, RoleM.wp_perform_alone]
    rintro r w' ⟨_, _, hm⟩
    exact hi (hm ▸ h)

def RoleState.finished (ms : List Message) (t : RoleState) : RoleState :=
  { t.clearFailures ms with queueState := {
      queue := t.queueState.queue.retain fun queued => queueKey queued.msg ∉ ms.map queueKey
      pendingIds := t.queueState.pendingIds.filter (· ∉ ms.map queueKey) } }

theorem RoleState.not_mem_keys_finished {ms : List Message} {key : String} (h : key ∈ ms.map queueKey) :
    key ∉ (t.finished ms).queueState.keys := by
  intro hk
  have ⟨queued, hq, he⟩ := mem_map.mp hk
  rw [finished, items_retain] at hq
  exact of_decide_eq_true (mem_filter.mp hq).right (he ▸ h)

theorem RoleState.readyKeys_finished {ms : List Message} : (t.finished ms).readyKeys ⊆ t.readyKeys := by
  intro key h
  have ⟨entry, he, hd, hk⟩ := mem_entryKeys.mp h
  exact mem_entryKeys.mpr ⟨entry, (mem_filter.mp he).left, hd, hk⟩

theorem Treated.finished {failed : Bool} {ms : List Message} (hr : t.readyKeys ⊆ ready)
    (hf : ∀ key ∉ ms.map queueKey, t.requestFailures key = t₀.requestFailures key)
    (hk : queueKey queued.msg ∈ ms.map queueKey) : Treated role ready queued failed t₀ (t.finished ms) where
  ready := readyKeys_finished.trans hr
  failures := by
    intro key hm _
    have hn : key ∉ ms.map queueKey := fun hn => not_mem_keys_finished hn hm
    exact (if_neg hn).trans (hf key hn)
  left _ hr := not_mem_keys_finished hk (mem_keys_of_mem_entryKeys hr)
  retried _ hm := absurd hm (not_mem_keys_finished hk)

theorem wp_retryOrDlq_taken (h : Kept t₀ ready t) (e : Failure) :
    wp (.alone (broker srv role.streamPrefix)) (retryOrDlq role queued e)
      (fun x t' w' => x = .ok () ∧ (DeadLettersTaken srv role w'.met → Treated role ready queued true t₀ t')) t w := by
  simp only [retryOrDlq, wp_bind, wp_modify, andThen_ok, wp_get, wp_ite,
    handOffToDlq_eq]
  have hfail : (t.incrementFailures queued.msg).requestFailures (queueKey queued.msg) =
      min (t₀.requestFailures (queueKey queued.msg) + 1) (2 ^ 64 - 1) := by
    rw [← h.failures]
    exact Function.update_self _ _ _
  have hother : ∀ key, key ≠ queueKey queued.msg →
      (t.incrementFailures queued.msg).requestFailures key = t₀.requestFailures key := by
    intro key hne
    rw [← h.failures]
    exact Function.update_of_ne hne _ _
  split
  case isTrue hlt =>
    refine ⟨rfl, fun _ => ?_⟩
    constructor
    case ready => exact h.ready
    case failures => exact fun key _ hne => hother key fun he => by cases hne he
    case left => exact fun hf => by cases hf
    case retried => exact fun _ _ => ⟨hfail, hlt⟩
  case isFalse =>
    rintro r w' ⟨_, _, db, hr, hm⟩
    have hin : (deadLetter role queued e.text
        ((t.incrementFailures queued.msg).requestFailures (queueKey queued.msg)), db) ∈ w'.met := by
      simp [hm]
    cases r
    case error =>
      -- the database would have taken it
      exact ⟨rfl, fun ht => by cases hr.mpr (ht _ _ _ _ hin).succeeds⟩
    case ok =>
      apply wp_seq (wp_markRequestsFailed_met _ hin) fun _ _ _ hx => by cases hx.left
      rintro _ t' w' ⟨_, ht, _⟩
      subst ht
      refine ⟨rfl, fun _ => ?_⟩
      apply Treated.finished
      case hr => exact h.ready
      case hf => exact fun key hn => hother key (by simpa using hn)
      case hk => exact mem_singleton.mpr rfl

theorem wp_settleRequest_taken {outcome : Except Failure ScheduleAttemptOutcome} (hn : t₀.queueState.keys.Nodup)
    (h : Kept t₀ ready t) (hd : ∀ reserved, outcome = .ok (.dispatched reserved) →
      queueKey queued.msg ∈ (reserved.ackAfterDispatch ++ [reserved.sourceMsg]).map queueKey) :
    wp (.alone (broker srv role.streamPrefix)) (settleRequest role queued outcome)
      (fun x t' w' => x = .ok () ∧
        (DeadLettersTaken srv role w'.met → Treated role ready queued (!outcome.isOk) t₀ t')) t w := by
  cases outcome
  case error e => exact wp_retryOrDlq_taken h e
  case ok outcome =>
    cases outcome
    case blocked =>
      simp only [settleRequest, wp_bind, RoleM.wp_perform_alone]
      intro now w' _
      have hk := @Kept.defer t t₀ ready now h hn queued.msg
      refine ⟨rfl, fun _ => ?_⟩
      constructor
      case ready => exact hk.ready.trans (Finset.erase_subset _ _)
      case failures => exact fun key _ _ => congrFun hk.failures key
      case left => exact fun _ hr => (Finset.mem_erase.mp (hk.ready hr)).left rfl
      case retried => exact fun hf => by cases hf
    case dispatched reserved =>
      refine ⟨rfl, fun _ => ?_⟩
      apply Treated.finished
      case hr => exact h.ready
      case hf => exact fun key _ => congrFun h.failures key
      case hk => exact hd reserved rfl
    case dropped =>
      refine ⟨rfl, fun _ => ?_⟩
      apply Treated.finished
      case hr => exact h.ready
      case hf => exact fun key _ => congrFun h.failures key
      case hk => exact mem_singleton.mpr rfl

end Settle

section Tick

variable {role : SchedulerRole} {t t₀ : RoleState} {now : Instant}

-- How a tick that looked at the queue at this time leaves it.
def Ticks (role : SchedulerRole) (now : Instant) (t t' : RoleState) : Except Failure TickReport → Prop
  | .ok .idle => Kept t (t.dueKeys now) t' ∧ t'.readyKeys = ∅
  | .ok (.unformed ..) => False
  | .ok (.attempted head outcome) =>
    queueKey head.msg ∈ t.dueKeys now ∧ Treated role (t.dueKeys now) head (!outcome.isOk) t t'
  | .ok (.waiting _) | .error _ => Kept t (t.dueKeys now) t'

-- What is known of a sink also holds of the sink of a broker.
theorem wp_of_sink {α : Type} {m : RoleM RoleState α} {Q : Except Failure α → RoleState → SinkWorld → Prop}
    (h : wp (.alone sink) m Q t w.sink) :
    wp (.alone (broker srv role.streamPrefix)) m (fun x t w => Q x t w.sink) t w :=
  wp_simulate BrokerWorld.sink broker_sink h

theorem wp_reportRequest {head : QueuedRequest} {request : SchedulerRequest} (hn : t₀.queueState.keys.Nodup)
    (hd : ∀ q ∈ t₀.queueState.queue.items, q.Decoded) (hk : Kept t₀ (t₀.dueKeys now) t)
    (hdue : queueKey head.msg ∈ t₀.dueKeys now) (hh : request.HasHead head)
    (hf : request.FormedOf t₀.queueState.queue.items) :
    wp (.alone (broker srv role.streamPrefix)) (reportRequest role head request)
      (fun x t' w' => DeadLettersTaken srv role w'.met → Ticks role now t₀ t' x) t w := by
  have hq : Quiet (Kept t₀ (t₀.dueKeys now)) w.sink t w.sink := ⟨hk, rfl, fun _ h => h⟩
  apply wp_seq (wp_of_sink (wp_alone_and (wp_pendingSchedule hn hd hf hq) (wp_pendingSchedule_head hh)))
  case he =>
    rintro e t w ⟨_, _, hx, _⟩
    cases hx
  case hf =>
    rintro found t w ⟨⟨hq, hp⟩, _, hx, hy⟩
    cases hx
    cases found
    case none => exact fun _ => hq.left
    case some found =>
      obtain ⟨_, hp⟩ := hp found rfl
      have he := hy found rfl
      simp only [wp_bind, wp_observe]
      apply wp_mono ?_ (wp_of_sink (wp_attemptSchedule Kept.unreserved found.1 found.2 hq))
      rintro outcome t w ⟨hk, _, ha⟩
      simp only [andThen_ok, wp_bind]
      refine wp_mono ?_ (wp_settleRequest_taken hn hk ?_)
      · rintro x t' w' ⟨hx, ht⟩
        subst hx
        exact fun hm => ⟨he ▸ hdue, ht hm⟩
      · intro reserved ho
        subst ho
        obtain ⟨p, he, ⟨hs, hack, _⟩, _⟩ := ha
        rw [he] at hp
        obtain ⟨members, hp⟩ := hp
        have hm : found.1.msg ∈ reserved.sourceMsg :: reserved.ackAfterDispatch := by
          rw [hs, hack, hp.sources]
          exact mem_map_of_mem hp.head
        apply mem_map_of_mem
        simpa [or_comm] using hm

theorem broker_clock {ρ : Type} {streamPrefix : String} (op : Op ρ) (w : BrokerWorld) (r : ρ) (w' : BrokerWorld)
    (h : broker srv streamPrefix op w r w') : n ≤ w.clock → n ≤ w'.clock := by
  intro hn
  cases op
  case instantNow => rw [h.right]; exact hn.trans h.left
  all_goals exact h.right.left ▸ hn

theorem wp_tick (hn : t.queueState.keys.Nodup) (hd : ∀ q ∈ t.queueState.queue.items, q.Decoded)
    (hf : t.Formable role) :
    wp (.alone (broker srv role.streamPrefix)) (tick role)
      (fun x t' w' => DeadLettersTaken srv role w'.met → ∃ now ≤ w'.clock, Ticks role now t t' x) t w := by
  simp only [tick, wp_bind, RoleM.wp_perform_alone]
  rintro now w' ⟨_, hw⟩
  have hnow : now ≤ w'.clock := by rw [hw]
  rw [andThen_ok]
  refine wp_mono ?_ (wp_alone_frame (M := broker srv role.streamPrefix)
    (I := fun w => now ≤ w.clock) (Q := fun x t' w' => DeadLettersTaken srv role w'.met → Ticks role now t t' x)
    broker_clock hnow ?_)
  · exact fun x t' w' ⟨h, hc⟩ hm => ⟨now, hc, h hm⟩
  · apply wp_seq (wp_of_sink (wp_nextHead hn))
    case he => exact fun _ _ _ h _ => h.left.left.left
    case hf =>
      rintro found t' w' ⟨⟨⟨hk, ht⟩, _⟩, hs, hnone⟩
      cases found
      case none => exact fun _ => ⟨hk, hnone rfl⟩
      case some selection =>
        have hs := hs selection rfl
        have hm : selection.request ∈ t'.queueState.queue.items := by
          rw [hk.items]
          exact mem_items_of_mem_iterReady hs
        have hscan :
            ∀ now, BatchSafe role.config t'.reservations selection.request (t'.queueState.queue.iterReady now) := by
          rw [ht]
          intro now
          apply hf selection.request (hk.items ▸ hm)
          rw [← hk.items]
          exact iterReady_sublist_items
        have hq : Quiet (· = t') w'.sink t' w'.sink := ⟨rfl, rfl, fun _ h => h⟩
        simp only [wp_bind, wp_observe]
        apply wp_mono ?_ (wp_of_sink (wp_formRequest hm hscan hq))
        rintro x t'' w'' ⟨⟨ht'', _⟩, request, hx, hh, hform⟩
        subst ht'' hx
        exact wp_reportRequest hn hd hk (mem_dueKeys_of_mem_iterReady hs) hh (hk.items ▸ hform)

end Tick

section Run

variable {srv : Redis.Server} {role : SchedulerRole} {t t' t₁ : RoleState} {key : String}

-- What holds of the queue all the time.
structure RoleState.Sound (t : RoleState) : Prop where
  ids : t.queueState.pendingIds = t.queueState.keys.toFinset
  nodup : t.queueState.keys.Nodup
  decoded : ∀ q ∈ t.queueState.queue.items, q.Decoded

theorem RoleState.Sound.of_queues (h : t.Sound) (hq : t'.Queues t.queueState.queue.items t.queueState.pendingIds) :
    t'.Sound := by
  have hk : t'.queueState.keys = t.queueState.keys := by rw [SchedulerQueueState.keys, hq.left]; rfl
  exact ⟨by rw [hq.right, hk, h.ids], hk ▸ h.nodup, hq.left ▸ h.decoded⟩

theorem RoleState.Sound.filter (h : t.Sound) {keys : List String}
    (hq : t'.Queues (t.queueState.queue.items.filter fun q => queueKey q.msg ∉ keys)
      (t.queueState.pendingIds.filter (· ∉ keys))) : t'.Sound := by
  have hk : t'.queueState.keys = t.queueState.keys.filter (· ∉ keys) := by
    rw [SchedulerQueueState.keys, hq.left, SchedulerQueueState.keys, filter_map]
    rfl
  refine ⟨?_, hk ▸ h.nodup.filter _, fun q hm => h.decoded q ?_⟩
  · rw [hq.right, hk, h.ids, toFinset_filter]; simp
  · exact (mem_filter.mp (hq.left ▸ hm)).left

theorem RoleState.Sound.tick {x : Except Failure TickReport} (h : t.Sound)
    (he : (tick role).Ends (broker srv role.streamPrefix) t w x t' w') : t'.Sound := by
  have hp := @wp_processNextRequest role _ _ w.sink t h.nodup h.decoded ⟨rfl, rfl⟩
  rw [processNextRequest_eq, wp_bind] at hp
  have hx := wp_alone_iff.mp hp _ _ _ (he.simulate BrokerWorld.sink broker_sink)
  have ⟨_, hx⟩ : Ticked role t.queueState.queue.items t.queueState.pendingIds w.sink t' w'.sink := by
    cases x
    case error => exact hx
    case ok report => cases report <;> exact hx
  cases hx
  case inl hx => exact h.of_queues hx.right
  case inr hx =>
    have ⟨_, _, _, _, _, _, hq⟩ := hx
    exact h.filter hq

theorem handle_keys_subset {x : Except Failure Unit}
    (he : (handle role m stream).Ends (broker srv role.streamPrefix) t w x t' w') :
    t.queueState.keys ⊆ t'.queueState.keys := by
  have ⟨_, hx⟩ := wp_alone_iff.mp (wp_handle (w := w.sink) ⟨rfl, rfl⟩ stream) _ _ _
    (he.simulate BrokerWorld.sink broker_sink)
  obtain ⟨_, hq⟩ | ⟨q, _, _, _, _, _, hq⟩ | ⟨_, _, _, hq⟩ := hx
  all_goals
    simp only [SchedulerQueueState.keys, hq.left, map_append]
    simp

theorem RoleState.Sound.handle {x : Except Failure Unit} (h : t.Sound)
    (he : (handle role m stream).Ends (broker srv role.streamPrefix) t w x t' w') : t'.Sound := by
  have ⟨_, hx⟩ := wp_alone_iff.mp (wp_handle (w := w.sink) ⟨rfl, rfl⟩ stream) _ _ _
    (he.simulate BrokerWorld.sink broker_sink)
  cases hx
  case inl hx => exact h.of_queues hx.right
  case inr hx =>
    cases hx
    case inr hx =>
      have ⟨_, _, _, hq⟩ := hx
      exact h.of_queues hq
    case inl hx =>
      have ⟨q, hm, hd, _, hn, _, hq⟩ := hx
      have hk : t'.queueState.keys = t.queueState.keys ++ [queueKey m] := by
        rw [SchedulerQueueState.keys, hq.left, map_append, ← hm]
        rfl
      have hn : queueKey m ∉ t.queueState.keys := by
        rw [h.ids] at hn
        exact fun hm => hn (mem_toFinset.mpr hm)
      constructor
      case ids => rw [hq.right, hk, h.ids]; ext; simp
      case nodup => rw [hk]; exact h.nodup.append (by simp) (by simpa using hn)
      case decoded =>
        rw [hq.left]
        intro p hp
        cases mem_append.mp hp
        case inl hp => exact h.decoded p hp
        case inr hp => exact mem_singleton.mp hp ▸ hd

theorem Silent.keeps {τ α : Type} {P : τ → Prop} {a : RoleM τ α} (h : Silent a) :
    Keeps (.alone sink) (fun t _ => P t) a :=
  fun _ w hp => (h P w).wp ⟨hp, rfl, fun _ h => h⟩ fun _ _ _ h => h.left

theorem handle_failures (failures : String → Nat) :
    Keeps (.alone sink) (fun t _ => t.requestFailures = failures) (handle role m stream) := by
  have hclear : Keeps (.alone sink) (fun t _ => t.requestFailures = failures)
      (modify (RoleState.mapQueue PriorityQueue.clearDeferrals) : RoleM RoleState Unit) :=
    .modify fun _ _ h => h
  apply Keeps.ite
  case h₁ =>
    refine .bind .ofExcept fun payload => .ite ?_ (.bind ?_ fun _ => .throw)
    · refine .bind .ofExcept fun plan => .bind (initGroup_silent _ _).keeps fun _ => ?_
      exact .mapError (.bind (.perform fun _ _ _ _ h _ => h) fun _ => .ofExcept)
    · intro t w h
      simp only [enqueueRequest, wp_bind, wp_get, andThen_ok, wp_ite]
      split
      case isTrue => exact h
      case isFalse =>
        rw [RoleM.wp_perform_alone]
        exact fun _ _ _ => h
  case h₂ =>
    refine .ite (.bind .ofExcept fun payload => .bind (.mapError (release_silent _ _).keeps) fun _ => ?_) .throw
    cases payload.parentRunId
    case none => exact hclear
    case some parent => exact .ite (.bind (releaseSlot_silent _).keeps fun _ => hclear) hclear

-- A tick in which the dispatch of this request failed, or in which nothing could be made of it.
def Turn.failsAt (key : String) (turn : Turn) : Bool :=
  match turn.result with
  | .ok (.attempted head outcome) => queueKey head.msg = key && !outcome.isOk
  | .ok (.unformed head _) => queueKey head.msg = key
  | _ => false

def Turn.attempts (turn : Turn) : Bool :=
  match turn.result with
  | .ok (.attempted ..) => true
  | _ => false

-- A tick that attempts this request, or in which it leaves the queue along with the one that is attempted.
def Turn.selects (key : String) (turn : Turn) : Bool :=
  match turn.result with
  | .ok (.attempted head _) => queueKey head.msg = key || key ∉ turn.after.queueState.keys
  | _ => false

-- A tick that only waits for a batch to fill up, or that fails before it has selected a request.
def Turn.waits (turn : Turn) : Bool :=
  match turn.result with
  | .ok (.waiting _) | .error _ => true
  | _ => false

-- No batch is too large to be formed, and the dead letter queue takes what it is given.
def Turn.Served (srv : Redis.Server) (role : SchedulerRole) (turn : Turn) : Prop :=
  turn.before.Formable role ∧ DeadLettersTaken srv role turn.met

theorem Shift.sound (h : Shift srv role t w turns t' w') (ht : t.Sound) : t'.Sound := by
  induction h
  case refl => exact ht
  case handle he hi => exact hi.handle he
  case discover hi => exact hi.of_queues ⟨items_clearDeferrals, rfl⟩
  case tick he hi => exact hi.tick he

theorem Turn.ticks {x : Except Failure TickReport} (ht : t.Sound) (hs : t.Formable role)
    (hm : DeadLettersTaken srv role w'.met)
    (he : (Scheduler.tick role).Ends (broker srv role.streamPrefix) t w x t' w') :
    ∃ now ≤ w'.clock, Ticks role now t t' x :=
  wp_alone_iff.mp (wp_tick ht.nodup ht.decoded hs) _ _ _ he hm

theorem handle_keeps_failures {x : Except Failure Unit}
    (he : (handle role m stream).Ends (broker srv role.streamPrefix) t w x t' w') :
    t'.requestFailures = t.requestFailures :=
  wp_alone_iff.mp (handle_failures t.requestFailures t w.sink rfl) _ _ _ (he.simulate BrokerWorld.sink broker_sink)

-- Every failure of a request that stays in the queue is counted, and the count stays below the limit.
theorem Ticks.failures {x : Except Failure TickReport} {now clock : Instant} {met : List (SinkOp × Redis.Db)}
    (h : Ticks role now t t' x)
    (hmax : role.retryDlqPolicy.maxRetries < 2 ^ 64) (hk : key ∈ t'.queueState.keys) :
    if (Turn.mk t x t' clock met).failsAt key then
      t'.requestFailures key = t.requestFailures key + 1 ∧ t'.requestFailures key < role.retryDlqPolicy.maxRetries
    else t'.requestFailures key = t.requestFailures key := by
  cases x
  case error => exact congrFun (Kept.failures h) key
  case ok report =>
    cases report
    case idle => exact congrFun h.left.failures key
    case waiting => exact congrFun (Kept.failures h) key
    case unformed => exact h.elim
    case attempted head outcome =>
      have ⟨_, h⟩ := h
      cases hf : (Turn.mk t (.ok (.attempted head outcome)) t' clock met).failsAt key
      case false =>
        have hf : queueKey head.msg = key → outcome.isOk = true := by simpa [Turn.failsAt] using hf
        exact h.failures key hk fun he => by simp [hf he.symm]
      case true =>
        have ⟨he, ho⟩ : queueKey head.msg = key ∧ outcome.isOk = false := by simpa [Turn.failsAt] using hf
        subst he
        have ⟨hc, hl⟩ := h.retried (by simp [ho]) hk
        refine ⟨?_, hl⟩
        omega

theorem Shift.failures (hmax : role.retryDlqPolicy.maxRetries < 2 ^ 64) (ht : t.Sound)
    (h : Shift srv role t w turns t' w') (hs : ∀ turn ∈ turns, turn.Served srv role)
    (hk : ∀ turn ∈ turns, key ∈ turn.after.queueState.keys) :
    turns.countP (·.failsAt key) ≤ t'.requestFailures key ∧
      turns.countP (·.failsAt key) < role.retryDlqPolicy.maxRetries := by
  induction h
  case refl => exact ⟨Nat.zero_le _, role.retryDlqPolicy.pos⟩
  case handle he hi =>
    rw [handle_keeps_failures he]
    exact hi hs hk
  case discover hi => exact hi hs hk
  case tick turns t₁ w₁ x t₂ w₂ hr he hi =>
    have ⟨hs, hs'⟩ := forall_mem_append.mp hs
    have ⟨hk, hk'⟩ := forall_mem_append.mp hk
    have hserved := hs' _ (mem_singleton.mpr rfl)
    have hkey : key ∈ t₂.queueState.keys := hk' _ (mem_singleton.mpr rfl)
    have ⟨hle, hlt⟩ := hi hs hk
    have ⟨now, _, hticks⟩ := Turn.ticks (hr.sound ht) hserved.left hserved.right he
    have hf := @Ticks.failures role t₁ t₂ key x now w₂.clock w₂.met hticks hmax hkey
    rw [countP_append, countP_singleton]
    split at hf
    case isTrue hc =>
      rw [if_pos hc]
      omega
    case isFalse hc =>
      rw [if_neg hc]
      omega

end Run

-- How many attempts others can make before a ready request must be selected.
section Potential

variable {role : SchedulerRole} {t t' : RoleState} {key : String}

-- The attempts that a request may still take.
def weight (role : SchedulerRole) (t : RoleState) (key : String) : Nat :=
  max 1 (role.retryDlqPolicy.maxRetries - t.requestFailures key)

def potential (role : SchedulerRole) (t : RoleState) : Nat :=
  ∑ key ∈ t.readyKeys, weight role t key

theorem potential_mono (hr : t'.readyKeys ⊆ t.readyKeys) (hf : t'.requestFailures = t.requestFailures) :
    potential role t' ≤ potential role t := by
  have hw : weight role t' = weight role t := by
    funext key
    rw [weight, weight, hf]
  rw [potential, hw]
  exact Finset.sum_le_sum_of_subset hr

theorem Treated.potential_lt {head : QueuedRequest} {ready : Finset String} {failed : Bool}
    (hmax : role.retryDlqPolicy.maxRetries < 2 ^ 64)
    (h : Treated role ready head failed t t') (hr : ready ⊆ t.readyKeys) (hm : queueKey head.msg ∈ ready) :
    potential role t' < potential role t := by
  have hrest : ∑ key ∈ t'.readyKeys.erase (queueKey head.msg), weight role t' key ≤
      ∑ key ∈ t.readyKeys.erase (queueKey head.msg), weight role t key := by
    calc
      _ = ∑ key ∈ t'.readyKeys.erase (queueKey head.msg), weight role t key := by
        apply Finset.sum_congr rfl
        intro key hk
        have ⟨hne, hk⟩ := Finset.mem_erase.mp hk
        rw [weight, weight, h.failures key (mem_keys_of_mem_entryKeys hk) fun he => absurd he hne]
      _ ≤ _ := Finset.sum_le_sum_of_subset (Finset.erase_subset_erase _ (h.ready.trans hr))
  have hsum := Finset.sum_erase_add t.readyKeys (weight role t) (hr hm)
  have hpos : 1 ≤ weight role t (queueKey head.msg) := Nat.le_max_left _ _
  by_cases hk : queueKey head.msg ∈ t'.readyKeys
  case neg =>
    rw [Finset.erase_eq_of_notMem hk] at hrest
    unfold potential
    omega
  case pos =>
    cases failed
    case false => exact absurd hk (h.left rfl)
    case true =>
      have ⟨hc, hl⟩ := h.retried rfl (mem_keys_of_mem_entryKeys hk)
      have hsum' := Finset.sum_erase_add t'.readyKeys (weight role t') hk
      have hw : weight role t' (queueKey head.msg) < weight role t (queueKey head.msg) := by
        unfold weight
        omega
      unfold potential
      omega

-- The ticks that make no attempt do not add to the potential, and a request that stays ready keeps them from
-- being idle.
theorem Ticks.potential {x : Except Failure TickReport} {clock : Instant} {met : List (SinkOp × Redis.Db)}
    (hmax : role.retryDlqPolicy.maxRetries < 2 ^ 64)
    (h : Ticks role now t t' x) (hd : t.dueKeys now ⊆ t.readyKeys) (hk : key ∈ t'.readyKeys) :
    Scheduler.potential role t' + (if (Turn.mk t x t' clock met).attempts then 1 else 0) ≤ Scheduler.potential role t ∧
      ((Turn.mk t x t' clock met).attempts ∨ (Turn.mk t x t' clock met).waits) := by
  have hkept : Kept t (t.dueKeys now) t' → Scheduler.potential role t' + 0 ≤ Scheduler.potential role t :=
    fun h => potential_mono (h.ready.trans hd) h.failures
  cases x
  case error => exact ⟨hkept h, .inr rfl⟩
  case ok report =>
    cases report
    case idle => exact absurd hk (h.right ▸ Finset.notMem_empty key)
    case waiting => exact ⟨hkept h, .inr rfl⟩
    case unformed => exact h.elim
    case attempted head outcome => exact ⟨h.right.potential_lt hmax hd h.left, .inl rfl⟩

theorem dueKeys_mono {now later : Instant} (h : now ≤ later) : t.dueKeys now ⊆ t.dueKeys later := by
  intro key hk
  have ⟨entry, he, hr, hk⟩ := mem_entryKeys.mp hk
  refine mem_entryKeys.mpr ⟨entry, he, ?_, hk⟩
  cases hd : entry.deferredUntil
  case none => simp [QueueEntry.isReady, hd]
  case some deadline =>
    have : deadline ≤ now := by simpa [QueueEntry.isReady, hd] using hr
    simpa [QueueEntry.isReady, hd] using this.trans h

-- Nothing that is deferred comes due before the tick is over.
def Turn.NoneExpires (turn : Turn) : Prop :=
  turn.before.dueKeys turn.clock ⊆ turn.before.readyKeys

-- Nothing becomes ready between two ticks.
def Turn.Follows (turn next : Turn) : Prop :=
  next.before.readyKeys ⊆ turn.after.readyKeys

theorem Shift.attempts (hmax : role.retryDlqPolicy.maxRetries < 2 ^ 64) (ht : t.Sound)
    (h : Shift srv role t w turns t' w') (hs : ∀ turn ∈ turns, turn.Served srv role)
    (hk : ∀ turn ∈ turns, turn.NoneExpires ∧ key ∈ turn.after.readyKeys) (hf : turns.IsChain Turn.Follows) :
    (∀ turn ∈ turns, turn.attempts ∨ turn.waits) ∧ ∀ last ∈ turns.getLast?,
      t'.requestFailures = last.after.requestFailures ∧ ∀ first ∈ turns.head?,
        potential role last.after + turns.countP Turn.attempts ≤ potential role first.before := by
  induction h
  case refl => simp
  case handle he hi =>
    rw [handle_keeps_failures he]
    exact hi hs hk hf
  case discover hi => exact hi hs hk hf
  case tick turns t₁ w₁ x t₂ w₂ hr he hi =>
    have ⟨hs, hs'⟩ := forall_mem_append.mp hs
    have ⟨hk, hk'⟩ := forall_mem_append.mp hk
    have ⟨hf, _, hlink⟩ := isChain_append.mp hf
    have hserved := hs' _ (mem_singleton.mpr rfl)
    have ⟨hnone, hkey⟩ := hk' _ (mem_singleton.mpr rfl)
    have ⟨hall, hlast⟩ := hi hs hk hf
    have ⟨now, hnow, hticks⟩ := Turn.ticks (hr.sound ht) hserved.left hserved.right he
    have ⟨hp, hw⟩ :=
      @Ticks.potential role t₁ t₂ key now x w₂.clock w₂.met hmax hticks ((dueKeys_mono hnow).trans hnone) hkey
    refine ⟨forall_mem_append.mpr ⟨hall, by simpa using hw⟩, ?_⟩
    rw [getLast?_append, getLast?_singleton, Option.some_or]
    intro last hl
    cases hl
    refine ⟨rfl, fun first hfirst => ?_⟩
    rw [countP_append, countP_singleton]
    cases hturns : turns.getLast?
    case none =>
      have hnil := getLast?_eq_none_iff.mp hturns
      subst hnil
      cases hfirst
      simpa using hp
    case some last =>
      have ⟨hfail, hle⟩ := hlast last hturns
      have hne : turns ≠ [] := fun hnil => by simp [hnil] at hturns
      have hlink := hlink last hturns _ rfl
      have hle := hle first (by simpa [head?_append_of_ne_nil _ hne] using hfirst)
      have hbetween : potential role t₁ ≤ potential role last.after := potential_mono hlink hfail
      dsimp only at hp ⊢
      omega

-- A tick of the stretch neither waits nor finds this request blocked, and nothing that is deferred comes due.
structure Turn.Proceeds (key : String) (turn : Turn) : Prop where
  active : turn.waits = false
  unblocked : key ∈ turn.after.queueState.keys → key ∈ turn.after.readyKeys
  noneExpires : turn.NoneExpires

theorem Ticks.ready {x : Except Failure TickReport} {clock : Instant} {met : List (SinkOp × Redis.Db)}
    (h : Ticks role now t t' x) (hp : (Turn.mk t x t' clock met).Proceeds key)
    (hn : (Turn.mk t x t' clock met).selects key = false) (hk : key ∈ t.queueState.keys) : key ∈ t'.readyKeys := by
  apply hp.unblocked
  cases x
  case error => cases hp.active
  case ok report =>
    cases report
    case idle => exact h.left.keys ▸ hk
    case waiting => cases hp.active
    case unformed => exact h.elim
    case attempted head outcome =>
      have ⟨_, hn⟩ : queueKey head.msg ≠ key ∧ key ∈ t'.queueState.keys := by simpa [Turn.selects] using hn
      exact hn

-- A request that is not selected stays ready.
theorem Shift.ready (ht : t.Sound) (h : Shift srv role t w turns t' w')
    (hs : ∀ turn ∈ turns, turn.Served srv role ∧ turn.Proceeds key ∧ turn.selects key = false)
    (hk : key ∈ t.queueState.keys) :
    key ∈ t'.queueState.keys ∧ ∀ turn ∈ turns, key ∈ turn.after.readyKeys := by
  induction h
  case refl => exact ⟨hk, by simp⟩
  case handle he hi => exact (hi hs).imp_left (handle_keys_subset he ·)
  case discover hi =>
    refine (hi hs).imp_left fun hm => ?_
    rwa [SchedulerQueueState.keys, mapQueue, items_clearDeferrals]
  case tick turns t₁ w₁ x t₂ w₂ hr he hi =>
    obtain ⟨hs, hs'⟩ := forall_mem_append.mp hs
    obtain ⟨hserved, hp, hn⟩ := hs' _ (mem_singleton.mpr rfl)
    obtain ⟨hm, hready⟩ := hi hs
    obtain ⟨now, _, hticks⟩ := Turn.ticks (hr.sound ht) hserved.left hserved.right he
    have hkey := hticks.ready hp hn hm
    exact ⟨mem_keys_of_mem_entryKeys hkey, forall_mem_append.mpr ⟨hready, by simpa using hkey⟩⟩

end Potential

-- Runs of ticks on an oracle.
section Replay

variable {role : SchedulerRole} {oracle : Oracle Op BrokerWorld} {t t' : RoleState} {w w' : BrokerWorld}
  {turns : List Turn}

end Replay

end Scheduler
