import ServeModel.Scheduler.Sink
import ServeModel.Scheduler.Theorems.BatchRequest
import ServeModel.Scheduler.Theorems.Placement

-- Every accepted request is settled once, by the sink operation that takes it off the queue.
namespace Scheduler

open Routine PriorityQueue
open ResourceReservationTable (reserve)

theorem SinkWorld.forall_reports {Q : Except Failure Unit → SinkWorld → Prop}
    (done : Q (.ok ()) { w with done := w.done ++ [op] }) (failed : ∀ e, Q (.error e) w) :
    ∀ r w', w.Reports op r w' → Q r w' := by
  intro r w' h
  cases h
  case inl h => exact h.left ▸ h.right ▸ done
  case inr h =>
    have ⟨⟨e, hr⟩, hw⟩ := h
    exact hr ▸ hw ▸ failed e

section Silent

variable {τ α β : Type}

-- Nothing was reported by the sink since `w₀`, and the private state is as `P` says.
def Quiet (P : τ → Prop) (w₀ : SinkWorld) (t : τ) (w : SinkWorld) : Prop :=
  P t ∧ w.done = w₀.done ∧ w₀.terminals ⊆ w.terminals

-- A routine that neither calls the sink nor touches the private state.
def Silent (m : RoleM τ α) : Prop :=
  ∀ P w₀, Keeps (.alone sink) (Quiet P w₀) m

namespace Silent

theorem pure : Silent (Pure.pure a : RoleM τ α) :=
  fun _ _ => .pure

theorem throw : Silent (throwThe Failure e : RoleM τ α) :=
  fun _ _ => .throw

theorem ofExcept : Silent (Routine.ofExcept x : RoleM τ α) :=
  fun _ _ => .ofExcept

theorem bind (h : Silent m) (hf : ∀ a, Silent (f a)) :
    Silent (m >>= f) :=
  fun P w₀ => .bind (h P w₀) fun a => hf a P w₀

theorem observe (h : Silent m) : Silent (Routine.observe m) :=
  fun P w₀ => .observe (h P w₀)

theorem context (h : Silent m) : Silent (RoleM.context text m) :=
  fun P w₀ => .mapError (h P w₀)

theorem ite [Decidable p] (h₁ : Silent m₁) (h₂ : Silent m₂) :
    Silent (if p then m₁ else m₂) :=
  fun P w₀ => .ite (h₁ P w₀) (h₂ P w₀)

theorem perform (h : ∀ w r w', sink op w r w' → w' = w) :
    Silent (RoleM.perform op : RoleM τ α) := by
  intro P w₀
  apply Keeps.perform
  intro t w r w' hq hs
  exact h w r w' hs ▸ hq

theorem unwrap (h : ∀ w r w', sink op w r w' → w' = w) :
    Silent (do Routine.ofExcept (← RoleM.perform op) : RoleM τ α) :=
  .bind (.perform h) fun _ => .ofExcept

theorem seq {f : α → RoleM τ β} (hm : Silent m) (h : Quiet P w₀ t w)
    (he : ∀ e t w, Quiet P w₀ t w → Q (.error e) t w)
    (hf : ∀ a t w, Quiet P w₀ t w → wp (.alone sink) (f a) Q t w) :
    wp (.alone sink) (m >>= f) Q t w :=
  (hm P w₀).seq h he hf

end Silent

theorem instantNow_silent : Silent (RoleM.perform .instantNow : RoleM τ Nat) :=
  .perform fun _ _ _ h => h

theorem isTerminal_silent (parent : String) : Silent (isTerminal parent : RoleM τ Bool) := by
  apply Silent.bind
  case h =>
    intro P w₀
    apply Keeps.perform
    intro t w r w' ⟨hp, hd, ht⟩ hs
    subst hs
    split
    case h_1 => exact ⟨hp, hd, List.subset_cons_of_subset _ ht⟩
    case h_2 => exact ⟨hp, hd, ht⟩
  case hf => exact fun _ => .ofExcept

theorem getActiveMany_silent (ids : List Nat) : Silent (getActiveMany ids : RoleM τ _) :=
  .unwrap fun _ _ _ h => h

theorem releaseSlot_silent (parent : String) : Silent (releaseSlot parent : RoleM τ Nat) :=
  .bind (.perform fun _ _ _ h => h) fun _ => .bind .ofExcept fun _ => .ofExcept

theorem releaseHeldSlot_silent (held : Option String) : Silent (releaseHeldSlot held : RoleM τ Unit) := by
  cases held
  case none => exact .pure
  case some => exact .bind (.observe (releaseSlot_silent _)) fun _ => .pure

theorem acquireParentSlot_silent (payload : SchedulePayload) :
    Silent (acquireParentSlot payload : RoleM τ _) := by
  unfold acquireParentSlot
  split
  case h_1 => exact .pure
  case h_2 =>
    apply Silent.bind
    case h =>
      exact .bind (.perform fun _ _ _ h => h) fun _ => .bind .ofExcept fun _ => .ofExcept
    case hf =>
      intro reply
      cases reply <;> exact .pure

theorem terminalParentId_silent (payload : SchedulePayload) : Silent (terminalParentId payload : RoleM τ _) := by
  unfold terminalParentId
  split
  case h_1 => exact .bind (isTerminal_silent _) fun _ => .pure
  case h_2 => exact .pure

theorem decrement_silent (id amount : Nat) : Silent (decrement id amount : RoleM τ _) := by
  apply Silent.ite
  case h₁ => exact .throw
  case h₂ =>
    apply Silent.bind
    case h => exact .perform fun _ _ _ h => h
    case hf =>
      intro reply
      apply Silent.bind .ofExcept
      intro values
      cases values
      case nil => exact .throw
      case cons => exact .ite .pure .pure

theorem tryReserveIdle_silent (id floor delta : Nat) : Silent (tryReserveIdle id floor delta : RoleM τ _) := by
  apply Silent.ite .throw
  apply Silent.ite .throw
  apply Silent.bind
  case h => exact .perform fun _ _ _ h => h
  case hf =>
    intro reply
    apply Silent.bind .ofExcept
    intro values
    split
    case h_1 rest =>
      cases rest
      case nil => exact .throw
      case cons => exact .ite .throw .pure
    case h_2 => exact .pure

theorem releaseClaims_silent (mem : Nat) (ids : List Nat) : Silent (releaseClaims mem ids : RoleM τ Unit) := by
  induction ids
  case nil => exact .pure
  case cons hi => exact .bind (.observe (decrement_silent _ _)) fun _ => hi

theorem claimResources_silent (mem : Nat) (claimed : List ReservedResource) (candidates : List ResourceInfo) :
    Silent (claimResources mem claimed candidates : RoleM τ _) := by
  induction candidates generalizing claimed
  case nil => exact .pure
  case cons hi =>
    apply Silent.bind (.observe (tryReserveIdle_silent _ _ _))
    intro reply
    split
    case h_1 => exact hi _
    case h_2 | h_3 => exact .bind (releaseClaims_silent _ _) fun _ => .throw

theorem release_silent (id mem : Nat) : Silent (ResourceReservationTable.release id mem : RoleM τ Unit) := by
  apply Silent.bind (decrement_silent _ _)
  intro reply
  cases reply
  case none => exact .throw
  case some => exact .pure

theorem rollback_silent (reserved : ReservedSchedule) :
    Silent (rollbackReservedSchedule reserved : RoleM τ Unit) := by
  apply Silent.bind
  case hf => exact fun _ => releaseHeldSlot_silent _
  case h =>
    induction reserved.gpuTargets
    case nil => exact .pure
    case cons hi => exact .bind (.observe (release_silent _ _)) fun _ => hi

theorem initGroup_silent (parent : String) (group : Collect.CollectGroup) :
    Silent (Collect.initGroup parent group : RoleM τ Unit) := by
  apply Silent.bind
  case h => exact .context (.unwrap fun _ _ _ h => h)
  case hf =>
    intro created
    apply Silent.ite
    case h₁ =>
      apply Silent.bind
      case h => exact .context (.unwrap fun _ _ _ h => h)
      case hf => exact fun _ => .context (.unwrap fun _ _ _ h => h)
    case h₂ => exact .context (.unwrap fun _ _ _ h => h)

theorem schedulerNowMs_silent : Silent (schedulerNowMs : RoleM τ Nat) := by
  apply Silent.bind
  case h => exact .perform fun _ _ _ h => h
  case hf =>
    intro reply
    cases reply
    case error => exact .throw
    case ok => exact .pure

theorem snapshot_quiet (w₀ : SinkWorld) : Keeps (.alone sink) (Quiet (fun _ => True) w₀)
    ResourceReservationTable.resourceAvailabilitySnapshot :=
  .bind .get fun _ => .bind (getActiveMany_silent _ _ _) fun _ => .pure

end Silent

section Form

variable {policy : BatchPolicy} {items : List QueuedRequest}

def SchedulerRequest.FormedOf (items : List QueuedRequest) : SchedulerRequest → Prop
  | .empty | .wait _ => True
  | .single queued => queued ∈ items
  | .batch request => request.head ∈ items ∧ ∃ policy partners,
      request.candidates = ⟨request.head, policy⟩ :: partners ∧
      (partners.map (·.queued)).Sublist items ∧
      ∀ c ∈ partners, queueKey c.queued.msg ≠ queueKey request.head.msg

variable {τ : Type}

theorem wp_createBatchRequest (hh : head ∈ queue.items) (h : Quiet P w₀ t w) :
    wp (.alone sink) (createBatchRequest config table queue head)
      (fun x t w => Quiet P w₀ t w ∧ Yields (fun found => ∀ r ∈ found, r.FormedOf queue.items) x)
      t w := by
  refine wp_createBatchRequest_outcome (I := Quiet P w₀ t) (fun _ _ _ h hs => hs ▸ h) h ?_
  intro x w h ho
  refine ⟨h, ?_⟩
  cases ho
  case alone => exact fun _ hr => by cases hr
  case wait => exact fun _ hr => by cases hr; trivial
  case failed => trivial
  case batch policy scan _ hs _ _ =>
    have ⟨now, hs⟩ := hs.scan
    obtain ⟨added, ha, hsub, hk⟩ := scanBatch_adds hs
    intro r hr
    cases hr
    exact ⟨hh, policy, added, ha, hsub.trans iterReady_sublist_items, hk⟩

end Form

section Select

variable {items : List QueuedRequest} {ids : Finset String} {t : RoleState} {P : RoleState → Prop}

def RoleState.Queues (items : List QueuedRequest) (ids : Finset String) (t : RoleState) : Prop :=
  t.queueState.queue.items = items ∧ t.queueState.pendingIds = ids

-- A property that reservations do not affect.
def Unreserved (P : RoleState → Prop) : Prop :=
  ∀ t table, P t → P { t with reservations := table }

-- A property of a state with these requests that the choice of a request and its reservation do not affect.
structure Loose (items : List QueuedRequest) (P : RoleState → Prop) : Prop where
  queued : ∀ {t}, P t → t.queueState.queue.items = items
  defer : ∀ {t now m}, P t → P (t.mapQueue (PriorityQueue.defer now fun queued => queueKey queued.msg = queueKey m))
  expire : ∀ {t now}, P t → P (t.mapQueue (PriorityQueue.clearExpired now))
  reserve : Unreserved P

theorem RoleState.queues_loose : Loose items (RoleState.Queues items ids) where
  queued h := h.left
  defer h := ⟨items_defer.trans h.left, h.right⟩
  expire h := ⟨items_clearExpired.trans h.left, h.right⟩
  reserve _ _ h := h

theorem deferRequest_quiet (hP : Loose items P) (now : Instant) (m : Message) :
    Keeps (.alone sink) (Quiet P w₀) (deferRequest now m) :=
  .modify fun _ _ ⟨hp, hw⟩ => ⟨hP.defer hp, hw⟩

theorem onReservations_quiet (hP : Unreserved P) (h : Keeps (.alone sink) (Quiet (fun _ => True) w₀) a) :
    Keeps (.alone sink) (Quiet P w₀) (onReservations a) := by
  intro t w ⟨hp, hw⟩
  apply wp_zoom.mpr
  apply h.wp ⟨trivial, hw⟩
  intro _ _ _ hw
  exact ⟨hP _ _ hp, hw.right⟩

theorem wp_selectRequest (hP : Loose items P) (candidates : List QueueSelection)
    (hc : ∀ c ∈ candidates, c.request ∈ items) (h : Quiet P w₀ t w) :
    wp (.alone sink) (selectRequest role now candidates)
      (fun x t w => Quiet P w₀ t w ∧ Yields (·.FormedOf items) x) t w := by
  induction candidates generalizing t w
  case nil => exact ⟨h, trivial⟩
  case cons selection rest hi =>
    have hm := hc selection (by simp)
    simp only [selectRequest, wp_ite]
    split
    case isTrue =>
      apply (terminalParentId_silent _).seq h fun _ _ _ h => ⟨h, trivial⟩
      intro parent t w h
      cases parent
      case some => exact ⟨h, hm⟩
      case none =>
        apply (deferRequest_quiet hP now _).seq h fun _ _ _ h => ⟨h, trivial⟩
        intro _ t w h
        exact hi (fun c hc' => hc c (by simp [hc'])) h
    case isFalse =>
      simp only [wp_bind, wp_get, andThen_ok]
      have hq : t.queueState.queue.items = items := hP.queued h.left
      apply wp_mono ?_ (wp_createBatchRequest (hq ▸ hm) h)
      rintro x t w ⟨h, hf⟩
      cases x
      case error => exact ⟨h, trivial⟩
      case ok found =>
        cases found
        case none => exact ⟨h, hm⟩
        case some request => exact ⟨h, hq ▸ hf request rfl⟩

theorem wp_nextRequest (hP : Loose items P) (h : P t) :
    wp (.alone sink) (nextRequest role)
      (fun x t' w' => Quiet P w t' w' ∧ Yields (·.FormedOf items) x) t w := by
  have h : Quiet P w t w := ⟨h, rfl, fun _ h => h⟩
  apply instantNow_silent.seq h fun _ _ _ h => ⟨h, trivial⟩
  intro now t w h
  rw [wp_bind, wp_get, andThen_ok, wp_ite]
  split
  case isTrue => exact ⟨h, trivial⟩
  case isFalse =>
    apply (onReservations_quiet hP.reserve (snapshot_quiet _)).seq h fun _ _ _ h => ⟨h, trivial⟩
    intro view t w h
    have ⟨hp, hw⟩ := h
    apply wp_selectRequest hP
    case hc =>
      intro c hc
      have := (mem_rankReadyCandidates.mp hc).left
      exact hP.queued hp ▸ mem_items_of_mem_iterReady this
    case h => exact ⟨hP.expire hp, hw⟩

end Select

section Pending

variable {items members : List QueuedRequest} {queued : QueuedRequest} {pending : PendingSchedule}

def QueuedRequest.itemJson (queued : QueuedRequest) : Json :=
  .object [("run_id", .str queued.msg.runId), ("payload", queued.payload.rawPayload)]

-- The payload is the one of a single request, or it lists the members of a batch.
def Carries (members : List QueuedRequest) (raw : Json) : Prop :=
  (∃ queued, members = [queued] ∧ raw = queued.payload.rawPayload) ∨
    raw.get "items" = some (.arr (members.map QueuedRequest.itemJson))

-- The scheduling input of some queued requests, of which `queued` is the head.
structure Planned (items members : List QueuedRequest) (queued : QueuedRequest) (pending : PendingSchedule) :
    Prop where
  sources : pending.sourceMsg :: pending.ackAfterDispatch = members.map (·.msg)
  head : queued ∈ members
  subset : ∀ q ∈ members, q ∈ items
  distinct : (members.map (queueKey ·.msg)).Nodup
  parent : pending.payload.parentRunId = queued.payload.parentRunId
  carries : Carries members pending.payload.rawPayload

theorem field_copyField (source : Json) (name : String) (fs : Json.Fields) :
    Json.field name (copyField source name fs) = (source.get name <|> Json.field name fs) := by
  unfold copyField
  cases source.get name
  case none => rfl
  case some => simp

theorem field_copyField_of_ne (h : key ≠ name) (source : Json) (fs : Json.Fields) :
    Json.field key (copyField source name fs) = Json.field key fs := by
  unfold copyField
  cases source.get name
  case none => rfl
  case some => simp [h]

-- A queued request is what its message decodes to.
def QueuedRequest.Decoded (queued : QueuedRequest) : Prop :=
  decodeSchedulePayload queued.msg.payload queued.msg.runId = .ok queued.payload

variable {τ : Type}

-- A batch lists its members and belongs to the parent of its head.
theorem batchPayload_ok {partners : List BatchCandidate} (hd : head.queued.Decoded)
    (hc : head.queued.payload.rawPayload.get "stage_context" = some stageContext)
    (h : decodeSchedulePayload (.encode (.obj
      (copyField head.queued.payload.rawPayload "fanout_profile"
        (copyField head.queued.payload.rawPayload "parent_run_id"
          (Json.literal (batchPayloadFields batchId head (head :: partners) policy reason firstSeen formedAt
            stageContext resourceProfile)))))) batchId = .ok payload) :
    payload.rawPayload.get "items" = some (.arr ((head :: partners).map (·.queued.itemJson))) ∧
      payload.parentRunId = head.queued.payload.parentRunId := by
  obtain ⟨hj, _⟩ := decodeSchedulePayload_ok h
  have hraw := (Option.some.inj hj).symm
  constructor
  case left =>
    rw [hraw]
    simp [Json.get, Json.asObject, field_copyField_of_ne, batchPayloadFields, Json.literal]
    exact ⟨rfl, fun _ _ => rfl⟩
  case right =>
    have hcarried := carried_of_decode h hraw
    obtain ⟨fields, hf⟩ : ∃ fields, head.queued.payload.rawPayload = .obj fields := by
      cases hr : head.queued.payload.rawPayload <;> simp [hr, Json.get, Json.asObject] at hc ⊢
    have hhead := carried_of_decode hd hf
    rw [← hcarried, ← hhead, hraw]
    congr 1
    simp [Json.get, Json.asObject, field_copyField_of_ne, field_copyField, batchPayloadFields, Json.literal,
      Json.field]

theorem wp_buildRequestBatchPayload {partners : List BatchCandidate}
    (hd : head.queued.Decoded) (h : Quiet P w₀ t w) :
    wp (.alone sink) (buildRequestBatchPayload batchId (head :: partners) policy reason)
      (fun x t w => Quiet P w₀ t w ∧ Yields (fun payload =>
        payload.rawPayload.get "items" = some (.arr ((head :: partners).map (·.queued.itemJson))) ∧
          payload.parentRunId = head.queued.payload.parentRunId) x) t w := by
  apply schedulerNowMs_silent.seq h fun _ _ _ h => ⟨h, trivial⟩
  intro nowMs t w h
  apply instantNow_silent.seq h fun _ _ _ h => ⟨h, trivial⟩
  intro now t w h
  apply schedulerNowMs_silent.seq h fun _ _ _ h => ⟨h, trivial⟩
  intro formedAt t w h
  dsimp only
  split
  case h_2 => exact ⟨h, trivial⟩
  case h_1 stageContext hc =>
    apply Silent.ofExcept.seq h fun _ _ _ h => ⟨h, trivial⟩
    intro profile t w h
    apply wp_ofExcept.mpr
    generalize hx : decodeSchedulePayload _ _ = decoded
    cases decoded
    case error => exact ⟨h, trivial⟩
    case ok => exact ⟨h, batchPayload_ok hd hc hx⟩

theorem wp_buildPendingSchedule {request : BatchRequest} (hn : (items.map (queueKey ·.msg)).Nodup)
    (hd : ∀ q ∈ items, q.Decoded) (hf : SchedulerRequest.FormedOf items (.batch request))
    (h : Quiet P w₀ t w) :
    wp (.alone sink) request.buildPendingSchedule
      (fun x t w => Quiet P w₀ t w ∧
        Yields (fun pending => ∃ members, Planned items members request.head pending) x) t w := by
  have ⟨hh, policy, partners, hc, hs, hk⟩ := hf
  apply Silent.seq
  case hm => exact .perform fun _ _ _ h => h
  case h => exact h
  case he => exact fun _ _ _ h => ⟨h, trivial⟩
  case hf =>
    intro batchId t w h
    rw [hc, wp_bind]
    apply wp_mono ?_ (wp_buildRequestBatchPayload (hd _ hh) h)
    intro x t w ⟨h, hx⟩
    cases x
    case error => exact ⟨h, trivial⟩
    case ok payload =>
      refine ⟨h, request.head :: partners.map (·.queued), ?_, by simp, ?_, ?_, hx.right, ?_⟩
      · simp
      · exact List.forall_mem_cons.mpr ⟨hh, hs.subset⟩
      · rw [List.map_cons, List.nodup_cons]
        constructor
        case left => simpa using fun c hc he => hk c hc he
        case right => exact hn.sublist (hs.map _)
      · exact .inr (hx.left.trans (by simp))

theorem wp_pendingSchedule {request : SchedulerRequest} (hn : (items.map (queueKey ·.msg)).Nodup)
    (hd : ∀ q ∈ items, q.Decoded) (hf : request.FormedOf items) (h : Quiet P w₀ t w) :
    wp (.alone sink) (pendingSchedule request)
      (fun x t w => Quiet P w₀ t w ∧ Yields (fun found => ∀ y ∈ found, y.1 ∈ items ∧
        Yields (fun pending => ∃ members, Planned items members y.1 pending) y.2) x) t w := by
  cases request
  case empty | wait => exact ⟨h, fun _ hy => by cases hy⟩
  case single queued =>
    have hf : queued ∈ items := hf
    refine ⟨h, fun y hy => ?_⟩
    cases hy
    exact ⟨hf, [queued], rfl, by simp, by simpa using hf, by simp, rfl, .inl ⟨queued, rfl, rfl⟩⟩
  case batch request =>
    simp only [pendingSchedule, wp_bind, wp_observe]
    apply wp_mono ?_ (wp_buildPendingSchedule hn hd hf h)
    rintro x t w ⟨h, hx⟩
    refine ⟨h, fun y hy => ?_⟩
    cases hy
    exact ⟨hf.left, hx⟩

end Pending

section Attempt

-- The ways in which a sink operation settles queued requests.
inductive Settlement (role : SchedulerRole) (terminals : List String) : List QueuedRequest → SinkOp → Prop
  -- the request, or all members of a batch, go to the workers that a reservation has found for them
  | dispatched : (Carries members wanted.rawPayload) →
      ((reserve wanted).Ends sink table w (.ok (payload, targets)) table' w') →
      (targets ≠ []) → Settlement role terminals members
        (.forward (members.map (·.msg)) (buildDispatchOutputs role targets payload.runId payload))
  -- its parent has come to an end
  | dropped : (queued.payload.parentRunId.bind Text.nonBlank = some parent) →
      (terminalKey parent ∈ terminals) → Settlement role terminals [queued] (.ack queued.msg)
  | deadLettered : Settlement role terminals [queued]
      (.handoff queued.msg role.retryDlqPolicy.dlqStream
        (buildDlqPayload queued.msg role.scheduleStream error attempts) "dlq")
  -- a fanout child is also reported to the group of its parent
  | childDeadLettered : Settlement role terminals [queued] (.forward [queued.msg] [
      { stream := gatherQueue, payload := envelope, runId := some queued.msg.runId, stage := some "collect" },
      { stream := role.retryDlqPolicy.dlqStream
        payload := buildDlqPayload queued.msg role.scheduleStream error attempts
        runId := some queued.msg.runId, stage := some "dlq" }])

variable {role : SchedulerRole} {queued : QueuedRequest} {pending : PendingSchedule} {w₀ w : SinkWorld}

theorem wp_terminalParentId_quiet (payload : SchedulePayload) (h : Quiet P w₀ t w) :
    wp (.alone sink) (terminalParentId payload)
      (fun x t w => Quiet P w₀ t w ∧ Yields (fun found => ∀ parent ∈ found,
        payload.parentRunId.bind Text.nonBlank = some parent ∧ terminalKey parent ∈ w.terminals) x) t w := by
  unfold terminalParentId
  split
  case h_2 => exact ⟨h, fun _ hp => nomatch hp⟩
  case h_1 parent hp =>
    simp only [isTerminal, wp_bind, RoleM.wp_perform_alone]
    intro r w' hs
    have ⟨hq, hd, ht⟩ := h
    cases r
    case error =>
      cases hs
      exact ⟨h, trivial⟩
    case ok terminal =>
      cases terminal
      case false =>
        cases hs
        exact ⟨h, fun _ hp => nomatch hp⟩
      case true =>
        cases hs
        refine ⟨⟨hq, hd, List.subset_cons_of_subset _ ht⟩, fun p hp' => ?_⟩
        cases hp'
        exact ⟨hp, by simp⟩

theorem wp_reserve_quiet {table : ResourceReservationTable} (request : SchedulePayload)
    (h : Quiet (fun _ => True) w₀ table w) :
    wp (.alone sink) (reserve request)
      (fun _ t w => Quiet (fun _ => True) w₀ t w) table w := by
  simp only [reserve, wp_bind, wp_get, andThen_ok,
    wp_ofExcept]
  cases table.prepareResourceRequirements request
  case error => exact h
  case ok found =>
    rw [andThen_ok]
    apply (getActiveMany_silent _).seq h fun _ _ _ h => h
    intro active t w h
    apply Silent.ofExcept.seq h fun _ _ _ h => h
    intro eligible t w h
    split
    case isTrue => exact h
    case isFalse =>
      rw [wp_bind, wp_modify, andThen_ok]
      exact (claimResources_silent _ _ _).seq ⟨trivial, h.right⟩ (fun _ _ _ h => h) fun _ _ _ h => h

-- A reservation returns the request that it was made for, and some targets.
theorem wp_reserve_targets (request : SchedulePayload) :
    wp (.alone M) (reserve request)
      (fun x _ _ => Yields (fun y => y.1.rawPayload = request.rawPayload ∧ y.2 ≠ []) x) table s := by
  simp only [reserve, wp_bind, wp_get, andThen_ok, wp_ofExcept]
  cases hprep : table.prepareResourceRequirements request
  case error => trivial
  case ok found =>
    obtain ⟨config, payload⟩ := found
    rw [andThen_ok, wp_bind]
    refine wp_alone_iff.mpr fun active t s _ => ?_
    cases active
    case error => trivial
    case ok active =>
      rw [andThen_ok, wp_bind, wp_ofExcept]
      cases hsel : selectCandidateResources table.resources payload table.memoryUtilizationPercent
        config.gpusRequired
      case error => trivial
      case ok eligible =>
        simp only [andThen_ok, wp_ite]
        split
        case isTrue => trivial
        case isFalse hb =>
          simp only [wp_bind, wp_modify, andThen_ok]
          refine wp_mono (fun x _ _ hx => ?_) wp_claimResources_targets
          rcases x with _ | targets
          case error => trivial
          case ok =>
            have hg := (prepare_ok hprep).gpus_pos
            have hlen : config.gpusRequired ≤ (placementOrder payload table.rrCursor _).length :=
              slice_in_bounds hsel hb
            refine ⟨(prepare_ok hprep).rawPayload, List.ne_nil_of_length_pos ?_⟩
            rw [hx targets rfl]
            simpa [Nat.min_eq_left hlen] using hg

def ScheduleDecision.For (pending : PendingSchedule) (terminals : List String) : ScheduleDecision → Prop
  | .blocked => True
  | .dropped => ∃ parent, pending.payload.parentRunId.bind Text.nonBlank = some parent ∧
      terminalKey parent ∈ terminals
  | .reserved schedule => schedule.sourceMsg = pending.sourceMsg ∧
      schedule.ackAfterDispatch = pending.ackAfterDispatch ∧ schedule.gpuTargets ≠ [] ∧
      ∃ table w table' w', (reserve pending.payload).Ends sink table w
        (.ok (schedule.payload, schedule.gpuTargets)) table' w'

theorem wp_schedule_quiet (hP : Unreserved P) (pending : PendingSchedule)
    (h : Quiet P w₀ t w) :
    wp (.alone sink) (schedule pending)
      (fun x t w => Quiet P w₀ t w ∧ Yields (·.For pending w.terminals) x) t w := by
  apply wp_seq (wp_terminalParentId_quiet _ h) fun _ _ _ h => h
  rintro parent t w ⟨h, hx⟩
  cases parent
  case some parent => exact ⟨h, parent, hx parent rfl⟩
  case none =>
    apply (acquireParentSlot_silent _).seq h fun _ _ _ h => ⟨h, trivial⟩
    intro held t w h
    cases held
    case none => exact ⟨h, trivial⟩
    case some held =>
      obtain ⟨hp, hw⟩ := h
      simp only [wp_bind, wp_observe, onReservations, wp_zoom]
      refine wp_alone_iff.mpr fun x table w he => ?_
      have h := wp_alone_iff.mp (wp_reserve_quiet _ ⟨trivial, hw⟩) x table w he
      have hx := wp_alone_iff.mp (wp_reserve_targets _) x table w he
      have h : Quiet P w₀ { t with reservations := table } w := ⟨hP _ _ hp, h.right⟩
      cases x
      case ok found => exact ⟨h, rfl, rfl, hx.right, _, _, _, _, he⟩
      case error e =>
        rw [andThen_ok]
        apply (releaseHeldSlot_silent _).seq h fun _ _ _ h => ⟨h, trivial⟩
        intro _ t w h
        split
        case isTrue | isFalse => exact ⟨h, trivial⟩

-- What an attempt has settled: all messages of its input when it was dispatched, the head when it was
-- dropped, and otherwise nothing.
def Attempted (role : SchedulerRole) (queued : QueuedRequest) (pending : Except Failure PendingSchedule)
    (w₀ w : SinkWorld) : Except Failure ScheduleAttemptOutcome → Prop
  | .ok (.dispatched reserved) => ∃ p, pending = .ok p ∧
      (ScheduleDecision.reserved reserved).For p w.terminals ∧
      w.done = w₀.done ++ [.forward (reserved.sourceMsg :: reserved.ackAfterDispatch)
        (buildDispatchOutputs role reserved.gpuTargets reserved.payload.runId reserved.payload)]
  | .ok .dropped => ∃ p, pending = .ok p ∧ ScheduleDecision.dropped.For p w.terminals ∧
      w.done = w₀.done ++ [.ack queued.msg]
  | .ok .blocked | .error _ => w.done = w₀.done

theorem wp_executeScheduleDecision_quiet {decision : ScheduleDecision} (hd : decision.For pending w.terminals)
    (h : Quiet P w₀ t w) :
    wp (.alone sink) (executeScheduleDecision role queued decision)
      (fun x t w => P t ∧ w₀.terminals ⊆ w.terminals ∧
        Attempted role queued (.ok pending) w₀ w x) t w := by
  obtain ⟨hq, hdone, ht⟩ := h
  cases decision
  case blocked => exact ⟨hq, ht, hdone⟩
  case dropped =>
    simp only [executeScheduleDecision, wp_bind, RoleM.wp_context, RoleM.wp_perform_alone]
    apply SinkWorld.forall_reports
    case done => exact ⟨hq, ht, pending, rfl, hd, by rw [hdone]⟩
    case failed => exact fun _ => ⟨hq, ht, hdone⟩
  case reserved reserved =>
    simp only [executeScheduleDecision, dispatchReservedSchedule, wp_bind, RoleM.wp_perform_alone]
    apply SinkWorld.forall_reports
    case done => exact ⟨hq, ht, pending, rfl, hd, by rw [hdone]⟩
    case failed =>
      intro e
      apply (rollback_silent _).seq ⟨hq, hdone, ht⟩
      all_goals
        rintro _ _ _ ⟨hq, hdone, ht⟩
        exact ⟨hq, ht, hdone⟩

theorem wp_attemptSchedule (hP : Unreserved P) (queued : QueuedRequest)
    (pending : Except Failure PendingSchedule) (h : Quiet P w₀ t w) :
    wp (.alone sink) (attemptSchedule role queued pending)
      (fun x t w => P t ∧ w₀.terminals ⊆ w.terminals ∧
        Attempted role queued pending w₀ w x) t w := by
  cases pending
  case error => exact ⟨h.left, h.right.right, h.right.left⟩
  case ok pending =>
    apply wp_seq (wp_schedule_quiet hP pending h)
    case he => exact fun _ _ _ ⟨⟨hq, hdone, ht⟩, _⟩ => ⟨hq, ht, hdone⟩
    case hf => exact fun _ _ _ ⟨h, hd⟩ => wp_executeScheduleDecision_quiet hd h

end Attempt

open RoleState (Queues queues_loose)

section Tick

variable {role : SchedulerRole} {items : List QueuedRequest} {ids : Finset String} {w₀ w : SinkWorld}
  {t : RoleState}

-- What a tick has settled: nothing, and then the queue is as it was, or some queued requests by a single sink
-- operation, and then exactly these are gone from the queue.
def Ticked (role : SchedulerRole) (items : List QueuedRequest) (ids : Finset String) (w₀ : SinkWorld) (t : RoleState)
    (w : SinkWorld) : Prop :=
  w₀.terminals ⊆ w.terminals ∧
    ((w.done = w₀.done ∧ t.Queues items ids) ∨
      ∃ members op, (∀ q ∈ members, q ∈ items) ∧ (members.map (queueKey ·.msg)).Nodup ∧
        Settlement role w.terminals members op ∧ w.done = w₀.done ++ [op] ∧
        t.Queues (items.filter fun q => queueKey q.msg ∉ members.map (queueKey ·.msg))
          (ids.filter (· ∉ members.map (queueKey ·.msg))))

theorem Ticked.nothing (h : Quiet (Queues items ids) w₀ t w) : Ticked role items ids w₀ t w :=
  ⟨h.right.right, .inl ⟨h.right.left, h.left⟩⟩

-- The finished messages leave the queue, whatever their order.
theorem wp_complete (ms : List Message) {keys : List String} (h : t.Queues items ids)
    (hk : ∀ key, key ∈ ms.map queueKey ↔ key ∈ keys) :
    wp (.alone sink) (do modify (RoleState.clearFailures ms); finishRequest ms)
      (fun _ t w' => w' = w ∧
        t.Queues (items.filter fun q => queueKey q.msg ∉ keys) (ids.filter (· ∉ keys))) t w := by
  refine ⟨rfl, ?_, ?_⟩
  · simp only [RoleState.clearFailures, items_retain, h.left, hk]
  · simp only [RoleState.clearFailures, h.right, hk]

theorem wp_markRequestsFailed (runIds : List String) :
    wp (.alone sink) (markRequestsFailed runIds) (fun x t' w' => x = .ok () ∧ t' = t ∧ w' = w) t w := by
  induction runIds
  case nil => exact ⟨rfl, rfl, rfl⟩
  case cons hi =>
    simp only [markRequestsFailed, wp_bind, RoleM.wp_perform_alone]
    intro r w' hw
    exact hw ▸ hi

theorem wp_retryOrDlq (hm : queued ∈ items) (h : Quiet (Queues items ids) w₀ t w) (e : Failure) :
    wp (.alone sink) (retryOrDlq role queued e) (fun _ t w => Ticked role items ids w₀ t w) t w := by
  simp only [retryOrDlq, wp_bind, wp_modify, andThen_ok, wp_get, wp_ite]
  have h : Quiet (Queues items ids) w₀ (t.incrementFailures queued.msg) w := h
  generalize t.incrementFailures queued.msg = t at h
  split
  case isTrue => exact .nothing h
  case isFalse =>
    -- after the handoff nothing can fail
    have hdone : ∀ op, (∀ terminals, Settlement role terminals [queued] op) →
        wp (.alone sink) (do
            markRequestsFailed (failedRunIds queued)
            modify (RoleState.clearFailures [queued.msg])
            finishRequest [queued.msg])
          (fun _ t w => Ticked role items ids w₀ t w) t { w with done := w.done ++ [op] } := by
      intro op hop
      apply wp_seq (wp_markRequestsFailed _) fun _ _ _ he => by cases he.left
      rintro _ t' w' ⟨_, ht, hw⟩
      subst ht hw
      apply wp_mono ?_ (wp_complete [queued.msg] h.left fun _ => Iff.rfl)
      rintro x t w' ⟨hw, hq⟩
      subst hw
      exact ⟨h.right.right, .inr ⟨[queued], op, by simpa using hm, by simp, hop _, by rw [h.right.left], hq⟩⟩
    simp only [handOffToDlq]
    split
    case h_1 =>
      rw [RoleM.wp_perform_alone]
      exact SinkWorld.forall_reports (hdone _ fun _ => .childDeadLettered) fun _ => Ticked.nothing h
    case h_2 =>
      rw [RoleM.wp_perform_alone]
      exact SinkWorld.forall_reports (hdone _ fun _ => .deadLettered) fun _ => Ticked.nothing h

theorem wp_settleRequest (hm : queued ∈ items)
    (hp : Yields (fun pending => ∃ members, Planned items members queued pending) pending)
    (hq : t.Queues items ids) (ht : w₀.terminals ⊆ w.terminals) (h : Attempted role queued pending w₀ w x) :
    wp (.alone sink) (settleRequest role queued x) (fun _ t w => Ticked role items ids w₀ t w) t w := by
  cases x
  case error e => exact wp_retryOrDlq hm ⟨hq, h, ht⟩ e
  case ok outcome =>
    cases outcome
    case blocked =>
      apply instantNow_silent.seq ⟨hq, h, ht⟩ fun _ _ _ h => .nothing h
      intro now t w h
      exact (deferRequest_quiet queues_loose now _).wp h fun _ _ _ h => .nothing h
    case dispatched reserved =>
      have ⟨p, he, ⟨hs, ha, hne, _, _, _, _, hr⟩, hdone⟩ := h
      subst he
      have ⟨members, hp⟩ := hp
      have hsources : reserved.sourceMsg :: reserved.ackAfterDispatch = members.map (·.msg) := by
        rw [hs, ha, hp.sources]
      rw [hsources] at hdone
      have hkeys : ∀ key, key ∈ (reserved.ackAfterDispatch ++ [reserved.sourceMsg]).map queueKey ↔
          key ∈ members.map (queueKey ·.msg) := by
        intro key
        have : members.map (queueKey ·.msg) = (reserved.sourceMsg :: reserved.ackAfterDispatch).map queueKey := by
          rw [hsources, List.map_map]
          rfl
        rw [this]
        simp [or_comm]
      apply wp_mono ?_ (wp_complete _ hq hkeys)
      intro _ t w' ⟨hw, hq⟩
      subst hw
      exact ⟨ht, .inr ⟨members, _, hp.subset, hp.distinct, .dispatched hp.carries hr hne, hdone, hq⟩⟩
    case dropped =>
      have ⟨p, he, ⟨parent, hparent, hterm⟩, hdone⟩ := h
      subst he
      have ⟨_, hp⟩ := hp
      apply wp_mono ?_ (wp_complete [queued.msg] hq fun _ => Iff.rfl)
      intro _ t w' ⟨hw, hq⟩
      subst hw
      refine ⟨ht, .inr ⟨[queued], _, by simpa using hm, by simp, ?_, hdone, hq⟩⟩
      exact .dropped (hp.parent ▸ hparent) hterm

theorem wp_processNextRequest (hn : (items.map (queueKey ·.msg)).Nodup) (hd : ∀ q ∈ items, q.Decoded)
    (hq : t.Queues items ids) :
    wp (.alone sink) (processNextRequest role) (fun _ t' w' => Ticked role items ids w t' w') t w := by
  apply wp_seq (wp_nextRequest queues_loose hq) fun _ _ _ h => .nothing h.left
  rintro request t w ⟨h, hf⟩
  apply wp_seq (wp_pendingSchedule hn hd hf h) fun _ _ _ h => .nothing h.left
  rintro found t w ⟨h, hp⟩
  cases found
  case none => exact .nothing h
  case some found =>
    obtain ⟨hm, hp⟩ := hp found rfl
    simp only [wp_bind, wp_observe]
    apply wp_mono ?_ (wp_attemptSchedule queues_loose.reserve _ _ h)
    rintro outcome t w ⟨hq, ht, ha⟩
    exact wp_settleRequest hm hp hq ht ha

end Tick

section Handle

variable {items : List QueuedRequest} {ids : Finset String} {w : SinkWorld} {t : RoleState} {m : Message}

-- A message that is queued when it is accepted, rather than expanded into its children.
def Queueable (m : Message) : Prop :=
  ∃ payload, decodeSchedulePayload m.payload m.runId = .ok payload ∧ isFanoutParent payload.rawPayload = false

-- What a call of the handler has done: nothing to the queue and the sink, or it has queued the message, or
-- it has expanded a fanout parent.
def Handled (items : List QueuedRequest) (ids : Finset String) (w₀ : SinkWorld) (m : Message) (t : RoleState)
    (w : SinkWorld) : Prop :=
  w₀.terminals ⊆ w.terminals ∧
    ((w.done = w₀.done ∧ t.Queues items ids) ∨
      (∃ q : QueuedRequest, q.msg = m ∧ q.Decoded ∧ Queueable m ∧ queueKey m ∉ ids ∧ w.done = w₀.done ∧
        t.Queues (items ++ [q]) (insert (queueKey m) ids)) ∨
      (¬Queueable m ∧ ∃ children, w.done = w₀.done ++ [.forward [m] children] ∧ t.Queues items ids))

theorem Handled.nothing (h : Quiet (Queues items ids) w₀ t w) :
    Handled items ids w₀ m t w :=
  ⟨h.right.right, .inl ⟨h.right.left, h.left⟩⟩

theorem wp_handleSchedule (hq : t.Queues items ids) :
    wp (.alone sink) (handleSchedule role m) (fun _ t' w' => Handled items ids w m t' w') t w := by
  have h : Quiet (Queues items ids) w t w := ⟨hq, rfl, fun _ h => h⟩
  simp only [handleSchedule, wp_bind, wp_ofExcept]
  cases hd : decodeSchedulePayload m.payload m.runId
  case error => exact .nothing h
  case ok payload =>
    simp only [andThen_ok, wp_ite]
    split
    case isTrue hf =>
      have hn : ¬Queueable m := by
        rintro ⟨p, hp, hn⟩
        cases hd.symm.trans hp
        rw [hf] at hn
        cases hn
      apply Silent.ofExcept.seq h fun _ _ _ h => .nothing h
      intro plan t w h
      apply (initGroup_silent _ _).seq h fun _ _ _ h => .nothing h
      intro _ t w h
      simp only [RoleM.wp_context, wp_bind, RoleM.wp_perform_alone]
      apply SinkWorld.forall_reports
      case done => exact ⟨h.right.right, .inr (.inr ⟨hn, _, by rw [h.right.left], h.left⟩)⟩
      case failed => exact fun _ => .nothing h
    case isFalse hf =>
      simp only [enqueueRequest, wp_bind, wp_get, andThen_ok, wp_ite]
      split
      case isTrue => exact .nothing h
      case isFalse hk =>
        rw [RoleM.wp_perform_alone]
        intro now w' hw
        cases hw
        refine ⟨fun _ h => h, .inr (.inl ⟨⟨m, payload, now⟩, rfl, hd, ⟨payload, hd, by simpa using hf⟩, ?_⟩)⟩
        rw [hq.right] at hk
        exact ⟨hk, rfl, items_pushBack.trans (by rw [hq.left]), by rw [hq.right]⟩

theorem applyRelease_quiet (payload : ReleasePayload) :
    Keeps (.alone sink) (Quiet (Queues items ids) w₀) (applyRelease payload) := by
  have hclear : Keeps (.alone sink) (Quiet (Queues items ids) w₀)
      (modify (RoleState.mapQueue PriorityQueue.clearDeferrals) : RoleM RoleState Unit) :=
    .modify fun _ _ ⟨hq, hw⟩ => ⟨⟨items_clearDeferrals.trans hq.left, hq.right⟩, hw⟩
  apply Keeps.bind (Silent.context (release_silent _ _) _ _)
  intro _
  cases payload.parentRunId
  case none => exact hclear
  case some parent =>
    apply Keeps.ite
    case h₁ => exact .bind (releaseSlot_silent _ _ _) fun _ => hclear
    case h₂ => exact hclear

theorem wp_handle (hq : t.Queues items ids) (stream : String) :
    wp (.alone sink) (handle role m stream) (fun _ t' w' => Handled items ids w m t' w') t w := by
  have h : Quiet (Queues items ids) w t w := ⟨hq, rfl, fun _ h => h⟩
  simp only [handle, wp_ite]
  split
  case isTrue => exact wp_handleSchedule hq
  case isFalse =>
    split
    case isFalse => exact .nothing h
    case isTrue =>
      apply Silent.ofExcept.seq h fun _ _ _ h => .nothing h
      intro payload t w h
      exact (applyRelease_quiet payload).wp h fun _ _ _ h => .nothing h

end Handle

section Run

variable {role : SchedulerRole} {D : Set Message} {items members : List QueuedRequest} {ids : Finset String}
  {w w' : SinkWorld} {acc : List Message} {op : SinkOp} {m : Message} {q : QueuedRequest}

theorem Settlement.sources (h : Settlement role terminals members op) : op.sources = members.map (·.msg) := by
  cases h <;> rfl

theorem Settlement.mono (h : Settlement role terminals members op) (ht : terminals ⊆ terminals') :
    Settlement role terminals' members op := by
  cases h
  case dispatched hr hn hc => exact .dispatched hc hr hn
  case dropped hp hm => exact .dropped hp (ht hm)
  case deadLettered => exact .deadLettered
  case childDeadLettered => exact .childDeadLettered

theorem Settlement.acks_iff (h : Settlement role terminals members op) :
    op.acks m ↔ queueKey m ∈ members.map (queueKey ·.msg) := by
  simp [SinkOp.acks, h.sources]

-- The books of a run: every message was accepted as often as it was settled or is queued, and every sink
-- operation settles accepted messages or expands a fanout parent.
structure Accounted (role : SchedulerRole) (D : Set Message) (items : List QueuedRequest) (ids : Finset String)
    (w : SinkWorld) (acc : List Message) : Prop where
  ids : ids = (items.map (queueKey ·.msg)).toFinset
  nodup : (items.map (queueKey ·.msg)).Nodup
  queued : ∀ q ∈ items, q.Decoded ∧ q.msg ∈ acc
  accepted : ∀ m ∈ acc, m ∈ D ∧ Queueable m
  balance : ∀ m ∈ D, Queueable m → (acc.map queueKey).count (queueKey m) =
    w.done.countP (·.acks m) + (items.map (queueKey ·.msg)).count (queueKey m)
  ops : ∀ op ∈ w.done,
    (∃ members, Settlement role w.terminals members op ∧ ∀ q ∈ members, q.msg ∈ acc) ∨
    (∃ p ∈ D, ¬Queueable p ∧ op.sources = [p])

namespace Accounted

theorem empty : Accounted role D [] ∅ {} [] where
  ids := rfl
  nodup := .nil
  queued _ h := nomatch h
  accepted _ h := nomatch h
  balance _ _ _ := rfl
  ops _ h := nomatch h

theorem ops_mono (h : Accounted role D items ids w acc) (ht : w.terminals ⊆ terminals) (ha : acc ⊆ acc') :
    ∀ op ∈ w.done, (∃ members, Settlement role terminals members op ∧ ∀ q ∈ members, q.msg ∈ acc') ∨
      (∃ p ∈ D, ¬Queueable p ∧ op.sources = [p]) := by
  intro op ho
  apply (h.ops op ho).imp_left
  intro ⟨members, hs, hm⟩
  exact ⟨members, hs.mono ht, fun q hq => ha (hm q hq)⟩

theorem quiet (h : Accounted role D items ids w acc) (hd : w'.done = w.done) (ht : w.terminals ⊆ w'.terminals) :
    Accounted role D items ids w' acc where
  ids := h.ids
  nodup := h.nodup
  queued := h.queued
  accepted := h.accepted
  balance := hd ▸ h.balance
  ops := hd ▸ h.ops_mono ht fun _ h => h

theorem settle (h : Accounted role D items ids w acc) (hsub : ∀ q ∈ members, q ∈ items)
    (hop : Settlement role w'.terminals members op) (hd : w'.done = w.done ++ [op])
    (ht : w.terminals ⊆ w'.terminals) :
    Accounted role D (items.filter fun q => queueKey q.msg ∉ members.map (queueKey ·.msg))
      (ids.filter (· ∉ members.map (queueKey ·.msg))) w' acc := by
  have hkeys : (items.filter fun q => queueKey q.msg ∉ members.map (queueKey ·.msg)).map (queueKey ·.msg) =
      (items.map (queueKey ·.msg)).filter (· ∉ members.map (queueKey ·.msg)) := by
    rw [List.filter_map]
    rfl
  constructor
  case ids => rw [hkeys, h.ids, List.toFinset_filter]; simp
  case nodup => exact hkeys ▸ h.nodup.filter _
  case queued => exact fun q hq => h.queued q (List.mem_filter.mp hq).left
  case accepted => exact h.accepted
  case balance =>
    intro m hm hq
    rw [h.balance m hm hq, hd, hkeys, List.countP_append]
    by_cases hk : queueKey m ∈ members.map (queueKey ·.msg)
    case pos =>
      have hin : queueKey m ∈ items.map (queueKey ·.msg) := by
        have ⟨q, hq, he⟩ := List.mem_map.mp hk
        exact he ▸ List.mem_map_of_mem (hsub q hq)
      have hout : queueKey m ∉ (items.map (queueKey ·.msg)).filter (· ∉ members.map (queueKey ·.msg)) :=
        fun hf => of_decide_eq_true (List.mem_filter.mp hf).right hk
      rw [List.count_eq_one_of_mem h.nodup hin, List.count_eq_zero_of_not_mem hout]
      simp [hop.acks_iff.mpr hk]
    case neg =>
      have hn : op.acks m = false := by
        cases ha : op.acks m
        case false => rfl
        case true => exact absurd (hop.acks_iff.mp ha) hk
      rw [List.count_filter (by simpa using hk)]
      simp [hn]
  case ops =>
    intro o ho
    rw [hd, List.mem_append, List.mem_singleton] at ho
    cases ho
    case inl ho => exact h.ops_mono ht (fun _ h => h) o ho
    case inr ho => exact .inl ⟨members, ho ▸ hop, fun q hq => (h.queued q (hsub q hq)).right⟩

theorem enqueue (h : Accounted role D items ids w acc) (hD : q.msg ∈ D) (hd : q.Decoded) (hq : Queueable q.msg)
    (hk : queueKey q.msg ∉ ids) (hdone : w'.done = w.done) (ht : w.terminals ⊆ w'.terminals) :
    Accounted role D (items ++ [q]) (insert (queueKey q.msg) ids) w' (acc ++ [q.msg]) := by
  have hk : queueKey q.msg ∉ items.map (queueKey ·.msg) := by
    rw [h.ids] at hk
    exact fun hm => hk (List.mem_toFinset.mpr hm)
  constructor
  case ids =>
    ext key
    simp [h.ids]
  case nodup =>
    rw [List.map_append]
    exact h.nodup.append (by simp) (by simpa using hk)
  case queued =>
    intro p hp
    rw [List.mem_append, List.mem_singleton] at hp
    cases hp
    case inl hp => exact (h.queued p hp).imp_right (List.mem_append_left _)
    case inr hp => subst hp; exact ⟨hd, by simp⟩
  case accepted =>
    intro m hm
    rw [List.mem_append, List.mem_singleton] at hm
    cases hm
    case inl hm => exact h.accepted m hm
    case inr hm => exact hm ▸ ⟨hD, hq⟩
  case balance =>
    intro m hm hq
    rw [hdone, List.map_append, List.map_append, List.count_append, List.count_append, h.balance m hm hq,
      Nat.add_assoc]
    rfl
  case ops => exact hdone ▸ h.ops_mono ht (List.subset_append_left _ _)

-- Messages of the same key are the same, so no accepted message is a fanout parent.
theorem expand (h : Accounted role D items ids w acc) (hD : Set.InjOn queueKey D) (hp : m ∈ D)
    (hn : ¬Queueable m) (hdone : w'.done = w.done ++ [.forward [m] children])
    (ht : w.terminals ⊆ w'.terminals) : Accounted role D items ids w' acc := by
  constructor
  case ids => exact h.ids
  case nodup => exact h.nodup
  case queued => exact h.queued
  case accepted => exact h.accepted
  case balance =>
    intro m' hm hq
    have hne : queueKey m ≠ queueKey m' := fun he => hn (hD hp hm he ▸ hq)
    rw [h.balance m' hm hq, hdone, List.countP_append]
    simp [SinkOp.acks, SinkOp.sources, hne]
  case ops =>
    intro op ho
    rw [hdone, List.mem_append, List.mem_singleton] at ho
    cases ho
    case inl ho => exact h.ops_mono ht (fun _ h => h) op ho
    case inr ho => exact .inr ⟨m, hp, hn, ho ▸ rfl⟩

end Accounted

theorem accounted_of_run (hD : Set.InjOn queueKey D) (h : Run role D t w acc) :
    Accounted role D t.queueState.queue.items t.queueState.pendingIds w acc := by
  induction h
  case start t he =>
    have hq : t.queueState.queue.items = [] := by rw [PriorityQueue.items, he.left]; rfl
    rw [hq, he.right]
    exact .empty
  case discover hi => exact hi
  case tick t w acc x t' w' _ he hi =>
    have hd := fun q hq => (hi.queued q hq).left
    obtain ⟨ht, h⟩ := wp_alone_iff.mp (wp_processNextRequest hi.nodup hd ⟨rfl, rfl⟩) _ _ _ he
    cases h
    case inl h =>
      obtain ⟨hdone, hq⟩ := h
      rw [hq.left, hq.right]
      exact hi.quiet hdone ht
    case inr h =>
      obtain ⟨members, op, hsub, _, hop, hdone, hq⟩ := h
      rw [hq.left, hq.right]
      exact hi.settle hsub hop hdone ht
  case handle t w acc m stream x t' w' _ hm he hi =>
    obtain ⟨ht, h⟩ := wp_alone_iff.mp (wp_handle ⟨rfl, rfl⟩ stream) _ _ _ he
    have hnone : t'.queueState.pendingIds = t.queueState.pendingIds → accepted t m t' = [] := by
      intro he
      rw [accepted, he]
      exact if_neg fun h => h.left h.right
    cases h
    case inl h =>
      obtain ⟨hdone, hq⟩ := h
      rw [hnone hq.right, hq.left, hq.right, List.append_nil]
      exact hi.quiet hdone ht
    case inr h =>
      cases h
      case inl h =>
        obtain ⟨q, hm', hd, hqu, hk, hdone, hq⟩ := h
        have hsome : accepted t m t' = [m] := if_pos ⟨hk, by rw [hq.right]; exact Finset.mem_insert_self _ _⟩
        rw [hsome, hq.left, hq.right]
        subst hm'
        exact hi.enqueue hm hd hqu hk hdone ht
      case inr h =>
        obtain ⟨hn, children, hdone, hq⟩ := h
        rw [hnone hq.right, hq.left, hq.right, List.append_nil]
        exact hi.expand hD hm hn hdone ht

-- Every accepted message is queued or settled, once for each time it was accepted; attempts that are blocked
-- or fail settle nothing.
theorem accepted_settled_once {t : RoleState} (hD : Set.InjOn queueKey D) (h : Run role D t w acc) :
    t.queueState.pendingIds = t.queueState.keys.toFinset ∧
    t.queueState.keys.Nodup ∧
    (∀ m ∈ acc, (acc.map queueKey).count (queueKey m) =
      w.done.countP (·.acks m) + t.queueState.keys.count (queueKey m)) ∧
    (∀ m ∈ acc, ∀ op ∈ w.done, op.acks m →
      ∃ members, Settlement role w.terminals members op ∧ ∀ q ∈ members, q.msg ∈ acc) ∧
    (∀ queued pending x t' w', (attemptSchedule role queued pending).Ends sink t w x t' w' →
      (x = .ok .blocked ∨ ∃ e, x = .error e) → w'.done = w.done) := by
  have ha := accounted_of_run hD h
  refine ⟨ha.ids, ha.nodup, ?_, ?_, ?_⟩
  · intro m hm
    have ⟨hm, hq⟩ := ha.accepted m hm
    exact ha.balance m hm hq
  · intro m hm op ho hk
    apply (ha.ops op ho).resolve_right
    intro ⟨p, hp, hn, hs⟩
    have ⟨hm, hq⟩ := ha.accepted m hm
    have hk : queueKey m = queueKey p := by simpa [SinkOp.acks, hs] using hk
    exact hn (hD hm hp hk ▸ hq)
  · intro queued pending x t' w' he hx
    have hq : Quiet (Queues t.queueState.queue.items t.queueState.pendingIds) w t w :=
      ⟨⟨rfl, rfl⟩, rfl, fun _ h => h⟩
    have ⟨_, _, ha⟩ := wp_alone_iff.mp (wp_attemptSchedule queues_loose.reserve queued pending hq) _ _ _ he
    cases hx
    case inl hx => subst hx; exact ha
    case inr hx =>
      have ⟨e, hx⟩ := hx
      subst hx
      exact ha

-- A sink and stores that do what they are asked for.
def obliging : Oracle Op SinkWorld
  | _, .instantNow, w => some (0, w)
  | _, .systemNow, w => some (.ok 0, w)
  | _, .newUuid, w => some ("batch", w)
  | _, .hmgetActive _, w => some (.ok [], w)
  | _, .reserveIdle _ _ delta, w => some (.ok [1, delta, delta], w)
  | _, .forwardMany sources outputs, w =>
    some (.ok (), { w with done := w.done ++ [.forward sources outputs] })
  | _, _, _ => none

theorem obliging_sound : Oracle.Sound obliging sink := by
  intro ρ op w r w' h
  cases op <;> cases h
  case forwardMany => exact .inl ⟨rfl, rfl⟩
  all_goals rfl

def pairMessage (runId : String) : Message :=
  scheduleMessage runId (requestFields 1 1024 ++ [("stage_context", .object [])])

def plainStart : RoleState :=
  placing ⟨[gpu 0 8192], by decide⟩

def pairRole : SchedulerRole :=
  { plainRole with config := pairConfig }

-- Two messages are accepted and dispatched as one batch.
theorem accepted_settled_once_dispatched :
    ∃ t w, Run pairRole {pairMessage "a", pairMessage "b"} t w [pairMessage "a", pairMessage "b"] ∧
      w.done.length = 1 ∧ ∀ m ∈ [pairMessage "a", pairMessage "b"],
        1 = w.done.countP (·.acks m) + t.queueState.keys.count (queueKey m) := by
  have h : (((handle pairRole (pairMessage "a") "schedule").toProg plainStart).run obliging 10 {}).any fun x =>
      queueKey (pairMessage "a") ∈ x.1.2.queueState.pendingIds ∧
      queueKey (pairMessage "b") ∉ x.1.2.queueState.pendingIds ∧
      (((handle pairRole (pairMessage "b") "schedule").toProg x.1.2).run obliging 10 x.2).any fun y =>
        queueKey (pairMessage "b") ∈ y.1.2.queueState.pendingIds ∧
        (((processNextRequest pairRole).toProg y.1.2).run obliging 50 y.2).any fun z => z.2.done.length = 1 := by
    simp only [processNextRequest, pendingSchedule, BatchRequest.buildPendingSchedule,
      buildRequestBatchPayload, decodeSchedulePayload_encode]
    decide +kernel
  have ⟨((x, t), w), hh, hp⟩ := (Option.any_eq_true _ _).mp h
  have ⟨hk, hnew, hp⟩ := of_decide_eq_true hp
  have ⟨((x', t'), w'), hh', hp⟩ := (Option.any_eq_true _ _).mp hp
  have ⟨hk', hp⟩ := of_decide_eq_true hp
  have ⟨((x'', t''), w''), ht, hd⟩ := (Option.any_eq_true _ _).mp hp
  have ha : accepted plainStart (pairMessage "a") t = [pairMessage "a"] := if_pos ⟨Finset.notMem_empty _, hk⟩
  have hb : accepted t (pairMessage "b") t' = [pairMessage "b"] := if_pos ⟨hnew, hk'⟩
  have hrun := Run.handle (D := {pairMessage "a", pairMessage "b"}) (.start ⟨rfl, rfl⟩) (.inl rfl)
    (Prog.ends_of_run obliging_sound hh)
  rw [ha] at hrun
  have hrun := Run.handle hrun (.inr rfl) (Prog.ends_of_run obliging_sound hh')
  rw [hb] at hrun
  have hrun := Run.tick hrun (Prog.ends_of_run obliging_sound ht)
  have hinj : Set.InjOn queueKey {pairMessage "a", pairMessage "b"} := by
    rw [Set.injOn_pair]
    exact fun h => absurd h (by decide)
  have ⟨_, _, hcount, _⟩ := accepted_settled_once hinj hrun
  refine ⟨t'', w'', hrun, of_decide_eq_true hd, fun m hm => (Eq.trans ?_ (hcount m hm))⟩
  revert m
  decide

end Run

end Scheduler
