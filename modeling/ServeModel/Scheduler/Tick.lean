import ServeModel.Scheduler.Sink
import ServeModel.Queue.Theorems.Delivery

-- What the ticks of a scheduler do one after the other, with the database that its calls of the sink meet.
namespace Scheduler

section Report

-- The request that a tick has selected, and what came of it.
inductive TickReport
  | idle
  -- the head waits for others to join its batch
  | waiting (head : QueuedRequest)
  -- no request could be made of the head
  | unformed (head : QueuedRequest) (e : Failure)
  | attempted (head : QueuedRequest) (outcome : Except Failure ScheduleAttemptOutcome)

def selectHead (now : Instant) : List QueueSelection → RoleM RoleState (Option QueueSelection)
  | [] => return none
  | selection :: rest => do
    if selection.status = .temporarilyBlocked then
      if (← terminalParentId selection.request.payload).isSome then return some selection
      deferRequest now selection.request.msg
      selectHead now rest
    else return some selection

def formRequest (role : SchedulerRole) (selection : QueueSelection) : RoleM RoleState SchedulerRequest := do
  if selection.status = .temporarilyBlocked then return .single selection.request
  else
    let t ← get
    match ← createBatchRequest role.config t.reservations t.queueState.queue selection.request with
    | some request => return request
    | none => return .single selection.request

def nextHead (role : SchedulerRole) (now : Instant) : RoleM RoleState (Option QueueSelection) := do
  if !(← get).queueState.queue.hasReadyCandidate now then return none
  let view ← onReservations ResourceReservationTable.resourceAvailabilitySnapshot
  let candidates := rankReadyCandidates role.score view now (← get).queueState.queue
  modify (RoleState.mapQueue (PriorityQueue.clearExpired now))
  selectHead now candidates

-- Goes on with the request that was made of the head.
def reportRequest (role : SchedulerRole) (head : QueuedRequest) (request : SchedulerRequest) :
    RoleM RoleState TickReport := do
  let some (queued, pending) ← pendingSchedule request | return .waiting head
  let outcome ← Routine.observe (attemptSchedule role queued pending)
  settleRequest role queued outcome
  return .attempted queued outcome

-- `processNextRequest` with a report of what it does.
def tick (role : SchedulerRole) : RoleM RoleState TickReport := do
  let some selection ← nextHead role (← RoleM.perform .instantNow) | return .idle
  match ← Routine.observe (formRequest role selection) with
  | .error e => return .unformed selection.request e
  | .ok request => reportRequest role selection.request request

def TickReport.result : TickReport → RoleM RoleState Unit
  | unformed _ e => throw e
  | _ => pure ()

variable {role : SchedulerRole}

theorem selectRequest_eq :
    selectRequest role now candidates = (do
      match ← selectHead now candidates with
      | some selection => formRequest role selection
      | none => return .empty) := by
  induction candidates
  case nil => simp [selectRequest, selectHead]
  case cons selection rest hi =>
    rw [selectRequest, selectHead]
    split
    case isTrue hs =>
      simp only [bind_assoc]
      congr 1
      funext parent
      split
      case isTrue => simp [formRequest, hs]
      case isFalse => simp [hi]
    case isFalse hs =>
      rw [pure_bind]
      exact (if_neg hs).symm

theorem nextRequest_eq :
    nextRequest role = (do
      match ← nextHead role (← RoleM.perform .instantNow) with
      | some selection => formRequest role selection
      | none => return .empty) := by
  simp only [nextRequest, nextHead, bind_assoc, selectRequest_eq]
  congr 1
  funext now
  congr 1
  funext t
  split
  case isTrue | isFalse => simp

theorem processNextRequest_eq :
    processNextRequest role = tick role >>= TickReport.result := by
  have hr : ∀ head request, reportRequest role head request >>= TickReport.result = (do
      let some (queued, pending) ← pendingSchedule request | return
      let outcome ← Routine.observe (attemptSchedule role queued pending)
      settleRequest role queued outcome) := by
    intro head request
    simp only [reportRequest, bind_assoc]
    congr 1
    funext found
    cases found
    case none | some => simp [TickReport.result]
  simp only [processNextRequest, nextRequest_eq, tick, bind_assoc]
  congr 1
  funext now
  congr 1
  funext found
  cases found
  case none => simp [TickReport.result, pendingSchedule]
  case some selection =>
    rw [← Routine.observe_rethrow]
    simp only [bind_assoc]
    congr 1
    funext x
    cases x
    case error => simp [TickReport.result]
    case ok request => exact (hr _ _).symm

end Report

section Broker

open Queue Redis

-- The call of the transport behind an operation of the sink. An acknowledgement only fails with the connection.
def SinkOp.call (srv : Server) (streamPrefix : String) : SinkOp → Option (Script (List EntryId))
  | ack _ => none
  | handoff m stream payload stage =>
    some (single (handoffMessageToRun srv m (streamPrefix ++ stream) (some payload.text) (some stage) (some m.runId)))
  | forward sources outputs =>
    some (forwardManyFrom srv sources (outputs.map fun o => { o with stream := streamPrefix ++ o.stream }))

def SinkOp.Succeeds (srv : Server) (streamPrefix : String) (db : Db) (op : SinkOp) : Prop :=
  ∀ script ∈ op.call srv streamPrefix, (script.run db).1.isOk

-- The calls of the sink are kept with the database that each of them has met. Others may change the database
-- in between as they like.
structure BrokerWorld where
  sink : SinkWorld
  clock : Instant
  met : List (SinkOp × Db) := []

def BrokerWorld.Calls (srv : Server) (streamPrefix : String) (w : BrokerWorld) (op : SinkOp) (r : Except Failure Unit)
    (w' : BrokerWorld) : Prop :=
  w.sink.Reports op r w'.sink ∧ w'.clock = w.clock ∧
    ∃ db, (r.isOk ↔ op.Succeeds srv streamPrefix db) ∧ w'.met = w.met ++ [(op, db)]

def broker (srv : Server) (streamPrefix : String) : Machine Op BrokerWorld
  | _, .instantNow, w, r, w' => w.clock ≤ r ∧ w' = { w with clock := r }
  | _, .handoff m stream payload stage, w, r, w' =>
    w.Calls srv streamPrefix (.handoff m stream payload stage) r w'
  | _, .forwardMany sources outputs, w, r, w' => w.Calls srv streamPrefix (.forward sources outputs) r w'
  | _, op, w, r, w' => sink op w.sink r w'.sink ∧ w'.clock = w.clock ∧ w'.met = w.met

theorem broker_sink (op : Op ρ) (w : BrokerWorld) (r : ρ)
    (w' : BrokerWorld) (h : broker srv streamPrefix op w r w') : sink op w.sink r w'.sink := by
  cases op
  case instantNow => rw [h.right]; rfl
  all_goals exact h.left

end Broker

section Shift

variable (srv : Redis.Server) (role : SchedulerRole)

-- One tick in a run: the states around it, how it ended, and the calls of the sink that it made.
structure Turn where
  before : RoleState
  result : Except Failure TickReport
  after : RoleState
  clock : Instant
  met : List (SinkOp × Redis.Db)

-- What a scheduler does between two states. Its handler and the discovery of workers run between the ticks.
inductive Shift : RoleState → BrokerWorld → List Turn → RoleState → BrokerWorld → Prop
  | refl : Shift t w [] t w
  | handle : (Shift t w turns t₁ w₁) → ((handle role m stream).Ends (broker srv role.streamPrefix) t₁ w₁ x t₂ w₂) →
      Shift t w turns t₂ w₂
  | discover : (Shift t w turns t₁ w₁) →
      Shift t w turns ({ t₁ with reservations := table }.mapQueue PriorityQueue.clearDeferrals) w₁
  | tick : (Shift t w turns t₁ w₁) →
      ((tick role).Ends (broker srv role.streamPrefix) t₁ { w₁ with met := [] } x t₂ w₂) →
      Shift t w (turns ++ [⟨t₁, x, t₂, w₂.clock, w₂.met⟩]) t₂ w₂

end Shift

end Scheduler
