import ServeModel.Scheduler.Role

-- One scheduler over time: its handler and its background tick run one after the other, while every
-- command may fail or give any reply.
namespace Scheduler

-- What a successful call of the message sink has done.
inductive SinkOp
  | ack (m : Message)
  | handoff (m : Message) (stream : String) (payload : Wire) (stage : String)
  | forward (sources : List Message) (outputs : List Output)

-- The messages that are acknowledged along with the operation.
def SinkOp.sources : SinkOp → List Message
  | ack m => [m]
  | handoff m .. => [m]
  | forward sources _ => sources

def SinkOp.acks (op : SinkOp) (m : Message) : Bool :=
  queueKey m ∈ op.sources.map queueKey

-- The operations that the sink reported as done so far, and the keys of the parents that were reported
-- as terminal.
structure SinkWorld where
  done : List SinkOp := []
  terminals : List String := []

-- A sink operation takes effect when it is reported as done.
def SinkWorld.Reports (w : SinkWorld) (op : SinkOp) (r : Except Failure Unit) (w' : SinkWorld) : Prop :=
  (r = .ok () ∧ w' = { w with done := w.done ++ [op] }) ∨ ((∃ e, r = .error e) ∧ w' = w)

-- The other commands reply anything.
def sink : Machine Op SinkWorld
  | _, .ackMessage m, w, r, w' => w.Reports (.ack m) r w'
  | _, .handoff m stream payload stage, w, r, w' => w.Reports (.handoff m stream payload stage) r w'
  | _, .forwardMany sources outputs, w, r, w' => w.Reports (.forward sources outputs) r w'
  | _, .isTerminal key, w, r, w' =>
    w' = match r with
      | .ok true => { w with terminals := key :: w.terminals }
      | _ => w
  | _, _, w, _, w' => w' = w

namespace SchedulerQueueState

def keys (q : SchedulerQueueState) : List String :=
  q.queue.items.map (queueKey ·.msg)

def IsEmpty (q : SchedulerQueueState) : Prop :=
  q.queue.entries = [] ∧ q.pendingIds = ∅

end SchedulerQueueState

-- Whether a call of the handler has put the message into the queue.
def accepted (t : RoleState) (m : Message) (t' : RoleState) : List Message :=
  if queueKey m ∉ t.queueState.pendingIds ∧ queueKey m ∈ t'.queueState.pendingIds then [m] else []

-- The runs of a scheduler that is given messages of `D`, with the messages that it has accepted in order.
-- The discovery of workers may replace the inventory at any time.
inductive Run (role : SchedulerRole) (D : Set Message) : RoleState → SinkWorld → List Message → Prop
  | start : t.queueState.IsEmpty → Run role D t {} []
  | handle : (Run role D t w acc) → (m ∈ D) → ((handle role m stream).Ends sink t w x t' w') →
      Run role D t' w' (acc ++ accepted t m t')
  | tick : (Run role D t w acc) → ((processNextRequest role).Ends sink t w x t' w') → Run role D t' w' acc
  | discover : (Run role D t w acc) → Run role D { t with reservations := table } w acc

end Scheduler
