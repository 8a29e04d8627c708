import ServeModel.Lib.Concurrent
import ServeModel.Scheduler.Role

-- Schedulers that run beside each other on the shared reserved memory and the shared parent slots, and the
-- GPU workers that report back to them. The stores cannot tell who a reservation or a slot belongs to, so
-- the state of the system also has a ledger that can.
namespace Scheduler

-- A schedule attempt, or the handling of a release message.
inductive Thread
  | attempt (i : Nat)
  | release (d : Nat)
  deriving DecidableEq

-- A GPU reservation. It has no holder when its grant or its rollback never arrived.
structure Claim where
  resourceId : Nat
  memoryMb : Nat
  holder : Option Thread
  deriving DecidableEq

structure Token where
  key : String
  holder : Thread
  deriving DecidableEq

-- A store script that took effect.
inductive Effect
  | decremented (resourceId memoryMb : Nat)
  | slotReturned (key : String)
  deriving DecidableEq

-- The release message of one GPU worker. A dispatched unit goes by the number of its first one.
structure Release where
  unit : Nat
  payload : ReleasePayload
  deriving DecidableEq

namespace Release

-- The parent that scheduling attributes a request with this `parent_run_id` to.
def parent (r : Release) : Option String :=
  r.payload.parentRunId.bind Text.nonBlank

-- What handling the message once does to the stores.
def once (r : Release) : List Effect :=
  .decremented r.payload.resourceId r.payload.memoryMb ::
    ((r.payload.parentRunId.filter (!Text.isBlank ·)).map (.slotReturned <| slotKey ·)).toList

end Release

-- What the worker that a dispatched entry is addressed to reports once it is done.
def workerRelease (output : Output) : Option ReleasePayload := do
  let payload ← output.payload.json
  return {
    runId := output.runId.getD ""
    parentRunId := ((payload.get "parent_run_id").bind Json.asStr).filter (· ≠ "")
    memoryMb := ← (payload.get "memory_mb").bind Json.asNat
    resourceId := ← (payload.get "resource_id").bind Json.asNat
  }

structure Fleet where
  memory : MemoryStore
  slots : SlotStore
  -- the number of attempts and the release messages so far
  attempts : Nat
  releases : List Release
  -- the release messages that have been acknowledged
  acked : List Nat
  claims : List Claim
  tokens : List Token
  effects : List (Thread × Effect)

namespace Fleet

def empty : Fleet where
  memory := .empty
  slots _ := 0
  attempts := 0
  releases := []
  acked := []
  claims := []
  tokens := []
  effects := []

def claimsOn (s : Fleet) (id : Nat) : List Claim :=
  s.claims.filter (·.resourceId = id)

def effectsOf (s : Fleet) (th : Thread) : List Effect :=
  s.effects.filterMap fun (owner, e) => if owner = th then some e else none

def reserveIdle (holder : Option Thread) (id floor delta : Nat) (s : Fleet) : Fleet :=
  match s.memory.reserveIdle id floor delta with
  | (1 :: _, memory) => { s with memory, claims := ⟨id, delta, holder⟩ :: s.claims }
  | (_, memory) => { s with memory }

def decrement (th : Thread) (id amount : Nat) (s : Fleet) : Fleet :=
  if s.memory.accounted id = none ∧ s.memory.active id = none then s
  else { s with
    memory := (s.memory.decrement id amount).2
    claims := s.claims.filter fun c => ¬(c.resourceId = id ∧ c.holder = some th)
    effects := s.effects ++ [(th, .decremented id amount)] }

def acquireSlot (holder : Option Thread) (key : String) (max : Int) (s : Fleet) : Fleet :=
  match s.slots.acquire key max with
  | (1 :: _, slots) => { s with slots, tokens := (holder.map (⟨key, ·⟩)).toList ++ s.tokens }
  | (_, slots) => { s with slots }

def releaseSlot (th : Thread) (key : String) (s : Fleet) : Fleet :=
  { s with
    slots := (s.slots.release key).2
    tokens := s.tokens.filter (· ≠ ⟨key, th⟩)
    effects := s.effects ++ [(th, .slotReturned key)] }

-- The workers of the dispatched unit take over the reservations of the attempt; its parent slot goes to the
-- unit as a whole.
def dispatch (th : Thread) (outputs : List Output) (s : Fleet) : Fleet :=
  let unit := s.releases.length
  let payloads := outputs.filterMap workerRelease
  let ids := payloads.map (·.resourceId)
  { s with
    releases := s.releases ++ payloads.map (⟨unit, ·⟩)
    claims := s.claims.map fun c =>
      if c.holder = some th ∧ c.resourceId ∈ ids then
        { c with holder := some (.release (unit + ids.idxOf c.resourceId)) }
      else c
    tokens := s.tokens.map fun t => if t.holder = th then { t with holder := .release unit } else t }

-- The key of a slot counter has come to the end of its time to live.
def expire (key : String) (s : Fleet) : Fleet :=
  { s with slots := Function.update s.slots key 0 }

-- What an attempt that came to its end still held is lost.
def abandon (th : Thread) (s : Fleet) : Fleet :=
  { s with claims := s.claims.map fun c => if c.holder = some th then { c with holder := none } else c }

end Fleet

-- The circumstances that a fleet runs under: whether store commands and schedulers may fail, whether a
-- dispatch that reports an error may have reached the workers, whether slot keys expire, which requests are
-- attempted, and after which effects of earlier deliveries a release message is still handled.
structure Terms where
  faults : Prop
  losesDispatch : Prop
  expires : Prop
  admits : RoleState → PendingSchedule → Prop
  resumes : List Effect → Prop

section Exec

variable (F : Terms) (th : Thread)

-- The reply of a script gets lost, or it never ran.
def Terms.Fails (r : Except Failure ρ) (s ran s' : Fleet) : Prop :=
  F.faults ∧ (∃ e, r = .error e) ∧ (s' = s ∨ s' = ran)

-- A grant whose reply the scheduler takes for an error has no holder.
def grantee : List Int → Option Thread
  | _ :: accounted :: _ => if accounted < 0 then none else some th
  | _ => none

def ActiveReply (store : MemoryStore) (ids : List Nat) (reply : List (Nat × Nat)) : Prop :=
  List.Forall₂ (fun id x => x.1 = id ∧ ∃ stored, store.active id = some stored ∧ ReadsBack stored x.2)
    (ids.filter (store.active · |>.isSome)) reply

-- What the operations that are not listed reply is left open.
def Fleet.exec : Machine Op Fleet
  | _, .hmgetActive ids, s, r, s' =>
    s' = s ∧ ((F.faults ∧ ∃ e, r = .error e) ∨ ∃ reply, r = .ok reply ∧ ActiveReply s.memory ids reply)
  | _, .reserveIdle id floor delta, s, r, s' =>
    (∃ values, r = .ok values ∧
      List.Forall₂ IntegerReply (s.memory.reserveIdle id floor delta).1 values ∧
      s' = s.reserveIdle (grantee th values) id floor delta) ∨
    F.Fails r s (s.reserveIdle none id floor delta) s'
  | _, .decrementReserved id amount, s, r, s' =>
    (∃ values, r = .ok values ∧ List.Forall₂ IntegerReply (s.memory.decrement id amount).1 values ∧
      s' = s.decrement th id amount) ∨
    F.Fails r s (s.decrement th id amount) s'
  | _, .acquireSlot key max, s, r, s' =>
    (∃ values, r = .ok values ∧ List.Forall₂ IntegerReply (s.slots.acquire key max).1 values ∧
      s' = s.acquireSlot (some th) key max) ∨
    F.Fails r s (s.acquireSlot none key max) s'
  | _, .releaseSlot key, s, r, s' =>
    (∃ value, r = .ok value ∧ IntegerReply (s.slots.release key).1 value ∧ s' = s.releaseSlot th key) ∨
    F.Fails r s (s.releaseSlot th key) s'
  | _, .forwardMany _ outputs, s, r, s' =>
    (r = .ok () ∧ s' = s.dispatch th outputs) ∨
    ((∃ e, r = .error e) ∧ (s' = s ∨ F.losesDispatch ∧ s' = s.dispatch th outputs))
  | _, _, s, _, s' => s' = s

end Exec

def attempt (role : SchedulerRole) (queued : QueuedRequest) (pending : PendingSchedule) :
    RoleM RoleState Unit := do
  let _ ← attemptSchedule role queued (.ok pending)

-- Attempts are numbered in the order of their start. A release message is handled until an acknowledgement
-- of a successful handling arrives.
def fleet (F : Terms) : System Op Fleet Thread (Except Failure Unit × RoleState) where
  init s := s = .empty
  exec := Fleet.exec F
  start
    | .attempt i, p, s, s' =>
      i = s.attempts ∧ s' = { s with attempts := s.attempts + 1 } ∧
        ∃ role queued pending t, F.admits t pending ∧ p = (attempt role queued pending).toProg t
    | .release d, p, s, s' =>
      s' = s ∧ d ∉ s.acked ∧ F.resumes (s.effectsOf (.release d)) ∧
        ∃ r t, s.releases[d]? = some r ∧ p = (applyRelease r.payload).toProg t
  stop
    | .attempt i, p, s, s' => (F.faults ∨ ∃ x, p = .ret x) ∧ s' = s.abandon (.attempt i)
    | .release d, p, s, s' =>
      ((F.faults ∨ ∃ x, p = .ret x) ∧ s' = s) ∨
      ((∃ t, p = .ret (.ok (), t)) ∧ s' = { s with acked := d :: s.acked })
  env s s' := F.expires ∧ ∃ key, s' = s.expire key

end Scheduler
