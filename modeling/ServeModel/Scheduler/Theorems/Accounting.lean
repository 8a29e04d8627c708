import Mathlib.Data.Finset.Card
import ServeModel.Scheduler.Theorems.Fleet

-- What the accounting of a fleet comes to: which guarantees the stores give to the parents, the runs and
-- the resources, and where they end.
namespace Scheduler

open List Option

section Calm

-- A fleet in which nothing fails and nobody is interrupted.

def fitsReply (values : List Int) : Bool :=
  values.all fun v => -2 ^ 63 ≤ v && v < 2 ^ 63

def Fleet.calm (th : Thread) : Oracle Op Fleet
  | _, .hmgetActive ids, s =>
    some (.ok (ids.filterMap fun id => (s.memory.active id).map (id, ·)), s)
  | _, .reserveIdle id floor delta, s =>
    let values := (s.memory.reserveIdle id floor delta).1
    if fitsReply values then some (.ok values, s.reserveIdle (grantee th values) id floor delta) else none
  | _, .decrementReserved id amount, s =>
    let values := (s.memory.decrement id amount).1
    if fitsReply values then some (.ok values, s.decrement th id amount) else none
  | _, .acquireSlot key max, s =>
    let values := (s.slots.acquire key max).1
    if fitsReply values then some (.ok values, s.acquireSlot (some th) key max) else none
  | _, .releaseSlot key, s =>
    let value := (s.slots.release key).1
    if fitsReply [value] then some (.ok value, s.releaseSlot th key) else none
  | _, .isTerminal _, s => some (.ok false, s)
  | _, .forwardMany _ outputs, s => some (.ok (), s.dispatch th outputs)
  | _, _, _ => none

theorem forall₂_of_fitsReply (h : fitsReply values) : List.Forall₂ IntegerReply values values := by
  induction values
  case nil => exact .nil
  case cons v values hi =>
    simp only [fitsReply, all_cons, Bool.and_eq_true, decide_eq_true_eq] at h
    exact .cons ⟨h.1.1, h.1.2, fun _ => rfl⟩ (hi h.2)

theorem activeReply_filterMap (store : MemoryStore) (ids : List Nat) :
    ActiveReply store ids (ids.filterMap fun id => (store.active id).map (id, ·)) := by
  unfold ActiveReply
  induction ids
  case nil => exact .nil
  case cons id ids hi =>
    cases ha : store.active id
    case none => simpa [ha] using hi
    case some stored =>
      simp only [filterMap_cons, ha, map_some, filter_cons, isSome_some, if_true]
      refine .cons ⟨rfl, stored, ha, ?_⟩ hi
      unfold ReadsBack
      split <;> omega

theorem Fleet.calm_sound (F : Terms) (th : Thread) : Oracle.Sound (Fleet.calm th) (Fleet.exec F th) := by
  intro ρ op s r s' h
  cases op <;> simp only [Fleet.calm] at h <;> try cases h
  case hmgetActive => exact ⟨rfl, .inr ⟨_, rfl, activeReply_filterMap _ _⟩⟩
  case isTerminal => rfl
  case forwardMany => exact .inl ⟨rfl, rfl⟩
  all_goals
    split at h <;> cases h
  case reserveIdle.isTrue hf | decrementReserved.isTrue hf | acquireSlot.isTrue hf =>
    exact .inl ⟨_, rfl, forall₂_of_fitsReply hf, rfl⟩
  case releaseSlot.isTrue hf =>
    have := forall₂_of_fitsReply hf
    exact .inl ⟨_, rfl, (List.forall₂_cons.mp this).1, rfl⟩

variable {s s' : Fleet} {t : RoleState} {role : SchedulerRole} {queued : QueuedRequest} {pending : PendingSchedule}

def Fleet.attempted (role : SchedulerRole) (queued : QueuedRequest) (pending : PendingSchedule)
    (t : RoleState) (s : Fleet) : Option Fleet :=
  match ((attempt role queued pending).toProg t).steps (calm (.attempt s.attempts)) 100 s.begin with
  | some (.ret _, s') => some (s'.abandon (.attempt s.attempts))
  | _ => none

theorem reachable_attempted (h : System.Reachable (fleet F) ⟨s, fun _ => none⟩) (ha : F.admits t pending)
    (he : s.attempted role queued pending t = some s') :
    System.Reachable (fleet F) ⟨s', fun _ => none⟩ := by
  unfold Fleet.attempted at he
  split at he
  case h_1 hs =>
    cases he
    exact h.life (i := .attempt s.attempts) (Fleet.calm_sound F _)
      ⟨rfl, rfl, role, queued, pending, t, ha, rfl⟩ hs ⟨.inr ⟨_, rfl⟩, rfl⟩
  case h_2 => cases he

-- A release message that is handled to the end; the acknowledgement may get lost.
def Fleet.released (again acked : Bool) (d : Nat) (t : RoleState) (s : Fleet) : Option Fleet :=
  if d ∈ s.acked ∨ (again = false ∧ s.effectsOf (.release d) ≠ []) then none
  else match s.releases[d]? with
    | none => none
    | some r =>
      match ((applyRelease r.payload).toProg t).steps (calm (.release d)) 100 s with
      | some (.ret (.ok (), _), s') => some (if acked then s'.ack d else s')
      | _ => none

end Calm

section Scenario

variable {s s' : Fleet} {pending : PendingSchedule} {inventory : Inventory}

def gpu (id total : Nat) : ResourceInfo where
  resourceId := id
  streamName := "stream:gpu"
  totalMemoryMb := total
  usedMemoryMb := 0
  executorClass := some "gpu"

def placing (inventory : Inventory) : RoleState where
  reservations := ⟨inventory, 80, 0, []⟩
  queueState := ⟨⟨[], fromMillis 100⟩, ∅⟩
  requestFailures := fun _ => 0

def plainRole : SchedulerRole where
  streamPrefix := "stream:"
  scheduleStream := "schedule"
  releaseStream := "release"
  retryDlqPolicy := ⟨3, "dlq", by decide⟩
  config := { batchingEnabled := false, maxBatchSize := 8, maxBatchWaitMs := 50 }
  score _ _ _ := 0

-- A request for some GPUs, and the one that a parent with a limit of one makes for a child.

def requestFields (gpus memory : Nat) : Json.Fields :=
  [("workflow", .str "forecast"), ("resource_profile", .object [
    ("gpus_required", .nat gpus), ("memory_mb", .nat memory), ("executor_class", .str "gpu")])]

def childFields (gpus memory : Nat) : Json.Fields :=
  requestFields gpus memory ++
    [("parent_run_id", .str "p"), ("fanout_profile", .object [("max_in_flight", .nat 1)])]

def scheduleMessage (runId : String) (fields : Json.Fields) : Message where
  id := runId
  stream := "stream:schedule"
  group := "scheduler"
  runId := runId
  payload := .encode (.object fields)
  stage := "schedule"

def request (runId : String) (gpus memory : Nat) : PendingSchedule where
  sourceMsg := scheduleMessage runId (requestFields gpus memory)
  payload := {
    runId := runId
    workflow := "forecast"
    rawPayload := .object (requestFields gpus memory)
    resourceProfile := some ⟨some gpus, some memory, some "gpu", none⟩
  }
  ackAfterDispatch := []

def child (runId : String) (gpus memory : Nat) : PendingSchedule where
  sourceMsg := scheduleMessage runId (childFields gpus memory)
  payload := { (request runId gpus memory).payload with
    parentRunId := some "p"
    fanoutProfile := some ⟨none, some 1⟩
    rawPayload := .object (childFields gpus memory)
  }
  ackAfterDispatch := []

def PendingSchedule.queued (pending : PendingSchedule) : QueuedRequest :=
  ⟨pending.sourceMsg, pending.payload, 0⟩

def Fleet.place (pending : PendingSchedule) (inventory : Inventory) (s : Fleet) : Option Fleet :=
  s.attempted plainRole pending.queued pending (placing inventory)

theorem reachable_place (h : System.Reachable (fleet F) ⟨s, fun _ => none⟩)
    (ha : F.admits (placing inventory) pending) (he : s.place pending inventory = some s') :
    System.Reachable (fleet F) ⟨s', fun _ => none⟩ :=
  reachable_attempted h ha he

end Scenario

-- A dispatch that reports an error has not reached the workers.
def Terms.truthful (faults expires : Prop) (admits : RoleState → PendingSchedule → Prop)
    (resumes : List Effect → Prop) : Terms where
  faults := faults
  losesDispatch := False
  expires := expires
  admits := admits
  resumes := resumes

section Exclusive

variable {faults expires : Prop} {admits : RoleState → PendingSchedule → Prop}
variable {c : System.Config Op Fleet Thread _}

-- The reservations of a resource that somebody answers for.
def Fleet.outstanding (s : Fleet) (id : Nat) : List Claim :=
  (s.claimsOn id).filter (·.holder.isSome)

-- Each reservation is given back at most once. An entry that nobody answers for is left behind by a fault, or
-- by a grant whose total does not fit the reply.
theorem reserved_exclusively
    (h : System.Reachable (fleet (.truthful faults expires admits (· = []))) c) (id : Nat) :
    (c.state.outstanding id).length ≤ 1 ∧
    (∀ claim ∈ c.state.outstanding id,
      c.state.memory.active id = some (Double.round claim.memoryMb) ∧
      (claim.memoryMb ≤ 2 ^ 53 → c.state.memory.active id = some claim.memoryMb)) ∧
    (c.state.outstanding id = [] → c.state.memory.active id = none ∨ faults ∨
      ∃ total, c.state.memory.accounted id = some total ∧ 2 ^ 63 ≤ total) ∧
    ((c.state.memory.accounted id).isSome ↔ (c.state.memory.active id).isSome) ∧
    ∀ active, c.state.memory.active id = some active →
      0 < active ∧ ∃ total, c.state.memory.accounted id = some total ∧ active ≤ total := by
  have hk := kept_of_reachable not_false (fun _ hd => hd) h
  cases hk.ledger.balanced id
  case idle ht ha hc => simp [Fleet.outstanding, hc, ht, ha]
  case busy claim total hc hp ha ht hl hn =>
    have hr := Double.round_pos hp
    cases hh : claim.holder
    case none =>
      have hn : faults ∨ 2 ^ 63 ≤ total := hn hh
      simpa [Fleet.outstanding, hc, hh, ht, ha, hr, hl] using hn
    case some =>
      have hx : claim.memoryMb ≤ 2 ^ 53 → Double.round claim.memoryMb = claim.memoryMb := Double.round_of_le
      simpa [Fleet.outstanding, hc, hh, ht, ha, hr, hl] using hx

def largeGpu : Inventory :=
  ⟨[gpu 0 (2 ^ 54)], by decide⟩

-- The amount that the store keeps is a rounded one.
theorem reserved_inexactly :
    ∃ s, System.Reachable (fleet (.truthful False False (fun _ _ => True) (· = []))) ⟨s, fun _ => none⟩ ∧
      s.outstanding 0 = [⟨0, 2 ^ 53 + 1, some (.release 0)⟩] ∧ s.memory.active 0 = some (2 ^ 53) := by
  have h : (Fleet.empty.place (request "a" 1 (2 ^ 53 + 1)) largeGpu).any fun s =>
      s.outstanding 0 = [⟨0, 2 ^ 53 + 1, some (.release 0)⟩] ∧ s.memory.active 0 = some (2 ^ 53) := by
    decide +kernel
  have ⟨s, hs, hp⟩ := (any_eq_true _ _).mp h
  exact ⟨s, reachable_place (.init rfl) trivial hs, of_decide_eq_true hp⟩

theorem reserved_exclusively_large :
    ∃ s, System.Reachable (fleet (.truthful False False (fun _ _ => True) (· = []))) ⟨s, fun _ => none⟩ ∧
      (s.outstanding 0).length = 1 ∧ s.memory.active 0 = some (2 ^ 53) ∧ (s.memory.accounted 0).isSome := by
  have h : (Fleet.empty.place (request "a" 1 (2 ^ 53 + 1)) largeGpu).any fun s =>
      s.outstanding 0 ≠ [] ∧ s.memory.active 0 = some (2 ^ 53) := by
    decide +kernel
  have ⟨s, hs, hp⟩ := (any_eq_true _ _).mp h
  have hp := of_decide_eq_true hp
  have hr := reachable_place (F := .truthful False False (fun _ _ => True) (· = [])) (.init rfl) trivial hs
  have ⟨hl, _, _, ha, _⟩ := reserved_exclusively hr 0
  have hpos := length_pos_iff.mpr hp.left
  exact ⟨s, hr, le_antisymm hl hpos, hp.right, ha.mpr (by rw [hp.right]; rfl)⟩

end Exclusive

section Limit

variable {faults : Prop} {q : String} {m : Nat} {c : System.Config Op Fleet Thread _}

-- The children of a parent all carry the same limit, their workers report the parent, and the counter of the
-- parent does not expire.
def Terms.limited (faults : Prop) (q : String) (m : Nat) (also : RoleState → SchedulePayload → Prop) :
    Terms :=
  .truthful faults False (fun t pending => pending.payload.Carried ∧
    (pending.payload.parentRunId.bind Text.nonBlank = some q →
      pending.payload.fanoutProfile.bind (·.maxInFlight) = some m ∧ also t pending.payload)) (· = [])

def twoGpus : Inventory :=
  ⟨[gpu 0 1000, gpu 1 1000], by decide⟩

end Limit

section Redelivery

variable {faults expires : Prop} {admits : RoleState → PendingSchedule → Prop}
variable {c : System.Config Op Fleet Thread _}

def oneGpu : Inventory :=
  ⟨[gpu 0 1000], by decide⟩

end Redelivery

end Scheduler
