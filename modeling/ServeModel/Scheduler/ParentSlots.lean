import ServeModel.Lib.Double
import ServeModel.Runtime.Basic

namespace Scheduler

inductive ParentSlotAcquire
  | acquired (activeCount : Nat)
  | saturated (activeCount : Nat)
  deriving DecidableEq

-- The slot counters by their keys; a missing key counts as zero. A key that comes to the end of its time to
-- live goes missing (`Fleet.expire`). The index that exports the counters is not part of the model.
abbrev SlotStore := String → Nat

namespace SlotStore

-- The script `ACQUIRE_PARENT_SLOT_LUA`.
def acquire (key : String) (max : Int) (slots : SlotStore) : List Int × SlotStore :=
  let current := Double.round (slots key)
  if max ≤ 0 then ([0, current], slots)
  else if current ≥ Double.round max.toNat then ([0, current], slots)
  else ([1, slots key + 1], Function.update slots key (slots key + 1))

-- The script `RELEASE_PARENT_SLOT_LUA`.
def release (key : String) (slots : SlotStore) : Int × SlotStore :=
  if Double.round (slots key) ≤ 1 then (0, Function.update slots key 0)
  else (slots key - 1, Function.update slots key (slots key - 1))

end SlotStore

def slotKey (parentRunId : String) : String :=
  "parent_slots:" ++ parentRunId

def parseParentSlotAcquireResult (values : List Int) : Except Failure ParentSlotAcquire :=
  match values with
  | [acquiredRaw, activeCountRaw] =>
    if activeCountRaw < 0 then
      .error <| .msg s!"redis parent slot acquire returned negative active_count={activeCountRaw}"
    else if acquiredRaw = 1 then .ok (.acquired activeCountRaw.toNat)
    else if acquiredRaw = 0 then .ok (.saturated activeCountRaw.toNat)
    else .error <| .msg s!"redis parent slot acquire returned invalid acquired flag={acquiredRaw}"
  | values =>
    let count := values.length
    .error <| .msg s!"redis parent slot acquire returned {count}, expected exactly 2 values"

def parseReleaseRemaining (remaining : Int) : Except Failure Nat :=
  if remaining < 0 then
    .error <| .msg s!"redis parent slot release returned negative remaining count={remaining}"
  else .ok remaining.toNat

-- The cast `as i64`.
def asI64 (n : Nat) : Int :=
  if n < 2 ^ 63 then n else n - 2 ^ 64

section Store

variable {τ : Type}

def tryAcquire (parentRunId : String) (maxInFlight : Nat) : RoleM τ ParentSlotAcquire := do
  let values ← Routine.ofExcept
    (← RoleM.perform (.acquireSlot (slotKey parentRunId) (asI64 maxInFlight)))
  Routine.ofExcept (parseParentSlotAcquireResult values)

def releaseSlot (parentRunId : String) : RoleM τ Nat := do
  let remaining ← Routine.ofExcept (← RoleM.perform (.releaseSlot (slotKey parentRunId)))
  Routine.ofExcept (parseReleaseRemaining remaining)

def terminalKey (parentRunId : String) : String :=
  "parent_terminal:" ++ parentRunId

def isTerminal (parentRunId : String) : RoleM τ Bool := do
  Routine.ofExcept (← RoleM.perform (.isTerminal (terminalKey parentRunId)))

def markTerminal (parentRunId : String) : RoleM τ Unit := do
  Routine.ofExcept (← RoleM.perform (.markTerminal (terminalKey parentRunId)))

end Store

end Scheduler
