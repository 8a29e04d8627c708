import ServeModel.Lib.Text

namespace Scheduler

structure ResourceInfo where
  resourceId : Nat
  streamName : String
  totalMemoryMb : Nat
  usedMemoryMb : Nat
  executorClass : Option String := none
  tags : List String := []
  modelCacheWorkflowIds : List String := []
  warmupWorkflowId : Option String := none
  warmupStatus : Option String := none
  deriving DecidableEq

-- The product is computed in 64 bits and wraps around.
def ResourceInfo.usableMemoryMb (r : ResourceInfo) (utilizationPercent : Nat) : Nat :=
  r.totalMemoryMb * utilizationPercent % 2 ^ 64 / 100

theorem ResourceInfo.usableMemoryMb_lt (r : ResourceInfo) (percent : Nat) :
    r.usableMemoryMb percent < 2 ^ 58 := by
  have h : r.totalMemoryMb * percent % 2 ^ 64 < 2 ^ 64 := Nat.mod_lt _ (by decide)
  unfold usableMemoryMb
  omega

def warmupStatusAllowsScheduling (status : Option String) : Bool :=
  match status.bind Text.nonBlank with
  | none => true
  | some s => Text.eqIgnoreAsciiCase s "succeeded" || Text.eqIgnoreAsciiCase s "skipped"

def warmupStatusIsLoading (status : Option String) : Bool :=
  match status.bind Text.nonBlank with
  | none => false
  | some s => Text.eqIgnoreAsciiCase s "not_started" || Text.eqIgnoreAsciiCase s "warming"

-- The resource map: one entry per resource id.
structure Inventory where
  resources : List ResourceInfo
  nodup : (resources.map ResourceInfo.resourceId).Nodup

end Scheduler
