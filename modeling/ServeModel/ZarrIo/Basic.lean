import Mathlib.Algebra.Group.Int.Defs
import Mathlib.Algebra.Group.Nat.Defs

namespace ZarrIo

structure ChunkId where
  arrayId : Nat
  linearIndex : Nat
  deriving DecidableEq, Repr

abbrev BatchId := Nat

structure DeferredWriteError where
  batchId : BatchId
  chunkId : Option ChunkId
  message : String
  deriving DecidableEq, Repr

-- The source errors that some variants carry along are left out.
inductive SyncWriteError
  | objectClosed
  | contractViolation (message : String)
  | validation (message : String)
  | unknownParallelCoord (coord : String)
  | chunkKeyConflict (chunkId : ChunkId)
  | planner (message : String)
  | chunkIdOverflow
  | slabAllocationFailed
  | slabPinningFailed
  | cudaSlabRegistrationFailed
  | poolInitialization (message : String)
  | transientAllocationLimitExceeded (requestedBytes limitBytes : Nat)
  | transientInFlightLimitExceeded (requestedBytes inFlightBytes limitBytes : Nat)
  | transientAllocationFailed (message : String)
  | copyFailed (message : String)
  | ioFailed (message : String)
  | leaseReturnTimeout (outstandingLeases : Nat)
  | metadataConsolidationFailed (message : String)
  | deferredWriteFailures (failures : List DeferredWriteError)
  | unsupportedInputStabilityPolicy (policy : String)
  | unsupportedZarrTargetConfig (message : String)
  deriving DecidableEq, Repr

-- Both `usize` and `u64` have 64 bits.
def wordMax : Nat := 2 ^ 64 - 1

def saturatingMul (a b : Nat) : Nat :=
  min (a * b) wordMax

def checkedAdd (a b : Nat) : Option Nat :=
  if a + b ≤ wordMax then some (a + b) else none

def checkedMul (a b : Nat) : Option Nat :=
  if a * b ≤ wordMax then some (a * b) else none

end ZarrIo
