import ServeModel.ZarrIo.Basic
import ServeModel.Lib.Transition

-- The pool of reusable buffers: how it is laid out, and how its buffers go around.
namespace ZarrIo

section Config

inductive SizeOverride
  | auto
  | fixed (n : Nat)

def SizeOverride.isAuto : SizeOverride → Bool
  | auto => true
  | fixed _ => false

def SizeOverride.fixedValue : SizeOverride → Option Nat
  | auto => none
  | fixed n => some n

inductive BufferSizingPolicy
  | firstWriteModelAwareAuto
  | fixedOnly

inductive ModelProfileHint
  | fcn | dlwp | sfno | pangu | graphCastSmall | stormCast | precipitationAfno | corrDiffTaiwan

inductive PoolAlignment
  | align4KiB | align64KiB

structure BufferPoolConfig where
  maxPoolBuffers : Nat
  maxPoolBytes : Nat
  poolBufferBytes : SizeOverride
  hotSlabBuffers : SizeOverride
  warmSlabBuffers : SizeOverride
  bufferSizingPolicy : BufferSizingPolicy
  modelProfileHint : Option ModelProfileHint
  minHotSlabBuffers : Nat
  maxWarmToHotRatio : Nat
  globalFallbackChunkBytes : Nat
  poolAlignment : PoolAlignment

structure FirstWriteSizingHint where
  firstWriteTaskCount : Nat
  firstWriteMaxRequiredBytes : Nat

def PoolAlignment.alignmentBytes : PoolAlignment → Nat
  | align4KiB => 4 * 1024
  | align64KiB => 64 * 1024

-- The checks of the backend's configuration that are about the layout of the pool.
def BufferPoolConfig.validate (cfg : BufferPoolConfig) : Except SyncWriteError Unit := do
  if cfg.maxPoolBuffers = 0 then throw (.validation "max_pool_buffers must be greater than 0")
  if cfg.maxPoolBytes = 0 then throw (.validation "max_pool_bytes must be greater than 0")
  if cfg.poolBufferBytes.fixedValue = some 0 then
    throw (.validation "pool_buffer_bytes must be greater than 0 when provided")
  if cfg.minHotSlabBuffers = 0 then throw (.validation "min_hot_slab_buffers must be greater than 0")
  if cfg.maxWarmToHotRatio = 0 then throw (.validation "max_warm_to_hot_ratio must be greater than 0")
  if cfg.hotSlabBuffers.fixedValue = some 0 then
    throw (.validation "hot_slab_buffers must be greater than 0 when provided")
  if cfg.warmSlabBuffers.fixedValue = some 0 then
    throw (.validation "warm_slab_buffers must be greater than 0 when provided")
  match cfg.hotSlabBuffers, cfg.warmSlabBuffers with
  | .fixed hot, .fixed warm =>
    match checkedAdd hot warm with
    | none => throw (.validation "hot_slab_buffers + warm_slab_buffers overflowed usize")
    | some total =>
      if cfg.maxPoolBuffers < total then
        throw (.validation "hot_slab_buffers + warm_slab_buffers must be <= max_pool_buffers")
  | _, _ => pure ()

end Config

namespace BufferPool

def orFail (message : String) : Option Nat → Except SyncWriteError Nat
  | some n => .ok n
  | none => .error (.poolInitialization message)

section Layout

variable (cfg : BufferPoolConfig)

def alignUp (value : Nat) : Except SyncWriteError Nat :=
  let alignment := cfg.poolAlignment.alignmentBytes
  let rem := value % alignment
  if rem = 0 then .ok value
  else
    orFail s!"alignment overflow while aligning pooled buffer bytes: value={value} alignment={alignment}"
      (checkedAdd value (alignment - rem))

def modelProfileBaselineBytes : Nat :=
  match cfg.modelProfileHint with
  | some .fcn => 4147200
  | some .dlwp => 4152960
  | some .sfno => 4152960
  | some .pangu => 4152960
  | some .graphCastSmall => 260640
  | some .stormCast => 1310720
  | some .precipitationAfno => 4147200
  | some .corrDiffTaiwan => 795664
  | none => cfg.globalFallbackChunkBytes

def clampUsize (value minValue maxValue : Nat) : Nat :=
  min (max value minValue) maxValue

structure ComputedPoolLayout where
  pooledBufferBytes : Nat
  pooledBufferStride : Nat
  hotSlabBuffers : Nat
  warmSlabBuffers : Nat

def pooledBytesWithinBudget (stride hot warm : Nat) : Except SyncWriteError Bool := do
  let totalBuffers ← orFail "hot_slab_buffers + warm_slab_buffers overflowed usize" (checkedAdd hot warm)
  let pooledBytes ← orFail "pooled byte budget computation overflowed usize" (checkedMul totalBuffers stride)
  return pooledBytes ≤ cfg.maxPoolBytes

def pooledBufferBytes (hint : FirstWriteSizingHint) : Except SyncWriteError Nat :=
  match cfg.poolBufferBytes with
  | .fixed 0 => .error (.poolInitialization "pool_buffer_bytes must be greater than 0 when provided")
  | .fixed size => .ok size
  | .auto =>
    match cfg.bufferSizingPolicy with
    | .fixedOnly =>
      .error (.poolInitialization "pool_buffer_bytes must be provided when buffer_sizing_policy=FixedOnly")
    | .firstWriteModelAwareAuto =>
      alignUp cfg (max hint.firstWriteMaxRequiredBytes (modelProfileBaselineBytes cfg))

def budgetExceeded (stride bytes hot warm : Nat) : SyncWriteError :=
  let maxPoolBytes := cfg.maxPoolBytes
  .poolInitialization s!"pooled memory budget exceeded: pooled_buffer_stride={stride} pooled_buffer_bytes={bytes} hot_slab_buffers={hot} warm_slab_buffers={warm} max_pool_bytes={maxPoolBytes}"

-- The loop that takes buffers away until the rest fits: first from the warm slab, then from the hot one.
def shrinkHot (stride bytes minHot warm : Nat) : Nat → Except SyncWriteError (Nat × Nat)
  | 0 => do
    if ← pooledBytesWithinBudget cfg stride 0 warm then return (0, warm)
    throw (budgetExceeded cfg stride bytes 0 warm)
  | hot + 1 => do
    if ← pooledBytesWithinBudget cfg stride (hot + 1) warm then return (hot + 1, warm)
    if cfg.hotSlabBuffers.isAuto ∧ minHot < hot + 1 then shrinkHot stride bytes minHot warm hot
    else throw (budgetExceeded cfg stride bytes (hot + 1) warm)

def shrinkWarm (stride bytes minHot hot : Nat) : Nat → Except SyncWriteError (Nat × Nat)
  | 0 => shrinkHot cfg stride bytes minHot 0 hot
  | warm + 1 => do
    if ← pooledBytesWithinBudget cfg stride hot (warm + 1) then return (hot, warm + 1)
    if cfg.warmSlabBuffers.isAuto then shrinkWarm stride bytes minHot hot warm
    else shrinkHot cfg stride bytes minHot (warm + 1) hot

-- The numbers of buffers before the budget is looked at.
def cappedBuffers (minHot hot warm : Nat) : Except SyncWriteError (Nat × Nat) := do
  let totalBuffers ← orFail "hot_slab_buffers + warm_slab_buffers overflowed usize" (checkedAdd hot warm)
  if totalBuffers ≤ cfg.maxPoolBuffers then return (hot, warm)
  if ¬cfg.hotSlabBuffers.isAuto ∧ ¬cfg.warmSlabBuffers.isAuto then
    throw (.poolInitialization "hot_slab_buffers + warm_slab_buffers exceeds max_pool_buffers")
  if cfg.warmSlabBuffers.isAuto then return (hot, cfg.maxPoolBuffers - hot)
  let maxHot := cfg.maxPoolBuffers - warm
  if maxHot < minHot then
    throw (.poolInitialization "cannot satisfy min_hot_slab_buffers under max_pool_buffers cap")
  return (maxHot, warm)

def derivedBuffers (hint : FirstWriteSizingHint) (minHot : Nat) : Nat × Nat :=
  let taskCount := max hint.firstWriteTaskCount 1
  let derivedHot := clampUsize (min taskCount cfg.maxPoolBuffers) minHot cfg.maxPoolBuffers
  let derivedWarmUpper := saturatingMul derivedHot cfg.maxWarmToHotRatio
  let derivedWarm :=
    if derivedWarmUpper = 0 then 0
    else clampUsize (taskCount - derivedHot) (min derivedHot derivedWarmUpper) derivedWarmUpper
  (derivedHot, derivedWarm)

def computePoolLayout (hint : FirstWriteSizingHint) : Except SyncWriteError ComputedPoolLayout := do
  if cfg.maxPoolBuffers = 0 then throw (.poolInitialization "max_pool_buffers must be greater than 0")
  if cfg.maxPoolBytes = 0 then throw (.poolInitialization "max_pool_bytes must be greater than 0")
  if cfg.minHotSlabBuffers = 0 then throw (.poolInitialization "min_hot_slab_buffers must be greater than 0")
  if cfg.maxWarmToHotRatio = 0 then throw (.poolInitialization "max_warm_to_hot_ratio must be greater than 0")
  let bytes ← pooledBufferBytes cfg hint
  let stride ← alignUp cfg bytes
  let minHot := max (min cfg.minHotSlabBuffers cfg.maxPoolBuffers) 1
  let (derivedHot, derivedWarm) := derivedBuffers cfg hint minHot
  let hot := cfg.hotSlabBuffers.fixedValue.getD derivedHot
  let warm := cfg.warmSlabBuffers.fixedValue.getD derivedWarm
  if hot = 0 then throw (.poolInitialization "hot_slab_buffers must be greater than 0")
  if ¬cfg.warmSlabBuffers.isAuto ∧ warm = 0 then
    throw (.poolInitialization "warm_slab_buffers must be greater than 0 when provided")
  let (hot, warm) ← cappedBuffers cfg minHot hot warm
  let (hot, warm) ← shrinkWarm cfg stride bytes minHot hot warm
  return { pooledBufferBytes := bytes, pooledBufferStride := stride, hotSlabBuffers := hot, warmSlabBuffers := warm }

end Layout

-- A slab that begins at some address. Its ranges count from there.
structure SlabBacking where
  baseAddr : Nat
  totalLen : Nat
  bufferRanges : List (Nat × Nat)

def bufferRange (bytes stride alignedStart alignedEnd idx : Nat) : Except SyncWriteError (Nat × Nat) := do
  let start ← orFail "buffer range start overflowed usize" (checkedAdd alignedStart (saturatingMul idx stride))
  let stop ← orFail "buffer range end overflowed usize" (checkedAdd start bytes)
  if alignedEnd < stop then throw (.poolInitialization "buffer slice exceeds slab backing range")
  return (start, stop)

-- `basePtr` is the address that the allocator gives.
def buildSlabBacking (alignment bufferCount bytes stride basePtr : Nat) : Except SyncWriteError SlabBacking := do
  if bufferCount = 0 then return { baseAddr := 0, totalLen := 0, bufferRanges := [] }
  let alignedLen ← orFail "slab byte count overflowed usize" (checkedMul bufferCount stride)
  let allocLen ← orFail "slab aligned allocation length overflowed usize" (checkedAdd alignedLen (alignment - 1))
  let misalign := basePtr % alignment
  let alignedStart := if misalign = 0 then 0 else alignment - misalign
  let alignedEnd ← orFail "aligned slab end overflowed usize" (checkedAdd alignedStart alignedLen)
  if allocLen < alignedEnd then
    throw (.poolInitialization "aligned slab range exceeds allocated backing bytes")
  let bufferRanges ← (List.range bufferCount).mapM (bufferRange bytes stride alignedStart alignedEnd)
  return { baseAddr := basePtr, totalLen := allocLen, bufferRanges }

section Handles

def u32Max : Nat := 2 ^ 32 - 1

def checkedAddU32 (a b : Nat) : Option Nat :=
  if a + b ≤ u32Max then some (a + b) else none

inductive WarmSlabState
  | notStarted | inProgress | ready | failedDegraded
  deriving DecidableEq

-- What is settled when the pool is initialised. The first id is 1, because that happens only once.
structure FastPoolState where
  pooledBufferBytes : Nat
  hotSlabBuffers : Nat
  warmSlabBuffers : Nat
  hotStartId : Nat
  hotIdMax : Nat
  warmStartId : Option Nat
  hotSlab : SlabBacking
  warmSlab : Option SlabBacking

def FastPoolState.totalBuffers (f : FastPoolState) : Nat :=
  f.hotSlabBuffers + f.warmSlabBuffers

def firstBufferId : Nat := 1

def buildWarmSlab (alignment warm bytes stride warmPtr : Nat) : Except SyncWriteError (Option SlabBacking) :=
  if 0 < warm then (buildSlabBacking alignment warm bytes stride warmPtr).map some else .ok none

def buildFastPath (cfg : BufferPoolConfig) (hint : FirstWriteSizingHint) (hotPtr warmPtr : Nat) :
    Except SyncWriteError FastPoolState := do
  let layout ← computePoolLayout cfg hint
  let hot := layout.hotSlabBuffers
  let warm := layout.warmSlabBuffers
  let totalBuffers ← orFail "hot_slab_buffers + warm_slab_buffers overflowed usize" (checkedAdd hot warm)
  if u32Max < totalBuffers then throw (.poolInitialization "total pooled buffers exceeded u32 handle range")
  if u32Max < hot then throw (.poolInitialization "hot_slab_buffers exceeded u32 handle range")
  let _ ← orFail "pooled buffer handle id overflow" (checkedAddU32 firstBufferId totalBuffers)
  let warmStartId ← orFail "warm slab start id overflow" (checkedAddU32 firstBufferId hot)
  let alignment := cfg.poolAlignment.alignmentBytes
  let bytes := layout.pooledBufferBytes
  let stride := layout.pooledBufferStride
  let hotSlab ← buildSlabBacking alignment hot bytes stride hotPtr
  let warmSlab ← buildWarmSlab alignment warm bytes stride warmPtr
  if hot = 0 then throw (.poolInitialization "hot_slab_free_ids queue capacity must be greater than 0")
  return {
    pooledBufferBytes := layout.pooledBufferBytes
    hotSlabBuffers := hot
    warmSlabBuffers := warm
    hotStartId := firstBufferId
    hotIdMax := warmStartId - 1
    warmStartId := if 0 < warm then some warmStartId else none
    hotSlab
    warmSlab }

def idsOf (first count : Nat) : List Nat :=
  ((List.range count).map (first + ·)).reverse

-- A pooled lease that is out. It keeps its slab alive.
structure Lease where
  id : Nat
  requested : Nat
  baseAddr : Nat
  slabLen : Nat
  start : Nat
  stop : Nat

def slabHandle (kind : String) (slab : SlabBacking) (slotIndex id requested : Nat) : Except SyncWriteError Lease :=
  match slab.bufferRanges[slotIndex]? with
  | none => .error (.poolInitialization s!"missing {kind} slab buffer range for pooled handle")
  | some (start, stop) =>
    if slab.totalLen < stop ∨ stop ≤ start then
      .error (.poolInitialization s!"{kind} slab buffer range points outside slab backing memory")
    else .ok { id, requested, baseAddr := slab.baseAddr, slabLen := slab.totalLen, start, stop }

def buildPooledHandleForId (f : FastPoolState) (requested id : Nat) : Except SyncWriteError Lease :=
  if id ≤ f.hotIdMax then slabHandle "hot" f.hotSlab (id - f.hotStartId) id requested
  else
    match f.warmStartId, f.warmSlab with
    | none, _ => .error (.poolInitialization "warm slab id range missing while warm slab is ready")
    | some _, none => .error (.poolInitialization "warm slab backing missing while warm slab is ready")
    | some warmStartId, some slab => slabHandle "warm" slab (id - warmStartId) id requested

end Handles

inductive Call
  | popping (warm : Bool) (requested : Nat)
  | marking (warm : Bool) (requested id : Nat) -- has taken the id out of its queue
  | building (requested id : Nat) -- has set the flag of the slot
  | checkingWarm (requested : Nat)
  | transient (requested : Nat) -- goes on without a pooled buffer
  | releasing (id : Nat)
  | pushing (id : Nat) -- has reset the flag of the slot
  | returned (result : Except SyncWriteError Unit)

end BufferPool

-- The queues are first in, first out.
structure BufferPool where
  fastPath : Option BufferPool.FastPoolState
  freeHotIds : List Nat
  freeWarmIds : List Nat
  leasedSlots : List Bool
  warmState : BufferPool.WarmSlabState
  shutdown : Bool
  stateShutdown : Bool -- the flag behind the lock
  calls : List BufferPool.Call
  leases : List BufferPool.Lease

namespace BufferPool

section Steps

inductive Action
  | initializeIfNeeded (hint : FirstWriteSizingHint) (hotPtr warmPtr : Nat)
  | acquire (requested : Nat)
  | pop (i : Nat)
  | mark (i : Nat)
  | build (i : Nat)
  | checkWarm (i : Nat)
  | release (l : Nat)
  | unmark (i : Nat)
  | push (i : Nat)
  | warmup (ready : Bool)
  | shutdown
  | shutdownState
  | shutdownSlabs

def start : BufferPool where
  fastPath := none
  freeHotIds := []
  freeWarmIds := []
  leasedSlots := []
  warmState := .notStarted
  shutdown := false
  stateShutdown := false
  calls := []
  leases := []

def initialized (p : BufferPool) (f : FastPoolState) : BufferPool :=
  { p with
    fastPath := some f
    freeHotIds := idsOf f.hotStartId f.hotSlabBuffers
    freeWarmIds := idsOf (f.hotIdMax + 1) f.warmSlabBuffers
    leasedSlots := List.replicate f.totalBuffers false
    warmState := if 0 < f.warmSlabBuffers then .inProgress else .notStarted }

def setCall (p : BufferPool) (i : Nat) (call : Call) : BufferPool :=
  { p with calls := p.calls.set i call }

def slotIndexForId (p : BufferPool) (f : FastPoolState) (id : Nat) : Except SyncWriteError Nat :=
  if id < f.hotStartId then .error (.poolInitialization "pooled handle id underflowed hot slab start id")
  else if p.leasedSlots.length ≤ id - f.hotStartId then
    .error (.poolInitialization "pooled handle id exceeds allocated slot range")
  else .ok (id - f.hotStartId)

def stepAcquire (p : BufferPool) (f : FastPoolState) : Action → Option BufferPool
  | .acquire requested =>
    if p.shutdown then none
    else
      let call := if requested ≤ f.pooledBufferBytes then Call.popping false requested else .transient requested
      some { p with calls := p.calls ++ [call] }
  | .pop i => do
    match ← p.calls[i]? with
    | .popping false requested =>
      match p.freeHotIds with
      | [] => return p.setCall i (.checkingWarm requested)
      | id :: rest => return { p.setCall i (.marking false requested id) with freeHotIds := rest }
    | .popping true requested =>
      match p.freeWarmIds with
      | [] => return p.setCall i (.transient requested)
      | id :: rest => return { p.setCall i (.marking true requested id) with freeWarmIds := rest }
    | _ => none
  | .mark i => do
    match ← p.calls[i]? with
    | .marking warm requested id =>
      match p.slotIndexForId f id with
      | .error e => return p.setCall i (.returned (.error e))
      | .ok slot =>
        if p.leasedSlots[slot]? = some false then
          return { p.setCall i (.building requested id) with leasedSlots := p.leasedSlots.set slot true }
        else return p.setCall i (.popping warm requested)
    | _ => none
  | .build i => do
    match ← p.calls[i]? with
    | .building requested id =>
      match buildPooledHandleForId f requested id with
      | .error e => return p.setCall i (.returned (.error e))
      | .ok lease => return { p.setCall i (.returned (.ok ())) with leases := p.leases ++ [lease] }
    | _ => none
  | .checkWarm i => do
    match ← p.calls[i]? with
    | .checkingWarm requested =>
      if p.warmState = .ready ∧ 0 < f.warmSlabBuffers then return p.setCall i (.popping true requested)
      else return p.setCall i (.transient requested)
    | _ => none
  | _ => none

-- A lease that is given back is gone. After the shutdown its id is, too.
def stepRelease (p : BufferPool) (f : FastPoolState) : Action → Option BufferPool
  | .release l => do
    let lease ← p.leases[l]?
    let p := { p with leases := p.leases.eraseIdx l }
    if p.shutdown then return p
    return { p with calls := p.calls ++ [.releasing lease.id] }
  | .unmark i => do
    match ← p.calls[i]? with
    | .releasing id =>
      match p.slotIndexForId f id with
      | .error _ => return p.setCall i (.returned (.ok ()))
      | .ok slot =>
        if p.leasedSlots[slot]? = some true then
          return { p.setCall i (.pushing id) with leasedSlots := p.leasedSlots.set slot false }
        else return p.setCall i (.returned (.ok ()))
    | _ => none
  | .push i => do
    match ← p.calls[i]? with
    | .pushing id =>
      let p := p.setCall i (.returned (.ok ()))
      if id ≤ f.hotIdMax ∧ p.freeHotIds.length < f.hotSlabBuffers then
        return { p with freeHotIds := p.freeHotIds ++ [id] }
      if f.hotIdMax < id ∧ p.freeWarmIds.length < f.warmSlabBuffers then
        return { p with freeWarmIds := p.freeWarmIds ++ [id] }
      -- the slot stays taken if the queue has no room
      return { p with leasedSlots := p.leasedSlots.set (id - f.hotStartId) true }
    | _ => none
  | _ => none

def step (cfg : BufferPoolConfig) (p : BufferPool) (act : Action) : Option BufferPool :=
  match act, p.fastPath with
  | .initializeIfNeeded hint hotPtr warmPtr, none =>
    if p.stateShutdown then none else (buildFastPath cfg hint hotPtr warmPtr).toOption.map p.initialized
  | .initializeIfNeeded _ _ _, some _ => none
  | .shutdown, _ => if p.shutdown then none else some { p with shutdown := true }
  | .shutdownState, _ => if p.shutdown then some { p with stateShutdown := true } else none
  | .shutdownSlabs, _ => if p.stateShutdown then some { p with warmState := .notStarted } else none
  | .warmup ready, some _ =>
    if ¬p.stateShutdown ∧ p.warmState = .inProgress then
      some { p with warmState := if ready then .ready else .failedDegraded }
    else none
  | act, some f => (p.stepAcquire f act).or (p.stepRelease f act)
  | _, none => none

end Steps

end BufferPool

end ZarrIo
