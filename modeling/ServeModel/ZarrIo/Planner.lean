import ServeModel.ZarrIo.Coords

-- The chunk planner: from a write request to one task for each chunk that it covers.
namespace ZarrIo

variable {fl : Floats}

structure ParallelCoordsConfig (fl : Floats) where
  parallelCoords : Option (CoordMap fl)
  defaultParallelCoordNames : List String

-- The names of the list that are keys, each once.
def keptNames (m : CoordMap fl) : List String → List String → List String
  | ordered, [] => ordered
  | ordered, name :: rest =>
    if m.containsKey name ∧ name ∉ ordered then keptNames m (ordered ++ [name]) rest
    else keptNames m ordered rest

-- The same loop is written twice in the source: here, and for the metadata with a hash set.
def canonicalizeExplicitParallelNames (explicit : CoordMap fl) (defaultOrder : List String) : List String :=
  let ordered := keptNames explicit [] defaultOrder
  ordered ++ (explicit.keys.filter (· ∉ ordered)).insertionSort (· ≤ ·)

def resolveActiveParallelDims (cfg : ParallelCoordsConfig fl) (registeredCoords : CoordMap fl) :
    Except SyncWriteError (List String) :=
  match cfg.parallelCoords with
  | some explicit =>
    let dims := canonicalizeExplicitParallelNames explicit cfg.defaultParallelCoordNames
    match dims.find? (¬registeredCoords.containsKey ·) with
    | some dim => .error (.unknownParallelCoord dim)
    | none => .ok dims
  | none => .ok (cfg.defaultParallelCoordNames.filter registeredCoords.containsKey)

def i32TryFrom (v : Int) : Option Int32 :=
  if -2 ^ 31 ≤ v ∧ v < 2 ^ 31 then some (Int32.ofInt v) else none

def u32TryFrom (v : Int) : Option UInt32 :=
  if 0 ≤ v ∧ v < 2 ^ 32 then some (UInt32.ofNat v.toNat) else none

def matchAll {α β : Type} (eq : α → β → Bool) (step : List α) (registered : List β) : Bool :=
  (step.zip registered).all (fun (s, r) => eq s r) && step.length == registered.length

def coordValuesMatchContract : CoordValues fl → CoordValues fl → Bool
  -- the derived equality
  | .i64 s, .i64 r | .datetimeNs s, .datetimeNs r | .timedeltaNs s, .timedeltaNs r => s == r
  | .u64 s, .u64 r => s == r
  | .i32 s, .i32 r => s == r
  | .u32 s, .u32 r => s == r
  | .f32 s, .f32 r => matchAll fl.eq32 s r
  | .f64 s, .f64 r => matchAll fl.eq64 s r
  | .utf8 s, .utf8 r => s == r
  -- the coercions
  | .f64 s, .f32 r => matchAll (fun s r => fl.eq32 (fl.asF32 s) r) s r
  | .f32 s, .f64 r => matchAll (fun s r => fl.eq64 (fl.fromF32 s) r) s r
  | .i64 s, .i32 r => matchAll (fun s r => s.toInt == r.toInt) s r
  | .i32 s, .i64 r => matchAll (fun s r => s.toInt == r.toInt) s r
  | .i64 s, .u32 r => matchAll (fun s r => (u32TryFrom s.toInt).any (· == r)) s r
  | .u32 s, .i64 r => matchAll (fun s r => (s.toNat : Int) == r.toInt) s r
  | .u64 s, .u32 r => matchAll (fun s r => (u32TryFrom s.toNat).any (· == r)) s r
  | .u32 s, .u64 r => matchAll (fun s r => s.toNat == r.toNat) s r
  | _, _ => false

section Resolver

inductive AxisResolver
  | affine (startNs stepNs : Int64) (len : Nat)
  | hashMapResolver
  | sortedBinarySearch

def checkedSub (a b : Int64) : Option Int64 :=
  let d := a.toInt - b.toInt
  if -2 ^ 63 ≤ d ∧ d < 2 ^ 63 then some (Int64.ofInt d) else none

-- Every value follows the one before it at the same distance.
def evenlySpaced (step : Int64) : Int64 → List Int64 → Bool
  | _, [] => true
  | a, b :: rest => checkedSub b a == some step && evenlySpaced step b rest

def affineI64Axis : List Int64 → Option (Int64 × Int64 × Nat)
  | start :: next :: rest =>
    match checkedSub next start with
    | none => none
    | some step =>
      if step = 0 then none
      else if evenlySpaced step start (next :: rest) then some (start, step, rest.length + 2)
      else none
  | _ => none

def resolverForAxis (preferAffineResolver : Bool) : CoordValues fl → AxisResolver
  | .utf8 _ => .hashMapResolver
  | .i64 values | .datetimeNs values | .timedeltaNs values =>
    match preferAffineResolver, affineI64Axis values with
    | true, some (start, step, len) => .affine start step len
    | _, _ => .sortedBinarySearch
  | _ => .sortedBinarySearch

-- Where the remainder overflows, at the least number and a step of minus one, the code panics.
def affineIndex (start step : Int64) (len : Nat) (registered : List Int64) (value : Int64) : Option Nat := do
  let delta ← checkedSub value start
  if delta.toInt.tmod step.toInt ≠ 0 then none else
  let pos := delta.toInt.tdiv step.toInt
  if pos < 0 then none else
  if len ≤ pos.toNat then none else
  if registered[pos.toNat]? ≠ some value then none else
  some pos.toNat

-- The hash map of the values has the last of the indices of a value that occurs twice.
def hashMapIndex {α : Type} [DecidableEq α] (registered : List α) (value : α) : Option Nat :=
  (registered.zipIdx.reverse.find? (·.1 = value)).map (·.2)

-- The search of the standard library: `size` values from `base` on can be the one.
def binarySearchFrom {α : Type} (le : α → Bool) (values : List α) : Nat → Nat → Nat → Nat
  | 0, base, _ => base
  | fuel + 1, base, size =>
    if size ≤ 1 then base else
    let mid := base + size / 2
    let base := if values[mid]?.any le then mid else base
    binarySearchFrom le values fuel base (size - size / 2)

def binarySearch {α : Type} [DecidableEq α] (le : α → α → Bool) (values : List α) (value : α) : Option Nat :=
  let base := binarySearchFrom (le · value) values values.length 0 values.length
  if values[base]? = some value then some base else none

def isSorted {α : Type} (le : α → α → Bool) (values : List α) : Bool :=
  (values.zip values.tail).all fun (a, b) => le a b

def sortedIndex {α : Type} [DecidableEq α] (le : α → α → Bool) (registered : List α) (value : α) : Option Nat :=
  if isSorted le registered then binarySearch le registered value
  else registered.findIdx? (· == value)

def hashedOrSortedIndices {α : Type} [DecidableEq α] (le : α → α → Bool) (resolver : AxisResolver)
    (step registered : List α) : Option (List Nat) :=
  match resolver with
  | .hashMapResolver => step.mapM (hashMapIndex registered)
  | _ => step.mapM (sortedIndex le registered)

def i64Indices (resolver : AxisResolver) (step registered : List Int64) : Option (List Nat) :=
  match resolver with
  | .affine start stepNs len =>
    if stepNs = 0 ∨ len ≠ registered.length then none
    else step.mapM (affineIndex start stepNs len registered)
  | _ => hashedOrSortedIndices (· ≤ ·) resolver step registered

def indexOfStepValuesWithResolver (resolver : AxisResolver) : CoordValues fl → CoordValues fl → Option (List Nat)
  | .i64 step, .i64 registered => i64Indices resolver step registered
  | .datetimeNs step, .datetimeNs registered => i64Indices resolver step registered
  | .timedeltaNs step, .timedeltaNs registered => i64Indices resolver step registered
  | .u64 step, .u64 registered => hashedOrSortedIndices (· ≤ ·) resolver step registered
  | .utf8 step, .utf8 registered => hashedOrSortedIndices (· ≤ ·) resolver step registered
  | .f64 step, .f64 registered => step.mapM fun v => registered.findIdx? (fl.eq64 v)
  | .f64 step, .f32 registered => step.mapM fun v => registered.findIdx? (fl.eq32 (fl.asF32 v))
  | .f32 step, .f64 registered => step.mapM fun v => registered.findIdx? (fl.eq64 (fl.fromF32 v))
  | .i32 step, .i32 registered => step.mapM fun v => registered.findIdx? (· == v)
  | .i64 step, .i32 registered =>
    step.mapM fun v => (i32TryFrom v.toInt).bind fun coerced => registered.findIdx? (· == coerced)
  | .i32 step, .i64 registered => step.mapM fun v => registered.findIdx? (·.toInt == v.toInt)
  | .u32 step, .u32 registered => step.mapM fun v => registered.findIdx? (· == v)
  | .i64 step, .u32 registered =>
    step.mapM fun v => (u32TryFrom v.toInt).bind fun coerced => registered.findIdx? (· == coerced)
  | .u32 step, .i64 registered => step.mapM fun v => registered.findIdx? (·.toInt == v.toNat)
  | .u64 step, .u32 registered =>
    step.mapM fun v => (u32TryFrom v.toNat).bind fun coerced => registered.findIdx? (· == coerced)
  | .u32 step, .u64 registered => step.mapM fun v => registered.findIdx? (·.toNat == v.toNat)
  | .f32 step, .f32 registered => step.mapM fun v => registered.findIdx? (fl.eq32 v)
  | _, _ => none

-- The same lookup with the panic in it. Of the machine's operations only the remainder can fail.

inductive Panic
  | remainderOverflow
  deriving DecidableEq

def affineIndexOrPanic (start step : Int64) (len : Nat) (registered : List Int64) (value : Int64) :
    Except Panic (Option Nat) :=
  if checkedSub value start = some Int64.minValue ∧ step = -1 then .error .remainderOverflow
  else .ok (affineIndex start step len registered value)

-- Collecting the indices stops at the first value that has none.
def collectIndices {α : Type} (lookup : α → Except Panic (Option Nat)) : List α → Except Panic (Option (List Nat))
  | [] => .ok (some [])
  | value :: rest =>
    match lookup value with
    | .error panic => .error panic
    | .ok none => .ok none
    | .ok (some pos) => (collectIndices lookup rest).map (Option.map (pos :: ·))

def i64IndicesOrPanic (resolver : AxisResolver) (step registered : List Int64) : Except Panic (Option (List Nat)) :=
  match resolver with
  | .affine start stepNs len =>
    if stepNs = 0 ∨ len ≠ registered.length then .ok none
    else collectIndices (affineIndexOrPanic start stepNs len registered) step
  | _ => .ok (i64Indices resolver step registered)

def indexOfStepValuesOrPanic (resolver : AxisResolver) :
    CoordValues fl → CoordValues fl → Except Panic (Option (List Nat))
  | .i64 step, .i64 registered => i64IndicesOrPanic resolver step registered
  | .datetimeNs step, .datetimeNs registered => i64IndicesOrPanic resolver step registered
  | .timedeltaNs step, .timedeltaNs registered => i64IndicesOrPanic resolver step registered
  | step, registered => .ok (indexOfStepValuesWithResolver resolver step registered)

end Resolver

section Radix

def orOverflow (x : Option Nat) : Except SyncWriteError Nat :=
  match x with
  | some n => .ok n
  | none => .error .chunkIdOverflow

-- The strides of the axes and the product of all lengths, from the last axis to the first.
def radixStrides : List Nat → Except SyncWriteError (List Nat × Nat)
  | [] => .ok ([], 1)
  | len :: lens => do
    let (strides, running) ← radixStrides lens
    let next ← orOverflow (checkedMul running len)
    return (running :: strides, next)

def subsetMixedRadixStrides (subsetLengths : List Nat) : Except SyncWriteError (List Nat) := do
  let (strides, _) ← radixStrides subsetLengths
  return strides

def axisRadixStrides (axisLengths : List Nat) : Except SyncWriteError (List Nat) :=
  if axisLengths = [] then .ok [1] else do
    let (strides, _) ← radixStrides axisLengths
    return strides

-- The running product from the first axis to the last.
def totalSubsetCombinations (subsetLengths : List Nat) : Except SyncWriteError Nat :=
  subsetLengths.foldlM (fun acc len => orOverflow (checkedMul acc len)) 1

-- The linear index and the stride of the next axis, from the last axis to the first.
def mixedRadixFrom : List Nat → List Nat → Except SyncWriteError (Nat × Nat)
  | index :: indices, len :: lens => do
    let (linear, stride) ← mixedRadixFrom indices lens
    let term ← orOverflow (checkedMul index stride)
    let linear ← orOverflow (checkedAdd linear term)
    let stride ← orOverflow (checkedMul stride len)
    return (linear, stride)
  | _, _ => .ok (0, 1)

def mixedRadixLinearIndex (axisIndices axisLengths : List Nat) : Except SyncWriteError Nat := do
  let (linear, _) ← mixedRadixFrom axisIndices axisLengths
  return linear

-- The value that each axis has in a combination. The position of an axis is inside its set of indices.
def axisIndicesForSubsetCombo (comboOrdinal : Nat) : List (List Nat) → List Nat → List Nat
  | indices :: sets, stride :: strides =>
    let pos := if indices.length = 1 then 0 else comboOrdinal / stride % indices.length
    indices[pos]?.getD 0 :: axisIndicesForSubsetCombo comboOrdinal sets strides
  | _, _ => []

end Radix

structure ChunkKeyTemplate where
  dimOrder : List String
  axisLengths : List Nat
  divisors : List Nat
  parallelDimPositions : List Nat
  fixedNonparallelIndices : List (Nat × Nat)
  deriving DecidableEq

-- One axis after the other: whether it is parallel, and how many chunks it has.
def templateAxes (registeredCoords : CoordMap fl) (activeParallelDims : List String) :
    List String → Except SyncWriteError (List (Bool × Nat))
  | [] => .ok []
  | dim :: dims => do
    match registeredCoords.get dim with
    | none => throw (.validation s!"dimension '{dim}' not found in registered coords")
    | some values =>
      let isParallel := dim ∈ activeParallelDims
      let rest ← templateAxes registeredCoords activeParallelDims dims
      return (decide isParallel, if isParallel then values.len else 1) :: rest

-- The product of the lengths after each axis. The length of the first axis does not count.
def divisorsOf : List Nat → Except SyncWriteError (List Nat)
  | [] => .ok []
  | _ :: lens => do
    let (strides, running) ← radixStrides lens
    return running :: strides

def ChunkKeyTemplate.build (registeredCoords : CoordMap fl) (activeParallelDims : List String) :
    Except SyncWriteError ChunkKeyTemplate := do
  let nonparallel := (registeredCoords.keys.filter (· ∉ activeParallelDims)).insertionSort (· ≤ ·)
  let dimOrder := activeParallelDims ++ nonparallel
  let axes ← templateAxes registeredCoords activeParallelDims dimOrder
  let axisLengths := axes.map (·.2)
  let divisors ← divisorsOf axisLengths
  return {
    dimOrder
    axisLengths
    divisors
    parallelDimPositions := (axes.zipIdx.filter (·.1.1)).map (·.2)
    fixedNonparallelIndices := (axes.zipIdx.filter (!·.1.1)).map fun axis => (axis.2, 0) }

abbrev TupleChunkKey := List Nat

def ChunkKeyTemplate.resolveTupleKey (t : ChunkKeyTemplate) (parallelAxisIndices : List Nat) :
    Except SyncWriteError TupleChunkKey :=
  let indices := parallelAxisIndices.length
  let positions := t.parallelDimPositions.length
  if indices ≠ positions then
    .error (.validation s!"parallel_axis_indices length {indices} != parallel_dim_positions length {positions}")
  else
    let parallel := (t.parallelDimPositions.zip parallelAxisIndices).foldl
      (fun key (pos, index) => key.set pos index) (.replicate t.dimOrder.length 0)
    .ok (t.fixedNonparallelIndices.foldl (fun key (pos, index) => key.set pos index) parallel)

def TupleChunkKey.linearIndex (key : TupleChunkKey) (divisors : List Nat) : Except SyncWriteError Nat :=
  let indices := key.length
  let count := divisors.length
  if indices ≠ count then .error (.validation s!"tuple key length {indices} != divisors length {count}")
  else (key.zip divisors).foldlM (fun linear (idx, div) => do
    orOverflow (checkedAdd linear (← orOverflow (checkedMul idx div)))) 0

-- One slot for each axis, and what remains of the linear index. Slots without a divisor stay zero.
def unravel (remaining : Nat) : List Nat → List Nat → Except SyncWriteError (List Nat × Nat)
  | _ :: lens, div :: divisors =>
    if div = 0 then .error (.validation "divisor is zero during unravel") else do
      let (indices, last) ← unravel (remaining % div) lens divisors
      return (remaining / div :: indices, last)
  | lens, _ => .ok (lens.map fun _ => 0, remaining)

namespace ChunkKeyTemplate

def linearFromTuple (t : ChunkKeyTemplate) (tuple : TupleChunkKey) : Except SyncWriteError Nat :=
  tuple.linearIndex t.divisors

def tupleFromLinear (t : ChunkKeyTemplate) (linear : Nat) : Except SyncWriteError TupleChunkKey := do
  let (indices, remaining) ← unravel linear t.axisLengths t.divisors
  if remaining ≠ 0 then
    throw (.validation s!"linear index {linear} exceeds chunk grid (remainder {remaining})")
  return indices

end ChunkKeyTemplate

structure ChunkTask where
  batchId : BatchId
  arrayName : String
  chunkId : ChunkId
  tupleKey : TupleChunkKey
  requiredBytes : Nat
  input : InputArray

structure PlannedWriteBatch where
  batchId : BatchId
  chunkIds : List ChunkId
  tasks : List ChunkTask

def requiredBytesPerTask (inputNbytes subsetComboCount : Nat) : Except SyncWriteError Nat :=
  if subsetComboCount = 0 then .error (.validation "subset combo count must be greater than zero")
  else if inputNbytes % subsetComboCount ≠ 0 then
    .error (.validation s!"input.nbytes ({inputNbytes}) must be divisible by derived task count ({subsetComboCount})")
  else .ok (inputNbytes / subsetComboCount)

def taskByteRange (comboOrdinal requiredBytesPerTask : Nat) : Except SyncWriteError (Nat × Nat) := do
  let start ← orOverflow (checkedMul comboOrdinal requiredBytesPerTask)
  let stop ← orOverflow (checkedAdd start requiredBytesPerTask)
  return (start, stop)

-- A pointer into the payload, with the name of its kind in the error.
def taskPtr (kind : String) (ptr start : Nat) : Except SyncWriteError Nat :=
  match checkedAdd ptr start with
  | some p => .ok p
  | none => .error (.validation s!"{kind} pointer overflow for base ptr {ptr} with byte offset {start}")

def sliceInputForTask (input : InputArray) (comboOrdinal requiredBytesPerTask : Nat) :
    Except SyncWriteError InputArray := do
  let (start, stop) ← taskByteRange comboOrdinal requiredBytesPerTask
  match input.source with
  | .internalHostBufferPtr ptr =>
    let p ← taskPtr "host buffer" ptr start
    return { nbytes := requiredBytesPerTask, source := .internalHostBufferPtr p }
  | .hostBytes ptr len =>
    let nbytes := input.nbytes
    if len < nbytes then
      throw (.validation s!"host payload len ({len}) is smaller than declared input.nbytes ({nbytes})")
    if len < stop then
      throw (.validation s!"derived chunk byte range [{start}..{stop}) exceeds host payload len ({len})")
    let p ← taskPtr "host payload" ptr start
    return { nbytes := requiredBytesPerTask, source := .internalHostBufferPtr p }
  | .cudaDevicePtr ptr deviceOrdinal producerStream =>
    let p ← taskPtr "cuda device" ptr start
    return { nbytes := requiredBytesPerTask, source := .cudaDevicePtr p deviceOrdinal producerStream }

section Plan

structure PlannerConfig (fl : Floats) where
  parallelCoordsConfig : ParallelCoordsConfig fl
  preferAffineResolver : Bool

-- The index sets, the lengths of the registered axes and the lengths of the step values of the parallel axes.
def resolveParallelIndexSetsAndLengths (preferAffineResolver : Bool) (coords registeredCoords : CoordMap fl) :
    List String → Except SyncWriteError (List (List Nat) × List Nat × List Nat)
  | [] => .ok ([], [], [])
  | dim :: dims => do
    match registeredCoords.get dim with
    | none => throw (.unknownParallelCoord dim)
    | some registered =>
    if registered.isEmpty then throw (.validation s!"registered coord '{dim}' has no values")
    match coords.get dim with
    | none => throw (.validation s!"missing active parallel coord '{dim}' in write() step coords")
    | some step =>
    if step.isEmpty then throw (.validation s!"active parallel coord '{dim}' has empty step values")
    match indexOfStepValuesWithResolver (resolverForAxis preferAffineResolver registered) step registered with
    | none =>
      throw (.validation s!"active parallel coord '{dim}' has step value not present in registered coords")
    | some indices =>
    let (sets, axisLengths, subsetLengths) ←
      resolveParallelIndexSetsAndLengths preferAffineResolver coords registeredCoords dims
    return (indices :: sets, registered.len :: axisLengths, step.len :: subsetLengths)

def validateNonparallelCoords (coords : CoordMap fl) (activeParallelDims : List String) :
    List (String × CoordValues fl) → Except SyncWriteError Unit
  | [] => .ok ()
  | (name, registered) :: rest =>
    if name ∈ activeParallelDims then validateNonparallelCoords coords activeParallelDims rest else
    match coords.get name with
    | none => .error (.validation s!"missing non-parallel coord '{name}' in write() step coords")
    | some step =>
      if coordValuesMatchContract step registered then
        validateNonparallelCoords coords activeParallelDims rest
      else
        .error (.validation s!"non-parallel coord '{name}' must match full registered coordinate values")

def validateStepCoordsContract (coords registeredCoords : CoordMap fl) (activeParallelDims : List String) :
    Except SyncWriteError Unit :=
  match coords.keys.find? (¬registeredCoords.containsKey ·) with
  | some stepKey =>
    .error (.validation s!"step coord '{stepKey}' is not registered in add_array() coord contract")
  | none => validateNonparallelCoords coords activeParallelDims registeredCoords.entries

structure PlanShape where
  activeParallelDims : List String
  axisIndexSets : List (List Nat)
  axisLengths : List Nat
  subsetStrides : List Nat
  subsetComboCount : Nat

def planShape (cfg : PlannerConfig fl) (req : InferenceWriteRequest fl) (arrayIds : List Nat)
    (registeredCoords : CoordMap fl) : Except SyncWriteError PlanShape := do
  let arrays := req.arrays.length
  let names := req.arrayNames.length
  let ids := arrayIds.length
  if arrays ≠ names then throw (.validation s!"len(arrays) != len(array_names): {arrays} != {names}")
  if ids ≠ arrays then throw (.validation s!"len(array_ids) != len(arrays): {ids} != {arrays}")
  let activeParallelDims ← resolveActiveParallelDims cfg.parallelCoordsConfig registeredCoords
  validateStepCoordsContract req.coords registeredCoords activeParallelDims
  let (axisIndexSets, axisLengths, subsetLengths) ←
    resolveParallelIndexSetsAndLengths cfg.preferAffineResolver req.coords registeredCoords activeParallelDims
  let subsetStrides ← subsetMixedRadixStrides subsetLengths
  let subsetComboCount ← totalSubsetCombinations subsetLengths
  return { activeParallelDims, axisIndexSets, axisLengths, subsetStrides, subsetComboCount }

-- An array without coordinates has its chunks by their linear index.
def tupleKeyFor (template : ChunkKeyTemplate) (linearIndex : Nat) (axisIndices : List Nat) :
    Except SyncWriteError TupleChunkKey :=
  if template.dimOrder = [] then .ok [linearIndex] else template.resolveTupleKey axisIndices

def planTask (shape : PlanShape) (template : ChunkKeyTemplate) (batchId : BatchId) (arrayId : Nat)
    (arrayName : String) (input : InputArray) (requiredBytes comboOrdinal : Nat) :
    Except SyncWriteError ChunkTask := do
  let axisIndices := axisIndicesForSubsetCombo comboOrdinal shape.axisIndexSets shape.subsetStrides
  let linearIndex ← mixedRadixLinearIndex axisIndices shape.axisLengths
  let chunkId := ⟨arrayId, linearIndex⟩
  let tupleKey ← tupleKeyFor template linearIndex axisIndices
  let taskInput ← sliceInputForTask input comboOrdinal requiredBytes
  return { batchId, arrayName, chunkId, tupleKey, requiredBytes, input := taskInput }

-- The strides of the plan template are only computed for a cache, but they can overflow.
def planArray (shape : PlanShape) (template : ChunkKeyTemplate) (batchId : BatchId)
    (array : Nat × String × InputArray) : Except SyncWriteError (List ChunkTask) := do
  let (arrayId, arrayName, input) := array
  let requiredBytes ← requiredBytesPerTask input.nbytes shape.subsetComboCount
  let _ ← axisRadixStrides shape.axisLengths
  (List.range shape.subsetComboCount).mapM
    (planTask shape template batchId arrayId arrayName input requiredBytes)

def planTasks (shape : PlanShape) (template : ChunkKeyTemplate) (batchId : BatchId)
    (req : InferenceWriteRequest fl) (arrayIds : List Nat) : Except SyncWriteError PlannedWriteBatch := do
  let _ ← orOverflow (checkedMul req.arrays.length shape.subsetComboCount)
  let tasks ← (arrayIds.zip (req.arrayNames.zip req.arrays)).mapM (planArray shape template batchId)
  return { batchId, chunkIds := tasks.flatten.map (·.chunkId), tasks := tasks.flatten }

-- The first plan that comes this far caches the template for good.
structure PlannerState where
  nextBatchId : Nat
  chunkKeyTemplate : Option ChunkKeyTemplate

def getOrBuildChunkKeyTemplate (st : PlannerState) (registeredCoords : CoordMap fl)
    (activeParallelDims : List String) : Except SyncWriteError ChunkKeyTemplate :=
  match st.chunkKeyTemplate with
  | some template => .ok template
  | none => ChunkKeyTemplate.build registeredCoords activeParallelDims

def planBatch (cfg : PlannerConfig fl) (st : PlannerState) (req : InferenceWriteRequest fl)
    (arrayIds : List Nat) (registeredCoords : CoordMap fl) :
    Except SyncWriteError PlannedWriteBatch × PlannerState :=
  match planShape cfg req arrayIds registeredCoords with
  | .error e => (.error e, st)
  | .ok shape =>
    match getOrBuildChunkKeyTemplate st registeredCoords shape.activeParallelDims with
    | .error e => (.error e, st)
    | .ok template =>
      (planTasks shape template st.nextBatchId req arrayIds,
        { nextBatchId := st.nextBatchId + 1, chunkKeyTemplate := some template })

end Plan

end ZarrIo
