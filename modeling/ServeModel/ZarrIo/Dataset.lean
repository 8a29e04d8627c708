import ServeModel.Lib.RowMajor
import ServeModel.ZarrIo.ArrayRegistry
import ServeModel.ZarrIo.Metadata

-- What a dataset means: the element that a reader finds at an index, and the one that a writer has given.
namespace ZarrIo

variable {fl : Floats}

-- The files below the directory of an array, by their paths.
abbrev ArrayFiles := String → Option (List UInt8)

def ArrayMetadata.chunkKeyPath (md : ArrayMetadata) (format : ZarrFormat) (key : TupleChunkKey) : String :=
  match format with
  | .v2 => TupleChunkKey.render md.separator key
  | .v3 => "c/" ++ TupleChunkKey.render '/' key

-- The element of a chunked array in row-major order.
def ArrayMetadata.readElement (md : ArrayMetadata) (format : ZarrFormat) (files : ArrayFiles) (index : List Nat) :
    Option (List UInt8) := do
  if index.length ≠ md.shape.length then none else
  let bytes ← files (md.chunkKeyPath format (index.zipWith (· / ·) md.chunks))
  let start := RowMajor.offset md.chunks (index.zipWith (· % ·) md.chunks) * md.dtype.elemBytes
  if bytes.length < start + md.dtype.elemBytes then none else
  some ((bytes.drop start).take md.dtype.elemBytes)

-- What the copy engine takes from the memory of the caller.
def ChunkTask.bytes (memory : Memory) (task : ChunkTask) : List UInt8 :=
  task.input.read memory 0 task.requiredBytes

-- The files of one array after the chunks of some tasks have been written, the last one of the list last.
def flushedFiles (t : ZarrTargetConfig) (memory : Memory) (tasks : List ChunkTask) (arrayName : String) : ArrayFiles :=
  fun path =>
    (tasks.reverse.find? fun task => task.arrayName = arrayName ∧ t.chunkKeyPath task.tupleKey = path).map
      (·.bytes memory)

-- The chunk files of one array with their sizes.
def chunkSizes (arrayName : String) : List ChunkTask → List (TupleChunkKey × Nat)
  | [] => []
  | task :: rest =>
    if task.arrayName = arrayName ∧ ∀ later ∈ rest, later.arrayName = arrayName → later.tupleKey ≠ task.tupleKey then
      (task.tupleKey, task.requiredBytes) :: chunkSizes arrayName rest
    else chunkSizes arrayName rest

-- A value of a step stands for a registered one if they are equal, after a coercion if need be.
def CoordValue.matches : CoordValue fl → CoordValue fl → Bool
  | .i64 s, .i64 r | .datetimeNs s, .datetimeNs r | .timedeltaNs s, .timedeltaNs r => s == r
  | .u64 s, .u64 r => s == r
  | .i32 s, .i32 r => s == r
  | .u32 s, .u32 r => s == r
  | .f32 s, .f32 r => fl.eq32 s r
  | .f64 s, .f64 r => fl.eq64 s r
  | .utf8 s, .utf8 r => s == r
  | .f64 s, .f32 r => fl.eq32 (fl.asF32 s) r
  | .f32 s, .f64 r => fl.eq64 (fl.fromF32 s) r
  | .i64 s, .i32 r => s.toInt == r.toInt
  | .i32 s, .i64 r => s.toInt == r.toInt
  | .i64 s, .u32 r => s.toInt == r.toNat
  | .u32 s, .i64 r => s.toNat == r.toInt
  | .u64 s, .u32 r => s.toNat == r.toNat
  | .u32 s, .u64 r => s.toNat == r.toNat
  | _, _ => false

-- The step value at one position of an axis stands for the registered value at an index.
def AxisMatches (step registered : CoordValues fl) (pos index : Nat) : Prop :=
  ∃ v w, step.toList[pos]? = some v ∧ registered.toList[index]? = some w ∧ v.matches w

def CoordMap.axisLen (m : CoordMap fl) (dim : String) : Nat :=
  ((m.get dim).map CoordValues.len).getD 0

def DimMatches (coords registered : CoordMap fl) (dim : String) (pos index : Nat) : Prop :=
  ∃ step axis, coords.get dim = some step ∧ registered.get dim = some axis ∧ AxisMatches step axis pos index

section RoundTrip

structure BackendConfig (fl : Floats) where
  datasetRoot : String
  planner : PlannerConfig fl
  target : ZarrTargetConfig

-- The states of the planner after any number of calls for one registration.
inductive PlannerState.Reachable (cfg : PlannerConfig fl) (registeredCoords : CoordMap fl) : PlannerState → Prop
  | init : Reachable cfg registeredCoords ⟨1, none⟩
  | plan (req : InferenceWriteRequest fl) (arrayIds : List Nat) : (Reachable cfg registeredCoords st) →
      Reachable cfg registeredCoords (planBatch cfg st req arrayIds registeredCoords).2

-- A registration that `add_array` accepts.
structure Registered (registration : ArrayRegistration fl) : Prop where
  validated : registration.validate = .ok ()
  registered : register none registration = .ok registration

structure Planned (cfg : PlannerConfig fl) (registration : ArrayRegistration fl) (req : InferenceWriteRequest fl)
    (arrayIds : List Nat) (batch : PlannedWriteBatch) : Prop where
  validated : req.validate = .ok ()
  resolved : resolveArrayIds registration req.arrayNames = .ok arrayIds
  planned : ∃ st, PlannerState.Reachable cfg registration.coords st ∧
    (planBatch cfg st req arrayIds registration.coords).1 = .ok batch

-- One array of a request whose payload has an element for each combination of the coordinates of the request.
structure HasPayload (registration : ArrayRegistration fl) (req : InferenceWriteRequest fl)
    (arrayName : String) (input : InputArray) (dtype : DataType) : Prop where
  given : (arrayName, input) ∈ req.arrayNames.zip req.arrays
  typed : (registration.arrayNames.idxOf? arrayName).bind (registration.arrayDtypes[·]?) = some dtype
  sized : input.nbytes = (req.coords.keys.map req.coords.axisLen).prod * dtype.elemBytes

-- The index stands for the combination of coordinates at some positions of the request.
def Corresponds (registration : ArrayRegistration fl) (req : InferenceWriteRequest fl)
    (pos index : String → Nat) : Prop :=
  ∀ dim ∈ registration.coords.keys, DimMatches req.coords registration.coords dim (pos dim) (index dim)

-- Wherever an index stands for a combination, the reader finds the element of the payload.
def FindsPayload (t : ZarrTargetConfig) (registration : ArrayRegistration fl) (req : InferenceWriteRequest fl)
    (memory : Memory) (input : InputArray) (dtype : DataType) (md : ArrayMetadata) (files : ArrayFiles) : Prop :=
  ∀ pos index : String → Nat, Corresponds registration req pos index →
    md.readElement t.zarrFormat files (md.dimOrder.map index) = some
      (input.read memory (RowMajor.offsetOf req.coords.axisLen pos req.coords.keys * dtype.elemBytes)
        dtype.elemBytes)

-- The tasks of other writes that the registry has let in beside a batch.
def Beside (cfg : PlannerConfig fl) (registration : ArrayRegistration fl) (batch : PlannedWriteBatch)
    (others : List ChunkTask) : Prop :=
  ∀ task ∈ others, task.chunkId ∉ batch.chunkIds ∧
    ∃ req arrayIds batch', Planned cfg registration req arrayIds batch' ∧ task ∈ batch'.tasks

-- After a close, for any contents of the memory, any other writes, and any order of the flushes.
def RoundTrips (cfg : BackendConfig fl) (registration : ArrayRegistration fl) (req : InferenceWriteRequest fl)
    (batch : PlannedWriteBatch) (arrayName : String) (input : InputArray) (dtype : DataType) : Prop :=
  ∀ memory others flushes observed published,
    Beside cfg.planner registration batch others →
    flushes.Perm (batch.tasks ++ others) →
    publishedMetadata cfg.datasetRoot cfg.target registration
      (metadataParallelCoordNames cfg.planner.parallelCoordsConfig) observed (chunkSizes arrayName flushes) arrayName =
        .ok published →
    ∃ md, published = some md ∧
      FindsPayload cfg.target registration req memory input dtype md
        (flushedFiles cfg.target memory flushes arrayName)

end RoundTrip

end ZarrIo
