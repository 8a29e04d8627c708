import ServeModel.ZarrIo.Layout

-- The metadata that the consolidation publishes. The documents are records here, not JSON texts.
namespace ZarrIo

variable {fl : Floats}

-- The names that the metadata treat as parallel, from the configuration of the backend.
def metadataParallelCoordNames (cfg : ParallelCoordsConfig fl) : List String :=
  match cfg.parallelCoords with
  | some explicit => canonicalizeExplicitParallelNames explicit cfg.defaultParallelCoordNames
  | none => cfg.defaultParallelCoordNames

def orderedDimNames (registeredCoords : CoordMap fl) (parallelCoordNames : List String) : List String :=
  keptNames registeredCoords (keptNames registeredCoords [] parallelCoordNames) registeredCoords.keys

def axisShapes (coords : CoordMap fl) (parallelCoordNames : List String) :
    List String → Except SyncWriteError (List (Nat × Nat))
  | [] => .ok []
  | dim :: dims => do
    match coords.get dim with
    | none => throw (.metadataConsolidationFailed s!"missing registered coord axis for dim '{dim}'")
    | some axis =>
    if axis.len = 0 then throw (.metadataConsolidationFailed s!"registered coord axis '{dim}' has zero length")
    let rest ← axisShapes coords parallelCoordNames dims
    return (axis.len, if dim ∈ parallelCoordNames then 1 else axis.len) :: rest

structure DimShapeChunks where
  dimOrder : List String
  shape : List Nat
  chunks : List Nat

def shapeAndChunksFromRegistration (coords : CoordMap fl) (parallelCoordNames : List String) :
    Except SyncWriteError DimShapeChunks := do
  let dimOrder := orderedDimNames coords parallelCoordNames
  if dimOrder = [] then
    throw (.metadataConsolidationFailed "registration coords are empty; cannot derive multidimensional metadata")
  let axes ← axisShapes coords parallelCoordNames dimOrder
  return { dimOrder, shape := axes.map (·.1), chunks := axes.map (·.2) }

structure DTypeDescriptor where
  v2Dtype : String
  elemBytes : Nat
  deriving DecidableEq

def DataType.v2Dtype : DataType → String
  | bool => "|b1"
  | int8 => "|i1"
  | int16 => "<i2"
  | int32 => "<i4"
  | int64 => "<i8"
  | uint8 => "|u1"
  | uint16 => "<u2"
  | uint32 => "<u4"
  | uint64 => "<u8"
  | float16 => "<f2"
  | float32 => "<f4"
  | float64 => "<f8"
  | datetimeNs => "<M8[ns]"
  | timedeltaNs => "<m8[ns]"

def DTypeDescriptor.from (dtype : DataType) : DTypeDescriptor :=
  { v2Dtype := dtype.v2Dtype, elemBytes := dtype.elemBytes }

def conservativeUnknownDtype : DTypeDescriptor :=
  { v2Dtype := "|u1", elemBytes := 1 }

def dtypeFromChunkBytesAndElements (chunkBytes chunkElements : Nat) : DTypeDescriptor :=
  if chunkElements = 0 then conservativeUnknownDtype else
  let elemBytes := chunkBytes / chunkElements
  if elemBytes * chunkElements ≠ chunkBytes then conservativeUnknownDtype else
  match elemBytes with
  | 1 => { v2Dtype := "|u1", elemBytes := 1 }
  | 2 => { v2Dtype := "<f2", elemBytes := 2 }
  | 4 => { v2Dtype := "<f4", elemBytes := 4 }
  | 8 => { v2Dtype := "<f8", elemBytes := 8 }
  | _ => conservativeUnknownDtype

structure ChunkDescriptor where
  maxIndex : Nat
  chunkBytes : Nat
  separator : Char

-- What is read off the path of a chunk: the index, if there is only one, and the separator.
def parseChunkKey (t : ZarrTargetConfig) (key : TupleChunkKey) : Option Nat × Char :=
  match t.zarrFormat, t.chunkKeySeparator, key with
  | .v3, _, [index] => (some index, '/')
  | .v3, _, _ => (none, '/')
  | .v2, _, [index] => (some index, '.')
  | .v2, .dot, _ => (none, '.')
  | .v2, .slash, _ => (none, '/')

-- The loop over the chunk files of an array, with what has been seen before.
def inferChunkDescriptorFrom (arrayDir : String) (t : ZarrTargetConfig) :
    Option Nat → Nat → Option (Nat × Char) → List (TupleChunkKey × Nat) →
      Except SyncWriteError (Option ChunkDescriptor)
  | maxIndex, count, seen, [] =>
    .ok (seen.map fun (chunkBytes, separator) => ⟨maxIndex.getD (count - 1), chunkBytes, separator⟩)
  | maxIndex, count, seen, (key, size) :: files =>
    let (index, separator) := parseChunkKey t key
    let maxIndex := match index with
      | none => maxIndex
      | some i => some (maxIndex.elim i (max · i))
    match seen with
    | none => inferChunkDescriptorFrom arrayDir t maxIndex (count + 1) (some (size, separator)) files
    | some (chunkBytes, existing) =>
      if existing ≠ separator then
        .error (.metadataConsolidationFailed
          s!"inconsistent chunk key separators in '{arrayDir}': '{existing}' vs '{separator}'")
      else if chunkBytes ≠ size then
        .error (.metadataConsolidationFailed
          s!"inconsistent chunk byte sizes in '{arrayDir}': {chunkBytes} vs {size}")
      else inferChunkDescriptorFrom arrayDir t maxIndex (count + 1) seen files

def inferChunkDescriptor (arrayDir : String) (t : ZarrTargetConfig) (files : List (TupleChunkKey × Nat)) :
    Except SyncWriteError (Option ChunkDescriptor) :=
  inferChunkDescriptorFrom arrayDir t none 0 none files

structure ArrayMetadata where
  dimOrder : List String
  shape : List Nat
  chunks : List Nat
  dtype : DTypeDescriptor
  separator : Char

-- The separator is found out from the path of a probe.
def defaultV2DimensionSeparator (t : ZarrTargetConfig) : Char :=
  if t.zarrFormat ≠ .v2 then '.'
  else if Text.contains "/" (t.chunkKeyPath [0, 1]) then '/' else '.'

-- The type of an array comes from the registration, from the size of its first chunk that was written, or
-- from the sizes of the chunk files.
def resolveDtype (arrayDir : String) (t : ZarrTargetConfig) (registration : ArrayRegistration fl) (chunkElements : Nat)
    (observedChunkBytes : Option Nat) (files : List (TupleChunkKey × Nat)) (arrayName : String) :
    Except SyncWriteError (DTypeDescriptor × Char) := do
  match (registration.arrayNames.idxOf? arrayName).bind (registration.arrayDtypes[·]?) with
  | some dtype => return (.from dtype, defaultV2DimensionSeparator t)
  | none =>
  match observedChunkBytes with
  | some bytes => return (dtypeFromChunkBytesAndElements bytes chunkElements, defaultV2DimensionSeparator t)
  | none =>
  match ← inferChunkDescriptor arrayDir t files with
  | some desc => return (dtypeFromChunkBytesAndElements desc.chunkBytes chunkElements, desc.separator)
  | none => return (conservativeUnknownDtype, defaultV2DimensionSeparator t)

def arrayMetadataFromRegistration (arrayDir : String) (t : ZarrTargetConfig) (registration : ArrayRegistration fl)
    (parallelCoordNames : List String) (observedChunkBytes : Option Nat) (files : List (TupleChunkKey × Nat))
    (arrayName : String) : Except SyncWriteError ArrayMetadata := do
  let dims ← shapeAndChunksFromRegistration registration.coords parallelCoordNames
  let (dtype, separator) ←
    resolveDtype arrayDir t registration dims.chunks.prod observedChunkBytes files arrayName
  return { dimOrder := dims.dimOrder, shape := dims.shape, chunks := dims.chunks, dtype, separator }

-- Without coordinates the metadata only know the files.
def arrayMetadataFromFiles (arrayDir : String) (t : ZarrTargetConfig) (files : List (TupleChunkKey × Nat)) :
    Except SyncWriteError (Option ArrayMetadata) := do
  match ← inferChunkDescriptor arrayDir t files with
  | none => return none
  | some desc =>
    let dtype := conservativeUnknownDtype
    let chunkElems := desc.chunkBytes / dtype.elemBytes
    let version := match t.zarrFormat with
      | .v2 => "v2"
      | .v3 => "v3"
    match checkedAdd desc.maxIndex 1 with
    | none => throw (.metadataConsolidationFailed s!"chunk index overflow while building {version} metadata")
    | some chunksCount =>
    match checkedMul chunksCount chunkElems with
    | none => throw (.metadataConsolidationFailed s!"shape overflow while building {version} metadata")
    | some shapeElems =>
      return some {
        dimOrder := [], shape := [shapeElems], chunks := [chunkElems], dtype, separator := desc.separator }

-- The metadata of one array that a successful close leaves behind.
def publishedMetadata (datasetRoot : String) (t : ZarrTargetConfig) (registration : ArrayRegistration fl)
    (parallelCoordNames : List String) (observedChunkBytes : Option Nat) (files : List (TupleChunkKey × Nat))
    (arrayName : String) : Except SyncWriteError (Option ArrayMetadata) :=
  let arrayDir := datasetRoot ++ "/" ++ arrayName
  if registration.coords.entries.isEmpty then arrayMetadataFromFiles arrayDir t files
  else some <$>
    arrayMetadataFromRegistration arrayDir t registration parallelCoordNames observedChunkBytes files arrayName

end ZarrIo
