import ServeModel.Lib.LittleEndian
import ServeModel.ZarrIo.Layout

-- The arrays that hold the coordinates: what their metadata declare, and the bytes of their only chunk.
namespace ZarrIo

open LittleEndian

variable {fl : Floats}

structure CoordDtype where
  v2Dtype : String
  v3DataType : String
  elemBytes : Nat

def temporalDataType (name : String) : String :=
  "\x7b\"name\":\"numpy." ++ name ++ "\",\"configuration\":\x7b\"unit\":\"ns\",\"scale_factor\":1\x7d\x7d"

def dtypeForNumericCoordValues : CoordValues fl → Option CoordDtype
  | .i64 _ => some ⟨"<i8", "int64", 8⟩
  | .datetimeNs _ => some ⟨"<M8[ns]", temporalDataType "datetime64", 8⟩
  | .timedeltaNs _ => some ⟨"<m8[ns]", temporalDataType "timedelta64", 8⟩
  | .u64 _ => some ⟨"<u8", "uint64", 8⟩
  | .i32 _ => some ⟨"<i4", "int32", 4⟩
  | .u32 _ => some ⟨"<u4", "uint32", 4⟩
  | .f32 _ => some ⟨"<f4", "float32", 4⟩
  | .f64 _ => some ⟨"<f8", "float64", 8⟩
  | .utf8 _ => none

section Payload

-- The bytes of floating-point numbers.
variable (le32 : fl.F32 → List UInt8) (le64 : fl.F64 → List UInt8)

def numericCoordValuesToLeBytes : CoordValues fl → Option (List UInt8)
  | .i64 vs | .datetimeNs vs | .timedeltaNs vs => some (vs.flatMap fun v => encode 8 v.toUInt64.toNat)
  | .u64 vs => some (vs.flatMap fun v => encode 8 v.toNat)
  | .i32 vs => some (vs.flatMap fun v => encode 4 v.toUInt32.toNat)
  | .u32 vs => some (vs.flatMap fun v => encode 4 v.toNat)
  | .f32 vs => some (vs.flatMap le32)
  | .f64 vs => some (vs.flatMap le64)
  | .utf8 _ => none

def fixedWidthUtf32 (width : Nat) (value : String) : List UInt8 :=
  (List.range width).flatMap fun i => encode 4 (value.toList[i]?.elim 0 Char.toNat)

def utf8CoordValuesToFixedWidthUtf32 (values : List String) : Nat × List UInt8 :=
  let width := max ((values.map String.length).max?.getD 0) 1
  (width, values.flatMap (fixedWidthUtf32 width))

def coordPayload (coordName : String) (values : CoordValues fl) : Except SyncWriteError (List UInt8) :=
  match values, numericCoordValuesToLeBytes le32 le64 values with
  | .utf8 vs, _ => .ok (utf8CoordValuesToFixedWidthUtf32 vs).2
  | _, some payload => .ok payload
  | _, none => .error (.metadataConsolidationFailed
      s!"failed encoding numeric coordinate payload for '{coordName}'")

-- A number type, or the width of texts.
def coordDtype (coordName : String) (values : CoordValues fl) : Except SyncWriteError (CoordDtype ⊕ Nat) :=
  match values, dtypeForNumericCoordValues values with
  | .utf8 vs, _ => .ok (.inr (utf8CoordValuesToFixedWidthUtf32 vs).1)
  | _, some dtype => .ok (.inl dtype)
  | _, none => .error (.metadataConsolidationFailed
      s!"unsupported coordinate dtype for '{coordName}' during materialization")

inductive DeclaredDtype
  | v2 (dtype : String)
  | v3 (dataType : String)
  | v3FixedLengthUtf32 (lengthBytes : Nat)

def declaredDtype : ZarrFormat → CoordDtype ⊕ Nat → DeclaredDtype
  | .v2, .inl dtype => .v2 dtype.v2Dtype
  | .v2, .inr width => .v2 s!"<U{width}"
  | .v3, .inl dtype => .v3 dtype.v3DataType
  | .v3, .inr width => .v3FixedLengthUtf32 (width * 4)

-- Only the arrays of the second format have a separator, and only those of the third name their dimensions.
structure CoordArray where
  shape : List Nat
  chunks : List Nat
  dtype : DeclaredDtype
  separator : Option Char
  dimensionNames : List String

inductive CoordDocument
  | array (array : CoordArray)
  | attrs (dimOrder : List String)
  | empty

def buildCoordinateMetadataEntriesForAxis (coordName : String) (values : CoordValues fl) (perArrayPaths : List String)
    (zarrFormat : ZarrFormat) (separator : Char) : Except SyncWriteError (List (String × CoordDocument)) := do
  let len := values.len
  if len = 0 then throw (.metadataConsolidationFailed s!"registered coord axis '{coordName}' has zero length")
  let dtype ← coordDtype coordName values
  let declared := declaredDtype zarrFormat dtype
  return perArrayPaths.map fun rel =>
    (coordName ++ "/" ++ rel, match zarrFormat with
      | .v2 =>
        if (Text.stripEnd ".zarray" rel).isSome then .array ⟨[len], [len], declared, some separator, []⟩
        else if (Text.stripEnd ".zattrs" rel).isSome then .attrs [coordName]
        else .empty
      | .v3 =>
        if (Text.stripEnd "zarr.json" rel).isSome then .array ⟨[len], [len], declared, none, [coordName]⟩
        else .empty)

-- What is written for one coordinate: the bytes of its chunk, and its metadata.
def writeCoordinateArray (coordName : String) (values : CoordValues fl) (perArrayPaths : List String)
    (zarrFormat : ZarrFormat) (separator : Char) :
    Except SyncWriteError (List UInt8 × List (String × CoordDocument)) := do
  let payload ← coordPayload le32 le64 coordName values
  let entries ← buildCoordinateMetadataEntriesForAxis coordName values perArrayPaths zarrFormat separator
  return (payload, entries)

end Payload

section Reader

-- How a number is read back, by the names of its type.
def readers : List (CoordDtype × (List UInt8 → CoordValue fl)) := [
  (⟨"<i8", "int64", 8⟩, fun b => .i64 (UInt64.ofNat (decode b)).toInt64),
  (⟨"<M8[ns]", temporalDataType "datetime64", 8⟩, fun b => .datetimeNs (UInt64.ofNat (decode b)).toInt64),
  (⟨"<m8[ns]", temporalDataType "timedelta64", 8⟩, fun b => .timedeltaNs (UInt64.ofNat (decode b)).toInt64),
  (⟨"<u8", "uint64", 8⟩, fun b => .u64 (.ofNat (decode b))),
  (⟨"<i4", "int32", 4⟩, fun b => .i32 (UInt32.ofNat (decode b)).toInt32),
  (⟨"<u4", "uint32", 4⟩, fun b => .u32 (.ofNat (decode b)))]

-- Code points of four bytes, without the padding at the end.
def readUtf32 (bytes : List UInt8) : CoordValue fl :=
  let chars := (slices 4 (bytes.length / 4) bytes).map fun b => Char.ofNat (decode b)
  .utf8 (String.ofList (chars.rdropWhile (· = '\x00')))

-- The size of a value and how it is read.
def DeclaredDtype.reader : DeclaredDtype → Option (Nat × (List UInt8 → CoordValue fl))
  | .v2 dtype =>
    match dtype.toList with
    | '<' :: 'U' :: width => some (Nat.ofDigitChars 10 width 0 * 4, readUtf32)
    | _ => (readers.find? (·.1.v2Dtype = dtype)).map fun r => (r.1.elemBytes, r.2)
  | .v3 dataType => (readers.find? (·.1.v3DataType = dataType)).map fun r => (r.1.elemBytes, r.2)
  | .v3FixedLengthUtf32 lengthBytes => some (lengthBytes, readUtf32)

-- The payload has the declared size, and the values read from it are the given ones.
def CoordArray.Decodes (array : CoordArray) (payload : List UInt8) (values : List (CoordValue fl)) : Prop :=
  ∃ size read, array.dtype.reader = some (size, read) ∧ payload.length = values.length * size ∧
    (slices size array.shape.prod payload).map read = values

end Reader

end ZarrIo
