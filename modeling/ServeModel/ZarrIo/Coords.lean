import ServeModel.Lib.Text
import ServeModel.ZarrIo.Basic

namespace ZarrIo

-- What the code asks of the floating-point numbers.
structure Floats where
  F32 : Type
  F64 : Type
  eq32 : F32 → F32 → Bool
  eq64 : F64 → F64 → Bool
  isNan32 : F32 → Bool
  isNan64 : F64 → Bool
  asF32 : F64 → F32
  fromF32 : F32 → F64

inductive CoordValues (fl : Floats)
  | i64 (values : List Int64)
  | datetimeNs (values : List Int64)
  | timedeltaNs (values : List Int64)
  | u64 (values : List UInt64)
  | i32 (values : List Int32)
  | u32 (values : List UInt32)
  | f32 (values : List fl.F32)
  | f64 (values : List fl.F64)
  | utf8 (values : List String)

inductive CoordValue (fl : Floats)
  | i64 (value : Int64)
  | datetimeNs (value : Int64)
  | timedeltaNs (value : Int64)
  | u64 (value : UInt64)
  | i32 (value : Int32)
  | u32 (value : UInt32)
  | f32 (value : fl.F32)
  | f64 (value : fl.F64)
  | utf8 (value : String)

variable {fl : Floats}

namespace CoordValues

def toList : CoordValues fl → List (CoordValue fl)
  | i64 vs => vs.map .i64
  | datetimeNs vs => vs.map .datetimeNs
  | timedeltaNs vs => vs.map .timedeltaNs
  | u64 vs => vs.map .u64
  | i32 vs => vs.map .i32
  | u32 vs => vs.map .u32
  | f32 vs => vs.map .f32
  | f64 vs => vs.map .f64
  | utf8 vs => vs.map .utf8

def len (values : CoordValues fl) : Nat :=
  values.toList.length

def isEmpty (values : CoordValues fl) : Bool :=
  values.len = 0

def hasNan : CoordValues fl → Bool
  | f64 vs => vs.any fl.isNan64
  | f32 vs => vs.any fl.isNan32
  | _ => false

end CoordValues

structure CoordMap (fl : Floats) where
  entries : List (String × CoordValues fl)
  nodup : (entries.map Prod.fst).Nodup

namespace CoordMap

def keys (m : CoordMap fl) : List String :=
  m.entries.map Prod.fst

def get (m : CoordMap fl) (name : String) : Option (CoordValues fl) :=
  m.entries.lookup name

def containsKey (m : CoordMap fl) (name : String) : Bool :=
  name ∈ m.keys

def validateEntry (key : String) (values : CoordValues fl) : Except SyncWriteError Unit :=
  if Text.isBlank key then .error (.validation "coordinate key must not be empty")
  else if values.isEmpty then .error (.validation s!"coordinate '{key}' must include at least one value")
  else if values.hasNan then .error (.validation s!"coordinate '{key}' contains NaN values")
  else .ok ()

def validate (m : CoordMap fl) : Except SyncWriteError Unit :=
  m.entries.forM fun (key, values) => validateEntry key values

end CoordMap

inductive DataType
  | bool | int8 | int16 | int32 | int64 | uint8 | uint16 | uint32 | uint64
  | float16 | float32 | float64 | datetimeNs | timedeltaNs
  deriving DecidableEq, Repr

def DataType.elemBytes : DataType → Nat
  | bool | int8 | uint8 => 1
  | int16 | uint16 | float16 => 2
  | int32 | uint32 | float32 => 4
  | int64 | uint64 | float64 | datetimeNs | timedeltaNs => 8

structure ArrayRegistration (fl : Floats) where
  coords : CoordMap fl
  arrayNames : List String
  arrayDtypes : List DataType

def ArrayRegistration.validate (r : ArrayRegistration fl) : Except SyncWriteError Unit := do
  r.coords.validate
  if r.arrayNames = [] then throw (.validation "add_array() requires at least one array name")
  if r.arrayNames.any Text.isBlank then throw (.validation "add_array() requires non-empty array names")
  if ¬r.arrayNames.Nodup then throw (.validation "add_array() array_names must be unique")
  let dtypes := r.arrayDtypes.length
  let names := r.arrayNames.length
  if r.arrayDtypes ≠ [] ∧ dtypes ≠ names then
    throw (.validation s!"len(array_dtypes) != len(array_names): {dtypes} != {names}")

section Memory

-- The address spaces that a payload can be in.
inductive Place
  | host
  | device (ordinal : Int)
  deriving DecidableEq

abbrev Memory := Place → Nat → UInt8

-- Host bytes are known by their address and their number.
inductive InputArraySource
  | hostBytes (ptr len : Nat)
  | cudaDevicePtr (ptr : Nat) (deviceOrdinal : Int) (producerStream : Option Nat)
  | internalHostBufferPtr (ptr : Nat)

def InputArraySource.place : InputArraySource → Place
  | cudaDevicePtr _ ordinal _ => .device ordinal
  | _ => .host

def InputArraySource.ptr : InputArraySource → Nat
  | hostBytes ptr _ | cudaDevicePtr ptr _ _ | internalHostBufferPtr ptr => ptr

structure InputArray where
  nbytes : Nat
  source : InputArraySource

def InputArray.read (memory : Memory) (input : InputArray) (start count : Nat) : List UInt8 :=
  (List.range count).map fun i => memory input.source.place (input.source.ptr + start + i)

def InputArray.validate (input : InputArray) : Except SyncWriteError Unit :=
  let nbytes := input.nbytes
  if nbytes = 0 then .error (.validation "input array nbytes must be non-zero") else
  match input.source with
  | .hostBytes _ len =>
    if nbytes ≠ len then
      .error (.validation s!"HostBytes nbytes mismatch: declared {nbytes} but payload len {len}")
    else .ok ()
  | .cudaDevicePtr ptr deviceOrdinal _ =>
    if ptr = 0 then .error (.validation "CUDA device pointer must be non-zero")
    else if deviceOrdinal < 0 then
      .error (.validation s!"CUDA device_ordinal must be non-negative, got {deviceOrdinal}")
    else .ok ()
  | .internalHostBufferPtr _ => .ok ()

end Memory

structure InferenceWriteRequest (fl : Floats) where
  coords : CoordMap fl
  arrayNames : List String
  arrays : List InputArray

def validateArrays : Nat → List InputArray → Except SyncWriteError Unit
  | _, [] => .ok ()
  | index, input :: rest =>
    match input.validate with
    | .ok () => validateArrays (index + 1) rest
    | .error (.validation message) => .error (.validation s!"write() arrays[{index}] invalid: {message}")
    | .error other => .error other

def InferenceWriteRequest.validate (req : InferenceWriteRequest fl) : Except SyncWriteError Unit := do
  req.coords.validate
  if req.arrays.isEmpty then throw (.validation "write() requires at least one input array")
  let arrays := req.arrays.length
  let names := req.arrayNames.length
  if arrays ≠ names then throw (.validation s!"len(arrays) != len(array_names): {arrays} != {names}")
  if req.arrayNames.any Text.isBlank then throw (.validation "write() requires non-empty array names")
  if ¬req.arrayNames.Nodup then throw (.validation "write() array_names must be unique")
  validateArrays 0 req.arrays

end ZarrIo
