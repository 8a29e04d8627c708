import ServeModel.ZarrIo.Coords

namespace ZarrIo

variable {fl : Floats}

-- The components of a path. Repeated separators and inner dots do not count.
inductive Component
  | rootDir
  | curDir
  | parentDir
  | normal (name : String)
  deriving DecidableEq

def componentOf (part : List Char) : Option Component :=
  if part = [] ∨ part = ['.'] then none
  else if part = ['.', '.'] then some .parentDir
  else some (.normal (String.ofList part))

def components (path : String) : List Component :=
  let parts := path.toList.splitOn '/'
  let first := match path.toList, parts with
    | '/' :: _, _ => [.rootDir]
    | _, ['.'] :: _ => [.curDir]
    | _, _ => []
  first ++ parts.filterMap componentOf

def validateSafeDatasetComponent (name field : String) : Except SyncWriteError Unit :=
  match components name with
  | [] => .error (.validation s!"add_array() {field} must be a single safe path component")
  | [.normal _] =>
    if '\\' ∈ name.toList then
      .error (.validation s!"add_array() {field} '{name}' must be a single safe path component")
    else .ok ()
  | _ => .error (.validation s!"add_array() {field} '{name}' must be a single safe path component")

-- The registration that the registry holds, if there is one.
def register (registered : Option (ArrayRegistration fl)) (req : ArrayRegistration fl) :
    Except SyncWriteError (ArrayRegistration fl) := do
  if req.arrayNames = [] then throw (.validation "add_array() requires at least one array name")
  if req.arrayNames.any Text.isBlank then throw (.validation "add_array() requires non-empty array names")
  if ¬req.arrayNames.Nodup then throw (.validation "add_array() array_names must be unique")
  req.arrayNames.forM (validateSafeDatasetComponent · "array name")
  req.coords.keys.forM (validateSafeDatasetComponent · "coord name")
  match req.coords.entries.find? (·.2.isEmpty) with
  | some (name, _) => throw (.validation s!"add_array() coord '{name}' must have at least one value")
  | none =>
  if registered.isSome then throw (.contractViolation "add_array() can only be called once in v1")
  if 2 ^ 32 < req.arrayNames.length then throw (.validation "array registration index overflowed u32")
  return req

-- The id of an array is its place in the registration.
def resolveArrayIds (registered : ArrayRegistration fl) (arrayNames : List String) :
    Except SyncWriteError (List Nat) :=
  arrayNames.mapM fun name =>
    match registered.arrayNames.idxOf? name with
    | some id => .ok id
    | none => .error (.contractViolation s!"write() references unknown array name: {name}")

end ZarrIo
