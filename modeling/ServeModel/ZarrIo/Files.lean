import ServeModel.ZarrIo.Dataset

-- The files of a dataset, and what each of them is for.
namespace ZarrIo

variable {fl : Floats}

inductive Member
  | root
  | array (name : String)
  | coord (name : String)
  deriving DecidableEq

-- The two writers differ in the name of the file they rename in the end.
inductive FileWriter
  | metadata | chunk

def FileWriter.tempFileName (fileName : String) (nonce counter : Nat) : FileWriter → String
  | metadata => s!"{fileName}.tmp-{nonce}-{counter}"
  | chunk => s!".{fileName}.tmp-{nonce}-{counter}"

def FileWriter.tempPathFor (writer : FileWriter) (nonce counter : Nat) (file : List Component) :
    Option (List Component) :=
  match file.getLast? with
  | some (.normal fileName) => some (file.dropLast ++ [.normal (writer.tempFileName fileName nonce counter)])
  | _ => none

-- The paths below the root of the dataset that are written for a member.
inductive Writes (cfg : BackendConfig fl) (registration : ArrayRegistration fl) : Member → FileWriter → String → Prop
  | rootMetadata {rel : String} : (rel ∈ cfg.target.metadataPaths.rootPaths) →
      Writes cfg registration .root .metadata rel
  | arrayMetadata {name rel : String} : (registration.coords.keys ≠ []) → (name ∈ registration.arrayNames) →
      (rel ∈ cfg.target.metadataPaths.perArrayPaths) →
      Writes cfg registration (.array name) .metadata (name ++ "/" ++ rel)
  -- without coordinates, the directories that hold chunks are looked up instead
  | foundMetadata {req : InferenceWriteRequest fl} {arrayIds : List Nat} {batch : PlannedWriteBatch}
      {task : ChunkTask} {rel : String} : (registration.coords.keys = []) →
      (Planned cfg.planner registration req arrayIds batch) → (task ∈ batch.tasks) →
      (¬task.arrayName.startsWith ".") → (rel ∈ cfg.target.metadataPaths.perArrayPaths) →
      Writes cfg registration (.array task.arrayName) .metadata (task.arrayName ++ "/" ++ rel)
  | coordMetadata {name rel : String} : (name ∈ registration.coords.keys) →
      (rel ∈ cfg.target.metadataPaths.perArrayPaths) →
      Writes cfg registration (.coord name) .metadata (name ++ "/" ++ rel)
  | coordChunk {name : String} : (name ∈ registration.coords.keys) →
      Writes cfg registration (.coord name) .metadata (cfg.target.chunkPathForTupleKey name [0])
  | chunk {req : InferenceWriteRequest fl} {arrayIds : List Nat} {batch : PlannedWriteBatch} {task : ChunkTask} :
      (Planned cfg.planner registration req arrayIds batch) → (task ∈ batch.tasks) →
      Writes cfg registration (.array task.arrayName) .chunk
        (cfg.target.chunkPathForTupleKey task.arrayName task.tupleKey)

-- A file is where the components of its path lead to.
inductive HasFile (cfg : BackendConfig fl) (registration : ArrayRegistration fl) : Member → List Component → Prop
  | target {m : Member} {writer : FileWriter} {path : String} : (Writes cfg registration m writer path) →
      HasFile cfg registration m (components path)
  | temp {m : Member} {writer : FileWriter} {path : String} {nonce counter : Nat} {file : List Component} :
      (Writes cfg registration m writer path) →
      (writer.tempPathFor nonce counter (components path) = some file) → HasFile cfg registration m file

-- The files lie strictly below the root, and no two members share one.
structure Separate (cfg : BackendConfig fl) (registration : ArrayRegistration fl) : Prop where
  confined : ∀ m file, HasFile cfg registration m file → ∃ names, names ≠ [] ∧ file = names.map .normal
  disjoint : ∀ m₁ m₂ file, HasFile cfg registration m₁ file → HasFile cfg registration m₂ file → m₁ = m₂

-- The directories that the names stand for.
def memberDirs (registration : ArrayRegistration fl) : List (List Component) :=
  (registration.arrayNames ++ registration.coords.keys).map components

-- There are no coordinates, but the configuration asks for some, so that every write is turned down.
def WritesRefused (cfg : BackendConfig fl) (registration : ArrayRegistration fl) : Prop :=
  registration.coords.keys = [] ∧
    ∀ dims, resolveActiveParallelDims cfg.planner.parallelCoordsConfig registration.coords ≠ .ok dims

end ZarrIo
