import ServeModel.Lib.Concurrent
import ServeModel.Lib.Text

-- A runtime that travels inside an executable, and its extraction into a cache that processes share.
namespace Bundle

abbrev Bytes := List UInt8
abbrev Path := String

structure RegularFile (C : Type) where
  content : C
  mode : Nat

inductive Node (C : Type)
  | file (f : RegularFile C)
  | directory
  | symlink (target : Path)

-- What lies under a directory, by relative path.
abbrev Tree (C : Type) := Path → Option (Node C)

def Tree.empty {C : Type} : Tree C := fun _ => none

-- A tree from which some entries are gone.
def Tree.Part {C : Type} (t u : Tree C) : Prop :=
  ∀ p n, t p = some n → u p = some n

def completeMarker : Path := ".physicsnemo-serve-runtime-complete"

def python : Path := "bin/python"

def runner : Path := "scripts/plugin_direct_runner.py"

-- What the operating system and the libraries supply.
structure Host (C : Type) where
  text : C → Option String
  ofText : String → C
  sha256 : Bytes → Bytes
  -- The entries of a compressed archive, and why there are no more of them.
  unpack : Bytes → List (Path × Node C) × Option String
  -- The file that a path leads to, along symbolic links.
  fileAt : Tree C → Path → Option (RegularFile C)
  -- Where a write through a symbolic link ends up.
  target : Tree C → Path → Path
  -- The entries of a tree, directory by directory, without following links.
  walk : Tree C → List Path
  -- Whether what a path leads to in the end lies inside the tree, if it leads anywhere.
  resolvesInside : Tree C → Path → Option Bool
  fileAt_part : ∀ {t u p f}, Tree.Part t u → fileAt t p = some f → fileAt u p = some f

section Footer

structure BundleFooter where
  payloadOffset : Nat
  payloadLength : Nat
  digest : Bytes
  deriving DecidableEq

def footerMagic : Bytes :=
  "PHYSNEMOSERVEV1\x00".toList.map fun c => c.toNat.toUInt8

def footerSize : Nat := 16 + 8 + 8 + 32

def littleEndian (bytes : Bytes) : Nat :=
  bytes.foldr (fun b n => b.toNat + 256 * n) 0

def readFooter (executable : Bytes) : Except String BundleFooter := do
  if executable.length < footerSize then throw "executable does not contain a bundled runtime"
  let footerOffset := executable.length - footerSize
  let footer := executable.drop footerOffset
  if footer.take 16 ≠ footerMagic then throw "executable does not contain a bundled runtime"
  let payloadOffset := littleEndian ((footer.drop 16).take 8)
  let payloadLength := littleEndian ((footer.drop 24).take 8)
  if ¬(payloadOffset + payloadLength < 2 ^ 64 ∧ payloadOffset + payloadLength = footerOffset) then
    throw "bundled runtime footer has invalid payload bounds"
  return { payloadOffset, payloadLength, digest := (footer.drop 32).take 32 }

def hexDigit (n : Nat) : Char :=
  Char.ofNat (if n < 10 then '0'.toNat + n else 'a'.toNat + (n - 10))

def hex (bytes : Bytes) : String :=
  String.ofList (bytes.flatMap fun b => [hexDigit (b.toNat / 16), hexDigit (b.toNat % 16)])

def BundleFooter.payload (footer : BundleFooter) (executable : Bytes) : Bytes :=
  (executable.drop footer.payloadOffset).take footer.payloadLength

end Footer

section Trees

variable {C : Type} (H : Host C)

def unpacked (entries : List (Path × Node C)) (t : Tree C) : Tree C :=
  entries.foldl (fun t e => Function.update t e.1 (some e.2)) t

-- The marker is written through a link that lies in its place.
def markComplete (key : String) (t : Tree C) : Except String (Tree C) :=
  let marker (mode : Nat) := some (.file ⟨H.ofText (key ++ "\n"), mode⟩)
  match t completeMarker with
  | none => .ok (Function.update t completeMarker (marker 0o644))
  | some (.file f) => .ok (Function.update t completeMarker (marker f.mode))
  | some .directory => .error "is a directory"
  | some (.symlink _) =>
    let path := H.target t completeMarker
    .ok (Function.update t path (marker (((H.fileAt t path).map (·.mode)).getD 0o644)))

def validateRuntimeSymlinks (t : Tree C) : List Path → Except String Unit
  | [] => .ok ()
  | path :: rest =>
    match t path with
    | some (.symlink target) =>
      if (Text.stripStart "/" target).isSome then
        .error s!"runtime contains a non-relocatable absolute symlink: {path} -> {target}"
      else match H.resolvesInside t path with
        | none => .error s!"failed to resolve runtime symlink: {path}"
        | some false => .error s!"runtime contains a symlink that escapes the runtime: {path} -> {target}"
        | some true => validateRuntimeSymlinks t rest
    | _ => validateRuntimeSymlinks t rest

def validateRuntimeLayout (t : Tree C) : Except String Unit := do
  for path in [python, runner] do
    if (H.fileAt t path).isNone then throw s!"runtime is missing required file '{path}'"
  validateRuntimeSymlinks H t (H.walk t)

def markerText (t : Tree C) : Option String :=
  (H.fileAt t completeMarker).bind fun f => H.text f.content

end Trees

-- What is done to the executable, to the cache and to a temporary directory in it.
inductive RuntimeOp (C : Type) : Sig
  | openExecutable : RuntimeOp C (Except String Bytes)
  | readMarker : RuntimeOp C (Option String)
  | isFile (path : Path) : RuntimeOp C Bool
  | mode (path : Path) : RuntimeOp C (Option Nat)
  | createCacheRoot : RuntimeOp C (Except String Unit)
  | openLock : RuntimeOp C (Except String Unit)
  | lockExclusive : RuntimeOp C (Except String Unit)
  | readPayload : RuntimeOp C (Except String Unit)
  | rootExists : RuntimeOp C Bool
  | listRoot : RuntimeOp C (Except String (List Path))
  | removeEntry (path : Path) : RuntimeOp C (Except String Unit)
  | removeRoot : RuntimeOp C (Except String Unit)
  | makeTemporary : RuntimeOp C (Except String Unit)
  | unpackEntry (entry : Path × Node C) : RuntimeOp C (Except String Unit)
  | checkLayout : RuntimeOp C (Except String Unit)
  | writeMarker (key : String) : RuntimeOp C (Except String Unit)
  | renameTemporary : RuntimeOp C (Except String Unit)
  | unlock : RuntimeOp C Unit

variable {C : Type}

open Prog

def runtimeHasEssentialFiles : Prog (RuntimeOp C) Bool := do
  if !(← perform (.isFile python)) then return false
  if !(← perform (.isFile runner)) then return false
  match ← perform (.mode python) with
  | some mode => return mode &&& 0o111 ≠ 0
  | none => return false

def runtimeIsReady (key : String) : Prog (RuntimeOp C) Bool := do
  match ← perform .readMarker with
  | some marker => if Text.trim marker = key then runtimeHasEssentialFiles else return false
  | none => return false

-- Performs operations one after the other until one of them fails.
def performAll : List (RuntimeOp C (Except String Unit)) → Prog (RuntimeOp C) (Except String Unit)
  | [] => pure (.ok ())
  | op :: ops => do
    match ← perform op with
    | .error e => return .error e
    | .ok () => performAll ops

def removeDirAll : Prog (RuntimeOp C) (Except String Unit) := do
  match ← perform .listRoot with
  | .error e => return .error e
  | .ok paths => performAll (paths.map .removeEntry ++ [.removeRoot])

def clearRoot : Prog (RuntimeOp C) (Except String Unit) := do
  if ← perform .rootExists then removeDirAll else return .ok ()

def moveIntoPlace (key : String) : Prog (RuntimeOp C) (Except String String) := do
  match ← perform .renameTemporary with
  | .ok () => return .ok key
  | .error e => if ← runtimeIsReady key then return .ok key else return .error e

def sealRuntime (key : String) : Prog (RuntimeOp C) (Except String String) := do
  if let .error e ← perform .checkLayout then return .error e
  if let .error e ← perform (.writeMarker key) then return .error e
  moveIntoPlace key

-- Fills a temporary directory and moves it into place.
def installRuntime (key : String) (archive : List (Path × Node C) × Option String) :
    Prog (RuntimeOp C) (Except String String) := do
  if let .error e ← performAll (.makeTemporary :: archive.1.map .unpackEntry) then return .error e
  if let some e := archive.2 then return .error e
  sealRuntime key

def extractLocked (H : Host C) (executable : Bytes) (footer : BundleFooter) :
    Prog (RuntimeOp C) (Except String String) := do
  let key := hex footer.digest
  if ← runtimeIsReady key then return .ok key
  if let .error e ← perform .readPayload then return .error e
  let payload := footer.payload executable
  if H.sha256 payload ≠ footer.digest then return .error "bundled runtime checksum mismatch"
  if let .error e ← clearRoot then return .error e
  installRuntime key (H.unpack payload)

def acquireLock : Prog (RuntimeOp C) (Except String Unit) :=
  performAll [.createCacheRoot, .openLock, .lockExclusive]

-- The lock is given back in any case.
def lockAndExtract (H : Host C) (executable : Bytes) (footer : BundleFooter) :
    Prog (RuntimeOp C) (Except String String) := do
  if let .error e ← acquireLock then return .error e
  let result ← extractLocked H executable footer
  perform .unlock
  return result

-- The runtime is found under the key of the payload.
def extractRuntime (H : Host C) : Prog (RuntimeOp C) (Except String String) := do
  match ← perform .openExecutable with
  | .error e => return .error e
  | .ok executable =>
    match readFooter executable with
    | .error e => return .error e
    | .ok footer =>
      if ← runtimeIsReady (hex footer.digest) then return .ok (hex footer.digest)
      lockAndExtract H executable footer

end Bundle
