import ServeModel.Bundle.Extract

-- Processes that extract the runtime of one executable into one cache.
namespace Bundle

variable {C ι : Type}

-- The directory of the runtime, the lock beside it and the temporary directory of each process.
structure Cache (C ι : Type) where
  root : Option (Tree C)
  lock : Option ι := none
  temporary : ι → Option (Tree C) := fun _ => none
  returned : Bool := false

structure Setting (C : Type) where
  host : Host C
  executable : Bytes
  -- A probe of the cached runtime reports what is there.
  reliable : Prop

-- The probes that `runtimeIsReady` makes, all of them answered by one tree.
structure Ready (H : Host C) (key : String) (t : Tree C) : Prop where
  marker : ∃ text, markerText H t = some text ∧ Text.trim text = key
  python : (H.fileAt t python).isSome
  runner : (H.fileAt t runner).isSome
  executable : ∃ f, H.fileAt t Bundle.python = some f ∧ f.mode &&& 0o111 ≠ 0

namespace Setting

variable (S : Setting C)

def key : String :=
  match readFooter S.executable with
  | .ok footer => hex footer.digest
  | .error _ => ""

-- The tree of the payload that has passed its checksum.
structure Payload (t : Tree C) : Prop where
  verified : ∃ footer, readFooter S.executable = .ok footer ∧
    S.host.sha256 (footer.payload S.executable) = footer.digest ∧
    t = unpacked (S.host.unpack (footer.payload S.executable)).1 Tree.empty ∧
    (S.host.unpack (footer.payload S.executable)).2 = none

-- The whole payload is there, besides the marker.
def Complete (t : Tree C) : Prop :=
  ∃ payload, S.Payload payload ∧ ∀ p ≠ completeMarker, t p = payload p

variable [DecidableEq ι]

def probe {ρ : Type} (answer absent r : ρ) : Prop :=
  r = answer ∨ ¬S.reliable ∧ r = absent

def setTemporary (i : ι) (t : Option (Tree C)) (c : Cache C ι) : Cache C ι :=
  { c with temporary := Function.update c.temporary i t }

-- Every operation that can fail may fail.
def exec (i : ι) : Machine (RuntimeOp C) (Cache C ι)
  | _, .openExecutable, c, r, c' => c' = c ∧ ∀ executable, r = .ok executable → executable = S.executable
  | _, .readMarker, c, r, c' => c' = c ∧ S.probe (c.root.bind (markerText S.host)) none r
  | _, .isFile path, c, r, c' => c' = c ∧ S.probe (c.root.bind (S.host.fileAt · path)).isSome false r
  | _, .mode path, c, r, c' => c' = c ∧ S.probe ((c.root.bind (S.host.fileAt · path)).map (·.mode)) none r
  | _, .rootExists, c, r, c' => c' = c ∧ S.probe c.root.isSome false r
  | _, .createCacheRoot, c, _, c' | _, .openLock, c, _, c' | _, .readPayload, c, _, c' | _, .listRoot, c, _, c' =>
    c' = c
  | _, .lockExclusive, c, r, c' =>
    r = .ok () ∧ c.lock = none ∧ c' = { c with lock := some i } ∨ r ≠ .ok () ∧ c' = c
  | _, .unlock, c, _, c' => c' = { c with lock := none }
  | _, .removeEntry path, c, r, c' =>
    r = .ok () ∧ c' = { c with root := c.root.map fun t => Function.update t path none } ∨ r ≠ .ok () ∧ c' = c
  | _, .removeRoot, c, r, c' =>
    r = .ok () ∧ c.root = some Tree.empty ∧ c' = { c with root := none } ∨ r ≠ .ok () ∧ c' = c
  | _, .makeTemporary, c, r, c' =>
    r = .ok () ∧ c' = setTemporary i (some Tree.empty) c ∨ r ≠ .ok () ∧ c' = c
  | _, .unpackEntry entry, c, r, c' =>
    r = .ok () ∧ c' = setTemporary i ((c.temporary i).map (unpacked [entry])) c ∨ r ≠ .ok () ∧ c' = c
  | _, .checkLayout, c, r, c' =>
    c' = c ∧ (r = .ok () → ∀ t ∈ c.temporary i, validateRuntimeLayout S.host t = .ok ())
  | _, .writeMarker key, c, r, c' =>
    (∃ t t', c.temporary i = some t ∧ markComplete S.host key t = .ok t' ∧ r = .ok () ∧
      c' = setTemporary i (some t') c) ∨ r ≠ .ok () ∧ c' = c
  -- A directory takes the place of nothing or of an empty one.
  | _, .renameTemporary, c, r, c' =>
    (∃ t, c.temporary i = some t ∧ (c.root = none ∨ c.root = some Tree.empty) ∧ r = .ok () ∧
      c' = { setTemporary i none c with root := some t }) ∨ r ≠ .ok () ∧ c' = c

-- The locks of a process go with it.
def leave (i : ι) (c : Cache C ι) : Cache C ι :=
  { c with lock := if c.lock = some i then none else c.lock }

inductive Stop (i : ι) (c : Cache C ι) : Prog (RuntimeOp C) (Except String String) → Cache C ι → Prop
  | killed {p} : Stop i c p (leave i c)
  | failed {e} : Stop i c (.ret (.error e)) (leave i c)
  | returned {key} : Stop i c (.ret (.ok key)) { leave i c with returned := true }

-- What the cache holds at first is a whole runtime, or one that is not ready.
def processes (ι : Type) [DecidableEq ι] : System (RuntimeOp C) (Cache C ι) ι (Except String String) where
  init c := ∃ root, (∀ t ∈ root, Ready S.host S.key t → S.Complete t) ∧ c = { root }
  exec := S.exec
  start _ p c c' := p = extractRuntime S.host ∧ c' = c
  stop i p c c' := Stop i c p c'
  env _ _ := False

end Setting

end Bundle
