import ServeModel.Lib.Concurrent
import ServeModel.Prefetch.Download

-- Materialisations that share a cache directory.
namespace Prefetch

section Sources

def restrict (byteRange : Option ByteRange) (content : Bytes) : Bytes :=
  match byteRange with
  | none => content
  | some range => (content.drop range.offset).take range.length

-- The answer of a server, once it is there as a whole.
structure Answer where
  status : Nat
  body : Bytes

def Answer.isError (answer : Answer) : Bool :=
  400 ≤ answer.status && answer.status < 600

-- A header by which a client asks for something else than all that is there.
def isSelective (header : String × String) : Bool :=
  let name := toAsciiLowercase header.1
  name = "range" || (Text.stripStart "if-" name).isSome

-- The sources, which do not change, and servers that honour a range.
structure Origin where
  content : String → Option Bytes
  file : Path → Option Bytes
  answer : String → List (String × String) → Answer
  whole : ∀ {url headers}, ¬headers.any isSelective → ¬(answer url headers).isError →
    content url = some (answer url headers).body
  part : ∀ {url headers range}, ¬headers.any isSelective → 0 < range.length →
    ¬(answer url (headers ++ [rangeHeader range])).isError →
    (content url).map (restrict (some range)) = some (answer url (headers ++ [rangeHeader range])).body

namespace Origin

variable (O : Origin)

-- What lies at the address of a source.
def source (kind : PrefetchOpKind) (sourceUri : String) : Option Bytes :=
  match kind with
  | .httpFetch => (sourceUriToUrl sourceUri).toOption.bind O.content
  | .objectStoreFetch => (objectStoreSourceUriToUrl sourceUri).toOption.bind O.content
  | .fileCopy => (sourceUriToLocalPath sourceUri).toOption.bind O.file

def requested (item : PrefetchPlanItem) : Option Bytes :=
  (O.source item.effectiveKind item.sourceUri).map (restrict item.byteRange)

-- What is fetched for a request, unless something fails.
def fetched (request : DownloadRequest) : Option Bytes :=
  match request.kind with
  | .fileCopy => (sourceUriToLocalPath request.sourceUri).toOption.bind O.file
  | _ => do
    let url ← (requestUrl request).toOption
    let headers ← (requestHeaders request).toOption
    let answer := O.answer url headers
    if acceptsStatus request answer.status then some answer.body else none

end Origin

end Sources

-- A stream that comes to its end has delivered all.
def Stream.Delivers (stream : Stream) (content : Bytes) : Prop :=
  ∀ chunks : List Bytes, stream = chunks.map .ok → chunks.flatten = content

def isUuid (s : String) : Bool :=
  s.length = 36 && s.toList.all fun c => c.isDigit || c ∈ ['a', 'b', 'c', 'd', 'e', 'f', '-']

-- What is on the disk, and the UUIDs that have been drawn so far.
structure Disk where
  files : Path → Option Bytes := fun _ => none
  drawn : String → Bool := fun _ => false

-- The disk, the locks on it, who has drawn a UUID and which files have been returned.
structure Cache (ι : Type) extends Disk where
  lock : Path → Option ι := fun _ => none
  owner : String → Option ι := fun _ => none
  returned : List (Path × Option Bytes) := []

namespace Cache

variable {ι : Type} [DecidableEq ι]

def set (c : Cache ι) (path : Path) (content : Option Bytes) : Cache ι :=
  { c with files := Function.update c.files path content }

def setLock (c : Cache ι) (path : Path) (i : Option ι) : Cache ι :=
  { c with lock := Function.update c.lock path i }

def draw (c : Cache ι) (uuid : String) (i : ι) : Cache ι :=
  { c with drawn := Function.update c.drawn uuid true, owner := Function.update c.owner uuid (some i) }

-- The locks of a task go with it.
def leave (c : Cache ι) (i : ι) : Cache ι :=
  { c with lock := fun path => if c.lock path = some i then none else c.lock path }

def record (c : Cache ι) (path : Path) : Cache ι :=
  { c with returned := (path, c.files path) :: c.returned }

end Cache

section Exec

variable {ι : Type} [DecidableEq ι] (O : Origin)

-- Every operation that can fail may fail. Whether the budget covers a charge is up to the other requests of
-- the materialisation.
def exec (i : ι) : Machine CacheOp (Cache ι)
  | _, .tryExists path, c, r, c' => c' = c ∧ ∀ b, r = .ok b → b = (c.files path).isSome
  | _, .metadata path, c, r, c' => c' = c ∧ ∀ n, r = .ok n → (c.files path).map (·.length) = some n
  | _, .symlinkMetadata path, c, r, c' =>
    c' = c ∧ ∀ x, r = .ok x → (c.files path).map (fun b => (true, b.length)) = some x
  | _, .read path, c, r, c' => c' = c ∧ ∀ b, r = .ok b → c.files path = some b
  | _, .readIfPresent path, c, r, c' => c' = c ∧ ∀ b, r = .ok b → c.files path = b
  | _, .removeFileIfPresent path, c, r, c' => r = .ok () ∧ c' = c.set path none ∨ r ≠ .ok () ∧ c' = c
  | _, .createDirAll, c, _, c' | _, .sync _, c, _, c' | _, .charge _, c, _, c' => c' = c
  | _, .openLock path, c, r, c' =>
    r = .ok () ∧ c' = c.set path (some ((c.files path).getD [])) ∨ r ≠ .ok () ∧ c' = c
  | _, .lockExclusive path, c, r, c' =>
    r = .ok () ∧ c.lock path = none ∧ c' = c.setLock path (some i) ∨ r ≠ .ok () ∧ c' = c
  | _, .unlock path, c, _, c' => c' = c.setLock path none
  | _, .newUuid, c, uuid, c' => isUuid uuid ∧ c.drawn uuid = false ∧ c' = c.draw uuid i
  | _, .createNew path, c, r, c' =>
    r = .ok () ∧ c.files path = none ∧ c' = c.set path (some []) ∨ r ≠ .ok () ∧ c' = c
  | _, .writeAll path chunk, c, r, c' =>
    ∃ part, part <+: chunk ∧ (r = .ok () → part = chunk) ∧ c' = c.set path ((c.files path).map (· ++ part))
  | _, .rename source target, c, r, c' =>
    (∃ b, c.files source = some b ∧ r = .ok () ∧ c' = (c.set source none).set target (some b)) ∨ r ≠ .ok () ∧ c' = c
  | _, .send url headers, c, r, c' =>
    c' = c ∧ ∀ response, r = .ok response → response.status = (O.answer url headers).status ∧
      response.stream.Delivers (O.answer url headers).body
  | _, .sourceMetadata path, c, r, c' => c' = c ∧ ∀ n, r = .ok n → (O.file path).map (·.length) = some n
  | _, .openSource path, c, r, c' =>
    c' = c ∧ ∀ stream, r = .ok stream → ∃ content, O.file path = some content ∧ stream.Delivers content

end Exec

structure Job where
  config : PrefetchConfig
  request : DownloadRequest

structure Setting where
  host : Host
  cacheRoot : Path
  origin : Origin

-- A plan and the configuration of the process that materialises it.
structure Materialization where
  config : PrefetchConfig
  plan : List PrefetchPlanItem

namespace Setting

variable (S : Setting)

def requests (m : Materialization) : Except String (List DownloadRequest) :=
  buildRequests S.host m.config S.cacheRoot m.plan

def job (m : Materialization) (k : Nat) : Option Job :=
  (S.requests m).toOption.bind fun requests => requests[k]?.map fun request => ⟨m.config, request⟩

def work (j : Job) : Prog CacheOp RequestOutcome :=
  materializeRequest S.host j.config j.request

section Shared

variable {μ : Type} [DecidableEq μ] (M : μ → Materialization)

inductive Stop {ι : Type} [DecidableEq ι] (i : ι) (c : Cache ι) : Prog CacheOp RequestOutcome → Cache ι → Prop
  | killed {p} : Stop i c p (c.leave i)
  | failed : Stop i c (.ret .failure) (c.leave i)
  | returned {s} : Stop i c (.ret (.success s)) ((c.leave i).record s.localPath)

-- Any number of materialisations beside each other. Their requests are tasks of their own.
def materializations : System CacheOp (Cache (μ × Nat)) (μ × Nat) RequestOutcome where
  init c := c = {}
  exec := exec S.origin
  start i p c c' := (∃ j ∈ S.job (M i.1) i.2, p = S.work j) ∧ c' = c
  stop i p c c' := Stop i c p c'
  env _ _ := False

end Shared

-- The requests of one materialisation, from what is on the disk.
def tasks (m : Materialization) (d : Disk) : System CacheOp (Cache Nat) Nat RequestOutcome where
  init c := c = { d with }
  exec := exec S.origin
  start k p c c' := (∃ j ∈ S.job m k, p = S.work j) ∧ c' = c
  stop _ _ _ _ := False
  env _ _ := False

-- What a materialisation may leave on the disk, whether it has come to its end or not.
inductive Leaves (m : Materialization) (d : Disk) : Disk → Prop
  | refused {e} : (S.requests m = .error e) → Leaves m d d
  | stopped {c} : (System.Reachable (S.tasks m d) c) → Leaves m d c.state.toDisk

-- What is on the disk after some materialisations, one after the other.
inductive Left (ms : Set Materialization) : Disk → Prop
  | none : Left ms {}
  | next {d d' m} : Left ms d → m ∈ ms → S.Leaves m d d' → Left ms d'

structure Materializes (m : Materialization) (d : Disk) (result : MaterializationResult) (d' : Disk) : Prop where
  returns : ∃ requests outcomes c, S.requests m = .ok requests ∧ System.Reachable (S.tasks m d) c ∧
    outcomes.length = requests.length ∧ (∀ k (h : k < outcomes.length), c.threads k = some (.ret outcomes[k])) ∧
    collectOutcomes m.plan (requests.zip outcomes) = .ok result ∧ d' = c.state.toDisk

end Setting

end Prefetch
