import ServeModel.Lib.Text
import ServeModel.Lib.Checks
import Mathlib.Algebra.GroupWithZero.Nat

-- The files that a run asks for before it starts, and where the cache keeps them.
namespace Prefetch

abbrev Bytes := List UInt8
abbrev Path := String

structure ByteRange where
  offset : Nat
  length : Nat
  deriving DecidableEq

inductive PrefetchOpKind
  | httpFetch
  | objectStoreFetch
  | fileCopy
  deriving DecidableEq

def PrefetchOpKind.asStr : PrefetchOpKind → String
  | httpFetch => "http_fetch"
  | objectStoreFetch => "object_store_fetch"
  | fileCopy => "file_copy"

structure PrefetchPlanItem where
  kind : Option PrefetchOpKind := none
  sourceUri : String
  targetArtifactName : String
  required : Bool := true
  byteRange : Option ByteRange := none
  cacheKey : Option String := none
  mediaType : Option String := none
  expectedSha256 : Option String := none
  expectedSizeBytes : Option Nat := none
  headers : List (String × String) := []

structure PrefetchConfig where
  maxObjectBytes : Nat
  maxRequestBytes : Nat
  allowedHttpsHosts : List String := []

-- A parsed URL, as far as it is looked at.
structure Url where
  scheme : String
  username : String := ""
  password : Option String := none
  fragment : Option String := none
  host : Option String := none
  queryNames : List String := []

structure CacheMetadata where
  version : Nat
  sha256 : String
  sizeBytes : Nat
  deriving DecidableEq

-- What the libraries supply.
structure Host where
  parseUrl : String → Option Url
  isIpAddr : String → Bool
  -- The hexadecimal digest of some bytes.
  sha256 : Bytes → String
  encode : CacheMetadata → Bytes
  decode : Bytes → Option CacheMetadata
  sha256_length : ∀ b, (sha256 b).length = 64
  sha256_digits : ∀ b, ∀ c ∈ (sha256 b).toList, c.isDigit ∨ c ∈ ['a', 'b', 'c', 'd', 'e', 'f']

def toAsciiLowercase (s : String) : String :=
  String.ofList (s.toList.map Text.toAsciiLower)

def startsWithAny (starts : List String) (s : String) : Bool :=
  starts.any fun start => (Text.stripStart start s).isSome

namespace PrefetchPlanItem

def effectiveKind (item : PrefetchPlanItem) : PrefetchOpKind :=
  match item.kind with
  | some kind => kind
  | none =>
    if startsWithAny ["https://", "http://"] item.sourceUri then .httpFetch
    else if startsWithAny ["s3://", "gs://", "az://", "azure://"] item.sourceUri then .objectStoreFetch
    else .fileCopy

def effectiveCacheKey (item : PrefetchPlanItem) : String :=
  match item.expectedSha256 with
  | some expectedSha256 => "sha256:" ++ toAsciiLowercase expectedSha256
  | none =>
    match item.cacheKey with
    | some cacheKey => cacheKey
    | none =>
      match item.byteRange with
      | some byteRange =>
        s!"{item.effectiveKind.asStr}:{item.sourceUri}#{byteRange.offset}:{byteRange.length}"
      | none => s!"{item.effectiveKind.asStr}:{item.sourceUri}"

end PrefetchPlanItem

-- The text before the first slash, and what follows that slash.
def splitSlash (s : String) : String × Option String :=
  let cs := s.toList
  let before := cs.takeWhile (· ≠ '/')
  (String.ofList before, if before.length < cs.length then some (String.ofList (cs.drop (before.length + 1))) else none)

def withKey (base : String) : Option String → String
  | none => base
  | some key => if key = "" then base else base ++ "/" ++ key

def objectStoreSourceUriToUrl (sourceUri : String) : Except String String :=
  if let some path := Text.stripStart "s3://" sourceUri then
    let (bucket, key) := splitSlash path
    if bucket = "" then .error s!"prefetch: invalid s3 source_uri '{sourceUri}'"
    else .ok (withKey s!"https://{bucket}.s3.amazonaws.com" key)
  else if let some path := Text.stripStart "gs://" sourceUri then
    let (bucket, key) := splitSlash path
    if bucket = "" then .error s!"prefetch: invalid gs source_uri '{sourceUri}'"
    else .ok (withKey s!"https://storage.googleapis.com/{bucket}" key)
  else if let some path := (Text.stripStart "az://" sourceUri).or (Text.stripStart "azure://" sourceUri) then
    let (account, rest) := splitSlash path
    let (container, blob) := splitSlash (rest.getD "")
    if account = "" || container = "" then .error s!"prefetch: invalid azure source_uri '{sourceUri}'"
    else .ok (withKey s!"https://{account}.blob.core.windows.net/{container}" blob)
  else .error s!"prefetch: unsupported source_uri '{sourceUri}'; expected s3://, gs://, az://, or azure://"

def sourceUriToUrl (sourceUri : String) : Except String String :=
  if startsWithAny ["https://", "http://"] sourceUri then .ok sourceUri
  else objectStoreSourceUriToUrl sourceUri

def sourceUriToLocalPath (sourceUri : String) : Except String Path :=
  let raw := Text.trim ((Text.stripStart "file://" sourceUri).getD sourceUri)
  if raw = "" then .error "prefetch: local file source_uri must be non-empty" else .ok raw

section Validation

variable (H : Host) (config : PrefetchConfig)

def isHexDigit (c : Char) : Bool :=
  c.isDigit || ('a' ≤ c && c ≤ 'f') || ('A' ≤ c && c ≤ 'F')

def validateSha256 (value : String) : Except String Unit :=
  if value.length ≠ 64 || !value.toList.all isHexDigit then
    .error "prefetch: expected_sha256 must contain exactly 64 hexadecimal characters"
  else .ok ()

def sensitiveParts : List String :=
  ["token", "apikey", "accesskey", "accessid", "signature", "credential", "authorization", "password", "secret"]

def isSecretName (name : String) : Bool :=
  let normalized := toAsciiLowercase (String.ofList (name.toList.filter Char.isAlphanum))
  normalized ∈ ["auth", "key", "sig"] || sensitiveParts.any fun part => Text.contains part normalized

def validateVerifiedUrl (url : Url) (allowedHosts : List String) (allowSecretQuery : Bool) : Except String Unit := do
  if url.scheme ≠ "https" then throw "prefetch: verified downloads require HTTPS"
  if url.username ≠ "" || url.password.isSome then throw "prefetch: verified source URLs must not contain userinfo"
  if url.fragment.isSome then throw "prefetch: verified source URLs must not contain fragments"
  match url.host.map toAsciiLowercase with
  | none => throw "prefetch: verified source URL must contain a DNS host"
  | some host =>
    if H.isIpAddr host then throw "prefetch: IP literal hosts are not allowed for verified downloads"
    if host ∉ allowedHosts then throw s!"prefetch: HTTPS host '{host}' is not in the configured allowlist"
    if !allowSecretQuery && url.queryNames.any isSecretName then
      throw "prefetch: verified source URL contains a secret-bearing query parameter"

def validateVerifiedSourceUrl (url : Url) : Except String Unit :=
  validateVerifiedUrl H url config.allowedHttpsHosts false

def isSupportedObjectStoreHost (host : String) : Bool :=
  if host = "storage.googleapis.com" || (Text.stripEnd ".blob.core.windows.net" host).isSome then true
  else
    match (Text.stripEnd ".amazonaws.com.cn" host).or (Text.stripEnd ".amazonaws.com" host) with
    | none => false
    | some labels => (labels.splitOn ".").any fun label => label = "s3" || (Text.stripStart "s3-" label).isSome

def validateVerifiedObjectStoreUrl (url : Url) : Except String Unit :=
  match url.host.map toAsciiLowercase with
  | none => .error "prefetch: verified object-store URL must contain a DNS host"
  | some host =>
    if !isSupportedObjectStoreHost host then
      .error s!"prefetch: object-store redirect host '{host}' is not supported"
    else validateVerifiedUrl H url [host] false

def validateExpectations (item : PrefetchPlanItem) : Except String Unit := do
  if item.effectiveKind ≠ .fileCopy && (item.expectedSha256.isNone || item.expectedSizeBytes.isNone) then
    throw s!"prefetch: remote integrity verification requires both expected_sha256 and expected_size_bytes for '{item.targetArtifactName}'"
  if let some expectedSha256 := item.expectedSha256 then validateSha256 expectedSha256
  if let some expectedSizeBytes := item.expectedSizeBytes then
    if expectedSizeBytes = 0 then
      throw s!"prefetch: expected_size_bytes must be greater than zero for '{item.targetArtifactName}'"
    if config.maxObjectBytes < expectedSizeBytes then
      throw s!"prefetch: expected object size {expectedSizeBytes} exceeds limit of {config.maxObjectBytes} bytes for '{item.targetArtifactName}'"
  if item.effectiveKind ≠ .fileCopy && !item.headers.isEmpty then
    throw "prefetch: custom headers are not allowed for verified remote downloads"
  if item.effectiveKind = .httpFetch then
    match H.parseUrl item.sourceUri with
    | none => throw s!"prefetch: invalid verified source_uri '{item.sourceUri}'"
    | some url => validateVerifiedSourceUrl H config url

def PrefetchPlanItem.isVerified (item : PrefetchPlanItem) : Bool :=
  item.expectedSha256.isSome || item.expectedSizeBytes.isSome

-- The address of an item has to fit the way that it is fetched.
def validateSource (item : PrefetchPlanItem) : Except String Unit :=
  match item.effectiveKind with
  | .httpFetch => (sourceUriToUrl item.sourceUri).map fun _ => ()
  | .fileCopy => (sourceUriToLocalPath item.sourceUri).map fun _ => ()
  | .objectStoreFetch => do
    let sourceUrl ← objectStoreSourceUriToUrl item.sourceUri
    if item.isVerified then
      match H.parseUrl sourceUrl with
      | none => throw s!"prefetch: invalid verified object-store source_uri '{item.sourceUri}'"
      | some url => validateVerifiedObjectStoreUrl H url

def validatePlanItem (item : PrefetchPlanItem) : Except String Unit := do
  if Text.isBlank item.sourceUri then throw "prefetch: plan item source_uri must be non-empty"
  if Text.isBlank item.targetArtifactName then throw "prefetch: plan item target_artifact_name must be non-empty"
  if item.byteRange.any (·.length = 0) then
    throw s!"prefetch: byte_range.length must be greater than zero for '{item.targetArtifactName}'"
  if item.isVerified then validateExpectations H config item
  validateSource H item

end Validation

section Paths

def sanitizeArtifactName (name : String) : String :=
  let sanitized := name.toList.map fun c => if c.isAlphanum || c ∈ ['.', '-', '_'] then c else '_'
  if sanitized = [] then "artifact" else String.ofList sanitized

-- The extension of a file name, with its dot. A dot in front of everything else does not count.
def extension (name : List Char) : List Char :=
  let after := name.rtakeWhile (· ≠ '.')
  let before := name.take (name.length - after.length - 1)
  if after = name || before = [] || name = ['.', '.'] then [] else '.' :: after

def artifactExtension (item : PrefetchPlanItem) : String :=
  let source := item.sourceUri.toList.takeWhile (· ≠ '?')
  String.ofList (extension (source.rtakeWhile (· ≠ '/')))

def utf8 (s : String) : Bytes :=
  s.toUTF8.data.toList

def cachePathForItem (H : Host) (cacheRoot : Path) (item : PrefetchPlanItem) : Path :=
  match item.expectedSha256 with
  | some expectedSha256 => cacheRoot ++ "/prefetch/sha256/" ++ toAsciiLowercase expectedSha256
  | none =>
    cacheRoot ++ "/prefetch/" ++ H.sha256 (utf8 item.effectiveCacheKey) ++ "-" ++
      sanitizeArtifactName item.targetArtifactName ++ artifactExtension item

def cacheMetadataPath (path : Path) : Path :=
  path ++ ".metadata.json"

def cacheLockPath (path : Path) : Path :=
  path ++ ".lock"

def temporaryPath (path : Path) (uuid : String) : Path :=
  path ++ ".part-" ++ uuid

end Paths

section Requests

structure DownloadRequest where
  cacheKey : String
  kind : PrefetchOpKind
  sourceUri : String
  byteRange : Option ByteRange
  headers : List (String × String)
  localPath : Path
  required : Bool
  expectedSha256 : Option String
  expectedSizeBytes : Option Nat
  deriving DecidableEq

def DownloadRequest.isVerified (request : DownloadRequest) : Bool :=
  request.expectedSha256.isSome || request.expectedSizeBytes.isSome

variable (H : Host) (config : PrefetchConfig) (cacheRoot : Path)

def DownloadRequest.ofItem (item : PrefetchPlanItem) : DownloadRequest where
  cacheKey := item.effectiveCacheKey
  kind := item.effectiveKind
  sourceUri := item.sourceUri
  byteRange := item.byteRange
  headers := item.headers
  localPath := cachePathForItem H cacheRoot item
  required := item.required
  expectedSha256 := item.expectedSha256.map toAsciiLowercase
  expectedSizeBytes := item.expectedSizeBytes

-- Items with one key have to ask for the same, where a digest says enough about the source.
def DownloadRequest.conflicts (existing : DownloadRequest) (item : PrefetchPlanItem) : Bool :=
  if item.expectedSha256.isSome then
    existing.byteRange ≠ item.byteRange || existing.expectedSha256 ≠ item.expectedSha256.map toAsciiLowercase ||
      existing.expectedSizeBytes ≠ item.expectedSizeBytes
  else
    existing.sourceUri ≠ item.sourceUri || existing.byteRange ≠ item.byteRange ||
      existing.headers ≠ item.headers || existing.expectedSizeBytes ≠ item.expectedSizeBytes

def addRequest (requests : List DownloadRequest) (item : PrefetchPlanItem) : Except String (List DownloadRequest) := do
  validatePlanItem H config item
  let key := item.effectiveCacheKey
  match requests.find? (·.cacheKey = key) with
  | some existing =>
    if existing.conflicts item then throw s!"prefetch: cache key '{key}' maps to conflicting download requests"
    return requests.map fun r => if r.cacheKey = key then { r with required := r.required || item.required } else r
  | none => return requests ++ [.ofItem H cacheRoot item]

def checkExpectedTotal (requests : List DownloadRequest) : Except String Unit :=
  let total := (requests.map fun r => r.expectedSizeBytes.getD 0).sum
  if 2 ^ 64 ≤ total then .error "prefetch: expected request size overflow"
  else if config.maxRequestBytes < total then
    .error s!"prefetch: expected request size {total} exceeds limit of {config.maxRequestBytes} bytes"
  else .ok ()

def buildRequests (plan : List PrefetchPlanItem) : Except String (List DownloadRequest) := do
  let requests ← plan.foldlM (addRequest H config cacheRoot) []
  checkExpectedTotal config requests
  return requests

end Requests

section Results

structure RequestSuccess where
  localPath : Path
  sizeBytes : Nat
  downloaded : Bool
  sha256 : Option String
  deriving DecidableEq

inductive RequestOutcome
  | success (s : RequestSuccess)
  | failure
  deriving DecidableEq

structure MaterializedArtifact where
  name : String
  sourceUri : String
  storagePath : Path
  sizeBytes : Nat
  mediaType : Option String
  sha256 : Option String
  downloaded : Bool
  deriving DecidableEq

def MaterializedArtifact.of (item : PrefetchPlanItem) (success : RequestSuccess) : MaterializedArtifact where
  name := item.targetArtifactName
  sourceUri := item.sourceUri
  storagePath := success.localPath
  sizeBytes := success.sizeBytes
  mediaType := item.mediaType
  sha256 := success.sha256
  downloaded := success.downloaded

-- One artifact for each item whose request has succeeded, in the order of the plan.
def artifacts (outcomes : String → Option RequestOutcome) :
    List PrefetchPlanItem → Except String (List MaterializedArtifact)
  | [] => .ok []
  | item :: plan =>
    match outcomes item.effectiveCacheKey with
    | none => .error s!"prefetch: materialization outcome missing for cache key '{item.effectiveCacheKey}'"
    | some .failure => artifacts outcomes plan
    | some (.success success) => (artifacts outcomes plan).map (.of item success :: ·)

structure DownloadStats where
  downloaded : Nat := 0
  cached : Nat := 0
  errors : Nat := 0
  requiredErrors : Nat := 0
  requiredVerifiedErrors : Nat := 0
  optionalErrors : Nat := 0
  deriving DecidableEq

def DownloadStats.count (stats : DownloadStats) (request : DownloadRequest) : RequestOutcome → DownloadStats
  | .success s =>
    if s.downloaded then { stats with downloaded := stats.downloaded + 1 }
    else { stats with cached := stats.cached + 1 }
  | .failure =>
    if request.required then
      { stats with
        errors := stats.errors + 1, requiredErrors := stats.requiredErrors + 1,
        requiredVerifiedErrors := stats.requiredVerifiedErrors + if request.isVerified then 1 else 0 }
    else { stats with errors := stats.errors + 1, optionalErrors := stats.optionalErrors + 1 }

structure MaterializationResult where
  stats : DownloadStats
  artifacts : List MaterializedArtifact
  deriving DecidableEq

-- What a materialisation returns once all of its requests have come to an end.
def collectOutcomes (plan : List PrefetchPlanItem) (finished : List (DownloadRequest × RequestOutcome)) :
    Except String MaterializationResult := do
  let outcomes key := (finished.find? (·.1.cacheKey = key)).map (·.2)
  return {
    stats := finished.foldl (fun stats (request, outcome) => stats.count request outcome) {}
    artifacts := ← artifacts outcomes plan }

end Results

end Prefetch
