import ServeModel.Lib.Fallible
import ServeModel.Prefetch.Plan

-- How a request is brought into the cache.
namespace Prefetch

-- What is read piece by piece, up to its end or to an error.
abbrev Stream := List (Except String Bytes)

structure Response where
  status : Nat
  contentLength : Option Nat
  stream : Stream

-- What a request does to the cache directory, to its sources and to the budget of its materialisation.
inductive CacheOp : Sig
  | tryExists (path : Path) : CacheOp (Except String Bool)
  | metadata (path : Path) : CacheOp (Except String Nat)
  -- Whether the path itself is a regular file, and its length.
  | symlinkMetadata (path : Path) : CacheOp (Except String (Bool × Nat))
  | read (path : Path) : CacheOp (Except String Bytes)
  -- Nothing is read where there is no file.
  | readIfPresent (path : Path) : CacheOp (Except String (Option Bytes))
  | removeFileIfPresent (path : Path) : CacheOp (Except String Unit)
  | createDirAll : CacheOp (Except String Unit)
  | openLock (path : Path) : CacheOp (Except String Unit)
  | lockExclusive (path : Path) : CacheOp (Except String Unit)
  | unlock (path : Path) : CacheOp Unit
  | newUuid : CacheOp String
  | createNew (path : Path) : CacheOp (Except String Unit)
  | writeAll (path : Path) (chunk : Bytes) : CacheOp (Except String Unit)
  | sync (path : Path) : CacheOp (Except String Unit)
  | rename (source target : Path) : CacheOp (Except String Unit)
  | send (url : String) (headers : List (String × String)) : CacheOp (Except String Response)
  | sourceMetadata (path : Path) : CacheOp (Except String Nat)
  | openSource (path : Path) : CacheOp (Except String Stream)
  | charge (bytes : Nat) : CacheOp (Except String Unit)

open Fallible
open Except (throwUnless checkSome)

abbrev Task := Fallible CacheOp

section Files

variable (H : Host)

-- The file goes when the guard is dropped, unless it is gone already.
def withTemporaryFileGuard {α : Type} (path : Path) (body : Task α) : Task α := do
  let result ← catching body
  let _ ← catching (attempt (.removeFileIfPresent path))
  ofExcept result

def hashFile (path : Path) (maxBytes : Nat) : Task (Nat × String) := do
  let content ← attempt (.read path)
  throwIf (2 ^ 64 ≤ content.length) "prefetch: cached object size overflow"
  throwIf (maxBytes < content.length) s!"prefetch: cached object exceeds limit of {maxBytes} bytes"
  return (content.length, H.sha256 content)

def writeCacheMetadata (path : Path) (metadata : CacheMetadata) : Task Unit := do
  let temporary := temporaryPath path (← ask .newUuid)
  withTemporaryFileGuard temporary do
    attempt (.createNew temporary)
    attempt (.writeAll temporary (H.encode metadata))
    attempt (.sync temporary)
    attempt (.rename temporary path)

def invalidateVerifiedCache (request : DownloadRequest) : Task Unit := do
  attempt (.removeFileIfPresent request.localPath)
  attempt (.removeFileIfPresent (cacheMetadataPath request.localPath))

end Files

section Cached

variable (H : Host) (config : PrefetchConfig) (request : DownloadRequest)

def DownloadRequest.expectsSize (request : DownloadRequest) (size : Nat) : Bool :=
  request.expectedSizeBytes.all (· = size)

def DownloadRequest.expectsDigest (request : DownloadRequest) (sha256 : String) : Bool :=
  request.expectedSha256.all (· = sha256)

-- The record beside a file that has passed its checks.
def refreshMetadata (size : Nat) (sha256 : String) : Task Unit := do
  let expected := { version := 1, sha256, sizeBytes := size }
  let found ← attempt (.readIfPresent (cacheMetadataPath request.localPath))
  if found.bind H.decode ≠ some expected then
    writeCacheMetadata H (cacheMetadataPath request.localPath) expected

-- A cached file that has to pass the checks of the request, or go.
def verifiedCacheHit : Task (Option RequestSuccess) := do
  let (isFile, length) ← attempt (.symlinkMetadata request.localPath)
  if !isFile || config.maxObjectBytes < length || !request.expectsSize length then
    invalidateVerifiedCache request
    return none
  let (size, sha256) ← hashFile H request.localPath config.maxObjectBytes
  if !request.expectsSize size || !request.expectsDigest sha256 then
    invalidateVerifiedCache request
    return none
  refreshMetadata H request size sha256
  attempt (.charge size)
  return some { localPath := request.localPath, sizeBytes := size, downloaded := false, sha256 := some sha256 }

def cachedRequestSuccess : Task (Option RequestSuccess) := do
  if !(← attempt (.tryExists request.localPath)) then
    if request.isVerified then attempt (.removeFileIfPresent (cacheMetadataPath request.localPath))
    return none
  if !request.isVerified then
    let size ← attempt (.metadata request.localPath)
    return some { localPath := request.localPath, sizeBytes := size, downloaded := false, sha256 := none }
  verifiedCacheHit H config request

end Cached

section Transfer

variable (H : Host) (config : PrefetchConfig) (request : DownloadRequest)

-- A piece of a verified request has to stay within the limits and the budget.
def allow (limits : Nat → Except String Unit) (size length : Nat) : Task Unit := do
  if request.isVerified then
    ofExcept (limits size)
    attempt (.charge length)

-- Pieces are written as they come. `limits` are the checks on the size so far; `hashed` is what has gone
-- into the digest, which only a verified request takes.
def transfer (overflow : String) (limits : Nat → Except String Unit) (temporary : Path) :
    Stream → Nat → Bytes → Task (Nat × Bytes)
  | [], size, hashed => return (size, hashed)
  | .error e :: _, _, _ => throw e
  | .ok chunk :: rest, size, hashed => do
    throwIf (2 ^ 64 ≤ size + chunk.length) overflow
    allow request limits (size + chunk.length) chunk.length
    attempt (.writeAll temporary chunk)
    transfer overflow limits temporary rest (size + chunk.length)
      (if request.isVerified then hashed ++ chunk else hashed)

def verifyDownload (size : Nat) (sha256 : Option String) : Except String Unit := do
  checkSome request.expectedSizeBytes fun expected =>
    throwUnless (size = expected) s!"prefetch: downloaded size {size} does not match expected size {expected}"
  checkSome request.expectedSha256 fun expected =>
    throwUnless (sha256 = some expected) "prefetch: downloaded SHA-256 does not match expected digest"

def publishCacheFile (temporary : Path) (size : Nat) (sha256 : Option String) : Task Unit := do
  attempt (.rename temporary request.localPath)
  if request.isVerified then
    match sha256 with
    | none => throw "prefetch: missing verified SHA-256"
    | some sha256 =>
      writeCacheMetadata H (cacheMetadataPath request.localPath) { version := 1, sha256, sizeBytes := size }

def takenDigest (hashed : Bytes) : Option String :=
  if request.isVerified then some (H.sha256 hashed) else none

-- A temporary file that is filled by `body` and removed if that fails.
def viaTemporaryFile {α : Type} (body : Path → Task α) : Task α := do
  let temporary := temporaryPath request.localPath (← ask .newUuid)
  attempt (.createNew temporary)
  withTemporaryFileGuard temporary do
    match ← catching (body temporary) with
    | .ok a => return a
    | .error e =>
      attempt (.removeFileIfPresent temporary)
      throw e

def streamLimits (size : Nat) : Except String Unit := do
  checkSome request.expectedSizeBytes fun expected =>
    throwUnless (size ≤ expected) s!"prefetch: streamed object exceeds expected size of {expected} bytes"
  throwUnless (size ≤ config.maxObjectBytes)
    s!"prefetch: streamed object exceeds limit of {config.maxObjectBytes} bytes"

def checkContentLength (contentLength : Nat) : Except String Unit := do
  throwUnless (contentLength ≤ config.maxObjectBytes)
    s!"prefetch: content length {contentLength} exceeds object limit of {config.maxObjectBytes} bytes"
  checkSome request.expectedSizeBytes fun expected =>
    throwUnless (contentLength = expected)
      s!"prefetch: content length {contentLength} does not match expected size {expected}"

-- A verified request looks at the announced length first.
def checkResponse (response : Response) : Except String Unit :=
  if request.isVerified then checkSome response.contentLength (checkContentLength config request) else .ok ()

def receiveStream (stream : Stream) : Task (Nat × Option String) :=
  viaTemporaryFile request fun temporary => do
    let (size, hashed) ← transfer request "prefetch: object size overflow" (streamLimits config request) temporary
      stream 0 []
    ofExcept (verifyDownload request size (takenDigest H request hashed))
    attempt (.sync temporary)
    publishCacheFile H request temporary size (takenDigest H request hashed)
    return (size, takenDigest H request hashed)

def streamResponseToCache (response : Response) : Task (Nat × Option String) := do
  ofExcept (checkResponse config request response)
  receiveStream H config request response.stream

def rangeHeader (byteRange : ByteRange) : String × String :=
  ("Range", s!"bytes={byteRange.offset}-{byteRange.offset + (byteRange.length - 1)}")

-- The headers of the HTTP request, unless the end of the range is no 64-bit number.
def requestHeaders : Except String (List (String × String)) :=
  match request.byteRange with
  | none => .ok request.headers
  | some byteRange =>
    if 2 ^ 64 ≤ byteRange.offset + (byteRange.length - 1) then
      .error s!"prefetch: byte range overflow for '{request.sourceUri}'"
    else .ok (request.headers ++ [rangeHeader byteRange])

def requestUrl : Except String String :=
  match request.kind with
  | .httpFetch => sourceUriToUrl request.sourceUri
  | .objectStoreFetch => objectStoreSourceUriToUrl request.sourceUri
  | .fileCopy => .error "prefetch: file_copy requests must not be routed through HTTP download"

-- A verified request takes a success only, the others anything that is not an error.
def acceptsStatus (status : Nat) : Bool :=
  if request.isVerified then 200 ≤ status && status < 300 else !(400 ≤ status && status < 600)

def statusError (status : Nat) : String :=
  if request.isVerified then s!"prefetch: verified HTTPS status {status} downloading '{request.sourceUri}'"
  else s!"HTTP error downloading '{request.sourceUri}'"

def downloadRequest : Task (Nat × Option String) := do
  let url ← ofExcept (requestUrl request)
  let headers ← ofExcept (requestHeaders request)
  let response ← attempt (.send url headers)
  throwIf (!acceptsStatus request response.status) (statusError request response.status)
  streamResponseToCache H config request response

def copyLimits (size : Nat) : Except String Unit := do
  throwUnless (size ≤ config.maxObjectBytes)
    s!"prefetch: local object exceeds object limit of {config.maxObjectBytes} bytes"
  checkSome request.expectedSizeBytes fun expected =>
    throwUnless (size ≤ expected) s!"prefetch: local object exceeds expected size of {expected} bytes"

def checkSourceSize (size : Nat) : Except String Unit := do
  throwUnless (size ≤ config.maxObjectBytes)
    s!"prefetch: local object size {size} exceeds object limit of {config.maxObjectBytes} bytes"
  checkSome request.expectedSizeBytes fun expected =>
    throwUnless (size = expected) s!"prefetch: local object size {size} does not match expected size {expected}"

def checkSource (sourcePath : Path) : Task Unit := do
  if request.isVerified then
    let size ← attempt (.sourceMetadata sourcePath)
    ofExcept (checkSourceSize config request size)

def copyStream (source : Stream) : Task (Nat × Option String) :=
  viaTemporaryFile request fun temporary => do
    let (size, hashed) ← transfer request "prefetch: local object size overflow" (copyLimits config request) temporary
      source 0 []
    attempt (.sync temporary)
    ofExcept (verifyDownload request size (takenDigest H request hashed))
    publishCacheFile H request temporary size (takenDigest H request hashed)
    return (size, takenDigest H request hashed)

-- The byte range of the request is not looked at.
def copyLocalRequest : Task (Nat × Option String) := do
  let sourcePath ← ofExcept (sourceUriToLocalPath request.sourceUri)
  checkSource config request sourcePath
  let source ← attempt (.openSource sourcePath)
  copyStream H config request source

def materializeRequestByKind : Task (Nat × Option String) :=
  match request.kind with
  | .httpFetch | .objectStoreFetch => downloadRequest H config request
  | .fileCopy => copyLocalRequest H config request

end Transfer

section Materialize

variable (H : Host) (config : PrefetchConfig) (request : DownloadRequest)

-- What is cached already, or else what is fetched now.
def fetchUnlessCached : Task RequestSuccess := do
  match ← cachedRequestSuccess H config request with
  | some success => return success
  | none =>
    attempt .createDirAll
    let (size, sha256) ← materializeRequestByKind H config request
    return { localPath := request.localPath, sizeBytes := size, downloaded := true, sha256 }

def acquireVerifiedCacheLock : Task Unit := do
  attempt (.openLock (cacheLockPath request.localPath))
  attempt (.lockExclusive (cacheLockPath request.localPath))

-- A verified request holds the lock of its path from here on to its end.
def lockIfVerified : Task Unit := do
  if request.isVerified then
    attempt .createDirAll
    acquireVerifiedCacheLock request

def outcome : Except String RequestSuccess → RequestOutcome
  | .ok success => .success success
  | .error _ => .failure

def materializeRequest : Prog CacheOp RequestOutcome := do
  match ← (lockIfVerified request).run with
  | .error _ => return .failure
  | .ok () =>
    let result ← (fetchUnlessCached H config request).run
    if request.isVerified then .perform (.unlock (cacheLockPath request.localPath))
    return outcome result

end Materialize

end Prefetch
