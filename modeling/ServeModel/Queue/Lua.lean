import ServeModel.Lib.Redis

-- The scripts that hand messages on.
namespace Queue

open Redis

variable (srv : Server)

-- A Lua table of strings at a position that counts from 1. Using `nil` is an error.
def nth (xs : List String) (i : Nat) : Script String :=
  match xs[i - 1]? with
  | some x => pure x
  | none => .fail "Lua redis lib command arguments must be strings or integers"

def tonumber (text : String) : Script Nat :=
  if text ≠ "" ∧ text.toList.all Char.isDigit then pure (Nat.ofDigitChars 10 text.toList 0)
  else .fail "attempt to perform arithmetic on a nil value"

def entryFields (runId payload stage : String) : EntryFields :=
  [("run_id", runId), ("payload", payload), ("stage", stage)]

def stageFields (stage now : String) : EntryFields :=
  [("stage", stage), ("updated_at", now), (stage ++ "_enqueued_at", now)]

def luaHandoff (keys argv : List String) : Script EntryId := do
  let nextStream ← nth keys 1
  let currentStream ← nth keys 2
  let runHash ← nth keys 3
  let runId ← nth argv 1
  let payload ← nth argv 2
  let group ← nth argv 3
  let currentMsgId ← nth argv 4
  let nextStage ← nth argv 5
  let now ← time
  let nextId ← xadd nextStream (entryFields runId payload nextStage)
  let acked ← xack srv currentStream group [currentMsgId]
  if acked ≠ 1 then do
    -- the entry must not stay when the source could not be acknowledged
    let _ ← Script.pcall (xdel nextStream nextId)
    .fail s!"XACK_FAILED:{acked}"
  else do
    match ← Script.pcall (hset runHash (stageFields nextStage now)) with
    | .error e => .fail s!"HSET_FAILED:{e}"
    | .ok _ => return nextId

namespace ForwardMany

-- Every source message must still be pending: `n` messages from position `i` on.
def checkSources (argv : List String) (sourceStream sourceGroup : String) : Nat → Nat → Script (List String)
  | _, 0 => return []
  | i, n + 1 => do
    let sourceMsgId ← nth argv (4 + i)
    match ← xpending srv sourceStream sourceGroup sourceMsgId with
    | none => .fail ("SOURCE_NOT_PENDING:" ++ sourceMsgId)
    | some (id, _) =>
      if id ≠ sourceMsgId then .fail ("SOURCE_NOT_PENDING:" ++ sourceMsgId)
      else do
        let rest ← checkSources argv sourceStream sourceGroup (i + 1) n
        return sourceMsgId :: rest

def checkDestinations (keys : List String) : Nat → Nat → Script Unit
  | _, 0 => return ()
  | i, n + 1 => do
    let key ← nth keys i
    let keyType ← typeOf key
    if keyType ≠ "none" ∧ keyType ≠ "stream" then .fail ("DEST_NOT_STREAM:" ++ key ++ ":" ++ keyType)
    else checkDestinations keys (i + 1) n

def addOutputs (keys argv : List String) (sourceCount : Nat) (runHashPrefix now : String) :
    Nat → Nat → Script (List EntryId)
  | _, 0 => return []
  | i, n + 1 => do
    let runIdIdx := 5 + sourceCount + (i - 1) * 3
    let runId ← nth argv runIdIdx
    let payload ← nth argv (runIdIdx + 1)
    let stage ← nth argv (runIdIdx + 2)
    let key ← nth keys i
    let nextId ← xadd key (entryFields runId payload stage)
    hset (runHashPrefix ++ runId) (stageFields stage now)
    let ids ← addOutputs keys argv sourceCount runHashPrefix now (i + 1) n
    return nextId :: ids

def rollback (keys : List String) : Nat → List EntryId → Script Unit
  | _, [] => return ()
  | i, id :: ids => do
    let key ← nth keys i
    let _ ← Script.pcall (xdel key id)
    rollback keys (i + 1) ids

end ForwardMany

open ForwardMany in
def luaForwardMany (keys argv : List String) : Script (List EntryId) := do
  let sourceGroup ← nth argv 1
  let sourceCount ← tonumber (← nth argv 2)
  let outputCount ← tonumber (← nth argv 3)
  let runHashPrefix ← nth argv 4
  let sourceStream ← nth keys (outputCount + 1)
  let sourceIds ← checkSources srv argv sourceStream sourceGroup 1 sourceCount
  checkDestinations keys 1 outputCount
  let now ← time
  let ids ← addOutputs keys argv sourceCount runHashPrefix now 1 outputCount
  let acked ← xack srv sourceStream sourceGroup (← unpack srv sourceIds)
  if acked ≠ sourceCount then do
    rollback keys 1 ids
    .fail s!"XACK_FAILED:{acked}"
  else return ids

-- The script `HANDOFF_AND_COMMIT_FINALIZATION_LUA`.
def luaHandoffAndCommit (keys argv : List String) : Script EntryId := do
  let destination ← nth keys 1
  let sourceStream ← nth keys 2
  let runHash ← nth keys 3
  let finalization ← nth keys 4
  let runId ← nth argv 1
  let payload ← nth argv 2
  let group ← nth argv 3
  let sourceMsgId ← nth argv 4
  let stage ← nth argv 5
  let ownerToken ← nth argv 6
  let consumer ← nth argv 8
  if (← get finalization) ≠ some ownerToken then .fail "FINALIZATION_OWNER_MISMATCH" else
  match ← xpending srv sourceStream group sourceMsgId with
  | none => .fail "SOURCE_MESSAGE_NOT_PENDING"
  | some (id, owner) =>
  if id ≠ sourceMsgId then .fail "SOURCE_MESSAGE_NOT_PENDING" else
  if owner ≠ consumer then .fail "SOURCE_MESSAGE_NOT_OWNED_BY_CONSUMER" else do
  let destinationType ← typeOf destination
  if destinationType ≠ "none" ∧ destinationType ≠ "stream" then
    .fail ("DESTINATION_WRONG_TYPE:" ++ destinationType) else do
  let runHashType ← typeOf runHash
  if runHashType ≠ "none" ∧ runHashType ≠ "hash" then .fail ("RUN_HASH_WRONG_TYPE:" ++ runHashType) else do
  let now ← time
  match ← Script.pcall (xadd destination (entryFields runId payload stage)) with
  | .error e => .fail s!"XADD_FAILED:{e}"
  | .ok nextId =>
  match ← Script.pcall (hset runHash (stageFields stage now)) with
  | .error e => do
    let _ ← Script.pcall (xdel destination nextId)
    .fail s!"HSET_FAILED:{e}"
  | .ok _ =>
  match ← Script.pcall (setEx finalization ("committed:" ++ ownerToken)) with
  | .error e => do
    let _ ← Script.pcall (xdel destination nextId)
    .fail s!"FINALIZATION_COMMIT_FAILED:{e}"
  | .ok _ => do
  let acked ← xack srv sourceStream group [sourceMsgId]
  if acked ≠ 1 then do
    let _ ← Script.pcall (xdel destination nextId)
    let _ ← Script.pcall (setEx finalization ownerToken)
    .fail s!"XACK_FAILED:{acked}"
  else do
    (keys.drop 4).forM expire
    return nextId

end Queue
