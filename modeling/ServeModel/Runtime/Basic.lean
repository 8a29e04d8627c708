import ServeModel.Collect.Group
import ServeModel.Lib.Routine
import ServeModel.Lib.Text

-- Payloads travel as text. Parsing is left to the JSON library, so a payload carries what that library
-- makes of it: `json` is `none` where the text does not parse.
structure Wire where
  text : String
  json : Option Json

def Wire.encode (j : Json) : Wire where
  text := j.render
  json := some j

theorem Wire.encode_obj_not_blank : Text.isBlank (encode (.obj fs)).text = false := by
  have h : Text.isWhitespace '\x7b' = false := by decide
  simp [encode, Json.render, Text.isBlank, String.toList_append, h]

-- A stream entry as a consumer group hands it to a worker.
structure Message where
  id : String
  stream : String
  group : String
  runId : String
  payload : Wire
  stage : String

-- An entry to be added to a stream.
structure Output where
  stream : String
  payload : Wire
  runId : Option String := none
  stage : Option String := none

-- What a role's error can be recognised as later on. The text of an error is the outermost one, whereas
-- its kind survives any context that is wrapped around it.
inductive FailureKind
  | reservationBlocked
  | messageDeferred
  | messageOwnershipLost
  | other
  deriving DecidableEq

structure Failure where
  kind : FailureKind
  text : String
  deriving DecidableEq

namespace Failure

def msg (text : String) : Failure where
  kind := .other
  text := text

def context (text : String) (f : Failure) : Failure :=
  { f with text }

@[simp]
theorem context_kind {text : String} {f : Failure} : (f.context text).kind = f.kind := rfl

end Failure

-- The commands on the keys of one collect group: its metadata, the list of results, the set of child run
-- ids, the counters and the finalization state. A Lua script is one command, as Redis runs it atomically.
inductive CollectOp : Type → Type 1
  | setnxMeta (group : Collect.CollectGroup) : CollectOp (Except Failure Bool)
  -- `DEL` of the items, the run ids, the counters and the finalization state
  | delState : CollectOp (Except Failure Unit)
  | getMeta : CollectOp (Except Failure (Option Collect.CollectGroup))
  | lrangeItems : CollectOp (Except Failure (List Collect.CollectedMemberResult))
  | appendMember (result : Collect.CollectedMemberResult) (status : Collect.MemberResultStatus) :
      CollectOp (Except Failure (List Int))
  | smembersRunIds : CollectOp (Except Failure (List String))
  -- `SET NX EX` of the finalization state
  | claimFinalization (token : String) : CollectOp (Except Failure Bool)
  | getFinalization : CollectOp (Except Failure (Option String))
  | commitFinalization (token committed : String) : CollectOp (Except Failure Bool)
  | releaseFinalization (token : String) : CollectOp (Except Failure Unit)
  | discardGroup : CollectOp (Except Failure Unit)

-- What the roles send to Redis and to their message sink, and the other things that they ask the outside
-- world for.
inductive Op : Type → Type 1
  -- `Instant::now`, in nanoseconds
  | instantNow : Op Nat
  -- `SystemTime::now` in milliseconds since the epoch
  | systemNow : Op (Except String Nat)
  | newUuid : Op String
  -- reserved memory: the active amounts of some resources, and the two scripts
  | hmgetActive (resourceIds : List Nat) : Op (Except Failure (List (Nat × Nat)))
  | reserveIdle (resourceId floor delta : Nat) : Op (Except Failure (List Int))
  | decrementReserved (resourceId amount : Nat) : Op (Except Failure (List Int))
  -- parent slots
  | acquireSlot (key : String) (max : Int) : Op (Except Failure (List Int))
  | releaseSlot (key : String) : Op (Except Failure Int)
  -- parent run state
  | isTerminal (key : String) : Op (Except Failure Bool)
  | markTerminal (key : String) : Op (Except Failure Unit)
  -- collect groups and the progress that is shown in the run record of a parent
  | collect {ρ : Type} (parentRunId : String) (op : CollectOp ρ) : Op ρ
  | setExecuting (parentRunId : String) : Op (Except Failure Unit)
  | persistProgress (update : Collect.CollectProgressUpdate) : Op (Except Failure Unit)
  | persistPublicationSkipped (parentRunId : String) : Op (Except Failure Unit)
  -- message sink
  | ackMessage (m : Message) : Op (Except Failure Unit)
  | handoff (m : Message) (stream : String) (payload : Wire) (stage : String) : Op (Except Failure Unit)
  | forwardMany (sources : List Message) (outputs : List Output) : Op (Except Failure Unit)
  | markRequestFailed (runId : String) : Op (Except Failure Unit)
  -- the script `HANDOFF_AND_COMMIT_FINALIZATION_LUA`, for the finalization state of `parentRunId`
  | handoffAndCommit (m : Message) (stream : String) (payload : Wire) (stage runId : String)
      (parentRunId token : String) : Op (Except Failure Unit)

theorem CollectOp.reply_nonempty : CollectOp ρ → Nonempty ρ := by
  intro op
  cases op <;> exact ⟨.error (.msg "")⟩

theorem Op.reply_nonempty : Op ρ → Nonempty ρ := by
  intro op
  cases op
  case instantNow => exact ⟨(0 : Nat)⟩
  case newUuid => exact ⟨""⟩
  case systemNow => exact ⟨.error ""⟩
  case collect op => exact op.reply_nonempty
  all_goals exact ⟨.error (.msg "")⟩

-- Role code: it talks to the world, may fail, and keeps local state.
abbrev RoleM (τ α : Type) := Routine Op Failure τ α

namespace RoleM

variable {τ α : Type}

def perform (op : Op α) : RoleM τ α :=
  Routine.perform op

def context (text : String) (a : RoleM τ α) : RoleM τ α :=
  Routine.mapError (Failure.context text) a

variable {σ : Type} {t : τ} {s : σ}

theorem wp_perform :
    Routine.wp D (perform op) Q t s ↔
      ∀ s₁, D.rely s s₁ → D.inv s₁ → ∀ r s₂, D.exec op s₁ r s₂ →
        D.inv s₂ ∧ D.guar s₁ s₂ ∧ Q (.ok r) t s₂ :=
  Routine.wp_perform_iff

theorem wp_perform_alone {op : Op α} :
    Routine.wp (.alone M) (perform op) Q t s ↔ ∀ r s', M op s r s' → Q (.ok r) t s' :=
  Routine.wp_perform_alone

@[simp]
theorem wp_context :
    Routine.wp D (context text a) Q t s ↔
      Routine.wp D a (fun x => Q (x.mapError (Failure.context text))) t s :=
  Routine.wp_mapError

end RoleM
