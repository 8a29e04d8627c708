import ServeModel.Collect.Role
import ServeModel.Lib.Concurrent
import Mathlib.Data.Finset.Card

-- Collect workers that run beside each other on the stored group of one fanout parent.
namespace Collect

open Json

-- A command that takes effect and replies, takes effect while its reply is lost, or never arrives.
def Attempt (f : σ → ρ × σ) (s : σ) (r : Except Failure ρ) (s' : σ) : Prop :=
  (r = .ok (f s).1 ∧ s' = (f s).2) ∨ (∃ e, r = .error e) ∧ (s' = (f s).2 ∨ s' = s)

def GroupState.exec : Machine CollectOp GroupState
  | _, .setnxMeta group, g, r, g' => Attempt (·.setnxMeta group) g r g'
  | _, .delState, g, r, g' => Attempt (fun g => ((), g.delState)) g r g'
  | _, .getMeta, g, r, g' => Attempt (fun g => (g.metadata, g)) g r g'
  | _, .lrangeItems, g, r, g' => Attempt (fun g => (g.items, g)) g r g'
  | _, .appendMember result status, g, r, g' => Attempt (·.append result status) g r g'
  | _, .smembersRunIds, g, r, g' => g' = g ∧ ∀ ids, r = .ok ids → ids.toFinset = g.runIds
  | _, .claimFinalization token, g, r, g' => Attempt (·.claim token) g r g'
  | _, .getFinalization, g, r, g' => Attempt (fun g => (g.finalization, g)) g r g'
  | _, .commitFinalization token value, g, r, g' => Attempt (·.commit token value) g r g'
  | _, .releaseFinalization token, g, r, g' => Attempt (fun g => ((), g.release token)) g r g'
  | _, .discardGroup, g, r, g' => Attempt (fun g => ((), g.discard)) g r g'

-- A message that carries the collected results of a parent to its next stage.
structure ParentMessage where
  stream : String
  payload : Wire
  stage : String
  runId : String

-- The children whose results the message carries, in the order of their entries.
def ParentMessage.childRunIds (e : ParentMessage) : Option (List String) := do
  let payload ← e.payload.json
  let result ← payload.get (if e.stage = "results" then "payload" else "result")
  let entries ← (result.get "child_results").bind asArray
  entries.mapM fun entry => (entry.get "child_run_id").bind asStr

-- The keys of the parent in the store, and what happened to it so far: the owner of each token, whether its
-- finalization has ever been committed, the messages that it was handed off with, and the messages of children
-- that workers were done with.
structure World (ι : Type) where
  group : GroupState
  terminal : Bool := false
  tokens : String → Option ι := fun _ => none
  committed : Bool := false
  emitted : List ParentMessage := []
  acked : List Message := []

namespace World

variable {ι : Type}

def put (g : GroupState) (w : World ι) : World ι :=
  { w with group := g, committed := w.committed || g.committed }

-- The script `HANDOFF_AND_COMMIT_FINALIZATION_LUA` of a worker that may still acknowledge its message.
def handoff (e : ParentMessage) (token : String) (w : World ι) : World ι :=
  if w.group.finalization = some token then
    { w.put { w.group with finalization := some (committedFinalizationValue token) } with
      emitted := w.emitted ++ [e] }
  else w

end World

-- A fanout parent, and what its workers have to deal with.
structure Setting where
  parentRunId : String
  group : CollectGroup
  -- the run ids of its children
  children : Finset String
  policy : FailurePolicy
  -- committed markers may expire
  expiring : Prop
  -- no result that still counts is refused
  patient : Prop

namespace Setting

variable (S : Setting) {ι : Type}

-- A message about a child of the parent, as the expansion of the parent makes it.
def Reports (m : Message) : Prop :=
  ∃ typed payload, decodeCollectPayload m.payload = .ok (typed, payload) ∧
    typed.parentRunId = S.parentRunId ∧ typed.fanoutProfile.itemCount = S.children.card ∧
    typed.fanoutProfile.policy = S.policy ∧ typedChildRunId payload m.runId ∈ S.children

-- The result of a child that has not failed is turned away by the claim of another worker, although the group
-- still waits for it.
def Refused (result : CollectedMemberResult) (g : GroupState) : Prop :=
  g.finalization.isSome ∧ ¬g.committed ∧ result.childRunId ∉ g.runIds ∧
    g.items.length < S.children.card ∧ memberResultStatus result ≠ .failed

def Allows {ρ : Type} (op : CollectOp ρ) (g : GroupState) : Prop :=
  match op with
  | .appendMember result _ => S.patient → ¬S.Refused result g
  | _ => True

variable [DecidableEq ι]

def exec (i : ι) : Machine Op (World ι)
  | _, .newUuid, w, token, w' => w.tokens token = none ∧ ¬isCommittedValue token ∧
      w' = { w with tokens := Function.update w.tokens token (some i) }
  | _, .isTerminal key, w, r, w' =>
    w' = w ∧ ∀ b, key = Scheduler.terminalKey S.parentRunId → r = .ok b → b = w.terminal
  | _, .markTerminal key, w, r, w' =>
    Attempt (fun w => ((), if key = Scheduler.terminalKey S.parentRunId then { w with terminal := true } else w))
      w r w'
  | _, .collect parentRunId op, w, r, w' =>
    if parentRunId = S.parentRunId then S.Allows op w.group ∧ ∃ g, GroupState.exec op w.group r g ∧ w' = w.put g
    else w' = w
  | _, .handoffAndCommit _ stream payload stage runId parentRunId token, w, r, w' =>
    if parentRunId = S.parentRunId then
      (r = .ok () → w.group.finalization = some token) ∧
        Attempt (fun w => ((), w.handoff ⟨stream, payload, stage, runId⟩ token)) w r w'
    else w' = w
  | _, _, w, _, w' => w' = w

-- What happens to the keys by themselves. The keys of a group get a time to live with the commit.
inductive Lapse (w : World ι) : World ι → Prop
  | claim : ¬w.group.committed → Lapse w (w.put { w.group with finalization := none })
  | marker : S.expiring → w.group.committed → Lapse w (w.put { w.group with finalization := none })
  | terminal : Lapse w { w with terminal := false }
  | group : w.committed → Lapse w (w.put { finalization := w.group.finalization })

def worker (m : Message) : Prog Op (Message × Except Failure Unit) :=
  (processMessage m : RoleM Unit Unit).toProg () >>= fun x => pure (m, x.1)

-- A worker that has returned acknowledges its message; any worker may crash.
inductive Stop (w : World ι) : Prog Op (Message × Except Failure Unit) → World ι → Prop
  | crash : Stop w p w
  | done : Stop w (.ret (m, .ok ())) { w with acked := m :: w.acked }

-- The workers start on a group that has just been initialized.
def workers (ι : Type) [DecidableEq ι] : System Op (World ι) ι (Message × Except Failure Unit) where
  init w := w = { group := { metadata := some S.group } }
  exec := S.exec
  start _ p w w' := w' = w ∧ ∃ m, S.Reports m ∧ p = worker m
  stop _ p w w' := Stop w p w'
  env := S.Lapse

end Setting
end Collect
