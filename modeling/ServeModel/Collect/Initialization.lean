import ServeModel.Collect.Workers

-- Schedulers that initialize the group of the same parent, beside workers that add results to it.
namespace Collect

-- The keys of the group, and a record of what should be in them: the results that were accepted since the group
-- was created, and the claim or marker that was taken. Nothing leaves the record because of an initialization.
structure SetupWorld (ι : Type) where
  group : GroupState := {}
  -- the calls that have created the metadata, but have not reset the other keys yet
  resetting : ι → Bool := fun _ => false
  accepted : List CollectedMemberResult := []
  taken : Option String := none

namespace SetupWorld

variable {ι : Type} [DecidableEq ι]

def Resetting (w : SetupWorld ι) : Prop :=
  ∃ i, w.resetting i

def setnxMeta (i : ι) (group : CollectGroup) (w : SetupWorld ι) : Bool × SetupWorld ι :=
  let (created, g) := w.group.setnxMeta group
  (created, { w with group := g, resetting := if created then Function.update w.resetting i true else w.resetting })

def delState (i : ι) (w : SetupWorld ι) : SetupWorld ι :=
  { w with group := w.group.delState, resetting := Function.update w.resetting i false }

def append (result : CollectedMemberResult) (status : MemberResultStatus) (w : SetupWorld ι) :
    List Int × SetupWorld ι :=
  let (values, g) := w.group.append result status
  (values, { w with group := g, accepted := if values.head? = some 1 then w.accepted ++ [result] else w.accepted })

-- Other commands change the finalization state for a reason.
def settle (g : GroupState) (w : SetupWorld ι) : SetupWorld ι :=
  { w with group := g, taken := if g.finalization = w.group.finalization then w.taken else g.finalization }

end SetupWorld

-- A fanout parent whose group may be initialized several times. `orderly` says that nobody gets in between the
-- two commands of an initialization, and that no group is created anew while its last finalization stands.
structure Setup where
  parentRunId : String
  orderly : Prop

namespace Setup

variable (S : Setup) {ι : Type} [DecidableEq ι]

def exec (i : ι) : Machine Op (SetupWorld ι)
  | _, .collect parentRunId (.setnxMeta group), w, r, w' =>
    if parentRunId = S.parentRunId then
      (S.orderly → w.group.metadata = none → w.group.finalization = none) ∧ Attempt (·.setnxMeta i group) w r w'
    else w' = w
  | _, .collect parentRunId .delState, w, r, w' =>
    if parentRunId = S.parentRunId then Attempt (fun w => ((), w.delState i)) w r w' else w' = w
  | _, .collect parentRunId (.appendMember result status), w, r, w' =>
    if parentRunId = S.parentRunId then
      (S.orderly → (w.append result status).1.head? = some 1 → ¬w.Resetting) ∧ Attempt (·.append result status) w r w'
    else w' = w
  | _, _, w, _, w' => w' = w

-- What finalizing workers and the passing of time do to the group.
inductive Others (w : SetupWorld ι) : SetupWorld ι → Prop
  | claim (token : String) : (S.orderly → ¬w.Resetting) → Others w (w.settle (w.group.claim token).2)
  | commit (token : String) :
      Others w (w.settle (w.group.commit token (committedFinalizationValue token)).2)
  | release (token : String) : Others w (w.settle (w.group.release token))
  | expire : Others w (w.settle { w.group with finalization := none })
  | discard : Others w { w.settle w.group.discard with accepted := [] }
  | lapse : Others w { w with group := { finalization := w.group.finalization }, accepted := [] }

def call (m : RoleM Unit α) : Prog Op Unit :=
  m.toProg () >>= fun _ => pure ()

def initCall (group : CollectGroup) : Prog Op Unit :=
  call (initGroup S.parentRunId group)

def addCall (result : CollectedMemberResult) : Prog Op Unit :=
  call (addResult S.parentRunId result)

def calls (ι : Type) [DecidableEq ι] : System Op (SetupWorld ι) ι Unit where
  init w := w = {}
  exec := S.exec
  start _ p w w' := w' = w ∧ ((∃ group, p = S.initCall group) ∨ ∃ result, p = S.addCall result)
  stop i _ w w' := w' = { w with resetting := Function.update w.resetting i false }
  env := S.Others

end Setup
end Collect
