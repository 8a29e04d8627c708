import ServeModel.Collect.Theorems.Group
import ServeModel.Collect.Theorems.ParentResult

-- Every worker keeps the group: a walk through the code, which the others may interrupt before each command.
namespace Collect

open System
open Routine (Triple Outcome)
open Scheduler (isTerminal markTerminal terminalKey)

variable {ι : Type} [DecidableEq ι] {S : Setting} {i : ι} {τ : Type}

abbrev Setting.discipline (S : Setting) (i : ι) : Discipline Op (World ι) :=
  (outline S).discipline i

theorem stable_true : (S.discipline i).Stable fun _ => True :=
  fun _ _ _ _ => trivial

theorem stable_committed : (S.discipline i).Stable fun w => w.committed :=
  fun _ _ h hr => Change.committed hr h

theorem stable_owned : (S.discipline i).Stable fun w => w.tokens t = some i :=
  fun _ _ h hr => Change.tokens hr h

-- The worker's claim still stands, or else what it has read is of no use.
def Holding (t : String) (results : List CollectedMemberResult) (w : World ι) : Prop :=
  ¬w.committed → w.group.finalization = some t → w.group.items = results

theorem stable_holding : (S.discipline i).Stable fun w => w.tokens t = some i ∧ Holding t results w := by
  intro w w' h hr
  refine ⟨Change.tokens hr h.left, ?_⟩
  intro ho hf
  have ⟨hf, hi⟩ := Change.claim hr rfl h.left ho hf
  exact hi.trans (h.right (Change.opened hr ho) hf)

theorem command {op : CollectOp (Except Failure α)} (hs : (S.discipline i).Stable P)
    (h : ∀ w, S.Kept w → P w → S.Allows op w.group → ∀ r g, GroupState.exec op w.group r g →
      Safe S (· ≠ i) w (w.put g) ∧ Outcome R E r (w.put g)) :
    Triple (S.discipline i) P (do Routine.ofExcept (← RoleM.perform (.collect S.parentRunId op)) : RoleM τ α) R E := by
  apply Triple.reply hs
  intro w k hp r w' he
  have he : (if S.parentRunId = S.parentRunId then
    S.Allows op w.group ∧ ∃ g, GroupState.exec op w.group r g ∧ w' = w.put g else w' = w) := he
  rw [if_pos rfl] at he
  have ⟨ha, g, he, hw⟩ := he
  have ⟨hsafe, ho⟩ := h w k hp ha r g he
  exact hw ▸ ⟨hsafe.kept, hsafe.change, ho⟩

theorem read {op : CollectOp (Except Failure α)} {f : GroupState → α} (hs : (S.discipline i).Stable P)
    (he : ∀ {g r g'}, GroupState.exec op g r g' → Attempt (fun g => (f g, g)) g r g')
    (h : ∀ w, S.Kept w → P w → R (f w.group) w) :
    Triple (S.discipline i) P (do Routine.ofExcept (← RoleM.perform (.collect S.parentRunId op)) : RoleM τ α) R
      fun _ => True := by
  apply command hs
  intro w k hp _ r g hr
  have hg : g = w.group := (he hr).state.elim id id
  rw [hg, k.put_self]
  refine ⟨.refl k, ?_⟩
  cases r
  case error => trivial
  case ok a => exact (he hr).reply.left ▸ h w k hp

theorem write {op : CollectOp (Except Failure α)} (hs : (S.discipline i).Stable P)
    (he : ∀ {g r g'}, GroupState.exec op g r g' → Attempt f g r g')
    (h : ∀ w, S.Kept w → P w → Safe S (· ≠ i) w (w.put (f w.group).2) ∧ R (f w.group).1 (w.put (f w.group).2)) :
    Triple (S.discipline i) P (do Routine.ofExcept (← RoleM.perform (.collect S.parentRunId op)) : RoleM τ α) R
      fun _ => True := by
  apply command hs
  intro w k hp _ r g hr
  constructor
  case left =>
    cases (he hr).state
    case inl hg =>
      rw [hg]
      exact (h w k hp).left
    case inr hg =>
      rw [hg, k.put_self]
      exact .refl k
  case right =>
    cases r
    case error => trivial
    case ok a =>
      have ⟨ha, hg⟩ := (he hr).reply
      exact ha ▸ hg ▸ (h w k hp).right

theorem idle (hs : (S.discipline i).Stable P) (h : ∀ {w r w'}, S.exec i op w r w' → w' = w) :
    Triple (S.discipline i) P (do Routine.ofExcept (← RoleM.perform op) : RoleM τ Unit) (fun _ => P)
      fun _ => True := by
  apply Triple.reply hs
  intro w k hp r w' he
  cases h he
  refine ⟨k, .refl _ _, ?_⟩
  cases r
  case error => trivial
  case ok => exact hp

section Store

theorem isTerminal_spec :
    Triple (S.discipline i) (fun _ => True) (isTerminal S.parentRunId : RoleM τ Bool)
      (fun b w => b → w.committed) fun _ => True := by
  apply Triple.reply stable_true
  intro w k _ r w' he
  have ⟨hw, hb⟩ : w' = w ∧ ∀ b, terminalKey S.parentRunId = terminalKey S.parentRunId → r = .ok b →
    b = w.terminal := he
  subst hw
  refine ⟨k, .refl _ _, ?_⟩
  cases r
  case error => trivial
  case ok b =>
    intro h
    by_contra hn
    have := (k.filling hn).terminal
    rw [← hb b rfl rfl, h] at this
    cases this

theorem markTerminal_spec :
    Triple (S.discipline i) (fun w => w.committed) (markTerminal S.parentRunId : RoleM τ Unit)
      (fun _ w => w.committed) fun _ => True := by
  apply Triple.reply stable_committed
  intro w k hc r w' he
  have he : Attempt (fun w : World ι => ((), if terminalKey S.parentRunId = terminalKey S.parentRunId then
    { w with terminal := true } else w)) w r w' := he
  simp only [if_true] at he
  have hw : Safe S (· ≠ i) w w' ∧ w'.committed := by
    cases he.state
    case inl h =>
      rw [h]
      exact ⟨safe_terminal k hc, hc⟩
    case inr h =>
      rw [h]
      exact ⟨.refl k, hc⟩
  refine ⟨hw.left.kept, hw.left.change, ?_⟩
  cases r
  case error => trivial
  case ok => exact hw.right

theorem discardGroup_spec :
    Triple (S.discipline i) (fun w => w.committed) (discardGroup S.parentRunId : RoleM τ Unit)
      (fun _ w => w.committed) fun _ => True := by
  apply Triple.mapError
  apply write stable_committed
  case he => exact fun h => h
  case h => exact fun w k hc => ⟨safe_discard k hc, by simp [hc]⟩

theorem completeFinalizationCleanup_spec :
    Triple (S.discipline i) (fun w => w.committed) (completeFinalizationCleanup S.parentRunId : RoleM τ Unit)
      (fun _ w => w.committed) fun _ => True :=
  markTerminal_spec.bind fun _ => discardGroup_spec

theorem isFinalizationCommitted_spec :
    Triple (S.discipline i) (fun _ => True) (isFinalizationCommitted S.parentRunId : RoleM τ Bool)
      (fun b w => b → w.committed) fun _ => True := by
  apply Triple.bind (R := fun v w => v.any isCommittedValue → w.committed)
  case h =>
    apply Triple.mapError
    apply read stable_true
    case he => exact fun h => h
    case h => exact fun w k _ => k.marker
  case hf => exact fun v => Triple.pure fun _ h => h

-- What a worker needs to know before it makes the claim.
def Ready (S : Setting) (w : World ι) : Prop :=
  S.policy = .collectAll → Full S w

theorem stable_ready : (S.discipline i).Stable (Ready S) :=
  fun _ _ h hr hp => Change.full hr (h hp)

theorem Ready.change (h : Ready S w) (hc : Change P w w') : Ready S w' :=
  fun hp => hc.full (h hp)

theorem claimFinalization_spec :
    Triple (S.discipline i) (Ready S) (claimFinalization S.parentRunId : RoleM τ _)
      (fun c w => ∀ claim, c = some claim → claim.parentRunId = S.parentRunId ∧
        w.tokens claim.ownerToken = some i ∧ Ready S w) fun _ => True := by
  apply Triple.bind (R := fun token w => w.tokens token = some i ∧ Ready S w)
  case h =>
    apply Triple.perform stable_ready
    intro w k hp token w' he
    have ⟨hn, hc, hw⟩ : w.tokens token = none ∧ ¬isCommittedValue token ∧
      w' = { w with tokens := Function.update w.tokens token (some i) } := he
    have hs : Safe S (· ≠ i) w w' := hw ▸ safe_token k hn hc
    exact ⟨hs.kept, hs.change, by simp [hw], hp.change hs.change⟩
  case hf =>
    intro token
    apply Triple.bind (R := fun _ w => w.tokens token = some i ∧ Ready S w)
    case h =>
      apply Triple.mapError
      apply write (stable_owned.and stable_ready)
      case he => exact fun h => h
      case h =>
        intro w k hp
        have hs := safe_claim k hp.left hp.right
        exact ⟨hs, hs.change.tokens hp.left, hp.right.change hs.change⟩
    case hf =>
      intro claimed
      apply Triple.pure
      intro w hw claim hc
      split at hc
      case isTrue => cases hc; exact ⟨rfl, hw⟩
      case isFalse => cases hc

theorem commitFinalization_spec (hp : claim.parentRunId = S.parentRunId) :
    Triple (S.discipline i) (fun w => w.tokens claim.ownerToken = some i ∧ w.committed)
      (commitFinalization claim : RoleM τ Unit) (fun _ w => w.committed) fun _ => True := by
  apply Triple.bind (R := fun _ w => w.committed)
  case h =>
    rw [hp]
    apply Triple.mapError
    apply write (stable_owned.and stable_committed)
    case he => exact fun h => h
    case h => exact fun w k h => ⟨safe_commit k h.left h.right, by simp [h.right]⟩
  case hf =>
    intro byOwner
    apply Triple.ite
    case h₁ => exact fun _ => Triple.throw fun _ _ => trivial
    case h₂ => exact fun _ => Triple.pure fun _ h => h

theorem releaseFinalizationClaim_spec (hp : claim.parentRunId = S.parentRunId) :
    Triple (S.discipline i) (fun w => w.tokens claim.ownerToken = some i)
      (releaseFinalizationClaim claim : RoleM τ Unit) (fun _ _ => True) fun _ => True := by
  rw [releaseFinalizationClaim, hp]
  apply Triple.mapError
  apply write stable_owned
  case he => exact fun h => h
  case h => exact fun w k h => ⟨safe_release k h, trivial⟩

-- What a worker that holds the claim knows about the results that it has read.
def Gathered (S : Setting) (i : ι) (t : String) (results : List CollectedMemberResult) (w : World ι) : Prop :=
  (w.tokens t = some i ∧ Holding t results w) ∧ Ready S w

theorem getGroup_spec :
    Triple (S.discipline i) (fun w => w.tokens t = some i ∧ Ready S w) (getGroup S.parentRunId : RoleM τ _)
      (fun g w => ∀ group, g = some group → Gathered S i t group.results w) fun _ => True := by
  apply Triple.bind (R := fun _ w => w.tokens t = some i ∧ Ready S w)
  case h =>
    apply Triple.mapError
    apply read (stable_owned.and stable_ready)
    case he => exact fun h => h
    case h => exact fun _ _ h => h
  case hf =>
    intro stored
    cases stored
    case none => exact Triple.pure fun _ _ _ h => nomatch h
    case some group =>
      apply Triple.bind (R := fun results w => Gathered S i t results w)
      case h =>
        apply Triple.mapError
        apply read (stable_owned.and stable_ready)
        case he => exact fun h => h
        case h => exact fun _ _ h => ⟨⟨h.left, fun _ _ => rfl⟩, h.right⟩
      case hf =>
        intro results
        apply Triple.pure
        intro w hw group hg
        cases hg
        exact hw

end Store

section Finalize

variable {group : CollectGroup} {parent : ParentHandoff} {m : Message}
variable {claim : CollectFinalizationClaim}

omit [DecidableEq ι] in
theorem complete_of_gathered (k : S.Kept w) (hg : Gathered S i t group.results w)
    (hh : parentHandoff group = .ok parent) (ho : ¬w.committed) (hf : w.group.finalization = some t)
    (hp : S.policy = .collectAll) :
    S.Complete ⟨parent.queue, .encode parent.payload, parent.phase, runId⟩ := by
  have k' := k.filling ho
  have hids : w.ids = group.results.map (·.childRunId) := by rw [World.ids, hg.left.right ho hf]
  have hperm : ((sortedResults group).map (·.childRunId)).Perm w.ids :=
    hids ▸ (List.perm_insertionSort _ _).map _
  refine ⟨_, parentHandoff_childRunIds hh, hperm.nodup_iff.mpr k'.nodup, ?_⟩
  rw [List.toFinset_eq_of_perm _ _ hperm, k'.ids_of_full (hg.right hp ho)]

theorem handoff_spec (text : String) (hh : parentHandoff group = .ok parent) (hp : claim.parentRunId = S.parentRunId) :
    Triple (S.discipline i) (Gathered S i claim.ownerToken group.results)
      (RoleM.context text (do Routine.ofExcept (← RoleM.perform (.handoffAndCommit m parent.queue
        (.encode parent.payload) parent.phase group.parentRunId claim.parentRunId claim.ownerToken))) :
        RoleM τ Unit)
      (fun _ w => w.committed) fun _ => True := by
  apply Triple.mapError
  apply Triple.reply (stable_holding.and stable_ready)
  intro w k hg r w' he
  let e : ParentMessage := ⟨parent.queue, .encode parent.payload, parent.phase, group.parentRunId⟩
  have he : (if claim.parentRunId = S.parentRunId then
      (r = .ok () → w.group.finalization = some claim.ownerToken) ∧
        Attempt (fun w : World ι => ((), w.handoff e claim.ownerToken)) w r w'
    else w' = w) := he
  rw [if_pos hp] at he
  have hs : Safe S (· ≠ i) w w' := by
    cases he.right.state
    case inl h =>
      rw [h]
      exact safe_handoff k hg.left.left (complete_of_gathered k hg hh)
    case inr h =>
      rw [h]
      exact .refl k
  refine ⟨hs.kept, hs.change, ?_⟩
  cases r
  case error => trivial
  case ok =>
    have hf := he.left rfl
    rw [he.right.reply.right]
    simp [World.handoff, hf, GroupState.committed_iff, isCommittedValue_committed, Outcome]

-- The worker's tokens stay its own.
theorem frame_owned (h : Triple (S.discipline i) P a R E) :
    Triple (S.discipline i) (fun w => P w ∧ w.tokens t = some i) a (fun x w => R x w ∧ w.tokens t = some i)
      fun w => E w ∧ w.tokens t = some i :=
  h.frame stable_owned fun _ ht hc => Change.tokens hc ht

theorem handoffAndCleanup_spec (text : String) (hh : parentHandoff group = .ok parent)
    (hp : claim.parentRunId = S.parentRunId) :
    Triple (S.discipline i) (Gathered S i claim.ownerToken group.results)
      (do
        RoleM.context text do
          Routine.ofExcept (← RoleM.perform (.handoffAndCommit m parent.queue (.encode parent.payload)
            parent.phase group.parentRunId claim.parentRunId claim.ownerToken))
        commitFinalization claim
        completeFinalizationCleanup S.parentRunId : RoleM τ Unit)
      (fun _ w => w.committed) fun _ => True := by
  have hc := frame_owned (handoff_spec (m := m) (τ := τ) (i := i) text hh hp) (t := claim.ownerToken)
  apply (hc.weaken (fun _ h => ⟨h, h.left.left⟩) (fun _ _ h => h) fun _ _ => trivial).bind
  intro _
  apply Triple.bind ((commitFinalization_spec hp).pre fun _ h => ⟨h.right, h.left⟩)
  exact fun _ => completeFinalizationCleanup_spec

-- A worker that finalizes the parent without an error leaves it committed.
theorem finalizeParentGroup_spec (ht : typed.parentRunId = S.parentRunId) (hp : claim.parentRunId = S.parentRunId) :
    Triple (S.discipline i) (fun w => w.tokens claim.ownerToken = some i ∧ Ready S w)
      (finalizeParentGroup m typed claim : RoleM τ Unit) (fun _ w => w.committed) fun _ => True := by
  unfold finalizeParentGroup
  rw [ht]
  apply getGroup_spec.bind
  intro stored
  cases stored
  case none =>
    apply Triple.bind (isTerminal_spec.pre fun _ _ => trivial)
    intro terminal
    apply Triple.ite
    case h₁ => exact fun h => Triple.pure fun _ hc => hc h
    case h₂ => exact fun _ => Triple.throw fun _ _ => trivial
  case some group =>
    have hg : ∀ w : World ι, (∀ g, some group = some g → Gathered S i claim.ownerToken g.results w) →
        Gathered S i claim.ownerToken group.results w := fun _ h => h group rfl
    apply Triple.pre ?_ hg
    apply Triple.bind (R := fun parent w => parentHandoff group = .ok parent ∧
      Gathered S i claim.ownerToken group.results w)
    case h =>
      apply Triple.ofExcept
      case h => exact fun _ hh _ hw => ⟨hh, hw⟩
      case he => exact fun _ _ => trivial
    case hf =>
      intro parent
      apply Triple.assume fun _ h => h.left
      intro hh
      have hrest := handoffAndCleanup_spec (m := m) (τ := τ) (i := i) (handoffFailure parent.phase) hh hp
      apply Triple.pre ?_ fun _ h => h.right
      apply Triple.ite
      case h₁ =>
        intro _
        rw [← bind_assoc]
        apply Triple.bind ?_ fun _ => hrest
        apply idle (stable_holding.and stable_ready)
        exact fun h => h
      case h₂ => exact fun _ => hrest

theorem tryFinalize_spec (ht : typed.parentRunId = S.parentRunId) :
    Triple (S.discipline i) (Ready S) (tryFinalize m typed : RoleM τ Unit) (fun _ w => w.committed)
      fun _ => True := by
  unfold tryFinalize
  rw [ht]
  apply claimFinalization_spec.bind
  intro c
  cases c
  case none =>
    apply Triple.bind (isFinalizationCommitted_spec.pre fun _ _ => trivial)
    intro committed
    apply Triple.ite
    case h₁ => exact fun h => completeFinalizationCleanup_spec.pre fun _ hc => hc h
    case h₂ => exact fun _ => Triple.throw fun _ _ => trivial
  case some claim =>
    apply Triple.assume fun _ h => (h claim rfl).left
    intro hp
    have hf := frame_owned (finalizeParentGroup_spec (m := m) (τ := τ) (i := i) ht hp) (t := claim.ownerToken)
    apply Triple.bind ((hf.pre fun _ h => ⟨(h claim rfl).right, (h claim rfl).right.left⟩).observe)
    intro x
    cases x
    case ok => exact Triple.pure fun _ h => h.left
    case error =>
      apply Triple.bind ((releaseFinalizationClaim_spec hp).pre fun _ h => h.right)
      exact fun _ => Triple.throw fun _ _ => trivial

end Finalize

section Process

variable {m : Message}

-- What the reply of the script tells about the group: a count that reaches the number of children, and whether
-- the child is stored. Only a failed child may be turned away by a claim and still go on.
def Counted (S : Setting) (child : String) (failed : Prop) (n : Nat) (w : World ι) : Prop :=
  (S.children.card ≤ n → Full S w) ∧ (S.Lossless → Stored child w ∨ S.policy = .failFast ∧ failed)

omit [DecidableEq ι] in
theorem Counted.change (h : Counted S child failed n w) (hc : Change P w w') :
    Counted S child failed n w' :=
  ⟨fun hn => hc.full (h.left hn), fun hl => (h.right hl).imp_left hc.stored⟩

theorem stable_counted : (S.discipline i).Stable (Counted S child failed n) :=
  fun _ _ h hr => h.change hr

-- A child is only turned away by a claim on a group that is full, if every result is meant to be kept.
omit [DecidableEq ι] in
theorem stored_of_refused (k : S.Kept w) (hc : result.childRunId ∈ S.children)
    (ha : S.patient → ¬S.Refused result w.group) (hf : w.group.finalization.isSome) (hl : S.Lossless) :
    Stored result.childRunId w ∨ S.policy = .failFast ∧ memberResultStatus result = .failed := by
  by_cases hs : Stored result.childRunId w
  case pos => exact .inl hs
  case neg =>
    have ⟨ho, hn⟩ := Classical.not_imp.mp hs
    have k' := k.filling ho
    have hfull : ¬S.children.card ≤ w.group.items.length := by
      intro h
      rw [← k'.ids_of_full h, List.mem_toFinset] at hc
      exact hn hc
    have hp : S.policy ≠ .collectAll := fun hp => hfull (k'.full hp hf)
    have hr : result.childRunId ∉ w.group.runIds := by rwa [k'.runIds, List.mem_toFinset]
    refine .inr ⟨?_, ?_⟩
    · cases h : S.policy
      case collectAll => exact absurd h hp
      case failFast => rfl
    · by_contra hs
      exact ha (hl.resolve_right hp) ⟨hf, fun h => ho (k.marker h), hr, Nat.lt_of_not_le hfull, hs⟩

omit [DecidableEq ι] in
theorem counted_of_appends (k : S.Kept w) (hc : result.childRunId ∈ S.children)
    (ha : S.patient → ¬S.Refused result w.group) (h : Appends result w.group (c :: n :: rest) g) (hn : c ≠ -1) :
    Counted S result.childRunId (memberResultStatus result = .failed) n.toNat (w.put g) := by
  cases h
  case missing => exact absurd rfl hn
  case refused hf =>
    rw [k.put_self]
    exact ⟨fun hn _ => by simpa using hn, stored_of_refused k hc ha hf⟩
  case known hr =>
    rw [k.put_self]
    refine ⟨fun hn _ => by simpa using hn, fun _ => .inl fun ho => ?_⟩
    rwa [(k.filling ho).runIds, List.mem_toFinset] at hr
  case added hi _ =>
    exact ⟨fun hn _ => by simpa using hn, fun _ => .inl fun _ => by simp [World.ids, hi]⟩

theorem addResult_spec (hc : result.childRunId ∈ S.children) :
    Triple (S.discipline i) (fun _ => True) (addResult S.parentRunId result : RoleM τ _)
      (fun a w => Counted S result.childRunId (memberResultStatus result = .failed) a.itemCount w)
      fun _ => True := by
  unfold addResult
  rw [← bind_assoc]
  apply Triple.bind (R := fun values w => ∀ (c n : Int) rest, values = c :: n :: rest → c ≠ -1 →
    Counted S result.childRunId (memberResultStatus result = .failed) n.toNat w)
  case h =>
    apply command stable_true
    intro w k _ ha r g he
    have he : Attempt (·.append result (memberResultStatus result)) w.group r g := he
    have happ := w.group.appends result (memberResultStatus result)
    constructor
    case left =>
      cases he.state
      case inl hg =>
        rw [hg]
        exact safe_append k hc happ
      case inr hg =>
        rw [hg, k.put_self]
        exact .refl k
    case right =>
      cases r
      case error => trivial
      case ok values =>
        have ⟨hv, hg⟩ := he.reply
        intro c n rest hvals hn
        rw [← hv, ← hg, hvals] at happ
        exact counted_of_appends k hc ha happ hn
  case hf =>
    intro values
    split
    case h_2 => exact Triple.throw fun _ _ => trivial
    case h_1 appended itemCount succeeded failed cancelled =>
      apply Triple.ite
      case h₁ => exact fun _ => Triple.throw fun _ _ => trivial
      case h₂ =>
        intro hn
        apply Triple.pre ?_ fun _ h => h _ _ _ rfl hn
        apply Triple.bind (R := fun _ w => Counted S result.childRunId _ itemCount.toNat w)
        case h =>
          apply Triple.mapError
          apply command stable_counted
          intro w k hw _ r g he
          have he : g = w.group ∧ _ := he
          rw [he.left, k.put_self]
          refine ⟨.refl k, ?_⟩
          cases r
          case error => trivial
          case ok => exact hw
        case hf => exact fun _ => Triple.pure fun _ h => h

theorem memberResultStatus_failed_iff :
    memberResultStatus (memberResult m typed payload) = .failed ↔ currentFailed typed := by
  have hr : (memberResult m typed payload).result.get "status" = typed.result.get "status" := rfl
  simp only [memberResultStatus, currentFailed, statusText, hr]
  cases (typed.result.get "status").bind Json.asStr
  case none => decide
  case some status =>
    simp only [Option.getD_some, Option.any_some]
    split
    case isTrue h => simp [h]
    case isFalse h =>
      simp only [h]
      split
      case isTrue | isFalse => simp

theorem addMember_spec (ht : typed.parentRunId = S.parentRunId)
    (hc : typedChildRunId payload m.runId ∈ S.children) :
    Triple (S.discipline i) (fun _ => True) (addMember m typed payload : RoleM τ _)
      (fun a w => (a = none → w.committed) ∧ ∀ appended, a = some appended →
        Counted S (typedChildRunId payload m.runId) (currentFailed typed) appended.itemCount w)
      fun _ => True := by
  unfold addMember
  rw [ht]
  have hc : (memberResult m typed payload).childRunId ∈ S.children := hc
  apply Triple.bind (addResult_spec hc).observe
  intro x
  cases x
  case ok appended =>
    apply Triple.pure
    intro w hw
    refine ⟨fun h => (nomatch h), fun _ h => ?_⟩
    cases h
    exact ⟨hw.left, fun hl => (hw.right hl).imp_right (.imp_right memberResultStatus_failed_iff.mp)⟩
  case error e =>
    apply Triple.ite
    case h₂ => exact fun _ => Triple.throw fun _ _ => trivial
    case h₁ =>
      intro _
      apply Triple.bind (isTerminal_spec.pre fun _ _ => trivial)
      intro terminal
      apply Triple.ite
      case h₁ => exact fun h => Triple.pure fun _ hc => ⟨fun _ => hc h, fun _ h => nomatch h⟩
      case h₂ => exact fun _ => Triple.throw fun _ _ => trivial

-- What is left to do once the result has been added: the parent is finalized if that is due.
theorem finish_spec (ht : typed.parentRunId = S.parentRunId) (hn : typed.fanoutProfile.itemCount = S.children.card)
    (hp : typed.fanoutProfile.policy = S.policy) :
    Triple (S.discipline i) (Counted S child (currentFailed typed) n)
      (do
        if ← isFinalizationCommitted S.parentRunId then
          completeFinalizationCleanup S.parentRunId
        else if shouldFinalize typed n then
          tryFinalize m typed : RoleM τ Unit)
      (fun _ w => S.Lossless → Stored child w) fun _ => True := by
  have hclosed : ∀ {w : World ι}, w.committed → S.Lossless → Stored child w := fun hc _ ho => absurd hc ho
  have hframe := (isFinalizationCommitted_spec (S := S) (i := i) (τ := τ)).frame
    (F := Counted S child (currentFailed typed) n) stable_counted fun _ h hc => h.change hc
  apply Triple.bind (hframe.weaken (fun _ h => ⟨trivial, h⟩) (fun _ _ h => h) fun _ _ => trivial)
  intro committed
  apply Triple.ite
  case h₁ =>
    intro h
    exact completeFinalizationCleanup_spec.weaken (fun _ hc => hc.left h) (fun _ _ => hclosed) fun _ h => h
  case h₂ =>
    intro _
    apply Triple.ite
    case h₁ =>
      intro h
      apply (tryFinalize_spec ht).weaken ?_ (fun _ _ => hclosed) fun _ h => h
      intro w hw ha
      apply hw.right.left
      simpa [shouldFinalize, hp, hn, ha] using h
    case h₂ =>
      intro h
      apply Triple.pure
      intro w hw hl
      apply (hw.right.right hl).resolve_right
      intro hf
      simp [shouldFinalize, hp, hf] at h

theorem processMessage_spec (hm : S.Reports m) :
    Triple (S.discipline i) (fun _ => True) (processMessage m : RoleM τ Unit)
      (fun _ w => S.Lossless → Stored (Setting.childRunId m) w) fun _ => True := by
  have ⟨typed, payload, hd, ht, hn, hp, hc⟩ := hm
  have hid : Setting.childRunId m = typedChildRunId payload m.runId := by rw [Setting.childRunId, hd]
  -- once the parent is committed there is nothing left to show
  have hclosed : ∀ {w : World ι}, w.committed → S.Lossless → Stored (Setting.childRunId m) w :=
    fun hc _ ho => absurd hc ho
  unfold processMessage
  rw [hd]
  apply Triple.bind (R := fun x _ => x = (typed, payload))
  case h => exact Triple.pure fun _ _ => rfl
  case hf =>
    intro x
    apply Triple.assume fun _ h => h
    intro hx
    subst hx
    dsimp only
    unfold processEnvelope
    rw [ht]
    apply Triple.bind (isTerminal_spec.pre fun _ _ => trivial)
    intro terminal
    apply Triple.ite
    case h₁ =>
      intro h
      apply Triple.bind (discardGroup_spec.pre fun _ hc => hc h)
      exact fun _ => Triple.pure fun _ => hclosed
    case h₂ =>
      intro _
      apply Triple.bind ((addMember_spec ht hc).pre fun _ _ => trivial)
      intro a
      cases a
      case none => exact Triple.pure fun _ h => hclosed (h.left rfl)
      case some appended =>
        rw [hid]
        apply Triple.pre ?_ fun _ h => h.right appended rfl
        apply Triple.ite
        case h₁ =>
          intro _
          rw [← bind_assoc]
          apply Triple.bind ?_ fun _ => finish_spec ht hn hp
          apply idle stable_counted
          exact fun h => h
        case h₂ => exact fun _ => finish_spec ht hn hp

end Process

section System

variable {m : Message} {w w' : World ι}

theorem worker_verified (hm : S.Reports m) (w : World ι) : (outline S).Verified i (Setting.worker m) w := by
  apply Prog.wp_bind_iff.mpr
  apply Prog.wp_mono ?_ _ (processMessage_spec hm () w trivial)
  intro x w hx ho hl hc
  have ⟨y, _⟩ := x
  have ho : y = .ok () := ho
  subst ho
  exact hx hl hc

omit [DecidableEq ι] in
theorem kept_init : S.Kept ({ group := { metadata := some S.group } } : World ι) where
  marker h := nomatch h
  filling _ := ⟨rfl, rfl, rfl, .nil, rfl, Finset.empty_subset _, fun _ h => (nomatch h),
    fun _ _ h => nomatch h⟩
  closed _ h := nomatch h
  tokens h := nomatch h
  once _ := Nat.zero_le _
  complete _ _ _ h := nomatch h

omit [DecidableEq ι] in
theorem kept_stop (k : S.Kept w) (hs : Setting.Stop w p w')
    (hp : ∀ m, p = .ret (m, .ok ()) → S.Lossless → ¬w.committed → Setting.childRunId m ∈ w.ids) : S.Kept w' := by
  cases hs
  case crash => exact k
  case done m =>
    refine { k with filling := fun ho => { k.filling ho with acked := fun hl m' hm' => ?_ } }
    cases hm'
    case head => exact hp m rfl hl ho
    case tail hm' => exact (k.filling ho).acked hl m' hm'

omit [DecidableEq ι] in
theorem change_stop (hs : Setting.Stop w p w') : Change P w w' := by
  cases hs
  case crash => exact .refl _ _
  case done => exact ⟨id, id, fun _ => List.prefix_rfl, fun _ _ _ h => ⟨h, rfl⟩⟩

omit [DecidableEq ι] in
-- What happens to the keys by themselves harms nobody.
theorem safe_lapse (k : S.Kept w) (h : S.Lapse w w') : Safe S P w w' := by
  cases h
  case claim hn =>
    apply Safe.put_finalization k hn
    case hc => exact fun _ h => nomatch h
    case hf | ho => exact fun _ _ h => nomatch h
  case marker he hc =>
    constructor
    case change => exact .of_committed id (by simp [k.marker hc])
    case kept =>
      constructor
      case marker => exact fun h => nomatch h
      case filling => exact fun h => absurd (by simp [k.marker hc]) h
      case closed | once | complete => exact fun h => absurd he h
      case tokens => exact k.tokens
  case terminal =>
    constructor
    case change => exact ⟨id, id, fun _ => List.prefix_rfl, fun _ _ _ h => ⟨h, rfl⟩⟩
    case kept => exact { k with filling := fun h => { k.filling h with terminal := rfl } }
  case group hc => exact .put_of_committed k hc fun h => h

theorem outline_valid : (outline S : Outline (S.workers ι)).Valid where
  init h := by
    cases h
    exact kept_init
  post _ _ := by
    intro w w' h hr ho hl hc
    exact Change.stored hr (fun hc => h ho hl hc) hc
  guar hn _ h := h.mono fun _ he => he ▸ hn.symm
  start k hs := by
    have ⟨hw, m, hm, hp⟩ := hs
    subst hw hp
    exact ⟨k, fun _ _ => .refl _ _, worker_verified hm _⟩
  stop k hv hs := by
    refine ⟨kept_stop k hs ?_, fun _ _ => change_stop hs⟩
    intro m hp
    subst hp
    exact hv rfl
  env k hs := by
    exact ⟨(safe_lapse (P := fun _ => True) k hs).kept, fun _ => (safe_lapse k hs).change⟩

end System

end Collect
