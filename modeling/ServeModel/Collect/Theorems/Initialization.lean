import ServeModel.Collect.Initialization
import ServeModel.Collect.Theorems.Group

-- When the initialization of a group leaves alone what others have put into it.
namespace Collect

open System Function
open Routine (Triple Outcome)

variable {ι : Type} {S : Setup} {w w' : SetupWorld ι}

structure SetupWorld.Kept (w : SetupWorld ι) : Prop where
  accepted : ∀ r ∈ w.accepted, r ∈ w.group.items
  taken : w.taken = w.group.finalization
  missing : w.group.metadata = none → w.accepted = []
  reset : w.Resetting → w.accepted = [] ∧ w.group.finalization = none

section Commands

variable [DecidableEq ι]

theorem SetupWorld.Kept.setnxMeta {group : CollectGroup} (k : w.Kept)
    (hf : w.group.metadata = none → w.group.finalization = none) :
    (w.setnxMeta i group).2.Kept := by
  by_cases hm : w.group.metadata = none
  case pos =>
    have he : (w.setnxMeta i group).2 = { w with
      group := { w.group with metadata := some group }, resetting := Function.update w.resetting i true } := by
      simp [SetupWorld.setnxMeta, GroupState.setnxMeta, hm]
    rw [he]
    exact ⟨k.accepted, k.taken, fun h => (nomatch h), fun _ => ⟨k.missing hm, hf hm⟩⟩
  case neg =>
    have he : (w.setnxMeta i group).2 = w := by simp [SetupWorld.setnxMeta, GroupState.setnxMeta, hm]
    rwa [he]

theorem SetupWorld.Kept.delState (k : w.Kept) (hr : w.resetting i) : (w.delState i).Kept := by
  have ⟨ha, hf⟩ := k.reset ⟨i, hr⟩
  refine ⟨?_, k.taken.trans hf, fun _ => ha, fun _ => ⟨ha, rfl⟩⟩
  intro r hr
  rw [SetupWorld.delState, ha] at hr
  cases hr

omit [DecidableEq ι] in
theorem SetupWorld.Kept.append (k : w.Kept) (ho : (w.append result status).1.head? = some 1 → ¬w.Resetting) :
    (w.append result status).2.Kept := by
  have happ := w.group.appends result status
  have he : w.append result status = ((w.group.append result status).1, { w with
    group := (w.group.append result status).2
    accepted := if (w.group.append result status).1.head? = some 1 then w.accepted ++ [result] else w.accepted }) := rfl
  rw [he] at ho ⊢
  generalize w.group.append result status = x at happ ho ⊢
  have ⟨values, g⟩ := x
  dsimp only at happ ho ⊢
  cases happ
  case missing | refused | known => exact ⟨k.accepted, k.taken, k.missing, k.reset⟩
  case added hs hf _ hm hf' hi _ =>
    simp only [List.head?_cons, if_true] at ho ⊢
    constructor
    case accepted =>
      intro r hr
      rw [hi]
      exact (List.mem_append.mp hr).elim (fun hr => List.mem_append_left _ (k.accepted r hr)) (List.mem_append_right _)
    case taken => exact (k.taken.trans hf).trans hf'.symm
    case missing => exact fun h => by simp [hm ▸ h] at hs
    case reset => exact fun h => absurd h (ho trivial)

omit [DecidableEq ι] in
-- A command that leaves the results alone, and takes the claim only where nobody is about to reset the group.
theorem SetupWorld.Kept.settle (k : w.Kept) (hi : g.items = w.group.items) (hm : g.metadata = w.group.metadata)
    (hf : w.Resetting → w.group.finalization = none → g.finalization = none) : (w.settle g).Kept := by
  constructor
  case accepted => exact fun r hr => hi ▸ k.accepted r hr
  case missing => exact fun h => k.missing (hm ▸ h)
  case reset => exact fun hr => ⟨(k.reset hr).left, hf hr (k.reset hr).right⟩
  case taken =>
    show (if _ then _ else _) = g.finalization
    split
    case isTrue h => exact k.taken.trans h.symm
    case isFalse h => rfl

omit [DecidableEq ι] in
theorem SetupWorld.Kept.others (k : w.Kept) (ho : S.orderly) (h : S.Others w w') : w'.Kept := by
  cases h
  case claim token hn =>
    unfold GroupState.claim
    split
    case isFalse => exact k.settle rfl rfl fun _ h => h
    case isTrue => exact k.settle rfl rfl fun hr => absurd hr (hn ho)
  case commit token =>
    unfold GroupState.commit
    split
    case isTrue hf => exact k.settle rfl rfl fun _ h => by cases hf.symm.trans h
    case isFalse =>
      split
      case isTrue | isFalse => exact k.settle rfl rfl fun _ h => h
  case release token =>
    unfold GroupState.release
    split
    case isTrue => exact k.settle rfl rfl fun _ _ => rfl
    case isFalse => exact k.settle rfl rfl fun _ h => h
  case expire => exact k.settle rfl rfl fun _ _ => rfl
  case discard =>
    constructor
    case accepted => exact fun _ h => by cases h
    case missing => exact fun _ => rfl
    case reset => exact fun hr => ⟨rfl, by simp [SetupWorld.settle, GroupState.discard, (k.reset hr).right]⟩
    case taken =>
      show (if _ then _ else _) = w.group.discard.finalization
      split
      case isTrue h => exact k.taken.trans h.symm
      case isFalse h => rfl
  case lapse => exact ⟨fun _ h => (by cases h), k.taken, fun _ => rfl, fun hr => ⟨rfl, (k.reset hr).right⟩⟩

end Commands

section Calls

variable [DecidableEq ι] {i : ι}

-- The calls of the others do not touch the mark of a call that is about to reset the group.
def setupOutline (S : Setup) : Outline (S.calls ι) where
  inv := SetupWorld.Kept
  rely i w w' := w'.resetting i = w.resetting i
  guar i w w' := ∀ j ≠ i, w'.resetting j = w.resetting j
  post _ _ _ := True
  rely_refl _ _ := rfl
  rely_trans _ {_ _ _} h₁ h₂ := h₂.trans h₁

abbrev Setup.discipline (S : Setup) (i : ι) : Discipline Op (SetupWorld ι) :=
  (setupOutline S).discipline i

theorem setupStable_true : (S.discipline i).Stable fun _ => True :=
  fun _ _ _ _ => trivial

theorem stable_resetting : (S.discipline i).Stable fun w => w.resetting i :=
  fun _ _ h hr => hr.trans h

theorem SetupWorld.setnxMeta_resetting {group : CollectGroup} (hj : j ≠ i) :
    (w.setnxMeta i group).2.resetting j = w.resetting j := by
  show (if _ then Function.update w.resetting i true else w.resetting) j = _
  split
  case isTrue => rw [update_of_ne hj]
  case isFalse => rfl

theorem SetupWorld.setnxMeta_created {group : CollectGroup} (h : (w.setnxMeta i group).1) :
    (w.setnxMeta i group).2.resetting i := by
  have hc : (w.group.setnxMeta group).1 := h
  simp [setnxMeta, hc]

-- A command of a call that may only run where `G` holds.
theorem setupCommand {op : Op (Except Failure α)} {P G : SetupWorld ι → Prop} (hs : (S.discipline i).Stable P)
    (he : ∀ {w r w'}, S.exec i op w r w' → G w ∧ Attempt f w r w')
    (hk : ∀ w, w.Kept → P w → G w → (f w).2.Kept) (hg : ∀ w, ∀ j ≠ i, (f w).2.resetting j = w.resetting j)
    (hr : ∀ w, P w → R (f w).1 (f w).2) :
    Triple (S.discipline i) P (do Routine.ofExcept (← RoleM.perform op) : RoleM τ α) R fun _ => True := by
  apply Triple.reply hs
  intro w k hp r w' hx
  have ⟨hguard, ha⟩ := he hx
  have hw : w'.Kept ∧ ∀ j ≠ i, w'.resetting j = w.resetting j := by
    cases ha.state
    case inl h =>
      rw [h]
      exact ⟨hk w k hp hguard, hg w⟩
    case inr h =>
      rw [h]
      exact ⟨k, fun _ _ => rfl⟩
  refine ⟨hw.left, hw.right, ?_⟩
  cases r
  case error => trivial
  case ok a =>
    have ⟨ha, hw⟩ := ha.reply
    rw [ha, hw]
    exact hr w hp

-- A command that is not about the keys of the group, or only reads them.
theorem setupIdle {op : Op (Except Failure α)} (he : ∀ {w r w'}, S.exec i op w r w' → w' = w) :
    Triple (S.discipline i) (fun _ => True) (do Routine.ofExcept (← RoleM.perform op) : RoleM τ α)
      (fun _ _ => True) fun _ => True := by
  apply Triple.reply setupStable_true
  intro w k _ r w' hx
  rw [he hx]
  refine ⟨k, fun _ _ => rfl, ?_⟩
  cases r
  case error | ok => trivial

theorem initGroup_spec (ho : S.orderly) (group : CollectGroup) :
    Triple (S.discipline i) (fun _ => True) (initGroup S.parentRunId group : RoleM τ Unit) (fun _ _ => True)
      fun _ => True := by
  have hend : Triple (S.discipline i) (fun _ => True) (RoleM.context "collect: failed to set parent stage to executing"
      (do Routine.ofExcept (← RoleM.perform (.setExecuting S.parentRunId))) : RoleM τ Unit) (fun _ _ => True)
      fun _ => True := by
    apply Triple.mapError
    apply setupIdle
    exact fun h => h
  apply Triple.bind (R := fun (created : Bool) (w : SetupWorld ι) => created → w.resetting i)
  case h =>
    apply Triple.mapError
    apply setupCommand setupStable_true
    case he => exact fun h => (if_pos rfl).mp h
    case hk => exact fun w k _ hg => k.setnxMeta (hg ho)
    case hg => exact fun _ _ hj => SetupWorld.setnxMeta_resetting hj
    case hr => exact fun _ _ => SetupWorld.setnxMeta_created
  case hf =>
    intro created
    apply Triple.ite
    case h₂ => exact fun _ => hend.pre fun _ _ => trivial
    case h₁ =>
      intro hc
      apply Triple.bind (R := fun _ _ => True) ?_ fun _ => hend
      apply Triple.pre ?_ fun _ h => h hc
      apply Triple.mapError
      apply setupCommand stable_resetting
      case he => exact fun h => ⟨trivial, (if_pos rfl).mp h⟩
      case hk => exact fun w k hr _ => k.delState hr
      case hg => exact fun _ _ hj => by simp [SetupWorld.delState, hj]
      case hr => exact fun _ _ => trivial

theorem addResult_setup (ho : S.orderly) (result : CollectedMemberResult) :
    Triple (S.discipline i) (fun _ => True) (addResult S.parentRunId result : RoleM τ _) (fun _ _ => True)
      fun _ => True := by
  unfold addResult
  rw [← bind_assoc]
  apply Triple.bind (R := fun _ _ => True)
  case h =>
    apply setupCommand setupStable_true
    case he => exact fun h => (if_pos rfl).mp h
    case hk => exact fun w k _ hg => k.append (hg ho)
    case hg => exact fun _ _ _ => rfl
    case hr => exact fun _ _ => trivial
  case hf =>
    intro values
    split
    case h_2 => exact Triple.throw fun _ _ => trivial
    case h_1 =>
      apply Triple.ite
      case h₁ => exact fun _ => Triple.throw fun _ _ => trivial
      case h₂ =>
        intro _
        apply Triple.bind (R := fun _ _ => True) ?_ fun _ => Triple.pure fun _ _ => trivial
        apply Triple.mapError
        apply setupIdle
        exact fun h => h

theorem call_verified (h : Triple (S.discipline i) (fun _ => True) m (fun _ _ => True) fun _ => True) :
    (setupOutline S).Verified i (Setup.call m) w := by
  apply Prog.wp_bind_iff.mpr
  exact Prog.wp_mono (fun _ _ _ => trivial) _ (h () w trivial)

omit [DecidableEq ι] in
theorem SetupWorld.Kept.empty : ({} : SetupWorld ι).Kept where
  accepted _ h := nomatch h
  taken := rfl
  missing _ := rfl
  reset := fun ⟨_, h⟩ => nomatch h

theorem setupOutline_valid (ho : S.orderly) : (setupOutline S : Outline (S.calls ι)).Valid where
  init h := by
    cases h
    exact .empty
  post _ _ := setupStable_true
  guar hn _ h := h _ hn.symm
  start k hs := by
    have ⟨hw, hp⟩ := hs
    subst hw
    refine ⟨k, fun _ _ => rfl, ?_⟩
    cases hp
    case inl hp =>
      have ⟨group, hp⟩ := hp
      exact hp ▸ call_verified (initGroup_spec ho group)
    case inr hp =>
      have ⟨result, hp⟩ := hp
      exact hp ▸ call_verified (addResult_setup ho result)
  stop {i p w w'} k _ hs := by
    subst hs
    refine ⟨⟨k.accepted, k.taken, k.missing, ?_⟩, fun j hj => update_of_ne hj ..⟩
    intro ⟨j, hj⟩
    by_cases hi : j = i
    case pos => simp [hi] at hj
    case neg => exact k.reset ⟨j, by simpa [hi] using hj⟩
  env k hs := ⟨k.others ho hs, fun _ => by cases hs <;> rfl⟩

end Calls

section Kept

variable [DecidableEq ι] {c : Config Op (SetupWorld ι) ι Unit}

theorem initialization_keeps (ho : S.orderly) (h : Reachable (S.calls ι) c) :
    (∀ result ∈ c.state.accepted, result ∈ c.state.group.items) ∧
    ∀ value, c.state.taken = some value → c.state.group.finalization = some value := by
  have k := (setupOutline_valid ho).inv_of_reachable h
  exact ⟨k.accepted, fun _ hv => k.taken ▸ hv⟩

-- A store that answers every command; a result comes in when `free` says so.
def Setup.calm (S : Setup) (free : SetupWorld ι → Bool) (i : ι) : Oracle Op (SetupWorld ι)
  | _, .collect parentRunId (.setnxMeta group), w =>
    if parentRunId = S.parentRunId ∧ w.group.finalization = none then
      some (.ok (w.setnxMeta i group).1, (w.setnxMeta i group).2)
    else none
  | _, .collect parentRunId .delState, w =>
    if parentRunId = S.parentRunId then some (.ok (), w.delState i) else none
  | _, .collect parentRunId (.appendMember result status), w =>
    if parentRunId = S.parentRunId ∧ free w then
      some (.ok (w.append result status).1, (w.append result status).2)
    else none
  | _, .collect _ .smembersRunIds, w => some (.ok [], w)
  | _, .setExecuting _, w => some (.ok (), w)
  | _, _, _ => none

theorem Setup.calm_sound (hf : S.orderly → ∀ w, free w → ¬w.Resetting) :
    Oracle.Sound (S.calm free i) (S.exec i : Machine Op (SetupWorld ι)) := by
  intro ρ op w r w' h
  cases op
  case setExecuting => cases h; rfl
  case collect parentRunId op =>
    cases op
    case smembersRunIds => cases h; rfl
    case setnxMeta =>
      simp only [calm] at h
      split at h
      case isFalse => cases h
      case isTrue hp =>
        cases h
        exact (if_pos hp.left).mpr ⟨fun _ _ => hp.right, .inl ⟨rfl, rfl⟩⟩
    case delState =>
      simp only [calm] at h
      split at h
      case isFalse => cases h
      case isTrue hp =>
        cases h
        exact (if_pos hp).mpr (.inl ⟨rfl, rfl⟩)
    case appendMember =>
      simp only [calm] at h
      split at h
      case isFalse => cases h
      case isTrue hp =>
        cases h
        exact (if_pos hp.left).mpr ⟨fun ho _ => hf ho w hp.right, .inl ⟨rfl, rfl⟩⟩
    all_goals cases h
  all_goals cases h

end Kept

section Scenario

def plainGroup : CollectGroup where
  parentRunId := "p"
  workflowId := "w"
  parentPayload := .object []
  expectedCount := 1
  results := []

def plainResult : CollectedMemberResult where
  childRunId := "a"
  itemIndex := 0
  fanoutItem := .object []
  result := .object []

def Setup.called [DecidableEq ι] (S : Setup) (free : SetupWorld ι → Bool) (i : ι) (p : Prog Op Unit)
    (w : SetupWorld ι) :
    Option (SetupWorld ι) :=
  match p.steps (S.calm free i) 10 w with
  | some (.ret _, w) => some { w with resetting := Function.update w.resetting i false }
  | _ => none

theorem reachable_called [DecidableEq ι]
    (hf : S.orderly → ∀ w, free w → ¬w.Resetting) (h : Reachable (S.calls ι) ⟨w, threads⟩) (hn : threads i = none)
    (hp : (∃ group, p = S.initCall group) ∨ ∃ result, p = S.addCall result) (he : S.called free i p w = some w') :
    Reachable (S.calls ι) ⟨w', threads⟩ := by
  unfold Setup.called at he
  split at he
  case h_2 => cases he
  case h_1 hs =>
    cases he
    exact h.beside (Setup.calm_sound hf) hn ⟨rfl, hp⟩ hs rfl

-- One call after the other.

def orderlySetup : Setup := ⟨"p", True⟩

def notResetting (w : SetupWorld Unit) : Bool :=
  !w.resetting ()

-- The group is initialized once more after the result has been added.
def setUp : Option (SetupWorld Unit) := do
  let w ← orderlySetup.called notResetting () (orderlySetup.initCall plainGroup) {}
  let w ← orderlySetup.called notResetting () (orderlySetup.addCall plainResult) w
  orderlySetup.called notResetting () (orderlySetup.initCall plainGroup) w

theorem initialization_keeps_result :
    ∃ c : Config Op (SetupWorld Unit) Unit Unit, Reachable (orderlySetup.calls Unit) c ∧
      c.state.accepted.map (·.childRunId) = ["a"] ∧ ∀ result ∈ c.state.accepted, result ∈ c.state.group.items := by
  have h : setUp.any fun w => w.accepted.map (·.childRunId) = ["a"] := by decide +kernel
  have ⟨w, hw, hl⟩ := (Option.any_eq_true _ _).mp h
  simp only [setUp, Option.bind_eq_bind, Option.bind_eq_some_iff] at hw
  obtain ⟨w₁, h₁, w₂, h₂, h₃⟩ := hw
  have hf : True → ∀ w, notResetting w → ¬w.Resetting := fun _ w hw ⟨_, hr⟩ => by simp [notResetting, hr] at hw
  have hr := reachable_called hf (.init rfl) rfl (.inl ⟨_, rfl⟩) h₁
  have hr := reachable_called hf hr rfl (.inr ⟨_, rfl⟩) h₂
  have hr := reachable_called hf hr rfl (.inl ⟨_, rfl⟩) h₃
  exact ⟨_, hr, of_decide_eq_true hl, (initialization_keeps trivial hr).left⟩

-- The first of two initializations has created the metadata. The second one finds it, and then a result is added
-- and the finalization is claimed. After that the first one resets the group.

def unruly : Setup := ⟨"p", False⟩

def overrun : Option (SetupWorld Nat) :=
  match (unruly.initCall plainGroup).steps (unruly.calm (fun _ => true) 0) 1 {} with
  | none => none
  | some (p, w) =>
    match (unruly.called (fun _ => true) 1 (unruly.initCall plainGroup) w).bind
      (unruly.called (fun _ => true) 2 (unruly.addCall plainResult)) with
    | none => none
    | some w =>
      match p.steps (unruly.calm (fun _ => true) 0) 10 (w.settle (w.group.claim "t").2) with
      | some (.ret _, w) => some w
      | _ => none

theorem reachable_overrun {w : SetupWorld Nat} (h : overrun = some w) :
    ∃ threads, Reachable (unruly.calls Nat) ⟨w, threads⟩ := by
  have hf : False → ∀ w : SetupWorld Nat, true → ¬w.Resetting := False.elim
  unfold overrun at h
  split at h
  case h_1 => cases h
  case h_2 p w₁ h₁ =>
    split at h
    case h_1 => cases h
    case h_2 w₂ h₂ =>
      split at h
      case h_2 => cases h
      case h_1 h₄ =>
        cases h
        obtain ⟨w₃, h₂, h₃⟩ := Option.bind_eq_some_iff.mp h₂
        have hr : Reachable (unruly.calls Nat) _ :=
          (Reachable.init rfl).step (.start 0 _ rfl ⟨rfl, .inl ⟨plainGroup, rfl⟩⟩)
        have hr := hr.steps (Setup.calm_sound hf) (update_self ..) h₁
        have hr := reachable_called hf hr rfl (.inl ⟨_, rfl⟩) h₂
        have hr := reachable_called hf hr rfl (.inr ⟨_, rfl⟩) h₃
        have hr := hr.step (.env (.claim "t" False.elim))
        exact ⟨_, hr.steps (Setup.calm_sound hf) (update_self ..) h₄⟩

theorem initialization_deletes :
    ∃ c : Config Op (SetupWorld Nat) Nat Unit, Reachable (unruly.calls Nat) c ∧
      c.state.accepted.map (·.childRunId) = ["a"] ∧ c.state.group.items.map (·.childRunId) = [] ∧
      c.state.taken = some "t" ∧ c.state.group.finalization = none := by
  have h : overrun.any fun w => w.accepted.map (·.childRunId) = ["a"] ∧ w.group.items.map (·.childRunId) = [] ∧
      w.taken = some "t" ∧ w.group.finalization = none := by decide +kernel
  have ⟨w, hw, hl⟩ := (Option.any_eq_true _ _).mp h
  have ⟨threads, hr⟩ := reachable_overrun hw
  exact ⟨⟨w, threads⟩, hr, of_decide_eq_true hl⟩

end Scenario

end Collect
