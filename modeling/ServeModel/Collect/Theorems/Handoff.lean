import ServeModel.Collect.Theorems.Finalization

-- What the children of a fanout parent can count on, and where a result gets lost.
namespace Collect

open System Setting
open Json (Fields literal)
open Scheduler (terminalKey)

variable {S : Setting} {ι : Type} [DecidableEq ι] {c : Config Op (World ι) ι (Message × Except Failure Unit)}

theorem parent_handed_off_once (he : ¬S.expiring) (h : Reachable (S.workers ι) c) :
    c.state.emitted.length ≤ 1 ∧
    (S.policy = .collectAll → ∀ e ∈ c.state.emitted,
      ∃ ids, e.childRunIds = some ids ∧ ids.Nodup ∧ ids.toFinset = S.children) :=
  have k := outline_valid.inv_of_reachable h
  ⟨k.once he, k.complete he⟩

theorem acked_result_stored (hp : S.policy = .failFast → S.patient) (h : Reachable (S.workers ι) c) :
    ∀ m ∈ c.state.acked, ¬c.state.committed →
      ∃ result ∈ c.state.group.items, result.childRunId = Setting.childRunId m := by
  intro m hm ho
  have k := outline_valid.inv_of_reachable h
  have hl : S.Lossless := by
    cases h : S.policy
    case collectAll => exact .inr h
    case failFast => exact .inl (hp h)
  exact List.mem_map.mp ((k.filling ho).acked hl m hm)

section Scenario

-- A store that answers every command.
def GroupState.calm : Oracle CollectOp GroupState
  | _, .setnxMeta group, g => some (.ok (g.setnxMeta group).1, (g.setnxMeta group).2)
  | _, .delState, g => some (.ok (), g.delState)
  | _, .getMeta, g => some (.ok g.metadata, g)
  | _, .lrangeItems, g => some (.ok g.items, g)
  | _, .appendMember result status, g => some (.ok (g.append result status).1, (g.append result status).2)
  | _, .smembersRunIds, g =>
    let ids := g.items.map (·.childRunId)
    if ids.toFinset = g.runIds then some (.ok ids, g) else none
  | _, .claimFinalization token, g => some (.ok (g.claim token).1, (g.claim token).2)
  | _, .getFinalization, g => some (.ok g.finalization, g)
  | _, .commitFinalization token value, g => some (.ok (g.commit token value).1, (g.commit token value).2)
  | _, .releaseFinalization token, g => some (.ok (), g.release token)
  | _, .discardGroup, g => some (.ok (), g.discard)

theorem GroupState.calm_sound : Oracle.Sound GroupState.calm GroupState.exec := by
  intro ρ op g r g' h
  cases op
  case smembersRunIds =>
    simp only [calm] at h
    split at h
    case isTrue hi => cases h; exact ⟨rfl, fun _ hr => Except.ok.inj hr ▸ hi⟩
    case isFalse hi => cases h
  all_goals
    cases h
    exact .inl ⟨rfl, rfl⟩

-- A worker that draws a certain token, and whose handoff goes through or not.
def Setting.calm (S : Setting) (token : String) (handsOff : Bool) (i : ι) : Oracle Op (World ι)
  | _, .newUuid, w =>
    if (w.tokens token).isNone ∧ ¬isCommittedValue token then
      some (token, { w with tokens := Function.update w.tokens token (some i) })
    else none
  | _, .isTerminal key, w => if key = terminalKey S.parentRunId then some (.ok w.terminal, w) else none
  | _, .markTerminal key, w =>
    if key = terminalKey S.parentRunId then some (.ok (), { w with terminal := true }) else none
  | _, .collect parentRunId op, w =>
    if parentRunId = S.parentRunId then (GroupState.calm op w.group).map fun x => (x.1, w.put x.2) else none
  | _, .persistProgress _, w => some (.ok (), w)
  | _, .handoffAndCommit _ stream payload stage runId parentRunId token, w =>
    if parentRunId ≠ S.parentRunId then none
    else if handsOff ∧ w.group.finalization = some token then
      some (.ok (), w.handoff ⟨stream, payload, stage, runId⟩ token)
    else some (.error (.msg "redis transport: failed guarded finalization handoff"), w)
  | _, _, _ => none

theorem Setting.allows (hp : ¬S.patient) : S.Allows op g := by
  cases op
  case appendMember => exact fun h => absurd h hp
  all_goals trivial

omit [DecidableEq ι] in
theorem Setting.calm_sound (hp : ¬S.patient) : Oracle.Sound (S.calm token handsOff i) (S.exec i) := by
  intro ρ op w r w' h
  cases op <;> simp only [calm] at h <;> try cases h
  case persistProgress => rfl
  all_goals
    split at h
  case newUuid.isTrue hn => cases h; exact ⟨by simpa using hn.left, hn.right, rfl⟩
  case isTerminal.isTrue => cases h; exact ⟨rfl, fun _ _ hb => (Except.ok.inj hb).symm⟩
  case markTerminal.isTrue hk =>
    cases h
    exact .inl ⟨rfl, by simp [hk]⟩
  case collect.isTrue hk =>
    have ⟨x, hx, h⟩ := Option.map_eq_some_iff.mp h
    cases h
    show if _ then _ else _
    rw [if_pos hk]
    exact ⟨allows hp, _, GroupState.calm_sound _ _ _ _ hx, rfl⟩
  case handoffAndCommit.isFalse hk =>
    have hk := not_not.mp hk
    show if _ then _ else _
    rw [if_pos hk]
    split at h
    case isTrue hf => cases h; exact ⟨fun _ => hf.right, .inl ⟨rfl, rfl⟩⟩
    case isFalse hf => cases h; exact ⟨fun h => (nomatch h), .inr ⟨⟨_, rfl⟩, .inr rfl⟩⟩
  all_goals cases h

omit [DecidableEq ι] in
theorem Setting.calm_acked (h : S.calm token handsOff i op w = some (r, w')) :
    w'.acked = w.acked := by
  cases op <;> simp only [calm] at h <;> try cases h
  case persistProgress => rfl
  all_goals
    split at h
  case newUuid.isTrue | isTerminal.isTrue | markTerminal.isTrue => cases h; rfl
  case collect.isTrue =>
    have ⟨x, _, h⟩ := Option.map_eq_some_iff.mp h
    cases h
    rfl
  case handoffAndCommit.isFalse =>
    split at h
    case isTrue => cases h; unfold World.handoff; split <;> rfl
    case isFalse => cases h; rfl
  all_goals cases h

-- A parent with two children, whose next stage is the last one.

def pipeline : Json :=
  .arr [.object [("id", .str "_gather"), ("phase", .str "collect"), ("queue", .str "collect"), ("next", .str "done")],
    .object [("id", .str "done"), ("phase", .str "results"), ("queue", .str "results"), ("next", .null)]]

def gatherContext : Json :=
  .object [("current_stage_id", .str "_gather"), ("current_phase", .str "collect"), ("pipeline", pipeline)]

def twoChildren (policy : FailurePolicy) : Setting where
  parentRunId := "p"
  group := ⟨"p", "w", .object [("run_id", .str "p"), ("stage_context", gatherContext)], 2, []⟩
  children := {"a", "b"}
  policy := policy
  expiring := False
  patient := False

def FailurePolicy.name : FailurePolicy → String
  | collectAll => "collect_all"
  | failFast => "fail_fast"

def childFields (policy : FailurePolicy) (runId : String) (index : Nat) (status : String) : Fields :=
  literal [("workflow_id", .str "w"), ("run_id", .str runId), ("parent_run_id", .str "p"),
    ("fanout_profile", .object [("item_count", .nat 2), ("failure_policy", .str policy.name)]),
    ("fanout_item", .object [("item_index", .nat index)]), ("result", .object [("status", .str status)]),
    ("stage_context", gatherContext)]

def childMessage (runId : String) (fields : Fields) : Message where
  id := runId
  stream := "collect"
  group := "collect"
  runId := runId
  stage := "collect"
  payload := .encode (.obj fields)

def start (S : Setting) : World Nat where
  group := { metadata := some S.group }

def Setting.reports (S : Setting) (runId : String) (fields : Fields) : Bool :=
  match decodeEnvelope (.obj fields) with
  | .ok (typed, payload) => typed.parentRunId = S.parentRunId ∧ typed.fanoutProfile.itemCount = S.children.card ∧
      typed.fanoutProfile.policy = S.policy ∧ typedChildRunId payload runId ∈ S.children
  | .error _ => false

theorem Setting.reports_childMessage (h : S.reports runId fields) : S.Reports (childMessage runId fields) := by
  unfold reports at h
  split at h
  case h_2 => cases h
  case h_1 typed payload hd =>
    exact ⟨typed, payload, decodeCollectPayload_encode.trans hd, of_decide_eq_true h⟩

theorem Setting.childRunId_childMessage (h : S.reports runId fields) :
    childRunId (childMessage runId fields) = typedChildRunId (.obj fields) runId := by
  unfold reports at h
  split at h
  case h_2 => cases h
  case h_1 typed payload hd =>
    have hd' := decodeCollectPayload_encode.trans hd
    have ⟨_, _, _, _, _, _, hv⟩ := decodeEnvelope_ok_iff.mp hd
    simp only [childRunId, childMessage, hd', hv]

def fieldsWorker (runId : String) (fields : Fields) : Prog Op (Message × Except Failure Unit) :=
  (do
    let (typed, payload) ← Routine.ofExcept (decodeEnvelope (.obj fields))
    processEnvelope (childMessage runId fields) typed payload : RoleM Unit Unit).toProg () >>=
      fun x => pure (childMessage runId fields, x.1)

theorem worker_childMessage : Setting.worker (childMessage runId fields) = fieldsWorker runId fields := by
  rw [Setting.worker, processMessage, childMessage, decodeCollectPayload_encode]
  rfl

-- A worker that is done with its message before anybody else goes on.
def Setting.processed (S : Setting) (runId : String) (fields : Fields) (token : String) (i : Nat) (w : World Nat) :
    Option (World Nat) :=
  if S.reports runId fields then
    match (fieldsWorker runId fields).steps (S.calm token true i) 50 w with
    | some (.ret (m, .ok ()), w) => some { w with acked := m :: w.acked }
    | _ => none
  else none

theorem reachable_processed (hp : ¬S.patient) (h : Reachable (S.workers Nat) ⟨w, threads⟩)
    (hn : threads i = none) (he : S.processed runId fields token i w = some w') :
    Reachable (S.workers Nat) ⟨w', threads⟩ := by
  unfold Setting.processed at he
  split at he
  case isFalse => cases he
  case isTrue hm =>
    split at he
    case h_2 => cases he
    case h_1 hs =>
      cases he
      rw [← worker_childMessage] at hs
      exact h.beside (calm_sound hp) hn ⟨rfl, _, reports_childMessage hm, rfl⟩ hs .done

theorem acked_processed (he : S.processed runId fields token i w = some w') :
    S.reports runId fields ∧ childMessage runId fields ∈ w'.acked := by
  unfold Setting.processed at he
  split at he
  case isFalse => cases he
  case isTrue hm =>
    split at he
    case h_2 => cases he
    case h_1 hs =>
      cases he
      have ⟨x, hx⟩ := Prog.steps_bind_ret hs
      have hx : _ = childMessage runId fields := congrArg Prod.fst hx
      exact ⟨hm, hx ▸ List.mem_cons_self⟩

end Scenario

-- The first of two children has succeeded, and then the second one.

def halfCollected : Option (World Nat) :=
  (twoChildren .collectAll).processed "a" (childFields .collectAll "a" 0 "succeeded") "s" 0
    (start (twoChildren .collectAll))

def collected : Option (World Nat) :=
  halfCollected.bind ((twoChildren .collectAll).processed "b" (childFields .collectAll "b" 1 "succeeded") "t" 1)

theorem parent_handed_off_once_collected :
    ∃ w : World Nat, w.emitted.length = 1 ∧ ∀ e ∈ w.emitted,
      ∃ ids, e.childRunIds = some ids ∧ ids.Nodup ∧ ids.toFinset = {"a", "b"} := by
  have h : collected.any fun w => w.emitted.length = 1 := by decide +kernel
  have ⟨w, hw, hl⟩ := (Option.any_eq_true _ _).mp h
  have ⟨w₁, h₁, h₂⟩ := Option.bind_eq_some_iff.mp hw
  have hr := reachable_processed id (reachable_processed id (.init rfl) rfl h₁) rfl h₂
  exact ⟨w, of_decide_eq_true hl, (parent_handed_off_once id hr).right rfl⟩

theorem acked_result_stored_first :
    ∃ w : World Nat, ¬w.committed ∧ ∃ m ∈ w.acked, m.runId = "a" ∧
      ∃ result ∈ w.group.items, result.childRunId = Setting.childRunId m := by
  have h : halfCollected.any fun w => ¬w.committed ∧ w.acked.map (·.runId) = ["a"] := by decide +kernel
  have ⟨w, hw, hl⟩ := (Option.any_eq_true _ _).mp h
  have ⟨hc, ha⟩ := of_decide_eq_true hl
  have ⟨m, hm, hid⟩ := List.mem_map.mp (ha.symm ▸ List.mem_singleton_self "a" : "a" ∈ w.acked.map (·.runId))
  have hr := reachable_processed id (.init rfl) rfl hw
  exact ⟨w, hc, m, hm, hid, acked_result_stored (fun h => absurd h (by decide)) hr m hm hc⟩

-- The first child has failed, and its worker has made the claim. Then the result of the second child comes in,
-- and after that the worker of the first one cannot hand the parent off.
def turnedAway : Option (World Nat) :=
  match (fieldsWorker "a" (childFields .failFast "a" 0 "failed")).steps ((twoChildren .failFast).calm "s" false 0) 7
      (start (twoChildren .failFast)) with
  | none => none
  | some (p, w) =>
    match (twoChildren .failFast).processed "b" (childFields .failFast "b" 1 "succeeded") "t" 1 w with
    | none => none
    | some w =>
      match p.steps ((twoChildren .failFast).calm "s" false 0) 50 w with
      | some (.ret _, w) => some w
      | _ => none

theorem reachable_turnedAway (h : turnedAway = some w) :
    (∃ threads, Reachable ((twoChildren .failFast).workers Nat) ⟨w, threads⟩) ∧
      ∃ m ∈ w.acked, Setting.childRunId m = "b" := by
  unfold turnedAway at h
  split at h
  case h_1 => cases h
  case h_2 p w₁ h₁ =>
    split at h
    case h_1 => cases h
    case h_2 w₂ h₂ =>
      split at h
      case h_2 => cases h
      case h_1 h₃ =>
        cases h
        have hm := reports_childMessage (S := twoChildren .failFast)
          (show Setting.reports _ "a" (childFields .failFast "a" 0 "failed") by decide +kernel)
        have hr : Reachable ((twoChildren .failFast).workers Nat) _ :=
          (Reachable.init rfl).step (.start 0 _ rfl ⟨rfl, _, hm, rfl⟩)
        rw [← worker_childMessage] at h₁
        have hr := hr.steps (calm_sound id) (Function.update_self ..) h₁
        have hr := reachable_processed id hr rfl h₂
        refine ⟨⟨_, hr.steps (calm_sound id) (Function.update_self ..) h₃⟩, ?_⟩
        obtain ⟨hm, ha⟩ := acked_processed h₂
        have ha := Prog.steps_keeps (P := fun w => _ ∈ w.acked)
          (fun _ _ _ _ ho ha => by rwa [calm_acked ho]) h₃ ha
        exact ⟨_, ha, (childRunId_childMessage hm).trans (by decide +kernel)⟩

theorem acked_result_lost :
    ∃ c : Config Op (World Nat) Nat _, Reachable ((twoChildren .failFast).workers Nat) c ∧
      ¬c.state.committed ∧ c.state.group.finalization = none ∧
      ∃ m ∈ c.state.acked, ∀ result ∈ c.state.group.items, result.childRunId ≠ Setting.childRunId m := by
  have h : turnedAway.any fun w => ¬w.committed ∧ w.group.finalization = none ∧
      ∀ result ∈ w.group.items, result.childRunId ≠ "b" := by
    decide +kernel
  have ⟨w, hw, hl⟩ := (Option.any_eq_true _ _).mp h
  have ⟨hc, hf, hi⟩ := of_decide_eq_true hl
  have ⟨⟨threads, hr⟩, m, hm, hid⟩ := reachable_turnedAway hw
  exact ⟨⟨w, threads⟩, hr, hc, hf, m, hm, hid ▸ hi⟩

end Collect
