import ServeModel.Inference.Theorems.Plain
import ServeModel.Scheduler.Theorems.Dispatch

-- When the worker gives a device back.
namespace Inference

open Python List Except

variable (env : Env)

theorem failedResponse_sends (hd : (Value.dict d).IsJson) :
    Sends env d (failedResponse runId text) := by
  have hs : isSuccessStatus env (status (failedResponse runId text)) = .ok false := rfl
  exact sends_of_encodes env hd rfl (by simp) hs rfl rfl

-- An entry of the completion that can be built.
def Builds {α : Type} (x : M α) : Prop :=
  ∃ a, x = .ok a

theorem utf8_builds : Builds (utf8 v) ↔ ∃ s, v = .str s := by
  cases v <;> simp [Builds, utf8]

theorem streamEntry_builds :
    Builds (streamEntry env stream payload stage runId) ↔
      (Value.dict payload).encodes ∧ (∃ s, stream = .str s) ∧ (∃ s, stage = .str s) ∧ ∃ s, runId = .str s := by
  by_cases he : (Value.dict payload).encodes
  case neg =>
    have hb : ¬Builds (streamEntry env stream payload stage runId) := by
      rintro ⟨e, h⟩
      simp [streamEntry, he, bind_eq_ok] at h
    simp [hb, he]
  case pos =>
    simp only [← utf8_builds, Builds, streamEntry, he, not_true_eq_false, if_false, bind_eq_ok, pure_eq_ok]
    constructor
    case mp =>
      rintro ⟨e, s, hs, t, ht, r, hr, -⟩
      exact ⟨trivial, ⟨s, hs⟩, ⟨t, ht⟩, ⟨r, hr⟩⟩
    case mpr =>
      rintro ⟨-, ⟨s, hs⟩, ⟨t, ht⟩, ⟨r, hr⟩⟩
      exact ⟨_, s, hs, t, ht, r, hr, rfl⟩

theorem sendEach_completed : (sendEach entries).2 ↔ ∀ x ∈ entries, Builds x := by
  induction entries
  case nil => simp [sendEach]
  case cons x entries hi =>
    cases x
    case error => simp [sendEach, Builds]
    case ok => simp [sendEach, Builds, hi]

theorem mem_sendEach (h : (sendEach entries).2) (he : .ok e ∈ entries) :
    e ∈ (sendEach entries).1 := by
  induction entries
  case nil => simp at he
  case cons x entries hi =>
    cases x
    case error => simp [sendEach] at h
    case ok a =>
      simp only [sendEach, mem_cons] at h he ⊢
      obtain he | he := he
      case inl => exact .inl (Except.ok.inj he)
      case inr => exact .inr (hi h he)

-- Encoding everything first makes no difference if everything can be encoded.
theorem mapM_eq_ok :
    entries.mapM id = .ok sent ↔ (sendEach entries).2 ∧ sent = (sendEach entries).1 := by
  induction entries generalizing sent
  case nil =>
    rw [mapM_nil, pure_eq_ok]
    simp [sendEach, eq_comm]
  case cons x entries hi =>
    rw [mapM_cons, bind_eq_ok]
    cases x
    case error => simp [sendEach]
    case ok e =>
      simp only [id, bind_eq_ok, pure_eq_ok, hi, sendEach]
      constructor
      case mp =>
        rintro ⟨_, ha, _, ⟨hs, rfl⟩, rfl⟩
        cases ha
        exact ⟨hs, rfl⟩
      case mpr =>
        rintro ⟨hs, rfl⟩
        exact ⟨e, rfl, _, ⟨hs, rfl⟩, rfl⟩

section Entries

structure CountedEntry.Sends (payload : Dict) (c : CountedEntry) : Prop where
  copies : ∀ info, c.batchInfo = some info → (Value.dict info).copyError = none
  named : ∃ s, c.runId = .str s
  sends : ∃ own, batchItemCompletionPayload env payload c.payload = .ok own ∧ Inference.Sends env own c.sentResult

-- The outputs of a message: one for its run, or one for each entry of a batch that counts.
def SendsPrimaries (payload result : Dict) : Prop :=
  match batchEntries result with
  | some entries => ∀ entry ∈ entries, ∃ c?, countEntry env entry = .ok c? ∧ ∀ c, c? = some c → c.Sends env payload
  | none => Sends env payload result

structure SendsRelease (result : Dict) : Prop where
  status : (result.entry "status").encodes
  parent : ∃ b, truth (result.entry "parent_run_id") = .ok b ∧ (b → (result.entry "parent_run_id").encodes)

variable {streamName : String} {payload result : Dict} {entries : List Value} {runId : String}

-- The outputs of a list that the clients take, one after another.
def Sendable (outputs : List (Primary × Value)) : Prop :=
  ∀ x ∈ outputs, Postable x.1 ∧ ∃ s, x.2 = .str s

theorem buildEntryOutput_postable (streamName : String) :
    (∃ p, buildEntryOutput env streamName payload c = .ok p ∧ Postable p ∧ ∃ s, c.runId = .str s) ↔
      c.Sends env payload := by
  simp only [buildEntryOutput, bind_eq_ok, raiseIf_eq_ok]
  constructor
  case mp =>
    rintro ⟨p, ⟨own, ho, -, hc, hb⟩, hp, hn⟩
    have hs := (buildPrimaryCompletion_postable env streamName).mp ⟨p, hb, hp⟩
    exact ⟨fun info hi => by simpa [hi] using hc, hn, own, ho, hs⟩
  case mpr =>
    rintro ⟨hc, hn, own, ho, hs⟩
    have ⟨p, hb, hp⟩ := (buildPrimaryCompletion_postable env streamName).mpr hs
    exact ⟨p, ⟨own, ho, (), Option.bind_eq_none_iff.mpr hc, hb⟩, hp, hn⟩

theorem buildBatchPrimaryOutputs_sendable :
    (∃ outputs, buildBatchPrimaryOutputs env streamName payload entries = .ok outputs ∧ Sendable outputs) ↔
      ∀ entry ∈ entries, ∃ c?, countEntry env entry = .ok c? ∧ ∀ c, c? = some c → c.Sends env payload := by
  induction entries
  case nil => simp [buildBatchPrimaryOutputs, Sendable]
  case cons entry entries hi =>
    rw [forall_mem_cons, ← hi]
    simp only [buildBatchPrimaryOutputs, bind_eq_ok]
    constructor
    case mp =>
      rintro ⟨outputs, ⟨c?, hc, hb⟩, hs⟩
      cases c?
      case none => exact ⟨⟨none, hc, nofun⟩, outputs, hb, hs⟩
      case some c =>
        simp only [bind_eq_ok, pure_eq_ok] at hb
        obtain ⟨p, hp, rest, hr, rfl⟩ := hb
        obtain ⟨hx, hs⟩ := forall_mem_cons.mp hs
        refine ⟨⟨some c, hc, ?_⟩, rest, hr, hs⟩
        intro c hc
        cases hc
        exact (buildEntryOutput_postable env streamName).mp ⟨p, hp, hx⟩
    case mpr =>
      rintro ⟨⟨c?, hc, hx⟩, rest, hr, hs⟩
      cases c?
      case none => exact ⟨rest, ⟨none, hc, hr⟩, hs⟩
      case some c =>
        obtain ⟨p, hp, hx⟩ := (buildEntryOutput_postable env streamName).mpr (hx c rfl)
        refine ⟨(p, c.runId) :: rest, ⟨some c, hc, ?_⟩, forall_mem_cons.mpr ⟨hx, hs⟩⟩
        simp only [bind_eq_ok, pure_eq_ok]
        exact ⟨p, hp, rest, hr, rfl⟩

theorem primaryOutputs_sendable (streamName runId : String) :
    (∃ outputs, primaryOutputs env streamName payload result (.str runId) = .ok outputs ∧ Sendable outputs) ↔
      SendsPrimaries env payload result := by
  rw [SendsPrimaries, primaryOutputs]
  cases batchEntries result
  case some => exact buildBatchPrimaryOutputs_sendable env
  case none =>
    rw [← buildPrimaryCompletion_postable env streamName]
    simp only [bind_eq_ok, pure_eq_ok]
    constructor
    case mp =>
      rintro ⟨_, ⟨p, hb, rfl⟩, hs⟩
      exact ⟨p, hb, (hs _ (.head _)).left⟩
    case mpr =>
      rintro ⟨p, hb, hp⟩
      exact ⟨_, ⟨p, hb, rfl⟩, by simpa [Sendable] using hp⟩

end Entries

section Completion

variable {device : Device} {streamName runId : String} {result payload : Dict} {resource : Int × Int}

theorem releaseFields_encodes (runId : String) (resource : Int × Int) {status : Value} :
    (Value.dict (releaseFields env (.str runId) resource status)).encodes ↔ status.encodes := by
  simp [releaseFields, Value.encodes, Value.entriesEncode]

theorem buildReleaseEnvelope_encodes {status parent : Value} :
    (∃ d, buildReleaseEnvelope env (.str runId) resource status parent = .ok d ∧ (Value.dict d).encodes) ↔
      status.encodes ∧ ∃ b, truth parent = .ok b ∧ (b → parent.encodes) := by
  simp only [buildReleaseEnvelope, bind_eq_ok]
  constructor
  case mp =>
    rintro ⟨d, ⟨b, hb, hd⟩, he⟩
    cases b
    case false =>
      cases hd
      exact ⟨(releaseFields_encodes env runId resource).mp he, false, hb, nofun⟩
    case true =>
      cases hd
      have he := Value.encodes_dict.mp he
      have hs := (he (.str "status", status) (Dict.mem_set.mpr (.inr ⟨by simp [releaseFields], by simp⟩))).right
      exact ⟨hs, true, hb, fun _ => (he _ (Dict.mem_set.mpr (.inl rfl))).right⟩
  case mpr =>
    rintro ⟨hs, b, hb, hp⟩
    have he := (releaseFields_encodes env runId resource).mpr hs
    cases b
    case false => exact ⟨_, ⟨false, hb, rfl⟩, he⟩
    case true => exact ⟨_, ⟨true, hb, rfl⟩, Value.encodes_set he (hp rfl)⟩

theorem releaseEntry_builds {status parent : Value} :
    Builds (releaseEntry env (.str runId) resource status parent) ↔
      status.encodes ∧ ∃ b, truth parent = .ok b ∧ (b → parent.encodes) := by
  rw [← buildReleaseEnvelope_encodes env, Builds]
  simp only [releaseEntry, bind_eq_ok]
  constructor
  case mp =>
    rintro ⟨e, d, hd, he⟩
    exact ⟨d, hd, ((streamEntry_builds env).mp ⟨e, he⟩).left⟩
  case mpr =>
    rintro ⟨d, hd, he⟩
    have hs : Builds (streamEntry env (.str "release") d (.str "release") (.str runId)) :=
      (streamEntry_builds env).mpr ⟨he, ⟨_, rfl⟩, ⟨_, rfl⟩, ⟨runId, rfl⟩⟩
    exact hs.imp fun e hs => ⟨d, hd, hs⟩

-- The parent of the release is the one of the result, if it has one, or else the one of the payload.
theorem releaseEntry_iff (hd : (Value.dict payload).IsJson) (runId : String) (resource : Int × Int) : (∃ parent,
      orElse (result.entry "parent_run_id") (payload.entry "parent_run_id") = .ok parent ∧
      Builds (releaseEntry env (.str runId) resource (result.entry "status") parent)) ↔ SendsRelease result := by
  simp only [releaseEntry_builds]
  constructor
  case mp =>
    rintro ⟨parent, ho, hs, b, hb, he⟩
    have ⟨b', hb', hp⟩ := bind_eq_ok.mp ho
    refine ⟨hs, b', hb', fun h => ?_⟩
    subst h
    cases hp
    rw [hb] at hb'
    exact he (Except.ok.inj hb')
  case mpr =>
    rintro ⟨hs, b, hb, he⟩
    refine ⟨_, orElse_of_truth hb, hs, ?_⟩
    cases b
    case true => exact ⟨true, hb, he⟩
    case false =>
      have hp : (payload.entry "parent_run_id").IsJson := hd.entry
      have ⟨b, hb, _⟩ := truth_isJson hp
      exact ⟨b, hb, fun _ => hp.encodes⟩

theorem completionEntries_builds (hd : (Value.dict payload).IsJson)
    (hr : extractResourceInfo device payload = .ok resource) (hn : result.entry "run_id" = .str runId) :
    (∃ entries, completionEntries env device streamName payload result = .ok entries ∧ ∀ x ∈ entries, Builds x) ↔
      SendsPrimaries env payload result ∧ SendsRelease result := by
  have hx (outputs : List (Primary × Value)) : (∀ x ∈ outputs.map fun x =>
      streamEntry env x.1.stream x.1.payload x.1.stage x.2, Builds x) ↔ Sendable outputs := by
    rw [forall_mem_map, Sendable]
    refine forall₂_congr fun x _ => ?_
    rw [streamEntry_builds]
    constructor
    case mp =>
      rintro ⟨he, hs, ht, hr⟩
      exact ⟨⟨he, hs, ht⟩, hr⟩
    case mpr =>
      rintro ⟨⟨he, hs, ht⟩, hr⟩
      exact ⟨he, hs, ht, hr⟩
  rw [← releaseEntry_iff env hd runId resource, ← primaryOutputs_sendable env streamName runId]
  simp only [completionEntries, bind_eq_ok, pure_eq_ok, hr, hn]
  constructor
  case mp =>
    rintro ⟨_, ⟨_, hr, parent, hp, outputs, ho, rfl⟩, hb⟩
    cases hr
    obtain ⟨hs, he⟩ := forall_mem_append.mp hb
    exact ⟨⟨outputs, ho, (hx outputs).mp hs⟩, parent, hp, he _ (.head _)⟩
  case mpr =>
    rintro ⟨⟨outputs, ho, hs⟩, parent, hp, he⟩
    refine ⟨_, ⟨resource, rfl, parent, hp, outputs, ho, rfl⟩, forall_mem_append.mpr ⟨(hx outputs).mpr hs, ?_⟩⟩
    simpa using he

end Completion

section Message

-- The message is acknowledged and its device is free.
def Released (job : Job) (commands : List Command) : Prop :=
  .xack job.msgId ∈ commands ∧ ∃ e, .xadd e ∈ commands ∧ e.stream = releaseStream env ∧ e.stage = "release"

-- The worker's own checks let a result pass.
def Accepted (runId : String) (payload result : Dict) : Prop :=
  ∃ items, checkedItems env runId payload result = .ok items ∧ (persistAll env items).2 = .ok ()

-- What the plugin may do: it may raise anything but an exception that ends the process, and what it returns has to go
-- through the encoder as far as it is sent.
def Deliverable (runId : String) (payload : Dict) (outcome : M Dict) : Prop :=
  outcome ≠ .error .fatal ∧ ∀ result, outcome = .ok result → Accepted env runId payload result →
    SendsPrimaries env payload (response runId result) ∧ SendsRelease (response runId result)

variable {env} {device : Device} {job : Job} {payload result : Dict} {mode : Mode} {resource : Int × Int}

theorem releaseEntry_eq_ok {runId status parent : Value}
    (h : releaseEntry env runId resource status parent = .ok e) :
    e.stream = releaseStream env ∧ e.stage = "release" := by
  simp only [releaseEntry, bind_eq_ok] at h
  have ⟨d, _, he⟩ := h
  rw [streamEntry] at he
  split at he
  case isTrue => cases he
  case isFalse =>
    simp only [bind_eq_ok, pure_eq_ok] at he
    obtain ⟨_, hs, _, ht, _, -, rfl⟩ := he
    cases hs
    cases ht
    exact ⟨rfl, rfl⟩

theorem releaseEntry_mem (h : completionEntries env device streamName payload result = .ok entries) :
    ∃ resource parent, releaseEntry env (result.entry "run_id") resource (result.entry "status") parent ∈ entries := by
  simp only [completionEntries, bind_eq_ok, pure_eq_ok] at h
  obtain ⟨resource, -, parent, -, outputs, -, rfl⟩ := h
  exact ⟨resource, parent, by simp⟩

-- Both ways of sending come to the same end, or leave the message pending.
theorem complete_cases (env : Env) (mode : Mode) (device : Device) (result : Dict)
    (hj : decodePayloadObject job.payload = payload) :
    (∃ entries, completionEntries env device job.stream payload result = .ok entries ∧ (sendEach entries).2 ∧
      complete env mode device job result = (sendEach entries).1.map .xadd ++ [.xack job.msgId]) ∨
    ((∀ entries, completionEntries env device job.stream payload result = .ok entries → ¬(sendEach entries).2) ∧
      .xack job.msgId ∉ complete env mode device job result) := by
  have hm := job.msgId_ne
  simp only [complete.eq_def, hj]
  cases hc : completionEntries env device job.stream payload result
  case error e =>
    have ha : completeJobAsync env device job.stream payload result = .error e := by
      rw [completeJobAsync, hc]
      rfl
    cases mode <;> simp [completeJob, ha, hc]
  case ok entries =>
    have ha : completeJobAsync env device job.stream payload result = entries.mapM id := by
      rw [completeJobAsync, hc]
      rfl
    by_cases hs : (sendEach entries).2
    case pos =>
      refine .inl ⟨entries, rfl, hs, ?_⟩
      cases mode
      case sync => simp [completeJob, hc, hs, hm]
      case async => simp [ha, mapM_eq_ok.mpr ⟨hs, rfl⟩]
    case neg =>
      refine .inr ⟨fun _ he => Except.ok.inj he ▸ hs, ?_⟩
      cases mode
      case sync => simp [completeJob, hc, hs]
      case async =>
        rw [ha]
        cases he : entries.mapM id
        case error => simp
        case ok => exact absurd (mapM_eq_ok.mp he).left hs

theorem released_complete (hj : decodePayloadObject job.payload = payload) :
    Released env job (complete env mode device job result) ↔
      ∃ entries, completionEntries env device job.stream payload result = .ok entries ∧ ∀ x ∈ entries, Builds x := by
  simp only [← sendEach_completed]
  obtain ⟨entries, hc, hs, he⟩ | ⟨hn, hm⟩ := complete_cases env mode device result hj
  case inl =>
    have ⟨resource, parent, hm⟩ := releaseEntry_mem hc
    have ⟨e, hb⟩ := sendEach_completed.mp hs _ hm
    have hx := mem_sendEach hs (hb ▸ hm)
    refine iff_of_true ?_ ⟨entries, hc, hs⟩
    rw [he]
    exact ⟨by simp, e, by simpa using hx, releaseEntry_eq_ok hb⟩
  case inr => exact iff_of_false (fun h => hm h.left) fun ⟨entries, hc, hs⟩ => hn entries hc hs

theorem processJob_fatal :
    (processJob env (.error .fatal) runId payload).2 = .error .fatal := rfl

theorem processJob_accepted (h : Accepted env runId payload result) :
    (processJob env (.ok result) runId payload).2 = .ok (response runId result) := by
  have ⟨items, hc, hp⟩ := h
  simp only [processJob, hc]
  split
  case h_1 => rfl
  case h_2 e he => simp [he] at hp

theorem processJob_failed (h : outcome ≠ .error .fatal)
    (hn : ∀ r, outcome = .ok r → ¬Accepted env runId payload r) :
    ∃ text, (processJob env outcome runId payload).2 = .ok (failedResponse runId text) := by
  have he {e : Exc} (h : e ≠ .fatal) : ∃ text, handleError runId e = .ok (failedResponse runId text) := by
    cases e
    case fatal => exact absurd rfl h
    all_goals exact ⟨_, rfl⟩
  cases outcome
  case error e => exact he fun hf => h (hf ▸ rfl)
  case ok result =>
    rw [processJob]
    cases hc : checkedItems env runId payload result
    case error e => exact he fun hf => Ordinary.checkedItems env runId payload result (hf ▸ hc)
    case ok items =>
      cases hp : persistAll env items
      case mk persisted x =>
        cases x
        case ok => exact absurd ⟨items, hc, by rw [hp]⟩ (hn result rfl)
        case error e =>
          have ho := Ordinary.persistAll env items
          rw [hp] at ho
          simp only [hp]
          exact he fun hf => ho (hf ▸ rfl)

section Dispatched

open Scheduler

theorem dispatchPayload_eq_obj (payload : SchedulePayload) (target : ReservedResource) :
    ∃ fs, dispatchPayload payload target = .obj fs ∧ Json.field "resource_id" fs = some (.nat target.resourceId) ∧
      Json.field "memory_mb" fs = some (.nat payload.memoryMb) ∧
      Json.field "parent_run_id" fs = Json.field "parent_run_id" (dispatchRoot payload) := by
  have ⟨fs, hf⟩ : ∃ fs, dispatchPayload payload target = .obj fs := by
    rw [dispatchPayload, advanceStageContextForDispatch]
    split
    case h_1 => exact ⟨_, rfl⟩
    case h_2 => split <;> exact ⟨_, rfl⟩
  have hg {key : String} (hp : key ≠ "resource_profile") (hc : key ≠ "stage_context") (hi : key ≠ "items") :
      Json.field key fs = Json.field key (Json.setField "memory_mb" (.nat payload.memoryMb)
        (Json.setField "resource_id" (.nat target.resourceId) (dispatchRoot payload))) := by
    rw [← get_dispatchPayload hp hc hi, hf]
    rfl
  refine ⟨fs, hf, ?_, ?_, ?_⟩ <;> simp [hg]

end Dispatched

theorem Dispatched.plain (hd : Dispatched job) (device : Device) : ∃ payload resource,
    (Value.dict payload).IsJson ∧ parseJobPayload job.payload = .ok payload ∧
    decodePayloadObject job.payload = payload ∧ extractResourceInfo device payload = .ok resource := by
  obtain ⟨payload, target, hp⟩ := hd
  have ⟨fs, hf, hr, hm, _⟩ := dispatchPayload_eq_obj payload target
  have hr : Dict.entry (Value.ofFields fs) "resource_id" = .int target.resourceId := by
    simp [Dict.entry, Dict.getD, Value.get_ofFields, hr, Json.nat, Value.ofJson]
  have hm : Dict.entry (Value.ofFields fs) "memory_mb" = .int payload.memoryMb := by
    simp [Dict.entry, Dict.getD, Value.get_ofFields, hm, Json.nat, Value.ofJson]
  refine ⟨Value.ofFields fs, (target.resourceId, payload.memoryMb), Value.isJson_ofFields, ?_, ?_, ?_⟩
  · rw [hp, hf]
    rfl
  · rw [hp, hf]
    rfl
  · rw [extractResourceInfo, hr, hm]
    rfl

theorem released_iff {outcome : Dict → M Dict} (hd : Dispatched job) :
    Released env job (processMessage env mode device outcome job) ↔
      Deliverable env job.runId (decodePayloadObject job.payload) (outcome (decodePayloadObject job.payload)) := by
  have ⟨payload, resource, hd, hp, hj, hr⟩ := hd.plain device
  have hb {result : Dict} (hn : result.entry "run_id" = .str job.runId) :
      Released env job (complete env mode device job result) ↔
        SendsPrimaries env payload result ∧ SendsRelease result :=
    (released_complete hj).trans (completionEntries_builds env hd hr hn)
  simp only [processMessage, hp, hj, Deliverable]
  by_cases hf : outcome payload = .error .fatal
  case pos =>
    rw [hf, processJob_fatal]
    simp [Released]
  case neg =>
    by_cases ha : ∃ result, outcome payload = .ok result ∧ Accepted env job.runId payload result
    case pos =>
      obtain ⟨result, ho, ha⟩ := ha
      rw [ho, processJob_accepted ha]
      have hb := hb (show (response job.runId result).entry "run_id" = .str job.runId from rfl)
      refine hb.trans ⟨fun h => ⟨nofun, fun r hr _ => ?_⟩, fun h => h.right result rfl ha⟩
      cases hr
      exact h
    case neg =>
      have hn : ∀ result, outcome payload = .ok result → ¬Accepted env job.runId payload result :=
        fun result ho h => ha ⟨result, ho, h⟩
      have ⟨text, ht⟩ := processJob_failed hf hn
      rw [ht]
      refine iff_of_true ((hb rfl).mpr ⟨failedResponse_sends env hd, rfl, ?_⟩) ⟨hf, fun r ho h => absurd h (hn r ho)⟩
      exact ⟨false, rfl, nofun⟩

end Message

section Sample

-- A worker without a configuration, a request without fields but its workflow, and a message for it.
def plainEnv : Env where
  repr _ := ""
  publicationConfig := none
  streamPrefix := ""
  now := ""

def plainDevice : Device where
  index := .ok 0
  memory := .ok 0
  convert _ := .ok 0

def plainPayload : Scheduler.SchedulePayload where
  workflow := "weather"
  rawPayload := .object [("workflow_id", .str "weather")]
  memoryMb := 1

def plainJob : Job where
  msgId := "1-0"
  stream := "gpu"
  runId := "run"
  payload := .encode (Scheduler.dispatchPayload plainPayload { streamName := "gpu", resourceId := 0 })
  msgId_ne := by decide

theorem plainJob_dispatched : Dispatched plainJob :=
  ⟨_, _, rfl⟩

def plainRun (hook : Hook) : ItemRun where
  load := .ok ()
  parentTerminal := false
  hook := hook
  artifacts := .ok (.list [])
  primaryPath := .ok .none
  defaultOperation := .str "run"
  seconds := .none
  traceback := ""

def plainBatch (hook : Hook) : BatchRun where
  load := .ok ()
  defaultOperation := .ok (.str "run")
  legacyBatchOnly := false
  accepting := true
  items _ := plainRun hook
  parentTerminal _ := false
  subprocess _ := none
  legacyLoad := .ok ()
  contexts _ := .ok ()
  batchHook := none
  seconds := .none
  traceback := ""

def plainExecution (hook : Hook) : Execution where
  single := plainRun hook
  batch := plainBatch hook

-- An array, say, which the encoder does not know.
def opaqueObject : Value :=
  .object { truth := .ok true, text := .ok "array", copyError := none, hashError := none }

def opaqueResult : Value :=
  .dict [(.str "field", opaqueObject)]

theorem released_of_exception : Released plainEnv plainJob (processMessage plainEnv .async plainDevice
    (fun _ => .error (.error "out of memory")) plainJob) :=
  (released_iff plainJob_dispatched).mpr ⟨nofun, nofun⟩

theorem not_released_of_object :
    ¬Released plainEnv plainJob (processMessage plainEnv .sync plainDevice
      (executor plainEnv (plainExecution (.returned opaqueResult)) plainJob) plainJob) ∧
    ¬Released plainEnv plainJob (processMessage plainEnv .async plainDevice
      (executor plainEnv (plainExecution (.returned opaqueResult)) plainJob) plainJob) := by
  have h (mode : Mode) : processMessage plainEnv mode plainDevice
      (executor plainEnv (plainExecution (.returned opaqueResult)) plainJob) plainJob = [] := by
    cases mode <;> rfl
  simp [h, Released]

end Sample

end Inference
