import ServeModel.Lib.Checks
import ServeModel.Queue.Operations

-- What it means that a handoff is all or nothing.
namespace Queue

open Redis Script

structure Source where
  stream : String
  group : String
  id : String

-- What a call is asked to hand on, and what it is to acknowledge for that.
structure Transfer where
  sources : List Source
  outputs : List ResolvedOutput

def Transfer.IsSource (srv : Server) (t : Transfer) (key group : String) (i : EntryId) : Prop :=
  ∃ source ∈ t.sources, source.stream = key ∧ source.group = group ∧ srv.parse source.id = some i

def ResolvedOutput.fields (o : ResolvedOutput) : EntryFields :=
  entryFields o.runId o.payload o.stage

-- The entries that the outputs make on one stream.
def appended (ids : List EntryId) (outputs : List ResolvedOutput) (key : String) : List (EntryId × EntryFields) :=
  ((ids.zip outputs).filter (·.2.stream = key)).map fun added => (added.1, added.2.fields)

structure Undone (srv : Server) (t : Transfer) (s s' : Db) : Prop where
  entries : s'.entries = s.entries
  pending : ∀ key group i, t.IsSource srv key group i → (s.pending key group i).isSome →
    (s'.pending key group i).isSome

structure Done (srv : Server) (t : Transfer) (ids : List EntryId) (s s' : Db) : Prop where
  length : ids.length = t.outputs.length
  entries : ∀ key, s'.entries key = s.entries key ++ appended ids t.outputs key
  pending : ∀ source ∈ t.sources, ∃ i, srv.parse source.id = some i ∧
    (s.pending source.stream source.group i).isSome
  acked : ∀ key group i, t.IsSource srv key group i → s'.pending key group i = none
  kept : ∀ key group i, ¬t.IsSource srv key group i → s'.pending key group i = s.pending key group i

def AllOrNothing (srv : Server) (t : Transfer) (x : Script (List EntryId)) (s : Db) : Prop :=
  match x.run s with
  | (.ok ids, s') => Done srv t ids s s'
  | (.error _, s') => Undone srv t s s'

variable {srv : Server} {t : Transfer} {s s' : Db} {x : Script (List EntryId)}

theorem Undone.refl : Undone srv t s s where
  entries := rfl
  pending := fun _ _ _ _ h => h

theorem allOrNothing_ok (h : x.run s = (.ok ids, s')) : AllOrNothing srv t x s ↔ Done srv t ids s s' := by
  rw [AllOrNothing, h]

theorem allOrNothing_error (h : x.run s = (.error e, s')) : AllOrNothing srv t x s ↔ Undone srv t s s' := by
  rw [AllOrNothing, h]

theorem allOrNothing_refused (h : x.run s = (.error e, s)) : AllOrNothing srv t x s :=
  (allOrNothing_error h).mpr .refl

-- A failure that leaves something behind.
def Torn (srv : Server) (t : Transfer) (x : Script (List EntryId)) (s : Db) : Prop :=
  ∃ e s', x.run s = (.error e, s') ∧ ¬Undone srv t s s'

-- The condition separates the calls that are all or nothing from those that fail half way. A call that
-- succeeds is never of the second kind.
structure Decides (srv : Server) (t : Transfer) (x : Script (List EntryId)) (s : Db) (p : Prop) : Prop where
  whole : p → AllOrNothing srv t x s
  torn : ¬p → Torn srv t x s

namespace Decides

theorem of_true (hp : p) (h : AllOrNothing srv t x s) : Decides srv t x s p where
  whole := fun _ => h
  torn := (absurd hp ·)

theorem of_false (hp : ¬p) (h : Torn srv t x s) : Decides srv t x s p where
  whole := (absurd · hp)
  torn := fun _ => h

theorem congr (hi : p ↔ q) (h : Decides srv t x s p) : Decides srv t x s q :=
  propext hi ▸ h

theorem allOrNothing_iff (h : Decides srv t x s p) : AllOrNothing srv t x s ↔ p := by
  constructor
  case mp =>
    intro ha
    by_contra hp
    have ⟨_, _, hr, hu⟩ := h.torn hp
    exact hu ((allOrNothing_error hr).mp ha)
  case mpr => exact h.whole

theorem done (h : Decides srv t x s p) (hr : x.run s = (.ok ids, s')) : Done srv t ids s s' := by
  by_cases hp : p
  case pos => exact (allOrNothing_ok hr).mp (h.whole hp)
  case neg =>
    have ⟨_, _, he, _⟩ := h.torn hp
    cases hr.symm.trans he

end Decides

-- One message that is handed on as one entry.
section Single

theorem isSource_single : Transfer.IsSource srv ⟨[source], outputs⟩ key group i ↔
    source.stream = key ∧ source.group = group ∧ srv.parse source.id = some i := by
  simp [Transfer.IsSource]

theorem not_undone (h : s.canStream key) (he : s'.entries = (s.added key fields).entries) : ¬Undone srv t s s' := by
  intro hu
  have := congrFun (hu.entries.symm.trans he) key
  rw [entries_added h, if_pos rfl] at this
  simp at this

theorem entries_rollback (h : s.canStream key) (he : s'.entries = (s.added key fields).entries) :
    ((xdel key (s.nextId key)).run s').2.entries = s.entries := by
  funext k
  rw [entries_xdel, he, entries_added h]
  split
  case isFalse => simp
  case isTrue hk =>
    subst hk
    have hf : (s.entries k).filter (·.1 ≠ s.nextId k) = s.entries k :=
      List.filter_eq_self.mpr fun entry hm => by simpa using Nat.ne_of_lt (lt_nextId hm)
    rw [List.filter_append, hf]
    simp

theorem Done.single (h : s.canStream output.stream) (hi : srv.parse source.id = some i)
    (hp : (s.pending source.stream source.group i).isSome)
    (he : s'.entries = (s.added output.stream output.fields).entries)
    (ha : ∀ key group j, s'.pending key group j =
      if key = source.stream ∧ group = source.group ∧ j ∈ [i] then none else s.pending key group j) :
    Done srv ⟨[source], [output]⟩ [s.nextId output.stream] s s' := by
  constructor
  case length => rfl
  case entries =>
    intro key
    rw [he, entries_added h]
    by_cases hk : output.stream = key
    case pos => simp [appended, hk]
    case neg => simp [appended, hk, Ne.symm hk]
  case pending =>
    intro _ hs
    cases List.mem_singleton.mp hs
    exact ⟨i, hi, hp⟩
  case acked =>
    intro key group j hs
    have ⟨hk, hg, hj⟩ := isSource_single.mp hs
    cases hi.symm.trans hj
    rw [ha, if_pos ⟨hk.symm, hg.symm, List.mem_singleton_self _⟩]
  case kept =>
    intro key group j hs
    rw [ha, if_neg]
    intro ⟨hk, hg, hj⟩
    exact hs (isSource_single.mpr ⟨hk.symm, hg.symm, List.mem_singleton.mp hj ▸ hi⟩)

def single (x : Script EntryId) : Script (List EntryId) := do
  return [← x]

theorem single_ok {x : Script EntryId} (h : x.run s = (.ok i, s')) : (single x).run s = (.ok [i], s') :=
  bind_ok h

theorem single_error {x : Script EntryId} (h : x.run s = (.error e, s')) : (single x).run s = (.error e, s') :=
  bind_error h

end Single

section Handoff

variable {r : HandoffRequest}

def HandoffRequest.output (r : HandoffRequest) : ResolvedOutput :=
  ⟨r.nextStream, r.runId, r.payloadJson, r.nextStage⟩

def HandoffRequest.transfer (r : HandoffRequest) : Transfer where
  sources := [⟨r.currentStream, r.group, r.currentMsgId⟩]
  outputs := [r.output]

def HandoffRequest.runHash (r : HandoffRequest) : String :=
  runHashPrefix ++ r.runId

-- Unless nothing can be added anyway, the acknowledgement must not be rejected by the server, and the hash of
-- the run must take its new stage once the message is acknowledged.
structure HandoffRequest.Sound (srv : Server) (r : HandoffRequest) (s : Db) : Prop where
  stream : s.canStream r.currentStream
  id : (s.group? r.currentStream r.group).isSome → (srv.parse r.currentMsgId).isSome
  hash : ∀ i, srv.parse r.currentMsgId = some i → (s.pending r.currentStream r.group i).isSome →
    s.canHash r.runHash ∧ r.runHash ≠ r.nextStream

theorem evalHandoff_eq : evalHandoff srv r = do
    let now ← time
    let nextId ← xadd r.nextStream r.output.fields
    let acked ← xack srv r.currentStream r.group [r.currentMsgId]
    if acked ≠ 1 then do
      let _ ← Script.pcall (xdel r.nextStream nextId)
      .fail s!"XACK_FAILED:{acked}"
    else do
      match ← Script.pcall (hset r.runHash (stageFields r.nextStage now)) with
      | .error e => .fail s!"HSET_FAILED:{e}"
      | .ok _ => return nextId := rfl

theorem evalHandoff_not_addable (h : ¬s.Addable r.nextStream) : ∃ e, (evalHandoff srv r).run s = (.error e, s) := by
  have ⟨e, he⟩ := xadd_of_not_addable r.output.fields h
  rw [evalHandoff_eq]
  exact ⟨e, (bind_ok rfl).trans (bind_error he)⟩

-- What happens to a request, once its entry has been added, depends on the reply to the acknowledgement.
def HandoffRequest.acknowledge (srv : Server) (r : HandoffRequest) (s : Db) : Except String Nat × Db :=
  (xack srv r.currentStream r.group [r.currentMsgId]).run (s.added r.nextStream r.output.fields)

theorem evalHandoff_ack_error (h : s.Addable r.nextStream) (ha : r.acknowledge srv s = (.error e, s')) :
    (evalHandoff srv r).run s = (.error e, s') := by
  rw [evalHandoff_eq, bind_ok (x := time) rfl, bind_ok (xadd_of_addable h)]
  exact bind_error ha

theorem evalHandoff_not_acked (h : s.Addable r.nextStream) (ha : r.acknowledge srv s = (.ok n, s')) (hn : n ≠ 1) :
    ∃ e, (evalHandoff srv r).run s = (.error e, ((xdel r.nextStream (s.nextId r.nextStream)).run s').2) := by
  rw [evalHandoff_eq, bind_ok (x := time) rfl, bind_ok (xadd_of_addable h), bind_ok ha, if_pos hn]
  exact ⟨_, rfl⟩

theorem evalHandoff_hash (h : s.Addable r.nextStream) (ha : r.acknowledge srv s = (.ok 1, s'))
    (hh : s'.canHash r.runHash) :
    ∃ fields, (evalHandoff srv r).run s = (.ok (s.nextId r.nextStream), s'.hashed r.runHash fields) := by
  rw [evalHandoff_eq, bind_ok (x := time) rfl, bind_ok (xadd_of_addable h), bind_ok ha,
    if_neg (by decide), run_bind, run_pcall, hset_of_canHash hh]
  exact ⟨_, rfl⟩

theorem evalHandoff_no_hash (h : s.Addable r.nextStream) (ha : r.acknowledge srv s = (.ok 1, s'))
    (hh : ¬s'.canHash r.runHash) : ∃ e, (evalHandoff srv r).run s = (.error e, s') := by
  rw [evalHandoff_eq, bind_ok (x := time) rfl, bind_ok (xadd_of_addable h), bind_ok ha,
    if_neg (by decide), run_bind, run_pcall, hset_of_not_canHash hh]
  exact ⟨_, rfl⟩

theorem handoff_undone (h : s.Addable r.nextStream) (ha : r.acknowledge srv s = (.ok n, s')) (hn : n ≠ 1)
    (he : s'.entries = (s.added r.nextStream r.output.fields).entries)
    (hp : ∀ i, srv.parse r.currentMsgId = some i → s.pending r.currentStream r.group i = none) :
    AllOrNothing srv r.transfer (single (evalHandoff srv r)) s := by
  have ⟨e, hr⟩ := evalHandoff_not_acked h ha hn
  apply (allOrNothing_error (single_error hr)).mpr
  constructor
  case entries => exact entries_rollback h.stream he
  case pending =>
    intro key group i hs hi
    have ⟨hk, hg, hi'⟩ := isSource_single.mp hs
    simp [← hk, ← hg, hp i hi'] at hi

theorem handoff_done (h : s.Addable r.nextStream) (hi : srv.parse r.currentMsgId = some i)
    (hp : (s.pending r.currentStream r.group i).isSome)
    (ha : r.acknowledge srv s = (.ok 1, (s.added r.nextStream r.output.fields).acked r.currentStream r.group [i]))
    (hh : ((s.added r.nextStream r.output.fields).acked r.currentStream r.group [i]).canHash r.runHash) :
    AllOrNothing srv r.transfer (single (evalHandoff srv r)) s := by
  have ⟨fields, hr⟩ := evalHandoff_hash h ha hh
  apply (allOrNothing_ok (single_ok hr)).mpr
  apply Done.single h.stream hi hp
  case he => rw [entries_hashed hh, entries_acked, HandoffRequest.output]
  case ha =>
    intro key group j
    rw [pending_hashed hh, pending_acked, pending_added h.stream]

-- The acknowledgement sees the groups as they were before the entry was added.
theorem acknowledge_no_stream (h : s.canStream r.nextStream) (hs : ¬s.canStream r.currentStream) :
    r.acknowledge srv s = (.error wrongType, s.added r.nextStream r.output.fields) := by
  apply xack_no_stream
  have hne : r.currentStream ≠ r.nextStream := fun he => hs (he ▸ h)
  simpa [canStream_added, hne] using hs

theorem acknowledge_no_group (h : s.canStream r.nextStream) (hs : s.canStream r.currentStream)
    (hg : s.group? r.currentStream r.group = none) :
    r.acknowledge srv s = (.ok 0, s.added r.nextStream r.output.fields) := by
  apply xack_no_group
  case h => simp [canStream_added, hs]
  case hg => rw [group_added h, hg]

theorem acknowledge_invalid (h : s.canStream r.nextStream) (hg : s.group? r.currentStream r.group = some g)
    (hp : srv.parse r.currentMsgId = none) :
    r.acknowledge srv s = (.error invalidId, s.added r.nextStream r.output.fields) :=
  xack_invalid (group_added h ▸ hg) hp

theorem acknowledge_of_parse (h : s.canStream r.nextStream) (hg : s.group? r.currentStream r.group = some g)
    (hp : srv.parse r.currentMsgId = some i) :
    r.acknowledge srv s =
      (.ok (g.ack [i]).1, (s.added r.nextStream r.output.fields).acked r.currentStream r.group [i]) :=
  xack_of_parse (List.cons_ne_nil _ _) (group_added h ▸ hg) (by simp [hp])

theorem handoff_torn_of_ack_error (h : s.Addable r.nextStream)
    (ha : r.acknowledge srv s = (.error e, s.added r.nextStream r.output.fields)) :
    Torn srv r.transfer (single (evalHandoff srv r)) s :=
  ⟨_, _, single_error (evalHandoff_ack_error h ha), not_undone h.stream rfl⟩

theorem handoff_of_pending (h : s.Addable r.nextStream) (hg : s.group? r.currentStream r.group = some g)
    (hi : srv.parse r.currentMsgId = some i) (hp : (g.pending i).isSome) :
    Decides srv r.transfer (single (evalHandoff srv r)) s (s.canHash r.runHash ∧ r.runHash ≠ r.nextStream) := by
  have ha : r.acknowledge srv s = _ := xack_of_pending (group_added h.stream ▸ hg) hi hp
  have hh : ((s.added r.nextStream r.output.fields).acked r.currentStream r.group [i]).canHash r.runHash ↔
      s.canHash r.runHash ∧ r.runHash ≠ r.nextStream := by
    rw [canHash_acked, canHash_added]
    simp [and_comm]
  constructor
  case whole =>
    intro hc
    exact handoff_done h hi (by simpa [Db.pending, hg] using hp) ha (hh.mpr hc)
  case torn =>
    intro hc
    obtain ⟨e, hr⟩ := evalHandoff_no_hash h ha (mt hh.mp hc)
    exact ⟨e, _, single_error hr, not_undone h.stream entries_acked⟩

theorem evalHandoff_decides :
    Decides srv r.transfer (single (evalHandoff srv r)) s (s.Addable r.nextStream → r.Sound srv s) := by
  by_cases h : s.Addable r.nextStream
  case neg =>
    have ⟨_, hr⟩ := @evalHandoff_not_addable srv s r h
    exact .of_true (absurd · h) (allOrNothing_refused (single_error hr))
  case pos =>
    apply Decides.congr (imp_iff_right h).symm
    by_cases hs : s.canStream r.currentStream
    case neg => exact .of_false (hs ·.stream) (handoff_torn_of_ack_error h (acknowledge_no_stream h.stream hs))
    case pos =>
      cases hg : s.group? r.currentStream r.group
      case none =>
        have hp : ∀ i, s.pending r.currentStream r.group i = none := by simp [Db.pending, hg]
        apply Decides.of_true
        case hp => exact ⟨hs, by simp [hg], fun i _ hi => by simp [hp] at hi⟩
        case h => exact handoff_undone h (acknowledge_no_group h.stream hs hg) (by decide) rfl fun i _ => hp i
      case some g =>
        cases hi : srv.parse r.currentMsgId
        case none =>
          apply Decides.of_false
          case hp => exact fun hd => by simpa [hi] using hd.id (by simp [hg])
          case h => exact handoff_torn_of_ack_error h (acknowledge_invalid h.stream hg hi)
        case some i =>
          have hp : s.pending r.currentStream r.group i = g.pending i := by simp [Db.pending, hg]
          cases hpi : (g.pending i).isSome
          case true =>
            refine (handoff_of_pending h hg hi hpi).congr ⟨fun hc => ?_, fun hd => hd.hash i hi (hp ▸ hpi)⟩
            exact ⟨hs, by simp [hi], fun _ _ _ => hc⟩
          case false =>
            have hn : s.pending r.currentStream r.group i = none := hp.trans (by simpa using hpi)
            apply Decides.of_true
            case hp =>
              refine ⟨hs, by simp [hi], fun j hj hpj => ?_⟩
              cases hi.symm.trans hj
              simp [hn] at hpj
            case h =>
              apply handoff_undone h (acknowledge_of_parse h.stream hg hi)
              case hn => simp [Group.ack_none (hp ▸ hn)]
              case he => exact entries_acked
              case hp => exact fun j hj => Option.some.inj (hi.symm.trans hj) ▸ hn

structure HandoffRequest.Accepted (srv : Server) (r : HandoffRequest) (s : Db) : Prop where
  room : s.Addable r.nextStream
  pending : ∃ i, srv.parse r.currentMsgId = some i ∧ (s.pending r.currentStream r.group i).isSome
  hash : s.canHash r.runHash
  apart : r.runHash ≠ r.nextStream

theorem evalHandoff_accepted (h : r.Accepted srv s) : ∃ i s', (evalHandoff srv r).run s = (.ok i, s') := by
  obtain ⟨i, hi, hp⟩ := h.pending
  cases hg : s.group? r.currentStream r.group
  case none => simp [Db.pending, hg] at hp
  case some g =>
    have hp : (g.pending i).isSome := by simpa [Db.pending, hg] using hp
    have ha : r.acknowledge srv s = _ := xack_of_pending (group_added h.room.stream ▸ hg) hi hp
    obtain ⟨_, hr⟩ := evalHandoff_hash h.room ha (by rw [canHash_acked, canHash_added]; simp [h.hash, h.apart])
    exact ⟨_, _, hr⟩

theorem handoffMessageToRun_valid (hm : validateMessageContext m = .ok ())
    (hr : HandoffRequest.new ⟨m.stream, destStream, m.group, runId, payload, m.id, stage⟩ = .ok r) :
    handoffMessageToRun srv m destStream (some payload) (some stage) (some runId) = evalHandoff srv r := by
  simp only [handoffMessageToRun, Option.getD_some, hm, hr]
  rfl

end Handoff

-- The script that commits a finalization looks at everything that could go wrong before it writes.
section Commit

structure CommitRequest where
  message : Message
  destStream : String
  payload : String
  stage : String
  runId : String
  finalizationKey : String
  ownerToken : String
  recoveryKeys : List String
  consumer : String

variable {r : CommitRequest}

theorem run_forM_expire {keys : List String} : (keys.forM expire).run s = (.ok (), s) := by
  induction keys
  case nil => rfl
  case cons _ _ hi => exact (bind_ok rfl).trans hi

namespace CommitRequest

def call (srv : Server) (r : CommitRequest) : Script EntryId :=
  handoffToRunAndCommitForConsumer srv r.message r.destStream r.payload r.stage r.runId r.finalizationKey r.ownerToken
    r.recoveryKeys r.consumer

def output (r : CommitRequest) : ResolvedOutput :=
  ⟨r.destStream, r.runId, r.payload, r.stage⟩

def transfer (r : CommitRequest) : Transfer where
  sources := [⟨r.message.stream, r.message.group, r.message.id⟩]
  outputs := [r.output]

def runHash (r : CommitRequest) : String :=
  runHashPrefix ++ r.runId

-- What the script does once it has looked.
def writes (srv : Server) (r : CommitRequest) : Script EntryId := do
  let now ← time
  match ← Script.pcall (xadd r.destStream r.output.fields) with
  | .error e => .fail s!"XADD_FAILED:{e}"
  | .ok nextId =>
  match ← Script.pcall (hset r.runHash (stageFields r.stage now)) with
  | .error e => do
    let _ ← Script.pcall (xdel r.destStream nextId)
    .fail s!"HSET_FAILED:{e}"
  | .ok _ =>
  match ← Script.pcall (setEx r.finalizationKey ("committed:" ++ r.ownerToken)) with
  | .error e => do
    let _ ← Script.pcall (xdel r.destStream nextId)
    .fail s!"FINALIZATION_COMMIT_FAILED:{e}"
  | .ok _ => do
  let acked ← xack srv r.message.stream r.message.group [r.message.id]
  if acked ≠ 1 then do
    let _ ← Script.pcall (xdel r.destStream nextId)
    let _ ← Script.pcall (setEx r.finalizationKey r.ownerToken)
    .fail s!"XACK_FAILED:{acked}"
  else do
    r.recoveryKeys.forM expire
    return nextId

theorem call_eq : r.call srv = (do
  if (← get r.finalizationKey) ≠ some r.ownerToken then .fail "FINALIZATION_OWNER_MISMATCH" else
  match ← xpending srv r.message.stream r.message.group r.message.id with
  | none => .fail "SOURCE_MESSAGE_NOT_PENDING"
  | some (id, owner) =>
  if id ≠ r.message.id then .fail "SOURCE_MESSAGE_NOT_PENDING" else
  if owner ≠ r.consumer then .fail "SOURCE_MESSAGE_NOT_OWNED_BY_CONSUMER" else do
  let destinationType ← typeOf r.destStream
  if destinationType ≠ "none" ∧ destinationType ≠ "stream" then
    .fail ("DESTINATION_WRONG_TYPE:" ++ destinationType) else do
  let runHashType ← typeOf r.runHash
  if runHashType ≠ "none" ∧ runHashType ≠ "hash" then .fail ("RUN_HASH_WRONG_TYPE:" ++ runHashType) else
  r.writes srv) := rfl

-- What the script has found when it starts to write.
structure Committable (srv : Server) (r : CommitRequest) (s : Db) : Prop where
  finalization : ∃ text, s.keys r.finalizationKey = some (.string text)
  source : ∃ g i, s.group? r.message.stream r.message.group = some g ∧ srv.parse r.message.id = some i ∧
    (g.pending i).isSome
  destination : s.canStream r.destStream
  hash : s.canHash r.runHash

theorem writes_not_addable (h : ¬s.Addable r.destStream) : ∃ e, (r.writes srv).run s = (.error e, s) := by
  have ⟨e, he⟩ := xadd_of_not_addable r.output.fields h
  rw [writes, bind_ok (x := time) rfl, run_bind, run_pcall, he]
  exact ⟨_, rfl⟩

-- The hash is missing, and its key has just become the destination.
theorem writes_no_hash (h : s.Addable r.destStream) (hh : ¬(s.added r.destStream r.output.fields).canHash r.runHash) :
    ∃ e, (r.writes srv).run s =
      (.error e, ((xdel r.destStream (s.nextId r.destStream)).run (s.added r.destStream r.output.fields)).2) := by
  rw [writes, bind_ok (x := time) rfl, run_bind, run_pcall, xadd_of_addable h]
  dsimp only
  rw [run_bind, run_pcall, hset_of_not_canHash hh]
  exact ⟨_, rfl⟩

-- The state in which the message is acknowledged.
def committed (r : CommitRequest) (s : Db) : Db :=
  ((s.added r.destStream r.output.fields).hashed r.runHash (stageFields r.stage (toString (s.clock / 1000)))).set
    r.finalizationKey (.string ("committed:" ++ r.ownerToken))

theorem writes_acked (h : s.Addable r.destStream) (hh : (s.added r.destStream r.output.fields).canHash r.runHash)
    (ha : (xack srv r.message.stream r.message.group [r.message.id]).run (r.committed s) = (.ok 1, s')) :
    (r.writes srv).run s = (.ok (s.nextId r.destStream), s') := by
  rw [writes, bind_ok (x := time) rfl, run_bind, run_pcall, xadd_of_addable h]
  dsimp only
  rw [run_bind, run_pcall, hset_of_canHash hh]
  dsimp only
  rw [run_bind, run_pcall]
  dsimp only [setEx]
  rw [bind_ok (committed.eq_1 r s ▸ ha), if_neg (by decide), bind_ok run_forM_expire]
  rfl

-- The finalization key holds a string, so it is neither the stream nor the hash.
theorem committed_views (hc : r.Committable srv s) (hh : (s.added r.destStream r.output.fields).canHash r.runHash) :
    (r.committed s).entries = (s.added r.destStream r.output.fields).entries ∧ (r.committed s).group? = s.group? := by
  have ⟨text, hf⟩ := hc.finalization
  have hf : ((s.added r.destStream r.output.fields).hashed r.runHash
      (stageFields r.stage (toString (s.clock / 1000)))).keys r.finalizationKey = some (.string text) := by
    rw [hashed_keys_of_ne (ne_of_canHash hf hc.hash), added_keys_of_ne (ne_of_canStream hf hc.destination), hf]
  constructor
  case left => rw [committed, entries_set_string hf, entries_hashed hh]
  case right => rw [committed, group_set_string hf, group_hashed hh, group_added hc.destination]

theorem writes_allOrNothing (hc : r.Committable srv s) : AllOrNothing srv r.transfer (single (r.writes srv)) s := by
  by_cases h : s.Addable r.destStream
  case neg => exact allOrNothing_refused (single_error (writes_not_addable h).choose_spec)
  case pos =>
    by_cases hh : (s.added r.destStream r.output.fields).canHash r.runHash
    case neg =>
      apply (allOrNothing_error (single_error (writes_no_hash h hh).choose_spec)).mpr
      constructor
      case entries => exact entries_rollback h.stream rfl
      case pending => simp [pending_xdel, pending_added h.stream]
    case pos =>
      have ⟨g, i, hg, hi, hp⟩ := hc.source
      have ⟨he, hv⟩ := committed_views hc hh
      have ha := xack_of_pending (congrFun₂ hv _ _ ▸ hg) hi hp
      apply (allOrNothing_ok (single_ok (writes_acked h hh ha))).mpr
      apply Done.single h.stream hi
      case hp => simpa [Db.pending, hg] using hp
      case he => rw [entries_acked, he, output]
      case ha =>
        intro key group j
        rw [pending_acked, Db.pending, hv, Db.pending]

theorem call_cases : (∃ e, (r.call srv).run s = (.error e, s)) ∨
    r.Committable srv s ∧ (r.call srv).run s = (r.writes srv).run s := by
  rw [call_eq]
  cases read_cases run_get
  case inl h => exact .inl h
  case inr h =>
  have ⟨owner, howner, h⟩ := h
  rw [h]
  split
  case isTrue => exact .inl ⟨_, rfl⟩
  case isFalse ho =>
  cases not_ne_iff.mp ho
  cases read_cases run_xpending
  case inl h => exact .inl h
  case inr h =>
  have ⟨found, hfound, h⟩ := h
  rw [h]
  split
  case h_1 => exact .inl ⟨_, rfl⟩
  case h_2 =>
  have ⟨g, i, hg, hi, hp, _⟩ := xpending_eq_some hfound
  split
  case isTrue => exact .inl ⟨_, rfl⟩
  case isFalse =>
  split
  case isTrue => exact .inl ⟨_, rfl⟩
  case isFalse =>
  rw [bind_ok (x := typeOf r.destStream) rfl]
  split
  case isTrue => exact .inl ⟨_, rfl⟩
  case isFalse hd =>
  rw [bind_ok (x := typeOf r.runHash) rfl]
  split
  case isTrue => exact .inl ⟨_, rfl⟩
  case isFalse hr =>
  refine .inr ⟨?_, rfl⟩
  constructor
  case finalization => exact ⟨_, get_eq_some howner⟩
  case source => exact ⟨g, i, hg, hi, by simp [hp]⟩
  case destination => exact canStream_iff_typeName.mpr hd
  case hash => exact canHash_iff_typeName.mpr hr

theorem call_allOrNothing : AllOrNothing srv r.transfer (single (r.call srv)) s := by
  cases @call_cases srv s r
  case inl h =>
    have ⟨_, hr⟩ := h
    exact allOrNothing_refused (single_error hr)
  case inr h =>
    have ⟨hc, hr⟩ := h
    have hs : (single (r.call srv)).run s = (single (r.writes srv)).run s := by
      rw [single, single, run_bind, run_bind, hr]
    rw [AllOrNothing, hs]
    exact writes_allOrNothing hc

end CommitRequest

end Commit

end Queue
