import ServeModel.Queue.Theorems.ForwardMany

-- Handing a message on succeeds at most once, whatever the consumers of its stream do.
namespace Queue

open Redis

inductive Handoff
  | handoff (request : HandoffRequest)
  | forwardMany (messages : List Message) (outputs : List Output)
  | commit (request : CommitRequest)

namespace Handoff

variable {srv : Server} {s s' : Db} {h : Handoff}

def call (srv : Server) : Handoff → Script (List EntryId)
  | handoff request => single (evalHandoff srv request)
  | forwardMany messages outputs => forwardManyFrom srv messages outputs
  | commit request => single (request.call srv)

def transfer : Handoff → Transfer
  | handoff request => request.transfer
  | forwardMany messages outputs => forwardTransfer messages (resolveOutputs messages outputs)
  | commit request => request.transfer

-- The condition under which the call does not stop half way.
def Safe (srv : Server) (s : Db) : Handoff → Prop
  | handoff request => s.Addable request.nextStream → request.Sound srv s
  | forwardMany messages outputs => ForwardSound srv messages outputs s
  | commit _ => True

theorem decides : Decides srv h.transfer (h.call srv) s (h.Safe srv s) := by
  cases h
  case handoff => exact evalHandoff_decides
  case forwardMany => exact forwardManyFrom_decides
  case commit => exact .of_true trivial CommitRequest.call_allOrNothing

end Handoff

-- No handoff makes a group forget what it has handed out.
section Advances

open Script.Advances

variable {srv : Server}

theorem advances_single (h : x.Advances) : (single x).Advances :=
  bind h fun _ => pure

theorem advances_ofExcept : (ofExcept result).Advances := by
  cases result
  case error => exact fail
  case ok => exact pure

theorem advances_evalHandoff : (evalHandoff srv r).Advances := by
  rw [evalHandoff_eq]
  refine bind (of_read fun _ => rfl) fun now => bind advances_xadd fun _ => bind advances_xack fun acked => ite ?_ ?_
  · exact bind (pcall advances_xdel) fun _ => fail
  · refine bind (pcall advances_hset) fun stored => ?_
    cases stored
    case error => exact fail
    case ok => exact pure

namespace ForwardMany

theorem advances_nth : (nth xs i).Advances := by
  unfold nth
  split
  case h_1 => exact pure
  case h_2 => exact fail

theorem advances_checkSources : (checkSources srv argv stream group i n).Advances := by
  induction n generalizing i
  case zero => exact pure
  case succ n hi =>
    refine bind advances_nth fun id => bind (of_read fun _ => run_xpending) fun found => ?_
    split
    case h_1 => exact fail
    case h_2 => exact ite fail (bind hi fun _ => pure)

theorem advances_checkDestinations : (checkDestinations keys i n).Advances := by
  induction n generalizing i
  case zero => exact pure
  case succ n hi => exact bind advances_nth fun _ => bind (of_read fun _ => rfl) fun _ => ite fail hi

theorem advances_addAll : (addAll now outputs).Advances := by
  induction outputs
  case nil => exact pure
  case cons o outputs hi => exact bind advances_xadd fun _ => bind advances_hset fun _ => bind hi fun _ => pure

theorem advances_rollback : (rollback keys i ids).Advances := by
  induction ids generalizing i
  case nil => exact pure
  case cons id ids hi => exact bind advances_nth fun _ => bind (pcall advances_xdel) fun _ => hi

end ForwardMany

open ForwardMany in
theorem advances_evalForwardMany {messages : List Message} :
    (evalForwardMany srv message messages outputs).Advances := by
  rw [evalForwardMany_eq]
  refine bind advances_checkSources fun ids => bind advances_checkDestinations fun _ =>
    bind (of_read fun _ => rfl) fun now => bind advances_addAll fun next => ?_
  have hu : (unpack srv ids).Advances := ite pure fail
  exact bind hu fun _ => bind advances_xack fun _ => ite (bind advances_rollback fun _ => fail) pure

theorem advances_forwardManyFrom {messages : List Message} :
    (forwardManyFrom srv messages outputs).Advances := by
  refine bind advances_ofExcept fun _ => bind advances_ofExcept fun _ => ?_
  cases messages
  case nil => exact fail
  case cons => exact advances_evalForwardMany

-- The string that a commit replaces is found before, so this script has to be looked at as a whole.
theorem CommitRequest.advances_call {r : CommitRequest} : (r.call srv).Advances := by
  intro s
  cases @call_cases srv s r
  case inl h =>
    have ⟨_, hr⟩ := h
    exact hr ▸ .refl
  case inr h =>
    have ⟨hc, hr⟩ := h
    rw [hr]
    by_cases ha : s.Addable r.destStream
    case neg =>
      have ⟨_, hr⟩ := @writes_not_addable srv s r ha
      exact hr ▸ .refl
    case pos =>
      by_cases hh : (s.added r.destStream r.output.fields).canHash r.runHash
      case neg =>
        have ⟨_, hr⟩ := @writes_no_hash srv s r ha hh
        rw [hr]
        exact .of_group (group_xdel.trans (group_added ha.stream))
      case pos =>
        have ⟨g, i, hg, hi, hp⟩ := hc.source
        have ⟨_, hv⟩ := committed_views hc hh
        rw [writes_acked ha hh (xack_of_pending (congrFun₂ hv _ _ ▸ hg) hi hp)]
        exact (Db.Later.of_group hv).trans later_acked

theorem Handoff.advances {h : Handoff} : (h.call srv).Advances := by
  cases h
  case handoff => exact advances_single advances_evalHandoff
  case forwardMany => exact advances_forwardManyFrom
  case commit => exact advances_single CommitRequest.advances_call

end Advances

-- What the consumers and producers of streams do, one command at a time. The other keys change as they like.
inductive Event
  | handoff (h : Handoff)
  | enqueue (key : String) (fields : EntryFields)
  | dequeue (key group consumer : String) (count : Nat)
  | claim (key group consumer : String) (chosen : EntryId → Bool)
  | ack (key group id : String)
  | createGroup (key group : String) (start : EntryId) (mkstream : Bool)
  | delete (key : String) (id : EntryId)
  | write (key : String) (value : Option Value)
  | elapse (ms : Nat)

namespace Event

variable {srv : Server} {s s' : Db} {key group : String} {i : EntryId} {e : Event} {es : List Event}

def isStream : Option Value → Bool
  | some (.stream _) => true
  | _ => false

def step (srv : Server) (s : Db) : Event → Db
  | handoff h => ((h.call srv).run s).2
  | enqueue key fields => ((xadd key fields).run s).2
  | dequeue key group consumer count => ((xreadgroup key group consumer count).run s).2
  | claim key group consumer chosen => ((xclaim key group consumer chosen).run s).2
  | ack key group id => ((xack srv key group [id]).run s).2
  | createGroup key group start mkstream => ((xgroupCreate key group start mkstream).run s).2
  | delete key id => ((xdel key id).run s).2
  | write key value =>
    if isStream (s.keys key) || isStream value then s else { s with keys := Function.update s.keys key value }
  | elapse ms => { s with clock := s.clock + ms }

theorem group_eq_none (h : isStream (s.keys key) = false) : s.group? key group = none := by
  unfold Db.group?
  split
  case h_1 hk => simp [isStream, hk] at h
  case h_2 => rfl

theorem later_step : s.Later (e.step srv s) := by
  cases e
  case handoff => exact Handoff.advances s
  case enqueue => exact advances_xadd s
  case dequeue => exact advances_xreadgroup s
  case claim => exact advances_xclaim s
  case ack => exact advances_xack s
  case createGroup => exact advances_xgroupCreate s
  case delete => exact advances_xdel s
  case elapse => exact .of_group rfl
  case write k value =>
    rw [step]
    split
    case isTrue => exact .refl
    case isFalse h =>
      have ⟨hs, hv⟩ : isStream (s.keys k) = false ∧ isStream value = false := by simpa using h
      apply Db.Later.of_group
      funext key group
      by_cases hk : key = k
      case pos =>
        rw [hk, group_eq_none hs]
        exact group_eq_none (by simpa using hv)
      case neg => simp [Db.group?, hk]

-- The event is a handoff of this message, and it succeeds.
def HandsOn (srv : Server) (key group : String) (i : EntryId) (s : Db) : Event → Prop
  | handoff h => h.transfer.IsSource srv key group i ∧ ((h.call srv).run s).1.isOk
  | _ => False

instance : Decidable (HandsOn srv key group i s e) :=
  match e with
  | handoff h => inferInstanceAs (Decidable ((∃ source ∈ h.transfer.sources,
      source.stream = key ∧ source.group = group ∧ srv.parse source.id = some i) ∧ ((h.call srv).run s).1.isOk))
  | enqueue .. | dequeue .. | claim .. | ack .. | createGroup .. | delete .. | write .. | elapse .. =>
    inferInstanceAs (Decidable False)

def handed (srv : Server) (key group : String) (i : EntryId) : Db → List Event → Nat
  | _, [] => 0
  | s, e :: es => handed srv key group i (e.step srv s) es + if e.HandsOn srv key group i s then 1 else 0

theorem HandsOn.settles (h : e.HandsOn srv key group i s) :
    (s.pending key group i).isSome ∧ (e.step srv s).Settled key group i := by
  cases e
  case handoff call =>
    have ⟨hs, hok⟩ := h
    cases hr : (call.call srv).run s
    case mk result s' =>
      cases result
      case error => simp [hr, Except.isOk, Except.toBool] at hok
      case ok ids =>
        have hd := call.decides.done hr
        have ⟨source, hm, hk, hg, hi⟩ := hs
        have ⟨j, hj, hp⟩ := hd.pending source hm
        cases hi.symm.trans hj
        have hp : (s.pending key group i).isSome := hk ▸ hg ▸ hp
        have hl : s.Later s' := by simpa [hr] using (@Handoff.advances srv call) s
        refine ⟨hp, ?_⟩
        rw [step, hr]
        exact .of_pending hp hl (hd.acked key group i hs)
  all_goals exact h.elim

theorem handed_of_settled (h : s.Settled key group i) : handed srv key group i s es = 0 := by
  induction es generalizing s
  case nil => rfl
  case cons e es hi =>
    have hn : ¬e.HandsOn srv key group i s := fun he => by simpa [h.not_pending] using he.settles.left
    rw [handed, if_neg hn, hi (h.later later_step)]

theorem handed_le_one : handed srv key group i s es ≤ 1 := by
  induction es generalizing s
  case nil => exact Nat.zero_le _
  case cons e es hi =>
    rw [handed]
    split
    case isTrue h => rw [handed_of_settled h.settles.right]
    case isFalse h => exact hi

end Event

-- Handoffs are all or nothing exactly under their conditions. A handoff that succeeds has done all it was asked,
-- and no message is handed on twice.
theorem handoff_whole_iff (srv : Server) :
    (∀ (h : Handoff) (s : Db), AllOrNothing srv h.transfer (h.call srv) s ↔ h.Safe srv s) ∧
    (∀ (h : Handoff) (s s' : Db) (ids : List EntryId), (h.call srv).run s = (.ok ids, s') →
      Done srv h.transfer ids s s') ∧
    (∀ (key group : String) (i : EntryId) (s : Db) (es : List Event), Event.handed srv key group i s es ≤ 1) := by
  refine ⟨fun h s => h.decides.allOrNothing_iff, fun h s s' ids hr => h.decides.done hr, fun key group i s es => ?_⟩
  exact Event.handed_le_one

open List in
-- Redis writes an id as its milliseconds and a number within them.
def decimalServer : Server where
  text i := toString (i / 2 ^ 64) ++ "-" ++ toString (i % 2 ^ 64)
  parse text :=
    match text.toList.takeWhile Char.isDigit, text.toList.dropWhile Char.isDigit with
    | d :: ms, '-' :: seq =>
      if seq ≠ [] ∧ seq.all Char.isDigit then
        some (2 ^ 64 * Nat.ofDigitChars 10 (d :: ms) 0 + Nat.ofDigitChars 10 seq 0)
      else none
    | _, _ => none
  parse_text i := by
    have ht : (toString (i / 2 ^ 64) ++ "-" ++ toString (i % 2 ^ 64)).toList =
        Nat.toDigits 10 (i / 2 ^ 64) ++ '-' :: Nat.toDigits 10 (i % 2 ^ 64) := by
      simp [ToString.toString, Nat.toList_repr]
    have hm := all_eq_true.mp (all_isDigit_toDigits (n := i / 2 ^ 64))
    have ⟨d, ms, hd⟩ := exists_cons_of_ne_nil (Nat.toDigits_ne_nil (n := i / 2 ^ 64) (b := 10))
    rw [ht, takeWhile_append_of_pos hm, dropWhile_append_of_pos hm]
    simp only [show Char.isDigit '-' = false from rfl, takeWhile_cons, dropWhile_cons, Bool.false_eq_true, if_false,
      append_nil, hd]
    rw [if_pos ⟨Nat.toDigits_ne_nil, all_isDigit_toDigits⟩, ← hd,
      Nat.ofDigitChars_toDigits (by decide) (by decide), Nat.ofDigitChars_toDigits (by decide) (by decide),
      Nat.div_add_mod]
  unpackLimit := 8000

-- A message that is waiting in a stream, and a run whose key holds a string.
def waitingGroup : Redis.Group where
  lastDelivered := 1
  pending i := if i = 1 then some "consumer" else none
  delivered := by
    intro i h
    split at h
    case isTrue hi => exact Nat.le_of_eq hi
    case isFalse => cases h

def waitingStream : Stream where
  entries := [(1, entryFields "r" "{}" "a")]
  lastId := 1
  groups := fun name => if name = "workers" then some waitingGroup else none
  bounded := by simp

def brokenDb : Db where
  keys key :=
    if key = "stream:a" then some (.stream waitingStream)
    else if key = "run:r" then some (.string "")
    else none
  clock := 0

def brokenRequest : HandoffRequest where
  currentStream := "stream:a"
  nextStream := "stream:b"
  group := "workers"
  runId := "r"
  payloadJson := "{}"
  currentMsgId := "0-1"
  nextStage := "b"

-- The message is acknowledged and its entry is on the next stream, but the call reports an error.
theorem handoff_fails_half_way :
    ∃ s', ((Handoff.handoff brokenRequest).call decimalServer).run brokenDb =
        (.error ("HSET_FAILED:" ++ wrongType), s') ∧
      brokenDb.pending "stream:a" "workers" 1 = some "consumer" ∧ s'.pending "stream:a" "workers" 1 = none ∧
      brokenDb.entries "stream:b" = [] ∧ s'.entries "stream:b" = [(1, entryFields "r" "{}" "b")] ∧
      ¬AllOrNothing decimalServer (Handoff.handoff brokenRequest).transfer
        ((Handoff.handoff brokenRequest).call decimalServer) brokenDb := by
  refine ⟨_, rfl, rfl, rfl, rfl, rfl, ?_⟩
  intro ha
  have hu := (allOrNothing_error rfl).mp ha
  have := congrFun hu.entries "stream:b"
  cases this

end Queue
