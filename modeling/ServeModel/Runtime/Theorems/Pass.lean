import ServeModel.Queue.Theorems.Reply
import ServeModel.Runtime.Engine

-- Whether malformed entries make a difference to a pass.
namespace Engine

open Queue

variable {σ : Type} {host : Host σ} {w w' : World σ}

section Pass

variable {x : Pass σ α}

def eval (x : Pass σ α) (w : World σ) : Except Failure α × World σ :=
  x.run w

theorem eval_bind : eval (x >>= f) w = eval (ExceptT.mk (ExceptT.bindCont f (eval x w).1)) (eval x w).2 := rfl

theorem eval_ok (h : eval x w = (.ok a, w')) : eval (x >>= f) w = eval (f a) w' := by
  rw [eval_bind, h]
  rfl

theorem eval_error (h : eval x w = (.error e, w')) : eval (x >>= f) w = (.error e, w') := by
  rw [eval_bind, h]
  rfl

theorem eval_bind_congr (hx : eval x w = eval y w)
    (h : ∀ a w', eval x w = (.ok a, w') → eval (f a) w' = eval (g a) w') : eval (x >>= f) w = eval (y >>= g) w := by
  cases hr : eval x w
  case mk result w' =>
    cases result
    case error => rw [eval_error hr, eval_error (hx ▸ hr)]
    case ok a => rw [eval_ok hr, eval_ok (hx ▸ hr), h a w' hr]

def World.after (c : Call) (s : σ) (w : World σ) : World σ :=
  ⟨s, w.calls ++ [c]⟩

theorem eval_call :
    eval (call c act) w = (.ok (act w.state).1, w.after c (act w.state).2) := rfl

def Grows (x : Pass σ α) : Prop :=
  ∀ w, w.calls <+: (eval x w).2.calls

theorem Grows.pure : Grows (Pure.pure a : Pass σ α) :=
  fun _ => List.prefix_rfl

theorem Grows.throw : Grows (MonadExcept.throw e : Pass σ α) :=
  fun _ => List.prefix_rfl

theorem Grows.call : Grows (Engine.call c act) :=
  fun _ => List.prefix_append _ _

theorem Grows.bind (hx : Grows x) (hf : ∀ a, Grows (f a)) : Grows (x >>= f) := by
  intro w
  have hw := hx w
  cases hr : eval x w
  case mk result w' =>
    rw [hr] at hw
    cases result
    case error => rwa [eval_error hr]
    case ok a => exact eval_ok hr ▸ hw.trans (hf a w')

end Pass

section Growth

theorem grows_dispatchMessages {messages : List Message} : Grows (dispatchMessages host input messages stats) := by
  apply Grows.bind .call
  intro result
  cases result
  case error => exact .throw
  case ok => exact .pure

theorem grows_pollStream : Grows (pollStream host input) := by
  apply Grows.bind .call
  intro reply
  cases reply
  case error => exact .throw
  case ok => exact .pure

theorem grows_claimIdleMessages : Grows (claimIdleMessages host key group consumer minIdleMs start count) := by
  apply Grows.bind .call
  intro reply
  cases reply
  case ok =>
    dsimp only
    split
    case h_1 => exact .pure
    case h_2 => exact .throw
  case error =>
    dsimp only
    split
    case isTrue => exact .throw
    case isFalse =>
      apply Grows.bind .call
      intro reply
      cases reply
      case error => exact .throw
      case ok =>
        dsimp only
        split
        case isTrue => exact .pure
        case isFalse =>
          apply Grows.bind .call
          intro reply
          cases reply
          case error => exact .throw
          case ok => exact .pure

theorem grows_runInput : Grows (runInput host input stats) := by
  apply Grows.bind (.bind grows_claimIdleMessages fun _ => .pure)
  exact fun _ => .bind grows_dispatchMessages fun _ => .bind grows_pollStream fun _ => grows_dispatchMessages

theorem grows_runInputs : Grows (runInputs host inputs stats) := by
  induction inputs generalizing stats
  case nil => exact .pure
  case cons hi => exact .bind grows_runInput fun _ => hi

end Growth

section Clean

def clean : Command → RedisValue → RedisValue
  | .xautoclaim .. => cleanXautoclaim
  | .xpending .. => id
  | .xclaim .. => cleanXclaim
  | .xreadgroup .. => cleanXreadgroup

-- The same surroundings without malformed entries.
def Host.cleaned (host : Host σ) : Host σ :=
  { host with exec := fun c s => ((host.exec c s).1.map (clean c), (host.exec c s).2) }

-- The entries that are found when idle messages are claimed.
def window (host : Host σ) (c : Command) (s : σ) : List RedisValue :=
  match (host.exec c s).1 with
  | .ok val => claimedEntries val
  | .error _ => []

-- The claim that a pass makes for an input.
def idleClaim (host : Host σ) (input : InputStreamSpec) : Command :=
  .xautoclaim (streamKey host input.stream) (consumerGroupName input.stream) host.consumer input.reclaimIdleMs "0-0"
    input.maxDequeueItems

theorem eval_command_clean : eval (command host.cleaned c) w =
    (.ok ((host.exec c w.state).1.map (clean c)), w.after (.command c) (host.exec c w.state).2) := rfl

theorem eval_command : eval (command host c) w =
    (.ok (host.exec c w.state).1, w.after (.command c) (host.exec c w.state).2) := rfl

theorem eval_pollStream_clean : eval (pollStream host.cleaned input) w = eval (pollStream host input) w := by
  rw [pollStream, pollStream, eval_ok eval_command_clean, eval_ok eval_command]
  simp only [Host.cleaned, streamKey]
  cases (host.exec _ w.state).1
  case error => rfl
  case ok val => simp only [Except.map, clean, parseStreamMessages_clean]

section Claim

theorem eval_claimIdleMessages_clean
    (h : ∀ entry ∈ window host (.xautoclaim key group consumer minIdleMs start count) w.state, WellFormed entry) :
    eval (claimIdleMessages host.cleaned key group consumer minIdleMs start count) w =
      eval (claimIdleMessages host key group consumer minIdleMs start count) w := by
  rw [claimIdleMessages, claimIdleMessages, eval_ok eval_command_clean, eval_ok eval_command]
  unfold window at h
  cases hr : (host.exec (.xautoclaim key group consumer minIdleMs start count) w.state).1
  case ok val =>
    rw [hr] at h
    simp only [Except.map, clean, Host.cleaned, cleanXautoclaim_eq h]
  case error text =>
    simp only [Except.map]
    split
    case isTrue => rfl
    case isFalse =>
      rw [eval_ok eval_command_clean, eval_ok eval_command]
      cases (host.exec (.xpending key group count) _).1
      case error => rfl
      case ok pending =>
        simp only [Except.map, clean, id]
        split
        case isTrue => rfl
        case isFalse =>
          rw [eval_ok eval_command_clean, eval_ok eval_command]
          cases (host.exec (.xclaim key group consumer minIdleMs (parseXpendingIds pending)) _).1
          case error => rfl
          case ok val => simp only [Except.map, clean, Host.cleaned, parseXclaimMessages_clean]

-- A server that knows the command decides with its reply.
theorem eval_claimIdleMessages_of_reply
    (hv : (host.exec (.xautoclaim key group consumer minIdleMs start count) w.state).1 = .ok val)
    (hr : parseXautoclaimMessages host.json key group val = result) :
    eval (claimIdleMessages host key group consumer minIdleMs start count) w =
      (result.mapError fromQueue, w.after (.command (.xautoclaim key group consumer minIdleMs start count))
        (host.exec (.xautoclaim key group consumer minIdleMs start count) w.state).2) := by
  rw [claimIdleMessages, eval_ok eval_command, hv]
  simp only [hr]
  cases result
  case error | ok => rfl

-- Where there is a malformed entry, the clean host gets its messages, and the other one an error or others.
theorem eval_claimIdleMessages_malformed
    (h : ¬∀ entry ∈ window host (.xautoclaim key group consumer minIdleMs start count) w.state, WellFormed entry) :
    ∃ claimed w', eval (claimIdleMessages host.cleaned key group consumer minIdleMs start count) w = (.ok claimed, w') ∧
      ((∃ e, eval (claimIdleMessages host key group consumer minIdleMs start count) w = (.error e, w')) ∨
        ∃ claimed', eval (claimIdleMessages host key group consumer minIdleMs start count) w = (.ok claimed', w') ∧
          claimed'.2 ≠ claimed.2) := by
  unfold window at h
  split at h
  case h_2 => exact absurd (fun _ hm => nomatch hm) h
  case h_1 val hv =>
    have ⟨claimed, hc, hne⟩ := @parseXautoclaimMessages_malformed host.json key group val h
    have hv' : (host.cleaned.exec (.xautoclaim key group consumer minIdleMs start count) w.state).1 =
        .ok (cleanXautoclaim val) :=
      congrArg (Except.map (clean (.xautoclaim key group consumer minIdleMs start count))) hv
    refine ⟨claimed, _, eval_claimIdleMessages_of_reply hv' hc, ?_⟩
    cases hr : parseXautoclaimMessages host.json key group val
    case error e => exact .inl ⟨_, eval_claimIdleMessages_of_reply hv hr⟩
    case ok claimed' => exact .inr ⟨claimed', eval_claimIdleMessages_of_reply hv hr, hne claimed' hr⟩

theorem eval_claimIdleMessages_clean_iff :
    eval (claimIdleMessages host.cleaned key group consumer minIdleMs start count) w =
      eval (claimIdleMessages host key group consumer minIdleMs start count) w ↔
    ∀ entry ∈ window host (.xautoclaim key group consumer minIdleMs start count) w.state, WellFormed entry := by
  constructor
  case mpr => exact eval_claimIdleMessages_clean
  case mp =>
    intro he
    by_contra h
    have ⟨claimed, w', hc, hr⟩ := eval_claimIdleMessages_malformed h
    rw [hc] at he
    cases hr
    case inl hr =>
      have ⟨e, hr⟩ := hr
      cases he.trans hr
    case inr hr =>
      have ⟨claimed', hr, hne⟩ := hr
      cases he.trans hr
      exact hne rfl

end Claim

theorem eval_reclaimIdle_clean (h : ∀ entry ∈ window host (idleClaim host input) w.state, WellFormed entry) :
    eval (reclaimIdle host.cleaned input) w = eval (reclaimIdle host input) w :=
  eval_bind_congr (eval_claimIdleMessages_clean h) fun _ _ _ => rfl

theorem eval_reclaimIdle_malformed (h : ¬∀ entry ∈ window host (idleClaim host input) w.state, WellFormed entry) :
    ∃ messages w', eval (reclaimIdle host.cleaned input) w = (.ok messages, w') ∧
      ((∃ e, eval (reclaimIdle host input) w = (.error e, w')) ∨
        ∃ messages', eval (reclaimIdle host input) w = (.ok messages', w') ∧ messages' ≠ messages) := by
  have ⟨claimed, w', hc, hr⟩ := eval_claimIdleMessages_malformed h
  refine ⟨claimed.2, w', eval_ok hc, ?_⟩
  cases hr
  case inl hr =>
    have ⟨e, hr⟩ := hr
    exact .inl ⟨e, eval_error hr⟩
  case inr hr =>
    have ⟨claimed', hr, hne⟩ := hr
    exact .inr ⟨claimed'.2, eval_ok hr, hne⟩

end Clean

section Noninterference

variable {input : InputStreamSpec} {inputs : List InputStreamSpec} {stats : RunOnceStats}

-- A message that is dispatched has been recorded before anything else happens.
theorem dispatch_recorded {messages : List Message} (hf : ∀ a, Grows (f a)) :
    w.calls ++ [.dispatch input.stream messages] <+:
      (eval (dispatchMessages host input messages stats >>= f) w).2.calls := by
  have hd :
      (eval (dispatchMessages host input messages stats) w).2.calls = w.calls ++ [.dispatch input.stream messages] := by
    rw [dispatchMessages, eval_ok eval_call]
    cases (host.dispatch input messages stats w.state).1
    case error | ok => rfl
  cases hr : eval (dispatchMessages host input messages stats) w
  case mk result w' =>
    rw [hr] at hd
    rw [← hd]
    cases result
    case error => simp [eval_error hr]
    case ok a => exact eval_ok hr ▸ hf a w'

theorem not_prefix_of_ne (h : a ≠ b) (ha : calls ++ [a] <+: xs) :
    ¬calls ++ [b] <+: xs := by
  intro hb
  have ⟨ys, ha⟩ := ha
  have ⟨zs, hb⟩ := hb
  have he := ha.trans hb.symm
  rw [List.append_assoc, List.append_assoc, List.append_cancel_left_eq] at he
  exact h (List.cons.inj he).left

-- Once the idle messages differ, the passes never meet again.
theorem eval_reclaim_ne {f g : List Message → RunOnceStats} {k l : RunOnceStats → Pass σ α} (hk : ∀ a, Grows (k a))
    (hl : ∀ a, Grows (l a)) (h : ¬∀ entry ∈ window host (idleClaim host input) w.state, WellFormed entry) :
    eval (reclaimIdle host.cleaned input >>= fun m => dispatchMessages host.cleaned input m (f m) >>= k) w ≠
      eval (reclaimIdle host input >>= fun m => dispatchMessages host input m (g m) >>= l) w := by
  have ⟨messages, w', hc, hr⟩ := eval_reclaimIdle_malformed h
  intro he
  rw [eval_ok hc] at he
  have hp := @dispatch_recorded σ host.cleaned w' input (f messages) α k messages hk
  rw [he] at hp
  cases hr
  case inl hr =>
    have ⟨e, hr⟩ := hr
    rw [eval_error hr] at hp
    simpa using hp.length_le
  case inr hr =>
    have ⟨messages', hr, hne⟩ := hr
    rw [eval_ok hr] at hp
    apply not_prefix_of_ne _ (dispatch_recorded hl) hp
    intro hm
    injection hm with _ hm
    exact hne hm

theorem eval_dispatchMessages_clean {messages : List Message} :
    eval (dispatchMessages host.cleaned input messages stats) w =
      eval (dispatchMessages host input messages stats) w := rfl

theorem eval_runInput_clean (h : ∀ entry ∈ window host (idleClaim host input) w.state, WellFormed entry) :
    eval (runInput host.cleaned input stats) w = eval (runInput host input stats) w := by
  apply eval_bind_congr (eval_reclaimIdle_clean h)
  intro reclaimed w₁ _
  apply eval_bind_congr eval_dispatchMessages_clean
  intro stats w₂ _
  apply eval_bind_congr eval_pollStream_clean
  exact fun _ _ _ => eval_dispatchMessages_clean

-- Every entry that is found in a claim of the pass is well formed.
def Supplied (host : Host σ) : List InputStreamSpec → RunOnceStats → World σ → Prop
  | [], _, _ => True
  | input :: inputs, stats, w =>
    (∀ entry ∈ window host (idleClaim host input) w.state, WellFormed entry) ∧
      ∀ stats' w', eval (runInput host input stats) w = (.ok stats', w') → Supplied host inputs stats' w'

theorem eval_runInputs_clean_iff :
    eval (runInputs host.cleaned inputs stats) w = eval (runInputs host inputs stats) w ↔
      Supplied host inputs stats w := by
  induction inputs generalizing stats w
  case nil => exact iff_of_true rfl trivial
  case cons input inputs hi =>
    by_cases h : ∀ entry ∈ window host (idleClaim host input) w.state, WellFormed entry
    case neg =>
      apply iff_of_false _ (h ·.left)
      simp only [runInputs, runInput, bind_assoc]
      apply eval_reclaim_ne _ _ h
      case _ => exact fun _ => .bind grows_pollStream fun _ => .bind grows_dispatchMessages fun _ => grows_runInputs
      case _ => exact fun _ => .bind grows_pollStream fun _ => .bind grows_dispatchMessages fun _ => grows_runInputs
    case pos =>
      have hc := @eval_runInput_clean σ host w input stats h
      rw [runInputs, runInputs, Supplied]
      cases hr : eval (runInput host input stats) w
      case mk result w' =>
        cases result
        case error e =>
          rw [eval_error hr, eval_error (hc.trans hr)]
          exact iff_of_true rfl ⟨h, fun _ _ he => nomatch he⟩
        case ok stats' =>
          rw [eval_ok hr, eval_ok (hc.trans hr), hi]
          constructor
          case mp => exact fun hs => ⟨h, fun _ _ he => by cases he; exact hs⟩
          case mpr => exact fun hs => hs.right stats' w' rfl

-- The same for a whole pass, which starts with the background tasks.
def PassSupplied (host : Host σ) (inputs : List InputStreamSpec) (w : World σ) : Prop :=
  (host.backgroundTasks w.state).1 = .ok () →
    Supplied host inputs {} (w.after .backgroundTasks (host.backgroundTasks w.state).2)

theorem eval_runWithInputs_clean_iff :
    eval (runWithInputs host.cleaned inputs) w = eval (runWithInputs host inputs) w ↔ PassSupplied host inputs w := by
  rw [runWithInputs, runWithInputs, eval_ok eval_call, eval_ok eval_call, PassSupplied]
  simp only [Host.cleaned]
  cases (host.backgroundTasks w.state).1
  case error => exact iff_of_true rfl fun h => nomatch h
  case ok => exact eval_runInputs_clean_iff.trans (imp_iff_right rfl).symm

end Noninterference

-- Two of the readers drop what is malformed, and the third one fails. So malformed entries make no difference to the
-- claims and to the pass exactly if none is claimed.
theorem malformed_entries_harmless_iff (json : String → Option Json) (stream group : String) (items : List RedisValue)
    (host : Host σ) (w : World σ) (key consumer start : String) (minIdleMs count : Nat)
    (inputs : List InputStreamSpec) :
    (∃ entries, List.Forall₂ Describes (items.filter WellFormed) entries ∧
      (∀ name, parseStreamMessages json stream group (.array [.array [name, .array items]]) =
        entries.map (toMessage json stream group)) ∧
      parseXclaimMessages json stream group (.array items) = entries.map (toMessage json stream group) ∧
      ∀ nextStartId rest, parseXautoclaimMessages json stream group
          (.array (.simpleString nextStartId :: .array items :: rest)) =
        .ok (nextStartId, entries.map (toMessage json stream group)) ↔ ∀ entry ∈ items, WellFormed entry) ∧
    (eval (claimIdleMessages host.cleaned key group consumer minIdleMs start count) w =
        eval (claimIdleMessages host key group consumer minIdleMs start count) w ↔
      ∀ entry ∈ window host (.xautoclaim key group consumer minIdleMs start count) w.state, WellFormed entry) ∧
    (eval (runWithInputs host.cleaned inputs) w = eval (runWithInputs host inputs) w ↔ PassSupplied host inputs w) := by
  refine ⟨?_, eval_claimIdleMessages_clean_iff, eval_runWithInputs_clean_iff⟩
  refine ⟨items.filterMap parseMessageEntry, forall₂_describes, fun key => ?_, rfl, fun nextStartId rest => ?_⟩
  · simp [parseStreamMessages, parseStreamEntries, extractStreamMessages]
  · exact parseXautoclaimMessages_eq_iff rfl

-- A worker with two inputs. The first one has an entry without fields between two good ones.
def text (s : String) : RedisValue :=
  .simpleString s

def goodEntry (id : String) : RedisValue :=
  .array [text id, .array [text "run_id", text "r", text "payload", text "1"]]

def poisoned : RedisValue :=
  .array [text "2-0", .array []]

def inputOf (stream : String) : InputStreamSpec where
  stream := stream
  maxDequeueItems := 10
  blockMs := 0
  reclaimIdleMs := 60000

-- The state is not needed: the replies are always the same.
def poisonedHost : Host Unit where
  exec c _ :=
    match c with
    | .xautoclaim key .. =>
      (.ok (.array [text "0-0", .array (if key = "a" then [goodEntry "1-0", poisoned, goodEntry "3-0"] else [])]), ())
    | _ => (.ok .nil, ())
  backgroundTasks _ := (.ok (), ())
  dispatch _ _ stats _ := (.ok stats, ())
  json _ := none
  keyStart := ""
  consumer := "c"

-- The second input is neither reclaimed nor polled, and the good entries are not dispatched either. Without the
-- entry the pass does all of that.
theorem malformed_entry_stops_pass :
    (∃ e, eval (runWithInputs poisonedHost [inputOf "a", inputOf "b"]) ⟨(), []⟩ =
      (.error e, ⟨(), [.backgroundTasks, .command (idleClaim poisonedHost (inputOf "a"))]⟩)) ∧
    (∃ stats, (eval (runWithInputs poisonedHost.cleaned [inputOf "a", inputOf "b"]) ⟨(), []⟩).1 = .ok stats ∧
      stats.polled = 2) ∧
    parseXclaimMessages poisonedHost.json "a" "a:grp" (.array [goodEntry "1-0", poisoned, goodEntry "3-0"]) =
      parseXclaimMessages poisonedHost.json "a" "a:grp" (.array [goodEntry "1-0", goodEntry "3-0"]) := by
  refine ⟨⟨_, rfl⟩, ⟨_, rfl, ?_⟩, rfl⟩
  decide +kernel

end Engine
