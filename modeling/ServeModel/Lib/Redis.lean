import Mathlib.Algebra.Group.Nat.Defs
import Mathlib.Order.Basic
import Mathlib.Tactic.Common

-- The part of a Redis server that scripts over streams see. A script runs alone, but what it has written
-- before it fails stays written.
namespace Redis

-- The two 64-bit halves of an entry id as one number.
abbrev EntryId := Nat

def idLimit : Nat := 2 ^ 128

-- The first id of a millisecond.
def idOfTime (clock : Nat) : EntryId := 2 ^ 64 * clock

abbrev EntryFields := List (String × String)

-- The entries that a group has handed out and that nobody has acknowledged yet, with their consumers. Only
-- entries that have been delivered can be pending.
structure Group where
  lastDelivered : EntryId
  pending : EntryId → Option String
  delivered : ∀ id, (pending id).isSome → id ≤ lastDelivered

-- Ids grow, also past entries that have been deleted.
structure Stream where
  entries : List (EntryId × EntryFields)
  lastId : EntryId
  groups : String → Option Group
  bounded : ∀ entry ∈ entries, entry.1 ≤ lastId

inductive Value
  | string (text : String)
  | hash (fields : String → Option String)
  | stream (s : Stream)
  | list
  | set
  | zset

-- The keys, and the time in milliseconds.
structure Db where
  keys : String → Option Value
  clock : Nat

-- What is left open about a server: how ids are written, and how many values a Lua call can unpack.
structure Server where
  text : EntryId → String
  parse : String → Option EntryId
  parse_text : ∀ id, parse (text id) = some id
  unpackLimit : Nat

structure Script (α : Type) where
  run : Db → Except String α × Db

namespace Script

variable {α β : Type} {s s' : Db}

instance : Monad Script where
  pure a := ⟨fun s => (.ok a, s)⟩
  bind x f := ⟨fun s =>
    match x.run s with
    | (.ok a, s') => (f a).run s'
    | (.error e, s') => (.error e, s')⟩

-- An error reply, and an error that `redis.call` raises.
def fail (e : String) : Script α where
  run s := (.error e, s)

-- `redis.pcall`: the error is a value that the script may look at.
def pcall (x : Script α) : Script (Except String α) where
  run s := (.ok (x.run s).1, (x.run s).2)

@[simp]
theorem run_pure : (pure a : Script α).run s = (.ok a, s) := rfl

@[simp]
theorem run_fail : (fail e : Script α).run s = (.error e, s) := rfl

@[simp]
theorem run_pcall : (pcall x).run s = (.ok (x.run s).1, (x.run s).2) := rfl

@[simp]
theorem pure_bind {f : α → Script β} : (pure a >>= f) = f a := rfl

theorem run_bind {x : Script α} :
    (x >>= f).run s = match x.run s with | (.ok a, s') => (f a).run s' | (.error e, s') => (.error e, s') := rfl

theorem bind_ok {x : Script α} (h : x.run s = (.ok a, s')) : (x >>= f).run s = (f a).run s' := by
  rw [run_bind, h]

theorem bind_error {x : Script α} (h : x.run s = (.error e, s')) :
    (x >>= f).run s = (.error e, s') := by
  rw [run_bind, h]

-- A command that only looks is refused, or the script goes on with its reply.
theorem read_cases {x : Script α} (hx : (x.run s).2 = s) :
    (∃ e, (x >>= f).run s = (.error e, s)) ∨ ∃ a, x.run s = (.ok a, s) ∧ (x >>= f).run s = (f a).run s := by
  cases hr : x.run s
  case mk result s' =>
    have hs : s' = s := by simpa [hr] using hx
    subst hs
    cases result
    case error e => exact .inl ⟨e, bind_error hr⟩
    case ok a => exact .inr ⟨a, rfl, bind_ok hr⟩

theorem bind_pure_snd {x : Script α} {f : α → β} : ((x >>= fun a => pure (f a)).run s).2 = (x.run s).2 := by
  cases h : x.run s
  case mk result s' =>
    cases result
    case error => rw [bind_error h]
    case ok => rw [bind_ok h, run_pure]

end Script

def wrongType : String := "WRONGTYPE Operation against a key holding the wrong kind of value"
def invalidId : String := "ERR Invalid stream ID specified as stream command argument"
def exhausted : String := "ERR The stream has exhausted the last possible ID, unable to add more items"
def busyGroup : String := "BUSYGROUP Consumer Group name already exists"
def noKey : String := "ERR The XGROUP subcommand requires the key to exist"
def noGroup : String := "NOGROUP No such key or consumer group"
def arity : String := "ERR wrong number of arguments"
def unpacked : String := "too many results to unpack"

def Value.typeName : Option Value → String
  | none => "none"
  | some (string _) => "string"
  | some (hash _) => "hash"
  | some (stream _) => "stream"
  | some list => "list"
  | some set => "set"
  | some zset => "zset"

section Streams

theorem le_foldl_max {ids : List Nat} : n ≤ ids.foldl max n ∧ ∀ id ∈ ids, id ≤ ids.foldl max n := by
  induction ids generalizing n
  case nil => simp
  case cons i ids hi =>
    have ⟨hn, hm⟩ := @hi (max n i)
    refine ⟨Nat.le_trans (Nat.le_max_left _ _) hn, List.forall_mem_cons.mpr ⟨?_, hm⟩⟩
    exact Nat.le_trans (Nat.le_max_right _ _) hn

def Group.remove (id : EntryId) (g : Group) : Group where
  lastDelivered := g.lastDelivered
  pending := Function.update g.pending id none
  delivered := by
    intro id' h
    by_cases hi : id' = id
    case pos => simp [hi] at h
    case neg => exact g.delivered id' (by simpa [hi] using h)

-- How many of the ids were pending, and the group without them.
def Group.ack : List EntryId → Group → Nat × Group
  | [], g => (0, g)
  | id :: ids, g =>
    if (g.pending id).isSome then ((ack ids (g.remove id)).1 + 1, (ack ids (g.remove id)).2) else ack ids g

def Group.deliver (consumer : String) (ids : List EntryId) (g : Group) : Group where
  lastDelivered := ids.foldl max g.lastDelivered
  pending := fun id => if id ∈ ids then some consumer else g.pending id
  delivered := by
    intro id h
    split at h
    case isTrue hm => exact le_foldl_max.right id hm
    case isFalse => exact Nat.le_trans (g.delivered id h) le_foldl_max.left

-- Handing pending entries to another consumer. Those that have been deleted are forgotten.
def Group.claim (consumer : String) (chosen alive : EntryId → Bool) (g : Group) : Group where
  lastDelivered := g.lastDelivered
  pending := fun id => (g.pending id).bind fun owner =>
    if chosen id then if alive id then some consumer else none else some owner
  delivered := by
    intro id h
    have ⟨_, h⟩ := Option.isSome_iff_exists.mp h
    have ⟨_, h, _⟩ := Option.bind_eq_some_iff.mp h
    exact g.delivered id (by simp [h])

def Group.new (start : EntryId) : Group where
  lastDelivered := start
  pending := fun _ => none
  delivered := by simp

def Stream.empty : Stream where
  entries := []
  lastId := 0
  groups := fun _ => none
  bounded := by simp

-- The id of the next entry: the current time, unless the stream has got ahead of it.
def Stream.nextId (clock : Nat) (s : Stream) : EntryId :=
  max (idOfTime clock) (s.lastId + 1)

theorem Stream.lastId_lt_nextId {s : Stream} : s.lastId < s.nextId clock :=
  Nat.lt_of_lt_of_le (Nat.lt_succ_self _) (Nat.le_max_right _ _)

def Stream.append (clock : Nat) (fields : EntryFields) (s : Stream) : Stream where
  entries := s.entries ++ [(s.nextId clock, fields)]
  lastId := s.nextId clock
  groups := s.groups
  bounded := by
    intro entry he
    cases List.mem_append.mp he
    case inl he => exact Nat.le_of_lt (Nat.lt_of_le_of_lt (s.bounded entry he) lastId_lt_nextId)
    case inr he => simp [List.mem_singleton.mp he]

def Stream.delete (id : EntryId) (s : Stream) : Stream where
  entries := s.entries.filter (·.1 ≠ id)
  lastId := s.lastId
  groups := s.groups
  bounded := fun entry he => s.bounded entry (List.mem_filter.mp he).left

def Stream.setGroup (name : String) (g : Group) (s : Stream) : Stream :=
  { s with groups := Function.update s.groups name (some g) }

end Streams

section Commands

def Db.set (key : String) (v : Value) (s : Db) : Db :=
  { s with keys := Function.update s.keys key (some v) }

-- The seconds of `TIME`.
def time : Script String where
  run s := (.ok (toString (s.clock / 1000)), s)

def typeOf (key : String) : Script String where
  run s := (.ok (Value.typeName (s.keys key)), s)

def get (key : String) : Script (Option String) where
  run s :=
    match s.keys key with
    | none => (.ok none, s)
    | some (.string text) => (.ok (some text), s)
    | some _ => (.error wrongType, s)

-- `SET` replaces a value of any type. Its time to live is not kept.
def setEx (key text : String) : Script Unit where
  run s := (.ok (), s.set key (.string text))

-- `EXPIRE`, of which nothing is kept.
def expire (_ : String) : Script Unit :=
  pure ()

def setAll (fields : EntryFields) (h : String → Option String) : String → Option String :=
  fields.foldl (fun h field => Function.update h field.1 (some field.2)) h

def hset (key : String) (fields : EntryFields) : Script Unit where
  run s :=
    match s.keys key with
    | none => (.ok (), s.set key (.hash (setAll fields fun _ => none)))
    | some (.hash h) => (.ok (), s.set key (.hash (setAll fields h)))
    | some _ => (.error wrongType, s)

-- The stream that an entry would be added to.
def Db.openStream (s : Db) (key : String) : Option Stream :=
  match s.keys key with
  | none => some .empty
  | some (.stream st) => some st
  | some _ => none

def xadd (key : String) (fields : EntryFields) : Script EntryId where
  run s :=
    match s.openStream key with
    | none => (.error wrongType, s)
    | some st =>
      if st.nextId s.clock < idLimit then
        (.ok (st.nextId s.clock), s.set key (.stream (st.append s.clock fields)))
      else (.error exhausted, s)

def xdel (key : String) (id : EntryId) : Script Unit where
  run s :=
    match s.keys key with
    | none => (.ok (), s)
    | some (.stream st) => (.ok (), s.set key (.stream (st.delete id)))
    | some _ => (.error wrongType, s)

def Db.canStream (s : Db) (key : String) : Bool :=
  (s.openStream key).isSome

def Db.group? (s : Db) (key group : String) : Option Group :=
  match s.keys key with
  | some (.stream st) => st.groups group
  | _ => none

def Db.acked (key group : String) (ids : List EntryId) (s : Db) : Db :=
  match s.keys key with
  | some (.stream st) =>
    match st.groups group with
    | some g => s.set key (.stream (st.setGroup group (g.ack ids).2))
    | none => s
  | _ => s

-- The group of a stream, and the stream around it.
def onGroup (key group : String) (act : Stream → Group → α × Group) : Script α where
  run s :=
    match s.keys key with
    | none => (.error noGroup, s)
    | some (.stream st) =>
      match st.groups group with
      | none => (.error noGroup, s)
      | some g => (.ok (act st g).1, s.set key (.stream (st.setGroup group (act st g).2)))
    | some _ => (.error wrongType, s)

-- `XREADGROUP` of new entries. A count of 0 is no limit.
def xreadgroup (key group consumer : String) (count : Nat) : Script (List (EntryId × EntryFields)) :=
  onGroup key group fun st g =>
    let fresh := st.entries.filter (g.lastDelivered < ·.1)
    let batch := if count = 0 then fresh else fresh.take count
    (batch, g.deliver consumer (batch.map (·.1)))

-- `XCLAIM` and `XAUTOCLAIM` of the pending entries that are chosen, which is decided by how long they are idle.
def xclaim (key group consumer : String) (chosen : EntryId → Bool) : Script (List (EntryId × EntryFields)) :=
  onGroup key group fun st g =>
    (st.entries.filter fun entry => chosen entry.1 && (g.pending entry.1).isSome,
      g.claim consumer chosen fun id => st.entries.any (·.1 = id))

-- `XGROUP CREATE`, with or without `MKSTREAM`.
def xgroupCreate (key group : String) (start : EntryId) (mkstream : Bool) : Script Unit where
  run s :=
    match s.keys key with
    | none =>
      if mkstream then (.ok (), s.set key (.stream (Stream.empty.setGroup group (.new start)))) else (.error noKey, s)
    | some (.stream st) =>
      match st.groups group with
      | none => (.ok (), s.set key (.stream (st.setGroup group (.new start))))
      | some _ => (.error busyGroup, s)
    | some _ => (.error wrongType, s)

variable (srv : Server)

-- The number of entries that were pending until now. All ids are read before the first one is used.
def xack (key group : String) (ids : List String) : Script Nat where
  run s :=
    if ids = [] then (.error arity, s)
    else if ¬s.canStream key then (.error wrongType, s)
    else
      match s.group? key group, ids.mapM srv.parse with
      | none, _ => (.ok 0, s)
      | some _, none => (.error invalidId, s)
      | some g, some ids => (.ok (g.ack ids).1, s.acked key group ids)

-- `XPENDING` of the entry with this id: the id as the server writes it, and the consumer. A text that is not
-- how the server writes an id may match other entries, whose ids are never written like that.
def xpending (key group id : String) : Script (Option (String × String)) where
  run s :=
    if ¬s.canStream key then (.error wrongType, s)
    else
      match s.group? key group, srv.parse id with
      | none, _ => (.error noGroup, s)
      | some _, none => (.error invalidId, s)
      | some g, some entry => (.ok ((g.pending entry).bind fun consumer =>
          if srv.text entry = id then some (id, consumer) else none), s)

-- `unpack` of a Lua table.
def unpack (values : List α) : Script (List α) :=
  if values.length < srv.unpackLimit then pure values else .fail unpacked

end Commands

-- What the commands that only look at a key have found.
section Reads

variable {s s' : Db} {key group text : String} {srv : Server}

theorem get_eq_some (h : (get key).run s = (.ok (some text), s')) : s.keys key = some (.string text) := by
  simp only [get] at h
  split at h
  case h_1 | h_3 => cases h
  case h_2 hk => cases h; exact hk

theorem run_get : ((get key).run s).2 = s := by
  simp only [get]
  split <;> rfl

theorem run_xpending : ((xpending srv key group text).run s).2 = s := by
  simp only [xpending]
  split
  case isTrue => rfl
  case isFalse => split <;> rfl

theorem xpending_eq_some {id consumer : String}
    (h : (xpending srv key group text).run s = (.ok (some (id, consumer)), s')) :
    ∃ g i, s.group? key group = some g ∧ srv.parse text = some i ∧ g.pending i = some consumer ∧
      srv.text i = text ∧ id = text := by
  simp only [xpending] at h
  split at h
  case isTrue => cases h
  case isFalse =>
    split at h
    case h_1 | h_2 => cases h
    case h_3 g i hg hi =>
      have h := Except.ok.inj (congrArg Prod.fst h)
      have ⟨owner, ho, hc⟩ := Option.bind_eq_some_iff.mp h
      split at hc
      case isFalse => cases hc
      case isTrue ht =>
        cases hc
        exact ⟨g, i, hg, hi, ho, ht, rfl⟩

end Reads

-- What the commands do to the entries of the streams and to the pending entries of their groups.
section Effects

variable {s : Db} {key group : String} {fields : EntryFields}

def Db.entries (s : Db) (key : String) : List (EntryId × EntryFields) :=
  match s.keys key with
  | some (.stream st) => st.entries
  | _ => []

def Db.pending (s : Db) (key group : String) (id : EntryId) : Option String :=
  (s.group? key group).bind (·.pending id)

def Db.canHash (s : Db) (key : String) : Bool :=
  match s.keys key with
  | none | some (.hash _) => true
  | _ => false

def Db.nextId (s : Db) (key : String) : EntryId :=
  ((s.openStream key).getD .empty).nextId s.clock

def Db.added (key : String) (fields : EntryFields) (s : Db) : Db :=
  s.set key (.stream (((s.openStream key).getD .empty).append s.clock fields))

-- There is a stream or none yet, and its ids are not used up.
structure Db.Addable (s : Db) (key : String) : Prop where
  stream : s.canStream key
  room : s.nextId key < idLimit

theorem xadd_of_addable (h : s.Addable key) : (xadd key fields).run s = (.ok (s.nextId key), s.added key fields) := by
  have ⟨st, hst⟩ := Option.isSome_iff_exists.mp h.stream
  have hr : st.nextId s.clock < idLimit := by simpa [Db.nextId, hst] using h.room
  simp [xadd, Db.nextId, Db.added, hst, hr]

theorem xadd_of_not_addable (fields : EntryFields) (h : ¬s.Addable key) :
    ∃ e, (xadd key fields).run s = (.error e, s) := by
  simp only [xadd]
  split
  case h_1 => exact ⟨_, rfl⟩
  case h_2 st hst =>
    split
    case isTrue hr => exact absurd ⟨by simp [Db.canStream, hst], by simpa [Db.nextId, hst] using hr⟩ h
    case isFalse => exact ⟨_, rfl⟩

@[simp]
theorem added_clock : (s.added key fields).clock = s.clock := rfl

theorem added_keys_of_ne (h : k ≠ key) : (s.added key fields).keys k = s.keys k := by
  simp [Db.added, Db.set, h]

theorem openStream_cases (h : s.openStream key = some st) :
    s.keys key = none ∧ st = .empty ∨ s.keys key = some (.stream st) := by
  unfold Db.openStream at h
  split at h
  case h_1 hk => exact .inl ⟨hk, (Option.some.inj h).symm⟩
  case h_2 hk => exact .inr (Option.some.inj h ▸ hk)
  case h_3 => cases h

theorem entries_openStream (h : s.openStream key = some st) : s.entries key = st.entries := by
  cases openStream_cases h
  case inl h => simp [Db.entries, h, Stream.empty]
  case inr h => simp [Db.entries, h]

theorem entries_added (h : s.canStream key) : (s.added key fields).entries k =
    s.entries k ++ if k = key then [(s.nextId key, fields)] else [] := by
  by_cases hk : k = key
  case pos =>
    have ⟨st, hst⟩ := Option.isSome_iff_exists.mp h
    subst hk
    simp [Db.added, Db.set, Db.entries, Db.nextId, hst, Stream.append, ← entries_openStream hst]
  case neg => simp [Db.entries, added_keys_of_ne hk, hk]

theorem group_added (h : s.canStream key) : (s.added key fields).group? = s.group? := by
  funext k group
  by_cases hk : k = key
  case pos =>
    have ⟨st, hst⟩ := Option.isSome_iff_exists.mp h
    subst hk
    cases openStream_cases hst
    case inl hn => simp [Db.added, Db.set, Db.group?, hst, Stream.append, hn, Stream.empty]
    case inr hn => simp [Db.added, Db.set, Db.group?, hst, Stream.append, hn]
  case neg => simp [Db.group?, added_keys_of_ne hk]

theorem pending_added (h : s.canStream key) : (s.added key fields).pending = s.pending := by
  funext k group id
  rw [Db.pending, group_added h, Db.pending]

theorem canStream_added : (s.added key fields).canStream k = (k = key || s.canStream k) := by
  by_cases hk : k = key
  case pos => simp [hk, Db.canStream, Db.openStream, Db.added, Db.set]
  case neg => simp [hk, Db.canStream, Db.openStream, added_keys_of_ne hk]

theorem canHash_added : (s.added key fields).canHash k = (k ≠ key && s.canHash k) := by
  by_cases hk : k = key
  case pos => simp [hk, Db.canHash, Db.added, Db.set]
  case neg => simp [hk, Db.canHash, added_keys_of_ne hk]

theorem nextId_added : (s.added key fields).nextId k = s.nextId k + if k = key then 1 else 0 := by
  by_cases hk : k = key
  case pos =>
    have hn : (s.added key fields).nextId key = max (idOfTime s.clock) (s.nextId key + 1) := by
      simp [Db.nextId, Db.openStream, Db.added, Db.set, Stream.append, Stream.nextId]
    have hc : idOfTime s.clock ≤ s.nextId key := Nat.le_max_left _ _
    rw [hk, hn, if_pos rfl, Nat.max_eq_right (Nat.le_succ_of_le hc)]
  case neg => simp [Db.nextId, Db.openStream, added_keys_of_ne hk, hk]

theorem lt_nextId (h : entry ∈ s.entries key) : entry.1 < s.nextId key := by
  unfold Db.entries at h
  split at h
  case h_1 st hk =>
    have hn : s.nextId key = st.nextId s.clock := by simp [Db.nextId, Db.openStream, hk]
    exact hn ▸ Nat.lt_of_le_of_lt (st.bounded entry h) Stream.lastId_lt_nextId
  case h_2 => cases h

theorem canStream_iff_typeName :
    s.canStream key ↔ ¬(Value.typeName (s.keys key) ≠ "none" ∧ Value.typeName (s.keys key) ≠ "stream") := by
  unfold Db.canStream Db.openStream
  split
  case h_1 hk | h_2 hk => simp [hk, Value.typeName]
  case h_3 v hs hk =>
    rw [hk]
    cases v
    case stream st => exact absurd rfl (hs st)
    all_goals simp [Value.typeName]

theorem canHash_iff_typeName :
    s.canHash key ↔ ¬(Value.typeName (s.keys key) ≠ "none" ∧ Value.typeName (s.keys key) ≠ "hash") := by
  unfold Db.canHash
  split
  case h_1 hk | h_2 hk => simp [hk, Value.typeName]
  case h_3 hn hh =>
    cases hk : s.keys key
    case none => exact absurd hk hn
    case some v =>
      cases v
      case hash fields => exact absurd hk (hh fields)
      all_goals simp [Value.typeName]

-- A string can be replaced without any effect on the streams.
section String

variable {text new : String} (h : s.keys key = some (.string text))
include h

theorem ne_of_canStream (hs : s.canStream k) : key ≠ k := by
  intro he
  simp [← he, Db.canStream, Db.openStream, h] at hs

theorem ne_of_canHash (hs : s.canHash k) : key ≠ k := by
  intro he
  simp [← he, Db.canHash, h] at hs

theorem entries_set_string : (s.set key (.string new)).entries = s.entries := by
  funext k
  by_cases hk : k = key
  case pos => simp [hk, Db.entries, Db.set, h]
  case neg => simp [hk, Db.entries, Db.set]

theorem group_set_string : (s.set key (.string new)).group? = s.group? := by
  funext k group
  by_cases hk : k = key
  case pos => simp [hk, Db.group?, Db.set, h]
  case neg => simp [hk, Db.group?, Db.set]

end String

section Hash

def Db.hashed (key : String) (fields : EntryFields) (s : Db) : Db :=
  match s.keys key with
  | some (.hash h) => s.set key (.hash (setAll fields h))
  | _ => s.set key (.hash (setAll fields fun _ => none))

theorem hset_of_canHash (h : s.canHash key) : (hset key fields).run s = (.ok (), s.hashed key fields) := by
  unfold Db.canHash at h
  unfold hset Db.hashed
  split at h <;> simp_all

theorem hset_of_not_canHash (h : ¬s.canHash key) : (hset key fields).run s = (.error wrongType, s) := by
  unfold Db.canHash at h
  simp only [hset]
  split
  case h_1 hk | h_2 hk => simp [hk] at h
  case h_3 => rfl

@[simp]
theorem hashed_clock : (s.hashed key fields).clock = s.clock := by
  unfold Db.hashed
  split <;> rfl

theorem hashed_keys_of_ne (h : k ≠ key) : (s.hashed key fields).keys k = s.keys k := by
  unfold Db.hashed
  split <;> simp [Db.set, h]

theorem hashed_keys_self : ∃ h, (s.hashed key fields).keys key = some (.hash h) := by
  unfold Db.hashed
  split <;> exact ⟨_, by simp [Db.set]; rfl⟩

theorem entries_of_canHash (h : s.canHash key) : s.entries key = [] := by
  unfold Db.canHash at h
  unfold Db.entries
  split at h <;> simp_all

theorem group_of_canHash (h : s.canHash key) : s.group? key = fun _ => none := by
  unfold Db.canHash at h
  funext group
  unfold Db.group?
  split at h <;> simp_all

theorem entries_hashed (h : s.canHash key) : (s.hashed key fields).entries = s.entries := by
  funext k
  by_cases hk : k = key
  case pos =>
    have ⟨_, hh⟩ := @hashed_keys_self s key fields
    rw [hk, entries_of_canHash h]
    simp [Db.entries, hh]
  case neg => simp [Db.entries, hashed_keys_of_ne hk]

theorem group_hashed (h : s.canHash key) : (s.hashed key fields).group? = s.group? := by
  funext k group
  by_cases hk : k = key
  case pos =>
    have ⟨_, hh⟩ := @hashed_keys_self s key fields
    rw [hk, group_of_canHash h]
    simp [Db.group?, hh]
  case neg => simp [Db.group?, hashed_keys_of_ne hk]

theorem pending_hashed (h : s.canHash key) : (s.hashed key fields).pending = s.pending := by
  funext k group id
  rw [Db.pending, group_hashed h, Db.pending]

theorem canStream_hashed : (s.hashed key fields).canStream k = (k ≠ key && s.canStream k) := by
  by_cases hk : k = key
  case pos =>
    have ⟨_, hh⟩ := @hashed_keys_self s key fields
    simp [hk, Db.canStream, Db.openStream, hh]
  case neg => simp [hk, Db.canStream, Db.openStream, hashed_keys_of_ne hk]

theorem canHash_hashed : (s.hashed key fields).canHash k = (k = key || s.canHash k) := by
  by_cases hk : k = key
  case pos =>
    have ⟨_, hh⟩ := @hashed_keys_self s key fields
    simp [hk, Db.canHash, hh]
  case neg => simp [hk, Db.canHash, hashed_keys_of_ne hk]

theorem nextId_hashed_of_ne (h : k ≠ key) : (s.hashed key fields).nextId k = s.nextId k := by
  simp [Db.nextId, Db.openStream, hashed_keys_of_ne h]

end Hash

-- Deleting never fails in a way that matters here: a key that is no stream has no entries.
theorem entries_xdel {id : EntryId} : ((xdel key id).run s).2.entries k =
    if k = key then (s.entries k).filter (·.1 ≠ id) else s.entries k := by
  simp only [xdel]
  by_cases h : k = key
  case neg => split <;> simp [h, Db.entries, Db.set]
  case pos =>
    subst h
    split
    case h_1 hk => simp [Db.entries, hk]
    case h_2 hk => simp [Db.entries, Db.set, hk, Stream.delete]
    case h_3 hs hk =>
      have hn : s.entries k = [] := by
        unfold Db.entries
        split
        case h_1 st hst => exact absurd (Option.some.inj (hk.symm.trans hst)) (hs st)
        case h_2 => rfl
      simp [hn]

theorem group_xdel {id : EntryId} : ((xdel key id).run s).2.group? = s.group? := by
  simp only [xdel]
  split
  case h_1 | h_3 => rfl
  case h_2 hk =>
    funext k group
    by_cases h : k = key
    case pos => simp [h, Db.group?, Db.set, hk, Stream.delete]
    case neg => simp [h, Db.group?, Db.set]

theorem pending_xdel {id : EntryId} : ((xdel key id).run s).2.pending = s.pending := by
  funext k group i
  rw [Db.pending, group_xdel, Db.pending]

section Acknowledge

variable {g : Group} {ids : List EntryId} {srv : Server}

theorem Group.pending_ack {id : EntryId} : (g.ack ids).2.pending id = if id ∈ ids then none else g.pending id := by
  induction ids generalizing g
  case nil => rfl
  case cons i ids hi =>
    unfold ack
    by_cases h : id = i
    case pos =>
      split_ifs <;> simp_all [Group.remove]
    case neg => split_ifs <;> simp_all [Group.remove]

theorem Group.lastDelivered_ack : (g.ack ids).2.lastDelivered = g.lastDelivered := by
  induction ids generalizing g
  case nil => rfl
  case cons i ids hi =>
    unfold ack
    split_ifs
    case pos | neg => exact hi

theorem Group.ack_all (hn : ids.Nodup) (h : ∀ id ∈ ids, (g.pending id).isSome) : (g.ack ids).1 = ids.length := by
  induction ids generalizing g
  case nil => rfl
  case cons i ids hi =>
    have ⟨hm, hn⟩ := List.nodup_cons.mp hn
    have hr : ∀ id ∈ ids, ((g.remove i).pending id).isSome := by
      intro id hid
      have hne : id ≠ i := fun he => hm (he ▸ hid)
      simpa [Group.remove, hne] using h id (List.mem_cons_of_mem _ hid)
    simp [ack, h i List.mem_cons_self, hi hn hr]

theorem Group.ack_none (h : g.pending i = none) : (g.ack [i]).1 = 0 := by
  simp [ack, h]

theorem acked_cases : s.group? key group = none ∧ s.acked key group ids = s ∨
    ∃ st g, s.keys key = some (.stream st) ∧ st.groups group = some g ∧
      s.acked key group ids = s.set key (.stream (st.setGroup group (g.ack ids).2)) := by
  unfold Db.acked Db.group?
  split
  case h_2 => exact .inl ⟨rfl, rfl⟩
  case h_1 st hk =>
    split
    case h_1 g hg => exact .inr ⟨st, g, hk, hg, rfl⟩
    case h_2 hg => exact .inl ⟨hg, rfl⟩

theorem xack_no_stream (h : ¬s.canStream key) :
    (xack srv key group [text]).run s = (.error wrongType, s) := by
  simp [xack, h]

theorem xack_no_group (h : s.canStream key) (hg : s.group? key group = none) :
    (xack srv key group [text]).run s = (.ok 0, s) := by
  simp [xack, h, hg]

theorem canStream_of_group (hg : s.group? key group = some g) : s.canStream key := by
  unfold Db.group? at hg
  split at hg
  case h_1 hk => simp [Db.canStream, Db.openStream, hk]
  case h_2 => cases hg

theorem xack_invalid (hg : s.group? key group = some g) (hp : srv.parse text = none) :
    (xack srv key group [text]).run s = (.error invalidId, s) := by
  simp [xack, canStream_of_group hg, hg, hp]

theorem xack_of_parse (hn : texts ≠ []) (hg : s.group? key group = some g) (hp : texts.mapM srv.parse = some ids) :
    (xack srv key group texts).run s = (.ok (g.ack ids).1, s.acked key group ids) := by
  simp [xack, canStream_of_group hg, hg, hn, hp]

theorem xack_of_pending (hg : s.group? key group = some g)
    (hp : srv.parse text = some i) (hi : (g.pending i).isSome) :
    (xack srv key group [text]).run s = (.ok 1, s.acked key group [i]) := by
  have hm : [text].mapM srv.parse = some [i] := by simp [hp]
  rw [xack_of_parse (List.cons_ne_nil _ _) hg hm, Group.ack_all (List.pairwise_singleton _ i) (by simpa using hi)]
  rfl

theorem entries_acked : (s.acked key group ids).entries = s.entries := by
  cases @acked_cases s key group ids
  case inl h => rw [h.right]
  case inr h =>
    have ⟨st, g, hk, hg, h⟩ := h
    funext k
    by_cases he : k = key
    case pos => simp [h, he, Db.entries, Db.set, hk, Stream.setGroup]
    case neg => simp [h, he, Db.entries, Db.set]

theorem pending_acked {i : EntryId} : (s.acked key group ids).pending k name i =
    if k = key ∧ name = group ∧ i ∈ ids then none else s.pending k name i := by
  cases @acked_cases s key group ids
  case inl h =>
    rw [h.right]
    split
    case isFalse => rfl
    case isTrue hc => simp [hc, Db.pending, h.left]
  case inr h =>
    have ⟨st, g, hk, hg, h⟩ := h
    by_cases he : k = key
    case neg => simp [h, he, Db.pending, Db.group?, Db.set]
    case pos =>
      by_cases hn : name = group
      case neg => simp [h, he, hn, Db.pending, Db.group?, Db.set, hk, Stream.setGroup]
      case pos => simp [h, he, hn, Db.pending, Db.group?, Db.set, hk, hg, Stream.setGroup, Group.pending_ack]

theorem canHash_acked : (s.acked key group ids).canHash = s.canHash := by
  cases @acked_cases s key group ids
  case inl h => rw [h.right]
  case inr h =>
    have ⟨st, g, hk, hg, h⟩ := h
    funext k
    by_cases he : k = key
    case pos => simp [h, he, Db.canHash, Db.set, hk]
    case neg => simp [h, he, Db.canHash, Db.set]

end Acknowledge

end Effects

-- No command makes a group forget what it has handed out.
section Later

structure Group.Later (g g' : Group) : Prop where
  delivered : g.lastDelivered ≤ g'.lastDelivered
  settled : ∀ i ≤ g.lastDelivered, g.pending i = none → g'.pending i = none

theorem Group.Later.refl {g : Group} : g.Later g :=
  ⟨Nat.le_refl _, fun _ _ h => h⟩

theorem Group.Later.trans {g₁ g₂ g₃ : Group} (h₁ : g₁.Later g₂) (h₂ : g₂.Later g₃) : g₁.Later g₃ where
  delivered := Nat.le_trans h₁.delivered h₂.delivered
  settled := fun i hi hp => h₂.settled i (Nat.le_trans hi h₁.delivered) (h₁.settled i hi hp)

def Db.Later (s s' : Db) : Prop :=
  ∀ key group g, s.group? key group = some g → ∃ g', s'.group? key group = some g' ∧ g.Later g'

variable {s s' s₁ s₂ s₃ : Db} {key group : String} {g g' : Group}

theorem Db.Later.of_group (h : s'.group? = s.group?) : s.Later s' :=
  fun _ _ g hg => ⟨g, h ▸ hg, .refl⟩

theorem Db.Later.refl : s.Later s :=
  .of_group rfl

theorem Db.Later.trans (h₁ : s₁.Later s₂) (h₂ : s₂.Later s₃) : s₁.Later s₃ := by
  intro key group g hg
  have ⟨g', hg', hl⟩ := h₁ key group g hg
  have ⟨g'', hg'', hl'⟩ := h₂ key group g' hg'
  exact ⟨g'', hg'', hl.trans hl'⟩

theorem Db.Later.setGroup (hk : s.keys key = some (.stream st)) (hg : ∀ g ∈ st.groups group, g.Later g') :
    s.Later (s.set key (.stream (st.setGroup group g'))) := by
  intro k name g h
  by_cases hkey : k = key
  case neg => exact ⟨g, by simpa [Db.group?, Db.set, hkey] using h, .refl⟩
  case pos =>
    have h : st.groups name = some g := by simpa [Db.group?, hkey, hk] using h
    by_cases hname : name = group
    case neg => exact ⟨g, by simpa [Db.group?, Db.set, hkey, Stream.setGroup, hname] using h, .refl⟩
    case pos => exact ⟨g', by simp [Db.group?, Db.set, hkey, Stream.setGroup, hname], hg g (hname ▸ h)⟩

theorem Group.later_deliver {ids : List EntryId} (h : ∀ id ∈ ids, g.lastDelivered < id) :
    g.Later (g.deliver consumer ids) where
  delivered := le_foldl_max.left
  settled := by
    intro i hi hp
    have hm : i ∉ ids := fun hm => Nat.not_lt.mpr hi (h i hm)
    simp [deliver, hm, hp]

theorem Group.later_claim : g.Later (g.claim consumer chosen alive) where
  delivered := Nat.le_refl _
  settled := by
    intro i _ hp
    simp [claim, hp]

theorem Group.later_ack {ids : List EntryId} : g.Later (g.ack ids).2 where
  delivered := Nat.le_of_eq lastDelivered_ack.symm
  settled := by
    intro i _ hp
    simp [pending_ack, hp]

-- A script that only moves on, whatever it ends with.
def Script.Advances (x : Script α) : Prop :=
  ∀ s : Db, s.Later (x.run s).2

namespace Script.Advances

variable {α β : Type} {x : Script α} {f : α → Script β}

theorem of_read (h : ∀ s, (x.run s).2 = s) : x.Advances := by
  intro s
  rw [h]
  exact .refl

theorem pure : (Pure.pure a : Script α).Advances :=
  of_read fun _ => rfl

theorem fail : (Script.fail e : Script α).Advances :=
  of_read fun _ => rfl

theorem pcall (hx : x.Advances) : (Script.pcall x).Advances :=
  hx

theorem bind (hx : x.Advances) (hf : ∀ a, (f a).Advances) : (x >>= f).Advances := by
  intro s
  cases hr : x.run s
  case mk result s' =>
    have hs : s.Later s' := by simpa [hr] using hx s
    cases result
    case error => exact Script.bind_error hr ▸ hs
    case ok a => exact Script.bind_ok hr ▸ hs.trans (hf a s')

theorem ite [Decidable p] (hx : x.Advances) (hy : y.Advances) :
    (if p then x else y).Advances := by
  split
  case isTrue => exact hx
  case isFalse => exact hy

end Script.Advances

theorem advances_xadd : (xadd key fields).Advances := by
  intro s
  by_cases h : s.Addable key
  case pos =>
    rw [xadd_of_addable h]
    exact .of_group (group_added h.stream)
  case neg =>
    have ⟨_, he⟩ := xadd_of_not_addable fields h
    exact he ▸ .refl

theorem advances_hset : (hset key fields).Advances := by
  intro s
  by_cases h : s.canHash key
  case pos =>
    rw [hset_of_canHash h]
    exact .of_group (group_hashed h)
  case neg => exact hset_of_not_canHash h ▸ .refl

theorem advances_xdel {id : EntryId} : (xdel key id).Advances :=
  fun _ => .of_group group_xdel

theorem later_acked : s.Later (s.acked key group ids) := by
  cases @acked_cases s key group ids
  case inl h =>
    rw [h.right]
    exact .refl
  case inr h =>
    have ⟨st, g, hk, hg, h⟩ := h
    rw [h]
    exact .setGroup hk fun _ hm => Option.some.inj (hm.symm.trans hg) ▸ Group.later_ack

theorem advances_xack : (xack srv key group ids).Advances := by
  intro s
  simp only [xack]
  split
  case isTrue => exact .refl
  case isFalse =>
    split
    case isTrue => exact .refl
    case isFalse =>
      split
      case h_1 | h_2 => exact .refl
      case h_3 => exact later_acked

theorem advances_onGroup {act : Stream → Group → α × Group} (h : ∀ st (g : Group), g.Later (act st g).2) :
    (onGroup key group act).Advances := by
  intro s
  simp only [onGroup]
  split
  case h_1 | h_3 => exact .refl
  case h_2 st hk =>
    split
    case h_1 => exact .refl
    case h_2 g hg => exact .setGroup hk fun _ hm => Option.some.inj (hm.symm.trans hg) ▸ h st g

theorem advances_xreadgroup : (xreadgroup key group consumer count).Advances := by
  apply advances_onGroup
  intro st g
  apply Group.later_deliver
  intro id hm
  have ⟨entry, he, hid⟩ := List.mem_map.mp hm
  have hf : entry ∈ st.entries.filter (g.lastDelivered < ·.1) := by
    split at he
    case isTrue => exact he
    case isFalse => exact List.mem_of_mem_take he
  exact hid ▸ of_decide_eq_true (List.mem_filter.mp hf).right

theorem advances_xclaim : (xclaim key group consumer chosen).Advances :=
  advances_onGroup fun _ _ => Group.later_claim

theorem advances_xgroupCreate : (xgroupCreate key group start mkstream).Advances := by
  intro s
  simp only [xgroupCreate]
  split
  case h_1 hk =>
    split
    case isFalse => exact .refl
    case isTrue =>
      intro k name g hg
      have hne : k ≠ key := fun he => by simp [Db.group?, he, hk] at hg
      exact ⟨g, by simpa [Db.group?, Db.set, hne] using hg, .refl⟩
  case h_2 hk =>
    split
    case h_1 hg => exact .setGroup hk (by simp [hg])
    case h_2 => exact .refl
  case h_3 => exact .refl

-- An entry that has been handed out and is not pending any more.
def Db.Settled (s : Db) (key group : String) (i : EntryId) : Prop :=
  ∃ g, s.group? key group = some g ∧ i ≤ g.lastDelivered ∧ g.pending i = none

theorem Db.Settled.later (h : s.Settled key group i) (hl : s.Later s') : s'.Settled key group i := by
  have ⟨g, hg, hi, hp⟩ := h
  have ⟨g', hg', hl⟩ := hl key group g hg
  exact ⟨g', hg', Nat.le_trans hi hl.delivered, hl.settled i hi hp⟩

theorem Db.Settled.not_pending (h : s.Settled key group i) : s.pending key group i = none := by
  have ⟨g, hg, _, hp⟩ := h
  simp [Db.pending, hg, hp]

theorem Db.Settled.of_pending (hp : (s.pending key group i).isSome) (hl : s.Later s')
    (hn : s'.pending key group i = none) : s'.Settled key group i := by
  cases hg : s.group? key group
  case none => simp [Db.pending, hg] at hp
  case some g =>
    have ⟨g', hg', hl⟩ := hl key group g hg
    have hi := g.delivered i (by simpa [Db.pending, hg] using hp)
    exact ⟨g', hg', Nat.le_trans hi hl.delivered, by simpa [Db.pending, hg'] using hn⟩

end Later

end Redis
