import ServeModel.Lib.Checks
import ServeModel.Queue.Reply

-- What a well-formed stream entry is, and what the readers of the three replies make of the others.
namespace Queue

open List Option

section Entry

-- A flat list of names and values.
inductive Reads : List RedisValue → List (String × String) → Prop
  | nil : Reads [] []
  | cons : valueToString k = some key → valueToString v = some val → Reads kvs fields →
      Reads (k :: v :: kvs) ((key, val) :: fields)

def lastValue (name : String) (fields : List (String × String)) : Option String :=
  fields.reverse.lookup name

-- Fields that describe a message. Only the stage may be missing.
structure Complete (fields : List (String × String)) (m : MessageFields) : Prop where
  runId : lastValue "run_id" fields = some m.runId ∧ ¬Text.isBlank m.runId
  payload : lastValue "payload" fields = some m.payload ∧ ¬Text.isBlank m.payload
  stage : lastValue "stage" fields = some m.stage ∧ ¬Text.isBlank m.stage ∨
    lastValue "stage" fields = none ∧ m.stage = ""

-- The entry has an id and fields, and nothing else.
def Describes (entry : RedisValue) (m : String × MessageFields) : Prop :=
  ∃ id kvs fields, entry = .array [id, .array kvs] ∧ valueToString id = some m.1 ∧ Reads kvs fields ∧
    Complete fields m.2

def WellFormed (entry : RedisValue) : Prop :=
  ∃ m, Describes entry m

variable {entry : RedisValue} {kvs : List RedisValue} {fields : List (String × String)} {seen : SeenFields}

theorem Reads.even (h : Reads kvs fields) : kvs.length % 2 = 0 := by
  induction h
  case nil => rfl
  case cons hi => simpa [Nat.add_assoc] using hi

theorem Reads.scan_eq (h : Reads kvs fields) :
    seen.scan kvs = some (fields.foldl (fun seen field => seen.see field.1 field.2) seen) := by
  induction h generalizing seen
  case nil => rfl
  case cons hk hv _ hi => simp [SeenFields.scan, hk, hv, hi]

theorem exists_reads (h : (seen.scan kvs).isSome) (he : kvs.length % 2 = 0) : ∃ fields, Reads kvs fields := by
  fun_induction SeenFields.scan seen kvs
  case case1 seen k v kvs hi =>
    have ⟨_, h⟩ := isSome_iff_exists.mp h
    have ⟨key, hk, h⟩ := bind_eq_some_iff.mp h
    have ⟨val, hv, h⟩ := bind_eq_some_iff.mp h
    have ⟨fields, hr⟩ := hi key val (by simp [h]) (by simpa [Nat.add_assoc] using he)
    exact ⟨_, .cons hk hv hr⟩
  case case2 kvs _ hk =>
    match kvs with
    | [] => exact ⟨[], .nil⟩
    | [_] => cases he
    | k :: v :: _ => exact absurd rfl (hk k v _)

theorem lastValue_cons : lastValue name ((key, val) :: fields) =
    (lastValue name fields).or (if key = name then some val else none) := by
  rw [lastValue, reverse_cons, lookup_append, lastValue]
  by_cases h : key = name
  case pos => simp [h]
  case neg => simp [h, lookup_cons, beq_false_of_ne (Ne.symm h)]

theorem foldl_see :
    fields.foldl (fun seen field => seen.see field.1 field.2) seen =
      ⟨(lastValue "run_id" fields).or seen.runId, (lastValue "payload" fields).or seen.payload,
        (lastValue "stage" fields).or seen.stage⟩ := by
  induction fields generalizing seen
  case nil => rfl
  case cons field fields hi =>
    rw [foldl_cons, hi, lastValue_cons, lastValue_cons, lastValue_cons]
    unfold SeenFields.see
    by_cases h₁ : field.1 = "run_id"
    case pos => simp [h₁]
    case neg =>
      by_cases h₂ : field.1 = "payload"
      case pos => simp [h₂]
      case neg =>
        by_cases h₃ : field.1 = "stage"
        case pos => simp [h₃]
        case neg => simp [h₁, h₂, h₃]

theorem finish_eq_some :
    SeenFields.finish ⟨lastValue "run_id" fields, lastValue "payload" fields, lastValue "stage" fields⟩ = some m ↔
      Complete fields m := by
  constructor
  case mp =>
    intro h
    simp only [SeenFields.finish] at h
    split at h
    case h_2 => cases h
    case h_1 runId payload hr hp =>
      split at h
      case isTrue => cases h
      case isFalse hb =>
        have ⟨hbr, hbp⟩ := not_or.mp hb
        split at h
        case h_1 stage hs =>
          split at h
          case isTrue => cases h
          case isFalse hbs =>
            cases h
            exact ⟨⟨hr, hbr⟩, ⟨hp, hbp⟩, .inl ⟨hs, hbs⟩⟩
        case h_2 hs =>
          cases h
          exact ⟨⟨hr, hbr⟩, ⟨hp, hbp⟩, .inr ⟨hs, rfl⟩⟩
  case mpr =>
    intro ⟨⟨hr, hbr⟩, ⟨hp, hbp⟩, hs⟩
    cases hs
    case inl hs => simp [SeenFields.finish, hr, hp, hs, hbr, hbp]
    case inr hs => simp [SeenFields.finish, hr, hp, hs.left, hbr, hbp, ← hs.right]

theorem extractMessageFields_eq_some : extractMessageFields entry = some m ↔
    ∃ kvs fields, entry = .array kvs ∧ Reads kvs fields ∧ Complete fields m := by
  constructor
  case mp =>
    intro h
    unfold extractMessageFields at h
    split at h
    case h_2 => cases h
    case h_1 kvs =>
      split at h
      case isTrue => cases h
      case isFalse he =>
        have ⟨seen, hs, h⟩ := bind_eq_some_iff.mp h
        have ⟨fields, hr⟩ := exists_reads (isSome_iff_exists.mpr ⟨seen, hs⟩) (not_ne_iff.mp he)
        rw [hr.scan_eq, foldl_see] at hs
        cases hs
        exact ⟨kvs, fields, rfl, hr, finish_eq_some.mp (by simpa only [or_none] using h)⟩
  case mpr =>
    intro ⟨kvs, fields, he, hr, hc⟩
    subst he
    rw [extractMessageFields, if_neg (not_not.mpr hr.even), hr.scan_eq, foldl_see]
    simpa using finish_eq_some.mpr hc

theorem parseMessageEntry_eq_some : parseMessageEntry entry = some m ↔ Describes entry m := by
  constructor
  case mp =>
    intro h
    unfold parseMessageEntry at h
    split at h
    case h_2 => cases h
    case h_1 id fields =>
      have ⟨msgId, hi, h⟩ := bind_eq_some_iff.mp h
      have ⟨found, hf, h⟩ := bind_eq_some_iff.mp h
      have ⟨kvs, fields, he, hr, hc⟩ := extractMessageFields_eq_some.mp hf
      cases h
      exact ⟨id, kvs, fields, he ▸ rfl, hi, hr, hc⟩
  case mpr =>
    intro ⟨id, kvs, fields, he, hi, hr, hc⟩
    subst he
    simp [parseMessageEntry, hi, extractMessageFields_eq_some.mpr ⟨kvs, fields, rfl, hr, hc⟩]

theorem wellFormed_iff : WellFormed entry ↔ (parseMessageEntry entry).isSome := by
  simp only [WellFormed, isSome_iff_exists, parseMessageEntry_eq_some]

instance : DecidablePred WellFormed :=
  fun _ => decidable_of_iff _ wellFormed_iff.symm

end Entry

-- The three readers.
section Readers

variable {json : String → Option Json} {stream group : String} {items : List RedisValue} {entry : RedisValue}

-- Dropping what is malformed beforehand makes no difference to a reader that drops it anyway.
theorem filterMap_wellFormed :
    (items.filter WellFormed).filterMap parseMessageEntry = items.filterMap parseMessageEntry := by
  induction items
  case nil => rfl
  case cons entry items hi =>
    by_cases h : WellFormed entry
    case pos => simp [h, filterMap_cons, hi]
    case neg =>
      have hn : parseMessageEntry entry = none := by simpa [wellFormed_iff] using h
      simp [h, hn, hi]

theorem forall₂_describes : List.Forall₂ Describes (items.filter WellFormed) (items.filterMap parseMessageEntry) := by
  induction items
  case nil => exact .nil
  case cons entry items hi =>
    cases hp : parseMessageEntry entry
    case none =>
      have h : ¬WellFormed entry := by simp [wellFormed_iff, hp]
      simpa [h, hp] using hi
    case some m =>
      have h : WellFormed entry := by simp [wellFormed_iff, hp]
      simpa [h, hp] using ⟨parseMessageEntry_eq_some.mp hp, hi⟩

theorem parseXautoclaimEntry_of_wellFormed (h : parseMessageEntry entry = some m) :
    parseXautoclaimEntry index entry = .ok m := by
  unfold parseMessageEntry at h
  split at h
  case h_2 => cases h
  case h_1 =>
    have ⟨msgId, hi, h⟩ := bind_eq_some_iff.mp h
    have ⟨fields, hf, h⟩ := bind_eq_some_iff.mp h
    cases h
    simp [parseXautoclaimEntry, hi, hf]

theorem parseXautoclaimEntries_of_wellFormed (h : ∀ entry ∈ items, WellFormed entry) :
    parseXautoclaimEntries index items = .ok (items.filterMap parseMessageEntry) := by
  induction items generalizing index
  case nil => rfl
  case cons entry items hi =>
    have ⟨he, h⟩ := forall_mem_cons.mp h
    have ⟨m, hm⟩ := isSome_iff_exists.mp (wellFormed_iff.mp he)
    rw [parseXautoclaimEntries, parseXautoclaimEntry_of_wellFormed hm, hi h, filterMap_cons_some hm]
    rfl

theorem length_parseXautoclaimEntries (h : parseXautoclaimEntries index items = .ok entries) :
    entries.length = items.length := by
  induction items generalizing index entries
  case nil => cases h; rfl
  case cons entry items hi =>
    have ⟨_, _, h⟩ := Except.bind_eq_ok.mp h
    have ⟨_, hr, h⟩ := Except.bind_eq_ok.mp h
    cases h
    rw [length_cons, hi hr, length_cons]

theorem length_filter_lt (h : ¬∀ entry ∈ items, WellFormed entry) :
    (items.filter WellFormed).length < items.length := by
  have ⟨entry, hm, hw⟩ : ∃ entry ∈ items, ¬WellFormed entry := by simpa using h
  exact length_filter_lt_length_iff_exists.mpr ⟨entry, hm, by simpa using hw⟩

def messages (json : String → Option Json) (stream group : String) (items : List RedisValue) : List Message :=
  (items.filterMap parseMessageEntry).map (toMessage json stream group)

theorem messages_filter : messages json stream group (items.filter WellFormed) = messages json stream group items := by
  rw [messages, filterMap_wellFormed, messages]

theorem length_messages : (messages json stream group items).length = (items.filter WellFormed).length := by
  rw [messages, length_map, forall₂_describes.length_eq]

def claimedEntries : RedisValue → List RedisValue
  | .array (next :: .array items :: _) => if (valueToString next).isSome then items else []
  | _ => []

-- The reply that a server would give if there were no malformed entries.
def cleanXautoclaim : RedisValue → RedisValue
  | .array (next :: .array items :: rest) => .array (next :: .array (items.filter WellFormed) :: rest)
  | val => val

def cleanXclaim : RedisValue → RedisValue
  | .array items => .array (items.filter WellFormed)
  | val => val

def cleanStream : RedisValue → RedisValue
  | .array [key, .array items] => .array [key, .array (items.filter WellFormed)]
  | val => val

def cleanXreadgroup : RedisValue → RedisValue
  | .array streams => .array (streams.map cleanStream)
  | val => val

theorem parseXclaimMessages_clean :
    parseXclaimMessages json stream group (cleanXclaim val) = parseXclaimMessages json stream group val := by
  cases val
  case array items => exact messages_filter
  all_goals rfl

theorem extractStreamMessages_clean :
    extractStreamMessages (cleanStream val) = extractStreamMessages val := by
  unfold cleanStream
  split
  case h_1 => exact filterMap_wellFormed
  case h_2 => rfl

theorem parseStreamMessages_clean :
    parseStreamMessages json stream group (cleanXreadgroup val) = parseStreamMessages json stream group val := by
  cases val
  case array streams =>
    simp [parseStreamMessages, cleanXreadgroup, parseStreamEntries, flatMap_map, extractStreamMessages_clean]
  all_goals rfl

theorem parseXautoclaimMessages_of_wellFormed {next : RedisValue}
    (hn : valueToString next = some nextStartId) (h : ∀ entry ∈ items, WellFormed entry) :
    parseXautoclaimMessages json stream group (.array (next :: .array items :: rest)) =
      .ok (nextStartId, messages json stream group items) := by
  rw [parseXautoclaimMessages, hn]
  simp only [parseXautoclaimEntries_of_wellFormed h]
  rfl

theorem length_parseXautoclaimMessages {next : RedisValue}
    (h : parseXautoclaimMessages json stream group (.array (next :: .array items :: rest)) = .ok claimed) :
    claimed.2.length = items.length := by
  simp only [parseXautoclaimMessages] at h
  split at h
  case h_1 => cases h
  case h_2 =>
    have ⟨entries, he, h⟩ := Except.bind_eq_ok.mp h
    cases h
    rw [length_map, length_parseXautoclaimEntries he]

theorem parseXautoclaimMessages_eq_iff {next : RedisValue} (hn : valueToString next = some nextStartId) :
    parseXautoclaimMessages json stream group (.array (next :: .array items :: rest)) =
      .ok (nextStartId, messages json stream group items) ↔ ∀ entry ∈ items, WellFormed entry := by
  constructor
  case mpr => exact parseXautoclaimMessages_of_wellFormed hn
  case mp =>
    intro h
    have hl := length_parseXautoclaimMessages h
    rw [length_messages] at hl
    by_contra hw
    exact Nat.ne_of_lt (length_filter_lt hw) hl

-- A reply with a malformed entry is read as an error, or with a message too many.
theorem parseXautoclaimMessages_malformed (h : ¬∀ entry ∈ claimedEntries val, WellFormed entry) :
    ∃ claimed, parseXautoclaimMessages json stream group (cleanXautoclaim val) = .ok claimed ∧
      ∀ claimed', parseXautoclaimMessages json stream group val = .ok claimed' → claimed'.2 ≠ claimed.2 := by
  unfold claimedEntries at h
  split at h
  case h_2 => exact absurd (fun _ hm => nomatch hm) h
  case h_1 next items rest =>
    split at h
    case isFalse => exact absurd (fun _ hm => nomatch hm) h
    case isTrue hn =>
      have ⟨nextStartId, hn⟩ := isSome_iff_exists.mp hn
      have hf : ∀ entry ∈ items.filter WellFormed, WellFormed entry := by simp
      refine ⟨_, parseXautoclaimMessages_of_wellFormed hn hf, fun claimed' hc he => ?_⟩
      have hl := length_parseXautoclaimMessages hc
      rw [he, messages_filter, length_messages] at hl
      exact Nat.ne_of_lt (length_filter_lt h) hl

theorem cleanXautoclaim_eq (h : ∀ entry ∈ claimedEntries val, WellFormed entry) :
    parseXautoclaimMessages json stream group (cleanXautoclaim val) =
      parseXautoclaimMessages json stream group val := by
  unfold cleanXautoclaim
  split
  case h_2 => rfl
  case h_1 next items rest =>
    cases hn : valueToString next
    case none => simp [parseXautoclaimMessages, hn]
    case some nextStartId =>
      have h : ∀ entry ∈ items, WellFormed entry := by simpa [claimedEntries, hn] using h
      rw [filter_eq_self.mpr (by simpa using h)]

end Readers

end Queue
