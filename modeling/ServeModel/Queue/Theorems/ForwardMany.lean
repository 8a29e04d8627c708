import ServeModel.Queue.Theorems.Transfer

-- When the forwarding of several messages at once is all or nothing.
namespace Queue

open Redis List Script Nat

variable {srv : Server} {s s' : Db}

def ResolvedOutput.runHash (o : ResolvedOutput) : String :=
  runHashPrefix ++ o.runId

-- The positions in the argument vector are those at which the caller has put the values.
section Marshalling

variable {keys argv front back : List String}

theorem nth_append {text : String} : nth (front ++ text :: back) (front.length + 1) = pure text := by
  simp [nth]

theorem nth_append_right (k : Nat) : nth (front ++ back) (front.length + 1 + k) = nth back (k + 1) := by
  simp [nth, add_right_comm _ 1 k, getElem?_append_right]

theorem all_isDigit_toDigits : (Nat.toDigits 10 n).all Char.isDigit :=
  all_eq_true.mpr fun _ hc => isDigit_of_mem_toDigits (by decide) (by decide) hc

theorem tonumber_toString : tonumber (toString n) = pure n := by
  have ht : (toString n).toList = Nat.toDigits 10 n := toList_repr
  have hne : toString n ≠ "" := by
    intro he
    apply @toDigits_ne_nil n 10
    rw [← ht, he]
    rfl
  rw [tonumber, ht, if_pos ⟨hne, all_isDigit_toDigits⟩, ofDigitChars_toDigits (by decide) (by decide)]

-- An entry of the group that is pending under exactly this id.
def IsPending (srv : Server) (s : Db) (stream group id : String) : Prop :=
  ∃ i, srv.parse id = some i ∧ srv.text i = id ∧ (s.pending stream group i).isSome

theorem xpending_of_isPending {stream group id : String} (h : IsPending srv s stream group id) :
    ∃ consumer, (xpending srv stream group id).run s = (.ok (some (id, consumer)), s) := by
  have ⟨i, hi, ht, hp⟩ := h
  have ⟨consumer, hc⟩ := Option.isSome_iff_exists.mp hp
  have ⟨g, hg, hc⟩ := Option.bind_eq_some_iff.mp hc
  exact ⟨consumer, by simp [xpending, canStream_of_group hg, hg, hi, hc, ht]⟩

theorem isPending_of_xpending {stream group id text consumer : String}
    (h : (xpending srv stream group id).run s = (.ok (some (text, consumer)), s')) :
    IsPending srv s stream group id := by
  have ⟨g, i, hg, hi, hp, ht, _⟩ := xpending_eq_some h
  exact ⟨i, hi, ht, by simp [Db.pending, hg, hp]⟩

namespace ForwardMany

section Sources

variable {stream group : String} {ids : List String}

theorem checkSources_ok (hi : 4 + i = front.length + 1) (h : ∀ id ∈ ids, IsPending srv s stream group id) :
    (checkSources srv (front ++ ids ++ back) stream group i ids.length).run s = (.ok ids, s) := by
  induction ids generalizing front i
  case nil => rfl
  case cons id ids hr =>
    have ⟨_, hx⟩ := xpending_of_isPending (h id mem_cons_self)
    have hf : front ++ id :: ids ++ back = (front ++ [id]) ++ ids ++ back := by simp
    have hr := @hr (front ++ [id]) (i + 1) (by simp; omega) fun id hm => h id (mem_cons_of_mem _ hm)
    rw [length_cons, checkSources, hi, append_assoc, cons_append, nth_append, pure_bind,
      bind_ok hx]
    dsimp only
    rw [if_neg (by simp), ← cons_append, ← append_assoc, hf, bind_ok hr]
    rfl

theorem checkSources_error (hi : 4 + i = front.length + 1) (h : ¬∀ id ∈ ids, IsPending srv s stream group id) :
    ∃ e, (checkSources srv (front ++ ids ++ back) stream group i ids.length).run s = (.error e, s) := by
  induction ids generalizing front i
  case nil => exact absurd (fun _ hm => nomatch hm) h
  case cons id ids hr =>
    have hf : front ++ id :: ids ++ back = (front ++ [id]) ++ ids ++ back := by simp
    rw [length_cons, checkSources, hi, append_assoc, cons_append, nth_append, pure_bind]
    cases hx : (xpending srv stream group id).run s
    case mk found s' =>
    have hs : s' = s := by simpa [hx] using @run_xpending s stream group id srv
    subst hs
    cases found
    case error e => exact ⟨e, bind_error hx⟩
    case ok found =>
      rw [bind_ok hx]
      cases found
      case none => exact ⟨_, rfl⟩
      case some found =>
        dsimp only
        split
        case isTrue => exact ⟨_, rfl⟩
        case isFalse =>
          have hp := isPending_of_xpending hx
          have ⟨e, hr⟩ := @hr (front ++ [id]) (i + 1) (by simp; omega)
            fun hall => h (forall_mem_cons.mpr ⟨hp, hall⟩)
          rw [← cons_append, ← append_assoc, hf]
          exact ⟨e, bind_error hr⟩

end Sources

section Destinations

variable {streams : List String}

theorem checkDestinations_ok (hi : i = front.length + 1) (h : ∀ stream ∈ streams, s.canStream stream) :
    (checkDestinations (front ++ streams ++ back) i streams.length).run s = (.ok (), s) := by
  induction streams generalizing front i
  case nil => rfl
  case cons stream streams hr =>
    have hf : front ++ stream :: streams ++ back = (front ++ [stream]) ++ streams ++ back := by simp
    have ht := canStream_iff_typeName.mp (h stream mem_cons_self)
    have hr := @hr (front ++ [stream]) (i + 1) (by simp; omega) fun _ hm => h _ (mem_cons_of_mem _ hm)
    rw [length_cons, checkDestinations, hi, append_assoc, cons_append, nth_append, pure_bind,
      bind_ok (x := typeOf stream) rfl, if_neg ht, ← cons_append, ← append_assoc, hf, ← hi, hr]

theorem checkDestinations_error (hi : i = front.length + 1) (h : ¬∀ stream ∈ streams, s.canStream stream) :
    ∃ e, (checkDestinations (front ++ streams ++ back) i streams.length).run s = (.error e, s) := by
  induction streams generalizing front i
  case nil => exact absurd (fun _ hm => nomatch hm) h
  case cons stream streams hr =>
    have hf : front ++ stream :: streams ++ back = (front ++ [stream]) ++ streams ++ back := by simp
    rw [length_cons, checkDestinations, hi, append_assoc, cons_append, nth_append, pure_bind,
      bind_ok (x := typeOf stream) rfl]
    split
    case isTrue => exact ⟨_, rfl⟩
    case isFalse ht =>
      rw [← cons_append, ← append_assoc, hf, ← hi]
      exact @hr (front ++ [stream]) (i + 1) (by simp; omega)
        fun hall => h (forall_mem_cons.mpr ⟨canStream_iff_typeName.mpr ht, hall⟩)

end Destinations

-- The loop that adds the entries, with its arguments read.
def addAll (now : String) : List ResolvedOutput → Script (List EntryId)
  | [] => return []
  | o :: outputs => do
    let nextId ← xadd o.stream o.fields
    hset o.runHash (stageFields o.stage now)
    let ids ← addAll now outputs
    return nextId :: ids

theorem addOutputs_eq {sourceCount : Nat} {outputs : List ResolvedOutput} (hi : i = front.length + 1)
    (ha : 5 + sourceCount + (i - 1) * 3 = argv.length + 1) :
    addOutputs (front ++ outputs.map (·.stream) ++ back)
      (argv ++ outputs.flatMap fun o => [o.runId, o.payload, o.stage]) sourceCount runHashPrefix now i
      outputs.length = addAll now outputs := by
  induction outputs generalizing front argv i
  case nil => rfl
  case cons o outputs hr =>
    have hr := @hr (argv ++ [o.runId, o.payload, o.stage]) (front ++ [o.stream]) (i + 1) (by simp; omega)
      (by simp; omega)
    have hf : front ++ (o :: outputs).map (·.stream) ++ back =
        (front ++ [o.stream]) ++ outputs.map (·.stream) ++ back := by simp
    have hv : argv ++ (o :: outputs).flatMap (fun o => [o.runId, o.payload, o.stage]) =
        argv ++ [o.runId, o.payload, o.stage] ++ outputs.flatMap fun o => [o.runId, o.payload, o.stage] := by simp
    have hk : nth (front ++ (o :: outputs).map (·.stream) ++ back) i = pure o.stream := by
      rw [hi, append_assoc]
      exact nth_append
    rw [length_cons, addOutputs, ha, nth_append_right 0, nth_append_right 1, nth_append_right 2, hk, hf, hv, hr]
    rfl

end ForwardMany

end Marshalling

namespace ForwardMany

variable {o : ResolvedOutput} {outputs : List ResolvedOutput}

-- Every stream has room for all its outputs, and the stages of the runs are kept in hashes of their own.
structure Fits (outputs : List ResolvedOutput) (s : Db) : Prop where
  stream : ∀ o ∈ outputs, s.canStream o.stream
  room : ∀ o ∈ outputs, s.nextId o.stream + outputs.countP (·.stream = o.stream) ≤ idLimit
  hash : ∀ o ∈ outputs, s.canHash o.runHash
  apart : ∀ o ∈ outputs, ∀ o' ∈ outputs, o.runHash ≠ o'.stream

def step (o : ResolvedOutput) (now : String) (s : Db) : Db :=
  (s.added o.stream o.fields).hashed o.runHash (stageFields o.stage now)

theorem canStream_step {key : String} :
    (step o now s).canStream key ↔ key ≠ o.runHash ∧ (key = o.stream ∨ s.canStream key) := by
  simp [step, canStream_hashed, canStream_added]

theorem canHash_step {key : String} :
    (step o now s).canHash key ↔ key = o.runHash ∨ key ≠ o.stream ∧ s.canHash key := by
  simp [step, canHash_hashed, canHash_added]

theorem nextId_step {key : String} (h : key ≠ o.runHash) :
    (step o now s).nextId key = s.nextId key + if o.stream = key then 1 else 0 := by
  rw [step, nextId_hashed_of_ne h, nextId_added]
  simp [eq_comm]

theorem Fits.addable (h : Fits (o :: outputs) s) : s.Addable o.stream where
  stream := h.stream o mem_cons_self
  room := by
    have := h.room o mem_cons_self
    rw [countP_cons_of_pos (by simp)] at this
    exact Nat.lt_of_lt_of_le (Nat.lt_add_of_pos_right (Nat.succ_pos _)) this

theorem Fits.canHash (h : Fits (o :: outputs) s) : (s.added o.stream o.fields).canHash o.runHash := by
  simp [canHash_added, h.hash o mem_cons_self, h.apart o mem_cons_self o mem_cons_self]

theorem Fits.step (h : Fits (o :: outputs) s) : Fits outputs (step o now s) where
  stream o' ho := canStream_step.mpr
    ⟨(h.apart o mem_cons_self o' (mem_cons_of_mem _ ho)).symm, .inr (h.stream o' (mem_cons_of_mem _ ho))⟩
  hash o' ho := canHash_step.mpr
    (.inr ⟨h.apart o' (mem_cons_of_mem _ ho) o mem_cons_self, h.hash o' (mem_cons_of_mem _ ho)⟩)
  apart o₁ h₁ o₂ h₂ := h.apart o₁ (mem_cons_of_mem _ h₁) o₂ (mem_cons_of_mem _ h₂)
  room o' ho := by
    have hr := h.room o' (mem_cons_of_mem _ ho)
    rw [nextId_step (h.apart o mem_cons_self o' (mem_cons_of_mem _ ho)).symm]
    rw [countP_cons, add_comm (List.countP _ _), ← add_assoc] at hr
    simpa using hr

-- What is missing at the first output, or after it, was missing from the start.
theorem Fits.of_step (ha : s.Addable o.stream) (hh : (s.added o.stream o.fields).canHash o.runHash)
    (h : Fits outputs (ForwardMany.step o now s)) : Fits (o :: outputs) s := by
  have ⟨hne, hc⟩ : o.runHash ≠ o.stream ∧ s.canHash o.runHash := by simpa [canHash_added] using hh
  have hs : ∀ o' ∈ outputs, o'.stream ≠ o.runHash := fun o' ho => (canStream_step.mp (h.stream o' ho)).left
  have hr : ∀ o' ∈ outputs, o'.runHash ≠ o.stream := by
    intro o' ho
    cases canHash_step.mp (h.hash o' ho)
    case inl he => exact he ▸ hne
    case inr he => exact he.left
  constructor
  case stream =>
    refine forall_mem_cons.mpr ⟨ha.stream, fun o' ho => ?_⟩
    cases (canStream_step.mp (h.stream o' ho)).right
    case inl he => exact he ▸ ha.stream
    case inr he => exact he
  case hash =>
    refine forall_mem_cons.mpr ⟨hc, fun o' ho => ?_⟩
    cases canHash_step.mp (h.hash o' ho)
    case inl he => exact he ▸ hc
    case inr he => exact he.right
  case apart =>
    intro o₁ h₁ o₂ h₂
    cases mem_cons.mp h₁
    case inl he₁ =>
      subst he₁
      cases mem_cons.mp h₂
      case inl he₂ => exact he₂ ▸ hne
      case inr h₂ => exact (hs o₂ h₂).symm
    case inr h₁ =>
      cases mem_cons.mp h₂
      case inl he₂ => exact he₂ ▸ hr o₁ h₁
      case inr h₂ => exact h.apart o₁ h₁ o₂ h₂
  case room =>
    have hrest : ∀ o' ∈ outputs, s.nextId o'.stream + (o :: outputs).countP (·.stream = o'.stream) ≤ idLimit := by
      intro o' ho
      have := h.room o' ho
      rw [nextId_step (hs o' ho)] at this
      rw [countP_cons, add_comm (List.countP _ _), ← add_assoc]
      simpa using this
    apply forall_mem_cons.mpr ⟨?_, hrest⟩
    by_cases hm : ∃ o' ∈ outputs, o'.stream = o.stream
    case pos =>
      have ⟨o', ho, he⟩ := hm
      exact he ▸ hrest o' ho
    case neg =>
      have hz : outputs.countP (·.stream = o.stream) = 0 := by
        apply countP_eq_zero.mpr
        intro o' ho
        simpa using fun he => hm ⟨o', ho, he⟩
      rw [countP_cons_of_pos (by simp), hz]
      exact ha.room

theorem addAll_cons (ha : s.Addable o.stream) (hh : (s.added o.stream o.fields).canHash o.runHash) :
    (addAll now (o :: outputs)).run s =
      (do return s.nextId o.stream :: (← addAll now outputs) : Script (List EntryId)).run (step o now s) := by
  rw [addAll, bind_ok (xadd_of_addable ha), bind_ok (hset_of_canHash hh), step]

theorem addAll_no_hash (ha : s.Addable o.stream) (hh : ¬(s.added o.stream o.fields).canHash o.runHash) :
    (addAll now (o :: outputs)).run s = (.error wrongType, s.added o.stream o.fields) := by
  rw [addAll, bind_ok (xadd_of_addable ha), bind_error (hset_of_not_canHash hh)]

theorem addAll_not_addable (ha : ¬s.Addable o.stream) : ∃ e, (addAll now (o :: outputs)).run s = (.error e, s) := by
  have ⟨e, he⟩ := xadd_of_not_addable o.fields ha
  exact ⟨e, bind_error he⟩

theorem addAll_ok (h : Fits outputs s) :
    ∃ ids s', (addAll now outputs).run s = (.ok ids, s') ∧ ids.length = outputs.length ∧
      (∀ key, s'.entries key = s.entries key ++ appended ids outputs key) ∧ s'.group? = s.group? := by
  induction outputs generalizing s
  case nil => exact ⟨[], s, rfl, rfl, fun key => by simp [appended], rfl⟩
  case cons o outputs hi =>
    have hf : Fits outputs (step o now s) := h.step
    obtain ⟨ids, s', hr, hl, he, hg⟩ := hi hf
    refine ⟨s.nextId o.stream :: ids, s', ?_, by simp [hl], fun key => ?_, ?_⟩
    · rw [addAll_cons h.addable h.canHash, bind_ok hr]
      rfl
    · rw [he, step, entries_hashed h.canHash, entries_added h.addable.stream, append_assoc]
      by_cases hk : o.stream = key
      case pos => simp [appended, hk]
      case neg => simp [appended, hk, Ne.symm hk]
    · rw [hg, step, group_hashed h.canHash, group_added h.addable.stream]

theorem addAll_error (h : ¬Fits outputs s) : ∃ e s', (addAll now outputs).run s = (.error e, s') := by
  induction outputs generalizing s
  case nil =>
    apply absurd _ h
    constructor <;> exact fun _ hm => nomatch hm
  case cons o outputs hi =>
    by_cases ha : s.Addable o.stream
    case neg =>
      have ⟨e, he⟩ := @addAll_not_addable s o outputs now ha
      exact ⟨e, s, he⟩
    case pos =>
      by_cases hh : (s.added o.stream o.fields).canHash o.runHash
      case neg => exact ⟨_, _, addAll_no_hash ha hh⟩
      case pos =>
        have hf : ¬Fits outputs (step o now s) := h ∘ Fits.of_step ha hh
        have ⟨e, s', hr⟩ := hi hf
        exact ⟨e, s', (addAll_cons ha hh).trans (bind_error hr)⟩

theorem entries_addAll {key : String} : s.entries key <+: ((addAll now outputs).run s).2.entries key := by
  induction outputs generalizing s
  case nil => exact prefix_rfl
  case cons o outputs hi =>
    by_cases ha : s.Addable o.stream
    case neg =>
      have ⟨e, he⟩ := @addAll_not_addable s o outputs now ha
      exact he ▸ prefix_rfl
    case pos =>
      have hp : s.entries key <+: (s.added o.stream o.fields).entries key := by
        rw [entries_added ha.stream]
        exact prefix_append _ _
      by_cases hh : (s.added o.stream o.fields).canHash o.runHash
      case neg => exact addAll_no_hash ha hh ▸ hp
      case pos =>
        rw [addAll_cons ha hh, bind_pure_snd]
        exact hp.trans (entries_hashed hh ▸ hi)

theorem entries_addAll_ne (ha : s.Addable o.stream) : ((addAll now (o :: outputs)).run s).2.entries ≠ s.entries := by
  have hp : (s.added o.stream o.fields).entries o.stream <+:
      ((addAll now (o :: outputs)).run s).2.entries o.stream := by
    by_cases hh : (s.added o.stream o.fields).canHash o.runHash
    case neg => exact addAll_no_hash ha hh ▸ prefix_rfl
    case pos =>
      rw [addAll_cons ha hh, bind_pure_snd]
      exact entries_hashed hh ▸ entries_addAll
  intro he
  have hl := hp.length_le
  rw [he, entries_added ha.stream, if_pos rfl] at hl
  simp at hl

end ForwardMany

section Script

variable {message : Message} {messages : List Message} {outputs : List ResolvedOutput}

def forwardKeys (message : Message) (outputs : List ResolvedOutput) : List String :=
  outputs.map (·.stream) ++ [message.stream]

def forwardArgs (message : Message) (messages : List Message) (outputs : List ResolvedOutput) : List String :=
  [message.group, toString messages.length, toString outputs.length, runHashPrefix] ++ messages.map (·.id) ++
    outputs.flatMap fun o => [o.runId, o.payload, o.stage]

-- The script, up to the acknowledgement, and with its arguments read.
def forwardAck (srv : Server) (message : Message) (messages : List Message) (outputs : List ResolvedOutput)
    (sourceIds : List String) (ids : List EntryId) : Script (List EntryId) := do
  let acked ← xack srv message.stream message.group (← unpack srv sourceIds)
  if acked ≠ messages.length then do
    ForwardMany.rollback (forwardKeys message outputs) 1 ids
    .fail s!"XACK_FAILED:{acked}"
  else return ids

open ForwardMany in
theorem evalForwardMany_eq : evalForwardMany srv message messages outputs = (do
    let sourceIds ← checkSources srv (forwardArgs message messages outputs) message.stream message.group 1
      messages.length
    checkDestinations (forwardKeys message outputs) 1 outputs.length
    let now ← time
    let ids ← addAll now outputs
    forwardAck srv message messages outputs sourceIds ids) := by
  have hk : nth (forwardKeys message outputs) (outputs.length + 1) = pure message.stream := by
    have := @nth_append (outputs.map (·.stream)) [] message.stream
    simpa [forwardKeys] using this
  have ho : ∀ now, addOutputs (forwardKeys message outputs) (forwardArgs message messages outputs) messages.length
      runHashPrefix now 1 outputs.length = addAll now outputs := by
    intro now
    apply @addOutputs_eq _ [] [message.stream] 1 now messages.length outputs rfl
    simp
    omega
  have hg : nth (forwardArgs message messages outputs) 1 = pure message.group := rfl
  have hm : nth (forwardArgs message messages outputs) 2 = pure (toString messages.length) := rfl
  have hn : nth (forwardArgs message messages outputs) 3 = pure (toString outputs.length) := rfl
  have hp : nth (forwardArgs message messages outputs) 4 = pure runHashPrefix := rfl
  rw [evalForwardMany, ← forwardKeys, ← forwardArgs, luaForwardMany, hg, hm, hn, hp]
  simp only [pure_bind, tonumber_toString, hk, ho]
  rfl

-- Ids as the server writes them are read back, and different ones stay different.
theorem mapM_parse {texts : List String} (h : ∀ id ∈ texts, ∃ i, srv.parse id = some i ∧ srv.text i = id) :
    ∃ is, texts.mapM srv.parse = some is ∧ is.map srv.text = texts := by
  induction texts
  case nil => exact ⟨[], rfl, rfl⟩
  case cons id texts hr =>
    have ⟨i, hi, ht⟩ := h id mem_cons_self
    have ⟨is, hm, hs⟩ := hr fun id hid => h id (mem_cons_of_mem _ hid)
    exact ⟨i :: is, by simp [hi, hm], by simp [ht, hs]⟩

theorem mem_of_map_text {is : List EntryId} {texts : List String} (hs : is.map srv.text = texts) :
    i ∈ is ↔ srv.text i ∈ texts := by
  subst hs
  constructor
  case mp => exact mem_map_of_mem
  case mpr =>
    intro hm
    have ⟨j, hj, he⟩ := mem_map.mp hm
    have := srv.parse_text j
    rw [he, srv.parse_text] at this
    exact Option.some.inj this ▸ hj

variable {ids : List String} {next : List EntryId}

theorem forwardAck_too_many (h : ¬ids.length < srv.unpackLimit) :
    (forwardAck srv message messages outputs ids next).run s = (.error unpacked, s) := by
  apply bind_error
  simp [unpack, h]

theorem forwardAck_ok (h : ids.length < srv.unpackLimit) (hl : ids.length = messages.length) (hne : ids ≠ [])
    (hn : ids.Nodup) (hp : ∀ id ∈ ids, IsPending srv s message.stream message.group id) :
    ∃ is, is.map srv.text = ids ∧ (forwardAck srv message messages outputs ids next).run s =
      (.ok next, s.acked message.stream message.group is) := by
  have ⟨is, hm, hs⟩ := mapM_parse fun id hid => (hp id hid).imp fun _ hi => ⟨hi.left, hi.right.left⟩
  have hpi : ∀ i ∈ is, (s.pending message.stream message.group i).isSome := by
    intro i hi
    have ⟨j, hj, _, hpj⟩ := hp _ ((mem_of_map_text hs).mp hi)
    rw [srv.parse_text] at hj
    exact Option.some.inj hj ▸ hpj
  have ⟨g, hg⟩ : ∃ g, s.group? message.stream message.group = some g := by
    have ⟨id, hid⟩ := exists_mem_of_ne_nil ids hne
    have ⟨i, _, _, hi⟩ := hp id hid
    cases hg : s.group? message.stream message.group
    case none => simp [Db.pending, hg] at hi
    case some g => exact ⟨g, rfl⟩
  have ha := xack_of_parse hne hg hm
  rw [Group.ack_all (List.Nodup.of_map srv.text (hs ▸ hn)) (by simpa [Db.pending, hg] using hpi)] at ha
  have hc : is.length = messages.length := by rw [← hl, ← hs, length_map]
  refine ⟨is, hs, ?_⟩
  have hu : (unpack srv ids).run s = (.ok ids, s) := by simp [unpack, h]
  rw [forwardAck, bind_ok hu, bind_ok ha, if_neg (not_not.mpr hc)]
  rfl

def Message.source (m : Message) : Source :=
  ⟨m.stream, m.group, m.id⟩

def forwardTransfer (messages : List Message) (outputs : List ResolvedOutput) : Transfer where
  sources := messages.map Message.source
  outputs := outputs

-- What validation establishes about the messages.
structure OneSource (message : Message) (messages : List Message) : Prop where
  nonempty : messages ≠ []
  shared : ∀ m ∈ messages, m.stream = message.stream ∧ m.group = message.group
  nodup : (messages.map (·.id)).Nodup

theorem OneSource.isSource_iff {key group : String} (h : OneSource message messages) :
    (forwardTransfer messages outputs).IsSource srv key group i ↔
      message.stream = key ∧ message.group = group ∧ ∃ m ∈ messages, srv.parse m.id = some i := by
  simp only [Transfer.IsSource, forwardTransfer, mem_map, exists_exists_and_eq_and, Message.source]
  constructor
  case mp =>
    rintro ⟨m, hm, hk, hg, hi⟩
    obtain ⟨hs, hg'⟩ := h.shared m hm
    exact ⟨hs ▸ hk, hg' ▸ hg, m, hm, hi⟩
  case mpr =>
    rintro ⟨hk, hg, m, hm, hi⟩
    obtain ⟨hs, hg'⟩ := h.shared m hm
    exact ⟨m, hm, hs.trans hk, hg'.trans hg, hi⟩

theorem forward_done (h : OneSource message messages)
    (hp : ∀ m ∈ messages, IsPending srv s message.stream message.group m.id)
    (hl : next.length = outputs.length) (he : ∀ key, s'.entries key = s.entries key ++ appended next outputs key)
    (hg : s'.group? = s.group?) {is : List EntryId} (hs : is.map srv.text = messages.map (·.id)) :
    Done srv (forwardTransfer messages outputs) next s (s'.acked message.stream message.group is) := by
  have hmem : ∀ i, i ∈ is ↔ ∃ m ∈ messages, srv.parse m.id = some i := by
    intro i
    rw [mem_of_map_text hs, mem_map]
    constructor
    case mp =>
      rintro ⟨m, hm, ht⟩
      exact ⟨m, hm, ht ▸ srv.parse_text i⟩
    case mpr =>
      rintro ⟨m, hm, hi⟩
      obtain ⟨j, hj, ht, _⟩ := hp m hm
      cases hi.symm.trans hj
      exact ⟨m, hm, ht.symm⟩
  have hpend : ∀ key group i, (s'.acked message.stream message.group is).pending key group i =
      if key = message.stream ∧ group = message.group ∧ i ∈ is then none else s.pending key group i := by
    intro key group i
    rw [pending_acked, Db.pending, hg, Db.pending]
  constructor
  case length => exact hl
  case entries => exact fun key => (congrFun entries_acked key).trans (he key)
  case pending =>
    intro source hsource
    obtain ⟨m, hm, he⟩ := mem_map.mp hsource
    obtain ⟨hs, hg⟩ := h.shared m hm
    obtain ⟨i, hi, _, hpi⟩ := hp m hm
    subst he
    exact ⟨i, hi, by rwa [Message.source, hs, hg]⟩
  case acked =>
    intro key group i hi
    obtain ⟨hk, hg, hm⟩ := h.isSource_iff.mp hi
    rw [hpend, if_pos ⟨hk.symm, hg.symm, (hmem i).mpr hm⟩]
  case kept =>
    intro key group i hi
    rw [hpend, if_neg]
    rintro ⟨hk, hg, hm⟩
    exact hi (h.isSource_iff.mpr ⟨hk.symm, hg.symm, (hmem i).mp hm⟩)

-- The script gets as far as its first write.
structure Admitted (srv : Server) (message : Message) (messages : List Message) (outputs : List ResolvedOutput)
    (s : Db) : Prop where
  pending : ∀ m ∈ messages, IsPending srv s message.stream message.group m.id
  streams : ∀ o ∈ outputs, s.canStream o.stream
  first : ∀ o ∈ outputs.head?, s.Addable o.stream

variable {o : ResolvedOutput}

open ForwardMany

theorem forward_sources_ok (hp : ∀ m ∈ messages, IsPending srv s message.stream message.group m.id) :
    (checkSources srv (forwardArgs message messages outputs) message.stream message.group 1 messages.length).run s =
      (.ok (messages.map (·.id)), s) := by
  rw [forwardArgs, ← length_map Message.id]
  exact checkSources_ok rfl (forall_mem_map.mpr hp)

theorem forward_sources_error (hp : ¬∀ m ∈ messages, IsPending srv s message.stream message.group m.id) :
    ∃ e, (checkSources srv (forwardArgs message messages outputs) message.stream message.group 1
      messages.length).run s = (.error e, s) := by
  rw [forwardArgs, ← length_map Message.id]
  exact checkSources_error rfl (mt forall_mem_map.mp hp)

theorem forward_destinations_ok (h : ∀ o ∈ outputs, s.canStream o.stream) :
    (checkDestinations (forwardKeys message outputs) 1 outputs.length).run s = (.ok (), s) := by
  rw [forwardKeys, ← length_map ResolvedOutput.stream, ← nil_append (outputs.map _)]
  exact checkDestinations_ok rfl (forall_mem_map.mpr h)

theorem forward_destinations_error (h : ¬∀ o ∈ outputs, s.canStream o.stream) :
    ∃ e, (checkDestinations (forwardKeys message outputs) 1 outputs.length).run s = (.error e, s) := by
  rw [forwardKeys, ← length_map ResolvedOutput.stream, ← nil_append (outputs.map _)]
  exact checkDestinations_error rfl (mt forall_mem_map.mp h)

theorem evalForwardMany_checked (hp : ∀ m ∈ messages, IsPending srv s message.stream message.group m.id)
    (hd : ∀ o ∈ outputs, s.canStream o.stream) :
    (evalForwardMany srv message messages outputs).run s =
      (addAll (toString (s.clock / 1000)) outputs >>=
        forwardAck srv message messages outputs (messages.map (·.id))).run s := by
  rw [evalForwardMany_eq, bind_ok (forward_sources_ok hp), bind_ok (forward_destinations_ok hd)]
  exact bind_ok rfl

theorem evalForwardMany_refused (h : ¬Admitted srv message messages (o :: outputs) s) :
    ∃ e, (evalForwardMany srv message messages (o :: outputs)).run s = (.error e, s) := by
  by_cases hp : ∀ m ∈ messages, IsPending srv s message.stream message.group m.id
  case neg =>
    have ⟨e, he⟩ := @forward_sources_error srv s message messages (o :: outputs) hp
    exact ⟨e, evalForwardMany_eq ▸ bind_error he⟩
  case pos =>
    by_cases hd : ∀ output ∈ o :: outputs, s.canStream output.stream
    case neg =>
      have ⟨e, he⟩ := @forward_destinations_error s message (o :: outputs) hd
      rw [evalForwardMany_eq, bind_ok (forward_sources_ok hp)]
      exact ⟨e, bind_error he⟩
    case pos =>
      have hf : ¬s.Addable o.stream := fun hf => h ⟨hp, hd, by simpa using hf⟩
      have ⟨e, he⟩ := @addAll_not_addable s o outputs (toString (s.clock / 1000)) hf
      rw [evalForwardMany_checked hp hd]
      exact ⟨e, bind_error he⟩

theorem evalForwardMany_decides (h : OneSource message messages) :
    Decides srv (forwardTransfer messages (o :: outputs)) (evalForwardMany srv message messages (o :: outputs)) s
      (Admitted srv message messages (o :: outputs) s →
        Fits (o :: outputs) s ∧ messages.length < srv.unpackLimit) := by
  by_cases ha : Admitted srv message messages (o :: outputs) s
  case neg =>
    obtain ⟨e, he⟩ := evalForwardMany_refused ha
    exact .of_true (absurd · ha) (allOrNothing_refused he)
  case pos =>
    apply Decides.congr (imp_iff_right ha).symm
    have hr := evalForwardMany_checked ha.pending ha.streams
    have hne := @entries_addAll_ne s o outputs (toString (s.clock / 1000)) (ha.first o rfl)
    by_cases hf : Fits (o :: outputs) s
    case neg =>
      obtain ⟨e, s', he⟩ := @addAll_error s (o :: outputs) (toString (s.clock / 1000)) hf
      rw [bind_error he] at hr
      rw [he] at hne
      exact .of_false (hf ·.left) ⟨e, s', hr, (hne ·.entries)⟩
    case pos =>
      obtain ⟨ids, s', he, hl, hent, hg⟩ := @addAll_ok s (o :: outputs) (toString (s.clock / 1000)) hf
      rw [bind_ok he] at hr
      rw [he] at hne
      by_cases hu : messages.length < srv.unpackLimit
      case neg =>
        rw [forwardAck_too_many (by simpa using hu)] at hr
        exact .of_false (hu ·.right) ⟨_, s', hr, (hne ·.entries)⟩
      case pos =>
        have hp : ∀ m ∈ messages, IsPending srv s' message.stream message.group m.id := by
          simpa [IsPending, Db.pending, hg] using ha.pending
        obtain ⟨is, hs, hk⟩ := @forwardAck_ok srv s' message messages (o :: outputs) (messages.map (·.id)) ids
          (by simpa using hu) (by simp) (by simpa using h.nonempty) h.nodup (forall_mem_map.mpr hp)
        rw [hk] at hr
        exact .of_true ⟨hf, hu⟩ ((allOrNothing_ok hr).mpr (forward_done h ha.pending hl hent hg hs))

theorem evalForwardMany_ok (h : OneSource message messages)
    (hp : ∀ m ∈ messages, IsPending srv s message.stream message.group m.id) (hf : Fits outputs s)
    (hu : messages.length < srv.unpackLimit) :
    ∃ ids s', (evalForwardMany srv message messages outputs).run s = (.ok ids, s') := by
  obtain ⟨ids, s', he, _, _, hg⟩ := @addAll_ok s outputs (toString (s.clock / 1000)) hf
  have hp' : ∀ m ∈ messages, IsPending srv s' message.stream message.group m.id := by
    simpa [IsPending, Db.pending, hg] using hp
  obtain ⟨_, _, hk⟩ := @forwardAck_ok srv s' message messages outputs (messages.map (·.id)) ids
    (by simpa using hu) (by simp) (by simpa using h.nonempty) h.nodup (forall_mem_map.mpr hp')
  rw [evalForwardMany_checked hp hf.stream, bind_ok he]
  exact ⟨_, _, hk⟩

end Script

section Call

open ForwardMany

variable {message first : Message} {messages rest : List Message} {outputs : List Output}

theorem validateSources_ok {seen : List String} (h : validateSources first seen rest = .ok ()) :
    (∀ m ∈ rest, m.stream = first.stream ∧ m.group = first.group) ∧ (rest.map (·.id)).Nodup ∧
      ∀ m ∈ rest, m.id ∉ seen := by
  induction rest generalizing seen
  case nil => simp
  case cons m rest hi =>
    have ⟨_, _, h⟩ := Except.bind_eq_ok.mp h
    split at h
    case isTrue => cases h
    case isFalse hs =>
      split at h
      case isTrue => cases h
      case isFalse hm =>
        have ⟨hr, hn, hd⟩ := hi h
        refine ⟨forall_mem_cons.mpr ⟨by simpa [not_or] using hs, hr⟩, ?_, forall_mem_cons.mpr ⟨hm, ?_⟩⟩
        · rw [map_cons, nodup_cons]
          refine ⟨fun hid => ?_, hn⟩
          have ⟨m', hm', he⟩ := mem_map.mp hid
          exact hd m' hm' (he ▸ mem_cons_self)
        · exact fun m' hm' hid => hd m' hm' (mem_cons_of_mem _ hid)

theorem validateForwardManySources_ok (h : validateForwardManySources (message :: rest) = .ok ()) :
    OneSource message (message :: rest) := by
  have ⟨_, _, h⟩ := Except.bind_eq_ok.mp h
  have ⟨hs, hn, hd⟩ := validateSources_ok h
  constructor
  case nonempty => exact cons_ne_nil _ _
  case shared => exact forall_mem_cons.mpr ⟨⟨rfl, rfl⟩, hs⟩
  case nodup =>
    rw [map_cons, nodup_cons]
    refine ⟨fun hid => ?_, hn⟩
    have ⟨m, hm, he⟩ := mem_map.mp hid
    exact hd m hm (he ▸ mem_cons_self)

-- The outputs with the defaults that the first message gives them.
def resolveOutputs (messages : List Message) (outputs : List Output) : List ResolvedOutput :=
  messages.head?.elim [] fun message => outputs.map (resolveOutput message)

-- What a call needs once it starts to write.
def ForwardSound (srv : Server) (messages : List Message) (outputs : List Output) (s : Db) : Prop :=
  ∀ message ∈ messages.head?, validateForwardManySources messages = .ok () →
    validateForwardManyOutputs outputs = .ok () → Admitted srv message messages (resolveOutputs messages outputs) s →
      Fits (resolveOutputs messages outputs) s ∧ messages.length < srv.unpackLimit

theorem forwardManyFrom_invalid
    (h : ¬(validateForwardManySources messages = .ok () ∧ validateForwardManyOutputs outputs = .ok ())) :
    ∃ e, (forwardManyFrom srv messages outputs).run s = (.error e, s) := by
  unfold forwardManyFrom
  cases hs : validateForwardManySources messages
  case error e => exact ⟨e, bind_error rfl⟩
  case ok =>
    cases ho : validateForwardManyOutputs outputs
    case error e => exact ⟨e, (bind_ok rfl).trans (bind_error rfl)⟩
    case ok => exact absurd ⟨hs, ho⟩ h

theorem forwardManyFrom_valid (hs : validateForwardManySources (message :: rest) = .ok ())
    (ho : validateForwardManyOutputs outputs = .ok ()) :
    forwardManyFrom srv (message :: rest) outputs =
      evalForwardMany srv message (message :: rest) (outputs.map (resolveOutput message)) := by
  rw [forwardManyFrom, hs, ho]
  rfl

theorem forwardManyFrom_decides :
    Decides srv (forwardTransfer messages (resolveOutputs messages outputs)) (forwardManyFrom srv messages outputs) s
      (ForwardSound srv messages outputs s) := by
  by_cases h : validateForwardManySources messages = .ok () ∧ validateForwardManyOutputs outputs = .ok ()
  case neg =>
    have ⟨_, he⟩ := @forwardManyFrom_invalid srv s messages outputs h
    exact .of_true (fun _ _ hs ho => absurd ⟨hs, ho⟩ h) (allOrNothing_refused he)
  case pos =>
    have ⟨hs, ho⟩ := h
    cases messages
    case nil => cases hs
    case cons message rest =>
      cases outputs
      case nil => cases ho
      case cons o outputs =>
        rw [forwardManyFrom_valid hs ho]
        apply (evalForwardMany_decides (validateForwardManySources_ok hs)).congr
        simp [ForwardSound, hs, ho, resolveOutputs]

structure ForwardAccepted (srv : Server) (message : Message) (rest : List Message) (outputs : List Output) (s : Db) :
    Prop where
  valid : validateForwardManySources (message :: rest) = .ok ()
  validOut : validateForwardManyOutputs outputs = .ok ()
  pending : ∀ m ∈ message :: rest, IsPending srv s message.stream message.group m.id
  fits : Fits (outputs.map (resolveOutput message)) s
  limit : rest.length + 1 < srv.unpackLimit

theorem forwardManyFrom_accepted (h : ForwardAccepted srv message rest outputs s) :
    ∃ ids s', (forwardManyFrom srv (message :: rest) outputs).run s = (.ok ids, s') := by
  rw [forwardManyFrom_valid h.valid h.validOut]
  exact evalForwardMany_ok (validateForwardManySources_ok h.valid) h.pending h.fits h.limit

end Call

end Queue
