import ServeModel.Collect.Workers

-- What the commands of the workers keep: the group of an open parent only grows, and whoever hands the parent
-- off has seen all of it.
namespace Collect

open System List GroupState

variable {ι : Type} {S : Setting} {w w₁ w₂ w₃ : World ι} {g : GroupState}

theorem Attempt.state (h : Attempt f s r s') : s' = (f s).2 ∨ s' = s := by
  cases h
  case inl h => exact .inl h.right
  case inr h => exact h.right

theorem Attempt.reply (h : Attempt f s (.ok a) s') : a = (f s).1 ∧ s' = (f s).2 := by
  cases h
  case inl h => exact ⟨Except.ok.inj h.left, h.right⟩
  case inr h =>
    have ⟨⟨_, he⟩, _⟩ := h
    cases he

namespace World

def ids (w : World ι) : List String :=
  w.group.items.map (·.childRunId)

@[simp] theorem put_group : (w.put g).group = g := rfl
@[simp] theorem put_terminal : (w.put g).terminal = w.terminal := rfl
@[simp] theorem put_tokens : (w.put g).tokens = w.tokens := rfl
@[simp] theorem put_emitted : (w.put g).emitted = w.emitted := rfl
@[simp] theorem put_acked : (w.put g).acked = w.acked := rfl
@[simp] theorem put_committed : (w.put g).committed = (w.committed || decide g.committed) := rfl

end World

namespace Setting

-- Every acknowledged result is meant to be kept.
def Lossless (S : Setting) : Prop :=
  S.patient ∨ S.policy = .collectAll

def childRunId (m : Message) : String :=
  match decodeCollectPayload m.payload with
  | .ok (_, payload) => typedChildRunId payload m.runId
  | .error _ => m.runId

-- The message has exactly one entry for each child.
def Complete (S : Setting) (e : ParentMessage) : Prop :=
  ∃ ids, e.childRunIds = some ids ∧ ids.Nodup ∧ ids.toFinset = S.children

-- The parent while its finalization has not been committed.
structure Filling (S : Setting) (w : World ι) : Prop where
  metadata : w.group.metadata = some S.group
  terminal : w.terminal = false
  emitted : w.emitted = []
  nodup : w.ids.Nodup
  runIds : w.group.runIds = w.ids.toFinset
  children : w.group.runIds ⊆ S.children
  full : S.policy = .collectAll → w.group.finalization.isSome → S.children.card ≤ w.group.items.length
  acked : S.Lossless → ∀ m ∈ w.acked, childRunId m ∈ w.ids

structure Kept (S : Setting) (w : World ι) : Prop where
  marker : w.group.committed → w.committed
  filling : ¬w.committed → S.Filling w
  closed : ¬S.expiring → w.committed → w.group.committed
  tokens : ∀ {t i}, w.tokens t = some i → ¬isCommittedValue t
  once : ¬S.expiring → w.emitted.length ≤ 1
  complete : ¬S.expiring → S.policy = .collectAll → ∀ e ∈ w.emitted, S.Complete e

end Setting

-- What the step of a worker means to the ones in `P`: tokens keep their owners, the group grows until the
-- commit, and it does not change under a claim that one of them holds.
structure Change (P : ι → Prop) (w w' : World ι) : Prop where
  tokens : ∀ {t i}, w.tokens t = some i → w'.tokens t = some i
  opened : ¬w'.committed → ¬w.committed
  grows : ¬w'.committed → w.group.items <+: w'.group.items
  claim : ∀ {t i}, P i → w.tokens t = some i → ¬w'.committed → w'.group.finalization = some t →
    w.group.finalization = some t ∧ w'.group.items = w.group.items

namespace Change

theorem refl (P : ι → Prop) (w : World ι) : Change P w w :=
  ⟨id, id, fun _ => prefix_rfl, fun _ _ _ h => ⟨h, rfl⟩⟩

theorem trans (h₁ : Change P w₁ w₂) (h₂ : Change P w₂ w₃) : Change P w₁ w₃ where
  tokens h := h₂.tokens (h₁.tokens h)
  opened h := h₁.opened (h₂.opened h)
  grows h := (h₁.grows (h₂.opened h)).trans (h₂.grows h)
  claim hp ht ho hf := by
    have ⟨hf, hi⟩ := h₂.claim hp (h₁.tokens ht) ho hf
    have ⟨hf, hi'⟩ := h₁.claim hp ht (h₂.opened ho) hf
    exact ⟨hf, hi.trans hi'⟩

theorem mono (h : Change P w₁ w₂) (hp : ∀ i, P' i → P i) : Change P' w₁ w₂ :=
  ⟨h.tokens, h.opened, h.grows, fun hi => h.claim (hp _ hi)⟩

-- After the commit nothing matters any more.
theorem of_committed (ht : ∀ {t i}, w₁.tokens t = some i → w₂.tokens t = some i) (h : w₂.committed) :
    Change P w₁ w₂ :=
  ⟨ht, fun hn => absurd h hn, fun hn => absurd h hn, fun _ _ hn => absurd h hn⟩

end Change

def outline [DecidableEq ι] (S : Setting) : Outline (S.workers ι) where
  inv := S.Kept
  rely i := Change (· = i)
  guar i := Change (· ≠ i)
  post _ x w := x.2 = .ok () → S.Lossless → ¬w.committed → Setting.childRunId x.1 ∈ w.ids
  rely_refl _ := Change.refl _
  rely_trans _ := Change.trans

section Commands

variable {P : ι → Prop}

theorem isCommittedValue_committed : isCommittedValue (committedFinalizationValue t) = true := by
  simp [isCommittedValue, committedFinalizationValue]

theorem GroupState.committed_iff : g.committed ↔ ∃ v, g.finalization = some v ∧ isCommittedValue v := by
  simp [GroupState.committed, Option.any_eq_true]

theorem Setting.Kept.not_committed (k : S.Kept w) (ht : w.tokens t = some i) (h : w.group.finalization = some t) :
    ¬w.group.committed := by
  rw [committed_iff]
  intro ⟨v, hv, hc⟩
  cases h.symm.trans hv
  exact k.tokens ht hc

-- A step that keeps the invariant and leaves the workers in `P` alone.
structure Safe (S : Setting) (P : ι → Prop) (w w' : World ι) : Prop where
  kept : S.Kept w'
  change : Change P w w'

theorem Safe.refl (k : S.Kept w) : Safe S P w w :=
  ⟨k, .refl _ w⟩

theorem Setting.Kept.put_self (k : S.Kept w) : w.put w.group = w := by
  have hc : (w.committed || decide w.group.committed) = w.committed := by
    by_cases h : w.group.committed
    case pos => simp [h, k.marker h]
    case neg => simp [h]
  simp [World.put, hc]

-- After the commit the only thing that counts is the marker.
theorem Setting.Kept.put_of_committed (k : S.Kept w) (hc : w.committed)
    (hm : w.group.committed → g.committed) : S.Kept (w.put g) where
  marker _ := by simp [hc]
  filling hn := absurd (by simp [hc]) hn
  closed he _ := hm (k.closed he hc)
  tokens := k.tokens
  once := k.once
  complete := k.complete

theorem Safe.put_of_committed (k : S.Kept w) (hc : w.committed) (hm : w.group.committed → g.committed) :
    Safe S P w (w.put g) :=
  ⟨k.put_of_committed hc hm, .of_committed id (by simp [hc])⟩

theorem safe_discard (k : S.Kept w) (hc : w.committed) : Safe S P w (w.put w.group.discard) := by
  apply Safe.put_of_committed k hc
  intro h
  have ⟨v, hv, hm⟩ := committed_iff.mp h
  exact committed_iff.mpr ⟨v, by simp [GroupState.discard, hv, hm], hm⟩

theorem safe_commit (k : S.Kept w) (ht : w.tokens t = some i) (hc : w.committed) :
    Safe S P w (w.put (w.group.commit t (committedFinalizationValue t)).2) := by
  apply Safe.put_of_committed k hc
  intro h
  have hn : w.group.finalization ≠ some t := fun hf => k.not_committed ht hf h
  simp only [GroupState.commit, if_neg hn]
  split
  case isTrue | isFalse => exact h

theorem safe_terminal (k : S.Kept w) (hc : w.committed) : Safe S P w { w with terminal := true } :=
  ⟨⟨k.marker, fun hn => absurd hc hn, k.closed, k.tokens, k.once, k.complete⟩, .of_committed id hc⟩

-- The parent stays open, and its finalization state is the only thing that changes.
theorem Safe.put_finalization (k : S.Kept w) (hn : ¬w.group.committed) (hc : ∀ v, f = some v → ¬isCommittedValue v)
    (hf : ¬w.committed → S.policy = .collectAll → f.isSome → S.children.card ≤ w.group.items.length)
    (ho : ∀ {t j}, P j → w.tokens t = some j → f = some t → w.group.finalization = some t) :
    Safe S P w (w.put { w.group with finalization := f }) := by
  have hg : ¬GroupState.committed { w.group with finalization := f } := by
    rw [committed_iff]
    exact fun ⟨v, hv, hm⟩ => hc v hv hm
  have he : (w.put { w.group with finalization := f }).committed = w.committed := by simp [hg]
  constructor
  case kept =>
    exact {
      marker := fun h => absurd h hg
      filling := fun h =>
        have k' := k.filling (he ▸ h)
        ⟨k'.metadata, k'.terminal, k'.emitted, k'.nodup, k'.runIds, k'.children, hf (he ▸ h), k'.acked⟩
      closed := fun hx h => absurd (k.closed hx (he ▸ h)) hn
      tokens := k.tokens
      once := k.once
      complete := k.complete }
  case change =>
    exact ⟨id, fun h => he ▸ h, fun _ => prefix_rfl, fun hp ht _ h => ⟨ho hp ht h, rfl⟩⟩

theorem safe_claim (k : S.Kept w) (ht : w.tokens t = some i)
    (hf : S.policy = .collectAll → ¬w.committed → S.children.card ≤ w.group.items.length) :
    Safe S (· ≠ i) w (w.put (w.group.claim t).2) := by
  by_cases hn : w.group.finalization.isNone
  case neg =>
    rw [GroupState.claim, if_neg hn, k.put_self]
    exact .refl k
  case pos =>
    rw [GroupState.claim, if_pos hn]
    apply Safe.put_finalization k
    case hn =>
      rw [committed_iff]
      intro ⟨v, hv, _⟩
      simp [hv] at hn
    case hc =>
      intro v hv
      cases hv
      exact k.tokens ht
    case hf => exact fun ho hp _ => hf hp ho
    case ho =>
      intro u j hj hu h
      cases h
      exact absurd (Option.some.inj (hu.symm.trans ht)) hj

theorem safe_release (k : S.Kept w) (ht : w.tokens t = some i) : Safe S P w (w.put (w.group.release t)) := by
  by_cases hf : w.group.finalization = some t
  case neg =>
    rw [GroupState.release, if_neg hf, k.put_self]
    exact .refl k
  case pos =>
    rw [GroupState.release, if_pos hf]
    apply Safe.put_finalization k (k.not_committed ht hf)
    case hc => exact fun _ h => nomatch h
    case hf | ho => exact fun _ _ h => nomatch h

theorem safe_token (k : S.Kept w) (hn : w.tokens t = none) (hc : ¬isCommittedValue t) :
    Safe S P w { w with tokens := Function.update w.tokens t (some i) } := by
  have ht : ∀ {u j}, w.tokens u = some j → Function.update w.tokens t (some i) u = some j := by
    intro u j hu
    rw [Function.update_of_ne, hu]
    intro h
    cases h
    cases hn.symm.trans hu
  constructor
  case kept =>
    constructor
    case marker => exact k.marker
    case filling =>
      intro h
      have k' := k.filling h
      exact ⟨k'.metadata, k'.terminal, k'.emitted, k'.nodup, k'.runIds, k'.children, k'.full, k'.acked⟩
    case closed => exact k.closed
    case once => exact k.once
    case complete => exact k.complete
    case tokens =>
      intro u j hu
      by_cases h : u = t
      case pos => exact h ▸ hc
      case neg => exact k.tokens ((Function.update_of_ne h ..).symm.trans hu)
  case change => exact ⟨ht, id, fun _ => prefix_rfl, fun _ _ _ h => ⟨h, rfl⟩⟩

-- The handoff is made under the worker's own claim, or it does nothing.
theorem safe_handoff (k : S.Kept w) (ht : w.tokens t = some i)
    (hc : ¬w.committed → w.group.finalization = some t → S.policy = .collectAll → S.Complete e) :
    Safe S P w (w.handoff e t) := by
  by_cases hf : w.group.finalization = some t
  case neg =>
    rw [World.handoff, if_neg hf]
    exact .refl k
  case pos =>
    rw [World.handoff, if_pos hf]
    have hm : GroupState.committed { w.group with finalization := some (committedFinalizationValue t) } :=
      committed_iff.mpr ⟨_, rfl, isCommittedValue_committed⟩
    -- unless markers expire, nothing has been handed off before
    have ho : ¬S.expiring → ¬w.committed := fun he h => k.not_committed ht hf (k.closed he h)
    have hw : ¬S.expiring → w.emitted = [] := fun he => (k.filling (ho he)).emitted
    constructor
    case change => exact .of_committed id (by simp [hm])
    case kept =>
      exact {
        marker := fun _ => by simp [hm]
        filling := fun hn => absurd (by simp [hm]) hn
        closed := fun _ _ => hm
        tokens := k.tokens
        once := fun he => by simp [hw he]
        complete := fun he hp e' he' => by
          simp only [hw he, nil_append, mem_singleton] at he'
          exact he' ▸ hc (ho he) hf hp }

end Commands

section Append

variable {result : CollectedMemberResult}

-- What the script that adds a result does, and what it replies.
inductive Appends (result : CollectedMemberResult) (g : GroupState) : List Int → GroupState → Prop
  | missing : (g.metadata = none) → Appends result g [-1, 0, 0, 0, 0] g
  | refused : g.finalization.isSome → Appends result g (-2 :: g.items.length :: g.statValues) g
  | known : (result.childRunId ∈ g.runIds) → Appends result g (0 :: g.items.length :: g.statValues) g
  | added : g.metadata.isSome → (g.finalization = none) → (result.childRunId ∉ g.runIds) →
      (g'.metadata = g.metadata) → (g'.finalization = none) → (g'.items = g.items ++ [result]) →
      (g'.runIds = insert result.childRunId g.runIds) →
      Appends result g (1 :: g'.items.length :: g'.statValues) g'

theorem GroupState.appends (g : GroupState) (result : CollectedMemberResult) (status : MemberResultStatus) :
    Appends result g (g.append result status).1 (g.append result status).2 := by
  unfold GroupState.append
  split
  case isTrue h => exact .missing (by simpa using h)
  case isFalse hm =>
  split
  case isTrue h => exact .refused h
  case isFalse hf =>
  split
  case isTrue h => exact .known h
  case isFalse h =>
    exact .added (Option.isSome_iff_ne_none.mpr (by simpa using hm))
      (by simpa using hf) h rfl (by simpa using hf) rfl rfl

theorem safe_append (k : S.Kept w) (hc : result.childRunId ∈ S.children) (h : Appends result w.group values g) :
    Safe S P w (w.put g) := by
  cases h
  case missing | refused | known =>
    rw [k.put_self]
    exact .refl k
  case added hf hn hm hf' hi hr =>
    have hg : ¬w.group.committed := by simp [committed_iff, hf]
    have hg' : ¬g.committed := by simp [committed_iff, hf']
    have he : (w.put g).committed = w.committed := by simp [hg']
    have hids : (w.put g).ids = w.ids ++ [result.childRunId] := by simp [World.ids, hi]
    constructor
    case change =>
      constructor
      case tokens => exact id
      case opened => exact fun h => he ▸ h
      case grows => exact fun _ => hi ▸ prefix_append ..
      case claim => exact fun _ _ _ h => nomatch hf'.symm.trans h
    case kept =>
      constructor
      case marker => exact fun h => absurd h hg'
      case closed => exact fun hx h => absurd (k.closed hx (he ▸ h)) hg
      case tokens => exact k.tokens
      case once => exact k.once
      case complete => exact k.complete
      case filling =>
        intro h
        have k' := k.filling (he ▸ h)
        have hmem : result.childRunId ∉ w.ids := fun h => hn (k'.runIds ▸ mem_toFinset.mpr h)
        constructor
        case metadata => exact hm.trans k'.metadata
        case terminal => exact k'.terminal
        case emitted => exact k'.emitted
        case nodup =>
          rw [hids]
          exact k'.nodup.append (nodup_singleton _) (by simpa using hmem)
        case runIds => simp [hids, hr, k'.runIds]
        case children => exact hr ▸ Finset.insert_subset hc k'.children
        case full => exact fun _ h => by simp [hf'] at h
        case acked => exact fun hl m hm => hids ▸ mem_append_left _ (k'.acked hl m hm)

end Append

section Facts

-- Facts about the open parent that a worker can count on once it knows them.

def Full (S : Setting) (w : World ι) : Prop :=
  ¬w.committed → S.children.card ≤ w.group.items.length

def Stored (child : String) (w : World ι) : Prop :=
  ¬w.committed → child ∈ w.ids

theorem Change.full (h : Change P w₁ w₂) (hf : Full S w₁) : Full S w₂ :=
  fun ho => (hf (h.opened ho)).trans (h.grows ho).length_le

theorem Change.stored (h : Change P w₁ w₂) (hs : Stored child w₁) : Stored child w₂ :=
  fun ho => ((h.grows ho).map _).subset (hs (h.opened ho))

theorem Change.committed (h : Change P w₁ w₂) (hc : w₁.committed) : w₂.committed :=
  by_contra fun hn => h.opened hn hc

theorem Setting.Filling.ids_of_full (k : S.Filling w) (h : S.children.card ≤ w.group.items.length) :
    w.ids.toFinset = S.children := by
  apply Finset.eq_of_subset_of_card_le (k.runIds ▸ k.children)
  rw [toFinset_card_of_nodup k.nodup]
  simpa [World.ids] using h

end Facts

end Collect
