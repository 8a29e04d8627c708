import ServeModel.Scheduler.Theorems.Preflight

-- What a reservation comes to: the resources that a successful one has chosen, and the store that a failed
-- one leaves.
namespace Scheduler

open Routine List

namespace MemoryStore

variable {store other : MemoryStore} {id : Nat}

def SameAt (store other : MemoryStore) (id : Nat) : Prop :=
  store.accounted id = other.accounted id ∧ store.active id = other.active id

-- The same amounts, where an entry that is missing is the amount 0.
def LevelAt (store other : MemoryStore) (id : Nat) : Prop :=
  (store.accounted id).getD 0 = (other.accounted id).getD 0 ∧
    (store.active id).getD 0 = (other.active id).getD 0

-- An idle resource has not been touched since, or its entries have been deleted.
def Since (store origin : MemoryStore) : Prop :=
  ∀ id, store.Idle id → store.SameAt origin id ∨ (store.accounted id).getD 0 = 0

-- What the script of a reservation accounts for on a resource without an active one.
def total (store : MemoryStore) (memoryMb : Nat) (resource : ResourceInfo) : Nat :=
  Double.round (max ((store.accounted resource.resourceId).getD 0) (Double.round resource.usedMemoryMb) +
    Double.round memoryMb)

theorem SameAt.level (h : store.SameAt other id) : store.LevelAt other id := by
  simp [LevelAt, h.1, h.2]

theorem SameAt.refl (store : MemoryStore) (id : Nat) : store.SameAt store id :=
  ⟨rfl, rfl⟩

theorem SameAt.trans (h : store.SameAt other id) (ho : other.SameAt origin id) : store.SameAt origin id :=
  ⟨h.1.trans ho.1, h.2.trans ho.2⟩

theorem Since.refl (store : MemoryStore) : store.Since store :=
  fun _ _ => .inl (.refl _ _)

theorem Since.trans (h : store.Since other) (ho : other.Since origin) : store.Since origin := by
  intro id hi
  rcases h id hi with hs | hz
  case inr => exact .inr hz
  case inl =>
    have hother : other.Idle id := by rw [Idle, ← hs.2]; exact hi
    rcases ho id hother with hs' | hz
    · exact .inl (hs.trans hs')
    · exact .inr (by rw [hs.1, hz])

theorem Since.accounted_le (h : store.Since origin) (hi : store.Idle id) :
    (store.accounted id).getD 0 ≤ (origin.accounted id).getD 0 := by
  rcases h id hi with hs | hz
  · rw [hs.1]
  · omega

end MemoryStore

open MemoryStore (SameAt LevelAt Idle delete total)
open ResourceReservationTable (reserve)

-- The store during a reservation, and the store as it would be had this reservation never been tried.
structure Trial where
  store : MemoryStore
  untried : MemoryStore

namespace Trial

-- What other schedulers do meanwhile. They do it to both stores, and to no resource that this reservation
-- has claimed, which are the ones that the two stores differ at. Their scripts leave a resource idle only
-- where they refuse or delete.
structure Others (w w' : Trial) : Prop where
  apart : ∀ id, ¬w.store.SameAt w.untried id → w'.store.SameAt w.store id ∧ w'.untried.SameAt w.untried id
  alike : ∀ id, w.store.SameAt w.untried id → w'.store.SameAt w'.untried id
  since : w'.untried.Since w.untried

-- A script fails before it has run or, where replies can get lost, after it. Compensating decrements do
-- succeed, whatever their caller hears of it.
def exec (lost : Prop) : Machine Op Trial
  | _, .hmgetActive ids, w, r, w' =>
    w' = w ∧ ((∃ reply, r = .ok reply ∧ ActiveReply w.store ids reply) ∨ ∃ e, r = .error e)
  | _, .reserveIdle id floor delta, w, r, w' =>
    ∃ v, w.Others v ∧
      ((∃ values, r = .ok values ∧ List.Forall₂ IntegerReply (v.store.reserveIdle id floor delta).1 values ∧
          w' = { v with store := (v.store.reserveIdle id floor delta).2 }) ∨
        ∃ e, r = .error e ∧
          (w' = v ∨ lost ∧ w' = { v with store := (v.store.reserveIdle id floor delta).2 }))
  | _, .decrementReserved id amount, w, _, w' =>
    ∃ v, w.Others v ∧ w' = { v with store := (v.store.decrement id amount).2 }
  | _, _, w, _, w' => w.Others w'

variable {w w' : Trial} {id memoryMb : Nat}

-- This reservation holds the resource, which nobody else has a reservation on.
def Claimed (w : Trial) (memoryMb id : Nat) : Prop :=
  w.store.active id = some (Double.round memoryMb) ∧ w.untried.Idle id

theorem Claimed.not_same (h : w.Claimed memoryMb id) (hm : 0 < Double.round memoryMb) :
    ¬w.store.SameAt w.untried id := by
  intro hs
  have hi := h.2
  rw [Idle, ← hs.2, h.1] at hi
  exact hm.ne' hi

theorem Others.claimed (ho : w.Others w') (h : w.Claimed memoryMb id) (hm : 0 < Double.round memoryMb) :
    w'.Claimed memoryMb id := by
  have ⟨hs, hu⟩ := ho.apart id (h.not_same hm)
  rw [Claimed, Idle, hs.2, hu.2]
  exact h

theorem Others.level (ho : w.Others w') (h : w.store.LevelAt w.untried id) :
    w'.store.LevelAt w'.untried id := by
  by_cases hs : w.store.SameAt w.untried id
  case pos => exact (ho.alike id hs).level
  case neg =>
    have ⟨hs, hu⟩ := ho.apart id hs
    rw [LevelAt, hs.1, hs.2, hu.1, hu.2]
    exact h

-- The store with claims on some resources that nothing was accounted for on, and nothing else changed.
structure Holding (origin : MemoryStore) (memoryMb : Nat) (ids : List Nat) (w : Trial) : Prop where
  claimed : ∀ id ∈ ids, w.Claimed memoryMb id
  level : ∀ id, id ∉ ids → w.store.LevelAt w.untried id
  since : w.untried.Since origin
  clean : ∀ id ∈ ids, (origin.accounted id).getD 0 = 0

variable {origin : MemoryStore} {ids : List Nat}

theorem Holding.others (h : w.Holding origin memoryMb ids) (hm : 0 < Double.round memoryMb)
    (ho : w.Others w') : w'.Holding origin memoryMb ids where
  claimed id hi := ho.claimed (h.claimed id hi) hm
  level id hi := ho.level (h.level id hi)
  since := ho.since.trans h.since
  clean := h.clean

theorem Holding.accounted (h : w.Holding origin memoryMb ids) (hi : id ∈ ids) :
    (w.untried.accounted id).getD 0 = 0 :=
  Nat.le_zero.mp ((h.since.accounted_le (h.claimed id hi).2).trans_eq (h.clean id hi))

-- A failed attempt has left the store as if it had not been made.
def Restored (x : Except Failure α) (w : Trial) : Prop :=
  ∀ e, x = .error e → ∀ id, w.store.LevelAt w.untried id

end Trial

-- The resources that the store is asked for. One that reports more memory in use than a signed integer can
-- hold is an error before that.
def asked (chosen : List ResourceInfo) : List ResourceInfo :=
  chosen.takeWhile (·.usedMemoryMb < 2 ^ 63)

-- A failure to claim the resources can be taken back: no reply gets lost, the total that the store replies for
-- a resource is a 64 bit integer, and nothing else is accounted for on a resource that may be given back.
structure Restorable (lost : Prop) (store : MemoryStore) (memoryMb : Nat) (chosen : List ResourceInfo) :
    Prop where
  answered : lost → asked chosen = []
  answerable : ∀ r ∈ asked chosen, store.total memoryMb r < 2 ^ 63
  clean : ∀ r ∈ asked chosen, r ∈ chosen.dropLast → (store.accounted r.resourceId).getD 0 = 0

section Claims

variable {τ : Type} {t : τ} {w v : Trial} {lost : Prop} {mem id : Nat} {ids : List Nat}
  {origin store : MemoryStore} {resource : ResourceInfo} {rest candidates : List ResourceInfo}
  {claimed : List ReservedResource}

theorem asked_cons (h : resource.usedMemoryMb < 2 ^ 63) : asked (resource :: rest) = resource :: asked rest :=
  takeWhile_cons_of_pos (decide_eq_true h)

theorem Restorable.of_asked (h : asked candidates = []) : Restorable lost store mem candidates where
  answered _ := h
  answerable _ hr := by simp [h] at hr
  clean _ hr := by simp [h] at hr

-- Only the claim on the last of the resources is never given back.
theorem restorable_cons_iff (hu : resource.usedMemoryMb < 2 ^ 63) :
    Restorable lost store mem (resource :: rest) ↔
      (¬lost ∧ store.total mem resource < 2 ^ 63 ∧
        (rest ≠ [] → (store.accounted resource.resourceId).getD 0 = 0)) ∧
      Restorable lost store mem rest := by
  have hd (r : ResourceInfo) : r ∈ (resource :: rest).dropLast ↔
      rest ≠ [] ∧ (r = resource ∨ r ∈ rest.dropLast) := by
    rcases rest with _ | ⟨next, rest⟩ <;> simp
  constructor
  case mp =>
    intro ⟨hl, ht, hc⟩
    simp only [asked_cons hu, hd, forall_mem_cons] at hl ht hc
    have hlost : ¬lost := fun h => cons_ne_nil _ _ (hl h)
    refine ⟨⟨hlost, ht.1, fun hr => hc.1 ⟨hr, .inl trivial⟩⟩, fun h => absurd h hlost, ht.2, ?_⟩
    grind
  case mpr =>
    intro ⟨⟨hl, ht, hc⟩, _, hts, hcs⟩
    constructor <;> simp only [asked_cons hu, hd]
    case answered => exact fun h => absurd h hl
    case answerable => exact forall_mem_cons.mpr ⟨ht, hts⟩
    case clean => grind

theorem decrement_claimed (h : store.active id = some (Double.round mem)) :
    (store.decrement id mem).2 = store.delete id := by
  simp [MemoryStore.decrement, h]

theorem Trial.Holding.decrement (h : v.Holding origin mem (id :: ids)) (hn : id ∉ ids) :
    Trial.Holding origin mem ids { v with store := (v.store.decrement id mem).2 } := by
  have ⟨ha, hu⟩ := h.claimed id mem_cons_self
  have hz := h.accounted mem_cons_self
  rw [decrement_claimed ha]
  constructor
  case since => exact h.since
  case clean => exact fun i hi => h.clean i (mem_cons_of_mem _ hi)
  case claimed =>
    intro i hi
    have hne : i ≠ id := fun he => hn (he ▸ hi)
    have hc := h.claimed i (mem_cons_of_mem _ hi)
    exact ⟨by simpa [delete, hne] using hc.1, hc.2⟩
  case level =>
    intro i hi
    by_cases he : i = id
    case pos =>
      subst he
      simpa [LevelAt, delete, hz, Idle, eq_comm] using hu
    case neg =>
      simpa [LevelAt, delete, he] using
        h.level i (not_mem_cons_of_ne_of_not_mem he hi)

theorem wp_decrement_trial (hm : mem < 2 ^ 63)
    (h : ∀ x v, w.Others v → Q x t { v with store := (v.store.decrement id mem).2 }) :
    wp (.alone (Trial.exec lost)) (decrement id mem) Q t w := by
  simp only [Scheduler.decrement, wp_bind, wp_ite]
  rw [if_neg (Nat.not_le.mpr hm), RoleM.wp_perform_alone]
  rintro r w' ⟨v, ho, hw⟩
  subst hw
  rw [andThen_ok, wp_bind, wp_ofExcept]
  rcases r with e | _ | ⟨after, rest⟩
  · exact h _ _ ho
  · exact h _ _ ho
  · rw [andThen_ok]
    rw [wp_ite]
    split <;> exact h _ _ ho

theorem wp_releaseClaims_trial (hn : ids.Nodup) (hm : mem < 2 ^ 63) (hp : 0 < Double.round mem)
    (h : w.Holding origin mem ids) :
    wp (.alone (Trial.exec lost)) (releaseClaims mem ids)
      (fun x _ w' => x = .ok () ∧ w'.Holding origin mem []) t w := by
  induction ids generalizing t w
  case nil => exact ⟨rfl, h⟩
  case cons id ids hi =>
    have ⟨hid, hn⟩ := nodup_cons.mp hn
    simp only [releaseClaims, wp_bind, wp_observe]
    refine wp_decrement_trial hm fun _ v ho => ?_
    exact hi hn ((h.others hp ho).decrement hid)

theorem Trial.Holding.claim (h : v.Holding origin mem ids) (hn : id ∉ ids) (hi : v.untried.Idle id)
    (hz : (origin.accounted id).getD 0 = 0) (total : Nat) :
    Trial.Holding origin mem (ids ++ [id]) { v with store := v.store.set id total (Double.round mem) } := by
  constructor
  case since => exact h.since
  case clean =>
    intro i hm
    rcases mem_append.mp hm with hm | hm
    · exact h.clean i hm
    · cases mem_singleton.mp hm
      exact hz
  case claimed =>
    intro i hm
    rcases mem_append.mp hm with hm | hm
    · have hne : i ≠ id := fun he => hn (he ▸ hm)
      have hc := h.claimed i hm
      exact ⟨by simpa [MemoryStore.set, hne] using hc.1, hc.2⟩
    · cases mem_singleton.mp hm
      exact ⟨by simp [MemoryStore.set], hi⟩
  case level =>
    intro i hm
    obtain ⟨hm, he⟩ := not_or.mp (mem_append.not.mp hm)
    have he : i ≠ id := mem_singleton.not.mp he
    simpa [LevelAt, MemoryStore.set, he] using h.level i hm

-- A claim is made and known to be made, or nothing is changed.
theorem wp_tryReserveIdle_trial (hm : mem < 2 ^ 63) (hp : 0 < Double.round mem)
    (hf : resource.usedMemoryMb < 2 ^ 63 → ¬lost ∧ origin.total mem resource < 2 ^ 63)
    (hn : resource.resourceId ∉ ids) (h : w.Holding origin mem ids) :
    wp (.alone (Trial.exec lost)) (tryReserveIdle resource.resourceId resource.usedMemoryMb mem)
      (fun x _ w' =>
        ((∃ total, x = .ok (some total)) ∧ resource.usedMemoryMb < 2 ^ 63 ∧
          ((origin.accounted resource.resourceId).getD 0 = 0 →
            w'.Holding origin mem (ids ++ [resource.resourceId]))) ∨
        ((x = .ok none ∨ ∃ e, x = .error e) ∧ w'.Holding origin mem ids)) t w := by
  simp only [tryReserveIdle, wp_bind, wp_ite]
  split
  case isTrue => exact .inr ⟨.inr ⟨_, rfl⟩, h⟩
  case isFalse hu =>
    replace hu := Nat.not_le.mp hu
    obtain ⟨hl, hfit⟩ := hf hu
    rw [if_neg (Nat.not_le.mpr hm), RoleM.wp_perform_alone]
    rintro r w' ⟨v, ho, hr⟩
    replace h := h.others hp ho
    rw [andThen_ok, wp_bind, wp_ofExcept]
    rcases hr with ⟨values, hr, hv, hw⟩ | ⟨e, hr, hw | ⟨hlost, _⟩⟩
    case inr.inl =>
      subst hr hw
      exact .inr ⟨.inr ⟨e, rfl⟩, h⟩
    case inr.inr => exact absurd hlost hl
    case inl =>
      subst hr hw
      rw [andThen_ok]
      have hlevel := h.level _ hn
      by_cases hi : v.store.Idle resource.resourceId
      case pos =>
        have hui : v.untried.Idle resource.resourceId := by rw [Idle, ← hlevel.2]; exact hi
        have hacc : (v.store.accounted resource.resourceId).getD 0 ≤
            (origin.accounted resource.resourceId).getD 0 := hlevel.1 ▸ h.since.accounted_le hui
        rw [reserveIdle_idle _ _ hi] at hv ⊢
        obtain ⟨total, active, hvalues, htotal⟩ := values_of_granted hv
        subst hvalues
        have hnat : 0 ≤ total := by
          have hle : v.store.total mem resource ≤ origin.total mem resource :=
            Double.round_mono (Nat.add_le_add_right (max_le_max_right _ hacc) _)
          rw [htotal.2.2 (by exact_mod_cast hle.trans_lt hfit)]
          exact Int.natCast_nonneg _
        simp only [wp_ite]
        rw [if_neg (Int.not_lt.mpr hnat)]
        exact .inl ⟨⟨_, rfl⟩, hu, fun hz => h.claim hn hui hz _⟩
      case neg =>
        have hbusy : 0 < (v.store.active resource.resourceId).getD 0 := Nat.pos_of_ne_zero hi
        simp only [MemoryStore.reserveIdle, if_pos hbusy] at hv ⊢
        obtain ⟨_, hvalues⟩ := values_of_busy hv
        subst hvalues
        exact .inr ⟨.inl rfl, h⟩

theorem wp_claimResources_trial (hm : mem < 2 ^ 63) (hp : 0 < Double.round mem)
    (hf : Restorable lost origin mem candidates)
    (hn : (claimed.map (·.resourceId) ++ candidates.map (·.resourceId)).Nodup)
    (h : w.Holding origin mem (claimed.map (·.resourceId))) :
    wp (.alone (Trial.exec lost)) (claimResources mem claimed candidates)
      (fun x _ w' => w'.Restored x) t w := by
  induction candidates generalizing claimed t w
  case nil => intro e he; cases he
  case cons candidate rest hi =>
    have hnew : candidate.resourceId ∉ claimed.map (·.resourceId) := fun hmem =>
      disjoint_of_nodup_append hn hmem mem_cons_self
    simp only [claimResources, wp_bind, wp_observe]
    refine wp_mono (fun x t w' hx => ?_) (wp_tryReserveIdle_trial hm hp
      (fun hu => ((restorable_cons_iff hu).mp hf).1.imp_right And.left) hnew h)
    rw [andThen_ok]
    cases hx
    case inl hx =>
      obtain ⟨⟨total, rfl⟩, hu, hw⟩ := hx
      have ⟨⟨_, _, hclean⟩, hrest⟩ := (restorable_cons_iff hu).mp hf
      -- the last claim ends the reservation, whatever is accounted for on its resource
      rcases rest with _ | ⟨next, rest⟩
      case nil => intro e he; cases he
      case cons =>
        refine hi hrest ?_ ?_
        · simpa using hn
        · simpa using hw (hclean (cons_ne_nil _ _))
    case inr hx =>
      have ⟨hx, hw⟩ := hx
      have hback : wp (.alone (Trial.exec lost)) (releaseClaims mem (claimed.map (·.resourceId)))
          (fun x _ w' => x = .ok () ∧ w'.Holding origin mem []) t w' :=
        wp_releaseClaims_trial (List.Nodup.of_append_left hn) hm hp hw
      rcases hx with hx | ⟨e, hx⟩ <;> subst hx <;> simp only [wp_bind]
      all_goals
        refine wp_mono (fun x _ _ hx => ?_) hback
        have ⟨hx, hw⟩ := hx
        subst hx
        exact fun _ _ id => hw.level id not_mem_nil

theorem Trial.Others.refl (w : Trial) : w.Others w where
  apart _ _ := ⟨.refl _ _, .refl _ _⟩
  alike _ h := h
  since := .refl _

def wrapped (n : Int) : Int :=
  if n < 2 ^ 63 then n else -2 ^ 63

theorem forall₂_wrapped (h : ∀ n ∈ values, -2 ^ 63 ≤ n) :
    List.Forall₂ IntegerReply values (values.map wrapped) := by
  rw [List.forall₂_map_right_iff]
  refine List.forall₂_same.mpr fun n hn => ?_
  have := h n hn
  unfold wrapped IntegerReply
  split <;> omega

-- The store has granted a resource.
def Trial.claim (w : Trial) (mem : Nat) (resource : ResourceInfo) : Trial :=
  { w with store := w.store.set resource.resourceId (w.store.total mem resource) (Double.round mem) }

theorem Trial.active_claim : (w.claim mem resource).store.active resource.resourceId = some (Double.round mem) := by
  simp [claim, MemoryStore.set]

theorem Trial.claim_of_ne (h : id ≠ resource.resourceId) : (w.claim mem resource).store.SameAt w.store id := by
  simp [claim, SameAt, MemoryStore.set, h]

theorem foldl_delete (ids : List Nat) :
    (ids.foldl delete store).accounted id = (if id ∈ ids then none else store.accounted id) ∧
      (ids.foldl delete store).active id = if id ∈ ids then none else store.active id := by
  induction ids generalizing store
  case nil => exact ⟨rfl, rfl⟩
  case cons other ids hi =>
    rw [foldl_cons, hi.1, hi.2]
    by_cases he : id = other <;> simp [delete, he]

-- The run in which nobody else is there while the claims are given back.
theorem of_wp_releaseClaims (hm : mem < 2 ^ 63) (hn : ids.Nodup)
    (hc : ∀ id ∈ ids, w.store.active id = some (Double.round mem))
    (h : wp (.alone (Trial.exec lost)) (releaseClaims mem ids) Q t w) :
    Q (.ok ()) t { w with store := ids.foldl delete w.store } := by
  induction ids generalizing w
  case nil => exact h
  case cons id ids hi =>
    have ⟨hid, hn⟩ := nodup_cons.mp hn
    simp only [releaseClaims, wp_bind, wp_observe, Scheduler.decrement, wp_ite] at h
    rw [if_neg (Nat.not_le.mpr hm), RoleM.wp_perform_alone] at h
    replace h := h (.ok []) _ ⟨w, .refl w, rfl⟩
    rw [decrement_claimed (hc id mem_cons_self)] at h
    refine hi hn (fun i hmem => ?_) h
    have hne : i ≠ id := fun he => hid (he ▸ hmem)
    simpa [delete, hne] using hc i (mem_cons_of_mem _ hmem)

-- What the failure after some claims amounts to: entries that were there before are gone, and a claim that
-- is not known to be made stays.
theorem of_wp_throw (hm : mem < 2 ^ 63) (hn : ids.Nodup)
    (hc : ∀ id ∈ ids, w.store.active id = some (Double.round mem))
    (h : wp (.alone (Trial.exec lost))
      (do releaseClaims mem ids; (throw e : RoleM τ (List ReservedResource)))
      (fun x _ w' => w'.Restored x) t w) :
    (∀ id ∈ ids, (w.untried.accounted id).getD 0 = 0) ∧
      ∀ id, id ∉ ids → (w.store.active id).getD 0 = (w.untried.active id).getD 0 := by
  have hlevel := of_wp_releaseClaims hm hn hc (wp_bind.mp h) e rfl
  constructor
  case left =>
    intro id hi
    have := (hlevel id).1
    rw [(foldl_delete ids).1, if_pos hi] at this
    exact this.symm
  case right =>
    intro id hi
    have := (hlevel id).2
    rw [(foldl_delete ids).2, if_neg hi] at this
    exact this

-- The runs of one claim in which nobody else is there: the store is out of reach, the reply gets lost, or the
-- resource is granted and the total in the reply is in range or not.
theorem of_wp_tryReserveIdle (hm : mem < 2 ^ 63) (hi : w.store.Idle resource.resourceId)
    (h : wp (.alone (Trial.exec lost)) (tryReserveIdle resource.resourceId resource.usedMemoryMb mem) Q t w) :
    (∃ e, Q (.error e) t w) ∧ (resource.usedMemoryMb < 2 ^ 63 →
      (lost ∨ ¬w.store.total mem resource < 2 ^ 63 → ∃ e, Q (.error e) t (w.claim mem resource)) ∧
      (w.store.total mem resource < 2 ^ 63 → ∃ total, Q (.ok (some total)) t (w.claim mem resource))) := by
  simp only [tryReserveIdle, wp_bind, wp_ite] at h
  by_cases hu : resource.usedMemoryMb < 2 ^ 63
  case neg =>
    rw [if_pos (Nat.not_lt.mp hu)] at h
    exact ⟨⟨_, h⟩, fun h => absurd h hu⟩
  case pos =>
    rw [if_neg (Nat.not_le.mpr hu), if_neg (Nat.not_le.mpr hm), RoleM.wp_perform_alone] at h
    have hscript := reserveIdle_idle resource.usedMemoryMb mem hi
    have hgranted : w.claim mem resource = { w with
        store := (w.store.reserveIdle resource.resourceId resource.usedMemoryMb mem).2 } := by
      rw [hscript]
      rfl
    have hvalues := forall₂_wrapped (w.store.le_reserveIdle resource.resourceId resource.usedMemoryMb mem)
    have hreply := h (.ok _) _ ⟨w, .refl w, .inl ⟨_, rfl, hvalues, hgranted⟩⟩
    have hone : wrapped 1 = 1 := by decide
    rw [hscript, andThen_ok, wp_bind, wp_ofExcept, andThen_ok, map_cons, map_cons, hone] at hreply
    simp only [wp_ite] at hreply
    refine ⟨⟨_, h (.error (.msg "")) w ⟨w, .refl w, .inr ⟨_, rfl, .inl rfl⟩⟩⟩, fun _ => ⟨?_, ?_⟩⟩
    · rintro (hl | hfit)
      case inl => exact ⟨_, h (.error (.msg "")) _ ⟨w, .refl w, .inr ⟨_, rfl, .inr ⟨hl, hgranted⟩⟩⟩⟩
      case inr =>
        have hneg : wrapped (w.store.total mem resource) < 0 := by
          rw [wrapped, if_neg (by exact_mod_cast hfit)]
          decide
        rw [total] at hneg
        rw [if_pos hneg] at hreply
        exact ⟨_, hreply⟩
    · intro hfit
      have hnat : ¬wrapped (w.store.total mem resource) < 0 := by
        rw [wrapped, if_pos (by exact_mod_cast hfit)]
        exact Int.not_lt.mpr (Int.natCast_nonneg _)
      rw [total] at hnat
      rw [if_neg hnat] at hreply
      exact ⟨_, hreply⟩

-- The other direction: each way to miss the condition is a run that is not taken back.
theorem restorable_of_wp (hm : mem < 2 ^ 63) (hp : 0 < Double.round mem)
    (hn : (claimed.map (·.resourceId) ++ candidates.map (·.resourceId)).Nodup)
    (hc : ∀ id ∈ claimed.map (·.resourceId), w.store.active id = some (Double.round mem))
    (hi : ∀ c ∈ candidates, w.untried.Idle c.resourceId ∧ w.store.SameAt w.untried c.resourceId)
    (h : wp (.alone (Trial.exec lost)) (claimResources mem claimed candidates)
      (fun x _ w' => w'.Restored x) t w) :
    (candidates ≠ [] → ∀ id ∈ claimed.map (·.resourceId), (w.untried.accounted id).getD 0 = 0) ∧
      Restorable lost w.untried mem candidates := by
  induction candidates generalizing claimed w
  case nil => exact ⟨fun hne => absurd rfl hne, .of_asked rfl⟩
  case cons candidate rest ih =>
    have hnew : candidate.resourceId ∉ claimed.map (·.resourceId) := fun hmem =>
      disjoint_of_nodup_append hn hmem mem_cons_self
    have hnodup : (claimed.map (·.resourceId)).Nodup := List.Nodup.of_append_left hn
    obtain ⟨hui, hsame⟩ := hi candidate mem_cons_self
    have hidle : w.store.Idle candidate.resourceId := by rw [Idle, hsame.2]; exact hui
    simp only [claimResources, wp_bind, wp_observe] at h
    obtain ⟨⟨_, hrefused⟩, hasked⟩ := of_wp_tryReserveIdle hm hidle h
    refine ⟨fun _ => (of_wp_throw hm hnodup hc hrefused).1, ?_⟩
    by_cases hu : candidate.usedMemoryMb < 2 ^ 63
    case neg =>
      exact .of_asked (takeWhile_cons_of_neg (by simpa using hu))
    case pos =>
      obtain ⟨hfails, hgrants⟩ := hasked hu
      have hkept : ∀ id ∈ claimed.map (·.resourceId),
          (w.claim mem candidate).store.active id = some (Double.round mem) := by
        intro id hmem
        have hne : id ≠ candidate.resourceId := fun he => hnew (he ▸ hmem)
        exact (Trial.claim_of_ne hne).2.trans (hc id hmem)
      -- a claim that is made and not known to be made
      have hstays : ((w.claim mem candidate).store.active candidate.resourceId).getD 0 ≠
          (w.untried.active candidate.resourceId).getD 0 := by
        rw [show (w.untried.active candidate.resourceId).getD 0 = 0 from hui, Trial.active_claim]
        exact hp.ne'
      obtain ⟨hlost, hfit⟩ : ¬lost ∧ w.store.total mem candidate < 2 ^ 63 := by
        by_contra hn
        obtain ⟨_, hfailed⟩ := hfails (by tauto)
        exact hstays ((of_wp_throw hm hnodup hkept hfailed).2 _ hnew)
      obtain ⟨_, hgranted⟩ := hgrants hfit
      have hclaimed : ∀ id ∈ (claimed ++ [candidate.target]).map (·.resourceId),
          (w.claim mem candidate).store.active id = some (Double.round mem) := by
        intro id hmem
        rw [map_append, mem_append] at hmem
        rcases hmem with hmem | hmem
        · exact hkept id hmem
        · cases mem_singleton.mp hmem
          exact Trial.active_claim
      have hidles : ∀ c ∈ rest, w.untried.Idle c.resourceId ∧
          (w.claim mem candidate).store.SameAt w.untried c.resourceId := by
        intro c hmem
        have hne : c.resourceId ≠ candidate.resourceId := by
          intro he
          have := (nodup_cons.mp (List.Nodup.of_append_right hn)).1
          exact this (mem_map.mpr ⟨c, hmem, he⟩)
        exact (hi c (mem_cons_of_mem _ hmem)).imp_right (Trial.claim_of_ne hne).trans
      obtain ⟨hclean, hrest⟩ := ih (by simpa [ResourceInfo.target] using hn) hclaimed hidles hgranted
      rw [total, hsame.1] at hfit
      exact (restorable_cons_iff hu).mpr
        ⟨⟨hlost, hfit, fun hne => hclean hne _ (by simp [ResourceInfo.target])⟩, hrest⟩

theorem wp_claimResources_targets :
    wp (.alone M) (claimResources mem claimed candidates)
      (fun x _ _ => ∀ targets, x = .ok targets → targets = claimed ++ candidates.map ResourceInfo.target) t s := by
  induction candidates generalizing claimed t s
  case nil =>
    intro targets h
    cases h
    simp
  case cons candidate rest hi =>
    simp only [claimResources, wp_bind, wp_observe]
    apply wp_alone_iff.mpr
    intro x t s _
    rw [andThen_ok]
    rcases x with e | _ | total
    case ok.some =>
      refine wp_mono (fun x _ _ hx targets h => ?_) hi
      simpa [ResourceInfo.target] using hx targets h
    all_goals
      simp only [wp_bind]
      apply wp_alone_iff.mpr
      intro x _ _ _
      cases x <;> (intro targets h; cases h)

end Claims

section Choice

variable {table : ResourceReservationTable} {request payload : SchedulePayload} {store : MemoryStore}
  {gpus cursor : Nat} {resources eligible : List ResourceInfo}

-- The resources without an active reservation that can take the request.
def ResourceReservationTable.idleCandidates (table : ResourceReservationTable) (store : MemoryStore)
    (payload : SchedulePayload) : List ResourceInfo :=
  (table.resources.filter (isAvailable payload table.memoryUtilizationPercent)).filter fun candidate =>
    (store.active candidate.resourceId).getD 0 = 0

-- The resources that a reservation is to claim, in this order.
def ResourceReservationTable.chosen (table : ResourceReservationTable) (store : MemoryStore)
    (payload : SchedulePayload) (gpus : Nat) : List ResourceInfo :=
  (placementOrder payload table.rrCursor (table.idleCandidates store payload)).take gpus

-- The resources that a reservation has chosen, where the store is the one before it.
structure Placed (table : ResourceReservationTable) (store : MemoryStore) (payload : SchedulePayload)
    (gpus : Nat) (chosen : List ResourceInfo) : Prop where
  count : chosen.length = gpus
  distinct : (chosen.map (·.resourceId)).Nodup
  available : ∀ r ∈ chosen, r ∈ table.resources ∧ isAvailable payload table.memoryUtilizationPercent r
  idle : ∀ r ∈ chosen, store.Idle r.resourceId
  warm : ∀ cold ∈ chosen, ¬resourceHasWarmWorkflow cold payload →
    ∀ r ∈ table.resources, isAvailable payload table.memoryUtilizationPercent r →
      store.Idle r.resourceId → resourceHasWarmWorkflow r payload → r ∈ chosen

-- A cold candidate among the first ones has all warm candidates before it.
theorem warm_mem_take (h : cold ∈ (placementOrder payload cursor candidates).take gpus)
    (hc : ¬resourceHasWarmWorkflow cold payload) (hr : r ∈ candidates)
    (hw : resourceHasWarmWorkflow r payload) : r ∈ (placementOrder payload cursor candidates).take gpus := by
  simp only [placementOrder, partition_eq_filter_filter, take_append, mem_append] at h ⊢
  have hp := rotateTier_perm cursor (candidates.filter (resourceHasWarmWorkflow · payload))
  generalize rotateTier cursor (candidates.filter (resourceHasWarmWorkflow · payload)) = warm at h hp ⊢
  cases h
  case inl h =>
    have := mem_filter.mp (hp.mem_iff.mp (mem_of_mem_take h))
    exact absurd this.2 hc
  case inr h =>
    have hlen : 0 < gpus - warm.length := by
      by_contra hn
      rw [Nat.eq_zero_of_not_pos hn, take_zero] at h
      cases h
    rw [take_of_length_le (by omega)]
    exact .inl (hp.mem_iff.mpr (mem_filter.mpr ⟨hr, hw⟩))

theorem mem_idleCandidates : r ∈ table.idleCandidates store payload ↔
    (r ∈ table.resources ∧ isAvailable payload table.memoryUtilizationPercent r) ∧
      store.Idle r.resourceId := by
  rw [ResourceReservationTable.idleCandidates, mem_filter, mem_filter, decide_eq_true_eq, Idle]

theorem filter_activeOf (h : ActiveReply store (table.resources.map (·.resourceId)) active) :
    (table.resources.filter (isAvailable payload table.memoryUtilizationPercent)).filter
      (fun candidate => activeOf active candidate.resourceId = 0) = table.idleCandidates store payload := by
  apply filter_congr
  intro r hr
  have hid : r.resourceId ∈ table.resources.map (·.resourceId) := mem_map_of_mem (mem_of_mem_filter hr)
  exact decide_eq_decide.mpr (activeOf_eq_zero_iff h hid)

theorem placed_chosen (hg : gpus ≤ (table.idleCandidates store payload).length) :
    Placed table store payload gpus (table.chosen store payload gpus) := by
  have hp : (placementOrder payload table.rrCursor (table.idleCandidates store payload)).Perm
      (table.idleCandidates store payload) := placementOrder_perm
  have hmem : ∀ r ∈ table.chosen store payload gpus, r ∈ table.idleCandidates store payload :=
    fun r hr => hp.mem_iff.mp (mem_of_mem_take hr)
  constructor
  case count => rw [ResourceReservationTable.chosen, length_take, hp.length_eq, Nat.min_eq_left hg]
  case distinct =>
    have hs : ((table.idleCandidates store payload).map (·.resourceId)).Nodup :=
      table.resourceMap.nodup.sublist ((filter_sublist.trans filter_sublist).map _)
    exact ((hp.map _).nodup_iff.mpr hs).sublist ((take_sublist _ _).map _)
  case available => exact fun r hr => (mem_idleCandidates.mp (hmem r hr)).1
  case idle => exact fun r hr => (mem_idleCandidates.mp (hmem r hr)).2
  case warm =>
    intro cold hcold hn r hr ha hi hw
    exact warm_mem_take hcold hn (mem_idleCandidates.mpr ⟨⟨hr, ha⟩, hi⟩) hw

theorem eligible_of_selected (h : selectCandidateResources resources payload limit gpus = .ok eligible) :
    eligible = resources.filter (isAvailable payload limit) ∧ gpus ≤ eligible.length := by
  simp only [selectCandidateResources] at h
  split_ifs at h with hg
  cases h
  exact ⟨rfl, hg⟩

end Choice

section Reserve

variable {table : ResourceReservationTable} {request payload : SchedulePayload} {lost : Prop} {w : Trial}
  {config : ResourceConfig} {gpus cursor : Nat} {eligible candidates : List ResourceInfo}

theorem selected_of_idle (h : gpus ≤ (table.idleCandidates store payload).length) :
    selectCandidateResources table.resources payload table.memoryUtilizationPercent gpus =
      .ok (table.resources.filter (isAvailable payload table.memoryUtilizationPercent)) :=
  if_pos (h.trans (length_filter_le _ _))

-- A reservation fails before it has claimed anything, or goes on to claim the chosen resources.
theorem wp_reserve_trial_iff (hprep : table.prepareResourceRequirements request = .ok (config, payload)) :
    wp (.alone (Trial.exec lost)) (reserve request) Q table w ↔
      (∀ e, Q (.error e) table w) ∧
      (config.gpusRequired ≤ (table.idleCandidates w.store payload).length →
        wp (.alone (Trial.exec lost))
          (claimResources config.memoryMb [] (table.chosen w.store payload config.gpusRequired))
          (fun x t w' => Q (x.map (payload, ·)) t w') (table.advanceCursor config.gpusRequired) w) := by
  simp only [reserve, wp_bind, wp_get, andThen_ok, wp_ofExcept, getActiveMany, hprep,
    RoleM.wp_perform_alone]
  constructor
  case mp =>
    intro h
    refine ⟨fun e => h (.error e) w ⟨rfl, .inr ⟨e, rfl⟩⟩, fun hg => ?_⟩
    have hreply := activeReply_filterMap w.store (table.resources.map (·.resourceId))
    replace h := h (.ok _) w ⟨rfl, .inl ⟨_, rfl, hreply⟩⟩
    rw [andThen_ok, selected_of_idle hg, wp_bind, wp_ofExcept, andThen_ok, filter_activeOf hreply, wp_ite,
      if_neg fun hb => absurd hg (Nat.not_le.mpr hb.1)] at h
    simp only [wp_bind, wp_modify, andThen_ok] at h
    refine wp_mono (fun x _ _ hx => ?_) h
    cases x <;> exact hx
  case mpr =>
    rintro ⟨herror, hclaim⟩ r w' ⟨hw', ⟨active, hr, ha⟩ | ⟨e, hr⟩⟩ <;> subst hw' hr
    case inr => exact herror e
    case inl =>
      rw [andThen_ok, wp_bind, wp_ofExcept]
      cases hsel : selectCandidateResources table.resources payload table.memoryUtilizationPercent
        config.gpusRequired
      case error => exact herror _
      case ok eligible =>
        obtain ⟨hel, hg⟩ := eligible_of_selected hsel
        rw [andThen_ok, hel, filter_activeOf ha, wp_ite]
        split
        case isTrue => exact herror _
        case isFalse hb =>
          simp only [wp_bind, wp_modify, andThen_ok]
          have hidle : config.gpusRequired ≤ (table.idleCandidates w'.store payload).length :=
            Nat.not_lt.mp fun hlt => hb ⟨hlt, hel ▸ hg⟩
          refine wp_mono (fun x _ _ hx => ?_) (hclaim hidle)
          cases x <;> exact hx

theorem memoryMb_lt_of_placed {chosen : List ResourceInfo}
    (hprep : table.prepareResourceRequirements request = .ok (config, payload))
    (hp : Placed table store payload gpus chosen) (hc : chosen ≠ []) : config.memoryMb < 2 ^ 63 := by
  obtain ⟨first, hf⟩ := exists_mem_of_ne_nil _ hc
  have := memoryMb_lt_of_isAvailable (hp.available first hf).2
  rw [(prepare_ok hprep).memoryMb] at this
  omega

theorem wp_reserve_placed :
    wp (.alone (Trial.exec lost)) (reserve request)
      (fun x _ _ => ∀ payload targets, x = .ok (payload, targets) →
        ∃ config chosen, table.prepareResourceRequirements request = .ok (config, payload) ∧
          targets = chosen.map ResourceInfo.target ∧
          Placed table w.store payload config.gpusRequired chosen) table w := by
  cases hprep : table.prepareResourceRequirements request
  case error =>
    simp only [reserve, wp_bind, wp_get, andThen_ok, wp_ofExcept, hprep]
    intro _ _ h
    cases h
  case ok prepared =>
    obtain ⟨config, payload⟩ := prepared
    refine (wp_reserve_trial_iff hprep).mpr ⟨fun _ _ _ h => (by cases h), fun hg => ?_⟩
    refine wp_mono (fun x _ _ hx => ?_) wp_claimResources_targets
    intro payload' targets h
    rcases x with _ | targets'
    case error => cases h
    case ok =>
      cases h
      exact ⟨config, _, rfl, hx _ rfl, placed_chosen hg⟩

theorem wp_claims_restored_iff {chosen : List ResourceInfo} (hw : w.untried = w.store)
    (hprep : table.prepareResourceRequirements request = .ok (config, payload))
    (hp : Placed table w.store payload config.gpusRequired chosen) :
    wp (.alone (Trial.exec lost)) (claimResources config.memoryMb [] chosen) (fun x _ w' => w'.Restored x) t w ↔
      Restorable lost w.store config.memoryMb chosen := by
  have hpos : 0 < Double.round config.memoryMb := Double.round_pos (prepare_ok hprep).memory_pos
  rcases eq_or_ne chosen [] with hc | hc
  case inl =>
    subst hc
    exact iff_of_true (fun _ h => by cases h) (.of_asked rfl)
  case inr =>
    have hm := memoryMb_lt_of_placed hprep hp hc
    constructor
    case mp =>
      intro h
      rw [← hw]
      refine (restorable_of_wp hm hpos (by simpa using hp.distinct) (fun _ h => by cases h) ?_ h).2
      rw [hw]
      exact fun c hc => ⟨hp.idle c hc, .refl _ _⟩
    case mpr =>
      intro h
      have hholding : w.Holding w.store config.memoryMb (([] : List ReservedResource).map (·.resourceId)) :=
        ⟨fun _ h => (by cases h), fun id _ => hw ▸ (SameAt.refl _ id).level, hw ▸ .refl _,
          fun _ h => (by cases h)⟩
      exact wp_claimResources_trial hm hpos h (by simpa using hp.distinct) hholding

theorem wp_reserve_restored_iff (hw : w.untried = w.store) :
    wp (.alone (Trial.exec lost)) (reserve request)
      (fun x _ w' => w'.Restored x) table w ↔
      ∀ config payload, table.prepareResourceRequirements request = .ok (config, payload) →
        config.gpusRequired ≤ (table.idleCandidates w.store payload).length →
        Restorable lost w.store config.memoryMb (table.chosen w.store payload config.gpusRequired) := by
  have hlevel : ∀ id, w.store.LevelAt w.untried id := fun id => hw ▸ (SameAt.refl w.store id).level
  cases hprep : table.prepareResourceRequirements request
  case error =>
    simp only [reserve, wp_bind, wp_get, andThen_ok, wp_ofExcept, hprep]
    exact iff_of_true (fun _ _ => hlevel) fun _ _ h => (by cases h)
  case ok prepared =>
    obtain ⟨config, payload⟩ := prepared
    rw [wp_reserve_trial_iff hprep]
    constructor
    case mp =>
      rintro ⟨_, h⟩ _ _ hok hg
      cases hok
      refine (wp_claims_restored_iff hw hprep (placed_chosen hg)).mp (wp_mono (fun x _ _ hx e he => ?_) (h hg))
      subst he
      exact hx e rfl
    case mpr =>
      intro h
      refine ⟨fun _ _ _ => hlevel, fun hg => ?_⟩
      have hrestorable := h config payload rfl hg
      refine wp_mono (fun x _ _ hx e he => ?_)
        ((wp_claims_restored_iff hw hprep (placed_chosen hg)).mpr hrestorable)
      rcases x with e' | _
      · exact hx e' rfl
      · cases he

theorem slice_in_bounds
    (h : selectCandidateResources table.resources payload table.memoryUtilizationPercent gpus = .ok eligible)
    (hb : ¬(candidates.length < gpus ∧ eligible.length ≥ gpus)) :
    gpus ≤ (placementOrder payload cursor candidates).length := by
  have ⟨_, hg⟩ := eligible_of_selected h
  rw [placementOrder_perm.length_eq]
  exact Nat.not_lt.mp fun hlt => hb ⟨hlt, hg⟩

-- Nobody else is there, and the store is out of reach when one of the resources is claimed.
def Trial.calm (outOfReach : Nat) : Oracle Op Trial
  | _, .hmgetActive ids, w => some (.ok (ids.filterMap fun id => (w.store.active id).map (id, ·)), w)
  | _, .reserveIdle id floor delta, w =>
    if id = outOfReach then some (.error (.msg "connection refused"), w)
    else
      let (values, store) := w.store.reserveIdle id floor delta
      some (.ok (values.map wrapped), { w with store })
  | _, .decrementReserved id amount, w =>
    some (.ok [], { w with store := (w.store.decrement id amount).2 })
  | _, _, _ => none

theorem Trial.calm_sound (outOfReach : Nat) : Oracle.Sound (Trial.calm outOfReach) (Trial.exec lost) := by
  intro ρ op w r w' h
  cases op
  case hmgetActive ids =>
    cases h
    exact ⟨rfl, .inl ⟨_, rfl, activeReply_filterMap _ _⟩⟩
  case reserveIdle id floor delta =>
    refine ⟨w, .refl w, ?_⟩
    simp only [calm] at h
    split_ifs at h <;> cases h
    · exact .inr ⟨_, rfl, .inl rfl⟩
    · exact .inl ⟨_, rfl, forall₂_wrapped (w.store.le_reserveIdle id floor delta), rfl⟩
  case decrementReserved id amount =>
    cases h
    exact ⟨w, .refl w, rfl⟩
  all_goals cases h

-- A worker that reports as much memory in use as a signed integer can hold.
def fullGpu : Inventory :=
  ⟨[{ gpu 0 1000 with usedMemoryMb := 2 ^ 63 - 1 }], by decide⟩

-- A reservation that succeeds has chosen as many resources as it needs, warm ones before cold ones. All those
-- that fail leave the store as if they had not been tried exactly when the claims on the chosen resources
-- can be taken back.
theorem reserve_places_or_restores (lost : Prop) (table : ResourceReservationTable) (request : SchedulePayload)
    (store : MemoryStore) :
    (∀ payload targets table' w', (reserve request).Ends (Trial.exec lost) table
        ⟨store, store⟩ (.ok (payload, targets)) table' w' →
      ∃ config chosen, table.prepareResourceRequirements request = .ok (config, payload) ∧
        targets = chosen.map ResourceInfo.target ∧ Placed table store payload config.gpusRequired chosen) ∧
    ((∀ e table' w', (reserve request).Ends (Trial.exec lost) table ⟨store, store⟩
        (.error e) table' w' → ∀ id, w'.store.LevelAt w'.untried id) ↔
      ∀ config payload, table.prepareResourceRequirements request = .ok (config, payload) →
        config.gpusRequired ≤ (table.idleCandidates store payload).length →
        Restorable lost store config.memoryMb (table.chosen store payload config.gpusRequired)) ∧
    ∀ payload gpus eligible candidates,
      selectCandidateResources table.resources payload table.memoryUtilizationPercent gpus = .ok eligible →
      ¬(candidates.length < gpus ∧ eligible.length ≥ gpus) →
      gpus ≤ (placementOrder payload table.rrCursor candidates).length := by
  refine ⟨?placed, ?restored, fun _ _ _ _ => slice_in_bounds⟩
  case placed =>
    intro payload targets table' w' h
    exact wp_alone_iff.mp (wp_reserve_placed (w := ⟨store, store⟩)) _ _ _ h payload targets rfl
  case restored =>
    rw [← wp_reserve_restored_iff (w := ⟨store, store⟩) rfl, wp_alone_iff]
    constructor
    case mp =>
      rintro h x table' w' hr e rfl
      exact h e table' w' hr
    case mpr => exact fun h e table' w' hr => h _ table' w' hr e rfl

-- The claim on the first of two resources is taken back when the second one cannot be claimed.
theorem reserve_restores_first :
    ∃ e table' w', (reserve (Scheduler.request "a" 2 10).payload).Ends (Trial.exec False)
        (placing twoGpus).reservations ⟨.empty, .empty⟩ (.error e) table' w' ∧
      ∀ id, w'.store.LevelAt w'.untried id := by
  have h : (((reserve (Scheduler.request "a" 2 10).payload).toProg
      (placing twoGpus).reservations).run (Trial.calm 1) 10 ⟨.empty, .empty⟩).any
      fun x => !x.1.1.isOk := by
    decide +kernel
  obtain ⟨⟨⟨x, table'⟩, w'⟩, hs, hx⟩ := (Option.any_eq_true _ _).mp h
  rcases x with e | _ <;> try cases hx
  have he : Routine.Ends (Trial.exec False) _ _ _ (.error e) table' w' :=
    Prog.ends_of_run (Trial.calm_sound 1) hs
  refine ⟨e, table', w', he, (reserve_places_or_restores _ _ _ .empty).2.1.mpr ?_ e table' w' he⟩
  intro config payload hp _
  cases hp
  refine ⟨False.elim, fun r hr => ?_, fun _ _ _ => rfl⟩
  have hu : r.usedMemoryMb = 0 := by
    revert r
    decide +kernel
  rw [total, hu, show MemoryStore.empty.accounted r.resourceId = none from rfl]
  decide +kernel

-- The store has made the reservation, but the total in its reply is out of range.
theorem reserve_keeps_claim :
    ∃ e table' w', (reserve (Scheduler.request "a" 1 10).payload).Ends (Trial.exec False)
        (placing fullGpu).reservations ⟨.empty, .empty⟩ (.error e) table' w' ∧
      w'.untried.active 0 = none ∧ w'.store.active 0 = some 10 := by
  have h : (((reserve (Scheduler.request "a" 1 10).payload).toProg
      (placing fullGpu).reservations).run (Trial.calm 1) 10 ⟨.empty, .empty⟩).any
      fun x => x.1.1.isOk = false ∧ x.2.untried.active 0 = none ∧ x.2.store.active 0 = some 10 := by
    decide +kernel
  obtain ⟨⟨⟨x, table'⟩, w'⟩, hs, hx⟩ := (Option.any_eq_true _ _).mp h
  obtain ⟨hx, hw⟩ := of_decide_eq_true hx
  rcases x with e | _ <;> try cases hx
  exact ⟨e, table', w', Prog.ends_of_run (Trial.calm_sound 1) hs, hw⟩

end Reserve

end Scheduler
