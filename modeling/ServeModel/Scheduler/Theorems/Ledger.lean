import ServeModel.Scheduler.Theorems.Dispatch

-- How the ledger of a fleet is kept: what each store script does to it, and what it leaves alone.
namespace Scheduler

open List Function Nat

-- One GPU for each attempt of this request.
def OneGpu (t : RoleState) (payload : SchedulePayload) : Prop :=
  ∀ config resolved, t.reservations.prepareResourceRequirements payload = .ok (config, resolved) →
    config.gpusRequired = 1

-- The children of this parent all carry the same limit and run on one GPU each, and its counter lasts.
structure Terms.Capped (F : Terms) (q : String) (m : Nat) : Prop where
  lasting : ¬F.expires
  trimmed : Text.nonBlank q = some q
  carried : ∀ {t pending}, F.admits t pending → pending.payload.Carried
  gate : ∀ {t pending}, F.admits t pending → pending.payload.parentRunId.bind Text.nonBlank = some q →
    fanoutGate pending.payload = some (q, m)
  oneGpu : ∀ {t pending}, F.admits t pending → pending.payload.parentRunId.bind Text.nonBlank = some q →
    OneGpu t pending.payload

namespace Fleet

def Known (s : Fleet) : Thread → Prop
  | .attempt i => i < s.attempts
  | .release d => d < s.releases.length

-- The entry of a resource in the store agrees with the claims on it.
inductive Balanced (F : Terms) (s : Fleet) (id : Nat) : Prop
  | idle : (s.memory.accounted id = none) → (s.memory.active id = none) → (s.claimsOn id = []) →
      Balanced F s id
  | busy (c : Claim) (total : Nat) : (s.claimsOn id = [c]) → (0 < c.memoryMb) →
      (s.memory.active id = some (Double.round c.memoryMb)) → (s.memory.accounted id = some total) →
      (Double.round c.memoryMb ≤ total) → (c.holder = none → F.faults ∨ 2 ^ 63 ≤ total) → Balanced F s id

structure Ledger (F : Terms) (s : Fleet) : Prop where
  balanced : ∀ id, s.Balanced F id
  claims : ∀ {c th}, c ∈ s.claims → c.holder = some th → s.Known th
  effects : ∀ {x}, x ∈ s.effects → s.Known x.1
  acked : ∀ {d}, d ∈ s.acked →
    ∃ r : Release, s.releases[d]? = some r ∧ s.effectsOf (.release d) = r.once
  once : ∀ {d : Nat} {r : Release}, s.releases[d]? = some r → s.effectsOf (.release d) <+: r.once
  -- a worker holds its GPU exactly until its release has taken effect
  unreleased : ∀ {d : Nat} {r : Release}, s.releases[d]? = some r → s.effectsOf (.release d) = [] →
    ⟨r.payload.resourceId, r.payload.memoryMb, some (.release d)⟩ ∈ s.claims
  released : ∀ {c d}, c ∈ s.claims → c.holder = some (.release d) → s.effectsOf (.release d) = []
  placed : ∀ {c : Claim} {d : Nat} {r : Release}, c ∈ s.claims → c.holder = some (.release d) →
    s.releases[d]? = some r →
    c.resourceId = r.payload.resourceId

-- The counter of a parent covers the slots that are held, and each of its units has one until it returns it.
structure SlotsKept (s : Fleet) (q : String) (m : Nat) : Prop where
  counted : s.tokens.countP (·.key = slotKey q) ≤ s.slots (slotKey q)
  capped : s.slots (slotKey q) ≤ m
  single : ∀ {d : Nat} {r : Release}, s.releases[d]? = some r → r.parent = some q → r.unit = d
  held : ∀ {d : Nat} {r : Release}, s.releases[d]? = some r → r.parent = some q →
    .slotReturned (slotKey q) ∉ s.effectsOf (.release d) → ⟨slotKey q, .release d⟩ ∈ s.tokens

structure Kept (F : Terms) (s : Fleet) : Prop where
  ledger : s.Ledger F
  slots : ∀ {q m}, F.Capped q m → s.SlotsKept q m

-- The others leave alone what belongs to a thread.
structure Undisturbed (th : Thread) (s s' : Fleet) : Prop where
  attempts : s.attempts ≤ s'.attempts
  releases : s.releases <+: s'.releases
  claims : s.Known th → ∀ c, c.holder = some th → (c ∈ s'.claims ↔ c ∈ s.claims)
  tokens : s.Known th → ∀ t, t.holder = th → (t ∈ s'.tokens ↔ t ∈ s.tokens)
  effects : s.Known th → s'.effectsOf th = s.effectsOf th

variable {s s' : Fleet} {th j : Thread} {c : Claim} {id amount floor delta : Nat}

section Basic

theorem Known.mono (ha : s.attempts ≤ s'.attempts) (hr : s.releases <+: s'.releases) (h : s.Known th) :
    s'.Known th := by
  cases th
  case attempt => exact lt_of_lt_of_le h ha
  case release => exact lt_of_lt_of_le h hr.length_le

theorem Undisturbed.refl (th : Thread) (s : Fleet) : Undisturbed th s s where
  attempts := le_refl _
  releases := prefix_refl _
  claims _ _ _ := Iff.rfl
  tokens _ _ _ := Iff.rfl
  effects _ := rfl

theorem Undisturbed.known (h : Undisturbed th s s') (hk : s.Known j) : s'.Known j :=
  hk.mono h.attempts h.releases

theorem Undisturbed.trans (h : Undisturbed th s s') (h' : Undisturbed th s' s'') :
    Undisturbed th s s'' where
  attempts := h.attempts.trans h'.attempts
  releases := h.releases.trans h'.releases
  claims hk c hc := (h'.claims (h.known hk) c hc).trans (h.claims hk c hc)
  tokens hk t ht := (h'.tokens (h.known hk) t ht).trans (h.tokens hk t ht)
  effects hk := (h'.effects (h.known hk)).trans (h.effects hk)

theorem getElem?_of_prefix {d : Nat} (h : l <+: l') (hd : l[d]? = some r) :
    l'[d]? = some r := by
  obtain ⟨_, rfl⟩ := h
  rw [List.getElem?_append_left (List.getElem?_eq_some_iff.mp hd).choose]
  exact hd

theorem effectsOf_append (s : Fleet) (th j : Thread) (e : Effect) :
    { s with effects := s.effects ++ [(th, e)] }.effectsOf j =
      s.effectsOf j ++ if th = j then [e] else [] := by
  by_cases h : th = j <;> simp [effectsOf, h]

theorem effectsOf_eq_nil (h : ∀ x ∈ s.effects, x.1 ≠ th) : s.effectsOf th = [] := by
  rw [effectsOf, filterMap_eq_nil_iff]
  intro x hx
  simp [h x hx]

theorem mem_claimsOn : c ∈ s.claimsOn id ↔ c ∈ s.claims ∧ c.resourceId = id := by
  simp [claimsOn]

theorem Balanced.transfer (h : s.Balanced F id)
    (ht : s'.memory.accounted id = s.memory.accounted id)
    (ha : s'.memory.active id = s.memory.active id) (hc : s'.claimsOn id = s.claimsOn id) :
    s'.Balanced F id := by
  cases h
  case idle h₁ h₂ h₃ => exact .idle (ht ▸ h₁) (ha ▸ h₂) (hc ▸ h₃)
  case busy c total h₁ h₂ h₃ h₄ h₅ h₆ => exact .busy c total (hc ▸ h₁) h₂ (ha ▸ h₃) (ht ▸ h₄) h₅ h₆

-- A claim is the only one on its resource, and the store knows it.
theorem Ledger.of_claim (h : s.Ledger F) (hc : c ∈ s.claims) :
    s.claimsOn c.resourceId = [c] ∧ 0 < c.memoryMb ∧
      s.memory.active c.resourceId = some (Double.round c.memoryMb) ∧
      ∃ total, s.memory.accounted c.resourceId = some total := by
  have hm : c ∈ s.claimsOn c.resourceId := mem_claimsOn.mpr ⟨hc, rfl⟩
  cases h.balanced c.resourceId
  case idle hn => simp [hn] at hm
  case busy c' total hs hp ha ht _ _ =>
    rw [hs, mem_singleton] at hm
    subst hm
    exact ⟨hs, hp, ha, total, ht⟩

end Basic

section ReserveIdle

variable {holder : Option Thread}

def grantedTotal (floor delta : Nat) : Nat :=
  Double.round (Double.round floor + Double.round delta)

theorem round_le_grantedTotal (floor delta : Nat) :
    Double.round delta ≤ grantedTotal floor delta :=
  calc Double.round delta = Double.round (Double.round delta) := (Double.round_round _).symm
    _ ≤ grantedTotal floor delta := Double.round_mono (le_add_left _ _)

theorem reserveIdle_of_idle {store : MemoryStore} (floor delta : Nat) (ht : store.accounted id = none)
    (ha : store.active id = none) :
    store.reserveIdle id floor delta = ([1, (grantedTotal floor delta : Int), Double.round delta],
      store.set id (grantedTotal floor delta) (Double.round delta)) := by
  simp [MemoryStore.reserveIdle, ht, ha, grantedTotal]

theorem reserveIdle_of_busy {store : MemoryStore} (floor delta : Nat) (ha : store.active id = some a)
    (hp : 0 < a) :
    store.reserveIdle id floor delta = ([0, (((store.accounted id).getD 0 : Nat) : Int), a], store) := by
  simp [MemoryStore.reserveIdle, ha, hp]

def grant (holder : Option Thread) (id floor delta : Nat) (s : Fleet) : Fleet :=
  { s with
    memory := s.memory.set id (grantedTotal floor delta) (Double.round delta)
    claims := ⟨id, delta, holder⟩ :: s.claims }

-- The script grants an idle resource and leaves a busy one alone.
theorem Ledger.reserveIdle_cases (h : s.Ledger F) (id floor delta : Nat) :
    (s.claimsOn id = [] ∧
      (s.memory.reserveIdle id floor delta).1 =
        [1, (grantedTotal floor delta : Int), Double.round delta] ∧
      ∀ holder, s.reserveIdle holder id floor delta = s.grant holder id floor delta) ∨
    (∃ total active : Nat, (s.memory.reserveIdle id floor delta).1 = [0, (total : Int), active] ∧
      ∀ holder, s.reserveIdle holder id floor delta = s) := by
  cases h.balanced id
  case idle ht ha hc =>
    have hr := reserveIdle_of_idle floor delta ht ha
    exact .inl ⟨hc, by rw [hr], fun _ => by simp [reserveIdle, hr, grant]⟩
  case busy c total hc hp ha ht _ _ =>
    have hr := reserveIdle_of_busy floor delta ha (Double.round_pos hp)
    exact .inr ⟨_, _, by rw [hr], fun _ => by simp [reserveIdle, hr]⟩

theorem Undisturbed.grant (h : holder ≠ some j) : Undisturbed j s (s.grant holder id floor delta) where
  attempts := le_refl _
  releases := prefix_refl _
  claims _ c hc := by
    have hn : c ≠ ⟨id, delta, holder⟩ := fun he => h (by rw [← hc, he])
    simp [Fleet.grant, hn]
  tokens _ _ _ := Iff.rfl
  effects _ := rfl

theorem claimsOn_cons (s : Fleet) (c : Claim) (id : Nat) (memory : MemoryStore) :
    { s with memory, claims := c :: s.claims }.claimsOn id =
      if c.resourceId = id then c :: s.claimsOn id else s.claimsOn id := by
  simp [claimsOn, filter_cons]

theorem Balanced.grant_of_ne (hn : id ≠ id') (h : s.Balanced F id') :
    (s.grant holder id floor delta).Balanced F id' := by
  have hc : (s.grant holder id floor delta).claimsOn id' = s.claimsOn id' := by
    simp [Fleet.grant, claimsOn_cons, hn]
  have ht : (s.grant holder id floor delta).memory.accounted id' = s.memory.accounted id' := by
    simp [Fleet.grant, MemoryStore.set, update_of_ne hn.symm]
  have ha : (s.grant holder id floor delta).memory.active id' = s.memory.active id' := by
    simp [Fleet.grant, MemoryStore.set, update_of_ne hn.symm]
  exact h.transfer ht ha hc

theorem Ledger.grant (h : s.Ledger F) (hn : s.claimsOn id = []) (hd : 0 < delta)
    (hh : ∀ th, holder = some th → ∃ i, th = .attempt i ∧ i < s.attempts)
    (hl : holder = none → F.faults ∨ 2 ^ 63 ≤ grantedTotal floor delta) :
    (s.grant holder id floor delta).Ledger F where
  balanced id' := by
    by_cases hi : id = id'
    case neg => exact (h.balanced id').grant_of_ne hi
    case pos =>
      subst hi
      refine .busy ⟨id, delta, holder⟩ (grantedTotal floor delta) ?_ hd ?_ ?_ ?_ hl
      · simp [Fleet.grant, claimsOn_cons, hn]
      · simp [Fleet.grant, MemoryStore.set]
      · simp [Fleet.grant, MemoryStore.set]
      · exact round_le_grantedTotal floor delta
  claims {c th} hc ho := by
    rcases mem_cons.mp hc with rfl | hc
    case inl => have ⟨i, hi, hl⟩ := hh th ho; exact hi ▸ hl
    case inr => exact h.claims hc ho
  effects := h.effects
  acked := h.acked
  once := h.once
  unreleased hr he := mem_cons_of_mem _ (h.unreleased hr he)
  released {c d} hc ho := by
    rcases mem_cons.mp hc with rfl | hc
    case inl => have ⟨i, hi, _⟩ := hh _ ho; cases hi
    case inr => exact h.released hc ho
  placed {c d r} hc ho hr := by
    rcases mem_cons.mp hc with rfl | hc
    case inl => have ⟨i, hi, _⟩ := hh _ ho; cases hi
    case inr => exact h.placed hc ho hr

theorem SlotsKept.grant (h : s.SlotsKept q m) : (s.grant holder id floor delta).SlotsKept q m :=
  ⟨h.counted, h.capped, h.single, h.held⟩

end ReserveIdle

section Decrement

def drop (th : Thread) (id amount : Nat) (s : Fleet) : Fleet :=
  { s with
    memory := s.memory.delete id
    claims := s.claims.filter fun c => ¬(c.resourceId = id ∧ c.holder = some th)
    effects := s.effects ++ [(th, .decremented id amount)] }

theorem Ledger.decrement_eq (h : s.Ledger F) (hc : ⟨id, amount, some th⟩ ∈ s.claims) :
    (s.memory.decrement id amount).1 = [0, 0] ∧ s.decrement th id amount = s.drop th id amount := by
  obtain ⟨-, -, ha, total, ht⟩ := h.of_claim hc
  have hd : s.memory.decrement id amount = ([0, 0], s.memory.delete id) := by
    simp [MemoryStore.decrement, ha, ht]
  exact ⟨by rw [hd], by simp [Fleet.decrement, ha, hd, drop]⟩

theorem Undisturbed.drop (h : th ≠ j) : Undisturbed j s (s.drop th id amount) where
  attempts := le_refl _
  releases := prefix_refl _
  claims _ c hc := by
    have hn : c.holder ≠ some th := fun he => h (Option.some.inj (he.symm.trans hc))
    simp [Fleet.drop, hn]
  tokens _ _ _ := Iff.rfl
  effects _ := by simp [Fleet.drop, effectsOf, h]

theorem effectsOf_drop : (s.drop th id amount).effectsOf j =
    s.effectsOf j ++ if th = j then [.decremented id amount] else [] :=
  effectsOf_append s th j _

theorem mem_claims_drop : c ∈ (s.drop th id amount).claims ↔
    c ∈ s.claims ∧ ¬(c.resourceId = id ∧ c.holder = some th) := by
  rw [drop, mem_filter, decide_eq_true_iff]

theorem Balanced.drop_of_ne (hn : id ≠ id') (h : s.Balanced F id') :
    (s.drop th id amount).Balanced F id' := by
  have hc : (s.drop th id amount).claimsOn id' = s.claimsOn id' := by
    rw [claimsOn, Fleet.drop, filter_filter, claimsOn]
    refine filter_congr fun c _ => ?_
    by_cases hi : c.resourceId = id' <;> simp [hi, hn.symm]
  have ht : (s.drop th id amount).memory.accounted id' = s.memory.accounted id' := by
    simp [Fleet.drop, MemoryStore.delete, update_of_ne hn.symm]
  have ha : (s.drop th id amount).memory.active id' = s.memory.active id' := by
    simp [Fleet.drop, MemoryStore.delete, update_of_ne hn.symm]
  exact h.transfer ht ha hc

-- The claim of a worker is the one that its release message names.
theorem Ledger.claim_of_release (h : s.Ledger F) (hc : ⟨id, amount, some (.release d)⟩ ∈ s.claims)
    (hr : s.releases[d]? = some r) : id = r.payload.resourceId ∧ amount = r.payload.memoryMb := by
  have hi : id = r.payload.resourceId := h.placed hc rfl hr
  have hu := h.unreleased hr (h.released hc rfl)
  have ⟨ho, _⟩ := h.of_claim hc
  have hm : (⟨r.payload.resourceId, r.payload.memoryMb, some (.release d)⟩ : Claim) ∈ s.claimsOn id :=
    mem_claimsOn.mpr ⟨hu, hi.symm⟩
  rw [ho, mem_singleton] at hm
  exact ⟨hi, (congrArg Claim.memoryMb hm).symm⟩

theorem Ledger.drop (h : s.Ledger F) (hc : ⟨id, amount, some th⟩ ∈ s.claims) :
    (s.drop th id amount).Ledger F where
  balanced id' := by
    by_cases hi : id = id'
    case neg => exact (h.balanced id').drop_of_ne hi
    case pos =>
      subst hi
      have ⟨ho, _⟩ := h.of_claim hc
      refine .idle (by simp [Fleet.drop, MemoryStore.delete]) (by simp [Fleet.drop, MemoryStore.delete]) ?_
      rw [eq_nil_iff_forall_not_mem]
      intro c hm
      have ⟨hm, hi⟩ := mem_claimsOn.mp hm
      have ⟨hm, hn⟩ := mem_claims_drop.mp hm
      have hm := mem_claimsOn.mpr ⟨hm, hi⟩
      rw [ho, mem_singleton] at hm
      exact hn ⟨hi, by rw [hm]⟩
  claims hm ho := h.claims (mem_claims_drop.mp hm).left ho
  effects hx := by
    rcases mem_append.mp hx with hx | hx
    case inl => exact h.effects hx
    case inr => rw [mem_singleton.mp hx]; exact h.claims hc rfl
  acked {d} hd := by
    have ⟨r, hr, he⟩ := h.acked hd
    refine ⟨r, hr, ?_⟩
    rw [effectsOf_drop, he]
    split
    case isTrue ht =>
      subst ht
      simp [h.released hc rfl, Release.once] at he
    case isFalse => exact append_nil _
  once {d r} hr := by
    rw [effectsOf_drop]
    split
    case isTrue ht =>
      subst ht
      have ⟨hi, ha⟩ := h.claim_of_release hc hr
      simp [h.released hc rfl, Release.once, hi, ha]
    case isFalse => rw [append_nil]; exact h.once hr
  unreleased {d r} hr he := by
    rw [effectsOf_drop, append_eq_nil_iff] at he
    refine mem_claims_drop.mpr ⟨h.unreleased hr he.left, fun hn => ?_⟩
    rw [Option.some.inj hn.right] at he
    simp at he
  released {c d} hm ho := by
    have ⟨hs, hn⟩ := mem_claims_drop.mp hm
    rw [effectsOf_drop, h.released hs ho, nil_append]
    split
    case isTrue ht =>
      subst ht
      have ⟨r, hr⟩ : ∃ r, s.releases[d]? = some r :=
        ⟨_, getElem?_eq_getElem (h.claims hs ho)⟩
      exact absurd ⟨(h.placed hs ho hr).trans (h.placed hc rfl hr).symm, ho⟩ hn
    case isFalse => rfl
  placed hm ho hr := h.placed (mem_claims_drop.mp hm).left ho hr

theorem SlotsKept.drop (h : s.SlotsKept q m) : (s.drop th id amount).SlotsKept q m where
  counted := h.counted
  capped := h.capped
  single := h.single
  held hr hp he := h.held hr hp fun hm => he (effectsOf_drop ▸ mem_append_left _ hm)

end Decrement

section Slots

variable {key q : String}

theorem slotKey_injective : Function.Injective slotKey := by
  intro p q h
  have h := congrArg String.toList h
  simp only [slotKey, String.toList_append, append_cancel_left_eq] at h
  exact String.toList_inj.mp h

theorem acquire_cases (slots : SlotStore) (key : String) (max : Int) :
    (∃ n : Nat, slots.acquire key max = ([0, (n : Int)], slots)) ∨
    (slots key < max.toNat ∧ slots.acquire key max =
      ([1, (slots key : Int) + 1], Function.update slots key (slots key + 1))) := by
  by_cases h : max ≤ 0 ∨ Double.round (slots key) ≥ Double.round max.toNat
  case pos =>
    refine .inl ⟨Double.round (slots key), ?_⟩
    rcases h with h | h <;> simp [SlotStore.acquire, h]
  case neg =>
    obtain ⟨hp, hn⟩ := not_or.mp h
    refine .inr ⟨?_, by simp [SlotStore.acquire, hp, hn]⟩
    by_contra hm
    exact hn (Double.round_mono (not_lt.mp hm))

theorem toNat_asI64_le (m : Nat) : (asI64 m).toNat ≤ m := by
  unfold asI64
  split <;> omega

theorem release_snd (slots : SlotStore) (key : String) :
    (slots.release key).2 = Function.update slots key (slots key - 1) := by
  unfold SlotStore.release
  split_ifs
  case neg => rfl
  case pos h =>
    have hl : slots key ≤ 1 := by
      by_contra hn
      exact absurd (le_trans (Double.round_mono (not_le.mp hn)) h) (by decide +kernel)
    rw [Nat.sub_eq_zero_of_le hl]

def take (th? : Option Thread) (key : String) (s : Fleet) : Fleet :=
  { s with
    slots := Function.update s.slots key (s.slots key + 1)
    tokens := (th?.map (⟨key, ·⟩)).toList ++ s.tokens }

theorem acquireSlot_cases (s : Fleet) (key : String) (m : Nat) :
    ((∃ n : Nat, (s.slots.acquire key (asI64 m)).1 = [0, (n : Int)]) ∧
      ∀ th?, s.acquireSlot th? key (asI64 m) = s) ∨
    (s.slots key < m ∧ (s.slots.acquire key (asI64 m)).1 = [1, (s.slots key : Int) + 1] ∧
      ∀ th?, s.acquireSlot th? key (asI64 m) = s.take th? key) := by
  rcases acquire_cases s.slots key (asI64 m) with ⟨n, h⟩ | ⟨hl, h⟩
  case inl => exact .inl ⟨⟨n, by rw [h]⟩, fun _ => by simp [acquireSlot, h]⟩
  case inr =>
    exact .inr ⟨lt_of_lt_of_le hl (toNat_asI64_le m), by rw [h],
      fun _ => by simp [acquireSlot, h, take]⟩

theorem Undisturbed.take (h : th? ≠ some j) : Undisturbed j s (s.take th? key) where
  attempts := le_refl _
  releases := prefix_refl _
  claims _ _ _ := Iff.rfl
  tokens _ t ht := by
    have hn : ∀ th, th? = some th → t ≠ ⟨key, th⟩ := fun th hs he => h (by rw [hs, ← ht, he])
    cases th? <;> simp_all [Fleet.take]
  effects _ := rfl

theorem Ledger.take (h : s.Ledger F) : (s.take th? key).Ledger F where
  balanced id := (h.balanced id).transfer rfl rfl rfl
  claims := h.claims
  effects := h.effects
  acked := h.acked
  once := h.once
  unreleased := h.unreleased
  released := h.released
  placed := h.placed

theorem SlotsKept.take (h : s.SlotsKept q m) (hm : key = slotKey q → s.slots key < m) :
    (s.take th? key).SlotsKept q m where
  counted := by
    have hc := h.counted
    by_cases hk : key = slotKey q
    case pos =>
      have hl : ((th?.map (⟨key, ·⟩ : Thread → Token)).toList.countP (·.key = slotKey q)) ≤ 1 :=
        le_trans countP_le_length (by cases th? <;> simp)
      subst hk
      simp only [Fleet.take, countP_append, update_self]
      omega
    case neg =>
      have hl : ((th?.map (⟨key, ·⟩ : Thread → Token)).toList.countP (·.key = slotKey q)) = 0 := by
        cases th? <;> simp [hk]
      simp only [Fleet.take, countP_append, hl, update_of_ne (Ne.symm hk)]
      omega
  capped := by
    by_cases hk : key = slotKey q
    case pos => subst hk; simpa [Fleet.take] using succ_le_of_lt (hm rfl)
    case neg => simpa [Fleet.take, update_of_ne (Ne.symm hk)] using h.capped
  single := h.single
  held hr hp he := mem_append_right _ (h.held hr hp he)

theorem Undisturbed.releaseSlot (h : th ≠ j) : Undisturbed j s (s.releaseSlot th key) where
  attempts := le_refl _
  releases := prefix_refl _
  claims _ _ _ := Iff.rfl
  tokens _ t ht := by
    have hn : t ≠ ⟨key, th⟩ := fun he => h (by rw [← ht, he])
    simp [Fleet.releaseSlot, hn]
  effects _ := by simp [Fleet.releaseSlot, effectsOf, h]

theorem effectsOf_releaseSlot : (s.releaseSlot th key).effectsOf j =
    s.effectsOf j ++ if th = j then [.slotReturned key] else [] :=
  effectsOf_append s th j _

theorem Ledger.releaseSlot (h : s.Ledger F) (hk : s.Known th)
    (ho : ∀ d r, th = .release d → s.releases[d]? = some r →
      s.effectsOf th ++ [.slotReturned key] <+: r.once) : (s.releaseSlot th key).Ledger F where
  balanced id := (h.balanced id).transfer rfl rfl rfl
  claims := h.claims
  effects hx := by
    rcases mem_append.mp hx with hx | hx
    case inl => exact h.effects hx
    case inr => rw [mem_singleton.mp hx]; exact hk
  acked {d} hd := by
    have ⟨r, hr, he⟩ := h.acked hd
    refine ⟨r, hr, ?_⟩
    rw [effectsOf_releaseSlot, he]
    split
    case isTrue ht =>
      have hl := (ho d r ht hr).length_le
      rw [ht, he] at hl
      simp at hl
    case isFalse => exact append_nil _
  once {d r} hr := by
    rw [effectsOf_releaseSlot]
    split
    case isTrue ht => exact ht ▸ ho d r ht hr
    case isFalse => rw [append_nil]; exact h.once hr
  unreleased {d r} hr he := by
    rw [effectsOf_releaseSlot, append_eq_nil_iff] at he
    exact h.unreleased hr he.left
  released {c d} hc hd := by
    rw [effectsOf_releaseSlot, h.released hc hd]
    split
    case isTrue ht =>
      have ⟨r, hr⟩ : ∃ r, s.releases[d]? = some r := ⟨_, getElem?_eq_getElem (h.claims hc hd)⟩
      have hp := ho d r ht hr
      rw [ht, h.released hc hd] at hp
      simp [Release.once] at hp
    case isFalse => rfl
  placed := h.placed

theorem SlotsKept.releaseSlot (h : s.SlotsKept q m) (ht : key = slotKey q → ⟨key, th⟩ ∈ s.tokens) :
    (s.releaseSlot th key).SlotsKept q m where
  counted := by
    rw [Fleet.releaseSlot, release_snd]
    by_cases hk : key = slotKey q
    case pos =>
      subst hk
      have hl : ((s.tokens.filter (·.key = slotKey q)).filter (· ≠ ⟨slotKey q, th⟩)).length <
          (s.tokens.filter (·.key = slotKey q)).length :=
        length_filter_lt_length_iff_exists.mpr
          ⟨⟨slotKey q, th⟩, mem_filter.mpr ⟨ht rfl, by simp⟩, by simp⟩
      have hc := h.counted
      rw [filter_comm, ← countP_eq_length_filter, ← countP_eq_length_filter] at hl
      simp only [update_self]
      omega
    case neg =>
      simp only [update_of_ne (Ne.symm hk)]
      exact le_trans (List.Sublist.countP_le (filter_sublist)) h.counted
  capped := by
    rw [Fleet.releaseSlot, release_snd]
    by_cases hk : key = slotKey q
    case pos => subst hk; simpa using le_trans (sub_le _ _) h.capped
    case neg => simpa [update_of_ne (Ne.symm hk)] using h.capped
  single := h.single
  held {d r} hr hp he := by
    rw [effectsOf_releaseSlot, mem_append, not_or] at he
    refine mem_filter.mpr ⟨h.held hr hp he.left, ?_⟩
    rw [decide_eq_true_iff]
    intro heq
    cases heq
    simp at he

end Slots

section Dispatch

-- Handing claims on changes neither their resource nor their memory.
theorem Balanced.of_map (h : s.Balanced F id) (f : Claim → Claim) (hm : s'.memory = s.memory)
    (hc : s'.claims = s.claims.map f) (hi : ∀ c, (f c).resourceId = c.resourceId)
    (ha : ∀ c, (f c).memoryMb = c.memoryMb)
    (hh : ∀ c ∈ s.claims, (f c).holder = none → c.holder = none ∨ F.faults) : s'.Balanced F id := by
  have hf : s'.claimsOn id = (s.claimsOn id).map f := by
    simp [claimsOn, hc, filter_map, comp_def, hi]
  cases h
  case idle h₁ h₂ h₃ => exact .idle (hm ▸ h₁) (hm ▸ h₂) (by rw [hf, h₃]; rfl)
  case busy c total h₁ h₂ h₃ h₄ h₅ h₆ =>
    have hs : c ∈ s.claims := (mem_claimsOn.mp (h₁ ▸ mem_singleton_self c : c ∈ s.claimsOn id)).left
    refine .busy (f c) total (by rw [hf, h₁]; rfl) (by rwa [ha]) (by rwa [hm, ha]) (hm ▸ h₄)
      (by rwa [ha]) fun hn => ?_
    rcases hh c hs hn with hn | hn
    case inl => exact h₆ hn
    case inr => exact .inl hn

theorem getElem?_releases_dispatch (hp : outputs.filterMap workerRelease = payloads)
    (h : (s.dispatch th outputs).releases[d]? = some r) :
    s.releases[d]? = some r ∨
    ∃ k p, d = s.releases.length + k ∧ payloads[k]? = some p ∧ r = ⟨s.releases.length, p⟩ := by
  rw [dispatch, hp, getElem?_append] at h
  split at h
  case isTrue => exact .inl h
  case isFalse hl =>
    obtain ⟨p, hk, rfl⟩ := Option.map_eq_some_iff.mp (getElem?_map .. ▸ h)
    exact .inr ⟨d - s.releases.length, p, by omega, hk, rfl⟩

theorem releases_prefix_dispatch : s.releases <+: (s.dispatch th outputs).releases :=
  prefix_append _ _

theorem Known.dispatch (h : s.Known j) : (s.dispatch th outputs).Known j :=
  h.mono (le_refl s.attempts) releases_prefix_dispatch

-- A release message that is just being sent has not taken effect.
theorem Ledger.effectsOf_fresh (h : s.Ledger F) (hd : s.releases.length ≤ d) :
    s.effectsOf (.release d) = [] :=
  effectsOf_eq_nil fun _ hx he => absurd (he ▸ h.effects hx : s.Known (.release d)) (not_lt.mpr hd)

-- A claim after the dispatch is a handed on claim of the attempt, or the claim of somebody else.
theorem mem_claims_dispatch (hp : outputs.filterMap workerRelease = payloads)
    (h : c ∈ (s.dispatch th outputs).claims) :
    (c ∈ s.claims ∧ ¬(c.holder = some th ∧ c.resourceId ∈ payloads.map (·.resourceId))) ∨
    (c.resourceId ∈ payloads.map (·.resourceId) ∧ c.holder = some (.release
      (s.releases.length + (payloads.map (·.resourceId)).idxOf c.resourceId))) := by
  simp only [dispatch, hp] at h
  obtain ⟨c', hc, rfl⟩ := mem_map.mp h
  split_ifs
  case pos hm => exact .inr ⟨hm.right, rfl⟩
  case neg hm => exact .inl ⟨hc, hm⟩

theorem mem_claims_dispatch_of_ne (hc : c ∈ s.claims) (hn : c.holder ≠ some th) :
    c ∈ (s.dispatch th outputs).claims :=
  mem_map.mpr ⟨c, hc, by simp [hn]⟩

theorem Undisturbed.dispatch (h : th ≠ j) : Undisturbed j s (s.dispatch th outputs) where
  attempts := le_refl _
  releases := releases_prefix_dispatch
  claims hk c hc := by
    have hn : c.holder ≠ some th := fun he => h (Option.some.inj (he.symm.trans hc))
    refine ⟨fun hm => ?_, fun hm => mem_claims_dispatch_of_ne hm hn⟩
    rcases mem_claims_dispatch rfl hm with ⟨hm, _⟩ | ⟨_, hd⟩
    case inl => exact hm
    case inr =>
      rw [hc] at hd
      cases hd
      exact absurd hk (not_lt.mpr (le_add_right _ _))
  tokens hk t ht := by
    have hn : t.holder ≠ th := fun he => h (he.symm.trans ht)
    refine ⟨fun hm => ?_, fun hm => mem_map.mpr ⟨t, hm, if_neg hn⟩⟩
    obtain ⟨t', hs, rfl⟩ := mem_map.mp hm
    split_ifs at ht ⊢
    case pos => subst ht; exact absurd hk (lt_irrefl _)
    case neg => exact hs
  effects _ := rfl

theorem Ledger.dispatch (h : s.Ledger F) (hp : outputs.filterMap workerRelease = payloads)
    (hn : (payloads.map (·.resourceId)).Nodup)
    (hc : ∀ p ∈ payloads, ⟨p.resourceId, p.memoryMb, some (.attempt i)⟩ ∈ s.claims) :
    (s.dispatch (.attempt i) outputs).Ledger F where
  balanced id := by
    refine (h.balanced id).of_map _ rfl rfl (fun c => ?_) (fun c => ?_) (fun c _ hh => ?_)
    · split_ifs <;> rfl
    · split_ifs <;> rfl
    · split_ifs at hh
      exact .inl hh
  claims {c j} hm ho := by
    rcases mem_claims_dispatch hp hm with ⟨hm, _⟩ | ⟨hi, hd⟩
    case inl => exact (h.claims hm ho).dispatch
    case inr =>
      obtain rfl : j = _ := Option.some.inj (ho.symm.trans hd)
      have hl := idxOf_lt_length_of_mem hi
      rw [length_map] at hl
      simp only [Known, Fleet.dispatch, hp, length_append, length_map]
      omega
  effects hx := (h.effects hx).dispatch
  acked hd :=
    have ⟨r, hr, he⟩ := h.acked hd
    ⟨r, getElem?_of_prefix releases_prefix_dispatch hr, he⟩
  once {d r} hr := by
    rcases getElem?_releases_dispatch hp hr with hr | ⟨k, p, rfl, _, rfl⟩
    case inl => exact h.once hr
    case inr =>
      show s.effectsOf _ <+: _
      rw [h.effectsOf_fresh (le_add_right _ _)]
      exact nil_prefix
  unreleased {d r} hr he := by
    rcases getElem?_releases_dispatch hp hr with hr | ⟨k, p, rfl, hk, rfl⟩
    case inl => exact mem_claims_dispatch_of_ne (h.unreleased hr he) (by simp)
    case inr =>
      have hm := hc p (mem_of_getElem? hk)
      have hi : (payloads.map (·.resourceId)).idxOf p.resourceId = k := by
        have hk' : (payloads.map (·.resourceId))[k]? = some p.resourceId := by simp [hk]
        obtain ⟨hl, hk'⟩ := List.getElem?_eq_some_iff.mp hk'
        rw [← hk']
        exact hn.idxOf_getElem k hl
      refine mem_map.mpr ⟨_, hm, ?_⟩
      rw [hp, if_pos ⟨rfl, mem_map_of_mem (mem_of_getElem? hk)⟩, hi]
  released {c d} hm ho := by
    rcases mem_claims_dispatch hp hm with ⟨hm, _⟩ | ⟨_, hd⟩
    case inl => exact h.released hm ho
    case inr =>
      rw [ho] at hd
      cases hd
      exact h.effectsOf_fresh (le_add_right _ _)
  placed {c d r} hm ho hr := by
    rcases mem_claims_dispatch hp hm with ⟨hm, _⟩ | ⟨hi, hd⟩
    case inl =>
      rcases getElem?_releases_dispatch hp hr with hr | ⟨k, p, rfl, _, _⟩
      case inl => exact h.placed hm ho hr
      case inr => exact absurd (h.claims hm ho) (not_lt.mpr (le_add_right _ _))
    case inr =>
      rw [ho] at hd
      cases hd
      rcases getElem?_releases_dispatch hp hr with hr | ⟨k, p, hk, hk', rfl⟩
      case inl =>
        have := (List.getElem?_eq_some_iff.mp hr).choose
        omega
      case inr =>
        have hk : (payloads.map (·.resourceId)).idxOf c.resourceId = k := add_left_cancel hk
        have := getElem?_idxOf hi
        rw [hk, getElem?_map, hk'] at this
        exact (Option.some.inj this).symm

theorem SlotsKept.dispatch (h : s.SlotsKept q m) (hp : outputs.filterMap workerRelease = payloads)
    (ht : ∀ p ∈ payloads, Release.parent ⟨s.releases.length, p⟩ = some q →
      payloads.length = 1 ∧ ⟨slotKey q, .attempt i⟩ ∈ s.tokens) :
    (s.dispatch (.attempt i) outputs).SlotsKept q m where
  counted := by
    rw [Fleet.dispatch, countP_map]
    refine le_of_eq_of_le (countP_congr fun t _ => ?_) h.counted
    simp only [Function.comp]
    split_ifs <;> rfl
  capped := h.capped
  single {d r} hr hq := by
    rcases getElem?_releases_dispatch hp hr with hr | ⟨k, p, rfl, hk, rfl⟩
    case inl => exact h.single hr hq
    case inr =>
      have ⟨hl, _⟩ := ht p (mem_of_getElem? hk) hq
      have := (List.getElem?_eq_some_iff.mp hk).choose
      show s.releases.length = s.releases.length + k
      omega
  held {d r} hr hq he := by
    rcases getElem?_releases_dispatch hp hr with hr | ⟨k, p, rfl, hk, rfl⟩
    case inl =>
      exact mem_map.mpr ⟨_, h.held hr hq he, by simp⟩
    case inr =>
      have ⟨hl, hm⟩ := ht p (mem_of_getElem? hk) hq
      have := (List.getElem?_eq_some_iff.mp hk).choose
      obtain rfl : k = 0 := by omega
      exact mem_map.mpr ⟨_, hm, by simp⟩

end Dispatch

section Lifecycle

variable {i d : Nat}

theorem Kept.empty : Fleet.empty.Kept F where
  ledger := {
    balanced _ := .idle rfl rfl rfl
    claims h := nomatch h
    effects h := nomatch h
    acked h := nomatch h
    once h := nomatch h
    unreleased h := nomatch h
    released h := nomatch h
    placed h := nomatch h
  }
  slots _ := ⟨le_refl _, zero_le _, fun h => (nomatch h), fun h => (nomatch h)⟩

def begin (s : Fleet) : Fleet :=
  { s with attempts := s.attempts + 1 }

theorem Undisturbed.begin (j : Thread) (s : Fleet) : Undisturbed j s s.begin :=
  { Undisturbed.refl j s with attempts := le_succ _ }

theorem Kept.begin (h : s.Kept F) : s.begin.Kept F where
  ledger := { h.ledger with
    balanced id := (h.ledger.balanced id).transfer rfl rfl rfl
    claims hc ho := (Undisturbed.begin .. : Undisturbed (.attempt 0) s _).known (h.ledger.claims hc ho)
    effects hx := (Undisturbed.begin .. : Undisturbed (.attempt 0) s _).known (h.ledger.effects hx) }
  slots hq := { h.slots hq with }

theorem Undisturbed.expire (j : Thread) (s : Fleet) (key : String) : Undisturbed j s (s.expire key) :=
  { Undisturbed.refl j s with }

-- An expired counter says nothing about the reservations.
theorem Kept.expire (h : s.Kept F) (he : F.expires) (key : String) : (s.expire key).Kept F where
  ledger := { h.ledger with
    balanced id := (h.ledger.balanced id).transfer rfl rfl rfl }
  slots hc := absurd he hc.lasting

theorem Undisturbed.abandon (h : th ≠ j) : Undisturbed j s (s.abandon th) :=
  { Undisturbed.refl j s with
    claims _ c hc := by
      have hn : c.holder ≠ some th := fun he => h (Option.some.inj (he.symm.trans hc))
      refine ⟨fun hm => ?_, fun hm => mem_map.mpr ⟨c, hm, if_neg hn⟩⟩
      obtain ⟨c', hs, rfl⟩ := mem_map.mp hm
      split_ifs at hc ⊢
      case neg => exact hs }

theorem mem_claims_abandon (h : c ∈ (s.abandon th).claims) (hh : c.holder = some j) : c ∈ s.claims := by
  obtain ⟨c', hs, rfl⟩ := mem_map.mp h
  split_ifs at hh ⊢
  exact hs

-- Only a fault leaves an attempt behind with claims that it has not passed on.
theorem Kept.abandon (h : s.Kept F)
    (hf : ¬F.faults → ∀ c ∈ s.claims, c.holder ≠ some (.attempt i)) : (s.abandon (.attempt i)).Kept F where
  ledger := { h.ledger with
    balanced id := by
      refine (h.ledger.balanced id).of_map _ rfl rfl (fun c => ?_) (fun c => ?_) (fun c hc hh => ?_)
      · split_ifs <;> rfl
      · split_ifs <;> rfl
      · by_cases hn : F.faults
        case pos => exact .inr hn
        case neg => rw [if_neg (hf hn c hc)] at hh; exact .inl hh
    claims hc ho := h.ledger.claims (mem_claims_abandon hc ho) ho
    unreleased {d r} hr he := mem_map.mpr ⟨_, h.ledger.unreleased hr he, by simp⟩
    released hc ho := h.ledger.released (mem_claims_abandon hc ho) ho
    placed hc ho hr := h.ledger.placed (mem_claims_abandon hc ho) ho hr }
  slots hq := { h.slots hq with }

def ack (d : Nat) (s : Fleet) : Fleet :=
  { s with acked := d :: s.acked }

theorem Undisturbed.ack (j : Thread) (s : Fleet) : Undisturbed j s (s.ack d) :=
  { Undisturbed.refl j s with }

theorem Kept.ack (h : s.Kept F) (hr : s.releases[d]? = some r)
    (he : s.effectsOf (.release d) = r.once) : (s.ack d).Kept F where
  ledger := { h.ledger with
    balanced id := (h.ledger.balanced id).transfer rfl rfl rfl
    acked {d'} hd := by
      rcases mem_cons.mp hd with rfl | hd
      case inl => exact ⟨r, hr, he⟩
      case inr => exact h.ledger.acked hd }
  slots hq := { h.slots hq with }

end Lifecycle

end Fleet

end Scheduler
