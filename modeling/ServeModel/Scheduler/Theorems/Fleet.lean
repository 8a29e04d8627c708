import ServeModel.Scheduler.Theorems.Ledger

-- Every thread of a fleet keeps the ledger: a walk through the code of an attempt and of a release, which
-- may be interrupted by the others before each command.
namespace Scheduler

open Routine List Fleet

def outline (F : Terms) : System.Outline (fleet F) where
  inv := Fleet.Kept F
  rely th := Fleet.Undisturbed th
  guar th s s' := ∀ j, th ≠ j → Fleet.Undisturbed j s s'
  post
    | .attempt i, _, s =>
      s.Known (.attempt i) ∧ (¬F.faults → ∀ c ∈ s.claims, c.holder ≠ some (.attempt i))
    | .release d, x, s => s.Known (.release d) ∧
      (x.1 = .ok () → ∃ r, s.releases[d]? = some r ∧ s.effectsOf (.release d) = r.once)
  rely_refl := Fleet.Undisturbed.refl
  rely_trans _ := Fleet.Undisturbed.trans

abbrev Terms.discipline (F : Terms) (th : Thread) : Discipline Op Fleet :=
  (outline F).discipline th

variable {F : Terms} {τ : Type} {t : τ} {s s' : Fleet}

theorem wp_op :
    wp (F.discipline th) (RoleM.perform op) Q t s ↔
      ∀ s₁, Fleet.Undisturbed th s s₁ → s₁.Kept F → ∀ r s₂, Fleet.exec F th op s₁ r s₂ →
        s₂.Kept F ∧ (∀ j, th ≠ j → Fleet.Undisturbed j s₁ s₂) ∧ Q (.ok r) t s₂ :=
  RoleM.wp_perform

theorem values_of_granted (h : List.Forall₂ IntegerReply [1, (total : Int), delta] values) :
    ∃ v w, values = [1, v, w] ∧ IntegerReply total v := by
  rcases h with _ | ⟨h₁, _ | ⟨h₂, _ | ⟨_, _ | _⟩⟩⟩
  exact ⟨_, _, by rw [h₁.2.2 (by decide)], h₂⟩

theorem values_of_busy
    (h : List.Forall₂ IntegerReply [0, (total : Int), active] values) : ∃ rest, values = 0 :: rest := by
  rcases h with _ | ⟨h₁, _⟩
  exact ⟨_, by rw [h₁.2.2 (by decide)]⟩

theorem values_of_acquire (hx : x < 2 ^ 63) (h : List.Forall₂ IntegerReply [x, n] values) :
    ∃ v, values = [x, v] := by
  rcases h with _ | ⟨h₁, _ | ⟨_, _ | _⟩⟩
  exact ⟨_, by rw [h₁.2.2 hx]⟩

section Attempt

variable {i mem id floor : Nat} {ids : List Nat} {held : Option String}

-- What an attempt holds on the way: GPUs with the memory that each of them is reserved with, and a slot.
structure Holding (F : Terms) (i mem : Nat) (ids : List Nat) (held : Option String) (s : Fleet) :
    Prop where
  known : s.Known (.attempt i)
  nodup : ids.Nodup
  fits : ids ≠ [] → mem < 2 ^ 63
  claims : ∀ id ∈ ids, ⟨id, mem, some (.attempt i)⟩ ∈ s.claims
  only : ¬F.faults → ∀ c ∈ s.claims, c.holder = some (.attempt i) → c.resourceId ∈ ids
  token : ∀ p, held = some p → ⟨slotKey p, .attempt i⟩ ∈ s.tokens

theorem Holding.stable (h : Holding F i mem ids held s) (hr : Fleet.Undisturbed (.attempt i) s s') :
    Holding F i mem ids held s' where
  known := hr.known h.known
  nodup := h.nodup
  fits := h.fits
  claims id hi := (hr.claims h.known _ rfl).mpr (h.claims id hi)
  only hf c hc hh := h.only hf c ((hr.claims h.known c hh).mp hc) hh
  token p hp := (hr.tokens h.known _ rfl).mpr (h.token p hp)

-- A grant that arrives adds to what the attempt holds, one that does not arrive is nobody's.
theorem Holding.grant (h : Holding F i mem ids held s) (hm : mem < 2 ^ 63) (hn : s.claimsOn id = []) :
    Holding F i mem (ids ++ [id]) held (s.grant (some (.attempt i)) id floor mem) where
  known := h.known
  nodup := by
    have hi : id ∉ ids := fun hi => by
      have := mem_claimsOn.mpr ⟨h.claims id hi, rfl⟩
      simp [hn] at this
    simp [nodup_append, h.nodup]
    exact fun a ha he => hi (he ▸ ha)
  fits _ := hm
  claims id' hi := by
    rcases mem_append.mp hi with hi | hi
    case inl => exact mem_cons_of_mem _ (h.claims id' hi)
    case inr => rw [mem_singleton.mp hi]; exact mem_cons_self
  only hf c hc hh := by
    rcases mem_cons.mp hc with rfl | hc
    case inl => simp
    case inr => exact mem_append_left _ (h.only hf c hc hh)
  token := h.token

theorem Holding.grant_none (h : Holding F i mem ids held s) :
    Holding F i mem ids held (s.grant none id floor mem) where
  known := h.known
  nodup := h.nodup
  fits := h.fits
  claims id hi := mem_cons_of_mem _ (h.claims id hi)
  only hf c hc hh := by
    rcases mem_cons.mp hc with rfl | hc
    case inl => cases hh
    case inr => exact h.only hf c hc hh
  token := h.token

theorem Fleet.Kept.grant (h : s.Kept F) (hn : s.claimsOn id = []) (hd : 0 < mem)
    (hh : ∀ th, holder = some th → ∃ i, th = .attempt i ∧ i < s.attempts)
    (hl : holder = none → F.faults ∨ 2 ^ 63 ≤ Fleet.grantedTotal floor mem) :
    (s.grant holder id floor mem).Kept F where
  ledger := h.ledger.grant hn hd hh hl
  slots hq := (h.slots hq).grant

-- The scheduler takes exactly these replies for a grant.
def isGrant : Except Failure (List Int) → Bool
  | .ok (1 :: accounted :: _) => 0 ≤ accounted
  | _ => false

theorem step_reserveIdle (hi : s.Kept F) (hm : 0 < mem) (hfit : mem < 2 ^ 63)
    (h : Holding F i mem ids held s)
    (he : Fleet.exec F (.attempt i) (.reserveIdle id floor mem) s r s') :
    s'.Kept F ∧ (∀ j, .attempt i ≠ j → Fleet.Undisturbed j s s') ∧
      Holding F i mem (if isGrant r then ids ++ [id] else ids) held s' := by
  have hs : s.Kept F ∧ (∀ j, .attempt i ≠ j → Fleet.Undisturbed j s s) ∧ Holding F i mem ids held s :=
    ⟨hi, fun _ _ => .refl _ _, h⟩
  have hlost (hc : s.claimsOn id = []) (hl : F.faults ∨ 2 ^ 63 ≤ Fleet.grantedTotal floor mem) :
      (s.grant none id floor mem).Kept F ∧
      (∀ j, .attempt i ≠ j → Fleet.Undisturbed j s (s.grant none id floor mem)) ∧
      Holding F i mem ids held (s.grant none id floor mem) :=
    ⟨hi.grant hc hm (fun _ hh => nomatch hh) (fun _ => hl), fun _ _ => .grant (fun hh => nomatch hh),
      h.grant_none⟩
  rcases he with ⟨values, rfl, hv, rfl⟩ | ⟨hf, ⟨e, rfl⟩, rfl | rfl⟩
  case inr.inl => exact hs
  case inr.inr =>
    rcases hi.ledger.reserveIdle_cases id floor mem with ⟨hc, -, hg⟩ | ⟨_, _, -, hg⟩
    case inl => rw [hg]; exact hlost hc (.inl hf)
    case inr => rw [hg]; exact hs
  case inl =>
    rcases hi.ledger.reserveIdle_cases id floor mem with ⟨hc, hv', hg⟩ | ⟨_, _, hv', hg⟩
    case inr =>
      obtain ⟨rest, rfl⟩ := values_of_busy (hv' ▸ hv)
      rw [hg]
      exact hs
    case inl =>
      obtain ⟨v, w, rfl, hr⟩ := values_of_granted (hv' ▸ hv)
      rw [hg]
      by_cases hn : v < 0
      case pos =>
        -- the total did not fit the reply
        have hl : 2 ^ 63 ≤ Fleet.grantedTotal floor mem := by
          by_contra hl
          have := hr.2.2 (by omega)
          omega
        simp only [grantee, hn, if_true, isGrant, show ¬ 0 ≤ v by omega, decide_false]
        exact hlost hc (.inr hl)
      case neg =>
        simp only [grantee, hn, if_false, isGrant, show 0 ≤ v by omega, decide_true]
        exact ⟨hi.grant hc hm (fun th hh => ⟨i, (Option.some.inj hh).symm, h.known⟩) (fun hh => nomatch hh),
          fun j hj => .grant fun hh => hj (Option.some.inj hh), h.grant hfit hc⟩

theorem wp_tryReserveIdle (hm : 0 < mem) (h : Holding F i mem ids held s) :
    wp (F.discipline (.attempt i)) (tryReserveIdle id floor mem)
      (fun x _ s' => match x with
        | .ok (some _) => Holding F i mem (ids ++ [id]) held s'
        | _ => Holding F i mem ids held s') t s := by
  simp only [tryReserveIdle, wp_bind, wp_ite]
  split
  case isTrue => exact h
  case isFalse =>
    split
    case isTrue => exact h
    case isFalse hfit =>
      refine wp_op.mpr fun s₁ hr hi r s₂ he => ?_
      obtain ⟨hk, hg, hh⟩ := step_reserveIdle hi hm (Nat.not_le.mp hfit) (h.stable hr) he
      refine ⟨hk, hg, ?_⟩
      rcases r with e | values
      case error => exact hh
      case ok =>
        simp only [andThen_ok, wp_bind, wp_ofExcept]
        split
        case h_1 rest =>
          rcases rest with _ | ⟨v, rest⟩
          case nil => exact hh
          case cons =>
            simp only [isGrant] at hh
            simp only [wp_ite]
            split
            case isTrue hv => simpa [Int.not_le.mpr hv] using hh
            case isFalse hv => simpa [Int.not_lt.mp hv] using hh
        case h_2 hn =>
          have : isGrant (.ok values) = false := by
            unfold isGrant
            split
            case h_1 heq => exact absurd (Except.ok.inj heq) (hn _)
            case h_2 => rfl
          simpa [this] using hh

-- A claim that is not given back because of a fault is no longer looked after.
theorem Holding.forget (h : Holding F i mem (id :: ids) held s) (hf : F.faults) :
    Holding F i mem ids held s where
  known := h.known
  nodup := h.nodup.of_cons
  fits _ := h.fits (cons_ne_nil _ _)
  claims id' hi := h.claims id' (mem_cons_of_mem _ hi)
  only hn := absurd hf hn
  token := h.token

theorem Holding.drop (h : Holding F i mem (id :: ids) held s) :
    Holding F i mem ids held (s.drop (.attempt i) id mem) where
  known := h.known
  nodup := h.nodup.of_cons
  fits _ := h.fits (cons_ne_nil _ _)
  claims id' hi := by
    have hn : id' ≠ id := fun he => (nodup_cons.mp h.nodup).left (he ▸ hi)
    exact mem_claims_drop.mpr ⟨h.claims id' (mem_cons_of_mem _ hi), fun hm => hn hm.left⟩
  only hf c hc hh := by
    have ⟨hc, hn⟩ := mem_claims_drop.mp hc
    rcases mem_cons.mp (h.only hf c hc hh) with hi | hi
    case inl => exact absurd ⟨hi, hh⟩ hn
    case inr => exact hi
  token := h.token

theorem Fleet.Kept.drop (h : s.Kept F) (hc : ⟨id, mem, some th⟩ ∈ s.claims) :
    (s.drop th id mem).Kept F where
  ledger := h.ledger.drop hc
  slots hq := (h.slots hq).drop

theorem wp_decrement (h : Holding F i mem (id :: ids) held s) :
    wp (F.discipline (.attempt i)) (decrement id mem)
      (fun _ _ s' => Holding F i mem ids held s') t s := by
  simp only [decrement, wp_bind, wp_ite]
  rw [if_neg (Nat.not_le.mpr (h.fits (cons_ne_nil _ _)))]
  refine wp_op.mpr fun s₁ hr hi r s₂ he => ?_
  have h₁ := h.stable hr
  have hc := h₁.claims id mem_cons_self
  obtain ⟨_, hd⟩ := hi.ledger.decrement_eq hc
  rw [Fleet.exec, hd] at he
  have hdrop : (s₁.drop (.attempt i) id mem).Kept F ∧
      (∀ j, .attempt i ≠ j → Fleet.Undisturbed j s₁ (s₁.drop (.attempt i) id mem)) ∧
      Holding F i mem ids held (s₁.drop (.attempt i) id mem) :=
    ⟨hi.drop hc, fun _ => .drop, h₁.drop⟩
  rcases he with ⟨values, rfl, _, rfl⟩ | ⟨hf, ⟨e, rfl⟩, rfl | rfl⟩
  case inl =>
    refine ⟨hdrop.1, hdrop.2.1, ?_⟩
    rcases values with _ | ⟨v, _⟩
    case nil => exact hdrop.2.2
    case cons =>
      simp only [andThen_ok, wp_bind, wp_ofExcept, wp_ite]
      split <;> exact hdrop.2.2
  case inr.inl => exact ⟨hi, fun _ _ => .refl _ _, h₁.forget hf⟩
  case inr.inr => exact hdrop

theorem wp_releaseClaims (ids : List Nat) (h : Holding F i mem ids held s) :
    wp (F.discipline (.attempt i)) (releaseClaims mem ids)
      (fun x _ s' => x = .ok () ∧ Holding F i mem [] held s') t s := by
  induction ids generalizing s t
  case nil => exact ⟨rfl, h⟩
  case cons id ids hi =>
    simp only [releaseClaims, wp_bind, wp_observe]
    exact wp_mono (fun _ _ _ h => hi h) (wp_decrement h)

theorem wp_claimResources (hm : 0 < mem) (candidates : List ResourceInfo) (claimed : List ReservedResource)
    (h : Holding F i mem (claimed.map (·.resourceId)) held s) :
    wp (F.discipline (.attempt i)) (claimResources mem claimed candidates)
      (fun x _ s' => match x with
        | .ok targets => targets.length = claimed.length + candidates.length ∧
            Holding F i mem (targets.map (·.resourceId)) held s'
        | .error _ => Holding F i mem [] held s') t s := by
  induction candidates generalizing s t claimed
  case nil => exact ⟨rfl, h⟩
  case cons candidate candidates hi =>
    have hback {t : τ} {s : Fleet} (e : Failure) (h : Holding F i mem (claimed.map (·.resourceId)) held s) :
        wp (F.discipline (.attempt i))
          (releaseClaims mem (claimed.map (·.resourceId)) >>= fun _ => throw e)
          (fun (x : Except Failure (List ReservedResource)) _ s' => match x with
            | .ok targets => targets.length = claimed.length + (candidates.length + 1) ∧
                Holding F i mem (targets.map (·.resourceId)) held s'
            | .error _ => Holding F i mem [] held s') t s := by
      rw [wp_bind]
      refine wp_mono (fun x _ s h => ?_) (wp_releaseClaims _ h)
      rw [h.1]
      exact h.2
    simp only [claimResources, wp_bind, wp_observe, length_cons]
    refine wp_mono (fun x t s h => ?_) (wp_tryReserveIdle hm h)
    rcases x with e | _ | total
    case error => exact hback e h
    case ok.none => exact hback _ h
    case ok.some =>
      have hnext := hi (t := t) (claimed ++ [⟨candidate.streamName, candidate.resourceId⟩])
        (by simpa using h)
      rw [andThen_ok]
      refine wp_mono (fun x _ s h => ?_) hnext
      rcases x with e | targets
      case error => exact h
      case ok => exact ⟨by simpa [Nat.add_assoc, Nat.add_comm 1] using h.1, h.2⟩

theorem Holding.of_nil (h : Holding F i mem [] held s) (mem' : Nat) : Holding F i mem' [] held s :=
  ⟨h.known, h.nodup, fun hn => absurd rfl hn, fun _ hi => (nomatch hi), h.only, h.token⟩

theorem wp_getActiveMany (h : Holding F i mem ids held s) :
    wp (F.discipline (.attempt i)) (getActiveMany resourceIds)
      (fun _ _ s' => Holding F i mem ids held s') t s := by
  simp only [getActiveMany, wp_bind]
  refine wp_op.mpr fun s₁ hr hi r s₂ he => ?_
  obtain ⟨rfl, _⟩ := he
  refine ⟨hi, fun _ _ => .refl _ _, ?_⟩
  simpa using h.stable hr

theorem wp_reserve (h : Holding F i mem [] held s) :
    wp (F.discipline (.attempt i)) (ResourceReservationTable.reserve payload)
      (fun x _ s' => match x with
        | .ok (resolved, targets) => ∃ config,
            table.prepareResourceRequirements payload = .ok (config, resolved) ∧
            targets.length ≤ config.gpusRequired ∧
            Holding F i config.memoryMb (targets.map (·.resourceId)) held s'
        | .error _ => Holding F i mem [] held s') table s := by
  simp only [ResourceReservationTable.reserve, wp_bind, wp_get, andThen_ok,
    wp_ofExcept]
  cases hp : table.prepareResourceRequirements payload
  case error => exact h
  case ok prepared =>
    obtain ⟨config, resolved⟩ := prepared
    simp only [andThen_ok, wp_bind]
    refine wp_mono (fun x t s h => ?_) (wp_getActiveMany h)
    rcases x with e | active
    case error => exact h
    case ok =>
      simp only [andThen_ok, wp_bind, wp_ofExcept]
      cases selectCandidateResources table.resources resolved table.memoryUtilizationPercent
        config.gpusRequired
      case error => exact h
      case ok eligible =>
        simp only [andThen_ok, wp_ite]
        split
        case isTrue => exact h
        case isFalse =>
          simp only [wp_bind, wp_modify, andThen_ok]
          refine wp_mono (fun x _ s h' => ?_)
            (wp_claimResources (prepare_ok hp).memory_pos _ [] (h.of_nil config.memoryMb))
          rcases x with e | targets
          case error => exact h'.of_nil mem
          case ok =>
            obtain ⟨hl, h'⟩ := h'
            refine ⟨config, rfl, ?_, h'⟩
            rw [hl, length_nil, Nat.zero_add]
            exact length_take_le _ _

theorem Holding.without (h : Holding F i mem ids held s) : Holding F i mem ids none s :=
  { h with token := fun _ hp => nomatch hp }

theorem Holding.take (h : Holding F i mem ids none s) (parent : String) :
    Holding F i mem ids (some parent) (s.take (some (.attempt i)) (slotKey parent)) :=
  { h with
    token p hp := by
      obtain rfl := Option.some.inj hp
      exact mem_append_left _ (by simp) }

theorem Fleet.Kept.take (h : s.Kept F) (hq : ∀ {q m}, F.Capped q m → key = slotKey q → s.slots key < m) :
    (s.take th? key).Kept F where
  ledger := h.ledger.take
  slots hc := (h.slots hc).take (hq hc)

theorem parse_acquired (h : parseParentSlotAcquireResult values = .ok (.acquired n)) :
    ∃ v, values = [1, v] := by
  unfold parseParentSlotAcquireResult at h
  split at h
  case h_1 x v =>
    split_ifs at h with _ hx
    case pos => exact ⟨v, by rw [hx]⟩
    case pos => cases h
  case h_2 => cases h

-- The limit of a capped parent is the one that its children ask with.
theorem step_acquireSlot {max : Nat} (hi : s.Kept F) (h : Holding F i mem ids none s)
    (hq : ∀ {q m}, F.Capped q m → parent = q → max = m)
    (he : Fleet.exec F (.attempt i) (.acquireSlot (slotKey parent) (asI64 max)) s r s') :
    s'.Kept F ∧ (∀ j, .attempt i ≠ j → Fleet.Undisturbed j s s') ∧ Holding F i mem ids none s' ∧
      ∀ v, r = .ok [1, v] → Holding F i mem ids (some parent) s' := by
  rcases acquireSlot_cases s (slotKey parent) max with ⟨⟨n, hv⟩, hs⟩ | ⟨hl, hv, hs⟩
  case inl =>
    have hstay : s'= s ∧ ∀ v, r ≠ .ok [1, v] := by
      rcases he with ⟨values, rfl, hvs, rfl⟩ | ⟨_, ⟨e, rfl⟩, rfl | rfl⟩
      case inl =>
        obtain ⟨v, rfl⟩ := values_of_acquire (by decide) (hv ▸ hvs)
        exact ⟨hs _, fun _ hn => by cases hn⟩
      case inr.inl => exact ⟨rfl, fun _ hn => nomatch hn⟩
      case inr.inr => exact ⟨hs _, fun _ hn => nomatch hn⟩
    obtain ⟨rfl, hn⟩ := hstay
    exact ⟨hi, fun _ _ => .refl _ _, h, fun v hv => absurd hv (hn v)⟩
  case inr =>
    have htake (th? : Option Thread) : (s.take th? (slotKey parent)).Kept F :=
      hi.take fun hc hk => by
        rw [← hq hc (slotKey_injective hk)]
        exact hl
    rcases he with ⟨values, rfl, _, rfl⟩ | ⟨_, ⟨e, rfl⟩, rfl | rfl⟩
    case inl =>
      rw [hs]
      exact ⟨htake _, fun j hj => .take fun hn => hj (Option.some.inj hn), (h.take parent).without,
        fun _ _ => h.take parent⟩
    case inr.inl => exact ⟨hi, fun _ _ => .refl _ _, h, fun _ hn => nomatch hn⟩
    case inr.inr =>
      rw [hs]
      exact ⟨htake _, fun j _ => .take fun hn => (nomatch hn), { h with token := fun _ hp => nomatch hp },
        fun _ hn => nomatch hn⟩

theorem wp_tryAcquire {max : Nat} (h : Holding F i mem ids none s)
    (hq : ∀ {q m}, F.Capped q m → parent = q → max = m) :
    wp (F.discipline (.attempt i)) (tryAcquire parent max)
      (fun x t' s' => t' = t ∧ match x with
        | .ok (.acquired _) => Holding F i mem ids (some parent) s'
        | _ => Holding F i mem ids none s') t s := by
  simp only [tryAcquire, wp_bind]
  refine wp_op.mpr fun s₁ hr hi r s₂ he => ?_
  obtain ⟨hk, hg, hn, ha⟩ := step_acquireSlot hi (h.stable hr) hq he
  refine ⟨hk, hg, ?_⟩
  rcases r with e | values
  case error => exact ⟨rfl, hn⟩
  case ok =>
    simp only [andThen_ok, wp_bind, wp_ofExcept]
    refine ⟨trivial, ?_⟩
    split
    case h_1 hp =>
      obtain ⟨v, hv⟩ := parse_acquired hp
      exact ha v (by rw [hv])
    case h_2 => exact hn

theorem fanoutGate_parent (h : fanoutGate payload = some (parent, limit)) :
    payload.parentRunId.bind Text.nonBlank = some parent := by
  simp only [fanoutGate, Option.bind_eq_bind, Option.bind_eq_some_iff] at h
  obtain ⟨p, hp, f, _, m, _, hm⟩ := h
  split_ifs at hm
  cases hm
  simpa [Option.bind_eq_some_iff] using hp

theorem wp_acquireParentSlot (ha : F.admits u pending) (h : Holding F i mem ids none s) :
    wp (F.discipline (.attempt i)) (acquireParentSlot pending.payload)
      (fun x t' s' => t' = t ∧ match x with
        | .ok (some held) => held = (fanoutGate pending.payload).map (·.1) ∧ Holding F i mem ids held s'
        | _ => Holding F i mem ids none s') t s := by
  unfold acquireParentSlot
  split
  case h_1 hg => exact ⟨rfl, by rw [hg]; rfl, h⟩
  case h_2 parent limit hg =>
    simp only [wp_bind]
    refine wp_mono (fun x _ s h => ?_) (wp_tryAcquire h fun hc hq => ?_)
    · obtain ⟨ht, h⟩ := h
      rcases x with e | n | n
      case error | ok.saturated => exact ⟨ht, h⟩
      case ok.acquired => exact ⟨ht, by rw [hg]; rfl, h⟩
    · have hgate := hc.gate ha (by rw [fanoutGate_parent hg, hq])
      rw [hg] at hgate
      exact (Prod.mk.inj (Option.some.inj hgate)).right

theorem Fleet.Kept.releaseSlot (h : s.Kept F) (hk : s.Known th)
    (ho : ∀ d r, th = .release d → s.releases[d]? = some r →
      s.effectsOf th ++ [.slotReturned key] <+: r.once)
    (ht : ∀ {q m}, F.Capped q m → key = slotKey q → ⟨key, th⟩ ∈ s.tokens) :
    (s.releaseSlot th key).Kept F where
  ledger := h.ledger.releaseSlot hk ho
  slots hc := (h.slots hc).releaseSlot (ht hc)

theorem wp_releaseHeldSlot (h : Holding F i mem ids held s) :
    wp (F.discipline (.attempt i)) (releaseHeldSlot held)
      (fun x _ s' => x = .ok () ∧ Holding F i mem ids none s') t s := by
  rcases held with _ | parent
  case none => exact ⟨rfl, h⟩
  case some =>
    simp only [releaseHeldSlot, releaseSlot, wp_bind, wp_observe]
    refine wp_op.mpr fun s₁ hr hi r s₂ he => ?_
    have h₁ := h.stable hr
    have hdone : (s₁.releaseSlot (.attempt i) (slotKey parent)).Kept F ∧
        (∀ j, .attempt i ≠ j → Fleet.Undisturbed j s₁ (s₁.releaseSlot (.attempt i) (slotKey parent))) ∧
        Holding F i mem ids none (s₁.releaseSlot (.attempt i) (slotKey parent)) :=
      ⟨hi.releaseSlot h₁.known (fun _ _ hn => by cases hn) (fun _ _ => h₁.token parent rfl),
        fun _ => .releaseSlot, { h₁ with token := fun _ hp => by cases hp }⟩
    rcases he with ⟨value, rfl, _, rfl⟩ | ⟨_, ⟨e, rfl⟩, rfl | rfl⟩
    case inl =>
      refine ⟨hdone.1, hdone.2.1, ?_⟩
      simp only [andThen_ok, wp_bind, wp_ofExcept]
      exact ⟨rfl, hdone.2.2⟩
    case inr.inl => exact ⟨hi, fun _ _ => .refl _ _, rfl, h₁.without⟩
    case inr.inr => exact ⟨hdone.1, hdone.2.1, rfl, hdone.2.2⟩

theorem wp_release (h : Holding F i mem (id :: ids) held s) :
    wp (F.discipline (.attempt i)) (ResourceReservationTable.release id mem)
      (fun _ _ s' => Holding F i mem ids held s') t s := by
  simp only [ResourceReservationTable.release, wp_bind]
  refine wp_mono (fun x _ s h => ?_) (wp_decrement h)
  rcases x with e | _ | n <;> exact h

theorem wp_releaseTargets (targets : List ReservedResource)
    (h : Holding F i mem (targets.map (·.resourceId)) held s) :
    wp (F.discipline (.attempt i)) (releaseTargets mem targets)
      (fun x _ s' => x = .ok () ∧ Holding F i mem [] held s') t s := by
  induction targets generalizing s t
  case nil => exact ⟨rfl, h⟩
  case cons target targets hi =>
    simp only [releaseTargets, wp_bind, wp_observe]
    exact wp_mono (fun _ _ _ h => hi h) (wp_release h)

theorem wp_rollbackReservedSchedule
    (h : Holding F i reserved.payload.memoryMb (reserved.gpuTargets.map (·.resourceId))
      reserved.heldParentSlot s) :
    wp (F.discipline (.attempt i)) (rollbackReservedSchedule reserved)
      (fun x _ s' => x = .ok () ∧ Holding F i reserved.payload.memoryMb [] none s') t s := by
  simp only [rollbackReservedSchedule, wp_bind]
  refine wp_mono (fun x _ s hx => ?_) (wp_releaseTargets _ h)
  obtain ⟨hx, h⟩ := hx
  rw [hx]
  exact wp_releaseHeldSlot h

-- All that an attempt took has been given back or handed on.
def Settled (F : Terms) (i : Nat) (s : Fleet) : Prop :=
  s.Known (.attempt i) ∧ (¬F.faults → ∀ c ∈ s.claims, c.holder ≠ some (.attempt i))

theorem Settled.stable (h : Settled F i s) (hr : Fleet.Undisturbed (.attempt i) s s') : Settled F i s' :=
  ⟨hr.known h.left, fun hf c hc hh => h.right hf c ((hr.claims h.left c hh).mp hc) hh⟩

theorem Holding.settled (h : Holding F i mem [] held s) : Settled F i s :=
  ⟨h.known, fun hf c hc hh => nomatch h.only hf c hc hh⟩

theorem Holding.dispatch (h : Holding F i mem ids held s)
    (hp : outputs.filterMap workerRelease = payloads) (hi : payloads.map (·.resourceId) = ids) :
    Settled F i (s.dispatch (.attempt i) outputs) := by
  refine ⟨h.known, fun hf c hc hh => ?_⟩
  rcases mem_claims_dispatch hp hc with ⟨hc, hn⟩ | ⟨_, hd⟩
  case inl => exact hn ⟨hh, hi ▸ h.only hf c hc hh⟩
  case inr => rw [hh] at hd; cases hd

-- What a successful reservation is dispatched with.
structure Reserved (F : Terms) (i : Nat) (reserved : ReservedSchedule) (s : Fleet) : Prop where
  holding : Holding F i reserved.payload.memoryMb (reserved.gpuTargets.map (·.resourceId))
    reserved.heldParentSlot s
  carried : ∀ {q m}, F.Capped q m → reserved.payload.Carried
  slot : ∀ {q m}, F.Capped q m → reserved.payload.parentRunId.bind Text.nonBlank = some q →
    reserved.heldParentSlot = some q
  single : ∀ {q m}, F.Capped q m → reserved.payload.parentRunId.bind Text.nonBlank = some q →
    reserved.gpuTargets.length ≤ 1

theorem Reserved.stable (h : Reserved F i reserved s) (hr : Fleet.Undisturbed (.attempt i) s s') :
    Reserved F i reserved s' :=
  ⟨h.holding.stable hr, h.carried, h.slot, h.single⟩

theorem Reserved.dispatch (h : Reserved F i reserved s) (hi : s.Kept F) :
    (s.dispatch (.attempt i) (buildDispatchOutputs role reserved.gpuTargets reserved.payload.runId
      reserved.payload)).Kept F := by
  have hp := filterMap_workerRelease_outputs role reserved.gpuTargets reserved.payload.runId reserved.payload
  have hids : (reserved.gpuTargets.map (releaseOf reserved.payload.runId reserved.payload)).map
      (·.resourceId) = reserved.gpuTargets.map (·.resourceId) := by
    rw [map_map]
    rfl
  constructor
  case ledger =>
    refine hi.ledger.dispatch hp (hids ▸ h.holding.nodup) fun p hm => ?_
    obtain ⟨target, ht, rfl⟩ := mem_map.mp hm
    exact h.holding.claims _ (mem_map_of_mem ht)
  case slots =>
    intro q m hc
    refine (hi.slots hc).dispatch hp fun p hm hq => ?_
    obtain ⟨target, ht, rfl⟩ := mem_map.mp hm
    rw [Release.parent_of_carried (h.carried hc)] at hq
    have hl := h.single hc hq
    have hpos := length_pos_of_mem ht
    exact ⟨by rw [length_map]; omega, h.holding.token q (h.slot hc hq)⟩

theorem wp_dispatchReservedSchedule (hl : ¬F.losesDispatch) (h : Reserved F i reserved s) :
    wp (F.discipline (.attempt i)) (dispatchReservedSchedule role reserved)
      (fun _ _ s' => Settled F i s') t s := by
  simp only [dispatchReservedSchedule, wp_bind]
  refine wp_op.mpr fun s₁ hr hi r s₂ he => ?_
  have h₁ := h.stable hr
  rcases he with ⟨rfl, rfl⟩ | ⟨⟨e, rfl⟩, rfl | ⟨hn, _⟩⟩
  case inr.inr => exact absurd hn hl
  case inl =>
    have hp := filterMap_workerRelease_outputs role reserved.gpuTargets reserved.payload.runId
      reserved.payload
    exact ⟨h₁.dispatch hi, fun _ => .dispatch, h₁.holding.dispatch hp (by rw [map_map]; rfl)⟩
  case inr.inl =>
    refine ⟨hi, fun _ _ => .refl _ _, ?_⟩
    simp only [andThen_ok, wp_bind]
    refine wp_mono (fun x _ s hx => ?_) (wp_rollbackReservedSchedule h₁.holding)
    obtain ⟨hx, h⟩ := hx
    rw [hx]
    exact h.settled

theorem wp_terminalParentId (h : Holding F i mem ids held s) :
    wp (F.discipline (.attempt i)) (terminalParentId payload)
      (fun _ t' s' => t' = t ∧ Holding F i mem ids held s') t s := by
  unfold terminalParentId
  split
  case h_2 => exact ⟨rfl, h⟩
  case h_1 =>
    simp only [isTerminal, wp_bind]
    refine wp_op.mpr fun s₁ hr hi r s₂ he => ?_
    cases he
    refine ⟨hi, fun _ _ => .refl _ _, ?_⟩
    have h₁ := h.stable hr
    rcases r with e | b
    case error => exact ⟨rfl, h₁⟩
    case ok => simpa using h₁

theorem wp_schedule {t : RoleState} (ha : F.admits t pending) (h : Holding F i 0 [] none s) :
    wp (F.discipline (.attempt i)) (schedule pending)
      (fun x _ s' => match x with
        | .ok (.reserved reserved) => Reserved F i reserved s'
        | _ => Settled F i s') t s := by
  simp only [schedule, wp_bind]
  refine wp_mono (fun x t' s ht => ?_) (wp_terminalParentId h)
  obtain ⟨ht, h⟩ := ht
  subst ht
  rcases x with e | parent
  case error => exact h.settled
  case ok =>
    simp only [andThen_ok, wp_ite]
    split
    case isTrue => exact h.settled
    case isFalse =>
      simp only [wp_bind]
      refine wp_mono (fun x t' s ht => ?_) (wp_acquireParentSlot ha h)
      obtain ⟨ht, h⟩ := ht
      subst ht
      rcases x with e | _ | held
      case error | ok.none => exact h.settled
      case ok.some =>
        obtain ⟨hheld, h⟩ := h
        simp only [andThen_ok, wp_bind, wp_observe, onReservations, wp_zoom]
        refine wp_mono (fun x t'' s h => ?_) (wp_reserve h)
        rcases x with e | ⟨resolved, targets⟩
        case error =>
          simp only [andThen_ok, wp_bind]
          refine wp_mono (fun x _ s hx => ?_) (wp_releaseHeldSlot h)
          obtain ⟨hx, h⟩ := hx
          rw [hx]
          split <;> exact h.settled
        case ok =>
          obtain ⟨config, hp, hl, h⟩ := h
          have hr := prepare_ok hp
          constructor
          case holding => exact hr.memoryMb ▸ h
          case carried =>
            intro q m hc
            rw [SchedulePayload.Carried, hr.rawPayload, hr.parentRunId]
            exact hc.carried ha
          case slot =>
            intro q m hc hq
            rw [hr.parentRunId] at hq
            rw [hheld, hc.gate ha hq]
            rfl
          case single =>
            intro q m hc hq
            rw [hr.parentRunId] at hq
            exact hc.oneGpu ha hq _ _ hp ▸ hl

theorem wp_executeScheduleDecision {t : RoleState} (hl : ¬F.losesDispatch) (h : match decision with
      | .reserved reserved => Reserved F i reserved s
      | _ => Settled F i s) :
    wp (F.discipline (.attempt i)) (executeScheduleDecision role queued decision)
      (fun _ _ s' => Settled F i s') t s := by
  cases decision
  case blocked => exact h
  case reserved reserved =>
    simp only [executeScheduleDecision, wp_bind]
    refine wp_mono (fun x _ s h => ?_) (wp_dispatchReservedSchedule hl h)
    rcases x with e | _ <;> exact h
  case dropped =>
    simp only [executeScheduleDecision, wp_bind, RoleM.wp_context]
    refine wp_op.mpr fun s₁ hr hi r s₂ he => ?_
    cases he
    refine ⟨hi, fun _ _ => .refl _ _, ?_⟩
    have h₁ := Settled.stable h hr
    rcases r with e | _ <;> exact h₁

theorem wp_attempt {t : RoleState} (hl : ¬F.losesDispatch) (ha : F.admits t pending)
    (h : Holding F i 0 [] none s) :
    wp (F.discipline (.attempt i)) (attempt role queued pending)
      (fun _ _ s' => Settled F i s') t s := by
  simp only [attempt, attemptSchedule, wp_bind, wp_ofExcept, andThen_ok]
  refine wp_mono (fun x t' s h => ?_) (wp_schedule ha h)
  rcases x with e | decision
  case error => exact h
  case ok =>
    refine wp_mono (fun x _ s h => ?_) (wp_executeScheduleDecision hl (by cases decision <;> exact h))
    rcases x with e | _ <;> exact h

end Attempt

section Release

variable {d id mem : Nat} {r : Release} {done : List Effect}

-- How far the handling of a release message has come.
structure Releasing (d : Nat) (r : Release) (done : List Effect) (s : Fleet) : Prop where
  message : s.releases[d]? = some r
  effects : s.effectsOf (.release d) = done

theorem Releasing.known (h : Releasing d r done s) : s.Known (.release d) :=
  (List.getElem?_eq_some_iff.mp h.message).choose

theorem Releasing.stable (h : Releasing d r done s) (hr : Fleet.Undisturbed (.release d) s s') :
    Releasing d r done s' :=
  ⟨ getElem?_of_prefix hr.releases h.message, (hr.effects h.known).trans h.effects⟩

theorem Releasing.drop (h : Releasing d r [] s) :
    Releasing d r [.decremented id mem] (s.drop (.release d) id mem) :=
  ⟨h.message, by rw [effectsOf_drop, h.effects, if_pos rfl]; rfl⟩

theorem Releasing.releaseSlot (h : Releasing d r done s) :
    Releasing d r (done ++ [.slotReturned key]) (s.releaseSlot (.release d) key) :=
  ⟨h.message, by rw [effectsOf_releaseSlot, h.effects, if_pos rfl]⟩

-- The handling has ended, with an error or with everything done.
def Finished (d : Nat) (r : Release) (x : Except Failure Unit) (s : Fleet) : Prop :=
  s.releases[d]? = some r ∧ (x = .ok () → s.effectsOf (.release d) = r.once)

theorem Releasing.finished (h : Releasing d r done s) (e : Failure) : Finished d r (.error e) s :=
  ⟨h.message, fun hn => nomatch hn⟩

theorem wp_release_message (h : Releasing d r [] s) :
    wp (F.discipline (.release d))
      (ResourceReservationTable.release r.payload.resourceId r.payload.memoryMb)
      (fun x t' s' => t' = t ∧ match x with
        | .ok _ => Releasing d r [.decremented r.payload.resourceId r.payload.memoryMb] s'
        | .error e => Finished d r (.error e) s') t s := by
  simp only [ResourceReservationTable.release, decrement, wp_bind, wp_ite]
  split
  case isTrue => exact ⟨rfl, h.finished _⟩
  case isFalse =>
    refine wp_op.mpr fun s₁ hr hi x s₂ he => ?_
    have h₁ := h.stable hr
    have hc := hi.ledger.unreleased h₁.message h₁.effects
    obtain ⟨hv, hd⟩ := hi.ledger.decrement_eq hc
    rw [Fleet.exec, hv, hd] at he
    rcases he with ⟨values, rfl, hvs, rfl⟩ | ⟨_, ⟨e, rfl⟩, rfl | rfl⟩
    case inl =>
      refine ⟨hi.drop hc, fun _ => .drop, ?_⟩
      rcases hvs with _ | ⟨h₁v, _⟩
      obtain rfl := h₁v.2.2 (by decide)
      exact ⟨rfl, h₁.drop⟩
    case inr.inl => exact ⟨hi, fun _ _ => .refl _ _, rfl, h₁.finished _⟩
    case inr.inr => exact ⟨hi.drop hc, fun _ => .drop, rfl, h₁.drop.finished _⟩

theorem wp_releaseSlot_message (hp : r.payload.parentRunId = some parent) (hb : Text.isBlank parent = false)
    (h : Releasing d r [.decremented r.payload.resourceId r.payload.memoryMb] s) :
    wp (F.discipline (.release d)) (releaseSlot parent)
      (fun x t' s' => t' = t ∧ match x with
        | .ok _ => Finished d r (.ok ()) s'
        | .error e => Finished d r (.error e) s') t s := by
  have honce : r.once = [.decremented r.payload.resourceId r.payload.memoryMb,
      .slotReturned (slotKey parent)] := by
    simp [Release.once, hp, Option.filter, hb]
  simp only [releaseSlot, wp_bind]
  refine wp_op.mpr fun s₁ hr hi x s₂ he => ?_
  have h₁ := h.stable hr
  have hk : (s₁.releaseSlot (.release d) (slotKey parent)).Kept F := by
    refine hi.releaseSlot h₁.known (fun d' r' hd hr => ?_) (fun hc hq => ?_)
    · cases hd
      obtain rfl := Option.some.inj (hr.symm.trans h₁.message)
      rw [h₁.effects, honce]
      exact prefix_refl _
    · obtain rfl := slotKey_injective hq
      refine (hi.slots hc).held h₁.message (by rw [Release.parent, hp]; exact hc.trimmed) ?_
      simp [h₁.effects]
  rcases he with ⟨value, rfl, _, rfl⟩ | ⟨_, ⟨e, rfl⟩, rfl | rfl⟩
  case inl =>
    refine ⟨hk, fun _ => .releaseSlot, ?_⟩
    have hdone : Finished d r (.ok ()) (s₁.releaseSlot (.release d) (slotKey parent)) :=
      ⟨h₁.message, fun _ => by rw [h₁.releaseSlot.effects, honce]; rfl⟩
    simp only [andThen_ok, wp_bind, wp_ofExcept]
    refine ⟨trivial, ?_⟩
    split
    case h_1 => exact hdone
    case h_2 => exact h₁.releaseSlot.finished _
  case inr.inl => exact ⟨hi, fun _ _ => .refl _ _, rfl, h₁.finished _⟩
  case inr.inr => exact ⟨hk, fun _ => .releaseSlot, rfl, h₁.releaseSlot.finished _⟩

theorem wp_applyRelease {t : RoleState} (h : Releasing d r [] s) :
    wp (F.discipline (.release d)) (applyRelease r.payload)
      (fun x _ s' => Finished d r x s') t s := by
  simp only [applyRelease, wp_bind, RoleM.wp_context]
  refine wp_mono (fun x t' s h => ?_) (wp_release_message h)
  obtain ⟨rfl, h⟩ := h
  rcases x with e | _
  case error => exact ⟨h.1, fun hn => by cases hn⟩
  case ok =>
    simp only [Except.mapError, andThen_ok] at h ⊢
    have hshort (hn : r.once = [.decremented r.payload.resourceId r.payload.memoryMb]) :
        Finished d r (.ok ()) s := ⟨h.message, fun _ => h.effects.trans hn.symm⟩
    split
    case h_2 hp => exact hshort (by simp [Release.once, hp])
    case h_1 parent hp =>
      cases hb : Text.isBlank parent
      case true => exact hshort (by simp [Release.once, hp, Option.filter, hb])
      case false =>
        simp only [Bool.not_false, if_true, wp_bind]
        refine wp_mono (fun x _ s h => ?_) (wp_releaseSlot_message hp hb h)
        rcases x with e | _ <;> exact h.right

end Release

theorem outline_valid (hl : ¬F.losesDispatch) (hr : ∀ done, F.resumes done → done = []) :
    (outline F).Valid where
  init h := h ▸ .empty
  post i x s s' h hr := by
    rcases i with i | d
    case attempt => exact Settled.stable h hr
    case release =>
      refine ⟨hr.known h.left, fun hx => ?_⟩
      have ⟨r, hm, he⟩ := h.right hx
      exact ⟨r, getElem?_of_prefix hr.releases hm, (hr.effects h.left).trans he⟩
  guar hn _ h := h _ hn
  start {th p s s'} hi h := by
    rcases th with i | d
    case attempt =>
      obtain ⟨rfl, rfl, role, queued, pending, t, ha, rfl⟩ := h
      refine ⟨hi.begin, fun j _ => .begin j s, ?_⟩
      refine wp_attempt hl ha ⟨Nat.lt_succ_self _, nodup_nil, fun hn => absurd rfl hn,
        fun _ hm => (nomatch hm), fun _ c hc hh => ?_, fun _ hp => nomatch hp⟩
      exact absurd (hi.ledger.claims hc hh) (Nat.lt_irrefl _)
    case release =>
      obtain ⟨rfl, _, hd, r, t, hm, rfl⟩ := h
      refine ⟨hi, fun j _ => .refl _ _, ?_⟩
      refine Prog.wp_mono (fun x s h => ?_) _ (wp_applyRelease (t := t) ⟨hm, hr _ hd⟩)
      exact ⟨(List.getElem?_eq_some_iff.mp h.left).choose, fun hx => ⟨r, h.left, h.right hx⟩⟩
  stop {th p s s'} hi hv h := by
    rcases th with i | d
    case attempt =>
      obtain ⟨hp, rfl⟩ := h
      refine ⟨hi.abandon fun hf => ?_, fun j hj => .abandon hj.symm⟩
      rcases hp with hp | ⟨x, rfl⟩
      case inl => exact absurd hp hf
      case inr => exact hv.right hf
    case release =>
      rcases h with ⟨_, rfl⟩ | ⟨⟨t, rfl⟩, rfl⟩
      case inl => exact ⟨hi, fun _ _ => .refl _ _⟩
      case inr =>
        have ⟨r, hm, he⟩ := hv.right rfl
        exact ⟨hi.ack hm he, fun j _ => .ack j s⟩
  env {s s'} hi h := by
    obtain ⟨he, key, rfl⟩ := h
    exact ⟨hi.expire he key, fun j => .expire j s key⟩

theorem kept_of_reachable (hl : ¬F.losesDispatch) (hr : ∀ done, F.resumes done → done = [])
    (h : System.Reachable (fleet F) c) : c.state.Kept F :=
  (outline_valid hl hr).inv_of_reachable h

end Scheduler
