import ServeModel.Bundle.Processes
import ServeModel.Lib.Checks

-- Why an extracted runtime is whole, and why it stays.
namespace Bundle

open Option Function Prog

variable {C ι : Type}

namespace Tree.Part

theorem refl (t : Tree C) : Part t t :=
  fun _ _ h => h

theorem trans (h : Part t u) (h' : Part u v) : Part t v :=
  fun p n ht => h' p n (h p n ht)

theorem erase (t : Tree C) (path : Path) : Part (Function.update t path none) t := by
  intro p n h
  by_cases hp : p = path
  case pos => simp [hp] at h
  case neg => simpa [hp] using h

end Tree.Part

theorem Ready.part (h : Ready H key t) (hp : t.Part u) : Ready H key u where
  marker := by
    have ⟨text, hm, ht⟩ := h.marker
    have ⟨f, hf, hx⟩ := bind_eq_some_iff.mp hm
    exact ⟨text, bind_eq_some_iff.mpr ⟨f, H.fileAt_part hp hf, hx⟩, ht⟩
  python := by
    have ⟨f, hf⟩ := isSome_iff_exists.mp h.python
    exact isSome_iff_exists.mpr ⟨f, H.fileAt_part hp hf⟩
  runner := by
    have ⟨f, hf⟩ := isSome_iff_exists.mp h.runner
    exact isSome_iff_exists.mpr ⟨f, H.fileAt_part hp hf⟩
  executable :=
    have ⟨f, hf, hx⟩ := h.executable
    ⟨f, H.fileAt_part hp hf, hx⟩

namespace Setting

variable {S : Setting C}

variable (S) in
-- The cache holds a runtime that is ready.
def Holds (c : Cache C ι) : Prop :=
  ∃ t, c.root = some t ∧ Ready S.host S.key t

-- What the others do to the cache in the eyes of a process.
structure Evolves (S : Setting C) (i : ι) (c c' : Cache C ι) : Prop where
  ready : ∀ t, c.root = some t → Ready S.host S.key t → c'.root = some t
  shrinks : ∀ t', c'.root = some t' → Ready S.host S.key t' ∨ ∃ t, c.root = some t ∧ t'.Part t
  locked : c.lock = some i → c'.lock = some i ∧ c'.root = c.root
  temporary : c'.temporary i = c.temporary i

namespace Evolves

variable {i : ι} {c c₁ c₂ c₃ : Cache C ι}

theorem refl (i : ι) (c : Cache C ι) : Evolves S i c c :=
  ⟨fun _ h _ => h, fun t h => .inr ⟨t, h, .refl t⟩, fun h => ⟨h, rfl⟩, rfl⟩

theorem trans (h : Evolves S i c₁ c₂) (h' : Evolves S i c₂ c₃) : Evolves S i c₁ c₃ where
  ready t ht hr := h'.ready t (h.ready t ht hr) hr
  shrinks t₃ h₃ := by
    obtain hr | ⟨t₂, h₂, hp⟩ := h'.shrinks t₃ h₃
    case inl => exact .inl hr
    case inr =>
      obtain hr | ⟨t₁, h₁, hp'⟩ := h.shrinks t₂ h₂
      case inl =>
        cases (h'.ready t₂ h₂ hr).symm.trans h₃
        exact .inl hr
      case inr => exact .inr ⟨t₁, h₁, hp.trans hp'⟩
  locked hl :=
    have ⟨hl₂, hr₂⟩ := h.locked hl
    have ⟨hl₃, hr₃⟩ := h'.locked hl₂
    ⟨hl₃, hr₃.trans hr₂⟩
  temporary := h'.temporary.trans h.temporary

-- A change that leaves the runtime alone.
theorem of_root (hr : c'.root = c.root) (hl : c.lock = some i → c'.lock = some i)
    (ht : c'.temporary i = c.temporary i) : Evolves S i c c' where
  ready _ h _ := hr.trans h
  shrinks t h := .inr ⟨t, hr.symm.trans h, .refl t⟩
  locked h := ⟨hl h, hr⟩
  temporary := ht

end Evolves

-- What a process does to the cache: a runtime that is ready stays, and the others are left alone.
structure Does (S : Setting C) (i : ι) (c c' : Cache C ι) : Prop where
  ready : ∀ t, c.root = some t → Ready S.host S.key t → c'.root = some t
  others : ∀ j ≠ i, S.Evolves j c c'

theorem Does.refl (i : ι) (c : Cache C ι) : Does S i c c :=
  ⟨fun _ h _ => h, fun j _ => .refl j c⟩

theorem Does.of_root {i : ι} (hr : c'.root = c.root)
    (h : ∀ j ≠ i, (c.lock = some j → c'.lock = some j) ∧ c'.temporary j = c.temporary j) : Does S i c c' :=
  ⟨fun _ ht _ => hr.trans ht, fun j hj => .of_root hr (h j hj).left (h j hj).right⟩

variable [DecidableEq ι]

variable (S) in
def outline (ι : Type) [DecidableEq ι] : System.Outline (S.processes ι) where
  inv c := (∀ t, c.root = some t → Ready S.host S.key t → S.Complete t) ∧ (c.returned → S.Holds c)
  rely i := S.Evolves i
  guar i := S.Does i
  post _ r c := ∀ key, r = .ok key → key = S.key ∧ S.Holds c
  rely_refl := Evolves.refl
  rely_trans _ := Evolves.trans

omit [DecidableEq ι] in
theorem Holds.evolves (h : S.Holds c) (he : S.Evolves i c c') : S.Holds c' :=
  have ⟨t, ht, hr⟩ := h
  ⟨t, he.ready t ht hr, hr⟩

section Probes

variable {i : ι} {c : Cache C ι} {α : Type} {Q : α → Cache C ι → Prop}

theorem wp_look (P : Cache C ι → Prop)
    (hs : ((S.outline ι).discipline i).Stable P) (hp : P c) (ho : ∀ {c r c'}, S.exec i op c r c' → c' = c)
    (h : ∀ c, (S.outline ι).inv c → P c → ∀ r, S.exec i op c r c → (k r).wp ((S.outline ι).discipline i) Q c) :
    (Prog.perform op >>= k).wp ((S.outline ι).discipline i) Q c := by
  refine wp_perform_bind P hs hp fun c₁ hi hp r c₂ he => ?_
  cases ho he
  exact ⟨hi, Does.refl .., h _ hi hp r he⟩

-- The answers so far were given by a ready runtime, or by one whose remains are all that is there.
def Seen (S : Setting C) (answers : Tree C → Prop) (c : Cache C ι) : Prop :=
  S.Holds c ∨ ∃ u, ¬Ready S.host S.key u ∧ answers u ∧ ∀ t, c.root = some t → Ready S.host S.key t ∨ t.Part u

theorem Seen.stable (answers : Tree C → Prop) : ((S.outline ι).discipline i).Stable (S.Seen answers) := by
  intro c c' h he
  obtain h | ⟨u, hu, ha, hp⟩ := h
  case inl => exact .inl (h.evolves he)
  case inr =>
    refine .inr ⟨u, hu, ha, fun t' ht' => ?_⟩
    obtain hr | ⟨t, ht, hpt⟩ := he.shrinks t' ht'
    case inl => exact .inl hr
    case inr =>
      obtain hr | hpu := hp t ht
      case inl =>
        cases (he.ready t ht hr).symm.trans ht'
        exact .inl hr
      case inr => exact .inr (hpt.trans hpu)

omit [DecidableEq ι] in
theorem Seen.first (ht : c.root = some t) (ha : answers t) : S.Seen answers c := by
  by_cases hr : Ready S.host S.key t
  case pos => exact .inl ⟨t, ht, hr⟩
  case neg =>
    refine .inr ⟨t, hr, ha, fun t' ht' => ?_⟩
    cases ht.symm.trans ht'
    exact .inr (.refl t)

omit [DecidableEq ι] in
theorem Seen.next {answers answer : Tree C → Prop} (h : S.Seen answers c) (ht : c.root = some t)
    (ha : answer t) (hm : ∀ {t u : Tree C}, t.Part u → answer t → answer u) :
    S.Seen (fun u => answers u ∧ answer u) c := by
  obtain h | ⟨u, hu, hs, hp⟩ := h
  case inl => exact .inl h
  case inr =>
    obtain hr | hpu := hp t ht
    case inl => exact .inl ⟨t, ht, hr⟩
    case inr => exact .inr ⟨u, hu, ⟨hs, hm hpu ha⟩, hp⟩

-- What the marker says, and which files are there.
def markerAnswer (S : Setting C) (t : Tree C) : Prop :=
  ∃ text, markerText S.host t = some text ∧ Text.trim text = S.key

def fileAnswer (S : Setting C) (path : Path) (t : Tree C) : Prop :=
  (S.host.fileAt t path).isSome

theorem fileAnswer_part (hp : t.Part u) (h : S.fileAnswer path t) : S.fileAnswer path u := by
  have ⟨f, hf⟩ := isSome_iff_exists.mp h
  exact isSome_iff_exists.mpr ⟨f, S.host.fileAt_part hp hf⟩

theorem wp_isFile (hr : S.reliable) {path : Path}
    (P : Cache C ι → Prop) (hs : ((S.outline ι).discipline i).Stable P) (hp : P c) (hm : S.Seen answers c)
    (hn : ∀ {t}, Ready S.host S.key t → S.fileAnswer path t)
    (ht : ∀ c, P c → S.Seen (fun t => answers t ∧ S.fileAnswer path t) c → (k true).wp ((S.outline ι).discipline i) Q c)
    (hf : ∀ c, (S.outline ι).inv c → P c → ¬S.Holds c → (k false).wp ((S.outline ι).discipline i) Q c) :
    (Prog.perform (.isFile path) >>= k).wp ((S.outline ι).discipline i) Q c := by
  refine wp_look _ (hs.and (Seen.stable _)) ⟨hp, hm⟩ (fun he => he.left) fun c₁ hi ⟨hp, hm⟩ r he => ?_
  obtain rfl := he.right.resolve_right fun h => h.left hr
  cases hx : c₁.root.bind (S.host.fileAt · path)
  case none =>
    refine hf c₁ hi hp fun ⟨t, ht, hr⟩ => ?_
    have hsome : (c₁.root.bind (S.host.fileAt · path)).isSome := ht ▸ hn hr
    simp [hx] at hsome
  case some f =>
    have ⟨t, hroot, hft⟩ := bind_eq_some_iff.mp hx
    exact ht c₁ hp (hm.next hroot (isSome_iff_exists.mpr ⟨f, hft⟩) fileAnswer_part)

theorem wp_essentialFiles (hr : S.reliable) {Q : Bool → Cache C ι → Prop} (P : Cache C ι → Prop)
    (hs : ((S.outline ι).discipline i).Stable P) (hp : P c) (hm : S.Seen S.markerAnswer c)
    (ht : ∀ c, (S.outline ι).inv c → P c → S.Holds c → Q true c)
    (hf : ∀ c, (S.outline ι).inv c → P c → ¬S.Holds c → Q false c) :
    runtimeHasEssentialFiles.wp ((S.outline ι).discipline i) Q c := by
  refine wp_isFile hr P hs hp hm (fun h => h.python) ?_ hf
  intro c₁ hp hm
  refine wp_isFile hr P hs hp hm (fun h => h.runner) ?_ hf
  intro c₂ hp hm
  refine wp_look _ (hs.and (Seen.stable _)) ⟨hp, hm⟩ (fun he => he.left) fun c₃ hi ⟨hp, hm⟩ r he => ?_
  obtain rfl := he.right.resolve_right fun h => h.left hr
  cases hx : c₃.root.bind (S.host.fileAt · python)
  case none =>
    refine hf c₃ hi hp fun ⟨t, ht, hr⟩ => ?_
    have ⟨f, hft, _⟩ := hr.executable
    simp [ht, hft] at hx
  case some f =>
    have ⟨t, hroot, hft⟩ := bind_eq_some_iff.mp hx
    by_cases hmode : f.mode &&& 0o111 ≠ 0
    case pos =>
      have hq : S.Holds c₃ := by
        obtain h | ⟨u, hu, ⟨⟨ha, hpy⟩, hrun⟩, hpart⟩ := hm
        case inl => exact h
        case inr =>
          obtain hr | hp := hpart t hroot
          case inl => exact ⟨t, hroot, hr⟩
          case inr => exact absurd ⟨ha, hpy, hrun, f, S.host.fileAt_part hp hft, hmode⟩ hu
      simpa [hmode] using ht c₃ hi hp hq
    case neg =>
      have hn : ¬S.Holds c₃ := by
        intro ⟨t', ht', hr⟩
        cases hroot.symm.trans ht'
        have ⟨f', hf', hm'⟩ := hr.executable
        cases hft.symm.trans hf'
        exact hmode hm'
      simpa [hmode] using hf c₃ hi hp hn

-- The probes say whether the cache holds a runtime that is ready, whatever happens to it meanwhile.
theorem wp_runtimeIsReady (hr : S.reliable) {Q : Bool → Cache C ι → Prop} (P : Cache C ι → Prop)
    (hs : ((S.outline ι).discipline i).Stable P) (hp : P c)
    (ht : ∀ c, (S.outline ι).inv c → P c → S.Holds c → Q true c)
    (hf : ∀ c, (S.outline ι).inv c → P c → ¬S.Holds c → Q false c) :
    (runtimeIsReady S.key).wp ((S.outline ι).discipline i) Q c := by
  refine wp_look P hs hp (fun he => he.left) fun c₁ hi hp r he => ?_
  obtain rfl := he.right.resolve_right fun h => h.left hr
  cases hx : c₁.root.bind (markerText S.host)
  case none =>
    refine hf c₁ hi hp fun ⟨t, ht, hr⟩ => ?_
    have ⟨text, hm, _⟩ := hr.marker
    simp [ht, hm] at hx
  case some text =>
    have ⟨t, hroot, hm⟩ := bind_eq_some_iff.mp hx
    by_cases hk : Text.trim text = S.key
    case pos =>
      simp only [if_pos hk]
      exact wp_essentialFiles hr P hs hp (.first hroot ⟨text, hm, hk⟩) ht hf
    case neg =>
      simp only [if_neg hk]
      refine hf c₁ hi hp fun ⟨t', ht', hr⟩ => ?_
      cases hroot.symm.trans ht'
      have ⟨text', hm', hk'⟩ := hr.marker
      cases hm.symm.trans hm'
      exact hk hk'

end Probes

section Locked

variable {i : ι} {c c' : Cache C ι}

-- The lock is held while the cache has no runtime that is ready.
structure Own (S : Setting C) (i : ι) (c : Cache C ι) : Prop where
  lock : c.lock = some i
  empty : ¬S.Holds c

theorem Own.stable : ((S.outline ι).discipline i).Stable (S.Own i) := by
  intro c c' h he
  have ⟨hl, hr⟩ := he.locked h.lock
  exact ⟨hl, fun ⟨t, ht, hrt⟩ => h.empty ⟨t, hr ▸ ht, hrt⟩⟩

-- A step of the holder of the lock that leaves at most a part of what was there.
theorem Own.part (h : S.Own i c) (hi : (S.outline ι).inv c) (hl : c'.lock = c.lock)
    (hr : ∀ t', c'.root = some t' → ∃ t, c.root = some t ∧ t'.Part t) (ht : ∀ j ≠ i, c'.temporary j = c.temporary j)
    (hb : c'.returned = c.returned) :
    (S.outline ι).inv c' ∧ S.Does i c c' ∧ S.Own i c' := by
  have hn (t' : Tree C) (ht' : c'.root = some t') : ¬Ready S.host S.key t' := by
    have ⟨t, ht, hp⟩ := hr t' ht'
    exact fun hready => h.empty ⟨t, ht, hready.part hp⟩
  refine ⟨⟨fun t' ht' hready => absurd hready (hn t' ht'), fun hret => absurd (hi.right (hb ▸ hret)) h.empty⟩, ?_, ?_⟩
  · have hk (t : Tree C) (ht : c.root = some t) (hready : Ready S.host S.key t) : c'.root = some t :=
      absurd ⟨t, ht, hready⟩ h.empty
    refine ⟨hk, fun j hj => ⟨hk, fun t' ht' => .inr (hr t' ht'), ?_, ht j hj⟩⟩
    intro hlock
    cases h.lock.symm.trans hlock
    exact absurd rfl hj
  · exact ⟨hl.trans h.lock, fun ⟨t', ht', hready⟩ => hn t' ht' hready⟩

-- Operations that each keep a fact, until one fails.
theorem wp_performAll (P : Cache C ι → Prop) (hs : ((S.outline ι).discipline i).Stable P) (hp : P c)
    (h : ∀ op ∈ ops, ∀ c r c', (S.outline ι).inv c → P c → S.exec i op c r c' →
      (S.outline ι).inv c' ∧ S.Does i c c' ∧ P c') :
    (performAll ops).wp ((S.outline ι).discipline i) (fun _ => P) c := by
  induction ops generalizing c
  case nil => exact hp
  case cons op ops hi =>
    refine wp_perform_bind P hs hp fun c₁ hinv hp r c₂ he => ?_
    have ⟨hinv, hg, hp⟩ := h op List.mem_cons_self c₁ r c₂ hinv hp he
    refine ⟨hinv, hg, ?_⟩
    match r with
    | .error _ => exact hp
    | .ok () => exact hi hp fun op hm => h op (List.mem_cons_of_mem _ hm)

theorem Own.remove {paths : List Path}
    (hm : op ∈ paths.map RuntimeOp.removeEntry ++ [.removeRoot]) (hi : (S.outline ι).inv c) (h : S.Own i c)
    (he : S.exec i op c r c') : (S.outline ι).inv c' ∧ S.Does i c c' ∧ S.Own i c' := by
  have hsame : c' = c → (S.outline ι).inv c' ∧ S.Does i c c' ∧ S.Own i c' := by
    rintro rfl
    exact ⟨hi, Does.refl .., h⟩
  obtain hm | hm := List.mem_append.mp hm
  case inl =>
    obtain ⟨path, _, rfl⟩ := List.mem_map.mp hm
    obtain ⟨_, rfl⟩ | ⟨_, hc⟩ := he
    case inl =>
      refine h.part hi rfl (fun t' ht' => ?_) (fun _ _ => rfl) rfl
      obtain ⟨t, ht, rfl⟩ := map_eq_some_iff.mp ht'
      exact ⟨t, ht, .erase t path⟩
    case inr => exact hsame hc
  case inr =>
    cases List.mem_singleton.mp hm
    obtain ⟨_, _, rfl⟩ | ⟨_, hc⟩ := he
    case inl => exact h.part hi rfl (fun _ h => nomatch h) (fun _ _ => rfl) rfl
    case inr => exact hsame hc

theorem wp_clearRoot (h : S.Own i c) :
    clearRoot.wp ((S.outline ι).discipline i) (fun _ => S.Own i) c := by
  refine wp_look _ Own.stable h (fun he => he.left) fun c₁ _ h r _ => ?_
  cases r
  case false => exact h
  case true =>
    refine wp_look _ Own.stable h (fun he => he) fun c₂ _ h r _ => ?_
    match r with
    | .error _ => exact h
    | .ok paths => exact wp_performAll _ Own.stable h fun op hm c r c' hi h he => h.remove hm hi he

structure Filling (S : Setting C) (i : ι) (t : Tree C) (c : Cache C ι) : Prop extends S.Own i c where
  temporary : c.temporary i = some t

theorem Filling.stable : ((S.outline ι).discipline i).Stable (S.Filling i t) := by
  intro c c' h he
  exact ⟨Own.stable h.toOwn he, he.temporary.trans h.temporary⟩

theorem Own.setTemporary (h : S.Own i c) (hi : (S.outline ι).inv c) (t : Option (Tree C)) :
    (S.outline ι).inv (setTemporary i t c) ∧ S.Does i c (setTemporary i t c) ∧
      S.Own i (setTemporary i t c) :=
  h.part hi rfl (fun t ht => ⟨t, ht, .refl t⟩) (fun _ hj => update_of_ne hj _ _) rfl

theorem wp_unpackEntries (h : S.Filling i t c) :
    (performAll (entries.map .unpackEntry)).wp ((S.outline ι).discipline i)
      (fun r c => S.Own i c ∧ (r = .ok () → S.Filling i (unpacked entries t) c)) c := by
  induction entries generalizing c t
  case nil => exact ⟨h.toOwn, fun _ => h⟩
  case cons e es hi =>
    refine wp_perform_bind _ Filling.stable h fun c₁ hinv h r c₂ he => ?_
    obtain ⟨rfl, rfl⟩ | ⟨hr, rfl⟩ := he
    case inl =>
      have ⟨hinv, hg, ho⟩ := h.setTemporary hinv ((c₁.temporary i).map (unpacked [e]))
      refine ⟨hinv, hg, hi (t := unpacked [e] t) ⟨ho, ?_⟩⟩
      simp [Setting.setTemporary, h.temporary]
    case inr =>
      refine ⟨hinv, Does.refl .., ?_⟩
      match r, hr with
      | .error _, _ => exact ⟨h.toOwn, fun h => nomatch h⟩
      | .ok (), hr => exact absurd rfl hr

end Locked

section Install

variable {i : ι} {c c' : Cache C ι} {footer : BundleFooter} {payload t t' : Tree C} {key : String}

omit [DecidableEq ι] in
theorem markComplete_ok (hn : ∀ target, t completeMarker ≠ some (.symlink target))
    (h : markComplete S.host key t = .ok t') : ∀ p ≠ completeMarker, t' p = t p := by
  intro p hp
  unfold markComplete at h
  split at h
  case h_1 | h_2 =>
    cases h
    exact update_of_ne hp _ _
  case h_3 => cases h
  case h_4 target he => exact absurd he (hn target)

-- The runtime of the payload is ready once its marker is written, and the marker is written to its own place.
def Launchable (S : Setting C) : Prop :=
  ∀ payload, S.Payload payload → (∀ target, payload completeMarker ≠ some (.symlink target)) ∧
    ∀ t, markComplete S.host S.key payload = .ok t → Ready S.host S.key t

-- What a process that holds the lock comes to.
def Result (S : Setting C) (i : ι) (r : Except String String) (c : Cache C ι) : Prop :=
  c.lock = some i ∧ ∀ key, r = .ok key → key = S.key ∧ S.Holds c

omit [DecidableEq ι] in
theorem Own.failed (h : S.Own i c) : S.Result i (.error e) c :=
  ⟨h.lock, fun _ h => nomatch h⟩

theorem Filling.rename (hl : S.Launchable) (hp : S.Payload payload) (ht : markComplete S.host S.key payload = .ok t)
    (h : S.Filling i t c) :
    (S.outline ι).inv { setTemporary i none c with root := some t } ∧
      S.Does i c { setTemporary i none c with root := some t } ∧
      S.Result i (.ok S.key) { setTemporary i none c with root := some t } := by
  have ⟨hn, hready⟩ := hl payload hp
  have hq : S.Holds { setTemporary i none c with root := some t } := ⟨t, rfl, hready t ht⟩
  have hk (u : Tree C) (hu : c.root = some u) (hr : Ready S.host S.key u) : some t = some u :=
    absurd ⟨u, hu, hr⟩ h.empty
  refine ⟨⟨?_, fun _ => hq⟩, ⟨hk, fun j hj => ⟨hk, ?_, ?_, update_of_ne hj _ _⟩⟩, h.lock,
    fun _ h => ⟨(Except.ok.inj h).symm, hq⟩⟩
  · rintro _ ⟨⟩ _
    exact ⟨payload, hp, markComplete_ok hn ht⟩
  · rintro _ ⟨⟩
    exact .inl (hready t ht)
  · intro hlock
    cases h.lock.symm.trans hlock
    exact absurd rfl hj

theorem wp_moveIntoPlace (hr : S.reliable) (hl : S.Launchable) (hp : S.Payload payload)
    (ht : markComplete S.host S.key payload = .ok t) (h : S.Filling i t c) :
    (moveIntoPlace S.key).wp ((S.outline ι).discipline i) (S.Result i) c := by
  refine wp_perform_bind _ Filling.stable h fun c₁ hi h r c₂ he => ?_
  obtain ⟨t', ht', _, rfl, rfl⟩ | ⟨hne, rfl⟩ := he
  case inl =>
    cases h.temporary.symm.trans ht'
    exact h.rename hl hp ht
  case inr =>
    refine ⟨hi, Does.refl .., ?_⟩
    match r, hne with
    | .ok (), hne => exact absurd rfl hne
    | .error _, _ =>
      refine wp_bind_iff.mpr (wp_runtimeIsReady hr _ Own.stable h.toOwn ?_ ?_)
      · exact fun c _ h hq => absurd hq h.empty
      · exact fun c _ h _ => h.failed

theorem wp_sealRuntime (hr : S.reliable) (hl : S.Launchable) (hp : S.Payload payload) (h : S.Filling i payload c) :
    (sealRuntime S.key).wp ((S.outline ι).discipline i) (S.Result i) c := by
  refine wp_look _ Filling.stable h (fun he => he.left) fun c₁ _ h r _ => ?_
  match r with
  | .error _ => exact h.failed
  | .ok () =>
  refine wp_perform_bind _ Filling.stable h fun c₂ hi h r c₃ he => ?_
  obtain ⟨t, t', ht, hm, rfl, rfl⟩ | ⟨hne, rfl⟩ := he
  case inl =>
    cases h.temporary.symm.trans ht
    have ⟨hi, hg, ho⟩ := h.setTemporary hi (some t')
    exact ⟨hi, hg, wp_moveIntoPlace hr hl hp hm ⟨ho, update_self ..⟩⟩
  case inr =>
    refine ⟨hi, Does.refl .., ?_⟩
    match r, hne with
    | .ok (), hne => exact absurd rfl hne
    | .error _, _ => exact h.failed

theorem wp_installRuntime (hr : S.reliable) (hl : S.Launchable) (hf : readFooter S.executable = .ok footer)
    (hs : S.host.sha256 (footer.payload S.executable) = footer.digest) (h : S.Own i c) :
    (installRuntime S.key (S.host.unpack (footer.payload S.executable))).wp ((S.outline ι).discipline i)
      (S.Result i) c := by
  refine wp_bind_iff.mpr (wp_perform_bind _ Own.stable h fun c₁ hi h r c₂ he => ?_)
  obtain ⟨rfl, rfl⟩ | ⟨hne, rfl⟩ := he
  case inr =>
    refine ⟨hi, Does.refl .., ?_⟩
    match r, hne with
    | .ok (), hne => exact absurd rfl hne
    | .error _, _ => exact h.failed
  case inl =>
    have ⟨hi, hg, h⟩ := h.setTemporary hi (some Tree.empty)
    refine ⟨hi, hg, ?_⟩
    refine wp_mono ?_ _ (wp_unpackEntries ⟨h, update_self ..⟩)
    intro r c ⟨ho, hfill⟩
    match r, hfill with
    | .error _, _ => exact ho.failed
    | .ok (), hfill =>
      have hp (ha : (S.host.unpack (footer.payload S.executable)).2 = none) :
          S.Payload (unpacked (S.host.unpack (footer.payload S.executable)).1 Tree.empty) :=
        ⟨footer, hf, hs, rfl, ha⟩
      dsimp only
      split
      case h_1 => exact ho.failed
      case h_2 hn =>
        exact wp_sealRuntime hr hl (hp (eq_none_iff_forall_ne_some.mpr fun e he => hn e he)) (hfill rfl)

theorem wp_extractLocked (hr : S.reliable) (hl : S.Launchable) (hf : readFooter S.executable = .ok footer)
    (h : c.lock = some i) :
    (extractLocked S.host S.executable footer).wp ((S.outline ι).discipline i) (S.Result i) c := by
  have hk : hex footer.digest = S.key := by simp [Setting.key, hf]
  have hs : ((S.outline ι).discipline i).Stable fun c => c.lock = some i := fun _ _ h he => (he.locked h).left
  rw [extractLocked, hk]
  refine wp_bind_iff.mpr (wp_runtimeIsReady hr _ hs h ?_ ?_)
  · exact fun c _ h hq => ⟨h, fun _ hk => ⟨(Except.ok.inj hk).symm, hq⟩⟩
  · intro c _ h hn
    refine wp_look _ Own.stable ⟨h, hn⟩ (fun he => he) fun c₁ _ h r _ => ?_
    match r with
    | .error _ => exact h.failed
    | .ok () =>
    by_cases hd : S.host.sha256 (footer.payload S.executable) = footer.digest
    case neg =>
      simp only [ne_eq, hd, not_false_eq_true, if_true]
      exact h.failed
    case pos =>
      simp only [ne_eq, hd, not_true_eq_false, if_false]
      refine wp_bind_iff.mpr (wp_mono ?_ _ (wp_clearRoot h))
      intro r c h
      match r with
      | .error _ => exact h.failed
      | .ok () => exact wp_installRuntime hr hl hf hd h

def Returns (S : Setting C) (r : Except String String) (c : Cache C ι) : Prop :=
  ∀ key, r = .ok key → key = S.key ∧ S.Holds c

omit [DecidableEq ι] in
theorem returns_error : S.Returns (.error e) c :=
  fun _ h => nomatch h

theorem wp_unlock {r : Except String String} (h : S.Result i r c) :
    (Prog.perform RuntimeOp.unlock >>= fun _ => pure r).wp ((S.outline ι).discipline i) S.Returns c := by
  have hs : ((S.outline ι).discipline i).Stable (S.Result i r) :=
    fun _ _ h he => ⟨(he.locked h.left).left, fun _ hr => ⟨(h.right _ hr).left, (h.right _ hr).right.evolves he⟩⟩
  refine wp_perform_bind _ hs h fun c₁ hi h _ c₂ he => ?_
  cases he
  refine ⟨hi, .of_root rfl fun j hj => ⟨?_, rfl⟩, h.right⟩
  intro hlock
  cases h.left.symm.trans hlock
  exact absurd rfl hj

theorem stable_true : ((S.outline ι).discipline i).Stable fun _ => True :=
  .const _ _

theorem wp_acquireLock :
    acquireLock.wp ((S.outline ι).discipline i) (fun r c => r = .ok () → c.lock = some i) c := by
  refine wp_look _ stable_true trivial (fun he => he) fun c _ _ r _ => ?_
  match r with
  | .error _ => exact fun h => nomatch h
  | .ok () =>
  refine wp_look _ stable_true trivial (fun he => he) fun c _ _ r _ => ?_
  match r with
  | .error _ => exact fun h => nomatch h
  | .ok () =>
  refine wp_perform_bind _ stable_true trivial fun c hi _ r c' he => ?_
  obtain ⟨rfl, hn, rfl⟩ | ⟨hne, rfl⟩ := he
  case inl => exact ⟨hi, .of_root rfl fun j _ => ⟨fun h => (nomatch hn.symm.trans h), rfl⟩, fun _ => rfl⟩
  case inr =>
    refine ⟨hi, Does.refl .., ?_⟩
    match r, hne with
    | .ok (), hne => exact absurd rfl hne
    | .error _, _ => exact fun h => nomatch h

theorem wp_extractRuntime (hr : S.reliable) (hl : S.Launchable) :
    (extractRuntime S.host).wp ((S.outline ι).discipline i) S.Returns c := by
  refine wp_look _ stable_true trivial (fun he => he.left) fun c₁ _ _ r he => ?_
  match r, he with
  | .error _, _ => exact returns_error
  | .ok executable, he =>
  cases he.right executable rfl
  dsimp only
  cases hf : readFooter S.executable
  case error => exact returns_error
  case ok footer =>
    have hk : hex footer.digest = S.key := by simp [Setting.key, hf]
    simp only [hk]
    refine wp_bind_iff.mpr (wp_runtimeIsReady hr _ stable_true trivial ?_ ?_)
    · exact fun c _ _ hq _ hk => ⟨(Except.ok.inj hk).symm, hq⟩
    · intro c _ _ _
      refine wp_bind_iff.mpr (wp_mono ?_ _ wp_acquireLock)
      intro r c hlock
      match r, hlock with
      | .error _, _ => exact returns_error
      | .ok (), hlock =>
        refine wp_bind_iff.mpr (wp_mono ?_ _ (wp_extractLocked hr hl hf (hlock rfl)))
        exact fun r c h => wp_unlock h

end Install

section System

variable {i : ι} {c c' : Cache C ι}

theorem leave_valid (hi : (S.outline ι).inv c) :
    (S.outline ι).inv (leave i c) ∧ ∀ j ≠ i, S.Evolves j c (leave i c) := by
  refine ⟨hi, fun j hj => .of_root rfl (fun h => ?_) rfl⟩
  simp [leave, h, hj]

theorem stop_valid (hi : (S.outline ι).inv c) (hv : (S.outline ι).Verified i p c) (h : Stop i c p c') :
    (S.outline ι).inv c' ∧ ∀ j ≠ i, S.Evolves j c c' := by
  have ⟨hl, hg⟩ := leave_valid (i := i) hi
  cases h
  case killed | failed => exact ⟨hl, hg⟩
  case returned =>
    refine ⟨⟨hl.left, fun _ => (hv _ rfl).right⟩, fun j hj => ?_⟩
    exact ⟨(hg j hj).ready, (hg j hj).shrinks, (hg j hj).locked, (hg j hj).temporary⟩

theorem outline_valid (hr : S.reliable) (hl : S.Launchable) : (S.outline ι).Valid where
  init := by
    rintro _ ⟨root, hroot, rfl⟩
    exact ⟨fun t ht => hroot t ht, fun h => nomatch h⟩
  post _ _ _ _ h he _ hk := ⟨(h _ hk).left, (h _ hk).right.evolves he⟩
  guar hn _ h := h.others _ hn.symm
  start := by
    rintro i p c _ hi ⟨rfl, rfl⟩
    exact ⟨hi, fun j _ => .refl j _, wp_extractRuntime hr hl⟩
  stop hi hv h := stop_valid hi hv h
  env _ h := h.elim

-- Whatever processes extract the runtime beside each other: those that have returned find it whole, and a runtime
-- that is ready stays as it is.
structure Safe (S : Setting C) (c : System.Config (RuntimeOp C) (Cache C ι) ι (Except String String)) : Prop where
  returned : c.state.returned → ∃ t, c.state.root = some t ∧ S.Complete t
  result : ∀ i r, c.threads i = some (.ret r) →
    (∃ e, r = .error e) ∨ r = .ok S.key ∧ ∃ t, c.state.root = some t ∧ S.Complete t
  kept : ∀ c', (S.processes ι).Step c c' → ∀ t, c.state.root = some t → Ready S.host S.key t →
    c'.state.root = some t

theorem extraction_safe (hr : S.reliable) (hl : S.Launchable)
    {c : System.Config (RuntimeOp C) (Cache C ι) ι (Except String String)} (h : (S.processes ι).Reachable c) :
    S.Safe c := by
  have v := outline_valid (ι := ι) hr hl
  have hh := v.sound h
  have hwhole (hq : S.Holds c.state) : ∃ t, c.state.root = some t ∧ S.Complete t :=
    have ⟨t, ht, hready⟩ := hq
    ⟨t, ht, hh.inv.left t ht hready⟩
  constructor
  case returned => exact fun hret => hwhole (hh.inv.right hret)
  case result =>
    intro i r hc
    match r, hc with
    | .error e, _ => exact .inl ⟨e, rfl⟩
    | .ok key, hc =>
      have ⟨hk, hq⟩ := hh.verified hc key rfl
      exact .inr ⟨hk ▸ rfl, hwhole hq⟩
  case kept =>
    intro c' he t ht hready
    cases he
    case act i _ op k r s hc he =>
      have ⟨_, hg, _⟩ := hh.verified hc c.state (.refl i _) hh.inv r s he
      exact hg.ready t ht hready
    case start hs => exact hs.right ▸ ht
    case stop hs => cases hs <;> exact ht
    case env hs => exact hs.elim

end System

section Example

-- The tar archives of a runtime of two empty files, one that can be executed and one that cannot, as zstd
-- compresses them, and their SHA-256 digests.
def smallPayload : Bool → Bytes
  | true => [
    40, 181, 47, 253, 96, 0, 11, 189, 3, 0, 146, 5, 18, 17, 144, 125, 140, 22, 229, 216, 78, 212, 255, 39, 23,
    54, 243, 117, 119, 174, 20, 79, 202, 33, 231, 160, 109, 195, 125, 148, 234, 171, 114, 123, 87, 58, 69, 37,
    212, 211, 30, 115, 220, 5, 206, 86, 222, 134, 7, 240, 242, 41, 209, 26, 243, 182, 130, 74, 230, 99, 248, 93,
    25, 107, 127, 224, 79, 30, 13, 255, 79, 195, 5, 149, 44, 16, 32, 80, 47, 172, 219, 253, 93, 129, 49, 84, 29,
    26, 45, 234, 125, 193, 216, 0, 213, 161, 160, 16, 24, 169, 38, 49, 32, 133, 230, 83, 7, 252, 148, 111, 37,
    28, 96, 80, 0, 227, 169, 188, 1]
  | false => [
    40, 181, 47, 253, 96, 0, 11, 181, 3, 0, 130, 5, 18, 17, 144, 125, 140, 22, 229, 216, 78, 212, 255, 231, 94,
    216, 80, 223, 93, 131, 20, 135, 148, 39, 219, 134, 251, 40, 213, 87, 229, 246, 174, 116, 138, 74, 168, 167,
    125, 243, 73, 224, 108, 229, 109, 120, 0, 79, 159, 210, 63, 162, 53, 230, 109, 5, 149, 204, 199, 240, 187,
    50, 214, 126, 128, 31, 114, 208, 240, 115, 210, 112, 65, 37, 11, 16, 32, 80, 47, 172, 219, 253, 85, 96, 12,
    170, 62, 73, 253, 130, 49, 82, 201, 98, 0, 20, 7, 83, 13, 110, 142, 29, 112, 66, 243, 169, 3, 126, 202, 183,
    18, 14, 48, 40, 128, 241, 84, 222]

def smallDigest : Bool → Bytes
  | true => [
    137, 183, 162, 134, 180, 50, 60, 170, 146, 76, 148, 115, 187, 250, 55, 108, 228, 209, 207, 216, 180, 215,
    152, 28, 172, 229, 18, 93, 66, 73, 125, 126]
  | false => [
    191, 103, 87, 184, 108, 243, 106, 211, 114, 11, 26, 30, 76, 233, 174, 130, 164, 5, 212, 249, 129, 89, 192,
    66, 159, 207, 97, 40, 202, 181, 213, 32]

def smallEntries (runnable : Bool) : List (Path × Node String) :=
  [("bin", .directory), (python, .file ⟨"", if runnable then 0o755 else 0o644⟩), ("scripts", .directory),
    (runner, .file ⟨"", 0o644⟩)]

-- What the libraries make of the two archives.
def smallHost : Host String where
  text s := some s
  ofText s := s
  sha256 b := if b = smallPayload true then smallDigest true else smallDigest false
  unpack b :=
    if b = smallPayload true then (smallEntries true, none)
    else if b = smallPayload false then (smallEntries false, none)
    else ([], some "Unknown frame descriptor")
  fileAt t p := match t p with
    | some (.file f) => some f
    | _ => none
  target _ p := p
  walk _ := ["bin", python, "scripts", runner]
  resolvesInside _ _ := some true
  fileAt_part {t u p f} hp h := by
    cases ht : t p
    case none => simp [ht] at h
    case some n =>
      rw [ht] at h
      rw [hp p n ht]
      exact h

def small (runnable : Bool) : Setting String where
  host := smallHost
  executable := smallPayload runnable ++ footerMagic ++ List.replicate 8 0 ++
    ((smallPayload runnable).length.toUInt8 :: List.replicate 7 0) ++ smallDigest runnable
  reliable := True

variable {ι : Type} [DecidableEq ι]

def smallOracle (S : Setting String) (i : ι) : Oracle (RuntimeOp String) (Cache String ι)
  | _, .openExecutable, c => some (.ok S.executable, c)
  | _, .readMarker, c => some (c.root.bind (markerText S.host), c)
  | _, .isFile path, c => some ((c.root.bind (S.host.fileAt · path)).isSome, c)
  | _, .mode path, c => some ((c.root.bind (S.host.fileAt · path)).map (·.mode), c)
  | _, .rootExists, c => some (c.root.isSome, c)
  | _, .createCacheRoot, c | _, .openLock, c | _, .readPayload, c => some (.ok (), c)
  | _, .listRoot, c => some (.ok [python], c)
  | _, .lockExclusive, c => if c.lock = none then some (.ok (), { c with lock := some i }) else none
  | _, .unlock, c => some ((), { c with lock := none })
  | _, .removeEntry path, c => some (.ok (), { c with root := c.root.map fun t => Function.update t path none })
  | _, .removeRoot, _ => none
  | _, .makeTemporary, c => some (.ok (), setTemporary i (some Tree.empty) c)
  | _, .unpackEntry entry, c => some (.ok (), setTemporary i ((c.temporary i).map (unpacked [entry])) c)
  | _, .checkLayout, c => do
    let t ← c.temporary i
    return (validateRuntimeLayout S.host t, c)
  | _, .writeMarker key, c => do
    let t ← c.temporary i
    let t' ← (markComplete S.host key t).toOption
    return (.ok (), setTemporary i (some t') c)
  | _, .renameTemporary, c => do
    let t ← c.temporary i
    if c.root.isSome then none
    return (.ok (), { setTemporary i none c with root := some t })

theorem smallOracle_sound (S : Setting String) (i : ι) : Oracle.Sound (smallOracle S i) (S.exec i) := by
  intro ρ op c r c' h
  cases op
  case openExecutable => cases h; exact ⟨rfl, fun _ h => (Except.ok.inj h).symm⟩
  case readMarker | isFile | mode | rootExists => cases h; exact ⟨rfl, .inl rfl⟩
  case createCacheRoot | openLock | readPayload | listRoot | unlock => cases h; rfl
  case lockExclusive =>
    simp only [smallOracle] at h
    split at h
    case isTrue hl => cases h; exact .inl ⟨rfl, hl, rfl⟩
    case isFalse => cases h
  case removeEntry | makeTemporary | unpackEntry => cases h; exact .inl ⟨rfl, rfl⟩
  case removeRoot => cases h
  case checkLayout =>
    obtain ⟨t, ht, h⟩ := bind_eq_some_iff.mp h
    cases h
    refine ⟨rfl, fun hr t' ht' => ?_⟩
    cases ht.symm.trans ht'
    exact hr
  case writeMarker key =>
    obtain ⟨t, ht, h⟩ := bind_eq_some_iff.mp h
    obtain ⟨t', ht', h⟩ := bind_eq_some_iff.mp h
    cases h
    exact .inl ⟨t, t', ht, Except.toOption_eq_some.mp ht', rfl, rfl⟩
  case renameTemporary =>
    obtain ⟨t, ht, h⟩ := bind_eq_some_iff.mp h
    cases hr : c.root
    case none =>
      rw [hr] at h
      cases h
      exact .inl ⟨t, ht, .inl hr, rfl, rfl⟩
    case some => simp [hr] at h

theorem small_footer (runnable : Bool) : readFooter (small runnable).executable =
    .ok ⟨0, (smallPayload runnable).length, smallDigest runnable⟩ := by
  cases runnable <;> decide +kernel

theorem small_payload (runnable : Bool) (h : readFooter (small runnable).executable = .ok footer) :
    footer.payload (small runnable).executable = smallPayload runnable := by
  rw [small_footer] at h
  cases h
  simp [BundleFooter.payload, small, List.append_assoc]

theorem small_launchable : (small true).Launchable := by
  rintro _ ⟨footer, hf, _, rfl, _⟩
  have hu : smallHost.unpack (smallPayload true) = (smallEntries true, none) := by simp [smallHost]
  rw [small_payload true hf, show (small true).host = smallHost from rfl, hu]
  refine ⟨fun _ h => (nomatch h), ?_⟩
  rintro _ ⟨⟩
  refine ⟨⟨_, rfl, ?_⟩, rfl, rfl, _, rfl, by decide⟩
  decide +kernel

theorem small_init : ((small runnable).processes ι).init { root := none } :=
  ⟨none, fun _ h => (nomatch h), rfl⟩

def returnsAnd (P : Cache String ι → Bool) :
    Prog (RuntimeOp String) (Except String String) × Cache String ι → Bool
  | (.ret (.ok _), c) => P c
  | _ => false

omit [DecidableEq ι] in
theorem eq_some_of_returnsAnd {P : Cache String ι → Bool} (h : x.any (returnsAnd P)) :
    ∃ key c, x = some (.ret (.ok key), c) ∧ P c := by
  obtain ⟨⟨p, c⟩, hx, h⟩ := (Option.any_eq_true _ _).mp h
  unfold returnsAnd at h
  split at h
  case h_1 key _ he =>
    cases he
    exact ⟨key, _, hx, h⟩
  case h_2 => cases h

-- A second process finds the runtime that the first one has extracted.
theorem extraction_safe_small :
    ∃ c key, ((small true).processes Bool).Reachable c ∧ c.state.returned = true ∧
      c.threads true = some (.ret (.ok key)) ∧ (small true).Safe c := by
  have h : ((extractRuntime smallHost).steps (smallOracle (small true) false) 40 { root := none }).any
      (returnsAnd fun c => ((extractRuntime smallHost).steps (smallOracle (small true) true) 5
        { leave false c with returned := true }).any (returnsAnd (·.returned))) := by
    decide +kernel
  obtain ⟨key, c₁, he₁, h⟩ := eq_some_of_returnsAnd h
  obtain ⟨key', c₂, he₂, hret⟩ := eq_some_of_returnsAnd h
  have hr₁ := (System.Reachable.init small_init).life (smallOracle_sound (small true) false) ⟨rfl, rfl⟩ he₁ .returned
  have hr₂ := (hr₁.step (.start true _ rfl ⟨rfl, rfl⟩)).steps (smallOracle_sound _ _) (update_self ..) he₂
  exact ⟨_, key', hr₂, hret, by simp, extraction_safe trivial small_launchable hr₂⟩

-- The interpreter cannot be executed: a second process takes away the runtime that the first one has returned.
theorem not_extraction_safe_small :
    ∃ c, ((small false).processes Bool).Reachable c ∧ ¬(small false).Safe c := by
  have h : ((extractRuntime smallHost).steps (smallOracle (small false) false) 40 { root := none }).any
      (returnsAnd fun c => ((extractRuntime smallHost).steps (smallOracle (small false) true) 16
        { leave false c with returned := true }).any fun x =>
          x.2.returned && x.2.root.all fun t => (t python).isNone) := by
    decide +kernel
  obtain ⟨key, c₁, he₁, h⟩ := eq_some_of_returnsAnd h
  obtain ⟨⟨p, c₂⟩, he₂, h⟩ := (Option.any_eq_true _ _).mp h
  obtain ⟨hret, hroot⟩ := Bool.and_eq_true_iff.mp h
  have hr₁ := (System.Reachable.init small_init).life (smallOracle_sound (small false) false) ⟨rfl, rfl⟩ he₁ .returned
  have hr₂ := (hr₁.step (.start true _ rfl ⟨rfl, rfl⟩)).steps (smallOracle_sound _ _) (update_self ..) he₂
  refine ⟨_, hr₂, fun h => ?_⟩
  have ⟨t, ht, payload, ⟨footer, hf, _, hp, _⟩, hc⟩ := h.returned hret
  have ht : c₂.root = some t := ht
  have hn : t python = none := by simpa [ht] using hroot
  have := (hc python (by decide)).symm.trans hn
  rw [hp, small_payload false hf] at this
  revert this
  decide +kernel

end Example

end Setting

end Bundle
