import ServeModel.Prefetch.Theorems.Tasks

-- Why a file that has been returned stays, while others are at work beside it.
namespace Prefetch

open Option

namespace Setting

variable {μ : Type} {S : Setting} {M : μ → Materialization}

-- What is returned stays as it was, and what can be seen under a cache path is a whole source.
structure Stable (S : Setting) (M : μ → Materialization) (c : Cache (μ × Nat)) : Prop where
  returned : ∀ x ∈ c.returned, ∃ b, x.2 = some b ∧ c.files x.1 = some b
  whole : ∀ i k j, S.job (M i) k = some j → ∀ b, c.files j.path = some b →
    ∃ i' k' j', S.job (M i') k' = some j' ∧ j'.path = j.path ∧ S.origin.fetched j'.request = some b

-- Requests for one path fetch the same bytes, which pass the checks of all of them or of none, and no path is
-- that of a file which another request keeps beside its own.
structure Agree (S : Setting) (M : μ → Materialization) : Prop where
  bytes : ∀ {i i' k k' j j'}, S.job (M i) k = some j → S.job (M i') k' = some j' → j.path = j'.path →
    S.origin.fetched j.request = S.origin.fetched j'.request
  checks : ∀ {i i' k k' j j' b}, S.job (M i) k = some j → S.job (M i') k' = some j' → j.path = j'.path →
    S.origin.fetched j.request = some b → Accepted S.host j b → Accepted S.host j' b
  names : ∀ {i i' k k' j j'}, S.job (M i) k = some j → S.job (M i') k' = some j' → ¬j.request.Auxiliary j'.path

-- Where requests agree, files are fixed.
def Agree.regime (h : S.Agree M) : Regime S (μ × Nat) where
  job i := S.job (M i.1) i.2
  paths := { p | ∃ i k j, S.job (M i) k = some j ∧ p = j.path }
  Good p b := ∀ i k j, S.job (M i) k = some j → j.path = p → S.origin.fetched j.request = some b ∧ Accepted S.host j b
  fixed := True
  mem_paths hj := ⟨_, _, _, hj, rfl⟩
  names hj hp := by
    obtain ⟨i, k, j', hj', rfl⟩ := hp
    exact h.names hj hj'
  fetched_good hj hb ha i k j' hj' hp :=
    ⟨(h.bytes hj' hj hp).trans hb, h.checks hj hj' hp.symm hb ha⟩
  accepted _ i j b hj hg := (hg i.1 i.2 j hj rfl).right
  unique _ p b b' hp hb hb' := by
    obtain ⟨i, k, j, hj, rfl⟩ := hp
    exact Option.some.inj ((hb i k j hj rfl).left.symm.trans (hb' i k j hj rfl).left)
  apart hf := absurd trivial hf

section System

variable {i : μ × Nat} {c c' : Cache (μ × Nat)}

theorem Agree.sane_record {h : S.Agree M} (hs : h.regime.Sane c)
    (hj : S.job (M i.1) i.2 = some j) (hd : h.regime.Done j s c) : h.regime.Sane (c.record s.localPath) := by
  refine ⟨hs.good, hs.drawn, fun hf x hx => ?_⟩
  cases hx
  case head =>
    have ⟨b, hb, _⟩ := hd.file
    rw [hd.path]
    exact ⟨⟨i.1, i.2, j, hj, rfl⟩, b, hb, hb⟩
  case tail hx => exact hs.returned hf x hx

variable [DecidableEq μ]

theorem Agree.sane_leave {h : S.Agree M} (hs : h.regime.Sane c) : h.regime.Sane (c.leave i) :=
  ⟨hs.good, hs.drawn, hs.returned⟩

theorem Agree.evolves_leave {h : S.Agree M} (k : μ × Nat) : h.regime.Evolves k c (c.leave i) :=
  ⟨fun _ hu => hu, fun _ _ _ _ _ _ => rfl, fun _ _ _ hb => hb⟩

def Agree.outline (h : S.Agree M) : System.Outline (S.materializations M) where
  inv := h.regime.Sane
  rely := h.regime.Evolves
  guar := h.regime.Does
  post i r c := ∃ j, S.job (M i.1) i.2 = some j ∧ ∀ s, r = .success s → h.regime.Done j s c
  rely_refl := .refl
  rely_trans _ := .trans

theorem Agree.outline_valid (h : S.Agree M) : h.outline.Valid where
  init := by
    rintro _ rfl
    exact ⟨fun _ _ _ h => (nomatch h), fun _ _ h => (nomatch h), fun _ _ h => (nomatch h)⟩
  post i r _ _ := by
    rintro ⟨j, hj, hd⟩ hr
    exact ⟨j, hj, fun s hs => (Regime.Local.done (R := h.regime) (i := i) hj s).stable (hd s hs) hr⟩
  guar hk _ hg := hg.evolves hk
  start {i p c c'} hs hp := by
    obtain ⟨⟨j, hj, rfl⟩, rfl⟩ := hp
    have hw := Regime.wp_materializeRequest (R := h.regime) (i := i) (c := c') hj
    exact ⟨hs, fun k _ => .refl k _, Prog.wp_mono (fun r c hd => ⟨j, hj, hd⟩) _ hw⟩
  stop {i p c c'} hs hv hp := by
    cases hp
    case killed | failed => exact ⟨sane_leave hs, fun k _ => evolves_leave k⟩
    case returned s =>
      have ⟨j, hj, hd⟩ := hv
      have hd : h.regime.Done j s (c.leave i) := ⟨(hd s rfl).path, (hd s rfl).file⟩
      exact ⟨sane_record (sane_leave hs) hj hd, fun _ _ => ⟨fun _ hu => hu, fun _ _ _ _ _ _ => rfl, fun _ _ _ hb => hb⟩⟩
  env _ he := he.elim

theorem stable_of_agree (h : S.Agree M) {c : System.Config CacheOp (Cache (μ × Nat)) (μ × Nat) RequestOutcome}
    (hr : (S.materializations M).Reachable c) : S.Stable M c.state := by
  have hs := h.outline_valid.inv_of_reachable hr
  refine ⟨fun x hx => (hs.returned trivial x hx).right, fun i k j hj b hb => ?_⟩
  exact ⟨i, k, j, hj, rfl, (hs.good j.path ⟨i, k, j, hj, rfl⟩ b hb i k j hj rfl).left⟩

end System

section Example

-- A run in which nothing fails and a source is read as one piece.
def smooth {ι : Type} [DecidableEq ι] (O : Origin) (uuid : String) (i : ι) : Oracle CacheOp (Cache ι)
  | _, .tryExists path, c => some (.ok (c.files path).isSome, c)
  | _, .metadata path, c => (c.files path).map fun b => (.ok b.length, c)
  | _, .symlinkMetadata path, c => (c.files path).map fun b => (.ok (true, b.length), c)
  | _, .read path, c => (c.files path).map fun b => (.ok b, c)
  | _, .readIfPresent path, c => some (.ok (c.files path), c)
  | _, .removeFileIfPresent path, c => some (.ok (), c.set path none)
  | _, .createDirAll, c | _, .sync _, c | _, .charge _, c => some (.ok (), c)
  | _, .openLock path, c => some (.ok (), c.set path (some ((c.files path).getD [])))
  | _, .lockExclusive path, c => if c.lock path = none then some (.ok (), c.setLock path (some i)) else none
  | _, .unlock path, c => some ((), c.setLock path none)
  | _, .newUuid, c => if isUuid uuid ∧ c.drawn uuid = false then some (uuid, c.draw uuid i) else none
  | _, .createNew path, c => if c.files path = none then some (.ok (), c.set path (some [])) else none
  | _, .writeAll path chunk, c => some (.ok (), c.set path ((c.files path).map (· ++ chunk)))
  | _, .rename source target, c => (c.files source).map fun b => (.ok (), (c.set source none).set target (some b))
  | _, .send _ _, _ => none
  | _, .sourceMetadata path, c => (O.file path).map fun b => (.ok b.length, c)
  | _, .openSource path, c => (O.file path).map fun b => (.ok [.ok b], c)

theorem smooth_sound [DecidableEq ι] (O : Origin) (uuid : String) (i : ι) :
    Oracle.Sound (smooth O uuid i) (exec O i) := by
  intro ρ op c r c' h
  cases op
  case tryExists => cases h; exact ⟨rfl, fun _ h => (Except.ok.inj h).symm⟩
  case readIfPresent => cases h; exact ⟨rfl, fun _ h => Except.ok.inj h⟩
  case metadata | symlinkMetadata | read | sourceMetadata =>
    have ⟨b, hb, h⟩ := map_eq_some_iff.mp h
    cases h
    exact ⟨rfl, fun _ h => by cases h; simp [hb]⟩
  case removeFileIfPresent | openLock => cases h; exact .inl ⟨rfl, rfl⟩
  case createDirAll | sync | charge | unlock => cases h; rfl
  case lockExclusive | createNew =>
    have ⟨hl, h⟩ := ite_none_right_eq_some.mp h
    cases h
    exact .inl ⟨rfl, hl, rfl⟩
  case newUuid =>
    have ⟨hu, h⟩ := ite_none_right_eq_some.mp h
    cases h
    exact ⟨hu.left, hu.right, rfl⟩
  case writeAll path chunk => cases h; exact ⟨chunk, List.prefix_refl _, fun _ => rfl, rfl⟩
  case rename =>
    have ⟨b, hb, h⟩ := map_eq_some_iff.mp h
    cases h
    exact .inl ⟨b, hb, rfl, rfl⟩
  case send => cases h
  case openSource =>
    have ⟨b, hb, h⟩ := map_eq_some_iff.mp h
    cases h
    refine ⟨rfl, fun _ h => ⟨b, hb, fun chunks hc => ?_⟩⟩
    cases h
    obtain ⟨a, rfl, rfl⟩ : ∃ a, chunks = [a] ∧ b = a := by
      cases chunks
      case nil => cases hc
      case cons a rest =>
        cases rest
        case nil => cases hc; exact ⟨_, rfl, rfl⟩
        case cons => cases hc
    exact List.flatten_singleton

-- One file to be copied, with or without a word about its size.
def copyItem (size : Option Nat) : PrefetchPlanItem where
  kind := some .fileCopy
  sourceUri := "/data/x"
  targetArtifactName := "x"
  expectedSizeBytes := size

-- The digests of the two cache keys below and of the file.
def digestOf (b : Bytes) : String :=
  if b = utf8 "file_copy:/data/x" then "73d4f8c910eb25b62be01e508e0a35620a01cf270a4b9272c3440ab290a4be69"
  else if b = utf8 "file_copy:/data/x#0:1" then "9427875019c270b225c38f73e440696e25fa75725214161ede66956d2ec2e7ae"
  else "039058c6f2c0cb492c533b0a4d14ef77cc0f78abccced5287d84a1a2011cfb81"

def copySetting : Setting where
  host := {
    parseUrl _ := none
    isIpAddr _ := false
    sha256 := digestOf
    encode _ := []
    decode _ := none
    sha256_length b := by unfold digestOf; split_ifs <;> decide
    sha256_digits b := by unfold digestOf; split_ifs <;> simp }
  cacheRoot := "/cache"
  origin := {
    content _ := none
    file path := if path = "/data/x" then some [1, 2, 3] else none
    answer _ _ := ⟨404, []⟩
    whole _ h := absurd rfl h
    part _ _ h := absurd rfl h }

def copyPlan (size : Option Nat) : Materialization where
  config := { maxObjectBytes := 100, maxRequestBytes := 100 }
  plan := [copyItem size]

def copyJob (size : Option Nat) : Job where
  config := (copyPlan size).config
  request := .ofItem copySetting.host "/cache" (copyItem size)

theorem copyPlan_job (size : Option Nat) (hs : size ∈ [none, some 3, some 5]) :
    copySetting.job (copyPlan size) 0 = some (copyJob size) := by
  simp only [List.mem_cons, List.not_mem_nil, or_false] at hs
  obtain rfl | rfl | rfl := hs <;> rfl

-- The same file for a process with other limits.
def laterPlan : Materialization where
  config := { maxObjectBytes := 50, maxRequestBytes := 50 }
  plan := [{ copyItem none with mediaType := some "text/plain" }]

def sharedPlans (later : Bool) : Materialization :=
  if later then laterPlan else copyPlan none

theorem sharedPlans_job (later : Bool) :
    copySetting.job (sharedPlans later) 0 = some ⟨(sharedPlans later).config, (copyJob none).request⟩ := by
  cases later <;> rfl

theorem sharedPlans_job_eq (h : copySetting.job (sharedPlans later) k = some j) :
    j = ⟨(sharedPlans later).config, (copyJob none).request⟩ := by
  cases k
  case zero => exact Option.some.inj (h.symm.trans (sharedPlans_job later))
  case succ k =>
    have hr : copySetting.requests (sharedPlans later) = .ok [(copyJob none).request] := by cases later <;> rfl
    simp [job, hr, Except.toOption] at h

theorem copyJob_names : ¬(copyJob none).request.Auxiliary (copyJob none).path := by
  rintro (⟨u, _, ht | ht⟩ | ⟨hv, _⟩)
  case inl.inl =>
    have := congrArg (·.toList.length) ht
    simp [temporaryPath, Job.path] at this
  case inl.inr => exact absurd ht.left (by decide)
  case inr => exact absurd hv (by decide)

def someUuid : String := String.ofList (List.replicate 36 '0')

-- The second process finds the file that the first one has copied.
theorem stable_of_agree_copy :
    ∃ c, (copySetting.materializations sharedPlans).Reachable c ∧ c.state.returned.length = 2 ∧
      copySetting.Stable sharedPlans c.state := by
  have h : copySetting.Agree sharedPlans := by
    refine ⟨fun hj hj' _ => ?bytes, fun hj hj' _ _ ha => ?checks, fun hj hj' ha => ?names⟩
    case bytes => rw [sharedPlans_job_eq hj, sharedPlans_job_eq hj']
    case checks =>
      rw [sharedPlans_job_eq hj] at ha
      rw [sharedPlans_job_eq hj']
      have hn : (copyJob none).request.isVerified = false := rfl
      exact ⟨fun hv => absurd hv (Bool.eq_false_iff.mp hn), ha.size, ha.digest⟩
    case names =>
      rw [sharedPlans_job_eq hj, sharedPlans_job_eq hj'] at ha
      exact copyJob_names ha
  have ⟨s₁, c₁, s₂, c₂, he₁, he₂, hn⟩ : ∃ s₁ c₁ s₂ c₂,
      (copySetting.work (copyJob none)).steps (smooth copySetting.origin someUuid (false, 0)) 20 {} =
        some (.ret (.success s₁), c₁) ∧
      (copySetting.work ⟨laterPlan.config, (copyJob none).request⟩).steps
        (smooth copySetting.origin someUuid (true, 0)) 20 ((c₁.leave (false, 0)).record s₁.localPath) =
        some (.ret (.success s₂), c₂) ∧ c₂.returned.length = 1 := ⟨_, _, _, _, rfl, rfl, rfl⟩
  have h₀ : (copySetting.materializations sharedPlans).Reachable ⟨{}, fun _ => none⟩ := .init rfl
  have hr₁ := h₀.life (i := (false, 0)) (smooth_sound _ _ _) ⟨⟨_, sharedPlans_job false, rfl⟩, rfl⟩ he₁ .returned
  have hr₂ := hr₁.life (i := (true, 0)) (smooth_sound _ _ _) ⟨⟨_, sharedPlans_job true, rfl⟩, rfl⟩ he₂ .returned
  exact ⟨_, hr₂, by simp [Cache.record, Cache.leave, hn], stable_of_agree h hr₂⟩

-- The copy is returned without any checks. A second request for it that expects another size removes it.
theorem not_stable_resized :
    ∃ (M : Bool → Materialization) (c : _), (copySetting.materializations M).Reachable c ∧
      ¬copySetting.Stable M c.state := by
  let M : Bool → Materialization := fun sized => copyPlan (if sized then some 5 else none)
  have ⟨s, c₁, p, c₂, x, he₁, he₂, hx, hn⟩ : ∃ s c₁ p c₂ x,
      (copySetting.work (copyJob none)).steps (smooth copySetting.origin someUuid (false, 0)) 20 {} =
        some (.ret (.success s), c₁) ∧
      (copySetting.work (copyJob (some 5))).steps (smooth copySetting.origin someUuid (true, 0)) 6
        ((c₁.leave (false, 0)).record s.localPath) = some (p, c₂) ∧ x ∈ c₂.returned ∧ c₂.files x.1 = none :=
    ⟨_, _, _, _, _, rfl, rfl, List.mem_singleton_self _, rfl⟩
  have h₀ : (copySetting.materializations M).Reachable ⟨{}, fun _ => none⟩ := .init rfl
  have hr₁ :=
    h₀.life (i := (false, 0)) (smooth_sound _ _ _) ⟨⟨copyJob none, copyPlan_job none (by simp), rfl⟩, rfl⟩ he₁ .returned
  have hr₂ := (hr₁.step (.start (true, 0) _ rfl ⟨⟨copyJob (some 5), copyPlan_job (some 5) (by simp), rfl⟩, rfl⟩)).steps
    (smooth_sound _ _ _) (Function.update_self ..) he₂
  refine ⟨M, _, hr₂, fun h => ?_⟩
  have ⟨b, _, hb⟩ := h.returned x hx
  exact nomatch hn.symm.trans hb

end Example

end Setting

end Prefetch
