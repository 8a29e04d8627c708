import ServeModel.Prefetch.Cache

-- What a request does to the files of the cache, whoever else is at work on them.
namespace Prefetch

open List Except

theorem uuid_digit (h : isUuid u) (hc : c ∈ u.toList) :
    c.isDigit ∨ c ∈ ['a', 'b', 'c', 'd', 'e', 'f', '-'] := by
  simp only [isUuid, Bool.and_eq_true, all_eq_true] at h
  simpa using h.right c hc

theorem uuid_length (h : isUuid u) : u.toList.length = 36 := by
  simp only [isUuid, Bool.and_eq_true, decide_eq_true_eq] at h
  exact h.left

theorem temporaryPath_inj (hu : isUuid u) (hv : isUuid v) (h : temporaryPath p u = temporaryPath q v) : u = v := by
  have hl := congrArg String.toList h
  simp only [temporaryPath, String.toList_append] at hl
  exact String.toList_inj.mp (append_inj' hl ((uuid_length hu).trans (uuid_length hv).symm)).right

theorem temporaryPath_ne (hu : isUuid u)
    (hc : ¬(c.isDigit ∨ c ∈ ['a', 'b', 'c', 'd', 'e', 'f', '-'])) (hq : q.toList = t ++ [c]) :
    q ≠ temporaryPath p u := by
  intro h
  have hn : u.toList ≠ [] := fun hn => by simpa [hn] using uuid_length hu
  have hl := congrArg List.getLast? <| (congrArg String.toList h).symm.trans hq
  simp only [temporaryPath, String.toList_append] at hl
  rw [getLast?_append_of_ne_nil _ hn, getLast?_concat] at hl
  exact hc <| uuid_digit hu (mem_of_getLast? hl)

theorem cacheMetadataPath_ne (hu : isUuid u) : cacheMetadataPath q ≠ temporaryPath p u :=
  temporaryPath_ne (t := q.toList ++ ".metadata.jso".toList) (c := 'n') hu (by decide) (by simp [cacheMetadataPath])

theorem cacheLockPath_ne (hu : isUuid u) : cacheLockPath q ≠ temporaryPath p u :=
  temporaryPath_ne (t := q.toList ++ ".loc".toList) (c := 'k') hu (by decide) (by simp [cacheLockPath])

-- The temporary files that a request may write under a UUID.
def DownloadRequest.IsTemporary (request : DownloadRequest) (uuid : String) (path : Path) : Prop :=
  path = temporaryPath request.localPath uuid ∨
    request.isVerified ∧ path = temporaryPath (cacheMetadataPath request.localPath) uuid

-- The files that a request may write besides the one it is for.
def DownloadRequest.Auxiliary (request : DownloadRequest) (path : Path) : Prop :=
  (∃ uuid, isUuid uuid ∧ request.IsTemporary uuid path) ∨
    request.isVerified ∧ (path = cacheLockPath request.localPath ∨ path = cacheMetadataPath request.localPath)

def Job.path (j : Job) : Path := j.request.localPath

structure Accepted (H : Host) (j : Job) (b : Bytes) : Prop where
  limit : j.request.isVerified → b.length ≤ j.config.maxObjectBytes
  size : j.request.expectsSize b.length
  digest : j.request.expectsDigest (H.sha256 b)

-- Tasks that keep to what is good under a path. Either a file that is there stays as it is, or no two of
-- the tasks are for one path.
structure Regime (S : Setting) (ι : Type) where
  job : ι → Option Job
  paths : Set Path
  Good : Path → Bytes → Prop
  fixed : Prop
  mem_paths : ∀ {i j}, job i = some j → j.path ∈ paths
  names : ∀ {i j p}, job i = some j → p ∈ paths → ¬j.request.Auxiliary p
  fetched_good : ∀ {i j b}, job i = some j → S.origin.fetched j.request = some b → Accepted S.host j b → Good j.path b
  accepted : fixed → ∀ {i j b}, job i = some j → Good j.path b → Accepted S.host j b
  unique : fixed → ∀ {p b b'}, p ∈ paths → Good p b → Good p b' → b = b'
  apart : ¬fixed → ∀ {i i' j j'}, i ≠ i' → job i = some j → job i' = some j' → j.path ≠ j'.path

namespace Regime

variable {S : Setting} {ι : Type} (R : Regime S ι)

structure Sane (c : Cache ι) : Prop where
  good : ∀ p ∈ R.paths, ∀ b, c.files p = some b → R.Good p b
  drawn : ∀ u i, c.owner u = some i → isUuid u ∧ c.drawn u
  returned : R.fixed → ∀ x ∈ c.returned, x.1 ∈ R.paths ∧ ∃ b, x.2 = some b ∧ c.files x.1 = some b

-- What the others do in the eyes of a task.
structure Evolves (i : ι) (c c' : Cache ι) : Prop where
  owner : ∀ u, c.owner u = some i → c'.owner u = some i
  temporary : ∀ u j q, c.owner u = some i → R.job i = some j → j.request.IsTemporary u q → c'.files q = c.files q
  kept : ∀ j, R.job i = some j → ∀ b, c.files j.path = some b → c'.files j.path = some b

structure Does (i : ι) (c c' : Cache ι) : Prop where
  owner : ∀ u k, k ≠ i → c.owner u = some k → c'.owner u = some k
  temporary : ∀ u k j q, k ≠ i → c.owner u = some k → R.job k = some j → j.request.IsTemporary u q →
    c'.files q = c.files q
  kept : ∀ p ∈ R.paths, (¬R.fixed → ∀ j, R.job i = some j → p ≠ j.path) →
    ∀ b, c.files p = some b → c'.files p = some b

variable {R} {i : ι} {j : Job} {c c' c₁ c₂ c₃ : Cache ι}

namespace Evolves

theorem refl (i : ι) (c : Cache ι) : R.Evolves i c c :=
  ⟨fun _ h => h, fun _ _ _ _ _ _ => rfl, fun _ _ _ h => h⟩

theorem trans (h : R.Evolves i c₁ c₂) (h' : R.Evolves i c₂ c₃) : R.Evolves i c₁ c₃ where
  owner u ho := h'.owner u (h.owner u ho)
  temporary u j q ho hj ht := (h'.temporary u j q (h.owner u ho) hj ht).trans (h.temporary u j q ho hj ht)
  kept j hj b hb := h'.kept j hj b (h.kept j hj b hb)

end Evolves

namespace Does

theorem refl (i : ι) (c : Cache ι) : R.Does i c c :=
  ⟨fun _ _ _ h => h, fun _ _ _ _ _ _ _ _ => rfl, fun _ _ _ _ h => h⟩

theorem trans (h : R.Does i c₁ c₂) (h' : R.Does i c₂ c₃) : R.Does i c₁ c₃ where
  owner u k hk ho := h'.owner u k hk (h.owner u k hk ho)
  temporary u k j q hk ho hj ht :=
    (h'.temporary u k j q hk (h.owner u k hk ho) hj ht).trans (h.temporary u k j q hk ho hj ht)
  kept p hp hf b hb := h'.kept p hp hf b (h.kept p hp hf b hb)

theorem evolves (h : R.Does i c c') (hk : i ≠ k) : R.Evolves k c c' where
  owner u := h.owner u k hk.symm
  temporary u j q := h.temporary u k j q hk.symm
  kept j hj := h.kept j.path (R.mem_paths hj) fun hf _ hi => R.apart hf hk.symm hj hi

end Does

def discipline (R : Regime S ι) [DecidableEq ι] (i : ι) : Discipline CacheOp (Cache ι) where
  exec := exec S.origin i
  inv := R.Sane
  rely := R.Evolves i
  guar := R.Does i
  rely_refl := .refl i
  rely_trans := .trans

section Steps

variable {q : Path}

@[simp]
theorem set_files_self : (c.set q o).files q = o :=
  Function.update_self ..

theorem set_files_of_ne (h : p ≠ q) : (c.set q o).files p = c.files p :=
  Function.update_of_ne h ..

-- A file that is no concern of the others.
structure Private (R : Regime S ι) (i : ι) (c : Cache ι) (q : Path) : Prop where
  path : q ∉ R.paths
  temporary : ∀ u k, k ≠ i → c.owner u = some k → ∀ p, q ≠ temporaryPath p u

namespace Private

theorem own (hs : R.Sane c) (hj : R.job i = some j) (ho : c.owner u = some i)
    (ht : j.request.IsTemporary u q) : R.Private i c q where
  path hp := R.names hj hp (.inl ⟨u, (hs.drawn u i ho).left, ht⟩)
  temporary v k hk hv p hq := by
    have ⟨_, hq'⟩ : ∃ p', q = temporaryPath p' u := ht.elim (⟨_, ·⟩) (⟨_, ·.right⟩)
    have := temporaryPath_inj (hs.drawn u i ho).left (hs.drawn v k hv).left (hq'.symm.trans hq)
    subst this
    exact hk (Option.some.inj (hv.symm.trans ho))

theorem metadata (hs : R.Sane c) (hj : R.job i = some j) (hv : j.request.isVerified) :
    R.Private i c (cacheMetadataPath j.path) where
  path hp := R.names hj hp (.inr ⟨hv, .inr rfl⟩)
  temporary u k _ ho _ := cacheMetadataPath_ne (hs.drawn u k ho).left

theorem lock (hs : R.Sane c) (hj : R.job i = some j) (hv : j.request.isVerified) :
    R.Private i c (cacheLockPath j.path) where
  path hp := R.names hj hp (.inr ⟨hv, .inl rfl⟩)
  temporary u k _ ho _ := cacheLockPath_ne (hs.drawn u k ho).left

theorem files (h : R.Private i c q) (hp : p ∈ R.paths) : (c.set q o).files p = c.files p :=
  set_files_of_ne fun he => h.path (he ▸ hp)

theorem sane (h : R.Private i c q) (hs : R.Sane c) : R.Sane (c.set q o) where
  good p hp b hb := hs.good p hp b ((h.files hp).symm.trans hb)
  drawn := hs.drawn
  returned hf x hx :=
    have ⟨hp, b, hb, hc⟩ := hs.returned hf x hx
    ⟨hp, b, hb, (h.files hp).trans hc⟩

theorem does (h : R.Private i c q) : R.Does i c (c.set q o) where
  owner _ _ _ ho := ho
  temporary u k j p hk ho _ ht := by
    refine set_files_of_ne fun he => ?_
    obtain ht | ⟨_, ht⟩ := ht
    case inl | inr => exact h.temporary u k hk ho _ (he.symm.trans ht)
  kept p hp _ b hb := (h.files hp).trans hb

end Private

-- A task writes to the file that it is for, or removes it where nobody else is for it.
theorem Sane.set_path (hs : R.Sane c) (hj : R.job i = some j) (ho : ∀ b, o = some b → R.Good j.path b)
    (hf : R.fixed → o.isSome) : R.Sane (c.set j.path o) ∧ R.Does i c (c.set j.path o) := by
  -- Where files are fixed, what is written is what was there.
  have hk : R.fixed → ∀ p ∈ R.paths, ∀ b, c.files p = some b → (c.set j.path o).files p = some b := by
    intro hx p hp b hb
    by_cases hn : p = j.path
    case pos =>
      subst hn
      have ⟨b', hb'⟩ := Option.isSome_iff_exists.mp (hf hx)
      rw [set_files_self, hb', R.unique hx hp (hs.good _ hp b hb) (ho b' hb')]
    case neg => exact (set_files_of_ne hn).trans hb
  refine ⟨⟨?good, hs.drawn, ?returned⟩, ⟨fun _ _ _ h => h, ?temporary, ?kept⟩⟩
  case good =>
    intro p hp b hb
    by_cases hn : p = j.path
    case pos => subst hn; exact ho b (set_files_self.symm.trans hb)
    case neg => exact hs.good p hp b ((set_files_of_ne hn).symm.trans hb)
  case returned =>
    intro hx x hm
    have ⟨hp, b, hb, hc⟩ := hs.returned hx x hm
    exact ⟨hp, b, hb, hk hx x.1 hp b hc⟩
  case temporary =>
    intro u k j' p _ hu hj' ht
    refine set_files_of_ne fun he => ?_
    exact R.names hj' (R.mem_paths hj) (.inl ⟨u, (hs.drawn u k hu).left, he ▸ ht⟩)
  case kept =>
    intro p hp hn b hb
    by_cases hx : R.fixed
    case pos => exact hk hx p hp b hb
    case neg => exact (set_files_of_ne (hn hx j hj)).trans hb

theorem Sane.setLock (hs : R.Sane c) : R.Sane (c.setLock q k) :=
  ⟨hs.good, hs.drawn, hs.returned⟩

theorem Does.setLock : R.Does i c (c.setLock q k) :=
  ⟨fun _ _ _ h => h, fun _ _ _ _ _ _ _ _ => rfl, fun _ _ _ _ h => h⟩

theorem Sane.draw [DecidableEq ι] (hs : R.Sane c) (hu : isUuid u) (hd : c.drawn u = false) :
    R.Sane (c.draw u i) ∧ R.Does i c (c.draw u i) := by
  have hn : ∀ v k, c.owner v = some k → v ≠ u := by
    rintro v k hv rfl
    simpa [hd] using (hs.drawn v k hv).right
  refine ⟨⟨hs.good, ?drawn, hs.returned⟩, ⟨?owner, fun _ _ _ _ _ _ _ _ => rfl, fun _ _ _ _ h => h⟩⟩
  case drawn =>
    intro v k hv
    by_cases he : v = u
    case pos => subst he; exact ⟨hu, by simp [Cache.draw]⟩
    case neg =>
      have hv : c.owner v = some k := by simpa [Cache.draw, he] using hv
      exact ⟨(hs.drawn v k hv).left, by simpa [Cache.draw, he] using (hs.drawn v k hv).right⟩
  case owner =>
    intro v k _ hv
    simpa [Cache.draw, hn v k hv] using hv

end Steps

section Operations

variable [DecidableEq ι]

open Fallible

-- A fact that a task's own work on private files does not touch.
structure Local (R : Regime S ι) (i : ι) (F : Cache ι → Prop) : Prop where
  stable : (R.discipline i).Stable F
  set : ∀ {c q o}, R.Private i c q → F c → F (c.set q o)
  draw : ∀ {c u}, F c → F (c.draw u i)

namespace Local

theorem const (R : Regime S ι) (i : ι) (p : Prop) : R.Local i fun _ => p where
  stable := .const _ p
  set _ := id
  draw := id

theorem file (hj : R.job i = some j) (b : Bytes) : R.Local i fun c => c.files j.path = some b where
  stable _ _ hb hr := hr.kept j hj b hb
  set hq hb := (hq.files (R.mem_paths hj)).trans hb
  draw := id

theorem own (R : Regime S ι) (i : ι) (u : String) : R.Local i fun c => c.owner u = some i where
  stable _ _ ho hr := hr.owner u ho
  set _ := id
  draw {c v} ho    := by
    by_cases h : u = v
    case pos => simp [Cache.draw, h]
    case neg => simpa [Cache.draw, h] using ho

theorem and (hF : R.Local i F) (hG : R.Local i G) : R.Local i fun c => F c ∧ G c where
  stable := hF.stable.and hG.stable
  set hq h := ⟨hF.set hq h.left, hG.set hq h.right⟩
  draw h := ⟨hF.draw h.left, hG.draw h.right⟩

end Local

-- A task holds a temporary file, whose content may be known.
structure Holding (R : Regime S ι) (i : ι) (F : Cache ι → Prop) (u : String) (q : Path) (x : Option Bytes)
    (c : Cache ι) : Prop where
  fact : F c
  owner : c.owner u = some i
  content : ∀ b, x = some b → c.files q = some b

theorem Holding.stable (hF : R.Local i F) (hj : R.job i = some j) (ht : j.request.IsTemporary u q) :
    (R.discipline i).Stable (R.Holding i F u q x) :=
  fun _ _ h hr => {
    fact := hF.stable h.fact hr
    owner := hr.owner u h.owner
    content := fun b hb => (hr.temporary u j q h.owner hj ht).trans (h.content b hb) }

omit [DecidableEq ι] in
theorem Holding.forget (h : R.Holding i F u q x c) : R.Holding i F u q none c :=
  ⟨h.fact, h.owner, nofun⟩

theorem Holding.set (hF : R.Local i F) (hj : R.job i = some j) (ht : j.request.IsTemporary u q)
    (hs : R.Sane c) (h : R.Holding i F u q x c) (hy : ∀ b, y = some b → o = some b) :
    R.Sane (c.set q o) ∧ R.Does i c (c.set q o) ∧ R.Holding i F u q y (c.set q o) :=
  have hp := Private.own hs hj h.owner ht
  ⟨hp.sane hs, hp.does, hF.set hp h.fact, h.owner, fun b hb => set_files_self.trans (hy b hb)⟩

theorem wp_look {op : CacheOp (Except String α)} {Q : α → Cache ι → Prop}
    (hP : (R.discipline i).Stable P) (hp : P c) (hx : ∀ {c r c'}, exec S.origin i op c r c' → c' = c)
    (hq : ∀ c a, R.Sane c → P c → exec S.origin i op c (.ok a) c → Q a c) (he : ∀ c e, P c → E e c) :
    wp (R.discipline i) (attempt op) Q E c := by
  refine wp_attempt P hP hp fun c₁ hs hp r c₂ hr => ?_
  cases hx hr
  refine ⟨hs, .refl i _, ?_⟩
  cases r
  case error e => exact he _ e hp
  case ok a => exact hq _ a hs hp hr

theorem wp_newUuid (hF : R.Local i F) (hc : F c) :
    wp (R.discipline i) (ask .newUuid) (fun u c => F c ∧ c.owner u = some i) E c := by
  refine wp_ask F hF.stable hc fun c₁ hs hc u c₂ ⟨hu, hd, he⟩ => ?_
  subst he
  have ⟨hs, hg⟩ := hs.draw (i := i) hu hd
  exact ⟨hs, hg, hF.draw hc, by simp [Cache.draw]⟩

theorem wp_createNew (hF : R.Local i F) (hj : R.job i = some j) (ht : j.request.IsTemporary u q)
    (h : R.Holding i F u q x c) : wp (R.discipline i) (attempt (.createNew q))
      (fun _ => R.Holding i F u q (some [])) (fun _ => R.Holding i F u q none) c := by
  refine wp_attempt _ (Holding.stable hF hj ht) h fun c₁ hs h r c₂ he => ?_
  obtain ⟨rfl, _, rfl⟩ | ⟨hr, rfl⟩ := he
  case inl => exact h.set hF hj ht hs fun _ => id
  case inr =>
    cases r
    case error => exact ⟨hs, .refl i _, h.forget⟩
    case ok => exact absurd rfl hr

theorem wp_writeAll (hF : R.Local i F) (hj : R.job i = some j) (ht : j.request.IsTemporary u q)
    (h : R.Holding i F u q x c) : wp (R.discipline i) (attempt (.writeAll q chunk))
      (fun _ => R.Holding i F u q (x.map (· ++ chunk))) (fun _ => R.Holding i F u q none) c := by
  refine wp_attempt _ (Holding.stable hF hj ht) h fun c₁ hs h r c₂ ⟨part, _, hr, he⟩ => ?_
  subst he
  cases r
  case error => exact h.set hF hj ht hs nofun
  case ok =>
    rw [hr rfl]
    refine h.set hF hj ht hs fun b hb => ?_
    have ⟨a, ha, he⟩ := Option.map_eq_some_iff.mp hb
    rw [h.content a ha, Option.map_some, he]

theorem wp_sync (hF : R.Local i F) (hj : R.job i = some j) (ht : j.request.IsTemporary u q)
    (h : R.Holding i F u q x c) : wp (R.discipline i) (attempt (.sync q))
      (fun _ => R.Holding i F u q x) (fun _ => R.Holding i F u q none) c :=
  wp_look (Holding.stable hF hj ht) h id (fun _ _ _ h _ => h) (fun _ _ h => h.forget)

theorem wp_removeTemporary (hF : R.Local i F) (hj : R.job i = some j) (ht : j.request.IsTemporary u q)
    (h : R.Holding i F u q x c) : wp (R.discipline i) (attempt (.removeFileIfPresent q))
      (fun _ => R.Holding i F u q none) (fun _ => R.Holding i F u q none) c := by
  refine wp_attempt _ (Holding.stable hF hj ht) h fun c₁ hs h r c₂ he => ?_
  obtain ⟨rfl, rfl⟩ | ⟨hr, rfl⟩ := he
  case inl => exact h.set hF hj ht hs nofun
  case inr => exact ⟨hs, .refl i _, by cases r <;> exact h.forget⟩

theorem wp_renameMetadata (hF : R.Local i F) (hj : R.job i = some j) (hv : j.request.isVerified)
    (ht : j.request.IsTemporary u q) (h : R.Holding i F u q x c) :
    wp (R.discipline i) (attempt (.rename q (cacheMetadataPath j.path)))
      (fun _ => R.Holding i F u q none) (fun _ => R.Holding i F u q none) c := by
  refine wp_attempt _ (Holding.stable hF hj ht) h fun c₁ hs h r c₂ he => ?_
  obtain ⟨b, hb, rfl, rfl⟩ | ⟨hr, rfl⟩ := he
  case inl =>
    have ⟨hs, hg, h⟩ := h.set (o := none) (y := none) hF hj ht hs nofun
    have hp := Private.metadata hs hj hv
    exact ⟨hp.sane hs, hg.trans hp.does, hF.set hp h.fact, h.owner, nofun⟩
  case inr => exact ⟨hs, .refl i _, by cases r <;> exact h.forget⟩

theorem wp_publish (hF : R.Local i F) (hj : R.job i = some j) (ht : j.request.IsTemporary u q)
    (hb : R.Good j.path b) (h : R.Holding i F u q (some b) c) :
    wp (R.discipline i) (attempt (.rename q j.path)) (fun _ => R.Holding i (·.files j.path = some b) u q none)
      (fun _ => R.Holding i F u q none) c := by
  refine wp_attempt _ (Holding.stable hF hj ht) h fun c₁ hs h r c₂ he => ?_
  obtain ⟨b', hb', rfl, rfl⟩ | ⟨hr, rfl⟩ := he
  case inl =>
    cases (h.content b rfl).symm.trans hb'
    have ⟨hs, hg, h⟩ := h.set (o := none) (y := none) hF hj ht hs nofun
    have ⟨hs, hg'⟩ := hs.set_path (o := some b) hj (fun _ he => Option.some.inj he ▸ hb) (fun _ => rfl)
    exact ⟨hs, hg.trans hg', set_files_self, h.owner, nofun⟩
  case inr =>
    cases r
    case error => exact ⟨hs, .refl i _, h.forget⟩
    case ok => exact absurd rfl hr

theorem wp_removeMetadata (hF : R.Local i F) (hj : R.job i = some j) (hv : j.request.isVerified) (h : F c) :
    wp (R.discipline i) (attempt (.removeFileIfPresent (cacheMetadataPath j.path))) (fun _ => F) (fun _ => F) c := by
  refine wp_attempt _ hF.stable h fun c₁ hs h r c₂ he => ?_
  obtain ⟨rfl, rfl⟩ | ⟨hr, rfl⟩ := he
  case inl =>
    have hp := Private.metadata hs hj hv
    exact ⟨hp.sane hs, hp.does, hF.set hp h⟩
  case inr => exact ⟨hs, .refl i _, by cases r <;> exact h⟩

theorem wp_openLock (hF : R.Local i F) (hj : R.job i = some j) (hv : j.request.isVerified) (h : F c) :
    wp (R.discipline i) (attempt (.openLock (cacheLockPath j.path))) (fun _ => F) (fun _ => F) c := by
  refine wp_attempt _ hF.stable h fun c₁ hs h r c₂ he => ?_
  obtain ⟨rfl, rfl⟩ | ⟨hr, rfl⟩ := he
  case inl =>
    have hp := Private.lock hs hj hv
    exact ⟨hp.sane hs, hp.does, hF.set hp h⟩
  case inr => exact ⟨hs, .refl i _, by cases r <;> exact h⟩

end Operations

section Metadata

variable [DecidableEq ι]

open Fallible

-- The guard takes the temporary file away, however its body has ended.
theorem wp_withTemporaryFileGuard
    (hj : R.job i = some j) (ht : j.request.IsTemporary u q) (hQ : ∀ a, R.Local i (Q a)) (hF : R.Local i F)
    (h : wp (R.discipline i) body (fun a => R.Holding i (Q a) u q none) (fun _ => R.Holding i F u q none) c) :
    wp (R.discipline i) (withTemporaryFileGuard q body) Q (fun _ => F) c := by
  rw [withTemporaryFileGuard, wp_bind, wp_catching]
  refine wp_mono (fun a c h => ?_) (fun e c h => ?_) h
  · rw [wp_bind, wp_catching]
    refine wp_mono (fun _ _ h => ?_) (fun _ _ h => ?_) (wp_removeTemporary (hQ a) hj ht h)
    · exact wp_ofExcept.mpr h.fact
    · exact wp_ofExcept.mpr h.fact
  · rw [wp_bind, wp_catching]
    refine wp_mono (fun _ _ h => ?_) (fun _ _ h => ?_) (wp_removeTemporary hF hj ht h)
    · exact wp_ofExcept.mpr h.fact
    · exact wp_ofExcept.mpr h.fact

theorem wp_writeCacheMetadata (hF : R.Local i F) (hj : R.job i = some j) (hv : j.request.isVerified) (h : F c) :
    wp (R.discipline i) (writeCacheMetadata S.host (cacheMetadataPath j.path) m) (fun _ => F) (fun _ => F) c := by
  refine wp_seq (wp_newUuid hF h) fun u c ⟨h, ho⟩ => ?_
  have ht : j.request.IsTemporary u (temporaryPath (cacheMetadataPath j.path) u) := .inr ⟨hv, rfl⟩
  have h : R.Holding i F u (temporaryPath (cacheMetadataPath j.path) u) none c := ⟨h, ho, nofun⟩
  refine wp_withTemporaryFileGuard hj ht (fun _ => hF) hF ?_
  refine wp_seq (wp_createNew hF hj ht h) fun _ c h => ?_
  refine wp_seq (wp_writeAll hF hj ht h) fun _ c h => ?_
  refine wp_seq (wp_sync hF hj ht h) fun _ c h => ?_
  exact wp_renameMetadata hF hj hv ht h

theorem wp_refreshMetadata {d : String} (hF : R.Local i F) (hj : R.job i = some j)
    (hv : j.request.isVerified) (h : F c) :
    wp (R.discipline i) (refreshMetadata S.host j.request n d) (fun _ => F) (fun _ => F) c := by
  rw [refreshMetadata, wp_bind]
  refine wp_look hF.stable h And.left (fun c found _ h _ => ?_) (fun _ _ h => h)
  split
  case isTrue => exact wp_writeCacheMetadata hF hj hv h
  case isFalse => exact wp_pure.mpr h

end Metadata

-- A success that points to a file which is good and passes the checks of its request.
structure Done (R : Regime S ι) (j : Job) (s : RequestSuccess) (c : Cache ι) : Prop where
  path : s.localPath = j.path
  file : ∃ b, c.files j.path = some b ∧ R.Good j.path b ∧ Accepted S.host j b ∧ s.sizeBytes = b.length ∧
    s.sha256 = if j.request.isVerified then some (S.host.sha256 b) else none

section Cached

variable [DecidableEq ι]

open Fallible

theorem wp_invalidate (hj : R.job i = some j) (hv : j.request.isVerified) (hf : ¬R.fixed) :
    wp (R.discipline i) (invalidateVerifiedCache j.request) (fun _ _ => True) (fun _ _ => True) c := by
  have hF : R.Local i fun _ => True := .const R i True
  have hr : wp (R.discipline i) (attempt (.removeFileIfPresent j.path)) (fun _ _ => True) (fun _ _ => True) c := by
    refine wp_attempt _ hF.stable trivial fun c₁ hs _ r c₂ he => ?_
    obtain ⟨rfl, rfl⟩ | ⟨_, rfl⟩ := he
    case inl =>
      have ⟨hs, hg⟩ := hs.set_path (o := none) hj nofun (fun h => absurd h hf)
      exact ⟨hs, hg, trivial⟩
    case inr => exact ⟨hs, .refl i _, by cases r <;> trivial⟩
  exact wp_seq hr fun _ _ h => wp_removeMetadata hF hj hv h

-- What fails a check goes, which does not happen to a good file where files are fixed.
theorem wp_discard (hj : R.job i = some j) (hv : j.request.isVerified) (hg : R.Good j.path b)
    (hn : ¬Accepted S.host j b) :
    wp (R.discipline i) (do invalidateVerifiedCache j.request; return none)
      (fun r c => ∀ s, r = some s → R.Done j s c) (fun _ _ => True) c :=
  wp_seq (wp_invalidate hj hv fun hf => hn (R.accepted hf hj hg)) fun _ _ _ => wp_pure.mpr nofun

theorem wp_hashFile {b : Bytes} (hj : R.job i = some j) (hc : c.files j.path = some b) :
    wp (R.discipline i) (hashFile S.host j.path j.config.maxObjectBytes)
      (fun x c => c.files j.path = some b ∧ b.length ≤ j.config.maxObjectBytes ∧ x = (b.length, S.host.sha256 b))
      (fun _ _ => True) c := by
  rw [hashFile, wp_bind]
  refine wp_look (Local.file hj b).stable hc And.left (fun c b' _ hc he => ?_) (fun _ _ _ => trivial)
  cases hc.symm.trans (he.right b' rfl)
  refine wp_bind.mpr <| wp_throwIf (fun _ => trivial) fun _ => ?_
  refine wp_bind.mpr <| wp_throwIf (fun _ => trivial) fun hl => ?_
  exact wp_pure.mpr ⟨hc, Nat.le_of_not_lt hl, rfl⟩

theorem wp_verifiedCacheHit {b : Bytes} (hj : R.job i = some j) (hv : j.request.isVerified)
    (hc : c.files j.path = some b) : wp (R.discipline i) (verifiedCacheHit S.host j.config j.request)
      (fun r c => ∀ s, r = some s → R.Done j s c) (fun _ _ => True) c := by
  have hF := Local.file (R := R) hj b
  rw [verifiedCacheHit, wp_bind]
  refine wp_look hF.stable hc And.left (fun c x hs hc he => ?_) (fun _ _ _ => trivial)
  have hg := hs.good j.path (R.mem_paths hj) b hc
  have hx : (true, b.length) = x := by
    have := he.right x rfl
    rw [show c.files j.request.localPath = some b from hc] at this
    exact Option.some.inj this
  subst hx
  simp only [Bool.not_true, Bool.false_or]
  split
  case isTrue h =>
    refine wp_discard hj hv hg fun ha => ?_
    simp [ha.size, Nat.not_lt.mpr (ha.limit hv)] at h
  case isFalse h =>
    refine wp_seq (wp_hashFile hj hc) fun x c ⟨hc, hl, hx⟩ => ?_
    subst hx
    split
    case isTrue h =>
      refine wp_discard hj hv hg fun ha => ?_
      simp [ha.size, ha.digest] at h
    case isFalse h =>
      simp only [Bool.or_eq_true, Bool.not_eq_true', not_or, Bool.not_eq_false] at h
      refine wp_seq (wp_any (wp_refreshMetadata hF hj hv hc)) fun _ c hc => ?_
      rw [wp_bind]
      refine wp_look hF.stable hc id (fun c _ _ hc _ => ?_) (fun _ _ _ => trivial)
      refine wp_pure.mpr fun s hs => ?_
      cases hs
      exact ⟨rfl, b, hc, hg, ⟨fun _ => hl, h.left, h.right⟩, rfl, by simp [hv]⟩

omit [DecidableEq ι] in
theorem accepted_of_not_verified (hv : ¬j.request.isVerified) : Accepted H j b := by
  have hn : j.request.expectedSha256 = none ∧ j.request.expectedSizeBytes = none := by
    simpa [DownloadRequest.isVerified] using hv
  exact ⟨fun h => absurd h hv, by simp [DownloadRequest.expectsSize, hn], by simp [DownloadRequest.expectsDigest, hn]⟩

theorem wp_cachedRequestSuccess (hj : R.job i = some j) :
    wp (R.discipline i) (cachedRequestSuccess S.host j.config j.request)
      (fun r c => ∀ s, r = some s → R.Done j s c) (fun _ _ => True) c := by
  have hT : R.Local i fun _ => True := .const R i True
  rw [cachedRequestSuccess, wp_bind]
  refine wp_look hT.stable trivial And.left (fun c x hs _ he => ?_) (fun _ _ _ => trivial)
  cases x
  case false =>
    simp only [Bool.not_false, if_true]
    split
    case isTrue hv => exact wp_seq (wp_any (wp_removeMetadata hT hj hv trivial)) fun _ _ _ => wp_pure.mpr nofun
    case isFalse hv => exact wp_pure.mpr nofun
  case true =>
    have ⟨b, hc⟩ := Option.isSome_iff_exists.mp (he.right true rfl).symm
    simp only [Bool.not_true, Bool.false_eq_true, if_false]
    split
    case isFalse hv => exact wp_verifiedCacheHit hj (by simpa using hv) hc
    case isTrue hv =>
      have hv : ¬j.request.isVerified := by simpa using hv
      rw [wp_bind]
      refine wp_look (Local.file hj b).stable hc And.left (fun c n hs hc he => ?_) (fun _ _ _ => trivial)
      have hn : b.length = n := by
        have := he.right n rfl
        rw [show c.files j.request.localPath = some b from hc] at this
        exact Option.some.inj this
      refine wp_pure.mpr fun s he => ?_
      cases he
      exact ⟨rfl, b, hc, hs.good _ (R.mem_paths hj) b hc, accepted_of_not_verified hv, hn.symm, by simp [hv]⟩

end Cached

section Transfer

variable [DecidableEq ι] {F : Cache ι → Prop} {u : String} {q : Path}

open Fallible

theorem wp_allow {x : Bytes} {l : Nat} (hF : R.Local i F) (hj : R.job i = some j) (ht : j.request.IsTemporary u q)
    (hl : ∀ n, limits n = .ok () → n ≤ j.config.maxObjectBytes) (h : R.Holding i F u q (some x) c) :
    wp (R.discipline i) (allow j.request limits n l)
      (fun _ c => R.Holding i F u q (some x) c ∧ (j.request.isVerified → n ≤ j.config.maxObjectBytes))
      (fun _ => R.Holding i F u q none) c := by
  unfold allow
  split
  case isFalse hv => exact wp_pure.mpr ⟨h, fun hv' => absurd hv' hv⟩
  case isTrue hv =>
    rw [wp_bind, wp_ofExcept]
    cases hr : limits n
    case error e => exact h.forget
    case ok =>
      exact wp_look (Holding.stable hF hj ht) h id (fun c _ _ h _ => ⟨h, fun _ => hl _ hr⟩) (fun _ _ h => h.forget)

-- What a transfer has come to when all pieces are written.
structure Transferred (R : Regime S ι) (i : ι) (j : Job) (F : Cache ι → Prop) (u : String) (q : Path) (b : Bytes)
    (r : Nat × Bytes) (c : Cache ι) : Prop where
  holding : R.Holding i F u q (some b) c
  limit : j.request.isVerified → b.length ≤ j.config.maxObjectBytes
  result : r = (b.length, if j.request.isVerified then b else [])

-- The induction is on the pieces that are still to come, with `x` for what has been written.
theorem wp_transfer (overflow : String) (hF : R.Local i F) (hj : R.job i = some j) (ht : j.request.IsTemporary u q)
    (hl : ∀ n, limits n = .ok () → n ≤ j.config.maxObjectBytes) :
    (stream : Stream) → (x : Bytes) → (c : Cache ι) → (j.request.isVerified → x.length ≤ j.config.maxObjectBytes) →
    R.Holding i F u q (some x) c → wp (R.discipline i)
      (transfer j.request overflow limits q stream x.length (if j.request.isVerified then x else []))
      (fun r c => ∃ chunks : List Bytes, stream = chunks.map .ok ∧ R.Transferred i j F u q (x ++ chunks.flatten) r c)
      (fun _ => R.Holding i F u q none) c
  | [], x, c, hx, h => wp_pure.mpr ⟨[], rfl, by simpa using h, by simpa using hx, by simp⟩
  | .error e :: rest, x, c, hx, h => wp_throw.mpr h.forget
  | .ok chunk :: rest, x, c, hx, h => by
    rw [transfer]
    refine wp_bind.mpr <| wp_throwIf (fun _ => h.forget) fun _ => ?_
    refine wp_seq (wp_allow hF hj ht hl h) fun _ c ⟨h, hx'⟩ => ?_
    refine wp_seq (wp_writeAll hF hj ht h) fun _ c h => ?_
    have hi := wp_transfer overflow hF hj ht hl rest (x ++ chunk) c (by simpa using hx') h
    have he : (if j.request.isVerified then (if j.request.isVerified then x else []) ++ chunk
        else if j.request.isVerified then x else []) = if j.request.isVerified then x ++ chunk else [] := by
      split <;> rfl
    rw [length_append] at hi
    rw [he]
    refine wp_mono (fun r c ⟨chunks, hs, h⟩ => ?_) (fun _ _ h => h) hi
    rw [append_assoc, ← flatten_cons] at h
    exact ⟨chunk :: chunks, by rw [hs, map_cons], h⟩

omit [DecidableEq ι] in
theorem streamLimits_ok (n : Nat) (h : streamLimits j.config j.request n = .ok ()) : n ≤ j.config.maxObjectBytes :=
  have ⟨_, _, h⟩ := bind_eq_ok.mp h
  throwUnless_eq_ok.mp h

omit [DecidableEq ι] in
theorem copyLimits_ok (n : Nat) (h : copyLimits j.config j.request n = .ok ()) : n ≤ j.config.maxObjectBytes :=
  have ⟨_, h, _⟩ := bind_eq_ok.mp h
  throwUnless_eq_ok.mp h

omit [DecidableEq ι] in
theorem accepted_of_verifyDownload (hb : j.request.isVerified → b.length ≤ j.config.maxObjectBytes)
    (h : verifyDownload j.request b.length (takenDigest S.host j.request (if j.request.isVerified then b else [])) =
      .ok ()) : Accepted S.host j b := by
  by_cases hv : j.request.isVerified
  case neg => exact accepted_of_not_verified hv
  case pos =>
    have ⟨_, hs, hd⟩ := bind_eq_ok.mp h
    simp only [checkSome_eq_ok, throwUnless_eq_ok, takenDigest, hv, if_true, Option.some.injEq] at hs hd
    refine ⟨hb, ?size, ?digest⟩
    case size =>
      rw [DownloadRequest.expectsSize]
      cases ho : j.request.expectedSizeBytes
      case none => rfl
      case some n => exact decide_eq_true (hs n ho).symm
    case digest =>
      rw [DownloadRequest.expectsDigest]
      cases ho : j.request.expectedSha256
      case none => rfl
      case some d => exact decide_eq_true (hd d ho).symm

theorem wp_publishCacheFile (hF : R.Local i F) (hj : R.job i = some j) (ht : j.request.IsTemporary u q)
    (hb : R.Good j.path b) (h : R.Holding i F u q (some b) c) :
    wp (R.discipline i)
      (publishCacheFile S.host j.request q b.length
        (takenDigest S.host j.request (if j.request.isVerified then b else [])))
      (fun _ => R.Holding i (·.files j.path = some b) u q none) (fun _ => R.Holding i (fun _ => True) u q none) c := by
  refine wp_seq (wp_mono (fun _ _ h => h) (fun _ c h => ?_) (wp_publish hF hj ht hb h)) fun _ c h => ?_
  · exact ⟨trivial, h.owner, nofun⟩
  · split
    case isFalse hv => exact wp_pure.mpr h
    case isTrue hv =>
      simp only [takenDigest, hv, if_true]
      have hL := (Local.file hj b).and (Local.own R i u)
      refine wp_mono (fun _ c h => ?_) (fun _ c h => ?_) (wp_writeCacheMetadata hL hj hv ⟨h.fact, h.owner⟩)
      · exact ⟨h.left, h.right, nofun⟩
      · exact ⟨trivial, h.right, nofun⟩

theorem wp_viaTemporaryFile (hj : R.job i = some j) (hQ : ∀ a, R.Local i (Q a))
    (h : ∀ u q c, j.request.IsTemporary u q → R.Holding i (fun _ => True) u q (some []) c →
      wp (R.discipline i) (body q) (fun a => R.Holding i (Q a) u q none)
        (fun _ => R.Holding i (fun _ => True) u q none) c) :
    wp (R.discipline i) (viaTemporaryFile j.request body) Q (fun _ _ => True) c := by
  have hT : R.Local i fun _ => True := .const R i True
  refine wp_seq (wp_newUuid hT trivial) fun u c ⟨_, ho⟩ => ?_
  have ht : j.request.IsTemporary u (temporaryPath j.path u) := .inl rfl
  refine wp_seq (wp_any (wp_createNew (x := none) hT hj ht ⟨trivial, ho, nofun⟩)) fun _ c hc => ?_
  refine wp_withTemporaryFileGuard hj ht hQ hT ?_
  rw [wp_bind, wp_catching]
  refine wp_mono (fun a c h => wp_pure.mpr h) (fun e c h => ?_) (h u _ c ht hc)
  exact wp_seq (wp_removeTemporary hT hj ht h) fun _ c h => wp_throw.mpr h

-- What is left to do once the pieces are written comes to the same on both ways.
theorem wp_publishTransferred (hj : R.job i = some j) (ht : j.request.IsTemporary u q)
    (hb : S.origin.fetched j.request = some b)
    (hv : verifyDownload j.request b.length (takenDigest S.host j.request (if j.request.isVerified then b else [])) =
      .ok ()) (hl : j.request.isVerified → b.length ≤ j.config.maxObjectBytes)
    (h : R.Holding i (fun _ => True) u q (some b) c) :
    wp (R.discipline i) (do
        publishCacheFile S.host j.request q b.length
          (takenDigest S.host j.request (if j.request.isVerified then b else []))
        return (b.length, takenDigest S.host j.request (if j.request.isVerified then b else [])))
      (fun r => R.Holding i
        (R.Done j { localPath := j.path, sizeBytes := r.1, downloaded := true, sha256 := r.2 }) u q none)
      (fun _ => R.Holding i (fun _ => True) u q none) c := by
  have ha := accepted_of_verifyDownload hl hv
  have hg := R.fetched_good hj hb ha
  refine wp_seq (wp_publishCacheFile (.const R i True) hj ht hg h) fun _ c h => ?_
  refine wp_pure.mpr ⟨⟨rfl, b, h.fact, hg, ha, rfl, ?_⟩, h.owner, nofun⟩
  simp only [takenDigest]
  split <;> rfl

theorem Local.done (hj : R.job i = some j) (s : RequestSuccess) : R.Local i (R.Done j s) where
  stable _ _ h hr :=
    have ⟨b, hb, h'⟩ := h.file
    ⟨h.path, b, (Local.file hj b).stable hb hr, h'⟩
  set hq h :=
    have ⟨b, hb, h'⟩ := h.file
    ⟨h.path, b, (Local.file hj b).set hq hb, h'⟩
  draw h := ⟨h.path, h.file⟩

def fetchedSuccess (j : Job) (r : Nat × Option String) : RequestSuccess where
  localPath := j.path
  sizeBytes := r.1
  downloaded := true
  sha256 := r.2

theorem wp_receiveStream (hj : R.job i = some j)
    (hb : S.origin.fetched j.request = some b) (hd : stream.Delivers b) :
    wp (R.discipline i) (receiveStream S.host j.config j.request stream)
      (fun r => R.Done j (fetchedSuccess j r)) (fun _ _ => True) c := by
  have hT : R.Local i fun _ => True := .const R i True
  refine wp_viaTemporaryFile hj (fun r => .done hj _) fun u q c ht h => ?_
  have hw :=
    wp_transfer "prefetch: object size overflow" hT hj ht streamLimits_ok stream [] c (fun _ => Nat.zero_le _) h
  rw [length_nil, ite_self] at hw
  refine wp_seq hw fun r c ⟨chunks, hs, h⟩ => ?_
  rw [nil_append, hd chunks hs] at h
  cases h.result
  refine wp_bind.mpr <| wp_check (fun _ => h.holding.forget) fun _ hv => ?_
  refine wp_seq (wp_sync hT hj ht h.holding) fun _ c hc => ?_
  exact wp_publishTransferred hj ht hb hv h.limit hc

theorem wp_copyStream (hj : R.job i = some j) (hb : S.origin.fetched j.request = some b) (hd : source.Delivers b) :
    wp (R.discipline i) (copyStream S.host j.config j.request source)
      (fun r => R.Done j (fetchedSuccess j r)) (fun _ _ => True) c := by
  have hT : R.Local i fun _ => True := .const R i True
  refine wp_viaTemporaryFile hj (fun r => .done hj _) fun u q c ht h => ?_
  have hw :=
    wp_transfer "prefetch: local object size overflow" hT hj ht copyLimits_ok source [] c (fun _ => Nat.zero_le _) h
  rw [length_nil, ite_self] at hw
  refine wp_seq hw fun r c ⟨chunks, hs, h⟩ => ?_
  rw [nil_append, hd chunks hs] at h
  cases h.result
  refine wp_seq (wp_sync hT hj ht h.holding) fun _ c hc => ?_
  refine wp_bind.mpr <| wp_check (fun _ => hc.forget) fun _ hv => ?_
  exact wp_publishTransferred hj ht hb hv h.limit hc

theorem wp_downloadRequest (hj : R.job i = some j) (hk : j.request.kind ≠ .fileCopy) :
    wp (R.discipline i) (downloadRequest S.host j.config j.request)
      (fun r => R.Done j (fetchedSuccess j r)) (fun _ _ => True) c := by
  refine wp_bind.mpr <| wp_check (fun _ => trivial) fun url hu => ?_
  refine wp_bind.mpr <| wp_check (fun _ => trivial) fun headers hh => ?_
  refine wp_bind.mpr <|
    wp_look (Discipline.Stable.const _ True) trivial And.left (fun c response _ _ he => ?_) fun _ _ _ => trivial
  have ⟨hs, hd⟩ := he.right response rfl
  refine wp_bind.mpr <| wp_throwIf (fun _ => trivial) fun ha => ?_
  refine wp_bind.mpr <| wp_check (fun _ => trivial) fun _ _ => ?_
  refine wp_receiveStream hj ?_ hd
  rw [hs] at ha
  simp only [Bool.not_eq_false, Bool.not_eq_eq_eq_not, Bool.not_true] at ha
  unfold Origin.fetched
  split
  case h_1 h => exact absurd h hk
  case h_2 => simp [hu, hh, Except.toOption, ha]

theorem wp_checkSource {path : Path} :
    wp (R.discipline i) (checkSource j.config j.request path) (fun _ _ => True) (fun _ _ => True) c := by
  unfold checkSource
  split
  case isFalse => exact wp_pure.mpr trivial
  case isTrue =>
    refine wp_bind.mpr <| wp_look (.const _ True) trivial And.left (fun _ _ _ _ _ => ?_) fun _ _ _ => trivial
    exact wp_check (fun _ => trivial) fun _ _ => trivial

theorem wp_copyLocalRequest (hj : R.job i = some j) (hk : j.request.kind = .fileCopy) :
    wp (R.discipline i) (copyLocalRequest S.host j.config j.request)
      (fun r => R.Done j (fetchedSuccess j r)) (fun _ _ => True) c := by
  have hT : (R.discipline i).Stable fun _ => True := .const _ True
  refine wp_bind.mpr <| wp_check (fun _ => trivial) fun path hp => ?_
  refine wp_seq wp_checkSource fun _ c _ => ?_
  refine wp_bind.mpr <| wp_look hT trivial And.left (fun c source _ _ he => ?_) fun _ _ _ => trivial
  have ⟨b, hb, hd⟩ := he.right source rfl
  exact wp_copyStream hj (by simp [Origin.fetched, hk, hp, Except.toOption, hb]) hd

theorem wp_materializeRequestByKind (hj : R.job i = some j) :
    wp (R.discipline i) (materializeRequestByKind S.host j.config j.request)
      (fun r => R.Done j (fetchedSuccess j r)) (fun _ _ => True) c := by
  unfold materializeRequestByKind
  split
  case h_1 hk | h_2 hk => exact wp_downloadRequest hj (by simp [hk])
  case h_3 hk => exact wp_copyLocalRequest hj hk

theorem wp_fetchUnlessCached (hj : R.job i = some j) :
    wp (R.discipline i) (fetchUnlessCached S.host j.config j.request) (fun s => R.Done j s) (fun _ _ => True) c := by
  refine wp_seq (wp_cachedRequestSuccess hj) fun r c h => ?_
  cases r
  case some s => exact wp_pure.mpr (h s rfl)
  case none =>
    refine wp_bind.mpr <| wp_look (.const _ True) trivial id (fun c _ _ _ _ => ?_) fun _ _ _ => trivial
    exact wp_seq (wp_materializeRequestByKind hj) fun r c h => wp_pure.mpr h

theorem wp_lockIfVerified (hj : R.job i = some j) :
    wp (R.discipline i) (lockIfVerified j.request) (fun _ _ => True) (fun _ _ => True) c := by
  have hT : R.Local i fun _ => True := .const R i True
  unfold lockIfVerified
  split
  case isFalse => exact wp_pure.mpr trivial
  case isTrue hv =>
    refine wp_bind.mpr <| wp_look hT.stable trivial id (fun c _ _ _ _ => ?_) fun _ _ _ => trivial
    refine wp_seq (wp_openLock hT hj hv trivial) fun _ c _ => ?_
    refine wp_attempt _ hT.stable trivial fun c₁ hs _ r c₂ he => ?_
    obtain ⟨rfl, _, rfl⟩ | ⟨_, rfl⟩ := he
    case inl => exact ⟨hs.setLock, .setLock, trivial⟩
    case inr => exact ⟨hs, .refl i _, by cases r <;> trivial⟩

theorem wp_materializeRequest (hj : R.job i = some j) :
    (S.work j).wp (R.discipline i) (fun r c => ∀ s, r = .success s → R.Done j s c) c := by
  refine Prog.wp_bind_iff.mpr <| Prog.wp_mono (fun r c _ => ?_) _ (wp_run.mp (wp_lockIfVerified hj))
  cases r
  case error => exact nofun
  case ok =>
    refine Prog.wp_bind_iff.mpr <| Prog.wp_mono (fun r c h => ?_) _ (wp_run.mp (wp_fetchUnlessCached hj))
    have ho : ∀ s, outcome r = .success s → R.Done j s c := by
      cases r
      case error => exact nofun
      case ok => rintro _ ⟨⟩; exact h
    split
    case isFalse => exact ho
    case isTrue =>
      have hS : (R.discipline i).Stable fun c => ∀ s, outcome r = .success s → R.Done j s c :=
        fun _ _ h hr s hs => (Local.done hj s).stable (h s hs) hr
      refine Prog.wp_perform_bind _ hS ho fun c₁ hs ho _ c₂ he => ?_
      subst he
      exact ⟨hs.setLock, .setLock, fun s h => ⟨(ho s h).path, (ho s h).file⟩⟩

end Transfer

end Regime

end Prefetch
