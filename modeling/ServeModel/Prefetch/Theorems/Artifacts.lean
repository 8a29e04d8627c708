import ServeModel.Prefetch.Theorems.Stable

-- Why an artifact holds what its item asks for.
namespace Prefetch

open List hiding range

section Requests

variable {H : Host} {config : PrefetchConfig} {root : Path}

-- What the requests of a plan have to do with its items.
structure Built (H : Host) (config : PrefetchConfig) (root : Path) (plan : List PrefetchPlanItem)
    (requests : List DownloadRequest) : Prop where
  source : ∀ r ∈ requests, ∃ x ∈ plan, validatePlanItem H config x = .ok () ∧
    r = { DownloadRequest.ofItem H root x with required := r.required }
  keys : (requests.map (·.cacheKey)).Nodup
  item : ∀ x ∈ plan, ∃ r ∈ requests, r.cacheKey = x.effectiveCacheKey ∧ ¬r.conflicts x

theorem DownloadRequest.not_conflicts_ofItem (x : PrefetchPlanItem) : ¬(ofItem H root x).conflicts x := by
  simp [conflicts, ofItem]

theorem Built.add
    (h : Built H config root plan requests) (hx : addRequest H config root requests x = .ok requests') :
    Built H config root (plan ++ [x]) requests' := by
  have ⟨_, hv, hx⟩ := Except.bind_eq_ok.mp hx
  have hm : ∀ y ∈ plan, y ∈ plan ++ [x] := fun y hy => mem_append_left _ hy
  dsimp only at hx
  split at hx
  case h_1 existing he =>
    split at hx
    case isTrue => cases hx
    case isFalse hc =>
      cases hx
      -- Only whether a request is required has changed.
      let mark (r : DownloadRequest) : DownloadRequest :=
        if r.cacheKey = x.effectiveCacheKey then { r with required := r.required || x.required } else r
      have hmark (r : DownloadRequest) : mark r = { r with required := (mark r).required } := by
        simp only [mark]
        split <;> rfl
      have hkey (r : DownloadRequest) : (mark r).cacheKey = r.cacheKey := by rw [hmark]
      have hconf (r : DownloadRequest) (y : PrefetchPlanItem) : (mark r).conflicts y = r.conflicts y := by
        rw [hmark]
        rfl
      refine ⟨?source, ?keys, ?item⟩
      case source =>
        intro r hr
        obtain ⟨r₀, hr₀, rfl⟩ := mem_map.mp hr
        have ⟨y, hy, hvy, hry⟩ := h.source r₀ hr₀
        refine ⟨y, hm y hy, hvy, (hmark r₀).trans ?_⟩
        rw [hry]
      case keys => simpa only [map_map, Function.comp_def, mark, hkey] using h.keys
      case item =>
        intro y hy
        obtain hy | hy := mem_append.mp hy
        case inl =>
          have ⟨r, hr, hk, hn⟩ := h.item y hy
          exact ⟨mark r, mem_map_of_mem hr, (hkey r).trans hk, by rwa [hconf]⟩
        case inr =>
          cases mem_singleton.mp hy
          have hk : existing.cacheKey = x.effectiveCacheKey := by simpa using find?_some he
          exact ⟨mark existing, mem_map_of_mem (mem_of_find?_eq_some he), (hkey _).trans hk, by rwa [hconf]⟩
  case h_2 hn =>
    cases hx
    have hnew : ∀ r ∈ requests, r.cacheKey ≠ x.effectiveCacheKey := by
      simpa using hn
    refine ⟨?source, ?keys, ?item⟩
    case source =>
      intro r hr
      obtain hr | hr := mem_append.mp hr
      case inl =>
        have ⟨y, hy, h⟩ := h.source r hr
        exact ⟨y, hm y hy, h⟩
      case inr =>
        cases mem_singleton.mp hr
        exact ⟨x, mem_append_right _ (mem_singleton_self x), hv, rfl⟩
    case keys =>
      rw [map_append, nodup_append]
      refine ⟨h.keys, nodup_singleton _, fun k hk k' hk' he => ?_⟩
      obtain ⟨r, hr, rfl⟩ := mem_map.mp hk
      cases mem_singleton.mp hk'
      exact hnew r hr he
    case item =>
      intro y hy
      obtain hy | hy := mem_append.mp hy
      case inl =>
        have ⟨r, hr, h⟩ := h.item y hy
        exact ⟨r, mem_append_left _ hr, h⟩
      case inr =>
        cases mem_singleton.mp hy
        exact ⟨_, mem_append_right _ (mem_singleton_self _), rfl, DownloadRequest.not_conflicts_ofItem x⟩

theorem Built.addAll
    (h : Built H config root plan requests) (hx : rest.foldlM (addRequest H config root) requests = .ok requests') :
    Built H config root (plan ++ rest) requests' := by
  induction rest generalizing plan requests
  case nil =>
    cases hx
    rwa [append_nil]
  case cons x rest hi =>
    have ⟨_, ha, hx⟩ := Except.bind_eq_ok.mp (foldlM_cons.symm.trans hx)
    have := hi (h.add ha) hx
    rwa [append_assoc] at this

theorem built_of_buildRequests
    (h : buildRequests H config root plan = .ok requests) : Built H config root plan requests := by
  have ⟨_, hf, h⟩ := Except.bind_eq_ok.mp h
  have ⟨_, _, h⟩ := Except.bind_eq_ok.mp h
  cases h
  have hn : Built H config root [] [] := ⟨fun _ h => (nomatch h), nodup_nil, fun _ h => (nomatch h)⟩
  exact hn.addAll hf

end Requests

section Paths

variable {H : Host} {root : Path} {x y : PrefetchPlanItem}

theorem sha256_cons (b : Bytes) : ∃ c cs, (H.sha256 b).toList = c :: cs ∧ c ≠ 's' := by
  cases h : (H.sha256 b).toList
  case nil =>
    have := H.sha256_length b
    rw [← String.length_toList, h] at this
    cases this
  case cons c cs =>
    refine ⟨c, cs, rfl, ?_⟩
    rintro rfl
    have := H.sha256_digits b 's' (h ▸ mem_cons_self ..)
    revert this
    decide

-- A file that is named after a digest of its content has the name of no other one.
theorem cachePathForItem_ne (hx : x.expectedSha256 = some d) (hy : y.expectedSha256 = none) :
    cachePathForItem H root x ≠ cachePathForItem H root y := by
  intro h
  have ⟨c, cs, hc, hn⟩ := sha256_cons (H := H) (utf8 y.effectiveCacheKey)
  have := congrArg String.toList h
  simp only [cachePathForItem, hx, hy, String.toList_append, hc, append_assoc] at this
  simp at this
  exact hn this.left.symm

-- Two items have one path only under one key, if no two keys have one digest.
theorem effectiveCacheKey_eq
    (hd : H.sha256 (utf8 x.effectiveCacheKey) = H.sha256 (utf8 y.effectiveCacheKey) →
      x.effectiveCacheKey = y.effectiveCacheKey) (h : cachePathForItem H root x = cachePathForItem H root y) :
    x.effectiveCacheKey = y.effectiveCacheKey := by
  cases hx : x.expectedSha256
  case some d =>
    cases hy : y.expectedSha256
    case none => exact absurd h (cachePathForItem_ne hx hy)
    case some d' =>
      have := congrArg String.toList h
      simp only [cachePathForItem, hx, hy, String.toList_append, append_cancel_left_eq, String.toList_inj] at this
      simp only [PrefetchPlanItem.effectiveCacheKey, hx, hy, this]
  case none =>
    cases hy : y.expectedSha256
    case some d => exact absurd h.symm (cachePathForItem_ne hy hx)
    case none =>
      refine hd (String.toList_inj.mp ?_)
      have := congrArg String.toList h
      simp only [cachePathForItem, hx, hy, String.toList_append, append_assoc, append_cancel_left_eq] at this
      refine (append_inj this ?_).left
      simp [String.length_toList, H.sha256_length]

end Paths

section Sources

variable {O : Origin} {H : Host} {x y : PrefetchPlanItem} {b : Bytes}

-- What is fetched for one item is what the other one asks for.
structure Serves (O : Origin) (y x : PrefetchPlanItem) : Prop where
  range : y.effectiveKind = .fileCopy → y.byteRange = none
  headers : ¬y.headers.any isSelective
  same : O.requested y = O.requested x

theorem not_isError {answer : Answer} (h : acceptsStatus request answer.status) :
    ¬answer.isError := by
  unfold acceptsStatus at h
  split at h
  case isFalse => simpa only [Answer.isError, Bool.not_eq_true, Bool.not_eq_eq_eq_not, Bool.not_true] using h
  case isTrue =>
    simp only [Bool.and_eq_true, decide_eq_true_eq] at h
    simp only [Answer.isError, Bool.and_eq_true, decide_eq_true_eq, not_and, not_lt]
    omega

theorem range_length (h : validatePlanItem H config x = .ok ()) (hr : x.byteRange = some range) :
    0 < range.length := by
  have ⟨_, h⟩ := Except.ite_throw_eq_ok.mp h
  have ⟨_, h⟩ := Except.ite_throw_eq_ok.mp h
  have ⟨h, _⟩ := Except.ite_throw_eq_ok.mp h
  simp [hr] at h
  omega

theorem fetched_answer (hk : y.effectiveKind ≠ .fileCopy) (hf : O.fetched (.ofItem H r y) = some b) :
    ∃ url headers, requestUrl (.ofItem H r y) = .ok url ∧ requestHeaders (.ofItem H r y) = .ok headers ∧
      ¬(O.answer url headers).isError ∧ (O.answer url headers).body = b := by
  unfold Origin.fetched at hf
  split at hf
  case h_1 h => exact absurd h hk
  case h_2 =>
    have ⟨url, hu, hf⟩ := Option.bind_eq_some_iff.mp hf
    have ⟨headers, hh, hf⟩ := Option.bind_eq_some_iff.mp hf
    have ⟨ha, hb⟩ := Option.ite_none_right_eq_some.mp hf
    exact ⟨url, headers, Except.toOption_eq_some.mp hu, Except.toOption_eq_some.mp hh, not_isError ha,
      Option.some.inj hb⟩

theorem source_of_requestUrl (hu : requestUrl (.ofItem H r y) = .ok url) :
    O.source y.effectiveKind y.sourceUri = O.content url := by
  unfold requestUrl at hu
  split at hu
  case h_1 hk =>
    have hk : y.effectiveKind = .httpFetch := hk
    have hu : sourceUriToUrl y.sourceUri = .ok url := hu
    simp [Origin.source, hk, hu, Except.toOption]
  case h_2 hk =>
    have hk : y.effectiveKind = .objectStoreFetch := hk
    have hu : objectStoreSourceUriToUrl y.sourceUri = .ok url := hu
    simp [Origin.source, hk, hu, Except.toOption]
  case h_3 => cases hu

theorem requestHeaders_none (hr : y.byteRange = none) : requestHeaders (.ofItem H r y) = .ok y.headers := by
  simp [requestHeaders, DownloadRequest.ofItem, hr]

theorem requestHeaders_some (hr : y.byteRange = some range)
    (hh : requestHeaders (.ofItem H r y) = .ok headers) : headers = y.headers ++ [rangeHeader range] := by
  simp only [requestHeaders, DownloadRequest.ofItem, hr] at hh
  split at hh
  case isTrue => cases hh
  case isFalse => exact (Except.ok.inj hh).symm

theorem requested_of_fetched (hv : validatePlanItem H config y = .ok ()) (hs : Serves O y x)
    (hf : O.fetched (.ofItem H r y) = some b) : O.requested x = some b := by
  rw [← hs.same, Origin.requested]
  by_cases hk : y.effectiveKind = .fileCopy
  case pos =>
    have hf : (sourceUriToLocalPath y.sourceUri).toOption.bind O.file = some b := by
      simpa [Origin.fetched, DownloadRequest.ofItem, hk] using hf
    simp [Origin.source, hk, hs.range hk, restrict, hf]
  case neg =>
    obtain ⟨url, headers, hu, hh, ha, hb⟩ : ∃ url headers, requestUrl (.ofItem H r y) = .ok url ∧
        requestHeaders (.ofItem H r y) = .ok headers ∧
        ¬(O.answer url headers).isError ∧ (O.answer url headers).body = b := fetched_answer hk hf
    have hsrc : O.source y.effectiveKind y.sourceUri = O.content url := source_of_requestUrl hu
    rw [hsrc]
    cases hr : y.byteRange
    case none =>
      cases (requestHeaders_none hr).symm.trans hh
      rw [O.whole hs.headers ha, hb]
      rfl
    case some range =>
      cases requestHeaders_some hr hh
      rw [O.part hs.headers (range_length hv hr) ha, hb]

end Sources

namespace Setting

variable {S : Setting} {ms : Set Materialization} {m : Materialization} {d d' : Disk}

-- The file of an artifact holds what its item asks for and expects.
structure Holds (S : Setting) (d : Disk) (item : PrefetchPlanItem) (artifact : MaterializedArtifact) (b : Bytes) :
    Prop where
  file : d.files artifact.storagePath = some b
  requested : S.origin.requested item = some b
  size : ∀ n, item.expectedSizeBytes = some n → b.length = n
  digest : ∀ h, item.expectedSha256 = some h → S.host.sha256 b = toAsciiLowercase h

-- The artifact of an item says where the request for the key of that item has put the file.
def Reports (requests : List DownloadRequest) (item : PrefetchPlanItem) (artifact : MaterializedArtifact) : Prop :=
  ∃ r ∈ requests, r.cacheKey = item.effectiveCacheKey ∧ ∃ s, artifact = .of item s ∧ s.localPath = r.localPath

-- Each artifact belongs to an item of the plan and is right, if the item does not choose the key.
def Faithful (S : Setting) (m : Materialization) (result : MaterializationResult) (d : Disk) : Prop :=
  ∃ requests, S.requests m = .ok requests ∧
    ∃ pairs : List (PrefetchPlanItem × MaterializedArtifact), (pairs.map (·.1)).Sublist m.plan ∧
      pairs.map (·.2) = result.artifacts ∧
      ∀ p ∈ pairs, Reports requests p.1 p.2 ∧ (p.1.cacheKey = none → ∃ b, S.Holds d p.1 p.2 b)

def Item (ms : Set Materialization) (x : PrefetchPlanItem) : Prop :=
  ∃ m ∈ ms, x ∈ m.plan

-- What is fetched under the key of an item serves that item, keys do not collide, and no item is kept under the
-- name of a file that belongs to another one.
structure Unambiguous (S : Setting) (ms : Set Materialization) : Prop where
  keys : ∀ {x y}, Item ms x → Item ms y → x.cacheKey = none → y.effectiveCacheKey = x.effectiveCacheKey →
    Serves S.origin y x
  digests : ∀ {x y}, Item ms x → Item ms y →
    S.host.sha256 (utf8 x.effectiveCacheKey) = S.host.sha256 (utf8 y.effectiveCacheKey) →
    x.effectiveCacheKey = y.effectiveCacheKey
  names : ∀ {x y}, Item ms x → Item ms y →
    ¬(DownloadRequest.ofItem S.host S.cacheRoot y).Auxiliary (cachePathForItem S.host S.cacheRoot x)

theorem item_of_job (hj : S.job m k = some j) :
    ∃ requests, S.requests m = .ok requests ∧ requests[k]? = some j.request ∧
      ∃ y ∈ m.plan, validatePlanItem S.host m.config y = .ok () ∧
        j.request = { DownloadRequest.ofItem S.host S.cacheRoot y with required := j.request.required } := by
  have ⟨requests, hr, hk⟩ := Option.bind_eq_some_iff.mp hj
  have hr := Except.toOption_eq_some.mp hr
  have ⟨r, hg, he⟩ := Option.map_eq_some_iff.mp hk
  cases he
  exact ⟨requests, hr, hg, (built_of_buildRequests hr).source r (mem_of_getElem? hg)⟩

-- What must be under a path, for the sake of every item whose key is that of an item kept there.
def Right (S : Setting) (ms : Set Materialization) (p : Path) (b : Bytes) : Prop :=
  ∀ x y, Item ms x → Item ms y → cachePathForItem S.host S.cacheRoot y = p → x.cacheKey = none →
    x.effectiveCacheKey = y.effectiveCacheKey → S.origin.requested x = some b

def Unambiguous.regime (h : S.Unambiguous ms) (hm : m ∈ ms) : Regime S Nat where
  job k := S.job m k
  paths := { p | ∃ x, Item ms x ∧ p = cachePathForItem S.host S.cacheRoot x }
  Good := S.Right ms
  fixed := False
  mem_paths hj := by
    have ⟨_, _, _, y, hy, _, he⟩ := item_of_job hj
    exact ⟨y, ⟨m, hm, hy⟩, by rw [Job.path, he]; rfl⟩
  names hj hp := by
    obtain ⟨x, hx, rfl⟩ := hp
    have ⟨_, _, _, y, hy, _, he⟩ := item_of_job hj
    rw [he]
    exact h.names hx ⟨m, hm, hy⟩
  fetched_good {k j b} hj hb _ x y hx hy hp hn hk := by
    have ⟨_, _, _, z, hz, hv, he⟩ := item_of_job hj
    have hz : Item ms z := ⟨m, hm, hz⟩
    have hpath : j.path = cachePathForItem S.host S.cacheRoot z := by rw [Job.path, he]; rfl
    have hkey := effectiveCacheKey_eq (h.digests hy hz) (hp.trans hpath)
    rw [he] at hb
    exact requested_of_fetched (r := S.cacheRoot) hv (h.keys hx hz hn (hkey.symm.trans hk.symm)) hb
  accepted hf := hf.elim
  unique hf := hf.elim
  apart _ {k k' j j'} hne hj hj' hp := by
    have ⟨requests, hr, hk, y, hy, _, he⟩ := item_of_job hj
    have ⟨_, hr', hk', y', hy', _, he'⟩ := item_of_job hj'
    cases hr.symm.trans hr'
    have hpath : cachePathForItem S.host S.cacheRoot y = cachePathForItem S.host S.cacheRoot y' := by
      rw [Job.path, Job.path, he, he'] at hp
      exact hp
    have hkey := effectiveCacheKey_eq (h.digests ⟨m, hm, hy⟩ ⟨m, hm, hy'⟩) hpath
    have hg : (requests.map (·.cacheKey))[k]? = (requests.map (·.cacheKey))[k']? := by
      rw [List.getElem?_map, List.getElem?_map, hk, hk', he, he']
      exact congrArg some hkey
    have hl : k < (requests.map (·.cacheKey)).length := by
      rw [List.length_map]
      exact (List.getElem?_eq_some_iff.mp hk).1
    exact hne ((List.getElem?_inj hl (built_of_buildRequests hr).keys).mp hg)

def Unambiguous.outline (h : S.Unambiguous ms) (hm : m ∈ ms) (d : Disk) : System.Outline (S.tasks m d) where
  inv := (h.regime hm).Sane
  rely := (h.regime hm).Evolves
  guar := (h.regime hm).Does
  post k r c := ∃ j, S.job m k = some j ∧ ∀ s, r = .success s → (h.regime hm).Done j s c
  rely_refl := .refl
  rely_trans _ := .trans

-- What is on the disk is right.
def Kept (S : Setting) (ms : Set Materialization) (d : Disk) : Prop :=
  ∀ x, Item ms x → ∀ b, d.files (cachePathForItem S.host S.cacheRoot x) = some b →
    S.Right ms (cachePathForItem S.host S.cacheRoot x) b

theorem Unambiguous.outline_valid (h : S.Unambiguous ms) (hm : m ∈ ms) (hd : S.Kept ms d) : (h.outline hm d).Valid where
  init := by
    rintro _ rfl
    refine ⟨?_, fun _ _ h => (nomatch h), fun hf => hf.elim⟩
    rintro _ ⟨x, hx, rfl⟩ b hb
    exact hd x hx b hb
  post k r _ _ := by
    rintro ⟨j, hj, hd⟩ hr
    exact ⟨j, hj, fun s hs => (Regime.Local.done (R := h.regime hm) (i := k) hj s).stable (hd s hs) hr⟩
  guar hk _ hg := hg.evolves hk
  start {k p c c'} hs hp := by
    obtain ⟨⟨j, hj, rfl⟩, rfl⟩ := hp
    have hw := Regime.wp_materializeRequest (R := h.regime hm) (i := k) (c := c') hj
    exact ⟨hs, fun k _ => .refl k _, Prog.wp_mono (fun r c hd => ⟨j, hj, hd⟩) _ hw⟩
  stop _ _ hp := hp.elim
  env _ he := he.elim

theorem Unambiguous.kept_of_left (h : S.Unambiguous ms) (hl : S.Left ms d) : S.Kept ms d := by
  induction hl
  case none => exact fun _ _ _ hb => nomatch hb
  case next d d' m _ hm hs hi =>
    cases hs
    case refused => exact hi
    case stopped c hr =>
      have := (h.outline_valid hm hi).inv_of_reachable hr
      exact fun x hx b hb => this.good _ ⟨x, hx, rfl⟩ b hb

section Results

-- The artifacts come in the order of the plan, each from the outcome of its item.
theorem pairs_of_artifacts (h : artifacts outcomes plan = .ok as) :
    ∃ pairs : List (PrefetchPlanItem × MaterializedArtifact), (pairs.map (·.1)).Sublist plan ∧ pairs.map (·.2) = as ∧
      ∀ p ∈ pairs, ∃ s, outcomes p.1.effectiveCacheKey = some (.success s) ∧ p.2 = .of p.1 s := by
  induction plan generalizing as
  case nil =>
    cases h
    exact ⟨[], List.Sublist.slnil, rfl, fun _ h => nomatch h⟩
  case cons x plan hi =>
    unfold artifacts at h
    split at h
    case h_1 => cases h
    case h_2 =>
      have ⟨pairs, hs, ha, hp⟩ := hi h
      exact ⟨pairs, hs.cons x, ha, hp⟩
    case h_3 s ho =>
      have ⟨as', h', he⟩ := Except.map_eq_ok.mp h
      have ⟨pairs, hs, ha, hp⟩ := hi h'
      refine ⟨(x, .of x s) :: pairs, hs.cons_cons x, by rw [map_cons, ha, he], fun p hm => ?_⟩
      cases hm
      case head => exact ⟨s, ho, rfl⟩
      case tail hm => exact hp p hm

variable {result : MaterializationResult}

-- The outcome that is found under a key is that of the request with this key.
theorem done_of_outcome (h : S.Unambiguous ms) (hm : m ∈ ms) (hd : S.Kept ms d) {requests : List DownloadRequest}
    (hq : S.requests m = .ok requests) (hr : (S.tasks m d).Reachable c)
    (ht : ∀ k (h : k < outcomes.length), c.threads k = some (.ret outcomes[k]))
    (ho : ((requests.zip outcomes).find? (·.1.cacheKey = key)).map (·.2) = some (.success s)) :
    ∃ r ∈ requests, r.cacheKey = key ∧ (h.regime hm).Done ⟨m.config, r⟩ s c.state := by
  obtain ⟨⟨r, _⟩, hf, rfl⟩ := Option.map_eq_some_iff.mp ho
  have hk : r.cacheKey = key := by simpa using find?_some hf
  have ⟨k, hl, he⟩ := mem_iff_getElem.mp (mem_of_find?_eq_some hf)
  rw [length_zip] at hl
  rw [getElem_zip, Prod.mk.injEq] at he
  have hv := ((h.outline_valid hm hd).sound hr).verified (ht k (by omega))
  have ⟨j, hj, hdone⟩ := hv
  have hjr : j = ⟨m.config, r⟩ := by
    have hj' : S.job m k = some ⟨m.config, r⟩ := by
      simp [job, hq, Except.toOption, ← he.left, getElem?_eq_getElem (show k < requests.length by omega)]
    exact Option.some.inj (hj.symm.trans hj')
  refine ⟨r, mem_of_find?_eq_some hf |> of_mem_zip |>.left, hk, ?_⟩
  rw [hjr] at hdone
  exact hdone s he.right

-- Requests that do not conflict with an item expect what it expects.
theorem expected_of_not_conflicts {r : DownloadRequest} (h : ¬r.conflicts x) :
    r.expectedSizeBytes = x.expectedSizeBytes ∧
      (x.expectedSha256.isSome → r.expectedSha256 = x.expectedSha256.map toAsciiLowercase) := by
  unfold DownloadRequest.conflicts at h
  split at h
  case isTrue hx | isFalse hx => simp_all

theorem holds_of_accepted {c : Disk}
    (hn : ¬r.conflicts x) (hp : s.localPath = r.localPath) (hb : c.files r.localPath = some b)
    (hx : S.origin.requested x = some b) (ha : Accepted S.host ⟨m.config, r⟩ b) : S.Holds c x (.of x s) b := by
  have ⟨hz, hg⟩ := expected_of_not_conflicts hn
  refine ⟨(congrArg c.files hp).trans hb, hx, fun n he => ?size, fun d he => ?digest⟩
  case size =>
    have := ha.size
    simp only [DownloadRequest.expectsSize, hz, he, Option.all_some, decide_eq_true_eq] at this
    exact this.symm
  case digest =>
    have := ha.digest
    simp only [DownloadRequest.expectsDigest, hg (by rw [he]; rfl), he, Option.map_some, Option.all_some,
      decide_eq_true_eq] at this
    exact this.symm

theorem faithful_of_unambiguous (h : S.Unambiguous ms) (hl : S.Left ms d) (hm : m ∈ ms)
    (hr : S.Materializes m d result d') : S.Faithful m result d' := by
  obtain ⟨requests, outcomes, c, hq, hr, -, ht, hc, rfl⟩ := hr
  have hd := h.kept_of_left hl
  have ⟨as, ha, hres⟩ := Except.bind_eq_ok.mp hc
  cases hres
  have ⟨pairs, hs, hp, hall⟩ := pairs_of_artifacts ha
  refine ⟨requests, hq, pairs, hs, hp, fun p hmem => ?_⟩
  have ⟨s, ho, he⟩ := hall p hmem
  have ⟨r, hrm, hk, hdone⟩ := done_of_outcome h hm hd hq hr ht ho
  refine ⟨⟨r, hrm, hk, s, he, hdone.path⟩, fun hn => ?_⟩
  have hx : p.1 ∈ m.plan := hs.subset (mem_map_of_mem hmem)
  rw [he]
  have hB := built_of_buildRequests hq
  have ⟨r', hrm', hk', hnc⟩ := hB.item p.1 hx
  cases inj_on_of_nodup_map hB.keys hrm' hrm (hk'.trans hk.symm)
  have ⟨y, hy, _, hry⟩ := hB.source r hrm
  have ⟨b, hb, hg, ha, _⟩ := hdone.file
  have hpath : cachePathForItem S.host S.cacheRoot y = r.localPath := by rw [hry]; rfl
  have hkey : p.1.effectiveCacheKey = y.effectiveCacheKey := by rw [← hk, hry]; rfl
  exact ⟨b, holds_of_accepted hnc hdone.path hb (hg p.1 y ⟨m, hm, hx⟩ ⟨m, hm, hy⟩ hpath hn hkey) ha⟩

end Results

theorem materializes_single {d : Disk} (hq : S.requests m = .ok [r])
    (he : (S.work ⟨m.config, r⟩).steps (smooth S.origin uuid 0) n { d with } = some (.ret o, c))
    (hc : collectOutcomes m.plan [(r, o)] = .ok result) :
    S.Materializes m d result c.toDisk ∧ S.Leaves m d c.toDisk := by
  have hj : S.job m 0 = some ⟨m.config, r⟩ := by simp [job, hq, Except.toOption]
  have h₀ : (S.tasks m d).Reachable ⟨{ d with }, fun _ => none⟩ := .init rfl
  have hr := (h₀.step (.start 0 _ rfl ⟨⟨_, hj, rfl⟩, rfl⟩)).steps (smooth_sound _ _ _) (Function.update_self ..) he
  refine ⟨⟨[r], [o], _, hq, hr, rfl, fun k hk => ?_, hc, rfl⟩, .stopped hr⟩
  obtain rfl : k = 0 := Nat.lt_one_iff.mp hk
  simp

-- The second plan meets the file that the first one has left.
theorem faithful_of_unambiguous_copy : ∃ d result d', copySetting.Left (Set.range sharedPlans) d ∧
    copySetting.Materializes laterPlan d result d' ∧ result.stats.cached = 1 ∧
      copySetting.Faithful laterPlan result d' := by
  have hi : ∀ {x}, Item (Set.range sharedPlans) x → ∃ mediaType, x = { copyItem none with mediaType } := by
    rintro x ⟨_, ⟨later, rfl⟩, hx⟩
    cases later <;> exact ⟨_, mem_singleton.mp hx⟩
  have h : copySetting.Unambiguous (Set.range sharedPlans) := by
    refine ⟨fun hx hy _ _ => ?keys, fun hx hy _ => ?digests, fun hx hy => ?names⟩
    all_goals obtain ⟨⟨_, rfl⟩, ⟨_, rfl⟩⟩ := hi hx, hi hy
    case keys => exact ⟨fun _ => rfl, by simp [copyItem], rfl⟩
    case digests => rfl
    case names => exact copyJob_names
  have ⟨s, c, first, s', c', result, he, hc, he', hc', hn⟩ : ∃ s c first s' c' result,
      (copySetting.work (copyJob none)).steps (smooth copySetting.origin someUuid 0) 20 {} =
        some (.ret (.success s), c) ∧
      collectOutcomes (copyPlan none).plan [((copyJob none).request, .success s)] = .ok first ∧
      (copySetting.work ⟨laterPlan.config, (copyJob none).request⟩).steps (smooth copySetting.origin someUuid 0) 20
        { c.toDisk with } = some (.ret (.success s'), c') ∧
      collectOutcomes laterPlan.plan [((copyJob none).request, .success s')] = .ok result ∧
      result.stats.cached = 1 := ⟨_, _, _, _, _, _, rfl, rfl, rfl, rfl, rfl⟩
  have hl : copySetting.Left (Set.range sharedPlans) c.toDisk :=
    .next .none ⟨false, rfl⟩ (materializes_single (m := copyPlan none) (d := {}) rfl he hc).right
  have hm := (materializes_single (m := laterPlan) rfl he' hc').left
  exact ⟨_, result, _, hl, hm, hn, faithful_of_unambiguous h hl ⟨true, rfl⟩ hm⟩

def rangeItem : PrefetchPlanItem :=
  { copyItem none with byteRange := some ⟨0, 1⟩ }

def rangePlan : Materialization :=
  { copyPlan none with plan := [rangeItem] }

-- A file is copied as a whole, whatever range of it was asked for.
theorem not_faithful_range : ∃ result d, copySetting.Left {rangePlan} {} ∧
    copySetting.Materializes rangePlan {} result d ∧ ¬copySetting.Faithful rangePlan result d := by
  have ⟨s, c, result, he, hc, a, ha, hf⟩ : ∃ s c result,
      (copySetting.work ⟨rangePlan.config, .ofItem copySetting.host "/cache" rangeItem⟩).steps
        (smooth copySetting.origin someUuid 0) 20 {} = some (.ret (.success s), c) ∧
      collectOutcomes rangePlan.plan [(.ofItem copySetting.host "/cache" rangeItem, .success s)] = .ok result ∧
      ∃ a, result.artifacts = [a] ∧ c.files a.storagePath = some [1, 2, 3] := ⟨_, _, _, rfl, rfl, _, rfl, rfl⟩
  refine ⟨result, _, .none, (materializes_single (m := rangePlan) (d := {}) rfl he hc).left, ?_⟩
  rintro ⟨_, _, pairs, hs, hp, hall⟩
  rw [ha] at hp
  obtain ⟨⟨x, a'⟩, rfl, rfl⟩ : ∃ p, pairs = [p] ∧ p.2 = a := map_eq_singleton_iff.mp hp
  cases mem_singleton.mp (hs.subset (mem_singleton_self x))
  have ⟨b, hb⟩ := (hall _ (mem_singleton_self _)).right rfl
  cases hf.symm.trans hb.file
  have hn : copySetting.origin.requested rangeItem ≠ some [1, 2, 3] := by decide
  exact hn hb.requested

end Setting

end Prefetch
