import ServeModel.ZarrIo.Files
import ServeModel.ZarrIo.Theorems.RoundTrip

namespace ZarrIo

open List

variable {fl : Floats}

section Components

def innerComponents (rel : String) : List Component :=
  (rel.toList.splitOn '/').filterMap componentOf

theorem splitOn_append_cons (xs ys : List Char) :
    (xs ++ '/' :: ys).splitOn '/' = xs.splitOn '/' ++ ys.splitOn '/' :=
  splitOnP_append_cons xs ys (beq_self_eq_true '/')

theorem components_eq_inner (hr : ∀ cs, path.toList ≠ '/' :: cs)
    (hc : ∀ parts, path.toList.splitOn '/' ≠ ['.'] :: parts) : components path = innerComponents path := by
  simp only [components, innerComponents, nil_append]

-- A path with one name is neither absolute nor does it begin with a dot.
theorem components_eq_normal (h : components name = [.normal dir]) :
    innerComponents name = [.normal dir] ∧ (∀ cs, name.toList ≠ '/' :: cs) ∧
      ∀ parts, name.toList.splitOn '/' ≠ ['.'] :: parts := by
  simp only [components] at h
  split at h
  case h_1 | h_2 => simp at h
  case h_3 hr hc =>
    refine ⟨h, fun cs he => ?_, fun parts he => ?_⟩
    · exact hr cs he
    · exact hc parts he

theorem components_append (h : components name = [.normal dir]) :
    components (name ++ "/" ++ rel) = .normal dir :: innerComponents rel := by
  have ⟨hi, hr, hc⟩ := components_eq_normal h
  have hl : (name ++ "/" ++ rel).toList = name.toList ++ '/' :: rel.toList := by simp
  have hsplit : (name ++ "/" ++ rel).toList.splitOn '/' = name.toList.splitOn '/' ++ rel.toList.splitOn '/' := by
    rw [hl, splitOn_append_cons]
  have hne : name.toList ≠ [] := by
    intro he
    simp [innerComponents, he, componentOf] at hi
  rw [components_eq_inner, innerComponents, hsplit, filterMap_append]
  case hr =>
    intro cs he
    rw [hl] at he
    have ⟨c, cs', hn⟩ := exists_cons_of_ne_nil hne
    rw [hn] at he
    exact hr cs' (hn.trans (by rw [(List.cons.inj he).1]))
  case hc =>
    intro parts he
    rw [hsplit] at he
    have ⟨part, parts', hn⟩ := exists_cons_of_ne_nil (splitOn_ne_nil '/' name.toList)
    rw [hn] at he
    exact hc parts' (hn.trans (by rw [(List.cons.inj he).1]))
  exact congrArg (· ++ innerComponents rel) hi

theorem componentOf_eq_normal (hm : c ∈ part) (hc : c ≠ '.') :
    componentOf part = some (.normal (String.ofList part)) := by
  have h₁ : ¬(part = [] ∨ part = ['.']) := by grind
  have h₂ : part ≠ ['.', '.'] := by grind
  rw [componentOf, if_neg h₁, if_neg h₂]

theorem mem_intercalate (h : c ∈ [sep].intercalate parts) :
    c = sep ∨ ∃ part ∈ parts, c ∈ part := by
  induction parts
  case nil => simp at h
  case cons part parts hi =>
    cases parts
    case nil => exact .inr ⟨part, mem_cons_self, by simpa using h⟩
    case cons part' parts =>
      rw [intercalate_cons_cons, mem_append, mem_append] at h
      grind

theorem exists_digit (n : Nat) : ∃ c ∈ (toString n).toList, c ≠ '.' := by
  have hd : (toString n).toList = Nat.toDigits 10 n := Nat.toList_repr
  have ⟨c, cs, he⟩ := exists_cons_of_ne_nil (hd ▸ Nat.toDigits_ne_nil : (toString n).toList ≠ [])
  have hm : c ∈ (toString n).toList := he ▸ mem_cons_self
  exact ⟨c, hm, fun h => not_mem_toString (by decide) n (h ▸ hm)⟩

theorem innerComponents_slash (hk : key ≠ []) :
    innerComponents (TupleChunkKey.render '/' key) = (key.map toString).map .normal := by
  rw [innerComponents, splitOn_render (by decide) hk, filterMap_map, map_map, ← filterMap_eq_map]
  refine filterMap_congr fun n _ => ?_
  have ⟨c, hm, hc⟩ := exists_digit n
  simp only [Function.comp_apply, componentOf_eq_normal hm hc, String.ofList_toList]

theorem innerComponents_dot (hk : key ≠ []) :
    innerComponents (TupleChunkKey.render '.' key) = [.normal (TupleChunkKey.render '.' key)] := by
  have hl : (TupleChunkKey.render '.' key).toList = ['.'].intercalate (key.map fun n => (toString n).toList) := by
    simp [TupleChunkKey.render, String.toList_intercalate, Function.comp_def]
  have hs : '/' ∉ (TupleChunkKey.render '.' key).toList := by
    intro hm
    rw [hl] at hm
    obtain ⟨part, hp, hm⟩ := (mem_intercalate hm).resolve_left (by decide)
    obtain ⟨n, _, he⟩ := mem_map.mp hp
    exact not_mem_toString (by decide) n (he ▸ hm)
  obtain ⟨n, key', he⟩ := exists_cons_of_ne_nil hk
  obtain ⟨c, hm, hc⟩ := exists_digit n
  have hm : c ∈ (TupleChunkKey.render '.' key).toList := by
    rw [hl, he]
    cases key'
    case nil => simpa using hm
    case cons =>
      exact mem_append_left _ hm
  simp [innerComponents, splitOn_eq_singleton hs, componentOf_eq_normal hm hc]

def Below (rel : String) : Prop :=
  ∃ names, names ≠ [] ∧ innerComponents rel = names.map .normal

theorem below_chunkKeyPath {t : ZarrTargetConfig} (hk : key ≠ []) : Below (t.chunkKeyPath key) := by
  simp only [Below, ZarrTargetConfig.chunkKeyPath]
  split
  case h_1 =>
    cases t.chunkKeySeparator
    case dot => exact ⟨_, cons_ne_nil _ [], innerComponents_dot hk⟩
    case slash => exact ⟨key.map toString, by simpa using hk, innerComponents_slash hk⟩
  case h_2 =>
    refine ⟨"c" :: key.map toString, cons_ne_nil _ _, ?_⟩
    have hi := innerComponents_slash hk
    have hl :
        ("c/" ++ TupleChunkKey.render '/' key).toList = ['c'] ++ '/' :: (TupleChunkKey.render '/' key).toList := by
      simp
    rw [innerComponents, hl, splitOn_append_cons, filterMap_append, ← innerComponents, hi]
    simp [splitOn_eq_singleton, componentOf]

theorem below_metadataPath {t : ZarrTargetConfig} (h : rel ∈ t.metadataPaths.perArrayPaths) :
    Below rel := by
  have hrel : rel = ".zarray" ∨ rel = ".zattrs" ∨ rel = "zarr.json" := by
    simp only [ZarrTargetConfig.metadataPaths] at h
    split at h <;> simp at h <;> grind
  refine ⟨[rel], cons_ne_nil _ _, ?_⟩
  rcases hrel with rfl | rfl | rfl <;> decide

end Components

section Members

variable {cfg : BackendConfig fl} {registration : ArrayRegistration fl}
variable {m m₁ m₂ : Member}
variable {file : List Component} {name : String}

theorem validateSafe_eq_ok (h : validateSafeDatasetComponent name field = .ok ()) :
    ∃ dir, components name = [.normal dir] := by
  simp only [validateSafeDatasetComponent] at h
  split at h
  case h_1 | h_3 => cases h
  case h_2 dir he => exact ⟨dir, he⟩

theorem Registered.nodup_arrayNames (h : Registered registration) : registration.arrayNames.Nodup := by
  have := h.registered
  simp only [register, Except.ite_throw_eq_ok] at this
  exact not_not.mp this.2.2.1

theorem Registered.not_blank (h : Registered registration) (hn : name ∈ registration.arrayNames) :
    ¬Text.isBlank name := by
  have := h.registered
  simp only [register, Except.ite_throw_eq_ok, any_eq_true, not_exists, not_and] at this
  exact this.2.1 name hn

theorem Registered.isDir (h : Registered registration)
    (hn : name ∈ registration.arrayNames ∨ name ∈ registration.coords.keys) :
    ∃ dir, components name = [.normal dir] := by
  have := h.registered
  simp only [register, Except.ite_throw_eq_ok, Except.bind_eq_ok] at this
  have ⟨_, _, _, _, ha, _, hc, _⟩ := this
  cases hn
  case inl hn => exact validateSafe_eq_ok (Except.forM_eq_ok.mp ha name hn)
  case inr hn => exact validateSafe_eq_ok (Except.forM_eq_ok.mp hc name hn)

theorem Planned.mem_arrayNames (h : Planned cfg.planner registration req arrayIds batch) (ht : task ∈ batch.tasks) :
    task.arrayName ∈ registration.arrayNames := by
  have ⟨st, hst, hp⟩ := h.planned
  have ⟨dims, hplan, _⟩ := planBatch_eq_ok hst hp
  have ⟨_, _, hi, _⟩ := h.isTask ht hplan.active
  exact isSome_idxOf?.mp (by rw [hi]; rfl)

theorem Planned.tupleKey_ne_nil (h : Planned cfg.planner registration req arrayIds batch) (ht : task ∈ batch.tasks) :
    task.tupleKey ≠ [] := by
  have ⟨st, hst, hp⟩ := h.planned
  have ⟨dims, hplan, _⟩ := planBatch_eq_ok hst hp
  have ⟨_, k, _, _, _, htask⟩ := h.isTask ht hplan.active
  by_cases hk : registration.coords.keys = []
  case pos =>
    have hd : dims = [] := by
      refine eq_nil_iff_forall_not_mem.mpr fun dim hm => ?_
      have ⟨_, _, _, hg, _⟩ := (hplan.parallel dim hm).found
      have := CoordMap.mem_keys_of_get hg
      rw [hk] at this
      cases this
    simp [htask.flatKey hk hd]
  case neg =>
    rw [htask.tupleKey hk]
    intro he
    have ⟨hi, hf⟩ := append_eq_nil_iff.mp he
    have hd : dims = [] := length_eq_zero_iff.mp (by rw [← length_comboIndices, hi]; rfl)
    exact hk (by simpa [hd] using hf)

-- The root holds its files itself, and everything else is below the directory of a member.
def Member.Holds (m : Member) (file : List Component) : Prop :=
  match m with
  | root => ∃ name, file = [.normal name]
  | array name | coord name => ∃ names, names ≠ [] ∧ file = components name ++ names.map .normal

def Member.IsOf (registration : ArrayRegistration fl) : Member → Prop
  | root => True
  | array name => name ∈ registration.arrayNames
  | coord name => name ∈ registration.coords.keys

theorem holds_below (hd : ∃ dir, components name = [.normal dir]) (hr : Below rel) :
    ∃ names, names ≠ [] ∧ components (name ++ "/" ++ rel) = components name ++ names.map .normal := by
  have ⟨dir, hd⟩ := hd
  have ⟨names, hne, he⟩ := hr
  exact ⟨names, hne, by rw [components_append hd, he, hd, singleton_append]⟩

theorem Writes.isOf (h : Writes cfg registration m writer path) :
    m.IsOf registration := by
  cases h
  case rootMetadata => trivial
  case arrayMetadata hn _ | coordMetadata hn _ | coordChunk hn => exact hn
  case foundMetadata hp ht _ _ | chunk hp ht => exact hp.mem_arrayNames ht

theorem Writes.holds (hr : Registered registration) {writer : FileWriter}
    (h : Writes cfg registration m writer path) : m.Holds (components path) := by
  cases h
  case rootMetadata hrel =>
    have : path = ".zgroup" ∨ path = ".zattrs" ∨ path = ".zmetadata" ∨ path = "zarr.json" := by
      simp only [ZarrTargetConfig.metadataPaths] at hrel
      split at hrel <;> simp at hrel <;> grind
    refine ⟨path, ?_⟩
    rcases this with rfl | rfl | rfl | rfl <;> decide
  case arrayMetadata hn hrel => exact holds_below (hr.isDir (.inl hn)) (below_metadataPath hrel)
  case foundMetadata hp ht _ hrel =>
    exact holds_below (hr.isDir (.inl (hp.mem_arrayNames ht))) (below_metadataPath hrel)
  case coordMetadata hn hrel => exact holds_below (hr.isDir (.inr hn)) (below_metadataPath hrel)
  case coordChunk hn => exact holds_below (hr.isDir (.inr hn)) (below_chunkKeyPath (cons_ne_nil 0 []))
  case chunk hp ht =>
    exact holds_below (hr.isDir (.inl (hp.mem_arrayNames ht))) (below_chunkKeyPath (hp.tupleKey_ne_nil ht))

theorem tempPathFor_eq_some {writer : FileWriter}
    (h : writer.tempPathFor nonce counter file = some temp) : ∃ name, temp = file.dropLast ++ [.normal name] := by
  simp only [FileWriter.tempPathFor] at h
  split at h
  case h_1 =>
    cases h
    exact ⟨_, rfl⟩
  case h_2 => cases h

theorem Member.Holds.temp (h : m.Holds file) : m.Holds (file.dropLast ++ [.normal name]) := by
  have inDir {dir : String} (h : ∃ names, names ≠ [] ∧ file = components dir ++ names.map .normal) :
      ∃ names, names ≠ [] ∧ file.dropLast ++ [.normal name] = components dir ++ names.map .normal := by
    have ⟨names, hne, he⟩ := h
    refine ⟨names.dropLast ++ [name], by simp, ?_⟩
    rw [he, dropLast_append_of_ne_nil (by simpa using hne)]
    simp
  cases m
  case root =>
    have ⟨_, he⟩ := h
    exact ⟨name, by rw [he]; rfl⟩
  case array | coord => exact inDir h

theorem HasFile.isOf (h : HasFile cfg registration m file) : m.IsOf registration := by
  cases h
  case target h | temp h _ => exact h.isOf

theorem HasFile.holds (hr : Registered registration) (h : HasFile cfg registration m file) : m.Holds file := by
  cases h
  case target h => exact h.holds hr
  case temp h ht =>
    have ⟨_, he⟩ := tempPathFor_eq_some ht
    exact he ▸ (h.holds hr).temp

theorem Member.Holds.confined (hr : Registered registration) (hm : m.IsOf registration) (h : m.Holds file) :
    ∃ names, names ≠ [] ∧ file = names.map .normal := by
  have inDir {dir : String} (hd : ∃ d, components dir = [.normal d])
      (h : ∃ names, names ≠ [] ∧ file = components dir ++ names.map .normal) :
      ∃ names, names ≠ [] ∧ file = names.map .normal := by
    have ⟨d, hd⟩ := hd
    have ⟨names, _, he⟩ := h
    exact ⟨d :: names, cons_ne_nil _ _, by rw [he, hd]; rfl⟩
  cases m
  case root =>
    have ⟨name, he⟩ := h
    exact ⟨[name], cons_ne_nil _ _, he⟩
  case array => exact inDir (hr.isDir (.inl hm)) h
  case coord => exact inDir (hr.isDir (.inr hm)) h

def Member.dir : Member → Option (List Component)
  | root => none
  | array name | coord name => some (components name)

-- The member that holds a file is known by its directory.
theorem Member.Holds.dir_eq (hr : Registered registration) (hm₁ : m₁.IsOf registration) (hm₂ : m₂.IsOf registration)
    (h₁ : m₁.Holds file) (h₂ : m₂.Holds file) : m₁.dir = m₂.dir := by
  have inDir {dir₁ dir₂ : String} (hd₁ : ∃ d, components dir₁ = [.normal d]) (hd₂ : ∃ d, components dir₂ = [.normal d])
      (h₁ : ∃ names, names ≠ [] ∧ file = components dir₁ ++ names.map .normal)
      (h₂ : ∃ names, names ≠ [] ∧ file = components dir₂ ++ names.map .normal) :
      some (components dir₁) = some (components dir₂) := by
    have ⟨d₁, hd₁⟩ := hd₁
    have ⟨d₂, hd₂⟩ := hd₂
    have ⟨_, _, he₁⟩ := h₁
    have ⟨_, _, he₂⟩ := h₂
    rw [hd₁] at he₁
    rw [hd₂] at he₂
    rw [hd₁, hd₂, (List.cons.inj (he₁.symm.trans he₂)).1]
  have notRoot {dir : String} (hd : ∃ d, components dir = [.normal d])
      (h : ∃ names, names ≠ [] ∧ file = components dir ++ names.map .normal) : ¬Member.root.Holds file := by
    intro ⟨_, he⟩
    have ⟨d, hd⟩ := hd
    have ⟨names, hne, he'⟩ := h
    rw [he', hd] at he
    exact hne (map_eq_nil_iff.mp (List.cons.inj he).2)
  have isDir {m : Member} {name : String} (hm : m.IsOf registration) (h : m = array name ∨ m = coord name) :
      ∃ d, components name = [.normal d] := by
    rcases h with rfl | rfl
    case inl => exact hr.isDir (.inl hm)
    case inr => exact hr.isDir (.inr hm)
  cases m₁ <;> cases m₂
  case root.root => rfl
  case root.array => exact absurd h₁ (notRoot (isDir hm₂ (.inl rfl)) h₂)
  case root.coord => exact absurd h₁ (notRoot (isDir hm₂ (.inr rfl)) h₂)
  case array.root => exact absurd h₂ (notRoot (isDir hm₁ (.inl rfl)) h₁)
  case coord.root => exact absurd h₂ (notRoot (isDir hm₁ (.inr rfl)) h₁)
  case array.array => exact inDir (isDir hm₁ (.inl rfl)) (isDir hm₂ (.inl rfl)) h₁ h₂
  case array.coord => exact inDir (isDir hm₁ (.inl rfl)) (isDir hm₂ (.inr rfl)) h₁ h₂
  case coord.array => exact inDir (isDir hm₁ (.inr rfl)) (isDir hm₂ (.inl rfl)) h₁ h₂
  case coord.coord => exact inDir (isDir hm₁ (.inr rfl)) (isDir hm₂ (.inr rfl)) h₁ h₂

theorem eq_of_dir_eq (hn : (memberDirs registration).Nodup) (hm₁ : m₁.IsOf registration) (hm₂ : m₂.IsOf registration)
    (h : m₁.dir = m₂.dir) : m₁ = m₂ := by
  rw [memberDirs, map_append, nodup_append] at hn
  have ⟨ha, hc, hne⟩ := hn
  cases m₁ <;> cases m₂ <;> simp only [Member.dir, Option.some.injEq, reduceCtorEq] at h
  case root.root => rfl
  case array.array => exact congrArg _ (inj_on_of_nodup_map ha hm₁ hm₂ h)
  case coord.coord => exact congrArg _ (inj_on_of_nodup_map hc hm₁ hm₂ h)
  case array.coord => exact absurd h (hne _ (mem_map_of_mem hm₁) _ (mem_map_of_mem hm₂))
  case coord.array => exact absurd h.symm (hne _ (mem_map_of_mem hm₂) _ (mem_map_of_mem hm₁))

theorem separate_of_nodup (hr : Registered registration) (hn : (memberDirs registration).Nodup) :
    Separate cfg registration where
  confined _ _ h := (h.holds hr).confined hr h.isOf
  disjoint _ _ _ h₁ h₂ := eq_of_dir_eq hn h₁.isOf h₂.isOf
    ((h₁.holds hr).dir_eq hr h₁.isOf h₂.isOf (h₂.holds hr))

-- A write of one array without coordinates.
def flatWrite (fl : Floats) (name : String) : InferenceWriteRequest fl where
  coords := ⟨[], .nil⟩
  arrayNames := [name]
  arrays := [⟨1, .internalHostBufferPtr 0⟩]

def flatTask (arrayId : Nat) (name : String) : ChunkTask where
  batchId := 1
  arrayName := name
  chunkId := ⟨arrayId, 0⟩
  tupleKey := [0]
  requiredBytes := 1
  input := ⟨1, .internalHostBufferPtr 0⟩

theorem planned_flatWrite (hr : Registered registration) (hk : registration.coords.keys = [])
    (hd : resolveActiveParallelDims cfg.planner.parallelCoordsConfig registration.coords = .ok [])
    (hn : name ∈ registration.arrayNames) : ∃ arrayId, Planned cfg.planner registration (flatWrite fl name) [arrayId]
      ⟨1, [⟨arrayId, 0⟩], [flatTask arrayId name]⟩ := by
  have ⟨arrayId, hi⟩ := Option.isSome_iff_exists.mp (isSome_idxOf?.mpr hn)
  have he : registration.coords.entries = [] := map_eq_nil_iff.mp hk
  refine ⟨arrayId, ?_, ?_, _, .init, ?_⟩
  · have hb := hr.not_blank hn
    simp only [InferenceWriteRequest.validate, flatWrite, any_cons, hb]
    rfl
  · simp only [resolveArrayIds, flatWrite, mapM_cons, mapM_nil, hi]
    rfl
  · have hshape : planShape cfg.planner (flatWrite fl name) [arrayId] registration.coords =
        .ok ⟨[], [], [], [], 1⟩ := by
      simp only [planShape, hd, flatWrite, validateStepCoordsContract, he]
      rfl
    have htemplate : ChunkKeyTemplate.build registration.coords [] = .ok ⟨[], [], [], [], []⟩ := by
      simp only [ChunkKeyTemplate.build, hk]
      rfl
    simp only [planBatch, hshape, getOrBuildChunkKeyTemplate, htemplate]
    rfl

theorem components_below (hd : ∃ dir, components name = [.normal dir]) (rel : String) :
    components (name ++ "/" ++ rel) = components name ++ innerComponents rel := by
  have ⟨dir, hd⟩ := hd
  rw [components_append hd, hd, singleton_append]

-- The metadata comes under the same name in every directory. Without coordinates so does the only chunk.
theorem exists_hasFile (hr : Registered registration) (hw : ¬WritesRefused cfg registration) : ∃ rel,
    (∀ name ∈ registration.arrayNames, HasFile cfg registration (.array name) (components name ++ rel)) ∧
      ∀ name ∈ registration.coords.keys, HasFile cfg registration (.coord name) (components name ++ rel) := by
  by_cases hk : registration.coords.keys = []
  case pos =>
    have ⟨dims, hd⟩ : ∃ dims,
        resolveActiveParallelDims cfg.planner.parallelCoordsConfig registration.coords = .ok dims := by
      simpa [WritesRefused, hk] using hw
    have hnil : dims = [] := by
      refine eq_nil_iff_forall_not_mem.mpr fun dim hm => ?_
      simpa [hk] using ((mem_active_iff hd).mp hm).2
    refine ⟨innerComponents (cfg.target.chunkKeyPath [0]), fun name hn => ?_, fun name hn => ?_⟩
    · have ⟨arrayId, hp⟩ := planned_flatWrite hr hk (hnil ▸ hd) hn
      rw [← components_below (hr.isDir (.inl hn))]
      exact .target (.chunk hp mem_cons_self)
    · rw [hk] at hn
      cases hn
  case neg =>
    have ⟨rel, hrel⟩ : ∃ rel, rel ∈ cfg.target.metadataPaths.perArrayPaths := by
      cases hf : cfg.target.zarrFormat
      all_goals
        simp only [ZarrTargetConfig.metadataPaths, hf]
        exact ⟨_, mem_cons_self⟩
    refine ⟨innerComponents rel, fun name hn => ?_, fun name hn => ?_⟩
    · rw [← components_below (hr.isDir (.inl hn))]
      exact .target (.arrayMetadata hk hn hrel)
    · rw [← components_below (hr.isDir (.inr hn))]
      exact .target (.coordMetadata hn hrel)

theorem nodup_of_separate (hr : Registered registration) (hw : ¬WritesRefused cfg registration)
    (hs : Separate cfg registration) : (memberDirs registration).Nodup := by
  have ⟨rel, ha, hc⟩ := exists_hasFile hr hw
  rw [memberDirs, map_append, nodup_append]
  refine ⟨?_, ?_, ?_⟩
  · refine hr.nodup_arrayNames.map_on fun n₁ h₁ n₂ h₂ he => ?_
    exact Member.array.inj (hs.disjoint _ _ _ (ha n₁ h₁) (he ▸ ha n₂ h₂))
  · refine List.Nodup.map_on (fun n₁ h₁ n₂ h₂ he => ?_) registration.coords.nodup
    exact Member.coord.inj (hs.disjoint _ _ _ (hc n₁ h₁) (he ▸ hc n₂ h₂))
  · intro d₁ h₁ d₂ h₂ he
    have ⟨n₁, h₁, e₁⟩ := mem_map.mp h₁
    have ⟨n₂, h₂, e₂⟩ := mem_map.mp h₂
    have he : components n₁ = components n₂ := e₁.trans (he.trans e₂.symm)
    cases hs.disjoint _ _ _ (ha n₁ h₁) (he ▸ hc n₂ h₂)

-- A dataset whose arrays cannot be written has the files of its root only.
theorem separate_of_refused (hr : Registered registration) (hw : WritesRefused cfg registration) :
    Separate cfg registration := by
  have refused {req : InferenceWriteRequest fl} {arrayIds : List Nat} {batch : PlannedWriteBatch}
      (h : Planned cfg.planner registration req arrayIds batch) : False := by
    have ⟨st, hst, hp⟩ := h.planned
    have ⟨dims, hplan, _⟩ := planBatch_eq_ok hst hp
    exact hw.2 dims hplan.active
  have root {m : Member} {writer : FileWriter} {path : String} (h : Writes cfg registration m writer path) :
      m = .root := by
    cases h
    case rootMetadata => rfl
    case arrayMetadata hk _ _ => exact absurd hw.1 hk
    case foundMetadata hp _ _ _ | chunk hp _ => exact (refused hp).elim
    case coordMetadata hn _ | coordChunk hn => exact absurd hn (by simp [hw.1])
  have root {m : Member} {file : List Component} (h : HasFile cfg registration m file) : m = .root := by
    cases h
    case target h | temp h _ => exact root h
  constructor
  case confined => exact fun _ _ h => (h.holds hr).confined hr h.isOf
  case disjoint => exact fun _ _ _ h₁ h₂ => (root h₁).trans (root h₂).symm

-- The members of a dataset have their files for themselves if no two names stand for one directory.
theorem separate_iff (hr : Registered registration) :
    Separate cfg registration ↔ (memberDirs registration).Nodup ∨ WritesRefused cfg registration := by
  constructor
  case mp =>
    intro hs
    by_cases hw : WritesRefused cfg registration
    case pos => exact .inr hw
    case neg => exact .inl (nodup_of_separate hr hw hs)
  case mpr =>
    intro h
    cases h
    case inl hn => exact separate_of_nodup hr hn
    case inr hw => exact separate_of_refused hr hw

theorem separate_temperature : Registered temperature ∧ Separate splitByTime temperature :=
  ⟨registered_temperature, (separate_iff registered_temperature).mpr (.inl (by decide))⟩

-- An array that is called like a coordinate, and two arrays whose names differ in a slash at the end.
theorem not_separate : (∃ registration : ArrayRegistration noFloats, Registered registration ∧
      registration.arrayNames = ["time"] ∧ ¬Separate splitByTime registration) ∧
    ∃ registration : ArrayRegistration noFloats, Registered registration ∧
      registration.arrayNames = ["t2m", "t2m/"] ∧ ¬Separate splitByTime registration := by
  constructor
  case left =>
    have hr : Registered { temperature with arrayNames := ["time"] } := ⟨rfl, rfl⟩
    exact ⟨_, hr, rfl, fun hs => absurd (nodup_of_separate hr (fun hw => by cases hw.1) hs) (by decide)⟩
  case right =>
    have hr : Registered { temperature with arrayNames := ["t2m", "t2m/"], arrayDtypes := [] } := ⟨rfl, rfl⟩
    exact ⟨_, hr, rfl, fun hs => absurd (nodup_of_separate hr (fun hw => by cases hw.1) hs) (by decide)⟩

end Members

end ZarrIo
