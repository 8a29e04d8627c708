import ServeModel.ZarrIo.Theorems.Planner

namespace ZarrIo

open List

variable {fl : Floats}

section Names

variable {m : CoordMap fl} {ordered names : List String} {name : String}

theorem containsKey_iff : m.containsKey name ↔ name ∈ m.keys := by
  simp [CoordMap.containsKey]

theorem mem_keptNames : name ∈ keptNames m ordered names ↔ name ∈ ordered ∨ name ∈ names ∧ name ∈ m.keys := by
  induction names generalizing ordered
  case nil => simp [keptNames]
  case cons n names hi =>
    simp only [keptNames, containsKey_iff]
    split
    case isTrue h | isFalse h => grind

theorem nodup_keptNames (h : ordered.Nodup) : (keptNames m ordered names).Nodup := by
  induction names generalizing ordered
  case nil => exact h
  case cons n names hi =>
    simp only [keptNames]
    split
    case isTrue hn => exact hi (nodup_append.mpr ⟨h, by simp, by grind⟩)
    case isFalse => exact hi h

-- Names that occur once are kept in their order.
theorem keptNames_eq (h : (ordered ++ names.filter m.containsKey).Nodup) :
    keptNames m ordered names = ordered ++ names.filter m.containsKey := by
  induction names generalizing ordered
  case nil => simp [keptNames]
  case cons n names hi =>
    simp only [keptNames]
    by_cases hn : m.containsKey n
    case pos =>
      simp only [hn, filter_cons_of_pos] at h ⊢
      have hno : n ∉ ordered := fun ho => (nodup_append.mp h).2.2 n ho n (mem_cons_self ..) rfl
      rw [if_pos ⟨trivial, hno⟩, hi (by simpa using h), append_assoc, singleton_append]
    case neg =>
      simp only [hn, Bool.false_eq_true, not_false_eq_true, filter_cons_of_neg, false_and, if_false] at h ⊢
      exact hi h

-- Of names that are distinct, those that are not there yet are added.
theorem keptNames_filter (hn : names.Nodup) (hk : ∀ n ∈ names, n ∈ m.keys) :
    keptNames m ordered names = ordered ++ names.filter (· ∉ ordered) := by
  induction names generalizing ordered
  case nil => simp [keptNames]
  case cons n names hi =>
    simp only [forall_mem_cons, nodup_cons] at hn hk
    simp only [keptNames, containsKey_iff, hk.1, true_and]
    split
    case isTrue h =>
      have hf : names.filter (· ∉ ordered ++ [n]) = names.filter (· ∉ ordered) := by
        apply filter_congr
        intro x hx
        have : x ≠ n := ne_of_mem_of_not_mem hx hn.1
        simp [this]
      rw [hi hn.2 hk.2, hf, filter_cons_of_pos (by simp [h]), append_assoc, singleton_append]
    case isFalse h => rw [hi hn.2 hk.2, filter_cons_of_neg (by simpa using h)]

theorem orderedDimNames_perm : (orderedDimNames m names).Perm m.keys := by
  apply (perm_ext_iff_of_nodup (nodup_keptNames (nodup_keptNames nodup_nil)) m.nodup).mpr
  intro name
  simp only [mem_keptNames, not_mem_nil, false_or]
  exact ⟨fun h => h.elim (·.2) (·.1), fun h => .inr ⟨h, h⟩⟩

end Names

section Dimensions

variable {cfg : ParallelCoordsConfig fl} {registered : CoordMap fl} {dims : List String} {dim : String}

-- The parallel axes of the planner are the registered ones among the names that the metadata know.
theorem filter_metadataParallelCoordNames (h : resolveActiveParallelDims cfg registered = .ok dims) :
    (metadataParallelCoordNames cfg).filter registered.containsKey = dims := by
  simp only [resolveActiveParallelDims] at h
  simp only [metadataParallelCoordNames]
  cases hp : cfg.parallelCoords
  case none =>
    simp only [hp] at h
    cases h
    rfl
  case some explicit =>
    simp only [hp] at h
    split at h
    case h_1 => cases h
    case h_2 hf =>
      cases h
      exact filter_eq_self.mpr fun d hd => by simpa using find?_eq_none.mp hf d hd

theorem mem_active_iff (h : resolveActiveParallelDims cfg registered = .ok dims) :
    dim ∈ dims ↔ dim ∈ metadataParallelCoordNames cfg ∧ dim ∈ registered.keys := by
  rw [← filter_metadataParallelCoordNames h, mem_filter, containsKey_iff]

-- The metadata list the parallel axes of the planner first, if none of them is configured twice.
theorem orderedDimNames_eq (h : resolveActiveParallelDims cfg registered = .ok dims) (hn : dims.Nodup) :
    orderedDimNames registered (metadataParallelCoordNames cfg) = dims ++ registered.keys.filter (· ∉ dims) := by
  have hf := filter_metadataParallelCoordNames h
  have hkept : keptNames registered [] (metadataParallelCoordNames cfg) = dims := by
    rw [keptNames_eq (by simpa [hf] using hn), hf, nil_append]
  have hkeys : registered.keys.Nodup := registered.nodup
  rw [orderedDimNames, hkept, keptNames_filter hkeys fun _ h => h]

def chunkLen (registered : CoordMap fl) (parallelCoordNames : List String) (dim : String) : Nat :=
  if dim ∈ parallelCoordNames then 1 else registered.axisLen dim

theorem axisShapes_eq (h : ∀ dim ∈ dims, registered.axisLen dim ≠ 0) :
    axisShapes registered names dims =
      .ok (dims.map fun dim => (registered.axisLen dim, chunkLen registered names dim)) := by
  induction dims
  case nil => rfl
  case cons dim dims hi =>
    simp only [forall_mem_cons] at h
    have ⟨axis, ha⟩ : ∃ axis, registered.get dim = some axis := by
      cases ha : registered.get dim
      case none => exact absurd (by simp [CoordMap.axisLen, ha]) h.1
      case some axis => exact ⟨axis, rfl⟩
    simp only [CoordMap.axisLen_of_get ha] at h
    simp only [axisShapes, ha, hi h.2, if_neg h.1, chunkLen, CoordMap.axisLen_of_get ha, map_cons]
    rfl

theorem shapeAndChunks_eq (hne : registered.keys ≠ []) (h : ∀ dim ∈ registered.keys, registered.axisLen dim ≠ 0) :
    shapeAndChunksFromRegistration registered names = .ok {
      dimOrder := orderedDimNames registered names
      shape := (orderedDimNames registered names).map registered.axisLen
      chunks := (orderedDimNames registered names).map (chunkLen registered names) } := by
  have hp : (orderedDimNames registered names).Perm registered.keys := orderedDimNames_perm
  have hne : orderedDimNames registered names ≠ [] := fun hn => hne (hn ▸ hp).symm.eq_nil
  simp only [shapeAndChunksFromRegistration, if_neg hne, axisShapes_eq fun dim hd => h dim (hp.subset hd)]
  simp [Except.bind, Bind.bind, Pure.pure, Except.pure, Function.comp_def]

end Dimensions

theorem not_mem_toString (hs : ¬sep.isDigit) (n : Nat) : sep ∉ (toString n).toList := by
  intro hm
  have : (toString n).toList = Nat.toDigits 10 n := Nat.toList_repr
  rw [this] at hm
  exact hs (Nat.isDigit_of_mem_toDigits (by decide) (by decide) hm)

theorem splitOn_render (hs : ¬sep.isDigit) (hk : key ≠ []) :
    (TupleChunkKey.render sep key).toList.splitOn sep = key.map fun n => (toString n).toList := by
  have hl : (TupleChunkKey.render sep key).toList = [sep].intercalate (key.map fun n => (toString n).toList) := by
    simp [TupleChunkKey.render, String.toList_intercalate, Function.comp_def]
  have hmem : ∀ l ∈ key.map fun n => (toString n).toList, sep ∉ l := by
    simp only [forall_mem_map]
    exact fun n _ => not_mem_toString hs n
  rw [hl, splitOn_intercalate _ hmem (by simpa using hk)]

theorem render_ne_empty (hs : ¬sep.isDigit) (hk : key ≠ []) :
    TupleChunkKey.render sep key ≠ "" := by
  intro h
  have hsplit := splitOn_render hs hk
  rw [h] at hsplit
  cases key
  case nil => exact hk rfl
  case cons n key =>
    have hz : (toString n).toList = Nat.toDigits 10 n := Nat.toList_repr
    simp only [String.toList_empty, splitOn_nil, map_cons, List.cons.injEq, hz] at hsplit
    exact Nat.toDigits_ne_nil hsplit.1.symm

theorem render_injective (hs : ¬sep.isDigit)
    (h : TupleChunkKey.render sep k₁ = TupleChunkKey.render sep k₂) : k₁ = k₂ := by
  by_cases h₁ : k₁ = []
  case pos =>
    by_cases h₂ : k₂ = []
    case pos => rw [h₁, h₂]
    case neg => exact absurd (h ▸ h₁ ▸ rfl) (render_ne_empty hs h₂)
  case neg =>
    by_cases h₂ : k₂ = []
    case pos => exact absurd (h ▸ h₂ ▸ rfl) (render_ne_empty hs h₁)
    case neg =>
      have hm := splitOn_render hs h₁
      rw [h, splitOn_render hs h₂] at hm
      exact (map_injective_iff.mpr fun i j he => Text.repr_inj (String.toList_inj.mp he)) hm.symm

theorem chunkKeyPath_injective {t : ZarrTargetConfig} (h : t.chunkKeyPath k₁ = t.chunkKeyPath k₂) : k₁ = k₂ := by
  simp only [ZarrTargetConfig.chunkKeyPath] at h
  split at h
  case h_1 =>
    apply render_injective _ h
    cases t.chunkKeySeparator <;> decide
  case h_2 =>
    have hs : ¬('/' : Char).isDigit := by decide
    refine render_injective hs (String.toList_inj.mp ?_)
    simpa using congrArg String.toList h

-- The probe finds the separator of the chunk keys.
theorem chunkKeyPath_default {md : ArrayMetadata}
    (h : md.separator = defaultV2DimensionSeparator t) (key : TupleChunkKey) :
    md.chunkKeyPath t.zarrFormat key = t.chunkKeyPath key := by
  have ⟨format, encoding, separator⟩ := t
  cases format
  case v3 => rfl
  case v2 =>
    have hs : defaultV2DimensionSeparator ⟨.v2, encoding, separator⟩ = separator.asChar := by
      have hrender (sep : Char) : (TupleChunkKey.render sep [0, 1]).toList = ['0', sep, '1'] := by
        have h₁ : Nat.toDigits 10 1 = ['1'] := by decide
        simp [TupleChunkKey.render, h₁]
      simp only [defaultV2DimensionSeparator, ne_eq, not_true_eq_false, if_false, ZarrTargetConfig.chunkKeyPath,
        Text.contains, hrender]
      cases separator <;> decide
    simp only [ArrayMetadata.chunkKeyPath, ZarrTargetConfig.chunkKeyPath, h, hs]

section Publication

variable {t : ZarrTargetConfig} {registration : ArrayRegistration fl} {names : List String}

-- The metadata of an array with coordinates, apart from its type.
def coordMetadata (registration : ArrayRegistration fl) (names : List String) (dtype : DTypeDescriptor)
    (separator : Char) : ArrayMetadata where
  dimOrder := orderedDimNames registration.coords names
  shape := (orderedDimNames registration.coords names).map registration.coords.axisLen
  chunks := (orderedDimNames registration.coords names).map (chunkLen registration.coords names)
  dtype
  separator

theorem publishedMetadata_of_coords (hne : registration.coords.keys ≠ [])
    (hlen : ∀ dim ∈ registration.coords.keys, registration.coords.axisLen dim ≠ 0) :
    publishedMetadata root t registration names observed files arrayName =
      (resolveDtype (root ++ "/" ++ arrayName) t registration
        ((orderedDimNames registration.coords names).map (chunkLen registration.coords names)).prod
        observed files arrayName).map fun r => some (coordMetadata registration names r.1 r.2) := by
  have he : registration.coords.entries.isEmpty = false := by
    simpa [CoordMap.keys] using hne
  simp only [publishedMetadata, he, Bool.false_eq_true, if_false, arrayMetadataFromRegistration,
    shapeAndChunks_eq hne hlen, bind, Except.bind]
  generalize resolveDtype (root ++ "/" ++ arrayName) t registration _ observed files arrayName = r
  cases r <;> rfl

-- With a registered type they come from the registration alone.
def registeredMetadata (t : ZarrTargetConfig) (registration : ArrayRegistration fl) (names : List String)
    (dtype : DataType) : ArrayMetadata :=
  coordMetadata registration names (.from dtype) (defaultV2DimensionSeparator t)

theorem publishedMetadata_eq (hne : registration.coords.keys ≠ [])
    (hlen : ∀ dim ∈ registration.coords.keys, registration.coords.axisLen dim ≠ 0)
    (hd : (registration.arrayNames.idxOf? arrayName).bind (registration.arrayDtypes[·]?) = some dtype) :
    publishedMetadata root t registration names observed files arrayName =
      .ok (some (registeredMetadata t registration names dtype)) := by
  simp only [publishedMetadata_of_coords hne hlen, resolveDtype, hd]
  rfl

-- An array without coordinates and with one chunk is a row of bytes.
def flatMetadata (t : ZarrTargetConfig) (size : Nat) : ArrayMetadata where
  dimOrder := []
  shape := [size]
  chunks := [size]
  dtype := conservativeUnknownDtype
  separator := (parseChunkKey t [0]).2

theorem publishedMetadata_flat (he : registration.coords.entries = []) (hs : size ≤ wordMax) :
    publishedMetadata root t registration names observed [([0], size)] arrayName =
      .ok (some (flatMetadata t size)) := by
  have hadd : checkedAdd 0 1 = some 1 := by decide
  have hmul : checkedMul 1 size = some size := by
    rw [checkedMul, if_pos (by simpa using hs), Nat.one_mul]
  have hparse : (parseChunkKey t [0]).1 = some 0 := by
    simp only [parseChunkKey]
    split <;> simp_all
  have hinfer (dir : String) :
      inferChunkDescriptor dir t [([0], size)] = .ok (some ⟨0, size, (parseChunkKey t [0]).2⟩) := by
    simp [inferChunkDescriptor, inferChunkDescriptorFrom, hparse]
  have helems : size / conservativeUnknownDtype.elemBytes = size := Nat.div_one size
  simp only [publishedMetadata, he, isEmpty_nil, if_true, arrayMetadataFromFiles, hinfer, bind, Except.bind,
    hadd, helems, hmul]
  rfl

end Publication

theorem validateEntry_eq_ok (h : CoordMap.validateEntry key values = .ok ()) :
    values.len ≠ 0 := by
  simp only [CoordMap.validateEntry] at h
  split at h
  case isTrue => cases h
  case isFalse =>
    split at h
    case isTrue => cases h
    case isFalse he => simpa [CoordValues.isEmpty] using he

theorem axisLen_ne_zero {m : CoordMap fl} (h : m.validate = .ok ()) : ∀ dim ∈ m.keys, m.axisLen dim ≠ 0 := by
  intro dim hd
  have ⟨values, hv⟩ := CoordMap.exists_get hd
  rw [CoordMap.axisLen_of_get hv]
  exact validateEntry_eq_ok (Except.forM_eq_ok.mp h _ (CoordMap.mem_of_get hv))

end ZarrIo
