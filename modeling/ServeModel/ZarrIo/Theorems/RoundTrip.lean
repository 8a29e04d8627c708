import ServeModel.ZarrIo.Theorems.Dataset

namespace ZarrIo

open RowMajor List Nat CoordMap

variable {fl : Floats}

section Reader

-- Where the reader looks for an element.
theorem readElement_eq :
    let md := registeredMetadata t registration names dtype
    let len := chunkLen registration.coords names
    let start := offsetOf len (fun d => index d % len d) md.dimOrder * dtype.elemBytes
    md.readElement t.zarrFormat files (md.dimOrder.map index) =
      (files (t.chunkKeyPath (md.dimOrder.map fun d => index d / len d))).bind fun bytes =>
        if bytes.length < start + dtype.elemBytes then none
        else some ((bytes.drop start).take dtype.elemBytes) := by
  intro md len start
  have hl : (md.dimOrder.map index).length = md.shape.length := by simp [md, registeredMetadata, coordMetadata]
  have hz (f : Nat → Nat → Nat) : (md.dimOrder.map index).zipWith f md.chunks =
      md.dimOrder.map fun d => f (index d) (len d) := by
    simp [md, registeredMetadata, coordMetadata, len, zipWith_map, zipWith_self]
  have hk := @chunkKeyPath_default t md rfl
  simp only [ArrayMetadata.readElement, hl, ne_eq, not_true_eq_false, if_false, hz, hk]
  rfl

end Reader

section Plan

variable {cfg : PlannerConfig fl} {registered coords : CoordMap fl} {dims : List String} {dim : String}

def planIndex (cfg : PlannerConfig fl) (registered coords : CoordMap fl) (dims : List String) (dim : String)
    (pos : Nat) : Nat :=
  if dim ∈ dims then (stepIndices cfg coords registered dim)[pos]?.getD 0 else pos

namespace PlanSpec

theorem mem_keys (h : PlanSpec cfg registered coords dims) (hd : dim ∈ dims) : dim ∈ registered.keys :=
  ((mem_active_iff h.active).mp hd).2

-- A request gives the registered axes, in any order.
theorem keys_perm (h : PlanSpec cfg registered coords dims) : coords.keys.Perm registered.keys := by
  refine (perm_ext_iff_of_nodup coords.nodup registered.nodup).mpr fun dim => ⟨h.known dim, fun hd => ?_⟩
  by_cases hm : dim ∈ dims
  case pos =>
    have ⟨_, _, hs, _, _⟩ := (h.parallel dim hm).found
    exact mem_keys_of_get hs
  case neg =>
    have ⟨_, _, hs, _, _⟩ := (h.nonparallel dim hd hm).full
    exact mem_keys_of_get hs

theorem dims_perm (h : PlanSpec cfg registered coords dims) (hn : dims.Nodup) :
    (dims ++ registered.keys.filter (· ∉ dims)).Perm registered.keys := by
  have hk : registered.keys.Nodup := registered.nodup
  refine (perm_ext_iff_of_nodup ?_ hk).mpr fun dim => ?_
  · exact nodup_append.mpr ⟨hn, hk.filter _, fun a ha b hb he => by simp [he ▸ ha] at hb⟩
  · simp only [mem_append, mem_filter, decide_eq_true_eq]
    exact ⟨fun hd => hd.elim h.mem_keys (·.1), fun hd => (em (dim ∈ dims)).imp id fun hm => ⟨hd, hm⟩⟩

theorem dimMatches_planIndex (h : PlanSpec cfg registered coords dims) (hd : dim ∈ registered.keys)
    (hp : pos < coords.axisLen dim) :
    DimMatches coords registered dim pos (planIndex cfg registered coords dims dim pos) := by
  simp only [planIndex]
  split
  case isTrue hm =>
    obtain ⟨step, axis, hs, ha, hf⟩ := (h.parallel dim hm).found
    rw [axisLen_of_get hs, CoordValues.len] at hp
    have hi := hf.length_eq ▸ hp
    obtain ⟨w, hw, hv⟩ := hf.get hp hi
    refine ⟨step, axis, hs, ha, _, w, getElem?_eq_getElem hp, ?_, hv⟩
    simpa [getElem?_eq_getElem hi] using hw
  case isFalse hm =>
    obtain ⟨step, axis, hs, ha, hf⟩ := (h.nonparallel dim hd hm).full
    rw [axisLen_of_get hs, CoordValues.len] at hp
    have hi := hf.length_eq ▸ hp
    exact ⟨step, axis, hs, ha, _, _, getElem?_eq_getElem hp, getElem?_eq_getElem hi, hf.get hp hi⟩

end PlanSpec

theorem DimMatches.pos_lt (h : DimMatches coords registered dim pos index) : pos < coords.axisLen dim := by
  have ⟨_, _, hs, _, _, _, hv, _, _⟩ := h
  rw [axisLen_of_get hs, CoordValues.len]
  exact (List.getElem?_eq_some_iff.mp hv).1

theorem DimMatches.index_lt (h : DimMatches coords registered dim pos index) : index < registered.axisLen dim := by
  have ⟨_, _, _, ha, _, _, _, hw, _⟩ := h
  rw [axisLen_of_get ha, CoordValues.len]
  exact (List.getElem?_eq_some_iff.mp hw).1

theorem comboIndices_offsetOf (h : ∀ d ∈ dims, pos d < coords.axisLen d) :
    comboIndices cfg registered coords dims (offsetOf coords.axisLen pos dims) =
      dims.map fun d => planIndex cfg registered coords dims d (pos d) := by
  rw [comboIndices, offsetOf, position_offset (within_map h), indicesAt, zipWith_map, zipWith_self]
  exact map_congr_left fun d hd => by simp [planIndex, hd]

theorem exists_pos (hn : dims.Nodup) (hk : k < comboCount coords dims) :
    ∃ pos : String → Nat, (∀ d ∈ dims, pos d < coords.axisLen d) ∧ k = offsetOf coords.axisLen pos dims := by
  have hlen : ∀ d ∈ dims, 0 < coords.axisLen d := by
    have := ne_zero_of_lt hk
    simp only [comboCount, ne_eq, prod_eq_zero_iff, mem_map, not_exists, not_and] at this
    exact fun d hd => pos_of_ne_zero (this d hd)
  obtain ⟨pos, hp⟩ := exists_map_eq hn (show (position (dims.map coords.axisLen) k).length = dims.length by simp)
  refine ⟨pos, ?_, ?_⟩
  · have hw := within_position (k := k) (forall_mem_map.mpr hlen)
    rw [← hp, Within, List.forall₂_map_left_iff, List.forall₂_map_right_iff, List.forall₂_same] at hw
    exact hw
  · rw [offsetOf, hp, offset_position hk]

end Plan

section Written

variable {cfg : BackendConfig fl} {registration : ArrayRegistration fl} {req : InferenceWriteRequest fl}
  {batch : PlannedWriteBatch} {arrayName : String} {input : InputArray} {dtype : DataType} {arrayId : Nat}
  {dims : List String}

structure Written (cfg : BackendConfig fl) (registration : ArrayRegistration fl) (req : InferenceWriteRequest fl)
    (batch : PlannedWriteBatch) (arrayName : String) (input : InputArray) (dtype : DataType) (arrayId : Nat)
    (dims : List String) : Prop where
  registered : ∀ dim ∈ registration.coords.keys, registration.coords.axisLen dim ≠ 0
  requested : ∀ dim ∈ req.coords.keys, req.coords.axisLen dim ≠ 0
  plan : PlanSpec cfg.planner registration.coords req.coords dims
  id : registration.arrayNames.idxOf? arrayName = some arrayId
  typed : (registration.arrayNames.idxOf? arrayName).bind (registration.arrayDtypes[·]?) = some dtype
  complete : ∀ k < comboCount req.coords dims, ∃ task ∈ batch.tasks,
    IsTask cfg.planner registration.coords req.coords dims (arrayId, arrayName, input) k task
  sound : ∀ task ∈ batch.tasks, task.arrayName = arrayName → ∃ k < comboCount req.coords dims,
    IsTask cfg.planner registration.coords req.coords dims (arrayId, arrayName, input) k task
  chunkIds : batch.chunkIds = batch.tasks.map (·.chunkId)
  sized : input.nbytes = (req.coords.keys.map req.coords.axisLen).prod * dtype.elemBytes

theorem written (hr : Registered registration) (hp : Planned cfg.planner registration req arrayIds batch)
    (hi : HasPayload registration req arrayName input dtype) :
    ∃ arrayId dims, Written cfg registration req batch arrayName input dtype arrayId dims := by
  have ⟨st, hst, hb⟩ := hp.planned
  have ⟨dims, hplan, hbatch⟩ := planBatch_eq_ok hst hb
  have ⟨hv, hn, hl⟩ := validateRequest_eq_ok hp.validated
  have hids := resolveArrayIds_eq_ok hp.resolved
  have hlen : arrayIds.length = (req.arrayNames.zip req.arrays).length := by
    rw [length_zip, hl, min_self, hids.length_eq]
  have ⟨arrayId, ha⟩ := exists_mem_zip hlen hi.given
  have hid := idxOf_of_mem_zip hids ha
  have hzip : ((req.arrayNames.zip req.arrays).map Prod.fst).Nodup := by
    rw [map_fst_zip (by omega)]
    exact hn
  refine ⟨arrayId, dims, ?_⟩
  constructor
  case registered => exact axisLen_ne_zero (validateRegistration_eq_ok hr.validated)
  case requested => exact axisLen_ne_zero hv
  case plan => exact hplan
  case id => exact hid
  case typed => exact hi.typed
  case complete => exact fun k hk => hbatch.complete _ ha k hk
  case chunkIds => exact hbatch.chunkIds
  case sized => exact hi.sized
  case sound =>
    intro task ht hname
    have ⟨⟨id', name', input'⟩, k, hid', hk, hm, htask⟩ := hp.isTask ht hplan.active
    have hname' : name' = arrayName := htask.arrayName.symm.trans hname
    subst hname'
    cases inj_on_of_nodup_map hzip hm hi.given rfl
    rw [hname, hid] at hid'
    cases hid'
    exact ⟨k, hk, htask⟩

theorem Corresponds.update (hc : Corresponds registration req pos index)
    (hm : DimMatches req.coords registration.coords dim p i) :
    Corresponds registration req (Function.update pos dim p) (Function.update index dim i) := by
  intro d hd
  by_cases he : d = dim
  case pos =>
    subst he
    simpa using hm
  case neg => simpa [he] using hc d hd

namespace Written

-- The axes that are not split, and the number of elements of a chunk.
def fullDims (registration : ArrayRegistration fl) (dims : List String) : List String :=
  registration.coords.keys.filter (· ∉ dims)

def chunkElems (registration : ArrayRegistration fl) (dims : List String) : Nat :=
  ((fullDims registration dims).map registration.coords.axisLen).prod

theorem mem_fullDims : dim ∈ fullDims registration dims ↔ dim ∈ registration.coords.keys ∧ dim ∉ dims := by
  simp [fullDims]

theorem offsetOf_lt (hi : ∀ d ∈ registration.coords.keys, index d < registration.coords.axisLen d) :
    offsetOf registration.coords.axisLen index (fullDims registration dims) < chunkElems registration dims :=
  offset_lt (within_map fun d hd => hi d (mem_fullDims.mp hd).1)

theorem index_unique {cfg : PlannerConfig fl}
    (hi : ∀ d ∈ registration.coords.keys, index d < registration.coords.axisLen d)
    (hi' : ∀ d ∈ registration.coords.keys, index' d < registration.coords.axisLen d)
    (hk : comboIndices cfg registration.coords req.coords dims k = dims.map index)
    (hk' : comboIndices cfg registration.coords req.coords dims k' = dims.map index')
    (h : k * chunkElems registration dims + offsetOf registration.coords.axisLen index (fullDims registration dims) =
      k' * chunkElems registration dims + offsetOf registration.coords.axisLen index' (fullDims registration dims)) :
    ∀ d ∈ registration.coords.keys, index d = index' d := by
  have ⟨hkk, ho⟩ := block_unique (offsetOf_lt hi) (offsetOf_lt hi') h
  subst hkk
  have hfull : (fullDims registration dims).map index = (fullDims registration dims).map index' :=
    offset_injective (within_map fun d hd => hi d (mem_fullDims.mp hd).1)
      (within_map fun d hd => hi' d (mem_fullDims.mp hd).1) ho
  have hpar := hk.symm.trans hk'
  intro d hd
  by_cases hm : d ∈ dims
  case pos => exact map_inj_left.mp hpar d hm
  case neg => exact map_inj_left.mp hfull d (mem_fullDims.mpr ⟨hd, hm⟩)

variable (w : Written cfg registration req batch arrayName input dtype arrayId dims)
include w

theorem len_eq (hd : dim ∈ fullDims registration dims) : req.coords.axisLen dim = registration.coords.axisLen dim :=
  have hd := mem_fullDims.mp hd
  (w.plan.nonparallel dim hd.1 hd.2).length

theorem mem_req_keys (hd : dim ∈ registration.coords.keys) : dim ∈ req.coords.keys :=
  w.plan.keys_perm.symm.subset hd

theorem perm (hn : dims.Nodup) : req.coords.keys.Perm (dims ++ fullDims registration dims) :=
  w.plan.keys_perm.trans (w.plan.dims_perm hn).symm

theorem comboCount_pos : 0 < comboCount req.coords dims := by
  apply pos_of_ne_zero
  simp only [comboCount, ne_eq, prod_eq_zero_iff, mem_map, not_exists, not_and]
  exact fun d hd => w.requested d (w.mem_req_keys (w.plan.mem_keys hd))

theorem map_len_fullDims :
    (fullDims registration dims).map req.coords.axisLen =
      (fullDims registration dims).map registration.coords.axisLen :=
  map_congr_left fun _ hd => w.len_eq hd

theorem nbytes_eq (hn : dims.Nodup) :
    input.nbytes = comboCount req.coords dims * (chunkElems registration dims * dtype.elemBytes) := by
  rw [w.sized, ((w.perm hn).map _).prod_eq, map_append, prod_append, w.map_len_fullDims, mul_assoc]
  rfl

theorem requiredBytes_eq (hn : dims.Nodup)
    (h : IsTask cfg.planner registration.coords req.coords dims (arrayId, arrayName, input) k task) :
    task.requiredBytes = chunkElems registration dims * dtype.elemBytes := by
  rw [h.requiredBytes, w.nbytes_eq hn, Nat.mul_div_cancel_left _ w.comboCount_pos]

theorem chunkLen_parallel (hd : dim ∈ dims) :
    chunkLen registration.coords (metadataParallelCoordNames cfg.planner.parallelCoordsConfig) dim = 1 :=
  if_pos ((mem_active_iff w.plan.active).mp hd).1

theorem chunkLen_full (hd : dim ∈ fullDims registration dims) :
    chunkLen registration.coords (metadataParallelCoordNames cfg.planner.parallelCoordsConfig) dim =
      registration.coords.axisLen dim :=
  have hd := mem_fullDims.mp hd
  if_neg fun hm => hd.2 ((mem_active_iff w.plan.active).mpr ⟨hm, hd.1⟩)

theorem dimOrder_eq (hn : dims.Nodup) :
    orderedDimNames registration.coords (metadataParallelCoordNames cfg.planner.parallelCoordsConfig) =
      dims ++ fullDims registration dims :=
  orderedDimNames_eq w.plan.active hn

-- The key of the chunk and the place in it that the reader computes.
theorem key_eq (hi : ∀ d ∈ registration.coords.keys, index d < registration.coords.axisLen d) :
    (dims ++ fullDims registration dims).map
      (fun d => index d / chunkLen registration.coords
        (metadataParallelCoordNames cfg.planner.parallelCoordsConfig) d) =
      dims.map index ++ List.replicate (fullDims registration dims).length 0 := by
  rw [map_append]
  congr 1
  case e_a => exact map_congr_left fun d hd => by rw [w.chunkLen_parallel hd, Nat.div_one]
  case e_a =>
    rw [eq_replicate_iff]
    simp only [length_map, forall_mem_map, true_and]
    intro d hd
    rw [w.chunkLen_full hd]
    exact div_eq_of_lt (hi d (mem_fullDims.mp hd).1)

theorem place_eq (hi : ∀ d ∈ registration.coords.keys, index d < registration.coords.axisLen d) :
    let len := chunkLen registration.coords (metadataParallelCoordNames cfg.planner.parallelCoordsConfig)
    offsetOf len (fun d => index d % len d) (dims ++ fullDims registration dims) =
      offsetOf registration.coords.axisLen index (fullDims registration dims) := by
  intro len
  have hz : offsetOf len (fun d => index d % len d) dims = 0 :=
    offsetOf_zero fun d hd => by simp only [len, w.chunkLen_parallel hd, mod_one]
  rw [offsetOf_append, hz, zero_mul, zero_add, offsetOf, offsetOf]
  congr 1
  case e_a => exact map_congr_left fun d hd => w.chunkLen_full hd
  case e_a =>
    apply map_congr_left
    intro d hd
    simp only [len, w.chunkLen_full hd]
    exact mod_eq_of_lt (hi d (mem_fullDims.mp hd).1)

theorem readElement_of_task (hn : dims.Nodup)
    (hi : ∀ d ∈ registration.coords.keys, index d < registration.coords.axisLen d)
    (ht : IsTask cfg.planner registration.coords req.coords dims (arrayId, arrayName, input) k task)
    (hf : files (cfg.target.chunkKeyPath (dims.map index ++ List.replicate (fullDims registration dims).length 0)) =
      some (task.bytes memory)) :
    let md := registeredMetadata cfg.target registration
      (metadataParallelCoordNames cfg.planner.parallelCoordsConfig) dtype
    md.readElement cfg.target.zarrFormat files (md.dimOrder.map index) = some (input.read memory
      ((k * chunkElems registration dims + offsetOf registration.coords.axisLen index (fullDims registration dims)) *
        dtype.elemBytes) dtype.elemBytes) := by
  intro md
  have hd : md.dimOrder = dims ++ fullDims registration dims := w.dimOrder_eq hn
  have hle : offsetOf registration.coords.axisLen index (fullDims registration dims) * dtype.elemBytes +
      dtype.elemBytes ≤ task.requiredBytes := by
    rw [w.requiredBytes_eq hn ht]
    calc _ = (offsetOf registration.coords.axisLen index (fullDims registration dims) + 1) * dtype.elemBytes := by ring
      _ ≤ _ := mul_le_mul_right _ (offsetOf_lt hi)
  rw [readElement_eq, hd, w.key_eq hi, w.place_eq hi, hf, Option.bind_some, ht.bytes, length_read,
    if_neg (by omega), drop_take_read hle, w.requiredBytes_eq hn ht]
  congr 3
  ring

theorem published_eq (hne : registration.coords.keys ≠ []) :
    publishedMetadata cfg.datasetRoot cfg.target registration
      (metadataParallelCoordNames cfg.planner.parallelCoordsConfig) observed files arrayName =
    .ok (some (registeredMetadata cfg.target registration
      (metadataParallelCoordNames cfg.planner.parallelCoordsConfig) dtype)) :=
  publishedMetadata_eq hne w.registered w.typed

theorem exists_corresponds : ∃ pos index : String → Nat, Corresponds registration req pos index := by
  refine ⟨fun _ => 0, fun dim => planIndex cfg.planner registration.coords req.coords dims dim 0, fun dim hd => ?_⟩
  exact w.plan.dimMatches_planIndex hd (pos_of_ne_zero (w.requested dim (w.mem_req_keys hd)))

-- A round trip finds each element in a chunk file of the batch.
theorem file_of_roundTrips (hrt : RoundTrips cfg registration req batch arrayName input dtype)
    (hne : registration.coords.keys ≠ []) (hc : Corresponds registration req pos index) :
    let md := registeredMetadata cfg.target registration
      (metadataParallelCoordNames cfg.planner.parallelCoordsConfig) dtype
    ∃ k < comboCount req.coords dims, ∃ task,
      IsTask cfg.planner registration.coords req.coords dims (arrayId, arrayName, input) k task ∧
      task.tupleKey = md.dimOrder.map (fun d => index d / chunkLen registration.coords
        (metadataParallelCoordNames cfg.planner.parallelCoordsConfig) d) ∧
      ∀ memory, flushedFiles cfg.target memory batch.tasks arrayName (cfg.target.chunkKeyPath task.tupleKey) =
          some (task.bytes memory) ∧
        ∀ pos, Corresponds registration req pos index → md.readElement cfg.target.zarrFormat
          (flushedFiles cfg.target memory batch.tasks arrayName) (md.dimOrder.map index) = some (input.read memory
            (offsetOf req.coords.axisLen pos req.coords.keys * dtype.elemBytes) dtype.elemBytes) := by
  intro md
  have hread (memory : Memory) : FindsPayload cfg.target registration req memory input dtype md
      (flushedFiles cfg.target memory batch.tasks arrayName) := by
    have ⟨_, he, hf⟩ := hrt memory [] batch.tasks none (some md) (fun _ h => nomatch h) (by simp) (w.published_eq hne)
    cases he
    exact hf
  have hsome := hread (fun _ _ => 0) pos index hc
  rw [readElement_eq, Option.bind_eq_some_iff] at hsome
  have ⟨bytes, hbytes, _⟩ := hsome
  have ⟨task, ht, hname, hpath, hb⟩ := flushedFiles_eq_some hbytes
  have ⟨k, hk, htask⟩ := w.sound task ht hname
  exact ⟨k, hk, task, htask, chunkKeyPath_injective hpath, fun memory =>
    ⟨hpath ▸ hb memory, fun pos hc => hread memory pos index hc⟩⟩

theorem nodup_of_roundTrips (hrt : RoundTrips cfg registration req batch arrayName input dtype)
    (hne : registration.coords.keys ≠ []) : dims.Nodup := by
  have ⟨pos, index, hc⟩ := w.exists_corresponds
  have ⟨k, _, task, htask, hkey, _⟩ := w.file_of_roundTrips hrt hne hc
  -- a key of a task has as many parts as the published array has axes
  have hlen := congrArg List.length ((htask.tupleKey hne).symm.trans hkey)
  have hperm : (orderedDimNames registration.coords
      (metadataParallelCoordNames cfg.planner.parallelCoordsConfig)).Perm registration.coords.keys :=
    orderedDimNames_perm
  simp only [length_append, length_comboIndices, length_replicate, length_map, registeredMetadata,
    coordMetadata, hperm.length_eq] at hlen
  have hsub : registration.coords.keys ⊆ dims ++ registration.coords.keys.filter (· ∉ dims) := fun dim hd => by
    simp [hd, em]
  have hk : registration.coords.keys.Nodup := registration.coords.nodup
  have := (subperm_of_subset hk hsub).perm_of_length_le (by rw [length_append, hlen])
  exact (nodup_append.mp (this.nodup hk)).1

-- An element lies where the request has it.
theorem location_of_roundTrips (hrt : RoundTrips cfg registration req batch arrayName input dtype)
    (hne : registration.coords.keys ≠ []) (hc : Corresponds registration req pos index) :
    ∃ k < comboCount req.coords dims, comboIndices cfg.planner registration.coords req.coords dims k = dims.map index ∧
      ∀ pos, Corresponds registration req pos index →
        k * chunkElems registration dims + offsetOf registration.coords.axisLen index (fullDims registration dims) =
          offsetOf req.coords.axisLen pos req.coords.keys := by
  have hn := w.nodup_of_roundTrips hrt hne
  have hi : ∀ d ∈ registration.coords.keys, index d < registration.coords.axisLen d := fun d hd => (hc d hd).index_lt
  have ⟨k, hk, task, htask, hkey, hread⟩ := w.file_of_roundTrips hrt hne hc
  rw [show (registeredMetadata ..).dimOrder = _ from w.dimOrder_eq hn, w.key_eq hi] at hkey
  refine ⟨k, hk, (append_inj ((htask.tupleKey hne).symm.trans hkey) (by simp [length_comboIndices])).1, ?_⟩
  intro pos hc
  apply eq_of_mul_eq_mul_right (elemBytes_pos dtype)
  apply @read_injective input _ _ _ (elemBytes_pos dtype)
  intro memory
  have ⟨hfile, hr⟩ := hread memory
  exact Option.some.inj ((w.readElement_of_task hn hi htask (hkey ▸ hfile)).symm.trans (hr pos hc))

-- The values of an axis of the request and the registered ones stand for each other one to one.
theorem oneToOne_of_roundTrips (hrt : RoundTrips cfg registration req batch arrayName input dtype)
    (hne : registration.coords.keys ≠ []) (hd : dim ∈ registration.coords.keys)
    (hm : DimMatches req.coords registration.coords dim p i)
    (hm' : DimMatches req.coords registration.coords dim p' i') : p = p' ↔ i = i' := by
  have ⟨pos, index, hc⟩ := w.exists_corresponds
  have hc₁ := hc.update hm
  have hc₂ := hc.update hm'
  have ⟨k₁, _, hk₁, hl₁⟩ := w.location_of_roundTrips hrt hne hc₁
  have ⟨k₂, _, hk₂, hl₂⟩ := w.location_of_roundTrips hrt hne hc₂
  constructor
  case mp =>
    intro he
    subst he
    have := index_unique (fun d hd => (hc₁ d hd).index_lt) (fun d hd => (hc₂ d hd).index_lt) hk₁ hk₂
      ((hl₁ _ hc₁).trans (hl₂ _ hc₂).symm)
    simpa using this dim hd
  case mpr =>
    intro he
    subst he
    have heq := (hl₁ _ hc₁).symm.trans (hl₁ _ hc₂)
    have := offset_injective (within_map fun d hd => (hc₁ d (w.plan.known d hd)).pos_lt)
      (within_map fun d hd => (hc₂ d (w.plan.known d hd)).pos_lt) heq
    simpa using map_inj_left.mp this dim (w.mem_req_keys hd)

section OneToOne

variable (hone : ∀ dim ∈ registration.coords.keys, ∀ p p' i i', DimMatches req.coords registration.coords dim p i →
  DimMatches req.coords registration.coords dim p' i' → (p = p' ↔ i = i'))
include hone

theorem combo_unique (hn : dims.Nodup) (hk : k < comboCount req.coords dims)
    (h : comboIndices cfg.planner registration.coords req.coords dims k = dims.map index)
    (hc : Corresponds registration req pos index) : k = offsetOf req.coords.axisLen pos dims := by
  have ⟨pos', hp, he⟩ := exists_pos hn hk
  rw [he, comboIndices_offsetOf hp, map_inj_left] at h
  rw [he]
  apply offsetOf_congr
  intro d hd
  have hkey := w.plan.mem_keys hd
  exact (hone d hkey _ _ _ _ (w.plan.dimMatches_planIndex hkey (hp d hd)) (hc d hkey)).mpr (h d hd)

theorem comboIndices_eq (hc : Corresponds registration req pos index) :
    comboIndices cfg.planner registration.coords req.coords dims (offsetOf req.coords.axisLen pos dims) =
      dims.map index := by
  have hp : ∀ d ∈ dims, pos d < req.coords.axisLen d := fun d hd => (hc d (w.plan.mem_keys hd)).pos_lt
  rw [comboIndices_offsetOf hp]
  apply map_congr_left
  intro d hd
  have hkey := w.plan.mem_keys hd
  exact (hone d hkey _ _ _ _ (w.plan.dimMatches_planIndex hkey (hp d hd)) (hc d hkey)).mp rfl

theorem index_eq_pos (hc : Corresponds registration req pos index) (hd : dim ∈ fullDims registration dims) :
    index dim = pos dim := by
  have hd := mem_fullDims.mp hd
  have hp := w.plan.dimMatches_planIndex hd.1 (hc dim hd.1).pos_lt
  rw [planIndex, if_neg hd.2] at hp
  exact (hone dim hd.1 _ _ _ _ (hc dim hd.1) hp).mp rfl

-- Parallel axes come first in the files.
theorem location_eq (hc : Corresponds registration req pos index) :
    offsetOf req.coords.axisLen pos dims * chunkElems registration dims +
      offsetOf registration.coords.axisLen index (fullDims registration dims) =
      offsetOf req.coords.axisLen pos (dims ++ fullDims registration dims) := by
  have hfull : offsetOf registration.coords.axisLen index (fullDims registration dims) =
      offsetOf req.coords.axisLen pos (fullDims registration dims) := by
    rw [offsetOf_congr fun d hd => w.index_eq_pos hone hc hd, offsetOf, offsetOf, w.map_len_fullDims]
  rw [hfull, offsetOf_append, w.map_len_fullDims]
  rfl

end OneToOne

theorem nodup_order (hn : dims.Nodup) : (dims ++ fullDims registration dims).Nodup :=
  (w.plan.dims_perm hn).symm.nodup registration.coords.nodup

-- The request and the files have the axes of several values in the same order.
theorem order_of_roundTrips (hrt : RoundTrips cfg registration req batch arrayName input dtype)
    (hne : registration.coords.keys ≠ []) :
    (dims ++ fullDims registration dims).filter (req.coords.axisLen · ≠ 1) =
      req.coords.keys.filter (req.coords.axisLen · ≠ 1) := by
  have hn := w.nodup_of_roundTrips hrt hne
  have hone : ∀ dim ∈ registration.coords.keys, ∀ p p' i i', DimMatches req.coords registration.coords dim p i →
      DimMatches req.coords registration.coords dim p' i' → (p = p' ↔ i = i') :=
    fun _ hd _ _ _ _ hm hm' => w.oneToOne_of_roundTrips hrt hne hd hm hm'
  have hkeys {d : String} (hd : d ∈ dims ++ fullDims registration dims) : d ∈ req.coords.keys :=
    (w.perm hn).symm.subset hd
  have hlen :
      ∀ d ∈ (dims ++ fullDims registration dims).filter (req.coords.axisLen · ≠ 1), 2 ≤ req.coords.axisLen d := by
    intro d hd
    simp only [mem_filter, decide_eq_true_eq] at hd
    have := w.requested d (hkeys hd.1)
    omega
  apply order_unique ((w.nodup_order hn).filter _) ((w.perm hn).symm.filter _) hlen
  intro pos hp
  -- the axes of one value do not matter
  let pos' d := if req.coords.axisLen d = 1 then 0 else pos d
  have hpos : ∀ d ∈ dims ++ fullDims registration dims, pos' d < req.coords.axisLen d := by
    intro d hd
    simp only [pos']
    split
    case isTrue h => omega
    case isFalse h => exact hp d (mem_filter.mpr ⟨hd, by simpa using h⟩)
  have hpos' : ∀ d ∈ req.coords.keys, pos' d < req.coords.axisLen d := fun d hd => hpos d ((w.perm hn).subset hd)
  have hcongr (ds : List String) : offsetOf req.coords.axisLen pos (ds.filter (req.coords.axisLen · ≠ 1)) =
      offsetOf req.coords.axisLen pos' (ds.filter (req.coords.axisLen · ≠ 1)) :=
    offsetOf_congr fun d hd => by simp only [mem_filter, decide_eq_true_eq] at hd; simp [pos', hd.2]
  have hc : Corresponds registration req pos' fun d =>
      planIndex cfg.planner registration.coords req.coords dims d (pos' d) :=
    fun d hd => w.plan.dimMatches_planIndex hd (hpos' d (w.mem_req_keys hd))
  have ⟨k, hk, hcombo, hl⟩ := w.location_of_roundTrips hrt hne hc
  have hloc := hl pos' hc
  rw [w.combo_unique hone hn hk hcombo hc, w.location_eq hone hc] at hloc
  rw [hcongr, hcongr, offsetOf_filter hpos, offsetOf_filter hpos', hloc]

-- An array without coordinates is published as a row of bytes.
theorem nonempty_of_roundTrips (hrt : RoundTrips cfg registration req batch arrayName input dtype) :
    registration.coords.keys ≠ [] := by
  intro hk
  have hd : dims = [] := eq_nil_iff_forall_not_mem.mpr fun d hd => by simpa [hk] using w.plan.mem_keys hd
  subst hd
  have hsize {task : ChunkTask} (ht : task ∈ batch.tasks) (hname : task.arrayName = arrayName) :
      task.tupleKey = [0] ∧ task.requiredBytes = input.nbytes ∧ input.nbytes ≤ wordMax := by
    obtain ⟨k, _, htask⟩ := w.sound task ht hname
    have hr : task.requiredBytes = input.nbytes := by simpa [comboCount] using htask.requiredBytes
    exact ⟨htask.flatKey hk rfl, hr, hr ▸ htask.word⟩
  obtain ⟨task, ht, htask⟩ := w.complete 0 w.comboCount_pos
  have hfiles : chunkSizes arrayName batch.tasks = [([0], input.nbytes)] :=
    chunkSizes_single (fun task ht hname => ⟨(hsize ht hname).1, (hsize ht hname).2.1⟩) ⟨task, ht, htask.arrayName⟩
  have hword := (hsize ht htask.arrayName).2.2
  have hpub : publishedMetadata cfg.datasetRoot cfg.target registration
      (metadataParallelCoordNames cfg.planner.parallelCoordsConfig) none (chunkSizes arrayName batch.tasks) arrayName =
        .ok (some (flatMetadata cfg.target input.nbytes)) :=
    hfiles ▸ publishedMetadata_flat (by simpa [CoordMap.keys] using hk) hword
  obtain ⟨_, he, hf⟩ := hrt (fun _ _ => 0) [] batch.tasks none _ (fun _ h => by cases h) (by simp) hpub
  cases he
  have hread := hf (fun _ => 0) (fun _ => 0) (fun d hd => by simp [hk] at hd)
  simp [ArrayMetadata.readElement, flatMetadata] at hread

theorem roundTrips_of_order (hne : registration.coords.keys ≠ []) (hn : dims.Nodup)
    (horder : (dims ++ fullDims registration dims).filter (req.coords.axisLen · ≠ 1) =
      req.coords.keys.filter (req.coords.axisLen · ≠ 1))
    (hone : ∀ dim ∈ registration.coords.keys, ∀ p p' i i', DimMatches req.coords registration.coords dim p i →
      DimMatches req.coords registration.coords dim p' i' → (p = p' ↔ i = i')) :
    RoundTrips cfg registration req batch arrayName input dtype := by
  intro memory others flushes observed published hb hperm hpub
  rw [w.published_eq hne] at hpub
  cases hpub
  refine ⟨_, rfl, fun pos index hc => ?_⟩
  have hi : ∀ d ∈ registration.coords.keys, index d < registration.coords.axisLen d := fun d hd => (hc d hd).index_lt
  have hp : ∀ d ∈ req.coords.keys, pos d < req.coords.axisLen d := fun d hd => (hc d (w.plan.known d hd)).pos_lt
  have hp' : ∀ d ∈ dims ++ fullDims registration dims, pos d < req.coords.axisLen d :=
    fun d hd => hp d ((w.perm hn).symm.subset hd)
  have hk : offsetOf req.coords.axisLen pos dims < comboCount req.coords dims :=
    offset_lt (within_map fun d hd => hp' d (mem_append_left _ hd))
  have ⟨task, ht, htask⟩ := w.complete _ hk
  have hkey := htask.tupleKey hne
  rw [w.comboIndices_eq hone hc] at hkey
  have hsome := @flushedFiles_isSome _ _ cfg.target memory (hperm.symm.subset (mem_append_left _ ht))
  have ⟨bytes, hbytes⟩ := Option.isSome_iff_exists.mp hsome
  have ⟨task', ht', hname, hpath, hfile⟩ := flushedFiles_eq_some hbytes
  rw [htask.arrayName] at hname hfile
  have hkey' := (chunkKeyPath_injective hpath).trans hkey
  -- the file comes from the batch, since another write would have the same chunk
  have hmem : task' ∈ batch.tasks := by
    cases mem_append.mp (hperm.subset ht')
    case inl h => exact h
    case inr h =>
      have ⟨hnot, req', ids', batch', hplan', hin⟩ := hb task' h
      have ⟨array, k', hid, _, _, htask'⟩ := hplan'.isTask hin w.plan.active
      rw [hname, w.id] at hid
      have hcombo := (append_inj ((htask'.tupleKey hne).symm.trans hkey') (by simp [length_comboIndices])).1
      apply absurd _ hnot
      rw [w.chunkIds, mem_map]
      refine ⟨task, ht, ?_⟩
      rw [htask.chunkId, htask'.chunkId, hcombo, w.comboIndices_eq hone hc, Option.some.inj hid]
  have ⟨k', hk', htask'⟩ := w.sound task' hmem hname
  have hcombo := (append_inj ((htask'.tupleKey hne).symm.trans hkey') (by simp [length_comboIndices])).1
  have hread := w.readElement_of_task hn hi htask' (hkey ▸ hfile memory)
  rw [w.combo_unique hone hn hk' hcombo hc, w.location_eq hone hc, ← offsetOf_filter hp', horder,
    offsetOf_filter hp] at hread
  exact hread

end Written

end Written

section LayoutAgrees

variable {cfg : BackendConfig fl} {registration : ArrayRegistration fl} {req : InferenceWriteRequest fl}

-- The axes as they lie in the files: the parallel ones as configured, then the others as registered.
def storedOrder (cfg : ParallelCoordsConfig fl) (registered : CoordMap fl) : List String :=
  let names := metadataParallelCoordNames cfg
  names.filter registered.containsKey ++ registered.keys.filter (· ∉ names)

structure LayoutAgrees (cfg : BackendConfig fl) (registration : ArrayRegistration fl) (req : InferenceWriteRequest fl) :
    Prop where
  coords : registration.coords.keys ≠ []
  nodup : (storedOrder cfg.planner.parallelCoordsConfig registration.coords).Nodup
  order : (storedOrder cfg.planner.parallelCoordsConfig registration.coords).filter (req.coords.axisLen · ≠ 1) =
    req.coords.keys.filter (req.coords.axisLen · ≠ 1)
  oneToOne : ∀ dim ∈ registration.coords.keys, ∀ p p' i i', DimMatches req.coords registration.coords dim p i →
    DimMatches req.coords registration.coords dim p' i' → (p = p' ↔ i = i')

theorem storedOrder_eq {cfg : ParallelCoordsConfig fl}
    (h : resolveActiveParallelDims cfg registration.coords = .ok dims) :
    storedOrder cfg registration.coords = dims ++ Written.fullDims registration dims := by
  simp only [storedOrder, filter_metadataParallelCoordNames h, Written.fullDims]
  congr 1
  apply filter_congr
  intro dim hd
  simp [mem_active_iff h, hd]

theorem roundTrips_iff {arrayIds : List Nat} {batch : PlannedWriteBatch} {arrayName : String} {input : InputArray}
    {dtype : DataType} (hr : Registered registration) (hp : Planned cfg.planner registration req arrayIds batch)
    (hi : HasPayload registration req arrayName input dtype) :
    RoundTrips cfg registration req batch arrayName input dtype ↔ LayoutAgrees cfg registration req := by
  have ⟨arrayId, dims, w⟩ := written hr hp hi
  have horder := storedOrder_eq w.plan.active
  constructor
  case mp =>
    intro hrt
    have hne := w.nonempty_of_roundTrips hrt
    constructor
    case coords => exact hne
    case nodup => exact horder ▸ w.nodup_order (w.nodup_of_roundTrips hrt hne)
    case order => exact horder ▸ w.order_of_roundTrips hrt hne
    case oneToOne => exact fun _ hd _ _ _ _ hm hm' => w.oneToOne_of_roundTrips hrt hne hd hm hm'
  case mpr =>
    intro h
    have hn := (nodup_append.mp (horder ▸ h.nodup)).1
    exact w.roundTrips_of_order h.coords hn (horder ▸ h.order) h.oneToOne

section Temperature

def timeAndLat : CoordMap noFloats where
  entries := [("time", .i64 [0, 1]), ("lat", .i64 [0, 1])]
  nodup := by decide

def latAndTime : CoordMap noFloats where
  entries := [("lat", .i64 [0, 1]), ("time", .i64 [0, 1])]
  nodup := by decide

def temperature : ArrayRegistration noFloats where
  coords := timeAndLat
  arrayNames := ["temperature"]
  arrayDtypes := [.uint8]

def fourBytes : InputArray where
  nbytes := 4
  source := .hostBytes 0 4

def writeOf (coords : CoordMap noFloats) : InferenceWriteRequest noFloats where
  coords
  arrayNames := ["temperature"]
  arrays := [fourBytes]

def splitByTime : BackendConfig noFloats where
  datasetRoot := "dataset"
  planner := { parallelCoordsConfig := ⟨none, ["time"]⟩, preferAffineResolver := true }
  target := ⟨.v2, .v2, .dot⟩

def taskAt (k : Nat) : ChunkTask where
  batchId := 1
  arrayName := "temperature"
  chunkId := ⟨0, k⟩
  tupleKey := [k, 0]
  requiredBytes := 2
  input := ⟨2, .internalHostBufferPtr (k * 2)⟩

-- One chunk for each time.
def twoChunks : PlannedWriteBatch where
  batchId := 1
  chunkIds := [⟨0, 0⟩, ⟨0, 1⟩]
  tasks := [taskAt 0, taskAt 1]

theorem registered_temperature : Registered temperature where
  validated := rfl
  registered := rfl

theorem planned_timeAndLat : Planned splitByTime.planner temperature (writeOf timeAndLat) [0] twoChunks where
  validated := rfl
  resolved := rfl
  planned := ⟨_, .init, rfl⟩

theorem planned_latAndTime : Planned splitByTime.planner temperature (writeOf latAndTime) [0] twoChunks where
  validated := rfl
  resolved := rfl
  planned := ⟨_, .init, rfl⟩

theorem hasPayload_timeAndLat : HasPayload temperature (writeOf timeAndLat) "temperature" fourBytes .uint8 where
  given := mem_cons_self ..
  typed := rfl
  sized := rfl

theorem hasPayload_latAndTime : HasPayload temperature (writeOf latAndTime) "temperature" fourBytes .uint8 where
  given := mem_cons_self ..
  typed := rfl
  sized := rfl

theorem axisMatches_self (hn : values.Nodup) (h : @AxisMatches fl (.i64 values) (.i64 values) p i) : p = i := by
  obtain ⟨v, w, hv, hw, hm⟩ := h
  simp only [CoordValues.toList, getElem?_map, Option.map_eq_some_iff] at hv hw
  obtain ⟨a, ha, hv⟩ := hv
  obtain ⟨b, hb, hw⟩ := hw
  subst hv hw
  have he : a = b := by simpa [CoordValue.matches] using hm
  subst he
  exact (List.getElem?_inj (List.getElem?_eq_some_iff.mp ha).1 hn).mp (ha.trans hb.symm)

theorem layoutAgrees_timeAndLat : LayoutAgrees splitByTime temperature (writeOf timeAndLat) where
  coords := by decide
  nodup := by decide
  order := by decide
  oneToOne := by
    have hself {dim : String} {p i : Nat} (hd : dim ∈ ["time", "lat"])
        (hm : DimMatches timeAndLat timeAndLat dim p i) : p = i := by
      have ⟨_, _, hs, ha, hm⟩ := hm
      cases hs.symm.trans ha
      have hv : ([0, 1] : List Int64).Nodup := by decide
      simp only [mem_cons, not_mem_nil, or_false] at hd
      cases hd
      case inl hd | inr hd => subst hd; cases hs; exact axisMatches_self hv hm
    intro dim hd p p' i i' hm hm'
    rw [hself hd hm, hself hd hm']

theorem roundTrips_timeAndLat :
    RoundTrips splitByTime temperature (writeOf timeAndLat) twoChunks "temperature" fourBytes .uint8 :=
  (roundTrips_iff registered_temperature planned_timeAndLat hasPayload_timeAndLat).mpr layoutAgrees_timeAndLat

-- A request that lists the latitude before the time is accepted, and its elements get mixed up.
theorem not_roundTrips_latAndTime : Registered temperature ∧
    Planned splitByTime.planner temperature (writeOf latAndTime) [0] twoChunks ∧
    HasPayload temperature (writeOf latAndTime) "temperature" fourBytes .uint8 ∧
    ¬RoundTrips splitByTime temperature (writeOf latAndTime) twoChunks "temperature" fourBytes .uint8 := by
  refine ⟨registered_temperature, planned_latAndTime, hasPayload_latAndTime, fun hrt => ?_⟩
  have ⟨_, dims, w⟩ :=
    @written _ splitByTime _ _ _ _ _ _ _ registered_temperature planned_latAndTime hasPayload_latAndTime
  have hd : Except.ok ["time"] = Except.ok dims := w.plan.active
  cases hd
  have := w.order_of_roundTrips hrt (by decide)
  revert this
  decide

end Temperature

end LayoutAgrees

end ZarrIo
