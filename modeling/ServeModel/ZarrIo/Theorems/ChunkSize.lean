import ServeModel.ZarrIo.Theorems.RoundTrip

namespace ZarrIo

open List hiding count

variable {fl : Floats}

-- A write that has been planned for a registration.
structure AcceptedWrite (cfg : PlannerConfig fl) (registration : ArrayRegistration fl) where
  req : InferenceWriteRequest fl
  arrayIds : List Nat
  batch : PlannedWriteBatch
  planned : Planned cfg registration req arrayIds batch

-- The size that the coordinator has recorded is that of a chunk which has been written.
def Observed (arrayName : String) (flushes : List ChunkTask) (observed : Option Nat) : Prop :=
  ∀ size, observed = some size → ∃ task ∈ flushes, task.arrayName = arrayName ∧ task.requiredBytes = size

-- Whichever chunks of some writes have got into files, each file has the size that the metadata declare.
def ExactChunks (cfg : BackendConfig fl) (registration : ArrayRegistration fl)
    (writes : List (AcceptedWrite cfg.planner registration)) : Prop :=
  ∀ arrayName flushes observed md memory path bytes,
    (∀ task ∈ flushes, ∃ w ∈ writes, task ∈ w.batch.tasks) →
    Observed arrayName flushes observed →
    publishedMetadata cfg.datasetRoot cfg.target registration
      (metadataParallelCoordNames cfg.planner.parallelCoordsConfig) observed (chunkSizes arrayName flushes) arrayName =
        .ok (some md) →
    flushedFiles cfg.target memory flushes arrayName path = some bytes →
    bytes.length = md.chunks.prod * md.dtype.elemBytes

-- The sizes of elements that an array can have: that of its type or, without a type, one of those that can be guessed.
def ElemBytes (registration : ArrayRegistration fl) (arrayName : String) (elemBytes : Nat) : Prop :=
  match (registration.arrayNames.idxOf? arrayName).bind (registration.arrayDtypes[·]?) with
  | some dtype => elemBytes = dtype.elemBytes
  | none => elemBytes ∈ [1, 2, 4, 8]

-- The number of elements that a request has to give: one chunk for each combination of its parallel coordinates.
def requestElems (cfg : ParallelCoordsConfig fl) (registered coords : CoordMap fl) : Nat :=
  let names := metadataParallelCoordNames cfg
  ((names.filter registered.containsKey).map coords.axisLen).prod *
    ((registered.keys.filter (· ∉ names)).map registered.axisLen).prod

-- Every payload has the size of its coordinates, with elements of one size for each array.
def SizesMatch (cfg : BackendConfig fl) (registration : ArrayRegistration fl)
    (writes : List (AcceptedWrite cfg.planner registration)) : Prop :=
  registration.coords.keys = [] ∨ ∀ arrayName, ∃ elemBytes, ElemBytes registration arrayName elemBytes ∧
    ∀ w ∈ writes, ∀ input, (arrayName, input) ∈ w.req.arrayNames.zip w.req.arrays →
      input.nbytes = requestElems cfg.planner.parallelCoordsConfig registration.coords w.req.coords * elemBytes

section Inference

theorem inferFrom_eq_ok (h : inferChunkDescriptorFrom dir t maxIndex count seen files = .ok (some desc)) :
    (∀ bytes sep, seen = some (bytes, sep) → bytes = desc.chunkBytes) ∧ ∀ f ∈ files, f.2 = desc.chunkBytes := by
  induction files generalizing maxIndex count seen
  case nil =>
    simp only [inferChunkDescriptorFrom, Except.ok.injEq, Option.map_eq_some_iff] at h
    obtain ⟨_, hs, he⟩ := h
    subst he
    refine ⟨fun _ _ hn => ?_, by simp⟩
    cases hs.symm.trans hn
    rfl
  case cons f files hi =>
    simp only [inferChunkDescriptorFrom] at h
    split at h
    case h_1 =>
      obtain ⟨h₁, h₂⟩ := hi h
      exact ⟨fun _ _ hn => (by cases hn), List.forall_mem_cons.mpr ⟨h₁ _ _ rfl, h₂⟩⟩
    case h_2 bytes sep =>
      split at h
      case isTrue => cases h
      case isFalse =>
        split at h
        case isTrue => cases h
        case isFalse hs =>
          obtain ⟨h₁, h₂⟩ := hi h
          have hb := h₁ _ _ rfl
          refine ⟨fun _ _ he => ?_, List.forall_mem_cons.mpr ⟨?_, h₂⟩⟩
          · cases he; exact hb
          · rw [← hb]; exact (not_ne_iff.mp hs).symm

theorem infer_eq_ok (h : inferChunkDescriptor dir t files = .ok (some desc)) : ∀ f ∈ files, f.2 = desc.chunkBytes :=
  (inferFrom_eq_ok h).2

theorem inferFrom_ne_none :
    inferChunkDescriptorFrom dir t maxIndex count (some seen) files ≠ .ok none := by
  induction files generalizing maxIndex count seen
  case nil => simp [inferChunkDescriptorFrom]
  case cons f files hi =>
    simp only [inferChunkDescriptorFrom]
    split
    case isTrue => simp
    case isFalse =>
      split
      case isTrue => simp
      case isFalse => exact hi

theorem infer_ne_none (h : files ≠ []) : inferChunkDescriptor dir t files ≠ .ok none := by
  cases files
  case nil => exact absurd rfl h
  case cons f files =>
    exact inferFrom_ne_none

-- The type that is guessed has the size that it is guessed from.
theorem dtypeFrom_elemBytes (he : e ∈ [1, 2, 4, 8]) (hn : elems ≠ 0) :
    (dtypeFromChunkBytesAndElements (elems * e) elems).elemBytes = e := by
  have hd : elems * e / elems = e := Nat.mul_div_cancel_left _ (Nat.pos_of_ne_zero hn)
  simp only [dtypeFromChunkBytesAndElements, if_neg hn, hd, Nat.mul_comm e, ne_eq, not_true_eq_false, if_false]
  simp only [mem_cons, not_mem_nil, or_false] at he
  rcases he with rfl | rfl | rfl | rfl <;> rfl

theorem dtypeFrom_mem (bytes elems : Nat) : (dtypeFromChunkBytesAndElements bytes elems).elemBytes ∈ [1, 2, 4, 8] := by
  simp only [dtypeFromChunkBytesAndElements]
  split
  case isTrue => decide
  case isFalse =>
    split
    case isTrue => decide
    case isFalse => split <;> decide

end Inference

section Files

theorem length_bytes {task : ChunkTask} : (task.bytes memory).length = task.requiredBytes :=
  length_read

theorem mem_chunkSizes_of_flushed (h : flushedFiles t memory tasks arrayName path = some bytes) :
    ∃ key, (key, bytes.length) ∈ chunkSizes arrayName tasks := by
  induction tasks
  case nil => simp [flushedFiles] at h
  case cons task tasks hi =>
    have hsub : ∀ f ∈ chunkSizes arrayName tasks, f ∈ chunkSizes arrayName (task :: tasks) := by
      intro f hf
      simp only [chunkSizes]
      split
      case isTrue => exact mem_cons_of_mem _ hf
      case isFalse => exact hf
    -- the file comes from a later task if there is one
    cases hr : flushedFiles t memory tasks arrayName path
    case some later =>
      have hl : flushedFiles t memory (task :: tasks) arrayName path = some later := by
        obtain ⟨found, hf, he⟩ := Option.map_eq_some_iff.mp hr
        rw [flushedFiles, reverse_cons, find?_append, hf]
        simpa using he
      cases h.symm.trans hl
      obtain ⟨key, hk⟩ := hi hr
      exact ⟨key, hsub _ hk⟩
    case none =>
      have hnone := Option.map_eq_none_iff.mp hr
      rw [flushedFiles, reverse_cons, find?_append, hnone, Option.none_or, find?_singleton] at h
      split at h
      case isTrue hp =>
        simp only [decide_eq_true_eq] at hp
        cases h
        have hlast : ∀ later ∈ tasks, later.arrayName = arrayName → later.tupleKey ≠ task.tupleKey := by
          intro later hl hname hkey
          exact find?_eq_none.mp hnone later (mem_reverse.mpr hl) (by simp [hname, hkey, hp.2])
        refine ⟨task.tupleKey, ?_⟩
        rw [chunkSizes, if_pos ⟨hp.1, hlast⟩, length_bytes]
        exact mem_cons_self ..
      case isFalse => cases h

theorem mem_chunkSizes (h : (key, size) ∈ chunkSizes arrayName tasks) :
    ∃ task ∈ tasks, task.arrayName = arrayName ∧ task.requiredBytes = size := by
  induction tasks
  case nil => simp [chunkSizes] at h
  case cons task tasks hi =>
    simp only [chunkSizes] at h
    split at h
    case isTrue hn =>
      cases h
      case head => exact ⟨task, mem_cons_self .., hn.1, rfl⟩
      case tail h =>
        obtain ⟨task', ht, he⟩ := hi h
        exact ⟨task', mem_cons_of_mem _ ht, he⟩
    case isFalse =>
      obtain ⟨task', ht, he⟩ := hi h
      exact ⟨task', mem_cons_of_mem _ ht, he⟩

end Files

section Chunks

variable {cfg : BackendConfig fl} {registration : ArrayRegistration fl} {arrayName : String}

theorem prod_chunks : ((orderedDimNames registration.coords names).map
    (chunkLen registration.coords names)).prod =
      ((registration.coords.keys.filter (· ∉ names)).map registration.coords.axisLen).prod := by
  rw [(orderedDimNames_perm.map _).prod_eq]
  induction registration.coords.keys
  case nil => rfl
  case cons dim dims hi =>
    by_cases hd : dim ∈ names
    case pos => simpa [hd, chunkLen] using hi
    case neg => simpa [hd, chunkLen] using congrArg (registration.coords.axisLen dim * ·) hi

def chunkElements (cfg : BackendConfig fl) (registration : ArrayRegistration fl) : Nat :=
  let names := metadataParallelCoordNames cfg.planner.parallelCoordsConfig
  ((orderedDimNames registration.coords names).map (chunkLen registration.coords names)).prod

theorem chunkElements_ne_zero (hr : Registered registration) : chunkElements cfg registration ≠ 0 := by
  have hlen := axisLen_ne_zero (validateRegistration_eq_ok hr.validated)
  simp only [chunkElements, prod_chunks, ne_eq, prod_eq_zero_iff, mem_map, mem_filter, not_exists, not_and]
  exact fun dim hd => hlen dim hd.1

-- The tasks of an array of a write share its payload out evenly.
structure Shares (cfg : BackendConfig fl) (registration : ArrayRegistration fl) (req : InferenceWriteRequest fl)
    (input : InputArray) (task : ChunkTask) (count : Nat) : Prop where
  pos : 0 < count
  bytes : input.nbytes = count * task.requiredBytes
  elems : requestElems cfg.planner.parallelCoordsConfig registration.coords req.coords =
    count * chunkElements cfg registration

theorem Shares.iff (h : Shares cfg registration req input task count) :
    input.nbytes = requestElems cfg.planner.parallelCoordsConfig registration.coords req.coords * e ↔
      task.requiredBytes = chunkElements cfg registration * e := by
  rw [h.bytes, h.elems, Nat.mul_assoc]
  exact Nat.mul_right_inj h.pos.ne'

theorem shares_of_isTask
    (hd : resolveActiveParallelDims cfg.planner.parallelCoordsConfig registration.coords = .ok dims)
    (hdvd : comboCount req.coords dims ∣ array.2.2.nbytes) (hk : k < comboCount req.coords dims)
    (ht : IsTask cfg.planner registration.coords req.coords dims array k task) :
    Shares cfg registration req array.2.2 task (comboCount req.coords dims) where
  pos := by omega
  bytes := by rw [ht.requiredBytes, Nat.mul_div_cancel' hdvd]
  elems := by rw [chunkElements, prod_chunks, requestElems, filter_metadataParallelCoordNames hd, comboCount]

namespace AcceptedWrite

variable (w : AcceptedWrite cfg.planner registration)

theorem shares (ht : task ∈ w.batch.tasks) : ∃ input count,
    (task.arrayName, input) ∈ w.req.arrayNames.zip w.req.arrays ∧ Shares cfg registration w.req input task count := by
  have ⟨st, hst, hp⟩ := w.planned.planned
  have ⟨dims, hplan, hbatch⟩ := planBatch_eq_ok hst hp
  have ⟨array, ha, k, hk, htask⟩ := hbatch.sound task ht
  refine ⟨array.2.2, _, ?_, shares_of_isTask hplan.active (hbatch.dvd _ ha) hk htask⟩
  rw [htask.arrayName]
  exact (of_mem_zip ha).2

theorem exists_task (hi : (arrayName, input) ∈ w.req.arrayNames.zip w.req.arrays) :
    ∃ task ∈ w.batch.tasks, ∃ count, task.arrayName = arrayName ∧ Shares cfg registration w.req input task count := by
  obtain ⟨st, hst, hp⟩ := w.planned.planned
  obtain ⟨dims, hplan, hbatch⟩ := planBatch_eq_ok hst hp
  obtain ⟨hv, _, hl⟩ := validateRequest_eq_ok w.planned.validated
  have hlen : w.arrayIds.length = (w.req.arrayNames.zip w.req.arrays).length := by
    rw [length_zip, hl, Nat.min_self, (resolveArrayIds_eq_ok w.planned.resolved).length_eq]
  obtain ⟨arrayId, ha⟩ := exists_mem_zip hlen hi
  have hpos : 0 < comboCount w.req.coords dims := by
    apply Nat.pos_of_ne_zero
    simp only [comboCount, ne_eq, prod_eq_zero_iff, mem_map, not_exists, not_and]
    exact fun d hd => axisLen_ne_zero hv d (hplan.keys_perm.symm.subset (hplan.mem_keys hd))
  obtain ⟨task, ht, htask⟩ := hbatch.complete _ ha 0 hpos
  exact ⟨task, ht, _, htask.arrayName, shares_of_isTask hplan.active (hbatch.dvd _ ha) hpos htask⟩

end AcceptedWrite

section Publication

theorem exact_of_flat (he : registration.coords.keys = [])
    (hpub : publishedMetadata root t registration names observed (chunkSizes arrayName flushes) arrayName =
      .ok (some md))
    (hf : flushedFiles t memory flushes arrayName path = some bytes) :
    bytes.length = md.chunks.prod * md.dtype.elemBytes := by
  have he : registration.coords.entries.isEmpty := by simpa [CoordMap.keys] using he
  simp only [publishedMetadata, he, if_true, arrayMetadataFromFiles, Except.bind_eq_ok] at hpub
  obtain ⟨desc, hinfer, hpub⟩ := hpub
  split at hpub
  case h_1 => cases hpub
  case h_2 desc =>
    split at hpub
    case h_1 => cases hpub
    case h_2 =>
      split at hpub
      case h_1 => cases hpub
      case h_2 =>
        cases hpub
        obtain ⟨_, hk⟩ := mem_chunkSizes_of_flushed hf
        simpa [conservativeUnknownDtype] using infer_eq_ok hinfer _ hk

theorem resolveDtype_elemBytes (he : ElemBytes registration arrayName e)
    (hn : elems ≠ 0) (hs : ∀ task ∈ flushes, task.arrayName = arrayName → task.requiredBytes = elems * e)
    (ho : Observed arrayName flushes observed) (hf : chunkSizes arrayName flushes ≠ [])
    (h : resolveDtype dir t registration elems observed (chunkSizes arrayName flushes) arrayName = .ok r) :
    r.1.elemBytes = e := by
  simp only [resolveDtype] at h
  simp only [ElemBytes] at he
  split at h
  case h_1 dtype hd =>
    cases h
    rw [hd] at he
    exact he.symm
  case h_2 hd =>
    rw [hd] at he
    split at h
    case h_1 size =>
      cases h
      obtain ⟨task, ht, hname, hsize⟩ := ho size rfl
      rw [← hsize, hs task ht hname]
      exact dtypeFrom_elemBytes he hn
    case h_2 =>
      obtain ⟨desc, hinfer, h⟩ := Except.bind_eq_ok.mp h
      split at h
      case h_1 desc =>
        cases h
        obtain ⟨f, hmem⟩ := exists_mem_of_ne_nil _ hf
        obtain ⟨task, ht, hname, hsize⟩ := @mem_chunkSizes _ _ f.1 f.2 hmem
        rw [← infer_eq_ok hinfer f hmem, ← hsize, hs task ht hname]
        exact dtypeFrom_elemBytes he hn
      case h_2 => exact absurd hinfer (infer_ne_none hf)

-- The type that is published if the size of a chunk has been recorded.
def observedDtype (registration : ArrayRegistration fl) (arrayName : String) (size elems : Nat) : DTypeDescriptor :=
  match (registration.arrayNames.idxOf? arrayName).bind (registration.arrayDtypes[·]?) with
  | some dtype => .from dtype
  | none => dtypeFromChunkBytesAndElements size elems

theorem resolveDtype_observed :
    resolveDtype dir t registration elems (some size) files arrayName =
      .ok (observedDtype registration arrayName size elems, defaultV2DimensionSeparator t) := by
  simp only [resolveDtype, observedDtype]
  cases (registration.arrayNames.idxOf? arrayName).bind (registration.arrayDtypes[·]?) <;> rfl

theorem elemBytes_observed (size elems : Nat) :
    ElemBytes registration arrayName (observedDtype registration arrayName size elems).elemBytes := by
  simp only [ElemBytes, observedDtype]
  split
  case h_1 => rfl
  case h_2 => exact dtypeFrom_mem ..

end Publication

theorem exactChunks_of_sizesMatch {writes : List (AcceptedWrite cfg.planner registration)}
    (hr : Registered registration)
    (h : SizesMatch cfg registration writes) : ExactChunks cfg registration writes := by
  intro arrayName flushes observed md memory path bytes hw ho hpub hf
  by_cases he : registration.coords.keys = []
  case pos => exact exact_of_flat he hpub hf
  case neg =>
    have ⟨e, he', hsize⟩ := h.resolve_left he arrayName
    have hlen := axisLen_ne_zero (validateRegistration_eq_ok hr.validated)
    have hreq : ∀ task ∈ flushes, task.arrayName = arrayName →
        task.requiredBytes = chunkElements cfg registration * e := by
      intro task ht hname
      have ⟨w, hw, ht⟩ := hw task ht
      have ⟨input, count, hi, hs⟩ := w.shares ht
      exact hs.iff.mp (hsize w hw input (hname ▸ hi))
    have ⟨key, hk⟩ := mem_chunkSizes_of_flushed hf
    rw [publishedMetadata_of_coords he hlen] at hpub
    have ⟨r, hres, hmd⟩ := Except.map_eq_ok.mp hpub
    cases hmd
    have helem := resolveDtype_elemBytes he' (chunkElements_ne_zero hr) hreq ho (ne_nil_of_mem hk) hres
    have ⟨task, ht, hname, _, hb⟩ := flushedFiles_eq_some hf
    rw [hb memory] at hf
    cases hf
    simp only [length_bytes, hreq task ht hname, coordMetadata, helem]
    rfl

-- Two chunks of an array, of which the first one has been recorded.
theorem size_of_exactChunks
    (hr : Registered registration) (h : ExactChunks cfg registration writes) (hne : registration.coords.keys ≠ [])
    (h₀ : ∃ w ∈ writes, task₀ ∈ w.batch.tasks) (ht : ∃ w ∈ writes, task ∈ w.batch.tasks)
    (hn₀ : task₀.arrayName = arrayName) (hn : task.arrayName = arrayName) :
    task.requiredBytes = chunkElements cfg registration *
      (observedDtype registration arrayName task₀.requiredBytes (chunkElements cfg registration)).elemBytes := by
  have hlen := axisLen_ne_zero (validateRegistration_eq_ok hr.validated)
  have hfile : flushedFiles cfg.target (fun _ _ => 0) [task₀, task] arrayName (cfg.target.chunkKeyPath task.tupleKey) =
      some (task.bytes fun _ _ => 0) := by
    simp [flushedFiles, hn]
  have hpub := @publishedMetadata_of_coords _ cfg.target registration
    (metadataParallelCoordNames cfg.planner.parallelCoordsConfig) cfg.datasetRoot (some task₀.requiredBytes)
    (chunkSizes arrayName [task₀, task]) arrayName hne hlen
  rw [resolveDtype_observed] at hpub
  have hwrites : ∀ t ∈ [task₀, task], ∃ w ∈ writes, t ∈ w.batch.tasks := by simp [h₀, ht]
  have hobs : Observed arrayName [task₀, task] (some task₀.requiredBytes) := by
    intro size hs
    cases hs
    exact ⟨task₀, mem_cons_self .., hn₀, rfl⟩
  have := h arrayName _ _ _ _ _ _ hwrites hobs hpub hfile
  rw [length_bytes] at this
  exact this

theorem sizesMatch_of_exactChunks (hr : Registered registration)
    (h : ExactChunks cfg registration writes) : SizesMatch cfg registration writes := by
  by_cases hne : registration.coords.keys = []
  case pos => exact .inl hne
  case neg =>
    refine .inr fun arrayName => ?_
    by_cases hex : ∃ w ∈ writes, ∃ input, (arrayName, input) ∈ w.req.arrayNames.zip w.req.arrays
    case pos =>
      have ⟨w₀, hw₀, _, hi₀⟩ := hex
      have ⟨task₀, ht₀, _, hn₀, _⟩ := w₀.exists_task hi₀
      refine ⟨_, elemBytes_observed task₀.requiredBytes (chunkElements cfg registration), fun w hw input hi => ?_⟩
      have ⟨task, ht, _, hn, hs⟩ := w.exists_task hi
      exact hs.iff.mpr (size_of_exactChunks hr h hne ⟨w₀, hw₀, ht₀⟩ ⟨w, hw, ht⟩ hn₀ hn)
    case neg =>
      refine ⟨_, elemBytes_observed 0 0, fun w hw input hi => ?_⟩
      exact absurd ⟨w, hw, input, hi⟩ hex

theorem exactChunks_iff {writes : List (AcceptedWrite cfg.planner registration)} (hr : Registered registration) :
    ExactChunks cfg registration writes ↔ SizesMatch cfg registration writes :=
  ⟨sizesMatch_of_exactChunks hr, exactChunks_of_sizesMatch hr⟩

def wholeWrite : AcceptedWrite splitByTime.planner temperature where
  req := writeOf timeAndLat
  arrayIds := [0]
  batch := twoChunks
  planned := planned_timeAndLat

theorem sizesMatch_wholeWrite : SizesMatch splitByTime temperature [wholeWrite] := by
  refine .inr fun arrayName => ⟨1, ?_, ?_⟩
  · simp only [ElemBytes]
    split
    case h_1 dtype hd =>
      have ⟨i, _, hi⟩ := Option.bind_eq_some_iff.mp hd
      have := mem_of_getElem? hi
      cases mem_singleton.mp this
      rfl
    case h_2 => decide
  · intro w hw input hi
    cases mem_singleton.mp hw
    cases mem_singleton.mp hi
    rfl

theorem exactChunks_wholeWrite : ExactChunks splitByTime temperature [wholeWrite] :=
  (exactChunks_iff registered_temperature).mpr sizesMatch_wholeWrite

def halfWrite : AcceptedWrite splitByTime.planner temperature where
  req := { writeOf timeAndLat with arrays := [⟨2, .hostBytes 0 2⟩] }
  arrayIds := [0]
  batch := { twoChunks with tasks := [
    { taskAt 0 with requiredBytes := 1, input := ⟨1, .internalHostBufferPtr 0⟩ },
    { taskAt 1 with requiredBytes := 1, input := ⟨1, .internalHostBufferPtr 1⟩ }] }
  planned := {
    validated := rfl
    resolved := rfl
    planned := ⟨_, .init, rfl⟩ }

-- The planner accepts it, and its chunks are too short.
theorem not_exactChunks_halfWrite : Registered temperature ∧ ¬ExactChunks splitByTime temperature [halfWrite] := by
  refine ⟨registered_temperature, fun h => ?_⟩
  have ⟨e, he, hs⟩ := (sizesMatch_of_exactChunks registered_temperature h).resolve_left (by decide) "temperature"
  have hi := hs halfWrite (mem_singleton_self _) _ (mem_singleton_self _)
  cases he
  revert hi
  decide

end Chunks

end ZarrIo
