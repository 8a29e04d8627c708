import ServeModel.ZarrIo.Theorems.Metadata

namespace ZarrIo

variable {fl : Floats}

section Files

variable {arrayName path : String}

-- Which task a file comes from does not depend on the memory.
theorem flushedFiles_eq_some (h : flushedFiles t memory tasks arrayName path = some bytes) :
    ∃ task ∈ tasks, task.arrayName = arrayName ∧ t.chunkKeyPath task.tupleKey = path ∧
      ∀ memory, flushedFiles t memory tasks arrayName path = some (task.bytes memory) := by
  have ⟨task, hf, _⟩ := Option.map_eq_some_iff.mp h
  have hp := List.find?_some hf
  simp only [decide_eq_true_eq] at hp
  exact ⟨task, List.mem_reverse.mp (List.mem_of_find?_eq_some hf), hp.1, hp.2, fun _ => by rw [flushedFiles, hf]; rfl⟩

theorem flushedFiles_isSome (h : task ∈ tasks) :
    (flushedFiles t memory tasks task.arrayName (t.chunkKeyPath task.tupleKey)).isSome := by
  rw [flushedFiles, Option.isSome_map, List.find?_isSome]
  exact ⟨task, List.mem_reverse.mpr h, by simp⟩

theorem chunkSizes_nil (h : ∀ task ∈ tasks, task.arrayName ≠ arrayName) : chunkSizes arrayName tasks = [] := by
  induction tasks
  case nil => rfl
  case cons task tasks hi =>
    simp only [List.forall_mem_cons] at h
    rw [chunkSizes, if_neg fun hn => h.1 hn.1, hi h.2]

theorem chunkSizes_single
    (h : ∀ task ∈ tasks, task.arrayName = arrayName → task.tupleKey = key ∧ task.requiredBytes = n)
    (hex : ∃ task ∈ tasks, task.arrayName = arrayName) : chunkSizes arrayName tasks = [(key, n)] := by
  induction tasks
  case nil => simp at hex
  case cons task tasks hi =>
    simp only [List.forall_mem_cons] at h
    by_cases hlater : ∃ task ∈ tasks, task.arrayName = arrayName
    case pos =>
      have ⟨later, hl, hname⟩ := hlater
      rw [chunkSizes, if_neg, hi h.2 hlater]
      exact fun hn => hn.2 later hl hname ((h.2 later hl hname).1.trans (h.1 hn.1).1.symm)
    case neg =>
      simp only [not_exists, not_and] at hlater
      have hname : task.arrayName = arrayName := by
        have ⟨task', ht, hname⟩ := hex
        cases ht
        case head => exact hname
        case tail ht => exact absurd hname (hlater task' ht)
      rw [chunkSizes, if_pos ⟨hname, fun later hl hn => absurd hn (hlater later hl)⟩, chunkSizes_nil hlater]
      simp [h.1 hname]

theorem length_read {input : InputArray} : (input.read memory start n).length = n := by
  simp [InputArray.read]

theorem drop_take_read {input : InputArray} (h : offset + count ≤ n) :
    ((input.read memory start n).drop offset).take count = input.read memory (start + offset) count := by
  apply List.ext_getElem
  case hl =>
    simp only [List.length_take, List.length_drop, length_read]
    omega
  case h =>
    intro i _ _
    simp only [InputArray.read, List.getElem_take, List.getElem_drop, List.getElem_map, List.getElem_range]
    congr 1
    omega

-- The contents of the memory tell two places apart.
theorem read_injective {input : InputArray} {a b n : Nat} (hn : 0 < n)
    (h : ∀ memory, input.read memory a n = input.read memory b n) : a = b := by
  have hm := congrArg List.head? (h fun _ address => if address = input.source.ptr + a then 1 else 0)
  have ⟨n, hn⟩ := Nat.exists_eq_succ_of_ne_zero hn.ne'
  subst hn
  simp only [InputArray.read, List.range_succ_eq_map, List.map_cons, List.head?_cons, Nat.add_zero, if_true,
    Option.some.injEq] at hm
  split at hm
  case isTrue he => omega
  case isFalse => cases hm

theorem elemBytes_pos (dtype : DataType) : 0 < dtype.elemBytes := by
  cases dtype <;> decide

end Files

section Planned

variable {registration : ArrayRegistration fl} {req : InferenceWriteRequest fl} {batch : PlannedWriteBatch}
  {arrayName : String} {input : InputArray} {arrayId : Nat} {dims : List String}

theorem resolveArrayIds_eq_ok (h : resolveArrayIds registration names = .ok ids) :
    List.Forall₂ (fun name id => registration.arrayNames.idxOf? name = some id) names ids := by
  apply (Except.mapM_eq_ok.mp h).imp
  intro name id h
  split at h
  case h_1 hi => cases h; exact hi
  case h_2 => cases h

theorem idxOf_of_mem_zip
    (h : List.Forall₂ (fun name id => registration.arrayNames.idxOf? name = some id) arrayNames ids)
    (ha : (arrayId, arrayName, input) ∈ ids.zip (arrayNames.zip arrays)) :
    registration.arrayNames.idxOf? arrayName = some arrayId := by
  induction h generalizing arrays
  case nil => simp at ha
  case cons name id arrayNames ids hr _ hi =>
    cases arrays
    case nil => simp at ha
    case cons a arrays =>
      simp only [List.zip_cons_cons, List.mem_cons, Prod.mk.injEq] at ha
      cases ha
      case inl ha =>
        have ⟨h₁, h₂, _⟩ := ha
        rw [h₁, h₂]
        exact hr
      case inr ha => exact hi ha

theorem validateRequest_eq_ok (h : req.validate = .ok ()) :
    req.coords.validate = .ok () ∧ req.arrayNames.Nodup ∧ req.arrays.length = req.arrayNames.length := by
  simp only [InferenceWriteRequest.validate, Except.ite_throw_eq_ok, Except.bind_eq_ok] at h
  have ⟨_, hv, _, hl, _, hn, _⟩ := h
  exact ⟨hv, not_not.mp hn, not_not.mp hl⟩

theorem validateRegistration_eq_ok (h : registration.validate = .ok ()) : registration.coords.validate = .ok () := by
  simp only [ArrayRegistration.validate, Except.bind_eq_ok] at h
  have ⟨_, hv, _⟩ := h
  exact hv

theorem Planned.isTask (h : Planned cfg registration req arrayIds batch)
    (ht : task ∈ batch.tasks) (hd : resolveActiveParallelDims cfg.parallelCoordsConfig registration.coords = .ok dims) :
    ∃ array k, registration.arrayNames.idxOf? task.arrayName = some array.1 ∧ k < comboCount req.coords dims ∧
      (array.2.1, array.2.2) ∈ req.arrayNames.zip req.arrays ∧
      IsTask cfg registration.coords req.coords dims array k task := by
  have ⟨st, hst, hp⟩ := h.planned
  have ⟨dims', hplan, hbatch⟩ := planBatch_eq_ok hst hp
  cases hd.symm.trans hplan.active
  have ⟨⟨arrayId, arrayName, input⟩, ha, k, hk, htask⟩ := hbatch.sound task ht
  refine ⟨_, k, ?_, hk, (List.of_mem_zip ha).2, htask⟩
  rw [htask.arrayName]
  exact idxOf_of_mem_zip (resolveArrayIds_eq_ok h.resolved) ha

theorem exists_mem_zip {xs : List α} {ys : List β} {y : β} (hl : xs.length = ys.length) (hy : y ∈ ys) :
    ∃ x, (x, y) ∈ xs.zip ys := by
  have ⟨i, hi, he⟩ := List.mem_iff_getElem.mp hy
  refine ⟨xs[i], List.mem_iff_getElem.mpr ⟨i, by simp [hl, hi], ?_⟩⟩
  simp [he]

end Planned

end ZarrIo
