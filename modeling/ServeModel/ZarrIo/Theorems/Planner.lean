import Mathlib.Algebra.BigOperators.Ring.List
import ServeModel.Lib.Checks
import ServeModel.ZarrIo.Dataset

namespace ZarrIo

open List hiding count
open Except (bind_eq_ok pure_eq_ok)

variable {fl : Floats}

theorem checkedMul_eq_some (h : checkedMul a b = some n) : n = a * b := by
  simp only [checkedMul] at h
  split at h
  case isTrue => exact (Option.some.inj h).symm
  case isFalse => cases h

theorem checkedAdd_eq_some (h : checkedAdd a b = some n) : n = a + b ∧ n ≤ wordMax := by
  simp only [checkedAdd] at h
  split at h
  case isTrue hle =>
    cases h
    exact ⟨rfl, hle⟩
  case isFalse => cases h

theorem orOverflow_eq_ok (h : orOverflow x = .ok n) : x = some n := by
  cases x
  case none => cases h
  case some => cases h; rfl

section Matching

theorem finds_findIdx {registered : List β} (h : registered.findIdx? p = some i) :
    ∃ w, registered[i]? = some w ∧ p w := by
  have ⟨hi, hp, _⟩ := findIdx?_eq_some_iff_getElem.mp h
  exact ⟨registered[i], getElem?_eq_getElem hi, hp⟩

theorem finds_hashMapIndex [DecidableEq α] {registered : List α}
    (h : hashMapIndex registered v = some i) : registered[i]? = some v := by
  simp only [hashMapIndex, Option.map_eq_some_iff] at h
  have ⟨⟨w, j⟩, hf, hj⟩ := h
  have hw := find?_some hf
  have hm := mem_reverse.mp (mem_of_find?_eq_some hf)
  simp only [decide_eq_true_eq] at hw hj
  subst hw hj
  exact (mem_zipIdx_iff_getElem?.mp hm)

theorem finds_sortedIndex [DecidableEq α] {registered : List α}
    (h : sortedIndex le registered v = some i) : registered[i]? = some v := by
  simp only [sortedIndex, binarySearch] at h
  split at h
  case isTrue =>
    split at h
    case isTrue hv => cases h; exact hv
    case isFalse => cases h
  case isFalse =>
    have ⟨w, hw, he⟩ := finds_findIdx h
    rw [hw, beq_iff_eq.mp he]

theorem finds_affineIndex (h : affineIndex start step len registered v = some i) : registered[i]? = some v := by
  simp only [affineIndex, Option.bind_eq_bind, Option.bind_eq_some_iff] at h
  have ⟨delta, _, h⟩ := h
  split at h
  case isTrue => cases h
  case isFalse =>
    split at h
    case isTrue => cases h
    case isFalse =>
      split at h
      case isTrue => cases h
      case isFalse =>
        split at h
        case isTrue => cases h
        case isFalse hv => cases h; exact not_ne_iff.mp hv

def StandsFor (registered : CoordValues fl) (v : CoordValue fl) (i : Nat) : Prop :=
  ∃ w, registered.toList[i]? = some w ∧ v.matches w

theorem standsFor_of_mapM {registered : CoordValues fl} {values : List β} {step : List α}
    (hr : registered.toList = values.map out) (h : step.mapM f = some indices)
    (hf : ∀ v i, f v = some i → ∃ w, values[i]? = some w ∧ (inj v).matches (out w)) :
    List.Forall₂ (StandsFor registered) (step.map inj) indices := by
  rw [List.forall₂_map_left_iff]
  apply (Option.mapM_eq_some.mp h).imp
  intro v i hv
  have ⟨w, hw, hm⟩ := hf v i hv
  exact ⟨out w, by rw [hr, getElem?_map, hw]; rfl, hm⟩

theorem exists_of_any (h : o.any p) : ∃ a, o = some a ∧ p a := by
  cases o
  case none => cases h
  case some a => exact ⟨a, rfl, h⟩

theorem i32TryFrom_eq_some : i32TryFrom v = some c ↔ c.toInt = v := by
  rw [i32TryFrom]
  split
  case isTrue hv =>
    rw [Option.some.injEq, ← Int32.toInt_inj, Int32.toInt_ofInt_of_le (by omega) (by omega), eq_comm]
  case isFalse hv =>
    have h₁ := c.le_toInt
    have h₂ := c.toInt_lt
    exact iff_of_false nofun (by omega)

theorem u32TryFrom_eq_some : u32TryFrom v = some c ↔ (c.toNat : Int) = v := by
  rw [u32TryFrom]
  split
  case isTrue hv =>
    rw [Option.some.injEq, ← UInt32.toNat_inj, UInt32.toNat_ofNat_of_lt' (by simp [UInt32.size]; omega)]
    omega
  case isFalse hv =>
    have := c.toNat_lt
    exact iff_of_false nofun (by omega)

theorem finds_hashedOrSorted [DecidableEq α] {le : α → α → Bool}
    (h : hashedOrSortedIndices le resolver step registered = some indices) :
    List.Forall₂ (fun v i => registered[i]? = some v) step indices := by
  simp only [hashedOrSortedIndices] at h
  split at h
  case h_1 => exact (Option.mapM_eq_some.mp h).imp fun _ _ => finds_hashMapIndex
  case h_2 => exact (Option.mapM_eq_some.mp h).imp fun _ _ => finds_sortedIndex

theorem finds_i64 {resolver : AxisResolver} (h : i64Indices resolver step registered = some indices) :
    List.Forall₂ (fun v i => registered[i]? = some v) step indices := by
  simp only [i64Indices] at h
  split at h
  case h_1 =>
    split at h
    case isTrue => cases h
    case isFalse => exact (Option.mapM_eq_some.mp h).imp fun _ _ => finds_affineIndex
  case h_2 => exact finds_hashedOrSorted h

theorem standsFor_of_eq {registered : CoordValues fl} {step values : List α}
    (hr : registered.toList = values.map inj) (hm : ∀ v, (inj v).matches (inj v))
    (h : List.Forall₂ (fun v i => values[i]? = some v) step indices) :
    List.Forall₂ (StandsFor registered) (step.map inj) indices := by
  rw [List.forall₂_map_left_iff]
  apply h.imp
  intro v i hv
  exact ⟨inj v, by rw [hr, getElem?_map, hv]; rfl, hm v⟩

theorem indexOfStepValues_standsFor {resolver : AxisResolver} {step registered : CoordValues fl} {indices : List Nat}
    (h : indexOfStepValuesWithResolver resolver step registered = some indices) :
    List.Forall₂ (StandsFor registered) step.toList indices := by
  cases step <;> cases registered <;> simp only [indexOfStepValuesWithResolver] at h <;> try cases h
  case i64.i64 | datetimeNs.datetimeNs | timedeltaNs.timedeltaNs =>
    exact standsFor_of_eq rfl (by simp [CoordValue.matches]) (finds_i64 h)
  case u64.u64 | utf8.utf8 => exact standsFor_of_eq rfl (by simp [CoordValue.matches]) (finds_hashedOrSorted h)
  -- a coercion that can fail
  case i64.i32 =>
    apply standsFor_of_mapM rfl h
    intro v i hv
    have ⟨c, hc, hi⟩ := Option.bind_eq_some_iff.mp hv
    have ⟨w, hw, he⟩ := finds_findIdx hi
    have := i32TryFrom_eq_some.mp hc
    exact ⟨w, hw, beq_iff_eq.mpr (by rw [beq_iff_eq.mp he]; omega)⟩
  case i64.u32 | u64.u32 =>
    apply standsFor_of_mapM rfl h
    intro v i hv
    have ⟨c, hc, hi⟩ := Option.bind_eq_some_iff.mp hv
    have ⟨w, hw, he⟩ := finds_findIdx hi
    have := u32TryFrom_eq_some.mp hc
    exact ⟨w, hw, beq_iff_eq.mpr (by rw [beq_iff_eq.mp he]; omega)⟩
  case f32.f32 | f32.f64 | f64.f32 | f64.f64 =>
    apply standsFor_of_mapM rfl h
    intro v i hv
    exact finds_findIdx hv
  all_goals
    apply standsFor_of_mapM rfl h
    intro v i hv
    have ⟨w, hw, he⟩ := finds_findIdx hv
    exact ⟨w, hw, beq_iff_eq.mpr (beq_iff_eq.mp he).symm⟩

theorem matchAll_iff :
    matchAll eq xs ys ↔ List.Forall₂ (fun x y => eq x y) xs ys := by
  rw [List.forall₂_iff_zip]
  simp [matchAll, and_comm, all_eq_true]

theorem matchContract_forall₂ {step registered : CoordValues fl} (h : coordValuesMatchContract step registered) :
    List.Forall₂ (fun v w => v.matches w) step.toList registered.toList := by
  cases step <;> cases registered <;> simp only [coordValuesMatchContract] at h <;> try cases h
  case i64.u32 | u64.u32 =>
    simp only [CoordValues.toList, List.forall₂_map_left_iff, List.forall₂_map_right_iff]
    apply (matchAll_iff.mp h).imp
    intro v w hv
    have ⟨c, hc, he⟩ := exists_of_any hv
    have := u32TryFrom_eq_some.mp hc
    exact beq_iff_eq.mpr (by rw [← beq_iff_eq.mp he]; omega)
  case f32.f32 | f32.f64 | f64.f32 | f64.f64 | i64.i32 | i32.i64 | u32.i64 | u32.u64 =>
    simp only [CoordValues.toList, List.forall₂_map_left_iff, List.forall₂_map_right_iff]
    exact matchAll_iff.mp h
  all_goals
    cases beq_iff_eq.mp h
    simp [CoordValues.toList, CoordValue.matches, List.forall₂_same]

end Matching

section Radix

open RowMajor

-- The size of the axes after each of them.
def stridesOf : List Nat → List Nat
  | [] => []
  | _ :: lens => lens.prod :: stridesOf lens

theorem radixStrides_eq_ok (h : radixStrides lens = .ok (strides, running)) :
    strides = stridesOf lens ∧ running = lens.prod := by
  induction lens generalizing strides running
  case nil =>
    cases h
    exact ⟨rfl, rfl⟩
  case cons len lens hi =>
    simp only [radixStrides, bind_eq_ok, pure_eq_ok, Prod.mk.injEq] at h
    obtain ⟨⟨strides', running'⟩, hr, next, hn, hs, he⟩ := h
    obtain ⟨hs', hr'⟩ := hi hr
    subst hs he
    have := checkedMul_eq_some (orOverflow_eq_ok hn)
    exact ⟨by simp only [stridesOf, hs', hr'], by rw [this, hr', prod_cons, Nat.mul_comm]⟩

theorem subsetMixedRadixStrides_eq_ok (h : subsetMixedRadixStrides lens = .ok strides) :
    strides = stridesOf lens := by
  simp only [subsetMixedRadixStrides, bind_eq_ok, pure_eq_ok] at h
  obtain ⟨_, hr, he⟩ := h
  subst he
  exact (radixStrides_eq_ok hr).1

theorem foldlM_checkedMul_eq_ok {lens : List Nat}
    (h : lens.foldlM (fun acc len => orOverflow (checkedMul acc len)) acc = .ok count) : count = acc * lens.prod := by
  induction lens generalizing acc
  case nil =>
    simp only [List.foldlM_nil, pure_eq_ok] at h
    simp [h]
  case cons len lens hi =>
    simp only [List.foldlM_cons, bind_eq_ok] at h
    obtain ⟨acc', ha, hf⟩ := h
    rw [hi hf, checkedMul_eq_some (orOverflow_eq_ok ha), List.prod_cons, Nat.mul_assoc]

theorem totalSubsetCombinations_eq_ok {lens : List Nat} (h : totalSubsetCombinations lens = .ok count) :
    count = lens.prod := by
  simpa using foldlM_checkedMul_eq_ok h

theorem mixedRadixFrom_eq_ok (hl : indices.length = lens.length)
    (h : mixedRadixFrom indices lens = .ok (linear, stride)) :
    linear = offset lens indices ∧ stride = lens.prod := by
  induction lens generalizing indices linear stride
  case nil =>
    cases length_eq_zero_iff.mp hl
    cases h
    exact ⟨rfl, rfl⟩
  case cons len lens hi =>
    cases indices
    case nil => simp at hl
    case cons index indices =>
      simp only [mixedRadixFrom, bind_eq_ok, pure_eq_ok, Prod.mk.injEq] at h
      obtain ⟨⟨linear', stride'⟩, hr, term, ht, sum, hsum, next, hn, hl', hs'⟩ := h
      subst hl' hs'
      obtain ⟨h₁, h₂⟩ := hi (Nat.succ.inj hl) hr
      have h₃ := checkedMul_eq_some (orOverflow_eq_ok ht)
      have h₄ := (checkedAdd_eq_some (orOverflow_eq_ok hsum)).1
      have h₅ := checkedMul_eq_some (orOverflow_eq_ok hn)
      simp only [h₁, h₂] at h₃ h₄ h₅
      exact ⟨by rw [h₄, h₃, offset, Nat.add_comm], by rw [h₅, prod_cons, Nat.mul_comm]⟩

theorem mixedRadixLinearIndex_eq_ok (hl : indices.length = lens.length)
    (h : mixedRadixLinearIndex indices lens = .ok linear) : linear = offset lens indices := by
  simp only [mixedRadixLinearIndex, bind_eq_ok, pure_eq_ok] at h
  obtain ⟨_, hr, he⟩ := h
  subst he
  exact (mixedRadixFrom_eq_ok hl hr).1

-- The indices of the combination with some positions.
def indicesAt (sets : List (List Nat)) (positions : List Nat) : List Nat :=
  sets.zipWith (fun indices pos => indices[pos]?.getD 0) positions

theorem axisIndicesForSubsetCombo_eq :
    axisIndicesForSubsetCombo k sets (stridesOf (sets.map List.length)) =
      indicesAt sets (position (sets.map List.length) k) := by
  induction sets
  case nil => rfl
  case cons indices sets hi =>
    simp only [map_cons, stridesOf, axisIndicesForSubsetCombo, indicesAt, position, zipWith_cons_cons] at hi ⊢
    congr 2
    split
    case isTrue h => rw [h, Nat.mod_one]
    case isFalse => rfl

end Radix

theorem templateAxes_eq_ok
    (h : templateAxes registered active dims = .ok axes) : axes.map (·.1) = dims.map (decide <| · ∈ active) := by
  induction dims generalizing axes
  case nil =>
    cases h
    rfl
  case cons dim dims hi =>
    simp only [templateAxes] at h
    split at h
    case h_1 => cases h
    case h_2 =>
      simp only [bind_eq_ok, pure_eq_ok] at h
      obtain ⟨rest, hr, he⟩ := h
      subst he
      simp [hi hr]

-- The positions in a list of one kind of entry, if these come first.
theorem positions_eq {p : α → Bool} {l₁ l₂ : List α} (h₁ : ∀ a ∈ l₁, p a) (h₂ : ∀ a ∈ l₂, ¬p a) :
    ((l₁ ++ l₂).zipIdx.filter (p ·.1)).map (·.2) = List.range l₁.length := by
  have hf₁ : l₁.zipIdx.filter (p ·.1) = l₁.zipIdx := by
    rw [filter_eq_self]
    intro a ha
    exact h₁ a.1 (fst_mem_of_mem_zipIdx ha)
  have hf₂ : (l₂.zipIdx l₁.length).filter (p ·.1) = [] := by
    rw [filter_eq_nil_iff]
    intro a ha
    exact h₂ a.1 (fst_mem_of_mem_zipIdx ha)
  rw [zipIdx_append, filter_append, hf₁, Nat.zero_add, hf₂, append_nil, zipIdx_map_snd,
    range_eq_range']

theorem foldl_set_range :
    ((List.range' done.length indices.length).zip indices).foldl (fun key (pos, index) => key.set pos index)
      (done ++ List.replicate (indices.length + m) 0) = done ++ indices ++ List.replicate m 0 := by
  induction indices generalizing done
  case nil => simp
  case cons index indices hi =>
    have hd : done.length + 1 = (done ++ [index]).length := by simp
    simp only [length_cons, List.range'_succ, zip_cons_cons, foldl_cons]
    have := @hi (done ++ [index])
    simpa [replicate_succ, Nat.add_right_comm _ 1 m] using this

theorem foldl_set_zero {fixed : List (Nat × Nat)} (h : ∀ f ∈ fixed, done.length ≤ f.1 ∧ f.2 = 0) :
    fixed.foldl (fun key (pos, index) => key.set pos index) (done ++ List.replicate m 0) =
      done ++ List.replicate m 0 := by
  induction fixed
  case nil => rfl
  case cons f fixed hi =>
    simp only [forall_mem_cons] at h
    simp only [foldl_cons]
    rw [h.1.2, set_append_right _ _ h.1.1, set_replicate_self]
    exact hi h.2

-- The axes of a template: the parallel ones come first.
structure TemplateSpec (registered : CoordMap fl) (active : List String) (template : ChunkKeyTemplate) : Prop where
  dimOrder : template.dimOrder.length = active.length + (registered.keys.filter (· ∉ active)).length
  parallel : template.parallelDimPositions = List.range active.length
  fixed : ∀ f ∈ template.fixedNonparallelIndices, active.length ≤ f.1 ∧ f.2 = 0

theorem build_eq_ok {active : List String} {template : ChunkKeyTemplate}
    (h : ChunkKeyTemplate.build registered active = .ok template) : TemplateSpec registered active template := by
  simp only [ChunkKeyTemplate.build, bind_eq_ok, pure_eq_ok] at h
  obtain ⟨axes, ha, _, _, he⟩ := h
  subst he
  have hmap := templateAxes_eq_ok ha
  rw [map_append] at hmap
  obtain ⟨axes₁, axes₂, haxes, h₁, h₂⟩ := map_eq_append_iff.mp hmap
  have hlen : axes₁.length = active.length := by simpa using congrArg List.length h₁
  have hpar : ∀ a ∈ axes₁, a.1 = true := by
    intro a ha
    have hm : a.1 ∈ axes₁.map (·.1) := mem_map_of_mem ha
    simp only [h₁, mem_map] at hm
    obtain ⟨dim, hd, he⟩ := hm
    simpa [hd] using he.symm
  have hnon : ∀ a ∈ axes₂, ¬a.1 = true := by
    intro a ha
    have hm : a.1 ∈ axes₂.map (·.1) := mem_map_of_mem ha
    simp only [h₂, mem_map, mem_insertionSort, mem_filter, decide_eq_true_eq] at hm
    obtain ⟨dim, hd, he⟩ := hm
    simpa [hd.2] using he.symm
  constructor
  case dimOrder => simp
  case parallel => rw [← hlen, haxes, positions_eq hpar hnon]
  case fixed =>
    intro f hf
    simp only [haxes, mem_map, mem_filter, Bool.not_eq_true'] at hf
    obtain ⟨⟨a, i⟩, ⟨hm, ha⟩, he⟩ := hf
    subst he
    refine ⟨?_, rfl⟩
    rw [zipIdx_append, mem_append] at hm
    cases hm
    case inl hm => simp [hpar a (fst_mem_of_mem_zipIdx hm)] at ha
    case inr hm =>
      have := le_snd_of_mem_zipIdx hm
      omega

theorem resolveTupleKey_eq_ok {registered : CoordMap fl} (ht : TemplateSpec registered active template)
    (h : template.resolveTupleKey indices = .ok key) :
    key = indices ++ List.replicate (registered.keys.filter (· ∉ active)).length 0 := by
  simp only [ChunkKeyTemplate.resolveTupleKey] at h
  split at h
  case isTrue => cases h
  case isFalse hl =>
    rw [ht.parallel, length_range, not_ne_iff] at hl
    have hset := @foldl_set_range indices [] (registered.keys.filter (· ∉ active)).length
    rw [length_nil, ← range_eq_range'] at hset
    simp only [nil_append] at hset
    rw [ht.parallel, ht.dimOrder, ← hl, hset, foldl_set_zero (fun f hf => hl ▸ ht.fixed f hf)] at h
    exact (Except.ok.inj h).symm

namespace CoordMap

variable {m : CoordMap fl} {name : String} {values : CoordValues fl}

theorem mem_of_get (h : m.get name = some values) : (name, values) ∈ m.entries := by
  have ⟨_, _, he, _⟩ := lookup_eq_some_iff.mp h
  simp [he]

theorem get_of_mem (h : (name, values) ∈ m.entries) : m.get name = some values := by
  have ⟨l₁, l₂, he⟩ := append_of_mem h
  refine lookup_eq_some_iff.mpr ⟨l₁, l₂, he, fun p hp => ?_⟩
  have hn := m.nodup
  rw [he, map_append, map_cons, nodup_append] at hn
  simp only [bne_iff_ne]
  exact (hn.2.2 p.1 (mem_map_of_mem hp) name (mem_cons_self ..)).symm

theorem mem_keys_of_get (h : m.get name = some values) : name ∈ m.keys :=
  mem_map_of_mem (f := Prod.fst) (mem_of_get h)

theorem exists_get (h : name ∈ m.keys) : ∃ values, m.get name = some values := by
  have ⟨⟨_, values⟩, hm, he⟩ := mem_map.mp h
  cases he
  exact ⟨values, get_of_mem hm⟩

theorem axisLen_of_get (h : m.get name = some values) : m.axisLen name = values.len := by
  rw [axisLen, h]
  rfl

end CoordMap

section Plan

open RowMajor

variable {cfg : PlannerConfig fl} {coords registered : CoordMap fl}

-- The registered indices of the step values of one axis.
def stepIndices (cfg : PlannerConfig fl) (coords registered : CoordMap fl) (dim : String) : List Nat :=
  match registered.get dim, coords.get dim with
  | some axis, some step =>
    (indexOfStepValuesWithResolver (resolverForAxis cfg.preferAffineResolver axis) step axis).getD []
  | _, _ => []

structure ParallelAxis (cfg : PlannerConfig fl) (coords registered : CoordMap fl) (dim : String) : Prop where
  found : ∃ step axis, coords.get dim = some step ∧ registered.get dim = some axis ∧
    List.Forall₂ (StandsFor axis) step.toList (stepIndices cfg coords registered dim)

theorem ParallelAxis.length (h : ParallelAxis cfg coords registered dim) :
    (stepIndices cfg coords registered dim).length = coords.axisLen dim := by
  have ⟨step, axis, hs, _, hf⟩ := h.found
  rw [CoordMap.axisLen_of_get hs, CoordValues.len, hf.length_eq]

theorem resolveParallel_eq_ok
    (h : resolveParallelIndexSetsAndLengths cfg.preferAffineResolver coords registered dims =
      .ok (sets, axisLengths, subsetLengths)) :
    sets = dims.map (stepIndices cfg coords registered) ∧ axisLengths = dims.map registered.axisLen ∧
      subsetLengths = dims.map coords.axisLen ∧ ∀ dim ∈ dims, ParallelAxis cfg coords registered dim := by
  induction dims generalizing sets axisLengths subsetLengths
  case nil =>
    cases h
    simp
  case cons dim dims hi =>
    simp only [resolveParallelIndexSetsAndLengths] at h
    split at h
    case h_1 => cases h
    case h_2 axis ha =>
      simp only [Except.ite_throw_eq_ok] at h
      obtain ⟨_, h⟩ := h
      split at h
      case h_1 => cases h
      case h_2 step hs =>
        simp only [Except.ite_throw_eq_ok] at h
        obtain ⟨_, h⟩ := h
        split at h
        case h_1 => cases h
        case h_2 indices hx =>
          simp only [bind_eq_ok, pure_eq_ok, Prod.mk.injEq] at h
          obtain ⟨⟨sets', axisLengths', subsetLengths'⟩, hr, h₁, h₂, h₃⟩ := h
          obtain ⟨e₁, e₂, e₃, hp⟩ := hi hr
          have hd : stepIndices cfg coords registered dim = indices := by simp [stepIndices, ha, hs, hx]
          simp only [← h₁, ← h₂, ← h₃, e₁, e₂, e₃, map_cons, hd, CoordMap.axisLen_of_get ha,
            CoordMap.axisLen_of_get hs, forall_mem_cons, true_and]
          exact ⟨⟨step, axis, hs, ha, hd ▸ indexOfStepValues_standsFor hx⟩, hp⟩

-- An axis that is not split into chunks.
structure NonparallelAxis (coords registered : CoordMap fl) (dim : String) : Prop where
  full : ∃ step axis, coords.get dim = some step ∧ registered.get dim = some axis ∧
    List.Forall₂ (fun v w => v.matches w) step.toList axis.toList

theorem NonparallelAxis.length (h : NonparallelAxis coords registered dim) :
    coords.axisLen dim = registered.axisLen dim := by
  have ⟨step, axis, hs, ha, hf⟩ := h.full
  rw [CoordMap.axisLen_of_get hs, CoordMap.axisLen_of_get ha, CoordValues.len, CoordValues.len, hf.length_eq]

theorem validateNonparallel_eq_ok
    (h : validateNonparallelCoords coords dims entries = .ok ()) (he : ∀ e ∈ entries, e ∈ registered.entries) :
    ∀ e ∈ entries, e.1 ∉ dims → NonparallelAxis coords registered e.1 := by
  induction entries
  case nil => simp
  case cons entry entries hi =>
    have ⟨name, axis⟩ := entry
    simp only [forall_mem_cons] at he ⊢
    simp only [validateNonparallelCoords] at h
    split at h
    case isTrue hd => exact ⟨fun hn => absurd hd hn, hi h he.2⟩
    case isFalse hd =>
      split at h
      case h_1 => cases h
      case h_2 step hs =>
        split at h
        case isTrue hm =>
          exact ⟨fun _ => ⟨step, axis, hs, CoordMap.get_of_mem he.1, matchContract_forall₂ hm⟩, hi h he.2⟩
        case isFalse => cases h

theorem validateStepCoordsContract_eq_ok (h : validateStepCoordsContract coords registered dims = .ok ()) :
    (∀ dim ∈ coords.keys, dim ∈ registered.keys) ∧
      ∀ dim ∈ registered.keys, dim ∉ dims → NonparallelAxis coords registered dim := by
  simp only [validateStepCoordsContract] at h
  split at h
  case h_1 => cases h
  case h_2 hf =>
    constructor
    case left =>
      intro dim hd
      simpa [CoordMap.containsKey] using find?_eq_none.mp hf dim hd
    case right =>
      intro dim hd hn
      have ⟨values, hv⟩ := CoordMap.exists_get hd
      exact validateNonparallel_eq_ok h (fun _ h => h) _ (CoordMap.mem_of_get hv) hn

-- What an accepted request and its registration have in common.
structure PlanSpec (cfg : PlannerConfig fl) (registered coords : CoordMap fl) (dims : List String) : Prop where
  active : resolveActiveParallelDims cfg.parallelCoordsConfig registered = .ok dims
  known : ∀ dim ∈ coords.keys, dim ∈ registered.keys
  parallel : ∀ dim ∈ dims, ParallelAxis cfg coords registered dim
  nonparallel : ∀ dim ∈ registered.keys, dim ∉ dims → NonparallelAxis coords registered dim

def comboIndices (cfg : PlannerConfig fl) (registered coords : CoordMap fl) (dims : List String) (k : Nat) : List Nat :=
  indicesAt (dims.map (stepIndices cfg coords registered)) (position (dims.map coords.axisLen) k)

def comboCount (coords : CoordMap fl) (dims : List String) : Nat :=
  (dims.map coords.axisLen).prod

theorem planShape_eq_ok (h : planShape cfg req arrayIds registered = .ok shape) :
    PlanSpec cfg registered req.coords shape.activeParallelDims ∧
      shape.axisLengths = shape.activeParallelDims.map registered.axisLen ∧
      shape.subsetComboCount = comboCount req.coords shape.activeParallelDims ∧
      ∀ k, axisIndicesForSubsetCombo k shape.axisIndexSets shape.subsetStrides =
        comboIndices cfg registered req.coords shape.activeParallelDims k := by
  simp only [planShape, Except.ite_throw_eq_ok, bind_eq_ok, pure_eq_ok] at h
  obtain ⟨_, _, dims, hd, _, hv, ⟨sets, axisLengths, subsetLengths⟩, hr, strides, hs, count, hc, he⟩ := h
  obtain ⟨hk, hn⟩ := validateStepCoordsContract_eq_ok hv
  obtain ⟨e₁, e₂, e₃, hp⟩ := resolveParallel_eq_ok hr
  have hlen : sets.map List.length = dims.map req.coords.axisLen := by
    rw [e₁, List.map_map]
    exact List.map_congr_left fun dim hd => (hp dim hd).length
  subst he
  refine ⟨⟨hd, hk, hp, hn⟩, e₂, ?_, fun k => ?_⟩
  · rw [totalSubsetCombinations_eq_ok hc, e₃, comboCount]
  · simp only [subsetMixedRadixStrides_eq_ok hs]
    rw [e₃, ← hlen, axisIndicesForSubsetCombo_eq, hlen, e₁, comboIndices]

structure IsTask (cfg : PlannerConfig fl) (registered coords : CoordMap fl) (dims : List String)
    (array : Nat × String × InputArray) (k : Nat) (task : ChunkTask) : Prop where
  arrayName : task.arrayName = array.2.1
  chunkId : task.chunkId =
    ⟨array.1, offset (dims.map registered.axisLen) (comboIndices cfg registered coords dims k)⟩
  tupleKey : registered.keys ≠ [] → task.tupleKey =
    comboIndices cfg registered coords dims k ++ List.replicate (registered.keys.filter (· ∉ dims)).length 0
  flatKey : registered.keys = [] → dims = [] → task.tupleKey = [0]
  requiredBytes : task.requiredBytes = array.2.2.nbytes / comboCount coords dims
  word : task.requiredBytes ≤ wordMax
  bytes : ∀ memory, task.bytes memory =
    array.2.2.read memory (k * task.requiredBytes) task.requiredBytes

theorem sliceInputForTask_eq_ok (h : sliceInputForTask input k n = .ok sliced) :
    sliced.source.place = input.source.place ∧ sliced.source.ptr = input.source.ptr + k * n ∧ n ≤ wordMax := by
  have hptr {kind : String} {ptr start p : Nat} (h : taskPtr kind ptr start = .ok p) : p = ptr + start := by
    simp only [taskPtr] at h
    split at h
    case h_1 hp => cases h; exact (checkedAdd_eq_some hp).1
    case h_2 => cases h
  simp only [sliceInputForTask, taskByteRange, bind_eq_ok, pure_eq_ok] at h
  obtain ⟨_, ⟨start, hs, stop, hstop, he⟩, h⟩ := h
  subst he
  have hword : n ≤ wordMax := by
    have := checkedAdd_eq_some (orOverflow_eq_ok hstop)
    omega
  rw [checkedMul_eq_some (orOverflow_eq_ok hs)] at h
  split at h
  all_goals
    simp only [Except.ite_throw_eq_ok, bind_eq_ok, pure_eq_ok] at h
  case h_1 hsrc | h_3 hsrc =>
    obtain ⟨p, hp, he⟩ := h
    subst he
    simp [hsrc, InputArraySource.place, InputArraySource.ptr, hptr hp, hword]
  case h_2 hsrc =>
    obtain ⟨_, _, p, hp, he⟩ := h
    subst he
    simp [hsrc, InputArraySource.place, InputArraySource.ptr, hptr hp, hword]

theorem length_comboIndices :
    (comboIndices cfg registered coords dims k).length = dims.length := by
  simp [comboIndices, indicesAt]

theorem planTask_eq_ok
    (ht : TemplateSpec registered dims template) (hl : shape.axisLengths = dims.map registered.axisLen)
    (hi : ∀ k, axisIndicesForSubsetCombo k shape.axisIndexSets shape.subsetStrides =
      comboIndices cfg registered coords dims k)
    (h : planTask shape template batchId arrayId arrayName input (input.nbytes / comboCount coords dims) k =
      .ok task) :
    IsTask cfg registered coords dims (arrayId, arrayName, input) k task := by
  simp only [planTask, bind_eq_ok, pure_eq_ok, hi, hl] at h
  obtain ⟨linear, hlin, key, hkey, sliced, hsl, he⟩ := h
  have hlin := mixedRadixLinearIndex_eq_ok (by simp [length_comboIndices]) hlin
  obtain ⟨hplace, hptr, hword⟩ := sliceInputForTask_eq_ok hsl
  subst he
  constructor
  case arrayName | requiredBytes => rfl
  case chunkId => simp [hlin]
  case word => exact hword
  case flatKey =>
    intro hk hd
    subst hd
    have hz : template.dimOrder = [] := length_eq_zero_iff.mp (by rw [ht.dimOrder, hk]; rfl)
    simp only [tupleKeyFor, hz, if_true, Except.ok.injEq] at hkey
    simp [← hkey, hlin, offset]
  case tupleKey =>
    intro hk
    simp only [tupleKeyFor] at hkey
    split at hkey
    case isTrue hz =>
      -- every registered axis is among those of the template
      have hlen := ht.dimOrder
      simp only [hz, length_nil] at hlen
      have hnil : dims = [] := length_eq_zero_iff.mp (by omega)
      subst hnil
      simp only [length_nil, Nat.zero_add, not_mem_nil, not_false_eq_true, decide_true, filter_true] at hlen
      exact absurd (length_eq_zero_iff.mp hlen.symm) hk
    case isFalse => exact resolveTupleKey_eq_ok ht hkey
  case bytes =>
    intro memory
    simp only [ChunkTask.bytes, InputArray.read, hplace, hptr, Nat.add_zero]

theorem planArray_eq_ok
    (ht : TemplateSpec registered dims template) (hl : shape.axisLengths = dims.map registered.axisLen)
    (hc : shape.subsetComboCount = comboCount coords dims)
    (hi : ∀ k, axisIndicesForSubsetCombo k shape.axisIndexSets shape.subsetStrides =
      comboIndices cfg registered coords dims k) (h : planArray shape template batchId array = .ok tasks) :
    comboCount coords dims ∣ array.2.2.nbytes ∧
      List.Forall₂ (IsTask cfg registered coords dims array) (List.range (comboCount coords dims)) tasks := by
  simp only [planArray, hc, bind_eq_ok] at h
  have ⟨required, hr, _, _, hm⟩ := h
  simp only [requiredBytesPerTask] at hr
  split at hr
  case isTrue => cases hr
  case isFalse =>
    split at hr
    case isTrue => cases hr
    case isFalse hdvd =>
      cases hr
      exact ⟨Nat.dvd_of_mod_eq_zero (not_ne_iff.mp hdvd),
        (Except.mapM_eq_ok.mp hm).imp fun k task hk => planTask_eq_ok ht hl hi hk⟩

-- The tasks of a batch are those of the combinations of each array.
structure BatchSpec (cfg : PlannerConfig fl) (registered coords : CoordMap fl) (dims : List String)
    (arrays : List (Nat × String × InputArray)) (batch : PlannedWriteBatch) : Prop where
  dvd : ∀ array ∈ arrays, comboCount coords dims ∣ array.2.2.nbytes
  complete : ∀ array ∈ arrays, ∀ k < comboCount coords dims, ∃ task ∈ batch.tasks,
    IsTask cfg registered coords dims array k task
  sound : ∀ task ∈ batch.tasks, ∃ array ∈ arrays, ∃ k < comboCount coords dims,
    IsTask cfg registered coords dims array k task
  chunkIds : batch.chunkIds = batch.tasks.map (·.chunkId)
  layout : batch.chunkIds = arrays.flatMap fun array => (List.range (comboCount coords dims)).map fun k =>
    ⟨array.1, offset (dims.map registered.axisLen) (comboIndices cfg registered coords dims k)⟩

theorem map_eq_map_of_forall₂ (h : List.Forall₂ (fun x y => f y = g x) xs ys) : ys.map f = xs.map g := by
  induction h
  case nil => rfl
  case cons h _ hi => rw [map_cons, map_cons, h, hi]

theorem planTasks_eq_ok
    (ht : TemplateSpec registered dims template) (hl : shape.axisLengths = dims.map registered.axisLen)
    (hc : shape.subsetComboCount = comboCount req.coords dims)
    (hi : ∀ k, axisIndicesForSubsetCombo k shape.axisIndexSets shape.subsetStrides =
      comboIndices cfg registered req.coords dims k)
    (h : planTasks shape template batchId req arrayIds = .ok batch) :
    BatchSpec cfg registered req.coords dims (arrayIds.zip (req.arrayNames.zip req.arrays)) batch := by
  simp only [planTasks, bind_eq_ok, pure_eq_ok] at h
  obtain ⟨_, _, tasks, hm, he⟩ := h
  subst he
  have hall := (Except.mapM_eq_ok.mp hm).imp fun array ts h => planArray_eq_ok ht hl hc hi h
  constructor
  case dvd =>
    intro array ha
    obtain ⟨_, _, h⟩ := hall.exists_of_mem_left ha
    exact h.1
  case complete =>
    intro array ha k hk
    obtain ⟨ts, hts, h⟩ := hall.exists_of_mem_left ha
    obtain ⟨task, htask, h⟩ := h.2.exists_of_mem_left (mem_range.mpr hk)
    exact ⟨task, mem_flatten.mpr ⟨ts, hts, htask⟩, h⟩
  case sound =>
    intro task htask
    obtain ⟨ts, hts, htask⟩ := mem_flatten.mp htask
    obtain ⟨array, ha, h⟩ := hall.exists_of_mem_right hts
    obtain ⟨k, hk, h⟩ := h.2.exists_of_mem_right htask
    exact ⟨array, ha, k, mem_range.mp hk, h⟩
  case chunkIds => rfl
  case layout =>
    have hids := hall.imp fun array ts h => map_eq_map_of_forall₂ (h.2.imp fun k task h => h.chunkId)
    rw [map_flatten, map_eq_map_of_forall₂ hids, flatMap_def]

-- The template, from the cache or not, is the one that belongs to the registration.
def PlannerState.Cached (cfg : PlannerConfig fl) (registered : CoordMap fl) (st : PlannerState) : Prop :=
  ∀ template, st.chunkKeyTemplate = some template →
    ∃ dims, resolveActiveParallelDims cfg.parallelCoordsConfig registered = .ok dims ∧
      TemplateSpec registered dims template

theorem getOrBuild_eq_ok
    (hst : st.Cached cfg registered) (hd : resolveActiveParallelDims cfg.parallelCoordsConfig registered = .ok dims)
    (h : getOrBuildChunkKeyTemplate st registered dims = .ok template) : TemplateSpec registered dims template := by
  simp only [getOrBuildChunkKeyTemplate] at h
  split at h
  case h_1 hc =>
    cases h
    have ⟨dims', hd', ht⟩ := hst template hc
    cases hd.symm.trans hd'
    exact ht
  case h_2 => exact build_eq_ok h

theorem PlannerState.Reachable.cached (h : PlannerState.Reachable cfg registered st) :
    st.Cached cfg registered := by
  induction h
  case init => exact fun _ h => nomatch h
  case plan st req arrayIds _ hi =>
    simp only [planBatch]
    split
    case h_1 => exact hi
    case h_2 shape hs =>
      split
      case h_1 => exact hi
      case h_2 template ht =>
        have hd := (planShape_eq_ok hs).1.active
        intro template' he
        cases he
        exact ⟨_, hd, getOrBuild_eq_ok hi hd ht⟩

theorem planBatch_eq_ok (hst : PlannerState.Reachable cfg registered st)
    (h : (planBatch cfg st req arrayIds registered).1 = .ok batch) :
    ∃ dims, PlanSpec cfg registered req.coords dims ∧
      BatchSpec cfg registered req.coords dims (arrayIds.zip (req.arrayNames.zip req.arrays)) batch := by
  simp only [planBatch] at h
  split at h
  case h_1 => cases h
  case h_2 shape hs =>
    split at h
    case h_1 => cases h
    case h_2 template ht =>
      have ⟨hp, hl, hc, hi⟩ := planShape_eq_ok hs
      exact ⟨_, hp, planTasks_eq_ok (getOrBuild_eq_ok hst.cached hp.active ht) hl hc hi h⟩

end Plan

-- For examples in which floating-point numbers do not matter.
def noFloats : Floats where
  F32 := Unit
  F64 := Unit
  eq32 := fun _ _ => true
  eq64 := fun _ _ => true
  isNan32 := fun _ => false
  isNan64 := fun _ => false
  asF32 := fun _ => ()
  fromF32 := fun _ => ()

namespace ChunkKeyTemplate

open RowMajor

variable {t : ChunkKeyTemplate}

theorem build_divisors {registered : CoordMap fl} (h : build registered active = .ok t) :
    t.divisors = stridesOf t.axisLengths := by
  simp only [build, bind_eq_ok, pure_eq_ok] at h
  obtain ⟨axes, _, ds, hd, he⟩ := h
  subst he
  cases hl : axes.map (·.2)
  case nil =>
    rw [hl] at hd
    cases hd
    rfl
  case cons len lens =>
    simp only [hl, divisorsOf, bind_eq_ok, pure_eq_ok] at hd
    obtain ⟨_, hr, he⟩ := hd
    rw [← he, stridesOf, (radixStrides_eq_ok hr).1, (radixStrides_eq_ok hr).2]

theorem length_stridesOf : (stridesOf lens).length = lens.length := by
  induction lens
  case nil => rfl
  case cons hi => simp [stridesOf, hi]

-- The sum is exact, and it is rejected if it does not fit a word.
theorem sum_eq_ok (hl : key.length = lens.length) (ha : acc ≤ wordMax) :
    (key.zip (stridesOf lens)).foldlM (fun linear (idx, div) => do
      orOverflow (checkedAdd linear (← orOverflow (checkedMul idx div)))) acc = .ok linear ↔
      linear = acc + offset lens key ∧ linear ≤ wordMax := by
  induction lens generalizing key acc
  case nil =>
    simp only [stridesOf, zip_nil_right, foldlM_nil, pure_eq_ok, offset]
    grind
  case cons len lens hi =>
    cases key
    case nil => simp at hl
    case cons p ps =>
      simp only [stridesOf, zip_cons_cons, foldlM_cons, offset, bind_eq_ok]
      constructor
      case mp =>
        rintro ⟨sum, ⟨term, ht, hs⟩, hf⟩
        obtain ⟨hs, hle⟩ := checkedAdd_eq_some (orOverflow_eq_ok hs)
        have := checkedMul_eq_some (orOverflow_eq_ok ht)
        rw [hi (Nat.succ.inj hl) hle] at hf
        omega
      case mpr =>
        rintro ⟨he, hle⟩
        have hm : p * lens.prod ≤ wordMax := by omega
        have hs : acc + p * lens.prod ≤ wordMax := by omega
        refine ⟨_, ⟨_, by rw [checkedMul, if_pos hm, orOverflow], by rw [checkedAdd, if_pos hs, orOverflow]⟩, ?_⟩
        rw [hi (Nat.succ.inj hl) hs]
        omega

theorem linearFromTuple_eq_ok (hd : t.divisors = stridesOf t.axisLengths) (hw : Within key t.axisLengths) :
    t.linearFromTuple key = .ok linear ↔ linear = offset t.axisLengths key ∧ linear ≤ wordMax := by
  have hl := hw.length_eq
  rw [linearFromTuple, TupleChunkKey.linearIndex, hd, if_neg (by simp [length_stridesOf, hl]),
    sum_eq_ok hl (Nat.zero_le _), Nat.zero_add]

theorem unravel_eq (hk : k < lens.prod) : unravel k lens (stridesOf lens) = .ok (position lens k, 0) := by
  induction lens generalizing k
  case nil =>
    rw [prod_nil, Nat.lt_one_iff] at hk
    rw [hk]
    rfl
  case cons len lens hi =>
    have hpos : 0 < lens.prod := Nat.pos_of_ne_zero fun h => by simp [h] at hk
    have hdiv : k / lens.prod < len := Nat.div_lt_of_lt_mul (Nat.mul_comm len lens.prod ▸ hk)
    simp only [stridesOf, unravel, if_neg hpos.ne', hi (Nat.mod_lt k hpos), position, Nat.mod_eq_of_lt hdiv]
    rw [position_mod hpos]
    rfl

theorem tupleFromLinear_eq (hd : t.divisors = stridesOf t.axisLengths) (hk : k < t.axisLengths.prod) :
    t.tupleFromLinear k = .ok (position t.axisLengths k) := by
  rw [tupleFromLinear, hd, unravel_eq hk]
  rfl

-- Every linear index has a tuple, if the axes after the first are not empty.
theorem tupleFromLinear_cons (hd : t.divisors = stridesOf t.axisLengths) (hl : t.axisLengths = len :: lens)
    (hpos : 0 < lens.prod) (k : Nat) : ∃ tuple, t.tupleFromLinear k = .ok tuple := by
  simp only [tupleFromLinear, hd, hl, stridesOf, unravel, if_neg hpos.ne', unravel_eq (Nat.mod_lt k hpos)]
  exact ⟨_, rfl⟩

-- Tuples and linear indices of the grid determine each other, and there are no others.
structure Inverse (t : ChunkKeyTemplate) : Prop where
  tuple : ∀ tuple, Within tuple t.axisLengths →
    ∃ linear, t.linearFromTuple tuple = .ok linear ∧ t.tupleFromLinear linear = .ok tuple
  linear : ∀ linear < 2 ^ 64, linear < t.axisLengths.prod →
    ∃ tuple, t.tupleFromLinear linear = .ok tuple ∧ Within tuple t.axisLengths ∧ t.linearFromTuple tuple = .ok linear
  outside : ∀ linear < 2 ^ 64, t.axisLengths.prod ≤ linear → ∃ e, t.tupleFromLinear linear = .error e

theorem within_of_lt (hk : k < lens.prod) : Within (position lens k) lens :=
  within_position fun n hn => Nat.pos_of_ne_zero fun h => by
    rw [prod_eq_zero (h ▸ hn)] at hk
    exact absurd hk (Nat.not_lt_zero k)

theorem inverse_of_prod_le (hd : t.divisors = stridesOf t.axisLengths) (hle : t.axisLengths.prod ≤ 2 ^ 64)
    (ho : ∀ linear < 2 ^ 64, t.axisLengths.prod ≤ linear → ∃ e, t.tupleFromLinear linear = .error e) : Inverse t where
  tuple key hw := by
    have hlt := offset_lt hw
    refine ⟨_, (linearFromTuple_eq_ok hd hw).mpr ⟨rfl, ?_⟩, ?_⟩
    · rw [wordMax]
      omega
    · rw [tupleFromLinear_eq hd hlt, position_offset hw]
  linear k hk hlt := by
    have hw := within_of_lt hlt
    refine ⟨_, tupleFromLinear_eq hd hlt, hw, (linearFromTuple_eq_ok hd hw).mpr ⟨(offset_position hlt).symm, ?_⟩⟩
    rw [wordMax]
    omega
  outside := ho

-- Only the axes after the first bound a linear index, and the last divisor leaves no remainder.
theorem inverse_iff {registered : CoordMap fl} (h : build registered active = .ok t) :
    Inverse t ↔ t.axisLengths = [] ∨ 0 ∈ t.axisLengths.tail ∨ t.axisLengths.prod = 2 ^ 64 := by
  have hd := build_divisors h
  constructor
  case mp =>
    intro hi
    by_contra hc
    simp only [not_or] at hc
    obtain ⟨hne, hz, hp⟩ := hc
    obtain ⟨len, lens, hl⟩ := exists_cons_of_ne_nil hne
    rw [hl, tail_cons] at hz
    have hpos : 0 < lens.prod := prod_pos fun n hn => Nat.pos_of_ne_zero fun he => hz (he ▸ hn)
    cases Nat.lt_or_gt_of_ne hp
    case inl hlt =>
      have ⟨e, he⟩ := hi.outside _ hlt (Nat.le_refl _)
      have ⟨tuple, ht⟩ := tupleFromLinear_cons hd hl hpos t.axisLengths.prod
      rw [he] at ht
      cases ht
    case inr hgt =>
      have hw := within_of_lt hgt
      have ⟨linear, hlin, _⟩ := hi.tuple _ hw
      have ⟨he, hle⟩ := (linearFromTuple_eq_ok hd hw).mp hlin
      rw [offset_position hgt] at he
      rw [wordMax] at hle
      omega
  case mpr =>
    rintro (hn | hz | hp)
    case inl =>
      refine inverse_of_prod_le hd (by simp [hn]) fun linear _ hle => ?_
      rw [hn, prod_nil] at hle
      simp only [tupleFromLinear, hd, hn, stridesOf, unravel]
      exact ⟨_, if_pos (by omega)⟩
    case inr.inl =>
      cases hl : t.axisLengths
      case nil => simp [hl] at hz
      case cons len lens =>
        rw [hl] at hz
        have hzero : lens.prod = 0 := prod_eq_zero hz
        refine inverse_of_prod_le hd (by simp [hl, hzero]) fun linear _ _ => ?_
        simp only [tupleFromLinear, hd, hl, stridesOf, unravel, if_pos hzero]
        exact ⟨_, rfl⟩
    case inr.inr => exact inverse_of_prod_le hd hp.le fun linear hlt hge => by omega

def noCoords : CoordMap noFloats where
  entries := []
  nodup := by decide

def twoTimes : CoordMap noFloats where
  entries := [("time", .i64 [0, 6])]
  nodup := by decide

theorem not_inverse_two_times : ∃ t, build twoTimes ["time"] = .ok t ∧ ¬Inverse t := by
  refine ⟨_, rfl, fun h => ?_⟩
  have ⟨e, he⟩ := h.outside 2 (by decide) (by decide)
  cases he

theorem inverse_no_coords : ∃ t, build noCoords [] = .ok t ∧ Inverse t := by
  have h : build noCoords [] = .ok ⟨[], [], [], [], []⟩ := rfl
  exact ⟨_, h, (inverse_iff h).mpr (.inl rfl)⟩

end ChunkKeyTemplate
end ZarrIo
