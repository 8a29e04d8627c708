import ServeModel.ZarrIo.BufferPool
import ServeModel.ZarrIo.Theorems.Planner

namespace ZarrIo

open Nat Except

namespace BufferPool

theorem orFail_eq_ok (h : orFail message x = .ok n) : x = some n := by
  cases x
  case none => cases h
  case some =>
    cases h
    rfl

theorem alignmentBytes_pos (a : PoolAlignment) : 0 < a.alignmentBytes := by
  cases a <;> decide

theorem alignUp_eq_ok (h : alignUp cfg value = .ok n) :
    value ≤ n ∧ n % cfg.poolAlignment.alignmentBytes = 0 := by
  have hpos := alignmentBytes_pos cfg.poolAlignment
  simp only [alignUp] at h
  split at h
  case isTrue hz =>
    cases h
    exact ⟨le_refl _, hz⟩
  case isFalse =>
    have hn := (checkedAdd_eq_some (orFail_eq_ok h)).1
    have hlt := mod_lt value hpos
    refine ⟨by omega, ?_⟩
    have hdiv := div_add_mod value cfg.poolAlignment.alignmentBytes
    have : n = cfg.poolAlignment.alignmentBytes * (value / cfg.poolAlignment.alignmentBytes + 1) := by
      rw [mul_add]
      omega
    rw [this, mul_mod_right]

-- A slab with some buffers, each of which has its own place.
structure SlabSpec (alignment count bytes stride : Nat) (slab : SlabBacking) : Prop where
  fits : bytes ≤ stride
  aligned : stride % alignment = 0
  ranges : ∃ alignedStart, (slab.baseAddr + alignedStart) % alignment = 0 ∧
    alignedStart + count * stride ≤ slab.totalLen ∧
    ∀ i < count, slab.bufferRanges[i]? = some (alignedStart + i * stride, alignedStart + i * stride + bytes)

theorem bufferRange_eq_ok
    (hle : idx * stride ≤ wordMax) (h : bufferRange bytes stride alignedStart alignedEnd idx = .ok range) :
    range = (alignedStart + idx * stride, alignedStart + idx * stride + bytes) := by
  simp only [bufferRange, bind_eq_ok, ite_throw_eq_ok, pure_eq_ok] at h
  obtain ⟨start, hs, stop, he, _, hr⟩ := h
  have hs := (checkedAdd_eq_some (orFail_eq_ok hs)).1
  have he := (checkedAdd_eq_some (orFail_eq_ok he)).1
  rw [saturatingMul, min_eq_left hle] at hs
  rw [← hr, he, hs]

theorem alignedStart_spec (ha : 0 < alignment) :
    (basePtr + if basePtr % alignment = 0 then 0 else alignment - basePtr % alignment) % alignment = 0 := by
  have hlt := mod_lt basePtr ha
  have hdiv := div_add_mod basePtr alignment
  split
  case isTrue hz => simpa using hz
  case isFalse =>
    have : basePtr + (alignment - basePtr % alignment) = alignment * (basePtr / alignment + 1) := by
      rw [mul_add]
      omega
    rw [this, mul_mod_right]

theorem buildSlabBacking_eq_ok {count : Nat} (ha : 0 < alignment)
    (hc : 0 < count) (hf : bytes ≤ stride) (hs : stride % alignment = 0)
    (h : buildSlabBacking alignment count bytes stride basePtr = .ok slab) :
    SlabSpec alignment count bytes stride slab := by
  simp only [buildSlabBacking, ne_of_gt hc, if_false, bind_eq_ok, ite_throw_eq_ok,
    pure_eq_ok] at h
  obtain ⟨alignedLen, hl, allocLen, _, alignedEnd, he, hle, ranges, hm, hslab⟩ := h
  have hl := orFail_eq_ok hl
  have hword : count * stride ≤ wordMax := by
    simp only [checkedMul] at hl
    split at hl
    case isTrue h => exact h
    case isFalse => cases hl
  have hl := checkedMul_eq_some hl
  have he := (checkedAdd_eq_some (orFail_eq_ok he)).1
  subst hslab
  refine ⟨hf, hs, _, alignedStart_spec ha, by simp only; omega, fun i hi => ?_⟩
  have hm := mapM_eq_ok.mp hm
  have hlen : i < ranges.length := by simpa [← hm.length_eq] using hi
  have hget := hm.get (by simpa using hi) hlen
  have hmul : i * stride ≤ wordMax := le_trans (mul_le_mul_right stride (le_of_lt hi)) hword
  simp only [List.get_eq_getElem, List.getElem_range] at hget
  rw [List.getElem?_eq_getElem hlen, bufferRange_eq_ok hmul hget]

-- What a pool is like once it is initialised.
structure FastSpec (alignment : Nat) (f : FastPoolState) : Prop where
  hotStartId : f.hotStartId = 1
  hotIdMax : f.hotIdMax = f.hotSlabBuffers
  warmStartId : 0 < f.warmSlabBuffers → f.warmStartId = some (f.hotSlabBuffers + 1)
  hotSlab : ∃ stride, SlabSpec alignment f.hotSlabBuffers f.pooledBufferBytes stride f.hotSlab
  warmSlab : 0 < f.warmSlabBuffers → ∃ slab stride, f.warmSlab = some slab ∧
    SlabSpec alignment f.warmSlabBuffers f.pooledBufferBytes stride slab

theorem computePoolLayout_eq_ok (h : computePoolLayout cfg hint = .ok layout) :
    layout.pooledBufferBytes ≤ layout.pooledBufferStride ∧
      layout.pooledBufferStride % cfg.poolAlignment.alignmentBytes = 0 := by
  simp only [computePoolLayout, ite_throw_eq_ok, bind_eq_ok, pure_eq_ok] at h
  obtain ⟨_, _, _, _, bytes, _, stride, hs, _, _, _, _, _, _, he⟩ := h
  subst he
  exact alignUp_eq_ok hs

theorem checkedAddU32_eq_some (h : checkedAddU32 a b = some n) : n = a + b := by
  simp only [checkedAddU32] at h
  by_cases hle : a + b ≤ u32Max
  case pos =>
    rw [if_pos hle] at h
    exact (Option.some.inj h).symm
  case neg =>
    rw [if_neg hle] at h
    cases h

theorem buildFastPath_eq_ok (h : buildFastPath cfg hint hotPtr warmPtr = .ok f) :
    FastSpec cfg.poolAlignment.alignmentBytes f := by
  have ha := alignmentBytes_pos cfg.poolAlignment
  simp only [buildFastPath, ite_throw_eq_ok, bind_eq_ok, pure_eq_ok] at h
  obtain ⟨layout, hl, _, _, _, _, _, _, warmStartId, hw, hotSlab, hhot, warmSlab, hwarm, hpos, he⟩ := h
  obtain ⟨hf, hs⟩ := computePoolLayout_eq_ok hl
  have hw : warmStartId = 1 + layout.hotSlabBuffers := checkedAddU32_eq_some (orFail_eq_ok hw)
  subst he
  constructor
  case hotStartId => rfl
  case hotIdMax => simp only [hw]; omega
  case warmStartId => exact fun hp => by simp only at hp; simp [hp, hw, add_comm]
  case hotSlab => exact ⟨_, buildSlabBacking_eq_ok ha (pos_of_ne_zero hpos) hf hs hhot⟩
  case warmSlab =>
    intro hp
    simp only [buildWarmSlab, hp, if_true, map_eq_ok] at hwarm
    obtain ⟨slab, hslab, he⟩ := hwarm
    exact ⟨slab, _, he.symm, buildSlabBacking_eq_ok ha hp hf hs hslab⟩

section Handles

structure Lease.Within (alignment bytes : Nat) (slab : SlabBacking) (l : Lease) : Prop where
  baseAddr : l.baseAddr = slab.baseAddr
  inside : l.stop ≤ slab.totalLen
  aligned : (l.baseAddr + l.start) % alignment = 0
  length : l.start + bytes = l.stop

-- No address belongs to both leases.
def Lease.Apart (l₁ l₂ : Lease) : Prop :=
  l₁.baseAddr + l₁.stop ≤ l₂.baseAddr + l₂.start ∨ l₂.baseAddr + l₂.stop ≤ l₁.baseAddr + l₁.start

theorem Lease.Apart.symm {l₁ l₂ : Lease} (h : l₁.Apart l₂) : l₂.Apart l₁ :=
  Or.symm h

def SlabBacking.Apart (s₁ s₂ : SlabBacking) : Prop :=
  s₁.baseAddr + s₁.totalLen ≤ s₂.baseAddr ∨ s₂.baseAddr + s₂.totalLen ≤ s₁.baseAddr

theorem Lease.Within.apart {l₁ l₂ : Lease} (h : s₁.Apart s₂)
    (h₁ : l₁.Within alignment bytes s₁) (h₂ : l₂.Within alignment bytes s₂) : l₁.Apart l₂ := by
  have e₁ := h₁.baseAddr
  have e₂ := h₂.baseAddr
  have i₁ := h₁.inside
  have i₂ := h₂.inside
  simp only [SlabBacking.Apart] at h
  simp only [Lease.Apart]
  omega

section Slab

variable {alignment count bytes stride i j id id' requested requested' : Nat} {slab : SlabBacking}
variable (hs : SlabSpec alignment count bytes stride slab)

include hs

theorem SlabSpec.stop_le (hi : i < count) : i * stride + bytes ≤ count * stride := by
  have := mul_le_mul_right stride hi
  have := hs.fits
  rw [succ_mul] at *
  omega

theorem SlabSpec.exists_slabHandle (hi : i < count) (hb : 0 < bytes) :
    ∃ l, slabHandle kind slab i id requested = .ok l := by
  have ⟨alignedStart, _, hlen, hr⟩ := hs.ranges
  have := hs.stop_le hi
  simp only [slabHandle, hr i hi]
  rw [if_neg (by omega)]
  exact ⟨_, rfl⟩

theorem SlabSpec.slabHandle_eq_ok (hi : i < count) (h : slabHandle kind slab i id requested = .ok l) :
    l.id = id ∧ l.requested = requested ∧ l.Within alignment bytes slab := by
  have ⟨alignedStart, ha, hlen, hr⟩ := hs.ranges
  simp only [slabHandle, hr i hi] at h
  split at h
  case isTrue => cases h
  case isFalse hle =>
    cases h
    refine ⟨rfl, rfl, rfl, by simp only; omega, ?_, rfl⟩
    have hstride := dvd_of_mod_eq_zero hs.aligned
    have hstart := dvd_of_mod_eq_zero ha
    simp only [← add_assoc]
    exact mod_eq_zero_of_dvd (dvd_add hstart (Dvd.dvd.mul_left hstride i))

theorem SlabSpec.apart_of_lt (hj : j < count) (hij : i < j) (h : slabHandle kind slab i id requested = .ok l)
    (h' : slabHandle kind slab j id' requested' = .ok l') : l.Apart l' := by
  have ⟨alignedStart, ha, hlen, hr⟩ := hs.ranges
  simp only [slabHandle, hr i (by omega)] at h
  simp only [slabHandle, hr j hj] at h'
  have := SlabSpec.stop_le { hs with ranges := ⟨alignedStart, ha, by
    have := mul_le_mul_right stride (le_of_lt hj)
    omega, fun i hi => hr i (by omega)⟩ } hij
  split at h
  case isTrue => cases h
  case isFalse =>
    split at h'
    case isTrue => cases h'
    case isFalse =>
      cases h
      cases h'
      simp only [Lease.Apart]
      omega

theorem SlabSpec.apart (hi : i < count) (hj : j < count) (hij : i ≠ j)
    (h : slabHandle kind slab i id requested = .ok l) (h' : slabHandle kind slab j id' requested' = .ok l') :
    l.Apart l' := by
  cases lt_or_gt_of_ne hij
  case inl hlt => exact hs.apart_of_lt hj hlt h h'
  case inr hlt => exact (hs.apart_of_lt hi hlt h' h).symm

end Slab

section FastPath

variable {alignment id id' requested requested' : Nat} {f : FastPoolState} (hf : FastSpec alignment f)

def FastPoolState.HasSlab (f : FastPoolState) (slab : SlabBacking) : Prop :=
  slab = f.hotSlab ∨ f.warmSlab = some slab

-- The allocator does not give out an address twice.
def FastPoolState.SlabsApart (f : FastPoolState) : Prop :=
  ∀ slab, f.warmSlab = some slab → f.hotSlab.Apart slab

include hf

theorem FastSpec.hotHandle (h : id ≤ f.hotSlabBuffers) :
    buildPooledHandleForId f requested id = slabHandle "hot" f.hotSlab (id - 1) id requested := by
  rw [buildPooledHandleForId, if_pos (by rw [hf.hotIdMax]; exact h), hf.hotStartId]

theorem FastSpec.warmHandle (h : f.hotSlabBuffers < id) (hid : id ≤ f.totalBuffers) : ∃ slab stride,
    f.warmSlab = some slab ∧ SlabSpec alignment f.warmSlabBuffers f.pooledBufferBytes stride slab ∧
      ∀ {requested}, buildPooledHandleForId f requested id =
        slabHandle "warm" slab (id - (f.hotSlabBuffers + 1)) id requested := by
  have hpos : 0 < f.warmSlabBuffers := by
    simp only [FastPoolState.totalBuffers] at hid
    omega
  have ⟨slab, stride, hslab, hs⟩ := hf.warmSlab hpos
  refine ⟨slab, stride, hslab, hs, ?_⟩
  intro requested
  rw [buildPooledHandleForId, if_neg (by rw [hf.hotIdMax]; omega), hf.warmStartId hpos, hslab]

theorem FastSpec.exists_handle (requested : Nat) (hpos : 1 ≤ id) (hid : id ≤ f.totalBuffers)
    (hb : 0 < f.pooledBufferBytes) :
    ∃ l, buildPooledHandleForId f requested id = .ok l := by
  simp only [FastPoolState.totalBuffers] at hid
  cases lt_or_ge f.hotSlabBuffers id
  case inl h =>
    have ⟨slab, stride, _, hs, he⟩ := hf.warmHandle h hid
    rw [he]
    exact hs.exists_slabHandle (by omega) hb
  case inr h =>
    have ⟨stride, hs⟩ := hf.hotSlab
    rw [hf.hotHandle h]
    exact hs.exists_slabHandle (by omega) hb

theorem FastSpec.handle_eq_ok (hpos : 1 ≤ id) (hid : id ≤ f.totalBuffers)
    (h : buildPooledHandleForId f requested id = .ok l) : l.id = id ∧ l.requested = requested ∧
      ∃ slab, f.HasSlab slab ∧ l.Within alignment f.pooledBufferBytes slab := by
  simp only [FastPoolState.totalBuffers] at hid
  cases lt_or_ge f.hotSlabBuffers id
  case inl hlt =>
    have ⟨slab, stride, hslab, hs, he⟩ := hf.warmHandle hlt hid
    rw [he] at h
    have ⟨h₁, h₂, hw⟩ := hs.slabHandle_eq_ok (by omega) h
    exact ⟨h₁, h₂, slab, .inr hslab, hw⟩
  case inr hle =>
    have ⟨stride, hs⟩ := hf.hotSlab
    rw [hf.hotHandle hle] at h
    have ⟨h₁, h₂, hw⟩ := hs.slabHandle_eq_ok (by omega) h
    exact ⟨h₁, h₂, _, .inl rfl, hw⟩

theorem FastSpec.apart_of_lt (ha : f.SlabsApart) (hpos : 1 ≤ id) (hid : id' ≤ f.totalBuffers) (hlt : id < id')
    (h : buildPooledHandleForId f requested id = .ok l) (h' : buildPooledHandleForId f requested' id' = .ok l') :
    l.Apart l' := by
  have ⟨hotStride, hhot⟩ := hf.hotSlab
  simp only [FastPoolState.totalBuffers] at hid
  cases lt_or_ge f.hotSlabBuffers id'
  case inr hle =>
    rw [hf.hotHandle (by omega)] at h
    rw [hf.hotHandle hle] at h'
    exact hhot.apart (by omega) (by omega) (by omega) h h'
  case inl hwarm =>
    have ⟨slab, stride, hslab, hs, he⟩ := hf.warmHandle hwarm hid
    rw [he] at h'
    cases lt_or_ge f.hotSlabBuffers id
    case inl hwarm' =>
      have ⟨slab', _, hslab', _, he'⟩ := hf.warmHandle hwarm' (by simp only [FastPoolState.totalBuffers]; omega)
      cases hslab.symm.trans hslab'
      rw [he'] at h
      exact hs.apart (by omega) (by omega) (by omega) h h'
    case inr hle =>
      rw [hf.hotHandle hle] at h
      have hw := (hhot.slabHandle_eq_ok (by omega) h).2.2
      have hw' := (hs.slabHandle_eq_ok (by omega) h').2.2
      exact Lease.Within.apart (ha slab hslab) hw hw'

end FastPath

end Handles

end BufferPool

end ZarrIo
