import ServeModel.ZarrIo.Theorems.PoolLayout

-- What the layout of the pool has to satisfy, and when the code finds one.
namespace ZarrIo

open Nat

namespace BufferPool

section Size

variable {cfg : BufferPoolConfig} {hint : FirstWriteSizingHint} {alignment value n bytes : Nat}

-- The least multiple of the alignment that is not below the value.
def roundUp (alignment value : Nat) : Nat :=
  if value % alignment = 0 then value else value + (alignment - value % alignment)

theorem le_roundUp (alignment value : Nat) : value ≤ roundUp alignment value := by
  unfold roundUp
  split <;> omega

theorem roundUp_mod (ha : 0 < alignment) : roundUp alignment value % alignment = 0 := by
  have h : (value + if value % alignment = 0 then _ else _) % alignment = 0 := alignedStart_spec ha
  unfold roundUp
  split
  case isTrue hz => exact hz
  case isFalse hz => rwa [if_neg hz] at h

theorem roundUp_roundUp (ha : 0 < alignment) : roundUp alignment (roundUp alignment value) = roundUp alignment value :=
  if_pos (roundUp_mod ha)

theorem roundUp_le (ha : 0 < alignment) (hn : n % alignment = 0) (hv : value ≤ n) : roundUp alignment value ≤ n := by
  have hdiv := div_add_mod value alignment
  unfold roundUp
  split
  case isTrue => exact hv
  case isFalse hz =>
    have ⟨k, hk⟩ := dvd_of_mod_eq_zero hn
    have hq : value / alignment < k := by
      rw [div_lt_iff_lt_mul ha, mul_comm, ← hk]
      refine lt_of_le_of_ne hv fun he => hz ?_
      rw [he, hn]
    have := mul_le_mul_left alignment (succ_le_of_lt hq)
    rw [mul_succ] at this
    omega

theorem alignUp_cases (cfg : BufferPoolConfig) (value : Nat) :
    alignUp cfg value = .ok (roundUp cfg.poolAlignment.alignmentBytes value) ∨
      (∃ e, alignUp cfg value = .error e) ∧ wordMax < roundUp cfg.poolAlignment.alignmentBytes value := by
  unfold alignUp roundUp
  dsimp only
  split
  case isTrue => exact .inl rfl
  case isFalse =>
    by_cases hw : value + (cfg.poolAlignment.alignmentBytes - value % cfg.poolAlignment.alignmentBytes) ≤ wordMax
    case pos => exact .inl (by simp [checkedAdd, hw, orFail])
    case neg => exact .inr ⟨⟨_, by simp only [checkedAdd, hw, if_false, orFail]; rfl⟩, not_le.mp hw⟩

-- How many bytes a buffer has to hold, if the configuration says so.
def neededBytes (cfg : BufferPoolConfig) (hint : FirstWriteSizingHint) : Option Nat :=
  match cfg.poolBufferBytes, cfg.bufferSizingPolicy with
  | .fixed size, _ => some size
  | .auto, .fixedOnly => none
  | .auto, .firstWriteModelAwareAuto => some (max hint.firstWriteMaxRequiredBytes (modelProfileBaselineBytes cfg))

-- A configured size is kept, and a size of the pool's own is large enough.
def SizeSuits (cfg : BufferPoolConfig) (hint : FirstWriteSizingHint) (bytes : Nat) : Prop :=
  ∃ n, neededBytes cfg hint = some n ∧ n ≤ bytes ∧ ∀ size, cfg.poolBufferBytes = .fixed size → bytes = size

-- The size of a buffer and its stride, if the stride is a machine integer.
theorem sizes_cases (cfg : BufferPoolConfig) (hint : FirstWriteSizingHint)
    (hz : cfg.poolBufferBytes.fixedValue ≠ some 0) :
    (∃ n bytes, neededBytes cfg hint = some n ∧ pooledBufferBytes cfg hint = .ok bytes ∧
      SizeSuits cfg hint bytes ∧
      roundUp cfg.poolAlignment.alignmentBytes bytes = roundUp cfg.poolAlignment.alignmentBytes n) ∨
    (∃ e, pooledBufferBytes cfg hint = .error e) ∧
      ∀ n, neededBytes cfg hint = some n → wordMax < roundUp cfg.poolAlignment.alignmentBytes n := by
  cases hp : cfg.poolBufferBytes
  case fixed size =>
    rw [hp] at hz
    have hn : neededBytes cfg hint = some size := by simp [neededBytes, hp]
    refine .inl ⟨size, size, hn, ?_, ⟨size, hn, le_refl _, fun s hs => ?_⟩, rfl⟩
    · cases size
      case zero => exact absurd rfl hz
      case succ => simp [pooledBufferBytes, hp]
    · rw [hp] at hs
      exact SizeOverride.fixed.inj hs
  case auto =>
    cases hb : cfg.bufferSizingPolicy
    case fixedOnly =>
      refine .inr ⟨⟨_, by simp only [pooledBufferBytes, hp, hb]; rfl⟩, fun n hn => ?_⟩
      simp [neededBytes, hp, hb] at hn
    case firstWriteModelAwareAuto =>
      have hn : neededBytes cfg hint = some (max hint.firstWriteMaxRequiredBytes (modelProfileBaselineBytes cfg)) := by
        simp [neededBytes, hp, hb]
      have hcode : pooledBufferBytes cfg hint =
          alignUp cfg (max hint.firstWriteMaxRequiredBytes (modelProfileBaselineBytes cfg)) := by
        simp [pooledBufferBytes, hp, hb]
      rw [hcode]
      rcases alignUp_cases cfg (max hint.firstWriteMaxRequiredBytes (modelProfileBaselineBytes cfg)) with ha | ⟨he, hw⟩
      case inl =>
        refine .inl ⟨_, _, hn, ha, ⟨_, hn, le_roundUp _ _, fun s hs => ?_⟩, roundUp_roundUp (alignmentBytes_pos _)⟩
        rw [hp] at hs
        cases hs
      case inr =>
        refine .inr ⟨he, fun n hn' => ?_⟩
        rw [hn] at hn'
        cases hn'
        exact hw

end Size

section Shrink

variable {cfg : BufferPoolConfig} {stride bytes minHot hot warm : Nat}

theorem budget_of_le (h : hot + warm ≤ wordMax) (hm : (hot + warm) * stride ≤ wordMax) :
    pooledBytesWithinBudget cfg stride hot warm = .ok (decide ((hot + warm) * stride ≤ cfg.maxPoolBytes)) := by
  simp only [pooledBytesWithinBudget, checkedAdd, h, if_true, orFail, checkedMul, hm, bind, Except.bind, pure,
    Except.pure]

theorem budget_of_lt (hm : wordMax < (hot + warm) * stride) :
    ∃ e, pooledBytesWithinBudget cfg stride hot warm = .error e := by
  by_cases h : hot + warm ≤ wordMax
  case pos =>
    refine ⟨.poolInitialization "pooled byte budget computation overflowed usize", ?_⟩
    simp only [pooledBytesWithinBudget, checkedAdd, h, if_true, orFail, checkedMul, not_le.mpr hm, if_false, bind,
      Except.bind]
  case neg =>
    refine ⟨.poolInitialization "hot_slab_buffers + warm_slab_buffers overflowed usize", ?_⟩
    simp only [pooledBytesWithinBudget, checkedAdd, h, if_false, orFail, bind, Except.bind]

def leastHot (cfg : BufferPoolConfig) (minHot hot : Nat) : Nat :=
  if cfg.hotSlabBuffers.isAuto then minHot else hot

def leastWarm (cfg : BufferPoolConfig) (warm : Nat) : Nat :=
  if cfg.warmSlabBuffers.isAuto then 0 else warm

-- What is left of the buffers. Numbers of the configuration's own are kept.
structure Shrunk (cfg : BufferPoolConfig) (stride minHot hot warm : Nat) (r : Nat × Nat) : Prop where
  hot_le : r.1 ≤ hot
  warm_le : r.2 ≤ warm
  le_hot : leastHot cfg minHot hot ≤ r.1
  le_warm : leastWarm cfg warm ≤ r.2
  budget : (r.1 + r.2) * stride ≤ cfg.maxPoolBytes

-- The loop finds numbers that fit, unless the least ones do not.
def Shrinks (cfg : BufferPoolConfig) (stride minHot hot warm : Nat) : Except SyncWriteError (Nat × Nat) → Prop
  | .ok r => Shrunk cfg stride minHot hot warm r
  | .error _ => cfg.maxPoolBytes < (leastHot cfg minHot hot + leastWarm cfg warm) * stride

theorem leastHot_le (h : cfg.hotSlabBuffers.isAuto → minHot ≤ hot) : leastHot cfg minHot hot ≤ hot := by
  unfold leastHot
  split
  case isTrue ha => exact h ha
  case isFalse => exact le_refl _

theorem leastWarm_le : leastWarm cfg warm ≤ warm := by
  unfold leastWarm
  split <;> omega

theorem Shrinks.keep (hm : cfg.hotSlabBuffers.isAuto → minHot ≤ hot)
    (hb : (hot + warm) * stride ≤ cfg.maxPoolBytes) : Shrinks cfg stride minHot hot warm (.ok (hot, warm)) :=
  ⟨le_refl _, le_refl _, leastHot_le hm, leastWarm_le, hb⟩

-- Numbers that are found after one buffer less are found.
theorem Shrinks.of_le (h : Shrinks cfg stride minHot hot' warm' x) (hh : hot' ≤ hot) (hw : warm' ≤ warm)
    (lh : leastHot cfg minHot hot = leastHot cfg minHot hot') (lw : leastWarm cfg warm = leastWarm cfg warm') :
    Shrinks cfg stride minHot hot warm x := by
  cases x
  case ok r => exact ⟨le_trans h.hot_le hh, le_trans h.warm_le hw, lh ▸ h.le_hot, lw ▸ h.le_warm, h.budget⟩
  case error e =>
    show cfg.maxPoolBytes < _
    rw [lh, lw]
    exact h

theorem Shrinks.unless_fits (hm : cfg.hotSlabBuffers.isAuto → minHot ≤ hot) (hs : hot + warm ≤ wordMax)
    (hp : (hot + warm) * stride ≤ wordMax)
    (h : cfg.maxPoolBytes < (hot + warm) * stride → Shrinks cfg stride minHot hot warm x) :
    Shrinks cfg stride minHot hot warm (do
      if ← pooledBytesWithinBudget cfg stride hot warm then return (hot, warm)
      x) := by
  rw [budget_of_le hs hp]
  by_cases hb : (hot + warm) * stride ≤ cfg.maxPoolBytes
  case pos =>
    rw [decide_eq_true hb]
    exact .keep hm hb
  case neg =>
    rw [decide_eq_false hb]
    exact h (not_le.mp hb)

theorem shrinkHot_shrinks (hw : leastWarm cfg warm = warm) (hm : cfg.hotSlabBuffers.isAuto → minHot ≤ hot)
    (hs : hot + warm ≤ wordMax) (hp : (hot + warm) * stride ≤ wordMax) :
    Shrinks cfg stride minHot hot warm (shrinkHot cfg stride bytes minHot warm hot) := by
  induction hot
  case zero =>
    refine .unless_fits hm hs hp fun hb => ?_
    have hl : leastHot cfg minHot 0 = 0 := eq_zero_of_le_zero (leastHot_le hm)
    show cfg.maxPoolBytes < _
    rw [hl, hw]
    exact hb
  case succ hot hi =>
    refine .unless_fits hm hs hp fun hb => ?_
    split
    case isTrue hc =>
      have hmul : (hot + warm) * stride ≤ (hot + 1 + warm) * stride := mul_le_mul_right stride (by omega)
      have ih := hi (fun _ => le_of_lt_succ hc.2) (by omega) (le_trans hmul hp)
      exact ih.of_le (le_succ _) (le_refl _) (by simp [leastHot, hc.1]) rfl
    case isFalse hc =>
      have hl : leastHot cfg minHot (hot + 1) = hot + 1 := by
        unfold leastHot
        split
        case isTrue ha =>
          have := hm ha
          have := not_and.mp hc ha
          omega
        case isFalse => rfl
      show cfg.maxPoolBytes < _
      rw [hl, hw]
      exact hb

theorem shrinkWarm_shrinks (hm : cfg.hotSlabBuffers.isAuto → minHot ≤ hot)
    (hs : hot + warm ≤ wordMax) (hp : (hot + warm) * stride ≤ wordMax) :
    Shrinks cfg stride minHot hot warm (shrinkWarm cfg stride bytes minHot hot warm) := by
  induction warm
  case zero => exact shrinkHot_shrinks (eq_zero_of_le_zero leastWarm_le) hm hs hp
  case succ warm hi =>
    refine .unless_fits hm hs hp fun _ => ?_
    split
    case isTrue ha =>
      have hmul : (hot + warm) * stride ≤ (hot + (warm + 1)) * stride := mul_le_mul_right stride (by omega)
      have ih := hi (by omega) (le_trans hmul hp)
      exact ih.of_le (le_refl _) (le_succ _) rfl (by simp [leastWarm, ha])
    case isFalse ha => exact shrinkHot_shrinks (if_neg ha) hm hs hp

theorem shrinkWarm_overflow (h : wordMax < (hot + warm) * stride) :
    ∃ e, shrinkWarm cfg stride bytes minHot hot warm = .error e := by
  have ⟨e, he⟩ : ∃ e, pooledBytesWithinBudget cfg stride hot warm = .error e := budget_of_lt h
  cases warm
  case zero =>
    cases hot
    case zero | succ => exact ⟨e, by rw [shrinkWarm, shrinkHot, he]; rfl⟩
  case succ => exact ⟨e, by rw [shrinkWarm, he]; rfl⟩

end Shrink

section Capped

variable {cfg : BufferPoolConfig} {minHot hot warm hot' warm' : Nat}

structure Capped (cfg : BufferPoolConfig) (minHot hot warm hot' warm' : Nat) : Prop where
  sum_le : hot + warm ≤ wordMax
  hot_le : hot' ≤ hot
  warm_le : warm' ≤ warm
  le_hot : leastHot cfg minHot hot ≤ hot'
  le_warm : leastWarm cfg warm ≤ warm'
  -- a number of hot buffers that is configured is not looked at
  count : hot' + warm' = min (hot + warm) cfg.maxPoolBuffers ∨
    cfg.warmSlabBuffers.isAuto ∧ cfg.maxPoolBuffers < hot ∧ hot' = hot ∧ warm' = 0

def Caps (cfg : BufferPoolConfig) (minHot hot warm : Nat) : Except SyncWriteError (Nat × Nat) → Prop
  | .ok r => Capped cfg minHot hot warm r.1 r.2
  | .error _ => wordMax < hot + warm ∨
    ¬cfg.warmSlabBuffers.isAuto ∧ cfg.maxPoolBuffers < leastHot cfg minHot hot + leastWarm cfg warm

theorem cappedBuffers_caps (hp : 0 < minHot) (hm : cfg.hotSlabBuffers.isAuto → minHot ≤ hot) :
    Caps cfg minHot hot warm (cappedBuffers cfg minHot hot warm) := by
  have hl := leastHot_le hm
  have hlw : leastWarm cfg warm ≤ warm := leastWarm_le
  by_cases hs : hot + warm ≤ wordMax
  case neg =>
    have : cappedBuffers cfg minHot hot warm =
        .error (.poolInitialization "hot_slab_buffers + warm_slab_buffers overflowed usize") := by
      simp only [cappedBuffers, checkedAdd, hs, if_false, orFail, bind, Except.bind]
    rw [this]
    exact .inl (not_le.mp hs)
  case pos =>
    simp only [cappedBuffers, checkedAdd, hs, if_true, orFail]
    show Caps cfg minHot hot warm (if _ then _ else _)
    split
    case isTrue ht => exact ⟨hs, le_refl _, le_refl _, hl, hlw, .inl (by rw [min_eq_left ht])⟩
    case isFalse ht =>
      split
      case isTrue hc =>
        refine .inr ⟨hc.2, ?_⟩
        simp only [leastHot, leastWarm, hc]
        exact not_le.mp ht
      case isFalse hc =>
        split
        case isTrue ha =>
          refine ⟨hs, le_refl _, by simp only; omega, hl, by simp [leastWarm, ha], ?_⟩
          by_cases hh : cfg.maxPoolBuffers < hot
          case pos => exact .inr ⟨ha, hh, rfl, by simp only; omega⟩
          case neg => exact .inl (by simp only; omega)
        case isFalse hw =>
          have hauto : cfg.hotSlabBuffers.isAuto := by
            by_contra hn
            exact hc ⟨hn, hw⟩
          have hlh : leastHot cfg minHot hot = minHot := if_pos hauto
          have hlw : leastWarm cfg warm = warm := if_neg hw
          split
          case isTrue hlt => exact .inr ⟨hw, by rw [hlh, hlw]; omega⟩
          case isFalse hge =>
            refine ⟨hs, by simp only; omega, le_refl _, by rw [hlh]; simp only; omega, hlw.le, .inl ?_⟩
            omega

end Capped

section Layout

variable {cfg : BufferPoolConfig} {hint : FirstWriteSizingHint} {layout : ComputedPoolLayout}

def minHotBuffers (cfg : BufferPoolConfig) : Nat :=
  max (min cfg.minHotSlabBuffers cfg.maxPoolBuffers) 1

-- The numbers of buffers that the configuration and the first write ask for.

def wantedHot (cfg : BufferPoolConfig) (hint : FirstWriteSizingHint) : Nat :=
  cfg.hotSlabBuffers.fixedValue.getD (derivedBuffers cfg hint (minHotBuffers cfg)).1

def wantedWarm (cfg : BufferPoolConfig) (hint : FirstWriteSizingHint) : Nat :=
  cfg.warmSlabBuffers.fixedValue.getD (derivedBuffers cfg hint (minHotBuffers cfg)).2

-- What is asked of a layout.
structure Suits (cfg : BufferPoolConfig) (hint : FirstWriteSizingHint) (layout : ComputedPoolLayout) : Prop where
  size : SizeSuits cfg hint layout.pooledBufferBytes
  fits : layout.pooledBufferBytes ≤ layout.pooledBufferStride
  aligned : layout.pooledBufferStride % cfg.poolAlignment.alignmentBytes = 0
  hot_pos : 1 ≤ layout.hotSlabBuffers
  count : layout.hotSlabBuffers + layout.warmSlabBuffers ≤ cfg.maxPoolBuffers
  budget : (layout.hotSlabBuffers + layout.warmSlabBuffers) * layout.pooledBufferStride ≤ cfg.maxPoolBytes
  keepsHot : ∀ n, cfg.hotSlabBuffers = .fixed n → layout.hotSlabBuffers = n
  keepsWarm : ∀ n, cfg.warmSlabBuffers = .fixed n → layout.warmSlabBuffers = n
  least : cfg.hotSlabBuffers = .auto → min cfg.minHotSlabBuffers cfg.maxPoolBuffers ≤ layout.hotSlabBuffers

-- The layout that is returned suits, and there is none that does if none is returned.
structure LayoutRight (cfg : BufferPoolConfig) (hint : FirstWriteSizingHint) : Prop where
  suits : ∀ layout, computePoolLayout cfg hint = .ok layout → Suits cfg hint layout
  none : ∀ e, computePoolLayout cfg hint = .error e → ¬∃ layout, Suits cfg hint layout

structure Validated (cfg : BufferPoolConfig) : Prop where
  buffers : cfg.maxPoolBuffers ≠ 0
  bytes : cfg.maxPoolBytes ≠ 0
  size : cfg.poolBufferBytes.fixedValue ≠ some 0
  minHot : cfg.minHotSlabBuffers ≠ 0
  ratio : cfg.maxWarmToHotRatio ≠ 0
  hot : cfg.hotSlabBuffers.fixedValue ≠ some 0
  warm : cfg.warmSlabBuffers.fixedValue ≠ some 0

theorem validated_of_ok (h : cfg.validate = .ok ()) : Validated cfg := by
  simp only [BufferPoolConfig.validate, Except.ite_throw_eq_ok] at h
  have ⟨h₁, h₂, h₃, h₄, h₅, h₆, h₇, _⟩ := h
  exact ⟨h₁, h₂, h₃, h₄, h₅, h₆, h₇⟩

theorem Validated.minHot_eq (h : Validated cfg) :
    minHotBuffers cfg = min cfg.minHotSlabBuffers cfg.maxPoolBuffers := by
  have := h.buffers
  have := h.minHot
  unfold minHotBuffers
  omega

theorem minHot_le_wantedHot (hint : FirstWriteSizingHint) (h : Validated cfg) (ha : cfg.hotSlabBuffers.isAuto) :
    minHotBuffers cfg ≤ wantedHot cfg hint ∧ wantedHot cfg hint ≤ cfg.maxPoolBuffers := by
  have hm := h.minHot_eq
  cases hc : cfg.hotSlabBuffers
  case fixed => rw [hc] at ha; cases ha
  case auto =>
    have hw : wantedHot cfg hint = (derivedBuffers cfg hint (minHotBuffers cfg)).1 := by
      simp [wantedHot, hc, SizeOverride.fixedValue]
    rw [hw]
    simp only [derivedBuffers, clampUsize]
    omega

theorem wantedHot_pos (h : Validated cfg) : 0 < wantedHot cfg hint := by
  cases hc : cfg.hotSlabBuffers
  case fixed n =>
    have := h.hot
    rw [hc] at this
    simp only [wantedHot, hc, SizeOverride.fixedValue, Option.getD_some]
    exact pos_of_ne_zero fun hz => this (by rw [hz]; rfl)
  case auto =>
    have := (minHot_le_wantedHot hint h (by rw [hc]; rfl)).1
    unfold minHotBuffers at this
    omega

theorem computePoolLayout_eq (h : Validated cfg) : computePoolLayout cfg hint = do
    let bytes ← pooledBufferBytes cfg hint
    let stride ← alignUp cfg bytes
    let (hot, warm) ← cappedBuffers cfg (minHotBuffers cfg) (wantedHot cfg hint) (wantedWarm cfg hint)
    let (hot, warm) ← shrinkWarm cfg stride bytes (minHotBuffers cfg) hot warm
    return {
      pooledBufferBytes := bytes, pooledBufferStride := stride, hotSlabBuffers := hot, warmSlabBuffers := warm } := by
  have hw : ¬(¬cfg.warmSlabBuffers.isAuto ∧ wantedWarm cfg hint = 0) := by
    rintro ⟨ha, hz⟩
    cases hc : cfg.warmSlabBuffers
    case auto => rw [hc] at ha; exact ha rfl
    case fixed n =>
      simp only [wantedWarm, hc, SizeOverride.fixedValue, Option.getD_some] at hz
      exact h.warm (by rw [hc, hz]; rfl)
  have hh : wantedHot cfg hint ≠ 0 := (wantedHot_pos h).ne'
  unfold wantedHot minHotBuffers at hh
  unfold wantedWarm minHotBuffers at hw
  simp only [computePoolLayout, h.buffers, h.bytes, h.minHot, h.ratio, if_false, minHotBuffers, wantedHot, wantedWarm,
    hh, hw]

-- How a layout comes about.
structure Found (cfg : BufferPoolConfig) (hint : FirstWriteSizingHint) (n hot warm : Nat)
    (layout : ComputedPoolLayout) :
    Prop where
  needed : neededBytes cfg hint = some n
  size : SizeSuits cfg hint layout.pooledBufferBytes
  fits : layout.pooledBufferBytes ≤ layout.pooledBufferStride
  stride : layout.pooledBufferStride = roundUp cfg.poolAlignment.alignmentBytes n
  capped : Capped cfg (minHotBuffers cfg) (wantedHot cfg hint) (wantedWarm cfg hint) hot warm
  word : (hot + warm) * layout.pooledBufferStride ≤ wordMax
  shrunk : Shrunk cfg layout.pooledBufferStride (minHotBuffers cfg) hot warm
    (layout.hotSlabBuffers, layout.warmSlabBuffers)

-- Why there is none, for buffers that have to hold `n` bytes.
inductive Lost (cfg : BufferPoolConfig) (hint : FirstWriteSizingHint) (n : Nat) : Prop
  | stride (h : wordMax < roundUp cfg.poolAlignment.alignmentBytes n)
  | sum (h : wordMax < wantedHot cfg hint + wantedWarm cfg hint)
  | count (fixed : ¬cfg.warmSlabBuffers.isAuto)
    (h : cfg.maxPoolBuffers < leastHot cfg (minHotBuffers cfg) (wantedHot cfg hint) +
      leastWarm cfg (wantedWarm cfg hint))
  | product {hot warm : Nat}
    (capped : Capped cfg (minHotBuffers cfg) (wantedHot cfg hint) (wantedWarm cfg hint) hot warm)
    (h : wordMax < (hot + warm) * roundUp cfg.poolAlignment.alignmentBytes n)
  | budget (h : cfg.maxPoolBytes < (leastHot cfg (minHotBuffers cfg) (wantedHot cfg hint) +
      leastWarm cfg (wantedWarm cfg hint)) * roundUp cfg.poolAlignment.alignmentBytes n)

theorem Capped.leastHot_eq (h : Capped cfg minHot hot warm hot' warm') :
    leastHot cfg minHot hot' = leastHot cfg minHot hot := by
  have h₁ := h.hot_le
  have h₂ := h.le_hot
  unfold leastHot at *
  split
  case isTrue => rfl
  case isFalse hn =>
    rw [if_neg hn] at h₂
    omega

theorem Capped.leastWarm_eq (h : Capped cfg minHot hot warm hot' warm') :
    leastWarm cfg warm' = leastWarm cfg warm := by
  have h₁ := h.warm_le
  have h₂ := h.le_warm
  unfold leastWarm at *
  split
  case isTrue => rfl
  case isFalse hn =>
    rw [if_neg hn] at h₂
    omega

theorem computePoolLayout_cases (cfg : BufferPoolConfig) (hint : FirstWriteSizingHint) (hv : Validated cfg) :
    (∃ layout n hot warm, computePoolLayout cfg hint = .ok layout ∧ Found cfg hint n hot warm layout) ∨
    (∃ e, computePoolLayout cfg hint = .error e) ∧ ∀ n, neededBytes cfg hint = some n → Lost cfg hint n := by
  rw [computePoolLayout_eq hv]
  rcases sizes_cases cfg hint hv.size with ⟨n, bytes, hn, hb, hsize, hround⟩ | ⟨⟨e, he⟩, hw⟩
  case inr => exact .inr ⟨⟨e, by rw [he]; rfl⟩, fun n hn => .stride (hw n hn)⟩
  case inl =>
    have hlost {P : Prop} (h : P ∧ Lost cfg hint n) : P ∧ ∀ m, neededBytes cfg hint = some m → Lost cfg hint m :=
      ⟨h.1, fun m hm => Option.some.inj (hn.symm.trans hm) ▸ h.2⟩
    rcases alignUp_cases cfg bytes with ha | ⟨⟨e, he⟩, hw⟩
    case inr => exact .inr (hlost ⟨⟨e, by simp only [hb, he, bind, Except.bind]⟩, .stride (hround ▸ hw)⟩)
    case inl =>
      have hauto : cfg.hotSlabBuffers.isAuto → minHotBuffers cfg ≤ wantedHot cfg hint :=
        fun ha => (minHot_le_wantedHot hint hv ha).1
      have hpos : 0 < minHotBuffers cfg := lt_of_lt_of_le one_pos (le_max_right _ _)
      have hcaps : Caps cfg _ _ (wantedWarm cfg hint) _ := cappedBuffers_caps hpos hauto
      simp only [hb, ha, hround, bind, Except.bind]
      cases hc : cappedBuffers cfg (minHotBuffers cfg) (wantedHot cfg hint) (wantedWarm cfg hint)
      case error e =>
        rw [hc] at hcaps
        refine .inr (hlost ⟨⟨e, rfl⟩, ?_⟩)
        rcases hcaps with hs | ⟨hw, hcount⟩
        · exact .sum hs
        · exact .count hw hcount
      case ok capped =>
        obtain ⟨hot, warm⟩ := capped
        rw [hc] at hcaps
        have hcap : Capped cfg (minHotBuffers cfg) (wantedHot cfg hint) (wantedWarm cfg hint) hot warm := hcaps
        have hsum : hot + warm ≤ wordMax :=
          le_trans (Nat.add_le_add hcap.hot_le hcap.warm_le) hcap.sum_le
        have hmin : cfg.hotSlabBuffers.isAuto → minHotBuffers cfg ≤ hot := fun ha => by
          have := hcap.le_hot
          rwa [leastHot, if_pos ha] at this
        by_cases hw : (hot + warm) * roundUp cfg.poolAlignment.alignmentBytes n ≤ wordMax
        case neg =>
          have ⟨e, he⟩ : ∃ e, shrinkWarm cfg (roundUp cfg.poolAlignment.alignmentBytes n) bytes (minHotBuffers cfg) hot
              warm = .error e := shrinkWarm_overflow (not_le.mp hw)
          exact .inr (hlost ⟨⟨e, by simp only [he]⟩, .product hcap (not_le.mp hw)⟩)
        case pos =>
          have hshrinks : Shrinks cfg _ _ hot warm (shrinkWarm cfg _ bytes _ hot warm) :=
            shrinkWarm_shrinks hmin hsum hw
          cases hr : shrinkWarm cfg (roundUp cfg.poolAlignment.alignmentBytes n) bytes (minHotBuffers cfg) hot warm
          case error e =>
            rw [hr] at hshrinks
            refine .inr (hlost ⟨⟨e, by simp only [hr]⟩, .budget ?_⟩)
            have : cfg.maxPoolBytes < _ := hshrinks
            rwa [hcap.leastHot_eq, hcap.leastWarm_eq] at this
          case ok r =>
            rw [hr] at hshrinks
            refine .inl ⟨⟨bytes, roundUp cfg.poolAlignment.alignmentBytes n, r.1, r.2⟩, n, hot, warm, ?_,
              ⟨hn, hsize, ?_, rfl, hcap, hw, hshrinks⟩⟩
            · simp only [hr]
              rfl
            · show bytes ≤ roundUp cfg.poolAlignment.alignmentBytes n
              rw [← hround]
              exact le_roundUp _ _

-- The least layout that is asked for is within the caps.
structure Feasible (cfg : BufferPoolConfig) (hint : FirstWriteSizingHint) (n : Nat) : Prop where
  count : leastHot cfg (minHotBuffers cfg) (wantedHot cfg hint) + leastWarm cfg (wantedWarm cfg hint) ≤
    cfg.maxPoolBuffers
  budget : (leastHot cfg (minHotBuffers cfg) (wantedHot cfg hint) + leastWarm cfg (wantedWarm cfg hint)) *
    roundUp cfg.poolAlignment.alignmentBytes n ≤ cfg.maxPoolBytes

theorem wantedHot_of_fixed (h : cfg.hotSlabBuffers = .fixed n) : wantedHot cfg hint = n := by
  simp [wantedHot, h, SizeOverride.fixedValue]

theorem wantedWarm_of_fixed (h : cfg.warmSlabBuffers = .fixed n) : wantedWarm cfg hint = n := by
  simp [wantedWarm, h, SizeOverride.fixedValue]

theorem leastHot_of_fixed (h : cfg.hotSlabBuffers = .fixed n) (minHot hot : Nat) :
    leastHot cfg minHot hot = hot := by
  simp [leastHot, h, SizeOverride.isAuto]

theorem leastWarm_of_fixed (h : cfg.warmSlabBuffers = .fixed n) (warm : Nat) : leastWarm cfg warm = warm := by
  simp [leastWarm, h, SizeOverride.isAuto]

theorem leastHot_of_auto (h : cfg.hotSlabBuffers = .auto) (minHot hot : Nat) : leastHot cfg minHot hot = minHot := by
  simp [leastHot, h, SizeOverride.isAuto]

theorem leastHot_pos (hint : FirstWriteSizingHint) (hv : Validated cfg) :
    0 < leastHot cfg (minHotBuffers cfg) (wantedHot cfg hint) := by
  unfold leastHot
  split
  case isTrue => exact lt_of_lt_of_le one_pos (le_max_right _ _)
  case isFalse => exact wantedHot_pos hv

-- A number of hot buffers above the cap is a configured one.
theorem fixed_of_lt_wantedHot (hv : Validated cfg) (h : cfg.maxPoolBuffers < wantedHot cfg hint) :
    cfg.hotSlabBuffers = .fixed (wantedHot cfg hint) := by
  cases hc : cfg.hotSlabBuffers
  case auto =>
    have := (minHot_le_wantedHot hint hv (by rw [hc]; rfl)).2
    omega
  case fixed n => rw [wantedHot_of_fixed hc]

theorem Feasible.wantedHot_le (hv : Validated cfg) (h : Feasible cfg hint n) :
    wantedHot cfg hint ≤ cfg.maxPoolBuffers := by
  by_contra hn
  have hc := h.count
  rw [leastHot_of_fixed (fixed_of_lt_wantedHot hv (not_le.mp hn))] at hc
  omega

theorem Suits.feasible (hv : Validated cfg) (h : Suits cfg hint layout) :
    ∃ n, neededBytes cfg hint = some n ∧ Feasible cfg hint n := by
  have ⟨n, hn, hle, _⟩ := h.size
  have hhot : leastHot cfg (minHotBuffers cfg) (wantedHot cfg hint) ≤ layout.hotSlabBuffers := by
    cases hc : cfg.hotSlabBuffers
    case auto => rw [leastHot_of_auto hc, hv.minHot_eq]; exact h.least hc
    case fixed m => rw [leastHot_of_fixed hc, wantedHot_of_fixed hc, h.keepsHot m hc]
  have hwarm : leastWarm cfg (wantedWarm cfg hint) ≤ layout.warmSlabBuffers := by
    cases hc : cfg.warmSlabBuffers
    case auto => simp [leastWarm, hc, SizeOverride.isAuto]
    case fixed m => rw [leastWarm_of_fixed hc, wantedWarm_of_fixed hc, h.keepsWarm m hc]
  have hstride : roundUp cfg.poolAlignment.alignmentBytes n ≤ layout.pooledBufferStride :=
    roundUp_le (alignmentBytes_pos _) h.aligned (le_trans hle h.fits)
  refine ⟨n, hn, le_trans (Nat.add_le_add hhot hwarm) h.count, ?_⟩
  exact le_trans (Nat.mul_le_mul (Nat.add_le_add hhot hwarm) hstride) h.budget

theorem Feasible.suits (hv : Validated cfg) (hn : neededBytes cfg hint = some n) (h : Feasible cfg hint n) :
    Suits cfg hint {
      pooledBufferBytes := n
      pooledBufferStride := roundUp cfg.poolAlignment.alignmentBytes n
      hotSlabBuffers := leastHot cfg (minHotBuffers cfg) (wantedHot cfg hint)
      warmSlabBuffers := leastWarm cfg (wantedWarm cfg hint) } where
  size := ⟨n, hn, le_refl _, fun size hs => by simpa [neededBytes, hs, eq_comm] using hn⟩
  fits := le_roundUp _ _
  aligned := roundUp_mod (alignmentBytes_pos _)
  hot_pos := leastHot_pos hint hv
  count := h.count
  budget := h.budget
  keepsHot m hc := by simp only [leastHot_of_fixed hc, wantedHot_of_fixed hc]
  keepsWarm m hc := by simp only [leastWarm_of_fixed hc, wantedWarm_of_fixed hc]
  least hc := by simp only [leastHot_of_auto hc, hv.minHot_eq, le_refl]

-- No sum or product on the way overflows where a layout exists, and a configured number of hot buffers above the
-- cap does not fit the budget either.
structure Tractable (cfg : BufferPoolConfig) (hint : FirstWriteSizingHint) : Prop where
  words : ∀ n, neededBytes cfg hint = some n → Feasible cfg hint n →
    wantedHot cfg hint + wantedWarm cfg hint ≤ wordMax ∧
    min (wantedHot cfg hint + wantedWarm cfg hint) cfg.maxPoolBuffers *
      roundUp cfg.poolAlignment.alignmentBytes n ≤ wordMax
  capped : ∀ n hot, neededBytes cfg hint = some n → cfg.hotSlabBuffers = .fixed hot → cfg.warmSlabBuffers.isAuto →
    cfg.maxPoolBuffers < hot → hot + wantedWarm cfg hint ≤ wordMax →
    cfg.maxPoolBytes < hot * roundUp cfg.poolAlignment.alignmentBytes n

variable {n hot warm : Nat}

-- Under the cap the total is what is asked for, as far as the cap lets it be.
theorem Capped.total (hv : Validated cfg) (hf : Feasible cfg hint n)
    (h : Capped cfg (minHotBuffers cfg) (wantedHot cfg hint) (wantedWarm cfg hint) hot warm) :
    hot + warm = min (wantedHot cfg hint + wantedWarm cfg hint) cfg.maxPoolBuffers := by
  rcases h.count with hc | ⟨_, hlt, _⟩
  · exact hc
  · exact absurd (hf.wantedHot_le hv) (not_le.mpr hlt)

-- Where a layout exists, nothing but an overflow keeps the code from finding one.
theorem Feasible.not_lost (hv : Validated cfg) (hw : cfg.maxPoolBytes ≤ wordMax) (hf : Feasible cfg hint n)
    (hs : wantedHot cfg hint + wantedWarm cfg hint ≤ wordMax)
    (hp : min (wantedHot cfg hint + wantedWarm cfg hint) cfg.maxPoolBuffers *
      roundUp cfg.poolAlignment.alignmentBytes n ≤ wordMax) : ¬Lost cfg hint n := by
  intro hl
  have hpos := leastHot_pos hint hv
  have hbudget := hf.budget
  cases hl
  case stride h =>
    have := Nat.le_mul_of_pos_left (roundUp cfg.poolAlignment.alignmentBytes n)
      (Nat.add_pos_left hpos (leastWarm cfg (wantedWarm cfg hint)))
    omega
  case sum h | budget h => omega
  case count _ h => exact absurd hf.count (not_le.mpr h)
  case product hcap h =>
    rw [hcap.total hv hf] at h
    omega

theorem Found.suits (hv : Validated cfg) (ht : Tractable cfg hint) (h : Found cfg hint n hot warm layout) :
    Suits cfg hint layout := by
  have hlh : leastHot cfg (minHotBuffers cfg) (wantedHot cfg hint) ≤ layout.hotSlabBuffers :=
    h.capped.leastHot_eq ▸ h.shrunk.le_hot
  have hlw : leastWarm cfg (wantedWarm cfg hint) ≤ layout.warmSlabBuffers :=
    h.capped.leastWarm_eq ▸ h.shrunk.le_warm
  have hh : layout.hotSlabBuffers ≤ hot := h.shrunk.hot_le
  have hw : layout.warmSlabBuffers ≤ warm := h.shrunk.warm_le
  have hhot := h.capped.hot_le
  have hwarm := h.capped.warm_le
  have hpos := leastHot_pos hint hv
  constructor
  case size => exact h.size
  case fits => exact h.fits
  case aligned => rw [h.stride]; exact roundUp_mod (alignmentBytes_pos _)
  case hot_pos => omega
  case budget => exact h.shrunk.budget
  case keepsHot =>
    intro m hc
    rw [leastHot_of_fixed hc, wantedHot_of_fixed hc] at hlh
    rw [wantedHot_of_fixed hc] at hhot
    omega
  case keepsWarm =>
    intro m hc
    rw [leastWarm_of_fixed hc, wantedWarm_of_fixed hc] at hlw
    rw [wantedWarm_of_fixed hc] at hwarm
    omega
  case least =>
    intro hc
    rwa [leastHot_of_auto hc, hv.minHot_eq] at hlh
  case count =>
    rcases h.capped.count with hc | ⟨ha, hlt, _⟩
    · omega
    · -- then the number above the cap would have been found to fit
      have hc := fixed_of_lt_wantedHot hv hlt
      rw [leastHot_of_fixed hc] at hlh
      have hover := ht.capped n _ h.needed hc ha hlt h.capped.sum_le
      have hfit : (layout.hotSlabBuffers + layout.warmSlabBuffers) * layout.pooledBufferStride ≤ cfg.maxPoolBytes :=
        h.shrunk.budget
      rw [h.stride] at hfit
      have := mul_le_mul_right (roundUp cfg.poolAlignment.alignmentBytes n)
        (le_trans hlh (le_add_right _ layout.warmSlabBuffers))
      omega

-- The code lays the pool out right exactly for these configurations and first writes.
theorem computePoolLayout_right_iff (cfg : BufferPoolConfig) (hint : FirstWriteSizingHint)
    (hv : cfg.validate = .ok ()) (hw : cfg.maxPoolBytes ≤ wordMax) :
    LayoutRight cfg hint ↔ Tractable cfg hint := by
  have hv := validated_of_ok hv
  constructor
  case mpr =>
    intro ht
    rcases computePoolLayout_cases cfg hint hv with ⟨layout, n, hot, warm, hok, hf⟩ | ⟨⟨e, he⟩, hlost⟩
    case inl =>
      constructor
      case suits =>
        intro layout' h
        cases hok.symm.trans h
        exact hf.suits hv ht
      case none =>
        intro e h
        cases hok.symm.trans h
    case inr =>
      constructor
      case suits =>
        intro layout' h
        cases he.symm.trans h
      case none =>
        rintro e' _ ⟨layout, hs⟩
        have ⟨n, hn, hf⟩ := hs.feasible hv
        have ⟨hsum, hprod⟩ := ht.words n hn hf
        exact hf.not_lost hv hw hsum hprod (hlost n hn)
  case mp =>
    intro hr
    constructor
    case words =>
      intro n hn hf
      rcases computePoolLayout_cases cfg hint hv with ⟨layout, m, hot, warm, hok, hfound⟩ | ⟨⟨e, he⟩, _⟩
      case inl =>
        cases Option.some.inj (hn.symm.trans hfound.needed)
        have hword := hfound.word
        rw [hfound.stride, hfound.capped.total hv hf] at hword
        exact ⟨hfound.capped.sum_le, hword⟩
      case inr => exact absurd ⟨_, hf.suits hv hn⟩ (hr.none e he)
    case capped =>
      intro n hot hn hc ha hlt hsum
      have hwanted : wantedHot cfg hint = hot := wantedHot_of_fixed hc
      have hleast : leastHot cfg (minHotBuffers cfg) (wantedHot cfg hint) = hot := by
        rw [leastHot_of_fixed hc, hwanted]
      have hleastWarm : leastWarm cfg (wantedWarm cfg hint) = 0 := if_pos ha
      by_contra hfit
      rcases computePoolLayout_cases cfg hint hv with ⟨layout, m, hot', warm', hok, hfound⟩ | ⟨_, hlost⟩
      case inl =>
        have hs := hr.suits layout hok
        have := hs.keepsHot hot hc
        have := hs.count
        omega
      case inr =>
        cases hlost n hn
        case stride h =>
          have := Nat.le_mul_of_pos_left (roundUp cfg.poolAlignment.alignmentBytes n) (Nat.zero_lt_of_lt hlt)
          omega
        case sum h => rw [hwanted] at h; omega
        case count hfix h => exact hfix ha
        case product hcap h =>
          have hle := hcap.le_hot
          rcases hcap.count with hmin | ⟨_, _, heq, hzero⟩
          · omega
          · rw [heq, hwanted, hzero, add_zero] at h
            omega
        case budget h =>
          rw [hleast, hleastWarm, add_zero] at h
          omega

-- A pool of four buffers of 4 KiB at most, sized by the first write.
def smallPool : BufferPoolConfig where
  maxPoolBuffers := 4
  maxPoolBytes := 32768
  poolBufferBytes := .fixed 4096
  hotSlabBuffers := .auto
  warmSlabBuffers := .auto
  bufferSizingPolicy := .firstWriteModelAwareAuto
  modelProfileHint := none
  minHotSlabBuffers := 1
  maxWarmToHotRatio := 2
  globalFallbackChunkBytes := 4096
  poolAlignment := .align4KiB

theorem smallPool_right : LayoutRight smallPool ⟨3, 4096⟩ := by
  refine (computePoolLayout_right_iff smallPool ⟨3, 4096⟩ (by decide) (by decide)).mpr ⟨?_, ?_⟩
  · intro n hn _
    cases hn
    decide
  · intro n hot _ hc
    cases hc

-- More hot buffers than the cap allows are laid out, and a pool of one buffer that would fit is not.
theorem layout_wrong :
    (∃ cfg hint layout, cfg.validate = .ok () ∧ computePoolLayout cfg hint = .ok layout ∧
      cfg.maxPoolBuffers < layout.hotSlabBuffers + layout.warmSlabBuffers) ∧
    ∃ cfg hint e layout, cfg.validate = .ok () ∧ computePoolLayout cfg hint = .error e ∧ Suits cfg hint layout := by
  constructor
  · exact ⟨{ smallPool with hotSlabBuffers := .fixed 5 }, ⟨1, 4096⟩, ⟨4096, 4096, 5, 0⟩, by decide, rfl, by decide⟩
  · refine ⟨{ smallPool with maxPoolBytes := 2 ^ 63, poolBufferBytes := .fixed (2 ^ 63) }, ⟨1, 4096⟩,
      .poolInitialization "pooled byte budget computation overflowed usize", ⟨2 ^ 63, 2 ^ 63, 1, 0⟩, by decide, rfl, ?_⟩
    exact {
      size := ⟨2 ^ 63, rfl, le_refl _, fun size hs => SizeOverride.fixed.inj hs⟩
      fits := le_refl _
      aligned := by decide
      hot_pos := le_refl _
      count := by decide
      budget := by decide
      keepsHot := fun _ hc => (nomatch hc)
      keepsWarm := fun _ hc => (nomatch hc)
      least := fun _ => by decide }

end Layout

end BufferPool

end ZarrIo
