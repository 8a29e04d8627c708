import Mathlib.Algebra.Order.BigOperators.Group.List
import Mathlib.Algebra.Order.BigOperators.GroupWithZero.List
import Mathlib.Data.List.Nodup
import Mathlib.Tactic.Ring

-- The elements of a box in row-major order: the last axis is the fastest.
namespace RowMajor

open List Nat Function

variable {n k : Nat} {ns ms ps qs : List Nat}

-- A position in a box with sides `ns`.
abbrev Within (ps ns : List Nat) : Prop :=
  List.Forall₂ (· < ·) ps ns

def offset : List Nat → List Nat → Nat
  | _ :: ns, p :: ps => p * ns.prod + offset ns ps
  | _, _ => 0

def position : List Nat → Nat → List Nat
  | [], _ => []
  | n :: ns, k => k / ns.prod % n :: position ns k

@[simp]
theorem length_position : (position ns k).length = ns.length := by
  induction ns
  case nil => rfl
  case cons hi => simp [position, hi]

theorem prod_pos_of_within (h : Within ps ns) : 0 < ns.prod := by
  induction h
  case nil => simp
  case cons hp _ hi =>
    exact mul_pos (by omega) hi

theorem offset_lt (h : Within ps ns) : offset ns ps < ns.prod := by
  induction h
  case nil => simp [offset]
  case cons p n ps ns hp _ hi =>
    calc p * ns.prod + offset ns ps
      _ < p * ns.prod + ns.prod := by omega
      _ = (p + 1) * ns.prod     := by rw [add_mul, one_mul]
      _ ≤ n * ns.prod           := mul_le_mul_right _ hp
      _ = (n :: ns).prod        := prod_cons.symm

theorem position_add (q : Nat) (hk : 0 < ns.prod) : position ns (q * ns.prod + k) = position ns k := by
  induction ns generalizing q
  case nil => rfl
  case cons n ns hi =>
    have hns : 0 < ns.prod := by
      exact Nat.pos_of_mul_pos_left hk
    have hq : q * (n :: ns).prod = q * n * ns.prod := by rw [prod_cons, mul_assoc]
    simp only [position]
    rw [hq, hi _ hns, add_comm, add_mul_div_right _ _ hns, add_mul_mod_self_right]

theorem position_mod (hk : 0 < ns.prod) : position ns (k % ns.prod) = position ns k := by
  conv_rhs => rw [← div_add_mod k ns.prod, mul_comm]
  exact (position_add _ hk).symm

theorem position_offset (h : Within ps ns) : position ns (offset ns ps) = ps := by
  induction h
  case nil => rfl
  case cons p n ps ns hp hps hi =>
    have hlt := offset_lt hps
    simp only [position, offset]
    have hpos := prod_pos_of_within hps
    rw [position_add p hpos, hi, add_comm, add_mul_div_right _ _ hpos,
      div_eq_of_lt hlt, zero_add, mod_eq_of_lt hp]

theorem offset_injective (hp : Within ps ns) (hq : Within qs ns) (h : offset ns ps = offset ns qs) : ps = qs := by
  rw [← position_offset hp, h, position_offset hq]

theorem within_position (hn : ∀ n ∈ ns, 0 < n) : Within (position ns k) ns := by
  induction ns
  case nil => exact .nil
  case cons n ns hi =>
    simp only [forall_mem_cons] at hn
    exact .cons (mod_lt _ hn.1) (hi hn.2)

theorem offset_position (hk : k < ns.prod) : offset ns (position ns k) = k := by
  induction ns generalizing k
  case nil =>
    simp only [prod_nil] at hk
    simp only [offset]
    omega
  case cons n ns hi =>
    have hns : 0 < ns.prod := pos_of_ne_zero fun h => by simp [h] at hk
    have hdiv : k / ns.prod < n := Nat.div_lt_of_lt_mul (Nat.mul_comm n ns.prod ▸ hk)
    simp only [position, offset]
    rw [← position_mod hns, hi (mod_lt _ hns), mod_eq_of_lt hdiv, mul_comm, div_add_mod]

theorem offset_append (h : ps.length = ns.length) :
    offset (ns ++ ms) (ps ++ qs) = offset ns ps * ms.prod + offset ms qs := by
  induction ns generalizing ps
  case nil => simp [length_eq_zero_iff.mp h, offset]
  case cons n ns hi =>
    cases ps
    case nil => simp at h
    case cons p ps =>
      simp only [cons_append, offset, hi (Nat.succ.inj h), prod_append]
      ring

-- A block and a place in it are determined by the place of an element among all elements.
theorem block_unique (ho : o < e) (ho' : o' < e) (h : k * e + o = k' * e + o') : k = k' ∧ o = o' := by
  have hdiv {k o : Nat} (ho : o < e) : (k * e + o) / e = k := by
    rw [mul_comm, mul_add_div (by omega), div_eq_of_lt ho, add_zero]
  have hk : k = k' := calc
    k = (k * e + o) / e := (hdiv ho).symm
    _ = (k' * e + o') / e := by rw [h]
    _ = k' := hdiv ho'
  subst hk
  exact ⟨rfl, add_left_cancel h⟩

section Axes

-- Boxes whose axes have names.
variable {ι : Type} {len pos : ι → Nat} {ds es : List ι} {d e : ι}

def offsetOf (len pos : ι → Nat) (ds : List ι) : Nat :=
  offset (ds.map len) (ds.map pos)

theorem offsetOf_cons : offsetOf len pos (d :: ds) = pos d * (ds.map len).prod + offsetOf len pos ds :=
  rfl

theorem offsetOf_append :
    offsetOf len pos (ds ++ es) = offsetOf len pos ds * (es.map len).prod + offsetOf len pos es := by
  simp only [offsetOf, map_append]
  exact offset_append (by simp)

theorem offsetOf_congr (h : ∀ d ∈ ds, pos d = pos' d) : offsetOf len pos ds = offsetOf len pos' ds := by
  rw [offsetOf, offsetOf, map_congr_left h]

theorem within_map (h : ∀ d ∈ ds, pos d < len d) : Within (ds.map pos) (ds.map len) := by
  rw [Within, List.forall₂_map_left_iff, List.forall₂_map_right_iff, List.forall₂_same]
  exact h

theorem exists_map_eq [DecidableEq ι] (hn : ds.Nodup) (hl : ps.length = ds.length) :
    ∃ pos : ι → Nat, ds.map pos = ps := by
  induction ds generalizing ps
  case nil => exact ⟨fun _ => 0, (length_eq_zero_iff.mp hl).symm⟩
  case cons d ds hi =>
    cases ps
    case nil => simp at hl
    case cons p ps =>
      simp only [nodup_cons] at hn
      have ⟨pos, hp⟩ := hi hn.2 (Nat.succ.inj hl)
      refine ⟨Function.update pos d p, ?_⟩
      have hc : ds.map (Function.update pos d p) = ds.map pos :=
        map_congr_left fun e he => update_of_ne (ne_of_mem_of_not_mem he hn.1) ..
      rw [map_cons, update_self, hc, hp]

theorem prod_filter : ((ds.filter (len · ≠ 1)).map len).prod = (ds.map len).prod := by
  induction ds
  case nil => rfl
  case cons d ds hi =>
    by_cases hd : len d = 1
    case pos => simpa [hd] using hi
    case neg => simpa [hd] using congrArg (len d * ·) hi

theorem offsetOf_filter (h : ∀ d ∈ ds, pos d < len d) :
    offsetOf len pos (ds.filter (len · ≠ 1)) = offsetOf len pos ds := by
  induction ds
  case nil => rfl
  case cons d ds hi =>
    simp only [forall_mem_cons] at h
    by_cases hd : len d = 1
    case pos =>
      have hz : pos d = 0 := by omega
      rw [offsetOf_cons, hz, zero_mul, zero_add, ← hi h.2, filter_cons_of_neg (by simp [hd])]
    case neg =>
      rw [filter_cons_of_pos (by simp [hd]), offsetOf_cons, offsetOf_cons, hi h.2, prod_filter]

theorem offsetOf_zero (h : ∀ d ∈ ds, pos d = 0) : offsetOf len pos ds = 0 := by
  induction ds
  case nil => rfl
  case cons d ds hi =>
    simp only [forall_mem_cons] at h
    rw [offsetOf_cons, h.1, hi h.2, zero_mul]

theorem two_le_prod (h : ∀ d ∈ ds, 2 ≤ len d) (hd : d ∈ ds) : 2 ≤ (ds.map len).prod := by
  have hpos : ∀ n ∈ ds.map len, 1 ≤ n := by
    simp only [forall_mem_map]
    exact fun d hd => one_le_of_lt (h d hd)
  exact (h d hd).trans (single_le_prod hpos _ (mem_map_of_mem hd))

section Order

variable [DecidableEq ι]

-- The offset of the second element along one axis is the size of the axes after it.
theorem offsetOf_single (hd : d ∉ ds) (he : d ∉ es) :
    offsetOf len (Function.update 0 d 1) (ds ++ d :: es) = (es.map len).prod := by
  have hz {fs : List ι} (h : d ∉ fs) : offsetOf len (Function.update 0 d 1) fs = 0 :=
    offsetOf_zero fun f hf => by simp [update_of_ne (ne_of_mem_of_not_mem hf h)]
  rw [offsetOf_append, offsetOf_cons, hz hd, hz he]
  simp

-- The order of axes that are longer than one is determined by the offsets.
theorem order_unique (hn : ds.Nodup) (hp : ds.Perm es) (hl : ∀ d ∈ ds, 2 ≤ len d)
    (h : ∀ pos : ι → Nat, (∀ d ∈ ds, pos d < len d) → offsetOf len pos ds = offsetOf len pos es) : ds = es := by
  induction ds generalizing es
  case nil => exact hp.nil_eq
  case cons d ds hi =>
    have hd : d ∈ es := hp.subset (mem_cons_self ..)
    have ⟨es₁, es₂, hes⟩ := append_of_mem hd
    subst hes
    have hperm : ds.Perm (es₁ ++ es₂) := (hp.trans perm_middle).cons_inv
    have hnd : d ∉ ds := (nodup_cons.mp hn).1
    have hne' : d ∉ es₁ ++ es₂ := fun h => hnd (hperm.symm.subset h)
    simp only [mem_append, not_or] at hne'
    have hpos : ∀ e ∈ d :: ds, (Function.update 0 d 1 : ι → Nat) e < len e := by
      intro e he
      have := hl e he
      by_cases hed : e = d
      case pos => subst hed; rw [update_self]; omega
      case neg => rw [update_of_ne hed]; simp; omega
    -- the axis comes first on the left, so that nothing can come before it on the right
    have heq := h _ hpos
    have hleft : offsetOf len (Function.update 0 d 1) (d :: ds) = (ds.map len).prod :=
      offsetOf_single not_mem_nil hnd
    rw [hleft, offsetOf_single hne'.1 hne'.2, (hperm.map len).prod_eq, map_append, prod_append] at heq
    have hnil : es₁ = [] := by
      by_contra hnil
      have ⟨e, he⟩ := exists_mem_of_ne_nil es₁ hnil
      have hl₁ : ∀ e ∈ es₁, 2 ≤ len e := fun e he =>
        hl e (mem_cons_of_mem _ (hperm.symm.subset (mem_append_left _ he)))
      have h2 := two_le_prod hl₁ he
      have hpos₂ : 0 < (es₂.map len).prod := prod_pos (by
        simp only [forall_mem_map]
        intro e he
        have := hl e (mem_cons_of_mem _ (hperm.symm.subset (mem_append_right _ he)))
        omega)
      have : 2 * (es₂.map len).prod ≤ (es₁.map len).prod * (es₂.map len).prod := mul_le_mul_right _ h2
      omega
    subst hnil
    congr 1
    apply hi (nodup_cons.mp hn).2 (by simpa using hperm) (fun e he => hl e (mem_cons_of_mem _ he))
    intro pos hw
    have hcongr {fs : List ι} (hf : d ∉ fs) :
        offsetOf len (Function.update pos d 0) fs = offsetOf len pos fs :=
      offsetOf_congr fun f hm => update_of_ne (ne_of_mem_of_not_mem hm hf) ..
    have := h (Function.update pos d 0) (by
      intro e he
      have := hl e he
      by_cases hed : e = d
      case pos => subst hed; simp; omega
      case neg => rw [update_of_ne hed]; exact hw e (mem_of_ne_of_mem hed he))
    simpa [offsetOf_cons, hcongr hnd, hcongr hne'.2] using this

end Order

end Axes

end RowMajor
