import ServeModel.ZarrIo.Theorems.Planner

-- The ways to look a value up on an axis, and the plain lookup that they stand for.
namespace ZarrIo

open List hiding lookup

section Lookup

variable {α β : Type} {f g : α → Option β} {v : α} {step registered : List α} {i j : Nat}

theorem mapM_cons_of_some (h : f v = some b) : (v :: step).mapM f = (step.mapM f).map (b :: ·) := by
  rw [mapM_cons, h]
  cases step.mapM f <;> rfl

theorem mapM_cons_of_none (h : f v = none) : (v :: step).mapM f = none := by
  rw [mapM_cons, h]
  rfl

theorem mapM_isSome : (step.mapM f).isSome ↔ ∀ v ∈ step, (f v).isSome := by
  induction step
  case nil => simp
  case cons v step hi =>
    rw [forall_mem_cons, ← hi]
    cases hv : f v
    case none => simp [mapM_cons_of_none hv]
    case some b => simp [mapM_cons_of_some hv]

-- Two lookups that fail alike agree unless all values are found.
theorem mapM_eq_mapM_iff (h : ∀ v, (f v).isSome ↔ (g v).isSome) :
    step.mapM f = step.mapM g ↔ ((∀ v ∈ step, (g v).isSome) → ∀ v ∈ step, f v = g v) := by
  constructor
  case mp =>
    intro he hs v hv
    have ⟨ys, hy⟩ := Option.isSome_iff_exists.mp (mapM_isSome.mpr hs)
    have hf := Option.mapM_eq_some.mp (he.trans hy)
    have hg := Option.mapM_eq_some.mp hy
    have ⟨k, hk, hv⟩ := getElem_of_mem hv
    have h₁ := hf.get hk (hf.length_eq ▸ hk)
    have h₂ := hg.get hk (hg.length_eq ▸ hk)
    simp only [get_eq_getElem, hv] at h₁ h₂
    rw [h₁, h₂]
  case mpr =>
    intro he
    cases hs : (step.mapM g).isSome
    case true =>
      have ⟨ys, hy⟩ := Option.isSome_iff_exists.mp hs
      have hsame := he (mapM_isSome.mp hs)
      rw [hy]
      refine Option.mapM_eq_some.mpr (List.forall₂_iff_get.mpr ?_)
      have hg := Option.mapM_eq_some.mp hy
      refine ⟨hg.length_eq, fun k h₁ h₂ => ?_⟩
      rw [hsame _ (get_mem _ _)]
      exact hg.get h₁ h₂
    case false =>
      have hn : ¬(step.mapM f).isSome := by
        rw [mapM_isSome, forall₂_congr fun v _ => h v, ← mapM_isSome, hs]
        exact Bool.false_ne_true
      rw [Option.not_isSome_iff_eq_none.mp hn, Option.isSome_eq_false_iff.mp hs |> Option.isNone_iff_eq_none.mp]

def IsLast (registered : List α) (v : α) (i : Nat) : Prop :=
  registered[i]? = some v ∧ ∀ j, i < j → registered[j]? ≠ some v

def Unique (registered : List α) (v : α) : Prop :=
  ∀ i j : Nat, registered[i]? = some v → registered[j]? = some v → i = j

variable [DecidableEq α]

-- The plain lookup.
def firstIndex (registered : List α) (v : α) : Option Nat :=
  registered.findIdx? (· == v)

theorem firstIndex_isSome : (firstIndex registered v).isSome ↔ v ∈ registered := by
  simp [firstIndex, findIdx?_isSome]

-- Where the last position is returned, it is the first one exactly for a value that is not repeated.
theorem IsLast.eq_first_iff (h : IsLast registered v i) :
    some i = firstIndex registered v ↔ Unique registered v := by
  have hm : v ∈ registered := List.mem_of_getElem? h.1
  have ⟨k, hk⟩ := Option.isSome_iff_exists.mp (firstIndex_isSome.mpr hm)
  have ⟨w, hw, he⟩ := finds_findIdx hk
  obtain rfl := beq_iff_eq.mp he
  have ⟨_, _, hfirst⟩ := List.findIdx?_eq_some_iff_getElem.mp hk
  have hmin : ∀ j, registered[j]? = some w → k ≤ j := by
    intro j hj
    by_contra hlt
    have ⟨hl, hj⟩ := List.getElem?_eq_some_iff.mp hj
    exact hfirst j (Nat.not_le.mp hlt) (by simp [hj])
  have hmax : ∀ j, registered[j]? = some w → j ≤ i := fun j hj => Nat.not_lt.mp fun hlt => h.2 j hlt hj
  rw [hk, Option.some.injEq]
  constructor
  case mp =>
    rintro rfl a b ha hb
    rw [le_antisymm (hmax a ha) (hmin a ha), le_antisymm (hmax b hb) (hmin b hb)]
  case mpr => exact fun hu => hu i k h.1 hw

structure FindsLast (lookup : α → Option Nat) (registered : List α) : Prop where
  last : ∀ v i, lookup v = some i → IsLast registered v i
  all : ∀ v ∈ registered, (lookup v).isSome

theorem FindsLast.isSome_iff (h : FindsLast lookup registered) (v : α) :
    (lookup v).isSome ↔ (firstIndex registered v).isSome := by
  rw [firstIndex_isSome]
  constructor
  case mp =>
    intro hs
    have ⟨i, hi⟩ := Option.isSome_iff_exists.mp hs
    exact List.mem_of_getElem? (h.last v i hi).1
  case mpr => exact h.all v

-- The lookup stands for the plain one unless all values are on the axis and one of them is repeated there.
theorem FindsLast.mapM_eq_iff (h : FindsLast lookup registered) :
    step.mapM lookup = step.mapM (firstIndex registered) ↔
      ((∀ v ∈ step, v ∈ registered) → ∀ v ∈ step, Unique registered v) := by
  rw [mapM_eq_mapM_iff h.isSome_iff]
  simp only [firstIndex_isSome]
  refine forall_congr' fun hall => forall₂_congr fun v hv => ?_
  have ⟨i, hi⟩ := Option.isSome_iff_exists.mp (h.all v (hall v hv))
  rw [hi]
  exact (h.last v i hi).eq_first_iff

theorem hashMapIndex_concat :
    hashMapIndex (xs ++ [x]) v = if x = v then some xs.length else hashMapIndex xs v := by
  simp only [hashMapIndex, zipIdx_append, reverse_append, zipIdx_singleton, reverse_singleton,
    singleton_append, find?_cons]
  by_cases h : x = v <;> simp [h]

theorem findsLast_hashMapIndex (registered : List α) : FindsLast (hashMapIndex registered) registered := by
  induction registered using List.reverseRecOn
  case nil => exact ⟨fun v i h => (by cases h), fun v h => (by cases h)⟩
  case append_singleton xs x hi =>
    constructor
    case last =>
      intro v i h
      rw [hashMapIndex_concat] at h
      by_cases hx : x = v
      case pos =>
        rw [if_pos hx] at h
        cases h
        exact ⟨by simp [hx], fun j hj => by rw [getElem?_eq_none (by simp; omega)]; rintro ⟨⟩⟩
      case neg =>
        rw [if_neg hx] at h
        obtain ⟨hv, hl⟩ := hi.last v i h
        obtain ⟨hlt, _⟩ := List.getElem?_eq_some_iff.mp hv
        refine ⟨by rwa [getElem?_append_left hlt], fun j hj hv => ?_⟩
        by_cases hjx : j < xs.length
        case pos =>
          rw [getElem?_append_left hjx] at hv
          exact hl j hj hv
        case neg =>
          rw [getElem?_append_right (Nat.not_lt.mp hjx)] at hv
          exact hx (mem_singleton.mp (mem_of_getElem? hv)).symm
    case all =>
      intro v hv
      rw [hashMapIndex_concat]
      by_cases hx : x = v
      case pos => rw [if_pos hx]; rfl
      case neg =>
        rw [if_neg hx]
        rcases mem_append.mp hv with hv | hv
        · exact hi.all v hv
        · exact absurd (mem_singleton.mp hv).symm hx

end Lookup

section BinarySearch

variable {α : Type} {le : α → α → Bool} {values : List α} {v a b : α}

-- What the search asks of an order.
structure Orders (le : α → α → Bool) : Prop where
  refl : ∀ a, le a a
  trans : ∀ {a b c}, le a b → le b c → le a c
  antisymm : ∀ {a b}, le a b → le b a → a = b

theorem Orders.pairwise (ho : Orders le) (h : isSorted le values) : values.Pairwise (le · ·) := by
  induction values
  case nil => exact .nil
  case cons a values hi =>
    rcases values with _ | ⟨b, values⟩
    case nil => exact pairwise_singleton _ _
    case cons =>
      simp only [isSorted, tail_cons, zip_cons_cons, all_cons, Bool.and_eq_true] at h
      have hp := hi h.2
      refine pairwise_cons.mpr ⟨fun x hx => ?_, hp⟩
      rcases mem_cons.mp hx with rfl | hx
      · exact h.1
      · exact ho.trans h.1 ((pairwise_cons.mp hp).1 x hx)

theorem Orders.le_of_index (ho : Orders le) (h : values.Pairwise (le · ·)) {i j : Nat} (hij : i ≤ j)
    (hi : values[i]? = some a) (hj : values[j]? = some b) : le a b := by
  have ⟨hil, hi⟩ := List.getElem?_eq_some_iff.mp hi
  have ⟨hjl, hj⟩ := List.getElem?_eq_some_iff.mp hj
  subst hi hj
  rcases Nat.eq_or_lt_of_le hij with rfl | hlt
  · exact ho.refl _
  · exact pairwise_iff_getElem.mp h i j hil hjl hlt

-- The search ends at the last position that the predicate holds at, if it holds anywhere.
theorem binarySearchFrom_spec (hp : ∀ i j : Nat, i ≤ j → values[j]?.any p → values[i]?.any p) (hf : size ≤ fuel)
    (hb : base = 0 ∨ values[base]?.any p) (hout : ∀ j : Nat, base + size ≤ j → ¬values[j]?.any p) :
    let found := binarySearchFrom p values fuel base size
    (found = 0 ∨ values[found]?.any p) ∧ ∀ j : Nat, found < j → ¬values[j]?.any p := by
  induction fuel generalizing base size
  case zero =>
    rw [binarySearchFrom]
    exact ⟨hb, fun j hj => hout j (by omega)⟩
  case succ fuel hi =>
    rw [binarySearchFrom]
    split
    case isTrue => exact ⟨hb, fun j hj => hout j (by omega)⟩
    case isFalse hs =>
      dsimp only
      split
      case isTrue hmid => exact hi (by omega) (.inr hmid) fun j hj => hout j (by omega)
      case isFalse hmid =>
        refine hi (by omega) hb fun j hj hpj => hmid (hp _ j ?_ hpj)
        omega

variable [DecidableEq α]

theorem findsLast_binarySearch (ho : Orders le) (hs : isSorted le values) :
    FindsLast (binarySearch le values) values := by
  have hpair := ho.pairwise hs
  have hdown (v : α) (i j : Nat) (hij : i ≤ j) (hj : values[j]?.any (le · v)) : values[i]?.any (le · v) := by
    obtain ⟨b, hb, hle⟩ := exists_of_any hj
    obtain ⟨hl, _⟩ := List.getElem?_eq_some_iff.mp hb
    have hi := getElem?_eq_getElem (lt_of_le_of_lt hij hl)
    rw [hi]
    exact ho.trans (ho.le_of_index hpair hij hi hb) hle
  have hspec (v : α) := binarySearchFrom_spec (hdown v) (le_refl values.length) (.inl rfl) fun j hj => by
    rw [getElem?_eq_none (by omega)]
    exact Bool.false_ne_true
  have hhit {v : α} {j : Nat} (hj : values[j]? = some v) : values[j]?.any (le · v) := by
    rw [hj]
    exact ho.refl v
  constructor
  case last =>
    intro v i h
    simp only [binarySearch] at h
    split at h
    case isTrue hv =>
      cases h
      exact ⟨hv, fun j hj he => (hspec v).2 j hj (hhit he)⟩
    case isFalse => cases h
  case all =>
    intro v hv
    obtain ⟨k, hk⟩ := mem_iff_getElem?.mp hv
    obtain ⟨hzero, hafter⟩ := hspec v
    simp only [binarySearch]
    generalize binarySearchFrom (le · v) values values.length 0 values.length = found at hzero hafter ⊢
    have hle : k ≤ found := Nat.not_lt.mp fun hlt => hafter k hlt (hhit hk)
    have hany : values[found]?.any (le · v) := by
      rcases hzero with hz | hany
      · exact hdown v found k (by omega) (hhit hk)
      · exact hany
    -- the value there is not less than the one in search of, and not more either
    obtain ⟨w, hw, hwv⟩ := exists_of_any hany
    rw [hw, ho.antisymm hwv (ho.le_of_index hpair hle hk hw), if_pos rfl]
    rfl

-- No value that is looked up is repeated on the axis, if all of them are there.
def NotRepeated {α : Type} (step registered : List α) : Prop :=
  (∀ v ∈ step, v ∈ registered) → ∀ v ∈ step, Unique registered v

theorem mapM_sortedIndex_iff (ho : Orders le) :
    step.mapM (sortedIndex le values) = step.mapM (firstIndex values) ↔
      (isSorted le values → NotRepeated step values) := by
  by_cases hs : isSorted le values
  case pos =>
    have he : sortedIndex le values = binarySearch le values := funext fun v => if_pos hs
    rw [he, (findsLast_binarySearch ho hs).mapM_eq_iff]
    simp [hs, NotRepeated]
  case neg =>
    have he : sortedIndex le values = firstIndex values := funext fun v => if_neg hs
    simp [he, hs]

theorem orders_int64 : Orders fun a b : Int64 => decide (a ≤ b) where
  refl _ := decide_eq_true (Int64.le_refl _)
  trans h₁ h₂ := decide_eq_true (Int64.le_trans (of_decide_eq_true h₁) (of_decide_eq_true h₂))
  antisymm h₁ h₂ := Int64.le_antisymm (of_decide_eq_true h₁) (of_decide_eq_true h₂)

theorem orders_uint64 : Orders fun a b : UInt64 => decide (a ≤ b) where
  refl _ := decide_eq_true (UInt64.le_refl _)
  trans h₁ h₂ := decide_eq_true (UInt64.le_trans (of_decide_eq_true h₁) (of_decide_eq_true h₂))
  antisymm h₁ h₂ := UInt64.le_antisymm (of_decide_eq_true h₁) (of_decide_eq_true h₂)

end BinarySearch

section Affine

variable {start gap d v : Int64} {registered step : List Int64}

-- The distance of the value from the start of the axis is a 64 bit integer.
def Near (start v : Int64) : Prop :=
  -2 ^ 63 ≤ v.toInt - start.toInt ∧ v.toInt - start.toInt < 2 ^ 63

-- The remainder of the distance overflows.
def Breaks (start gap v : Int64) : Prop :=
  v.toInt - start.toInt = -2 ^ 63 ∧ gap = -1

theorem checkedSub_eq_some : checkedSub v start = some d ↔ d.toInt = v.toInt - start.toInt := by
  simp only [checkedSub]
  constructor
  case mp =>
    intro h
    split at h
    case isTrue hr =>
      cases h
      exact Int64.toInt_ofInt_of_le (by omega) (by omega)
    case isFalse => cases h
  case mpr =>
    intro h
    have h₁ := d.le_toInt
    have h₂ := d.toInt_lt
    rw [if_pos (by omega), ← h, Int64.ofInt_toInt]

theorem checkedSub_isSome : (checkedSub v start).isSome ↔ Near start v := by
  simp only [checkedSub, Near]
  split <;> simp_all

theorem breaks_iff : checkedSub v start = some Int64.minValue ∧ gap = -1 ↔ Breaks start gap v := by
  rw [checkedSub_eq_some, Breaks, eq_comm]
  rfl

theorem evenlySpaced_getElem {k : Nat} (h : evenlySpaced gap a rest)
    (hk : (a :: rest)[k]? = some b) : b.toInt = a.toInt + k * gap.toInt := by
  induction rest generalizing a k
  case nil =>
    cases k
    case zero => cases hk; simp
    case succ => cases hk
  case cons c rest hi =>
    simp only [evenlySpaced, Bool.and_eq_true, beq_iff_eq] at h
    cases k
    case zero => cases hk; simp
    case succ k =>
      have hc := checkedSub_eq_some.mp h.1
      have hb := hi h.2 (k := k) (by simpa using hk)
      push_cast
      rw [Int.add_mul]
      omega

structure IsAffine (start gap : Int64) (registered : List Int64) : Prop where
  moves : gap ≠ 0
  spaced : ∀ (k : Nat) b, registered[k]? = some b → b.toInt = start.toInt + k * gap.toInt

theorem affineI64Axis_eq_some (h : affineI64Axis registered = some (start, gap, len)) :
    len = registered.length ∧ IsAffine start gap registered := by
  rcases registered with _ | ⟨first, _ | ⟨next, rest⟩⟩
  case nil | cons.nil => cases h
  case cons.cons =>
    simp only [affineI64Axis] at h
    split at h
    case h_1 => cases h
    case h_2 =>
      split at h
      case isTrue => cases h
      case isFalse hz =>
        split at h
        case isFalse => cases h
        case isTrue he =>
          cases h
          exact ⟨rfl, hz, fun k b => evenlySpaced_getElem he⟩

theorem IsAffine.gap_ne_zero (h : IsAffine start gap registered) : gap.toInt ≠ 0 :=
  fun hz => h.moves (Int64.toInt_inj.mp hz)

theorem IsAffine.index_unique (h : IsAffine start gap registered) : Unique registered v := by
  intro i j hi hj
  have hij := (h.spaced i v hi).symm.trans (h.spaced j v hj)
  have := mul_right_cancel₀ h.gap_ne_zero (Int.add_left_cancel hij)
  exact_mod_cast this

theorem firstIndex_of_unique (hu : Unique registered v) (hk : registered[k]? = some v) :
    firstIndex registered v = some k := by
  have ⟨i, hi⟩ := Option.isSome_iff_exists.mp (firstIndex_isSome.mpr (mem_of_getElem? hk))
  have ⟨w, hw, he⟩ := finds_findIdx hi
  rw [hi, hu i k (by rw [hw, beq_iff_eq.mp he]) hk]

-- Within reach, the arithmetic finds what the plain lookup finds.
theorem affineIndex_eq (h : IsAffine start gap registered) (hn : Near start v) :
    affineIndex start gap registered.length registered v = firstIndex registered v := by
  by_cases hm : v ∈ registered
  case pos =>
    have ⟨k, hk⟩ := List.mem_iff_getElem?.mp hm
    have ⟨hlt, _⟩ := List.getElem?_eq_some_iff.mp hk
    have ⟨d, hd⟩ := Option.isSome_iff_exists.mp (checkedSub_isSome.mpr hn)
    have hdist : d.toInt = k * gap.toInt := by
      have := h.spaced k v hk
      have := checkedSub_eq_some.mp hd
      omega
    rw [firstIndex_of_unique h.index_unique hk]
    simp [affineIndex, hd, hdist, Int.mul_tdiv_cancel _ h.gap_ne_zero, hk, Nat.not_le.mpr hlt]
  case neg =>
    have hnone : firstIndex registered v = none :=
      Option.not_isSome_iff_eq_none.mp (mt firstIndex_isSome.mp hm)
    rw [hnone]
    cases hi : affineIndex start gap registered.length registered v
    case none => rfl
    case some i => exact absurd (List.mem_of_getElem? (finds_affineIndex hi)) hm

theorem affineIndex_eq_none (hn : ¬Near start v) : affineIndex start gap len registered v = none := by
  have : checkedSub v start = none := Option.not_isSome_iff_eq_none.mp (mt checkedSub_isSome.mp hn)
  simp [affineIndex, this]

-- No remainder overflows before a value without an index is met, and if all values are on the axis then all of
-- them are in reach.
structure AffineFaithful (start gap : Int64) (step registered : List Int64) : Prop where
  intact : ∀ before v after, step = before ++ v :: after → (∀ u ∈ before, u ∈ registered ∧ Near start u) →
    ¬Breaks start gap v
  near : (∀ v ∈ step, v ∈ registered) → ∀ v ∈ step, Near start v

theorem AffineFaithful.nil : AffineFaithful start gap [] registered where
  intact before v after h := by simp at h
  near _ _ h := (nomatch h)

theorem AffineFaithful.cons_iff (hv : v ∈ registered) (hn : Near start v) (hb : ¬Breaks start gap v) :
    AffineFaithful start gap (v :: step) registered ↔ AffineFaithful start gap step registered := by
  constructor
  case mp =>
    intro h
    constructor
    case intact =>
      intro before u after hs hu
      exact h.intact (v :: before) u after (by rw [hs]; rfl) (forall_mem_cons.mpr ⟨⟨hv, hn⟩, hu⟩)
    case near =>
      intro hall
      exact (forall_mem_cons.mp (h.near (forall_mem_cons.mpr ⟨hv, hall⟩))).2
  case mpr =>
    intro h
    constructor
    case intact =>
      intro before u after hs hu
      rcases before with _ | ⟨w, before⟩
      case nil => cases hs; exact hb
      case cons =>
        cases hs
        exact h.intact before u after rfl (forall_mem_cons.mp hu).2
    case near =>
      intro hall
      exact forall_mem_cons.mpr ⟨hn, h.near (forall_mem_cons.mp hall).2⟩

-- A first value that is off the axis or out of reach ends the lookup.
theorem AffineFaithful.cons_iff_of_stops (hb : ¬Breaks start gap v) (hs : ¬(v ∈ registered ∧ Near start v)) :
    AffineFaithful start gap (v :: step) registered ↔
      ((∀ u ∈ v :: step, u ∈ registered) → ∀ u ∈ v :: step, Near start u) := by
  refine ⟨AffineFaithful.near, fun h => ⟨fun before u after hsplit hu => ?_, h⟩⟩
  rcases before with _ | ⟨w, before⟩
  case nil => cases hsplit; exact hb
  case cons =>
    cases hsplit
    exact absurd (forall_mem_cons.mp hu).1 hs

theorem collectIndices_affine_iff (h : IsAffine start gap registered) :
    collectIndices (affineIndexOrPanic start gap registered.length registered) step =
        .ok (step.mapM (firstIndex registered)) ↔
      AffineFaithful start gap step registered := by
  induction step
  case nil => exact iff_of_true rfl .nil
  case cons v step hi =>
    by_cases hb : Breaks start gap v
    case pos =>
      have hl : affineIndexOrPanic start gap registered.length registered v = .error .remainderOverflow :=
        if_pos (breaks_iff.mpr hb)
      rw [collectIndices, hl]
      refine iff_of_false (by simp) fun hf => hf.intact [] v step rfl (fun _ hm => (nomatch hm)) hb
    case neg =>
      have hl : affineIndexOrPanic start gap registered.length registered v =
          .ok (affineIndex start gap registered.length registered v) := if_neg (mt breaks_iff.mp hb)
      rw [collectIndices, hl]
      by_cases hn : Near start v
      case pos =>
        rw [affineIndex_eq h hn]
        cases hf : firstIndex registered v
        case some i =>
          have hv : v ∈ registered := firstIndex_isSome.mp (by rw [hf]; rfl)
          rw [mapM_cons_of_some hf, AffineFaithful.cons_iff hv hn hb, ← hi]
          generalize collectIndices (affineIndexOrPanic start gap registered.length registered) step = x
          rcases x with p | _ | ys <;> cases step.mapM (firstIndex registered) <;>
            simp [Except.map]
        case none =>
          have hv : v ∉ registered := fun hm => by
            have := firstIndex_isSome.mpr hm
            rw [hf] at this
            cases this
          rw [mapM_cons_of_none hf, AffineFaithful.cons_iff_of_stops hb fun hm => hv hm.1]
          exact iff_of_true rfl fun hall => absurd (hall v mem_cons_self) hv
      case neg =>
        rw [affineIndex_eq_none hn, AffineFaithful.cons_iff_of_stops hb fun hm => hn hm.2]
        have hall : ((v :: step).mapM (firstIndex registered)).isSome ↔ ∀ u ∈ v :: step, u ∈ registered := by
          rw [mapM_isSome]
          exact forall₂_congr fun u _ => firstIndex_isSome
        rw [← hall]
        cases (v :: step).mapM (firstIndex registered)
        case none => exact iff_of_true rfl fun h => (nomatch h)
        case some _ => exact iff_of_false (by simp) fun h => hn (h rfl v mem_cons_self)

end Affine

section Axis

variable {fl : Floats} {α β : Type} {prefer : Bool}

-- Where it does not panic, the lookup with the panic in it is the one that the planner uses.
theorem collectIndices_eq_ok (h : collectIndices (affineIndexOrPanic start gap len registered) step = .ok x) :
    step.mapM (affineIndex start gap len registered) = x := by
  induction step generalizing x
  case nil => cases h; rfl
  case cons v step hi =>
    rw [collectIndices, affineIndexOrPanic] at h
    split at h
    case h_1 => cases h
    case h_2 hl =>
      split at hl
      case isTrue => cases hl
      case isFalse =>
        cases h
        exact mapM_cons_of_none (Except.ok.inj hl)
    case h_3 hl =>
      split at hl
      case isTrue => cases hl
      case isFalse =>
        rw [mapM_cons_of_some (Except.ok.inj hl)]
        cases hc : collectIndices (affineIndexOrPanic start gap len registered) step
        case error => rw [hc] at h; cases h
        case ok y =>
          rw [hc] at h
          rw [hi hc]
          exact Except.ok.inj h

theorem i64IndicesOrPanic_eq_ok
    (h : i64IndicesOrPanic resolver step registered = .ok x) : i64Indices resolver step registered = x := by
  cases resolver
  case affine start gap len =>
    simp only [i64IndicesOrPanic, i64Indices] at h ⊢
    split at h
    case isTrue hz => rw [if_pos hz]; exact Except.ok.inj h
    case isFalse hz => rw [if_neg hz]; exact collectIndices_eq_ok h
  all_goals exact Except.ok.inj h

theorem indexOfStepValuesOrPanic_eq_ok (h : indexOfStepValuesOrPanic resolver step registered = .ok x) :
    indexOfStepValuesWithResolver resolver step registered = x := by
  unfold indexOfStepValuesOrPanic at h
  split at h
  case h_4 => exact Except.ok.inj h
  all_goals exact i64IndicesOrPanic_eq_ok h

-- Each value of the step is the first position of the axis that holds it.
def naiveIndices (step registered : CoordValues fl) : Option (List Nat) :=
  step.toList.mapM fun v => registered.toList.findIdx? v.matches

def I64Faithful (preferAffineResolver : Bool) (step registered : List Int64) : Prop :=
  match preferAffineResolver, affineI64Axis registered with
  | true, some (start, gap, _) => AffineFaithful start gap step registered
  | _, _ => isSorted (fun a b => a ≤ b) registered → NotRepeated step registered

-- The lookup does not panic and finds what the plain one finds.
def Faithful (preferAffineResolver : Bool) : CoordValues fl → CoordValues fl → Prop
  | .i64 step, .i64 registered | .datetimeNs step, .datetimeNs registered
  | .timedeltaNs step, .timedeltaNs registered => I64Faithful preferAffineResolver step registered
  | .u64 step, .u64 registered => isSorted (fun a b => a ≤ b) registered → NotRepeated step registered
  | .utf8 step, .utf8 registered => NotRepeated step registered
  | .i32 _, .i32 _ | .u32 _, .u32 _ | .f32 _, .f32 _ | .f64 _, .f64 _ => True
  | .i64 _, .i32 _ | .i32 _, .i64 _ | .i64 _, .u32 _ | .u32 _, .i64 _ => True
  | .u64 _, .u32 _ | .u32 _, .u64 _ | .f64 _, .f32 _ | .f32 _, .f64 _ => True
  -- values of other types are never equal
  | step, _ => step.toList ≠ []

theorem naive_map {inj : α → CoordValue fl} {step : List α} {values : List β}
    (h : ∀ v, f v = values.findIdx? fun w => (inj v).matches (out w)) :
    ((step.map inj).mapM fun v => (values.map out).findIdx? v.matches) = step.mapM f := by
  rw [mapM_map]
  congr 1
  funext v
  rw [h v, Function.comp_apply, findIdx?_map]
  rfl

theorem naive_map_first [DecidableEq α] {inj : α → CoordValue fl} {step values : List α}
    (h : ∀ v w, (inj v).matches (inj w) = (v == w)) :
    ((step.map inj).mapM fun v => (values.map inj).findIdx? v.matches) = step.mapM (firstIndex values) := by
  apply naive_map
  intro v
  simp only [firstIndex, h]
  congr 1
  funext w
  exact BEq.comm

theorem naive_eq_none_iff {step registered : CoordValues fl}
    (h : ∀ v ∈ step.toList, ∀ w ∈ registered.toList, v.matches w = false) :
    none = naiveIndices step registered ↔ step.toList ≠ [] := by
  unfold naiveIndices
  rcases hs : step.toList with _ | ⟨v, rest⟩
  case nil => simp
  case cons =>
    rw [mapM_cons_of_none]
    · simp
    · exact findIdx?_eq_none_iff.mpr (h v (by simp [hs]))

theorem i64_faithful_iff (hr : resolver = match prefer, affineI64Axis registered with
      | true, some (start, gap, len) => .affine start gap len
      | _, _ => .sortedBinarySearch) :
    i64IndicesOrPanic resolver step registered = .ok (step.mapM (firstIndex registered)) ↔
      I64Faithful prefer step registered := by
  subst hr
  have hsorted : i64IndicesOrPanic .sortedBinarySearch step registered = .ok (step.mapM (firstIndex registered)) ↔
      (isSorted (fun a b => a ≤ b) registered → NotRepeated step registered) :=
    Except.pure_eq_ok.trans (mapM_sortedIndex_iff orders_int64)
  unfold I64Faithful
  rcases prefer with _ | _
  case false => exact hsorted
  case true =>
    cases ha : affineI64Axis registered
    case none => exact hsorted
    case some found =>
      obtain ⟨start, gap, len⟩ := found
      have ⟨hl, haff⟩ := affineI64Axis_eq_some ha
      subst hl
      simp only [i64IndicesOrPanic, haff.moves, ne_eq, not_true_eq_false, or_self, if_false]
      exact collectIndices_affine_iff haff

theorem findIdx_tryFrom [BEq α] [LawfulBEq α] {tryFrom : Int → Option α} {toInt : α → Int}
    (h : ∀ {v c}, tryFrom v = some c ↔ toInt c = v) {values : List α} :
    ((tryFrom v).bind fun coerced => values.findIdx? (· == coerced)) = values.findIdx? fun w => v == toInt w := by
  cases hc : tryFrom v
  case some c =>
    rw [Option.bind_some]
    congr 1
    funext w
    rw [Bool.eq_iff_iff, beq_iff_eq, beq_iff_eq, eq_comm (a := v), ← h, hc, Option.some.injEq, eq_comm]
  case none =>
    rw [Option.bind_none, eq_comm, findIdx?_eq_none_iff]
    intro w _
    rw [beq_eq_false_iff_ne]
    rintro rfl
    cases hc.symm.trans (h.mpr rfl)

-- The lookup with the resolver of the axis stands for the plain one exactly on a faithful axis.
theorem indexOfStepValues_eq_naive_iff (prefer : Bool) (step registered : CoordValues fl) :
    indexOfStepValuesOrPanic (resolverForAxis prefer registered) step registered =
        .ok (naiveIndices step registered) ↔ Faithful prefer step registered := by
  cases step <;> cases registered
  case i64.i64 | datetimeNs.datetimeNs | timedeltaNs.timedeltaNs =>
    simp only [naiveIndices, CoordValues.toList]
    rw [naive_map_first fun _ _ => rfl]
    exact i64_faithful_iff rfl
  case u64.u64 =>
    simp only [naiveIndices, CoordValues.toList]
    rw [naive_map_first fun _ _ => rfl]
    exact Except.pure_eq_ok.trans (mapM_sortedIndex_iff orders_uint64)
  case utf8.utf8 =>
    simp only [naiveIndices, CoordValues.toList]
    rw [naive_map_first fun _ _ => rfl]
    exact Except.pure_eq_ok.trans (findsLast_hashMapIndex _).mapM_eq_iff
  case i32.i32 | u32.u32 =>
    refine iff_of_true (congrArg Except.ok ?_) trivial
    exact (naive_map_first fun _ _ => rfl).symm
  case f32.f32 | f32.f64 | f64.f32 | f64.f64 =>
    refine iff_of_true (congrArg Except.ok ?_) trivial
    refine (naive_map fun v => ?_).symm
    rfl
  -- the coercions
  case i64.i32 =>
    refine iff_of_true (congrArg Except.ok ?_) trivial
    exact (naive_map fun _ => findIdx_tryFrom i32TryFrom_eq_some).symm
  case i64.u32 =>
    refine iff_of_true (congrArg Except.ok ?_) trivial
    exact (naive_map fun _ => findIdx_tryFrom u32TryFrom_eq_some).symm
  case u64.u32 =>
    refine iff_of_true (congrArg Except.ok ?_) trivial
    refine (naive_map fun v => (findIdx_tryFrom u32TryFrom_eq_some).trans ?_).symm
    congr 1
    funext w
    simp [CoordValue.matches]
  case i32.i64 | u32.i64 | u32.u64 =>
    refine iff_of_true (congrArg Except.ok ?_) trivial
    refine (naive_map fun v => ?_).symm
    congr 1
    funext w
    exact BEq.comm
  all_goals exact Except.pure_eq_ok.trans (naive_eq_none_iff (by simp [CoordValues.toList, CoordValue.matches]))

-- A descending axis and the value that is furthest below its start, a text that occurs twice, and an axis that
-- spans more than half of the integers.
theorem indexOfStepValues_ne_naive :
    (∃ step registered : CoordValues noFloats,
      indexOfStepValuesOrPanic (resolverForAxis true registered) step registered = .error .remainderOverflow) ∧
    (∃ step registered : CoordValues noFloats,
      indexOfStepValuesOrPanic (resolverForAxis true registered) step registered = .ok (some [1]) ∧
        naiveIndices step registered = some [0]) ∧
    ∃ step registered : CoordValues noFloats,
      indexOfStepValuesOrPanic (resolverForAxis true registered) step registered = .ok none ∧
        naiveIndices step registered = some [2] := by
  refine ⟨⟨.i64 [Int64.minValue], .i64 [0, -1], ?_⟩, ⟨.utf8 ["a"], .utf8 ["a", "a"], ?_, ?_⟩,
    ⟨.i64 [9223372036854775806], .i64 [-9223372036854775808, -1, 9223372036854775806], ?_, ?_⟩⟩
  all_goals decide

end Axis

end ZarrIo
