import Mathlib.Data.Finset.Dedup
import Mathlib.Data.List.Destutter
import Mathlib.Data.List.Sort

-- When joined texts can be told apart.
namespace Join

open List

-- Two lists of texts that differ and yet read the same once they are joined: after a common start one text goes
-- on where the separator stands in the other list.
inductive Slips {α : Type} (sep : List α) : List (List α) → List (List α) → Prop
  | next (a as bs) : (Slips sep as bs) → Slips sep (a :: as) (a :: bs)
  | left (a d as bs) : (d ≠ []) → (d ++ (sep ++ sep.intercalate as) = sep ++ sep.intercalate bs) →
      Slips sep ((a ++ d) :: as) (a :: bs)
  | right (a d as bs) : (d ≠ []) → (sep ++ sep.intercalate as = d ++ (sep ++ sep.intercalate bs)) →
      Slips sep (a :: as) ((a ++ d) :: bs)

section Slips

variable {α : Type} {sep : List α} {a b d : List α} {as bs : List (List α)}

theorem Slips.ne (h : Slips sep as bs) : as ≠ bs := by
  induction h
  case next hi => simpa using hi
  case left hd _ | right hd _ => simp [hd]

theorem intercalate_cons (h : as ≠ []) : sep.intercalate (a :: as) = a ++ (sep ++ sep.intercalate as) := by
  cases as
  case nil => exact absurd rfl h
  case cons b as => simp [List.intercalate]

theorem Slips.intercalate_eq (h : Slips sep as bs) : as.length = bs.length →
    sep.intercalate as = sep.intercalate bs := by
  induction h
  case next a as bs h hi =>
    intro hl
    cases as
    case nil => cases h
    case cons c as =>
      cases bs
      case nil => cases hl
      case cons b bs =>
        rw [intercalate_cons (cons_ne_nil c as), intercalate_cons (cons_ne_nil b bs),
          hi (by simpa using hl)]
  case left a d as bs hd h | right a d as bs hd h =>
    intro hl
    cases as
    case nil =>
      cases bs
      case nil =>
        -- the last text has nothing to slip into
        have := congrArg List.length h
        simp [hd] at this
      case cons b bs => cases hl
    case cons c as =>
      cases bs
      case nil => cases hl
      case cons b bs =>
        rw [intercalate_cons (cons_ne_nil c as), intercalate_cons (cons_ne_nil b bs),
          append_assoc, h]

-- Lists of the same length read the same exactly if they are the same or slip.
theorem intercalate_eq_iff (hl : as.length = bs.length) :
    sep.intercalate as = sep.intercalate bs ↔ as = bs ∨ Slips sep as bs := by
  constructor
  case mpr =>
    intro h
    cases h
    case inl h => rw [h]
    case inr h => exact h.intercalate_eq hl
  case mp =>
    intro h
    induction as generalizing bs
    case nil =>
      cases bs
      case nil => exact .inl rfl
      case cons => cases hl
    case cons a as hi =>
      cases bs
      case nil => cases hl
      case cons b bs =>
        have hl : as.length = bs.length := by simpa using hl
        by_cases hn : as = []
        case pos =>
          subst hn
          cases length_eq_zero_iff.mp hl.symm
          exact .inl (by simpa using h)
        case neg =>
          have hn' : bs ≠ [] := fun hb => hn (length_eq_zero_iff.mp (by simpa [hb] using hl))
          rw [intercalate_cons hn, intercalate_cons hn', append_eq_append_iff] at h
          cases h
          case inl h =>
            have ⟨d, hb, ht⟩ := h
            rw [hb]
            by_cases hd : d = []
            case neg => exact .inr (.right a d as bs hd ht)
            case pos =>
              rw [hd, append_nil]
              have ht := hi hl (by simpa [hd] using ht)
              apply ht.imp
              case f => intro h; rw [h]
              case g => intro h; exact .next a as bs h
          case inr h =>
            have ⟨d, ha, ht⟩ := h
            rw [ha]
            by_cases hd : d = []
            case neg => exact .inr (.left b d as bs hd ht.symm)
            case pos =>
              rw [hd, append_nil]
              have ht := hi hl (by simpa [hd] using ht.symm)
              apply ht.imp
              case f => intro h; rw [h]
              case g => intro h; exact .next b as bs h

end Slips

section Dedup

variable {α : Type} [LinearOrder α] {l : List α}

theorem mem_destutter'_ne : x ∈ l.destutter' (· ≠ ·) a ↔ x ∈ a :: l := by
  induction l generalizing a
  case nil => simp
  case cons b l hi =>
    by_cases h : a = b
    case pos => subst h; simp [List.destutter'_cons_neg, hi]
    case neg => simp [List.destutter'_cons_pos, h, hi]

theorem mem_destutter_ne : x ∈ l.destutter (· ≠ ·) ↔ x ∈ l := by
  cases l
  case nil => simp
  case cons => exact mem_destutter'_ne

theorem pairwise_lt_destutter (h : l.Pairwise (· ≤ ·)) : (l.destutter (· ≠ ·)).Pairwise (· < ·) := by
  have hle := (h.sublist (destutter_sublist (· ≠ ·) l)).isChain
  have hne := isChain_destutter (· ≠ ·) l
  rw [← isChain_iff_pairwise]
  rw [isChain_iff_getElem] at hle hne ⊢
  exact fun i hi => lt_of_le_of_ne (hle i hi) (hne i hi)

-- A sorted list without its repetitions is determined by its elements.
theorem destutter_insertionSort_congr {l l' : List α} (h : l.toFinset = l'.toFinset) :
    (l.insertionSort (· ≤ ·)).destutter (· ≠ ·) = (l'.insertionSort (· ≤ ·)).destutter (· ≠ ·) := by
  have hs := pairwise_lt_destutter (pairwise_insertionSort (· ≤ ·) l)
  have hs' := pairwise_lt_destutter (pairwise_insertionSort (· ≤ ·) l')
  apply List.Perm.eq_of_pairwise' hs hs'
  apply (perm_ext_iff_of_nodup (hs.imp ne_of_lt) (hs'.imp ne_of_lt)).mpr
  intro x
  have := congrArg (x ∈ ·) h
  simpa [mem_destutter_ne] using this

end Dedup

end Join
