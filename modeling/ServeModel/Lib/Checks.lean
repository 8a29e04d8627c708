import Mathlib.Data.List.Forall2

-- Taking a chain of checks apart that has gone through.
namespace Except

variable {ε α β : Type}

theorem bind_eq_ok {x : Except ε α} : (x >>= f) = .ok b ↔ ∃ a, x = .ok a ∧ f a = .ok b := by
  cases x
  case error =>
    constructor
    case mp => exact fun h => nomatch h
    case mpr => exact fun ⟨_, h, _⟩ => nomatch h
  case ok a =>
    constructor
    case mp => exact fun h => ⟨a, rfl, h⟩
    case mpr =>
      intro ⟨_, h, hf⟩
      cases h
      exact hf

@[simp]
theorem pure_eq_ok : (pure a : Except ε α) = .ok b ↔ a = b :=
  ⟨fun h => ok.inj h, fun h => h ▸ rfl⟩

@[simp]
theorem throw_ne_ok : (throw e : Except ε α) ≠ .ok b :=
  fun h => nomatch h

-- A check that throws unless its condition holds.
theorem ite_throw_eq_ok [Decidable p] {f : α → Except ε β} :
    (if p then throw e >>= f else x) = .ok b ↔ ¬p ∧ x = .ok b := by
  split
  case isTrue h => exact ⟨fun hn => (nomatch hn), fun hn => absurd h hn.left⟩
  case isFalse h => exact ⟨fun hx => ⟨h, hx⟩, fun hx => hx.right⟩

def throwUnless (p : Prop) [Decidable p] (e : ε) : Except ε Unit :=
  if p then .ok () else .error e

@[simp]
theorem throwUnless_eq_ok [Decidable p] : throwUnless p e = .ok u ↔ p := by
  unfold throwUnless
  split
  case isTrue h => exact iff_of_true rfl h
  case isFalse h => exact iff_of_false nofun h

def checkSome (o : Option α) (check : α → Except ε Unit) : Except ε Unit :=
  match o with
  | none => .ok ()
  | some a => check a

@[simp]
theorem checkSome_eq_ok :
    checkSome o check = .ok u ↔ ∀ a, o = some a → check a = .ok u := by
  cases o <;> simp [checkSome]

theorem map_eq_ok {x : Except ε α} : x.map f = .ok b ↔ ∃ a, x = .ok a ∧ f a = b := by
  cases x <;> simp [Except.map]

theorem toOption_eq_some {x : Except ε α} : x.toOption = some a ↔ x = .ok a := by
  cases x <;> simp [Except.toOption]

-- A traversal goes through element by element.
theorem mapM_eq_ok {f : α → Except ε β} :
    xs.mapM f = .ok ys ↔ List.Forall₂ (fun x y => f x = .ok y) xs ys := by
  induction xs generalizing ys
  case nil =>
    rw [List.mapM_nil, pure_eq_ok, List.forall₂_nil_left_iff, eq_comm]
  case cons x xs hi =>
    simp only [List.mapM_cons, bind_eq_ok, pure_eq_ok, hi, List.forall₂_cons_left_iff]
    constructor
    case mp =>
      rintro ⟨y, hy, ys, hs, rfl⟩
      exact ⟨y, ys, hy, hs, rfl⟩
    case mpr =>
      rintro ⟨y, ys, hy, hs, rfl⟩
      exact ⟨y, hy, ys, hs, rfl⟩

theorem forM_eq_ok {f : α → Except ε Unit} {xs : List α} : xs.forM f = .ok () ↔ ∀ x ∈ xs, f x = .ok () := by
  induction xs
  case nil => exact iff_of_true rfl nofun
  case cons x xs hi =>
    rw [List.forM, bind_eq_ok, List.forall_mem_cons, ← hi]
    exact ⟨fun ⟨_, hx, hr⟩ => ⟨hx, hr⟩, fun ⟨hx, hr⟩ => ⟨(), hx, hr⟩⟩

end Except

theorem Option.mapM_eq_some :
    xs.mapM f = some ys ↔ List.Forall₂ (fun x y => f x = some y) xs ys := by
  induction xs generalizing ys
  case nil =>
    rw [List.mapM_nil, Option.pure_def, Option.some.injEq, List.forall₂_nil_left_iff, eq_comm]
  case cons x xs hi =>
    simp only [List.mapM_cons, Option.bind_eq_bind, Option.bind_eq_some_iff, Option.pure_def, Option.some.injEq, hi,
      List.forall₂_cons_left_iff]
    constructor
    case mp =>
      rintro ⟨y, hy, ys, hs, rfl⟩
      exact ⟨y, ys, hy, hs, rfl⟩
    case mpr =>
      rintro ⟨y, ys, hy, hs, rfl⟩
      exact ⟨y, hy, ys, hs, rfl⟩

-- Two lists whose elements correspond.
namespace List.Forall₂

variable {α β : Type} {R : α → β → Prop} {xs : List α} {ys : List β}

theorem exists_of_mem_left (h : List.Forall₂ R xs ys) (hx : x ∈ xs) : ∃ y ∈ ys, R x y := by
  induction h
  case nil => cases hx
  case cons x' y xs ys hr _ hi =>
    cases hx
    case head => exact ⟨y, List.mem_cons_self .., hr⟩
    case tail hx =>
      have ⟨y, hy, hr⟩ := hi hx
      exact ⟨y, List.mem_cons_of_mem _ hy, hr⟩

theorem exists_of_mem_right (h : List.Forall₂ R xs ys) (hy : y ∈ ys) : ∃ x ∈ xs, R x y :=
  h.flip.exists_of_mem_left hy

end List.Forall₂
