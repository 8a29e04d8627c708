import Mathlib.Order.WellFounded

-- Runs of a step relation.
namespace Transition

open Relation

variable {α : Type} {R : α → α → Prop} {P Inv : α → Prop} {a b : α}

theorem invariant (step : ∀ {a b}, Inv a → R a b → Inv b) (h : Inv a) (hr : ReflTransGen R a b) : Inv b := by
  induction hr
  case refl => exact h
  case tail hs hi => exact step hi hs

-- No run from `a` goes on for ever, and one that cannot go on ends in `P`.
structure Terminates (R : α → α → Prop) (P : α → Prop) (a : α) : Prop where
  finite : Acc (fun b a => R a b) a
  ends : ∀ {b}, ReflTransGen R a b → (∀ c, ¬R b c) → P b

-- A measure that every step lowers bounds the runs, from the states of an invariant on.
theorem acc_of_measure (μ : α → Nat) (step : ∀ {a b}, Inv a → R a b → Inv b ∧ μ b < μ a) (h : Inv a) :
    Acc (fun b a => R a b) a := by
  induction hn : μ a using Nat.strong_induction_on generalizing a
  case h n hi =>
    constructor
    intro b hs
    have ⟨hb, hlt⟩ := step h hs
    exact hi (μ b) (hn ▸ hlt) hb rfl

theorem Terminates.of_measure (μ : α → Nat) (step : ∀ {a b}, Inv a → R a b → Inv b ∧ μ b < μ a)
    (ends : ∀ {a}, Inv a → (∀ b, ¬R a b) → P a) (h : Inv a) : Terminates R P a where
  finite := acc_of_measure μ step h
  ends hr s := ends (invariant (fun hi hs => (step hi hs).1) h hr) s

theorem Terminates.not_of_stuck (hr : ReflTransGen R a b) (hs : ∀ c, ¬R b c) (hp : ¬P b) : ¬Terminates R P a :=
  fun h => hp (h.ends hr hs)

-- Machines that take one action at a time.
section Actions

variable {σ : Type} {step : α → σ → Option α} {ok : α → σ → Prop}

-- The machine takes an action that is allowed in its state.
def Moves (step : α → σ → Option α) (ok : α → σ → Prop) (a b : α) : Prop :=
  ∃ act, ok a act ∧ step a act = some b

def runs (step : α → σ → Option α) (ok : α → σ → Prop) [∀ a act, Decidable (ok a act)] : α → List σ → Option α
  | a, [] => some a
  | a, act :: acts => if ok a act then (step a act).bind (runs step ok · acts) else none

theorem reachable_of_runs [∀ a act, Decidable (ok a act)] (acts : List σ) (h : runs step ok a acts = some b) :
    ReflTransGen (Moves step ok) a b := by
  induction acts generalizing a
  case nil =>
    cases h
    exact .refl
  case cons act acts hi =>
    simp only [runs] at h
    split at h
    case isTrue hok =>
      have ⟨c, hs, hc⟩ := Option.bind_eq_some_iff.mp h
      exact .head ⟨act, hok, hs⟩ (hi hc)
    case isFalse => cases h

end Actions

end Transition
