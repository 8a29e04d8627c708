import ServeModel.Lib.Prog

-- Programs that may break off with the text of an error.
abbrev Fallible (S : Sig) (α : Type) := ExceptT String (Prog S) α

namespace Fallible

variable {S : Sig} {σ α β : Type}

-- An operation whose failure breaks the program off.
def attempt (op : S (Except String α)) : Fallible S α :=
  ExceptT.mk (.perform op)

def ask (op : S α) : Fallible S α :=
  ExceptT.lift (.perform op)

-- A program that goes on with whatever another one has come to.
def catching (p : Fallible S α) : Fallible S (Except String α) :=
  ExceptT.lift p.run

def throwIf (p : Prop) [Decidable p] (e : String) : Fallible S Unit :=
  if p then throw e else pure ()

variable {D : Discipline S σ} {Q R : α → σ → Prop} {E F : String → σ → Prop} {s : σ}

-- The weakest precondition for `Q` if the program gets through, and for `E` if it breaks off.
def wp (D : Discipline S σ) (p : Fallible S α) (Q : α → σ → Prop) (E : String → σ → Prop) : σ → Prop :=
  Prog.wp D p.run fun r s => r.casesOn (E · s) (Q · s)

theorem wp_run : wp D p Q E s ↔ p.run.wp D (fun r s => r.casesOn (E · s) (Q · s)) s :=
  Iff.rfl

@[simp]
theorem wp_pure : wp D (pure a) Q E s ↔ Q a s :=
  Iff.rfl

@[simp]
theorem wp_throw : wp D (throw e) Q E s ↔ E e s :=
  Iff.rfl

@[simp]
theorem wp_bind :
    wp D (p >>= f) Q E s ↔ wp D p (fun b => wp D (f b) Q E) E s := by
  rw [wp, ExceptT.run_bind, Prog.wp_bind_iff]
  refine iff_of_eq <| congrArg (Prog.wp D p.run · s) <| funext fun r => ?_
  cases r <;> rfl

theorem wp_mono (hq : ∀ a s, Q a s → R a s) (he : ∀ e s, E e s → F e s) (h : wp D p Q E s) :
    wp D p R F s := by
  refine Prog.wp_mono (fun r s h => ?_) _ h
  cases r
  case error e => exact he e s h
  case ok a => exact hq a s h

-- For what comes of an error nothing is asked.
theorem wp_any (h : wp D p Q E s) : wp D p Q (fun _ _ => True) s :=
  wp_mono (fun _ _ h => h) (fun _ _ _ => trivial) h

theorem wp_seq (hp : wp D p T E s) (hf : ∀ b s, T b s → wp D (f b) Q E s) : wp D (p >>= f) Q E s :=
  wp_bind.mpr (wp_mono hf (fun _ _ h => h) hp)

theorem wp_catching {Q : Except String α → σ → Prop} :
    wp D (catching p) Q E s ↔ wp D p (fun a => Q (.ok a)) (fun e => Q (.error e)) s := by
  rw [wp, catching, ExceptT.run_lift, map_eq_pure_bind, Prog.wp_bind_iff]
  refine iff_of_eq <| congrArg (Prog.wp D p.run · s) <| funext fun r => ?_
  cases r <;> rfl

theorem wp_throwIf [Decidable p] {Q : Unit → σ → Prop} (he : p → E e s) (hq : ¬p → Q () s) :
    wp D (throwIf p e) Q E s := by
  unfold throwIf
  split
  case isTrue h => exact he h
  case isFalse h => exact hq h

theorem wp_ofExcept : wp D (ofExcept x : Fallible S α) Q E s ↔ x.casesOn (E · s) (Q · s) := by
  cases x <;> exact Iff.rfl

theorem wp_check (he : ∀ e, E e s) (hq : ∀ a, x = .ok a → Q a s) :
    wp D (ofExcept x : Fallible S α) Q E s := by
  cases x
  case error e => exact he e
  case ok a => exact hq a rfl

theorem wp_attempt (P : σ → Prop) (hs : D.Stable P) (hp : P s)
    (h : ∀ s₁, D.inv s₁ → P s₁ → ∀ r s₂, D.exec op s₁ r s₂ →
      D.inv s₂ ∧ D.guar s₁ s₂ ∧ r.casesOn (E · s₂) (Q · s₂)) : wp D (attempt op) Q E s :=
  Prog.wp_perform P hs hp h

theorem wp_ask (P : σ → Prop) (hs : D.Stable P) (hp : P s)
    (h : ∀ s₁, D.inv s₁ → P s₁ → ∀ r s₂, D.exec op s₁ r s₂ → D.inv s₂ ∧ D.guar s₁ s₂ ∧ Q r s₂) :
    wp D (ask op) Q E s :=
  Prog.wp_call P hs hp h

-- The rules above say all about it. A goal is not to be evaluated.
attribute [irreducible] wp

end Fallible
