import Mathlib.Tactic.Common

-- A signature lists the atomic operations that a program may perform on the world it shares with
-- others, by the type of reply that they give.
abbrev Sig := Type → Type 1

-- A program over a signature either returns, or performs one operation and continues with its reply.
inductive Prog (S : Sig) (α : Type) : Type 1
  | ret (a : α)
  | call {ρ : Type} (op : S ρ) (k : ρ → Prog S α)

namespace Prog

variable {S : Sig} {α β γ : Type}

def bind : Prog S α → (α → Prog S β) → Prog S β
  | ret a, f => f a
  | call op k, f => call op fun r => (k r).bind f

instance : Monad (Prog S) where
  pure := ret
  bind := bind

theorem bind_ret : (p : Prog S α) → p.bind ret = p
  | ret _ => rfl
  | call _ k => congrArg (call _) <| funext fun r => (k r).bind_ret

theorem bind_assoc (f : α → Prog S β) (g : β → Prog S γ) :
    (p : Prog S α) → (p.bind f).bind g = p.bind fun a => (f a).bind g
  | ret _ => rfl
  | call _ k => congrArg (call _) <| funext fun r => (k r).bind_assoc f g

instance : LawfulMonad (Prog S) :=
  .mk' _ bind_ret (fun _ _ => rfl) (fun p f g => p.bind_assoc f g)

def perform (op : S α) : Prog S α :=
  call op ret

end Prog

-- A machine says which replies an operation may give in a world `s` and which world it leaves. A
-- reply that reports a failure is a reply like any other.
abbrev Machine (S : Sig) (σ : Type) := {ρ : Type} → S ρ → σ → ρ → σ → Prop

-- `Ends M p s a s'` says that `p`, run alone from `s`, can return `a` and leave `s'`.
inductive Prog.Ends {S : Sig} {σ α : Type} (M : Machine S σ) : Prog S α → σ → α → σ → Prop
  | ret : Ends M (.ret a) s a s
  | call {ρ : Type} {op : S ρ} {k : ρ → Prog S α} {r : ρ} :
      (M op s r s') → (Ends M (k r) s' a s'') → Ends M (.call op k) s a s''

def Machine.Total {S : Sig} {σ : Type} (M : Machine S σ) : Prop :=
  ∀ {ρ : Type} (op : S ρ) s, ∃ r s', M op s r s'

-- On a machine that always replies every program comes to an end.
theorem Prog.exists_ends {M : Machine S σ} (h : Machine.Total M) :
    (p : Prog S α) → (s : σ) → ∃ a s', p.Ends M s a s'
  | ret a, s => ⟨a, s, .ret⟩
  | call op k, s =>
    have ⟨r, s₁, hm⟩ := h op s
    have ⟨a, s₂, he⟩ := exists_ends h (k r) s₁
    ⟨a, s₂, .call hm he⟩

theorem Prog.Ends.keeps {M : Machine S σ} {I : σ → Prop}
    (h : ∀ {ρ : Type} (op : S ρ) s r s', M op s r s' → I s → I s') {p : Prog S α} {a : α} {s s' : σ}
    (he : p.Ends M s a s') (hi : I s) : I s' := by
  induction he
  case ret => exact hi
  case call hm _ ih => exact ih (h _ _ _ _ hm hi)

-- A machine whose steps are steps of another one gives programs no further outcomes.
theorem Prog.Ends.simulate {M : Machine S σ} {M' : Machine S υ} (view : υ → σ)
    (h : ∀ {ρ : Type} (op : S ρ) s r s', M' op s r s' → M op (view s) r (view s')) {p : Prog S α}
    {a : α} {s s' : υ} (he : p.Ends M' s a s') : p.Ends M (view s) a (view s') := by
  induction he
  case ret => exact .ret
  case call hm _ hi => exact .call (h _ _ _ _ hm) hi

-- An oracle decides on one of the outcomes of each operation, so that a program can be run.
abbrev Oracle (S : Sig) (σ : Type) := {ρ : Type} → S ρ → σ → Option (ρ × σ)

def Oracle.Sound {S : Sig} {σ : Type} (oracle : Oracle S σ) (M : Machine S σ) : Prop :=
  ∀ {ρ : Type} (op : S ρ) s r s', oracle op s = some (r, s') → M op s r s'

def Prog.steps {S : Sig} {σ α : Type} (oracle : Oracle S σ) : Nat → Prog S α → σ → Option (Prog S α × σ)
  | 0, p, s => some (p, s)
  | _ + 1, .ret a, s => some (.ret a, s)
  | n + 1, .call op k, s =>
    match oracle op s with
    | some (r, s') => (k r).steps oracle n s'
    | none => none

-- What no operation changes is still there in the end.
theorem Prog.steps_keeps {oracle : Oracle S σ} {P : σ → Prop}
    (ho : ∀ {ρ : Type} (op : S ρ) s r s', oracle op s = some (r, s') → P s → P s') {p p' : Prog S α} {s s' : σ}
    (h : p.steps oracle n s = some (p', s')) (hp : P s) : P s' := by
  induction n generalizing p s
  case zero => cases h; exact hp
  case succ n hi =>
    cases p
    case ret => cases h; exact hp
    case call op k =>
      simp only [steps] at h
      split at h
      case h_1 r s₁ hr => exact hi h (ho op s r s₁ hr hp)
      case h_2 => cases h

-- A program that ends by a change to its result.
theorem Prog.steps_bind_ret {oracle : Oracle S σ} {f : α → β} {b : β} {p : Prog S α}
    {s s' : σ} (h : (p.bind fun a => .ret (f a)).steps oracle n s = some (.ret b, s')) : ∃ a, b = f a := by
  induction n generalizing p s
  case zero =>
    cases p
    case ret a => cases h; exact ⟨a, rfl⟩
    case call => cases h
  case succ n hi =>
    cases p
    case ret a => cases h; exact ⟨a, rfl⟩
    case call op k =>
      simp only [bind, steps] at h
      split at h
      case h_1 => exact hi h
      case h_2 => cases h

def Prog.run {S : Sig} {σ α : Type} (oracle : Oracle S σ) (n : Nat) (p : Prog S α) (s : σ) : Option (α × σ) :=
  match p.steps oracle n s with
  | some (.ret a, s') => some (a, s')
  | _ => none

theorem Prog.ends_of_run {oracle : Oracle S σ} {M : Machine S σ}
    (hs : Oracle.Sound oracle M) {p : Prog S α} {a : α} {s s' : σ} (h : p.run oracle n s = some (a, s')) :
    p.Ends M s a s' := by
  induction n generalizing p s
  case zero =>
    cases p
    case ret => cases h; exact .ret
    case call => cases h
  case succ n hi =>
    cases p
    case ret => cases h; exact .ret
    case call op k =>
      simp only [run, steps] at h
      cases ho : oracle op s
      case none => simp [ho] at h
      case some x => exact .call (hs _ _ _ _ ho) (hi (by simpa [ho, run] using h))

-- A discipline fixes what a program may count on and what it must keep while others run beside it:
-- every world reached satisfies `inv`, the others change the world by `rely` only and the program's
-- own operations stay within `guar`.
structure Discipline (S : Sig) (σ : Type) where
  exec : Machine S σ
  inv : σ → Prop
  rely : σ → σ → Prop
  guar : σ → σ → Prop
  rely_refl : ∀ s, rely s s
  rely_trans : ∀ {s₁ s₂ s₃}, rely s₁ s₂ → rely s₂ s₃ → rely s₁ s₃

namespace Discipline

variable {S : Sig} {σ : Type}

-- The discipline of a program that nobody interferes with.
def alone (M : Machine S σ) : Discipline S σ where
  exec := M
  inv _ := True
  rely := Eq
  guar _ _ := True
  rely_refl _ := rfl
  rely_trans := Eq.trans

def Stable (D : Discipline S σ) (P : σ → Prop) : Prop :=
  ∀ ⦃s s'⦄, P s → D.rely s s' → P s'

theorem Stable.and {D : Discipline S σ} (hp : D.Stable P) (hq : D.Stable Q) :
    D.Stable fun s => P s ∧ Q s :=
  fun _ _ h hr => ⟨hp h.left hr, hq h.right hr⟩

theorem Stable.const (D : Discipline S σ) (p : Prop) : D.Stable fun _ => p :=
  fun _ _ h _ => h

end Discipline

namespace Prog

variable {S : Sig} {σ α β : Type} {D : Discipline S σ}

-- The weakest precondition under interference: whatever the others do before each operation, the
-- operation keeps the invariant and the guarantee, and a returned value satisfies `Q`.
def wp (D : Discipline S σ) : Prog S α → (α → σ → Prop) → σ → Prop
  | ret a, Q, s => Q a s
  | call op k, Q, s =>
    ∀ s₁, D.rely s s₁ → D.inv s₁ → ∀ r s₂, D.exec op s₁ r s₂ →
      D.inv s₂ ∧ D.guar s₁ s₂ ∧ (k r).wp D Q s₂

@[simp]
theorem wp_pure : (pure a : Prog S α).wp D Q s ↔ Q a s :=
  Iff.rfl

theorem wp_mono (h : ∀ a s, Q a s → R a s) :
    (p : Prog S α) → {s : σ} → p.wp D Q s → p.wp D R s
  | ret a, s, hq => h a s hq
  | call _ k, _, hq => fun s₁ hr hi r s₂ he =>
    have ⟨hi', hg, hk⟩ := hq s₁ hr hi r s₂ he
    ⟨hi', hg, (k r).wp_mono h hk⟩

theorem wp_bind :
    (p : Prog S α) → {s : σ} → (p.bind f).wp D Q s ↔ p.wp D (fun a => (f a).wp D Q) s
  | ret _, _ => Iff.rfl
  | call _ k, s => by
    simp only [bind, wp]
    exact forall_congr' fun s₁ => forall_congr' fun _ => forall_congr' fun _ =>
      forall_congr' fun r => forall_congr' fun _ => forall_congr' fun _ =>
      and_congr_right fun _ => and_congr_right fun _ => (k r).wp_bind

@[simp]
theorem wp_bind_iff {f : α → Prog S β} :
    (p >>= f).wp D Q s ↔ p.wp D (fun a => (f a).wp D Q) s :=
  p.wp_bind

theorem wp_stable (h : ∀ a, D.Stable (Q a)) :
    (p : Prog S α) → D.Stable (p.wp D Q)
  | ret a, _, _, hq, hr => h a hq hr
  | call _ _, _, _, hq, hr => fun s₁ hr' => hq s₁ (D.rely_trans hr hr')

-- What neither the others nor the operations of the program can take back holds in the end.
theorem wp_frame (hs : D.Stable F) (hg : ∀ {s s'}, D.inv s → F s → D.guar s s' → F s') :
    (p : Prog S α) → {s : σ} → F s → p.wp D Q s → p.wp D (fun a s => Q a s ∧ F s) s
  | ret _, _, hf, hq => ⟨hq, hf⟩
  | call _ k, _, hf, hq => fun s₁ hr hi r s₂ he =>
    have ⟨hi', hg', hk⟩ := hq s₁ hr hi r s₂ he
    ⟨hi', hg', (k r).wp_frame hs hg (hg hi (hs hf hr) hg') hk⟩

-- To verify an operation it suffices to have a stable fact that holds before it.
theorem wp_call {Q : α → σ → Prop} (P : σ → Prop) (hs : D.Stable P)
    (hp : P s) (h : ∀ s₁, D.inv s₁ → P s₁ → ∀ r s₂, D.exec op s₁ r s₂ →
      D.inv s₂ ∧ D.guar s₁ s₂ ∧ (k r).wp D Q s₂) : (call op k).wp D Q s :=
  fun s₁ hr hi r s₂ he => h s₁ hi (hs hp hr) r s₂ he

theorem wp_perform {Q : α → σ → Prop} (P : σ → Prop) (hs : D.Stable P) (hp : P s)
    (h : ∀ s₁, D.inv s₁ → P s₁ → ∀ r s₂, D.exec op s₁ r s₂ →
      D.inv s₂ ∧ D.guar s₁ s₂ ∧ Q r s₂) : (perform op).wp D Q s :=
  wp_call P hs hp h

theorem wp_perform_bind {Q : α → σ → Prop} (P : σ → Prop) (hs : D.Stable P)
    (hp : P s) (h : ∀ s₁, D.inv s₁ → P s₁ → ∀ r s₂, D.exec op s₁ r s₂ →
      D.inv s₂ ∧ D.guar s₁ s₂ ∧ (k r).wp D Q s₂) : (perform op >>= k).wp D Q s :=
  wp_call P hs hp h

-- For a program that runs alone the weakest precondition is about exactly what it can return.
theorem wp_alone_iff :
    (p : Prog S α) → {s : σ} → p.wp (.alone M) Q s ↔ ∀ a s', p.Ends M s a s' → Q a s'
  | ret _, _ => ⟨fun h _ _ he => by cases he; exact h, fun h => h _ _ .ret⟩
  | call _ k, s => by
    simp only [wp, Discipline.alone, true_and, forall_const, forall_eq']
    constructor
    · rintro h a s' (_ | ⟨hm, he⟩)
      exact (k _).wp_alone_iff.mp (h _ _ hm) _ _ he
    · intro h r s₂ hm
      exact (k r).wp_alone_iff.mpr fun a s' he => h a s' (.call hm he)

end Prog
