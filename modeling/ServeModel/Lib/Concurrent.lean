import ServeModel.Lib.Prog

-- A system of threads that run programs beside each other on one shared world. Every operation of a
-- thread is atomic. Threads start and stop at any time; a stop is a return or a crash, and `stop`
-- says what either of them does to the world. `env` collects what the world does by itself.
structure System (S : Sig) (σ ι α : Type) where
  init : σ → Prop
  exec : ι → Machine S σ
  start : ι → Prog S α → σ → σ → Prop
  stop : ι → Prog S α → σ → σ → Prop
  env : σ → σ → Prop

namespace System

open Function

variable {S : Sig} {σ ι α : Type}

structure Config (S : Sig) (σ ι α : Type) where
  state : σ
  threads : ι → Option (Prog S α)

section

variable [DecidableEq ι]

inductive Step (sys : System S σ ι α) (c : Config S σ ι α) : Config S σ ι α → Prop
  | act (i : ι) {ρ : Type} {op : S ρ} {k r s} : (c.threads i = some (.call op k)) → (sys.exec i op c.state r s) →
      Step sys c ⟨s, Function.update c.threads i (some (k r))⟩
  | start (i : ι) (p : Prog S α) {s} : (c.threads i = none) → (sys.start i p c.state s) →
      Step sys c ⟨s, Function.update c.threads i (some p)⟩
  | stop (i : ι) {p s} : (c.threads i = some p) → (sys.stop i p c.state s) →
      Step sys c ⟨s, Function.update c.threads i none⟩
  | env {s} : (sys.env c.state s) → Step sys c ⟨s, c.threads⟩

inductive Reachable (sys : System S σ ι α) : Config S σ ι α → Prop
  | init : (sys.init s) → Reachable sys ⟨s, fun _ => none⟩
  | step : (Reachable sys c₁) → (Step sys c₁ c₂) → Reachable sys c₂

theorem Reachable.steps {sys : System S σ ι α} {threads : ι → Option (Prog S α)} {i : ι} {p p' : Prog S α}
    {oracle : Oracle S σ} (ho : oracle.Sound (sys.exec i)) (h : Reachable sys ⟨s, threads⟩)
    (hp : threads i = some p) (he : p.steps oracle n s = some (p', s')) :
    Reachable sys ⟨s', Function.update threads i (some p')⟩ := by
  induction n generalizing p s threads
  case zero =>
    cases he
    rwa [← hp, update_eq_self]
  case succ n hi =>
    cases p
    case ret =>
      cases he
      rwa [← hp, update_eq_self]
    case call op k =>
      simp only [Prog.steps] at he
      split at he
      case h_1 r s₁ hr =>
        have := hi (h.step (.act i hp (ho op s r s₁ hr))) (update_self ..) he
        rwa [update_idem] at this
      case h_2 => cases he

-- A thread that nobody interrupts from its start to its end, while the others wait.
theorem Reachable.beside {sys : System S σ ι α} {threads : ι → Option (Prog S α)} {i : ι} {p : Prog S α}
    {oracle : Oracle S σ} (ho : oracle.Sound (sys.exec i)) (h : Reachable sys ⟨s₀, threads⟩) (hn : threads i = none)
    (hs : sys.start i p s₀ s₁) (he : p.steps oracle n s₁ = some (.ret a, s₂)) (ht : sys.stop i (.ret a) s₂ s₃) :
    Reachable sys ⟨s₃, threads⟩ := by
  have hr := (h.step (.start i p hn hs)).steps ho (update_self ..) he
  have hr := hr.step (.stop i (update_self ..) ht)
  rwa [update_idem, update_idem, ← hn, update_eq_self] at hr

theorem Reachable.life {sys : System S σ ι α} {i : ι} {p : Prog S α} {oracle : Oracle S σ}
    (ho : oracle.Sound (sys.exec i)) (h : Reachable sys ⟨s₀, fun _ => none⟩) (hs : sys.start i p s₀ s₁)
    (he : p.steps oracle n s₁ = some (.ret a, s₂)) (ht : sys.stop i (.ret a) s₂ s₃) :
    Reachable sys ⟨s₃, fun _ => none⟩ :=
  h.beside ho rfl hs he ht

end

-- A proof outline gives each thread its discipline and says why the pieces fit together: what a thread
-- guarantees the others may rely on, and starting, stopping and the world's own steps respect both.
structure Outline (sys : System S σ ι α) where
  inv : σ → Prop
  rely : ι → σ → σ → Prop
  guar : ι → σ → σ → Prop
  post : ι → α → σ → Prop
  rely_refl : ∀ i s, rely i s s
  rely_trans : ∀ i {s₁ s₂ s₃}, rely i s₁ s₂ → rely i s₂ s₃ → rely i s₁ s₃

namespace Outline

variable {sys : System S σ ι α} (O : Outline sys)

def discipline (i : ι) : Discipline S σ where
  exec := sys.exec i
  inv := O.inv
  rely := O.rely i
  guar := O.guar i
  rely_refl := O.rely_refl i
  rely_trans := O.rely_trans i

def Verified (i : ι) (p : Prog S α) (s : σ) : Prop :=
  p.wp (O.discipline i) (O.post i) s

structure Valid : Prop where
  init : ∀ {s}, sys.init s → O.inv s
  post : ∀ i a, (O.discipline i).Stable (O.post i a)
  guar : ∀ {i j s s'}, i ≠ j → O.inv s → O.guar i s s' → O.rely j s s'
  start : ∀ {i p s s'}, O.inv s → sys.start i p s s' →
    O.inv s' ∧ (∀ j ≠ i, O.rely j s s') ∧ O.Verified i p s'
  stop : ∀ {i p s s'}, O.inv s → O.Verified i p s → sys.stop i p s s' →
    O.inv s' ∧ ∀ j ≠ i, O.rely j s s'
  env : ∀ {s s'}, O.inv s → sys.env s s' → O.inv s' ∧ ∀ j, O.rely j s s'

structure Holds (c : Config S σ ι α) : Prop where
  inv : O.inv c.state
  verified : ∀ {i p}, c.threads i = some p → O.Verified i p c.state

variable {O}

theorem Valid.verified_stable (v : O.Valid) (i : ι) (p : Prog S α) :
    (O.discipline i).Stable (O.Verified i p) :=
  Prog.wp_stable (v.post i) p

variable [DecidableEq ι]

-- What thread `i` does to the world and to itself leaves the proofs of the other threads standing.
theorem Holds.update {c : Config S σ ι α} (v : O.Valid) (h : O.Holds c) {o : Option (Prog S α)}
    (hi : O.inv s) (hr : ∀ j ≠ i, O.rely j c.state s) (ho : ∀ p, o = some p → O.Verified i p s) :
    O.Holds ⟨s, Function.update c.threads i o⟩ where
  inv := hi
  verified {j p} hj := by
    by_cases hn : j = i
    case pos =>
      subst hn
      exact ho p (by simpa using hj)
    case neg =>
      have hj : c.threads j = some p := by simpa [hn] using hj
      exact v.verified_stable j p (h.verified hj) (hr j hn)

theorem Holds.step {c₁ c₂ : Config S σ ι α} (v : O.Valid) (h : O.Holds c₁) (e : Step sys c₁ c₂) :
    O.Holds c₂ := by
  cases e
  case act i _ op k r s hc he =>
    have ⟨hi, hg, hk⟩ := h.verified hc c₁.state (O.rely_refl i _) h.inv r s he
    exact h.update v hi (fun _ hj => v.guar hj.symm h.inv hg) (fun _ hp => Option.some.inj hp ▸ hk)
  case start i p s hc hs =>
    have ⟨hi, hr, hp⟩ := v.start h.inv hs
    exact h.update v hi hr (fun _ hq => Option.some.inj hq ▸ hp)
  case stop i p s hc hs =>
    have ⟨hi, hr⟩ := v.stop h.inv (h.verified hc) hs
    exact h.update v hi hr (fun _ hp => nomatch hp)
  case env s hs =>
    have ⟨hi, hr⟩ := v.env h.inv hs
    exact ⟨hi, fun {j p} hj => v.verified_stable j p (h.verified hj) (hr j)⟩

theorem Valid.sound {c : Config S σ ι α} (v : O.Valid) (h : Reachable sys c) : O.Holds c := by
  induction h
  case init hi => exact ⟨v.init hi, fun hp => by simp at hp⟩
  case step e hi => exact hi.step v e

theorem Valid.inv_of_reachable {c : Config S σ ι α} (v : O.Valid) (h : Reachable sys c) :
    O.inv c.state :=
  (v.sound h).inv

end Outline
end System
