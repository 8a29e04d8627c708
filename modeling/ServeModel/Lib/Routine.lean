import ServeModel.Lib.Prog

-- A routine is a program that also has private state `τ` and may fail with an `ε`. The private state
-- survives a failure.
abbrev Routine (S : Sig) (ε τ α : Type) := ExceptT ε (StateT τ (Prog S)) α

namespace Routine

variable {S : Sig} {ε τ υ σ α β : Type} {D : Discipline S σ}

def toProg (m : Routine S ε τ α) (t : τ) : Prog S (Except ε α × τ) :=
  StateT.run (ExceptT.run m) t

def perform (op : S α) : Routine S ε τ α :=
  ExceptT.lift <| StateT.lift <| Prog.perform op

-- Runs a routine and hands its outcome, failure or not, to the caller.
def observe (m : Routine S ε τ α) : Routine S ε τ (Except ε α) :=
  ExceptT.mk <| Except.ok <$> ExceptT.run m

def mapError (f : ε → ε) (m : Routine S ε τ α) : Routine S ε τ α :=
  ExceptT.mk <| Except.mapError f <$> ExceptT.run m

def zoom (part : τ → υ) (put : υ → τ → τ) (m : Routine S ε υ α) : Routine S ε τ α :=
  ExceptT.mk <| StateT.mk fun t => (fun x => (x.1, put x.2 t)) <$> m.toProg (part t)

def ofExcept : Except ε α → Routine S ε τ α
  | .ok a => pure a
  | .error e => throw e

def wp (D : Discipline S σ) (m : Routine S ε τ α) (Q : Except ε α → τ → σ → Prop) (t : τ) (s : σ) :
    Prop :=
  (m.toProg t).wp D (fun x => Q x.1 x.2) s

variable {M : Machine S σ} {m : Routine S ε τ α} {f : α → Routine S ε τ β} {op : S α}
  {Q R : Except ε α → τ → σ → Prop}

theorem wp_mono (h : ∀ x t s, Q x t s → R x t s) (hw : m.wp D Q t s) : m.wp D R t s :=
  Prog.wp_mono (fun _ _ => h _ _ _) _ hw

theorem wp_congr (h : ∀ x t s, Q x t s ↔ R x t s) : m.wp D Q t s ↔ m.wp D R t s :=
  ⟨wp_mono fun x t s => (h x t s).mp, wp_mono fun x t s => (h x t s).mpr⟩

theorem toProg_bind (m : Routine S ε τ α) (f : α → Routine S ε τ β) (t : τ) :
    toProg (m >>= f) t = (toProg m t).bind fun
      | (.ok a, t') => toProg (f a) t'
      | (.error e, t') => .ret (.error e, t') := by
  show Prog.bind _ _ = Prog.bind _ _
  congr 1
  funext ⟨r, t'⟩
  cases r <;> rfl

@[simp]
theorem wp_pure :
    (pure a : Routine S ε τ α).wp D Q t s ↔ Q (.ok a) t s :=
  Iff.rfl

@[simp]
theorem wp_throw :
    (throw e : Routine S ε τ α).wp D Q t s ↔ Q (.error e) t s :=
  Iff.rfl

@[simp]
theorem wp_ofExcept :
    (ofExcept x : Routine S ε τ α).wp D Q t s ↔ Q x t s := by
  cases x <;> rfl

-- A failure skips the rest of a routine.
def andThen (D : Discipline S σ) (f : α → Routine S ε τ β) (Q : Except ε β → τ → σ → Prop) :
    Except ε α → τ → σ → Prop
  | .ok a, t, s => (f a).wp D Q t s
  | .error e, t, s => Q (.error e) t s

@[simp]
theorem andThen_ok {Q : Except ε β → τ → σ → Prop} :
    andThen D f Q (.ok a) t s ↔ (f a).wp D Q t s :=
  Iff.rfl

@[simp]
theorem andThen_error {Q : Except ε β → τ → σ → Prop} :
    andThen D f Q (.error e) t s ↔ Q (.error e) t s :=
  Iff.rfl

@[simp]
theorem wp_bind {Q : Except ε β → τ → σ → Prop} :
    (m >>= f).wp D Q t s ↔ m.wp D (andThen D f Q) t s := by
  simp only [wp, toProg_bind, Prog.wp_bind]
  constructor
  all_goals
    apply Prog.wp_mono
    rintro ⟨_ | _, _⟩ _ h <;> exact h

theorem wp_seq {Q : Except ε β → τ → σ → Prop} (h : m.wp D R t s) (he : ∀ e t s, R (.error e) t s → Q (.error e) t s)
    (hf : ∀ a t s, R (.ok a) t s → (f a).wp D Q t s) : (m >>= f).wp D Q t s := by
  apply wp_bind.mpr
  apply wp_mono ?_ h
  intro x t s hr
  cases x
  case error e => exact he e t s hr
  case ok a => exact hf a t s hr

@[simp]
theorem wp_map {f : α → β} {Q : Except ε β → τ → σ → Prop} :
    (f <$> m).wp D Q t s ↔ m.wp D (fun x => Q (x.map f)) t s := by
  rw [← bind_pure_comp, wp_bind]
  constructor
  all_goals
    apply wp_mono
    rintro (_ | _) _ _ h <;> exact h

@[simp]
theorem wp_observe {Q : Except ε (Except ε α) → τ → σ → Prop} :
    (observe m).wp D Q t s ↔ m.wp D (fun x => Q (.ok x)) t s :=
  Prog.wp_bind _

@[simp]
theorem wp_mapError {f : ε → ε} :
    (mapError f m).wp D Q t s ↔ m.wp D (fun x => Q (x.mapError f)) t s :=
  Prog.wp_bind _

@[simp]
theorem wp_zoom {part : τ → υ} {put : υ → τ → τ} {m : Routine S ε υ α} :
    (zoom part put m).wp D Q t s ↔ m.wp D (fun x u => Q x (put u t)) (part t) s :=
  Prog.wp_bind _

@[simp]
theorem wp_get {Q : Except ε τ → τ → σ → Prop} :
    (get : Routine S ε τ τ).wp D Q t s ↔ Q (.ok t) t s :=
  Iff.rfl

@[simp]
theorem wp_modify {f : τ → τ} {Q : Except ε PUnit → τ → σ → Prop} :
    (modify f : Routine S ε τ PUnit).wp D Q t s ↔ Q (.ok ⟨⟩) (f t) s :=
  Iff.rfl

@[simp]
theorem wp_ite {p : Prop} [Decidable p] {m₁ m₂ : Routine S ε τ α} :
    (if p then m₁ else m₂).wp D Q t s ↔ if p then m₁.wp D Q t s else m₂.wp D Q t s := by
  split <;> rfl

theorem wp_perform_iff :
    (perform op : Routine S ε τ α).wp D Q t s ↔
      ∀ s₁, D.rely s s₁ → D.inv s₁ → ∀ r s₂, D.exec op s₁ r s₂ →
        D.inv s₂ ∧ D.guar s₁ s₂ ∧ Q (.ok r) t s₂ :=
  Iff.rfl

theorem wp_perform (P : σ → Prop) (hs : D.Stable P)
    (hp : P s) (h : ∀ s₁, D.inv s₁ → P s₁ → ∀ r s₂, D.exec op s₁ r s₂ →
      D.inv s₂ ∧ D.guar s₁ s₂ ∧ Q (.ok r) t s₂) : (perform op : Routine S ε τ α).wp D Q t s :=
  fun s₁ hr hi r s₂ he => h s₁ hi (hs hp hr) r s₂ he

theorem wp_perform_alone :
    (perform op : Routine S ε τ α).wp (.alone M) Q t s ↔
      ∀ r s', M op s r s' → Q (.ok r) t s' := by
  simp [wp_perform_iff, Discipline.alone]

-- To observe a routine and pass its failure on is to run it.
theorem observe_rethrow :
    (do match ← observe m with
      | .error e => throw e
      | .ok a => f a) = m >>= f := by
  apply ExceptT.ext
  simp only [observe, ExceptT.run_bind, ExceptT.run_mk, map_eq_pure_bind, bind_assoc, pure_bind]
  congr 1
  funext x
  cases x <;> rfl

-- The outcome is a failure, or a value as `p` says.
def Yields (p : α → Prop) : Except ε α → Prop
  | .ok a => p a
  | .error _ => True

-- A routine that keeps a property of its private state and the world, whatever it ends with.
def Keeps (D : Discipline S σ) (I : τ → σ → Prop) (m : Routine S ε τ α) : Prop :=
  ∀ t s, I t s → m.wp D (fun _ => I) t s

namespace Keeps

variable {I : τ → σ → Prop}

theorem wp (h : Keeps D I m) (hi : I t s)
    (hq : ∀ x t s, I t s → Q x t s) : m.wp D Q t s :=
  wp_mono hq (h t s hi)

-- The rest of a routine may count on what its first part keeps.
theorem seq {Q : Except ε β → τ → σ → Prop} (h : Keeps D I m)
    (hi : I t s) (he : ∀ e t s, I t s → Q (.error e) t s) (hf : ∀ a t s, I t s → (f a).wp D Q t s) :
    (m >>= f).wp D Q t s :=
  wp_seq (h t s hi) he hf

theorem pure : Keeps D I (Pure.pure a : Routine S ε τ α) :=
  fun _ _ h => h

theorem throw : Keeps D I (throwThe ε e : Routine S ε τ α) :=
  fun _ _ h => h

theorem ofExcept : Keeps D I (Routine.ofExcept x : Routine S ε τ α) :=
  fun _ _ h => wp_ofExcept.mpr h

theorem bind (h : Keeps D I m) (hf : ∀ a, Keeps D I (f a)) :
    Keeps D I (m >>= f) :=
  fun _ _ hi => h.seq hi (fun _ _ _ h => h) hf

theorem observe (h : Keeps D I m) : Keeps D I (Routine.observe m) :=
  fun t s hi => wp_observe.mpr (h t s hi)

theorem mapError {f : ε → ε} (h : Keeps D I m) : Keeps D I (Routine.mapError f m) :=
  fun t s hi => wp_mapError.mpr (h t s hi)

theorem ite {p : Prop} [Decidable p] {m₁ m₂ : Routine S ε τ α} (h₁ : Keeps D I m₁) (h₂ : Keeps D I m₂) :
    Keeps D I (if p then m₁ else m₂) := by
  split
  case isTrue => exact h₁
  case isFalse => exact h₂

theorem get : Keeps D I (MonadState.get : Routine S ε τ τ) :=
  fun _ _ h => h

theorem modify {f : τ → τ} (h : ∀ t s, I t s → I (f t) s) :
    Keeps D I (modify f : Routine S ε τ PUnit) :=
  h

theorem perform (h : ∀ t s r s', I t s → M op s r s' → I t s') :
    Keeps (.alone M) I (Routine.perform op : Routine S ε τ α) :=
  fun t s hi => wp_perform_alone.mpr fun r s' hm => h t s r s' hi hm

end Keeps

-- A value as `R` says, or a failure where `E` holds.
def Outcome (R : α → σ → Prop) (E : σ → Prop) : Except ε α → σ → Prop
  | .ok a, s => R a s
  | .error _, s => E s

-- Started where `P` holds, the routine ends as `Outcome R E` says, whatever its private state is.
def Triple (D : Discipline S σ) (P : σ → Prop) (m : Routine S ε τ α) (R : α → σ → Prop) (E : σ → Prop) : Prop :=
  ∀ t s, P s → m.wp D (fun x _ => Outcome R E x) t s

namespace Triple

variable {P P' E F : σ → Prop} {R R' : α → σ → Prop} {Q : β → σ → Prop}

theorem weaken (h : Triple D P m R E) (hp : ∀ s, P' s → P s)
    (hr : ∀ a s, R a s → R' a s) (he : ∀ s, E s → F s) : Triple D P' m R' F := by
  intro t s hs
  apply wp_mono ?_ (h t s (hp s hs))
  intro x _ s hx
  cases x
  case error => exact he s hx
  case ok a => exact hr a s hx

theorem pre (h : Triple D P m R E) (hp : ∀ s, P' s → P s) : Triple D P' m R E :=
  h.weaken hp (fun _ _ h => h) (fun _ h => h)

-- A fact that the precondition implies whatever the world is like.
theorem assume {q : Prop} (hq : ∀ s, P s → q) (h : q → Triple D P m R E) : Triple D P m R E :=
  fun t s hs => h (hq s hs) t s hs

theorem pure (h : ∀ s, P s → R a s) : Triple D P (Pure.pure a : Routine S ε τ α) R E :=
  fun _ s hs => h s hs

theorem throw (h : ∀ s, P s → E s) : Triple D P (throwThe ε e : Routine S ε τ α) R E :=
  fun _ s hs => h s hs

theorem ofExcept (h : ∀ a, x = .ok a → ∀ s, P s → R a s) (he : ∀ s, P s → E s) :
    Triple D P (Routine.ofExcept x : Routine S ε τ α) R E := by
  cases x
  case error => exact throw he
  case ok a => exact pure (h a rfl)

theorem bind (h : Triple D P m R E)
    (hf : ∀ a, Triple D (R a) (f a) Q E) : Triple D P (m >>= f) Q E :=
  fun t s hs => wp_seq (h t s hs) (fun _ _ _ he => he) (fun a t s hr => hf a t s hr)

theorem mapError {f : ε → ε} (h : Triple D P m R E) : Triple D P (Routine.mapError f m) R E := by
  intro t s hs
  apply wp_mapError.mpr
  apply wp_mono ?_ (h t s hs)
  intro x _ s hx
  cases x
  case error | ok => exact hx

theorem observe (h : Triple D P m R E) : Triple D P (Routine.observe m) (Outcome R E) F :=
  fun t s hs => wp_observe.mpr (h t s hs)

theorem ite {p : Prop} [Decidable p] {m₁ m₂ : Routine S ε τ α} (h₁ : p → Triple D P m₁ R E)
    (h₂ : ¬p → Triple D P m₂ R E) : Triple D P (if p then m₁ else m₂) R E := by
  split
  case isTrue h => exact h₁ h
  case isFalse h => exact h₂ h

theorem perform (hs : D.Stable P)
    (h : ∀ s, D.inv s → P s → ∀ r s', D.exec op s r s' → D.inv s' ∧ D.guar s s' ∧ R r s') :
    Triple D P (Routine.perform op : Routine S ε τ α) R E :=
  fun _ _ hp => wp_perform P hs hp fun s hi hp r s' he => h s hi hp r s' he

theorem reply {op : S (Except ε α)} (hs : D.Stable P)
    (h : ∀ s, D.inv s → P s → ∀ r s', D.exec op s r s' → D.inv s' ∧ D.guar s s' ∧ Outcome R E r s') :
    Triple D P (do Routine.ofExcept (← Routine.perform op) : Routine S ε τ α) R E :=
  (perform hs h).bind fun x => by
    cases x
    case error => exact throw fun _ he => he
    case ok => exact pure fun _ hr => hr

-- What neither the others nor the routine can take back holds in the end.
theorem frame (h : Triple D P m R E) (hs : D.Stable F)
    (hg : ∀ {s s'}, D.inv s → F s → D.guar s s' → F s') :
    Triple D (fun s => P s ∧ F s) m (fun a s => R a s ∧ F s) (fun s => E s ∧ F s) := by
  intro t s hp
  apply Prog.wp_mono ?_ _ (Prog.wp_frame hs hg _ hp.right (h t s hp.left))
  intro x s hx
  have ⟨y, t⟩ := x
  cases y
  case error | ok => exact hx

end Triple

def Ends (M : Machine S σ) (m : Routine S ε τ α) (t : τ) (s : σ) (x : Except ε α) (t' : τ) (s' : σ) :
    Prop :=
  (m.toProg t).Ends M s (x, t') s'

-- Run alone, the routine ends, and it ends as `Q` says.
def Returns (M : Machine S σ) (m : Routine S ε τ α) (t : τ) (s : σ) (Q : Except ε α → τ → σ → Prop) : Prop :=
  (∃ x t' s', m.Ends M t s x t' s') ∧ ∀ x t' s', m.Ends M t s x t' s' → Q x t' s'

theorem wp_alone_iff :
    m.wp (.alone M) Q t s ↔ ∀ x t' s', m.Ends M t s x t' s' → Q x t' s' := by
  simp [wp, Prog.wp_alone_iff, Ends]

theorem wp_alone_and (hq : m.wp (.alone M) Q t s) (hr : m.wp (.alone M) R t s) :
    m.wp (.alone M) (fun x t s => Q x t s ∧ R x t s) t s :=
  wp_alone_iff.mpr fun x t' s' he => ⟨wp_alone_iff.mp hq x t' s' he, wp_alone_iff.mp hr x t' s' he⟩

-- What every operation keeps holds in the end.
theorem wp_alone_frame {I : σ → Prop}
    (h : ∀ {ρ : Type} (op : S ρ) s r s', M op s r s' → I s → I s') (hi : I s) (hw : m.wp (.alone M) Q t s) :
    m.wp (.alone M) (fun x t s => Q x t s ∧ I s) t s :=
  wp_alone_iff.mpr fun x t' s' he => ⟨wp_alone_iff.mp hw x t' s' he, he.keeps h hi⟩

theorem wp_simulate {υ : Type} {M' : Machine S υ} (view : υ → σ)
    (h : ∀ {ρ : Type} (op : S ρ) s r s', M' op s r s' → M op (view s) r (view s')) {t : τ} {s : υ}
    (hw : m.wp (.alone M) Q t (view s)) :
    m.wp (.alone M') (fun x t s => Q x t (view s)) t s :=
  wp_alone_iff.mpr fun x t' _ he => wp_alone_iff.mp hw x t' _ (he.simulate view h)

theorem returns_iff_wp
    (h : Machine.Total M) : m.Returns M t s Q ↔ m.wp (.alone M) Q t s := by
  have ⟨x, s', he⟩ := Prog.exists_ends h (m.toProg t) s
  exact (and_iff_right ⟨x.1, x.2, s', he⟩).trans wp_alone_iff.symm

end Routine
