import ServeModel.Lib.Transition

-- Builders that publish packages to one directory, each by renames of its own.
namespace Export

open Function Transition Relation

variable {ι : Type} [DecidableEq ι]

-- The manifest is written last, so a directory that has one is complete.
structure Package (ι : Type) where
  builder : ι
  complete : Bool

inductive Point
  | prepare | build | publish | recheck | moveIn | moveAside
  -- between the first rename and the `try`
  | aside
  | replace | replaced | dropBackup | restore | cleanup | ended
  deriving DecidableEq

-- Where an exception leads to.
def Point.handler : Point → Point
  | prepare | cleanup | ended => ended
  | replace | replaced => restore
  | _ => cleanup

-- `work` says whether the directory is complete. `published`, the latest first, and `deleted` are only for the proof.
structure State (ι : Type) where
  target : Option (Package ι)
  work : ι → Option Bool
  backup : ι → Option (Package ι)
  point : ι → Point
  published : List ι
  deleted : List ι

def start : State ι :=
  ⟨none, fun _ => none, fun _ => none, fun _ => .prepare, [], []⟩

namespace State

variable (s : State ι) (i : ι)

def goto (point : Point) : State ι :=
  { s with point := update s.point i point }

def raise : State ι :=
  s.goto i (s.point i).handler

-- A rename onto the target fails if a directory is there.
def put (next : Point) : State ι :=
  match s.target, s.work i with
  | none, some complete =>
    { s.goto i next with
      target := some ⟨i, complete⟩
      work := update s.work i none
      published := i :: s.published }
  | _, _ => s.raise i

def go (force : Bool) : State ι :=
  match s.point i with
  | .prepare =>
    if s.target.any fun p => ¬(force ∧ p.complete) then s.raise i
    else { s.goto i .build with work := update s.work i (some false) }
  | .build => { s.goto i .publish with work := update s.work i (some true) }
  | .publish => if s.target.isNone then s.goto i .moveIn else if force then s.goto i .recheck else s.raise i
  | .recheck => if s.target.any (·.complete) then s.goto i .moveAside else s.raise i
  | .moveIn => s.put i .ended
  | .moveAside =>
    match s.target with
    | none => s.raise i
    | some p => { s.goto i .aside with target := none, backup := update s.backup i (some p) }
  | .aside => s.goto i .replace
  | .replace => s.put i .replaced
  | .replaced => s.goto i .dropBackup
  | .dropBackup =>
    { s.goto i .ended with
      backup := update s.backup i none
      deleted := ((s.backup i).map (·.builder)).toList ++ s.deleted }
  | .restore =>
    match s.target, s.backup i with
    | none, some p => { s.goto i .cleanup with target := some p, backup := update s.backup i none }
    | _, _ => s.raise i
  | .cleanup => { s.goto i .ended with work := update s.work i none }
  | .ended => s

end State

inductive Action (ι : Type)
  | go (i : ι)
  | raise (i : ι)
  | kill (i : ι)

def step (force : ι → Bool) (s : State ι) : Action ι → Option (State ι)
  | .go i => s.go i (force i)
  | .raise i => s.raise i
  | .kill i => s.goto i .ended

def Reachable (force : ι → Bool) : State ι → Prop :=
  ReflTransGen (Moves (step force) fun _ _ => True) start

-- The target is a complete package. A published one is there, set aside, or deleted after another one was published,
-- and no work directory holds one.
structure Safe (s : State ι) : Prop where
  whole : ∀ p, s.target = some p → p.complete
  once : s.published.Nodup
  kept : ∀ j ∈ s.published, s.target = some ⟨j, true⟩ ∨ (∃ i, s.backup i = some ⟨j, true⟩) ∨ j ∈ s.deleted
  deleted : ∀ j ∈ s.deleted, j ∈ s.published.tail
  new : ∀ i, s.point i = .prepare ∨ s.point i = .build ∨ s.work i ≠ none → i ∉ s.published

-- Nothing is moved aside yet.
def Point.early : Point → Bool
  | prepare | build | publish | recheck | moveIn | moveAside => true
  | _ => false

structure Inv (s : State ι) : Prop extends Safe s where
  target : ∀ p, s.target = some p → p.builder ∈ s.published
  backup : ∀ i p, s.backup i = some p → p.complete ∧ p.builder ∈ s.published ∧ ¬(s.point i).early
  unbuilt : ∀ i, s.work i = some false → s.point i = .build ∨ s.point i = .cleanup ∨ s.point i = .ended
  later : ∀ i p, s.backup i = some p → s.point i = .replaced ∨ s.point i = .dropBackup → p.builder ∈ s.published.tail

variable {s s' : State ι} {force : ι → Bool} {i : ι}

theorem Inv.goto (h : Inv s) (hw : s.work i = some false → next = .build ∨ next = .cleanup ∨ next = .ended)
    (he : next.early → (s.point i).early) (hn : next = .prepare ∨ next = .build → i ∉ s.published)
    (hr : next = .replaced ∨ next = .dropBackup → s.point i = .replaced) : Inv (s.goto i next) := by
  obtain ⟨⟨ht, ho, hk, hd, hw'⟩, hp, hb, hu, hl⟩ := h
  unfold State.goto
  constructor
  case toSafe => exact ⟨ht, ho, hk, hd, by grind [update_apply]⟩
  case target => exact hp
  case backup | unbuilt | later => grind [update_apply]

theorem Inv.raise (h : Inv s) : Inv (s.raise i) := by
  have hu := h.unbuilt i
  apply h.goto <;> cases hi : s.point i <;> grind [Point.handler, Point.early]

theorem Inv.setWork (h : Inv s) (work : Option Bool) (hn : work ≠ none → i ∉ s.published)
    (hu : work = some false → s.point i = .build) : Inv { s with work := update s.work i work } :=
  { h with
    new := by grind [h.new, update_apply]
    unbuilt := by grind [h.unbuilt, update_apply] }

theorem Inv.put (h : Inv s) (hi : s.point i = .moveIn ∧ next = .ended ∨ s.point i = .replace ∧ next = .replaced) :
    Inv (s.put i next) := by
  unfold State.put
  split
  case h_2 => exact h.raise
  case h_1 c _ hc =>
    obtain ⟨⟨ht, ho, hk, hd, hw⟩, hp, hb, hu, hl⟩ := h
    have hnew : i ∉ s.published := hw i (by simp [hc])
    have hcomplete : c = true := by grind
    subst hcomplete
    unfold State.goto
    constructor
    case toSafe =>
      refine ⟨?whole, List.nodup_cons.mpr ⟨hnew, ho⟩, ?kept, fun j hj => List.mem_of_mem_tail (hd j hj), ?new⟩
      case whole | kept | new => grind [update_apply]
    case target | backup | unbuilt | later => grind [update_apply, Point.early]

-- A package that is moved aside is recoverable from the backup, and one that is moved back is at the target.
theorem Inv.moveAside (h : Inv s) (hi : s.point i = .moveAside) (hp : s.target = some p) :
    Inv { s.goto i .aside with target := none, backup := update s.backup i (some p) } := by
  obtain ⟨⟨ht, ho, hk, hd, hw⟩, htarget, hb, hu, hl⟩ := h
  unfold State.goto
  constructor
  case toSafe =>
    refine ⟨by simp, ho, ?kept, hd, ?new⟩
    case kept =>
      intro j hj
      rcases hk j hj with hj | ⟨k, hj⟩ | hj
      case inl => exact .inr (.inl ⟨i, (update_self ..).trans (hp.symm.trans hj)⟩)
      case inr.inl =>
        have hne : k ≠ i := by grind [Point.early]
        exact .inr (.inl ⟨k, (update_of_ne hne ..).trans hj⟩)
      case inr.inr => exact .inr (.inr hj)
    case new => grind [update_apply]
  case target => simp
  case backup | unbuilt | later => grind [update_apply, Point.early]

theorem Inv.restore (h : Inv s) (hn : s.target = none) (hp : s.backup i = some p) :
    Inv { s.goto i .cleanup with target := some p, backup := update s.backup i none } := by
  obtain ⟨⟨ht, ho, hk, hd, hw⟩, htarget, hb, hu, hl⟩ := h
  unfold State.goto
  constructor
  case toSafe =>
    refine ⟨by grind, ho, ?kept, hd, ?new⟩
    case kept =>
      intro j hj
      rcases hk j hj with hj | ⟨k, hj⟩ | hj
      case inl => simp [hn] at hj
      case inr.inl =>
        by_cases hki : k = i
        case pos => exact .inl (hp.symm.trans (hki ▸ hj))
        case neg => exact .inr (.inl ⟨k, (update_of_ne hki ..).trans hj⟩)
      case inr.inr => exact .inr (.inr hj)
    case new => grind [update_apply]
  case target => grind
  case backup | unbuilt | later => grind [update_apply, Point.early]

theorem Inv.dropBackup (h : Inv s) (hi : s.point i = .dropBackup) :
    Inv { s.goto i .ended with
      backup := update s.backup i none
      deleted := ((s.backup i).map (·.builder)).toList ++ s.deleted } := by
  obtain ⟨⟨ht, ho, hk, hd, hw⟩, htarget, hb, hu, hl⟩ := h
  unfold State.goto
  constructor
  case toSafe =>
    refine ⟨ht, ho, ?kept, ?deleted, ?new⟩
    all_goals simp only [update_apply, List.mem_append, Option.mem_toList, Option.map_eq_some_iff]
    case kept | deleted | new => grind
  case target => exact htarget
  case backup | unbuilt | later => grind [update_apply, Point.early]

theorem Inv.go (h : Inv s) : Inv (s.go i f) := by
  have hnew := h.new i
  have hu := h.unbuilt i
  unfold State.go
  cases hi : s.point i <;> dsimp only
  case ended => exact h
  case prepare =>
    split
    case isTrue => exact h.raise
    case isFalse =>
      have hg : Inv (s.goto i .build) := by apply h.goto <;> grind [Point.early]
      exact hg.setWork _ (fun _ => hnew (.inl hi)) (fun _ => by simp [State.goto])
  case build =>
    have hs := h.setWork (some true) (fun _ => hnew (.inr (.inl hi))) (by simp)
    apply hs.goto <;> grind [Point.early]
  case cleanup =>
    have hs := h.setWork (i := i) none (by simp) (by simp)
    apply hs.goto <;> grind [Point.early]
  case publish =>
    split
    case isTrue => apply h.goto <;> grind [Point.early]
    case isFalse =>
      split
      case isTrue => apply h.goto <;> grind [Point.early]
      case isFalse => exact h.raise
  case recheck =>
    split
    case isTrue => apply h.goto <;> grind [Point.early]
    case isFalse => exact h.raise
  case aside | replaced => apply h.goto <;> grind [Point.early]
  case moveIn => exact h.put (.inl ⟨hi, rfl⟩)
  case replace => exact h.put (.inr ⟨hi, rfl⟩)
  case moveAside =>
    split
    case h_1 => exact h.raise
    case h_2 hp => exact h.moveAside hi hp
  case restore =>
    split
    case h_1 hn hp => exact h.restore hn hp
    case h_2 => exact h.raise
  case dropBackup => exact h.dropBackup hi

omit [DecidableEq ι] in
theorem inv_start : Inv (start : State ι) := by
  constructor
  case toSafe => constructor <;> simp [start]
  case target | backup | unbuilt | later => simp [start]

theorem inv_of_reachable (h : Reachable force s) : Inv s := by
  refine invariant ?_ inv_start h
  rintro s s' h ⟨act, _, hs⟩
  cases act <;> cases hs
  case go => exact h.go
  case raise => exact h.raise
  case kill => apply h.goto <;> simp [Point.early]

-- The second builder has moved the first one's package aside.
def gap : List (Action Bool) :=
  List.replicate 4 (.go false) ++ List.replicate 5 (.go true)

theorem safe_of_reachable (h : Reachable force s) : Safe s :=
  (inv_of_reachable h).toSafe

theorem safe_gap : ∃ s, runs (step id) (fun _ _ => True) start gap = some s ∧ s.target = none ∧ Safe s := by
  have h : Reachable id _ := reachable_of_runs gap rfl
  exact ⟨_, rfl, rfl, safe_of_reachable h⟩

-- A builder that may not replace a package moves none aside.
theorem backup_of_unforced (h : Reachable force s) (hf : force i = false) :
    s.point i ∉ [.recheck, .moveAside, .aside, .replace] ∧ s.backup i = none := by
  induction h
  case refl => simp [start]
  case tail h hs hn =>
    clear h
    obtain ⟨act, _, hs⟩ := hs
    cases act <;> simp only [step, State.go, State.put, State.raise, State.goto] at hs
    all_goals repeat' split at hs
    all_goals cases hs; grind [Point.handler.eq_def, update_apply]

omit [DecidableEq ι] in
theorem Inv.exists_backup (h : Inv s) (ht : s.target = none) (hj : s.published.head? = some j) :
    ∃ i, s.backup i = some ⟨j, true⟩ := by
  obtain ⟨⟨_, ho, hk, hd, _⟩, _, _, _, _⟩ := h
  obtain ⟨rest, hp⟩ := List.head?_eq_some_iff.mp hj
  -- what is deleted was published before another one
  have hn : j ∉ s.deleted := by grind
  grind

-- While the target is absent, one was published before exactly if one is set aside, and the last one was set aside
-- by a builder that may replace it.
theorem published_ne_nil_iff (h : Reachable force s) (ht : s.target = none) :
    (s.published ≠ [] ↔ ∃ i p, s.backup i = some p) ∧
      ∀ j, s.published.head? = some j → ∃ i, force i ∧ s.backup i = some ⟨j, true⟩ := by
  have hi := inv_of_reachable h
  have hlast (j : ι) (hj : s.published.head? = some j) : ∃ i, force i ∧ s.backup i = some ⟨j, true⟩ := by
    have ⟨i, hb⟩ := hi.exists_backup ht hj
    have hf := backup_of_unforced (i := i) h
    exact ⟨i, by grind, hb⟩
  refine ⟨⟨fun hne => ?_, fun ⟨i, p, hp⟩ => List.ne_nil_of_mem (hi.backup i p hp).2.1⟩, hlast⟩
  have ⟨i, _, hi⟩ := hlast _ (List.head?_eq_some_head hne)
  exact ⟨i, _, hi⟩

theorem published_gap : ∃ s, runs (step id) (fun _ _ => True) start gap = some s ∧ s.published ≠ [] ∧
    ∃ i, id i = true ∧ s.backup i = some ⟨false, true⟩ := by
  have h : Reachable id _ := reachable_of_runs gap rfl
  have ⟨hn, hlast⟩ := published_ne_nil_iff h rfl
  exact ⟨_, rfl, hn.mpr ⟨true, _, rfl⟩, hlast false rfl⟩

theorem deleted_of_unforced (hf : ∀ i, force i = false) (h : Reachable force s) : s.deleted = [] := by
  induction h
  case refl => rfl
  case tail h hs hn =>
    have hb (i : ι) := (backup_of_unforced h (hf i)).2
    clear h
    obtain ⟨act, _, hs⟩ := hs
    cases act <;> simp only [step, State.go, State.put, State.raise, State.goto] at hs
    all_goals repeat' split at hs
    all_goals cases hs; simp [hb, hn]

-- Where no builder may replace a package, the first one that is published stays.
theorem target_of_unforced (hf : ∀ i, force i = false) (h : Reachable force s) (hj : j ∈ s.published) :
    s.target = some ⟨j, true⟩ := by
  rcases (inv_of_reachable h).kept j hj with ht | ⟨i, hi⟩ | hd
  case inl => exact ht
  case inr.inl => simp [(backup_of_unforced h (hf i)).2] at hi
  case inr.inr => simp [deleted_of_unforced hf h] at hd

theorem target_gap : ∃ s, runs (step fun _ => false) (fun _ _ => True) start gap = some s ∧
    s.target = some ⟨false, true⟩ := by
  have h : Reachable (fun _ => false) _ := reachable_of_runs gap rfl
  exact ⟨_, rfl, target_of_unforced (fun _ => rfl) h List.mem_cons_self⟩

section Exclusive

-- No builder that may not replace a package moves its own in while one is set aside.
def Undisturbed (force : ι → Bool) (s : State ι) : Action ι → Prop
  | .go i => s.point i = .moveIn → force i = false → ∀ j, s.backup j = none
  | _ => True

-- The target is a package that a builder has published, and a builder that may not replace a package has published
-- the first one, if any.
structure Exclusive (force : ι → Bool) (s : State ι) : Prop extends Safe s where
  builder : ∀ p, s.target = some p → p.builder ∈ s.published
  first : ∀ i ∈ s.published, force i = false → s.published.getLast? = some i

theorem published_of_step (h : step force s act = some s') : s'.published = s.published ∨
    ∃ i, act = .go i ∧ (s.point i = .moveIn ∨ s.point i = .replace) ∧ s.target = none ∧
      s'.published = i :: s.published := by
  cases act <;> simp only [step, State.go, State.put, State.raise, State.goto] at h
  all_goals repeat' split at h
  all_goals cases h; grind

theorem reachable_of_undisturbed (h : ReflTransGen (Moves (step force) (Undisturbed force)) start s) :
    Reachable force s :=
  invariant (fun hr ⟨act, _, hs⟩ => hr.tail ⟨act, trivial, hs⟩) .refl h

theorem published_exclusively (h : ReflTransGen (Moves (step force) (Undisturbed force)) start s) :
    Exclusive force s := by
  have hr := reachable_of_undisturbed h
  refine ⟨(inv_of_reachable hr).toSafe, (inv_of_reachable hr).target, ?_⟩
  clear hr
  induction h
  case refl => simp [start]
  case tail s s' h hs hf =>
    have hr := reachable_of_undisturbed h
    obtain ⟨act, hu, hs⟩ := hs
    obtain hp | ⟨i, rfl, hp, ht, he⟩ := published_of_step hs
    case inl => rwa [hp]
    case inr =>
      rw [he]
      intro j hj hforce
      obtain rfl | hj := List.mem_cons.mp hj
      case inl =>
        -- nothing is set aside, so nothing was published before
        have hm : s.point j = .moveIn := hp.resolve_right fun hn => by
          simpa [hn] using (backup_of_unforced hr hforce).left
        have hnil : s.published = [] := by
          by_contra hne
          have ⟨k, hk⟩ := (inv_of_reachable hr).exists_backup ht (List.head?_eq_some_head hne)
          cases (hu hm hforce k).symm.trans hk
        rw [hnil]
        rfl
      case inr => rw [List.getLast?_cons, hf j hj hforce]; rfl

instance {s : State Bool} {force : Bool → Bool} : (act : Action Bool) → Decidable (Undisturbed force s act)
  | .go i => inferInstanceAs <| Decidable (s.point i = .moveIn → force i = false → ∀ j, s.backup j = none)
  | .raise _ | .kill _ => isTrue trivial

-- The second builder goes on to put its own package there.
def replacement : List (Action Bool) :=
  gap ++ List.replicate 4 (.go true)

theorem published_exclusively_replaced : ∃ s, runs (step id) (Undisturbed id) start replacement = some s ∧
    s.target = some ⟨true, true⟩ ∧ s.deleted = [false] ∧ Exclusive id s := by
  have h : ReflTransGen (Moves (step id) (Undisturbed id)) start _ := reachable_of_runs replacement rfl
  exact ⟨_, rfl, rfl, rfl, published_exclusively h⟩

-- The third builder finds the target absent while the second one has set the first one's package aside.
def race : List (Action (Fin 3)) :=
  List.replicate 4 (.go 0) ++ List.replicate 5 (.go 1) ++ List.replicate 4 (.go 2)

theorem not_published_exclusively : ∃ s, runs (step (· = 1)) (fun _ _ => True) start race = some s ∧
    s.target = some ⟨2, true⟩ ∧ s.backup 1 = some ⟨0, true⟩ ∧ ¬Exclusive (· = 1) s :=
  ⟨_, rfl, rfl, rfl, fun h => absurd (h.first 2 (by decide) rfl) (by decide)⟩

end Exclusive

end Export
