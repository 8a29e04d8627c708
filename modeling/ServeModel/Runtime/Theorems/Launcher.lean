import ServeModel.Lib.Transition
import ServeModel.Runtime.Launcher

-- A launcher that gets its signal at the right moment ends with all of its workers.
namespace Launcher

open Relation Transition List Option Nat

variable {specs : List Key} {s s' : Launcher} {registry : Registry} {key : Key} {location : Location}

section Registry

theorem mem_of_mem_hdel (h : e ∈ hdel fields registry) : e ∈ registry :=
  (mem_filter.mp h).left

theorem mem_of_mem_cleanupRegistration (h : e ∈ cleanupRegistration answers streamName workerIndex registry) :
    e ∈ registry := by
  unfold cleanupRegistration at h
  split at h
  case h_1 => exact h
  case h_2 | h_3 => exact mem_of_mem_hdel h

theorem matchingRegistryFields_eq_some
    (h : ∀ e ∈ registry, (matchesKey streamName workerIndex e.2).isSome) :
    ∃ fields, matchingRegistryFields streamName workerIndex registry = some fields ∧
      ∀ e ∈ registry, matchesKey streamName workerIndex e.2 = some true → e.1 ∈ fields := by
  induction registry
  case nil => exact ⟨[], rfl, nofun⟩
  case cons e registry hi =>
    have ⟨he, h⟩ := forall_mem_cons.mp h
    have ⟨fields, hf, hi⟩ := hi h
    have ⟨hit, he⟩ := isSome_iff_exists.mp he
    have hm : matchingRegistryFields streamName workerIndex (e :: registry) =
        some (if hit then e.1 :: fields else fields) := by
      simp [matchingRegistryFields, he, hf]
    refine ⟨_, hm, forall_mem_cons.mpr ⟨fun h => ?_, fun x hx h => ?_⟩⟩
    · cases he.symm.trans h
      exact mem_cons_self
    · have := hi x hx h
      split
      case isTrue => exact mem_cons_of_mem _ this
      case isFalse => exact this

-- A call that gets through and can read every entry leaves none of the worker.
theorem not_named_cleanupRegistration
    (h : ∀ e ∈ registry, (matchesKey key.streamName (some key.workerIndex) e.2).isSome)
    (he : e ∈ cleanupRegistration true key.streamName (some key.workerIndex) registry) : ¬named key e.2 := by
  intro hn
  have ⟨fields, hf, h⟩ := matchingRegistryFields_eq_some h
  have hm := h e (mem_of_mem_cleanupRegistration he) hn
  simp only [cleanupRegistration, if_true, hf] at he
  split at he
  case h_1 hf => cases hf
  case h_2 hf => cases hf; cases hm
  case h_3 hf =>
    cases hf
    exact absurd hm (by simpa using (mem_filter.mp he).right)

theorem eq_of_named (h : named key' (.object (some key.streamName) (.value key.workerIndex))) : key = key' := by
  have ⟨stream, index⟩ := key
  simp only [named, matchesKey] at h
  split at h
  case isTrue => cases h
  case isFalse hs => simp_all

end Registry

-- So many workers are known to have stopped, and so many to be cleaned up.
@[simp]
def Location.stopped (n : Nat) : Location → Nat
  | waiting i => i
  | waited i => i + 1
  | ended => n
  | _ => 0

@[simp]
def Location.cleanedUp (n : Nat) : Location → Nat
  | waiting i | waited i => i
  | ended => n
  | _ => 0

theorem Location.cleanedUp_le_stopped (location : Location) (n : Nat) : location.cleanedUp n ≤ location.stopped n := by
  cases location <;> simp

-- What is still registered for a worker that is cleaned up belongs to a later one as well.
structure Inv (specs : List Key) (s : Launcher) : Prop where
  late : s.late = false
  same : s.signalled = s.shutdownRequested
  bounded : ∀ i p, s.procs i = some p → i < specs.length
  settled : s.shutdownRequested → s.location.settled
  terminated : s.shutdownRequested → ∀ i p, s.procs i = some p → p.running → p.terminated
  stopped : ∀ i p, s.procs i = some p → i < s.location.stopped specs.length → p.running = false
  removed : ∀ i key, specs[i]? = some key → i < s.location.cleanedUp specs.length →
    ∀ e ∈ s.registry, named key e.2 → ∃ j, s.location.cleanedUp specs.length ≤ j ∧ specs[j]? = some key

theorem Inv.orderly (h : Inv specs s) : Orderly specs s where
  noStart := h.late
  terminated hs := h.terminated (h.same ▸ hs)
  stopped hl i p hp := h.stopped i p hp (by simpa [hl] using h.bounded i p hp)
  removed hl i p key hp hk e he hn := by
    have hi := h.bounded i p hp
    have ⟨j, hj, hkey⟩ := h.removed i key hk (by simpa [hl] using hi) e he hn
    -- there is no later one
    have hlt := (List.getElem?_eq_some_iff.mp hkey).choose
    simp only [hl, Location.cleanedUp] at hj
    omega

theorem inv_start : Inv specs (start registry) := by
  constructor <;> simp [start]

section Steps

variable {i : Nat} {p : Process}

theorem Inv.goto (h : Inv specs s) (hs : s.shutdownRequested → location.settled)
    (hst : location.stopped specs.length ≤ s.location.stopped specs.length)
    (hc : location.cleanedUp specs.length ≤ s.location.cleanedUp specs.length) : Inv specs { s with location } :=
  { h with
    settled := hs
    stopped i p hp hi := h.stopped i p hp (lt_of_lt_of_le hi hst)
    removed i key hk hi e he hn := by
      have ⟨j, hj, hkey⟩ := h.removed i key hk (lt_of_lt_of_le hi hc) e he hn
      exact ⟨j, hc.trans hj, hkey⟩ }

-- As long as a worker may be started, no signal has come.
theorem Inv.spawnWorker (h : Inv specs s) (hi : i < specs.length) (hn : s.location.settled = false)
    (hst : location.stopped specs.length = 0) (hc : location.cleanedUp specs.length = 0) :
    Inv specs (s.spawnWorker i location) := by
  have hr : s.shutdownRequested = false := Bool.eq_false_iff.mpr fun hr => by cases hn.symm.trans (h.settled hr)
  have ⟨late, same, bounded, _, _, _, _⟩ := h
  unfold Launcher.spawnWorker setProc
  constructor
  case late => simp [late, same, hr]
  case same => exact same
  case bounded => grind [Function.update_apply]
  case settled | terminated => simp [hr]
  case stopped => exact fun _ _ _ hj => absurd (hst ▸ hj) (not_lt_zero _)
  case removed => exact fun _ _ _ hj => absurd (hc ▸ hj) (not_lt_zero _)

theorem Inv.exit (h : Inv specs s) (hp : s.procs i = some p) :
    Inv specs (s.setProc i { p with running := false }) := by
  have ⟨late, same, bounded, settled, terminated, stopped, removed⟩ := h
  unfold setProc
  constructor
  case late | same | settled | removed => assumption
  case bounded | terminated | stopped => grind [Function.update_apply]

theorem Inv.wait (h : Inv specs s) (hl : s.location = .waiting i) (hp : s.procs i = some p)
    (hr : p.running = false) : Inv specs { s with location := .waited i } :=
  { h with
    settled _ := rfl
    stopped j q hq hj := by
      obtain rfl | hj := eq_or_lt_of_le (le_of_lt_succ hj)
      case inl => cases hp.symm.trans hq; exact hr
      case inr => exact h.stopped j q hq (by rwa [hl])
    removed := by simpa [hl] using h.removed }

theorem Inv.cleaned (h : Inv specs s) (hl : s.location = .waited i) (hk : specs[i]? = some key)
    (hn : ∀ e ∈ s.registry, ¬named key e.2) : Inv specs { s with location := .waiting (i + 1) } :=
  { h with
    settled _ := rfl
    stopped := by simpa [hl] using h.stopped
    removed j key' hk' hj e he hn' := by
      have hne : key' ≠ key := fun heq => hn e he (heq ▸ hn')
      obtain rfl | hj := eq_or_lt_of_le (le_of_lt_succ hj)
      case inl => exact absurd (Option.some.inj (hk'.symm.trans hk)) hne
      case inr =>
        have ⟨m, hm, hkey⟩ := h.removed j key' hk' (by rwa [hl]) e he hn'
        rw [hl] at hm
        refine ⟨m, succ_le_of_lt (lt_of_le_of_ne hm fun heq => ?_), hkey⟩
        exact hne (Option.some.inj (hkey.symm.trans (heq ▸ hk))) }

-- What comes to the registry has no name of a worker that is cleaned up.
theorem Inv.setRegistry (h : Inv specs s) (hr : ∀ e ∈ registry, e ∈ s.registry ∨
    ∀ key ∈ specs, named key e.2 → ∃ j, s.location.cleanedUp specs.length ≤ j ∧ specs[j]? = some key) :
    Inv specs { s with registry } :=
  { h with
    removed i key hk hi e he hn := (hr e he).elim (h.removed i key hk hi e · hn) fun h =>
      h key (mem_of_getElem? hk) hn }

theorem Inv.handleSignal (h : Inv specs s) (hs : s.location.settled) : Inv specs s.handleSignal := by
  have ⟨late, _, bounded, _, _, stopped, removed⟩ := h
  -- no worker is missing from the list
  have hl (j : Nat) : s.location ≠ .restarted j := fun hl => by simp [hl] at hs
  unfold Launcher.handleSignal
  simp only [hl, if_false]
  constructor
  case late | removed => assumption
  case same => rfl
  case settled => exact fun _ => hs
  case bounded | terminated | stopped => grind [Process.terminate, map_eq_some_iff]

theorem Inv.main (h : Inv specs s) (hok : Handled specs s (.main answers)) (hs : s.main specs answers = some s') :
    Inv specs s' := by
  simp only [Launcher.main] at hs
  -- a call of `cleanup_registration` only takes entries away
  have hclean (key : Key) : Inv specs { s with
      registry := cleanupRegistration answers key.streamName (some key.workerIndex) s.registry } :=
    h.setRegistry fun e he => .inl (mem_of_mem_cleanupRegistration he)
  cases hl : s.location <;> simp only [hl] at hs
  case starting i =>
    split at hs
    case isTrue hi => cases hs; exact h.spawnWorker hi (by rw [hl]; rfl) rfl rfl
    case isFalse => cases hs; exact h.goto (fun _ => rfl) (zero_le _) (zero_le _)
  case restarting i =>
    split at hs
    case isTrue hi => cases hs; exact h.spawnWorker hi (by rw [hl]; rfl) rfl rfl
    case isFalse => cases hs
  case installing | restarted => cases hs; exact h.goto (fun _ => rfl) (zero_le _) (zero_le _)
  case checking =>
    cases hs
    apply h.goto <;> split <;> simp
  case polling i =>
    split at hs
    case isTrue =>
      obtain ⟨p, hp, rfl⟩ := map_eq_some_iff.mp hs
      apply h.goto <;> split <;> simp
    case isFalse => cases hs; exact h.goto (fun _ => rfl) (zero_le _) (zero_le _)
  case exited i =>
    obtain ⟨key, hk, rfl⟩ := map_eq_some_iff.mp hs
    exact (hclean key).goto (fun _ => rfl) (zero_le _) (zero_le _)
  case cleaned i =>
    cases hs
    refine h.goto (fun hr => ?_) ?_ ?_
    · simp [hr]
    all_goals split <;> simp
  case waiting i =>
    split at hs
    case isTrue =>
      obtain ⟨p, hp, rfl⟩ := map_eq_some_iff.mp hs
      exact (h.exit hp).wait hl (Function.update_self ..) rfl
    case isFalse hi =>
      cases hs
      apply h.goto (fun _ => rfl) <;> simpa [hl] using hi
  case waited i =>
    obtain ⟨key, hk, rfl⟩ := map_eq_some_iff.mp hs
    obtain ⟨rfl, hr⟩ := hok i key hl hk
    exact (hclean key).cleaned hl hk fun e he => not_named_cleanupRegistration hr he
  case ended => cases hs

theorem Inv.step (h : Inv specs s) (hok : Handled specs s act) (hs : s.step specs act = some s') : Inv specs s' := by
  cases act
  case main answers => exact h.main hok hs
  case signal signum =>
    obtain ⟨hset, hterm⟩ := hok
    simp only [Launcher.step, Launcher.signal] at hs
    split at hs
    case h_1 => cases hs
    case h_2 hl => simp [hl] at hset
    case h_3 hl =>
      rw [if_neg (by simp [hterm hl])] at hs
      cases hs
      exact h.handleSignal hset
    case h_4 =>
      cases hs
      exact h.handleSignal hset
  case exit i =>
    obtain ⟨p, hp, rfl⟩ := map_eq_some_iff.mp hs
    exact h.exit hp
  case register i field =>
    obtain ⟨key, hk, hs⟩ := bind_eq_some_iff.mp hs
    obtain ⟨p, hp, hs⟩ := bind_eq_some_iff.mp hs
    split at hs
    case isFalse => cases hs
    case isTrue hr =>
      cases hs
      refine h.setRegistry (forall_mem_cons.mpr ⟨.inr fun key' _ hn => ?_, fun e he => .inl (mem_of_mem_hdel he)⟩)
      -- a worker that runs has not been cleaned up
      have hi : s.location.stopped specs.length ≤ i := Nat.le_of_not_lt fun hi => by simp [h.stopped i p hp hi] at hr
      exact ⟨i, (s.location.cleanedUp_le_stopped _).trans hi, eq_of_named hn ▸ hk⟩
  case others registry =>
    simp only [Launcher.step] at hs
    split at hs
    case isFalse => cases hs
    case isTrue hr =>
      cases hs
      exact h.setRegistry fun e he => (hr e he).imp_right fun hn key hk hk' => absurd hk' (hn key hk)

end Steps

-- Whenever a signal comes, but for the moments before the handlers are there and in which a worker is replaced.
theorem orderly_of_handled (h : ReflTransGen (Moves (step specs) (Handled specs)) (start registry) s) :
    Orderly specs s :=
  (invariant (fun h ⟨_, hok, hs⟩ => h.step hok hs) inv_start h).orderly

-- One worker, which registers, and a signal that comes between two polls.
theorem orderly_between_polls : ∃ s, ReflTransGen (Moves (step [⟨"gpu", 0⟩]) (Handled [⟨"gpu", 0⟩])) (start []) s ∧
    s.location = .ended ∧ s.signalled = true ∧ (s.procs 0).isSome ∧ Orderly [⟨"gpu", 0⟩] s := by
  have hr : ReflTransGen (Moves (step [⟨"gpu", 0⟩]) (Handled [⟨"gpu", 0⟩])) (start []) _ :=
    .head ⟨.main true, nofun, rfl⟩ <| .head ⟨.register 0 "gpu:worker:0", trivial, rfl⟩ <|
    .head ⟨.main true, nofun, rfl⟩ <| .head ⟨.main true, nofun, rfl⟩ <| .head ⟨.main true, nofun, rfl⟩ <|
    .head ⟨.signal .sigterm, ⟨rfl, nofun⟩, rfl⟩ <| .head ⟨.main true, nofun, rfl⟩ <|
    .head ⟨.main true, nofun, rfl⟩ <| .head ⟨.main true, nofun, rfl⟩ <| .head ⟨.main true, nofun, rfl⟩ <|
    .head ⟨.main true, by rintro _ _ ⟨⟩ ⟨⟩; exact ⟨rfl, by decide⟩, rfl⟩ <|
    .head ⟨.main true, nofun, rfl⟩ .refl
  exact ⟨_, hr, rfl, rfl, rfl, orderly_of_handled hr⟩

-- The signal comes when the worker has been started and the handlers have not been installed, or in the restart
-- delay.
theorem not_orderly :
    (∃ s, runs (step [⟨"gpu", 0⟩]) (fun _ _ => True) (start []) [.main true, .signal .sigterm] = some s ∧
      s.location = .ended ∧ (s.procs 0).any (·.running) ∧ ¬Orderly [⟨"gpu", 0⟩] s) ∧
    ∃ s, runs (step [⟨"gpu", 0⟩]) (fun _ _ => True) (start []) [.main true, .main true, .main true, .main true, .exit 0,
        .main true, .main true, .main true, .signal .sigterm, .main true] = some s ∧
      s.late = true ∧ ¬Orderly [⟨"gpu", 0⟩] s := by
  refine ⟨⟨_, rfl, rfl, rfl, fun h => ?_⟩, _, rfl, rfl, fun h => ?_⟩
  · cases h.stopped rfl 0 _ rfl
  · cases h.noStart

end Launcher
