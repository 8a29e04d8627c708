import ServeModel.Runtime.RunHash
import Mathlib.Data.List.Chain

namespace RunHash

open Redis

variable {hash : String → Option String} {fields : EntryFields} {w : Write} {ws : List Write}

theorem setAll_of_forall_ne (h : ∀ field ∈ fields, field.1 ≠ key) : setAll fields hash key = hash key := by
  unfold setAll
  induction fields generalizing hash
  case nil => rfl
  case cons field _ ih =>
    have ⟨h₁, h₂⟩ := List.forall_mem_cons.mp h
    rw [List.foldl_cons, ih h₂, Function.update_of_ne h₁.symm]

theorem setAll_stageFields : setAll (Queue.stageFields stage now) hash "updated_at" = some now := by
  have hne : ("updated_at" : String) ≠ stage ++ "_enqueued_at" := by
    intro h
    have hl := congrArg String.length h
    rw [String.length_append] at hl
    have : "updated_at".length = 10 ∧ "_enqueued_at".length = 12 := by decide
    omega
  simp [setAll, Queue.stageFields, Function.update_of_ne hne]

theorem ofDigitChars_toString (n : Nat) : Nat.ofDigitChars 10 (toString n).toList 0 = n := by
  rw [Nat.toString_eq_repr, Nat.toList_repr, Nat.ofDigitChars_toDigits (by decide) (by decide)]

-- What a command leaves in the field, read as a number.
def Write.value (w : Write) : Nat :=
  match w.writer with
  | .storeQueuedRun => w.clock
  | _ => w.clock / 1000

theorem updatedAt_run (ws : List Write) : updatedAt (run (ws ++ [w])) = some w.value := by
  rw [run, List.foldl_concat, updatedAt]
  generalize ws.foldl _ _ = hash
  have hr : ∀ text, setAll (("updated_at", text) :: w.rest) hash "updated_at" = some text := by
    intro text
    exact (setAll_of_forall_ne w.rest_ne).trans (Function.update_self ..)
  unfold Write.fields Write.value
  cases w.writer <;>
    simp only [hr, setAll_stageFields, getTimestamp, nowSecs, Option.map_some, ofDigitChars_toString]

def NeverDecreases (ws : List Write) : Prop :=
  ∀ earlier w later, ws = earlier ++ w :: later →
    ∀ old ∈ updatedAt (run earlier), ∃ new ∈ updatedAt (run (earlier ++ [w])), old ≤ new

-- A writer reads the clock after the last command was run, and nobody but the server follows the server.
structure Agrees (last next : Write) : Prop where
  read : last.applied ≤ next.clock
  unit : last.writer = .storeQueuedRun → next.writer = .storeQueuedRun

theorem Agrees.value_le (h : Agrees last next) : last.value ≤ next.value := by
  have hc := last.clock_le.trans h.read
  unfold Write.value
  split
  case h_1 hw => simpa only [h.unit hw] using hc
  case h_2 =>
    split
    case h_1 => exact (Nat.div_le_self ..).trans hc
    case h_2 => exact Nat.div_le_div_right hc

theorem neverDecreases_of_agrees (h : ws.IsChain Agrees) : NeverDecreases ws := by
  intro earlier w later hws old ho
  refine ⟨w.value, updatedAt_run _, ?_⟩
  obtain rfl | ⟨es, last, rfl⟩ := earlier.eq_nil_or_concat'
  case inl => cases ho
  case inr =>
    rw [updatedAt_run] at ho
    cases ho
    rw [hws, List.append_assoc, List.singleton_append] at h
    exact ((List.isChain_append.mp h).2.1.rel).value_le

-- A fan-out child, of which the server writes nothing.
def child : Write where
  writer := .handoff "inference"
  rest := []
  clock := 1700000000000
  applied := 1700000000000
  clock_le := Nat.le_refl _
  rest_ne := by simp

theorem neverDecreases_child : NeverDecreases [child, child] :=
  neverDecreases_of_agrees (.cons_cons ⟨Nat.le_refl _, Writer.noConfusion⟩ (.singleton _))

-- The first handoff of an accepted run, at the very time of its acceptance.
theorem not_neverDecreases : ¬NeverDecreases [{ child with writer := .storeQueuedRun }, child] := by
  intro h
  obtain ⟨new, hn, hle⟩ := h [_] _ [] rfl _ (updatedAt_run [])
  cases (updatedAt_run [_]).symm.trans hn
  exact absurd hle (by decide)

end RunHash
