import Mathlib.Data.Nat.Log
import Mathlib.Tactic.Ring

-- Natural numbers in the arithmetic of 53 bit floating point numbers, as far as sums and comparisons of
-- them go: `round` is the nearest number that the format holds, ties to even.
namespace Double

open Nat

-- The distance of the format's numbers around `n`.
def ulp (n : Nat) : Nat :=
  2 ^ (Nat.log 2 n - 52)

def roundTo (u n : Nat) : Nat :=
  if 2 * (n % u) < u ∨ (2 * (n % u) = u ∧ n / u % 2 = 0) then n / u * u else (n / u + 1) * u

def round (n : Nat) : Nat :=
  roundTo (ulp n) n

theorem ulp_pos (n : Nat) : 0 < ulp n :=
  Nat.two_pow_pos _

theorem ulp_of_lt (h : n < 2 ^ 53) : ulp n = 1 := by
  have : Nat.log 2 n < 53 := log_lt_of_lt_pow' (by decide) h
  simp [ulp, show Nat.log 2 n - 52 = 0 by omega]

theorem roundTo_le (u n : Nat) : roundTo u n ≤ (n / u + 1) * u := by
  unfold roundTo
  split
  · exact mul_le_mul_right u (le_succ _)
  · exact le_refl _

theorem le_roundTo (u n : Nat) : n / u * u ≤ roundTo u n := by
  unfold roundTo
  split
  · exact le_refl _
  · exact mul_le_mul_right u (le_succ _)

theorem roundTo_mono (h : m ≤ n) : roundTo u m ≤ roundTo u n := by
  rcases lt_or_ge (m / u) (n / u) with hq | hq
  · calc roundTo u m ≤ (m / u + 1) * u := roundTo_le u m
      _ ≤ n / u * u := mul_le_mul_right u hq
      _ ≤ roundTo u n := le_roundTo u n
  · -- Both lie between the same neighbours, so the larger one has the larger remainder.
    have hq : m / u = n / u := le_antisymm (Nat.div_le_div_right h) hq
    have hm := div_add_mod m u
    have hn := div_add_mod n u
    have hr : m % u ≤ n % u := by rw [hq] at hm; omega
    unfold roundTo
    rw [hq]
    split_ifs
    · exact le_refl _
    · exact mul_le_mul_right u (le_succ _)
    · omega
    · exact le_refl _

theorem roundTo_of_dvd (hu : 0 < u) (h : u ∣ n) : roundTo u n = n := by
  have hm : n % u = 0 := Nat.mod_eq_zero_of_dvd h
  simp [roundTo, hm, hu, Nat.div_mul_cancel h]

theorem round_of_lt (h : n < 2 ^ 53) : round n = n := by
  simp [round, ulp_of_lt h, roundTo, mod_one]

theorem round_of_le (h : n ≤ 2 ^ 53) : round n = n := by
  rcases lt_or_eq_of_le h with hl | he
  · exact round_of_lt hl
  · subst he; decide +kernel

theorem ulp_dvd (h : Nat.log 2 n ≤ k) : ulp n ∣ 2 ^ k :=
  pow_dvd_pow 2 (by omega)

theorem round_le_pow (n : Nat) : round n ≤ 2 ^ (Nat.log 2 n + 1) := by
  have hn : n ≤ 2 ^ (Nat.log 2 n + 1) := le_of_lt (lt_pow_succ_log_self (by decide) n)
  calc round n ≤ roundTo (ulp n) (2 ^ (Nat.log 2 n + 1)) := roundTo_mono hn
    _ = 2 ^ (Nat.log 2 n + 1) := roundTo_of_dvd (ulp_pos n) (ulp_dvd (le_succ _))

theorem pow_le_round (h : n ≠ 0) : 2 ^ Nat.log 2 n ≤ round n := by
  have hn : 2 ^ Nat.log 2 n ≤ n := pow_log_le_self 2 h
  calc 2 ^ Nat.log 2 n = roundTo (ulp n) (2 ^ Nat.log 2 n) :=
        (roundTo_of_dvd (ulp_pos n) (ulp_dvd (le_refl _))).symm
    _ ≤ round n := roundTo_mono hn

-- Within one binade the neighbours are equally far apart; two binades are separated by a power of two,
-- which is itself a number of the format.
theorem round_mono (h : m ≤ n) : round m ≤ round n := by
  rcases lt_or_ge (Nat.log 2 m) (Nat.log 2 n) with hl | hl
  · have hn : n ≠ 0 := fun hn => by simp [hn] at hl
    calc round m ≤ 2 ^ (Nat.log 2 m + 1) := round_le_pow m
      _ ≤ 2 ^ Nat.log 2 n := Nat.pow_le_pow_right (by decide) hl
      _ ≤ round n := pow_le_round hn
  · have hl : Nat.log 2 m = Nat.log 2 n := le_antisymm (log_mono_right h) hl
    have hu : ulp m = ulp n := by rw [ulp, ulp, hl]
    rw [round, round, hu]
    exact roundTo_mono h

theorem round_pow (k : Nat) : round (2 ^ k) = 2 ^ k :=
  roundTo_of_dvd (ulp_pos _) (ulp_dvd (by rw [log_pow (by decide)]))

theorem ulp_dvd_round (n : Nat) : ulp n ∣ round n := by
  unfold round roundTo
  split <;> exact dvd_mul_left _ _

-- Rounding may reach the next power of two, else it stays within the binade.
@[simp]
theorem round_round (n : Nat) : round (round n) = round n := by
  rcases Nat.eq_zero_or_pos n with rfl | hn
  · rfl
  rcases lt_or_eq_of_le (round_le_pow n) with hl | he
  · have hlog : Nat.log 2 (round n) = Nat.log 2 n :=
      log_eq_of_pow_le_of_lt_pow (pow_le_round hn.ne') hl
    have hu : ulp (round n) = ulp n := by rw [ulp, ulp, hlog]
    exact roundTo_of_dvd (ulp_pos _) (hu ▸ ulp_dvd_round n)
  · rw [he, round_pow]

theorem round_pos (h : 0 < n) : 0 < round n :=
  lt_of_lt_of_le (by decide : 0 < round 1) (round_mono h)

-- Outside of this file rounding is only used through its lemmas.
attribute [irreducible] round

end Double
