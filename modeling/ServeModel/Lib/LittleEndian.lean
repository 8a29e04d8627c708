import Mathlib.Algebra.Group.Nat.Defs
import Mathlib.Data.List.Basic
import Mathlib.Data.Nat.Basic

-- Numbers as bytes with the least significant one first, and sequences of values of one size.
namespace LittleEndian

def encode : Nat → Nat → List UInt8
  | 0, _ => []
  | count + 1, n => .ofNat n :: encode count (n / 256)

def decode : List UInt8 → Nat
  | [] => 0
  | byte :: bytes => byte.toNat + 256 * decode bytes

@[simp]
theorem length_encode : (encode count n).length = count := by
  induction count generalizing n
  case zero => rfl
  case succ hi => simp [encode, hi]

theorem decode_encode (h : n < 256 ^ count) : decode (encode count n) = n := by
  induction count generalizing n
  case zero =>
    simp only [Nat.pow_zero, Nat.lt_one_iff] at h
    exact h.symm
  case succ hi =>
    have hdiv : n / 256 < 256 ^ _ := Nat.div_lt_of_lt_mul (Nat.mul_comm .. ▸ Nat.pow_succ .. ▸ h)
    simp only [encode, decode, hi hdiv, UInt8.toNat_ofNat']
    omega

def slices (size count : Nat) (bytes : List UInt8) : List (List UInt8) :=
  (List.range count).map fun i => (bytes.drop (i * size)).take size

theorem slices_flatMap {f : α → List UInt8} {xs : List α} (h : ∀ x, (f x).length = size) :
    slices size xs.length (xs.flatMap f) = xs.map f := by
  induction xs
  case nil => rfl
  case cons x xs hi =>
    rw [List.map_cons, ← hi, List.length_cons, slices, List.range_succ_eq_map, List.map_cons, List.map_map]
    congr 1
    case e_head => simp [h]
    case e_tail =>
      refine List.map_congr_left fun i _ => ?_
      have hd : (i + 1) * size = (f x).length + i * size := by rw [h, Nat.succ_mul, Nat.add_comm]
      rw [Function.comp_apply, Nat.succ_eq_add_one, hd, List.flatMap_cons, List.drop_length_add_append]

theorem length_flatMap {f : α → List UInt8} {xs : List α} (h : ∀ x, (f x).length = size) :
    (xs.flatMap f).length = xs.length * size := by
  simp [h]

end LittleEndian
