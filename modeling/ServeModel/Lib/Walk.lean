import Mathlib.Data.List.Nodup

-- Following links from one element to the next.
namespace Walk

variable {α : Type}

def walk (next : α → Option α) : Nat → α → List α
  | 0, _ => []
  | n + 1, a => a :: match next a with
    | none => []
    | some b => walk next n b

section Insert

variable [DecidableEq α]

-- Each visit of `e` is followed by one of `x`.
def insertAfter (e x : α) (as : List α) : List α :=
  as.flatMap fun a => if a = e then [e, x] else [a]

variable {f g : α → Option α} {e x : α}

-- A new element between `e` and its successor is visited there and nowhere else.
theorem walk_insertAfter (he : g e = some x) (hx : g x = f e) (ho : ∀ a, a ≠ e → a ≠ x → g a = f a)
    (hn : ∀ a, f a ≠ some x) (n : Nat) (ha : a ≠ x) :
    walk g (insertAfter e x (walk f n a)).length a = insertAfter e x (walk f n a) := by
  induction n generalizing a
  case zero => rfl
  case succ n hi =>
    by_cases h : a = e
    case pos =>
      subst h
      cases hf : f a
      case none => simp [walk, insertAfter, he, hx, hf]
      case some b =>
        have hb := hi (fun hb => hn a (hb ▸ hf))
        simpa [walk, insertAfter, he, hx, hf] using hb
    case neg =>
      have hg := ho a h ha
      cases hf : f a
      case none => simp [walk, insertAfter, h, hg, hf]
      case some b =>
        have hb := hi (fun hb => hn a (hb ▸ hf))
        simpa [walk, insertAfter, h, hg, hf] using hb

end Insert

section Follow

variable {β : Type} [DecidableEq β] (key : α → β) (link : α → Option β)

-- The links of a list of records that name each other by their keys.
def follow (xs : List α) (b : β) : Option β := do
  let x ← xs.find? (key · = b)
  let n ← link x
  let y ← xs.find? (key · = n)
  return key y

-- Each record names the one that comes after it.
def Chained : List α → Prop
  | [] => True
  | [x] => link x = none
  | x :: y :: r => link x = some (key y) ∧ Chained (y :: r)

variable {key link} {xs pre post : List α} {x y : α}

theorem find?_key (hd : (xs.map key).Nodup) (hx : x ∈ xs) : xs.find? (key · = key x) = some x := by
  have ⟨pre, post, hs⟩ := List.append_of_mem hx
  subst hs
  have hp : pre.find? (key · = key x) = none := by
    rw [List.find?_eq_none]
    intro a ha he
    rw [List.map_append, List.map_cons, List.nodup_append] at hd
    exact hd.2.2 _ (List.mem_map_of_mem ha) _ (List.mem_cons_self ..) (of_decide_eq_true he)
  simp [List.find?_append, hp]

-- The walk along the links of a chain goes through it from any of its elements to the end.
theorem walk_chained (hd : (xs.map key).Nodup) (hs : xs = pre ++ x :: post) (hc : Chained key link (x :: post))
    (hn : post.length < n) : walk (follow key link xs) n (key x) = (x :: post).map key := by
  induction post generalizing pre x n
  case nil =>
    have hf := find?_key hd (x := x) (by simp [hs])
    obtain ⟨n, rfl⟩ := Nat.exists_eq_add_of_lt hn
    simp [walk, follow, hf, show link x = none from hc]
  case cons y post hi =>
    have hx := find?_key hd (x := x) (by simp [hs])
    have hy := find?_key hd (x := y) (by simp [hs])
    have hl : link x = some (key y) := hc.left
    have hf : follow key link xs (key x) = some (key y) := by simp [follow, hx, hl, hy]
    obtain ⟨n, rfl⟩ := Nat.exists_eq_succ_of_ne_zero (Nat.ne_zero_of_lt hn)
    have hs : xs = (pre ++ [x]) ++ y :: post := by simp [hs]
    have := hi hs hc.right (Nat.lt_of_succ_lt_succ hn)
    simp [walk, hf, this]

end Follow

end Walk
