import Mathlib.Algebra.Group.Int.Defs
import Mathlib.Data.String.Basic
import Mathlib.Data.Option.Basic

-- JSON values as a decoder library sees them. Integers are exact; a number with a fraction, an exponent
-- or too many digits for 64 bits is only known by its text. The fields of an object are ordered by key.
inductive Json
  | null
  | bool (b : Bool)
  | int (n : Int)
  | float (text : String)
  | str (s : String)
  | arr (xs : List Json)
  | obj (fields : List (String × Json))

namespace Json

abbrev Fields := List (String × Json)

def field (key : String) : Fields → Option Json
  | [] => none
  | (k, v) :: fs => if key = k then some v else field key fs

-- Setting a field replaces the old value, or adds the field where the order of the keys wants it.
def setField (key : String) (v : Json) : Fields → Fields
  | [] => [(key, v)]
  | (k, w) :: fs =>
    if key < k then (key, v) :: (k, w) :: fs
    else if key = k then (key, v) :: fs
    else (k, w) :: setField key v fs

def eraseField (key : String) (fs : Fields) : Fields :=
  fs.filter (·.1 ≠ key)

def literal (fs : Fields) : Fields :=
  fs.foldl (fun acc f => setField f.1 f.2 acc) []

def object (fs : Fields) : Json :=
  .obj (literal fs)

def asObject : Json → Option Fields
  | obj fs => some fs
  | _ => none

def asArray : Json → Option (List Json)
  | arr xs => some xs
  | _ => none

def asStr : Json → Option String
  | str s => some s
  | _ => none

def asBool : Json → Option Bool
  | bool b => some b
  | _ => none

def asUnsigned (w : Nat) : Json → Option Nat
  | int n => if 0 ≤ n ∧ n < 2 ^ w then some n.toNat else none
  | _ => none

def asU64 : Json → Option Nat :=
  asUnsigned 64

def asNat : Json → Option Nat
  | int n => if 0 ≤ n then some n.toNat else none
  | _ => none

def isNull : Json → Bool
  | null => true
  | _ => false

def get (j : Json) (key : String) : Option Json :=
  j.asObject.bind (field key)

def nat (n : Nat) : Json :=
  .int n

def ofOption (f : α → Json) : Option α → Json
  | some a => f a
  | none => .null

section Fields

variable {fs : Fields} {k key : String} {v : Json}

@[simp]
theorem get_obj : (obj fs).get k = field k fs := rfl

theorem get_of_asObject {j : Json} (h : j.asObject = some fs) : j.get k = field k fs := by
  rw [get, h]
  rfl

@[simp]
theorem field_setField_self : field k (setField k v fs) = some v := by
  induction fs
  case nil => simp [setField, field]
  case cons f fs hi =>
    simp only [setField]
    split_ifs
    case pos => simp [field]
    case pos => simp [field]
    case neg hn _ => simp [field, *]

@[simp]
theorem field_setField_of_ne (h : key ≠ k) : field key (setField k v fs) = field key fs := by
  induction fs
  case nil => simp [setField, field, h]
  case cons f fs hi =>
    simp only [setField]
    split_ifs
    case pos => simp [field, h]
    case pos _ hk => simp [field, h, ← hk]
    case neg => simp [field, hi]

@[simp]
theorem field_eraseField_of_ne (h : key ≠ k) : field key (eraseField k fs) = field key fs := by
  induction fs
  case nil => rfl
  case cons f fs hi =>
    have ⟨k', v⟩ := f
    by_cases hk : k' = k
    case pos =>
      have hn : key ≠ k' := hk ▸ h
      rw [eraseField, List.filter_cons_of_neg (by simpa using hk), field, if_neg hn]
      exact hi
    case neg =>
      rw [eraseField, List.filter_cons_of_pos (by simpa using hk), field, field]
      exact congrArg _ hi

@[simp]
theorem field_eraseField_self : field k (eraseField k fs) = none := by
  induction fs
  case nil => rfl
  case cons f fs hi =>
    have ⟨k', v⟩ := f
    by_cases hk : k' = k
    case pos =>
      rw [eraseField, List.filter_cons_of_neg (by simpa using hk)]
      exact hi
    case neg =>
      rw [eraseField, List.filter_cons_of_pos (by simpa using hk), field, if_neg (Ne.symm hk)]
      exact hi

end Fields

section Decode

-- The fields that a derived struct decoder reads. Such a decoder takes an object by field name and an
-- array by position, where an array may be short but not too long.
def structFields (names : List String) : Json → Option (String → Option Json)
  | obj fs => some fun name => field name fs
  | arr xs => if xs.length ≤ names.length then some fun name => field name (names.zip xs) else none
  | _ => none

-- A field with a default: absent is fine, present must decode.
def withDefault (default : α) (decode : Json → Option α) : Option Json → Option α
  | none => some default
  | some j => decode j

def required (decode : Json → Option α) (j? : Option Json) : Option α :=
  j?.bind decode

-- `null` is a missing value, everything else must decode.
def optional (decode : Json → Option α) : Json → Option (Option α)
  | null => some none
  | j => (decode j).map some

def list (decode : Json → Option α) (j : Json) : Option (List α) :=
  j.asArray.bind (·.mapM decode)

theorem required_some : required decode (some j) = decode j := rfl

theorem required_asStr_eq_some : required asStr j? = some s ↔ j? = some (.str s) := by
  cases j?
  case none => simp [required]
  case some j => cases j <;> simp [required, asStr]

theorem required_list_eq_some :
    required (list decode) j? = some xs ↔ ∃ js, j? = some (.arr js) ∧ js.mapM decode = some xs := by
  cases j?
  case none => simp [required]
  case some j => cases j <;> simp [required, list, asArray]

end Decode

def hexDigit (n : Nat) : Char :=
  if n < 10 then Char.ofNat (48 + n) else Char.ofNat (87 + n)

def escapeChar (c : Char) : List Char :=
  let n := c.toNat
  if n = 0x22 ∨ n = 0x5C then ['\\', c]
  else if n = 8 then ['\\', 'b']
  else if n = 9 then ['\\', 't']
  else if n = 10 then ['\\', 'n']
  else if n = 12 then ['\\', 'f']
  else if n = 13 then ['\\', 'r']
  else if n < 32 then ['\\', 'u', '0', '0', hexDigit (n / 16), hexDigit (n % 16)]
  else [c]

def quote (s : String) : String :=
  "\"" ++ String.ofList (s.toList.flatMap escapeChar) ++ "\""

-- The compact form, without any white space between tokens.
mutual
def render : Json → String
  | null => "null"
  | bool b => if b then "true" else "false"
  | int n => toString n
  | float t => t
  | str s => quote s
  | arr xs => "[" ++ renderItems xs ++ "]"
  | obj fs => "\x7b" ++ renderFields fs ++ "\x7d"

def renderItems : List Json → String
  | [] => ""
  | [x] => render x
  | x :: y :: ys => render x ++ "," ++ renderItems (y :: ys)

def renderFields : List (String × Json) → String
  | [] => ""
  | [(k, v)] => quote k ++ ":" ++ render v
  | (k, v) :: g :: r => quote k ++ ":" ++ render v ++ "," ++ renderFields (g :: r)
end

end Json
