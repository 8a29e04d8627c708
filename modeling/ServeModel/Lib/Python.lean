import ServeModel.Lib.Json
import ServeModel.Lib.Text

-- Values of a dynamic language, as far as its tests, its text conversion and its JSON encoder tell them apart.
namespace Python

open List

-- Keys of a dictionary. The encoder writes numbers, booleans and none as text.
inductive Key
  | str (s : String)
  | scalar (text : String)
  | surrogate -- text with a lone surrogate
  | other -- what the encoder does not take for a key
  deriving DecidableEq

-- An opaque object. It may raise when it is tested, shown, copied or hashed.
structure Object where
  truth : Except String Bool
  text : Except String String
  copyError : Option String
  hashError : Option String

-- A container that the encoder cannot walk, such as one that contains itself, counts as an opaque object, and so
-- does an integer with more digits than are ever written.
inductive Value
  | none
  | bool (b : Bool)
  | int (n : Int)
  | float (text : String)
  | nonFinite (text : String)
  | str (s : String)
  | surrogate
  | list (xs : List Value)
  | tuple (xs : List Value)
  | dict (entries : List (Key × Value))
  | object (o : Object)

abbrev Dict := List (Key × Value)

namespace Dict

def get (d : Dict) (key : String) : Option Value :=
  d.lookup (.str key)

def contains (d : Dict) (key : String) : Bool :=
  (d.get key).isSome

-- The order of the keys is the order of their first insertion.
def set (key : String) (v : Value) (d : Dict) : Dict :=
  if d.contains key then d.map fun (k, w) => (k, if k = .str key then v else w)
  else d ++ [(.str key, v)]

def pop (key : String) (d : Dict) : Dict :=
  d.filter (·.1 ≠ .str key)

def without (keys : List String) (d : Dict) : Dict :=
  keys.foldl (fun d key => d.pop key) d

def setDefault (key : String) (v : Value) (d : Dict) : Dict :=
  if d.contains key then d else d ++ [(.str key, v)]

def getD (d : Dict) (key : String) (default : Value) : Value :=
  (d.get key).getD default

-- What is found under a key, where a missing one is none.
def entry (d : Dict) (key : String) : Value :=
  d.getD key .none

end Dict

namespace Value

def asDict : Value → Option Dict
  | dict d => some d
  | _ => Option.none

def asList : Value → Option (List Value)
  | list xs => some xs
  | _ => Option.none

def asStr : Value → Option String
  | str s => some s
  | _ => Option.none

def isDict (v : Value) : Bool :=
  v.asDict.isSome

-- The truth test, which an object may refuse.
def truth : Value → Except String Bool
  | none => .ok false
  | bool b => .ok b
  | int n => .ok (n ≠ 0)
  | float text => .ok (text ≠ "0.0" ∧ text ≠ "-0.0")
  | nonFinite _ => .ok true
  | str s => .ok (s ≠ "")
  | surrogate => .ok true
  | list xs | tuple xs => .ok !xs.isEmpty
  | dict d => .ok !d.isEmpty
  | object o => o.truth

mutual
-- What is raised by the text of a value. A container asks its members.
def textError : Value → Option String
  | list xs | tuple xs => firstTextError xs
  | dict d => entryTextError d
  | object o => match o.text with
    | .ok _ => .none
    | .error e => some e
  | _ => .none

def firstTextError : List Value → Option String
  | [] => .none
  | x :: xs => (textError x).or (firstTextError xs)

def entryTextError : List (Key × Value) → Option String
  | [] => .none
  | (_, v) :: d => (textError v).or (entryTextError d)
end

mutual
-- What is raised by a deep copy.
def copyError : Value → Option String
  | list xs | tuple xs => firstCopyError xs
  | dict d => entryCopyError d
  | object o => o.copyError
  | _ => .none

def firstCopyError : List Value → Option String
  | [] => .none
  | x :: xs => (copyError x).or (firstCopyError xs)

def entryCopyError : List (Key × Value) → Option String
  | [] => .none
  | (_, v) :: d => (copyError v).or (entryCopyError d)
end

mutual
-- What is raised when the value is looked up in a dictionary.
def hashError : Value → Option String
  | list _ => some "unhashable type: 'list'"
  | dict _ => some "unhashable type: 'dict'"
  | tuple xs => firstHashError xs
  | object o => o.hashError
  | _ => .none

def firstHashError : List Value → Option String
  | [] => .none
  | x :: xs => (hashError x).or (firstHashError xs)
end

mutual
def encodes : Value → Bool
  | list xs | tuple xs => allEncode xs
  | dict d => entriesEncode d
  | object _ => false
  | _ => true

def allEncode : List Value → Bool
  | [] => true
  | x :: xs => encodes x && allEncode xs

def entriesEncode : List (Key × Value) → Bool
  | [] => true
  | (k, v) :: d => k ≠ .other && encodes v && entriesEncode d
end

mutual
def ofJson : Json → Value
  | .null => none
  | .bool b => bool b
  | .int n => int n
  | .float t => float t
  | .str s => str s
  | .arr xs => list (ofJsons xs)
  | .obj fs => dict (ofFields fs)

def ofJsons : List Json → List Value
  | [] => []
  | x :: xs => ofJson x :: ofJsons xs

def ofFields : List (String × Json) → List (Key × Value)
  | [] => []
  | (k, x) :: fs => (.str k, ofJson x) :: ofFields fs
end

end Value

namespace Dict

variable {d : Dict} {v w : Value} {k key : String}

@[simp]
theorem get_nil : get [] key = none := rfl

theorem get_cons : get ((x, v) :: d) key = if x = .str key then some v else d.get key := by
  by_cases h : x = .str key
  case pos => simp [get, h]
  case neg => simp [get, lookup_cons, h, beq_eq_false_iff_ne.mpr (Ne.symm h)]

theorem get_append : get (d ++ d') key = (d.get key).or (d'.get key) := by
  induction d
  case nil => simp
  case cons e d hi =>
    rw [cons_append, get_cons, get_cons, hi]
    split <;> rfl

theorem get_map_value {f : Key → Value → Value} :
    get (d.map fun (x, v) => (x, f x v)) key = (d.get key).map (f (.str key)) := by
  induction d
  case nil => rfl
  case cons e d hi =>
    have ⟨x, v⟩ := e
    simp only [map_cons, get_cons, hi]
    split
    case isTrue h => rw [h]; rfl
    case isFalse => rfl

theorem get_filter (h : ∀ v, p (.str key, v)) : get (d.filter p) key = d.get key := by
  induction d
  case nil => rfl
  case cons e d hi =>
    have ⟨x, v⟩ := e
    by_cases hx : p (x, v)
    case pos => rw [filter_cons_of_pos hx, get_cons, get_cons, hi]
    case neg =>
      have hn : x ≠ .str key := fun hk => hx (hk ▸ h v)
      rw [filter_cons_of_neg hx, get_cons, if_neg hn, hi]

theorem mem_of_get (h : d.get key = some v) : (.str key, v) ∈ d := by
  induction d
  case nil => simp at h
  case cons e d hi =>
    have ⟨x, w⟩ := e
    rw [get_cons] at h
    split at h
    case isTrue hx => simp_all
    case isFalse => exact .tail _ (hi h)

theorem contains_iff : d.contains key ↔ ∃ v, (.str key, v) ∈ d := by
  constructor
  case mp =>
    intro h
    have ⟨v, hv⟩ := Option.isSome_iff_exists.mp h
    exact ⟨v, mem_of_get hv⟩
  case mpr =>
    intro ⟨v, hv⟩
    induction d
    case nil => simp at hv
    case cons e d hi =>
      rw [contains, get_cons]
      split
      case isTrue => rfl
      case isFalse hx =>
        refine hi ((mem_cons.mp hv).resolve_left ?_)
        intro h
        exact hx (congrArg Prod.fst h).symm

@[simp]
theorem get_set_of_ne (h : k ≠ key) : (d.set key v).get k = d.get k := by
  have hn : Key.str k ≠ .str key := by simpa using h
  rw [set]
  split
  case isTrue =>
    rw [get_map_value (f := fun x w => if x = .str key then v else w)]
    simp [hn]
  case isFalse =>
    rw [get_append, get_cons, if_neg hn.symm]
    simp

theorem mem_set : e ∈ d.set key v ↔ e = (.str key, v) ∨ (e ∈ d ∧ e.1 ≠ .str key) := by
  have ⟨x, w⟩ := e
  by_cases hc : d.contains key
  case neg =>
    have hn : (x, w) ∈ d → x ≠ .str key := by
      rintro hm rfl
      exact hc (contains_iff.mpr ⟨w, hm⟩)
    rw [set, if_neg hc, mem_append, mem_singleton]
    tauto
  case pos =>
    have ⟨u, hu⟩ := contains_iff.mp hc
    rw [set, if_pos hc, mem_map]
    constructor
    case mp =>
      rintro ⟨⟨y, z⟩, hm, he⟩
      by_cases hy : y = .str key <;> simp_all
    case mpr =>
      rintro (he | ⟨hm, hx⟩)
      case inl => exact ⟨(.str key, u), hu, by simp [he]⟩
      case inr => exact ⟨(x, w), hm, by simp [show x ≠ .str key from hx]⟩

theorem mem_pop : e ∈ d.pop key ↔ e ∈ d ∧ e.1 ≠ .str key := by
  simp [pop]

@[simp]
theorem get_pop_of_ne (h : k ≠ key) : (d.pop key).get k = d.get k :=
  get_filter fun _ => by simpa using h

theorem mem_without {keys : List String} :
    e ∈ d.without keys ↔ e ∈ d ∧ ∀ key ∈ keys, e.1 ≠ .str key := by
  induction keys generalizing d
  case nil => simp [without]
  case cons key keys hi =>
    rw [without, foldl_cons, ← without, hi, mem_pop]
    simp [and_assoc]

theorem get_without_of_not_mem {keys : List String} (h : k ∉ keys) : (d.without keys).get k = d.get k := by
  induction keys generalizing d
  case nil => rfl
  case cons key keys hi =>
    have ⟨hk, hr⟩ : k ≠ key ∧ k ∉ keys := by simpa using h
    rw [without, foldl_cons, ← without, hi hr, get_pop_of_ne hk]

theorem mem_setDefault :
    e ∈ d.setDefault key v ↔ e ∈ d ∨ (¬d.contains key ∧ e = (.str key, v)) := by
  rw [setDefault]
  split <;> simp_all

end Dict

namespace Value

variable {d : Dict} {v : Value} {j : Json}

theorem encodes_dict : (dict d).encodes ↔ ∀ e ∈ d, e.1 ≠ .other ∧ e.2.encodes := by
  rw [encodes]
  induction d
  case nil => simp [entriesEncode]
  case cons e d hi =>
    simp [entriesEncode, hi, and_assoc]

theorem encodes_list : (list xs).encodes ↔ ∀ x ∈ xs, x.encodes := by
  rw [encodes]
  induction xs
  case nil => simp [allEncode]
  case cons x xs hi => simp [allEncode, hi]

section Dict

variable {d' : Dict} {key : String}

theorem encodes_of_subset (h : (dict d).encodes) (hs : d' ⊆ d) : (dict d').encodes :=
  encodes_dict.mpr fun e he => encodes_dict.mp h e (hs he)

theorem encodes_of_get (h : (dict d).encodes) (hg : d.get key = some v) : v.encodes :=
  (encodes_dict.mp h _ (Dict.mem_of_get hg)).right

theorem encodes_entry (h : (dict d).encodes) : (d.entry key).encodes := by
  rw [Dict.entry, Dict.getD]
  cases hg : d.get key
  case none => rfl
  case some w => exact encodes_of_get h hg

theorem encodes_set (h : (dict d).encodes) (hv : v.encodes) : (dict (d.set key v)).encodes := by
  refine encodes_dict.mpr fun e he => ?_
  obtain rfl | ⟨he, -⟩ := Dict.mem_set.mp he
  case inl => exact ⟨by simp, hv⟩
  case inr => exact encodes_dict.mp h e he

theorem encodes_setDefault (h : (dict d).encodes) (hv : v.encodes) : (dict (d.setDefault key v)).encodes := by
  refine encodes_dict.mpr fun e he => ?_
  obtain he | ⟨-, rfl⟩ := Dict.mem_setDefault.mp he
  case inl => exact encodes_dict.mp h e he
  case inr => exact ⟨by simp, hv⟩

end Dict

section OfJson

-- What comes out of a JSON text raises nowhere.
mutual
theorem encodes_ofJson : (j : Json) → (ofJson j).encodes
  | .null | .bool _ | .int _ | .float _ | .str _ => by simp [ofJson, encodes]
  | .arr xs => by rw [ofJson, encodes]; exact allEncode_ofJsons xs
  | .obj fs => by rw [ofJson, encodes]; exact entriesEncode_ofFields fs

theorem allEncode_ofJsons : (xs : List Json) → allEncode (ofJsons xs)
  | [] => rfl
  | x :: xs => by simp [ofJsons, allEncode, encodes_ofJson x, allEncode_ofJsons xs]

theorem entriesEncode_ofFields : (fs : List (String × Json)) → entriesEncode (ofFields fs)
  | [] => rfl
  | (_, x) :: fs => by simp [ofFields, entriesEncode, encodes_ofJson x, entriesEncode_ofFields fs]
end

mutual
theorem copyError_ofJson : (j : Json) → (ofJson j).copyError = Option.none
  | .null | .bool _ | .int _ | .float _ | .str _ => by simp [ofJson, copyError]
  | .arr xs => by rw [ofJson, copyError]; exact firstCopyError_ofJsons xs
  | .obj fs => by rw [ofJson, copyError]; exact entryCopyError_ofFields fs

theorem firstCopyError_ofJsons : (xs : List Json) → firstCopyError (ofJsons xs) = Option.none
  | [] => rfl
  | x :: xs => by simp [ofJsons, firstCopyError, copyError_ofJson x, firstCopyError_ofJsons xs]

theorem entryCopyError_ofFields : (fs : List (String × Json)) → entryCopyError (ofFields fs) = Option.none
  | [] => rfl
  | (_, x) :: fs => by simp [ofFields, entryCopyError, copyError_ofJson x, entryCopyError_ofFields fs]
end

mutual
theorem textError_ofJson : (j : Json) → (ofJson j).textError = Option.none
  | .null | .bool _ | .int _ | .float _ | .str _ => by simp [ofJson, textError]
  | .arr xs => by rw [ofJson, textError]; exact firstTextError_ofJsons xs
  | .obj fs => by rw [ofJson, textError]; exact entryTextError_ofFields fs

theorem firstTextError_ofJsons : (xs : List Json) → firstTextError (ofJsons xs) = Option.none
  | [] => rfl
  | x :: xs => by simp [ofJsons, firstTextError, textError_ofJson x, firstTextError_ofJsons xs]

theorem entryTextError_ofFields : (fs : List (String × Json)) → entryTextError (ofFields fs) = Option.none
  | [] => rfl
  | (_, x) :: fs => by simp [ofFields, entryTextError, textError_ofJson x, entryTextError_ofFields fs]
end

theorem get_ofFields : Dict.get (ofFields fs) key = (Json.field key fs).map ofJson := by
  induction fs
  case nil => rfl
  case cons f fs hi =>
    have ⟨k, j⟩ := f
    rw [ofFields, Dict.get_cons, hi, Json.field]
    by_cases h : key = k
    case pos => simp [h]
    case neg => simp [h, Ne.symm h]

theorem ofJsons_eq_map : ofJsons xs = xs.map ofJson := by
  induction xs
  case nil => rfl
  case cons x xs hi => rw [ofJsons, hi, map_cons]

-- A value that a JSON text stands for.
def IsJson (v : Value) : Prop :=
  ∃ j, v = ofJson j

theorem IsJson.encodes (h : v.IsJson) : v.encodes := by
  obtain ⟨j, rfl⟩ := h
  exact encodes_ofJson j

theorem isJson_str : (str s).IsJson :=
  ⟨.str s, rfl⟩

theorem isJson_ofFields : (dict (ofFields fs)).IsJson :=
  ⟨.obj fs, rfl⟩

theorem isJson_dict : (dict d).IsJson ↔ ∀ e ∈ d, (∃ k, e.1 = .str k) ∧ e.2.IsJson := by
  constructor
  case mp =>
    rintro ⟨j, hj⟩ e he
    cases j
    case obj fs =>
      obtain rfl : d = ofFields fs := Value.dict.inj hj
      induction fs
      case nil => cases he
      case cons f fs hi =>
        obtain rfl | he := mem_cons.mp he
        case inl => exact ⟨⟨f.1, rfl⟩, f.2, rfl⟩
        case inr => exact hi he rfl
    all_goals cases hj
  case mpr =>
    intro h
    suffices h : ∃ fs, d = ofFields fs by
      obtain ⟨fs, rfl⟩ := h
      exact isJson_ofFields
    induction d
    case nil => exact ⟨[], rfl⟩
    case cons e d hi =>
      have ⟨⟨⟨k, hk⟩, ⟨j, hj⟩⟩, hd⟩ := forall_mem_cons.mp h
      have ⟨fs, hf⟩ := hi hd
      exact ⟨(k, j) :: fs, by rw [hf, ofFields, ← hj, ← hk]⟩

theorem IsJson.fields (h : (dict d).IsJson) : ∃ fs, d = ofFields fs := by
  obtain ⟨j, hj⟩ := h
  cases j
  case obj fs => exact ⟨fs, Value.dict.inj hj⟩
  all_goals cases hj

theorem isJson_list : (list xs).IsJson ↔ ∀ x ∈ xs, x.IsJson := by
  constructor
  case mp =>
    rintro ⟨j, hj⟩ x hx
    cases j
    case arr js =>
      rw [Value.list.inj hj, ofJsons_eq_map] at hx
      have ⟨j, _, h⟩ := mem_map.mp hx
      exact ⟨j, h.symm⟩
    all_goals cases hj
  case mpr =>
    intro h
    suffices h : ∃ js, xs = ofJsons js by
      obtain ⟨js, rfl⟩ := h
      exact ⟨.arr js, rfl⟩
    induction xs
    case nil => exact ⟨[], rfl⟩
    case cons x xs hi =>
      have ⟨⟨j, hj⟩, hr⟩ := forall_mem_cons.mp h
      have ⟨js, hs⟩ := hi hr
      exact ⟨j :: js, by rw [hs, ofJsons, ← hj]⟩

section Dict

variable {key : String}

theorem IsJson.get (h : (dict d).IsJson) (hg : d.get key = some v) : v.IsJson :=
  (isJson_dict.mp h _ (Dict.mem_of_get hg)).right

theorem IsJson.entry (h : (dict d).IsJson) : (d.entry key).IsJson := by
  rw [Dict.entry, Dict.getD]
  cases hg : d.get key
  case none => exact ⟨.null, rfl⟩
  case some w => exact h.get hg

theorem IsJson.set (h : (dict d).IsJson) (hv : v.IsJson) : (dict (d.set key v)).IsJson := by
  refine isJson_dict.mpr fun e he => ?_
  obtain rfl | ⟨he, -⟩ := Dict.mem_set.mp he
  case inl => exact ⟨⟨key, rfl⟩, hv⟩
  case inr => exact isJson_dict.mp h e he

theorem IsJson.setDefault (h : (dict d).IsJson) (hv : v.IsJson) : (dict (d.setDefault key v)).IsJson := by
  refine isJson_dict.mpr fun e he => ?_
  obtain he | ⟨-, rfl⟩ := Dict.mem_setDefault.mp he
  case inl => exact isJson_dict.mp h e he
  case inr => exact ⟨⟨key, rfl⟩, hv⟩

end Dict

end OfJson

end Value

end Python
