import Mathlib.Data.List.Sort
import Mathlib.Data.List.Destutter
import Mathlib.Data.List.DropRight
import Mathlib.Data.List.Infix
import Mathlib.Data.String.Basic

-- The text operations of a systems language with Unicode strings, over the characters of the text.
namespace Text

open List

-- The Unicode property `White_Space`.
def isWhitespace (c : Char) : Bool :=
  let n := c.toNat
  (9 ≤ n && n ≤ 13) || n == 0x20 || n == 0x85 || n == 0xA0 || n == 0x1680 ||
    (0x2000 ≤ n && n ≤ 0x200A) || n == 0x2028 || n == 0x2029 || n == 0x202F || n == 0x205F ||
    n == 0x3000

def trim (s : String) : String :=
  String.ofList <| (s.toList.dropWhile isWhitespace).rdropWhile isWhitespace

def isBlank (s : String) : Bool :=
  s.toList.all isWhitespace

-- The idiom "trim it, and treat an empty text like a missing one".
def nonBlank (s : String) : Option String :=
  if isBlank s then none else some (trim s)

-- Cutting off both ends a second time changes nothing.
theorem dropWhile_rdropWhile {l : List α} :
    (((l.dropWhile p).rdropWhile p).dropWhile p).rdropWhile p = (l.dropWhile p).rdropWhile p := by
  let d := l.dropWhile p
  have hd : d.dropWhile p = d := dropWhile_idempotent _ _
  have hp : (d.rdropWhile p).dropWhile p = d.rdropWhile p := by
    refine dropWhile_eq_self_iff.mpr fun hl => ?_
    have hx : d.rdropWhile p <+: d := rdropWhile_prefix _ _
    rw [hx.getElem hl]
    exact dropWhile_eq_self_iff.mp hd (lt_of_lt_of_le hl hx.length_le)
  exact (congrArg _ hp).trans (rdropWhile_idempotent _ _)

-- Trimming a text that ends in something visible only cuts off its beginning.
theorem toList_trim_append (hs : ¬isBlank s) (ht : t ≠ "") (hv : ∀ c ∈ t.toList, ¬isWhitespace c) :
    (trim (s ++ t)).toList = s.toList.dropWhile isWhitespace ++ t.toList := by
  have hd : (s.toList ++ t.toList).dropWhile isWhitespace = s.toList.dropWhile isWhitespace ++ t.toList := by
    have hn : s.toList.dropWhile isWhitespace ≠ [] := by
      intro hn
      exact hs (by simpa [isBlank] using dropWhile_eq_nil_iff.mp hn)
    simp [dropWhile_append, hn]
  have hl : t.toList ≠ [] := fun hl => ht (String.toList_eq_nil_iff.mp hl)
  rw [trim, String.toList_append, hd, String.toList_ofList, rdropWhile_eq_self_iff]
  intro _
  rw [getLast_append_of_ne_nil _ hl]
  exact hv _ (getLast_mem hl)

def toAsciiLower (c : Char) : Char :=
  if 'A' ≤ c ∧ c ≤ 'Z' then Char.ofNat (c.toNat + 32) else c

def eqIgnoreAsciiCase (s t : String) : Bool :=
  s.toList.map toAsciiLower = t.toList.map toAsciiLower

def contains (part s : String) : Bool :=
  part.toList <:+: s.toList

def stripStart (start s : String) : Option String :=
  (s.toList.dropPrefix? start.toList).map String.ofList

def stripEnd (stop s : String) : Option String :=
  (s.toList.dropSuffix? stop.toList).map String.ofList

-- The maximal runs of characters that are not white space.
def words (s : String) : List String :=
  (s.toList.splitBy fun a b => isWhitespace a == isWhitespace b).filterMap fun run =>
    if run.all isWhitespace then none else some (String.ofList run)

def digits? (cs : List Char) : Option Nat :=
  if cs = [] ∨ ¬ cs.all Char.isDigit then none
  else some <| cs.foldl (fun n c => 10 * n + (c.toNat - '0'.toNat)) 0

-- Decimal digits, after an optional plus sign, that fit the unsigned type of `w` bits.
def parseUnsigned (w : Nat) (s : String) : Option Nat :=
  let cs := match s.toList with
    | '+' :: rest => rest
    | all => all
  (digits? cs).filter (· < 2 ^ w)

-- Different numbers have different decimal texts.
theorem repr_inj {i j : Nat} (h : i.repr = j.repr) : i = j := by
  have hd : Nat.toDigits 10 i = Nat.toDigits 10 j := by
    rw [← Nat.toList_repr, ← Nat.toList_repr, h]
  calc
    i = Nat.ofDigitChars 10 (Nat.toDigits 10 i) 0 := (Nat.ofDigitChars_toDigits (by decide) (by decide)).symm
    _ = Nat.ofDigitChars 10 (Nat.toDigits 10 j) 0 := by rw [hd]
    _ = j := Nat.ofDigitChars_toDigits (by decide) (by decide)

-- Sorting a list of texts and removing the repetitions this makes adjacent.
def sortDedup (ss : List String) : List String :=
  (ss.insertionSort (· ≤ ·)).destutter (· ≠ ·)

end Text
