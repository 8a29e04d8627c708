import ServeModel.ZarrIo.CoordArrays
import ServeModel.ZarrIo.Theorems.Planner

-- When a reader of the array of a coordinate finds the registered values.
namespace ZarrIo

open LittleEndian

variable {fl : Floats} {le32 : fl.F32 → List UInt8} {le64 : fl.F64 → List UInt8}
variable {values : CoordValues fl} {array : CoordArray} {s : String} {vs : List String}

theorem array_of_mem
    (h : writeCoordinateArray le32 le64 name values paths format separator = .ok (payload, entries))
    (hm : (key, .array array) ∈ entries) :
    coordPayload le32 le64 name values = .ok payload ∧ array.shape = [values.len] ∧
      ∃ dtype, coordDtype name values = .ok dtype ∧ array.dtype = declaredDtype format dtype := by
  simp only [writeCoordinateArray, buildCoordinateMetadataEntriesForAxis, Except.bind_eq_ok, Except.pure_eq_ok,
    Except.ite_throw_eq_ok, Prod.mk.injEq] at h
  obtain ⟨_, hp, _, ⟨-, dtype, hd, rfl⟩, rfl, rfl⟩ := h
  have hs : array.shape = [values.len] ∧ array.dtype = declaredDtype format dtype := by
    cases format
    all_goals grind
  exact ⟨hp, hs.1, dtype, hd, hs.2⟩

theorem reader_number (h : r ∈ readers) :
    (declaredDtype format (.inl r.1)).reader = some (r.1.elemBytes, (r.2 : List UInt8 → CoordValue fl)) := by
  simp only [readers, List.mem_cons, List.not_mem_nil, or_false] at h
  rcases h with rfl | rfl | rfl | rfl | rfl | rfl
  all_goals
    cases format
    case v2 => simp [declaredDtype, DeclaredDtype.reader, readers]
    case v3 => rfl

theorem decodes_numbers {xs : List α} {f : α → Nat} {c : α → CoordValue fl} (hr : r ∈ readers)
    (ha : array.dtype = declaredDtype format (.inl r.1)) (hs : array.shape = [(xs.map c).length])
    (hread : ∀ x, r.2 (encode r.1.elemBytes (f x)) = c x) :
    array.Decodes (xs.flatMap fun x => encode r.1.elemBytes (f x)) (xs.map c) := by
  refine ⟨_, _, ha ▸ reader_number hr, by simp, ?_⟩
  rw [hs, List.prod_singleton, List.length_map, slices_flatMap fun _ => length_encode, List.map_map]
  exact List.map_congr_left fun x _ => hread x

theorem ofNat_decode64 (v : UInt64) : UInt64.ofNat (decode (encode 8 v.toNat)) = v := by
  rw [decode_encode v.toNat_lt, UInt64.ofNat_toNat]

theorem ofNat_decode32 (v : UInt32) : UInt32.ofNat (decode (encode 4 v.toNat)) = v := by
  rw [decode_encode v.toNat_lt, UInt32.ofNat_toNat]

theorem toInt64_decode (v : Int64) : (UInt64.ofNat (decode (encode 8 v.toUInt64.toNat))).toInt64 = v := by
  rw [ofNat_decode64, Int64.toInt64_toUInt64]

theorem toInt32_decode (v : Int32) : (UInt32.ofNat (decode (encode 4 v.toUInt32.toNat))).toInt32 = v := by
  rw [ofNat_decode32, Int32.toInt32_toUInt32]

theorem reader_utf32 (width : Nat) : (declaredDtype format (.inr width)).reader = some (width * 4, @readUtf32 fl) := by
  cases format
  case v3 => rfl
  case v2 =>
    have ht : (s!"<U{width}").toList = '<' :: 'U' :: Nat.toDigits 10 width := by
      simp only [String.toList_append]
      exact congrArg ("<U".toList ++ ·) Nat.toList_repr
    rw [declaredDtype, DeclaredDtype.reader, ht]
    simp only [Nat.ofDigitChars_toDigits (b := 10) (by decide) (by decide)]

-- The characters of a text, and the padding.
theorem readUtf32_fixedWidthUtf32 (h : s.length ≤ width) : readUtf32 (fixedWidthUtf32 width s) =
    (.utf8 (String.ofList (s.toList.rdropWhile (· = '\x00'))) : CoordValue fl) := by
  have hc {o : Option Char} : Char.ofNat (decode (encode 4 (o.elim 0 Char.toNat))) = o.getD '\x00' := by
    cases o
    case none => rfl
    case some c =>
      have hlt : c.toNat < 256 ^ 4 := c.val.toNat_lt
      simp only [Option.elim_some, decode_encode hlt, Char.ofNat_toNat, Option.getD_some]
  have hp : (List.range width).map (s.toList[·]?.getD '\x00') =
      s.toList ++ List.replicate (width - s.length) '\x00' := by
    rw [← String.length_toList] at h ⊢
    exact List.ext_getElem (by simp; omega) (by grind)
  rw [readUtf32, fixedWidthUtf32, length_flatMap fun _ => length_encode, Nat.mul_div_cancel _ (by decide),
    slices_flatMap fun _ => length_encode, List.map_map]
  simp only [Function.comp_def, hc, hp]
  simp [List.rdropWhile]

theorem length_le_width (h : s ∈ vs) : s.length ≤ (utf8CoordValuesToFixedWidthUtf32 vs).1 := by
  have hm : s.length ∈ vs.map String.length := List.mem_map_of_mem h
  cases hx : (vs.map String.length).max?
  case none => simp_all
  case some m =>
    have := (List.max?_eq_some_iff.mp hx).2 _ hm
    simp only [utf8CoordValuesToFixedWidthUtf32, hx, Option.getD_some]
    omega

theorem ofList_rdropWhile_iff :
    String.ofList (s.toList.rdropWhile (· = '\x00')) = s ↔ s.toList.getLast? ≠ some '\x00' := by
  rw [String.ofList_eq, List.rdropWhile_eq_self_iff]
  by_cases hn : s.toList = []
  case pos => simp [hn]
  case neg => simp [hn, List.getLast?_eq_some_getLast hn]

theorem length_fixedWidthUtf32 : (fixedWidthUtf32 width s).length = width * 4 := by
  rw [fixedWidthUtf32, length_flatMap fun _ => length_encode, List.length_range]

theorem decodes_texts (ha : array.dtype = declaredDtype format (.inr width)) (hs : array.shape = [vs.length])
    (hw : ∀ s ∈ vs, s.length ≤ width) :
    array.Decodes (vs.flatMap (fixedWidthUtf32 width)) (vs.map (.utf8 : String → CoordValue fl)) ↔
      ∀ s ∈ vs, s.toList.getLast? ≠ some '\x00' := by
  have hr : array.dtype.reader = some (width * 4, @readUtf32 fl) := ha ▸ reader_utf32 width
  have hmap : (slices (width * 4) array.shape.prod (vs.flatMap (fixedWidthUtf32 width))).map readUtf32 =
      vs.map (.utf8 : String → CoordValue fl) ↔ ∀ s ∈ vs, s.toList.getLast? ≠ some '\x00' := by
    rw [hs, List.prod_singleton, slices_flatMap fun _ => length_fixedWidthUtf32, List.map_map, List.map_inj_left]
    refine forall₂_congr fun s h => ?_
    rw [Function.comp_apply, readUtf32_fixedWidthUtf32 (hw s h), CoordValue.utf8.injEq, ofList_rdropWhile_iff]
  rw [← hmap]
  constructor
  case mp =>
    rintro ⟨_, _, hr', _, he⟩
    cases hr.symm.trans hr'
    exact he
  case mpr =>
    exact fun he => ⟨_, _, hr, by rw [length_flatMap fun _ => length_fixedWidthUtf32, List.length_map], he⟩

def CoordValues.isFloat : CoordValues fl → Bool
  | .f32 _ | .f64 _ => true
  | _ => false

theorem decodes_iff (hf : ¬values.isFloat)
    (h : writeCoordinateArray le32 le64 name values paths format separator = .ok (payload, entries))
    (hm : (key, .array array) ∈ entries) :
    array.Decodes payload values.toList ↔ ∀ s, .utf8 s ∈ values.toList → s.toList.getLast? ≠ some '\x00' := by
  obtain ⟨hp, hs, dtype, hd, ha⟩ := array_of_mem h hm
  cases values
  case f32 | f64 => cases hf rfl
  all_goals
    cases hp
    cases hd
  case utf8 vs =>
    rw [CoordValues.len, CoordValues.toList, List.length_map] at hs
    refine (decodes_texts ha hs fun s h => length_le_width h).trans ?_
    simp [CoordValues.toList]
  all_goals refine iff_of_true ?_ (by simp [CoordValues.toList])
  case i64 => exact decodes_numbers (.head _) ha hs fun v => congrArg CoordValue.i64 (toInt64_decode v)
  case datetimeNs =>
    exact decodes_numbers (.tail _ (.head _)) ha hs fun v => congrArg CoordValue.datetimeNs (toInt64_decode v)
  case timedeltaNs =>
    exact decodes_numbers (.tail _ (.tail _ (.head _))) ha hs fun v =>
      congrArg CoordValue.timedeltaNs (toInt64_decode v)
  case u64 =>
    exact decodes_numbers (.tail _ (.tail _ (.tail _ (.head _)))) ha hs fun v =>
      congrArg CoordValue.u64 (ofNat_decode64 v)
  case i32 =>
    exact decodes_numbers (.tail _ (.tail _ (.tail _ (.tail _ (.head _))))) ha hs
      fun v => congrArg CoordValue.i32 (toInt32_decode v)
  case u32 =>
    exact decodes_numbers (.tail _ (.tail _ (.tail _ (.tail _ (.tail _ (.head _)))))) ha hs
      fun v => congrArg CoordValue.u32 (ofNat_decode32 v)

def writeText (text : String) : Except SyncWriteError (List UInt8 × List (String × CoordDocument)) :=
  writeCoordinateArray (fun _ => []) (fun _ => []) "variable" (.utf8 [text] : CoordValues noFloats) [".zarray"] .v2 '.'

theorem not_decodes_nul : ∃ payload entries key array, writeText "u\x00" = .ok (payload, entries) ∧
    (key, .array array) ∈ entries ∧ ¬array.Decodes payload [(.utf8 "u\x00" : CoordValue noFloats)] := by
  refine ⟨_, _, _, _, rfl, .head _, fun h => ?_⟩
  have hd : _ = declaredDtype .v2 (.inr (utf8CoordValuesToFixedWidthUtf32 ["u\x00"]).1) := rfl
  exact (decodes_texts hd rfl fun s hs => length_le_width hs).mp h _ (.head _) (by decide)

theorem decodes_t2m : ∃ payload entries key array, writeText "t2m" = .ok (payload, entries) ∧
    (key, .array array) ∈ entries ∧ array.Decodes payload [(.utf8 "t2m" : CoordValue noFloats)] := by
  have h : writeText "t2m" = .ok _ := rfl
  exact ⟨_, _, _, _, h, .head _, (decodes_iff (by decide) h (.head _)).mpr (by simp [CoordValues.toList])⟩

end ZarrIo
