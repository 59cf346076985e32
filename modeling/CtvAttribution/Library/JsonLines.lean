import CtvAttribution.Library.JsonText

/-! Records of documents, one to a line: the named fields of an object in any order, the lines
of a text, and its bytes. -/
namespace CtvAttribution.Library

section records
variable {fs gs : List (String × Doc)}

/-- The fields of an object that has no others than the named ones. -/
def Doc.only (names : List String) : Doc → Option (List (String × Doc))
  | .obj fs => if fs.all fun f => names.contains f.1 then some fs else none
  | _ => none

def Doc.fields? : Doc → Option (List (String × Doc))
  | .obj fs => some fs
  | _ => none

/-- The last field under the key. -/
def field? (fs : List (String × Doc)) (k : String) : Option Doc :=
  (fs.reverse.find? fun f => f.1 == k).map fun f => f.2

def Doc.str? : Doc → Option String
  | .str s => some s
  | _ => none

def Doc.strOrNull? : Doc → Option (Option String)
  | .null => some none
  | d => d.str?.map some

def optionalText : Option String → Doc
  | none => .null
  | some s => .str s

def Doc.items? : Doc → Option (List Doc)
  | .arr ds => some ds
  | _ => none

/-- Nested at most so deep. -/
def Doc.Within : Nat → Doc → Prop
  | _, .null => True
  | _, .bool _ => True
  | _, .num _ => True
  | _, .str _ => True
  | 0, .arr _ => False
  | 0, .obj _ => False
  | n + 1, .arr ds => ∀ d ∈ ds, d.Within n
  | n + 1, .obj fs => ∀ f ∈ fs, f.2.Within n

theorem sortItems_eq_map (ds : List Doc) : Doc.sortItems ds = ds.map Doc.sortKeys := by
  induction ds with
  | nil => rfl
  | cons d ds ih => rw [Doc.sortItems, ih, List.map_cons]

theorem sortFields_eq_map (fs : List (String × Doc)) : Doc.sortFields fs = fs.map fun f => (f.1, f.2.sortKeys) := by
  induction fs with
  | nil => rfl
  | cons f fs ih =>
    obtain ⟨k, d⟩ := f
    rw [Doc.sortFields, ih, List.map_cons]

@[simp] theorem sortKeys_str (s : String) : (Doc.str s).sortKeys = .str s := rfl
@[simp] theorem sortKeys_num (n : Numeral) : (Doc.num n).sortKeys = .num n := rfl
@[simp] theorem sortKeys_bool (b : Bool) : (Doc.bool b).sortKeys = .bool b := rfl
@[simp] theorem sortKeys_optionalText (s : Option String) : (optionalText s).sortKeys = optionalText s := by
  cases s <;> rfl

@[simp] theorem sortKeys_arr (ds : List Doc) : (Doc.arr ds).sortKeys = .arr (ds.map Doc.sortKeys) := by
  rw [Doc.sortKeys, sortItems_eq_map]

@[simp] theorem strOrNull?_optionalText (s : Option String) : (optionalText s).strOrNull? = some s := by
  cases s <;> rfl

theorem within_optionalText (n : Nat) (s : Option String) : (optionalText s).Within n := by
  cases n <;> cases s <;> trivial

/-- A key names one field. -/
theorem find?_key_eq_some_iff (h : (fs.map Prod.fst).Nodup) {k : String} {f : String × Doc} :
    fs.find? (fun f => f.1 == k) = some f ↔ f ∈ fs ∧ f.1 = k := by
  constructor
  · intro hf
    exact ⟨List.mem_of_find?_eq_some hf, by simpa using List.find?_some hf⟩
  · intro hf
    obtain ⟨hmem, rfl⟩ := hf
    cases hfind : fs.find? fun g => g.1 == f.1 with
    | none => exact absurd (beq_self_eq_true f.1) (List.find?_eq_none.mp hfind f hmem)
    | some g =>
      have hkey : g.1 = f.1 := by simpa using List.find?_some hfind
      rw [List.inj_on_of_nodup_map h (List.mem_of_find?_eq_some hfind) hmem hkey]

theorem find?_key_eq_of_perm (h : (fs.map Prod.fst).Nodup) (hp : fs.Perm gs) (k : String) :
    fs.find? (fun f => f.1 == k) = gs.find? fun f => f.1 == k := by
  have hg : (gs.map Prod.fst).Nodup := (hp.map Prod.fst).nodup_iff.mp h
  refine Option.ext fun f => ?_
  rw [find?_key_eq_some_iff h, find?_key_eq_some_iff hg, hp.mem_iff]

/-- The fields of a record stand under their keys however they are sorted. -/
theorem field?_sorted (fs : List (String × Doc)) (h : (fs.map Prod.fst).Nodup) (k : String) :
    field? (sortedBy (fun f => f.1) (Doc.sortFields fs)) k =
      (fs.find? fun f => f.1 == k).map fun f => f.2.sortKeys := by
  have hperm : (sortedBy (fun f => f.1) (Doc.sortFields fs)).Perm (Doc.sortFields fs) := sortedBy_perm _ _
  have hkeys : (Doc.sortFields fs).map Prod.fst = fs.map Prod.fst := by
    rw [sortFields_eq_map, List.map_map]
    rfl
  have hnodup : ((sortedBy (fun f : String × Doc => f.1) (Doc.sortFields fs)).reverse.map Prod.fst).Nodup := by
    rw [List.map_reverse, List.nodup_reverse, (hperm.map Prod.fst).nodup_iff, hkeys]
    exact h
  rw [field?, find?_key_eq_of_perm hnodup ((List.reverse_perm _).trans hperm), sortFields_eq_map, List.find?_map,
    Option.map_map]
  rfl

theorem exists_only_sortKeys (fs : List (String × Doc)) (names : List String) (hnd : (fs.map Prod.fst).Nodup)
    (hsub : ∀ f ∈ fs, f.1 ∈ names) :
    ∃ gs, (Doc.obj fs).sortKeys.only names = some gs ∧
      ∀ k, field? gs k = (fs.find? fun f => f.1 == k).map fun f => f.2.sortKeys := by
  refine ⟨sortedBy (fun f => f.1) (Doc.sortFields fs), ?_, field?_sorted fs hnd⟩
  rw [Doc.sortKeys, Doc.only, if_pos]
  rw [List.all_eq_true]
  intro f hf
  obtain ⟨g, hg, rfl⟩ := List.mem_map.mp (sortFields_eq_map fs ▸ (sortedBy_perm _ _).mem_iff.mp hf)
  exact List.contains_iff_mem.mpr (hsub g hg)

theorem mapM_map_eq_some {α β : Type} {f : α → β} {g : β → Option α} {l : List α}
    (h : ∀ a ∈ l, g (f a) = some a) : (l.map f).mapM g = some l := by
  induction l with
  | nil => rfl
  | cons a l ih => simp [h a List.mem_cons_self, ih fun b hb => h b (List.mem_cons_of_mem a hb)]

end records

section lines

/-- Where `str.splitlines` breaks. -/
def isBreak (c : Char) : Bool :=
  c == '\n' || c == '\r' || c == '\x0b' || c == '\x0c' || c == '\x1c' || c == '\x1d' || c == '\x1e' ||
    c == '\u0085' || c == '\u2028' || c == '\u2029'

/-- `str.splitlines`, after the characters of a line begun. -/
def splitlinesFrom (line : List Char) : List Char → List (List Char)
  | [] => if line = [] then [] else [line]
  | '\r' :: '\n' :: cs => line :: splitlinesFrom [] cs
  | c :: cs => if isBreak c then line :: splitlinesFrom [] cs else splitlinesFrom (line ++ [c]) cs

def splitlines (text : List Char) : List (List Char) := splitlinesFrom [] text

/-- Each line ended. -/
def unlines (lines : List (List Char)) : List Char := lines.flatMap fun line => line ++ ['\n']

theorem isBreak_of_printable {c : Char} (h : Printable c) : isBreak c = false := by
  by_contra hb
  simp only [isBreak, Bool.not_eq_false, Bool.or_eq_true, beq_iff_eq] at hb
  rcases hb with ((((((((rfl | rfl) | rfl) | rfl) | rfl) | rfl) | rfl) | rfl) | rfl) | rfl <;> revert h <;> decide

theorem splitlinesFrom_line {l : List Char} (h : ∀ c ∈ l, Printable c) (line cs : List Char) :
    splitlinesFrom line (l ++ '\n' :: cs) = (line ++ l) :: splitlinesFrom [] cs := by
  induction l generalizing line with
  | nil => rw [List.append_nil]; rfl
  | cons c l ih =>
    have hc : Printable c := h c List.mem_cons_self
    have hreturn : c ≠ '\r' := by
      rintro rfl
      revert hc
      decide
    rw [List.cons_append, splitlinesFrom, if_neg, ih fun d hd => h d (List.mem_cons_of_mem c hd), List.append_assoc,
      List.singleton_append]
    · rw [isBreak_of_printable hc]
      exact Bool.false_ne_true
    · intro ds hd
      exact absurd hd hreturn

/-- Printable lines are split where they were ended. -/
theorem splitlines_unlines {lines : List (List Char)} (h : ∀ line ∈ lines, ∀ c ∈ line, Printable c) :
    splitlines (unlines lines) = lines := by
  induction lines with
  | nil => rfl
  | cons l lines ih =>
    have hrest : splitlinesFrom [] (unlines lines) = lines := ih fun m hm => h m (List.mem_cons_of_mem l hm)
    rw [unlines, List.flatMap_cons, List.append_assoc, List.singleton_append, splitlines,
      splitlinesFrom_line (h l List.mem_cons_self), List.nil_append]
    exact congrArg (l :: ·) hrest

end lines

section bytes

/-- `str.encode()`. -/
def utf8Encode (text : List Char) : List UInt8 := (String.ofList text).toUTF8.data.toList

def utf8Decode (bytes : List UInt8) : Option (List Char) := (String.fromUTF8? ⟨bytes.toArray⟩).map String.toList

theorem utf8Decode_encode (text : List Char) : utf8Decode (utf8Encode text) = some text := by
  have h : String.fromUTF8? (String.ofList text).toUTF8 = some (String.ofList text) :=
    dif_pos (String.ofList text).isValidUTF8
  rw [utf8Decode, utf8Encode, Array.toArray_toList, h, Option.map_some, String.toList_ofList]

end bytes
end CtvAttribution.Library
