import CtvAttribution.Library.SortedBy
import Mathlib.Data.List.TakeWhile
import Mathlib.Data.String.Basic

/-! JSON documents, their compact text in printable ASCII, and a reader of the grammar. What is
written is read back, whatever follows it. -/
namespace CtvAttribution.Library

/-- The characters of numbers. -/
def numeralChar (c : Char) : Bool :=
  c.isDigit || c == '+' || c == '-' || c == '.' || c == 'e' || c == 'E'

/-- A fraction, if one follows. -/
def afterFraction : List Char → Option (List Char)
  | '.' :: cs => if cs.takeWhile Char.isDigit = [] then none else some (cs.dropWhile Char.isDigit)
  | cs => some cs

/-- An exponent or nothing. -/
def isExponent : List Char → Bool
  | [] => true
  | c :: cs =>
    let digits := match cs with
      | '+' :: cs => cs
      | '-' :: cs => cs
      | cs => cs
    (c == 'e' || c == 'E') && !digits.isEmpty && digits.all Char.isDigit

/-- `[minus] int [frac] [exp]`. -/
def isNumeral (cs : List Char) : Bool :=
  let unsigned := if cs.head? = some '-' then cs.tail else cs
  let int := unsigned.takeWhile Char.isDigit
  cs.all numeralChar && (int == ['0'] || (!int.isEmpty && int.head? != some '0')) &&
    (afterFraction (unsigned.dropWhile Char.isDigit)).any isExponent

/-- The text of a number. -/
structure Numeral where
  text : List Char
  proper : isNumeral text = true
  deriving DecidableEq, Repr

theorem Numeral.numeralChar_of_mem (n : Numeral) {c : Char} (h : c ∈ n.text) : numeralChar c = true := by
  have hp := n.proper
  simp only [isNumeral, Bool.and_eq_true, List.all_eq_true] at hp
  exact hp.1.1 c h

theorem Numeral.text_ne_nil (n : Numeral) : n.text ≠ [] := by
  intro h
  have hp := n.proper
  rw [h] at hp
  cases hp

theorem head?_toDigits (n : Nat) (h : 0 < n) : (Nat.toDigits 10 n).head? ≠ some '0' := by
  have hdigit : ∀ m, m < 10 → 0 < m → some (Nat.digitChar m) ≠ some '0' := by decide
  induction n using Nat.strong_induction_on with
  | h n ih =>
    rcases Nat.lt_or_ge n 10 with hn | hn
    · rw [Nat.toDigits_of_lt_base hn]
      exact hdigit n hn h
    · have hhead := ih (n / 10) (by omega) (by omega)
      obtain ⟨c, cs, hcs⟩ := List.exists_cons_of_ne_nil (Nat.toDigits_ne_nil (n := n / 10) (b := 10))
      rw [Nat.toDigits_of_base_le (by decide) hn]
      rw [hcs] at hhead ⊢
      exact hhead

/-- The decimal text of a natural number. -/
def Numeral.ofNat (n : Nat) : Numeral where
  text := Nat.toDigits 10 n
  proper := by
    have hdigits : ∀ c ∈ Nat.toDigits 10 n, c.isDigit = true :=
      fun c hc => Nat.isDigit_of_mem_toDigits (by decide) (by decide) hc
    have hall : ((Nat.toDigits 10 n).all numeralChar) = true := by
      rw [List.all_eq_true]
      intro c hc
      simp only [numeralChar, hdigits c hc, Bool.true_or]
    have hminus : (Nat.toDigits 10 n).head? ≠ some '-' := by
      intro h
      exact absurd (hdigits '-' (List.mem_of_head? h)) (by decide)
    have hint : (Nat.toDigits 10 n == ['0'] ||
        (!(Nat.toDigits 10 n).isEmpty && (Nat.toDigits 10 n).head? != some '0')) = true := by
      rcases Nat.eq_zero_or_pos n with rfl | hpos
      · rfl
      · rw [Bool.or_eq_true, Bool.and_eq_true, Bool.not_eq_true', List.isEmpty_eq_false_iff, bne_iff_ne]
        exact .inr ⟨Nat.toDigits_ne_nil, head?_toDigits n hpos⟩
    simp only [isNumeral, if_neg hminus, List.takeWhile_eq_self_iff.mpr hdigits, List.dropWhile_eq_nil_iff.mpr hdigits,
      hall, hint]
    rfl

section strings

/-- `\uXXXX` without its head. -/
def hex4 (n : Nat) : List Char :=
  [Nat.digitChar (n / 4096 % 16), Nat.digitChar (n / 256 % 16), Nat.digitChar (n / 16 % 16), Nat.digitChar (n % 16)]

def unitEscape (n : Nat) : List Char := '\\' :: 'u' :: hex4 n

/-- The escapes of one letter. -/
def letterEscapes : List (Char × Char) :=
  [('"', '"'), ('\\', '\\'), ('n', '\n'), ('r', '\r'), ('t', '\t'), ('f', '\x0c'), ('b', '\x08')]

/-- A character of a string, `ensure_ascii`: a surrogate pair above the basic plane. -/
def escapeChar (c : Char) : List Char :=
  match letterEscapes.find? fun e => e.2 == c with
  | some e => ['\\', e.1]
  | none =>
    if ' ' ≤ c ∧ c ≤ '~' then [c]
    else if c.toNat < 0x10000 then unitEscape c.toNat
    else unitEscape (0xd800 + (c.toNat - 0x10000) / 1024) ++ unitEscape (0xdc00 + (c.toNat - 0x10000) % 1024)

def hexVal (c : Char) : Option Nat :=
  if '0' ≤ c ∧ c ≤ '9' then some (c.toNat - 48)
  else if 'a' ≤ c ∧ c ≤ 'f' then some (c.toNat - 87)
  else if 'A' ≤ c ∧ c ≤ 'F' then some (c.toNat - 55)
  else none

def readHex4 : List Char → Option (Nat × List Char)
  | a :: b :: c :: d :: cs => do
    let a ← hexVal a
    let b ← hexVal b
    let c ← hexVal c
    let d ← hexVal d
    return (4096 * a + 256 * b + 16 * c + d, cs)
  | _ => none

/-- The low half of a surrogate pair. -/
def readLow (high : Nat) : List Char → Option (Char × List Char)
  | '\\' :: 'u' :: cs => do
    let (low, cs) ← readHex4 cs
    if 0xdc00 ≤ low ∧ low < 0xe000 then some (Char.ofNat (0x10000 + 1024 * (high - 0xd800) + (low - 0xdc00)), cs)
    else none
  | _ => none

/-- What follows `\u`. -/
def readUnits (cs : List Char) : Option (Char × List Char) := do
  let (unit, cs) ← readHex4 cs
  if 0xd800 ≤ unit ∧ unit < 0xdc00 then readLow unit cs
  else if 0xdc00 ≤ unit ∧ unit < 0xe000 then none
  else some (Char.ofNat unit, cs)

/-- What follows a backslash. -/
def readEscape : List Char → Option (Char × List Char)
  | 'u' :: cs => readUnits cs
  | '/' :: cs => some ('/', cs)
  | c :: cs => (letterEscapes.find? fun e => e.1 == c).map fun e => (e.2, cs)
  | [] => none

/-- One character of a string, escaped or not. -/
def unescape : List Char → Option (Char × List Char)
  | c :: cs => if c = '\\' then readEscape cs else if ' ' ≤ c then some (c, cs) else none
  | [] => none

/-- The characters up to the closing quote. -/
def readChars : Nat → List Char → Option (List Char × List Char)
  | 0, _ => none
  | n + 1, cs =>
    if cs.head? = some '"' then some ([], cs.tail)
    else do
      let (c, cs) ← unescape cs
      let (s, cs) ← readChars n cs
      return (c :: s, cs)

theorem hexVal_digitChar : ∀ d, d < 16 → hexVal (Nat.digitChar d) = some d := by decide

theorem readHex4_hex4 {n : Nat} (h : n < 0x10000) (cs : List Char) : readHex4 (hex4 n ++ cs) = some (n, cs) := by
  have hdigit (m : Nat) : hexVal (Nat.digitChar (m % 16)) = some (m % 16) :=
    hexVal_digitChar _ (Nat.mod_lt m (by decide))
  have hsum : 4096 * (n / 4096 % 16) + 256 * (n / 256 % 16) + 16 * (n / 16 % 16) + n % 16 = n := by omega
  simp only [hex4, List.cons_append, List.nil_append, readHex4, hdigit, Option.bind_eq_bind, Option.bind_some, hsum]
  rfl

/-- The code points that are characters. -/
theorem toNat_char (c : Char) : c.toNat < 0xd800 ∨ (0xe000 ≤ c.toNat ∧ c.toNat < 0x110000) := by
  rcases c.valid with h | ⟨h, h'⟩
  · exact .inl h
  · exact .inr ⟨h, h'⟩

theorem readUnits_unit {c : Char} (h : c.toNat < 0x10000) (cs : List Char) :
    readUnits (hex4 c.toNat ++ cs) = some (c, cs) := by
  have hchar := toNat_char c
  rw [readUnits, readHex4_hex4 h]
  simp only [Option.bind_eq_bind, Option.bind_some]
  rw [if_neg (by omega), if_neg (by omega), Char.ofNat_toNat]

theorem readUnits_surrogates {a b : Nat} (ha : a < 1024) (hb : b < 1024) (cs : List Char) :
    readUnits (hex4 (0xd800 + a) ++ (unitEscape (0xdc00 + b) ++ cs)) =
      some (Char.ofNat (0x10000 + 1024 * (0xd800 + a - 0xd800) + (0xdc00 + b - 0xdc00)), cs) := by
  have hhigh : 0xd800 + a < 0x10000 := by omega
  have hlow : 0xdc00 + b < 0x10000 := by omega
  rw [readUnits, readHex4_hex4 hhigh]
  simp only [Option.bind_eq_bind, Option.bind_some]
  rw [if_pos (by omega), unitEscape, List.cons_append, List.cons_append, readLow, readHex4_hex4 hlow]
  simp only [Option.bind_eq_bind, Option.bind_some]
  rw [if_pos (by omega)]

theorem readUnits_pair {c : Char} (h : ¬ c.toNat < 0x10000) (cs : List Char) :
    readUnits (hex4 (0xd800 + (c.toNat - 0x10000) / 1024) ++ (unitEscape (0xdc00 + (c.toNat - 0x10000) % 1024) ++ cs)) =
      some (c, cs) := by
  have hchar := toNat_char c
  rw [readUnits_surrogates (by omega) (by omega)]
  have hback : 0x10000 + 1024 * (0xd800 + (c.toNat - 0x10000) / 1024 - 0xd800) +
      (0xdc00 + (c.toNat - 0x10000) % 1024 - 0xdc00) = c.toNat := by omega
  rw [hback, Char.ofNat_toNat]

theorem unescape_letter : ∀ e ∈ letterEscapes, ∀ cs, unescape ('\\' :: e.1 :: cs) = some (e.2, cs) := by
  intro e he cs
  simp only [letterEscapes, List.mem_cons, List.not_mem_nil, or_false] at he
  rcases he with rfl | rfl | rfl | rfl | rfl | rfl | rfl <;> rfl

/-- A character without a letter of its own is no quote and no backslash. -/
theorem ne_of_no_letter {c : Char} (h : (letterEscapes.find? fun e => e.2 == c) = none) : c ≠ '"' ∧ c ≠ '\\' := by
  constructor <;> intro hc <;> subst hc <;> cases h

theorem unescape_escapeChar (c : Char) (cs : List Char) : unescape (escapeChar c ++ cs) = some (c, cs) := by
  unfold escapeChar
  split
  · rename_i e he
    have hc : e.2 = c := by simpa using List.find?_some he
    rw [← hc]
    exact unescape_letter e (List.mem_of_find?_eq_some he) cs
  · rename_i hnone
    obtain ⟨-, hback⟩ := ne_of_no_letter hnone
    split
    · rename_i hprint
      rw [List.singleton_append, unescape, if_neg hback, if_pos hprint.1]
    · split
      · rename_i hsmall
        rw [unitEscape, List.cons_append, List.cons_append, unescape, if_pos rfl, readEscape,
          readUnits_unit hsmall]
      · rename_i hlarge
        rw [unitEscape, List.cons_append, List.cons_append, List.append_assoc, List.cons_append, unescape,
          if_pos rfl, readEscape, readUnits_pair hlarge]

theorem head?_escapeChar (c : Char) (cs : List Char) : (escapeChar c ++ cs).head? ≠ some '"' := by
  have hback : some '\\' ≠ some '"' := by decide
  unfold escapeChar
  split
  · exact hback
  · rename_i hnone
    split
    · intro h
      exact (ne_of_no_letter hnone).1 (Option.some.inj h)
    · split <;> exact hback

/-- A string is read up to its closing quote. -/
theorem readChars_escaped (s : List Char) {n : Nat} (h : s.length < n) (cs : List Char) :
    readChars n (s.flatMap escapeChar ++ '"' :: cs) = some (s, cs) := by
  induction s generalizing n with
  | nil =>
    obtain ⟨n, rfl⟩ := Nat.exists_eq_succ_of_ne_zero (Nat.ne_zero_of_lt h)
    rfl
  | cons c s ih =>
    obtain ⟨n, rfl⟩ := Nat.exists_eq_succ_of_ne_zero (Nat.ne_zero_of_lt h)
    rw [List.flatMap_cons, List.append_assoc, readChars, if_neg (head?_escapeChar c _), unescape_escapeChar]
    simp only [Option.bind_eq_bind, Option.bind_some, ih (Nat.lt_of_succ_lt_succ h)]
    rfl

/-- A character that stands on its own in a line of printable ASCII. -/
def Printable (c : Char) : Prop := ' ' ≤ c ∧ c ≤ '~'

instance (c : Char) : Decidable (Printable c) := inferInstanceAs (Decidable (_ ∧ _))

theorem printable_digitChar : ∀ d, d < 16 → Printable (Nat.digitChar d) := by decide

theorem printable_unitEscape {n : Nat} {c : Char} (h : c ∈ unitEscape n) : Printable c := by
  simp only [unitEscape, hex4, List.mem_cons, List.not_mem_nil, or_false] at h
  rcases h with rfl | rfl | rfl | rfl | rfl | rfl
  · decide
  · decide
  all_goals exact printable_digitChar _ (Nat.mod_lt _ (by decide))

theorem printable_escapeChar {c d : Char} (h : d ∈ escapeChar c) : Printable d := by
  unfold escapeChar at h
  split at h
  · rename_i e he
    have hmem := List.mem_of_find?_eq_some he
    have hletters : ∀ e ∈ letterEscapes, Printable e.1 := by decide
    rcases List.mem_cons.mp h with rfl | h
    · decide
    · rw [List.mem_singleton.mp h]
      exact hletters e hmem
  · split at h
    · rename_i hprint
      rw [List.mem_singleton.mp h]
      exact hprint
    · split at h
      · exact printable_unitEscape h
      · exact (List.mem_append.mp h).elim printable_unitEscape printable_unitEscape

end strings

/-- A JSON document. An object keeps its fields as they stand. -/
inductive Doc where
  | null
  | bool (b : Bool)
  | num (n : Numeral)
  | str (s : String)
  | arr (items : List Doc)
  | obj (fields : List (String × Doc))

section writing

def strText (s : String) : List Char := '"' :: (s.toList.flatMap escapeChar ++ ['"'])

mutual

/-- The compact text: no blank anywhere. -/
def Doc.text : Doc → List Char
  | .null => ['n', 'u', 'l', 'l']
  | .bool true => ['t', 'r', 'u', 'e']
  | .bool false => ['f', 'a', 'l', 's', 'e']
  | .num n => n.text
  | .str s => strText s
  | .arr [] => ['[', ']']
  | .arr (d :: ds) => '[' :: (d.text ++ Doc.moreItems ds)
  | .obj [] => ['{', '}']
  | .obj ((k, d) :: fs) => '{' :: (strText k ++ ':' :: (d.text ++ Doc.moreFields fs))

/-- The items after the first. -/
def Doc.moreItems : List Doc → List Char
  | [] => [']']
  | d :: ds => ',' :: (d.text ++ Doc.moreItems ds)

/-- The fields after the first. -/
def Doc.moreFields : List (String × Doc) → List Char
  | [] => ['}']
  | (k, d) :: fs => ',' :: (strText k ++ ':' :: (d.text ++ Doc.moreFields fs))

end

mutual

/-- `sort_keys=True`. -/
def Doc.sortKeys : Doc → Doc
  | .arr ds => .arr (Doc.sortItems ds)
  | .obj fs => .obj (sortedBy (fun f => f.1) (Doc.sortFields fs))
  | d => d

def Doc.sortItems : List Doc → List Doc
  | [] => []
  | d :: ds => d.sortKeys :: Doc.sortItems ds

def Doc.sortFields : List (String × Doc) → List (String × Doc)
  | [] => []
  | (k, d) :: fs => (k, d.sortKeys) :: Doc.sortFields fs

end

/-- `json.dumps(_, sort_keys=True, separators=(",", ":"))`. -/
def dumps (d : Doc) : List Char := d.sortKeys.text

end writing

section reading

/-- Blanks between tokens. -/
def isBlank (c : Char) : Bool := c == ' ' || c == '\t' || c == '\n' || c == '\r'

def skipBlanks (cs : List Char) : List Char := cs.dropWhile isBlank

/-- A string in its quotes. -/
def readString : List Char → Option (String × List Char)
  | '"' :: cs => (readChars (cs.length + 1) cs).map fun r => (String.ofList r.1, r.2)
  | _ => none

/-- The longest run of numeral characters. -/
def readNumeral (cs : List Char) : Option (Doc × List Char) :=
  if h : isNumeral (cs.takeWhile numeralChar) = true then some (.num ⟨_, h⟩, cs.dropWhile numeralChar) else none

/-- `key :`. -/
def readKey (cs : List Char) : Option (String × List Char) := do
  let (k, cs) ← readString (skipBlanks cs)
  match skipBlanks cs with
  | ':' :: cs => some (k, cs)
  | _ => none

mutual

/-- One document, and what follows it. -/
def readDoc : Nat → List Char → Option (Doc × List Char)
  | 0, _ => none
  | n + 1, cs =>
    match skipBlanks cs with
    | 'n' :: 'u' :: 'l' :: 'l' :: cs => some (.null, cs)
    | 't' :: 'r' :: 'u' :: 'e' :: cs => some (.bool true, cs)
    | 'f' :: 'a' :: 'l' :: 's' :: 'e' :: cs => some (.bool false, cs)
    | '[' :: cs =>
      if (skipBlanks cs).head? = some ']' then some (.arr [], (skipBlanks cs).tail)
      else (readItems n cs).map fun r => (.arr r.1, r.2)
    | '{' :: cs =>
      if (skipBlanks cs).head? = some '}' then some (.obj [], (skipBlanks cs).tail)
      else (readFields n cs).map fun r => (.obj r.1, r.2)
    | c :: cs =>
      if c = '"' then (readString (c :: cs)).map fun r => (.str r.1, r.2) else readNumeral (c :: cs)
    | [] => none

/-- The items up to the closing bracket. -/
def readItems : Nat → List Char → Option (List Doc × List Char)
  | 0, _ => none
  | n + 1, cs => do
    let (d, cs) ← readDoc n cs
    match skipBlanks cs with
    | ',' :: cs => (readItems n cs).map fun r => (d :: r.1, r.2)
    | ']' :: cs => some ([d], cs)
    | _ => none

/-- The fields up to the closing brace. -/
def readFields : Nat → List Char → Option (List (String × Doc) × List Char)
  | 0, _ => none
  | n + 1, cs => do
    let (k, cs) ← readKey cs
    let (d, cs) ← readDoc n cs
    match skipBlanks cs with
    | ',' :: cs => (readFields n cs).map fun r => ((k, d) :: r.1, r.2)
    | '}' :: cs => some ([(k, d)], cs)
    | _ => none

end

/-- A text that is one document. -/
def loads (text : List Char) : Option Doc := do
  let (d, rest) ← readDoc (text.length + 1) text
  if skipBlanks rest = [] then some d else none

end reading

section roundTrip
variable {rest : List Char}

/-- What follows is no part of a number. -/
def Stops (rest : List Char) : Prop := ∀ c, rest.head? = some c → numeralChar c = false

theorem stops_cons {c : Char} (h : numeralChar c = false) (cs : List Char) : Stops (c :: cs) := by
  intro d hd
  rw [← Option.some.inj hd]
  exact h

theorem skipBlanks_cons {c : Char} (h : isBlank c = false) (cs : List Char) : skipBlanks (c :: cs) = c :: cs := by
  rw [skipBlanks, List.dropWhile_cons_of_neg (by rw [h]; decide)]

theorem not_blank_of_numeralChar {c : Char} (h : numeralChar c = true) : isBlank c = false := by
  by_contra hb
  simp only [isBlank, Bool.not_eq_false, Bool.or_eq_true, beq_iff_eq] at hb
  rcases hb with ((rfl | rfl) | rfl) | rfl <;> cases h

theorem length_le_flatMap_escapeChar (s : List Char) : s.length ≤ (s.flatMap escapeChar).length := by
  induction s with
  | nil => exact Nat.le_refl 0
  | cons c s ih =>
    have hpos : 0 < (escapeChar c).length := by
      unfold escapeChar unitEscape
      split
      · exact Nat.succ_pos _
      · split
        · exact Nat.succ_pos _
        · split <;> exact Nat.succ_pos _
    rw [List.flatMap_cons, List.length_append, List.length_cons]
    omega

theorem readString_strText (s : String) (cs : List Char) : readString (strText s ++ cs) = some (s, cs) := by
  have hlength : s.toList.length < (s.toList.flatMap escapeChar ++ '"' :: cs).length + 1 := by
    have h := length_le_flatMap_escapeChar s.toList
    rw [List.length_append]
    omega
  rw [strText, List.cons_append, List.append_assoc, List.singleton_append, readString, readChars_escaped _ hlength,
    Option.map_some, String.ofList_toList]

theorem readKey_strText (k : String) (cs : List Char) : readKey (strText k ++ ':' :: cs) = some (k, cs) := by
  rw [readKey, strText, List.cons_append, skipBlanks_cons (by decide), ← List.cons_append, ← strText,
    readString_strText]
  rfl

theorem readNumeral_text (n : Numeral) (h : Stops rest) : readNumeral (n.text ++ rest) = some (.num n, rest) := by
  have hall : ∀ c ∈ n.text, numeralChar c = true := fun c hc => n.numeralChar_of_mem hc
  have hstop : rest.takeWhile numeralChar = [] ∧ rest.dropWhile numeralChar = rest := by
    cases rest with
    | nil => exact ⟨rfl, rfl⟩
    | cons c cs => simp [h c rfl]
  have htake : (n.text ++ rest).takeWhile numeralChar = n.text := by
    rw [List.takeWhile_append_of_pos hall, hstop.1, List.append_nil]
  have hdrop : (n.text ++ rest).dropWhile numeralChar = rest := by
    rw [List.dropWhile_append_of_pos hall, hstop.2]
  simp only [readNumeral, htake, hdrop, n.proper, dite_true]

/-- The text of a document is read back, if nothing goes on with a number. -/
def Reads (d : Doc) : Prop :=
  ∀ n rest, d.text.length < n → Stops rest → readDoc n (d.text ++ rest) = some (d, rest)

def ReadsItems (d : Doc) (ds : List Doc) : Prop :=
  ∀ n rest, d.text.length + (Doc.moreItems ds).length < n →
    readItems n (d.text ++ (Doc.moreItems ds ++ rest)) = some (d :: ds, rest)

def ReadsFields (k : String) (d : Doc) (fs : List (String × Doc)) : Prop :=
  ∀ n rest, d.text.length + (Doc.moreFields fs).length < n →
    readFields n (strText k ++ ':' :: (d.text ++ (Doc.moreFields fs ++ rest))) = some ((k, d) :: fs, rest)

theorem reads_num (m : Numeral) : Reads (.num m) := by
  intro n rest hn hrest
  obtain ⟨n, rfl⟩ := Nat.exists_eq_succ_of_ne_zero (Nat.ne_zero_of_lt hn)
  obtain ⟨c, cs, hcs⟩ := List.exists_cons_of_ne_nil m.text_ne_nil
  have hc : numeralChar c = true := m.numeralChar_of_mem (hcs ▸ List.mem_cons_self)
  have hread := readNumeral_text m hrest
  have hskip : skipBlanks (m.text ++ rest) = m.text ++ rest := by
    rw [hcs, List.cons_append, skipBlanks_cons (not_blank_of_numeralChar hc)]
  rw [Doc.text, readDoc, hskip]
  rw [hcs, List.cons_append] at hread ⊢
  have hne {a : Char} (ha : numeralChar a = false) : c ≠ a := by
    rintro rfl
    rw [hc] at ha
    cases ha
  split
  · rename_i heq
    exact absurd (List.cons.inj heq).1 (hne (by decide))
  · rename_i heq
    exact absurd (List.cons.inj heq).1 (hne (by decide))
  · rename_i heq
    exact absurd (List.cons.inj heq).1 (hne (by decide))
  · rename_i heq
    exact absurd (List.cons.inj heq).1 (hne (by decide))
  · rename_i heq
    exact absurd (List.cons.inj heq).1 (hne (by decide))
  · rename_i heq
    obtain ⟨rfl, rfl⟩ := List.cons.inj heq
    rw [if_neg (hne (by decide)), hread]
  · rename_i heq
    cases heq

theorem reads_str (s : String) : Reads (.str s) := by
  intro n rest hn _
  obtain ⟨n, rfl⟩ := Nat.exists_eq_succ_of_ne_zero (Nat.ne_zero_of_lt hn)
  have hread := readString_strText s rest
  rw [strText, List.cons_append] at hread
  rw [Doc.text, readDoc, strText, List.cons_append, skipBlanks_cons (by decide)]
  exact congrArg (Option.map fun r => (Doc.str r.1, r.2)) hread

theorem readsItems_nil {d : Doc} (hd : Reads d) : ReadsItems d [] := by
  intro n rest hn
  obtain ⟨n, rfl⟩ := Nat.exists_eq_succ_of_ne_zero (Nat.ne_zero_of_lt hn)
  simp only [Doc.moreItems, List.length_singleton] at hn
  rw [readItems, Doc.moreItems, List.singleton_append, hd n _ (by omega) (stops_cons (by decide) rest)]
  rfl

theorem readsItems_cons {d e : Doc} {ds : List Doc} (hd : Reads d) (he : ReadsItems e ds) : ReadsItems d (e :: ds) := by
  intro n rest hn
  obtain ⟨n, rfl⟩ := Nat.exists_eq_succ_of_ne_zero (Nat.ne_zero_of_lt hn)
  simp only [Doc.moreItems, List.length_cons, List.length_append] at hn
  rw [readItems, Doc.moreItems, List.cons_append, hd n _ (by omega) (stops_cons (by decide) _)]
  simp only [Option.bind_eq_bind, Option.bind_some, skipBlanks_cons (c := ',') (by decide), List.append_assoc]
  rw [he n rest (by omega), Option.map_some]

theorem readsFields_nil {k : String} {d : Doc} (hd : Reads d) : ReadsFields k d [] := by
  intro n rest hn
  obtain ⟨n, rfl⟩ := Nat.exists_eq_succ_of_ne_zero (Nat.ne_zero_of_lt hn)
  simp only [Doc.moreFields, List.length_singleton] at hn
  rw [readFields, readKey_strText]
  simp only [Option.bind_eq_bind, Option.bind_some]
  rw [Doc.moreFields, List.singleton_append, hd n _ (by omega) (stops_cons (by decide) rest)]
  rfl

theorem readsFields_cons {k j : String} {d e : Doc} {fs : List (String × Doc)} (hd : Reads d)
    (he : ReadsFields j e fs) : ReadsFields k d ((j, e) :: fs) := by
  intro n rest hn
  obtain ⟨n, rfl⟩ := Nat.exists_eq_succ_of_ne_zero (Nat.ne_zero_of_lt hn)
  simp only [Doc.moreFields, List.length_cons, List.length_append] at hn
  rw [readFields, readKey_strText]
  simp only [Option.bind_eq_bind, Option.bind_some]
  rw [Doc.moreFields, List.cons_append, hd n _ (by omega) (stops_cons (by decide) _)]
  simp only [Option.bind_some, skipBlanks_cons (c := ',') (by decide), List.append_assoc, List.cons_append]
  rw [he n rest (by omega), Option.map_some]

/-- A document's text starts with no blank and closes nothing. -/
theorem head_text (d : Doc) : ∃ c cs, d.text = c :: cs ∧ isBlank c = false ∧ c ≠ ']' := by
  cases d with
  | null => exact ⟨_, _, rfl, by decide, by decide⟩
  | bool b => cases b <;> exact ⟨_, _, rfl, by decide, by decide⟩
  | num n =>
    obtain ⟨c, cs, hcs⟩ := List.exists_cons_of_ne_nil n.text_ne_nil
    have hc : numeralChar c = true := n.numeralChar_of_mem (hcs ▸ List.mem_cons_self)
    refine ⟨c, cs, hcs, not_blank_of_numeralChar hc, ?_⟩
    rintro rfl
    cases hc
  | str s => exact ⟨_, _, rfl, by decide, by decide⟩
  | arr ds => cases ds <;> exact ⟨_, _, rfl, by decide, by decide⟩
  | obj fs => rcases fs with _ | ⟨⟨k, d⟩, fs⟩ <;> exact ⟨_, _, rfl, by decide, by decide⟩

theorem reads_arr {d : Doc} {ds : List Doc} (h : ReadsItems d ds) : Reads (.arr (d :: ds)) := by
  intro n rest hn _
  obtain ⟨n, rfl⟩ := Nat.exists_eq_succ_of_ne_zero (Nat.ne_zero_of_lt hn)
  obtain ⟨c, cs, hc, hblank, hclose⟩ := head_text d
  have hread := h n rest (by
    simp only [Doc.text, List.length_cons, List.length_append] at hn
    omega)
  rw [Doc.text, List.cons_append, List.append_assoc, readDoc, skipBlanks_cons (by decide)]
  rw [hc, List.cons_append] at hread ⊢
  simp only [skipBlanks_cons hblank, List.head?_cons, Option.some.injEq, hclose, if_false, hread, Option.map_some]

theorem reads_obj {k : String} {d : Doc} {fs : List (String × Doc)} (h : ReadsFields k d fs) :
    Reads (.obj ((k, d) :: fs)) := by
  intro n rest hn _
  obtain ⟨n, rfl⟩ := Nat.exists_eq_succ_of_ne_zero (Nat.ne_zero_of_lt hn)
  have hread := h n rest (by
    simp only [Doc.text, List.length_cons, List.length_append] at hn
    omega)
  rw [Doc.text, List.cons_append, List.append_assoc, List.cons_append, List.append_assoc, readDoc,
    skipBlanks_cons (by decide)]
  rw [strText, List.cons_append] at hread ⊢
  simp only [skipBlanks_cons (c := '"') (by decide), List.head?_cons, hread, Option.map_some]
  rfl

mutual

theorem reads : ∀ d : Doc, Reads d
  | .null => by
    intro n rest hn _
    obtain ⟨n, rfl⟩ := Nat.exists_eq_succ_of_ne_zero (Nat.ne_zero_of_lt hn)
    rfl
  | .bool true => by
    intro n rest hn _
    obtain ⟨n, rfl⟩ := Nat.exists_eq_succ_of_ne_zero (Nat.ne_zero_of_lt hn)
    rfl
  | .bool false => by
    intro n rest hn _
    obtain ⟨n, rfl⟩ := Nat.exists_eq_succ_of_ne_zero (Nat.ne_zero_of_lt hn)
    rfl
  | .num m => reads_num m
  | .str s => reads_str s
  | .arr [] => by
    intro n rest hn _
    obtain ⟨n, rfl⟩ := Nat.exists_eq_succ_of_ne_zero (Nat.ne_zero_of_lt hn)
    rfl
  | .arr (d :: ds) => reads_arr (readsItems ds d (reads d))
  | .obj [] => by
    intro n rest hn _
    obtain ⟨n, rfl⟩ := Nat.exists_eq_succ_of_ne_zero (Nat.ne_zero_of_lt hn)
    rfl
  | .obj ((k, d) :: fs) => reads_obj (readsFields fs k d (reads d))

theorem readsItems : ∀ (ds : List Doc) (d : Doc), Reads d → ReadsItems d ds
  | [], _, hd => readsItems_nil hd
  | e :: ds, _, hd => readsItems_cons hd (readsItems ds e (reads e))

theorem readsFields : ∀ (fs : List (String × Doc)) (k : String) (d : Doc), Reads d → ReadsFields k d fs
  | [], _, _, hd => readsFields_nil hd
  | (j, e) :: fs, _, _, hd => readsFields_cons hd (readsFields fs j e (reads e))

end

/-- What is written is read back. -/
theorem loads_text (d : Doc) : loads d.text = some d := by
  have h := reads d (d.text.length + 1) [] (Nat.lt_succ_self _) (by
    intro c hc
    cases hc)
  rw [List.append_nil] at h
  rw [loads, h]
  rfl

end roundTrip

section printable
variable {c : Char}

theorem forall_printable {cs : List Char} (h : (cs.all fun c => decide (Printable c)) = true) :
    ∀ c ∈ cs, Printable c := by
  intro c hc
  exact of_decide_eq_true (List.all_eq_true.mp h c hc)

theorem printable_of_numeralChar (h : numeralChar c = true) : Printable c := by
  simp only [numeralChar, Char.isDigit, Bool.or_eq_true, Bool.and_eq_true, decide_eq_true_eq, beq_iff_eq] at h
  rcases h with ((((h | rfl) | rfl) | rfl) | rfl) | rfl
  · exact ⟨Nat.le_trans (by decide) h.1, Nat.le_trans h.2 (by decide)⟩
  all_goals decide

theorem printable_strText {s : String} (h : c ∈ strText s) : Printable c := by
  rcases List.mem_cons.mp h with rfl | h
  · decide
  · rcases List.mem_append.mp h with h | h
    · obtain ⟨d, -, hd⟩ := List.mem_flatMap.mp h
      exact printable_escapeChar hd
    · rw [List.mem_singleton.mp h]
      decide

mutual

theorem printable_text : ∀ d : Doc, ∀ c ∈ d.text, Printable c
  | .null => forall_printable rfl
  | .bool true => forall_printable rfl
  | .bool false => forall_printable rfl
  | .num n => by
    intro c hc
    exact printable_of_numeralChar (n.numeralChar_of_mem hc)
  | .str s => by
    intro c hc
    exact printable_strText hc
  | .arr [] => forall_printable rfl
  | .arr (d :: ds) => by
    intro c hc
    rw [Doc.text, List.mem_cons, List.mem_append] at hc
    rcases hc with rfl | hc | hc
    · decide
    · exact printable_text d c hc
    · exact printable_moreItems ds c hc
  | .obj [] => forall_printable rfl
  | .obj ((k, d) :: fs) => by
    intro c hc
    rw [Doc.text, List.mem_cons, List.mem_append, List.mem_cons, List.mem_append] at hc
    rcases hc with rfl | hc | rfl | hc | hc
    · decide
    · exact printable_strText hc
    · decide
    · exact printable_text d c hc
    · exact printable_moreFields fs c hc

theorem printable_moreItems : ∀ ds : List Doc, ∀ c ∈ Doc.moreItems ds, Printable c
  | [] => forall_printable rfl
  | d :: ds => by
    intro c hc
    rw [Doc.moreItems, List.mem_cons, List.mem_append] at hc
    rcases hc with rfl | hc | hc
    · decide
    · exact printable_text d c hc
    · exact printable_moreItems ds c hc

theorem printable_moreFields : ∀ fs : List (String × Doc), ∀ c ∈ Doc.moreFields fs, Printable c
  | [] => forall_printable rfl
  | (k, d) :: fs => by
    intro c hc
    rw [Doc.moreFields, List.mem_cons, List.mem_append, List.mem_cons, List.mem_append] at hc
    rcases hc with rfl | hc | rfl | hc | hc
    · decide
    · exact printable_strText hc
    · decide
    · exact printable_text d c hc
    · exact printable_moreFields fs c hc

end

end printable

end CtvAttribution.Library
