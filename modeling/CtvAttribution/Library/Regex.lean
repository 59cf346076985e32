import Mathlib.Data.List.Basic

/-! Patterns of character classes with line anchors, as a backtracking matcher reads them:
what a pattern matches depends on the text before and after it. Without a multi-line flag
`$` holds at the end of the text and ahead of a line feed that ends it. -/
namespace CtvAttribution.Library

inductive Regex where
  | start
  | stop
  | cls (p : Char → Bool)
  | seq (r s : Regex)
  | plus (r : Regex)

namespace Regex

def lineFeed : Char := Char.ofNat 10

/-- `Matches r pre w post`: between `pre` and `post` the pattern takes exactly `w`. -/
inductive Matches : Regex → List Char → List Char → List Char → Prop
  | start {post : List Char} : Matches .start [] [] post
  | stop {pre : List Char} : Matches .stop pre [] []
  | stopLine {pre : List Char} : Matches .stop pre [] [lineFeed]
  | cls {p : Char → Bool} {pre post : List Char} {c : Char} : p c = true → Matches (.cls p) pre [c] post
  | seq {r s : Regex} {pre u v post : List Char} : Matches r pre u (v ++ post) → Matches s (pre ++ u) v post →
      Matches (.seq r s) pre (u ++ v) post
  | once {r : Regex} {pre u post : List Char} : Matches r pre u post → Matches (.plus r) pre u post
  | more {r : Regex} {pre u v post : List Char} : Matches r pre u (v ++ post) →
      Matches (.plus r) (pre ++ u) v post → Matches (.plus r) pre (u ++ v) post

/-- `pattern.match(text)`: the pattern takes some beginning of the text. -/
def Accepts (r : Regex) (text : List Char) : Prop := ∃ w post, text = w ++ post ∧ r.Matches [] w post

variable {r s : Regex} {p : Char → Bool} {pre w post text : List Char}

theorem matches_start : Matches .start pre w post ↔ pre = [] ∧ w = [] := by
  constructor
  · intro h
    cases h
    exact ⟨rfl, rfl⟩
  · rintro ⟨rfl, rfl⟩
    exact .start

theorem matches_stop : Matches .stop pre w post ↔ w = [] ∧ (post = [] ∨ post = [lineFeed]) := by
  constructor
  · intro h
    cases h with
    | stop => exact ⟨rfl, .inl rfl⟩
    | stopLine => exact ⟨rfl, .inr rfl⟩
  · rintro ⟨rfl, rfl | rfl⟩
    · exact .stop
    · exact .stopLine

theorem matches_seq : Matches (.seq r s) pre w post ↔
    ∃ u v, w = u ++ v ∧ r.Matches pre u (v ++ post) ∧ s.Matches (pre ++ u) v post := by
  constructor
  · intro h
    cases h with
    | seq hr hs => exact ⟨_, _, rfl, hr, hs⟩
  · rintro ⟨u, v, rfl, hr, hs⟩
    exact .seq hr hs

/-- A repeated class takes any stretch of its characters, but not the empty one. -/
theorem matches_plus_cls : Matches (.plus (.cls p)) pre w post ↔ w ≠ [] ∧ ∀ c ∈ w, p c = true := by
  constructor
  · intro h
    generalize hr : Regex.plus (.cls p) = r at h
    induction h with
    | start => cases hr
    | stop => cases hr
    | stopLine => cases hr
    | cls => cases hr
    | seq => cases hr
    | once h =>
      cases hr
      cases h with
      | cls hc => simp [hc]
    | more h _ _ ih =>
      cases hr
      obtain ⟨_, hall⟩ := ih rfl
      cases h with
      | cls hc => simpa [hc] using hall
  · rintro ⟨hne, hall⟩
    induction w generalizing pre with
    | nil => exact absurd rfl hne
    | cons c w ih =>
      have hc := hall c List.mem_cons_self
      cases w with
      | nil => exact .once (.cls hc)
      | cons d w =>
        exact .more (u := [c]) (.cls hc)
          (ih (List.cons_ne_nil d w) fun e he => hall e (List.mem_cons_of_mem c he))

/-- `^[p]+$` also accepts a text with one line feed after its last character. -/
theorem accepts_anchored : Accepts (.seq .start (.seq (.plus (.cls p)) .stop)) text ↔
    ∃ w, w ≠ [] ∧ (∀ c ∈ w, p c = true) ∧ (text = w ∨ text = w ++ [lineFeed]) := by
  simp only [Accepts, matches_seq, matches_start, matches_plus_cls, matches_stop]
  constructor
  · rintro ⟨_, post, rfl, _, _, rfl, ⟨_, rfl⟩, w, _, rfl, ⟨hne, hall⟩, rfl, rfl | rfl⟩
    · exact ⟨w, hne, hall, .inl (by simp)⟩
    · exact ⟨w, hne, hall, .inr (by simp)⟩
  · rintro ⟨w, hne, hall, rfl | rfl⟩
    · exact ⟨text, [], (List.append_nil text).symm, [], text, rfl, ⟨trivial, rfl⟩, text, [],
        (List.append_nil text).symm, ⟨hne, hall⟩, rfl, .inl rfl⟩
    · exact ⟨w, [lineFeed], rfl, [], w, rfl, ⟨trivial, rfl⟩, w, [], (List.append_nil w).symm,
        ⟨hne, hall⟩, rfl, .inr rfl⟩

end Regex
end CtvAttribution.Library
