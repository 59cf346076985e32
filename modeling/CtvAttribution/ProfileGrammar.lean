import CtvAttribution.DestructiveReplay
import CtvAttribution.Library.Regex

/-! The profile names the entry points take, from the rule that validates them to the two
commands that act on `data/lake/<profile>`. The pattern ends in `$`, which also holds ahead
of a last line feed. -/
namespace CtvAttribution
open Library Script

/-- Why there is no lake root. -/
inductive LakeRootUnset where
  | malformed (profile : String)
  | testOnly
  | unbound
  deriving DecidableEq, Repr

/-- What the resolver reads of the environment. -/
structure Environ where
  lakeRoot : Option String
  pytestCurrentTest : Option String
  deriving DecidableEq, Repr

/-- `validate_profile`. -/
def validateProfile (profile : String) : Except LakeRootUnset String :=
  if matchesProfile profile then .ok profile else .error (.malformed profile)

/-- `_lake_root`, over the profile the process is bound to. -/
def lakeRoot (env : Environ) (profile : Option String) : Except LakeRootUnset String :=
  if env.lakeRoot.getD "" ≠ "" then
    if env.pytestCurrentTest.getD "" = "" then .error .testOnly else .ok (env.lakeRoot.getD "")
  else if profile.getD "" ≠ "" then .ok ("data/lake/" ++ profile.getD "")
  else .error .unbound

/-- `configure`: validate, bind, resolve. -/
def configure (env : Environ) (profile : String) : Except LakeRootUnset String := do
  let bound ← validateProfile profile
  lakeRoot env (some bound)

/-- The lakes on disk, by their root. -/
abbrev Lakes := String → Option Catalog

/-- `reset`: delete the lake at the root once confirmed; a missing one is fine. -/
def reset (root : String) (yes : Bool) (stdin : Stdin) : Script Lakes Refusal Unit := do
  Script.ofExcept (confirmOrAbort yes stdin)
  let lakes ← Script.get
  if (lakes root).isNone then return ()
  Script.modify fun lakes => Function.update lakes root none

/-- `main` of the command line on the action `reset`. -/
def resetMain (pytestCurrentTest : Option String) (inv : Invocation) : Script Lakes Refusal Unit :=
  match inv.profile with
  | none => Script.fail .usage
  | some profile =>
    if inv.lakeRoot.getD "" ≠ "" then Script.fail .lakeRootSet
    else match configure ⟨inv.lakeRoot, pytestCurrentTest⟩ profile with
      | .error _ => Script.fail (.malformedProfile profile)
      | .ok root => reset root inv.yes inv.stdin

def profileChar (c : Char) : Bool := ('a' ≤ c ∧ c ≤ 'z') ∨ ('0' ≤ c ∧ c ≤ '9') ∨ c = '_'

/-- `^[a-z0-9_]+$`. -/
def profileRe : Regex := .seq .start (.seq (.plus (.cls profileChar)) .stop)

/-- The documented names: characters of the class only, and at least one. -/
def ProfileName (profile : String) : Prop := profile ≠ "" ∧ ∀ c ∈ profile.toList, profileChar c = true

section pattern
variable {profile : String}

private theorem profileChar_lineFeed : profileChar Regex.lineFeed = false := by decide

private theorem dropLast_of_lineFeed {l : List Char} (h : l.getLast? = some Regex.lineFeed) :
    l = l.dropLast ++ [Regex.lineFeed] := by
  have hne : l ≠ [] := by
    rintro rfl
    cases h
  rw [List.getLast?_eq_some_getLast hne, Option.some.injEq] at h
  rw [← h, List.dropLast_concat_getLast]

/-- The check is the pattern's match. -/
theorem matchesProfile_iff_accepts : matchesProfile profile = true ↔ profileRe.Accepts profile.toList := by
  have hbody : matchesProfile profile = true ↔
      ∃ w, w ≠ [] ∧ (∀ c ∈ w, profileChar c = true) ∧
        w = if profile.toList.getLast? = some Regex.lineFeed then profile.toList.dropLast else profile.toList := by
    simp only [matchesProfile, profileChar, Regex.lineFeed, Bool.decide_and, Bool.and_eq_true,
      decide_eq_true_eq, List.all_eq_true]
    constructor
    · intro h
      exact ⟨_, h.1, h.2, rfl⟩
    · rintro ⟨w, hne, hall, rfl⟩
      exact ⟨hne, hall⟩
  rw [hbody, profileRe, Regex.accepts_anchored]
  apply exists_congr
  intro w
  refine and_congr_right fun hne => and_congr_right fun hall => ?_
  have hlast : w.getLast? ≠ some Regex.lineFeed := by
    intro h
    have hc := hall _ (List.mem_of_getLast? h)
    rw [profileChar_lineFeed] at hc
    cases hc
  by_cases h : profile.toList.getLast? = some Regex.lineFeed
  · rw [if_pos h]
    have heq := dropLast_of_lineFeed h
    constructor
    · rintro rfl
      exact .inr heq
    · rintro (hw | hw)
      · rw [hw] at h
        exact absurd h hlast
      · rw [hw, List.dropLast_concat]
  · rw [if_neg h]
    constructor
    · exact fun hw => .inl hw.symm
    · rintro (hw | hw)
      · exact hw.symm
      · rw [hw, List.getLast?_concat] at h
        exact absurd rfl h

private theorem profileName_iff_toList : ProfileName profile ↔
    profile.toList ≠ [] ∧ ∀ c ∈ profile.toList, profileChar c = true := by
  unfold ProfileName
  rw [ne_eq, ne_eq, String.toList_eq_nil_iff]

/-- What the check takes: the names, and a name with one line feed after it. -/
theorem matchesProfile_iff : matchesProfile profile = true ↔
    ProfileName profile ∨ ∃ name, ProfileName name ∧ profile = name ++ "\n" := by
  rw [matchesProfile_iff_accepts, profileRe, Regex.accepts_anchored]
  constructor
  · rintro ⟨w, hne, hall, h | h⟩
    · exact .inl (profileName_iff_toList.mpr (h ▸ ⟨hne, hall⟩))
    · refine .inr ⟨String.ofList w, profileName_iff_toList.mpr ?_, ?_⟩
      · rw [String.toList_ofList]
        exact ⟨hne, hall⟩
      · rw [← String.toList_inj, String.toList_append, String.toList_ofList, h]
        rfl
  · rintro (h | ⟨name, h, rfl⟩)
    · obtain ⟨hne, hall⟩ := profileName_iff_toList.mp h
      exact ⟨_, hne, hall, .inl rfl⟩
    · obtain ⟨hne, hall⟩ := profileName_iff_toList.mp h
      refine ⟨_, hne, hall, .inr ?_⟩
      rw [String.toList_append]
      rfl

private theorem not_profileName_lineFeed (name : String) : ¬ ProfileName (name ++ "\n") := by
  intro h
  have hmem : Regex.lineFeed ∈ (name ++ "\n").toList := by
    rw [String.toList_append]
    exact List.mem_append_right _ List.mem_cons_self
  have hc := h.2 _ hmem
  rw [profileChar_lineFeed] at hc
  cases hc

end pattern

section entryPoints
variable {profile : String}

private theorem validateProfile_ok_iff :
    (∃ name, validateProfile profile = .ok name) ↔ matchesProfile profile = true := by
  unfold validateProfile
  by_cases h : matchesProfile profile = true <;> simp [h]

private theorem ne_empty_of_matchesProfile (h : matchesProfile profile = true) : profile ≠ "" := by
  rintro rfl
  revert h
  decide

/-- Where no override is set, the root is the profile's own directory. -/
theorem configure_of_unset {env : Environ} (hroot : env.lakeRoot.getD "" = "") :
    configure env profile = if matchesProfile profile then .ok ("data/lake/" ++ profile)
      else .error (.malformed profile) := by
  unfold configure validateProfile
  split
  · next h =>
    show lakeRoot env (some profile) = _
    have hne : (some profile).getD "" ≠ "" := ne_empty_of_matchesProfile h
    rw [lakeRoot, if_neg (not_not.mpr hroot), if_pos hne]
    rfl
  · rfl

private theorem configure_ok_iff {env : Environ} (hroot : env.lakeRoot.getD "" = "") :
    (∃ root, configure env profile = .ok root) ↔ matchesProfile profile = true := by
  rw [configure_of_unset hroot]
  by_cases h : matchesProfile profile = true <;> simp [h]

/-- A confirmed reset leaves every other lake alone. -/
theorem run_reset (root : String) (yes : Bool) (stdin : Stdin) (lakes : Lakes) :
    (reset root yes stdin).run lakes = match confirmOrAbort yes stdin with
      | .error e => (lakes, .error e)
      | .ok () => (Function.update lakes root none, .ok ()) := by
  unfold reset
  cases confirmOrAbort yes stdin with
  | error e => rfl
  | ok u =>
    show ((if (lakes root).isNone then Script.done () else
      Script.modify fun lakes => Function.update lakes root none) : Script Lakes Refusal Unit).run lakes = _
    by_cases hnone : (lakes root).isNone = true
    · rw [if_pos hnone]
      have hsame : Function.update lakes root none = lakes := by
        rw [Function.update_eq_self_iff]
        exact (Option.isNone_iff_eq_none.mp hnone).symm
      rw [hsame]
      rfl
    · rw [if_neg hnone]
      rfl

private theorem resetMain_of_unset {pytest : Option String} {inv : Invocation} (hprofile : inv.profile = some profile)
    (hroot : inv.lakeRoot.getD "" = "") : resetMain pytest inv =
      if matchesProfile profile then reset ("data/lake/" ++ profile) inv.yes inv.stdin
      else Script.fail (.malformedProfile profile) := by
  unfold resetMain
  rw [hprofile]
  dsimp only
  rw [if_neg (not_not.mpr hroot), configure_of_unset hroot]
  cases matchesProfile profile <;> rfl

private theorem destructiveMain_of_unset {unit : Nat} {lakes : String → Option Catalog} {inv : Invocation}
    (hprofile : inv.profile = some profile) (hroot : inv.lakeRoot.getD "" = "") :
    destructiveMain unit lakes inv = if matchesProfile profile then replay unit (lakes profile) profile inv.yes inv.stdin
      else Script.fail (.malformedProfile profile) := by
  unfold destructiveMain
  rw [hprofile]
  dsimp only
  rw [if_neg (not_not.mpr hroot)]

/-- No refusal of a replay is about the profile's shape. -/
theorem replay_ne_malformed (unit : Nat) (held : Option Catalog) (profile name : String) (inv : Invocation) :
    replay unit held profile inv.yes inv.stdin ≠ Script.fail (.malformedProfile name) := by
  intro h
  cases held with
  | none => cases h
  | some lake =>
    cases hdays : lake.days with
    | error e =>
      rw [replay, lakeDays, hdays] at h
      cases h
    | ok days =>
      rw [replay_of_days unit profile inv hdays] at h
      by_cases hne : days = []
      · rw [if_pos hne] at h
        cases h
      simp only [if_neg hne] at h
      by_cases hknown : sortedSet (days.filter fun d => !dayPartitions d) = []
      case neg =>
        rw [if_pos hknown] at h
        cases h
      simp only [hknown, ne_eq, not_true_eq_false, if_false] at h
      cases hconfirm : confirmOrAbort inv.yes inv.stdin with
      | error e =>
        have he : e = .aborted := by
          unfold confirmOrAbort at hconfirm
          split at hconfirm
          · cases hconfirm
          · split at hconfirm
            · exact (Except.error.inj hconfirm).symm
            · exact (Except.error.inj hconfirm).symm
            · split at hconfirm
              · cases hconfirm
              · exact (Except.error.inj hconfirm).symm
        rw [hconfirm, he] at h
        cases h
      | ok u =>
        rw [hconfirm, Catalog.truncateAndReload, if_neg hne] at h
        cases h

/-- What is asked of the grammar: each entry point takes exactly the documented names, and
acts on the lake of the name it takes. An override of the root is refused by itself. -/
structure GrammarExact (profile : String) : Prop where
  validate : (∃ name, validateProfile profile = .ok name) ↔ ProfileName profile
  configure : ∀ env, env.lakeRoot.getD "" = "" →
    ((∃ root, configure env profile = .ok root) ↔ ProfileName profile)
  reset : ∀ pytest inv lakes, inv.profile = some profile → inv.lakeRoot.getD "" = "" →
    confirmOrAbort inv.yes inv.stdin = .ok () →
    ((∃ lakes', (resetMain pytest inv).Ends lakes () lakes') ↔ ProfileName profile)
  replay : ∀ unit lakes inv, inv.profile = some profile → inv.lakeRoot.getD "" = "" →
    (destructiveMain unit lakes inv = replay unit (lakes profile) profile inv.yes inv.stdin ↔ ProfileName profile)

/-- Every entry point takes what the check takes. -/
theorem grammarExact_iff_matches (profile : String) :
    GrammarExact profile ↔ (matchesProfile profile = true ↔ ProfileName profile) := by
  constructor
  · intro h
    rw [← h.validate, validateProfile_ok_iff]
  · intro h
    refine ⟨validateProfile_ok_iff.trans h, fun env hroot => (configure_ok_iff hroot).trans h,
      fun pytest inv lakes hprofile hroot hconfirm => ?_, fun unit lakes inv hprofile hroot => ?_⟩
    · rw [← h, resetMain_of_unset hprofile hroot]
      by_cases hm : matchesProfile profile = true
      · simp only [hm, if_true, iff_true]
        refine ⟨Function.update lakes ("data/lake/" ++ profile) none, ?_⟩
        rw [Ends, run_reset, hconfirm]
      · simp [hm]
    · rw [← h, destructiveMain_of_unset hprofile hroot]
      by_cases hm : matchesProfile profile = true
      · simp [hm]
      · simp only [hm, Bool.false_eq_true, if_false, iff_false]
        exact (replay_ne_malformed _ _ _ _ _).symm

/-- The grammar is exact for every string but a name with a line feed after it. -/
theorem grammarExact_iff (profile : String) :
    GrammarExact profile ↔ ¬ ∃ name, ProfileName name ∧ profile = name ++ "\n" := by
  rw [grammarExact_iff_matches, matchesProfile_iff]
  constructor
  · rintro h ⟨name, hname, rfl⟩
    exact not_profileName_lineFeed name (h.mp (.inr ⟨name, hname, rfl⟩))
  · intro h
    exact ⟨fun hm => hm.resolve_right h, .inl⟩

private theorem profileName_tiny : ProfileName "tiny" := ⟨by decide, List.all_eq_true.mp rfl⟩

theorem grammarExact_tiny_lineFeed : ¬ GrammarExact "tiny\n" := by
  rw [grammarExact_iff, not_not]
  exact ⟨"tiny", profileName_tiny, rfl⟩

end entryPoints
end CtvAttribution
