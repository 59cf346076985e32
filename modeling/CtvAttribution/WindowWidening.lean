import CtvAttribution.CheckedTimes
import CtvAttribution.EngineParity

/-! The last-touch leaf over two windows, and over two lists with the same exposures. The
lists may hold one exposure several times; the credited key decides the row, so no two
exposures need differ in their ids. A window that starts before the calendar raises. -/
namespace CtvAttribution
open Library

variable {exposures l m : List Exposure} {conv : ResolvedConversion} {w1 w2 window : Int}

/-- The recency of the credited exposure: its event time and its id. -/
def creditedKey (exposures : List Exposure) (conv : ResolvedConversion) (window : Int) :
    Option (Int ×ₗ String) :=
  (creditedExposure exposures conv window).map recency

private theorem creditedKey_eventTime : (creditedExposure exposures conv window).map Exposure.eventTime =
    (creditedKey exposures conv window).map fun k => (ofLex k).1 := by
  rw [creditedKey, Option.map_map]
  rfl

private theorem creditedKey_exposureId : (creditedExposure exposures conv window).map Exposure.exposureId =
    (creditedKey exposures conv window).map fun k => (ofLex k).2 := by
  rw [creditedKey, Option.map_map]
  rfl

private theorem creditedKey_isSome : (creditedExposure exposures conv window).isSome =
    (creditedKey exposures conv window).isSome := by
  rw [creditedKey, Option.isSome_map]

private theorem creditedKey_eq_some {k : Int ×ₗ String} : creditedKey exposures conv window = some k ↔
    (∃ e ∈ eligible exposures conv window, recency e = k) ∧
      ∀ e ∈ eligible exposures conv window, recency e ≤ k :=
  argmax_key_eq_some

private theorem creditedKey_widen {k : Int ×ₗ String} (hle : w1 ≤ w2)
    (h : creditedKey exposures conv w1 = some k) : creditedKey exposures conv w2 = some k := by
  rw [creditedKey_eq_some] at h ⊢
  obtain ⟨⟨w, hw, rfl⟩, hmax⟩ := h
  exact ⟨⟨w, eligible_subset_of_le hle w hw, rfl⟩, recency_le_of_wider hw hmax⟩

private theorem mem_assistsOf {id : String} : id ∈ assistsOf exposures conv window ↔
    (∃ e ∈ eligible exposures conv window, e.exposureId = id) ∧
      (creditedKey exposures conv window).map (fun k => (ofLex k).2) ≠ some id := by
  have htouched : (creditedExposure exposures conv window).map Exposure.exposureId = some id ∨
      id ∈ assistsOf exposures conv window ↔
        ∃ e ∈ eligible exposures conv window, e.exposureId = id := touched_iff
  rw [← creditedKey_exposureId, ← htouched]
  have hnot : id ∈ assistsOf exposures conv window →
      (creditedExposure exposures conv window).map Exposure.exposureId ≠ some id := by
    intro h
    unfold assistsOf at h
    cases hc : creditedExposure exposures conv window with
    | none => simp [hc] at h
    | some w =>
      simp only [hc, mem_sortedSet, List.mem_filter, decide_eq_true_eq] at h
      simpa using h.2.symm
  constructor
  · intro h
    exact ⟨Or.inr h, hnot h⟩
  · intro h
    exact h.1.resolve_left h.2

private theorem assistsOf_widen (hle : w1 ≤ w2) (h : (creditedExposure exposures conv w1).isSome) :
    assistsOf exposures conv w1 ⊆ assistsOf exposures conv w2 := by
  intro id hid
  rw [creditedKey_isSome] at h
  obtain ⟨k, hk⟩ := Option.isSome_iff_exists.mp h
  rw [mem_assistsOf] at hid ⊢
  obtain ⟨⟨e, he, hide⟩, hne⟩ := hid
  rw [hk, ← creditedKey_widen hle hk] at hne
  exact ⟨⟨e, eligible_subset_of_le hle e he, hide⟩, hne⟩

section members
variable (h : ∀ e, e ∈ l ↔ e ∈ m)

include h

private theorem creditedKey_congr : creditedKey l conv window = creditedKey m conv window := by
  apply argmax_key_congr
  intro e
  rw [mem_eligible, mem_eligible, h]

private theorem assistsOf_members : assistsOf l conv window = assistsOf m conv window := by
  have hmem (id : String) : id ∈ assistsOf l conv window ↔ id ∈ assistsOf m conv window := by
    simp only [mem_assistsOf, mem_eligible, h, creditedKey_congr h]
  calc assistsOf l conv window
      = sortedSet (assistsOf l conv window) := (sortedSet_of_strict assistsOf_strict).symm
    _ = sortedSet (assistsOf m conv window) := sortedSet_congr hmem
    _ = assistsOf m conv window := sortedSet_of_strict assistsOf_strict

/-- The whole decision, refusals included, depends on the members of the list only. -/
theorem lastTouch_members (hhs : List String) :
    lastTouch l conv window hhs = lastTouch m conv window hhs := by
  rw [lastTouch_decision, lastTouch_decision]
  dsimp only
  rw [creditedKey_exposureId, creditedKey_exposureId, creditedKey_isSome, creditedKey_isSome,
    creditedKey_eventTime, creditedKey_eventTime, creditedKey_congr h, assistsOf_members h]

end members

private theorem attributed_of_lastTouch {hhs : List String} {cand : Candidate}
    (h : lastTouch exposures conv window hhs = .ok cand) :
    cand.row.attributed = (creditedExposure exposures conv window).isSome ∧
      cand.row.exposureId = (creditedExposure exposures conv window).map Exposure.exposureId ∧
      cand.row.assists = assistsOf exposures conv window ∧
      cand.lastTouchTime = (creditedExposure exposures conv window).map Exposure.eventTime := by
  by_cases hset : CandidateSetMatchesCount conv.candidateCount conv.householdId hhs
  · rw [lastTouch_eq hset] at h
    cases h
    exact ⟨rfl, rfl, rfl, rfl⟩
  · rw [lastTouch_decision] at h
    obtain ⟨r, hr, _⟩ := bind_eq_ok_iff.mp h
    exact absurd (matches_of_attributed hr) hset

/-- A credit given over one window is given over every wider one, with the same exposure
and time and at least the same assists; at either window the row is a function of the
set of exposures. -/
theorem lastTouch_widen (exposures : List Exposure) (conv : ResolvedConversion) (hhs : List String)
    {w1 w2 : Int} (hle : w1 ≤ w2) :
    (∀ cand1, lastTouch exposures conv w1 hhs = .ok cand1 → cand1.row.attributed = true →
      ∃ cand2, lastTouch exposures conv w2 hhs = .ok cand2 ∧ cand2.row.attributed = true ∧
        cand2.row.exposureId = cand1.row.exposureId ∧ cand2.lastTouchTime = cand1.lastTouchTime ∧
        cand1.row.assists ⊆ cand2.row.assists) ∧
    ∀ exposures', (∀ e, e ∈ exposures' ↔ e ∈ exposures) →
      lastTouch exposures' conv w1 hhs = lastTouch exposures conv w1 hhs ∧
      lastTouch exposures' conv w2 hhs = lastTouch exposures conv w2 hhs := by
  refine ⟨fun cand1 h1 hyes => ?_, fun l hl => ⟨lastTouch_members hl hhs, lastTouch_members hl hhs⟩⟩
  have hset : CandidateSetMatchesCount conv.candidateCount conv.householdId hhs := by
    rw [lastTouch_decision] at h1
    obtain ⟨r, hr, _⟩ := bind_eq_ok_iff.mp h1
    exact matches_of_attributed hr
  obtain ⟨hatt, hid, hassists, htime⟩ := attributed_of_lastTouch h1
  rw [hatt] at hyes
  have hsome := hyes
  rw [creditedKey_isSome] at hsome
  obtain ⟨k, hk⟩ := Option.isSome_iff_exists.mp hsome
  have hk2 := creditedKey_widen hle hk
  refine ⟨_, lastTouch_eq hset, ?_, ?_, ?_, ?_⟩
  · show (creditedExposure exposures conv w2).isSome = true
    rw [creditedKey_isSome, hk2]
    rfl
  · show (creditedExposure exposures conv w2).map Exposure.exposureId = _
    rw [hid, creditedKey_exposureId, creditedKey_exposureId, hk, hk2]
  · show (creditedExposure exposures conv w2).map Exposure.eventTime = _
    rw [htime, creditedKey_eventTime, creditedKey_eventTime, hk, hk2]
  · show cand1.row.assists ⊆ assistsOf exposures conv w2
    rw [hassists]
    exact assistsOf_widen hle hyes

/-- A tie at the latest time, an exposure sent twice and one only the wider window sees. -/
def sampleTouches : List Exposure :=
  [sampleExposure "e1" (2 * Time.hour) 0, sampleExposure "e0" 0 0, sampleExposure "e2" (2 * Time.hour) 0,
    sampleExposure "e1" (2 * Time.hour) 0]

def sampleTouched : ResolvedConversion :=
  ⟨sampleConversion "c" (3 * Time.hour) 0, "h", .device, false, 1, Nat.one_pos⟩

private theorem sampleTouched_candidates :
    CandidateSetMatchesCount sampleTouched.candidateCount sampleTouched.householdId [] := by
  decide

/-- Over the calendar: a credit given over one window is given over every wider one that
starts in it. -/
theorem credit_widens_in_calendar (exposures : List Exposure) (conv : ResolvedConversion) (hhs : List String)
    {w1 w2 : Int} (hle : w1 ≤ w2) (hstart : InCalendar (conv.eventTime - w2)) :
    (∀ cand1, Checked.lastTouch exposures conv w1 hhs = .ok cand1 → cand1.row.attributed = true →
      ∃ cand2, Checked.lastTouch exposures conv w2 hhs = .ok cand2 ∧ cand2.row.attributed = true ∧
        cand2.row.exposureId = cand1.row.exposureId ∧ cand2.lastTouchTime = cand1.lastTouchTime ∧
        cand1.row.assists ⊆ cand2.row.assists) ∧
    ∀ exposures', (∀ e, e ∈ exposures' ↔ e ∈ exposures) →
      Checked.lastTouch exposures' conv w1 hhs = Checked.lastTouch exposures conv w1 hhs ∧
      Checked.lastTouch exposures' conv w2 hhs = Checked.lastTouch exposures conv w2 hhs := by
  obtain ⟨hcredit, hmembers⟩ := lastTouch_widen exposures conv hhs hle
  constructor
  · intro cand1 h1 hyes
    obtain ⟨_, h1⟩ := (Checked.lastTouch_agrees conv hhs cand1).mp h1
    obtain ⟨cand2, h2, hsame⟩ := hcredit cand1 h1 hyes
    exact ⟨cand2, (Checked.lastTouch_agrees conv hhs cand2).mpr ⟨hstart, h2⟩, hsame⟩
  · intro exposures' h
    obtain ⟨h1, h2⟩ := hmembers exposures' h
    unfold Checked.lastTouch
    rw [h1, h2]
    exact ⟨rfl, rfl⟩

/-- A window of a million days starts before year 1: the leaf raises where the hour's window
credits "e2". -/
theorem credit_lost_before_the_calendar :
    ¬ ∀ (exposures : List Exposure) (conv : ResolvedConversion) (hhs : List String) (w1 w2 : Int), w1 ≤ w2 →
      ∀ cand1, Checked.lastTouch exposures conv w1 hhs = .ok cand1 → cand1.row.attributed = true →
        ∃ cand2, Checked.lastTouch exposures conv w2 hhs = .ok cand2 ∧ cand2.row.attributed = true ∧
          cand2.row.exposureId = cand1.row.exposureId ∧ cand2.lastTouchTime = cand1.lastTouchTime ∧
          cand1.row.assists ⊆ cand2.row.assists := by
  intro h
  obtain ⟨cand1, h1, hyes⟩ : ∃ cand1, Checked.lastTouch sampleTouches sampleTouched Time.hour [] = .ok cand1 ∧
      cand1.row.attributed = true :=
    ⟨_, (Checked.lastTouch_agrees sampleTouched [] _).mpr ⟨by decide, lastTouch_eq sampleTouched_candidates⟩,
      by decide +kernel⟩
  obtain ⟨cand2, h2, _⟩ := h sampleTouches sampleTouched [] Time.hour (1000000 * Time.day) (by decide) cand1 h1 hyes
  exact absurd ((Checked.lastTouch_agrees sampleTouched [] cand2).mp h2).1 (by decide)

theorem credit_widens_in_calendar_sample : ∃ cand,
    Checked.lastTouch sampleTouches sampleTouched (4 * Time.hour) [] = .ok cand ∧
      cand.row.exposureId = some "e2" ∧ cand.lastTouchTime = some (2 * Time.hour) ∧
      ["e1"] ⊆ cand.row.assists := by
  obtain ⟨cand, h, _, hid, htime, hassists⟩ :=
    (credit_widens_in_calendar sampleTouches sampleTouched [] (show Time.hour ≤ 4 * Time.hour by decide)
      (by decide)).1 _ ((Checked.lastTouch_agrees sampleTouched [] _).mpr
        ⟨by decide, lastTouch_eq sampleTouched_candidates⟩) (by decide +kernel)
  refine ⟨cand, h, hid.trans (by decide +kernel), htime.trans (by decide +kernel), ?_⟩
  have hnarrow : assistsOf sampleTouches sampleTouched Time.hour = ["e1"] := by decide +kernel
  rw [← hnarrow]
  exact hassists

end CtvAttribution
