import CtvAttribution.DayRecovery

/-! Landing corrections moves a conversion to its settled row, once, and leaves every other
conversion alone. -/
namespace CtvAttribution
open Library

/-- A landed correction keeps its candidate's conversion and day. -/
theorem landed_correction {exposures : List Exposure} {window reconciledAt : Int} {r x : AttributedConversion}
    (h : correction exposures window reconciledAt r = some x) :
    (landedRow x).conversionId = r.conversionId ∧ dayOf (landedRow x).eventTime = dayOf r.eventTime := by
  have hconv := (correction_fields h).1
  rw [landedRow_conversionId, dayOf_landedRow, hconv]
  exact ⟨rfl, rfl⟩

section settled
variable (exposures : List Exposure) (window reconciledAt : Int)

/-- Where a pass takes a current row. -/
def settledRow (r : AttributedConversion) : AttributedConversion :=
  match correction exposures window reconciledAt r with
  | some x =>
    if HotUnattributed r ∧ recordVersion r < recordVersion (landedRow x) then landedRow x else r
  | none => r

variable {exposures window reconciledAt}

theorem settledRow_of_not_hot {r : AttributedConversion} (h : ¬ HotUnattributed r) :
    settledRow exposures window reconciledAt r = r := by
  unfold settledRow
  cases correction exposures window reconciledAt r with
  | none => rfl
  | some x => exact if_neg fun hr => h hr.1

theorem settledRow_of_none {r : AttributedConversion} (h : correction exposures window reconciledAt r = none) :
    settledRow exposures window reconciledAt r = r := by
  rw [settledRow, h]

/-- A row no pass corrects stays. -/
theorem settledRow_of_stays {r : AttributedConversion}
    (h : HotUnattributed r → ∀ x, correction exposures window reconciledAt r ≠ some x) :
    settledRow exposures window reconciledAt r = r := by
  by_cases hhot : HotUnattributed r
  · exact settledRow_of_none (Option.eq_none_iff_forall_ne_some.mpr (h hhot))
  · exact settledRow_of_not_hot hhot

private theorem settledRow_of_some {r x : AttributedConversion} (hr : HotUnattributed r)
    (h : correction exposures window reconciledAt r = some x) :
    newer recordVersion (some r) (some (landedRow x)) = some (settledRow exposures window reconciledAt r) := by
  simp only [settledRow, h, newer, hr, true_and]
  split <;> rfl

theorem not_hotUnattributed_of_correction {r x : AttributedConversion}
    (h : correction exposures window reconciledAt r = some x) : ¬ HotUnattributed (landedRow x) := by
  intro ⟨hno, _⟩
  have hyes : (landedRow x).attributed = true := (correction_fields h).2.2.2
  rw [hyes] at hno
  cases hno

variable (exposures window reconciledAt) in
/-- A settled row is moved no further, whatever the version of the next pass. -/
theorem settledRow_cases (r : AttributedConversion) :
    settledRow exposures window reconciledAt r = r ∨
      ¬ HotUnattributed (settledRow exposures window reconciledAt r) := by
  cases h : correction exposures window reconciledAt r with
  | none => exact Or.inl (settledRow_of_none h)
  | some x =>
    simp only [settledRow, h]
    split
    · exact Or.inr (not_hotUnattributed_of_correction h)
    · exact Or.inl rfl

theorem settledRow_settledRow (r : AttributedConversion) :
    settledRow exposures window reconciledAt (settledRow exposures window reconciledAt r) =
      settledRow exposures window reconciledAt r := by
  rcases settledRow_cases exposures window reconciledAt r with h | h
  · rw [h, h]
  · exact settledRow_of_not_hot h

theorem settledRow_toConversion (r : AttributedConversion) :
    (settledRow exposures window reconciledAt r).conversionId = r.conversionId ∧
      dayOf (settledRow exposures window reconciledAt r).eventTime = dayOf r.eventTime := by
  cases h : correction exposures window reconciledAt r with
  | none => rw [settledRow_of_none h]; exact ⟨rfl, rfl⟩
  | some x =>
    simp only [settledRow, h]
    split
    · exact landed_correction h
    · exact ⟨rfl, rfl⟩

end settled

/-- The landed corrections of the candidates on some days, in any order and number. -/
structure Corrects (exposures : List Exposure) (window reconciledAt : Int) (cands : List AttributedConversion)
    (days : List Int) (new : List AttributedConversion) : Prop where
  mem_iff : ∀ y, y ∈ new ↔ ∃ r ∈ cands, dayOf r.eventTime ∈ days ∧
    ∃ x, correction exposures window reconciledAt r = some x ∧ y = landedRow x

section land
variable {exposures : List Exposure} {window reconciledAt : Int} {log cands new : List AttributedConversion}
  {days : List Int} (hc : lakeCandidates log none = .ok cands)
  (hnew : Corrects exposures window reconciledAt cands days new)
include hc hnew

/-- A landed row corrects the current row of its conversion. -/
theorem current_of_mem_corrects {y : AttributedConversion} (hy : y ∈ new) :
    ∃ r x, currentRow log y.conversionId = some r ∧ HotUnattributed r ∧ dayOf r.eventTime ∈ days ∧
      correction exposures window reconciledAt r = some x ∧ y = landedRow x := by
  obtain ⟨r, hr, hday, x, hx, rfl⟩ := (hnew.mem_iff y).mp hy
  obtain ⟨hcur, hhot⟩ := (mem_lakeCandidates hc).mp hr
  rw [← (landed_correction hx).1] at hcur
  exact ⟨r, x, hcur, hhot, hday, hx, rfl⟩

/-- The correction of a current row is the one row landed for its conversion. -/
theorem currentRow_of_correction {r x : AttributedConversion} (hcur : currentRow log r.conversionId = some r)
    (hhot : HotUnattributed r) (hday : dayOf r.eventTime ∈ days)
    (hx : correction exposures window reconciledAt r = some x) :
    currentRow new r.conversionId = some (landedRow x) := by
  have hid := (landed_correction hx).1
  have hr : r ∈ cands := (mem_lakeCandidates hc).mpr ⟨hcur, hhot⟩
  have hmem : landedRow x ∈ new := (hnew.mem_iff _).mpr ⟨r, hr, hday, x, hx, rfl⟩
  rw [← hid]
  apply currentRow_of_unique hmem
  intro y hy he
  obtain ⟨r', x', hr', _, _, hx', rfl⟩ := current_of_mem_corrects hc hnew hy
  rw [he, hid, hcur] at hr'
  cases hr'
  rw [hx] at hx'
  cases hx'
  rfl

/-- Landing corrections settles the conversions of the days and no others. -/
theorem currentRow_land (cid : String) : currentRow (log ++ new) cid = (currentRow log cid).map fun r =>
    if dayOf r.eventTime ∈ days then settledRow exposures window reconciledAt r else r := by
  cases hcur : currentRow log cid with
  | none =>
    rw [currentRow_append_of_not_mem, hcur]
    · rfl
    · intro y hy hid
      obtain ⟨r, _, hr, _⟩ := current_of_mem_corrects hc hnew hy
      rw [hid, hcur] at hr
      cases hr
  | some r =>
    have hid : r.conversionId = cid := currentRow_conversionId hcur
    rw [Option.map_some]
    by_cases hmoves : HotUnattributed r ∧ dayOf r.eventTime ∈ days ∧
        ∃ x, correction exposures window reconciledAt r = some x
    · obtain ⟨hhot, hday, x, hx⟩ := hmoves
      have hlanded := currentRow_of_correction hc hnew (hid ▸ hcur) hhot hday hx
      rw [hid] at hlanded
      rw [currentRow_append, hcur, hlanded, settledRow_of_some hhot hx, if_pos hday]
    · have hkeep : (if dayOf r.eventTime ∈ days then settledRow exposures window reconciledAt r else r) = r := by
        by_cases hday : dayOf r.eventTime ∈ days
        · rw [if_pos hday]
          exact settledRow_of_stays fun hhot x hx => hmoves ⟨hhot, hday, x, hx⟩
        · exact if_neg hday
      rw [hkeep, currentRow_append_of_not_mem, hcur]
      intro y hy he
      obtain ⟨r', x, hr', hhot, hday, hx, _⟩ := current_of_mem_corrects hc hnew hy
      rw [he, hcur] at hr'
      cases hr'
      exact hmoves ⟨hhot, hday, x, hx⟩

/-- Corrections stay on the day of their conversion. -/
theorem sameDay_land (hs : SameDay log) : SameDay (log ++ new) := by
  have hday {y : AttributedConversion} (hy : y ∈ log ++ new) :
      ∃ r ∈ log, r.conversionId = y.conversionId ∧ dayOf r.eventTime = dayOf y.eventTime := by
    rcases List.mem_append.mp hy with hy | hy
    · exact ⟨y, hy, rfl, rfl⟩
    · obtain ⟨r, hr, _, x, hx, rfl⟩ := (hnew.mem_iff y).mp hy
      obtain ⟨hid, hd⟩ := landed_correction hx
      exact ⟨r, currentRow_mem ((mem_lakeCandidates hc).mp hr).1, hid.symm, hd.symm⟩
  intro y hy z hz he
  obtain ⟨r, hr, hri, hrd⟩ := hday hy
  obtain ⟨s, hs', hsi, hsd⟩ := hday hz
  rw [← hrd, ← hsd]
  exact hs r hr s hs' (hri.trans (he.trans hsi.symm))

/-- What is left to correct was a candidate before. -/
theorem candidate_of_landed {r : AttributedConversion}
    (hr : currentRow (log ++ new) r.conversionId = some r) (hhot : HotUnattributed r) : r ∈ cands := by
  rw [currentRow_land hc hnew, Option.map_eq_some_iff] at hr
  obtain ⟨s, hs, he⟩ := hr
  have hsr : s = r := by
    split at he
    · rcases settledRow_cases exposures window reconciledAt s with h | h
      · exact h.symm.trans he
      · exact absurd (he ▸ hhot) h
    · exact he
  subst hsr
  exact (mem_lakeCandidates hc).mpr ⟨hs, hhot⟩

theorem lakeCandidates_land : lakeCandidates (log ++ new) none = .ok
    ((readCurrent (log ++ new) none).filter fun r => HotUnattributed r) := by
  rw [lakeCandidates_eq_ok]
  refine ⟨fun r hr => ?_, rfl⟩
  obtain ⟨hr, hhot⟩ := List.mem_filter.mp hr
  exact (lakeCandidates_eq_ok.mp hc).1 r
    (candidate_of_landed hc hnew (mem_readCurrent.mp hr) (of_decide_eq_true hhot))

end land

section recoverDays
variable {lake : Lake} {cands : List AttributedConversion} (hs : SameDay lake.attributed)
  (hk : Keyed Exposure.exposureId lake.exposures) (hc : lakeCandidates lake.attributed none = .ok cands)
include hs hk hc

/-- A batch of days recovers the corrections of its candidates. -/
theorem recoverDays_ok (bucketOf : String → Nat) (days : List Int) (reconciledAt : Int) :
    ∃ rows, recoverDays bucketOf lake days reconciledAt = .ok rows ∧
      Corrects lake.exposures longWindow reconciledAt cands days (rows.map landedRow) := by
  have hday (d : Int) := recoverDay_eq hs rfl hk hc bucketOf d reconciledAt longWindow
  obtain ⟨groups, hgroups⟩ := exists_mapM_eq_ok (l := days) fun d _ => ⟨_, hday d⟩
  refine ⟨groups.flatten, by rw [recoverDays, hgroups]; rfl, ⟨fun y => ?_⟩⟩
  have hmem (x : AttributedConversion) : x ∈ groups.flatten ↔ ∃ r ∈ cands, dayOf r.eventTime ∈ days ∧
      correction lake.exposures longWindow reconciledAt r = some x := by
    rw [List.mem_flatten]
    constructor
    · intro ⟨g, hg, hx⟩
      obtain ⟨d, hd, he⟩ := (mem_of_mapM_eq_ok hgroups).mp hg
      cases (hday d).symm.trans he
      obtain ⟨r, hr, hx⟩ := List.mem_filterMap.mp hx
      obtain ⟨hr, hrd⟩ := List.mem_filter.mp hr
      exact ⟨r, hr, of_decide_eq_true hrd ▸ hd, hx⟩
    · intro ⟨r, hr, hd, hx⟩
      obtain ⟨g, hg, he⟩ := exists_of_mapM_eq_ok hgroups hd
      cases (hday _).symm.trans he
      exact ⟨_, hg, List.mem_filterMap.mpr ⟨r, List.mem_filter.mpr ⟨hr, decide_eq_true rfl⟩, hx⟩⟩
  rw [List.mem_map]
  constructor
  · intro ⟨x, hx, he⟩
    obtain ⟨r, hr, hd, hcorr⟩ := (hmem x).mp hx
    exact ⟨r, hr, hd, x, hcorr, he.symm⟩
  · intro ⟨r, hr, hd, x, hcorr, he⟩
    exact ⟨x, (hmem x).mpr ⟨r, hr, hd, hcorr⟩, he.symm⟩

end recoverDays
end CtvAttribution
