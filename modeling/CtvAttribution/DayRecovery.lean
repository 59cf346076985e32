import CtvAttribution.ReconcileMatcher

/-! One day of the reconcile pass: its bucketed read gathers all the exposures the matcher
may credit, so the day's candidates are corrected as from the whole lake. -/
namespace CtvAttribution
open Library

section gather
variable {log : List Exposure} {hhs : List String} {lo hi : Int} {h : String}

private theorem get?_readExposuresByHousehold_of_not_mem (hh : h ∉ hhs) :
    (readExposuresByHousehold log hhs lo hi).get? h = none := by
  apply OrderedDict.get?_groupBy_of_nil
  rw [List.filter_eq_nil_iff]
  intro e he hid
  rw [mem_sortedBy, mem_firstSeen, List.mem_filter, decide_eq_true_eq] at he
  exact hh (of_decide_eq_true hid ▸ he.2.1)

private theorem mem_readExposuresByHousehold {e : Exposure} (hh : h ∈ hhs) :
    e ∈ ((readExposuresByHousehold log hhs lo hi).get? h).getD [] ↔
      e ∈ ofHousehold log h ∧ lo ≤ e.eventTime ∧ e.eventTime < hi := by
  rw [readExposuresByHousehold, OrderedDict.getD_groupBy, ofHousehold]
  simp only [List.mem_filter, mem_sortedBy, mem_firstSeen, decide_eq_true_eq]
  constructor
  · intro h
    obtain ⟨⟨he, _, hwin⟩, hid⟩ := h
    exact ⟨⟨he, hid⟩, hwin⟩
  · intro h
    obtain ⟨⟨he, hid⟩, hwin⟩ := h
    exact ⟨⟨he, hid ▸ hh, hwin⟩, hid⟩

variable {bucketOf : String → Nat} {expanded : List ResolvedConversion}

/-- A household of the expanded rows is read with its bucket. -/
theorem mem_bucketExposures {e : Exposure} (hh : ∃ c ∈ expanded, c.householdId = h) :
    e ∈ ((bucketExposures bucketOf log expanded lo hi).get? h).getD [] ↔
      e ∈ ofHousehold log h ∧ lo ≤ e.eventTime ∧ e.eventTime < hi := by
  obtain ⟨c, hc, rfl⟩ := hh
  let byBucket := (OrderedDict.groupBy (fun r : ResolvedConversion => bucketOf r.householdId)
    expanded).mapValues fun rs => sortedSet (rs.map fun r => r.householdId)
  have hmem (b : Nat) (k : String) : k ∈ (byBucket.get? b).getD [] ↔
      ∃ r ∈ expanded, bucketOf r.householdId = b ∧ r.householdId = k := by
    rw [OrderedDict.getD_mapValues_groupBy _ _ (d := []) rfl]
    simp only [mem_sortedSet, List.mem_map, List.mem_filter, decide_eq_true_eq, and_assoc]
  have hother (b : Nat) (hb : b ≠ bucketOf c.householdId) :
      (readExposuresByHousehold log ((byBucket.get? b).getD []) lo hi).get? c.householdId = none := by
    apply get?_readExposuresByHousehold_of_not_mem
    rw [hmem]
    intro h
    obtain ⟨r, _, hrb, hrh⟩ := h
    exact hb (hrb.symm.trans (congrArg bucketOf hrh))
  have hbucket : bucketOf c.householdId ∈ sortedSet byBucket.keys := by
    rw [mem_sortedSet, OrderedDict.mem_keys_iff]
    have hin := (hmem _ _).mpr ⟨c, hc, rfl, rfl⟩
    cases hg : byBucket.get? (bucketOf c.householdId) with
    | none =>
      rw [hg] at hin
      cases hin
    | some v => exact ⟨v, rfl⟩
  have hget := OrderedDict.get?_updates
    (fun b => readExposuresByHousehold log ((byBucket.get? b).getD []) lo hi) hother (sortedSet byBucket.keys)
  rw [if_pos hbucket] at hget
  rw [bucketExposures, hget]
  exact mem_readExposuresByHousehold ((hmem _ _).mpr ⟨c, hc, rfl, rfl⟩)

/-- The day's range covers the window of every candidate of that day. -/
theorem gathers_bucketExposures {cands : List AttributedConversion} {r : AttributedConversion} {window : Int}
    (hr : r ∈ cands) {day : Int} (hday : dayOf r.eventTime = day) :
    Gathers log window r fun h => ((bucketExposures bucketOf log (expandCandidates cands)
      (day * Time.day - window) (day * Time.day + Time.day)).get? h).getD [] := by
  intro h hh e
  have hexp : ∃ c ∈ expandCandidates cands, c.householdId = h := by
    rw [expandCandidates_eq]
    exact ⟨_, List.mem_flatMap.mpr ⟨r, hr, List.mem_map_of_mem hh⟩, rfl⟩
  rw [mem_eligible, mem_eligible, mem_bucketExposures hexp]
  have hlo : day * Time.day ≤ r.eventTime := by
    rw [← hday, dayOf, day_eq]
    omega
  have hhi : r.eventTime < day * Time.day + Time.day := by
    rw [← hday, dayOf, day_eq]
    omega
  constructor
  · intro h
    obtain ⟨⟨he, _⟩, hwin⟩ := h
    exact ⟨he, hwin⟩
  · intro h
    obtain ⟨he, hmin, hmax⟩ := h
    exact ⟨⟨he, by omega, by omega⟩, hmin, hmax⟩

end gather

section candidates
variable {log : List AttributedConversion} {cands : List AttributedConversion} {r : AttributedConversion}

/-- A row the pass may correct. -/
def HotUnattributed (r : AttributedConversion) : Prop := r.attributed = false ∧ r.path = .hot

instance (r : AttributedConversion) : Decidable (HotUnattributed r) := by
  unfold HotUnattributed
  exact inferInstance

/-- The candidates read back, when their reasons pass the check. -/
theorem lakeCandidates_eq_ok {day : Option Int} : lakeCandidates log day = .ok cands ↔
    (∀ r ∈ cands, checkCandidate r = .ok ()) ∧
      cands = (readCurrent log (day.map fun d => [d])).filter fun r => HotUnattributed r := by
  have hrows : ((readCurrent log (day.map fun d => [d])).filter fun r => !r.attributed ∧ r.path = .hot) =
      (readCurrent log (day.map fun d => [d])).filter fun r => HotUnattributed r := by
    apply List.filter_congr
    intro r _
    cases h : r.attributed <;> simp [HotUnattributed, h]
  unfold lakeCandidates
  rw [hrows, bind_eq_ok_iff]
  constructor
  · intro ⟨checks, hchecks, he⟩
    cases he
    refine ⟨fun r hr => ?_, rfl⟩
    obtain ⟨u, _, hu⟩ := exists_of_mapM_eq_ok hchecks hr
    exact hu
  · intro ⟨hchecks, he⟩
    subst he
    obtain ⟨checks, h⟩ := exists_mapM_eq_ok fun r hr => ⟨(), hchecks r hr⟩
    exact ⟨checks, h, rfl⟩

theorem mem_lakeCandidates (h : lakeCandidates log none = .ok cands) :
    r ∈ cands ↔ currentRow log r.conversionId = some r ∧ HotUnattributed r := by
  rw [(lakeCandidates_eq_ok.mp h).2, List.mem_filter, decide_eq_true_eq]
  exact and_congr_left fun _ => mem_readCurrent

theorem nodup_lakeCandidates {day : Option Int} (h : lakeCandidates log day = .ok cands) :
    (cands.map fun r => r.conversionId).Nodup := by
  rw [(lakeCandidates_eq_ok.mp h).2]
  exact (nodup_readCurrent log _).sublist (List.filter_sublist.map _)

variable (hs : SameDay log)
include hs

/-- A day's read is the whole read cut to the day. -/
theorem readCurrent_day (d : Int) :
    readCurrent log (some [d]) = (readCurrent log none).filter fun r => dayOf r.eventTime = d := by
  apply eq_of_strict_of_mem_iff _ (readCurrent_strict _ _) ((readCurrent_strict _ _).filter _)
  intro r
  rw [mem_readCurrent_days hs, List.mem_filter, mem_readCurrent, List.mem_singleton, decide_eq_true_eq]

/-- The candidates of one day are the lake's candidates on that day. -/
theorem lakeCandidates_day (h : lakeCandidates log none = .ok cands) (d : Int) :
    lakeCandidates log (some d) = .ok (cands.filter fun r => dayOf r.eventTime = d) := by
  obtain ⟨hchecks, hcands⟩ := lakeCandidates_eq_ok.mp h
  rw [lakeCandidates_eq_ok]
  refine ⟨fun r hr => hchecks r (List.mem_filter.mp hr).1, ?_⟩
  rw [Option.map_some, readCurrent_day hs, hcands]
  exact List.filter_comm _ _ _

theorem recoverDay_eq {lake : Lake} (hlog : lake.attributed = log)
    (hk : Keyed Exposure.exposureId lake.exposures) (h : lakeCandidates log none = .ok cands)
    (bucketOf : String → Nat) (day reconciledAt window : Int) :
    recoverDay bucketOf lake day reconciledAt window =
      .ok ((cands.filter fun r => dayOf r.eventTime = day).filterMap
        (correction lake.exposures window reconciledAt)) := by
  subst hlog
  have hday := lakeCandidates_day hs h day
  have hn := nodup_lakeCandidates hday
  have hgathers : ∀ r ∈ cands.filter fun r => dayOf r.eventTime = day, Gathers lake.exposures window r
      fun k => ((bucketExposures bucketOf lake.exposures
        (expandCandidates (cands.filter fun r => dayOf r.eventTime = day))
        (day * Time.day - window) (day * Time.day + Time.day)).get? k).getD [] := fun r hr =>
    gathers_bucketExposures hr (of_decide_eq_true (List.mem_filter.mp hr).2)
  rw [recoverDay, hday]
  exact reconcile_eq reconciledAt hn hk hgathers

end candidates
end CtvAttribution
