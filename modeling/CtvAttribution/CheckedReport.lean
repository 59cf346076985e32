import CtvAttribution.CampaignReport
import CtvAttribution.CheckedMoney
import Mathlib.Algebra.BigOperators.Ring.List

/-! The report in its currency: the naive query over the amounts of the tables, the optimised
one over the decimals the refresh has added up. -/
namespace CtvAttribution.Checked
open Library

/-- A row of the report, its amounts in the currency. -/
structure PricedReport where
  campaign : String
  spend : ℚ
  exposures : Nat
  conversions : Nat
  purchases : Nat
  revenue : ℚ
  roas : Option ℚ
  cpa : Option ℚ
  cvr : Option ℚ
  siteVisitRate : Option ℚ
  deriving DecidableEq

/-- A row whose amounts are counted in `scale`-th parts of the currency. -/
def priced (scale : Nat) (r : CampaignReport) : PricedReport :=
  { r with spend := r.spend / scale, revenue := r.revenue / scale, cpa := r.cpa.map (· / scale) }

/-- queries/report.sql, which adds the amounts as they are. -/
def reportQuery (unit : Nat) (exposures : List Exposure) (attributed : List AttributedConversion) : List PricedReport :=
  (CtvAttribution.reportQuery exposures attributed).map (priced (10000 * unit))

/-- queries/bench.sql, over sums of Decimal64(4). -/
def benchQuery (campaignHourly : List RollupRow) : List PricedReport :=
  (CtvAttribution.benchQuery campaignHourly).map (priced 10000)

/-- The amounts the report adds up have four decimals. -/
structure FourDecimals (unit : Nat) (exposures : List Exposure) (attributed : List AttributedConversion) : Prop where
  spends : ∀ e ∈ exposures, unit ∣ e.spend
  revenues : ∀ c ∈ credits exposures attributed, unit ∣ c.1.revenue

section report
variable {unit : Nat} {exposures : List Exposure} {attributed : List AttributedConversion}

private theorem sum_cut {α : Type} {f : α → Nat} {l : List α} (h : ∀ a ∈ l, unit ∣ f a) :
    (l.map f).sum = (l.map fun a => f a / unit).sum * unit := by
  rw [← List.sum_map_mul_right]
  congr 1
  exact List.map_congr_left fun a ha => (Nat.div_mul_cancel (h a ha)).symm

/-- Nothing is lost of four decimals. -/
theorem FourDecimals.servedTotals (h : FourDecimals unit exposures attributed) (campaign : String) :
    servedTotals exposures attributed campaign =
      let t := servedTotals (exposures.map (cutExposure unit)) (attributed.map (cutRow unit)) campaign
      { t with spend := t.spend * unit, revenue := t.revenue * unit } := by
  unfold CtvAttribution.servedTotals
  rw [credits_cut, List.filter_map, List.filter_map]
  dsimp only
  congr 1
  · rw [List.map_map]
    exact sum_cut fun e he => h.spends e (List.mem_filter.mp he).1
  · rw [List.length_map]
    rfl
  · rw [List.length_map]
    rfl
  · rw [List.filter_map, List.length_map]
    rfl
  · rw [List.filter_map, List.length_map]
    rfl
  · rw [List.map_map]
    exact sum_cut fun c hc => h.revenues c (List.mem_filter.mp hc).1

/-- The unit of the amounts does not show in the currency. -/
theorem priced_report (hunit : 0 < unit) (campaign : String) (t : CampaignTotals) :
    priced (10000 * unit) (CampaignTotals.report campaign { t with spend := t.spend * unit, revenue := t.revenue * unit }) =
      priced 10000 (t.report campaign) := by
  have hne : (unit : ℚ) ≠ 0 := Nat.cast_ne_zero.mpr hunit.ne'
  have hamount (m : Nat) : ((m * unit : Nat) : ℚ) / ((10000 * unit : Nat) : ℚ) = m / (10000 : Nat) := by
    rw [Nat.cast_mul, Nat.cast_mul, mul_div_mul_right _ _ hne]
  have hroas : ratio (t.revenue * unit) (t.spend * unit) = ratio t.revenue t.spend := by
    unfold ratio
    by_cases hs : t.spend = 0
    · rw [if_pos hs, hs, if_pos (Nat.zero_mul unit)]
    · rw [if_neg hs, if_neg (Nat.mul_ne_zero hs hunit.ne'), Nat.cast_mul, Nat.cast_mul, mul_div_mul_right _ _ hne]
  have hcpa : (ratio (t.spend * unit) t.purchases).map (· / ((10000 * unit : Nat) : ℚ)) =
      (ratio t.spend t.purchases).map (· / ((10000 : Nat) : ℚ)) := by
    unfold ratio
    by_cases hp : t.purchases = 0
    · rw [if_pos hp, if_pos hp]
      rfl
    · rw [if_neg hp, if_neg hp, Option.map_some, Option.map_some, div_right_comm, hamount, div_right_comm]
  simp only [priced, CampaignTotals.report, hamount, hroas, hcpa]

theorem FourDecimals.reportQuery (h : FourDecimals unit exposures attributed) (hunit : 0 < unit) :
    Checked.reportQuery unit exposures attributed =
      (CtvAttribution.reportQuery (exposures.map (cutExposure unit)) (attributed.map (cutRow unit))).map (priced 10000) := by
  have hcampaigns : (exposures.map (cutExposure unit)).map Exposure.campaignId = exposures.map Exposure.campaignId := by
    rw [List.map_map]
    rfl
  rw [Checked.reportQuery, reportQuery_eq, reportQuery_eq, hcampaigns, sortedBy_map, sortedBy_map, List.map_map,
    List.map_map]
  apply List.map_congr_left
  intro campaign _
  rw [Function.comp_apply, Function.comp_apply, h.servedTotals]
  exact priced_report hunit campaign _

/-- Over amounts of four decimals and a rollup that is the full rebuild, the optimised report
is the naive one. -/
theorem benchQuery_eq_reportQuery {s : Serving} (hunit : 0 < unit) (h : Rebuilt unit s)
    (hmoney : FourDecimals unit s.exposuresFinal s.attributedFinal) :
    benchQuery s.campaignHourlyFinal = Checked.reportQuery unit s.exposuresFinal s.attributedFinal := by
  obtain ⟨rows, hrows, hperm⟩ := h
  obtain ⟨_, rfl⟩ := refreshRows_eq_ok_iff.mp hrows
  rw [hmoney.reportQuery hunit, benchQuery, benchQuery_of_rebuild hperm]

end report

section sample

/-- A campaign that spent nothing and sold nothing, a credit to an exposure that is not landed,
and amounts shown with five decimals that need only four. -/
def sampleReported : Serving :=
  let exposures := [{ sampleExposure "e1" 0 0 with spend := 1234560 },
    { sampleExposure "e2" 0 0 with campaignId := "idle", spend := 0 }]
  let attributed := [lateRow, { lateRow with
    conversionId := "c2", exposureId := some "e9", revenue := 7, candidateCount_pos := Nat.one_pos }]
  { Serving.empty with
    exposuresLanded := exposures, attributedConversions := attributed
    campaignHourly := CtvAttribution.refreshRows none (exposures.map (cutExposure 10)) (attributed.map (cutRow 10)) }

theorem benchQuery_eq_reportQuery_sample :
    (reportQuery 10 sampleReported.exposuresFinal sampleReported.attributedFinal).map
        (fun row => (row.campaign, row.spend, row.cpa)) = [("cmp", 12.3456, some 12.3456), ("idle", 0, none)] ∧
    benchQuery sampleReported.campaignHourlyFinal =
      reportQuery 10 sampleReported.exposuresFinal sampleReported.attributedFinal := by
  have hrebuilt : Rebuilt 10 sampleReported :=
    ⟨_, refreshRows_eq_ok_iff.mpr ⟨⟨by decide +kernel, by decide +kernel⟩, rfl⟩, by decide +kernel⟩
  exact ⟨by decide +kernel, benchQuery_eq_reportQuery (by decide) hrebuilt ⟨by decide +kernel, by decide +kernel⟩⟩

/-- A campaign that spent 0.00005 for a revenue of 10. -/
def sampleFifthDecimal : Serving :=
  let exposures := [{ sampleExposure "e1" 0 0 with spend := 5 }]
  let attributed := [{ lateRow with revenue := 1000000, candidateCount_pos := Nat.one_pos }]
  { Serving.empty with
    exposuresLanded := exposures, attributedConversions := attributed
    campaignHourly := CtvAttribution.refreshRows none (exposures.map (cutExposure 10)) (attributed.map (cutRow 10)) }

/-- The fifth decimal is cut from the rollup only. -/
theorem benchQuery_ne_reportQuery : Rebuilt 10 sampleFifthDecimal ∧
    (reportQuery 10 sampleFifthDecimal.exposuresFinal sampleFifthDecimal.attributedFinal).map PricedReport.roas =
      [some 200000] ∧
    (benchQuery sampleFifthDecimal.campaignHourlyFinal).map PricedReport.roas = [none] :=
  ⟨⟨_, refreshRows_eq_ok_iff.mpr ⟨⟨by decide +kernel, by decide +kernel⟩, rfl⟩, by decide +kernel⟩,
    by decide +kernel, by decide +kernel⟩

end sample
end CtvAttribution.Checked
