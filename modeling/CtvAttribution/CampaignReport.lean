import CtvAttribution.HotAgreement
import CtvAttribution.RollupKeys
import Mathlib.Algebra.BigOperators.Group.List.Basic
import Mathlib.Algebra.Field.Rat

/-! The advertiser report, from the serving tables and from the hourly rollup. -/
namespace CtvAttribution
open Library

/-- A row of the report. -/
structure CampaignReport where
  campaign : String
  spend : Money
  exposures : Nat
  conversions : Nat
  purchases : Nat
  revenue : Money
  roas : Option ℚ
  cpa : Option ℚ
  cvr : Option ℚ
  siteVisitRate : Option ℚ
  deriving DecidableEq

/-- What a campaign adds up to. -/
structure CampaignTotals where
  spend : Money
  exposures : Nat
  conversions : Nat
  purchases : Nat
  siteVisits : Nat
  revenue : Money
  deriving DecidableEq

/-- The outer select: components first, then the guarded ratios. -/
def CampaignTotals.report (campaign : String) (t : CampaignTotals) : CampaignReport where
  campaign := campaign
  spend := t.spend
  exposures := t.exposures
  conversions := t.conversions
  purchases := t.purchases
  revenue := t.revenue
  roas := ratio t.revenue t.spend
  cpa := ratio t.spend t.purchases
  cvr := ratio t.conversions t.exposures
  siteVisitRate := ratio t.siteVisits t.exposures

/-- A row of `spend_by_campaign`. -/
structure SpendTotals where
  spend : Money
  exposures : Nat

/-- A row of `conv_by_campaign`. -/
structure ConvTotals where
  conversions : Nat
  purchases : Nat
  siteVisits : Nat
  revenue : Money

section queries
variable (exposures : List Exposure) (attributed : List AttributedConversion)

def spendByCampaign : OrderedDict String SpendTotals :=
  (OrderedDict.groupBy Exposure.campaignId exposures).mapValues fun es =>
    ⟨(es.map Exposure.spend).sum, es.length⟩

def convByCampaign : OrderedDict String ConvTotals :=
  (OrderedDict.groupBy (fun c : Credit => c.2.campaignId) (credits exposures attributed)).mapValues fun cs =>
    { conversions := cs.length
      purchases := (cs.filter fun c => c.1.conversionType = .purchase).length
      siteVisits := (cs.filter fun c => c.1.conversionType = .siteVisit).length
      revenue := (cs.map fun c => c.1.revenue).sum }

/-- queries/report.sql over the FINAL rows: spend left join credits, absent credits as 0. -/
def reportQuery : List CampaignReport :=
  sortedBy CampaignReport.campaign <| (spendByCampaign exposures).entries.map fun (campaign, s) =>
    let c := ((convByCampaign exposures attributed).get? campaign).getD ⟨0, 0, 0, 0⟩
    CampaignTotals.report campaign ⟨s.spend, s.exposures, c.conversions, c.purchases, c.siteVisits, c.revenue⟩

/-- The rollup CTE. -/
def rollupTotals (rows : List RollupRow) : CampaignTotals where
  spend := (rows.map RollupRow.spend).sum
  exposures := (rows.map RollupRow.exposures).sum
  conversions := (rows.map RollupRow.attributedConversions).sum
  purchases := (rows.map RollupRow.purchases).sum
  siteVisits := (rows.map RollupRow.siteVisits).sum
  revenue := (rows.map RollupRow.revenue).sum

/-- queries/bench.sql over campaign_hourly FINAL. -/
def benchQuery (campaignHourly : List RollupRow) : List CampaignReport :=
  sortedBy CampaignReport.campaign <|
    ((OrderedDict.groupBy RollupRow.campaignId campaignHourly).mapValues rollupTotals).entries.map
      fun (campaign, t) => t.report campaign

end queries

section totals
variable {exposures : List Exposure} {attributed : List AttributedConversion} {campaignHourly : List RollupRow}
  {campaign : String}

/-- The totals of a campaign over the serving tables. -/
def servedTotals (exposures : List Exposure) (attributed : List AttributedConversion) (campaign : String) :
    CampaignTotals :=
  let es := exposures.filter (·.campaignId = campaign)
  let cs := (credits exposures attributed).filter (·.2.campaignId = campaign)
  { spend := (es.map Exposure.spend).sum
    exposures := es.length
    conversions := cs.length
    purchases := (cs.filter fun c => c.1.conversionType = .purchase).length
    siteVisits := (cs.filter fun c => c.1.conversionType = .siteVisit).length
    revenue := (cs.map fun c => c.1.revenue).sum }

/-- The naive report, campaign by campaign. -/
theorem reportQuery_eq : reportQuery exposures attributed = sortedBy CampaignReport.campaign
    ((firstSeen (exposures.map Exposure.campaignId)).map fun c => (servedTotals exposures attributed c).report c) := by
  have hconv (c : String) : ((convByCampaign exposures attributed).get? c).getD ⟨0, 0, 0, 0⟩ =
      { conversions := (servedTotals exposures attributed c).conversions
        purchases := (servedTotals exposures attributed c).purchases
        siteVisits := (servedTotals exposures attributed c).siteVisits
        revenue := (servedTotals exposures attributed c).revenue } :=
    OrderedDict.getD_mapValues_groupBy _ _ rfl c
  rw [reportQuery, spendByCampaign, OrderedDict.entries_mapValues_groupBy, List.map_map]
  simp only [Function.comp_def, hconv]
  rfl

/-- The optimised report, campaign by campaign. -/
theorem benchQuery_eq : benchQuery campaignHourly = sortedBy CampaignReport.campaign
    ((firstSeen (campaignHourly.map RollupRow.campaignId)).map fun c =>
      (rollupTotals (campaignHourly.filter (·.campaignId = c))).report c) := by
  rw [benchQuery, OrderedDict.entries_mapValues_groupBy, List.map_map]
  rfl

/-- What the groups add up to is what their rows add up to. -/
theorem sum_aggregate {f : RollupRow → Nat} {g : Contribution → Nat}
    (h : ∀ k rows, f (rollupRow k rows) = (rows.map g).sum) (rows : List Contribution) :
    ((aggregate rows).map f).sum = (rows.map g).sum := by
  have hgroups : (aggregate rows).map f =
      (OrderedDict.groupBy Contribution.key rows).values.map fun group => (group.map g).sum := by
    rw [aggregate, OrderedDict.values, List.map_map, List.map_map]
    apply List.map_congr_left
    intro entry _
    exact h entry.1 entry.2
  calc ((aggregate rows).map f).sum
      = (((OrderedDict.groupBy Contribution.key rows).values.map fun group => group.map g).map List.sum).sum := by
        rw [hgroups, List.map_map]
        rfl
    _ = ((OrderedDict.groupBy Contribution.key rows).values.flatten.map g).sum := by
        rw [← List.sum_flatten, List.map_flatten]
    _ = (rows.map g).sum :=
        ((OrderedDict.flatten_values_groupBy_perm Contribution.key rows).map g).sum_nat

/-- The rebuilt rows of a campaign add up to its contributions. -/
theorem sum_rebuilt {f : RollupRow → Nat} {g : Contribution → Nat}
    (h : ∀ k rows, f (rollupRow k rows) = (rows.map g).sum) :
    (((refreshRows none exposures attributed).filter (·.campaignId = campaign)).map f).sum =
      ((exposures.filter (·.campaignId = campaign)).map fun e => g (exposureContribution e)).sum +
        (((credits exposures attributed).filter (·.2.campaignId = campaign)).map fun c => g (creditContribution c)).sum := by
  have hrows : (contributions exposures attributed).filter (fun c => decide (c.key.1 = campaign)) =
      (exposures.filter (·.campaignId = campaign)).map exposureContribution ++
        ((credits exposures attributed).filter (·.2.campaignId = campaign)).map creditContribution := by
    rw [contributions, List.filter_append, List.filter_map, List.filter_map]
    rfl
  have hcut := aggregate_filter (fun k => decide (k.1 = campaign)) (contributions exposures attributed)
  change (((aggregate (contributions exposures attributed)).filter fun row => decide (row.key.1 = campaign)).map f).sum = _
  rw [← hcut, sum_aggregate h, hrows, List.map_append, List.sum_append, List.map_map, List.map_map]
  rfl

private theorem sum_indicator {α : Type} (p : α → Prop) [DecidablePred p] (l : List α) :
    (l.map fun a => if p a then 1 else 0).sum = (l.filter p).length := by
  have hcount := List.countP_flatMap (p := fun a => decide (p a)) (l := l) (f := fun a => [a])
  rw [List.flatMap_singleton', List.countP_eq_length_filter] at hcount
  rw [hcount]
  simp [Function.comp_def, List.countP_singleton]

/-- The rebuilt rollup has the totals of the serving tables. -/
theorem rollupTotals_rebuilt : rollupTotals ((refreshRows none exposures attributed).filter (·.campaignId = campaign)) =
    servedTotals exposures attributed campaign := by
  unfold rollupTotals servedTotals
  congr 1
  · exact (sum_rebuilt (g := Contribution.spend) fun _ _ => rfl).trans (by
      simp only [exposureContribution, creditContribution, List.map_const', List.sum_replicate_nat, Nat.mul_zero, Nat.add_zero])
  · exact (sum_rebuilt (g := Contribution.isExposure) fun _ _ => rfl).trans (by
      simp only [exposureContribution, creditContribution, List.map_const', List.sum_replicate_nat, Nat.mul_zero, Nat.mul_one, Nat.add_zero])
  · exact (sum_rebuilt (g := Contribution.isConversion) fun _ _ => rfl).trans (by
      simp only [exposureContribution, creditContribution, List.map_const', List.sum_replicate_nat, Nat.mul_zero, Nat.mul_one, Nat.zero_add])
  · exact (sum_rebuilt (g := Contribution.isPurchase) fun _ _ => rfl).trans (by
      simp only [exposureContribution, creditContribution, List.map_const', List.sum_replicate_nat, Nat.mul_zero, sum_indicator, Nat.zero_add])
  · exact (sum_rebuilt (g := Contribution.isSiteVisit) fun _ _ => rfl).trans (by
      simp only [exposureContribution, creditContribution, List.map_const', List.sum_replicate_nat, Nat.mul_zero, sum_indicator, Nat.zero_add])
  · exact (sum_rebuilt (g := Contribution.rev) fun _ _ => rfl).trans (by
      simp only [exposureContribution, creditContribution, List.map_const', List.sum_replicate_nat, Nat.mul_zero, Nat.zero_add])

/-- Totals look at the measures of the rows, in any order. -/
theorem rollupTotals_of_measures {rows rows' : List RollupRow}
    (h : (rows.map RollupRow.measures).Perm (rows'.map RollupRow.measures)) : rollupTotals rows = rollupTotals rows' := by
  have hsum (f : RollupRow → Nat) (hf : ∀ r, f r.measures = f r) : (rows.map f).sum = (rows'.map f).sum := by
    have hmap (l : List RollupRow) : (l.map RollupRow.measures).map f = l.map f := by
      rw [List.map_map]
      exact List.map_congr_left fun r _ => hf r
    rw [← hmap rows, ← hmap rows']
    exact (h.map f).sum_nat
  unfold rollupTotals
  congr 1 <;> exact hsum _ fun _ => rfl

private theorem filter_measures (l : List RollupRow) : (l.filter (·.campaignId = campaign)).map RollupRow.measures =
    (l.map RollupRow.measures).filter (·.campaignId = campaign) := by
  rw [List.filter_map]
  rfl

/-- The rows are those of the full rebuild. -/
def Rebuild (campaignHourly : List RollupRow) (exposures : List Exposure) (attributed : List AttributedConversion) : Prop :=
  (campaignHourly.map RollupRow.measures).Perm ((refreshRows none exposures attributed).map RollupRow.measures)

/-- A rebuilt rollup knows the campaigns that have exposures. -/
theorem Rebuild.mem_campaigns (h : Rebuild campaignHourly exposures attributed) :
    campaign ∈ campaignHourly.map RollupRow.campaignId ↔ campaign ∈ exposures.map Exposure.campaignId := by
  have hmeasures (l : List RollupRow) : l.map RollupRow.campaignId = (l.map RollupRow.measures).map RollupRow.campaignId := by
    rw [List.map_map]
    rfl
  rw [hmeasures, (h.map _).mem_iff, ← hmeasures, List.mem_map, List.mem_map]
  constructor
  · intro hrow
    obtain ⟨row, hrow, rfl⟩ := hrow
    have hgroup : keyGroup exposures attributed row.key ≠ [] := by
      intro hnil
      have hr := mem_refreshRows_none.mp hrow
      rw [rebuiltRow, if_pos hnil] at hr
      cases hr
    obtain ⟨e, he, hk⟩ := keyGroup_ne_nil.mp hgroup
    exact ⟨e, he, congrArg Prod.fst hk⟩
  · intro hexposure
    obtain ⟨e, he, rfl⟩ := hexposure
    have hgroup : keyGroup exposures attributed (rollupKey e) ≠ [] := keyGroup_ne_nil.mpr ⟨e, he, rfl⟩
    exact ⟨rollupRow (rollupKey e) (keyGroup exposures attributed (rollupKey e)),
      mem_refreshRows_none.mpr (if_neg hgroup), rfl⟩

/-- A rebuilt rollup has each campaign's totals. -/
theorem Rebuild.rollupTotals (h : Rebuild campaignHourly exposures attributed) (campaign : String) :
    rollupTotals (campaignHourly.filter (·.campaignId = campaign)) = servedTotals exposures attributed campaign := by
  rw [← rollupTotals_rebuilt]
  apply rollupTotals_of_measures
  rw [filter_measures, filter_measures]
  exact h.filter _

/-- Over a rollup that is the full rebuild, the optimised report is the naive one. -/
theorem benchQuery_of_rebuild (h : Rebuild campaignHourly exposures attributed) :
    benchQuery campaignHourly = reportQuery exposures attributed := by
  have hstrict (campaigns : List String) (totals : String → CampaignTotals) :
      (sortedBy CampaignReport.campaign ((firstSeen campaigns).map fun c => (totals c).report c)).Pairwise
        fun a b => a.campaign < b.campaign := by
    apply sortedBy_strict
    rw [List.map_map]
    change ((firstSeen campaigns).map id).Nodup
    rw [List.map_id]
    exact nodup_firstSeen campaigns
  rw [benchQuery_eq, reportQuery_eq]
  apply eq_of_strict_of_mem_iff CampaignReport.campaign (hstrict _ _) (hstrict _ _)
  intro row
  simp only [mem_sortedBy, List.mem_map (f := fun c => CampaignTotals.report c _), mem_firstSeen, h.mem_campaigns,
    h.rollupTotals]

end totals
end CtvAttribution
