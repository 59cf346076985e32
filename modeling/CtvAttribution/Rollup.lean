import CtvAttribution.Lake
import Mathlib.Algebra.GroupWithZero.Nat
import Mathlib.Data.Rat.Defs

/-! The hourly rollup and the report snapshot as functions of the FINAL rows they read.
Sums of money stay the exact decimals the queries add up. -/
namespace CtvAttribution
open Library

/-- `max` of a timestamp column; over no rows it is the epoch. -/
def maxOf (times : List Int) : Int := (times.argmax id).getD 0

theorem maxOf_mem_or (times : List Int) : maxOf times ∈ times ∨ (times = [] ∧ maxOf times = 0) := by
  cases h : times.argmax id with
  | none =>
    have hnil := List.argmax_eq_none.mp h
    exact Or.inr ⟨hnil, by rw [maxOf, h]; rfl⟩
  | some m =>
    left
    rw [maxOf, h]
    exact List.argmax_mem h

theorem lt_maxOf_iff {times : List Int} {t : Int} : t < maxOf times ↔ (∃ x ∈ times, t < x) ∨ (times = [] ∧ t < 0) := by
  constructor
  · intro h
    rcases maxOf_mem_or times with hm | ⟨hnil, hz⟩
    · exact Or.inl ⟨_, hm, h⟩
    · exact Or.inr ⟨hnil, hz ▸ h⟩
  · intro h
    rcases h with ⟨x, hx, hlt⟩ | ⟨hnil, hlt⟩
    · obtain ⟨m, hm⟩ := Option.isSome_iff_exists.mp
        ((argmax_isSome_iff (f := id)).mpr (List.ne_nil_of_mem hx))
      have hle : x ≤ m := List.le_of_mem_argmax hx hm
      rw [maxOf, hm]
      exact hlt.trans_le hle
    · rw [hnil]
      exact hlt

theorem maxOf_congr {l l' : List Int} (h : ∀ t, t ∈ l ↔ t ∈ l') : maxOf l = maxOf l' := by
  have hnil : l = [] ↔ l' = [] := by simp only [List.eq_nil_iff_forall_not_mem, h]
  apply eq_of_forall_lt_iff
  intro t
  rw [lt_maxOf_iff, lt_maxOf_iff, hnil]
  simp only [h]

theorem le_maxOf {l : List Int} {t : Int} (h : t ∈ l) : t ≤ maxOf l := by
  by_contra hlt
  exact lt_irrefl (maxOf l) (lt_maxOf_iff.mpr (.inl ⟨t, h, not_le.mp hlt⟩))

def toStartOfHour (t : Int) : Int := t / Time.hour * Time.hour

abbrev RollupKey := String × Int

/-- A row of rollup_dirty or rollup_refreshed. -/
structure RollupStamp where
  campaignId : String
  hour : Int
  version : Int
  deriving DecidableEq, Repr

def RollupStamp.key (s : RollupStamp) : RollupKey := (s.campaignId, s.hour)

/-- A row of campaign_hourly. -/
structure RollupRow where
  campaignId : String
  hour : Int
  spend : Money
  exposures : Nat
  attributedConversions : Nat
  purchases : Nat
  siteVisits : Nat
  revenue : Money
  reportedAt : Int
  deriving DecidableEq, Repr

def RollupRow.key (r : RollupRow) : RollupKey := (r.campaignId, r.hour)

/-- A row of the union the refresh aggregates. -/
structure Contribution where
  campaignId : String
  hour : Int
  spend : Money
  isExposure : Nat
  isConversion : Nat
  isPurchase : Nat
  isSiteVisit : Nat
  rev : Money
  stamp : Int
  deriving DecidableEq, Repr

def Contribution.key (c : Contribution) : RollupKey := (c.campaignId, c.hour)

/-- The rollup key of an exposure. -/
def rollupKey (e : Exposure) : RollupKey := (e.campaignId, toStartOfHour e.eventTime)

def exposureContribution (e : Exposure) : Contribution where
  campaignId := e.campaignId
  hour := toStartOfHour e.eventTime
  spend := e.spend
  isExposure := 1
  isConversion := 0
  isPurchase := 0
  isSiteVisit := 0
  rev := 0
  stamp := e.ingestTime

/-- A credit: an attributed row joined to the exposure it names. -/
abbrev Credit := AttributedConversion × Exposure

def creditContribution (c : Credit) : Contribution where
  campaignId := c.2.campaignId
  hour := toStartOfHour c.2.eventTime
  spend := 0
  isExposure := 0
  isConversion := 1
  isPurchase := if c.1.conversionType = .purchase then 1 else 0
  isSiteVisit := if c.1.conversionType = .siteVisit then 1 else 0
  rev := c.1.revenue
  stamp := c.1.processedAt

/-- `attributed_conversions as a inner join e on a.exposure_id = e.exposure_id where
a.attributed = 1`. -/
def credits (exposures : List Exposure) (attributed : List AttributedConversion) : List Credit :=
  (attributed.filter fun a => a.attributed).flatMap fun a =>
    (exposures.filter fun e => a.exposureId = some e.exposureId).map fun e => (a, e)

def contributions (exposures : List Exposure) (attributed : List AttributedConversion) : List Contribution :=
  exposures.map exposureContribution ++ (credits exposures attributed).map creditContribution

/-- The row of one (campaign_id, hour) group. -/
def rollupRow (key : RollupKey) (rows : List Contribution) : RollupRow where
  campaignId := key.1
  hour := key.2
  spend := (rows.map Contribution.spend).sum
  exposures := (rows.map Contribution.isExposure).sum
  attributedConversions := (rows.map Contribution.isConversion).sum
  purchases := (rows.map Contribution.isPurchase).sum
  siteVisits := (rows.map Contribution.isSiteVisit).sum
  revenue := (rows.map Contribution.rev).sum
  reportedAt := maxOf (rows.map Contribution.stamp)

/-- `group by campaign_id, hour`. -/
def aggregate (rows : List Contribution) : List RollupRow :=
  (OrderedDict.groupBy Contribution.key rows).entries.map fun (key, group) => rollupRow key group

/-- The exposures a refresh reads: with `_DIRTY_FILTER` only those of the given keys. -/
def dirtyExposures (keys : Option (List RollupKey)) (exposures : List Exposure) : List Exposure :=
  match keys with
  | none => exposures
  | some ks => exposures.filter fun e => rollupKey e ∈ ks

/-- `refresh_sql`: the whole table, or only the exposures of the given keys and the
credits to them. -/
def refreshRows (keys : Option (List RollupKey)) (exposures : List Exposure)
    (attributed : List AttributedConversion) : List RollupRow :=
  aggregate (contributions (dirtyExposures keys exposures) attributed)

/-- A row of report_snapshots. -/
structure ReportSnapshot where
  reportedAt : Int
  campaignId : String
  period : String
  spend : Money
  revenue : Money
  conversions : Nat
  purchases : Nat
  exposures : Nat
  roas : Option ℚ
  cpa : Option ℚ
  cvr : Option ℚ
  siteVisitRate : Option ℚ
  snapshotVersion : Int
  deriving DecidableEq

/-- `n / nullIf(d, 0)`. -/
def ratio (n d : Nat) : Option ℚ := if d = 0 then none else some (n / d)

/-- `_WRITE_REPORT_SNAPSHOT` over the FINAL rows; `hotOnly` is its path filter. -/
def snapshotRows (exposures : List Exposure) (attributed : List AttributedConversion) (reportedAt : Int)
    (hotOnly : Bool) : List ReportSnapshot :=
  let credited := credits exposures (attributed.filter fun a => !hotOnly || a.path = .hot)
  let snapshotVersion :=
    if credited = [] then maxOf (attributed.map fun a => a.processedAt)
    else maxOf (credited.map fun c => c.1.processedAt)
  sortedBy ReportSnapshot.campaignId <|
    (OrderedDict.groupBy Exposure.campaignId exposures).entries.map fun (campaignId, es) =>
      let conv := (credited.filter fun c => c.2.campaignId = campaignId).map Prod.fst
      let spend := (es.map Exposure.spend).sum
      let revenue := (conv.map fun a => a.revenue).sum
      let purchases := (conv.filter fun a => a.conversionType = .purchase).length
      let siteVisits := (conv.filter fun a => a.conversionType = .siteVisit).length
      { reportedAt, campaignId, period := "all", spend, revenue, conversions := conv.length, purchases
        exposures := es.length, roas := ratio revenue spend, cpa := ratio spend purchases
        cvr := ratio conv.length es.length, siteVisitRate := ratio siteVisits es.length, snapshotVersion }

end CtvAttribution
