import CtvAttribution.ReachableStates
import CtvAttribution.RollupKeys
import Mathlib.Algebra.Field.Rat
import Mathlib.Algebra.Order.Ring.Rat

/-! The report snapshots campaign by campaign, and the histories that write them: every pass
appends two reports of the tables its finalize found. -/
namespace CtvAttribution
open Library Script

/-- `order by (reported_at, campaign_id, period)`. -/
def ReportSnapshot.key (x : ReportSnapshot) : Int × String × String := (x.reportedAt, x.campaignId, x.period)

/-- report_snapshots FINAL. -/
def reportSnapshotsFinal (log : List ReportSnapshot) : List ReportSnapshot :=
  finalRows ReportSnapshot.key ReportSnapshot.snapshotVersion log

/-- What a report shows of a campaign. -/
structure Figures where
  spend : Money
  exposures : Nat
  revenue : Money
  conversions : Nat
  purchases : Nat
  siteVisits : Nat
  deriving DecidableEq, Repr

def Figures.row (f : Figures) (reportedAt : Int) (campaignId : String) (snapshotVersion : Int) : ReportSnapshot where
  reportedAt := reportedAt
  campaignId := campaignId
  period := "all"
  spend := f.spend
  revenue := f.revenue
  conversions := f.conversions
  purchases := f.purchases
  exposures := f.exposures
  roas := ratio f.revenue f.spend
  cpa := ratio f.spend f.purchases
  cvr := ratio f.conversions f.exposures
  siteVisitRate := ratio f.siteVisits f.exposures
  snapshotVersion := snapshotVersion

/-- A report of the tables; the pre report counts hot rows only. -/
structure Report where
  tables : Serving
  hotOnly : Bool

namespace Report
variable (r : Report)

def reportedAt : Int := r.tables.maxIngest + if r.hotOnly then 0 else reconcileDelta

def rows : List ReportSnapshot :=
  snapshotRows r.tables.exposuresFinal r.tables.attributedFinal r.reportedAt r.hotOnly

def campaigns : List String := r.tables.exposuresFinal.map Exposure.campaignId

def credited : List Credit :=
  credits r.tables.exposuresFinal (r.tables.attributedFinal.filter fun a => !r.hotOnly || a.path = .hot)

def exposuresOf (campaignId : String) : List Exposure :=
  r.tables.exposuresFinal.filter fun e => e.campaignId = campaignId

def creditsOf (campaignId : String) : List AttributedConversion :=
  (r.credited.filter fun c => c.2.campaignId = campaignId).map Prod.fst

/-- The rows that date the report: the credited ones, or all when none is credited. -/
def dating : List AttributedConversion :=
  if r.credited = [] then r.tables.attributedFinal else r.credited.map Prod.fst

/-- The newest `processed_at` of the rows that date the report. -/
def newest : Int := maxOf (r.dating.map fun a => a.processedAt)

def figures (campaignId : String) : Figures where
  spend := ((r.exposuresOf campaignId).map Exposure.spend).sum
  exposures := (r.exposuresOf campaignId).length
  revenue := ((r.creditsOf campaignId).map fun a => a.revenue).sum
  conversions := (r.creditsOf campaignId).length
  purchases := ((r.creditsOf campaignId).filter fun a => a.conversionType = .purchase).length
  siteVisits := ((r.creditsOf campaignId).filter fun a => a.conversionType = .siteVisit).length

/-- The row of a campaign. -/
def row (campaignId : String) : ReportSnapshot := (r.figures campaignId).row r.reportedAt campaignId r.newest

end Report

/-- The two reports of a finalize. -/
def passReports (s : Serving) : List Report := [⟨s, true⟩, ⟨s, false⟩]

section rows
variable {r : Report} {x : ReportSnapshot} {c : String}

private theorem Report.rows_eq (r : Report) : r.rows =
    sortedBy ReportSnapshot.campaignId ((firstSeen r.campaigns).map r.row) := by
  have hversion : (if r.credited = [] then maxOf (r.tables.attributedFinal.map fun a => a.processedAt)
      else maxOf (r.credited.map fun c => c.1.processedAt)) = r.newest := by
    unfold Report.newest Report.dating
    split
    · rfl
    · rw [List.map_map]
      rfl
  rw [Report.rows, snapshotRows, OrderedDict.entries_groupBy, List.map_map]
  apply congrArg fun row => sortedBy ReportSnapshot.campaignId ((firstSeen r.campaigns).map row)
  funext c
  rw [Report.row, ← hversion]
  rfl

/-- A report has one row for each campaign with exposures. -/
theorem Report.mem_rows : x ∈ r.rows ↔ ∃ c ∈ r.campaigns, x = r.row c := by
  rw [r.rows_eq, mem_sortedBy, List.mem_map]
  simp only [mem_firstSeen, eq_comm]

theorem Report.nodup_campaigns (r : Report) : (r.rows.map ReportSnapshot.campaignId).Nodup := by
  have hperm : (sortedBy ReportSnapshot.campaignId ((firstSeen r.campaigns).map r.row)).Perm
      ((firstSeen r.campaigns).map r.row) := sortedBy_perm _ _
  rw [r.rows_eq, (hperm.map _).nodup_iff, List.map_map]
  change ((firstSeen r.campaigns).map id).Nodup
  rw [List.map_id]
  exact nodup_firstSeen _

theorem Report.row_key (r : Report) (c : String) : (r.row c).key = (r.reportedAt, c, "all") := rfl

/-- Two campaigns with exposures show the same when their figures agree. -/
theorem Figures.row_inj {f g : Figures} {t v : Int} (hf : f.exposures ≠ 0) :
    f.row t c v = g.row t c v ↔ f = g := by
  constructor
  · intro h
    have hspend : f.spend = g.spend := congrArg ReportSnapshot.spend h
    have hexposures : f.exposures = g.exposures := congrArg ReportSnapshot.exposures h
    have hrevenue : f.revenue = g.revenue := congrArg ReportSnapshot.revenue h
    have hconversions : f.conversions = g.conversions := congrArg ReportSnapshot.conversions h
    have hpurchases : f.purchases = g.purchases := congrArg ReportSnapshot.purchases h
    have hrate : ratio f.siteVisits f.exposures = ratio g.siteVisits g.exposures :=
      congrArg ReportSnapshot.siteVisitRate h
    have hvisits : f.siteVisits = g.siteVisits := by
      rw [← hexposures, ratio, ratio, if_neg hf, if_neg hf, Option.some_inj,
        div_left_inj' (Nat.cast_ne_zero.mpr hf)] at hrate
      exact Nat.cast_injective hrate
    cases f
    cases g
    simp_all
  · intro h
    rw [h]

theorem Report.exposures_ne_zero (hc : c ∈ r.campaigns) : (r.figures c).exposures ≠ 0 := by
  obtain ⟨e, he, hec⟩ := List.mem_map.mp hc
  have hmem : e ∈ r.exposuresOf c := List.mem_filter.mpr ⟨he, by simpa using hec⟩
  exact (List.length_pos_of_mem hmem).ne'

/-- A finalize appends its two reports. -/
theorem reportSnapshots_afterFinalize (s : Serving) :
    s.afterFinalize.reportSnapshots = s.reportSnapshots ++ (passReports s).flatMap Report.rows := by
  change (s.reportSnapshots ++ snapshotRows s.exposuresFinal s.attributedFinal (s.maxIngest + 0) true) ++
    snapshotRows s.exposuresFinal s.attributedFinal (s.maxIngest + reconcileDelta) false = _
  rw [List.append_assoc]
  simp [passReports, Report.rows, Report.reportedAt]

end rows

/-- The tables a finalize found, once it has written: only the history is longer. -/
def found (before after : Serving) : Serving := { after with reportSnapshots := before.reportSnapshots }

/-- Runs of landings, loads, passes and replays, with the tables each finalize found. Only a
pass has to complete. -/
inductive ReportRun (bucketOf : String → Nat) (meets : List Serving → Serving → Prop) : List Serving → System → Prop where
  | start : ReportRun bucketOf meets [] ⟨Lake.empty, Serving.empty⟩
  | engine {passes : List Serving} {σ σ' : System} {run : EngineRun} {profile : String} :
      ReportRun bucketOf meets passes σ → (engineMain run profile).Leaves σ σ' → ReportRun bucketOf meets passes σ'
  | load {passes : List Serving} {σ σ' : System} {days : List Int} :
      ReportRun bucketOf meets passes σ → (materializeLoad days).Leaves σ σ' → ReportRun bucketOf meets passes σ'
  | replay {passes : List Serving} {σ σ' : System} {days : List Int} :
      ReportRun bucketOf meets passes σ → (truncateAndReload days).Leaves σ σ' → ReportRun bucketOf meets passes σ'
  | pass {passes : List Serving} {σ σ' : System} {d : Driver} :
      ReportRun bucketOf meets passes σ → (d.script bucketOf).Ends σ () σ' →
      meets passes (found σ.serving σ'.serving) → ReportRun bucketOf meets (passes ++ [found σ.serving σ'.serving]) σ'

section runs
variable {bucketOf : String → Nat} {meets : List Serving → Serving → Prop} {passes : List Serving}
  {σ σ' : System} {days : List Int}

theorem reportSnapshots_of_leaves_materializeLoad (h : (materializeLoad days).Leaves σ σ') :
    σ'.serving.reportSnapshots = σ.serving.reportSnapshots := by
  have hkeep : (materializeLoad days).Keeps
      (Over σ.lake fun s => s.reportSnapshots = σ.serving.reportSnapshots) :=
    keeps_frame_materializeLoad (fun _ _ _ hsame hs => hsame.trans hs) days
  exact (hkeep σ σ' ⟨rfl, rfl⟩ h).serving

private theorem reportSnapshots_afterLoad (s : Serving) (lake : Lake) (hknown : ∀ d ∈ days, dayPartitions d = true) :
    (s.afterLoad lake days).reportSnapshots = s.reportSnapshots := by
  have hload : (materializeLoad days).Ends ⟨lake, s⟩ () ⟨lake, s.afterLoad lake days⟩ :=
    ends_materializeLoad.mpr ⟨hknown, rfl⟩
  exact reportSnapshots_of_leaves_materializeLoad hload.leaves

theorem reportSnapshots_of_leaves_engineMain {run : EngineRun} {profile : String}
    (h : (engineMain run profile).Leaves σ σ') : σ'.serving.reportSnapshots = σ.serving.reportSnapshots := by
  have hland {τ : System} (hτ : (landRun run).Leaves σ τ) : τ.serving = σ.serving := by
    rcases leaves_landRun hτ with rfl | rfl | rfl <;> rfl
  rcases leaves_bind' h with h₁ | ⟨_, m, hm, h₁⟩
  · rw [hland h₁]
  rw [← hland hm.leaves]
  rcases leaves_bind' h₁ with h₂ | ⟨_, n, hn, h₂⟩
  · exact reportSnapshots_of_leaves_materializeLoad h₂
  rw [← reportSnapshots_of_leaves_materializeLoad hn.leaves]
  obtain ⟨s, hs, rfl⟩ := leaves_onServing h₂
  rcases leaves_modify.mp hs with rfl | rfl <;> rfl

/-- The restatement history outlives a replay. -/
theorem reportSnapshots_of_leaves_truncateAndReload (h : (truncateAndReload days).Leaves σ σ') :
    σ'.serving.reportSnapshots = σ.serving.reportSnapshots := by
  have htruncate : (Script.forEach servingTables fun table =>
      onServing (Script.modify fun s => truncate s table)).Keeps
        fun τ : System => τ.serving.reportSnapshots = σ.serving.reportSnapshots := by
    refine keeps_forEach fun table _ => keeps_modify fun τ hτ => ?_
    cases table <;> exact hτ
  rw [truncateAndReload_eq] at h
  split at h
  · rw [leaves_fail.mp h]
  rcases leaves_bind' h with h₁ | ⟨_, m, hm, h₁⟩
  · exact htruncate σ σ' rfl h₁
  · rw [reportSnapshots_of_leaves_materializeLoad h₁]
    exact htruncate σ m rfl hm.leaves

/-- A completed pass ends in a finalize. -/
theorem exists_afterFinalize {d : Driver} (h : (d.script bucketOf).Ends σ () σ') :
    ∃ s : Serving, s.reportSnapshots = σ.serving.reportSnapshots ∧ σ'.serving = s.afterFinalize := by
  cases d with
  | run =>
    obtain ⟨_, rows, _, _, hknown, he⟩ := ends_reconcileRun.mp h
    rw [he]
    exact ⟨_, reportSnapshots_afterLoad _ _ hknown, rfl⟩
  | backfill partition =>
    obtain ⟨_, rowss, lake, _, _, hknown, he⟩ := ends_runReconcile.mp h
    rw [he]
    exact ⟨_, reportSnapshots_afterLoad _ _ hknown, rfl⟩

/-- A pass leaves what a finalize makes of the tables it found. -/
theorem afterFinalize_of_ends {d : Driver} (h : (d.script bucketOf).Ends σ () σ') :
    σ'.serving = (found σ.serving σ'.serving).afterFinalize := by
  obtain ⟨s, hlog, hfinal⟩ := exists_afterFinalize h
  rw [hfinal, found, ← hlog]
  rfl

/-- The history is what the passes reported, in order. -/
theorem ReportRun.reportSnapshots (h : ReportRun bucketOf meets passes σ) :
    σ.serving.reportSnapshots = (passes.flatMap passReports).flatMap Report.rows := by
  induction h with
  | start => rfl
  | engine _ hl ih => rw [reportSnapshots_of_leaves_engineMain hl, ih]
  | load _ hl ih => rw [reportSnapshots_of_leaves_materializeLoad hl, ih]
  | replay _ hl ih => rw [reportSnapshots_of_leaves_truncateAndReload hl, ih]
  | pass _ hpass _ ih =>
    rw [afterFinalize_of_ends hpass, reportSnapshots_afterFinalize, List.flatMap_append, List.flatMap_append,
      ← ih, List.flatMap_singleton]
    rfl

end runs
end CtvAttribution
