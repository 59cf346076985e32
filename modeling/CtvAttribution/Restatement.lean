import CtvAttribution.Generator
import CtvAttribution.SnapshotTwins
import Mathlib.Algebra.Order.BigOperators.Group.List
import Mathlib.Data.List.Flatten

/-! The restatement query over the history of reports, against the two reports of the latest
pass. -/
namespace CtvAttribution
open Library Script

/-- `round(x, digits)`. -/
def roundTo (digits : Nat) (x : ℚ) : ℚ := roundHalfEven (x * 10 ^ digits) / 10 ^ digits

section group
variable {β : Type} (f : ReportSnapshot → Option β) (rows : List ReportSnapshot)

/-- `argMin(f, reported_at)` skips the rows where `f` is NULL. -/
def argMinReported : Option β :=
  ((rows.filter fun x => (f x).isSome).argmin ReportSnapshot.reportedAt).bind f

/-- `argMax(f, reported_at)`. -/
def argMaxReported : Option β :=
  ((rows.filter fun x => (f x).isSome).argmax ReportSnapshot.reportedAt).bind f

end group

/-- `argMax(roas, reported_at) - argMin(roas, reported_at)`. -/
def roasChange (rows : List ReportSnapshot) : Option ℚ := do
  return (← argMaxReported ReportSnapshot.roas rows) - (← argMinReported ReportSnapshot.roas rows)

/-- A row of queries/restatement.sql. -/
structure RestatementRow where
  campaignId : String
  roasAsReported : Option ℚ
  roasNow : Option ℚ
  roasDelta : Option ℚ
  conversionsAsReported : Nat
  conversionsNow : Nat
  revenueDelta : ℚ
  deriving DecidableEq

/-- The columns that are never NULL. -/
def firstReported (f : ReportSnapshot → Nat) (rows : List ReportSnapshot) : Nat :=
  (argMinReported (fun x => some (f x)) rows).getD 0

def lastReported (f : ReportSnapshot → Nat) (rows : List ReportSnapshot) : Nat :=
  (argMaxReported (fun x => some (f x)) rows).getD 0

def restatementRow (campaignId : String) (rows : List ReportSnapshot) : RestatementRow where
  campaignId := campaignId
  roasAsReported := argMinReported ReportSnapshot.roas rows
  roasNow := argMaxReported ReportSnapshot.roas rows
  roasDelta := (roasChange rows).map (roundTo 4)
  conversionsAsReported := firstReported ReportSnapshot.conversions rows
  conversionsNow := lastReported ReportSnapshot.conversions rows
  revenueDelta := roundTo 2 ((lastReported ReportSnapshot.revenue rows - firstReported ReportSnapshot.revenue rows) / 10000)

/-- `report_snapshots final group by campaign_id, period`. -/
def restatementGroups (log : List ReportSnapshot) : List ((String × String) × List ReportSnapshot) :=
  (OrderedDict.groupBy (fun x : ReportSnapshot => (x.campaignId, x.period)) (reportSnapshotsFinal log)).entries

/-- queries/restatement.sql. -/
def restatement (log : List ReportSnapshot) : List RestatementRow :=
  sortedBy RestatementRow.campaignId ((restatementGroups log).map fun (key, rows) => restatementRow key.1 rows)

/-- `max` of some magnitudes; `coalesce(.., 0)`. -/
def largest (deltas : List ℚ) : ℚ := ((deltas.map abs).argmax id).getD 0

/-- `_restatement_abs_delta`. -/
def restatementAbsDelta (log : List ReportSnapshot) : ℚ :=
  largest ((restatementGroups log).filterMap fun (_, rows) => roasChange rows)

/-- The ROAS of the post report less that of the pre report, for a campaign with spend. -/
def passChange (s : Serving) (campaignId : String) : Option ℚ := do
  return (← ((⟨s, false⟩ : Report).row campaignId).roas) - (← ((⟨s, true⟩ : Report).row campaignId).roas)

/-- The campaigns a pass reports on. -/
def reportedCampaigns (s : Serving) : List String := s.exposuresFinal.map Exposure.campaignId

def spendOf (s : Serving) (campaignId : String) : Money :=
  ((s.exposuresFinal.filter fun e => e.campaignId = campaignId).map Exposure.spend).sum

/-- The restatement says of the history what the pass over the tables `s` changed. -/
structure DescribesPass (s : Serving) (log : List ReportSnapshot) : Prop where
  reported : ∀ c ∈ reportedCampaigns s, ∃ row ∈ restatement log, row.campaignId = c
  roas : ∀ row ∈ restatement log, spendOf s row.campaignId ≠ 0 →
    ∃ delta, passChange s row.campaignId = some delta ∧ row.roasDelta = some (roundTo 4 delta)
  magnitude : restatementAbsDelta log = largest ((reportedCampaigns s).filterMap (passChange s))
  risen : ∀ row ∈ restatement log, row.conversionsAsReported ≤ row.conversionsNow ∧ 0 ≤ row.revenueDelta
  revenue : ∀ group ∈ restatementGroups log,
    firstReported ReportSnapshot.revenue group.2 ≤ lastReported ReportSnapshot.revenue group.2

/-- `x` is the earliest report of its campaign that `f` is shown in. -/
def Earliest {β : Type} (f : ReportSnapshot → Option β) (final : List ReportSnapshot) (x : ReportSnapshot) : Prop :=
  x ∈ final ∧ (f x).isSome ∧
    ∀ y ∈ final, y.campaignId = x.campaignId → (f y).isSome → x.reportedAt ≤ y.reportedAt

/-- The tables a finalize finds agree with the history it appends to: what the restatement
compares with is what this pass reports. -/
structure Restatable (s : Serving) : Prop where
  covered : ∀ x ∈ reportSnapshotsFinal s.reportSnapshots, x.campaignId ∈ reportedCampaigns s
  latest : ∀ x ∈ reportSnapshotsFinal s.reportSnapshots, x.reportedAt ≤ s.maxIngest + reconcileDelta
  dated : ∀ x ∈ reportSnapshotsFinal s.reportSnapshots, ∀ r ∈ passReports s, x.reportedAt = r.reportedAt →
    x.snapshotVersion ≤ r.newest
  spends : ∀ x ∈ reportSnapshotsFinal s.reportSnapshots, x.roas.isSome → spendOf s x.campaignId ≠ 0
  hotRoas : ∀ x, Earliest ReportSnapshot.roas (reportSnapshotsFinal s.reportSnapshots) x → x.reportedAt < s.maxIngest →
    x.roas = ratio ((⟨s, true⟩ : Report).figures x.campaignId).revenue (spendOf s x.campaignId)
  below : ∀ x, Earliest (fun x => some x) (reportSnapshotsFinal s.reportSnapshots) x → x.reportedAt < s.maxIngest →
    x.conversions ≤ ((⟨s, false⟩ : Report).figures x.campaignId).conversions ∧
      x.revenue ≤ ((⟨s, false⟩ : Report).figures x.campaignId).revenue

/-- The tables of a finalize against those of an earlier one. The reports of then are covered,
none at a report time of now is dated later, and at an older max ingest a campaign had the
exposures and hot credits it has now. -/
structure Serving.Continues (s t : Serving) : Prop where
  ingest : s.maxIngest ≤ t.maxIngest
  covered : ∀ c ∈ reportedCampaigns s, c ∈ reportedCampaigns t
  spends : ∀ c ∈ reportedCampaigns s, spendOf s c ≠ 0 → spendOf t c ≠ 0
  stamped : ∀ a ∈ t.attributedFinal, 0 ≤ a.processedAt
  dated : ∀ r ∈ passReports s, ∀ r' ∈ passReports t, r.reportedAt = r'.reportedAt →
    ∀ a ∈ r.dating, ∃ b ∈ r'.dating, a.processedAt ≤ b.processedAt
  unmoved : s.maxIngest < t.maxIngest → ∀ c ∈ reportedCampaigns s, Report.SameData ⟨s, true⟩ ⟨t, true⟩ c

section figures
variable {s : Serving} {c : String}

private theorem pre_lt_post (s : Serving) : Report.reportedAt ⟨s, true⟩ < Report.reportedAt ⟨s, false⟩ := by
  have hdelta : 0 < reconcileDelta := by decide
  rw [reportedAt_pre, reportedAt_post]
  omega

private theorem roas_isSome_iff (r : Report) : (r.row c).roas.isSome ↔ spendOf r.tables c ≠ 0 := by
  change (ratio _ (spendOf r.tables c)).isSome ↔ _
  unfold ratio
  split
  · rename_i h
    simp [h]
  · rename_i h
    simp [h]

/-- The hot credits are among the credits. -/
theorem creditsOf_sublist (s : Serving) (c : String) :
    ((⟨s, true⟩ : Report).creditsOf c).Sublist ((⟨s, false⟩ : Report).creditsOf c) := by
  have hrows : (s.attributedFinal.filter fun a => !true || decide (a.path = .hot)).Sublist
      (s.attributedFinal.filter fun a => !false || decide (a.path = .hot)) :=
    List.monotone_filter_right _ fun a _ => rfl
  exact (((hrows.filter _).flatMap _).filter _).map _

private theorem conversions_le (s : Serving) (c : String) :
    ((⟨s, true⟩ : Report).row c).conversions ≤ ((⟨s, false⟩ : Report).row c).conversions :=
  (creditsOf_sublist s c).length_le

private theorem revenue_le (s : Serving) (c : String) :
    ((⟨s, true⟩ : Report).row c).revenue ≤ ((⟨s, false⟩ : Report).row c).revenue :=
  ((creditsOf_sublist s c).map _).sum_le_sum fun _ _ => Nat.zero_le _

private theorem roundTo_nonneg {digits : Nat} {x : ℚ} (h : 0 ≤ x) : 0 ≤ roundTo digits x := by
  have hscaled : 0 ≤ x * 10 ^ digits := mul_nonneg h (by positivity)
  have hfloor : 0 ≤ ⌊x * 10 ^ digits⌋ := Int.floor_nonneg.mpr hscaled
  have hround : 0 ≤ roundHalfEven (x * 10 ^ digits) := by
    unfold roundHalfEven
    dsimp only
    split_ifs <;> omega
  exact div_nonneg (Int.cast_nonneg hround) (by positivity)

end figures

section final
variable {s : Serving} {x : ReportSnapshot} {c : String}

private theorem nodup_key_passReports (s : Serving) :
    (((passReports s).flatMap Report.rows).map ReportSnapshot.key).Nodup := by
  rw [List.Nodup, List.pairwise_map, List.pairwise_flatMap]
  constructor
  · intro r _
    have hne : r.rows.Pairwise fun x y => x.campaignId ≠ y.campaignId := List.pairwise_map.mp r.nodup_campaigns
    exact hne.imp fun hxy hkey => hxy (congrArg (fun k => k.2.1) hkey)
  · refine List.pairwise_pair.mpr fun x hx y hy hkey => ?_
    obtain ⟨_, _, rfl⟩ := Report.mem_rows.mp hx
    obtain ⟨_, _, rfl⟩ := Report.mem_rows.mp hy
    exact (pre_lt_post s).ne (congrArg Prod.fst hkey)

private theorem mem_passRows : x ∈ (passReports s).flatMap Report.rows ↔
    ∃ r ∈ passReports s, ∃ c ∈ reportedCampaigns s, x = r.row c := by
  rw [List.mem_flatMap]
  refine exists_congr fun r => and_congr_right fun hr => ?_
  have htables : r.campaigns = reportedCampaigns s := by
    rcases List.mem_pair.mp hr with rfl | rfl <;> rfl
  rw [Report.mem_rows, htables]

/-- After its finalize the history shows the pass's own rows, and of the others those of other
report times. -/
theorem Restatable.mem_final (h : Restatable s) (hall : ∀ x ∈ s.reportSnapshots, x.period = "all") :
    x ∈ reportSnapshotsFinal s.afterFinalize.reportSnapshots ↔
      x ∈ (passReports s).flatMap Report.rows ∨
        x ∈ reportSnapshotsFinal s.reportSnapshots ∧ ∀ r ∈ passReports s, x.reportedAt ≠ r.reportedAt := by
  have hown {n : ReportSnapshot} (hn : n ∈ (passReports s).flatMap Report.rows) :
      n ∈ reportSnapshotsFinal s.afterFinalize.reportSnapshots := by
    obtain ⟨r, hr, c, _, rfl⟩ := mem_passRows.mp hn
    rw [reportSnapshotsFinal, mem_finalRows, reportSnapshots_afterFinalize]
    refine finalRow_append_of_le (finalRow_of_nodup (nodup_key_passReports s) hn) fun y hy hkey => ?_
    obtain ⟨z, hz⟩ := exists_finalRow ReportSnapshot.key ReportSnapshot.snapshotVersion hy
    obtain ⟨_, hzk, hmax⟩ := finalRow_eq_some hz
    have hfinal : z ∈ reportSnapshotsFinal s.reportSnapshots := mem_finalRows.mpr (hzk ▸ hz)
    exact (hmax y hy rfl).trans (h.dated z hfinal r hr (congrArg Prod.fst (hzk.trans hkey)))
  have hother (hkey : ∀ n ∈ (passReports s).flatMap Report.rows, n.key ≠ x.key) :
      x ∈ reportSnapshotsFinal s.afterFinalize.reportSnapshots ↔ x ∈ reportSnapshotsFinal s.reportSnapshots := by
    rw [reportSnapshotsFinal, mem_finalRows, reportSnapshots_afterFinalize, finalRow_append_of_not_mem hkey,
      ← mem_finalRows]
    rfl
  constructor
  · intro hx
    by_cases hkey : ∃ n ∈ (passReports s).flatMap Report.rows, n.key = x.key
    · obtain ⟨n, hn, hkey⟩ := hkey
      have hnodup : ((reportSnapshotsFinal s.afterFinalize.reportSnapshots).map ReportSnapshot.key).Nodup :=
        nodup_key_finalRows _
      exact .inl (keyed_of_nodup hnodup n (hown hn) x hx hkey ▸ hn)
    · have hold := (hother fun n hn he => hkey ⟨n, hn, he⟩).mp hx
      refine .inr ⟨hold, fun r hr htime => hkey ⟨r.row x.campaignId, ?_, ?_⟩⟩
      · exact mem_passRows.mpr ⟨r, hr, _, h.covered x hold, rfl⟩
      · have hperiod := hall x (finalRow_eq_some (mem_finalRows.mp hold)).1
        rw [Report.row_key, ← htime, ← hperiod]
        rfl
  · intro hx
    rcases hx with hx | hx
    · exact hown hx
    · refine (hother fun n hn hkey => ?_).mpr hx.1
      obtain ⟨r, hr, c, _, rfl⟩ := mem_passRows.mp hn
      exact hx.2 r hr (congrArg Prod.fst hkey).symm

end final

/-- The current rows of a campaign. -/
def campaignRows (log : List ReportSnapshot) (campaignId : String) : List ReportSnapshot :=
  (reportSnapshotsFinal log).filter fun x => (x.campaignId, x.period) = (campaignId, "all")

section groups
variable {s : Serving} {x : ReportSnapshot} {c : String} {β : Type} {f : ReportSnapshot → Option β}

private theorem Restatable.mem_campaignRows (h : Restatable s) (hall : ∀ x ∈ s.reportSnapshots, x.period = "all")
    (hc : c ∈ reportedCampaigns s) : x ∈ campaignRows s.afterFinalize.reportSnapshots c ↔
      (∃ r ∈ passReports s, x = r.row c) ∨
        x ∈ reportSnapshotsFinal s.reportSnapshots ∧ x.campaignId = c ∧ ∀ r ∈ passReports s, x.reportedAt ≠ r.reportedAt := by
  rw [campaignRows, List.mem_filter, h.mem_final hall, mem_passRows, decide_eq_true_eq, Prod.mk.injEq]
  constructor
  · intro hx
    obtain ⟨⟨r, hr, c', _, rfl⟩ | ⟨hx, htime⟩, hcampaign, _⟩ := hx
    · obtain rfl : c' = c := hcampaign
      exact .inl ⟨r, hr, rfl⟩
    · exact .inr ⟨hx, hcampaign, htime⟩
  · intro hx
    obtain ⟨r, hr, rfl⟩ | ⟨hx, hcampaign, htime⟩ := hx
    · exact ⟨.inl ⟨r, hr, c, hc, rfl⟩, rfl, rfl⟩
    · exact ⟨.inr ⟨hx, htime⟩, hcampaign, hall x (finalRow_eq_some (mem_finalRows.mp hx)).1⟩

/-- One group for each campaign with exposures. -/
theorem Restatable.mem_restatementGroups (h : Restatable s) (hall : ∀ x ∈ s.reportSnapshots, x.period = "all")
    {group : (String × String) × List ReportSnapshot} : group ∈ restatementGroups s.afterFinalize.reportSnapshots ↔
      ∃ c ∈ reportedCampaigns s, group = ((c, "all"), campaignRows s.afterFinalize.reportSnapshots c) := by
  rw [restatementGroups, OrderedDict.entries_groupBy, List.mem_map]
  constructor
  · intro hg
    obtain ⟨key, hkey, rfl⟩ := hg
    obtain ⟨x, hx, rfl⟩ := List.mem_map.mp (mem_firstSeen.mp hkey)
    rcases (h.mem_final hall).mp hx with hown | ⟨hold, _⟩
    · obtain ⟨r, _, c, hc, rfl⟩ := mem_passRows.mp hown
      exact ⟨c, hc, rfl⟩
    · have hperiod := hall x (finalRow_eq_some (mem_finalRows.mp hold)).1
      refine ⟨x.campaignId, h.covered x hold, ?_⟩
      rw [hperiod]
      rfl
  · intro hg
    obtain ⟨c, hc, rfl⟩ := hg
    have hown : (⟨s, true⟩ : Report).row c ∈ reportSnapshotsFinal s.afterFinalize.reportSnapshots :=
      (h.mem_final hall).mpr (.inl (mem_passRows.mpr ⟨_, List.mem_cons_self, c, hc, rfl⟩))
    exact ⟨(c, "all"), mem_firstSeen.mpr (List.mem_map.mpr ⟨_, hown, rfl⟩), rfl⟩

/-- The row `argMin` reads is the pass's pre row, or an older one that was the earliest before. -/
theorem Restatable.argMin_eq (h : Restatable s) (hall : ∀ x ∈ s.reportSnapshots, x.period = "all")
    (hc : c ∈ reportedCampaigns s) (hf : (f ((⟨s, true⟩ : Report).row c)).isSome) :
    ∃ a, argMinReported f (campaignRows s.afterFinalize.reportSnapshots c) = f a ∧ a.campaignId = c ∧
      (a = (⟨s, true⟩ : Report).row c ∨
        Earliest f (reportSnapshotsFinal s.reportSnapshots) a ∧ a.reportedAt < s.maxIngest) := by
  have hpre : (⟨s, true⟩ : Report).row c ∈
      (campaignRows s.afterFinalize.reportSnapshots c).filter fun x => (f x).isSome :=
    List.mem_filter.mpr ⟨(h.mem_campaignRows hall hc).mpr (.inl ⟨_, List.mem_cons_self, rfl⟩), hf⟩
  cases ha : ((campaignRows s.afterFinalize.reportSnapshots c).filter fun x => (f x).isSome).argmin
      ReportSnapshot.reportedAt with
  | none =>
    rw [List.argmin_eq_none.mp ha] at hpre
    cases hpre
  | some a =>
    have hmin {y : ReportSnapshot} (hy : y ∈ campaignRows s.afterFinalize.reportSnapshots c) (hs : (f y).isSome) :
        a.reportedAt ≤ y.reportedAt := List.le_of_mem_argmin (List.mem_filter.mpr ⟨hy, hs⟩) ha
    have hle : a.reportedAt ≤ Report.reportedAt ⟨s, true⟩ := List.le_of_mem_argmin hpre ha
    obtain ⟨hmem, hsome⟩ := List.mem_filter.mp (List.argmin_mem ha)
    refine ⟨a, by rw [argMinReported, ha]; rfl, ?_⟩
    rcases (h.mem_campaignRows hall hc).mp hmem with ⟨r, hr, rfl⟩ | ⟨hold, hcampaign, htime⟩
    · rcases List.mem_pair.mp hr with rfl | rfl
      · exact ⟨rfl, .inl rfl⟩
      · exact absurd hle (not_le.mpr (pre_lt_post s))
    · have hlt : a.reportedAt < s.maxIngest := by
        have hne := htime ⟨s, true⟩ List.mem_cons_self
        rw [reportedAt_pre] at hle hne
        omega
      refine ⟨hcampaign, .inr ⟨⟨hold, hsome, fun y hy hyc hys => ?_⟩, hlt⟩⟩
      by_cases hown : ∀ r ∈ passReports s, y.reportedAt ≠ r.reportedAt
      · exact hmin ((h.mem_campaignRows hall hc).mpr (.inr ⟨hy, hyc.trans hcampaign, hown⟩)) hys
      · have hpost := pre_lt_post s
        simp only [passReports, List.mem_cons, List.not_mem_nil, or_false, forall_eq_or_imp, forall_eq, not_and_or,
          not_not] at hown
        rw [reportedAt_pre] at hpost hown
        omega

/-- The row `argMax` reads is the pass's post row. -/
theorem Restatable.argMax_eq (h : Restatable s) (hall : ∀ x ∈ s.reportSnapshots, x.period = "all")
    (hc : c ∈ reportedCampaigns s) (hf : (f ((⟨s, false⟩ : Report).row c)).isSome) :
    argMaxReported f (campaignRows s.afterFinalize.reportSnapshots c) = f ((⟨s, false⟩ : Report).row c) := by
  have hin : (⟨s, false⟩ : Report) ∈ passReports s := List.mem_cons_of_mem _ List.mem_cons_self
  have hpost : (⟨s, false⟩ : Report).row c ∈
      (campaignRows s.afterFinalize.reportSnapshots c).filter fun x => (f x).isSome :=
    List.mem_filter.mpr ⟨(h.mem_campaignRows hall hc).mpr (.inl ⟨_, hin, rfl⟩), hf⟩
  cases ha : ((campaignRows s.afterFinalize.reportSnapshots c).filter fun x => (f x).isSome).argmax
      ReportSnapshot.reportedAt with
  | none =>
    rw [List.argmax_eq_none.mp ha] at hpost
    cases hpost
  | some a =>
    have hle : Report.reportedAt ⟨s, false⟩ ≤ a.reportedAt := List.le_of_mem_argmax hpost ha
    rw [argMaxReported, ha]
    obtain ⟨hmem, _⟩ := List.mem_filter.mp (List.argmax_mem ha)
    rcases (h.mem_campaignRows hall hc).mp hmem with ⟨r, hr, rfl⟩ | ⟨hold, _, htime⟩
    · rcases List.mem_pair.mp hr with rfl | rfl
      · exact absurd hle (not_le.mpr (pre_lt_post s))
      · rfl
    · have hne := htime _ hin
      have hlatest := h.latest a hold
      rw [reportedAt_post] at hle hne
      omega

/-- The ROAS of a campaign changed by what the pass changed. -/
theorem Restatable.roasChange_eq (h : Restatable s) (hall : ∀ x ∈ s.reportSnapshots, x.period = "all")
    (hc : c ∈ reportedCampaigns s) :
    roasChange (campaignRows s.afterFinalize.reportSnapshots c) = passChange s c := by
  by_cases hspend : spendOf s c = 0
  · have hnone (x : ReportSnapshot) (hx : x ∈ campaignRows s.afterFinalize.reportSnapshots c) : ¬ x.roas.isSome := by
      rcases (h.mem_campaignRows hall hc).mp hx with ⟨r, hr, rfl⟩ | ⟨hold, hcampaign, _⟩
      · have htables : r.tables = s := by rcases List.mem_pair.mp hr with rfl | rfl <;> rfl
        rw [roas_isSome_iff, htables]
        exact not_not.mpr hspend
      · exact fun hsome => h.spends x hold hsome (hcampaign ▸ hspend)
    have hnil : (campaignRows s.afterFinalize.reportSnapshots c).filter (fun x => x.roas.isSome) = [] :=
      List.filter_eq_nil_iff.mpr hnone
    have hpost : ((⟨s, false⟩ : Report).row c).roas = none := by
      rw [← Option.not_isSome_iff_eq_none, roas_isSome_iff]
      exact not_not.mpr hspend
    rw [roasChange, passChange, argMaxReported, hnil, hpost]
    rfl
  · obtain ⟨a, hfirst, hcampaign, ha⟩ :=
      h.argMin_eq (f := ReportSnapshot.roas) hall hc ((roas_isSome_iff ⟨s, true⟩).mpr hspend)
    have hpre : a.roas = ((⟨s, true⟩ : Report).row c).roas := by
      rcases ha with rfl | ⟨hearliest, hlt⟩
      · rfl
      · rw [h.hotRoas a hearliest hlt, hcampaign]
        rfl
    have hlast := h.argMax_eq (f := ReportSnapshot.roas) hall hc ((roas_isSome_iff ⟨s, false⟩).mpr hspend)
    rw [roasChange, passChange, hfirst, hlast, hpre]

/-- What a campaign was first reported with is not above what the post report shows. -/
theorem Restatable.firstReported_le (h : Restatable s) (hall : ∀ x ∈ s.reportSnapshots, x.period = "all")
    (hc : c ∈ reportedCampaigns s) {g : ReportSnapshot → Nat}
    (hpass : g ((⟨s, true⟩ : Report).row c) ≤ g ((⟨s, false⟩ : Report).row c))
    (hbelow : ∀ x, Earliest (fun x => some x) (reportSnapshotsFinal s.reportSnapshots) x → x.reportedAt < s.maxIngest →
      g x ≤ g ((⟨s, false⟩ : Report).row x.campaignId)) :
    firstReported g (campaignRows s.afterFinalize.reportSnapshots c) ≤
      lastReported g (campaignRows s.afterFinalize.reportSnapshots c) := by
  obtain ⟨a, hfirst, hcampaign, ha⟩ := h.argMin_eq (f := fun x => some (g x)) hall hc rfl
  have hlast := h.argMax_eq (f := fun x => some (g x)) hall hc rfl
  rw [firstReported, lastReported, hfirst, hlast, Option.getD_some, Option.getD_some]
  rcases ha with rfl | ⟨⟨hmem, _, hmin⟩, hlt⟩
  · exact hpass
  · rw [← hcampaign]
    exact hbelow a ⟨hmem, rfl, fun y hy hyc _ => hmin y hy hyc rfl⟩ hlt

private theorem mem_restatement {log : List ReportSnapshot} {row : RestatementRow} : row ∈ restatement log ↔
    ∃ group ∈ restatementGroups log, restatementRow group.1.1 group.2 = row := by
  rw [restatement, mem_sortedBy, List.mem_map]

private theorem largest_congr {l l' : List ℚ} (h : ∀ x, x ∈ l ↔ x ∈ l') : largest l = largest l' := by
  unfold largest
  have hmem (x : ℚ) : x ∈ l.map abs ↔ x ∈ l'.map abs := by simp only [List.mem_map, h]
  rw [argmax_congr (f := id) (fun _ _ _ _ he => he) hmem]

/-- After the finalize of restatable tables the restatement describes that pass. -/
theorem Restatable.describes (h : Restatable s) (hall : ∀ x ∈ s.reportSnapshots, x.period = "all") :
    DescribesPass s s.afterFinalize.reportSnapshots where
  reported c hc := by
    refine ⟨_, mem_restatement.mpr ⟨_, (h.mem_restatementGroups hall).mpr ⟨c, hc, rfl⟩, rfl⟩, rfl⟩
  roas row hrow hspend := by
    obtain ⟨_, hg, rfl⟩ := mem_restatement.mp hrow
    obtain ⟨c, hc, rfl⟩ := (h.mem_restatementGroups hall).mp hg
    change spendOf s c ≠ 0 at hspend
    change ∃ delta, passChange s c = some delta ∧ (roasChange _).map (roundTo 4) = _
    rw [h.roasChange_eq hall hc]
    obtain ⟨now, hnow⟩ := Option.isSome_iff_exists.mp ((roas_isSome_iff ⟨s, false⟩).mpr hspend)
    obtain ⟨before, hbefore⟩ := Option.isSome_iff_exists.mp ((roas_isSome_iff ⟨s, true⟩).mpr hspend)
    have hchange : passChange s c = some (now - before) := by
      rw [passChange, hnow, hbefore]
      rfl
    exact ⟨_, hchange, by rw [hchange]; rfl⟩
  magnitude := by
    apply largest_congr
    intro x
    simp only [List.mem_filterMap, h.mem_restatementGroups hall]
    constructor
    · intro hx
      obtain ⟨_, ⟨c, hc, rfl⟩, hx⟩ := hx
      exact ⟨c, hc, by rw [← h.roasChange_eq hall hc]; exact hx⟩
    · intro hx
      obtain ⟨c, hc, hx⟩ := hx
      exact ⟨_, ⟨c, hc, rfl⟩, by rw [h.roasChange_eq hall hc]; exact hx⟩
  risen row hrow := by
    obtain ⟨_, hg, rfl⟩ := mem_restatement.mp hrow
    obtain ⟨c, hc, rfl⟩ := (h.mem_restatementGroups hall).mp hg
    refine ⟨h.firstReported_le hall hc (conversions_le s c) fun x hx hlt => (h.below x hx hlt).1, roundTo_nonneg ?_⟩
    have hrevenue := h.firstReported_le hall hc (revenue_le s c) fun x hx hlt => (h.below x hx hlt).2
    have hcast := Nat.cast_le (α := ℚ).mpr hrevenue
    exact div_nonneg (sub_nonneg.mpr hcast) (by norm_num)
  revenue group hg := by
    obtain ⟨c, hc, rfl⟩ := (h.mem_restatementGroups hall).mp hg
    exact h.firstReported_le hall hc (revenue_le s c) fun x hx hlt => (h.below x hx hlt).2

end groups

section continued
variable {passes : List Serving} {t : Serving} {x : ReportSnapshot} {β : Type} {f : ReportSnapshot → Option β}

private theorem tables_of_mem_passReports {s : Serving} {r : Report} (h : r ∈ passReports s) : r.tables = s := by
  rcases List.mem_pair.mp h with rfl | rfl <;> rfl

private theorem le_reportedAt {s : Serving} {r : Report} (h : r ∈ passReports s) : s.maxIngest ≤ r.reportedAt := by
  have hdelta : 0 < reconcileDelta := by decide
  rcases List.mem_pair.mp h with rfl | rfl
  · exact (reportedAt_pre s).ge
  · rw [reportedAt_post]
    omega

/-- No report at a report time of now was dated later. -/
theorem Serving.Continues.newest_le {s : Serving} (h : s.Continues t) {r r' : Report} (hr : r ∈ passReports s)
    (hr' : r' ∈ passReports t) (htime : r.reportedAt = r'.reportedAt) : r.newest ≤ r'.newest := by
  rcases maxOf_mem_or (r.dating.map fun a => a.processedAt) with hm | ⟨_, hz⟩
  · obtain ⟨a, ha, hat⟩ := List.mem_map.mp hm
    obtain ⟨b, hb, hle⟩ := h.dated r hr r' hr' htime a ha
    rw [Report.newest, ← hat]
    exact hle.trans (le_maxOf (List.mem_map_of_mem hb))
  · rw [Report.newest, hz]
    rcases maxOf_mem_or (r'.dating.map fun b => b.processedAt) with hm' | ⟨_, hz'⟩
    · obtain ⟨b, hb, hbt⟩ := List.mem_map.mp hm'
      rw [Report.newest, ← hbt]
      exact h.stamped b (tables_of_mem_passReports hr' ▸ Report.mem_attributedFinal_of_dating hb)
    · rw [Report.newest, hz']

/-- The history before a finalize: every row is one of an earlier pass's. -/
theorem mem_history (hlog : t.reportSnapshots = (passes.flatMap passReports).flatMap Report.rows) :
    x ∈ t.reportSnapshots ↔ ∃ s ∈ passes, ∃ r ∈ passReports s, ∃ c ∈ reportedCampaigns s, x = r.row c := by
  rw [hlog, List.flatMap_assoc, List.mem_flatMap]
  simp only [mem_passRows]

/-- The earliest report of a campaign is a pre report. -/
theorem Earliest.pre (hlog : t.reportSnapshots = (passes.flatMap passReports).flatMap Report.rows)
    (hx : Earliest f (reportSnapshotsFinal t.reportSnapshots) x) (hlt : x.reportedAt < t.maxIngest)
    (hf : ∀ s ∈ passes, s.maxIngest < t.maxIngest → ∀ r ∈ passReports s, x.campaignId ∈ reportedCampaigns s →
      (f (r.row x.campaignId)).isSome) :
    ∃ s ∈ passes, s.maxIngest < t.maxIngest ∧ x.campaignId ∈ reportedCampaigns s ∧
      x = (⟨s, true⟩ : Report).row x.campaignId := by
  obtain ⟨hfinal, _, hmin⟩ := hx
  obtain ⟨s, hs, r, hr, c, hc, rfl⟩ := (mem_history hlog).mp (finalRow_eq_some (mem_finalRows.mp hfinal)).1
  have hlt' : s.maxIngest < t.maxIngest := (le_reportedAt hr).trans_lt hlt
  rcases List.mem_pair.mp hr with rfl | rfl
  · exact ⟨s, hs, hlt', hc, rfl⟩
  · exfalso
    -- the pre report of the same pass is in the history, under its own report time
    have hpre : (⟨s, true⟩ : Report).row c ∈ t.reportSnapshots :=
      (mem_history hlog).mpr ⟨s, hs, _, List.mem_cons_self, c, hc, rfl⟩
    obtain ⟨z, hz⟩ := exists_finalRow ReportSnapshot.key ReportSnapshot.snapshotVersion hpre
    obtain ⟨hmem, hkey, _⟩ := finalRow_eq_some hz
    obtain ⟨u, hu, q, hq, d, hd, rfl⟩ := (mem_history hlog).mp hmem
    have hqfinal : q.row d ∈ reportSnapshotsFinal t.reportSnapshots := mem_finalRows.mpr (hkey ▸ hz)
    have htime : q.reportedAt = Report.reportedAt ⟨s, true⟩ := congrArg Prod.fst hkey
    obtain rfl : d = c := congrArg (fun k => k.2.1) hkey
    have hlast : u.maxIngest < t.maxIngest := by
      have hle := le_reportedAt hq
      rw [htime, reportedAt_pre] at hle
      exact hle.trans_lt hlt'
    have hle : Report.reportedAt ⟨s, false⟩ ≤ q.reportedAt := hmin _ hqfinal rfl (hf u hu hlast q hq hd)
    exact absurd (hle.trans_eq htime) (not_le.mpr (pre_lt_post s))

/-- Tables that continue those of every earlier pass agree with the history. -/
theorem restatable_of_continues (hlog : t.reportSnapshots = (passes.flatMap passReports).flatMap Report.rows)
    (h : ∀ s ∈ passes, s.Continues t) : Restatable t := by
  have hold {y : ReportSnapshot} (hy : y ∈ reportSnapshotsFinal t.reportSnapshots) :
      ∃ s ∈ passes, ∃ r ∈ passReports s, ∃ c ∈ reportedCampaigns s, y = r.row c :=
    (mem_history hlog).mp (finalRow_eq_some (mem_finalRows.mp hy)).1
  have hspend {s : Serving} (hs : s ∈ passes) (hlt : s.maxIngest < t.maxIngest) {c : String}
      (hc : c ∈ reportedCampaigns s) : spendOf s c = spendOf t c :=
    congrArg Figures.spend ((h s hs).unmoved hlt c hc).figures
  constructor
  · intro y hy
    obtain ⟨s, hs, r, _, c, hc, rfl⟩ := hold hy
    exact (h s hs).covered c hc
  · intro y hy
    obtain ⟨s, hs, r, hr, c, hc, rfl⟩ := hold hy
    have hle := (h s hs).ingest
    have hdelta : 0 < reconcileDelta := by decide
    change r.reportedAt ≤ _
    rcases List.mem_pair.mp hr with rfl | rfl
    · rw [reportedAt_pre]
      omega
    · rw [reportedAt_post]
      omega
  · intro y hy r' hr' htime
    obtain ⟨s, hs, r, hr, c, hc, rfl⟩ := hold hy
    exact (h s hs).newest_le hr hr' htime
  · intro y hy hroas
    obtain ⟨s, hs, r, hr, c, hc, rfl⟩ := hold hy
    exact (h s hs).spends c hc (tables_of_mem_passReports hr ▸ (roas_isSome_iff r).mp hroas)
  · intro y hy hlt
    have hnow : spendOf t y.campaignId ≠ 0 := by
      obtain ⟨s, hs, r, hr, c, hc, rfl⟩ := hold hy.1
      exact (h s hs).spends c hc (tables_of_mem_passReports hr ▸ (roas_isSome_iff r).mp hy.2.1)
    obtain ⟨s, hs, hlt', hc, hrow⟩ := hy.pre hlog hlt fun s hs hlt' r hr hc =>
      (roas_isSome_iff r).mpr (tables_of_mem_passReports hr ▸ hspend hs hlt' hc ▸ hnow)
    have hsame := ((h s hs).unmoved hlt' _ hc).figures
    rw [hrow]
    change ratio ((⟨s, true⟩ : Report).figures _).revenue ((⟨s, true⟩ : Report).figures _).spend = _
    rw [hsame]
    rfl
  · intro y hy hlt
    obtain ⟨s, hs, hlt', hc, hrow⟩ := hy.pre hlog hlt fun _ _ _ _ _ _ => rfl
    have hsame := ((h s hs).unmoved hlt' _ hc).figures
    rw [hrow]
    change ((⟨s, true⟩ : Report).figures _).conversions ≤ _ ∧ ((⟨s, true⟩ : Report).figures _).revenue ≤ _
    rw [hsame]
    exact ⟨conversions_le t _, revenue_le t _⟩

end continued

section runs
variable {bucketOf : String → Nat} {passes : List Serving} {σ : System} {s : Serving}

theorem ReportRun.period {meets : List Serving → Serving → Prop} (h : ReportRun bucketOf meets passes σ) :
    ∀ x ∈ σ.serving.reportSnapshots, x.period = "all" := by
  intro x hx
  rw [h.reportSnapshots] at hx
  obtain ⟨r, _, hx⟩ := List.mem_flatMap.mp hx
  obtain ⟨c, _, rfl⟩ := Report.mem_rows.mp hx
  rfl

/-- In a run whose passes find tables that continue those before the restatement describes the
latest pass, from its finalize until the next. -/
theorem restatement_describesLatest (h : ReportRun bucketOf (fun passes t => ∀ s ∈ passes, s.Continues t) passes σ) :
    ∀ s, passes.getLast? = some s → DescribesPass s σ.serving.reportSnapshots := by
  induction h with
  | start => exact fun _ hs => nomatch hs
  | engine _ hl ih => rwa [reportSnapshots_of_leaves_engineMain hl]
  | load _ hl ih => rwa [reportSnapshots_of_leaves_materializeLoad hl]
  | replay _ hl ih => rwa [reportSnapshots_of_leaves_truncateAndReload hl]
  | @pass passes σ σ' _ hbefore hpass hmeets _ =>
    intro s hs
    rw [List.getLast?_concat, Option.some_inj] at hs
    have hrestatable : Restatable (found σ.serving σ'.serving) := restatable_of_continues hbefore.reportSnapshots hmeets
    rw [afterFinalize_of_ends hpass, ← hs]
    exact hrestatable.describes hbefore.period

end runs

section sample

/-- The topics of `sampleMissed`, grown by an exposure and a conversion of another campaign. -/
def sampleElsewhere : EngineRun :=
  (runEngine true (6 * Time.hour) sampleGraph
    [sampleExposure "e" (20700 * Time.day) (20700 * Time.day),
      { sampleExposure "g" (20712 * Time.day) (20712 * Time.day) with campaignId := "other" }]
    [sampleConversion "c1" (20709 * Time.day) (20709 * Time.day),
      sampleConversion "c2" (20710 * Time.day) (20710 * Time.day),
      sampleConversion "c5" (20713 * Time.day) (20713 * Time.day)]).toOption.getD ⟨[], [], 0, 0⟩

/-- A pass, the other campaign landed and credited hot, and a pass over both. -/
theorem restatement_describesLatest_sample : DescribesPass
    (found (sampleAfter [sampleLanding, samplePass, engineMain sampleElsewhere "tiny"]).serving
      (sampleAfter [sampleLanding, samplePass, engineMain sampleElsewhere "tiny", samplePass]).serving)
    (sampleAfter [sampleLanding, samplePass, engineMain sampleElsewhere "tiny", samplePass]).serving.reportSnapshots := by
  have hlanded : (engineMain sampleElsewhere "tiny").Ends (sampleAfter [sampleLanding, samplePass]) ()
      (sampleAfter [sampleLanding, samplePass, engineMain sampleElsewhere "tiny"]) := Prod.ext rfl (by decide +kernel)
  have hpass : samplePass.Ends (sampleAfter [sampleLanding, samplePass, engineMain sampleElsewhere "tiny"]) ()
      (sampleAfter [sampleLanding, samplePass, engineMain sampleElsewhere "tiny", samplePass]) :=
    Prod.ext rfl (by decide +kernel)
  refine restatement_describesLatest (.pass (d := .run) (.engine (.pass (d := .run)
    (.engine .start sampleLanding_ends.leaves) samplePass_ends ?_) hlanded.leaves) hpass ?_) _ rfl
  · exact fun s hs => absurd hs List.not_mem_nil
  · intro s hs
    obtain rfl := List.mem_singleton.mp hs
    constructor <;> decide +kernel

/-- The topics of `sampleMissed`, grown by an exposure and a conversion a day after it. -/
def sampleGrown : EngineRun :=
  (runEngine true (6 * Time.hour) sampleGraph
    [sampleExposure "e" (20700 * Time.day) (20700 * Time.day), sampleExposure "f" (20712 * Time.day) (20712 * Time.day)]
    [sampleConversion "c1" (20709 * Time.day) (20709 * Time.day),
      sampleConversion "c2" (20710 * Time.day) (20710 * Time.day),
      sampleConversion "c5" (20713 * Time.day) (20713 * Time.day)]).toOption.getD ⟨[], [], 0, 0⟩

/-- A landing and pass, the grown topics landed, and the tables the pass over them finds. -/
def sampleRelanded : System := sampleAfter [sampleLanding, samplePass, engineMain sampleGrown "tiny"]

def sampleRestated : System := sampleAfter [sampleLanding, samplePass, engineMain sampleGrown "tiny", samplePass]

/-- After a second landing and pass the restatement still starts from the first pass's pre
report. -/
theorem restatement_notDescribing : ∃ passes σ s, ReportRun String.length (fun _ _ => True) passes σ ∧
    passes.getLast? = some s ∧ ¬ DescribesPass s σ.serving.reportSnapshots := by
  have hgrown : (engineMain sampleGrown "tiny").Ends (sampleAfter [sampleLanding, samplePass]) () sampleRelanded :=
    Prod.ext rfl (by decide +kernel)
  have hthen : samplePass.Ends sampleRelanded () sampleRestated := Prod.ext rfl (by decide +kernel)
  refine ⟨_, _, found sampleRelanded.serving sampleRestated.serving, .pass (d := .run) (.engine
    (.pass (d := .run) (.engine .start sampleLanding_ends.leaves) samplePass_ends trivial) hgrown.leaves) hthen trivial,
    rfl, ?_⟩
  intro h
  have hdelta : ∀ row ∈ restatement sampleRestated.serving.reportSnapshots,
      spendOf (found sampleRelanded.serving sampleRestated.serving) row.campaignId ≠ 0 →
        row.roasDelta =
          (passChange (found sampleRelanded.serving sampleRestated.serving) row.campaignId).map (roundTo 4) := by
    intro row hrow hspend
    obtain ⟨delta, hchange, hshown⟩ := h.roas row hrow hspend
    rw [hshown, hchange]
    rfl
  revert hdelta
  decide +kernel

end sample
end CtvAttribution
