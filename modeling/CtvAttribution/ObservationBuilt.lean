import CtvAttribution.AgentContext

/-! When the observation can be built. Every column the collector converts is free of NULL
but one: the change of the ROAS of a campaign that was never reported with a ROAS. -/
namespace CtvAttribution.Collect
open Library

section cells

@[simp] theorem optionalFloat_nullable (x : Option ℚ) : optionalFloat (.nullable x) = .ok x := by
  cases x <;> rfl

private theorem pyFloat_nullable_ok_iff {x : Option ℚ} : (∃ y, pyFloat (.nullable x) = .ok y) ↔ x.isSome := by
  cases x with
  | none =>
    constructor
    · intro h
      obtain ⟨y, hy⟩ := h
      cases hy
    · intro h
      cases h
  | some y => exact ⟨fun _ => rfl, fun _ => ⟨y, rfl⟩⟩

end cells

section columns
variable {s : Serving} {profile : String}

private theorem campaignMetricsOf_reportRow (r : CampaignReport) : campaignMetricsOf (reportRow r) = .ok
    { campaign := r.campaign, spend := r.spend / 10000, exposures := r.exposures, conversions := r.conversions
      purchases := r.purchases, revenue := r.revenue / 10000, roas := r.roas, cpa := r.cpa.map (· / 10000)
      cvr := r.cvr, siteVisitRate := r.siteVisitRate } := by
  have hroas := optionalFloat_nullable r.roas
  have hcpa := optionalFloat_nullable (r.cpa.map (· / 10000))
  have hcvr := optionalFloat_nullable r.cvr
  have hrate := optionalFloat_nullable r.siteVisitRate
  simp only [campaignMetricsOf, reportRow, column, List.getElem?_cons_zero, List.getElem?_cons_succ, strField,
    pyFloat, pyInt, SqlValue.amount, hroas, hcpa, hcvr, hrate, bind, Except.bind, pure, Except.pure]

/-- A restatement is typed exactly when its ROAS changed from a number to a number. -/
theorem campaignRestatementOf_cells (r : RestatementRow) : campaignRestatementOf (restatementCells r) =
    (pyFloat (.nullable r.roasDelta)).map fun delta =>
      { campaign := r.campaignId, roasAsReported := r.roasAsReported, roasNow := r.roasNow, roasDelta := delta
        conversionsAsReported := r.conversionsAsReported, conversionsNow := r.conversionsNow
        revenueDelta := r.revenueDelta } := by
  have hfirst := optionalFloat_nullable r.roasAsReported
  have hnow := optionalFloat_nullable r.roasNow
  simp only [campaignRestatementOf, restatementCells, column, List.getElem?_cons_zero, List.getElem?_cons_succ,
    strField, pyInt, hfirst, hnow, bind, Except.bind, pure, Except.pure]
  cases r.roasDelta <;> rfl

/-- The lags reach the collector as they are. -/
theorem lags_read (s : Serving) : (windowEdgeLags s).mapM (fun row => do pyInt (← column row 0)) =
    .ok ((hotCredits s).map lagSeconds) := by
  rw [mapM_eq_ok_iff, windowEdgeLags, List.forall₂_map_left_iff, List.forall₂_map_right_iff, List.forall₂_same]
  exact fun _ _ => rfl

end columns

section groups
variable {s : Serving} {rows : List ReportSnapshot}

/-- A choice among the rows that show a value shows one when some row does. -/
theorem bind_isSome_iff_of_choice {β : Type} {f : ReportSnapshot → Option β} {choice : Option ReportSnapshot}
    (hnone : choice = none → (rows.filter fun x => (f x).isSome) = [])
    (hmem : ∀ a, choice = some a → a ∈ rows.filter fun x => (f x).isSome) :
    (choice.bind f).isSome ↔ ∃ x ∈ rows, (f x).isSome := by
  cases choice with
  | none => simpa using List.filter_eq_nil_iff.mp (hnone rfl)
  | some a =>
    obtain ⟨hrow, hsome⟩ := List.mem_filter.mp (hmem a rfl)
    exact ⟨fun _ => ⟨a, hrow, hsome⟩, fun _ => hsome⟩

private theorem argMinReported_isSome_iff {β : Type} {f : ReportSnapshot → Option β} :
    (argMinReported f rows).isSome ↔ ∃ x ∈ rows, (f x).isSome :=
  bind_isSome_iff_of_choice List.argmin_eq_none.mp fun _ => List.argmin_mem

private theorem argMaxReported_isSome_iff {β : Type} {f : ReportSnapshot → Option β} :
    (argMaxReported f rows).isSome ↔ ∃ x ∈ rows, (f x).isSome :=
  bind_isSome_iff_of_choice List.argmax_eq_none.mp fun _ => List.argmax_mem

/-- The change is NULL exactly when no report of the group has a ROAS. -/
theorem roasDelta_isSome_iff (campaignId : String) :
    (restatementRow campaignId rows).roasDelta.isSome ↔ ∃ x ∈ rows, x.roas.isSome := by
  have hmin : (argMinReported ReportSnapshot.roas rows).isSome ↔ ∃ x ∈ rows, x.roas.isSome :=
    argMinReported_isSome_iff
  have hmax : (argMaxReported ReportSnapshot.roas rows).isSome ↔ ∃ x ∈ rows, x.roas.isSome :=
    argMaxReported_isSome_iff
  rw [← hmax]
  show ((roasChange rows).map (roundTo 4)).isSome ↔ _
  rw [Option.isSome_map]
  unfold roasChange
  cases hb : argMaxReported ReportSnapshot.roas rows with
  | none => simp
  | some b =>
    rw [hb] at hmax
    obtain ⟨a, ha⟩ := Option.isSome_iff_exists.mp (hmin.mpr (hmax.mp rfl))
    simp [ha]

/-- Two snapshots of one campaign and period. -/
def SameGroup (x y : ReportSnapshot) : Prop := y.campaignId = x.campaignId ∧ y.period = x.period

instance (x y : ReportSnapshot) : Decidable (SameGroup x y) :=
  inferInstanceAs (Decidable (y.campaignId = x.campaignId ∧ y.period = x.period))

/-- Every campaign and period with a report has one with a ROAS. -/
def RoasReported (s : Serving) : Prop :=
  ∀ x ∈ reportSnapshotsFinal s.reportSnapshots, ∃ y ∈ reportSnapshotsFinal s.reportSnapshots,
    SameGroup x y ∧ y.roas.isSome

/-- The group of a snapshot among some rows. -/
def groupOf (rows : List ReportSnapshot) (x : ReportSnapshot) : List ReportSnapshot :=
  rows.filter fun y => (y.campaignId, y.period) = (x.campaignId, x.period)

private theorem mem_groupOf {x y : ReportSnapshot} : y ∈ groupOf rows x ↔ y ∈ rows ∧ SameGroup x y := by
  rw [groupOf, List.mem_filter, decide_eq_true_eq, Prod.mk.injEq]
  rfl

/-- The rows of the query: one for the group of each snapshot. -/
theorem mem_grouped {r : RestatementRow} :
    r ∈ (OrderedDict.groupBy (fun x : ReportSnapshot => (x.campaignId, x.period)) rows).entries.map
        (fun (key, rows) => restatementRow key.1 rows) ↔
      ∃ x ∈ rows, r = restatementRow x.campaignId (groupOf rows x) := by
  rw [OrderedDict.entries_groupBy, List.map_map, List.mem_map]
  simp only [mem_firstSeen, List.mem_map]
  constructor
  · rintro ⟨_, ⟨x, hx, rfl⟩, rfl⟩
    exact ⟨x, hx, rfl⟩
  · rintro ⟨x, hx, rfl⟩
    exact ⟨_, ⟨x, hx, rfl⟩, rfl⟩

private theorem roasDelta_all_iff : (∀ r ∈ restatement s.reportSnapshots, r.roasDelta.isSome) ↔ RoasReported s := by
  have hrow (r : RestatementRow) : r ∈ restatement s.reportSnapshots ↔
      ∃ x ∈ reportSnapshotsFinal s.reportSnapshots,
        r = restatementRow x.campaignId (groupOf (reportSnapshotsFinal s.reportSnapshots) x) := by
    rw [restatement, mem_sortedBy]
    exact mem_grouped
  constructor
  · intro h x hx
    obtain ⟨y, hy, hroas⟩ := (roasDelta_isSome_iff _).mp (h _ ((hrow _).mpr ⟨x, hx, rfl⟩))
    obtain ⟨hmem, hsame⟩ := mem_groupOf.mp hy
    exact ⟨y, hmem, hsame, hroas⟩
  · intro h r hr
    obtain ⟨x, hx, rfl⟩ := (hrow r).mp hr
    obtain ⟨y, hy, hsame, hroas⟩ := h x hx
    exact (roasDelta_isSome_iff _).mpr ⟨y, mem_groupOf.mpr ⟨hy, hsame⟩, hroas⟩

end groups

section collect
variable {s : Serving} {profile : String}

private theorem campaignRestatements_ok_iff :
    (∃ xs, campaignRestatements (restatementRows s) = .ok xs) ↔ RoasReported s := by
  rw [campaignRestatements, mapM_isOk_iff, ← roasDelta_all_iff]
  simp only [restatementRows, List.forall_mem_map]
  refine forall₂_congr fun r _ => ?_
  rw [campaignRestatementOf_cells, ← pyFloat_nullable_ok_iff]
  cases pyFloat (.nullable r.roasDelta) <;> simp [Except.map]

private theorem matchRateSeries_ok (s : Serving) : ∃ points : List MatchRatePoint, ∃ processed attributed,
    matchRateSeries (matchRateByDay s) = .ok (processed, attributed, ratioOf attributed processed, points) := by
  have hpoints : ∃ points, (matchRateByDay s).mapM matchRatePoint = .ok points := by
    apply exists_mapM_map_eq_ok
    exact fun _ => ⟨_, rfl⟩
  obtain ⟨points, h⟩ := hpoints
  refine ⟨points, (points.map MatchRatePoint.processed).sum, (points.map MatchRatePoint.attributed).sum, ?_⟩
  rw [matchRateSeries, h]
  rfl

private theorem ipClusterStats_ok (s : Serving) :
    ∃ clusters : List IpCluster, ∀ row, (ipClusterOverall s)[0]? = some row →
    ipClusterStats row (ipClusterTop s) = .ok
      { attributed := (attributedRows s).length
        ipResolvedAttributed := ((attributedRows s).filter fun a => a.resolution = .ip).length
        ambiguousAttributed := ((attributedRows s).filter fun a => a.ambiguous).length
        ipResolvedFraction := ratioOf ((attributedRows s).filter fun a => a.resolution = .ip).length
          (attributedRows s).length
        maxCandidateCount := maxCandidateCount (attributedRows s), topClusters := clusters } := by
  have hclusters : ∃ clusters, (ipClusterTop s).mapM ipCluster = .ok clusters := by
    apply exists_mapM_map_eq_ok
    exact fun _ => ⟨_, rfl⟩
  obtain ⟨clusters, h⟩ := hclusters
  refine ⟨clusters, fun row hrow => ?_⟩
  cases hrow
  rw [ipClusterStats, h]
  rfl

private theorem genreReach_ok (s : Serving) :
    ∃ reach, genreReach (genreExposures s) (genreConversions s) = .ok reach := by
  have hconvs : ∃ convs, (genreConversions s).mapM genreCount = .ok convs := by
    apply exists_mapM_map_eq_ok
    exact fun _ => ⟨_, rfl⟩
  have hexps : ∃ exps, (genreExposures s).mapM genreCount = .ok exps := by
    apply exists_mapM_map_eq_ok
    exact fun _ => ⟨_, rfl⟩
  obtain ⟨convs, hconvs⟩ := hconvs
  obtain ⟨exps, hexps⟩ := hexps
  rw [genreReach, hconvs, hexps]
  exact ⟨_, rfl⟩

private theorem campaignMetrics_ok (s : Serving) : ∃ campaigns, campaignMetrics (reportRows s) = .ok campaigns := by
  exact exists_mapM_map_eq_ok (fun r => ⟨_, campaignMetricsOf_reportRow r⟩) _

/-- The observation, up to the one conversion that can fail. -/
theorem collect_eq (s : Serving) (profile : String) : ∃ points processed attributed campaigns clusters reach,
    campaignMetrics (reportRows s) = .ok campaigns ∧
    collect s profile = (campaignRestatements (restatementRows s)).map fun restatements =>
      { profile, processed, attributed, matchRate := ratioOf attributed processed, matchRateByDay := points
        campaigns, restatements, windowEdge := windowEdgeStats ((hotCredits s).map lagSeconds)
        ipClusters :=
          { attributed := (attributedRows s).length
            ipResolvedAttributed := ((attributedRows s).filter fun a => a.resolution = .ip).length
            ambiguousAttributed := ((attributedRows s).filter fun a => a.ambiguous).length
            ipResolvedFraction := ratioOf ((attributedRows s).filter fun a => a.resolution = .ip).length
              (attributedRows s).length
            maxCandidateCount := maxCandidateCount (attributedRows s), topClusters := clusters }
        genreReach := reach } := by
  obtain ⟨points, processed, attributed, hpoints⟩ := matchRateSeries_ok s
  obtain ⟨campaigns, hcampaigns⟩ := campaignMetrics_ok s
  obtain ⟨clusters, hclusters⟩ := ipClusterStats_ok s
  obtain ⟨reach, hreach⟩ := genreReach_ok s
  refine ⟨points, processed, attributed, campaigns, clusters, reach, hcampaigns, ?_⟩
  have hoverall := hclusters _ rfl
  unfold collect
  simp only [ipClusterOverall, List.getElem?_cons_zero] at hoverall ⊢
  rw [lags_read]
  simp only [bind, Except.bind, buildContext, hpoints, hcampaigns, hoverall, hreach]
  cases campaignRestatements (restatementRows s) <;> rfl

private theorem collect_ok_iff : (∃ ctx, collect s profile = .ok ctx) ↔ RoasReported s := by
  obtain ⟨points, processed, attributed, campaigns, clusters, reach, _, h⟩ := collect_eq s profile
  rw [h, ← campaignRestatements_ok_iff]
  cases campaignRestatements (restatementRows s) <;> simp [Except.map]

/-- What is NULL in a report, or has a zero denominator, is None in the observation, and
nothing else is. -/
structure NullsShown (s : Serving) (ctx : AttributionContext) : Prop where
  campaigns : ctx.campaigns.map (fun m => (m.campaign, m.roas, m.cpa, m.cvr, m.siteVisitRate)) =
    (reportQuery s.exposuresFinal s.attributedFinal).map fun r =>
      (r.campaign, r.roas, r.cpa.map (· / 10000), r.cvr, r.siteVisitRate)
  restatements : ctx.restatements.map (fun m => (m.campaign, m.roasAsReported, m.roasNow)) =
    (restatement s.reportSnapshots).map fun r => (r.campaignId, r.roasAsReported, r.roasNow)
  matchRate : ctx.matchRate = none ↔ ctx.processed = 0
  ipResolvedFraction : ctx.ipClusters.ipResolvedFraction = none ↔ ctx.ipClusters.attributed = 0
  nearBoundaryFraction : ctx.windowEdge.nearBoundaryFraction = none ↔ ctx.windowEdge.attributedHot = 0

private theorem ratioOf_eq_none_iff {n d : Int} : ratioOf n d = none ↔ d = 0 := by
  unfold ratioOf
  by_cases h : d = 0 <;> simp [h]

private theorem nullsShown_of_collect {ctx : AttributionContext} (h : collect s profile = .ok ctx) :
    NullsShown s ctx := by
  obtain ⟨points, processed, attributed, campaigns, clusters, reach, hcampaigns, heq⟩ := collect_eq s profile
  rw [heq] at h
  cases hrest : campaignRestatements (restatementRows s) with
  | error e =>
    rw [hrest] at h
    cases h
  | ok restatements =>
    rw [hrest] at h
    obtain rfl := Except.ok.inj h
    refine ⟨?_, ?_, ratioOf_eq_none_iff, ratioOf_eq_none_iff, ?_⟩
    · rw [campaignMetrics, reportRows, List.mapM_map] at hcampaigns
      refine map_eq_of_mapM_eq_ok hcampaigns fun r _ m hm => ?_
      rw [Function.comp_apply, campaignMetricsOf_reportRow] at hm
      obtain rfl := Except.ok.inj hm
      rfl
    · rw [campaignRestatements, restatementRows, List.mapM_map] at hrest
      refine map_eq_of_mapM_eq_ok hrest fun r _ m hm => ?_
      rw [Function.comp_apply, campaignRestatementOf_cells] at hm
      cases hdelta : pyFloat (.nullable r.roasDelta) with
      | error e =>
        rw [hdelta] at hm
        cases hm
      | ok delta =>
        rw [hdelta] at hm
        obtain rfl := Except.ok.inj hm
        rfl
    · exact ratioOf_eq_none_iff.trans Int.natCast_eq_zero

end collect
section probe

/-- The columns of `_CAMPAIGN_RESTATEMENT`. -/
def restatementColumns : List String :=
  ["campaign_id", "roas_as_reported", "roas_now", "roas_delta", "conversions_as_reported", "conversions_now",
    "revenue_delta"]

/-- `_CAMPAIGN_RESTATEMENT`: the restatement of one campaign's snapshots. -/
def campaignRestatement (s : Serving) (campaignId : String) : List RestatementRow :=
  let rows := (reportSnapshotsFinal s.reportSnapshots).filter fun x => x.campaignId = campaignId
  sortedBy RestatementRow.campaignId
    ((OrderedDict.groupBy (fun x : ReportSnapshot => (x.campaignId, x.period)) rows).entries.map
      fun (key, rows) => restatementRow key.1 rows)

def campaignRestatementResult (s : Serving) (campaignId : String) : QueryResult SqlValue :=
  ⟨restatementColumns, (campaignRestatement s campaignId).map restatementCells⟩

def restatementProbe : Probe := ⟨"campaign_restatement", .campaignRestatement, .campaignParam, .restatementRow⟩

/-- What the validation library makes of the driver's values: each declared type takes its
own, and only an optional field takes None. -/
structure ReadsValues (py : Pydantic SqlValue) : Prop where
  text : ∀ s, py.strOfCell (.text s) = some s
  int : ∀ i, py.intOfCell (.int i) = some i
  float : ∀ x, (py.floatOfCell (.float x)).isSome
  notNone : ∀ x, py.isNone (.float x) = false
  none : py.isNone .null = true
  noFloat : py.floatOfCell .null = Option.none

variable {py : Pydantic SqlValue} {s : Serving} {campaignId : String}

private theorem optionalFloat_value (hpy : ReadsValues py) (x : Option ℚ) :
    ∃ v, FieldType.optionalFloat.value py (.nullable x) = some v := by
  cases x with
  | none => exact ⟨.none, if_pos hpy.none⟩
  | some x =>
    obtain ⟨y, hy⟩ := Option.isSome_iff_exists.mp (hpy.float x)
    refine ⟨.float y, ?_⟩
    show (if py.isNone (.float x) then _ else (py.floatOfCell (.float x)).map FieldValue.float) = _
    rw [hpy.notNone, hy]
    rfl

private theorem float_value (hpy : ReadsValues py) (x : ℚ) : ∃ v, FieldType.float.value py (.float x) = some v := by
  obtain ⟨y, hy⟩ := Option.isSome_iff_exists.mp (hpy.float x)
  refine ⟨.float y, ?_⟩
  rw [FieldType.value, hy]
  rfl

/-- A field read by its column's name. -/
theorem read_field {cells : List (String × SqlValue)} {name : String} {type : FieldType} {cell : SqlValue}
    {v : FieldValue} (hcell : cells.reverse.lookup name = some cell) (hv : type.value py cell = some v) :
    ((cells.reverse.lookup name).bind (type.value py)).map (fun v => (name, v)) = some (name, v) := by
  rw [hcell, Option.bind_some, hv, Option.map_some]

/-- The probe types a row whose change is a number. -/
theorem ofCells_restatementCells (hpy : ReadsValues py) {r : RestatementRow} (h : r.roasDelta.isSome) :
    ∃ row, ResultModel.restatementRow.ofCells py (restatementColumns.zip (restatementCells r)) = .ok row ∧
      row.lookup "campaign_id" = some (.str r.campaignId) := by
  obtain ⟨delta, hdelta⟩ := Option.isSome_iff_exists.mp h
  obtain ⟨first, hfirst⟩ := optionalFloat_value hpy r.roasAsReported
  obtain ⟨now, hnow⟩ := optionalFloat_value hpy r.roasNow
  obtain ⟨change, hchange⟩ := float_value hpy delta
  obtain ⟨revenue, hrevenue⟩ := float_value hpy r.revenueDelta
  have hstr : FieldType.str.value py (.text r.campaignId) = some (.str r.campaignId) := by
    rw [FieldType.value, hpy.text]
    rfl
  have hint (i : Int) : FieldType.int.value py (.int i) = some (.int i) := by
    rw [FieldType.value, hpy.int]
    rfl
  refine ⟨[("campaign_id", .str r.campaignId), ("roas_as_reported", first), ("roas_now", now),
    ("roas_delta", change), ("conversions_as_reported", .int r.conversionsAsReported),
    ("conversions_now", .int r.conversionsNow), ("revenue_delta", revenue)], ?_, rfl⟩
  have hcells : restatementCells r = [.text r.campaignId, .nullable r.roasAsReported, .nullable r.roasNow,
      .float delta, .int r.conversionsAsReported, .int r.conversionsNow, .float r.revenueDelta] := by
    rw [restatementCells, hdelta]
    rfl
  rw [hcells]
  unfold ResultModel.ofCells
  simp only [ResultModel.restatementRow, List.mapM_cons, List.mapM_nil]
  rw [read_field rfl hstr, read_field rfl hfirst, read_field rfl hnow, read_field rfl hchange,
    read_field rfl (hint r.conversionsAsReported), read_field rfl (hint r.conversionsNow), read_field rfl hrevenue]
  rfl

private theorem mem_campaignRestatement {r : RestatementRow} : r ∈ campaignRestatement s campaignId ↔
    ∃ x ∈ reportSnapshotsFinal s.reportSnapshots, x.campaignId = campaignId ∧
      r = restatementRow campaignId (groupOf (reportSnapshotsFinal s.reportSnapshots) x) := by
  rw [campaignRestatement, mem_sortedBy, mem_grouped]
  simp only [List.mem_filter, decide_eq_true_eq, and_assoc]
  refine exists_congr fun x => and_congr_right fun _ => and_congr_right fun hx => ?_
  have hsame : groupOf ((reportSnapshotsFinal s.reportSnapshots).filter fun x => x.campaignId = campaignId) x =
      groupOf (reportSnapshotsFinal s.reportSnapshots) x := by
    rw [groupOf, groupOf, List.filter_filter]
    apply List.filter_congr
    intro y _
    by_cases hy : (y.campaignId, y.period) = (x.campaignId, x.period)
    · have : y.campaignId = campaignId := (congrArg Prod.fst hy).trans hx
      simp [this]
    · simp [hy]
  rw [hsame, hx]

/-- FINAL keeps a row of every campaign. -/
theorem exists_final {x : ReportSnapshot} (hx : x ∈ s.reportSnapshots) :
    ∃ y ∈ reportSnapshotsFinal s.reportSnapshots, y.campaignId = x.campaignId := by
  obtain ⟨y, hy⟩ : ∃ y, finalRow ReportSnapshot.key ReportSnapshot.snapshotVersion s.reportSnapshots x.key = some y :=
    exists_finalRow ReportSnapshot.key ReportSnapshot.snapshotVersion hx
  have hkey := (finalRow_eq_some hy).2.1
  refine ⟨y, mem_finalRows.mpr (hkey ▸ hy), ?_⟩
  exact congrArg (fun k => k.2.1) hkey

/-- The probe answers for a campaign with a snapshot, in rows of that campaign. -/
theorem readRows_campaignRestatement (hpy : ReadsValues py) (h : RoasReported s) {x : ReportSnapshot}
    (hx : x ∈ s.reportSnapshots) :
    ∃ rows, restatementProbe.readRows py (campaignRestatementResult s x.campaignId) = .ok rows ∧ rows ≠ [] ∧
      ∀ row ∈ rows, row.lookup "campaign_id" = some (.str x.campaignId) := by
  have hrow {r : RestatementRow} (hr : r ∈ campaignRestatement s x.campaignId) :
      ∃ row, restatementProbe.result.ofCells py (restatementColumns.zip (restatementCells r)) = .ok row ∧
        row.lookup "campaign_id" = some (.str x.campaignId) := by
    obtain ⟨y, hy, hyc, rfl⟩ := mem_campaignRestatement.mp hr
    obtain ⟨z, hz, hsame, hroas⟩ := h y hy
    exact ofCells_restatementCells hpy ((roasDelta_isSome_iff _).mpr ⟨z, mem_groupOf.mpr ⟨hz, hsame⟩, hroas⟩)
  have hread : restatementProbe.readRows py (campaignRestatementResult s x.campaignId) =
      (campaignRestatement s x.campaignId).mapM fun r =>
        restatementProbe.result.ofCells py (restatementColumns.zip (restatementCells r)) := by
    rw [Probe.readRows, campaignRestatementResult, List.mapM_map]
    rfl
  obtain ⟨rows, hrows⟩ := exists_mapM_eq_ok fun r hr => (hrow hr).imp fun _ => And.left
  refine ⟨rows, hread.trans hrows, ?_, fun row hmem => ?_⟩
  · obtain ⟨y, hy, hyc⟩ := exists_final hx
    obtain ⟨row, hmem, _⟩ := exists_of_mapM_eq_ok hrows (mem_campaignRestatement.mpr ⟨y, hy, hyc, rfl⟩)
    exact List.ne_nil_of_mem hmem
  · obtain ⟨r, hr, hok⟩ := (mem_of_mapM_eq_ok hrows).mp hmem
    obtain ⟨row', hok', hcampaign⟩ := hrow hr
    rw [hok] at hok'
    rwa [Except.ok.inj hok']

/-- What is asked of the observation of a serving state: it is built, with every NULL as None,
and the probe types the restatement of every campaign with a snapshot. -/
structure ObservationTotal (py : Pydantic SqlValue) (s : Serving) (profile : String) : Prop where
  builds : ∃ ctx, collect s profile = .ok ctx
  nulls : ∀ ctx, collect s profile = .ok ctx → NullsShown s ctx
  probe : ∀ x ∈ s.reportSnapshots, ∃ rows,
    restatementProbe.readRows py (campaignRestatementResult s x.campaignId) = .ok rows ∧ rows ≠ [] ∧
      ∀ row ∈ rows, row.lookup "campaign_id" = some (.str x.campaignId)

/-- The observation is total exactly on the states where every campaign and period that was
reported was once reported with a ROAS. -/
theorem observation_total_iff (py : Pydantic SqlValue) (hpy : ReadsValues py) (s : Serving) (profile : String) :
    ObservationTotal py s profile ↔ ∀ x ∈ reportSnapshotsFinal s.reportSnapshots,
      ∃ y ∈ reportSnapshotsFinal s.reportSnapshots, SameGroup x y ∧ y.roas.isSome := by
  constructor
  · exact fun h => collect_ok_iff.mp h.builds
  · intro h
    exact ⟨collect_ok_iff.mpr h, fun _ => nullsShown_of_collect, fun _ => readRows_campaignRestatement hpy h⟩

end probe

section sample

/-- A validation library that takes the driver's values as they are. -/
def sqlPydantic : Pydantic SqlValue where
  floatOfJson _ := none
  strOfCell
    | .text s => some s
    | _ => none
  intOfCell
    | .int i => some i
    | _ => none
  floatOfCell
    | .float x => some (Float.ofInt x.num / Float.ofNat x.den)
    | .int i => some (Float.ofInt i)
    | _ => none
  isNone v := v = .null
  invalidJson model _ := "validation error for " ++ model
  invalidCells model _ := "validation error for " ++ model

private theorem sqlPydantic_reads : ReadsValues sqlPydantic where
  text _ := rfl
  int _ := rfl
  float _ := rfl
  notNone _ := rfl
  none := rfl
  noFloat := rfl

/-- One exposure of the given spend, reported once. -/
def sampleSpent (spend : Money) : Serving :=
  Serving.insertSnapshot
    { Serving.empty with exposuresLanded := [{ sampleExposure "e" 0 0 with spend := spend }] } 0 false

/-- A campaign whose exposures cost nothing has no ROAS, and no observation is built. -/
theorem zero_spend_not_observed : ¬ ObservationTotal sqlPydantic (sampleSpent 0) "tiny" := by
  rw [observation_total_iff sqlPydantic sqlPydantic_reads]
  decide +kernel

/-- Once it costs something, the observation is built. -/
theorem observation_total_iff_sample : ObservationTotal sqlPydantic (sampleSpent 100) "tiny" :=
  (observation_total_iff sqlPydantic sqlPydantic_reads (sampleSpent 100) "tiny").mpr (by decide +kernel)

end sample
end CtvAttribution.Collect
