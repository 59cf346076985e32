import CtvAttribution.CampaignReport
import CtvAttribution.Probes
import CtvAttribution.Restatement

/-! The observation of the agent: the fixed reads over the serving tables, and the collector
that types their rows. A read hands out cells, so a NULL reaches the collector as one. -/
namespace CtvAttribution.Collect
open Library

/-- A cell of a result row, as the driver hands it out. -/
inductive SqlValue where
  | null
  | text (s : String)
  | int (i : Int)
  | float (x : ℚ)
  | date (day : Int)
  deriving DecidableEq

abbrev Row := List SqlValue

def SqlValue.nullable : Option ℚ → SqlValue
  | none => .null
  | some x => .float x

/-- An amount in its currency unit. -/
def SqlValue.amount (m : Money) : SqlValue := .float (m / 10000)

section reads
variable (s : Serving)

/-- `MATCH_RATE_BY_DAY`. -/
def matchRateByDay : List Row :=
  (sortedBy Prod.fst (OrderedDict.groupBy (fun a : AttributedConversion => dayOf a.eventTime) s.attributedFinal).entries).map
    fun (day, rows) => [.date day, .int rows.length, .int (rows.filter fun a => a.attributed).length]

/-- The credits of attributed hot rows to an exposure not after them. -/
def hotCredits : List Credit :=
  (credits s.exposuresFinal s.attributedFinal).filter fun c => c.1.path = .hot ∧ c.2.eventTime ≤ c.1.eventTime

/-- `dateDiff('second', from, to)`: the second boundaries between two instants. -/
def dateDiffSeconds (start stop : Int) : Int := stop / Time.second - start / Time.second

def lagSeconds (c : Credit) : Int := dateDiffSeconds c.2.eventTime c.1.eventTime

/-- `WINDOW_EDGE_LAGS`. -/
def windowEdgeLags : List Row := (hotCredits s).map fun c => [.int (lagSeconds c)]

def attributedRows : List AttributedConversion := s.attributedFinal.filter fun a => a.attributed

/-- `max(candidate_count)`, of no rows the default of its type. -/
def maxCandidateCount (rows : List AttributedConversion) : Nat :=
  ((rows.map fun a => a.candidateCount).max?).getD 0

/-- `IP_CLUSTER_OVERALL`: an aggregate without groups has one row. -/
def ipClusterOverall : List Row :=
  [[.int (attributedRows s).length, .int ((attributedRows s).filter fun a => a.resolution = .ip).length,
    .int ((attributedRows s).filter fun a => a.ambiguous).length, .int (maxCandidateCount (attributedRows s))]]

/-- `IP_CLUSTER_TOP`. -/
def ipClusterTop : List Row :=
  let groups := (OrderedDict.groupBy (fun a : AttributedConversion => a.ip)
    ((attributedRows s).filter fun a => a.resolution = .ip)).entries
  ((sortedBy (fun g => (toLex (-(g.2.length : Int), g.1) : Int ×ₗ String)) groups).take 10).map
    fun (ip, rows) => [.text ip, .int rows.length, .int (maxCandidateCount rows)]

/-- `GENRE_EXPOSURES`. -/
def genreExposures : List Row :=
  (sortedBy Prod.fst (OrderedDict.groupBy Exposure.programGenre s.exposuresFinal).entries).map
    fun (genre, rows) => [.text genre, .int rows.length]

/-- `GENRE_CONVERSIONS`. -/
def genreConversions : List Row :=
  (sortedBy Prod.fst (OrderedDict.groupBy (fun c : Credit => c.2.programGenre)
    (credits s.exposuresFinal s.attributedFinal)).entries).map
    fun (genre, rows) => [.text genre, .int rows.length]

/-- A row of queries/report.sql in its column order. -/
def reportRow (r : CampaignReport) : Row :=
  [.text r.campaign, .amount r.spend, .int r.exposures, .int r.conversions, .int r.purchases,
    .amount r.revenue, .nullable r.roas, .nullable (r.cpa.map (· / 10000)), .nullable r.cvr,
    .nullable r.siteVisitRate]

def reportRows : List Row := (reportQuery s.exposuresFinal s.attributedFinal).map reportRow

/-- A row of queries/restatement.sql in its column order. -/
def restatementCells (r : RestatementRow) : Row :=
  [.text r.campaignId, .nullable r.roasAsReported, .nullable r.roasNow, .nullable r.roasDelta,
    .int r.conversionsAsReported, .int r.conversionsNow, .float r.revenueDelta]

def restatementRows : List Row := (restatement s.reportSnapshots).map restatementCells

end reads

section conversions

def indexError : PyException := ⟨.other, "tuple index out of range"⟩

/-- `row[i]`. -/
def column (row : Row) (i : Nat) : Except PyException SqlValue :=
  match row[i]? with
  | some v => .ok v
  | none => .error indexError

/-- `int(v)`. -/
def pyInt : SqlValue → Except PyException Int
  | .int i => .ok i
  | .float x => .ok (x.num.tdiv x.den)
  | .text s =>
    match s.toInt? with
    | some i => .ok i
    | none => .error ⟨.valueError, "invalid literal for int() with base 10: " ++ quoted s⟩
  | .date _ => .error ⟨.other,
      "int() argument must be a string, a bytes-like object or a real number, not 'datetime.date'"⟩
  | .null => .error ⟨.other,
      "int() argument must be a string, a bytes-like object or a real number, not 'NoneType'"⟩

/-- `float(v)`. No column read as a float holds text. -/
def pyFloat : SqlValue → Except PyException ℚ
  | .int i => .ok i
  | .float x => .ok x
  | .text s => .error ⟨.valueError, "could not convert string to float: " ++ quoted s⟩
  | .date _ => .error ⟨.other, "float() argument must be a string or a real number, not 'datetime.date'"⟩
  | .null => .error ⟨.other, "float() argument must be a string or a real number, not 'NoneType'"⟩

/-- `None if v is None else float(v)`. -/
def optionalFloat : SqlValue → Except PyException (Option ℚ)
  | .null => .ok none
  | v => (pyFloat v).map some

/-- A `str` field of a model. -/
def strField : SqlValue → Except PyException String
  | .text s => .ok s
  | _ => .error ⟨.validationError, "Input should be a valid string"⟩

/-- `v or 0`. -/
def orZero : SqlValue → SqlValue
  | .null => .int 0
  | .text s => if s = "" then .int 0 else .text s
  | v => v

/-- `_ratio`. -/
def ratioOf (numerator denominator : Int) : Option ℚ :=
  if denominator ≠ 0 then some (numerator / denominator) else none

end conversions

/-- The day is shown as the cell's `str`. -/
structure MatchRatePoint where
  day : SqlValue
  processed : Int
  attributed : Int
  matchRate : Option ℚ
  deriving DecidableEq

structure CampaignMetrics where
  campaign : String
  spend : ℚ
  exposures : Int
  conversions : Int
  purchases : Int
  revenue : ℚ
  roas : Option ℚ
  cpa : Option ℚ
  cvr : Option ℚ
  siteVisitRate : Option ℚ
  deriving DecidableEq

structure CampaignRestatement where
  campaign : String
  roasAsReported : Option ℚ
  roasNow : Option ℚ
  roasDelta : ℚ
  conversionsAsReported : Int
  conversionsNow : Int
  revenueDelta : ℚ
  deriving DecidableEq

structure WindowEdgeBucket where
  label : String
  count : Nat
  deriving DecidableEq

structure WindowEdgeStats where
  attributedHot : Nat
  buckets : List WindowEdgeBucket
  nearBoundaryCount : Nat
  nearBoundaryFraction : Option ℚ
  deriving DecidableEq

structure IpCluster where
  ip : String
  attributedConversions : Int
  maxCandidateCount : Int
  deriving DecidableEq

structure IpClusterStats where
  attributed : Int
  ipResolvedAttributed : Int
  ambiguousAttributed : Int
  ipResolvedFraction : Option ℚ
  maxCandidateCount : Int
  topClusters : List IpCluster
  deriving DecidableEq

structure GenreReach where
  genre : String
  exposures : Int
  attributedConversions : Int
  conversionsPerExposure : Option ℚ
  deriving DecidableEq

structure AttributionContext where
  profile : String
  processed : Int
  attributed : Int
  matchRate : Option ℚ
  matchRateByDay : List MatchRatePoint
  campaigns : List CampaignMetrics
  restatements : List CampaignRestatement
  windowEdge : WindowEdgeStats
  ipClusters : IpClusterStats
  genreReach : List GenreReach
  deriving DecidableEq

section collectors

def matchRatePoint (row : Row) : Except PyException MatchRatePoint := do
  let processed ← pyInt (← column row 1)
  let attributed ← pyInt (← column row 2)
  return ⟨← column row 0, processed, attributed, ratioOf attributed processed⟩

/-- `match_rate_series`. -/
def matchRateSeries (rows : List Row) :
    Except PyException (Int × Int × Option ℚ × List MatchRatePoint) := do
  let points ← rows.mapM matchRatePoint
  let processed := (points.map MatchRatePoint.processed).sum
  let attributed := (points.map MatchRatePoint.attributed).sum
  return (processed, attributed, ratioOf attributed processed, points)

def daySeconds : Int := 86400

/-- The default of `window_days`; no caller passes another. -/
def windowDays : Nat := 7

/-- The bin of a lag, clamped into the window. -/
def bucketIndex (lag : Int) : Nat := (max (min (lag / daySeconds) (windowDays - 1)) 0).toNat

/-- `window_edge_stats`. -/
def windowEdgeStats (lagSeconds : List Int) : WindowEdgeStats :=
  let counts := lagSeconds.foldl (fun counts lag => counts.modify (bucketIndex lag) (· + 1))
    (List.replicate windowDays 0)
  let near := counts.getLast?.getD 0
  { attributedHot := lagSeconds.length
    buckets := counts.mapIdx fun i c => ⟨toString i ++ "-" ++ toString (i + 1) ++ "d", c⟩
    nearBoundaryCount := near
    nearBoundaryFraction := ratioOf near lagSeconds.length }

def ipCluster (row : Row) : Except PyException IpCluster := do
  return ⟨← strField (← column row 0), ← pyInt (← column row 1), ← pyInt (orZero (← column row 2))⟩

/-- `ip_cluster_stats`. -/
def ipClusterStats (overallRow : Row) (topRows : List Row) : Except PyException IpClusterStats := do
  let attributed ← pyInt (← column overallRow 0)
  let ipResolved ← pyInt (← column overallRow 1)
  return {
    attributed := attributed
    ipResolvedAttributed := ipResolved
    ambiguousAttributed := ← pyInt (← column overallRow 2)
    ipResolvedFraction := ratioOf ipResolved attributed
    maxCandidateCount := ← pyInt (orZero (← column overallRow 3))
    topClusters := ← topRows.mapM ipCluster }

def genreCount (row : Row) : Except PyException (String × Int) := do
  return (← strField (← column row 0), ← pyInt (← column row 1))

/-- `genre_reach`. -/
def genreReach (expRows convRows : List Row) : Except PyException (List GenreReach) := do
  let convByGenre := OrderedDict.collect Prod.fst (fun p _ => p.2) (← convRows.mapM genreCount)
  let counts ← expRows.mapM genreCount
  return (sortedBy (fun p => (toLex p : String ×ₗ Int)) counts).map fun (genre, exposures) =>
    let conversions := (convByGenre.get? genre).getD 0
    ⟨genre, exposures, conversions, ratioOf conversions exposures⟩

def campaignMetricsOf (r : Row) : Except PyException CampaignMetrics := do
  return {
    campaign := ← strField (← column r 0)
    spend := ← pyFloat (← column r 1)
    exposures := ← pyInt (← column r 2)
    conversions := ← pyInt (← column r 3)
    purchases := ← pyInt (← column r 4)
    revenue := ← pyFloat (← column r 5)
    roas := ← optionalFloat (← column r 6)
    cpa := ← optionalFloat (← column r 7)
    cvr := ← optionalFloat (← column r 8)
    siteVisitRate := ← optionalFloat (← column r 9) }

/-- `campaign_metrics`. -/
def campaignMetrics (reportRows : List Row) : Except PyException (List CampaignMetrics) :=
  reportRows.mapM campaignMetricsOf

/-- The change of the ROAS is converted without a look at NULL. -/
def campaignRestatementOf (r : Row) : Except PyException CampaignRestatement := do
  return {
    campaign := ← strField (← column r 0)
    roasAsReported := ← optionalFloat (← column r 1)
    roasNow := ← optionalFloat (← column r 2)
    roasDelta := ← pyFloat (← column r 3)
    conversionsAsReported := ← pyInt (← column r 4)
    conversionsNow := ← pyInt (← column r 5)
    revenueDelta := ← pyFloat (← column r 6) }

/-- `campaign_restatements`. -/
def campaignRestatements (restatementRows : List Row) : Except PyException (List CampaignRestatement) :=
  restatementRows.mapM campaignRestatementOf

/-- `build_context`. -/
def buildContext (profile : String) (matchRateRows reportRows restatementRows : List Row)
    (windowEdgeLags : List Int) (ipOverallRow : Row) (ipTopRows genreExpRows genreConvRows : List Row) :
    Except PyException AttributionContext := do
  let (processed, attributed, matchRate, points) ← matchRateSeries matchRateRows
  return {
    profile := profile
    processed := processed
    attributed := attributed
    matchRate := matchRate
    matchRateByDay := points
    campaigns := ← campaignMetrics reportRows
    restatements := ← campaignRestatements restatementRows
    windowEdge := windowEdgeStats windowEdgeLags
    ipClusters := ← ipClusterStats ipOverallRow ipTopRows
    genreReach := ← genreReach genreExpRows genreConvRows }

/-- `collect`. -/
def collect (s : Serving) (profile : String) : Except PyException AttributionContext := do
  let ipOverall ← match (ipClusterOverall s)[0]? with
    | some row => Except.ok row
    | none => .error ⟨.other, "list index out of range"⟩
  let lags ← (windowEdgeLags s).mapM fun row => do pyInt (← column row 0)
  buildContext profile (matchRateByDay s) (reportRows s) (restatementRows s) lags ipOverall
    (ipClusterTop s) (genreExposures s) (genreConversions s)

end collectors
end CtvAttribution.Collect
