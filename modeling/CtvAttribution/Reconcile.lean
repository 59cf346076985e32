import CtvAttribution.Attribution
import CtvAttribution.Lake

/-! The reconcile pass: the matcher over expanded candidates, and its bucket-aligned read
of one day of the lake. -/
namespace CtvAttribution
open Library

def longWindow : Int := 90 * Time.day
def reconcileDelta : Int := 1000 * Time.millisecond

/-- `reconciled_at_for`. -/
def reconciledAtFor (base : Int) : Int := base + reconcileDelta

/-- Recency of a last touch, ties by exposure, then household. An attributed candidate
always carries its time and exposure. -/
def touchRecency (c : Candidate) : Int ×ₗ String ×ₗ String :=
  toLex (c.lastTouchTime.getD 0, toLex (c.row.exposureId.getD "", c.row.householdId))

/-- `pick_household`: the most recent last touch among the attributed candidates. -/
def pickHousehold (candidates : List Candidate) : Option Candidate :=
  (candidates.filter fun c => c.row.attributed).argmax touchRecency

/-- `expand_candidates`: one record per candidate household. -/
def expandCandidates (candidates : List AttributedConversion) : List ResolvedConversion :=
  candidates.flatMap fun conv =>
    if conv.candidateCount > 1 then
      conv.candidateHouseholds.map fun h => { conv.toResolvedConversion with householdId := h }
    else [conv.toResolvedConversion]

/-- What `reconcile` does with the records of one conversion. -/
def reconcileGroup (exposuresOf : String → List Exposure) (window reconciledAt : Int)
    (candidateHouseholds : List String) (cid : String) (rows : List ResolvedConversion) :
    Except ValueError (Option AttributedConversion) := do
  if rows.length = 1 ∧ rows.any (fun r => 1 < r.candidateCount) then
    throw (ValueError.notExpanded cid)
  let scored ← rows.mapM fun r => lastTouch (exposuresOf r.householdId) r window candidateHouseholds
  return (pickHousehold scored).map fun winner =>
    { winner.row with path := .reconciled, processedAt := reconciledAt }

/-- `reconcile`: the matcher over expanded candidates. Only conversions that now match are
returned, re-stamped with the pass's version. -/
def reconcile (candidates : List ResolvedConversion)
    (exposuresByHousehold : OrderedDict String (List Exposure)) (window reconciledAt : Int) :
    Except ValueError (List AttributedConversion) := do
  let byCid := candidateHouseholdsByConversion candidates
  let recovered ← (OrderedDict.groupBy (fun r => r.conversionId) candidates).entries.mapM fun (cid, rows) =>
    reconcileGroup (fun h => (exposuresByHousehold.get? h).getD []) window reconciledAt
      ((byCid.get? cid).getD []) cid rows
  return recovered.filterMap id

/-- `_check_candidate`: the reason column must agree with the candidate count. -/
def checkCandidate (r : AttributedConversion) : Except ValueError Unit :=
  let expected := if r.candidateCount > 1 then Reason.ambiguousIp else Reason.stateMiss
  match r.reason with
  | none => .ok ()
  | some reason =>
    if reason ≠ expected then .error (.reasonDisagrees r.conversionId reason r.candidateCount) else .ok ()

/-- `lake_candidates`: the current hot-unattributed rows of one day, or of the whole lake. -/
def lakeCandidates (log : List AttributedConversion) (day : Option Int) :
    Except ValueError (List AttributedConversion) := do
  let rows := (readCurrent log (day.map fun d => [d])).filter fun r => !r.attributed ∧ r.path = .hot
  let _ ← rows.mapM checkCandidate
  return rows

/-- `candidate_days`. -/
def candidateDays (log : List AttributedConversion) : Except ValueError (List Int) := do
  return sortedSet ((← lakeCandidates log none).map fun c => dayOf c.eventTime)

section recover
variable (bucketOf : String → Nat)

/-- The exposures `recover_day` gathers, bucket by bucket. -/
def bucketExposures (log : List Exposure) (expanded : List ResolvedConversion) (minTime maxTime : Int) :
    OrderedDict String (List Exposure) :=
  let byBucket := (OrderedDict.groupBy (fun r : ResolvedConversion => bucketOf r.householdId)
    expanded).mapValues fun rs => sortedSet (rs.map fun r => r.householdId)
  (sortedSet byBucket.keys).foldl (fun exposures b =>
    exposures.update (readExposuresByHousehold log ((byBucket.get? b).getD []) minTime maxTime)) .empty

/-- `recover_day`: explode the day's candidates, read each bucket's exposures of
`[day - window, day]`, and match. -/
def recoverDay (lake : Lake) (day reconciledAt window : Int) :
    Except ValueError (List AttributedConversion) := do
  let start := day * Time.day
  let expanded := expandCandidates (← lakeCandidates lake.attributed (some day))
  let exposures := bucketExposures bucketOf lake.exposures expanded (start - window) (start + Time.day)
  reconcile expanded exposures window reconciledAt

/-- The comprehension of `run`: the corrections of several days, read from one log. -/
def recoverDays (lake : Lake) (days : List Int) (reconciledAt : Int) :
    Except ValueError (List AttributedConversion) := do
  return (← days.mapM fun day => recoverDay bucketOf lake day reconciledAt longWindow).flatten

/-- The lake's side of a pass over some days. -/
def Lake.pass (lake : Lake) (days : List Int) (reconciledAt : Int) : Except ValueError Lake := do
  return lake.landAttributed (← recoverDays bucketOf lake days reconciledAt)

/-- The lake's side of `run`: a pass over every candidate day. -/
def Lake.fullPass (lake : Lake) (reconciledAt : Int) : Except ValueError Lake := do
  lake.pass bucketOf (← candidateDays lake.attributed) reconciledAt

/-- Passes over batches of days, each landed before the next one reads. -/
def Lake.passes (lake : Lake) (batches : List (List Int)) (reconciledAt : Int) : Except ValueError Lake :=
  batches.foldlM (fun lake days => lake.pass bucketOf days reconciledAt) lake

end recover
end CtvAttribution
