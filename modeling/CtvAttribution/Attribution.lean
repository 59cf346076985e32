import CtvAttribution.Library.WatermarkJoin
import CtvAttribution.Resolver

/-! The attribution core: dedup, the placeholder collapse, the last-touch leaf, the
watermark-gated streaming pass and the non-evicting oracle. -/
namespace CtvAttribution
open Library

def hotWindow : Int := 7 * Time.day
def allowedLatenessDefault : Int := 6 * Time.hour

section dedup
variable {α κ : Type} [DecidableEq κ]

/-- `dedup_by_id`: keep the first row per key, count the suppressed re-sends. -/
def dedupById (rows : List α) (key : α → κ) : List α × Nat :=
  let (_, kept, suppressed) := rows.foldl
    (fun (seen, kept, suppressed) row =>
      if key row ∈ seen then (seen, kept, suppressed + 1)
      else (key row :: seen, kept ++ [row], suppressed))
    (([] : List κ), ([] : List α), 0)
  (kept, suppressed)

end dedup

/-- `dedup_streams`: exposures by id, resolved rows by conversion and household. -/
def dedupStreams (exposures : List Exposure) (resolved : List ResolvedConversion) :
    List Exposure × List ResolvedConversion × Nat :=
  let (exp, expN) := dedupById exposures Exposure.exposureId
  let (res, resN) := dedupById resolved fun r => (r.conversionId, r.householdId)
  (exp, res, expN + resN)

/-- One attribution result; `lastTouchTime` is the credited exposure's event time. -/
structure Candidate where
  row : AttributedConversion
  lastTouchTime : Option Int
  deriving DecidableEq, Repr

/-- `one_row_per_conversion`: a fan-out collapses to its lowest household. -/
def oneRowPerConversion (resolved : List ResolvedConversion) : List ResolvedConversion :=
  (OrderedDict.collect (fun r => r.conversionId) (lowerOf fun r => r.householdId) resolved).values

/-- `candidate_households_by_conversion`: sorted candidates of the fan-outs; certain
conversions are absent. -/
def candidateHouseholdsByConversion (rows : List ResolvedConversion) : OrderedDict String (List String) :=
  (OrderedDict.groupBy (fun r => r.conversionId) (rows.filter fun r => 1 < r.candidateCount)).mapValues
    fun rs => sortedSet (rs.map fun r => r.householdId)

/-- `_candidates_of`. -/
def candidatesOf (conv : ResolvedConversion) (candidates : OrderedDict String (List String)) :
    Except ValueError (List String) :=
  if conv.candidateCount = 1 then .ok []
  else match candidates.get? conv.conversionId with
    | none => .error (.noCandidatesSupplied conv.conversionId conv.candidateCount)
    | some [] => .error (.noCandidatesSupplied conv.conversionId conv.candidateCount)
    | some hhs => .ok hhs

/-- `_attributed`: the row of a decision, on the hot path, versioned by ingest time. -/
def attributed (conv : ResolvedConversion) (exposureId : Option String) (assists : List String)
    (isAttributed : Bool) (candidateHouseholds : List String) : Except ValueError AttributedConversion :=
  let reason := if isAttributed then none
    else some (if conv.candidateCount > 1 then Reason.ambiguousIp else Reason.stateMiss)
  AttributedConversion.validate conv exposureId assists isAttributed .hot conv.ingestTime reason candidateHouseholds

def eligible (exposures : List Exposure) (conv : ResolvedConversion) (window : Int) : List Exposure :=
  exposures.filter fun e => conv.eventTime - window ≤ e.eventTime ∧ e.eventTime ≤ conv.eventTime

/-- The recency order of last touch: event time, ties by exposure id. -/
def recency (e : Exposure) : Int ×ₗ String := toLex (e.eventTime, e.exposureId)

/-- `last_touch`, the leaf over the exposures of one household. -/
def lastTouch (exposures : List Exposure) (conv : ResolvedConversion) (window : Int)
    (candidateHouseholds : List String) : Except ValueError Candidate :=
  let eligible := eligible exposures conv window
  match eligible.argmax recency with
  | none => do return ⟨← attributed conv none [] false candidateHouseholds, none⟩
  | some winner =>
    let assists := sortedSet ((eligible.map Exposure.exposureId).filter (· ≠ winner.exposureId))
    do return ⟨← attributed conv (some winner.exposureId) assists true candidateHouseholds,
      some winner.eventTime⟩

/-- The hot rule for one conversion: a shared-IP conversion is deferred without
probing the exposures, a certain one gets the leaf. -/
def attributeOne (exposures : List Exposure) (window : Int)
    (candidates : OrderedDict String (List String)) (conv : ResolvedConversion) :
    Except ValueError Candidate :=
  if conv.candidateCount > 1 then do
    return ⟨← attributed conv none [] false (← candidatesOf conv candidates), none⟩
  else lastTouch exposures conv window []

/-- `attribute_household`. -/
def attributeHousehold (exposures : List Exposure) (resolved : List ResolvedConversion) (window : Int)
    (candidates : OrderedDict String (List String)) : Except ValueError (List Candidate) :=
  resolved.mapM (attributeOne exposures window candidates)

/-- A tagged event of one household: `("exp", exposure)` or `("res", conversion)`. -/
abbrev Event := Arrival Exposure ResolvedConversion

namespace Event

def kind : Event → String
  | .build _ => "exp"
  | .probe _ => "res"

def ident : Event → String
  | .build e => e.exposureId
  | .probe c => c.conversionId

def ingestTime : Event → Int
  | .build e => e.ingestTime
  | .probe c => c.ingestTime

def eventTime : Event → Int
  | .build e => e.eventTime
  | .probe c => c.eventTime

def householdId : Event → String
  | .build e => e.householdId
  | .probe c => c.householdId

end Event

/-- `_arrival_key`: ingest time, then the stable (kind, id) tiebreak. -/
def arrivalKey (ev : Event) : Int ×ₗ String ×ₗ String :=
  toLex (Event.ingestTime ev, toLex (Event.kind ev, Event.ident ev))

/-- `event_time_watermark`. -/
def eventTimeWatermark (watermark : Option Int) (eventTime allowedLateness : Int) : Int :=
  let candidate := eventTime - allowedLateness
  match watermark with
  | none => candidate
  | some w => if w < candidate then candidate else w

structure StreamState where
  peak : Nat
  evicted : Nat
  final : Nat
  deriving DecidableEq, Repr

structure StreamResult where
  candidates : List Candidate
  state : StreamState
  deriving DecidableEq, Repr

/-- The local variables of the streaming loop. -/
structure StreamVars where
  exposures : List Exposure
  pending : List ResolvedConversion
  out : List Candidate
  watermark : Option Int
  peak : Nat
  evicted : Nat

section streaming
variable (window allowedLateness : Int) (candidates : OrderedDict String (List String))

/-- `for conv in released: out.extend(attribute_household(exposures, [conv], ..))`. -/
def release (exposures : List Exposure) (released : List ResolvedConversion) (out : List Candidate) :
    Except ValueError (List Candidate) :=
  released.foldlM
    (fun out conv => do return out ++ (← attributeHousehold exposures [conv] window candidates)) out

/-- One iteration: advance the watermark, buffer, release, evict. -/
def streamTick (s : StreamVars) (ev : Event) : Except ValueError StreamVars := do
  let watermark := eventTimeWatermark s.watermark (Event.eventTime ev) allowedLateness
  let exposures := match ev with
    | .build e => s.exposures ++ [e]
    | .probe _ => s.exposures
  let pending := match ev with
    | .build _ => s.pending
    | .probe c => s.pending ++ [c]
  let released := pending.filter fun c => c.eventTime ≤ watermark
  let out ← release window candidates exposures released s.out
  let keep := exposures.filter fun e => watermark ≤ e.eventTime + window
  return { exposures := keep, pending := pending.filter fun c => watermark < c.eventTime, out,
           watermark := some watermark, peak := max s.peak keep.length,
           evicted := s.evicted + (exposures.length - keep.length) }

/-- `attribute_household_streaming`: the arrival-ordered pass over one household, with
the end-of-input flush against the surviving state. -/
def attributeHouseholdStreaming (events : List Event) : Except ValueError StreamResult := do
  let s ← (sortedBy arrivalKey events).foldlM (streamTick window allowedLateness candidates)
    { exposures := [], pending := [], out := [], watermark := none, peak := 0, evicted := 0 }
  let out ← release window candidates s.exposures s.pending s.out
  return ⟨out, { peak := s.peak, evicted := s.evicted, final := s.exposures.length }⟩

end streaming

/-- `attribute`, the non-evicting oracle. -/
def attributeOracle (exposures : List Exposure) (resolved : List ResolvedConversion) (window : Int) :
    Except ValueError (List AttributedConversion) := do
  let expByHh := OrderedDict.groupBy Exposure.householdId exposures
  let candidates := candidateHouseholdsByConversion resolved
  let resByHh := OrderedDict.groupBy (fun r => r.householdId) (oneRowPerConversion resolved)
  let rows ← resByHh.entries.mapM fun (hid, resRows) =>
    attributeHousehold ((expByHh.get? hid).getD []) resRows window candidates
  return sortedBy (fun r => r.conversionId) (rows.flatten.map Candidate.row)

end CtvAttribution
