import CtvAttribution.Library.VersionedRows
import CtvAttribution.Models

/-! The lake of record: two append-only logs, read back distinct and current. A day is
its number on the UTC axis; day numbers sort as ISO dates do. -/
namespace CtvAttribution
open Library

structure Lake where
  exposures : List Exposure
  attributed : List AttributedConversion
  deriving DecidableEq

def Lake.empty : Lake := ⟨[], []⟩

/-- `_to_utc_ms`: truncate to the millisecond. -/
def toUtcMs (t : Int) : Int := t / Time.millisecond * Time.millisecond

def dayOf (t : Int) : Int := t / Time.day

/-- `touched_days`, as a sorted set. -/
def touchedDays (times : List Int) : List Int := sortedSet (times.map fun t => dayOf (toUtcMs t))

def landedExposure (e : Exposure) : Exposure :=
  { e with eventTime := toUtcMs e.eventTime, ingestTime := toUtcMs e.ingestTime }

def landedRow (r : AttributedConversion) : AttributedConversion :=
  { r with eventTime := toUtcMs r.eventTime, ingestTime := toUtcMs r.ingestTime,
           processedAt := toUtcMs r.processedAt }

/-- `land`: append to raw.exposures. -/
def Lake.land (lake : Lake) (exposures : List Exposure) : Lake :=
  { lake with exposures := lake.exposures ++ exposures.map landedExposure }

/-- `land_attributed`: append to raw.attributed_conversions. -/
def Lake.landAttributed (lake : Lake) (rows : List AttributedConversion) : Lake :=
  { lake with attributed := lake.attributed ++ rows.map landedRow }

/-- `day_ranges_predicate`: `event_time >= d and event_time < d + 1` for one of the days. -/
def dayRangesPredicate (days : List Int) (eventTime : Int) : Bool :=
  days.any fun d => d * Time.day ≤ eventTime ∧ eventTime < d * Time.day + Time.day

/-- The order of `row_number()`: `processed_at desc, path desc`. -/
def recordVersion (r : AttributedConversion) : Int ×ₗ String := toLex (r.processedAt, r.path.text)

/-- The rows of the log `read_current` scans. -/
def scanned (log : List AttributedConversion) : Option (List Int) → List AttributedConversion
  | none => log
  | some days => log.filter fun r => dayRangesPredicate days r.eventTime

/-- `read_current`: the current row per conversion, ordered by conversion. The statement leaves
the choice between rows of equal version and path open; here it is the first of the log. -/
def readCurrent (log : List AttributedConversion) (days : Option (List Int)) : List AttributedConversion :=
  sortedBy (fun r => r.conversionId)
    (collapse (fun r => r.conversionId) recordVersion (firstSeen (scanned log days)))

/-- The sort key of exposures_landed. -/
def exposureKey (e : Exposure) : String ×ₗ Int ×ₗ String :=
  toLex (e.campaignId, toLex (e.eventTime, e.exposureId))

/-- `read_exposures_for_days`. -/
def readExposuresForDays (log : List Exposure) (days : List Int) : List Exposure :=
  sortedBy exposureKey (firstSeen (log.filter fun e => dayRangesPredicate days e.eventTime))

/-- `read_exposures_by_household` with both bounds given. -/
def readExposuresByHousehold (log : List Exposure) (householdIds : List String)
    (minEventTime maxEventTime : Int) : OrderedDict String (List Exposure) :=
  OrderedDict.groupBy Exposure.householdId <| sortedBy Exposure.exposureId <| firstSeen <|
    log.filter fun e => e.householdId ∈ householdIds ∧ minEventTime ≤ e.eventTime ∧ e.eventTime < maxEventTime

/-- `lake_days`: every event day of either log. -/
def Lake.days (lake : Lake) : List Int :=
  sortedSet (lake.exposures.map (fun e => dayOf e.eventTime) ++ lake.attributed.map fun r => dayOf r.eventTime)

/-- `compact_days` on one day of a log: delete what the day filter selects, write it back. -/
def compactDay {α : Type} (eventTime : α → Int) (log : List α) (day : Int) : List α :=
  log.filter (fun x => !dayRangesPredicate [day] (eventTime x)) ++
    log.filter fun x => dayRangesPredicate [day] (eventTime x)

/-- `maintain`: rewrite the days of both logs that hold small files. -/
def Lake.maintain (lake : Lake) (exposureDays attributedDays : List Int) : Lake where
  exposures := exposureDays.foldl (compactDay Exposure.eventTime) lake.exposures
  attributed := attributedDays.foldl (compactDay fun r => r.eventTime) lake.attributed

end CtvAttribution
