import CtvAttribution.Library.Script
import CtvAttribution.Rollup

/-! The serving tables, the loads that fill them from the lake, and the incremental
refresh of the rollup. Every statement is one atomic write. -/
namespace CtvAttribution
open Library

/-- The tables as insertion logs. -/
structure Serving where
  exposuresLanded : List Exposure
  attributedConversions : List AttributedConversion
  evalMeta : List String
  campaignHourly : List RollupRow
  rollupDirty : List RollupStamp
  rollupRefreshed : List RollupStamp
  reportSnapshots : List ReportSnapshot
  deriving DecidableEq

/-- The refusals of a driver. -/
inductive Failure where
  | value (e : ValueError)
  | unknownPartition (days : List Int)
  | emptyLake
  | decimalOverflow
  deriving DecidableEq, Repr

namespace Serving

def empty : Serving := ⟨[], [], [], [], [], [], []⟩

variable (s : Serving)

/-- exposures_landed FINAL: `ReplacingMergeTree` without a version, the last insert wins. -/
def exposuresFinal : List Exposure := finalRows exposureKey (fun _ => ()) s.exposuresLanded

/-- attributed_conversions FINAL. -/
def attributedFinal : List AttributedConversion :=
  finalRows (fun r => r.conversionId) (fun r => r.processedAt) s.attributedConversions

def campaignHourlyFinal : List RollupRow := finalRows RollupRow.key RollupRow.reportedAt s.campaignHourly

def rollupDirtyFinal : List RollupStamp := finalRows RollupStamp.key RollupStamp.version s.rollupDirty

/-- The version a key was last refreshed at; the join default is the epoch. -/
def refreshedVersion (key : RollupKey) : Int :=
  ((finalRow RollupStamp.key RollupStamp.version s.rollupRefreshed key).map RollupStamp.version).getD 0

/-- `max(ingest_time)` over both landed tables. -/
def maxIngest : Int :=
  max (maxOf (s.exposuresFinal.map Exposure.ingestTime)) (maxOf (s.attributedFinal.map fun r => r.ingestTime))

/-- `dirty_keys`: `isNull(r.version)` never holds, a missing row joins as the epoch. -/
def dirtyKeys : List RollupStamp :=
  sortedBy (fun d : RollupStamp => (toLex d.key : String ×ₗ Int)) <|
    s.rollupDirtyFinal.filter fun d => d.version ≠ s.refreshedVersion d.key

/-- `_DIRTY_FROM_EXPOSURES`. -/
def dirtyFromExposures (day : Int) : List RollupStamp :=
  (s.exposuresFinal.filter fun e => dayOf e.eventTime = day).map fun e =>
    ⟨e.campaignId, toStartOfHour e.eventTime, e.ingestTime⟩

/-- `_DIRTY_FROM_EXPOSURE_CREDITS`. -/
def dirtyFromExposureCredits (day : Int) : List RollupStamp :=
  (credits (s.exposuresFinal.filter fun e => dayOf e.eventTime = day) s.attributedFinal).map fun c =>
    ⟨c.2.campaignId, toStartOfHour c.2.eventTime, c.1.processedAt⟩

/-- `_DIRTY_FROM_ATTRIBUTED`. -/
def dirtyFromAttributed (day : Int) : List RollupStamp :=
  ((credits s.exposuresFinal s.attributedFinal).filter fun c => dayOf c.1.eventTime = day).map fun c =>
    ⟨c.2.campaignId, toStartOfHour c.2.eventTime, c.1.processedAt⟩

/-- `insert into rollup_dirty select .., max(..) as version .. group by campaign_id, hour`. -/
def insertDirty (stamps : List RollupStamp) : Serving :=
  { s with rollupDirty := s.rollupDirty ++ collapse RollupStamp.key RollupStamp.version stamps }

/-- `_REFRESH_CAMPAIGN_HOURLY` restricted to the given keys. -/
def insertRefreshed (keys : List RollupKey) : Serving :=
  { s with
    campaignHourly := s.campaignHourly ++ refreshRows (some keys) s.exposuresFinal s.attributedFinal }

/-- `_STAMP_REFRESHED`. -/
def stampRefreshed (keys : List RollupStamp) : Serving :=
  { s with rollupRefreshed := s.rollupRefreshed ++ keys }

/-- `_WRITE_REPORT_SNAPSHOT`. -/
def insertSnapshot (offset : Int) (hotOnly : Bool) : Serving :=
  { s with
    reportSnapshots := s.reportSnapshots ++
      snapshotRows s.exposuresFinal s.attributedFinal (s.maxIngest + offset) hotOnly }

end Serving

abbrev ServingScript := Script Serving Failure Unit

/-- `_BATCH`. -/
def batchSize : Nat := 256

/-- `insert_exposures`, one insert per chunk. -/
def insertExposures (rows : List Exposure) : ServingScript :=
  Script.forEach (batched batchSize rows) fun chunk =>
    Script.modify fun s => { s with exposuresLanded := s.exposuresLanded ++ chunk }

/-- `insert_attributed`. -/
def insertAttributed (rows : List AttributedConversion) : ServingScript :=
  Script.forEach (batched batchSize rows) fun chunk =>
    Script.modify fun s => { s with attributedConversions := s.attributedConversions ++ chunk }

/-- `record_dirty_exposure_keys`. -/
def recordDirtyExposureKeys (day : Int) : ServingScript := do
  Script.modify fun s => s.insertDirty (s.dirtyFromExposures day)
  Script.modify fun s => s.insertDirty (s.dirtyFromExposureCredits day)

/-- `record_dirty_attributed_keys`. -/
def recordDirtyAttributedKeys (day : Int) : ServingScript :=
  Script.modify fun s => s.insertDirty (s.dirtyFromAttributed day)

/-- `load_exposures_day`. -/
def loadExposuresDay (log : List Exposure) (day : Int) : ServingScript := do
  insertExposures (readExposuresForDays log [day])
  recordDirtyExposureKeys day

/-- `load_attributed_day`. -/
def loadAttributedDay (log : List AttributedConversion) (day : Int) : ServingScript := do
  insertAttributed (readCurrent log (some [day]))
  recordDirtyAttributedKeys day

/-- `refresh_campaign_hourly`: recompute the dirty keys, then stamp them. -/
def refreshCampaignHourly : ServingScript := do
  let keys := (← Script.get).dirtyKeys
  if keys = [] then return ()
  Script.modify fun s => s.insertRefreshed (keys.map RollupStamp.key)
  Script.modify fun s => s.stampRefreshed keys

/-- `write_report_snapshot`. -/
def writeReportSnapshot (offset : Int) (hotOnly : Bool) : ServingScript :=
  Script.modify fun s => s.insertSnapshot offset hotOnly

end CtvAttribution
