import CtvAttribution.Dataflow
import CtvAttribution.Reconcile
import CtvAttribution.Serving

/-! The drivers over both stores: landing and loading an engine run, the two reconcile
drivers, and the replay. -/
namespace CtvAttribution
open Library

structure System where
  lake : Lake
  serving : Serving
  deriving DecidableEq

abbrev SystemScript := Script System Failure

/-- A statement on ClickHouse. -/
def onServing (p : ServingScript) : SystemScript Unit :=
  p.zoom System.serving fun σ s => { σ with serving := s }

/-- An append to the lake. -/
def onLake (f : Lake → Lake) : SystemScript Unit := Script.modify fun σ => { σ with lake := f σ.lake }

/-- A pure function of the pipeline, whose `ValueError` stops the driver. -/
def orRaise {α : Type} (x : Except ValueError α) : SystemScript α := Script.ofExcept (x.mapError Failure.value)

/-- `DAY_PARTITIONS`: the days of [2026-08-01, 2027-08-01). -/
def dayPartitions (day : Int) : Bool := 20666 ≤ day ∧ day < 21031

/-- The two load assets of one day. -/
def loadDay (day : Int) : SystemScript Unit := do
  onServing (loadExposuresDay (← Script.get).lake.exposures day)
  onServing (loadAttributedDay (← Script.get).lake.attributed day)

/-- `materialize_load`. -/
def materializeLoad (days : List Int) : SystemScript Unit := do
  if days = [] then return ()
  let unknown := sortedSet (days.filter fun d => !dayPartitions d)
  if unknown ≠ [] then Script.fail (.unknownPartition unknown)
  Script.forEach (sortedSet days) loadDay
  onServing refreshCampaignHourly

/-- `land_run`: both outputs of an engine run; returns the touched days. -/
def landRun (run : EngineRun) : SystemScript (List Int) := do
  onLake fun lake => lake.land run.exposures
  onLake fun lake => lake.landAttributed run.rows
  return touchedDays (run.exposures.map Exposure.eventTime) ++ touchedDays (run.rows.map fun r => r.eventTime)

/-- `write_marker`. -/
def writeMarker (profile : String) : SystemScript Unit :=
  onServing (Script.modify fun s => { s with evalMeta := s.evalMeta ++ [profile] })

/-- `main` of the engine, once its run is computed. -/
def engineMain (run : EngineRun) (profile : String) : SystemScript Unit := do
  materializeLoad (← landRun run)
  writeMarker profile

/-- `finalize`: the pre and the post snapshot. -/
def finalize : SystemScript Unit := do
  onServing (writeReportSnapshot 0 true)
  onServing (writeReportSnapshot reconcileDelta false)

section reconcile
variable (bucketOf : String → Nat)

/-- `run`: one reconciliation pass over the lake. -/
def reconcileRun : SystemScript Unit := do
  let σ ← Script.get
  let reconciledAt := reconciledAtFor σ.serving.maxIngest
  let days ← orRaise (candidateDays σ.lake.attributed)
  let recovered ← orRaise (recoverDays bucketOf σ.lake days reconciledAt)
  onLake fun lake => lake.landAttributed recovered
  materializeLoad (touchedDays (recovered.map fun r => r.eventTime))
  finalize

/-- `reconciled_conversions[day]`: recover the day, append, report the touched days. -/
def reconciledConversions (day : Int) : SystemScript (List Int) := do
  if !dayPartitions day then Script.fail (.unknownPartition [day])
  let σ ← Script.get
  let recovered ← orRaise (recoverDay bucketOf σ.lake day (reconciledAtFor σ.serving.maxIngest) longWindow)
  onLake fun lake => lake.landAttributed recovered
  return touchedDays (recovered.map fun r => r.eventTime)

/-- `run_reconcile`: every candidate day, or one partition. -/
def runReconcile (partition : Option Int) : SystemScript Unit := do
  let σ ← Script.get
  let days ← match partition with
    | some day => pure [day]
    | none => orRaise (candidateDays σ.lake.attributed)
  let touched ← Script.collect days (reconciledConversions bucketOf)
  materializeLoad touched.flatten
  finalize

end reconcile

/-- `SERVING_TABLES`, the six derived tables. -/
inductive ServingTable where
  | exposuresLanded
  | attributedConversions
  | evalMeta
  | campaignHourly
  | rollupDirty
  | rollupRefreshed
  deriving DecidableEq, Repr

def servingTables : List ServingTable :=
  [.exposuresLanded, .attributedConversions, .evalMeta, .campaignHourly, .rollupDirty, .rollupRefreshed]

/-- `truncate table`. -/
def truncate (s : Serving) : ServingTable → Serving
  | .exposuresLanded => { s with exposuresLanded := [] }
  | .attributedConversions => { s with attributedConversions := [] }
  | .evalMeta => { s with evalMeta := [] }
  | .campaignHourly => { s with campaignHourly := [] }
  | .rollupDirty => { s with rollupDirty := [] }
  | .rollupRefreshed => { s with rollupRefreshed := [] }

/-- `truncate_and_reload`. -/
def truncateAndReload (days : List Int) : SystemScript Unit := do
  if days = [] then Script.fail .emptyLake
  Script.forEach servingTables fun table => onServing (Script.modify fun s => truncate s table)
  materializeLoad days

end CtvAttribution
