import CtvAttribution.Library.DateTimes
import CtvAttribution.StoredLake
import Mathlib.Data.Finset.Dedup
import Mathlib.Data.Finset.Insert

/-! Model rows with the times Python holds, on their way through the stores: landed, read
back, and put in insert order. Elsewhere a time is its instant; here it is a wall clock with
or without a timezone. -/
namespace CtvAttribution.RowTrips
open Library

structure Exposure where
  exposureId : String
  eventTime : DateTime
  ingestTime : DateTime
  campaignId : String
  householdId : String
  ip : String
  appId : String
  programGenre : String
  spend : Money
  deriving DecidableEq, Repr

structure AttributedConversion where
  conversionId : String
  eventTime : DateTime
  ingestTime : DateTime
  deviceId : String
  ip : String
  conversionType : ConversionType
  revenue : Money
  orderId : Option String
  householdId : String
  resolution : Resolution
  ambiguous : Bool
  candidateCount : Nat
  candidateCount_pos : 1 ≤ candidateCount
  exposureId : Option String
  assists : List String
  attributed : Bool
  path : Path
  processedAt : DateTime
  reason : Option Reason
  candidateHouseholds : List String
  candidateSetMatchesCount : CandidateSetMatchesCount candidateCount householdId candidateHouseholds

/-- The row with its times as instants. -/
def Exposure.instants (e : Exposure) : CtvAttribution.Exposure :=
  { e with eventTime := e.eventTime.instant, ingestTime := e.ingestTime.instant }

def AttributedConversion.instants (r : AttributedConversion) : CtvAttribution.AttributedConversion :=
  { r with eventTime := r.eventTime.instant, ingestTime := r.ingestTime.instant,
           processedAt := r.processedAt.instant }

/-- A row built over three times. -/
def AttributedConversion.ofRow :
    CtvAttribution.AttributedConversion → DateTime → DateTime → DateTime → AttributedConversion
  | ⟨⟨⟨conversionId, _, _, deviceId, ip, conversionType, revenue, orderId⟩, householdId, resolution, ambiguous,
      candidateCount, hpos⟩, exposureId, assists, attributed, path, _, reason, candidateHouseholds, hset⟩,
    eventTime, ingestTime, processedAt =>
    ⟨conversionId, eventTime, ingestTime, deviceId, ip, conversionType, revenue, orderId, householdId, resolution,
      ambiguous, candidateCount, hpos, exposureId, assists, attributed, path, processedAt, reason,
      candidateHouseholds, hset⟩

inductive TripError where
  | overflow (e : OverflowError)
  | arrowInvalid (candidateCount : Int)
  | read (e : ReadError)
  deriving DecidableEq, Repr

/-- `_to_utc_ms`. -/
def toUtcMs (dt : DateTime) : Except TripError DateTime := do
  let dt ← dt.toUtc.mapError .overflow
  return dt.replaceMicrosecond ⟨dt.microsecond / 1000 * 1000, by omega⟩

/-- `touched_days`: the UTC dates, a set. -/
def touchedDays (times : List DateTime) : Except TripError (Finset Date) := do
  return ((← times.mapM toUtcMs).map DateTime.date).toFinset

/-- What `_to_arrow` makes of an exposure. -/
def Exposure.toArrow (e : Exposure) : Except TripError StoredExposure := do
  let eventTime ← toUtcMs e.eventTime
  let ingestTime ← toUtcMs e.ingestTime
  return { e.instants.stored with eventTime := eventTime.instant, ingestTime := ingestTime.instant }

/-- The dictionary `_to_arrow` makes of an attributed row. -/
def AttributedConversion.dump (r : AttributedConversion) : Except TripError StoredRow := do
  let eventTime ← toUtcMs r.eventTime
  let ingestTime ← toUtcMs r.ingestTime
  let processedAt ← toUtcMs r.processedAt
  return { r.instants.stored with eventTime := eventTime.instant, ingestTime := ingestTime.instant,
                                  processedAt := processedAt.instant }

/-- `pa.int32()`, the type of `candidate_count`. -/
def int32Max : Int := 2147483647

/-- `pa.Table.from_pylist` under the schema. -/
def fromPylist (r : StoredRow) : Except TripError StoredRow :=
  if r.candidateCount ≤ int32Max then .ok r else .error (.arrowInvalid r.candidateCount)

/-- `_to_arrow` of attributed rows: every dictionary is made before the table is. -/
def toArrow (rows : List AttributedConversion) : Except TripError (List StoredRow) := do
  let dicts ← rows.mapM AttributedConversion.dump
  dicts.mapM fromPylist

/-- `land`. -/
def land (c : Catalog) (exposures : List Exposure) : Except TripError (Catalog × Finset Date) :=
  if exposures = [] then .ok (c, ∅)
  else do
    let table ← c.ensureExposures.mapError .read
    let rows ← exposures.mapM Exposure.toArrow
    let days ← touchedDays (exposures.map Exposure.eventTime)
    return ({ c with exposures := some { table with rows := table.rows ++ rows } }, days)

/-- `land_attributed`. -/
def landAttributed (c : Catalog) (rows : List AttributedConversion) :
    Except TripError (Catalog × Finset Date) :=
  if rows = [] then .ok (c, ∅)
  else do
    let table ← c.ensureAttributed.mapError .read
    let arrow ← toArrow rows
    let days ← touchedDays (rows.map AttributedConversion.eventTime)
    return ({ c with attributed := some { table with rows := table.rows ++ arrow } }, days)

/-- The bounds `day_ranges_predicate` binds for a day, `start` and `start + timedelta(days=1)`. -/
def dayRange (day : Date) : Except TripError (DateTime × DateTime) := do
  let start := day.midnight.replaceTzinfo (some .utc)
  return (start, ← (start.add microsPerDay).mapError .overflow)

def dayRanges (days : List Date) : Except TripError (List (DateTime × DateTime)) := days.mapM dayRange

/-- `event_time >= ? and event_time < ?` for one of the ranges. -/
def inRanges (ranges : List (DateTime × DateTime)) (eventTime : Int) : Bool :=
  ranges.any fun r => r.1.instant ≤ eventTime ∧ eventTime < r.2.instant

/-- A TIMESTAMPTZ as it is fetched under `set timezone='UTC'`. -/
def fetch (instant : Int) : Except TripError DateTime :=
  if h : InCalendar instant then .ok ⟨instant, some .utc, h⟩ else .error (.overflow ⟨⟩)

/-- `_exposure`: the timezone is dropped. -/
def exposureOf (r : StoredExposure) : Except TripError Exposure := do
  let eventTime ← fetch r.eventTime
  let ingestTime ← fetch r.ingestTime
  let e ← r.exposure.mapError fun error => .read (.row error)
  return { e with eventTime := eventTime.replaceTzinfo none, ingestTime := ingestTime.replaceTzinfo none }

/-- `_row`: the timezone is dropped. -/
def rowOf (r : StoredRow) : Except TripError AttributedConversion := do
  let eventTime ← fetch r.eventTime
  let ingestTime ← fetch r.ingestTime
  let processedAt ← fetch r.processedAt
  let row ← r.row.mapError fun error => .read (.row error)
  return .ofRow row (eventTime.replaceTzinfo none) (ingestTime.replaceTzinfo none) (processedAt.replaceTzinfo none)

/-- `read_exposures_for_days`. -/
def readExposuresForDays (c : Catalog) (days : List Date) : Except TripError (List Exposure) :=
  if days = [] then .ok []
  else do
    let table ← c.ensureExposures.mapError .read
    let ranges ← dayRanges (sortedBy Date.day days)
    (sortedBy storedExposureKey
      (firstSeen (table.rows.filter fun e => inRanges ranges e.eventTime))).mapM exposureOf

/-- The rows `current_query` scans: all of them, or those of some days. -/
def scannedRows (rows : List StoredRow) : Option (List Date) → Except TripError (List StoredRow)
  | none => .ok rows
  | some days => do
    let ranges ← dayRanges (sortedBy Date.day days)
    return rows.filter fun r => inRanges ranges r.eventTime

/-- `read_current`. -/
def readCurrent (c : Catalog) (days : Option (List Date)) : Except TripError (List AttributedConversion) := do
  let table ← c.ensureAttributed.mapError .read
  let rows ← scannedRows table.rows days
  (sortedBy (fun r => r.conversionId)
    (collapse (fun r => r.conversionId) storedVersion (firstSeen rows))).mapM rowOf

/-- A value of an insert. -/
inductive Cell where
  | text (s : String)
  | nullable (s : Option String)
  | texts (l : List String)
  | number (n : Nat)
  | amount (m : Money)
  | instant (t : DateTime)
  deriving DecidableEq, Repr

/-- `_utc`. -/
def utc (dt : DateTime) : Except TripError DateTime := dt.toUtc.mapError .overflow

/-- The columns of an exposure, over its two times. -/
def Exposure.columns (r : Exposure) (eventTime ingestTime : DateTime) : List Cell :=
  [.text r.exposureId, .instant eventTime, .instant ingestTime, .text r.campaignId, .text r.householdId,
    .text r.ip, .text r.appId, .text r.programGenre, .amount r.spend]

/-- The columns of an attributed row, over its three times. -/
def AttributedConversion.columns (r : AttributedConversion) (eventTime ingestTime processedAt : DateTime) :
    List Cell :=
  [.text r.conversionId, .instant eventTime, .instant ingestTime, .text r.deviceId, .text r.ip,
    .text r.conversionType.text, .amount r.revenue, .nullable r.orderId, .text r.householdId,
    .text r.resolution.text, .number r.ambiguous.toNat, .number r.candidateCount, .nullable r.exposureId,
    .texts r.assists, .number r.attributed.toNat, .text r.path.text, .instant processedAt,
    .nullable (r.reason.map Reason.text), .texts r.candidateHouseholds]

/-- `_exposure_values`. -/
def exposureValues (r : Exposure) : Except TripError (List Cell) := do
  return r.columns (← utc r.eventTime) (← utc r.ingestTime)

/-- `_attributed_values`. -/
def attributedValues (r : AttributedConversion) : Except TripError (List Cell) := do
  return r.columns (← utc r.eventTime) (← utc r.ingestTime) (← utc r.processedAt)

section times
variable {t s u : DateTime}

private theorem replaceMicrosecond_millis (t : DateTime) :
    (t.replaceMicrosecond ⟨t.microsecond / 1000 * 1000, by omega⟩).wall = CtvAttribution.toUtcMs t.wall := by
  have h := microsecond_eq t
  simp only [DateTime.replaceMicrosecond, CtvAttribution.toUtcMs, millisecond_eq]
  omega

private theorem inCalendar_toUtcMs {i : Int} (h : InCalendar i) : InCalendar (CtvAttribution.toUtcMs i) := by
  rw [inCalendar_iff] at h ⊢
  rw [CtvAttribution.toUtcMs, millisecond_eq]
  omega

/-- The one conversion of the landing: it shows the instant in UTC, cut to the millisecond. -/
theorem toUtcMs_eq_ok_iff : toUtcMs t = .ok u ↔
    InCalendar t.instant ∧ u.wall = CtvAttribution.toUtcMs t.instant ∧ u.tzinfo = some .utc := by
  unfold toUtcMs
  rw [bind_eq_ok_iff]
  simp only [mapError_eq_ok_iff, toUtc_eq_ok_iff]
  constructor
  · intro h
    obtain ⟨v, ⟨hw, hz⟩, h⟩ := h
    cases h
    exact ⟨hw ▸ v.inCalendar, hw ▸ replaceMicrosecond_millis v, hz⟩
  · intro h
    obtain ⟨hc, hw, hz⟩ := h
    refine ⟨⟨t.instant, some .utc, hc⟩, ⟨rfl, rfl⟩, congrArg Except.ok (DateTime.ext ?_ hz.symm)⟩
    rw [hw]
    exact replaceMicrosecond_millis ⟨t.instant, some .utc, hc⟩

-- 1970-01-01T23:59:59.999999-06:00 is 05:59:59.999 of the next day in UTC
example : (toUtcMs ⟨86399999999, some ⟨-21600000000, by decide⟩, by decide⟩).map DateTime.wall = .ok 107999999000 := rfl

private theorem instant_of_toUtcMs (h : toUtcMs t = .ok u) : u.instant = CtvAttribution.toUtcMs t.instant := by
  obtain ⟨_, hw, hz⟩ := toUtcMs_eq_ok_iff.mp h
  rw [instant_eq_wall (.inr hz), hw]

theorem exists_toUtcMs (h : InCalendar t.instant) : ∃ u, toUtcMs t = .ok u :=
  ⟨⟨_, some .utc, inCalendar_toUtcMs h⟩, toUtcMs_eq_ok_iff.mpr ⟨h, rfl, rfl⟩⟩

private theorem utc_eq_ok_iff : utc t = .ok u ↔ u.wall = t.instant ∧ u.tzinfo = some .utc := by
  rw [utc, mapError_eq_ok_iff, toUtc_eq_ok_iff]

private theorem fetch_eq_ok_iff {i : Int} : fetch i = .ok u ↔ u.wall = i ∧ u.tzinfo = some .utc := by
  unfold fetch
  split
  · constructor
    · intro h
      cases h
      exact ⟨rfl, rfl⟩
    · intro h
      exact congrArg Except.ok (DateTime.ext h.1.symm h.2.symm)
  · rename_i hc
    constructor
    · intro h
      cases h
    · intro h
      exact absurd (h.1 ▸ u.inCalendar) hc

/-- `s` is the instant of `t` to the millisecond, naive UTC as the readers hand it back. -/
structure NaiveMs (t s : DateTime) : Prop where
  wall : s.wall = CtvAttribution.toUtcMs t.instant
  tzinfo : s.tzinfo = none

theorem NaiveMs.instant (h : NaiveMs t s) : s.instant = CtvAttribution.toUtcMs t.instant := by
  rw [instant_eq_wall (.inl h.tzinfo), h.wall]

/-- `s` is the instant of `t` to the millisecond, aware UTC as the loader inserts it. -/
structure AwareMs (t s : DateTime) : Prop where
  instant : s.instant = CtvAttribution.toUtcMs t.instant
  tzinfo : s.tzinfo = some .utc

/-- The loader attaches the timezone the readers dropped. -/
theorem NaiveMs.exists_utc (h : NaiveMs t s) : ∃ u, utc s = .ok u ∧ AwareMs t u := by
  refine ⟨s.replaceTzinfo (some .utc), utc_eq_ok_iff.mpr ⟨?_, rfl⟩, ?_, rfl⟩
  · rw [h.instant]
    exact h.wall
  · rw [instant_eq_wall (.inr rfl)]
    exact h.wall

private theorem exists_fetch (h : toUtcMs t = .ok u) :
    ∃ v, fetch u.instant = .ok v ∧ NaiveMs t (v.replaceTzinfo none) := by
  refine ⟨u, fetch_eq_ok_iff.mpr ?_, ?_⟩
  · obtain ⟨_, hw, hz⟩ := toUtcMs_eq_ok_iff.mp h
    exact ⟨(instant_eq_wall (.inr hz)).symm, hz⟩
  · exact ⟨(toUtcMs_eq_ok_iff.mp h).2.1, rfl⟩

end times

section exposures
variable {e b : Exposure} {x : StoredExposure}

/-- What lands is the exposure of instants, cut to the millisecond. -/
theorem exposure_toArrow_eq_ok_iff : e.toArrow = .ok x ↔ InCalendar e.eventTime.instant ∧
    InCalendar e.ingestTime.instant ∧ x = (landedExposure e.instants).stored := by
  unfold Exposure.toArrow
  simp only [bind_eq_ok_iff]
  constructor
  · intro h
    obtain ⟨u, hu, v, hv, h⟩ := h
    refine ⟨(toUtcMs_eq_ok_iff.mp hu).1, (toUtcMs_eq_ok_iff.mp hv).1, ?_⟩
    rw [instant_of_toUtcMs hu, instant_of_toUtcMs hv] at h
    exact (Except.ok.inj h).symm
  · intro h
    obtain ⟨hevent, hingest, rfl⟩ := h
    obtain ⟨u, hu⟩ := exists_toUtcMs hevent
    obtain ⟨v, hv⟩ := exists_toUtcMs hingest
    refine ⟨u, hu, v, hv, ?_⟩
    rw [instant_of_toUtcMs hu, instant_of_toUtcMs hv]
    rfl

/-- `b` is `e` as it is read back. -/
structure Exposure.ReadsAs (e b : Exposure) : Prop where
  eventTime : NaiveMs e.eventTime b.eventTime
  ingestTime : NaiveMs e.ingestTime b.ingestTime
  others : b = { e with eventTime := b.eventTime, ingestTime := b.ingestTime }

theorem exposureOf_toArrow (h : e.toArrow = .ok x) : ∃ b, exposureOf x = .ok b ∧ e.ReadsAs b := by
  obtain ⟨hevent, hingest, rfl⟩ := exposure_toArrow_eq_ok_iff.mp h
  obtain ⟨u, hu⟩ := exists_toUtcMs hevent
  obtain ⟨v, hv⟩ := exists_toUtcMs hingest
  obtain ⟨s, hs, hsn⟩ := exists_fetch hu
  obtain ⟨t, ht, htn⟩ := exists_fetch hv
  rw [instant_of_toUtcMs hu] at hs
  rw [instant_of_toUtcMs hv] at ht
  refine ⟨{ e with eventTime := s.replaceTzinfo none, ingestTime := t.replaceTzinfo none }, ?_, hsn, htn, rfl⟩
  unfold exposureOf
  rw [exposure_stored]
  change (fetch (CtvAttribution.toUtcMs e.eventTime.instant) >>= _) = _
  rw [hs]
  change (fetch (CtvAttribution.toUtcMs e.ingestTime.instant) >>= _) = _
  rw [ht]
  rfl

/-- The row as it was read back lands as the record that is there. -/
theorem Exposure.ReadsAs.toArrow_eq (hb : e.ReadsAs b) (h : e.toArrow = .ok x) : b.toArrow = .ok x := by
  obtain ⟨hevent, hingest, rfl⟩ := exposure_toArrow_eq_ok_iff.mp h
  rw [exposure_toArrow_eq_ok_iff, hb.eventTime.instant, hb.ingestTime.instant]
  refine ⟨inCalendar_toUtcMs hevent, inCalendar_toUtcMs hingest, ?_⟩
  rw [hb.others]
  simp only [landedExposure, Exposure.instants, hb.eventTime.instant, hb.ingestTime.instant, toUtcMs_toUtcMs]

theorem exposureValues_of_readsAs (hb : e.ReadsAs b) : ∃ t s, exposureValues b = .ok (e.columns t s) ∧
    AwareMs e.eventTime t ∧ AwareMs e.ingestTime s := by
  obtain ⟨t, ht, hti⟩ := hb.eventTime.exists_utc
  obtain ⟨s, hs, hsi⟩ := hb.ingestTime.exists_utc
  refine ⟨t, s, ?_, hti, hsi⟩
  unfold exposureValues
  rw [ht, hs, hb.others]
  rfl

end exposures

section attributed
variable {r b : AttributedConversion} {x : StoredRow}

theorem dump_eq_ok_iff : r.dump = .ok x ↔ InCalendar r.eventTime.instant ∧ InCalendar r.ingestTime.instant ∧
    InCalendar r.processedAt.instant ∧ x = (landedRow r.instants).stored := by
  unfold AttributedConversion.dump
  simp only [bind_eq_ok_iff]
  constructor
  · intro h
    obtain ⟨u, hu, v, hv, w, hw, h⟩ := h
    refine ⟨(toUtcMs_eq_ok_iff.mp hu).1, (toUtcMs_eq_ok_iff.mp hv).1, (toUtcMs_eq_ok_iff.mp hw).1, ?_⟩
    rw [instant_of_toUtcMs hu, instant_of_toUtcMs hv, instant_of_toUtcMs hw] at h
    exact (Except.ok.inj h).symm
  · intro h
    obtain ⟨hevent, hingest, hprocessed, rfl⟩ := h
    obtain ⟨u, hu⟩ := exists_toUtcMs hevent
    obtain ⟨v, hv⟩ := exists_toUtcMs hingest
    obtain ⟨w, hw⟩ := exists_toUtcMs hprocessed
    refine ⟨u, hu, v, hv, w, hw, ?_⟩
    rw [instant_of_toUtcMs hu, instant_of_toUtcMs hv, instant_of_toUtcMs hw]
    rfl

private theorem fromPylist_eq_ok_iff {y : StoredRow} : fromPylist x = .ok y ↔ x.candidateCount ≤ int32Max ∧ y = x := by
  unfold fromPylist
  split
  · rename_i h
    simp [h, eq_comm]
  · rename_i h
    simp [h]

/-- The record of one row under the arrow schema. -/
def AttributedConversion.record (r : AttributedConversion) : Except TripError StoredRow := do
  fromPylist (← r.dump)

theorem record_eq_ok_iff : r.record = .ok x ↔ r.dump = .ok x ∧ (r.candidateCount : Int) ≤ int32Max := by
  unfold AttributedConversion.record
  rw [bind_eq_ok_iff]
  simp only [fromPylist_eq_ok_iff]
  constructor
  · intro h
    obtain ⟨y, hy, hc, rfl⟩ := h
    obtain ⟨_, _, _, rfl⟩ := dump_eq_ok_iff.mp hy
    exact ⟨hy, hc⟩
  · intro h
    refine ⟨x, h.1, ?_, rfl⟩
    obtain ⟨_, _, _, rfl⟩ := dump_eq_ok_iff.mp h.1
    exact h.2

/-- `b` is `r` as it is read back. -/
structure AttributedConversion.ReadsAs (r b : AttributedConversion) : Prop where
  eventTime : NaiveMs r.eventTime b.eventTime
  ingestTime : NaiveMs r.ingestTime b.ingestTime
  processedAt : NaiveMs r.processedAt b.processedAt
  others : b = { r with eventTime := b.eventTime, ingestTime := b.ingestTime, processedAt := b.processedAt }

theorem rowOf_dump (h : r.dump = .ok x) : ∃ b, rowOf x = .ok b ∧ r.ReadsAs b := by
  obtain ⟨hevent, hingest, hprocessed, rfl⟩ := dump_eq_ok_iff.mp h
  obtain ⟨u, hu⟩ := exists_toUtcMs hevent
  obtain ⟨v, hv⟩ := exists_toUtcMs hingest
  obtain ⟨w, hw⟩ := exists_toUtcMs hprocessed
  obtain ⟨s, hs, hsn⟩ := exists_fetch hu
  obtain ⟨t, ht, htn⟩ := exists_fetch hv
  obtain ⟨q, hq, hqn⟩ := exists_fetch hw
  rw [instant_of_toUtcMs hu] at hs
  rw [instant_of_toUtcMs hv] at ht
  rw [instant_of_toUtcMs hw] at hq
  refine ⟨{ r with eventTime := s.replaceTzinfo none, ingestTime := t.replaceTzinfo none,
                   processedAt := q.replaceTzinfo none }, ?_, hsn, htn, hqn, rfl⟩
  unfold rowOf
  rw [row_stored]
  change (fetch (CtvAttribution.toUtcMs r.eventTime.instant) >>= _) = _
  rw [hs]
  change (fetch (CtvAttribution.toUtcMs r.ingestTime.instant) >>= _) = _
  rw [ht]
  change (fetch (CtvAttribution.toUtcMs r.processedAt.instant) >>= _) = _
  rw [hq]
  rfl

theorem AttributedConversion.ReadsAs.dump_eq (hb : r.ReadsAs b) (h : r.dump = .ok x) : b.dump = .ok x := by
  obtain ⟨hevent, hingest, hprocessed, rfl⟩ := dump_eq_ok_iff.mp h
  rw [dump_eq_ok_iff, hb.eventTime.instant, hb.ingestTime.instant, hb.processedAt.instant]
  refine ⟨inCalendar_toUtcMs hevent, inCalendar_toUtcMs hingest, inCalendar_toUtcMs hprocessed, ?_⟩
  rw [hb.others]
  simp only [landedRow, AttributedConversion.instants, hb.eventTime.instant, hb.ingestTime.instant,
    hb.processedAt.instant, toUtcMs_toUtcMs]

theorem attributedValues_of_readsAs (hb : r.ReadsAs b) : ∃ t s u, attributedValues b = .ok (r.columns t s u) ∧
    AwareMs r.eventTime t ∧ AwareMs r.ingestTime s ∧ AwareMs r.processedAt u := by
  obtain ⟨t, ht, hti⟩ := hb.eventTime.exists_utc
  obtain ⟨s, hs, hsi⟩ := hb.ingestTime.exists_utc
  obtain ⟨u, hu, hui⟩ := hb.processedAt.exists_utc
  refine ⟨t, s, u, ?_, hti, hsi, hui⟩
  unfold attributedValues
  rw [ht, hs, hu, hb.others]
  rfl

end attributed

end CtvAttribution.RowTrips
