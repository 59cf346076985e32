import CtvAttribution.CurrentRows
import CtvAttribution.Library.Fallible

/-! The columns the lake stores and the readers that build model rows from them. The
schema types a column; what else a model requires is checked when a row is read. -/
namespace CtvAttribution
open Library

/-- A row of raw.exposures. -/
structure StoredExposure where
  exposureId : String
  eventTime : Int
  ingestTime : Int
  campaignId : String
  householdId : String
  ip : String
  appId : String
  programGenre : String
  spend : Int
  deriving DecidableEq, Repr

/-- A row of raw.attributed_conversions. -/
structure StoredRow where
  conversionId : String
  eventTime : Int
  ingestTime : Int
  deviceId : String
  ip : String
  conversionType : String
  revenue : Int
  orderId : Option String
  householdId : String
  resolution : String
  ambiguous : Bool
  candidateCount : Int
  exposureId : Option String
  assists : List String
  attributed : Bool
  path : String
  processedAt : Int
  reason : Option String
  candidateHouseholds : List String
  deriving DecidableEq, Repr

/-- What building a model row from a stored one can raise. -/
inductive RowError where
  | prePhase17 (conversionId : String) (candidateCount : Int)
  | validation (model : String) (fields : List String)
  | candidates (e : ValueError)
  deriving DecidableEq, Repr

def ConversionType.text : ConversionType → String
  | .siteVisit => "site_visit"
  | .purchase => "purchase"

def ConversionType.ofText : String → Option ConversionType
  | "site_visit" => some .siteVisit
  | "purchase" => some .purchase
  | _ => none

def Resolution.text : Resolution → String
  | .device => "device"
  | .ip => "ip"

def Resolution.ofText : String → Option Resolution
  | "device" => some .device
  | "ip" => some .ip
  | _ => none

def Path.ofText : String → Option Path
  | "hot" => some .hot
  | "reconciled" => some .reconciled
  | _ => none

/-- The nullable column: `Literal["ambiguous_ip", "state_miss"] | None`. -/
def Reason.ofColumn : Option String → Option (Option Reason)
  | none => some none
  | some "ambiguous_ip" => some (some .ambiguousIp)
  | some "state_miss" => some (some .stateMiss)
  | some _ => none

/-- `_exposure`. -/
def StoredExposure.exposure (e : StoredExposure) : Except RowError Exposure :=
  if 0 ≤ e.spend then
    .ok { e with spend := e.spend.toNat }
  else .error (.validation "Exposure" ["spend"])

namespace StoredRow
variable (r : StoredRow)

/-- The fields whose own check fails, in model order. -/
def invalidFields : List String :=
  (if (ConversionType.ofText r.conversionType).isNone then ["conversion_type"] else []) ++
  (if r.revenue < 0 then ["revenue"] else []) ++
  (if (Resolution.ofText r.resolution).isNone then ["resolution"] else []) ++
  (if r.candidateCount < 1 then ["candidate_count"] else []) ++
  (if (Path.ofText r.path).isNone then ["path"] else []) ++
  (if (Reason.ofColumn r.reason).isNone then ["reason"] else [])

/-- `AttributedConversion(**d)`: the fields first, then the model's own validator. -/
def validate : Except RowError AttributedConversion :=
  match ConversionType.ofText r.conversionType, Resolution.ofText r.resolution,
      Path.ofText r.path, Reason.ofColumn r.reason with
  | some conversionType, some resolution, some path, some reason =>
    if h : 0 ≤ r.revenue ∧ 1 ≤ r.candidateCount then
      let conv : ResolvedConversion :=
        { r with conversionType, revenue := r.revenue.toNat, resolution,
                 candidateCount := r.candidateCount.toNat, candidateCount_pos := by omega }
      (AttributedConversion.validate conv r.exposureId r.assists r.attributed path r.processedAt
        reason r.candidateHouseholds).mapError .candidates
    else .error (.validation "AttributedConversion" r.invalidFields)
  | _, _, _, _ => .error (.validation "AttributedConversion" r.invalidFields)

/-- `_row`: a row from before the candidate sets is told apart ahead of the model's checks. -/
def row : Except RowError AttributedConversion :=
  if 1 < r.candidateCount ∧ r.candidateHouseholds = [] then
    .error (.prePhase17 r.conversionId r.candidateCount)
  else r.validate

/-- What a row has to be for the model to accept it. -/
structure WellFormed : Prop where
  conversionType : (ConversionType.ofText r.conversionType).isSome
  revenue : 0 ≤ r.revenue
  resolution : (Resolution.ofText r.resolution).isSome
  candidateCount : 1 ≤ r.candidateCount
  path : (Path.ofText r.path).isSome
  reason : (Reason.ofColumn r.reason).isSome
  candidateSet : CandidateSetMatchesCount r.candidateCount.toNat r.householdId r.candidateHouseholds

end StoredRow

private theorem exposure_isOk_iff {e : StoredExposure} : (∃ x, e.exposure = .ok x) ↔ 0 ≤ e.spend := by
  unfold StoredExposure.exposure
  split
  · rename_i h
    simp [h]
  · rename_i h
    simp [h]

private theorem attributedConversion_validate_isOk_iff {conv : ResolvedConversion} {exposureId : Option String}
    {assists : List String} {attributed : Bool} {path : Path} {processedAt : Int} {reason : Option Reason}
    {hhs : List String} :
    (∃ x, AttributedConversion.validate conv exposureId assists attributed path processedAt reason hhs = .ok x) ↔
      CandidateSetMatchesCount conv.candidateCount conv.householdId hhs := by
  unfold AttributedConversion.validate
  split
  · rename_i h
    exact ⟨fun _ => h, fun _ => ⟨_, rfl⟩⟩
  · rename_i h
    constructor
    · intro hx
      obtain ⟨x, hx⟩ := hx
      split at hx
      · cases hx
      · split at hx <;> cases hx
    · intro hm
      exact absurd hm h

/-- A field's own check fails exactly on the fields named in the error. -/
theorem invalidFields_eq_nil_iff {r : StoredRow} : r.invalidFields = [] ↔
    (ConversionType.ofText r.conversionType).isSome ∧ 0 ≤ r.revenue ∧ (Resolution.ofText r.resolution).isSome ∧
      1 ≤ r.candidateCount ∧ (Path.ofText r.path).isSome ∧ (Reason.ofColumn r.reason).isSome := by
  simp [StoredRow.invalidFields, Option.isSome_iff_ne_none]

private theorem validate_isOk_iff {r : StoredRow} : (∃ x, r.validate = .ok x) ↔ r.invalidFields = [] ∧
    CandidateSetMatchesCount r.candidateCount.toNat r.householdId r.candidateHouseholds := by
  rw [invalidFields_eq_nil_iff]
  unfold StoredRow.validate
  cases hc : ConversionType.ofText r.conversionType with
  | none => simp
  | some conversionType =>
    cases hr : Resolution.ofText r.resolution with
    | none => simp
    | some resolution =>
      cases hp : Path.ofText r.path with
      | none => simp
      | some path =>
        cases hq : Reason.ofColumn r.reason with
        | none => simp
        | some reason =>
          by_cases h : 0 ≤ r.revenue ∧ 1 ≤ r.candidateCount
          · simp only [dif_pos h, mapError_isOk_iff, attributedConversion_validate_isOk_iff]
            simp [h]
          · simp only [dif_neg h]
            constructor
            · intro hx
              obtain ⟨x, hx⟩ := hx
              cases hx
            · intro hx
              exact absurd ⟨hx.1.2.1, hx.1.2.2.2.1⟩ h

/-- A stored row is readable exactly when it is well formed. -/
theorem row_isOk_iff {r : StoredRow} : (∃ x, r.row = .ok x) ↔ r.WellFormed := by
  have hvalidate : (∃ x, r.validate = .ok x) ↔ r.WellFormed := by
    rw [validate_isOk_iff, invalidFields_eq_nil_iff]
    constructor
    · intro h
      obtain ⟨⟨hc, hv, hr, hn, hp, hq⟩, hset⟩ := h
      exact ⟨hc, hv, hr, hn, hp, hq, hset⟩
    · intro h
      exact ⟨⟨h.conversionType, h.revenue, h.resolution, h.candidateCount, h.path, h.reason⟩, h.candidateSet⟩
  unfold StoredRow.row
  split
  · rename_i h
    constructor
    · intro hx
      obtain ⟨x, hx⟩ := hx
      cases hx
    · intro hw
      -- an ambiguous row without candidates misses its candidate set
      have hset := hw.candidateSet
      rw [CandidateSetMatchesCount, if_neg (by omega), h.2] at hset
      exact absurd hset.2 List.not_mem_nil
  · exact hvalidate

/-- The stored columns of a model row. -/
def Exposure.stored (e : Exposure) : StoredExposure := { e with spend := e.spend }

def AttributedConversion.stored (r : AttributedConversion) : StoredRow :=
  { r with conversionType := r.conversionType.text, revenue := r.revenue, resolution := r.resolution.text,
           candidateCount := r.candidateCount, path := r.path.text, reason := r.reason.map Reason.text }

theorem exposure_stored (e : Exposure) : e.stored.exposure = .ok e := by
  have h : (0 : Int) ≤ e.stored.spend := Int.natCast_nonneg e.spend
  rw [StoredExposure.exposure, if_pos h]
  rfl

@[simp] theorem ofText_conversionType (c : ConversionType) : ConversionType.ofText c.text = some c := by
  cases c <;> rfl

@[simp] theorem ofText_resolution (r : Resolution) : Resolution.ofText r.text = some r := by
  cases r <;> rfl

@[simp] theorem ofText_path (p : Path) : Path.ofText p.text = some p := by
  cases p <;> rfl

@[simp] theorem ofColumn_reason (q : Option Reason) : Reason.ofColumn (q.map Reason.text) = some q := by
  rcases q with _ | q
  · rfl
  · cases q <;> rfl

private theorem validate_eq_ok {r : StoredRow} {c : ConversionType} {n : Resolution} {p : Path} {q : Option Reason}
    (hc : ConversionType.ofText r.conversionType = some c) (hn : Resolution.ofText r.resolution = some n)
    (hp : Path.ofText r.path = some p) (hq : Reason.ofColumn r.reason = some q)
    (hpos : 0 ≤ r.revenue ∧ 1 ≤ r.candidateCount) (hcount : 1 ≤ r.candidateCount.toNat)
    (hset : CandidateSetMatchesCount r.candidateCount.toNat r.householdId r.candidateHouseholds) :
    r.validate = .ok { r with conversionType := c, revenue := r.revenue.toNat, resolution := n,
                              candidateCount := r.candidateCount.toNat, candidateCount_pos := hcount,
                              path := p, reason := q, candidateSetMatchesCount := hset } := by
  unfold StoredRow.validate
  simp only [hc, hn, hp, hq, dif_pos hpos]
  rw [AttributedConversion.validate, dif_pos hset]
  rfl

/-- What the pipeline stores it reads back. -/
theorem row_stored (r : AttributedConversion) : r.stored.row = .ok r := by
  have hpre : ¬ (1 < r.stored.candidateCount ∧ r.stored.candidateHouseholds = []) := by
    intro h
    have hone : r.candidateCount = 1 := r.candidateHouseholds_eq_nil_iff.mp h.2
    have hcount : 1 < (r.candidateCount : Int) := h.1
    omega
  have hpos : (0 : Int) ≤ (r.revenue : Int) ∧ 1 ≤ (r.candidateCount : Int) := by
    have hcount := r.candidateCount_pos
    omega
  have hread := validate_eq_ok (r := r.stored) (ofText_conversionType _) (ofText_resolution _) (ofText_path _)
    (ofColumn_reason _) hpos r.candidateCount_pos r.candidateSetMatchesCount
  rw [StoredRow.row, if_neg hpre, hread]
  rfl

theorem stored_injective : Function.Injective AttributedConversion.stored := by
  intro r x h
  have hrow : Except.ok (ε := RowError) r = .ok x := by rw [← row_stored, ← row_stored, h]
  exact Except.ok.inj hrow

theorem stored_exposure_injective : Function.Injective Exposure.stored := by
  intro e x h
  have hrow : Except.ok (ε := RowError) e = .ok x := by rw [← exposure_stored, ← exposure_stored, h]
  exact Except.ok.inj hrow

/-- What `_check_layout` compares: the partition fields and the recorded bucket count. -/
structure TableLayout where
  fields : List (Nat × String × String)
  bucketCount : Option String
  deriving DecidableEq, Repr

structure LakeTable (α : Type) where
  layout : TableLayout
  rows : List α

/-- The catalog under a lake root. A table is created when it is first opened. -/
structure Catalog where
  exposures : Option (LakeTable StoredExposure)
  attributed : Option (LakeTable StoredRow)

/-- `_spec`, with the recorded `BUCKET_COUNT`. -/
def tableSpec (eventTimeId householdIdId : Nat) : TableLayout :=
  ⟨[(eventTimeId, "day", "event_time_day"), (householdIdId, "bucket[8]", "household_bucket")], some "8"⟩

inductive ReadError where
  | layout (identifier : String) (found : TableLayout)
  | row (e : RowError)
  deriving DecidableEq, Repr

/-- `_ensure`. -/
def ensureTable {α : Type} (identifier : String) (spec : TableLayout) :
    Option (LakeTable α) → Except ReadError (LakeTable α)
  | none => .ok ⟨spec, []⟩
  | some table => if table.layout = spec then .ok table else .error (.layout identifier table.layout)

def storedExposureKey (e : StoredExposure) : String ×ₗ Int ×ₗ String :=
  toLex (e.campaignId, toLex (e.eventTime, e.exposureId))

/-- The statement of `read_exposures_for_days`. -/
def exposuresQuery (log : List StoredExposure) (days : List Int) : List StoredExposure :=
  sortedBy storedExposureKey (firstSeen (log.filter fun e => dayRangesPredicate days e.eventTime))

def storedVersion (r : StoredRow) : Int ×ₗ String := toLex (r.processedAt, r.path)

/-- `current_query` of some days. -/
def currentQuery (log : List StoredRow) (days : List Int) : List StoredRow :=
  sortedBy (fun r => r.conversionId)
    (collapse (fun r => r.conversionId) storedVersion
      (firstSeen (log.filter fun r => dayRangesPredicate days r.eventTime)))

namespace Catalog
variable (c : Catalog)

def ensureExposures : Except ReadError (LakeTable StoredExposure) :=
  ensureTable "raw.exposures" (tableSpec 2 5) c.exposures

def ensureAttributed : Except ReadError (LakeTable StoredRow) :=
  ensureTable "raw.attributed_conversions" (tableSpec 2 9) c.attributed

/-- `read_exposures_for_days`. -/
def readExposuresForDays (days : List Int) : Except ReadError (List Exposure) := do
  let table ← c.ensureExposures
  ((exposuresQuery table.rows days).mapM StoredExposure.exposure).mapError .row

/-- `read_current` of some days. -/
def readCurrent (days : List Int) : Except ReadError (List AttributedConversion) := do
  let table ← c.ensureAttributed
  ((currentQuery table.rows days).mapM StoredRow.row).mapError .row

/-- `lake_days` of a root that holds a catalog. -/
def days : Except ReadError (List Int) := do
  let exposures ← c.ensureExposures
  let attributed ← c.ensureAttributed
  return sortedSet (exposures.rows.map (fun e => dayOf e.eventTime) ++
    attributed.rows.map fun r => dayOf r.eventTime)

/-- The rows the tables hold. -/
def exposureRows : List StoredExposure := (c.exposures.map LakeTable.rows).getD []

def attributedRows : List StoredRow := (c.attributed.map LakeTable.rows).getD []

/-- Every row the day readers turn into a model row is one the model accepts. A row that is
not current on its day is never built. -/
structure Readable : Prop where
  exposures : ∀ e ∈ c.exposureRows, 0 ≤ e.spend
  current : ∀ day, ∀ r ∈ currentQuery c.attributedRows [day], r.WellFormed

end Catalog

section readers
variable {c : Catalog} {day : Int}

theorem rows_of_ensureTable {α : Type} {identifier : String} {spec : TableLayout} {o : Option (LakeTable α)}
    {table : LakeTable α} (h : ensureTable identifier spec o = .ok table) :
    table.rows = (o.map LakeTable.rows).getD [] := by
  cases o with
  | none =>
    cases h
    rfl
  | some t =>
    change (if t.layout = spec then _ else _) = _ at h
    split at h
    · cases h
      rfl
    · cases h

private theorem mem_exposuresQuery {log : List StoredExposure} {e : StoredExposure} :
    e ∈ exposuresQuery log [day] ↔ e ∈ log ∧ dayOf e.eventTime = day := by
  rw [exposuresQuery, mem_sortedBy, mem_firstSeen, List.mem_filter, dayRangesPredicate_iff, List.mem_singleton]

private theorem mem_currentQuery {log : List StoredRow} {r : StoredRow} (h : r ∈ currentQuery log [day]) :
    r ∈ log ∧ dayOf r.eventTime = day := by
  rw [currentQuery, mem_sortedBy, mem_collapse] at h
  have hr := (current_eq_some h).1
  rw [mem_firstSeen, List.mem_filter, dayRangesPredicate_iff, List.mem_singleton] at hr
  exact hr

/-- Once a table opens, reading a day of it can only fail on a row. -/
theorem readExposuresForDays_isOk_iff {table : LakeTable StoredExposure} (h : c.ensureExposures = .ok table) :
    (∃ es, c.readExposuresForDays [day] = .ok es) ↔
      ∀ e ∈ c.exposureRows, dayOf e.eventTime = day → 0 ≤ e.spend := by
  have hrows : table.rows = c.exposureRows := rows_of_ensureTable h
  have hread : c.readExposuresForDays [day] =
      ((exposuresQuery c.exposureRows [day]).mapM StoredExposure.exposure).mapError .row := by
    rw [← hrows, Catalog.readExposuresForDays, h]
    rfl
  rw [hread, mapError_isOk_iff, mapM_isOk_iff]
  simp only [mem_exposuresQuery, exposure_isOk_iff, and_imp]

private theorem readCurrent_isOk_iff {table : LakeTable StoredRow} (h : c.ensureAttributed = .ok table) :
    (∃ rows, c.readCurrent [day] = .ok rows) ↔ ∀ r ∈ currentQuery c.attributedRows [day], r.WellFormed := by
  have hrows : table.rows = c.attributedRows := rows_of_ensureTable h
  have hread : c.readCurrent [day] =
      ((currentQuery c.attributedRows [day]).mapM StoredRow.row).mapError .row := by
    rw [← hrows, Catalog.readCurrent, h]
    rfl
  rw [hread, mapError_isOk_iff, mapM_isOk_iff]
  simp only [row_isOk_iff]

/-- The days are found once both tables open. -/
theorem days_eq_ok {days : List Int} (h : c.days = .ok days) :
    (∃ table, c.ensureExposures = .ok table) ∧ (∃ table, c.ensureAttributed = .ok table) ∧
      days = sortedSet (c.exposureRows.map (fun e => dayOf e.eventTime) ++
        c.attributedRows.map fun r => dayOf r.eventTime) := by
  unfold Catalog.days at h
  obtain ⟨exposures, he, h⟩ := bind_eq_ok_iff.mp h
  obtain ⟨attributed, ha, h⟩ := bind_eq_ok_iff.mp h
  refine ⟨⟨exposures, he⟩, ⟨attributed, ha⟩, ?_⟩
  have hexposures : exposures.rows = c.exposureRows := rows_of_ensureTable he
  have hattributed : attributed.rows = c.attributedRows := rows_of_ensureTable ha
  rw [← hexposures, ← hattributed]
  exact (Except.ok.inj h).symm

/-- All rows are readable exactly when every day of the lake reads back. -/
theorem readable_iff {days : List Int} (h : c.days = .ok days) : c.Readable ↔
    ∀ day ∈ days, (∃ es, c.readExposuresForDays [day] = .ok es) ∧ ∃ rows, c.readCurrent [day] = .ok rows := by
  obtain ⟨⟨_, he⟩, ⟨_, ha⟩, hdays⟩ := days_eq_ok h
  simp only [readExposuresForDays_isOk_iff he, readCurrent_isOk_iff ha]
  constructor
  · intro hr day _
    exact ⟨fun e hmem _ => hr.exposures e hmem, hr.current day⟩
  · intro hr
    constructor
    · intro e hmem
      have hday : dayOf e.eventTime ∈ days := by
        rw [hdays, mem_sortedSet, List.mem_append]
        exact .inl (List.mem_map_of_mem hmem)
      exact (hr _ hday).1 e hmem rfl
    · intro day r hmem
      obtain ⟨hlog, hrow⟩ := mem_currentQuery hmem
      have hday : day ∈ days := by
        rw [hdays, mem_sortedSet, List.mem_append, ← hrow]
        exact .inr (List.mem_map_of_mem hlog)
      exact (hr day hday).2 r hmem

end readers

/-- The lake of model rows as it is stored. -/
def Lake.catalog (lake : Lake) : Catalog where
  exposures := some ⟨tableSpec 2 5, lake.exposures.map Exposure.stored⟩
  attributed := some ⟨tableSpec 2 9, lake.attributed.map AttributedConversion.stored⟩

section written
variable (lake : Lake) (days : List Int)

theorem exposuresQuery_map (log : List Exposure) : exposuresQuery (log.map Exposure.stored) days =
    (CtvAttribution.readExposuresForDays log days).map Exposure.stored := by
  rw [exposuresQuery, List.filter_map, firstSeen_map stored_exposure_injective, sortedBy_map]
  rfl

private theorem currentQuery_map (log : List AttributedConversion) :
    currentQuery (log.map AttributedConversion.stored) days =
      (CtvAttribution.readCurrent log (some days)).map AttributedConversion.stored := by
  rw [currentQuery, List.filter_map, firstSeen_map stored_injective, collapse_map, sortedBy_map]
  rfl

theorem ensureExposures_catalog :
    lake.catalog.ensureExposures = .ok ⟨tableSpec 2 5, lake.exposures.map Exposure.stored⟩ := by
  rw [Catalog.ensureExposures, Lake.catalog, ensureTable, if_pos rfl]

theorem ensureAttributed_catalog :
    lake.catalog.ensureAttributed = .ok ⟨tableSpec 2 9, lake.attributed.map AttributedConversion.stored⟩ := by
  rw [Catalog.ensureAttributed, Lake.catalog, ensureTable, if_pos rfl]

/-- The readers agree with those over model rows. -/
theorem readExposuresForDays_catalog : lake.catalog.readExposuresForDays days =
    .ok (CtvAttribution.readExposuresForDays lake.exposures days) := by
  rw [Catalog.readExposuresForDays, ensureExposures_catalog]
  change Except.mapError ReadError.row
    ((exposuresQuery (lake.exposures.map Exposure.stored) days).mapM StoredExposure.exposure) = _
  rw [exposuresQuery_map, mapM_map_ok exposure_stored]
  rfl

theorem readCurrent_catalog : lake.catalog.readCurrent days =
    .ok (CtvAttribution.readCurrent lake.attributed (some days)) := by
  rw [Catalog.readCurrent, ensureAttributed_catalog]
  change Except.mapError ReadError.row
    ((currentQuery (lake.attributed.map AttributedConversion.stored) days).mapM StoredRow.row) = _
  rw [currentQuery_map, mapM_map_ok row_stored]
  rfl

theorem days_catalog : lake.catalog.days = .ok lake.days := by
  rw [Catalog.days, ensureExposures_catalog, ensureAttributed_catalog]
  change Except.ok _ = _
  rw [List.map_map, List.map_map]
  rfl

/-- A lake the pipeline wrote is readable. -/
theorem readable_catalog : lake.catalog.Readable :=
  (readable_iff (days_catalog lake)).mpr fun _ _ =>
    ⟨⟨_, readExposuresForDays_catalog lake _⟩, ⟨_, readCurrent_catalog lake _⟩⟩

end written
end CtvAttribution
