import CtvAttribution.RowTimes

/-! The lakes that landings leave, and what their days read back as: every record is one of a
model row, and every row read has the record it was read from. -/
namespace CtvAttribution.RowTrips
open Library

/-- The catalogs that landings on an empty root leave. -/
inductive Reachable : Catalog → Prop where
  | empty : Reachable ⟨none, none⟩
  | land {c c' : Catalog} {exposures : List Exposure} {days : Finset Date} :
      Reachable c → land c exposures = .ok (c', days) → Reachable c'
  | landAttributed {c c' : Catalog} {rows : List AttributedConversion} {days : Finset Date} :
      Reachable c → landAttributed c rows = .ok (c', days) → Reachable c'

section ranges
variable {day : Date} {days : List Date} {i : Int}

/-- The days an event time is looked for on. -/
def onDays (days : List Date) (eventTime : Int) : Bool := days.any fun d => d.day = eventTime / microsPerDay

theorem onDays_iff : onDays days i = true ↔ ∃ d ∈ days, d.day = i / microsPerDay := by
  simp [onDays]

private theorem dayRange_bounds {range : DateTime × DateTime} (h : dayRange day = .ok range) :
    range.1.instant = day.day * microsPerDay ∧ range.2.instant = day.day * microsPerDay + microsPerDay := by
  obtain ⟨u, hu, h⟩ := bind_eq_ok_iff.mp h
  cases h
  rw [mapError_eq_ok_iff] at hu
  refine ⟨instant_midnight day, ?_⟩
  rw [instant_eq_wall (.inr (tzinfo_of_add hu)), wall_of_add hu]
  rfl

theorem dayRange_isOk_iff : (∃ range, dayRange day = .ok range) ↔ day ≠ .last := by
  rw [← exists_next_midnight_iff]
  constructor
  · intro h
    obtain ⟨range, h⟩ := h
    obtain ⟨u, hu, _⟩ := bind_eq_ok_iff.mp h
    exact ⟨u, mapError_eq_ok_iff.mp hu⟩
  · intro h
    obtain ⟨u, hu⟩ := h
    exact ⟨_, bind_eq_ok_iff.mpr ⟨u, mapError_eq_ok_iff.mpr hu, rfl⟩⟩

/-- The ranges select what falls on one of the days. -/
theorem inRanges_eq {ranges : List (DateTime × DateTime)} (h : dayRanges days = .ok ranges) (i : Int) :
    inRanges ranges i = onDays days i := by
  rw [Bool.eq_iff_iff, onDays_iff]
  simp only [inRanges, List.any_eq_true, decide_eq_true_eq]
  have hone (d : Date) : (d.day * microsPerDay ≤ i ∧ i < d.day * microsPerDay + microsPerDay) ↔
      d.day = i / microsPerDay := by
    rw [microsPerDay]
    omega
  constructor
  · intro hr
    obtain ⟨range, hmem, hr⟩ := hr
    obtain ⟨d, hd, hrange⟩ := (mem_of_mapM_eq_ok h).mp hmem
    obtain ⟨hstart, hend⟩ := dayRange_bounds hrange
    rw [hstart, hend] at hr
    exact ⟨d, hd, (hone d).mp hr⟩
  · intro hd
    obtain ⟨d, hd, hday⟩ := hd
    obtain ⟨range, hmem, hrange⟩ := exists_of_mapM_eq_ok h hd
    obtain ⟨hstart, hend⟩ := dayRange_bounds hrange
    refine ⟨range, hmem, ?_⟩
    rw [hstart, hend]
    exact (hone d).mpr hday

theorem exists_dayRanges (h : Date.last ∉ days) : ∃ ranges, dayRanges days = .ok ranges := by
  apply exists_mapM_eq_ok
  intro d hd
  exact dayRange_isOk_iff.mpr fun he => h (he ▸ hd)

private theorem onDays_sortedBy : onDays (sortedBy Date.day days) i = onDays days i := by
  rw [Bool.eq_iff_iff, onDays_iff, onDays_iff]
  simp only [mem_sortedBy]

/-- The days that touching an event time reports. -/
theorem touchedDays_singleton {t u : DateTime} (h : toUtcMs t = .ok u) : touchedDays [t] = .ok {u.date} := by
  unfold touchedDays
  rw [List.mapM_cons, h]
  rfl

/-- The date after truncation is the date of the instant. -/
theorem day_of_toUtcMs {t u : DateTime} (h : toUtcMs t = .ok u) : u.date.day = t.instant / microsPerDay := by
  change u.wall / microsPerDay = _
  rw [(toUtcMs_eq_ok_iff.mp h).2.1]
  exact dayOf_toUtcMs t.instant

end ranges

/-- What every reachable catalog holds: tables of this layout, and records of model rows. -/
structure Landed (c : Catalog) : Prop where
  exposuresTable : ∃ table, c.ensureExposures = .ok table
  attributedTable : ∃ table, c.ensureAttributed = .ok table
  exposures : ∀ x ∈ c.exposureRows, ∃ e : Exposure, e.toArrow = .ok x
  attributed : ∀ x ∈ c.attributedRows, ∃ r : AttributedConversion, r.record = .ok x

section landings
variable {c c' : Catalog} {days : Finset Date}

private theorem ensureTable_append {α : Type} {identifier : String} {spec : TableLayout} {o : Option (LakeTable α)}
    {table : LakeTable α} (h : ensureTable identifier spec o = .ok table) (rows : List α) :
    ensureTable identifier spec (some { table with rows := rows }) = .ok { table with rows := rows } := by
  have hspec : table.layout = spec := by
    cases o with
    | none =>
      cases h
      rfl
    | some t =>
      change (if t.layout = spec then _ else _) = _ at h
      split at h
      · cases h
        assumption
      · cases h
  exact if_pos hspec

/-- Arrow rows are the records of the rows one by one. -/
theorem toArrow_eq_ok_iff {rows : List AttributedConversion} {xs : List StoredRow} :
    toArrow rows = .ok xs ↔ rows.mapM AttributedConversion.record = .ok xs :=
  mapM_mapM_eq_ok_iff

/-- A landing appends the records and leaves the other table alone. -/
theorem land_spec {exposures : List Exposure} (hc : Landed c) (h : land c exposures = .ok (c', days)) :
    ∃ xs, exposures.mapM Exposure.toArrow = .ok xs ∧ c'.exposureRows = c.exposureRows ++ xs ∧
      c'.attributed = c.attributed ∧ (∃ table, c'.ensureExposures = .ok table) ∧
      touchedDays (exposures.map Exposure.eventTime) = .ok days := by
  unfold land at h
  split at h
  · rename_i he
    cases h
    exact ⟨[], he ▸ rfl, (List.append_nil _).symm, rfl, hc.exposuresTable, he ▸ rfl⟩
  · obtain ⟨table, htable, h⟩ := bind_eq_ok_iff.mp h
    obtain ⟨xs, hxs, h⟩ := bind_eq_ok_iff.mp h
    obtain ⟨touched, htouched, h⟩ := bind_eq_ok_iff.mp h
    cases h
    rw [mapError_eq_ok_iff] at htable
    refine ⟨xs, hxs, ?_, rfl, ⟨_, ensureTable_append htable _⟩, htouched⟩
    exact congrArg (· ++ xs) (rows_of_ensureTable htable)

theorem landAttributed_spec {rows : List AttributedConversion} (hc : Landed c)
    (h : landAttributed c rows = .ok (c', days)) :
    ∃ xs, rows.mapM AttributedConversion.record = .ok xs ∧ c'.attributedRows = c.attributedRows ++ xs ∧
      c'.exposures = c.exposures ∧ (∃ table, c'.ensureAttributed = .ok table) ∧
      touchedDays (rows.map AttributedConversion.eventTime) = .ok days := by
  unfold landAttributed at h
  split at h
  · rename_i he
    cases h
    exact ⟨[], he ▸ rfl, (List.append_nil _).symm, rfl, hc.attributedTable, he ▸ rfl⟩
  · obtain ⟨table, htable, h⟩ := bind_eq_ok_iff.mp h
    obtain ⟨xs, hxs, h⟩ := bind_eq_ok_iff.mp h
    obtain ⟨touched, htouched, h⟩ := bind_eq_ok_iff.mp h
    cases h
    rw [mapError_eq_ok_iff] at htable
    refine ⟨xs, toArrow_eq_ok_iff.mp hxs, ?_, rfl, ⟨_, ensureTable_append htable _⟩, htouched⟩
    exact congrArg (· ++ xs) (rows_of_ensureTable htable)

theorem landed_land {exposures : List Exposure} (hc : Landed c) (h : land c exposures = .ok (c', days)) :
    Landed c' := by
  obtain ⟨xs, hxs, hrows, hattributed, htable, _⟩ := land_spec hc h
  refine ⟨htable, ?_, ?_, ?_⟩
  · rw [Catalog.ensureAttributed, hattributed]
    exact hc.attributedTable
  · intro x hx
    rw [hrows, List.mem_append] at hx
    rcases hx with hx | hx
    · exact hc.exposures x hx
    · obtain ⟨e, _, he⟩ := (mem_of_mapM_eq_ok hxs).mp hx
      exact ⟨e, he⟩
  · rw [Catalog.attributedRows, hattributed]
    exact hc.attributed

theorem landed_landAttributed {rows : List AttributedConversion} (hc : Landed c)
    (h : landAttributed c rows = .ok (c', days)) : Landed c' := by
  obtain ⟨xs, hxs, hrows, hexposures, htable, _⟩ := landAttributed_spec hc h
  refine ⟨?_, htable, ?_, ?_⟩
  · rw [Catalog.ensureExposures, hexposures]
    exact hc.exposuresTable
  · rw [Catalog.exposureRows, hexposures]
    exact hc.exposures
  · intro x hx
    rw [hrows, List.mem_append] at hx
    rcases hx with hx | hx
    · exact hc.attributed x hx
    · obtain ⟨r, _, hr⟩ := (mem_of_mapM_eq_ok hxs).mp hx
      exact ⟨r, hr⟩

theorem landed_of_reachable (h : Reachable c) : Landed c := by
  induction h with
  | empty => exact ⟨⟨_, rfl⟩, ⟨_, rfl⟩, fun _ hx => absurd hx List.not_mem_nil, fun _ hx => absurd hx List.not_mem_nil⟩
  | land _ h ih => exact landed_land ih h
  | landAttributed _ h ih => exact landed_landAttributed ih h

private theorem exists_touchedDays {times : List DateTime} (h : ∀ t ∈ times, InCalendar t.instant) :
    ∃ days, touchedDays times = .ok days := by
  obtain ⟨us, hus⟩ := exists_mapM_eq_ok fun t ht => exists_toUtcMs (h t ht)
  exact ⟨_, bind_eq_ok_iff.mpr ⟨us, hus, rfl⟩⟩

private theorem exists_touchedDays_exposures {exposures : List Exposure} (h : ∀ e ∈ exposures, ∃ x, e.toArrow = .ok x) :
    ∃ days, touchedDays (exposures.map Exposure.eventTime) = .ok days := by
  apply exists_touchedDays
  intro t ht
  obtain ⟨e, he, rfl⟩ := List.mem_map.mp ht
  obtain ⟨x, hx⟩ := h e he
  exact (exposure_toArrow_eq_ok_iff.mp hx).1

private theorem exists_touchedDays_attributed {rows : List AttributedConversion}
    (h : ∀ r ∈ rows, ∃ x, r.record = .ok x) :
    ∃ days, touchedDays (rows.map AttributedConversion.eventTime) = .ok days := by
  apply exists_touchedDays
  intro t ht
  obtain ⟨r, hr, rfl⟩ := List.mem_map.mp ht
  obtain ⟨x, hx⟩ := h r hr
  exact (dump_eq_ok_iff.mp (record_eq_ok_iff.mp hx).1).1

/-- Rows that have records land. -/
theorem exists_land {exposures : List Exposure} (hc : Landed c)
    (h : ∀ e ∈ exposures, ∃ x, e.toArrow = .ok x) : ∃ c' days, land c exposures = .ok (c', days) := by
  unfold land
  split
  · exact ⟨_, _, rfl⟩
  · obtain ⟨table, htable⟩ := hc.exposuresTable
    obtain ⟨xs, hxs⟩ := exists_mapM_eq_ok h
    obtain ⟨days, hdays⟩ := exists_touchedDays_exposures h
    rw [htable, hxs, hdays]
    exact ⟨_, _, rfl⟩

theorem exists_landAttributed {rows : List AttributedConversion} (hc : Landed c)
    (h : ∀ r ∈ rows, ∃ x, r.record = .ok x) : ∃ c' days, landAttributed c rows = .ok (c', days) := by
  unfold landAttributed
  split
  · exact ⟨_, _, rfl⟩
  · obtain ⟨table, htable⟩ := hc.attributedTable
    obtain ⟨xs, hxs⟩ := exists_mapM_eq_ok h
    obtain ⟨days, hdays⟩ := exists_touchedDays_attributed h
    rw [htable, toArrow_eq_ok_iff.mpr hxs, hdays]
    exact ⟨_, _, rfl⟩

end landings

section exposures
variable {c : Catalog} {days : List Date} {day : Date} {e b : Exposure} {x y : StoredExposure} {rows : List Exposure}

/-- The records that a read of some days builds rows from. -/
def exposureRecords (c : Catalog) (days : List Date) : List StoredExposure :=
  sortedBy storedExposureKey ((firstSeen c.exposureRows).filter fun x => onDays days x.eventTime)

private theorem mem_exposureRecords :
    x ∈ exposureRecords c days ↔ x ∈ c.exposureRows ∧ onDays days x.eventTime = true := by
  rw [exposureRecords, mem_sortedBy, List.mem_filter, mem_firstSeen]

theorem readExposuresForDays_eq (hc : Landed c) (hdays : Date.last ∉ days) (hday : day ∈ days) :
    readExposuresForDays c days = (exposureRecords c days).mapM exposureOf := by
  obtain ⟨table, htable⟩ := hc.exposuresTable
  have hlast : Date.last ∉ sortedBy Date.day days := by rwa [mem_sortedBy]
  obtain ⟨ranges, hranges⟩ := exists_dayRanges hlast
  have hrows : table.rows = c.exposureRows := rows_of_ensureTable htable
  have hselect (i : Int) : inRanges ranges i = onDays days i := by rw [inRanges_eq hranges, onDays_sortedBy]
  unfold readExposuresForDays
  rw [if_neg (List.ne_nil_of_mem hday), htable, hranges]
  change (sortedBy storedExposureKey
    (firstSeen (table.rows.filter fun e => inRanges ranges e.eventTime))).mapM exposureOf = _
  simp only [hselect]
  rw [hrows, ← filter_firstSeen]
  rfl

/-- A landed record reads back as a row whose record it is. -/
theorem record_of_exposureOf (hx : ∃ e : Exposure, e.toArrow = .ok x) (h : exposureOf x = .ok b) :
    b.toArrow = .ok x := by
  obtain ⟨e, he⟩ := hx
  obtain ⟨b', hb', hreads⟩ := exposureOf_toArrow he
  rw [h] at hb'
  cases hb'
  exact hreads.toArrow_eq he

theorem exists_readExposuresForDays (hc : Landed c) (hdays : Date.last ∉ days) (hday : day ∈ days) :
    ∃ rows, readExposuresForDays c days = .ok rows := by
  rw [readExposuresForDays_eq hc hdays hday]
  apply exists_mapM_eq_ok
  intro x hx
  obtain ⟨e, he⟩ := hc.exposures x (mem_exposureRecords.mp hx).1
  obtain ⟨b, hb, _⟩ := exposureOf_toArrow he
  exact ⟨b, hb⟩

theorem record_of_read (hc : Landed c) (hdays : Date.last ∉ days) (hday : day ∈ days)
    (h : readExposuresForDays c days = .ok rows) (hb : b ∈ rows) : ∃ x ∈ c.exposureRows, b.toArrow = .ok x := by
  rw [readExposuresForDays_eq hc hdays hday] at h
  obtain ⟨x, hx, hxb⟩ := (mem_of_mapM_eq_ok h).mp hb
  have hlog := (mem_exposureRecords.mp hx).1
  exact ⟨x, hlog, record_of_exposureOf (hc.exposures x hlog) hxb⟩

/-- No row is read twice. -/
theorem nodup_read (hc : Landed c) (hdays : Date.last ∉ days) (hday : day ∈ days)
    (h : readExposuresForDays c days = .ok rows) : rows.Nodup := by
  rw [readExposuresForDays_eq hc hdays hday] at h
  apply nodup_of_mapM_eq_ok h
  · exact (sortedBy_perm _ _).nodup_iff.mpr ((nodup_firstSeen _).filter _)
  · intro x hx y hy b hxb hyb
    have hxs := record_of_exposureOf (hc.exposures x (mem_exposureRecords.mp hx).1) hxb
    rw [record_of_exposureOf (hc.exposures y (mem_exposureRecords.mp hy).1) hyb] at hxs
    exact (Except.ok.inj hxs).symm

theorem mem_read (hc : Landed c) (hdays : Date.last ∉ days) (hday : day ∈ days)
    (h : readExposuresForDays c days = .ok rows) (hx : x ∈ c.exposureRows) (hon : day.day = x.eventTime / microsPerDay)
    (hb : exposureOf x = .ok b) : b ∈ rows := by
  rw [readExposuresForDays_eq hc hdays hday] at h
  exact (mem_of_mapM_eq_ok h).mpr ⟨x, mem_exposureRecords.mpr ⟨hx, onDays_iff.mpr ⟨day, hday, hon⟩⟩, hb⟩

end exposures

section attributed
variable {c : Catalog} {days : Option (List Date)} {r b : AttributedConversion} {x y : StoredRow}
  {rows : List AttributedConversion}

/-- Days that can be asked for: all of the log, or a list without the last day. -/
def Askable (days : Option (List Date)) : Prop := ∀ l ∈ days, Date.last ∉ l

/-- Whether an event time is on the days asked for. -/
def inScan : Option (List Date) → Int → Bool
  | none, _ => true
  | some l, eventTime => onDays l eventTime

private theorem scannedRows_eq (h : Askable days) (log : List StoredRow) :
    scannedRows log days = .ok (log.filter fun x => inScan days x.eventTime) := by
  cases days with
  | none =>
    have hall : (log.filter fun x => inScan none x.eventTime) = log := List.filter_eq_self.mpr fun _ _ => rfl
    rw [hall]
    rfl
  | some l =>
    have hlast : Date.last ∉ sortedBy Date.day l := by
      rw [mem_sortedBy]
      exact h l rfl
    obtain ⟨ranges, hranges⟩ := exists_dayRanges hlast
    have hselect (i : Int) : inRanges ranges i = inScan (some l) i := by
      rw [inRanges_eq hranges, onDays_sortedBy]
      rfl
    change (dayRanges (sortedBy Date.day l) >>= fun ranges => _) = _
    rw [hranges]
    change Except.ok (log.filter fun x => inRanges ranges x.eventTime) = _
    simp only [hselect]

/-- The current records of the days. -/
def currentRecords (c : Catalog) (days : Option (List Date)) : List StoredRow :=
  sortedBy (fun x => x.conversionId) (collapse (fun x => x.conversionId) storedVersion
    ((firstSeen c.attributedRows).filter fun x => inScan days x.eventTime))

private theorem mem_currentRecords : x ∈ currentRecords c days ↔ current (fun x => x.conversionId) storedVersion
    ((firstSeen c.attributedRows).filter fun x => inScan days x.eventTime) x.conversionId = some x := by
  rw [currentRecords, mem_sortedBy, mem_collapse]

private theorem mem_log_of_mem_currentRecords (h : x ∈ currentRecords c days) : x ∈ c.attributedRows := by
  have hx := (current_eq_some (mem_currentRecords.mp h)).1
  exact mem_firstSeen.mp (List.mem_filter.mp hx).1

theorem readCurrent_eq (hc : Landed c) (hdays : Askable days) :
    readCurrent c days = (currentRecords c days).mapM rowOf := by
  obtain ⟨table, htable⟩ := hc.attributedTable
  have hrows : table.rows = c.attributedRows := rows_of_ensureTable htable
  unfold readCurrent
  rw [htable]
  change (scannedRows table.rows days >>= fun rows => _) = _
  rw [scannedRows_eq hdays, hrows]
  change (sortedBy _ (collapse _ _ (firstSeen _))).mapM rowOf = _
  rw [← filter_firstSeen]
  rfl

theorem record_of_rowOf (hx : ∃ r : AttributedConversion, r.record = .ok x) (h : rowOf x = .ok b) :
    b.record = .ok x := by
  obtain ⟨r, hr⟩ := hx
  obtain ⟨hdump, hcount⟩ := record_eq_ok_iff.mp hr
  obtain ⟨b', hb', hreads⟩ := rowOf_dump hdump
  rw [h] at hb'
  cases hb'
  refine record_eq_ok_iff.mpr ⟨hreads.dump_eq hdump, ?_⟩
  rw [hreads.others]
  exact hcount

theorem exists_readCurrent (hc : Landed c) (hdays : Askable days) : ∃ rows, readCurrent c days = .ok rows := by
  rw [readCurrent_eq hc hdays]
  apply exists_mapM_eq_ok
  intro x hx
  obtain ⟨r, hr⟩ := hc.attributed x (mem_log_of_mem_currentRecords hx)
  obtain ⟨b, hb, _⟩ := rowOf_dump (record_eq_ok_iff.mp hr).1
  exact ⟨b, hb⟩

theorem record_of_readCurrent (hc : Landed c) (hdays : Askable days) (h : readCurrent c days = .ok rows)
    (hb : b ∈ rows) : ∃ x ∈ c.attributedRows, b.record = .ok x := by
  rw [readCurrent_eq hc hdays] at h
  obtain ⟨x, hx, hxb⟩ := (mem_of_mapM_eq_ok h).mp hb
  have hlog := mem_log_of_mem_currentRecords hx
  exact ⟨x, hlog, record_of_rowOf (hc.attributed x hlog) hxb⟩

/-- No other record of the conversion is as new. -/
def Newest (x : StoredRow) (c : Catalog) : Prop :=
  ∀ y ∈ c.attributedRows, y.conversionId = x.conversionId → y = x ∨ storedVersion y < storedVersion x

theorem mem_currentRecords_of_newest (hx : x ∈ c.attributedRows) (hnew : Newest x c)
    (hon : inScan days x.eventTime = true) : x ∈ currentRecords c days := by
  have hscan : x ∈ (firstSeen c.attributedRows).filter fun x => inScan days x.eventTime :=
    List.mem_filter.mpr ⟨mem_firstSeen.mpr hx, hon⟩
  obtain ⟨y, hy⟩ := exists_current (fun x => x.conversionId) storedVersion hscan
  obtain ⟨hmem, hid, hmax⟩ := current_eq_some hy
  have hlog : y ∈ c.attributedRows := mem_firstSeen.mp (List.mem_filter.mp hmem).1
  rw [mem_currentRecords, hy]
  rcases hnew y hlog hid with rfl | hlt
  · rfl
  · exact absurd hlt (not_lt.mpr (hmax x hscan rfl))

/-- One row is read for a conversion. -/
theorem nodup_readCurrent (hc : Landed c) (hdays : Askable days) (h : readCurrent c days = .ok rows) :
    (rows.map AttributedConversion.conversionId).Nodup := by
  rw [readCurrent_eq hc hdays] at h
  have hid : rows.map AttributedConversion.conversionId = (currentRecords c days).map fun x => x.conversionId := by
    apply map_eq_of_mapM_eq_ok h
    intro x hx b hb
    have hrecord := record_of_rowOf (hc.attributed x (mem_log_of_mem_currentRecords hx)) hb
    obtain ⟨_, _, _, rfl⟩ := dump_eq_ok_iff.mp (record_eq_ok_iff.mp hrecord).1
    rfl
  rw [hid, currentRecords, ((sortedBy_perm _ _).map _).nodup_iff]
  exact nodup_key_collapse _

end attributed

-- the lake of instants underneath: wall clocks add nothing to what it holds or gives back
section instants
variable {lake : Lake} {days : List Date}

/-- Landing rows with wall clocks is landing their instants. -/
theorem land_catalog {exposures : List Exposure} {xs : List StoredExposure}
    (h : exposures.mapM Exposure.toArrow = .ok xs) :
    ∃ touched, land lake.catalog exposures = .ok ((lake.land (exposures.map Exposure.instants)).catalog, touched) := by
  have hrecords : xs = (exposures.map Exposure.instants).map fun e => (landedExposure e).stored := by
    rw [List.map_map, ← List.map_id xs]
    exact map_eq_of_mapM_eq_ok h fun e _ x hx => (exposure_toArrow_eq_ok_iff.mp hx).2.2
  obtain ⟨touched, htouched⟩ := exists_touchedDays_exposures fun e he =>
    (exists_of_mapM_eq_ok h he).imp fun _ hx => hx.2
  unfold land
  split
  · rename_i he
    refine ⟨∅, ?_⟩
    rw [he, List.map_nil, Lake.land, List.map_nil, List.append_nil]
  · refine ⟨touched, ?_⟩
    rw [ensureExposures_catalog, h, htouched, hrecords]
    simp only [Lake.land, Lake.catalog, List.map_append, List.map_map]
    rfl

theorem landAttributed_catalog {rows : List AttributedConversion} {xs : List StoredRow}
    (h : rows.mapM AttributedConversion.record = .ok xs) : ∃ touched, landAttributed lake.catalog rows =
      .ok ((lake.landAttributed (rows.map AttributedConversion.instants)).catalog, touched) := by
  have hrecords : xs = (rows.map AttributedConversion.instants).map fun r => (landedRow r).stored := by
    rw [List.map_map, ← List.map_id xs]
    exact map_eq_of_mapM_eq_ok h fun r _ x hx => (dump_eq_ok_iff.mp (record_eq_ok_iff.mp hx).1).2.2.2
  obtain ⟨touched, htouched⟩ := exists_touchedDays_attributed fun r hr =>
    (exists_of_mapM_eq_ok h hr).imp fun _ hx => hx.2
  unfold landAttributed
  split
  · rename_i he
    refine ⟨∅, ?_⟩
    rw [he, List.map_nil, Lake.landAttributed, List.map_nil, List.append_nil]
  · refine ⟨touched, ?_⟩
    rw [ensureAttributed_catalog, toArrow_eq_ok_iff.mpr h, htouched, hrecords]
    simp only [Lake.landAttributed, Lake.catalog, List.map_append, List.map_map]
    rfl

private theorem onDays_eq (days : List Date) (i : Int) : onDays days i = dayRangesPredicate (days.map Date.day) i := by
  rw [Bool.eq_iff_iff, onDays_iff, dayRangesPredicate_iff, List.mem_map]
  rfl

/-- What is read back of the days is what the lake of instants reads. -/
theorem readExposuresForDays_instants {day : Date} {rows : List Exposure} (hc : Landed lake.catalog)
    (hdays : Date.last ∉ days) (hday : day ∈ days) (h : readExposuresForDays lake.catalog days = .ok rows) :
    rows.map (fun b => landedExposure b.instants) =
      CtvAttribution.readExposuresForDays lake.exposures (days.map Date.day) := by
  rw [readExposuresForDays_eq hc hdays hday] at h
  have hrecords : rows.map (fun b => (landedExposure b.instants).stored) = exposureRecords lake.catalog days := by
    rw [← List.map_id (exposureRecords lake.catalog days)]
    apply map_eq_of_mapM_eq_ok h
    intro x hx b hb
    have hrecord := record_of_exposureOf (hc.exposures x (mem_exposureRecords.mp hx).1) hb
    exact (exposure_toArrow_eq_ok_iff.mp hrecord).2.2.symm
  apply List.map_injective_iff.mpr stored_exposure_injective
  rw [List.map_map, ← exposuresQuery_map, exposuresQuery]
  refine hrecords.trans ?_
  rw [exposureRecords, filter_firstSeen]
  simp only [onDays_eq]
  rfl

theorem readCurrent_instants {days : Option (List Date)} {rows : List AttributedConversion}
    (hc : Landed lake.catalog) (hdays : Askable days) (h : readCurrent lake.catalog days = .ok rows) :
    rows.map (fun b => landedRow b.instants) =
      CtvAttribution.readCurrent lake.attributed (days.map fun l => l.map Date.day) := by
  rw [readCurrent_eq hc hdays] at h
  have hrecords : rows.map (fun b => (landedRow b.instants).stored) = currentRecords lake.catalog days := by
    rw [← List.map_id (currentRecords lake.catalog days)]
    apply map_eq_of_mapM_eq_ok h
    intro x hx b hb
    have hrecord := record_of_rowOf (hc.attributed x (mem_log_of_mem_currentRecords hx)) hb
    exact (dump_eq_ok_iff.mp (record_eq_ok_iff.mp hrecord).1).2.2.2.symm
  apply List.map_injective_iff.mpr stored_injective
  rw [List.map_map]
  refine hrecords.trans ?_
  have hlog : lake.catalog.attributedRows = lake.attributed.map AttributedConversion.stored := rfl
  have hscanned : scanned lake.attributed (days.map fun l => l.map Date.day) =
      lake.attributed.filter fun r => inScan days r.eventTime := by
    cases days with
    | none => exact (List.filter_eq_self.mpr fun _ _ => rfl).symm
    | some l =>
      simp only [inScan, onDays_eq]
      rfl
  rw [currentRecords, filter_firstSeen, hlog, List.filter_map, firstSeen_map stored_injective, collapse_map,
    sortedBy_map, CtvAttribution.readCurrent, hscanned]
  rfl

end instants

end CtvAttribution.RowTrips
