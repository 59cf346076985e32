import CtvAttribution.LandedRows

/-! Landing a row, reading it back and landing it again, on a lake that any landings have
written. Nothing about the row changes, whatever number of times it goes round. -/
namespace CtvAttribution.RowTrips
open Library

/-- Read some days of exposures and land what was read. -/
def cycleExposures (days : List Date) (c : Catalog) : Except TripError Catalog := do
  let rows ← readExposuresForDays c days
  return (← land c rows).1

/-- Read the current rows and land what was read. -/
def cycleCurrent (days : Option (List Date)) (c : Catalog) : Except TripError Catalog := do
  let rows ← readCurrent c days
  return (← landAttributed c rows).1

def cycles (cycle : Catalog → Except TripError Catalog) : Nat → Catalog → Except TripError Catalog
  | 0, c => .ok c
  | n + 1, c => do cycles cycle n (← cycle c)

private theorem cycles_spec {cycle : Catalog → Except TripError Catalog} {P : Catalog → Prop}
    (h : ∀ c, P c → ∃ c', cycle c = .ok c' ∧ P c') (n : Nat) :
    ∀ c, P c → ∃ c', cycles cycle n c = .ok c' ∧ P c' := by
  induction n with
  | zero => exact fun c hc => ⟨c, rfl, hc⟩
  | succ n ih =>
    intro c hc
    obtain ⟨d, hd, hpd⟩ := h c hc
    obtain ⟨c', hc', hp⟩ := ih d hpd
    exact ⟨c', bind_eq_ok_iff.mpr ⟨d, hd, hc'⟩, hp⟩

section distinct
variable {α β ε : Type} [DecidableEq α]

/-- Rows whose records are there already add nothing to what is read distinct. -/
theorem firstSeen_append_records {f : β → Except ε α} {rows : List β} {log xs : List α}
    (hxs : rows.mapM f = .ok xs) (h : ∀ b ∈ rows, ∃ x ∈ log, f b = .ok x) :
    firstSeen (log ++ xs) = firstSeen log := by
  apply firstSeen_append_of_mem
  intro x hx
  obtain ⟨b, hb, hbx⟩ := (mem_of_mapM_eq_ok hxs).mp hx
  obtain ⟨y, hy, hby⟩ := h b hb
  rw [hbx] at hby
  exact Except.ok.inj hby ▸ hy

/-- Cycles that each keep what a log holds keep it together. -/
theorem cycles_keep {log : Catalog → List α} {cycle : Catalog → Except TripError Catalog}
    (h : ∀ c, Landed c → ∃ c', cycle c = .ok c' ∧ Landed c' ∧ firstSeen (log c') = firstSeen (log c))
    (n : Nat) {c : Catalog} (hc : Landed c) :
    ∃ c', cycles cycle n c = .ok c' ∧ Landed c' ∧ firstSeen (log c') = firstSeen (log c) := by
  let same := fun d : Catalog => Landed d ∧ firstSeen (log d) = firstSeen (log c)
  have hstep : ∀ d, same d → ∃ d', cycle d = .ok d' ∧ same d' := by
    intro d hd
    obtain ⟨d', hcycle, hd', heq⟩ := h d hd.1
    exact ⟨d', hcycle, hd', heq.trans hd.2⟩
  exact cycles_spec hstep n c ⟨hc, rfl⟩

end distinct

/-- The predicate of a day is formed, and it selects the event time. -/
def Selects (d : Date) (eventTime : Int) : Prop :=
  ∃ ranges, dayRanges [d] = .ok ranges ∧ inRanges ranges eventTime = true

private theorem selects_iff {d : Date} {i : Int} : Selects d i ↔ d ≠ .last ∧ d.day = i / microsPerDay := by
  constructor
  · intro h
    obtain ⟨ranges, hranges, hin⟩ := h
    rw [inRanges_eq hranges, onDays_iff] at hin
    obtain ⟨d', hd', hday⟩ := hin
    obtain ⟨range, _, hrange⟩ := exists_of_mapM_eq_ok hranges List.mem_cons_self
    exact ⟨dayRange_isOk_iff.mp ⟨range, hrange⟩, List.mem_singleton.mp hd' ▸ hday⟩
  · intro h
    obtain ⟨ranges, hranges⟩ := exists_dayRanges fun hl => h.1 (List.mem_singleton.mp hl).symm
    refine ⟨ranges, hranges, ?_⟩
    rw [inRanges_eq hranges]
    exact onDays_iff.mpr ⟨d, List.mem_cons_self, h.2⟩

/-- What moving an exposure through the stores has to give: it lands as `record` on `day` and reads
back as `b`, and any number of further cycles reads the same rows. -/
structure Exposure.Moves (e : Exposure) (record : StoredExposure) (day : Date) (b : Exposure) : Prop where
  readsAs : e.ReadsAs b
  values : ∃ t s, exposureValues b = .ok (e.columns t s) ∧ AwareMs e.eventTime t ∧ AwareMs e.ingestTime s
  landed : e.toArrow = .ok record
  relanded : b.toArrow = .ok record
  selected : ∀ d, Selects d record.eventTime ↔ d = day
  cycles : ∀ c, Reachable c → ∃ c', land c [e] = .ok (c', {day}) ∧
    ∀ days, day ∈ days → Date.last ∉ days → ∃ rows, b ∈ rows ∧ rows.Nodup ∧
      ∀ n, ∃ c'', cycles (cycleExposures days) n c' = .ok c'' ∧ readExposuresForDays c'' days = .ok rows

/-- The same of an attributed row, which the lake gives back while no newer version is there. -/
structure AttributedConversion.Moves (r : AttributedConversion) (record : StoredRow) (day : Date)
    (b : AttributedConversion) : Prop where
  readsAs : r.ReadsAs b
  values : ∃ t s u, attributedValues b = .ok (r.columns t s u) ∧ AwareMs r.eventTime t ∧
    AwareMs r.ingestTime s ∧ AwareMs r.processedAt u
  landed : r.record = .ok record
  relanded : b.record = .ok record
  selected : ∀ d, Selects d record.eventTime ↔ d = day
  cycles : ∀ c, Reachable c → Newest record c → ∃ c', landAttributed c [r] = .ok (c', {day}) ∧
    ∀ days, (∀ l ∈ days, day ∈ l ∧ Date.last ∉ l) → ∃ rows, b ∈ rows ∧
      (rows.map AttributedConversion.conversionId).Nodup ∧
      ∀ n, ∃ c'', cycles (cycleCurrent days) n c' = .ok c'' ∧ readCurrent c'' days = .ok rows

def Exposure.MovesUnchanged (e : Exposure) : Prop := ∃ record day b, e.Moves record day b

def AttributedConversion.MovesUnchanged (r : AttributedConversion) : Prop := ∃ record day b, r.Moves record day b

/-- The instants are in the calendar and the event is before its last day. -/
structure Exposure.Representable (e : Exposure) : Prop where
  eventTime : InCalendar e.eventTime.instant
  ingestTime : InCalendar e.ingestTime.instant
  beforeLast : e.eventTime.instant < Date.last.midnight.wall

structure AttributedConversion.Representable (r : AttributedConversion) : Prop where
  eventTime : InCalendar r.eventTime.instant
  ingestTime : InCalendar r.ingestTime.instant
  processedAt : InCalendar r.processedAt.instant
  beforeLast : r.eventTime.instant < Date.last.midnight.wall
  candidateCount : (r.candidateCount : Int) ≤ int32Max

section trips

/-- The touched day of an instant in the calendar is the one that selects it. -/
theorem selects_touched {t u : DateTime} (h : toUtcMs t = .ok u) (d : Date) :
    Selects d (CtvAttribution.toUtcMs t.instant) ↔ d ≠ .last ∧ d = u.date := by
  have htruncated : CtvAttribution.toUtcMs t.instant / microsPerDay = u.date.day := by
    rw [day_of_toUtcMs h]
    exact dayOf_toUtcMs t.instant
  rw [selects_iff, htruncated, Date.ext_iff (x := d) (y := u.date)]

private theorem last_iff {t u : DateTime} (h : toUtcMs t = .ok u) :
    u.date = .last ↔ ¬ t.instant < Date.last.midnight.wall := by
  have hday := day_of_toUtcMs h
  have hc := inCalendar_iff.mp (toUtcMs_eq_ok_iff.mp h).1
  have hmidnight : Date.last.midnight.wall = 253402214400000000 := rfl
  have hlast : Date.last.day = 2932896 := rfl
  rw [hmidnight, Date.ext_iff, hday, hlast, microsPerDay]
  omega

private theorem selects_iff_eq_touched {t u : DateTime} (h : toUtcMs t = .ok u) (hlast : u.date ≠ .last) (d : Date) :
    Selects d (CtvAttribution.toUtcMs t.instant) ↔ d = u.date := by
  rw [selects_touched h]
  constructor
  · exact And.right
  · intro hd
    exact ⟨hd ▸ hlast, hd⟩

variable {c : Catalog} {u : DateTime}

section exposures
variable {e b : Exposure} {x : StoredExposure} {days : List Date} {day : Date} {rows : List Exposure}

/-- One cycle stores only records that are stored already. -/
theorem cycleExposures_spec (hc : Landed c) (hdays : Date.last ∉ days) (hday : day ∈ days) :
    ∃ c', cycleExposures days c = .ok c' ∧ Landed c' ∧ firstSeen c'.exposureRows = firstSeen c.exposureRows := by
  obtain ⟨rows, hrows⟩ := exists_readExposuresForDays hc hdays hday
  have hrecords : ∀ b ∈ rows, ∃ x ∈ c.exposureRows, b.toArrow = .ok x :=
    fun b hb => record_of_read hc hdays hday hrows hb
  obtain ⟨c', landed, hland⟩ := exists_land hc fun b hb => (hrecords b hb).imp fun _ h => h.2
  refine ⟨c', bind_eq_ok_iff.mpr ⟨rows, hrows, bind_eq_ok_iff.mpr ⟨_, hland, rfl⟩⟩, landed_land hc hland, ?_⟩
  obtain ⟨xs, hxs, hlog, _⟩ := land_spec hc hland
  rw [hlog]
  exact firstSeen_append_records hxs hrecords

private theorem land_singleton (hc : Landed c) (hx : e.toArrow = .ok x) (hu : toUtcMs e.eventTime = .ok u) :
    ∃ c', land c [e] = .ok (c', {u.date}) ∧ Landed c' ∧ x ∈ c'.exposureRows := by
  obtain ⟨c', touched, hland⟩ := exists_land hc fun a ha => ⟨x, List.mem_singleton.mp ha ▸ hx⟩
  obtain ⟨xs, hxs, hlog, _, _, htouched⟩ := land_spec hc hland
  have hday : touched = {u.date} := by
    rw [List.map_singleton, touchedDays_singleton hu] at htouched
    exact (Except.ok.inj htouched).symm
  refine ⟨c', hday ▸ hland, landed_land hc hland, ?_⟩
  rw [hlog, List.mem_append, mem_of_mapM_eq_ok hxs]
  exact .inr ⟨e, List.mem_cons_self, hx⟩

/-- Cycles leave what the days read as. -/
theorem read_of_cycles (hc : Landed c) (hlast : Date.last ∉ days) (hday : day ∈ days)
    (h : readExposuresForDays c days = .ok rows) (n : Nat) :
    ∃ c', cycles (cycleExposures days) n c = .ok c' ∧ readExposuresForDays c' days = .ok rows := by
  obtain ⟨c', hcycles, hc', heq⟩ := cycles_keep (fun d hd => cycleExposures_spec hd hlast hday) n hc
  refine ⟨c', hcycles, ?_⟩
  rw [readExposuresForDays_eq hc' hlast hday, exposureRecords, heq, ← h, readExposuresForDays_eq hc hlast hday]
  rfl

theorem Exposure.Representable.movesUnchanged (h : e.Representable) : e.MovesUnchanged := by
  obtain ⟨u, hu⟩ := exists_toUtcMs h.eventTime
  have hlast : u.date ≠ .last := fun hl => (last_iff hu).mp hl h.beforeLast
  have hlanded := exposure_toArrow_eq_ok_iff.mpr ⟨h.eventTime, h.ingestTime, rfl⟩
  obtain ⟨b, hb, hreads⟩ := exposureOf_toArrow hlanded
  refine ⟨_, u.date, b, hreads, exposureValues_of_readsAs hreads, hlanded, hreads.toArrow_eq hlanded,
    selects_iff_eq_touched hu hlast, ?_⟩
  intro c hc
  obtain ⟨c', hland, hc', hx⟩ := land_singleton (landed_of_reachable hc) hlanded hu
  refine ⟨c', hland, ?_⟩
  intro days hday hdays
  obtain ⟨rows, hrows⟩ := exists_readExposuresForDays hc' hdays hday
  have hon := (selects_iff.mp ((selects_iff_eq_touched hu hlast u.date).mpr rfl)).2
  exact ⟨rows, mem_read hc' hdays hday hrows hx hon hb, nodup_read hc' hdays hday hrows,
    read_of_cycles hc' hdays hday hrows⟩

theorem Exposure.MovesUnchanged.representable (h : e.MovesUnchanged) : e.Representable := by
  obtain ⟨x, day, b, h⟩ := h
  obtain ⟨hevent, hingest, rfl⟩ := exposure_toArrow_eq_ok_iff.mp h.landed
  obtain ⟨u, hu⟩ := exists_toUtcMs hevent
  have hsel := (selects_touched hu day).mp ((h.selected day).mpr rfl)
  refine ⟨hevent, hingest, ?_⟩
  by_contra hge
  exact hsel.1 (hsel.2.trans ((last_iff hu).mpr hge))

end exposures

section attributed
variable {r b : AttributedConversion} {x : StoredRow} {days : Option (List Date)} {rows : List AttributedConversion}

private theorem cycleCurrent_spec (hc : Landed c) (hdays : Askable days) :
    ∃ c', cycleCurrent days c = .ok c' ∧ Landed c' ∧ firstSeen c'.attributedRows = firstSeen c.attributedRows := by
  obtain ⟨rows, hrows⟩ := exists_readCurrent hc hdays
  have hrecords : ∀ b ∈ rows, ∃ x ∈ c.attributedRows, b.record = .ok x :=
    fun b hb => record_of_readCurrent hc hdays hrows hb
  obtain ⟨c', landed, hland⟩ := exists_landAttributed hc fun b hb => (hrecords b hb).imp fun _ h => h.2
  refine ⟨c', bind_eq_ok_iff.mpr ⟨rows, hrows, bind_eq_ok_iff.mpr ⟨_, hland, rfl⟩⟩,
    landed_landAttributed hc hland, ?_⟩
  obtain ⟨xs, hxs, hlog, _⟩ := landAttributed_spec hc hland
  rw [hlog]
  exact firstSeen_append_records hxs hrecords

private theorem landAttributed_singleton (hc : Landed c) (hx : r.record = .ok x) (hu : toUtcMs r.eventTime = .ok u) :
    ∃ c', landAttributed c [r] = .ok (c', {u.date}) ∧ Landed c' ∧ c'.attributedRows = c.attributedRows ++ [x] := by
  obtain ⟨c', touched, hland⟩ := exists_landAttributed hc fun a ha => ⟨x, List.mem_singleton.mp ha ▸ hx⟩
  obtain ⟨xs, hxs, hlog, _, _, htouched⟩ := landAttributed_spec hc hland
  have hday : touched = {u.date} := by
    rw [List.map_singleton, touchedDays_singleton hu] at htouched
    exact (Except.ok.inj htouched).symm
  have hone : xs = [x] := by
    rw [List.mapM_cons, hx] at hxs
    cases hxs
    rfl
  exact ⟨c', hday ▸ hland, landed_landAttributed hc hland, hone ▸ hlog⟩

private theorem readCurrent_of_cycles (hc : Landed c) (hdays : Askable days) (h : readCurrent c days = .ok rows)
    (n : Nat) :
    ∃ c', cycles (cycleCurrent days) n c = .ok c' ∧ readCurrent c' days = .ok rows := by
  obtain ⟨c', hcycles, hc', heq⟩ := cycles_keep (fun d hd => cycleCurrent_spec hd hdays) n hc
  refine ⟨c', hcycles, ?_⟩
  rw [readCurrent_eq hc' hdays, currentRecords, heq, ← h, readCurrent_eq hc hdays]
  rfl

theorem AttributedConversion.Representable.movesUnchanged (h : r.Representable) : r.MovesUnchanged := by
  obtain ⟨u, hu⟩ := exists_toUtcMs h.eventTime
  have hlast : u.date ≠ .last := fun hl => (last_iff hu).mp hl h.beforeLast
  have hdump := dump_eq_ok_iff.mpr ⟨h.eventTime, h.ingestTime, h.processedAt, rfl⟩
  have hlanded := record_eq_ok_iff.mpr ⟨hdump, h.candidateCount⟩
  obtain ⟨b, hb, hreads⟩ := rowOf_dump hdump
  refine ⟨_, u.date, b, hreads, attributedValues_of_readsAs hreads, hlanded, record_of_rowOf ⟨r, hlanded⟩ hb,
    selects_iff_eq_touched hu hlast, ?_⟩
  intro c hc hnew
  obtain ⟨c', hland, hc', hlog⟩ := landAttributed_singleton (landed_of_reachable hc) hlanded hu
  refine ⟨c', hland, ?_⟩
  intro days hdays
  have hask : Askable days := fun l hl => (hdays l hl).2
  obtain ⟨rows, hrows⟩ := exists_readCurrent hc' hask
  refine ⟨rows, ?_, nodup_readCurrent hc' hask hrows, readCurrent_of_cycles hc' hask hrows⟩
  have hnew' : Newest (landedRow r.instants).stored c' := by
    intro y hy hid
    rw [hlog, List.mem_append, List.mem_singleton] at hy
    rcases hy with hy | rfl
    · exact hnew y hy hid
    · exact .inl rfl
  have hx : (landedRow r.instants).stored ∈ c'.attributedRows := by
    rw [hlog]
    exact List.mem_append_right _ List.mem_cons_self
  have hon : inScan days (landedRow r.instants).stored.eventTime = true := by
    cases days with
    | none => rfl
    | some l =>
      have hday := (selects_iff.mp ((selects_iff_eq_touched hu hlast u.date).mpr rfl)).2
      exact onDays_iff.mpr ⟨u.date, (hdays l rfl).1, hday⟩
  rw [readCurrent_eq hc' hask] at hrows
  exact (mem_of_mapM_eq_ok hrows).mpr ⟨_, mem_currentRecords_of_newest hx hnew' hon, hb⟩

theorem AttributedConversion.MovesUnchanged.representable (h : r.MovesUnchanged) : r.Representable := by
  obtain ⟨x, day, b, h⟩ := h
  obtain ⟨hdump, hcount⟩ := record_eq_ok_iff.mp h.landed
  obtain ⟨hevent, hingest, hprocessed, rfl⟩ := dump_eq_ok_iff.mp hdump
  obtain ⟨u, hu⟩ := exists_toUtcMs hevent
  have hsel := (selects_touched hu day).mp ((h.selected day).mpr rfl)
  refine ⟨hevent, hingest, hprocessed, ?_, hcount⟩
  by_contra hge
  exact hsel.1 (hsel.2.trans ((last_iff hu).mpr hge))

end attributed

/-- A row moves through the stores unchanged exactly when the calendar holds its instants in UTC
and the day after its event. -/
theorem rows_move_unchanged_iff : (∀ e : Exposure, e.MovesUnchanged ↔ e.Representable) ∧
    ∀ r : AttributedConversion, r.MovesUnchanged ↔ r.Representable :=
  ⟨fun _ => ⟨Exposure.MovesUnchanged.representable, Exposure.Representable.movesUnchanged⟩,
    fun _ => ⟨AttributedConversion.MovesUnchanged.representable, AttributedConversion.Representable.movesUnchanged⟩⟩

private theorem lastNoon_inCalendar : InCalendar 253402257600000000 := by decide

/-- 9999-12-31T12:00:00Z. -/
def lastNoon : DateTime := ⟨253402257600000000, some .utc, lastNoon_inCalendar⟩

def lastNoonExposure : Exposure where
  exposureId := "e-0"
  eventTime := lastNoon
  ingestTime := lastNoon
  campaignId := "c-0"
  householdId := "hh-0"
  ip := "10.0.0.1"
  appId := "app-0"
  programGenre := "news"
  spend := 300

/-- An exposure of the last day lands, but the day after it cannot be formed to read it back. -/
theorem lastNoon_not_read : (∃ c, land ⟨none, none⟩ [lastNoonExposure] = .ok (c, {Date.last}) ∧
    readExposuresForDays c [Date.last] = .error (.overflow ⟨⟩)) ∧ ¬ ∀ e : Exposure, e.MovesUnchanged := by
  refine ⟨⟨_, rfl, rfl⟩, fun h => ?_⟩
  exact absurd (h lastNoonExposure).representable.beforeLast (by decide)

end trips

end CtvAttribution.RowTrips
