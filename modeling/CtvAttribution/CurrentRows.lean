import CtvAttribution.Lake

/-! Reading the lake back: the current row of each conversion, over the whole log or over
some days of it. -/
namespace CtvAttribution
open Library

section time

theorem day_eq : Time.day = 86400000000 := rfl

theorem millisecond_eq : Time.millisecond = 1000 := rfl

theorem toUtcMs_mono {s t : Int} (h : s ≤ t) : toUtcMs s ≤ toUtcMs t := by
  rw [toUtcMs, toUtcMs, millisecond_eq]
  omega

@[simp] theorem toUtcMs_toUtcMs (t : Int) : toUtcMs (toUtcMs t) = toUtcMs t := by
  simp only [toUtcMs, millisecond_eq]
  omega

/-- Truncation stays within the day. -/
@[simp] theorem dayOf_toUtcMs (t : Int) : dayOf (toUtcMs t) = dayOf t := by
  simp only [dayOf, toUtcMs, millisecond_eq, day_eq]
  omega

theorem dayRangesPredicate_iff {days : List Int} {t : Int} :
    dayRangesPredicate days t = true ↔ dayOf t ∈ days := by
  have hone (d : Int) : (d * Time.day ≤ t ∧ t < d * Time.day + Time.day) ↔ dayOf t = d := by
    rw [dayOf, day_eq]
    omega
  simp only [dayRangesPredicate, List.any_eq_true, decide_eq_true_eq, hone]
  constructor
  · intro h
    obtain ⟨d, hd, rfl⟩ := h
    exact hd
  · intro h
    exact ⟨_, h, rfl⟩

theorem mem_touchedDays {times : List Int} {d : Int} :
    d ∈ touchedDays times ↔ ∃ t ∈ times, dayOf t = d := by
  simp [touchedDays]

end time

/-- At equal stamps a reconciled row supersedes a hot one. -/
theorem hot_text_lt_reconciled : Path.hot.text < Path.reconciled.text := by decide

/-- The current row of a conversion in a log. -/
def currentRow (log : List AttributedConversion) (cid : String) : Option AttributedConversion :=
  current (fun r => r.conversionId) recordVersion log cid

section readCurrent
variable {log log' new : List AttributedConversion} {r x : AttributedConversion} {cid : String}

theorem currentRow_mem (h : currentRow log cid = some r) : r ∈ log := (current_eq_some h).1

theorem currentRow_conversionId (h : currentRow log cid = some r) : r.conversionId = cid :=
  (current_eq_some h).2.1

theorem currentRow_max (h : currentRow log cid = some r) (hx : x ∈ log) (he : x.conversionId = cid) :
    recordVersion x ≤ recordVersion r :=
  (current_eq_some h).2.2 x hx he

theorem exists_currentRow (h : r ∈ log) : ∃ c, currentRow log r.conversionId = some c :=
  exists_current _ _ h

/-- The unfiltered read returns the current rows. -/
theorem mem_readCurrent : r ∈ readCurrent log none ↔ currentRow log r.conversionId = some r := by
  rw [readCurrent, mem_sortedBy, mem_collapse, current_firstSeen]
  rfl

theorem readCurrent_strict (log : List AttributedConversion) (days : Option (List Int)) :
    (readCurrent log days).Pairwise fun r s => r.conversionId < s.conversionId :=
  sortedBy_strict _ (nodup_key_collapse _)

theorem nodup_readCurrent (log : List AttributedConversion) (days : Option (List Int)) :
    ((readCurrent log days).map fun r => r.conversionId).Nodup := by
  rw [List.nodup_iff_pairwise_ne, List.pairwise_map]
  exact (readCurrent_strict log days).imp fun h => ne_of_lt h

/-- Two logs read alike when each conversion has the same current row. -/
theorem readCurrent_eq_iff :
    readCurrent log none = readCurrent log' none ↔ ∀ cid, currentRow log cid = currentRow log' cid := by
  constructor
  · intro h cid
    apply Option.ext
    intro r
    have mem : r ∈ readCurrent log none ↔ r ∈ readCurrent log' none := by rw [h]
    rw [mem_readCurrent, mem_readCurrent] at mem
    constructor
    · intro hr
      have hid := currentRow_conversionId hr
      rw [← hid] at hr ⊢
      exact mem.mp hr
    · intro hr
      have hid := currentRow_conversionId hr
      rw [← hid] at hr ⊢
      exact mem.mpr hr
  · intro h
    apply eq_of_strict_of_mem_iff _ (readCurrent_strict _ _) (readCurrent_strict _ _)
    intro r
    rw [mem_readCurrent, mem_readCurrent, h]

/-- All rows of a conversion fall on one day. -/
def SameDay (log : List AttributedConversion) : Prop :=
  ∀ r ∈ log, ∀ s ∈ log, r.conversionId = s.conversionId → dayOf r.eventTime = dayOf s.eventTime

/-- A day's read is the whole read cut to that day: a conversion's versions are never split. -/
theorem mem_readCurrent_days (h : SameDay log) {days : List Int} :
    r ∈ readCurrent log (some days) ↔
      currentRow log r.conversionId = some r ∧ dayOf r.eventTime ∈ days := by
  rw [readCurrent, mem_sortedBy, mem_collapse, current_firstSeen]
  by_cases hday : ∃ x ∈ log, x.conversionId = r.conversionId ∧ dayOf x.eventTime ∈ days
  · obtain ⟨x, hx, hxc, hxd⟩ := hday
    have hall : ∀ s ∈ log, s.conversionId = r.conversionId → dayOf s.eventTime ∈ days := by
      intro s hs he
      rwa [h s hs x hx (he.trans hxc.symm)]
    rw [scanned, current_filter fun s hs he => dayRangesPredicate_iff.mpr (hall s hs he)]
    exact ⟨fun hc => ⟨hc, hall r (currentRow_mem hc) rfl⟩, And.left⟩
  · have hnone : ∀ s ∈ log, s.conversionId = r.conversionId → dayRangesPredicate days s.eventTime = false := by
      intro s hs he
      rw [← Bool.not_eq_true, dayRangesPredicate_iff]
      exact fun hd => hday ⟨s, hs, he, hd⟩
    rw [scanned, current_filter_eq_none hnone]
    constructor
    · exact nofun
    · intro h
      obtain ⟨hc, hd⟩ := h
      exact absurd ⟨r, currentRow_mem hc, rfl, hd⟩ hday

/-- Appending rows of other conversions leaves a current row alone. -/
theorem currentRow_append_of_not_mem (h : ∀ x ∈ new, x.conversionId ≠ cid) :
    currentRow (log ++ new) cid = currentRow log cid :=
  current_append_of_not_mem h

theorem currentRow_append : currentRow (log ++ new) cid =
    newer recordVersion (currentRow log cid) (currentRow new cid) :=
  current_append

/-- A log whose rows of a conversion are all one row. -/
theorem currentRow_of_unique (hx : x ∈ new) (h : ∀ y ∈ new, y.conversionId = x.conversionId → y = x) :
    currentRow new x.conversionId = some x := by
  obtain ⟨c, hc⟩ := exists_currentRow hx
  rw [hc, h c (currentRow_mem hc) (currentRow_conversionId hc)]

/-- What `row_number()` leaves open: for each conversion some row of the highest version and
path, whichever. -/
structure ReadsCurrent (log : List AttributedConversion) (days : Option (List Int)) (rows : List AttributedConversion) :
    Prop where
  sorted : rows.Pairwise fun r x => r.conversionId < x.conversionId
  current : ∀ r ∈ rows, r ∈ scanned log days ∧
    ∀ x ∈ scanned log days, x.conversionId = r.conversionId → recordVersion x ≤ recordVersion r
  complete : ∀ x ∈ scanned log days, ∃ r ∈ rows, r.conversionId = x.conversionId

private theorem mem_readCurrent_scanned {days : Option (List Int)} :
    r ∈ readCurrent log days ↔ currentRow (scanned log days) r.conversionId = some r := by
  rw [readCurrent, mem_sortedBy, mem_collapse, current_firstSeen]
  rfl

/-- The read of the model is one of these reads. -/
theorem readsCurrent_readCurrent (log : List AttributedConversion) (days : Option (List Int)) :
    ReadsCurrent log days (readCurrent log days) := by
  refine ⟨readCurrent_strict _ _, fun r hr => ?_, fun x hx => ?_⟩
  · have hc := mem_readCurrent_scanned.mp hr
    exact ⟨currentRow_mem hc, fun x hx hid => currentRow_max hc hx hid⟩
  · obtain ⟨c, hc⟩ := exists_currentRow hx
    have hid := currentRow_conversionId hc
    exact ⟨c, mem_readCurrent_scanned.mpr (hid ▸ hc), hid⟩

/-- Where no two rows tie it is the only one. -/
theorem ReadsCurrent.eq_readCurrent {days : Option (List Int)} {rows : List AttributedConversion}
    (h : ReadsCurrent log days rows) (hties : Keyed (fun r => (r.conversionId, recordVersion r)) (scanned log days)) :
    rows = readCurrent log days := by
  apply eq_of_strict_of_mem_iff _ h.sorted (readCurrent_strict _ _)
  intro r
  rw [mem_readCurrent_scanned]
  -- the row read for a conversion and its current row are of one version
  have hsame {x c : AttributedConversion} (hx : x ∈ rows) (hc : currentRow (scanned log days) x.conversionId = some c) :
      x = c := by
    obtain ⟨hmem, hmax⟩ := h.current x hx
    have hid := currentRow_conversionId hc
    have hversion := le_antisymm (currentRow_max hc hmem rfl) (hmax c (currentRow_mem hc) hid)
    exact hties x hmem c (currentRow_mem hc) (Prod.ext hid.symm hversion)
  constructor
  · intro hr
    obtain ⟨c, hc⟩ := exists_currentRow (h.current r hr).1
    rw [hc, hsame hr hc]
  · intro hr
    obtain ⟨x, hx, hid⟩ := h.complete r (currentRow_mem hr)
    rw [← hid] at hr
    exact hsame hx hr ▸ hx

end readCurrent

section landing
variable {lake : Lake} {rows : List AttributedConversion}

@[simp] theorem landedRow_conversionId (r : AttributedConversion) :
    (landedRow r).conversionId = r.conversionId := rfl

@[simp] theorem dayOf_landedRow (r : AttributedConversion) :
    dayOf (landedRow r).eventTime = dayOf r.eventTime := dayOf_toUtcMs _

@[simp] theorem landedRow_landedRow (r : AttributedConversion) : landedRow (landedRow r) = landedRow r := by
  simp [landedRow]

@[simp] theorem landedExposure_landedExposure (e : Exposure) :
    landedExposure (landedExposure e) = landedExposure e := by
  simp [landedExposure]

theorem mem_touchedDays_rows {d : Int} :
    d ∈ touchedDays (rows.map fun r => r.eventTime) ↔ ∃ r ∈ rows, dayOf r.eventTime = d := by
  rw [mem_touchedDays]
  simp

end landing
end CtvAttribution
