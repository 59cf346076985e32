import CtvAttribution.EngineParity
import CtvAttribution.Reconcile

/-! Hot and reconciled decisions. A row attributed hot keeps its credit over the long
window unless the exposure it should credit arrived after its release, or the long window
starts before the calendar. -/
namespace CtvAttribution
open Library WatermarkJoin

/-- A wider window credits the same exposure once a narrower one credits any. -/
theorem creditedExposure_widen {exposures : List Exposure} {c : ResolvedConversion} {w : Exposure}
    {window window' : Int} (hk : Keyed Exposure.exposureId exposures) (hle : window ≤ window')
    (h : creditedExposure exposures c window = some w) : creditedExposure exposures c window' = some w := by
  rw [creditedExposure_eq_some hk] at h ⊢
  obtain ⟨hw, hmax⟩ := h
  exact ⟨eligible_subset_of_le hle w hw, recency_le_of_wider hw hmax⟩

/-- The latest eligible exposure of a certain conversion arrives after its release, while
another eligible one was there in time. -/
def LateWinner (allowedLateness : Int) (exposures : List Exposure) (resolved : List ResolvedConversion)
    (c : ResolvedConversion) : Prop :=
  c.candidateCount = 1 ∧ ∃ w ∈ eligible (householdExposures exposures c) c hotWindow,
    (∀ e ∈ eligible (householdExposures exposures c) c hotWindow, recency e ≤ recency w) ∧
    (hotJoin allowedLateness).Missed arrivalKey (eventsOf exposures resolved c.householdId) c w ∧
    ∃ e ∈ eligible (householdExposures exposures c) c hotWindow,
      e ∈ visibleTo allowedLateness exposures resolved c

section agreement
variable {allowedLateness : Int} {exposures : List Exposure} {resolved : List ResolvedConversion}
  {c : ResolvedConversion}

private theorem eligible_visibleTo {e : Exposure} :
    e ∈ eligible (visibleTo allowedLateness exposures resolved c) c hotWindow ↔
      e ∈ eligible (householdExposures exposures c) c hotWindow ∧
        e ∈ visibleTo allowedLateness exposures resolved c := by
  rw [mem_eligible, mem_eligible]
  constructor
  · intro h
    obtain ⟨hv, hwin⟩ := h
    exact ⟨⟨(mem_visibleTo.mp hv).1, hwin⟩, hv⟩
  · intro h
    obtain ⟨⟨_, hwin⟩, hv⟩ := h
    exact ⟨hv, hwin⟩

theorem keyed_householdExposures (hk : Keyed Exposure.exposureId exposures) (c : ResolvedConversion) :
    Keyed Exposure.exposureId (householdExposures exposures c) :=
  hk.mono fun _ he => (mem_householdExposures.mp he).1

private theorem keyed_visibleTo (hk : Keyed Exposure.exposureId exposures) (c : ResolvedConversion) :
    Keyed Exposure.exposureId (visibleTo allowedLateness exposures resolved c) :=
  (keyed_householdExposures hk c).mono fun _ he => (mem_visibleTo.mp he).1

/-- The hot credit is the overall latest exposure unless that one was missed: being newer
than a visible exposure it cannot have been evicted. -/
theorem credited_agree_iff (hk : Keyed Exposure.exposureId exposures)
    (hc : c ∈ oneRowPerConversion resolved) {v : Exposure}
    (hv : creditedExposure (visibleTo allowedLateness exposures resolved c) c hotWindow = some v) :
    creditedExposure (householdExposures exposures c) c hotWindow = some v ↔
      ¬ ∃ w ∈ eligible (householdExposures exposures c) c hotWindow,
        (∀ e ∈ eligible (householdExposures exposures c) c hotWindow, recency e ≤ recency w) ∧
        (hotJoin allowedLateness).Missed arrivalKey (eventsOf exposures resolved c.householdId) c w := by
  obtain ⟨hvel, hvvis⟩ := eligible_visibleTo.mp (creditedExposure_mem hv)
  have hvmiss := (mem_visibleTo.mp hvvis).2.1
  rw [creditedExposure_eq_some (keyed_householdExposures hk c)]
  constructor
  · rintro ⟨_, hmax⟩ ⟨w, hw, hwmax, hmiss⟩
    have hwv : w = v := keyed_recency (keyed_householdExposures hk c) w (mem_eligible.mp hw).1 v
      (mem_eligible.mp hvel).1 (le_antisymm (hmax w hw) (hwmax v hvel))
    exact hvmiss (hwv ▸ hmiss)
  · intro hnone
    obtain ⟨w, hw⟩ := Option.isSome_iff_exists.mp (creditedExposure_isSome.mpr ⟨v, hvel⟩)
    obtain ⟨hwel, hwmax⟩ := (creditedExposure_eq_some (keyed_householdExposures hk c)).mp hw
    have hwmiss := fun hm => hnone ⟨w, hwel, hwmax, hm⟩
    obtain ⟨hvmem, hvhh⟩ := mem_householdExposures.mp (mem_eligible.mp hvel).1
    have hnewer : v.eventTime ≤ w.eventTime := by
      rcases Prod.Lex.toLex_le_toLex.mp (hwmax v hvel) with h | h
      · exact h.le
      · exact h.1.le
    have hwkept := not_evicted_of_newer (J := hotJoin allowedLateness)
      ((keyed_taggedEvents hk).mono fun _ hx => (List.mem_filter.mp hx).1)
      (probe_mem_eventsOf.mpr ⟨hc, rfl⟩) (build_mem_eventsOf.mpr ⟨hvmem, hvhh⟩)
      hvmiss (mem_visibleTo.mp hvvis).2.2 hnewer (eligible_of_mem hwel)
    have hwvis : w ∈ visibleTo allowedLateness exposures resolved c :=
      mem_visibleTo.mpr ⟨(mem_eligible.mp hwel).1, hwmiss, hwkept⟩
    have hvmax := ((creditedExposure_eq_some (keyed_visibleTo hk c)).mp hv).2 w
      (eligible_visibleTo.mpr ⟨hwel, hwvis⟩)
    have hwv : w = v := keyed_recency (keyed_householdExposures hk c) w (mem_eligible.mp hwel).1 v
      (mem_eligible.mp hvel).1 (le_antisymm hvmax (hwmax v hvel))
    exact ⟨hvel, hwv ▸ hwmax⟩

/-- The leaf over all exposures and the long window, against a hot-attributed row. -/
theorem longCredit_agrees_iff (hk : Keyed Exposure.exposureId exposures)
    (hc : c ∈ oneRowPerConversion resolved) {r : AttributedConversion}
    (hr : HotRow resolved (visibleTo allowedLateness exposures resolved c) c r) (hattr : r.attributed = true) :
    (∃ cand, lastTouch (householdExposures exposures r.toResolvedConversion) r.toResolvedConversion longWindow
        r.candidateHouseholds = .ok cand ∧ cand.row.exposureId = r.exposureId) ↔
      ¬ ∃ w ∈ eligible (householdExposures exposures c) c hotWindow,
        (∀ e ∈ eligible (householdExposures exposures c) c hotWindow, recency e ≤ recency w) ∧
        (hotJoin allowedLateness).Missed arrivalKey (eventsOf exposures resolved c.householdId) c w := by
  obtain ⟨hid, hsome⟩ := hr.credit (hr.certain hattr)
  rw [hattr] at hsome
  obtain ⟨v, hv⟩ := Option.isSome_iff_exists.mp hsome.symm
  rw [← credited_agree_iff hk hc hv]
  have hvel := (eligible_visibleTo.mp (creditedExposure_mem hv)).1
  obtain ⟨g, hg⟩ := Option.isSome_iff_exists.mp (creditedExposure_isSome.mpr ⟨v, hvel⟩)
  have hkall := keyed_householdExposures hk c
  have hlong := creditedExposure_widen hkall (show hotWindow ≤ longWindow by decide) hg
  have hleaf : (∃ cand, lastTouch (householdExposures exposures r.toResolvedConversion)
      r.toResolvedConversion longWindow r.candidateHouseholds = .ok cand ∧
        cand.row.exposureId = r.exposureId) ↔ g.exposureId = v.exposureId := by
    have hcredit {cand : Candidate} (h : lastTouch (householdExposures exposures r.toResolvedConversion)
        r.toResolvedConversion longWindow r.candidateHouseholds = .ok cand) :
        cand.row.exposureId = some g.exposureId := by
      rw [exposureId_of_lastTouch h, hr.keeps, hlong, Option.map_some]
    rw [hv, Option.map_some] at hid
    constructor
    · intro h
      obtain ⟨cand, hcand, he⟩ := h
      rw [hcredit hcand, hid] at he
      exact Option.some.inj he
    · intro he
      refine ⟨_, lastTouch_eq r.candidateSetMatchesCount, ?_⟩
      rw [hcredit (lastTouch_eq r.candidateSetMatchesCount), hid, he]
  rw [hleaf, hg, Option.some.injEq]
  constructor
  · intro he
    exact hkall g (mem_eligible.mp (creditedExposure_mem hg)).1 v (mem_eligible.mp hvel).1 he
  · intro he
    rw [he]

end agreement

/-- A certain conversion with an eligible exposure it sees: the hot path credits it. -/
def SeesTouch (allowedLateness : Int) (exposures : List Exposure) (resolved : List ResolvedConversion)
    (c : ResolvedConversion) : Prop :=
  c.candidateCount = 1 ∧ ∃ e ∈ eligible (householdExposures exposures c) c hotWindow,
    e ∈ visibleTo allowedLateness exposures resolved c

section touched
variable {allowedLateness : Int} {exposures : List Exposure} {resolved : List ResolvedConversion}
  {rows : List AttributedConversion} {c : ResolvedConversion}

/-- A conversion that sees a touch has an attributed row. -/
private theorem attributed_of_seesTouch (hk : Keyed Exposure.exposureId exposures)
    (hrows : runAttribution exposures resolved allowedLateness = .ok rows) (hc : c ∈ oneRowPerConversion resolved)
    (h : SeesTouch allowedLateness exposures resolved c) :
    ∃ r ∈ rows, HotRow resolved (visibleTo allowedLateness exposures resolved c) c r ∧ r.attributed = true := by
  obtain ⟨hone, e, he, hvis⟩ := h
  have hrow : HotRow resolved (visibleTo allowedLateness exposures resolved c) c _ := (hotRow_certain_iff hone).mpr rfl
  have hsome := creditedExposure_isSome.mpr ⟨e, eligible_visibleTo.mpr ⟨he, hvis⟩⟩
  exact ⟨_, ((runAttribution_hotRows hk hrows).mem _).mpr ⟨c, hc, hrow⟩, hrow, (hrow.credit hone).2.trans hsome⟩

/-- An attributed row is that of a conversion that sees a touch. -/
private theorem seesTouch_of_attributed (hk : Keyed Exposure.exposureId exposures)
    (hrows : runAttribution exposures resolved allowedLateness = .ok rows) {r : AttributedConversion} (hr : r ∈ rows)
    (hattr : r.attributed = true) : ∃ c ∈ oneRowPerConversion resolved,
      HotRow resolved (visibleTo allowedLateness exposures resolved c) c r ∧
        SeesTouch allowedLateness exposures resolved c := by
  obtain ⟨c, hc, hrow⟩ := ((runAttribution_hotRows hk hrows).mem r).mp hr
  have hsome := (hrow.credit (hrow.certain hattr)).2.symm.trans hattr
  obtain ⟨e, he⟩ := creditedExposure_isSome.mp hsome
  exact ⟨c, hc, hrow, hrow.certain hattr, e, eligible_visibleTo.mp he⟩

/-- The attributed rows of a run are those of the conversions that see a touch. -/
theorem attributed_rows_iff (hk : Keyed Exposure.exposureId exposures)
    (hrows : runAttribution exposures resolved allowedLateness = .ok rows) :
    (∃ r ∈ rows, r.attributed = true ∧ r.toResolvedConversion = c) ↔
      c ∈ oneRowPerConversion resolved ∧ SeesTouch allowedLateness exposures resolved c := by
  constructor
  · intro h
    obtain ⟨r, hr, hattr, hrc⟩ := h
    obtain ⟨d, hd, hrow, hsees⟩ := seesTouch_of_attributed hk hrows hr hattr
    obtain rfl : d = c := hrow.keeps.symm.trans hrc
    exact ⟨hd, hsees⟩
  · intro h
    obtain ⟨hc, hsees⟩ := h
    obtain ⟨r, hr, hrow, hattr⟩ := attributed_of_seesTouch hk hrows hc hsees
    exact ⟨r, hr, hattr, hrow.keeps⟩

end touched

/-- Every hot-attributed row is credited alike over the long window and all exposures of
its household exactly when no certain conversion has a late winner. -/
theorem hot_credit_agrees_iff (allowedLateness : Int) (exposures : List Exposure)
    (resolved : List ResolvedConversion) (rows : List AttributedConversion)
    (hexp : (exposures.map Exposure.exposureId).Nodup)
    (hrows : runAttribution exposures resolved allowedLateness = .ok rows) :
    (∀ r ∈ rows, r.attributed = true → ∃ cand,
        lastTouch (householdExposures exposures r.toResolvedConversion) r.toResolvedConversion longWindow
          r.candidateHouseholds = .ok cand ∧ cand.row.exposureId = r.exposureId) ↔
      ¬ ∃ c ∈ oneRowPerConversion resolved, LateWinner allowedLateness exposures resolved c := by
  have hk : Keyed Exposure.exposureId exposures := keyed_of_nodup hexp
  constructor
  · rintro hall ⟨c, hc, hone, w, hw, hwmax, hmiss, hsees⟩
    obtain ⟨r, hr, hrow, hattr⟩ := attributed_of_seesTouch hk hrows hc ⟨hone, hsees⟩
    exact (longCredit_agrees_iff hk hc hrow hattr).mp (hall r hr hattr) ⟨w, hw, hwmax, hmiss⟩
  · intro hnone r hr hattr
    obtain ⟨c, hc, hrow, hone, hsees⟩ := seesTouch_of_attributed hk hrows hr hattr
    refine (longCredit_agrees_iff hk hc hrow hattr).mpr fun h => ?_
    obtain ⟨w, hw, hwmax, hmiss⟩ := h
    exact hnone ⟨c, hc, hone, w, hw, hwmax, hmiss, hsees⟩

/-- Over the calendar, where the leaf also raises when the long window of a credited
conversion starts before year 1. -/
theorem hot_credit_agrees_in_calendar_iff (allowedLateness : Int) (exposures : List Exposure)
    (resolved : List ResolvedConversion) (rows : List AttributedConversion)
    (hexp : (exposures.map Exposure.exposureId).Nodup)
    (hrows : Checked.runAttribution exposures resolved allowedLateness = .ok rows) :
    (∀ r ∈ rows, r.attributed = true → ∃ cand,
        Checked.lastTouch (householdExposures exposures r.toResolvedConversion) r.toResolvedConversion longWindow
          r.candidateHouseholds = .ok cand ∧ cand.row.exposureId = r.exposureId) ↔
      (¬ ∃ c ∈ oneRowPerConversion resolved, LateWinner allowedLateness exposures resolved c) ∧
        ∀ c ∈ oneRowPerConversion resolved, SeesTouch allowedLateness exposures resolved c →
          InCalendar (c.eventTime - longWindow) := by
  obtain ⟨_, hplain⟩ := (Checked.runAttribution_agrees exposures resolved allowedLateness rows).mp hrows
  rw [← hot_credit_agrees_iff allowedLateness exposures resolved rows hexp hplain]
  constructor
  · intro h
    refine ⟨fun r hr hattr => ?_, fun c hc hsees => ?_⟩
    · obtain ⟨cand, hcand, hid⟩ := h r hr hattr
      exact ⟨cand, ((Checked.lastTouch_agrees _ _ cand).mp hcand).2, hid⟩
    · obtain ⟨r, hr, hattr, rfl⟩ := (attributed_rows_iff (keyed_of_nodup hexp) hplain).mpr ⟨hc, hsees⟩
      obtain ⟨cand, hcand, _⟩ := h r hr hattr
      exact ((Checked.lastTouch_agrees _ _ cand).mp hcand).1
  · intro h r hr hattr
    obtain ⟨hagree, hstart⟩ := h
    obtain ⟨cand, hcand, hid⟩ := hagree r hr hattr
    obtain ⟨hc, hsees⟩ := (attributed_rows_iff (keyed_of_nodup hexp) hplain).mp ⟨r, hr, hattr, rfl⟩
    exact ⟨cand, (Checked.lastTouch_agrees _ _ cand).mpr ⟨hstart _ hc hsees, hcand⟩, hid⟩

section sample

/-- "e2" is ingested nine hours after it happened; "e3" has released "c" by then. -/
def lateBurst : List Exposure :=
  [sampleExposure "e1" 0 0, sampleExposure "e2" Time.hour (10 * Time.hour),
    sampleExposure "e3" (8 * Time.hour) (8 * Time.hour)]

def lateConversion : Conversion := sampleConversion "c" (2 * Time.hour) (2 * Time.hour)

def lateRow : AttributedConversion :=
  { lateConversion with
    householdId := "hh", resolution := .device, ambiguous := false, candidateCount := 1
    exposureId := some "e1", assists := [], attributed := true, path := .hot
    processedAt := 2 * Time.hour, reason := none, candidateHouseholds := [] }

/-- Past the tolerated lateness the hot path credits "e1" where all exposures credit "e2". -/
theorem hot_credit_disagrees :
    ¬ ∀ (allowedLateness : Int) (index : GraphIndex) (exposures : List Exposure)
      (conversions : List Conversion) (rows : List AttributedConversion),
      (exposures.map Exposure.exposureId).Nodup →
      (∀ e ∈ exposures, e.eventTime ≤ e.ingestTime) → (∀ c ∈ conversions, c.eventTime ≤ c.ingestTime) →
      Checked.runAttribution exposures (resolveStream conversions index) allowedLateness = .ok rows →
      ∀ r ∈ rows, r.attributed = true → ∃ cand,
        Checked.lastTouch (householdExposures exposures r.toResolvedConversion) r.toResolvedConversion longWindow
          r.candidateHouseholds = .ok cand ∧ cand.row.exposureId = r.exposureId := by
  intro h
  obtain ⟨cand, hcand, hid⟩ := h allowedLatenessDefault sampleGraph lateBurst [lateConversion] [lateRow]
    (by decide) (by decide) (by decide) (by decide) lateRow (List.mem_singleton_self _) rfl
  rw [exposureId_of_lastTouch ((Checked.lastTouch_agrees _ _ cand).mp hcand).2] at hid
  revert hid
  decide

theorem hot_credit_agrees_in_calendar_iff_sample : ∃ rows,
    Checked.runAttribution lateBurst (resolveStream [lateConversion] sampleGraph) (6 * Time.hour) = .ok rows ∧
    ((∀ r ∈ rows, r.attributed = true → ∃ cand,
        Checked.lastTouch (householdExposures lateBurst r.toResolvedConversion) r.toResolvedConversion longWindow
          r.candidateHouseholds = .ok cand ∧ cand.row.exposureId = r.exposureId) ↔
      (¬ ∃ c ∈ oneRowPerConversion (resolveStream [lateConversion] sampleGraph),
        LateWinner (6 * Time.hour) lateBurst (resolveStream [lateConversion] sampleGraph) c) ∧
      ∀ c ∈ oneRowPerConversion (resolveStream [lateConversion] sampleGraph),
        SeesTouch (6 * Time.hour) lateBurst (resolveStream [lateConversion] sampleGraph) c →
          InCalendar (c.eventTime - longWindow)) :=
  ⟨[lateRow], by decide, hot_credit_agrees_in_calendar_iff _ _ _ _ (by decide) (by decide)⟩

end sample
end CtvAttribution
