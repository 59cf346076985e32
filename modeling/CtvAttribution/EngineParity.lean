import CtvAttribution.CheckedTimes

/-! The evicting engine against the non-evicting oracle. Within the tolerated lateness
eviction never shows; release shows at one exact tie of ingest times. Both raise where a time
they compute leaves the calendar, the engine over more times. -/
namespace CtvAttribution
open Library WatermarkJoin

private theorem arrivalKey_lt_iff {x y : Event} : arrivalKey x < arrivalKey y ↔
    Event.ingestTime x < Event.ingestTime y ∨ Event.ingestTime x = Event.ingestTime y ∧
      (Event.kind x < Event.kind y ∨ Event.kind x = Event.kind y ∧ Event.ident x < Event.ident y) := by
  simp only [arrivalKey, Prod.Lex.toLex_lt_toLex]

/-- Exposures come before conversions of the same instant, and among themselves by id. -/
theorem arrivalKey_exposures_lt_iff {e f : Exposure} :
    arrivalKey (.build e) < arrivalKey (.build f) ↔
      e.ingestTime < f.ingestTime ∨ e.ingestTime = f.ingestTime ∧ e.exposureId < f.exposureId := by
  simp [arrivalKey_lt_iff, Event.ingestTime, Event.kind, Event.ident]

private theorem arrivalKey_conversion_lt_iff {c : ResolvedConversion} {e : Exposure} :
    arrivalKey (.probe c) < arrivalKey (.build e) ↔ c.ingestTime < e.ingestTime := by
  have hkind : ¬ "res" < "exp" := by decide
  simp [arrivalKey_lt_iff, Event.ingestTime, Event.kind, hkind]

/-- Ingested no earlier than it happened, and at most `allowedLateness` later. -/
def Punctual (allowedLateness eventTime ingestTime : Int) : Prop :=
  0 ≤ ingestTime - eventTime ∧ ingestTime - eventTime ≤ allowedLateness

/-- The tie at which release comes one exposure too early: `w` happens with the certain
conversion `c` and arrives exactly `allowedLateness` late, at the instant at which the
punctual exposure `z` sorts before it and carries the watermark to `c`. -/
def ReleaseTie (allowedLateness : Int) (exposures : List Exposure) (c : ResolvedConversion) : Prop :=
  c.candidateCount = 1 ∧ c.ingestTime < c.eventTime + allowedLateness ∧
    ∃ w ∈ exposures, ∃ z ∈ exposures,
      w.householdId = c.householdId ∧ z.householdId = c.householdId ∧
      w.eventTime = c.eventTime ∧ w.ingestTime = c.eventTime + allowedLateness ∧
      z.eventTime = c.eventTime + allowedLateness ∧ z.ingestTime = c.eventTime + allowedLateness ∧
      z.exposureId < w.exposureId

section parity
variable {allowedLateness : Int} {exposures : List Exposure} {resolved : List ResolvedConversion}
  {c : ResolvedConversion} (hw : WellResolved resolved)
  (hexp : ∀ e ∈ exposures, Punctual allowedLateness e.eventTime e.ingestTime)
  (hres : ∀ r ∈ resolved, Punctual allowedLateness r.eventTime r.ingestTime)

include hw hexp hres

/-- Every event of a household is punctual when both streams are. -/
theorem punctual_eventsOf (hid : String) : ∀ x ∈ eventsOf exposures resolved hid,
    (hotJoin allowedLateness).time x ≤ Event.ingestTime x ∧
      Event.ingestTime x ≤ (hotJoin allowedLateness).time x + allowedLateness := by
  intro x hx
  cases x with
  | build e =>
    obtain ⟨h0, h1⟩ := hexp e (build_mem_eventsOf.mp hx).1
    constructor
    · show e.eventTime ≤ e.ingestTime
      omega
    · show e.ingestTime ≤ e.eventTime + allowedLateness
      omega
  | probe r =>
    obtain ⟨h0, h1⟩ := hres r ((mem_oneRowPerConversion hw).mp (probe_mem_eventsOf.mp hx).1).1
    constructor
    · show r.eventTime ≤ r.ingestTime
      omega
    · show r.ingestTime ≤ r.eventTime + allowedLateness
      omega

omit hw hexp hres in
theorem ingestTime_mono_eventsOf (hid : String) : ∀ x ∈ eventsOf exposures resolved hid,
    ∀ y ∈ eventsOf exposures resolved hid, arrivalKey x < arrivalKey y → Event.ingestTime x ≤ Event.ingestTime y :=
  fun _ _ _ _ h => ingestTime_le_of_arrivalKey_le h.le

/-- An eligible exposure is never evicted too early: it is invisible when the join misses it. -/
theorem not_mem_visibleTo_iff_missed (hc : c ∈ oneRowPerConversion resolved) {w : Exposure}
    (hwel : w ∈ eligible (householdExposures exposures c) c hotWindow) :
    w ∉ visibleTo allowedLateness exposures resolved c ↔
      (hotJoin allowedLateness).Missed arrivalKey (eventsOf exposures resolved c.householdId) c w := by
  obtain ⟨hmem, hhh⟩ := mem_householdExposures.mp (mem_eligible.mp hwel).1
  have hprobe : .probe c ∈ eventsOf exposures resolved c.householdId := probe_mem_eventsOf.mpr ⟨hc, rfl⟩
  have hpunct := punctual_eventsOf hw hexp hres c.householdId
  have hkept := not_evicted_of_bounded (ingestTime_mono_eventsOf c.householdId)
    (fun x hx => (hpunct x hx).1) (fun x hx => (hpunct x hx).2) hprobe (eligible_of_mem hwel)
  rw [mem_visibleTo]
  simp [mem_householdExposures, hmem, hhh, hkept]

/-- An eligible exposure is invisible to the conversion exactly as the late half of a tie. -/
theorem invisible_iff (hc : c ∈ oneRowPerConversion resolved) {w : Exposure}
    (hwel : w ∈ eligible (householdExposures exposures c) c hotWindow) :
    w ∉ visibleTo allowedLateness exposures resolved c ↔
      c.ingestTime < c.eventTime + allowedLateness ∧ w.eventTime = c.eventTime ∧
        w.ingestTime = c.eventTime + allowedLateness ∧
        ∃ z ∈ exposures, z.householdId = c.householdId ∧ z.eventTime = c.eventTime + allowedLateness ∧
          z.ingestTime = c.eventTime + allowedLateness ∧ z.exposureId < w.exposureId := by
  obtain ⟨hmem, hhh⟩ := mem_householdExposures.mp (mem_eligible.mp hwel).1
  have hbuild : .build w ∈ eventsOf exposures resolved c.householdId :=
    build_mem_eventsOf.mpr ⟨hmem, hhh⟩
  have hpunct := punctual_eventsOf hw hexp hres c.householdId
  have hmissed := missed_iff_of_bounded (ingestTime_mono_eventsOf c.householdId)
    (fun x hx => (hpunct x hx).1) (fun x hx => (hpunct x hx).2) hbuild (eligible_of_mem hwel)
  rw [not_mem_visibleTo_iff_missed hw hexp hres hc hwel, hmissed, arrivalKey_conversion_lt_iff]
  constructor
  · intro h
    obtain ⟨hcw, hwt, hwi, z, hz, hzt, hzi, hzw⟩ := h
    have hwi : w.ingestTime = c.eventTime + allowedLateness := hwi
    refine ⟨by omega, hwt, hwi, ?_⟩
    cases z with
    | build z =>
      have hzi : z.ingestTime = z.eventTime := hzi
      have hzt : z.eventTime = c.eventTime + allowedLateness := hzt
      obtain ⟨hz, hzh⟩ := build_mem_eventsOf.mp hz
      refine ⟨z, hz, hzh, hzt, by omega, ?_⟩
      rcases arrivalKey_exposures_lt_iff.mp hzw with h | h
      · omega
      · exact h.2
    | probe z =>
      -- a conversion sorts after every exposure of its instant
      have hzi : z.ingestTime = z.eventTime := hzi
      have hzt : z.eventTime = c.eventTime + allowedLateness := hzt
      have := arrivalKey_conversion_lt_iff.mp hzw
      omega
  · intro h
    obtain ⟨hci, hwt, hwi, z, hz, hzh, hzt, hzi, hzw⟩ := h
    refine ⟨by omega, hwt, hwi, .build z, build_mem_eventsOf.mpr ⟨hz, hzh⟩, hzt, ?_, ?_⟩
    · show z.ingestTime = z.eventTime
      omega
    · exact arrivalKey_exposures_lt_iff.mpr (Or.inr ⟨by omega, hzw⟩)

/-- A certain conversion sees every eligible exposure exactly when it is in no tie. -/
theorem complete_iff (hc : c ∈ oneRowPerConversion resolved) (hone : c.candidateCount = 1) :
    (∀ w ∈ eligible (householdExposures exposures c) c hotWindow,
      w ∈ visibleTo allowedLateness exposures resolved c) ↔ ¬ ReleaseTie allowedLateness exposures c := by
  constructor
  · rintro hall ⟨_, hci, w, hmem, z, hz, hwh, hzh, hwt, hwi, hzt, hzi, hzw⟩
    have hopen : 0 ≤ hotWindow := by decide
    have hwel : w ∈ eligible (householdExposures exposures c) c hotWindow :=
      mem_eligible.mpr ⟨mem_householdExposures.mpr ⟨hmem, hwh⟩, by omega, by omega⟩
    exact (invisible_iff hw hexp hres hc hwel).mpr ⟨hci, hwt, hwi, z, hz, hzh, hzt, hzi, hzw⟩
      (hall w hwel)
  · intro htie w hwel
    by_contra hnot
    obtain ⟨hci, hwt, hwi, z, hz, hzh, hzt, hzi, hzw⟩ := (invisible_iff hw hexp hres hc hwel).mp hnot
    obtain ⟨hmem, hwh⟩ := mem_householdExposures.mp (mem_eligible.mp hwel).1
    exact htie ⟨hone, hci, w, hmem, z, hz, hwh, hzh, hwt, hwi, hzt, hzi, hzw⟩

/-- Both runs decide a conversion alike exactly when it is in no tie. -/
theorem hotRow_parity_iff (hk : Keyed Exposure.exposureId exposures)
    (hc : c ∈ oneRowPerConversion resolved) :
    (∀ r, HotRow resolved (visibleTo allowedLateness exposures resolved c) c r ↔
      HotRow resolved (householdExposures exposures c) c r) ↔ ¬ ReleaseTie allowedLateness exposures c := by
  rcases eq_or_ne c.candidateCount 1 with hone | hone
  · rw [← complete_iff hw hexp hres hc hone]
    apply hotRow_iff_of_subset hone (hk.mono fun e he => (mem_householdExposures.mp he).1)
    intro e he
    exact (mem_visibleTo.mp he).1
  · constructor
    · intro _ htie
      exact hone htie.1
    · intro _ r
      exact hotRow_ambiguous_iff hone _

end parity

/-- The evicting engine returns the oracle's rows exactly when no certain conversion sits
in a release tie. -/
theorem runAttribution_eq_attributeOracle_iff (allowedLateness : Int) (index : GraphIndex)
    (exposures : List Exposure) (conversions : List Conversion)
    (hexp : (exposures.map Exposure.exposureId).Nodup) (hconv : Keyed Conversion.conversionId conversions)
    (hexpLate : ∀ e ∈ exposures, Punctual allowedLateness e.eventTime e.ingestTime)
    (hconvLate : ∀ c ∈ conversions, Punctual allowedLateness c.eventTime c.ingestTime) :
    runAttribution exposures (resolveStream conversions index) allowedLateness =
        attributeOracle exposures (resolveStream conversions index) hotWindow ↔
      ¬ ∃ c ∈ resolveStream conversions index, ReleaseTie allowedLateness exposures c := by
  have hw := wellResolved_resolveStream index hconv
  have hk : Keyed Exposure.exposureId exposures := keyed_of_nodup hexp
  have hres : ∀ r ∈ resolveStream conversions index, Punctual allowedLateness r.eventTime r.ingestTime := by
    intro r hr
    obtain ⟨c, hc, hr⟩ := mem_resolveStream.mp hr
    rw [(mem_resolveOne hr).1]
    exact hconvLate c hc
  obtain ⟨rows, hrows⟩ := runAttribution_ok hw hk allowedLateness
  obtain ⟨rows', hrows', hspec'⟩ := attributeOracle_hotRows hw exposures
  rw [hrows, hrows', Except.ok.injEq, (runAttribution_hotRows hk hrows).eq_iff hspec']
  constructor
  · rintro hall ⟨c, hc, htie⟩
    have hone : c ∈ oneRowPerConversion (resolveStream conversions index) := by
      refine (mem_oneRowPerConversion hw).mpr ⟨hc, fun r hr he => ?_⟩
      rw [hw.eq_of_certain hc hr he.symm htie.1]
    exact (hotRow_parity_iff hw hexpLate hres hk hone).mp (hall c hone) htie
  · intro hnone c hone
    refine (hotRow_parity_iff hw hexpLate hres hk hone).mpr fun htie => ?_
    exact hnone ⟨c, ((mem_oneRowPerConversion hw).mp hone).1, htie⟩

/-- Every time the engine computes over these streams is in the calendar: the watermark of each
event, the expiry of each exposure and the hot window of each certain conversion. -/
structure StreamsFit (allowedLateness : Int) (index : GraphIndex) (exposures : List Exposure)
    (conversions : List Conversion) : Prop where
  exposures : ∀ e ∈ exposures, InCalendar (e.eventTime - allowedLateness) ∧ InCalendar (e.eventTime + hotWindow)
  conversions : ∀ c ∈ resolveStream conversions index,
    InCalendar (c.eventTime - allowedLateness) ∧ Checked.LeafFits hotWindow c

theorem runFits_iff {allowedLateness : Int} {index : GraphIndex} {exposures : List Exposure}
    {conversions : List Conversion} (hconv : Keyed Conversion.conversionId conversions) :
    Checked.RunFits allowedLateness exposures (resolveStream conversions index) ↔
      StreamsFit allowedLateness index exposures conversions := by
  have hw := wellResolved_resolveStream index hconv
  constructor
  · intro h
    refine ⟨h.exposures, fun r hr => ?_⟩
    -- the placeholder of the conversion has its time and its candidate count
    obtain ⟨c, hc, hid⟩ := exists_mem_oneRowPerConversion hr
    have halike := hw.alike c ((mem_oneRowPerConversion hw).mp hc).1 r hr hid
    rw [halike]
    exact h.conversions c hc
  · intro h
    exact ⟨h.exposures, fun c hc => h.conversions c ((mem_oneRowPerConversion hw).mp hc).1⟩

/-- Over the calendar: the engine and the oracle return the same rows exactly when no certain
conversion sits in a release tie and every time the engine computes is in the calendar. -/
theorem engine_returns_oracle_rows_iff (allowedLateness : Int) (index : GraphIndex)
    (exposures : List Exposure) (conversions : List Conversion)
    (hexp : (exposures.map Exposure.exposureId).Nodup) (hconv : Keyed Conversion.conversionId conversions)
    (hexpLate : ∀ e ∈ exposures, Punctual allowedLateness e.eventTime e.ingestTime)
    (hconvLate : ∀ c ∈ conversions, Punctual allowedLateness c.eventTime c.ingestTime) :
    (∃ rows, Checked.runAttribution exposures (resolveStream conversions index) allowedLateness = .ok rows ∧
        Checked.attributeOracle exposures (resolveStream conversions index) hotWindow = .ok rows) ↔
      (¬ ∃ c ∈ resolveStream conversions index, ReleaseTie allowedLateness exposures c) ∧
        StreamsFit allowedLateness index exposures conversions := by
  have hw := wellResolved_resolveStream index hconv
  obtain ⟨rows, hrows⟩ := runAttribution_ok hw (keyed_of_nodup hexp) allowedLateness
  rw [← runAttribution_eq_attributeOracle_iff allowedLateness index exposures conversions hexp hconv hexpLate hconvLate,
    ← runFits_iff hconv]
  simp only [Checked.runAttribution_agrees _ _ _ _, Checked.attributeOracle_agrees _ _ _ _]
  constructor
  · intro h
    obtain ⟨rows, ⟨hfits, hrun⟩, _, horacle⟩ := h
    exact ⟨hrun.trans horacle.symm, hfits⟩
  · intro h
    obtain ⟨he, hfits⟩ := h
    exact ⟨rows, ⟨hfits, hrows⟩, fun c hc => (hfits.conversions c hc).2, he ▸ hrows⟩

section sample

/-- An exposure of the one household of `sampleGraph`. -/
def sampleExposure (exposureId : String) (eventTime ingestTime : Int) : Exposure :=
  { exposureId, eventTime, ingestTime, campaignId := "cmp", householdId := "hh", ip := "10.0.0.1",
    appId := "app", programGenre := "news", spend := 100 }

def sampleConversion (conversionId : String) (eventTime ingestTime : Int) : Conversion :=
  { conversionId, eventTime, ingestTime, deviceId := "tv", ip := "10.0.0.1",
    conversionType := .purchase, revenue := 5000, orderId := none }

def sampleGraph : GraphIndex :=
  GraphIndex.fromHouseholds [{ householdId := "hh", devices := [⟨"tv", .tv⟩], ips := ["10.0.0.1"] }]

/-- At the tie the engine releases "c" before "e2" is buffered: it defers what the oracle
credits. Six hours are the default lateness. -/
theorem engine_misses_at_the_tie :
    ¬ ∀ (allowedLateness : Int) (index : GraphIndex) (exposures : List Exposure)
      (conversions : List Conversion), 0 ≤ allowedLateness →
      (exposures.map Exposure.exposureId).Nodup → Keyed Conversion.conversionId conversions →
      (∀ e ∈ exposures, Punctual allowedLateness e.eventTime e.ingestTime) →
      (∀ c ∈ conversions, Punctual allowedLateness c.eventTime c.ingestTime) →
      ∃ rows, Checked.runAttribution exposures (resolveStream conversions index) allowedLateness = .ok rows ∧
        Checked.attributeOracle exposures (resolveStream conversions index) hotWindow = .ok rows := by
  intro h
  obtain ⟨rows, hrun, horacle⟩ := h allowedLatenessDefault sampleGraph
    [sampleExposure "e2" 0 (6 * Time.hour), sampleExposure "e1" (6 * Time.hour) (6 * Time.hour)]
    [sampleConversion "c" 0 0] (by decide) (by decide) (by simp [Keyed])
    (by simp [Punctual, sampleExposure]; decide) (by simp [Punctual, sampleConversion]; decide)
  have he := hrun.trans horacle.symm
  revert he
  decide

/-- One microsecond earlier the same exposure is in time. -/
theorem engine_returns_oracle_rows_iff_sample :
    (∃ rows, Checked.runAttribution
        [sampleExposure "e2" 0 (6 * Time.hour - 1), sampleExposure "e1" (6 * Time.hour) (6 * Time.hour)]
        (resolveStream [sampleConversion "c" 0 0] sampleGraph) (6 * Time.hour) = .ok rows ∧
      Checked.attributeOracle
        [sampleExposure "e2" 0 (6 * Time.hour - 1), sampleExposure "e1" (6 * Time.hour) (6 * Time.hour)]
        (resolveStream [sampleConversion "c" 0 0] sampleGraph) hotWindow = .ok rows) ↔
      (¬ ∃ c ∈ resolveStream [sampleConversion "c" 0 0] sampleGraph, ReleaseTie (6 * Time.hour)
        [sampleExposure "e2" 0 (6 * Time.hour - 1), sampleExposure "e1" (6 * Time.hour) (6 * Time.hour)] c) ∧
      StreamsFit (6 * Time.hour) sampleGraph
        [sampleExposure "e2" 0 (6 * Time.hour - 1), sampleExposure "e1" (6 * Time.hour) (6 * Time.hour)]
        [sampleConversion "c" 0 0] :=
  engine_returns_oracle_rows_iff (6 * Time.hour) sampleGraph _ _ (by decide) (by simp [Keyed])
    (by simp [Punctual, sampleExposure]; decide) (by simp [Punctual, sampleConversion]; decide)

end sample
end CtvAttribution
