import CtvAttribution.EngineParity
import Mathlib.Tactic.Tauto

/-! The engine's rows depend on the set of records in the topics, not on their order nor
on re-sends, with dedup on or off and at any tolerated lateness. -/
namespace CtvAttribution
open Library WatermarkJoin

section streams
variable {exposures exposures' : List Exposure} {resolved resolved' : List ResolvedConversion}

variable (resolved) in
theorem mem_engineStreams_exposures (dedup : Bool) (hk : Keyed Exposure.exposureId exposures) {e : Exposure} :
    e ∈ (engineStreams dedup exposures resolved).1 ↔ e ∈ exposures := by
  cases dedup with
  | false => rfl
  | true => exact mem_dedupById hk

variable (exposures) in
theorem mem_engineStreams_resolved (dedup : Bool) (hw : WellResolved resolved) {r : ResolvedConversion} :
    r ∈ (engineStreams dedup exposures resolved).2.1 ↔ r ∈ resolved := by
  cases dedup with
  | false => rfl
  | true => exact mem_dedupById hw.keyed

/-- What a conversion sees is a set: it compares arrival keys of the events there are. -/
theorem mem_visibleTo_congr (allowedLateness : Int) (hw : WellResolved resolved)
    (hexp : ∀ e, e ∈ exposures ↔ e ∈ exposures') (hres : ∀ r, r ∈ resolved ↔ r ∈ resolved')
    (c : ResolvedConversion) (e : Exposure) :
    e ∈ visibleTo allowedLateness exposures resolved c ↔
      e ∈ visibleTo allowedLateness exposures' resolved' c := by
  have hbucket (x : Event) : x ∈ eventsOf exposures resolved c.householdId ↔
      x ∈ eventsOf exposures' resolved' c.householdId := by
    cases x with
    | build f => rw [build_mem_eventsOf, build_mem_eventsOf, hexp]
    | probe d =>
      rw [probe_mem_eventsOf, probe_mem_eventsOf, mem_oneRowPerConversion hw,
        mem_oneRowPerConversion (hw.congr hres)]
      simp only [hres]
  rw [mem_visibleTo, mem_visibleTo, mem_householdExposures, mem_householdExposures, hexp,
    missed_congr hbucket, evicted_congr hbucket]

/-- Two attribution runs over the same sets of records return the same rows. -/
theorem runAttribution_congr (allowedLateness : Int) (hw : WellResolved resolved)
    (hk : Keyed Exposure.exposureId exposures)
    (hexp : ∀ e, e ∈ exposures ↔ e ∈ exposures') (hres : ∀ r, r ∈ resolved ↔ r ∈ resolved') :
    runAttribution exposures resolved allowedLateness = runAttribution exposures' resolved' allowedLateness := by
  have hk' := hk.mono fun e he => (hexp e).mpr he
  obtain ⟨rows, hrows⟩ := runAttribution_ok hw hk allowedLateness
  obtain ⟨rows', hrows'⟩ := runAttribution_ok (hw.congr hres) hk' allowedLateness
  rw [hrows, hrows']
  refine congrArg _ ((runAttribution_hotRows hk hrows).eq_of_mem_iff
    (runAttribution_hotRows hk' hrows') hw hres ?_ ?_)
  · intro c
    exact hk.mono fun e he => (mem_householdExposures.mp (mem_visibleTo.mp he).1).1
  · exact mem_visibleTo_congr allowedLateness hw hexp hres

end streams

/-- A run's rows are those of the attribution over the raw streams, dedup or not. -/
theorem runEngine_rows_eq_runAttribution (dedup : Bool) (allowedLateness : Int) (index : GraphIndex)
    {exposures : List Exposure} {conversions : List Conversion}
    (hk : Keyed Exposure.exposureId exposures) (hconv : Keyed Conversion.conversionId conversions) :
    (do return (← runEngine dedup allowedLateness index exposures conversions).rows) =
      runAttribution exposures (resolveStream conversions index) allowedLateness := by
  have hw := wellResolved_resolveStream index hconv
  rw [runAttribution_congr allowedLateness hw hk
    (fun e => (mem_engineStreams_exposures (resolveStream conversions index) dedup hk).symm)
    (fun r => (mem_engineStreams_resolved exposures dedup hw).symm)]
  simp only [runEngine, bind_assoc, pure_bind, bind_pure]

/-- A run over topics whose equal ids are equal records returns the hot rows of the raw streams. -/
theorem exists_runEngine (dedup : Bool) (allowedLateness : Int) (index : GraphIndex)
    {exposures : List Exposure} {conversions : List Conversion}
    (hk : Keyed Exposure.exposureId exposures) (hconv : Keyed Conversion.conversionId conversions) :
    ∃ run, runEngine dedup allowedLateness index exposures conversions = .ok run ∧
      HotRows (resolveStream conversions index)
        (visibleTo allowedLateness exposures (resolveStream conversions index)) run.rows := by
  obtain ⟨rows, hrows⟩ := runAttribution_ok (wellResolved_resolveStream index hconv) hk allowedLateness
  have h := (runEngine_rows_eq_runAttribution dedup allowedLateness index hk hconv).trans hrows
  obtain ⟨run, hrun, h⟩ := bind_eq_ok_iff.mp h
  refine ⟨run, hrun, ?_⟩
  rw [Except.ok.inj h]
  exact runAttribution_hotRows hk hrows

/-- Permuting messages, repeating them and switching dedup leave the rows as they are. -/
theorem runEngine_rows_of_same_records (allowedLateness : Int) (index : GraphIndex)
    (dedup dedup' : Bool) (exposures exposures' : List Exposure) (conversions conversions' : List Conversion)
    (hk : Keyed Exposure.exposureId exposures) (hconv : Keyed Conversion.conversionId conversions)
    (hexp : ∀ e, e ∈ exposures ↔ e ∈ exposures') (hconvs : ∀ c, c ∈ conversions ↔ c ∈ conversions') :
    ∃ rows, (do return (← runEngine dedup allowedLateness index exposures conversions).rows) = .ok rows ∧
      (do return (← runEngine dedup' allowedLateness index exposures' conversions').rows) = .ok rows := by
  have hw := wellResolved_resolveStream index hconv
  have hk' := hk.mono fun e he => (hexp e).mpr he
  have hconv' := hconv.mono fun c hc => (hconvs c).mpr hc
  obtain ⟨rows, hrows⟩ := runAttribution_ok hw hk allowedLateness
  refine ⟨rows, ?_, ?_⟩
  · rw [runEngine_rows_eq_runAttribution dedup allowedLateness index hk hconv, hrows]
  · rw [runEngine_rows_eq_runAttribution dedup' allowedLateness index hk' hconv', ← hrows]
    symm
    apply runAttribution_congr allowedLateness hw hk hexp
    intro r
    simp only [mem_resolveStream, hconvs]

/-- A re-sent, reordered topic gives the rows of the clean one. -/
theorem runEngine_rows_of_same_records_sample :
    ∃ rows, (do return (← runEngine true Time.hour sampleGraph [sampleExposure "e1" 0 0, sampleExposure "e2" 1 1]
        [sampleConversion "c" 2 2]).rows) = .ok rows ∧
      (do return (← runEngine false Time.hour sampleGraph
        [sampleExposure "e2" 1 1, sampleExposure "e1" 0 0, sampleExposure "e2" 1 1]
        [sampleConversion "c" 2 2, sampleConversion "c" 2 2]).rows) = .ok rows :=
  runEngine_rows_of_same_records Time.hour sampleGraph true false _ _ _ _
    (keyed_of_nodup (by decide)) (keyed_of_nodup (by decide))
    (fun e => by simp only [List.mem_cons, List.not_mem_nil, or_false]; tauto) (fun c => by simp)

end CtvAttribution
