import CtvAttribution.HotAgreement
import CtvAttribution.RepeatedLoads

/-! Re-running an interrupted engine over the same topics. The attempts only repeat what a
clean run writes, so the one that completes ends where a clean run does. -/
namespace CtvAttribution
open Library Script

/-- `main` of the engine over the drained topics. -/
def engine (dedup : Bool) (allowedLateness : Int) (index : GraphIndex) (exposures : List Exposure)
    (conversions : List Conversion) (profile : String) : SystemScript Unit := do
  engineMain (← orRaise (runEngine dedup allowedLateness index exposures conversions)) profile

/-- Attempts of a driver from empty stores, each of them stopped anywhere. -/
inductive Attempts (p : SystemScript Unit) : System → Prop where
  | empty : Attempts p ⟨Lake.empty, Serving.empty⟩
  | stopped {σ σ' : System} : Attempts p σ → p.Leaves σ σ' → Attempts p σ'

/-- `db_profile_marker`: the one row of eval_meta FINAL. -/
def Serving.profileMarker (s : Serving) : Option String := finalRow (fun _ => ()) (fun _ => ()) s.evalMeta ()

/-- Both stores read alike. -/
structure SameResults (σ τ : System) : Prop where
  exposures : firstSeen σ.lake.exposures = firstSeen τ.lake.exposures
  current : readCurrent σ.lake.attributed none = readCurrent τ.lake.attributed none
  exposuresLanded : σ.serving.exposuresFinal.Perm τ.serving.exposuresFinal
  attributedConversions : σ.serving.attributedFinal.Perm τ.serving.attributedFinal
  campaignHourly : σ.serving.campaignHourlyFinal.Perm τ.serving.campaignHourlyFinal
  evalMeta : σ.serving.profileMarker = τ.serving.profileMarker

/-- The lake of one clean run. -/
def EngineRun.lake (run : EngineRun) : Lake := (Lake.empty.land run.exposures).landAttributed run.rows

/-- A log that holds nothing yet, or reads as one landing. -/
def LandedSome {α : Type} [DecidableEq α] (rows log : List α) : Prop := log = [] ∨ firstSeen log = firstSeen rows

section log
variable {α : Type} [DecidableEq α] {rows log : List α}

/-- Landing the same rows again changes no read. -/
theorem LandedSome.land (h : LandedSome rows log) : firstSeen (log ++ rows) = firstSeen rows := by
  rcases h with rfl | h
  · rfl
  · have hold : (firstSeen rows).filter (· ∉ log) = [] := by
      rw [List.filter_eq_nil_iff]
      intro x hx
      rw [← h, mem_firstSeen] at hx
      simpa using hx
    rw [firstSeen_append, hold, List.append_nil, h]

private theorem readExposuresForDays_congr {log log' : List Exposure} (h : firstSeen log = firstSeen log')
    (days : List Int) :
    readExposuresForDays log days = readExposuresForDays log' days := by
  rw [readExposuresForDays, readExposuresForDays, ← filter_firstSeen, ← filter_firstSeen, h]

theorem readCurrent_congr {log log' : List AttributedConversion} (h : firstSeen log = firstSeen log')
    (days : Option (List Int)) : readCurrent log days = readCurrent log' days := by
  cases days with
  | none => rw [readCurrent, readCurrent, scanned, scanned, h]
  | some days => rw [readCurrent, readCurrent, scanned, scanned, ← filter_firstSeen, ← filter_firstSeen, h]

end log

/-- Stores that interrupted attempts of one run left. -/
structure Retried (run : EngineRun) (profile : String) (σ : System) : Prop where
  exposures : LandedSome run.lake.exposures σ.lake.exposures
  rows : LandedSome run.lake.attributed σ.lake.attributed
  serving : Repeating run.lake σ.serving
  marker : ∀ p ∈ σ.serving.evalMeta, p = profile

/-- A lake that reads as the clean run's. -/
structure ReadsAs (lake lake' : Lake) : Prop where
  exposures : firstSeen lake.exposures = firstSeen lake'.exposures
  attributed : firstSeen lake.attributed = firstSeen lake'.attributed

section reads
variable {lake lake' : Lake} {s : Serving}

theorem ReadsAs.loadExposuresDay (h : ReadsAs lake lake') (day : Int) :
    loadExposuresDay lake.exposures day = loadExposuresDay lake'.exposures day := by
  rw [CtvAttribution.loadExposuresDay, readExposuresForDays_congr h.exposures]
  rfl

theorem ReadsAs.loadAttributedDay (h : ReadsAs lake lake') (day : Int) :
    loadAttributedDay lake.attributed day = loadAttributedDay lake'.attributed day := by
  rw [CtvAttribution.loadAttributedDay, readCurrent_congr h.attributed]
  rfl

theorem ReadsAs.afterDays (h : ReadsAs lake lake') (days : List Int) :
    s.afterDays lake days = s.afterDays lake' days := by
  induction days generalizing s with
  | nil => rfl
  | cons day days ih =>
    have hday : s.afterDay lake day = s.afterDay lake' day := by
      rw [Serving.afterDay, Serving.afterExposuresDay, Serving.afterAttributedDay,
        readExposuresForDays_congr h.exposures, readCurrent_congr h.attributed]
      rfl
    rw [Serving.afterDays, List.foldl_cons, hday]
    exact ih

theorem ReadsAs.afterLoad (h : ReadsAs lake lake') (days : List Int) :
    s.afterLoad lake days = s.afterLoad lake' days := by
  rw [Serving.afterLoad, Serving.afterLoad, h.afterDays]

end reads

section marker
variable {σ σ' : System} {P : List String → Prop}

/-- Loads never touch the marker. -/
theorem evalMeta_of_leaves_materializeLoad {days : List Int} (hσ : P σ.serving.evalMeta)
    (h : (materializeLoad days).Leaves σ σ') : P σ'.serving.evalMeta := by
  have hkeep : (materializeLoad days).Keeps (Over σ.lake fun s => P s.evalMeta) :=
    keeps_frame_materializeLoad (fun _ _ hmarker _ hs => hmarker ▸ hs) days
  exact (hkeep σ σ' ⟨rfl, hσ⟩ h).serving

end marker

section attempts
variable {run : EngineRun} {profile : String} {σ σ' : System}

private theorem days_lake (run : EngineRun) : run.lake.days = sortedSet (landedDays run) := by
  apply sortedSet_congr
  intro d
  simp only [EngineRun.lake, Lake.landAttributed, Lake.land, Lake.empty, List.nil_append, landedDays, List.mem_append,
    mem_touchedDays, touched, List.mem_map, List.map_map, Function.comp_apply, landedExposure, landedRow,
    dayOf_toUtcMs, exists_exists_and_eq_and]

/-- Landing appends the exposures, then the rows. -/
theorem Retried.land (h : Retried run profile σ) {days : List Int}
    (hl : (landRun run).Ends σ days σ') : Retried run profile σ' ∧ ReadsAs σ'.lake run.lake := by
  obtain ⟨_, rfl⟩ := ends_landRun.mp hl
  have hreads : ReadsAs ((σ.lake.land run.exposures).landAttributed run.rows) run.lake :=
    ⟨h.exposures.land, h.rows.land⟩
  exact ⟨⟨.inr hreads.exposures, .inr hreads.attributed, h.serving, h.marker⟩, hreads⟩

private theorem Retried.leaves_land (h : Retried run profile σ) (hl : (landRun run).Leaves σ σ') :
    Retried run profile σ' := by
  rcases leaves_landRun hl with rfl | rfl | rfl
  · exact h
  · exact ⟨.inr h.exposures.land, h.rows, h.serving, h.marker⟩
  · exact ⟨.inr h.exposures.land, .inr h.rows.land, h.serving, h.marker⟩

variable (hrun : SameDay run.lake.attributed)
include hrun

/-- A stopped load of a lake that reads as the clean run's. -/
theorem ReadsAs.keeps_load (h : ReadsAs σ.lake run.lake) (hs : Repeating run.lake σ.serving)
    (hl : (materializeLoad (landedDays run)).Leaves σ σ') : Repeating run.lake σ'.serving := by
  have he (day : Int) : (CtvAttribution.loadExposuresDay σ.lake.exposures day).Keeps (Repeating run.lake) := by
    rw [h.loadExposuresDay]
    exact keeps_repeating_loadExposuresDay hrun day
  have ha (day : Int) : (CtvAttribution.loadAttributedDay σ.lake.attributed day).Keeps (Repeating run.lake) := by
    rw [h.loadAttributedDay]
    exact keeps_repeating_loadAttributedDay hrun day
  have hdays : (Script.forEach (sortedSet (landedDays run)) loadDay).Keeps (Over σ.lake (Repeating run.lake)) :=
    keeps_forEach fun day _ => keeps_loadDay he ha day
  rw [materializeLoad_eq] at hl
  split at hl
  · rwa [leaves_pure.mp hl]
  split at hl
  · rcases leaves_bind' hl with h₁ | ⟨_, m, hm, h₁⟩
    · exact (hdays σ σ' ⟨rfl, hs⟩ h₁).serving
    rw [ends_forEach fun _ _ _ => ends_loadDay, foldl_afterDay, ← days_lake] at hm
    subst hm
    obtain ⟨t, ht, rfl⟩ := leaves_onServing h₁
    rw [h.afterDays] at ht
    exact (hs.complete hrun).keeps_refresh (hs.afterDays hrun _) ht
  · rwa [leaves_fail.mp hl]

/-- An attempt, stopped anywhere, leaves parts of the clean run. -/
theorem Retried.stopped (h : Retried run profile σ) (hl : (engineMain run profile).Leaves σ σ') :
    Retried run profile σ' := by
  rcases leaves_bind' hl with h₁ | ⟨days, m, hm, h₁⟩
  · exact h.leaves_land h₁
  obtain ⟨hlanded, hreads⟩ := h.land hm
  obtain rfl := (ends_landRun.mp hm).1
  have hload {n : System} (hn : (materializeLoad (landedDays run)).Leaves m n) : Retried run profile n :=
    ⟨lake_of_leaves_materializeLoad hn ▸ hlanded.exposures, lake_of_leaves_materializeLoad hn ▸ hlanded.rows,
      hreads.keeps_load hrun hlanded.serving hn,
      evalMeta_of_leaves_materializeLoad (P := fun l => ∀ p ∈ l, p = profile) hlanded.marker hn⟩
  rcases leaves_bind' h₁ with h₂ | ⟨_, n, hn, h₂⟩
  · exact hload h₂
  have hn := hload hn.leaves
  obtain ⟨t, ht, rfl⟩ := leaves_onServing h₂
  rcases leaves_modify.mp ht with rfl | rfl
  · exact hn
  refine ⟨hn.exposures, hn.rows, ⟨hn.serving.exposures, hn.serving.rows, hn.serving.dirty, hn.serving.hourly,
    hn.serving.refreshed⟩, fun p hp => ?_⟩
  rcases List.mem_append.mp hp with hp | hp
  · exact hn.marker p hp
  · exact List.mem_singleton.mp hp

/-- What a completed attempt leaves, whatever was stopped before it. -/
structure Finished (run : EngineRun) (profile : String) (σ : System) : Prop where
  lake : ReadsAs σ.lake run.lake
  exposures : σ.serving.exposuresFinal.Perm run.lake.loaded.exposuresFinal
  rows : σ.serving.attributedFinal.Perm run.lake.loaded.attributedFinal
  rollup : ∀ k, σ.serving.servedRollup k =
    if run.lake.loaded.latestStamp k = 0 then none else run.lake.loaded.rebuiltRollup k
  marker : σ.serving.profileMarker = some profile

end attempts

section converge
variable {run : EngineRun} {profile : String} {σ σ' τ : System}

private theorem Finished.sameResults (hσ : Finished run profile σ) (hτ : Finished run profile τ) : SameResults σ τ where
  exposures := hσ.lake.exposures.trans hτ.lake.exposures.symm
  current := readCurrent_congr (hσ.lake.attributed.trans hτ.lake.attributed.symm) none
  exposuresLanded := hσ.exposures.trans hτ.exposures.symm
  attributedConversions := hσ.rows.trans hτ.rows.symm
  campaignHourly := finalRows_perm fun k => (hσ.rollup k).trans (hτ.rollup k).symm
  evalMeta := hσ.marker.trans hτ.marker.symm

private theorem retried_empty (run : EngineRun) (profile : String) :
    Retried run profile ⟨Lake.empty, Serving.empty⟩ where
  exposures := .inl rfl
  rows := .inl rfl
  serving := repeating_empty _
  marker _ hp := absurd hp List.not_mem_nil

/-- A load of no days and a load of all days alike end in a refresh of complete tables. -/
theorem Repeating.afterLoad_eq {lake : Lake} {s : Serving} {days : List Int} (h : Repeating lake s)
    (hdays : lake.days = sortedSet days) : s.afterLoad lake days = (s.afterDays lake lake.days).afterRefresh := by
  unfold Serving.afterLoad
  split
  · rename_i hnil
    subst hnil
    have hlake : lake.days = [] := hdays
    have hclean : s.dirtyKeys = [] := by
      rw [List.eq_nil_iff_forall_not_mem]
      intro d hd
      obtain ⟨c, hc, _⟩ := h.dirty d (finalRow_eq_some (Serving.mem_dirtyKeys.mp hd).1).1
      rw [Lake.loaded, hlake] at hc
      exact absurd hc List.not_mem_nil
    rw [hlake, Serving.afterDays, List.foldl_nil, Serving.afterRefresh, if_pos hclean]
  · rw [hdays]

/-- The marker comes last. -/
theorem finished_marked {lake : Lake} {s : Serving} (hlake : ReadsAs lake run.lake)
    (he : s.exposuresFinal.Perm run.lake.loaded.exposuresFinal)
    (hr : s.attributedFinal.Perm run.lake.loaded.attributedFinal)
    (hk : ∀ k, s.servedRollup k =
      if run.lake.loaded.latestStamp k = 0 then none else run.lake.loaded.rebuiltRollup k) :
    Finished run profile ⟨lake, { s with evalMeta := s.evalMeta ++ [profile] }⟩ :=
  ⟨hlake, he, hr, hk, finalRow_append_of_mem ⟨profile, List.mem_singleton_self _, rfl⟩⟩

/-- A completed attempt ends as a clean run does. -/
theorem Retried.finished (h : Retried run profile σ) (hrun : SameDay run.lake.attributed)
    (hl : (engineMain run profile).Ends σ () σ') : Finished run profile σ' := by
  obtain ⟨_, rfl⟩ := ends_engineMain.mp hl
  have hreads : ReadsAs ((σ.lake.land run.exposures).landAttributed run.rows) run.lake :=
    ⟨h.exposures.land, h.rows.land⟩
  have hcomplete := h.serving.complete hrun
  apply finished_marked hreads <;> rw [hreads.afterLoad, h.serving.afterLoad_eq (days_lake run)]
  · rw [Serving.exposuresFinal_afterRefresh]
    exact hcomplete.exposures
  · rw [Serving.attributedFinal_afterRefresh]
    exact hcomplete.rows
  · exact hcomplete.servedRollup_afterRefresh (h.serving.afterDays hrun _)

end converge

section engine
variable {dedup : Bool} {allowedLateness : Int} {index : GraphIndex} {exposures : List Exposure}
  {conversions : List Conversion} {profile : String} {run : EngineRun} {σ σ' : System}

/-- A run lands one row per conversion, so on one day. -/
theorem sameDay_runEngine (h : runEngine dedup allowedLateness index exposures conversions = .ok run) :
    SameDay run.lake.attributed := by
  obtain ⟨rows, hrows, h⟩ := bind_eq_ok_iff.mp h
  rw [← Except.ok.inj h]
  exact sameDay_landed (keyed_of_nodup (nodup_conversionId_runAttribution hrows))

theorem ends_engine : (engine dedup allowedLateness index exposures conversions profile).Ends σ () σ' ↔
    ∃ run, runEngine dedup allowedLateness index exposures conversions = .ok run ∧
      (engineMain run profile).Ends σ () σ' := by
  simp only [engine, ends_bind', ends_orRaise]
  constructor
  · intro h
    obtain ⟨run, m, ⟨rfl, hrun⟩, h⟩ := h
    exact ⟨run, hrun, h⟩
  · intro h
    obtain ⟨run, hrun, h⟩ := h
    exact ⟨run, _, ⟨rfl, hrun⟩, h⟩

private theorem leaves_engine (hrun : runEngine dedup allowedLateness index exposures conversions = .ok run)
    (h : (engine dedup allowedLateness index exposures conversions profile).Leaves σ σ') :
    (engineMain run profile).Leaves σ σ' := by
  rcases leaves_orRaise_bind h with rfl | ⟨run', hrun', h₁⟩
  · exact leaves_self _ _
  · rw [hrun] at hrun'
    cases hrun'
    exact h₁

theorem Attempts.retried (hrun : runEngine dedup allowedLateness index exposures conversions = .ok run)
    (h : Attempts (engine dedup allowedLateness index exposures conversions profile) σ) :
    Retried run profile σ := by
  induction h with
  | empty => exact retried_empty run profile
  | stopped _ hl ih => exact ih.stopped (sameDay_runEngine hrun) (leaves_engine hrun hl)

/-- After any interrupted attempts a complete one is possible when a clean run is, and it
reads as the clean run does. -/
theorem engine_retries_converge
    (h : Attempts (engine dedup allowedLateness index exposures conversions profile) σ) :
    (∀ σ', (engine dedup allowedLateness index exposures conversions profile).Ends σ () σ' →
      ∃ τ, (engine dedup allowedLateness index exposures conversions profile).Ends
        ⟨Lake.empty, Serving.empty⟩ () τ ∧ SameResults σ' τ) ∧
    ∀ τ, (engine dedup allowedLateness index exposures conversions profile).Ends
        ⟨Lake.empty, Serving.empty⟩ () τ →
      ∃ σ', (engine dedup allowedLateness index exposures conversions profile).Ends σ () σ' ∧ SameResults σ' τ := by
  constructor
  · intro σ' hl
    obtain ⟨run, hrun, hl⟩ := ends_engine.mp hl
    have hdays := (ends_engineMain.mp hl).1
    have hclean : (engineMain run profile).Ends ⟨Lake.empty, Serving.empty⟩ () _ :=
      ends_engineMain.mpr ⟨hdays, rfl⟩
    have hday := sameDay_runEngine hrun
    exact ⟨_, ends_engine.mpr ⟨run, hrun, hclean⟩,
      ((h.retried hrun).finished hday hl).sameResults ((retried_empty run profile).finished hday hclean)⟩
  · intro τ hτ
    obtain ⟨run, hrun, hclean⟩ := ends_engine.mp hτ
    have hdays := (ends_engineMain.mp hclean).1
    have hl : (engineMain run profile).Ends σ () _ := ends_engineMain.mpr ⟨hdays, rfl⟩
    have hday := sameDay_runEngine hrun
    exact ⟨_, ends_engine.mpr ⟨run, hrun, hl⟩,
      ((h.retried hrun).finished hday hl).sameResults ((retried_empty run profile).finished hday hclean)⟩

end engine

section sample

/-- The engine over one exposure and the conversion it credits. -/
def sampleEngine : SystemScript Unit :=
  engine true Time.hour sampleGraph [sampleExposure "e1" sampleDay sampleDay]
    [sampleConversion "c1" (sampleDay + Time.minute) (sampleDay + Time.minute)] "tiny"

/-- What it lands. -/
def sampleLandings : Lake where
  exposures := [sampleExposure "e1" sampleDay sampleDay]
  attributed := [{ lateRow with
    conversionId := "c1", eventTime := sampleDay + Time.minute, ingestTime := sampleDay + Time.minute
    processedAt := sampleDay + Time.minute }]

/-- Stopped right after both appends. -/
theorem sampleEngine_attempts : Attempts sampleEngine ⟨sampleLandings, Serving.empty⟩ := by
  have hrun : runEngine true Time.hour sampleGraph [sampleExposure "e1" sampleDay sampleDay]
      [sampleConversion "c1" (sampleDay + Time.minute) (sampleDay + Time.minute)] =
      .ok ⟨sampleLandings.exposures, sampleLandings.attributed, 1, 0⟩ := by decide
  have hland : (landRun ⟨sampleLandings.exposures, sampleLandings.attributed, 1, 0⟩).Ends
      ⟨Lake.empty, Serving.empty⟩ _ ⟨sampleLandings, Serving.empty⟩ := ends_landRun.mpr ⟨rfl, by decide⟩
  exact .stopped .empty (leaves_bind_of_ends (ends_orRaise.mpr ⟨rfl, hrun⟩)
    (leaves_bind_of_ends hland (leaves_self _ _)))

theorem engine_retries_converge_sample :
    (∀ σ', sampleEngine.Ends ⟨sampleLandings, Serving.empty⟩ () σ' →
      ∃ τ, sampleEngine.Ends ⟨Lake.empty, Serving.empty⟩ () τ ∧ SameResults σ' τ) ∧
    ∀ τ, sampleEngine.Ends ⟨Lake.empty, Serving.empty⟩ () τ →
      ∃ σ', sampleEngine.Ends ⟨sampleLandings, Serving.empty⟩ () σ' ∧ SameResults σ' τ :=
  engine_retries_converge sampleEngine_attempts

end sample
end CtvAttribution
