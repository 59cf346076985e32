import CtvAttribution.ServingProjection

/-! The replay from the lake: the landed tables come back as they were, the rollup when no
key's latest stamp is the epoch, which the join of the dirty set reads as refreshed. -/
namespace CtvAttribution
open Library Script

/-- The latest stamp of a rollup key over the rows the lake reads. -/
def Lake.latestStamp (lake : Lake) (k : RollupKey) : Int :=
  maxOf ((keyGroup (firstSeen lake.exposures) (readCurrent lake.attributed none) k).map Contribution.stamp)

/-- Tables on the way of a replay: rows the lake reads, bookkeeping of these rows only. -/
structure Replaying (lake : Lake) (s : Serving) : Prop where
  exposures : ∀ e ∈ s.exposuresLanded, e ∈ lake.exposures
  rows : ∀ r ∈ s.attributedConversions, r ∈ readCurrent lake.attributed none
  dirty : ∀ d ∈ s.rollupDirty, ∃ c ∈ contributions (firstSeen lake.exposures) (readCurrent lake.attributed none),
    c.key = d.key ∧ c.stamp = d.version

section replaying
variable {lake : Lake} {s : Serving} {k : RollupKey}

theorem Replaying.contributions (h : Replaying lake s) {c : Contribution}
    (hc : c ∈ CtvAttribution.contributions s.exposuresFinal s.attributedFinal) :
    c ∈ CtvAttribution.contributions (firstSeen lake.exposures) (readCurrent lake.attributed none) := by
  apply contributions_mono _ _ hc
  · intro e he
    exact mem_firstSeen.mpr (h.exposures e (finalRow_eq_some (Serving.mem_exposuresFinal.mp he)).1)
  · intro r hr
    exact h.rows r (Serving.servedRow_eq_some (Serving.mem_attributedFinal.mp hr)).1

theorem Replaying.insertDirty (h : Replaying lake s) {stamps : List RollupStamp}
    (hstamps : ∀ d ∈ stamps, ∃ c ∈ CtvAttribution.contributions s.exposuresFinal s.attributedFinal,
      c.key = d.key ∧ c.stamp = d.version) : Replaying lake (s.insertDirty stamps) where
  exposures := h.exposures
  rows := h.rows
  dirty d hd := by
    rcases List.mem_append.mp hd with hd | hd
    · exact h.dirty d hd
    · obtain ⟨c, hc, he⟩ := hstamps d (current_eq_some (mem_collapse.mp hd)).1
      exact ⟨c, h.contributions hc, he⟩

theorem Replaying.afterExposuresDay (h : Replaying lake s) (day : Int) :
    Replaying lake (s.afterExposuresDay lake.exposures day) := by
  have hrows : Replaying lake (s.withExposures lake.exposures day) := by
    refine ⟨fun e he => ?_, h.rows, h.dirty⟩
    rcases List.mem_append.mp he with he | he
    · exact h.exposures e he
    · exact (mem_of_mem_readExposuresForDays he).1
  have hdirty : Replaying lake ((s.withExposures lake.exposures day).insertDirty
      ((s.withExposures lake.exposures day).dirtyFromExposures day)) := by
    apply hrows.insertDirty
    intro d hd
    obtain ⟨e, he, rfl⟩ := List.mem_map.mp hd
    exact ⟨_, mem_contributions.mpr (.inl ⟨e, (List.mem_filter.mp he).1, rfl⟩), rfl, rfl⟩
  apply hdirty.insertDirty
  intro d hd
  obtain ⟨x, hx, rfl⟩ := List.mem_map.mp hd
  obtain ⟨ha, hatt, he, hid⟩ := mem_credits.mp hx
  exact ⟨_, mem_contributions.mpr (.inr ⟨x, mem_credits.mpr ⟨ha, hatt, (List.mem_filter.mp he).1, hid⟩, rfl⟩), rfl, rfl⟩

theorem Replaying.afterAttributedDay (h : Replaying lake s) (hlake : RegularLake lake) (day : Int) :
    Replaying lake (s.afterAttributedDay lake.attributed day) := by
  have hrows : Replaying lake
      { s with attributedConversions := s.attributedConversions ++ readCurrent lake.attributed (some [day]) } := by
    refine ⟨h.exposures, fun r hr => ?_, h.dirty⟩
    rcases List.mem_append.mp hr with hr | hr
    · exact h.rows r hr
    · exact mem_readCurrent.mpr ((mem_readCurrent_days hlake.sameDay).mp hr).1
  apply hrows.insertDirty
  intro d hd
  obtain ⟨x, hx, rfl⟩ := List.mem_map.mp hd
  exact ⟨_, mem_contributions.mpr (.inr ⟨x, (List.mem_filter.mp hx).1, rfl⟩), rfl, rfl⟩

theorem Replaying.afterDays (h : Replaying lake s) (hlake : RegularLake lake) (days : List Int) :
    Replaying lake (s.afterDays lake days) := by
  induction days generalizing s with
  | nil => exact h
  | cons day days ih => exact ih ((h.afterExposuresDay day).afterAttributedDay hlake day)

theorem ProjectsLake.latestStamp (h : ProjectsLake lake s) (k : RollupKey) : s.latestStamp k = lake.latestStamp k := by
  apply maxOf_congr
  intro t
  simp only [List.mem_map, mem_keyGroup]
  have hiff (c : Contribution) : c ∈ contributions s.exposuresFinal s.attributedFinal ↔
      c ∈ contributions (firstSeen lake.exposures) (readCurrent lake.attributed none) :=
    ⟨contributions_mono (fun _ he => h.exposures.mem_iff.mp he) fun _ hr => h.rows.mem_iff.mp hr,
      contributions_mono (fun _ he => h.exposures.mem_iff.mpr he) fun _ hr => h.rows.mem_iff.mpr hr⟩
  simp only [hiff]

/-- Once every day was replayed a key's recorded stamp is its latest one. -/
theorem Replaying.dirtyStamp (h : Replaying lake s) (hp : ProjectsLake lake s) (hb : s.Booked)
    (hne : keyGroup s.exposuresFinal s.attributedFinal k ≠ []) :
    ∃ d, s.dirtyStamp k = some d ∧ d.version = s.latestStamp k := by
  obtain ⟨d, hd, hle⟩ := hb.latestStamp hne
  refine ⟨d, hd, le_antisymm ?_ hle⟩
  obtain ⟨hmem, hk, _⟩ := finalRow_eq_some hd
  obtain ⟨c, hc, hck, hv⟩ := h.dirty d hmem
  rw [hp.latestStamp, ← hv]
  apply le_maxOf
  exact List.mem_map_of_mem (mem_keyGroup.mpr ⟨hc, hck.trans hk⟩)

/-- Over truncated bookkeeping every key is dirty but those at the epoch. -/
theorem Replaying.dirty_iff (h : Replaying lake s) (hp : ProjectsLake lake s) (hb : s.Booked)
    (hrefreshed : s.rollupRefreshed = []) (hk : s.rebuiltRollup k ≠ none) :
    k ∈ s.dirtyKeys.map RollupStamp.key ↔ lake.latestStamp k ≠ 0 := by
  have hne : keyGroup s.exposuresFinal s.attributedFinal k ≠ [] := by
    intro hnil
    exact hk (if_pos hnil)
  obtain ⟨d, hd, hv⟩ := h.dirtyStamp hp hb hne
  rw [Serving.mem_map_key_dirtyKeys, Serving.refreshedVersion, hrefreshed, ← hp.latestStamp, ← hv]
  constructor
  · intro hdirty
    obtain ⟨x, hx, hxv⟩ := hdirty
    rw [hd] at hx
    cases hx
    exact hxv
  · intro hv
    exact ⟨d, hd, hv⟩

/-- The first refresh of an empty rollup writes the full rebuild when it reaches every key. -/
theorem fresh_afterRefresh_of_nil (hhourly : s.campaignHourly = []) :
    s.afterRefresh.Fresh ↔ ∀ k, s.rebuiltRollup k ≠ none → k ∈ s.dirtyKeys.map RollupStamp.key := by
  have hnone (k : RollupKey) : s.servedRollup k = none := by
    rw [Serving.servedRollup, hhourly]
    rfl
  rw [Serving.fresh_iff]
  simp only [Serving.servedRollup_afterRefresh, hnone, newer_none, Serving.rebuiltRollup_afterRefresh]
  constructor
  · intro hfresh k hk
    by_contra hclean
    have hrow := hfresh k
    rw [if_neg hclean] at hrow
    exact hk (Option.map_eq_none_iff.mp hrow.symm)
  · intro hkeys k
    by_cases hk : s.rebuiltRollup k = none
    · rw [hk, ite_self]
    · rw [if_pos (hkeys k hk)]

theorem ProjectsLake.rebuiltRollup_ne_none (h : ProjectsLake lake s) :
    s.rebuiltRollup k ≠ none ↔ ∃ e ∈ lake.exposures, rollupKey e = k := by
  rw [ne_eq, Serving.rebuiltRollup_eq_none, not_not]
  simp only [h.exposures.mem_iff, mem_firstSeen]

private theorem rebuiltRollup_cutTables {unit : Nat} :
    (Checked.cutTables unit s).rebuiltRollup k ≠ none ↔ s.rebuiltRollup k ≠ none := by
  rw [ne_eq, ne_eq, Serving.rebuiltRollup_eq_none, Serving.rebuiltRollup_eq_none, Checked.exposuresFinal_cut]
  simp only [List.mem_map, exists_exists_and_eq_and]
  rfl

/-- The amounts of the lake's exposures and of the current rows crediting them are in range. -/
def Lake.MoneyFits (unit : Nat) (lake : Lake) : Prop :=
  Checked.MoneyFits unit lake.exposures (readCurrent lake.attributed none)

private theorem ProjectsLake.moneyFits_iff {unit : Nat} (h : ProjectsLake lake s) :
    Checked.MoneyFits unit s.exposuresFinal s.attributedFinal ↔ lake.MoneyFits unit := by
  have hexposures (e : Exposure) : e ∈ s.exposuresFinal ↔ e ∈ lake.exposures :=
    h.exposures.mem_iff.trans mem_firstSeen
  constructor
  · intro hfits
    exact hfits.mono (fun e he => (hexposures e).mpr he) fun _ hr => h.rows.mem_iff.mpr hr
  · intro hfits
    exact hfits.mono (fun e he => (hexposures e).mp he) fun _ hr => h.rows.mem_iff.mp hr

/-- The first refresh of a replay writes the full rebuild but for the keys at the epoch, and
raises on an amount out of range. -/
theorem Replaying.rebuilt_iff {unit : Nat} (h : Replaying lake s) (hp : ProjectsLake lake s) (hb : s.Booked)
    (hhourly : s.campaignHourly = []) (hrefreshed : s.rollupRefreshed = []) :
    Checked.Rebuilt unit (Checked.afterRefresh unit s) ↔
      lake.MoneyFits unit ∧ ∀ e ∈ lake.exposures, lake.latestStamp (rollupKey e) ≠ 0 := by
  have hcut : (Checked.cutTables unit s).campaignHourly = [] := hhourly
  rw [Checked.rebuilt_iff, Checked.cutTables_afterRefresh, fresh_afterRefresh_of_nil hcut]
  apply and_congr hp.moneyFits_iff
  simp only [rebuiltRollup_cutTables]
  constructor
  · intro hkeys e he
    have hk := hp.rebuiltRollup_ne_none.mpr ⟨e, he, rfl⟩
    exact (h.dirty_iff hp hb hrefreshed hk).mp (hkeys _ hk)
  · intro hstamps k hk
    obtain ⟨e, he, rfl⟩ := hp.rebuiltRollup_ne_none.mp hk
    exact (h.dirty_iff hp hb hrefreshed hk).mpr (hstamps e he)

end replaying

/-- The landed tables are the lake's, and a replay of its days brings them back with a rollup
equal to the full rebuild. -/
structure Replayable (unit : Nat) (σ : System) : Prop where
  projects : ProjectsLake σ.lake σ.serving
  completes : σ.lake.days ≠ [] → ∃ τ, (Checked.truncateAndReload unit σ.lake.days).Ends σ () τ
  exposures : ∀ τ, (Checked.truncateAndReload unit σ.lake.days).Ends σ () τ →
    τ.serving.exposuresFinal.Perm σ.serving.exposuresFinal
  rows : ∀ τ, (Checked.truncateAndReload unit σ.lake.days).Ends σ () τ →
    τ.serving.attributedFinal.Perm σ.serving.attributedFinal
  rollup : ∀ τ, (Checked.truncateAndReload unit σ.lake.days).Ends σ () τ → Checked.Rebuilt unit τ.serving

section replay
variable {unit : Nat} {σ τ : System}

/-- With every landed day loaded, FINAL of the landed tables is the lake. -/
theorem History.projectsLake (h : History unit σ []) (hlake : RegularLake σ.lake) : ProjectsLake σ.lake σ.serving :=
  (h.projected hlake).projectsLake hlake

theorem booked_emptied (s : Serving) : s.emptied.Booked where
  recorded _ h := absurd h List.not_mem_nil
  refreshed _ h := absurd h List.not_mem_nil
  reported _ h := absurd h List.not_mem_nil

private theorem replaying_emptied (lake : Lake) (s : Serving) : Replaying lake s.emptied where
  exposures _ h := absurd h List.not_mem_nil
  rows _ h := absurd h List.not_mem_nil
  dirty _ h := absurd h List.not_mem_nil

/-- The days of the lake, loaded into truncated tables. -/
def replayed (lake : Lake) (s : Serving) : Serving := s.emptied.afterDays lake (sortedSet lake.days)

/-- The replay loads every day of the lake. -/
theorem projectsLake_replayed {lake : Lake} (hlake : RegularLake lake) (s : Serving)
    (hdays : ∀ d ∈ lake.days, dayPartitions d = true) : ProjectsLake lake (replayed lake s) := by
  have hexposures : (replayed lake s).exposuresLanded = loadedExposures lake lake.days := exposuresLanded_afterDays
  have hrows : (replayed lake s).attributedConversions = loadedRows lake lake.days := attributedConversions_afterDays
  have hprojected : Projected lake [] (replayed lake s) := by
    refine ⟨⟨fun e he => ?_, fun r hr => ?_⟩, fun e he => .inl ?_, fun cid r hr => .inl ?_, fun d hd => .inl (hdays d hd)⟩
    · rw [hexposures] at he
      exact (mem_loadedExposures.mp he).1
    · rw [hrows] at hr
      exact currentRow_mem ((mem_loadedRows hlake.sameDay).mp hr).1
    · rw [hexposures]
      exact mem_loadedExposures.mpr ⟨he, mem_lakeDays.mpr (.inl ⟨e, he, rfl⟩)⟩
    · have hday : dayOf r.eventTime ∈ lake.days := mem_lakeDays.mpr (.inr ⟨r, currentRow_mem hr, rfl⟩)
      rw [hrows]
      exact (mem_loadedRows hlake.sameDay).mpr ⟨(currentRow_conversionId hr).symm ▸ hr, hday⟩
  exact hprojected.projectsLake hlake

private theorem rebuilt_replayed_iff {lake : Lake} (hlake : RegularLake lake) (s : Serving)
    (hdays : ∀ d ∈ lake.days, dayPartitions d = true) :
    Checked.Rebuilt unit (Checked.afterRefresh unit (replayed lake s)) ↔
      lake.MoneyFits unit ∧ ∀ e ∈ lake.exposures, lake.latestStamp (rollupKey e) ≠ 0 := by
  have hloads : DayLoads s.emptied (replayed lake s) := dayLoads_afterDays _ _
  exact ((replaying_emptied lake s).afterDays hlake _).rebuilt_iff (projectsLake_replayed hlake s hdays)
    (hloads.booked (booked_emptied s)) hloads.campaignHourly hloads.rollupRefreshed

/-- Replay gives the landed tables back, and the rollup with them, exactly when every amount
is in range and no key's latest stamp is the epoch. -/
theorem replayable_iff (h : History unit σ []) (hlake : RegularLake σ.lake) :
    Replayable unit σ ↔ σ.lake.MoneyFits unit ∧ ∀ e ∈ σ.lake.exposures, σ.lake.latestStamp (rollupKey e) ≠ 0 := by
  have hp := h.projectsLake hlake
  have hdays : ∀ d ∈ σ.lake.days, dayPartitions d = true :=
    fun d hd => ((h.projected hlake).calendar d hd).resolve_right List.not_mem_nil
  have hback := projectsLake_replayed hlake σ.serving hdays
  have hserving (τ : System) (hτ : (Checked.truncateAndReload unit σ.lake.days).Ends σ () τ) :
      τ.serving = Checked.afterRefresh unit (replayed σ.lake σ.serving) :=
    congrArg System.serving (Checked.ends_truncateAndReload.mp hτ).2.2.2
  constructor
  · intro hr
    by_cases hne : σ.lake.days = []
    · have hnone (e : Exposure) : e ∉ σ.lake.exposures := by
        intro he
        exact List.ne_nil_of_mem (mem_lakeDays.mpr (.inl ⟨e, he, rfl⟩)) hne
      exact ⟨⟨fun e he => absurd he (hnone e), fun c hc => absurd (mem_credits.mp hc).2.2.1 (hnone c.2)⟩,
        fun e he => absurd he (hnone e)⟩
    · obtain ⟨τ, hτ⟩ := hr.completes hne
      have hrebuilt := hr.rollup τ hτ
      rw [hserving τ hτ] at hrebuilt
      exact (rebuilt_replayed_iff hlake σ.serving hdays).mp hrebuilt
  · intro hconditions
    have hfits : Checked.RefreshFits unit (replayed σ.lake σ.serving) :=
      Checked.refreshFits_of_fits (hback.moneyFits_iff.mpr hconditions.1)
    refine ⟨hp, fun hne => ⟨_, Checked.ends_truncateAndReload.mpr ⟨hne, hdays, hfits, rfl⟩⟩, fun τ hτ => ?_,
      fun τ hτ => ?_, fun τ hτ => ?_⟩
    · rw [hserving τ hτ, Checked.exposuresFinal_afterRefresh]
      exact hback.exposures.trans hp.exposures.symm
    · rw [hserving τ hτ, Checked.attributedFinal_afterRefresh]
      exact hback.rows.trans hp.rows.symm
    · rw [hserving τ hτ]
      exact (rebuilt_replayed_iff hlake σ.serving hdays).mpr hconditions

end replay

section sample

/-- An engine run landed and its day loaded. -/
def sampleReplay (run : EngineRun) : System :=
  let lake := (Lake.empty.land run.exposures).landAttributed run.rows
  ⟨lake, Serving.empty.afterDay lake 20700⟩

private theorem sampleReplay_history (unit : Nat) {run : EngineRun} (hdays : landedDays run = [20700, 20700]) :
    History unit (sampleReplay run) [] := by
  have hlanded := ((History.empty : History unit _ _).land run.exposures).landAttributed run.rows
  have hday : dayPartitions 20700 = true := by decide
  have hloaded := hlanded.load hday (ends_loadDay.mpr rfl)
  have hpending : ([] ++ touchedDays (run.exposures.map Exposure.eventTime) ++ touched run.rows).filter (· ≠ 20700) =
      [] := by
    rw [List.nil_append, ← landedDays, hdays]
    rfl
  rwa [hpending] at hloaded

theorem replayable_iff_sample : Replayable 1 (sampleReplay sampleRun) :=
  (replayable_iff (sampleReplay_history 1 (by decide)) ⟨by decide, by decide, by decide⟩).mpr
    ⟨⟨by decide, by decide⟩, by decide⟩

/-- An exposure ingested at the epoch. -/
def sampleEpochRun : EngineRun :=
  { sampleRun with exposures := [sampleExposure "e1" sampleDay 0] }

/-- An exposure of 10¹⁴. -/
def sampleHugeRun : EngineRun :=
  { sampleRun with exposures := [{ sampleExposure "e1" sampleDay sampleDay with spend := 10 ^ 18 }] }

/-- The key of the first is never dirty, and the replayed rollup lacks it; on the second the
replay raises with the tables truncated. -/
theorem replay_loses_epoch_key :
    (∃ σ, History 1 σ [] ∧ RegularLake σ.lake ∧ (∃ τ, (Checked.truncateAndReload 1 σ.lake.days).Ends σ () τ) ∧
      ¬ Replayable 1 σ) ∧
    ∃ σ, History 1 σ [] ∧ RegularLake σ.lake ∧ σ.lake.days ≠ [] ∧
      ∀ τ, ¬ (Checked.truncateAndReload 1 σ.lake.days).Ends σ () τ := by
  have hepoch : RegularLake (sampleReplay sampleEpochRun).lake := ⟨by decide, by decide, by decide⟩
  have hhuge : RegularLake (sampleReplay sampleHugeRun).lake := ⟨by decide, by decide, by decide⟩
  constructor
  · have hdays : ∀ d ∈ (sampleReplay sampleEpochRun).lake.days, dayPartitions d = true := by decide
    have hback := projectsLake_replayed hepoch (sampleReplay sampleEpochRun).serving hdays
    have hfits : (sampleReplay sampleEpochRun).lake.MoneyFits 1 := ⟨by decide, by decide⟩
    have hends := Checked.ends_truncateAndReload (u := ()).mpr ⟨by decide, hdays,
      Checked.refreshFits_of_fits (hback.moneyFits_iff.mpr hfits), rfl⟩
    refine ⟨_, sampleReplay_history 1 (by decide), hepoch, ⟨_, hends⟩, fun hr => ?_⟩
    have hstamps := ((rebuilt_replayed_iff hepoch _ hdays).mp (hr.rollup _ hends)).2
    exact absurd hstamps (by decide)
  · refine ⟨_, sampleReplay_history 1 (by decide), hhuge, by decide, fun τ hτ => ?_⟩
    have hspend := (Checked.ends_truncateAndReload.mp hτ).2.2.1.spends
    exact absurd hspend (by decide)

end sample
end CtvAttribution
