import CtvAttribution.ServingProjection

/-! The bookkeeping over any order of day loads. While loads come and go and the lake only
gains exposures and credits, recorded stamps stay stamps of served rows. -/
namespace CtvAttribution
open Library Script

/-- A row that credits a conversion whose current row is unattributed, at a later version. -/
def GainsCredit (log : List AttributedConversion) (r : AttributedConversion) : Prop :=
  r.path = .reconciled ∧ r.attributed = true ∧
    ∃ c, currentRow log r.conversionId = some c ∧ c.attributed = false ∧ c.processedAt < (landedRow r).processedAt

/-- Loads of single days in any order over any lake, which gains exposures and credits in
between; several rows appended at once are gained one after the other. -/
inductive DayLoadRun : System → Prop where
  | start (lake : Lake) : DayLoadRun ⟨lake, Serving.empty⟩
  | gainExposures {σ : System} (exposures : List Exposure) : DayLoadRun σ →
      DayLoadRun { σ with lake := σ.lake.land exposures }
  | gainCredit {σ : System} {r : AttributedConversion} : DayLoadRun σ → GainsCredit σ.lake.attributed r →
      DayLoadRun { σ with lake := σ.lake.landAttributed [r] }
  | loadExposures {σ σ' : System} {day : Int} : DayLoadRun σ →
      (onServing (loadExposuresDay σ.lake.exposures day)).Ends σ () σ' → DayLoadRun σ'
  | loadAttributed {σ σ' : System} {day : Int} : DayLoadRun σ →
      (onServing (loadAttributedDay σ.lake.attributed day)).Ends σ () σ' → DayLoadRun σ'

/-- The stamps a full rebuild would give its rows. -/
def RollupRow.stamp (row : RollupRow) : RollupStamp := ⟨row.campaignId, row.hour, row.reportedAt⟩

/-- A row that is current, or an unattributed one a later version superseded. -/
def Standing (log : List AttributedConversion) (x : AttributedConversion) : Prop :=
  ∃ c, currentRow log x.conversionId = some c ∧ (x = c ∨ x.attributed = false ∧ x.processedAt < c.processedAt)

/-- Served rows that stand in the lake, and bookkeeping of exactly the served rows. -/
structure Tracked (lake : Lake) (s : Serving) : Prop where
  exposures : ∀ e ∈ s.exposuresLanded, e ∈ lake.exposures
  rows : ∀ x ∈ s.attributedConversions, Standing lake.attributed x
  dirty : ∀ d ∈ s.rollupDirty, ∃ c ∈ contributions s.exposuresFinal s.attributedFinal,
    c.key = d.key ∧ c.stamp = d.version
  recorded : RecordedOn s (fun _ => True) fun _ => True

section tracked
variable {lake : Lake} {s t : Serving} {day : Int}

private theorem tracked_start (lake : Lake) : Tracked lake Serving.empty :=
  have hnone {α : Type} {x : α} {p : Prop} (hx : x ∈ ([] : List α)) : p := absurd hx List.not_mem_nil
  ⟨fun _ => hnone, fun _ => hnone, fun _ => hnone, fun _ h => hnone h, fun _ h => hnone h⟩

/-- An attributed row that was served once stays served. -/
theorem mem_attributedFinal_of_credited {rows : List AttributedConversion}
    (h : ∀ x ∈ rows, Standing lake.attributed x) {r : AttributedConversion} (hr : r ∈ rows) (hatt : r.attributed = true) :
    r ∈ finalRows (fun r : AttributedConversion => r.conversionId) (fun r => r.processedAt) rows := by
  obtain ⟨c, hc, hrc⟩ := h r hr
  have hcur : r = c := by
    rcases hrc with he | ⟨hno, _⟩
    · exact he
    · rw [hatt] at hno
      cases hno
  subst hcur
  rw [mem_finalRows]
  obtain ⟨f, hf⟩ := exists_finalRow (fun r : AttributedConversion => r.conversionId) (fun r => r.processedAt) hr
  obtain ⟨hmem, hid, hmax⟩ := finalRow_eq_some hf
  obtain ⟨d, hd, hfd⟩ := h f hmem
  rw [hid, hc] at hd
  cases hd
  rcases hfd with rfl | ⟨_, hlt⟩
  · exact hf
  · have hle : r.processedAt ≤ f.processedAt := hmax r hr rfl
    omega

/-- What a load adds, it adds to the contributions. -/
theorem Tracked.contributions_mono (h : Tracked lake s) (hk : Keyed Exposure.exposureId lake.exposures)
    (he : ∀ e ∈ s.exposuresLanded, e ∈ t.exposuresLanded) (het : ∀ e ∈ t.exposuresLanded, e ∈ lake.exposures)
    (hr : ∀ r ∈ s.attributedConversions, r ∈ t.attributedConversions)
    (hrt : ∀ x ∈ t.attributedConversions, Standing lake.attributed x) {c : Contribution} (hc : c ∈ contributions s.exposuresFinal s.attributedFinal) :
    c ∈ contributions t.exposuresFinal t.attributedFinal := by
  have hexposures {e : Exposure} (hmem : e ∈ s.exposuresFinal) : e ∈ t.exposuresFinal := by
    rw [t.mem_exposuresFinal_of_keyed hk het]
    exact he e ((s.mem_exposuresFinal_of_keyed hk h.exposures).mp hmem)
  rcases mem_contributions.mp hc with ⟨e, hmem, rfl⟩ | ⟨x, hx, rfl⟩
  · exact mem_contributions.mpr (.inl ⟨e, hexposures hmem, rfl⟩)
  · obtain ⟨ha, hatt, hmem, hid⟩ := mem_credits.mp hx
    have hlog := (finalRow_eq_some (mem_finalRows.mp ha)).1
    have hserved : x.1 ∈ t.attributedFinal := mem_attributedFinal_of_credited hrt (hr _ hlog) hatt
    exact mem_contributions.mpr (.inr ⟨x, mem_credits.mpr ⟨hserved, hatt, hexposures hmem, hid⟩, rfl⟩)

/-- The rows of a load stand. -/
theorem standing_of_mem_readCurrent {log : List AttributedConversion} (hlog : SameDay log) {x : AttributedConversion}
    (hx : x ∈ readCurrent log (some [day])) : Standing log x :=
  ⟨x, ((mem_readCurrent_days hlog).mp hx).1, .inl rfl⟩

theorem Tracked.afterExposuresDay (h : Tracked lake s) (hk : Keyed Exposure.exposureId lake.exposures) (day : Int) :
    Tracked lake (s.afterExposuresDay lake.exposures day) := by
  have hexposures : ∀ e ∈ (s.afterExposuresDay lake.exposures day).exposuresLanded, e ∈ lake.exposures := by
    intro e he
    rcases List.mem_append.mp he with he | he
    · exact h.exposures e he
    · exact (mem_of_mem_readExposuresForDays he).1
  refine ⟨hexposures, h.rows, fun d hd => ?_, (h.recorded.afterExposuresDay _).mono (fun _ _ => .inl trivial)
    fun _ hrow => hrow⟩
  rcases List.mem_append.mp hd with hd | hd
  · rcases List.mem_append.mp hd with hd | hd
    · obtain ⟨c, hc, he⟩ := h.dirty d hd
      exact ⟨c, h.contributions_mono hk (fun _ he => List.mem_append_left _ he) hexposures (fun _ hr => hr) h.rows hc, he⟩
    · obtain ⟨e, he, rfl⟩ := List.mem_map.mp (current_eq_some (mem_collapse.mp hd)).1
      exact ⟨_, mem_contributions.mpr (.inl ⟨e, (List.mem_filter.mp he).1, rfl⟩), rfl, rfl⟩
  · obtain ⟨x, hx, rfl⟩ := List.mem_map.mp (current_eq_some (mem_collapse.mp hd)).1
    obtain ⟨ha, hatt, he, hid⟩ := mem_credits.mp hx
    exact ⟨_, mem_contributions.mpr (.inr ⟨x, mem_credits.mpr ⟨ha, hatt, (List.mem_filter.mp he).1, hid⟩, rfl⟩),
      rfl, rfl⟩

theorem Tracked.afterAttributedDay (h : Tracked lake s) (hk : Keyed Exposure.exposureId lake.exposures)
    (hlake : SameDay lake.attributed) (day : Int) : Tracked lake (s.afterAttributedDay lake.attributed day) := by
  have hrows : ∀ x ∈ (s.afterAttributedDay lake.attributed day).attributedConversions,
      Standing lake.attributed x := by
    intro x hx
    rcases List.mem_append.mp hx with hx | hx
    · exact h.rows x hx
    · exact standing_of_mem_readCurrent hlake hx
  refine ⟨h.exposures, hrows, fun d hd => ?_, (h.recorded.afterAttributedDay _).mono (fun _ he => he)
    fun _ _ => .inl trivial⟩
  rcases List.mem_append.mp hd with hd | hd
  · obtain ⟨c, hc, he⟩ := h.dirty d hd
    have hmono := h.contributions_mono (t := s.afterAttributedDay lake.attributed day) hk (fun _ he => he)
      h.exposures (fun _ hr => List.mem_append_left _ hr) hrows hc
    exact ⟨c, hmono, he⟩
  · obtain ⟨x, hx, rfl⟩ := List.mem_map.mp (current_eq_some (mem_collapse.mp hd)).1
    exact ⟨_, mem_contributions.mpr (.inr ⟨x, (List.mem_filter.mp hx).1, rfl⟩), rfl, rfl⟩

/-- A gained credit supersedes an unattributed row only. -/
theorem Standing.gainCredit {log : List AttributedConversion} {r x : AttributedConversion} (h : Standing log x)
    (hr : GainsCredit log r) : Standing (log ++ [landedRow r]) x := by
  obtain ⟨c, hc, hxc⟩ := h
  by_cases hid : r.conversionId = x.conversionId
  · obtain ⟨_, _, c', hc', hno, hlt⟩ := hr
    rw [hid, hc] at hc'
    cases hc'
    refine ⟨landedRow r, ?_, .inr ?_⟩
    · have hnew : currentRow [landedRow r] x.conversionId = some (landedRow r) := by
        rw [← hid]
        exact currentRow_of_unique (List.mem_singleton_self _) fun y hy _ => List.mem_singleton.mp hy
      rw [currentRow_append, hc, hnew]
      exact if_pos (Prod.Lex.toLex_lt_toLex.mpr (.inl hlt))
    · rcases hxc with rfl | ⟨hxno, hxlt⟩
      · exact ⟨hno, hlt⟩
      · exact ⟨hxno, hxlt.trans hlt⟩
  · refine ⟨c, ?_, hxc⟩
    rw [currentRow_append_of_not_mem, hc]
    intro y hy
    rw [List.mem_singleton.mp hy]
    exact hid

end tracked

section run
variable {σ : System}

theorem DayLoadRun.afterExposures (h : DayLoadRun σ) (day : Int) :
    DayLoadRun { σ with serving := σ.serving.afterExposuresDay σ.lake.exposures day } :=
  h.loadExposures (ends_onServing.mpr ⟨_, ends_loadExposuresDay.mpr rfl, rfl⟩)

theorem DayLoadRun.afterAttributed (h : DayLoadRun σ) (day : Int) :
    DayLoadRun { σ with serving := σ.serving.afterAttributedDay σ.lake.attributed day } :=
  h.loadAttributed (ends_onServing.mpr ⟨_, ends_loadAttributedDay.mpr rfl, rfl⟩)

private theorem DayLoadRun.tracked (h : DayLoadRun σ) (hk : Keyed Exposure.exposureId σ.lake.exposures)
    (hlake : SameDay σ.lake.attributed) : Tracked σ.lake σ.serving := by
  induction h with
  | start lake => exact tracked_start lake
  | gainExposures es _ ih =>
    have hold := ih (hk.mono fun _ he => List.mem_append_left _ he) hlake
    exact ⟨fun e he => List.mem_append_left _ (hold.exposures e he), hold.rows, hold.dirty, hold.recorded⟩
  | gainCredit _ hr ih =>
    have hold := ih hk fun r hr s hs => hlake r (List.mem_append_left _ hr) s (List.mem_append_left _ hs)
    exact ⟨hold.exposures, fun x hx => (hold.rows x hx).gainCredit hr, hold.dirty, hold.recorded⟩
  | loadExposures _ hl ih =>
    obtain ⟨s, hs, rfl⟩ := ends_onServing.mp hl
    rw [ends_loadExposuresDay] at hs
    subst hs
    exact (ih hk hlake).afterExposuresDay hk _
  | loadAttributed _ hl ih =>
    obtain ⟨s, hs, rfl⟩ := ends_onServing.mp hl
    rw [ends_loadAttributedDay] at hs
    subst hs
    exact (ih hk hlake).afterAttributedDay hk hlake _

/-- A key is recorded exactly when a full rebuild has a row for it, at the row's stamp. -/
theorem Tracked.dirtyStamp {lake : Lake} {s : Serving} (h : Tracked lake s) (k : RollupKey) :
    s.dirtyStamp k = (s.rebuiltRollup k).map RollupRow.stamp := by
  cases hrow : s.rebuiltRollup k with
  | none =>
    rw [Option.map_none, Serving.dirtyStamp, finalRow_eq_none]
    intro d hd hk
    obtain ⟨c, hc, hck, _⟩ := h.dirty d hd
    have hne : keyGroup s.exposuresFinal s.attributedFinal k ≠ [] :=
      List.ne_nil_of_mem (mem_keyGroup.mpr ⟨hc, hck.trans hk⟩)
    rw [Serving.rebuiltRollup, rebuiltRow, if_neg hne] at hrow
    cases hrow
  | some row =>
    obtain ⟨hat, hne⟩ := Serving.reportedAt_of_rebuilt hrow
    obtain ⟨c, hc, hck, hcs⟩ := Serving.exists_latestStamp hne
    obtain ⟨d, hd, hle⟩ := Serving.recordedIn_iff.mp (recordedOn_all.mp h.recorded c hc)
    rw [hck] at hd
    obtain ⟨hmem, hdk, _⟩ := finalRow_eq_some hd
    obtain ⟨x, hx, hxk, hxv⟩ := h.dirty d hmem
    have hmax : x.stamp ≤ s.latestStamp k := le_maxOf (List.mem_map_of_mem (mem_keyGroup.mpr ⟨hx, hxk.trans hdk⟩))
    have hversion : d.version = row.reportedAt := by
      rw [hat]
      exact le_antisymm (hxv ▸ hmax) (hcs ▸ hle)
    have hkey : d.key = row.key := hdk.trans (rebuiltRow_key hrow).symm
    obtain ⟨hcampaign, hhour⟩ := Prod.mk.inj hkey
    rw [hd, Option.map_some, Option.some.injEq]
    cases d
    rw [RollupRow.stamp, RollupStamp.mk.injEq]
    exact ⟨hcampaign, hhour, hversion⟩

/-- In any order of day loads the bookkeeping is the full rebuild's keys and stamps. -/
theorem dirty_exact (h : DayLoadRun σ) (hk : Keyed Exposure.exposureId σ.lake.exposures)
    (hlake : SameDay σ.lake.attributed) : σ.serving.rollupDirtyFinal.Perm
      ((refreshRows none σ.serving.exposuresFinal σ.serving.attributedFinal).map RollupRow.stamp) := by
  have htracked := h.tracked hk hlake
  have hnodup : ((refreshRows none σ.serving.exposuresFinal σ.serving.attributedFinal).map RollupRow.stamp).Nodup := by
    apply List.Nodup.of_map RollupStamp.key
    rw [List.map_map]
    exact nodup_key_aggregate _
  have hfinal : σ.serving.rollupDirtyFinal.Nodup := .of_map RollupStamp.key (nodup_key_finalRows _)
  rw [List.perm_ext_iff_of_nodup hfinal hnodup]
  intro d
  have hmem : d ∈ σ.serving.rollupDirtyFinal ↔ σ.serving.dirtyStamp d.key = some d := mem_finalRows
  rw [hmem, htracked.dirtyStamp, Option.map_eq_some_iff, List.mem_map]
  constructor
  · intro h
    obtain ⟨row, hrow, he⟩ := h
    have hkey := rebuiltRow_key hrow
    exact ⟨row, mem_refreshRows_none.mpr (hkey.symm ▸ hrow), he⟩
  · intro h
    obtain ⟨row, hrow, rfl⟩ := h
    exact ⟨row, mem_refreshRows_none.mp hrow, rfl⟩

end run

end CtvAttribution
