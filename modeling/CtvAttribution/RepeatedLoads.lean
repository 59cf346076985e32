import CtvAttribution.RollupFreshness

/-! Loads of one lake repeated from any cut point. What a stopped load leaves is part of
what a clean load writes, so a complete load on top of it ends in the same tables. -/
namespace CtvAttribution
open Library Script

/-- The tables after one clean load of every day. -/
def Lake.loaded (lake : Lake) : Serving := Serving.empty.afterDays lake lake.days

/-- Tables that repeated loads of a lake left: rows the lake reads, stamps of the clean
load, and rollup rows of its rebuild. -/
structure Repeating (lake : Lake) (s : Serving) : Prop where
  exposures : ∀ e ∈ s.exposuresLanded, e ∈ lake.exposures
  rows : ∀ r ∈ s.attributedConversions, r ∈ readCurrent lake.attributed none
  dirty : ∀ d ∈ s.rollupDirty, ∃ c ∈ contributions lake.loaded.exposuresFinal lake.loaded.attributedFinal,
    c.key = d.key ∧ c.stamp = d.version
  hourly : ∀ row ∈ s.campaignHourly,
    lake.loaded.rebuiltRollup row.key = some row ∧ lake.loaded.latestStamp row.key ≠ 0
  refreshed : ∀ d ∈ s.rollupRefreshed,
    d.version = lake.loaded.latestStamp d.key ∧ ∃ row ∈ s.campaignHourly, row.key = d.key

section loaded
variable {lake : Lake} {s : Serving}

theorem sortedSet_days (lake : Lake) : sortedSet lake.days = lake.days :=
  sortedSet_of_strict (sortedSet_strict _)

theorem mem_exposuresLanded_loaded {e : Exposure} : e ∈ lake.loaded.exposuresLanded ↔ e ∈ lake.exposures := by
  have h : lake.loaded.exposuresLanded = loadedExposures lake lake.days := by
    rw [Lake.loaded, exposuresLanded_afterDays, loadedExposures, sortedSet_days]
    rfl
  rw [h, mem_loadedExposures, and_iff_left_iff_imp]
  intro he
  exact mem_sortedSet.mpr (List.mem_append_left _ (List.mem_map_of_mem he))

/-- A complete load leaves each sort key as a clean one does. -/
theorem servedExposure_afterDays (h : ∀ e ∈ s.exposuresLanded, e ∈ lake.exposures)
    (k : String ×ₗ Int ×ₗ String) :
    (s.afterDays lake lake.days).servedExposure k = lake.loaded.servedExposure k := by
  have hnew : lake.loaded.exposuresLanded =
      lake.days.flatMap fun d => readExposuresForDays lake.exposures [d] := by
    rw [Lake.loaded, exposuresLanded_afterDays]
    rfl
  rw [Serving.servedExposure, Serving.servedExposure, exposuresLanded_afterDays, ← hnew]
  apply finalRow_append_of_subset
  intro e he
  exact mem_exposuresLanded_loaded.mpr (h e he)

private theorem mem_exposuresFinal_loaded {e : Exposure} (he : e ∈ lake.exposures) :
    ∃ f ∈ lake.loaded.exposuresFinal, exposureKey f = exposureKey e := by
  obtain ⟨f, hf⟩ := exists_finalRow exposureKey (fun _ => ()) (mem_exposuresLanded_loaded.mpr he)
  have hk : exposureKey f = exposureKey e := (finalRow_eq_some hf).2.1
  exact ⟨f, Serving.mem_exposuresFinal.mpr (hk ▸ hf), hk⟩

/-- A day's exposures are served as after a clean load once the day was inserted whole. -/
theorem mem_loaded_of_day (h : ∀ e ∈ s.exposuresLanded, e ∈ lake.exposures) {e : Exposure} {day : Int}
    (he : e ∈ (s.withExposures lake.exposures day).exposuresFinal) (hd : dayOf e.eventTime = day) :
    e ∈ lake.loaded.exposuresFinal := by
  have hmem : e ∈ lake.exposures := by
    rcases List.mem_append.mp (finalRow_eq_some (Serving.mem_exposuresFinal.mp he)).1 with hm | hm
    · exact h e hm
    · exact (mem_of_mem_readExposuresForDays hm).1
  have hread : e ∈ readExposuresForDays lake.exposures [day] := by
    rw [readExposuresForDays, mem_sortedBy, mem_firstSeen, List.mem_filter, dayRangesPredicate_iff]
    exact ⟨hmem, List.mem_singleton.mpr hd⟩
  have hday : finalRow exposureKey (fun _ => ()) (readExposuresForDays lake.exposures [day]) (exposureKey e) =
      some e :=
    (finalRow_append_of_mem ⟨e, hread, rfl⟩).symm.trans (Serving.mem_exposuresFinal.mp he)
  have hin : day ∈ lake.days :=
    mem_sortedSet.mpr (List.mem_append_left _ (List.mem_map.mpr ⟨e, hmem, hd⟩))
  have hlanded : lake.loaded.exposuresLanded =
      lake.days.flatMap fun d => readExposuresForDays lake.exposures [d] := by
    rw [Lake.loaded, exposuresLanded_afterDays]
    rfl
  obtain ⟨before, after, hsplit⟩ := List.append_of_mem hin
  have hnodup : lake.days.Nodup := (sortedSet_strict _).imp fun h => ne_of_lt h
  rw [hsplit] at hlanded hnodup
  have hlater : ∀ x ∈ after.flatMap fun d => readExposuresForDays lake.exposures [d],
      exposureKey x ≠ exposureKey e := by
    intro x hx hk
    obtain ⟨d, hda, hxd⟩ := List.mem_flatMap.mp hx
    have htime : x.eventTime = e.eventTime := congrArg (fun k => (ofLex (ofLex k).2).1) hk
    have hxday := List.mem_singleton.mp (mem_of_mem_readExposuresForDays hxd).2
    rw [htime, hd] at hxday
    subst hxday
    exact (List.nodup_cons.mp (List.nodup_append.mp hnodup).2.1).1 hda
  rw [Serving.mem_exposuresFinal, Serving.servedExposure, hlanded, List.flatMap_append, List.flatMap_cons,
    ← List.append_assoc, finalRow_append_of_not_mem hlater, finalRow_append_of_mem ⟨e, hread, rfl⟩]
  exact hday

/-- Served credits of a repeated load are those of the clean load, up to the record of the
exposure; the record's key is what a stamp takes from it. -/
theorem Repeating.mem_attributedFinal (h : Repeating lake s) (hlake : SameDay lake.attributed)
    {r : AttributedConversion} (hr : r ∈ s.attributedFinal) : r ∈ lake.loaded.attributedFinal := by
  have hcur := h.rows r (Serving.servedRow_eq_some (Serving.mem_attributedFinal.mp hr)).1
  have hrows : lake.loaded.attributedConversions = loadedRows lake lake.days := by
    rw [Lake.loaded, attributedConversions_afterDays, loadedRows, sortedSet_days]
    rfl
  have hmem : r ∈ lake.loaded.attributedConversions := by
    rw [hrows, mem_loadedRows hlake]
    exact ⟨mem_readCurrent.mp hcur,
      mem_sortedSet.mpr (List.mem_append_right _ (List.mem_map_of_mem (mem_of_mem_readCurrent hcur)))⟩
  rw [Serving.mem_attributedFinal, Serving.servedRow]
  apply finalRow_of_unique hmem
  intro x hx he
  rw [hrows, mem_loadedRows hlake] at hx
  have hxcur := hx.1
  rw [he, mem_readCurrent.mp hcur] at hxcur
  exact (Option.some.inj hxcur).symm

theorem Repeating.insertDirty (h : Repeating lake s) {stamps : List RollupStamp}
    (hstamps : ∀ d ∈ stamps, ∃ c ∈ contributions lake.loaded.exposuresFinal lake.loaded.attributedFinal,
      c.key = d.key ∧ c.stamp = d.version) : Repeating lake (s.insertDirty stamps) where
  exposures := h.exposures
  rows := h.rows
  dirty d hd := by
    rcases List.mem_append.mp hd with hd | hd
    · exact h.dirty d hd
    · exact hstamps d (current_eq_some (mem_collapse.mp hd)).1
  hourly := h.hourly
  refreshed := h.refreshed

/-- The stamps of a day's exposures, once inserted whole, are the clean load's. -/
theorem Repeating.dirtyFromExposures (h : Repeating lake s) {day : Int} {d : RollupStamp}
    (hd : d ∈ (s.withExposures lake.exposures day).dirtyFromExposures day) :
    ∃ c ∈ contributions lake.loaded.exposuresFinal lake.loaded.attributedFinal,
      c.key = d.key ∧ c.stamp = d.version := by
  obtain ⟨e, he, rfl⟩ := List.mem_map.mp hd
  obtain ⟨he, hday⟩ := List.mem_filter.mp he
  have hmem := mem_loaded_of_day h.exposures he (of_decide_eq_true hday)
  exact ⟨_, mem_contributions.mpr (.inl ⟨e, hmem, rfl⟩), rfl, rfl⟩

theorem Repeating.dirtyFromExposureCredits (h : Repeating lake s) (hlake : SameDay lake.attributed) {day : Int}
    {d : RollupStamp} (hd : d ∈ (s.withExposures lake.exposures day).dirtyFromExposureCredits day) :
    ∃ c ∈ contributions lake.loaded.exposuresFinal lake.loaded.attributedFinal,
      c.key = d.key ∧ c.stamp = d.version := by
  obtain ⟨x, hx, rfl⟩ := List.mem_map.mp hd
  obtain ⟨ha, hatt, he, hid⟩ := mem_credits.mp hx
  obtain ⟨he, hday⟩ := List.mem_filter.mp he
  have hmem := mem_loaded_of_day h.exposures he (of_decide_eq_true hday)
  exact ⟨_, mem_contributions.mpr
    (.inr ⟨x, mem_credits.mpr ⟨h.mem_attributedFinal hlake ha, hatt, hmem, hid⟩, rfl⟩), rfl, rfl⟩

/-- The stamps of a day's rows name the exposure by what its sort key holds. -/
theorem Repeating.dirtyFromAttributed (h : Repeating lake s) (hlake : SameDay lake.attributed) {day : Int}
    {d : RollupStamp} (hd : d ∈ s.dirtyFromAttributed day) :
    ∃ c ∈ contributions lake.loaded.exposuresFinal lake.loaded.attributedFinal,
      c.key = d.key ∧ c.stamp = d.version := by
  obtain ⟨⟨a, e⟩, hx, rfl⟩ := List.mem_map.mp hd
  obtain ⟨ha, hatt, he, hid⟩ := mem_credits.mp (List.mem_filter.mp hx).1
  obtain ⟨f, hf, hk⟩ := mem_exposuresFinal_loaded
    (h.exposures e (finalRow_eq_some (Serving.mem_exposuresFinal.mp he)).1)
  have hfid : f.exposureId = e.exposureId := congrArg (fun k => (ofLex (ofLex k).2).2) hk
  have hcredit : (a, f) ∈ credits lake.loaded.exposuresFinal lake.loaded.attributedFinal :=
    mem_credits.mpr ⟨h.mem_attributedFinal hlake ha, hatt, hf, hid.trans (congrArg some hfid.symm)⟩
  exact ⟨_, mem_contributions.mpr (.inr ⟨_, hcredit, rfl⟩), Serving.rollupKey_of_exposureKey hk, rfl⟩

end loaded

section stopped
variable {lake : Lake} {s t : Serving} {day : Int}

theorem repeating_empty (lake : Lake) : Repeating lake Serving.empty :=
  have hnone {α : Type} {x : α} {p : Prop} (hx : x ∈ ([] : List α)) : p := absurd hx List.not_mem_nil
  ⟨fun _ => hnone, fun _ => hnone, fun _ => hnone, fun _ => hnone, fun _ => hnone⟩

private theorem keeps_repeating_insertExposures {chunk : List Exposure} (h : ∀ e ∈ chunk, e ∈ lake.exposures) :
    (insertExposures chunk).Keeps (Repeating lake) := by
  apply keeps_forEach
  intro part hpart
  apply keeps_modify
  intro s hs
  refine ⟨fun e he => ?_, hs.rows, hs.dirty, hs.hourly, hs.refreshed⟩
  rcases List.mem_append.mp he with he | he
  · exact hs.exposures e he
  · exact h e (mem_of_mem_batched (by decide) hpart he)

private theorem keeps_repeating_insertAttributed {chunk : List AttributedConversion}
    (h : ∀ r ∈ chunk, r ∈ readCurrent lake.attributed none) :
    (insertAttributed chunk).Keeps (Repeating lake) := by
  apply keeps_forEach
  intro part hpart
  apply keeps_modify
  intro s hs
  refine ⟨hs.exposures, fun r hr => ?_, hs.dirty, hs.hourly, hs.refreshed⟩
  rcases List.mem_append.mp hr with hr | hr
  · exact hs.rows r hr
  · exact h r (mem_of_mem_batched (by decide) hpart hr)

theorem keeps_repeating_loadExposuresDay (hlake : SameDay lake.attributed) (day : Int) :
    (loadExposuresDay lake.exposures day).Keeps (Repeating lake) := by
  have hinsert : (insertExposures (readExposuresForDays lake.exposures [day])).Keeps (Repeating lake) :=
    keeps_repeating_insertExposures fun e he => (mem_of_mem_readExposuresForDays he).1
  intro s t hs h
  rcases leaves_bind' h with h₁ | ⟨_, m, hm, h₁⟩
  · exact hinsert s t hs h₁
  have hwhole := hinsert s m hs hm.leaves
  obtain rfl : m = s.withExposures lake.exposures day := ends_insertExposures.mp hm
  have hfirst : Repeating lake ((s.withExposures lake.exposures day).insertDirty
      ((s.withExposures lake.exposures day).dirtyFromExposures day)) :=
    hwhole.insertDirty fun d hd => hs.dirtyFromExposures hd
  rcases leaves_bind' h₁ with h₂ | ⟨_, m, hm, h₂⟩
  · rcases leaves_modify.mp h₂ with rfl | rfl
    · exact hwhole
    · exact hfirst
  · rw [ends_modify.mp hm] at h₂
    rcases leaves_modify.mp h₂ with rfl | rfl
    · exact hfirst
    · exact hfirst.insertDirty fun d hd => hs.dirtyFromExposureCredits hlake hd

theorem keeps_repeating_loadAttributedDay (hlake : SameDay lake.attributed) (day : Int) :
    (loadAttributedDay lake.attributed day).Keeps (Repeating lake) := by
  refine keeps_bind' (keeps_repeating_insertAttributed fun r hr => ?_) fun _ => ?_
  · exact mem_readCurrent.mpr ((mem_readCurrent_days hlake).mp hr).1
  · apply keeps_modify
    intro s hs
    exact hs.insertDirty fun d hd => hs.dirtyFromAttributed hlake hd

theorem Repeating.afterDays (hs : Repeating lake s) (hlake : SameDay lake.attributed) (days : List Int) :
    Repeating lake (s.afterDays lake days) := by
  induction days generalizing s with
  | nil => exact hs
  | cons day days ih =>
    have he : (loadExposuresDay lake.exposures day).Ends s () (s.afterExposuresDay lake.exposures day) :=
      ends_loadExposuresDay.mpr rfl
    have ha : (loadAttributedDay lake.attributed day).Ends (s.afterExposuresDay lake.exposures day) ()
        (s.afterDay lake day) := ends_loadAttributedDay.mpr rfl
    exact ih (keeps_repeating_loadAttributedDay hlake day _ _
      (keeps_repeating_loadExposuresDay hlake day _ _ hs he.leaves) ha.leaves)

end stopped

/-- Tables whose landed rows are the clean load's, every stamp recorded. -/
structure Complete (lake : Lake) (s : Serving) : Prop where
  exposures : s.exposuresFinal.Perm lake.loaded.exposuresFinal
  rows : s.attributedFinal.Perm lake.loaded.attributedFinal
  recorded : ∀ c ∈ contributions s.exposuresFinal s.attributedFinal, RecordedIn s.rollupDirty c.key c.stamp

section complete
variable {lake : Lake} {s : Serving} {k : RollupKey}

private theorem recordedOn_afterDays {exposureDay rowDay : Int → Prop} (h : RecordedOn s exposureDay rowDay)
    (days : List Int) : RecordedOn (s.afterDays lake days) (fun d => exposureDay d ∨ d ∈ days)
      fun d => rowDay d ∨ d ∈ days := by
  induction days generalizing s exposureDay rowDay with
  | nil => exact h.mono (fun _ hd => hd.resolve_right List.not_mem_nil) fun _ hd => hd.resolve_right List.not_mem_nil
  | cons day days ih =>
    have hday : RecordedOn (s.afterDay lake day) (fun d => exposureDay d ∨ d = day) fun d => rowDay d ∨ d = day :=
      (h.afterExposuresDay _).afterAttributedDay _
    refine (ih hday).mono (fun d hd => ?_) fun d hd => ?_ <;>
      · rw [List.mem_cons, ← or_assoc] at hd
        exact hd

/-- A complete load on top of stopped ones completes the tables. -/
theorem Repeating.complete (h : Repeating lake s) (hlake : SameDay lake.attributed) :
    Complete lake (s.afterDays lake lake.days) where
  exposures := by
    rw [List.perm_ext_iff_of_nodup (Serving.nodup_exposuresFinal _) (Serving.nodup_exposuresFinal _)]
    intro e
    rw [Serving.mem_exposuresFinal, Serving.mem_exposuresFinal, servedExposure_afterDays h.exposures]
  rows := by
    rw [List.perm_ext_iff_of_nodup (Serving.nodup_attributedFinal _) (Serving.nodup_attributedFinal _)]
    intro r
    have ht := h.afterDays hlake lake.days
    refine ⟨ht.mem_attributedFinal hlake, fun hr => ?_⟩
    have hloaded : (s.afterDays lake lake.days).attributedConversions =
        s.attributedConversions ++ lake.loaded.attributedConversions := by
      rw [Lake.loaded, attributedConversions_afterDays, attributedConversions_afterDays]
      rfl
    have hmem := (Serving.servedRow_eq_some (Serving.mem_attributedFinal.mp hr)).1
    have hcur := ht.rows r (hloaded ▸ List.mem_append_right _ hmem)
    rw [Serving.mem_attributedFinal]
    apply finalRow_of_unique (hloaded ▸ List.mem_append_right _ hmem)
    intro x hx he
    have hxcur := mem_readCurrent.mp (ht.rows x hx)
    rw [he, mem_readCurrent.mp hcur] at hxcur
    exact (Option.some.inj hxcur).symm
  recorded := by
    have ht := h.afterDays hlake lake.days
    have hnone : RecordedOn s (fun _ => False) fun _ => False := ⟨fun _ _ => nofun, fun _ _ => nofun⟩
    have hall : RecordedOn (s.afterDays lake lake.days) _ _ := recordedOn_afterDays hnone lake.days
    have hexposure {e : Exposure} (he : e ∈ (s.afterDays lake lake.days).exposuresFinal) :
        dayOf e.eventTime ∈ lake.days :=
      mem_sortedSet.mpr (List.mem_append_left _ (List.mem_map_of_mem
        (ht.exposures e (finalRow_eq_some (Serving.mem_exposuresFinal.mp he)).1)))
    have hrow {r : AttributedConversion} (hr : r ∈ (s.afterDays lake lake.days).attributedFinal) :
        dayOf r.eventTime ∈ lake.days :=
      mem_sortedSet.mpr (List.mem_append_right _ (List.mem_map_of_mem (mem_of_mem_readCurrent
        (ht.rows r (Serving.servedRow_eq_some (Serving.mem_attributedFinal.mp hr)).1))))
    intro c hc
    rcases mem_contributions.mp hc with ⟨e, he, rfl⟩ | ⟨x, hx, rfl⟩
    · exact hall.exposures e he (.inr (hexposure he))
    · obtain ⟨ha, _, he, _⟩ := mem_credits.mp hx
      exact hall.credited x hx (.inr (hexposure he)) (.inr (hrow ha))

theorem Complete.rebuiltRollup (h : Complete lake s) (k : RollupKey) :
    s.rebuiltRollup k = lake.loaded.rebuiltRollup k := rebuiltRow_perm h.exposures h.rows k

private theorem Complete.mem_contributions_iff (h : Complete lake s) {c : Contribution} :
    c ∈ contributions s.exposuresFinal s.attributedFinal ↔
      c ∈ contributions lake.loaded.exposuresFinal lake.loaded.attributedFinal :=
  (contributions_perm h.exposures h.rows).mem_iff

/-- A key with rows is recorded at the clean load's latest stamp. -/
theorem Complete.dirtyStamp (h : Complete lake s) (hs : Repeating lake s)
    (hk : lake.loaded.rebuiltRollup k ≠ none) :
    ∃ d, s.dirtyStamp k = some d ∧ d.version = lake.loaded.latestStamp k := by
  have hne : keyGroup lake.loaded.exposuresFinal lake.loaded.attributedFinal k ≠ [] := by
    intro hnil
    exact hk (if_pos hnil)
  obtain ⟨c, hc, hck, hcs⟩ := Serving.exists_latestStamp hne
  obtain ⟨d, hd, hle⟩ := Serving.recordedIn_iff.mp (h.recorded c (h.mem_contributions_iff.mpr hc))
  rw [hck] at hd
  obtain ⟨hmem, hdk, _⟩ := finalRow_eq_some hd
  obtain ⟨x, hx, hxk, hxv⟩ := hs.dirty d hmem
  refine ⟨d, hd, le_antisymm ?_ (hcs ▸ hle)⟩
  rw [← hxv]
  exact le_maxOf (List.mem_map_of_mem (mem_keyGroup.mpr ⟨hx, hxk.trans hdk⟩))

theorem Repeating.refreshedVersion (hs : Repeating lake s) (k : RollupKey) :
    s.refreshedVersion k = 0 ∨
      s.refreshedVersion k = lake.loaded.latestStamp k ∧ ∃ row ∈ s.campaignHourly, row.key = k := by
  rw [Serving.refreshedVersion]
  cases hr : finalRow RollupStamp.key RollupStamp.version s.rollupRefreshed k with
  | none => exact Or.inl rfl
  | some d =>
    obtain ⟨hmem, hk, _⟩ := finalRow_eq_some hr
    obtain ⟨hv, row, hrow, hrk⟩ := hs.refreshed d hmem
    exact Or.inr ⟨by rw [← hk]; exact hv, row, hrow, hrk.trans hk⟩

/-- Over complete tables a key is dirty unless it was refreshed or its stamp is the epoch. -/
theorem Complete.of_dirty (h : Complete lake s) (hs : Repeating lake s) {d : RollupStamp} (hd : d ∈ s.dirtyKeys) :
    d.version = lake.loaded.latestStamp d.key ∧ lake.loaded.latestStamp d.key ≠ 0 ∧
      ∃ row, lake.loaded.rebuiltRollup d.key = some row := by
  obtain ⟨hstamp, hne⟩ := Serving.mem_dirtyKeys.mp hd
  obtain ⟨c, hc, hck, _⟩ := hs.dirty d (finalRow_eq_some hstamp).1
  have hgroup : keyGroup lake.loaded.exposuresFinal lake.loaded.attributedFinal d.key ≠ [] :=
    List.ne_nil_of_mem (mem_keyGroup.mpr ⟨hc, hck⟩)
  have hrow : lake.loaded.rebuiltRollup d.key = some _ := if_neg hgroup
  obtain ⟨x, hx, hv⟩ := h.dirtyStamp hs (Option.ne_none_iff_exists'.mpr ⟨_, hrow⟩)
  rw [hstamp] at hx
  cases hx
  refine ⟨hv, fun hzero => hne ?_, _, hrow⟩
  rcases hs.refreshedVersion d.key with hr | hr
  · rw [hr, hv, hzero]
  · rw [hr.1, hv]

/-- A refresh over complete tables writes rows of the clean rebuild, then their stamps. -/
theorem Complete.insertRefreshed (h : Complete lake s) (hs : Repeating lake s) :
    Repeating lake (s.insertRefreshed (s.dirtyKeys.map RollupStamp.key)) where
  exposures := hs.exposures
  rows := hs.rows
  dirty := hs.dirty
  hourly row hr := by
    rcases List.mem_append.mp hr with hr | hr
    · exact hs.hourly row hr
    · obtain ⟨hk, hrow⟩ := mem_refreshRows_some.mp hr
      obtain ⟨d, hd, hdk⟩ := List.mem_map.mp hk
      rw [← h.rebuiltRollup]
      exact ⟨hrow, hdk ▸ (h.of_dirty hs hd).2.1⟩
  refreshed d hd := by
    obtain ⟨hv, row, hrow, hk⟩ := hs.refreshed d hd
    exact ⟨hv, row, List.mem_append_left _ hrow, hk⟩

theorem Complete.stampRefreshed (h : Complete lake s) (hs : Repeating lake s) :
    Repeating lake ((s.insertRefreshed (s.dirtyKeys.map RollupStamp.key)).stampRefreshed s.dirtyKeys) where
  exposures := hs.exposures
  rows := hs.rows
  dirty := hs.dirty
  hourly := (h.insertRefreshed hs).hourly
  refreshed d hd := by
    rcases List.mem_append.mp hd with hd | hd
    · exact (h.insertRefreshed hs).refreshed d hd
    · obtain ⟨hv, _, row, hrow⟩ := h.of_dirty hs hd
      have hkey := rebuiltRow_key hrow
      rw [← h.rebuiltRollup, ← hkey] at hrow
      exact ⟨hv, row, List.mem_append_right _ (mem_refreshRows_some.mpr
        ⟨hkey ▸ List.mem_map_of_mem hd, hrow⟩), hkey⟩

theorem Complete.keeps_refresh (h : Complete lake s) (hs : Repeating lake s) {t : Serving}
    (ht : refreshCampaignHourly.Leaves s t) : Repeating lake t := by
  rcases leaves_get_bind ht with rfl | h₁
  · exact hs
  dsimp only at h₁
  split at h₁
  · rwa [leaves_pure.mp h₁]
  rcases leaves_bind' h₁ with h₂ | ⟨_, n, hn, h₂⟩
  · rcases leaves_modify.mp h₂ with rfl | rfl
    · exact hs
    · exact h.insertRefreshed hs
  rw [ends_modify.mp hn] at h₂
  rcases leaves_modify.mp h₂ with rfl | rfl
  · exact h.insertRefreshed hs
  · exact h.stampRefreshed hs

/-- After a complete refresh the rollup is the clean load's, whatever was refreshed before. -/
theorem Complete.servedRollup_afterRefresh (h : Complete lake s) (hs : Repeating lake s) (k : RollupKey) :
    s.afterRefresh.servedRollup k =
      if lake.loaded.latestStamp k = 0 then none else lake.loaded.rebuiltRollup k := by
  have hends : refreshCampaignHourly.Ends s () s.afterRefresh := ends_refreshCampaignHourly.mpr rfl
  have ht : Repeating lake s.afterRefresh := h.keeps_refresh hs hends.leaves
  cases hrow : s.afterRefresh.servedRollup k with
  | some row =>
    obtain ⟨hmem, rfl, _⟩ := finalRow_eq_some hrow
    obtain ⟨hrebuilt, hne⟩ := ht.hourly row hmem
    rw [if_neg hne, hrebuilt]
  | none =>
    by_cases hzero : lake.loaded.latestStamp k = 0
    · rw [if_pos hzero]
    rw [if_neg hzero]
    by_contra hne
    obtain ⟨d, hd, hv⟩ := h.dirtyStamp hs fun h => hne h.symm
    rw [Serving.servedRollup_afterRefresh, newer_eq_none] at hrow
    by_cases hdirty : k ∈ s.dirtyKeys.map RollupStamp.key
    · rw [if_pos hdirty, h.rebuiltRollup] at hrow
      exact hne hrow.1.symm
    · have hclean : d.version = s.refreshedVersion k := by
        by_contra hver
        exact hdirty (Serving.mem_map_key_dirtyKeys.mpr ⟨d, hd, hver⟩)
      rcases hs.refreshedVersion k with hr | ⟨_, row, hmem, hk⟩
      · exact hzero (by rw [← hv, hclean, hr])
      · exact finalRow_eq_none.mp hrow.2 row hmem hk

end complete
end CtvAttribution
