import CtvAttribution.AccuracyRuns
import CtvAttribution.CampaignReport
import CtvAttribution.Library.MergeTree
import CtvAttribution.SnapshotTwins

/-! The serving tables under background merges. ClickHouse may merge any adjacent rows of a
replacing table at any time; every statement of the drivers reads the tables as `FINAL`. -/
namespace CtvAttribution
open Library Script

namespace Serving

/-- One merge in one of the tables. -/
inductive Merge (s : Serving) : Serving → Prop where
  | exposuresLanded {rows : List Exposure} : MergesTo exposureKey (fun _ => ()) s.exposuresLanded rows →
      Merge s { s with exposuresLanded := rows }
  | attributedConversions {rows : List AttributedConversion} :
      MergesTo (fun r => r.conversionId) (fun r => r.processedAt) s.attributedConversions rows →
      Merge s { s with attributedConversions := rows }
  | evalMeta {rows : List String} : MergesTo (fun _ => ()) (fun _ => ()) s.evalMeta rows →
      Merge s { s with evalMeta := rows }
  | campaignHourly {rows : List RollupRow} : MergesTo RollupRow.key RollupRow.reportedAt s.campaignHourly rows →
      Merge s { s with campaignHourly := rows }
  | rollupDirty {rows : List RollupStamp} : MergesTo RollupStamp.key RollupStamp.version s.rollupDirty rows →
      Merge s { s with rollupDirty := rows }
  | rollupRefreshed {rows : List RollupStamp} : MergesTo RollupStamp.key RollupStamp.version s.rollupRefreshed rows →
      Merge s { s with rollupRefreshed := rows }
  | reportSnapshots {rows : List ReportSnapshot} :
      MergesTo ReportSnapshot.key ReportSnapshot.snapshotVersion s.reportSnapshots rows →
      Merge s { s with reportSnapshots := rows }

/-- Every table reads alike as `FINAL`. -/
structure SameTables (s t : Serving) : Prop where
  exposuresLanded : SameFinal exposureKey (fun _ => ()) s.exposuresLanded t.exposuresLanded
  attributedConversions : SameFinal (fun r => r.conversionId) (fun r => r.processedAt) s.attributedConversions
    t.attributedConversions
  evalMeta : SameFinal (fun _ => ()) (fun _ => ()) s.evalMeta t.evalMeta
  campaignHourly : SameFinal RollupRow.key RollupRow.reportedAt s.campaignHourly t.campaignHourly
  rollupDirty : SameFinal RollupStamp.key RollupStamp.version s.rollupDirty t.rollupDirty
  rollupRefreshed : SameFinal RollupStamp.key RollupStamp.version s.rollupRefreshed t.rollupRefreshed
  reportSnapshots : SameFinal ReportSnapshot.key ReportSnapshot.snapshotVersion s.reportSnapshots t.reportSnapshots

end Serving

/-- Groups sorted by their keys do not show the order of the rows. -/
theorem sortedBy_groups_congr {κ β : Type} [LinearOrder κ] {key : β → κ} {ks ks' : List κ} {f g : κ → β}
    (hkey : ∀ k, key (f k) = k) (hks : ∀ k, k ∈ ks ↔ k ∈ ks') (hfg : ∀ k, f k = g k) :
    sortedBy key ((firstSeen ks).map f) = sortedBy key ((firstSeen ks').map g) := by
  obtain rfl : f = g := funext hfg
  have hperm : (firstSeen ks).Perm (firstSeen ks') := by
    rw [List.perm_ext_iff_of_nodup (nodup_firstSeen _) (nodup_firstSeen _)]
    intro k
    rw [mem_firstSeen, mem_firstSeen, hks]
  apply sortedBy_eq_of_perm key (hperm.map f)
  have hid : ((firstSeen ks).map f).map key = firstSeen ks := by
    rw [List.map_map]
    exact (List.map_congr_left fun k _ => hkey k).trans (List.map_id' _)
  rw [hid]
  exact nodup_firstSeen ks

section perms
variable {es es' : List Exposure} {rs rs' : List AttributedConversion}

/-- A snapshot shows the tables, not the order of their rows. -/
theorem snapshotRows_perm (he : es.Perm es') (hr : rs.Perm rs') (reportedAt : Int) (hotOnly : Bool) :
    snapshotRows es rs reportedAt hotOnly = snapshotRows es' rs' reportedAt hotOnly := by
  have hcredits := credits_perm he (hr.filter fun a => !hotOnly || a.path = .hot)
  have hnil : credits es (rs.filter fun a => !hotOnly || a.path = .hot) = [] ↔
      credits es' (rs'.filter fun a => !hotOnly || a.path = .hot) = [] := by
    rw [← List.length_eq_zero_iff, hcredits.length_eq, List.length_eq_zero_iff]
  unfold snapshotRows
  dsimp only
  rw [OrderedDict.entries_groupBy, OrderedDict.entries_groupBy, List.map_map, List.map_map]
  apply sortedBy_groups_congr
  · intro k
    rfl
  · intro k
    exact (he.map _).mem_iff
  · intro k
    have hes := he.filter fun e => e.campaignId = k
    have hconv := (hcredits.filter fun c => c.2.campaignId = k).map Prod.fst
    have hspend := (hes.map Exposure.spend).sum_nat
    have hrevenue := (hconv.map fun a => a.revenue).sum_nat
    have hpurchases := (hconv.filter fun a => a.conversionType = .purchase).length_eq
    have hvisits := (hconv.filter fun a => a.conversionType = .siteVisit).length_eq
    have hall : maxOf (rs.map fun a => a.processedAt) = maxOf (rs'.map fun a => a.processedAt) :=
      maxOf_congr fun _ => (hr.map _).mem_iff
    have hnewest := maxOf_congr fun t => (hcredits.map fun c => c.1.processedAt).mem_iff (a := t)
    simp only [Function.comp_apply, hes.length_eq, hconv.length_eq, hspend, hrevenue, hpurchases, hvisits, hnil, hall,
      hnewest]

private theorem reportQuery_perm (he : es.Perm es') (hr : rs.Perm rs') : reportQuery es rs = reportQuery es' rs' := by
  rw [reportQuery_eq, reportQuery_eq]
  apply sortedBy_groups_congr
  · intro k
    rfl
  · intro k
    exact (he.map _).mem_iff
  · intro k
    have hes := he.filter fun e => e.campaignId = k
    have hcs := (credits_perm he hr).filter fun c => c.2.campaignId = k
    have hspend := (hes.map Exposure.spend).sum_nat
    have hrevenue := (hcs.map fun c => c.1.revenue).sum_nat
    have hpurchases := (hcs.filter fun c => c.1.conversionType = .purchase).length_eq
    have hvisits := (hcs.filter fun c => c.1.conversionType = .siteVisit).length_eq
    simp only [servedTotals, hes.length_eq, hcs.length_eq, hspend, hrevenue, hpurchases, hvisits]

private theorem benchQuery_perm {rows rows' : List RollupRow} (h : rows.Perm rows') :
    benchQuery rows = benchQuery rows' := by
  rw [benchQuery_eq, benchQuery_eq]
  apply sortedBy_groups_congr
  · intro k
    rfl
  · intro k
    exact (h.map _).mem_iff
  · intro k
    have hsum (f : RollupRow → Nat) := ((h.filter fun r => r.campaignId = k).map f).sum_nat
    simp only [rollupTotals, hsum]

end perms

section tables
variable {s s' t : Serving}

theorem Serving.SameTables.refl (s : Serving) : s.SameTables s :=
  ⟨.refl _, .refl _, .refl _, .refl _, .refl _, .refl _, .refl _⟩

/-- A merge on one side is not seen. -/
theorem Serving.SameTables.merge (h : s.SameTables t) (hm : s.Merge s') : s'.SameTables t := by
  cases hm with
  | exposuresLanded hm => exact { h with exposuresLanded := hm.sameFinal.trans h.exposuresLanded }
  | attributedConversions hm => exact { h with attributedConversions := hm.sameFinal.trans h.attributedConversions }
  | evalMeta hm => exact { h with evalMeta := hm.sameFinal.trans h.evalMeta }
  | campaignHourly hm => exact { h with campaignHourly := hm.sameFinal.trans h.campaignHourly }
  | rollupDirty hm => exact { h with rollupDirty := hm.sameFinal.trans h.rollupDirty }
  | rollupRefreshed hm => exact { h with rollupRefreshed := hm.sameFinal.trans h.rollupRefreshed }
  | reportSnapshots hm => exact { h with reportSnapshots := hm.sameFinal.trans h.reportSnapshots }

namespace Serving.SameTables

theorem exposuresFinal (h : s.SameTables t) : s.exposuresFinal.Perm t.exposuresFinal := h.exposuresLanded.finalRows_perm

theorem attributedFinal (h : s.SameTables t) : s.attributedFinal.Perm t.attributedFinal :=
  h.attributedConversions.finalRows_perm

theorem refreshedVersion (h : s.SameTables t) (k : RollupKey) : s.refreshedVersion k = t.refreshedVersion k := by
  unfold Serving.refreshedVersion
  rw [h.rollupRefreshed k]

theorem maxIngest (h : s.SameTables t) : s.maxIngest = t.maxIngest := by
  have he := maxOf_congr fun x => (h.exposuresFinal.map Exposure.ingestTime).mem_iff (a := x)
  have hr := maxOf_congr fun x => (h.attributedFinal.map fun r => r.ingestTime).mem_iff (a := x)
  unfold Serving.maxIngest
  rw [he, hr]

theorem dirtyKeys (h : s.SameTables t) : s.dirtyKeys = t.dirtyKeys := by
  have hperm : (s.rollupDirtyFinal.filter fun d => d.version ≠ s.refreshedVersion d.key).Perm
      (t.rollupDirtyFinal.filter fun d => d.version ≠ t.refreshedVersion d.key) := by
    simp only [h.refreshedVersion]
    exact h.rollupDirty.finalRows_perm.filter _
  apply sortedBy_eq_of_perm _ hperm
  have hkeys : (s.rollupDirtyFinal.map RollupStamp.key).Nodup := nodup_key_finalRows _
  have hsub := hkeys.sublist ((List.filter_sublist (p := fun d => d.version ≠ s.refreshedVersion d.key)).map _)
  have hlex := hsub.map toLex.injective
  rwa [List.map_map] at hlex

/-- Stamps recorded in any order are recorded alike. -/
theorem insertDirty (h : s.SameTables t) {stamps stamps' : List RollupStamp} (hstamps : stamps.Perm stamps') :
    (s.insertDirty stamps).SameTables (t.insertDirty stamps') := by
  have hkeyed : Keyed (fun d : RollupStamp => (d.key, d.version)) stamps := by
    intro d _ e _ he
    obtain ⟨campaign, hour, version⟩ := d
    obtain ⟨campaign', hour', version'⟩ := e
    obtain ⟨hkey, hversion⟩ := Prod.mk.inj he
    obtain ⟨hcampaign, hhour⟩ := Prod.mk.inj hkey
    rw [RollupStamp.mk.injEq]
    exact ⟨hcampaign, hhour, hversion⟩
  have hcollapse : SameFinal RollupStamp.key RollupStamp.version (collapse RollupStamp.key RollupStamp.version stamps)
      (collapse RollupStamp.key RollupStamp.version stamps') := by
    intro k
    rw [finalRow_of_perm_collapse (.refl _), finalRow_of_perm_collapse (.refl _)]
    exact current_congr hkeyed fun _ => hstamps.mem_iff
  exact { h with rollupDirty := h.rollupDirty.append hcollapse }

theorem insertRefreshed (h : s.SameTables t) (keys : List RollupKey) :
    (s.insertRefreshed keys).SameTables (t.insertRefreshed keys) := by
  have hrows : SameFinal RollupRow.key RollupRow.reportedAt (refreshRows (some keys) s.exposuresFinal s.attributedFinal)
      (refreshRows (some keys) t.exposuresFinal t.attributedFinal) := by
    intro k
    rw [finalRow_refreshRows, finalRow_refreshRows, rebuiltRow_perm h.exposuresFinal h.attributedFinal]
  exact { h with campaignHourly := h.campaignHourly.append hrows }

theorem insertSnapshot (h : s.SameTables t) (offset : Int) (hotOnly : Bool) :
    (s.insertSnapshot offset hotOnly).SameTables (t.insertSnapshot offset hotOnly) := by
  have hrows := snapshotRows_perm h.exposuresFinal h.attributedFinal (s.maxIngest + offset) hotOnly
  refine { h with reportSnapshots := h.reportSnapshots.append fun k => ?_ }
  rw [hrows, h.maxIngest]

theorem truncate (h : s.SameTables t) (table : ServingTable) :
    (CtvAttribution.truncate s table).SameTables (CtvAttribution.truncate t table) := by
  cases table with
  | exposuresLanded => exact { h with exposuresLanded := .refl [] }
  | attributedConversions => exact { h with attributedConversions := .refl [] }
  | evalMeta => exact { h with evalMeta := .refl [] }
  | campaignHourly => exact { h with campaignHourly := .refl [] }
  | rollupDirty => exact { h with rollupDirty := .refl [] }
  | rollupRefreshed => exact { h with rollupRefreshed := .refl [] }

end Serving.SameTables

private theorem alike_loadExposuresDay (log : List Exposure) (day : Int) :
    Alike Serving.SameTables (loadExposuresDay log day) (loadExposuresDay log day) := by
  have hinsert : Alike Serving.SameTables (insertExposures (readExposuresForDays log [day]))
      (insertExposures (readExposuresForDays log [day])) :=
    alike_forEach fun chunk _ => alike_modify fun s t h =>
      { h with exposuresLanded := h.exposuresLanded.append (.refl chunk) }
  refine hinsert.bind fun _ => Alike.bind (alike_modify fun s t h => ?_) fun _ => alike_modify fun s t h => ?_
  · exact h.insertDirty ((h.exposuresFinal.filter _).map _)
  · exact h.insertDirty ((credits_perm (h.exposuresFinal.filter _) h.attributedFinal).map _)

private theorem alike_loadAttributedDay (log : List AttributedConversion) (day : Int) :
    Alike Serving.SameTables (loadAttributedDay log day) (loadAttributedDay log day) := by
  have hinsert : Alike Serving.SameTables (insertAttributed (readCurrent log (some [day])))
      (insertAttributed (readCurrent log (some [day]))) :=
    alike_forEach fun chunk _ => alike_modify fun s t h =>
      { h with attributedConversions := h.attributedConversions.append (.refl chunk) }
  refine hinsert.bind fun _ => alike_modify fun s t h => ?_
  exact h.insertDirty (((credits_perm h.exposuresFinal h.attributedFinal).filter _).map _)

private theorem alike_refreshCampaignHourly : Alike Serving.SameTables refreshCampaignHourly refreshCampaignHourly := by
  apply alike_get_bind
  intro s t h
  dsimp only
  rw [h.dirtyKeys]
  split
  · exact .done ()
  · refine Alike.bind (alike_modify fun s t h => h.insertRefreshed _) fun _ => alike_modify fun s t h => ?_
    exact { h with rollupRefreshed := h.rollupRefreshed.append (.refl _) }

/-- One lake, and serving tables that read alike. -/
structure SameSystem (σ τ : System) : Prop where
  lake : σ.lake = τ.lake
  serving : σ.serving.SameTables τ.serving

theorem SameSystem.refl (σ : System) : SameSystem σ σ := ⟨rfl, .refl _⟩

private theorem alike_onServing {p : ServingScript} (h : Alike Serving.SameTables p p) :
    Alike SameSystem (onServing p) (onServing p) :=
  h.zoom (fun _ _ h => h.serving) fun _ _ _ _ h hs => ⟨h.lake, hs⟩

private theorem alike_onLake (f : Lake → Lake) : Alike SameSystem (onLake f) (onLake f) :=
  alike_modify fun _ _ h => ⟨congrArg f h.lake, h.serving⟩

private theorem alike_orRaise {α : Type} (x : Except ValueError α) : Alike SameSystem (orRaise x) (orRaise x) :=
  alike_ofExcept _

private theorem alike_loadDay (day : Int) : Alike SameSystem (loadDay day) (loadDay day) := by
  refine alike_get_bind fun σ τ h => ?_
  rw [h.lake]
  refine (alike_onServing (alike_loadExposuresDay _ _)).bind fun _ => alike_get_bind fun σ τ h => ?_
  rw [h.lake]
  exact alike_onServing (alike_loadAttributedDay _ _)

private theorem alike_materializeLoad (days : List Int) :
    Alike SameSystem (materializeLoad days) (materializeLoad days) := by
  rw [materializeLoad_eq]
  split
  · exact .done ()
  · split
    · exact (alike_forEach fun day _ => alike_loadDay day).bind fun _ => alike_onServing alike_refreshCampaignHourly
    · exact .fail _

private theorem alike_finalize : Alike SameSystem finalize finalize :=
  (alike_onServing (alike_modify fun _ _ h => h.insertSnapshot _ _)).bind fun _ =>
    alike_onServing (alike_modify fun _ _ h => h.insertSnapshot _ _)

private theorem alike_engineMain (run : EngineRun) (profile : String) :
    Alike SameSystem (engineMain run profile) (engineMain run profile) := by
  have hland : Alike SameSystem (landRun run) (landRun run) :=
    (alike_onLake _).bind fun _ => (alike_onLake _).bind fun _ => .done _
  refine hland.bind fun days => (alike_materializeLoad days).bind fun _ => alike_onServing (alike_modify fun s t h => ?_)
  exact { h with evalMeta := h.evalMeta.append (.refl _) }

private theorem alike_reconciledConversions (bucketOf : String → Nat) (day : Int) :
    Alike SameSystem (reconciledConversions bucketOf day) (reconciledConversions bucketOf day) := by
  rw [reconciledConversions_eq]
  split
  · refine alike_get_bind fun σ τ h => ?_
    rw [h.lake, h.serving.maxIngest]
    exact (alike_orRaise _).bind fun recovered => (alike_onLake _).bind fun _ => .done _
  · exact .fail _

private theorem alike_driver (bucketOf : String → Nat) (d : Driver) :
    Alike SameSystem (d.script bucketOf) (d.script bucketOf) := by
  cases d with
  | run =>
    refine alike_get_bind fun σ τ h => ?_
    rw [h.lake, h.serving.maxIngest]
    exact (alike_orRaise _).bind fun days => (alike_orRaise _).bind fun recovered => (alike_onLake _).bind fun _ =>
      (alike_materializeLoad _).bind fun _ => alike_finalize
  | backfill partition =>
    simp only [Driver.script, runReconcile_eq]
    refine alike_get_bind fun σ τ h => ?_
    rw [h.lake]
    exact (alike_orRaise _).bind fun days => (alike_collect fun day _ => alike_reconciledConversions bucketOf day).bind
      fun touched => (alike_materializeLoad _).bind fun _ => alike_finalize

private theorem alike_truncateAndReload (days : List Int) :
    Alike SameSystem (truncateAndReload days) (truncateAndReload days) := by
  rw [truncateAndReload_eq]
  split
  · exact .fail _
  · exact (alike_forEach fun table _ => alike_onServing (alike_modify fun _ _ h => h.truncate table)).bind fun _ =>
      alike_materializeLoad days

end tables

/-- The jobs that write the stores. -/
inductive Job (bucketOf : String → Nat) : SystemScript Unit → Prop where
  | engine (run : EngineRun) (profile : String) : Job bucketOf (engineMain run profile)
  | load (days : List Int) : Job bucketOf (materializeLoad days)
  | pass (d : Driver) : Job bucketOf (d.script bucketOf)
  | replay (days : List Int) : Job bucketOf (truncateAndReload days)

/-- A merge in one of the serving tables. -/
def System.Merge (σ σ' : System) : Prop := ∃ s, σ.serving.Merge s ∧ σ' = { σ with serving := s }

/-- What the pipeline, the reports and the evaluation read. -/
structure Serving.SameReads (s t : Serving) : Prop where
  exposuresFinal : s.exposuresFinal.Perm t.exposuresFinal
  attributedFinal : s.attributedFinal.Perm t.attributedFinal
  campaignHourlyFinal : s.campaignHourlyFinal.Perm t.campaignHourlyFinal
  reportSnapshotsFinal : (reportSnapshotsFinal s.reportSnapshots).Perm (reportSnapshotsFinal t.reportSnapshots)
  profileMarker : s.profileMarker = t.profileMarker
  maxIngest : s.maxIngest = t.maxIngest
  dirtyKeys : s.dirtyKeys = t.dirtyKeys
  credited : s.credited = t.credited
  report : reportQuery s.exposuresFinal s.attributedFinal = reportQuery t.exposuresFinal t.attributedFinal
  bench : benchQuery s.campaignHourlyFinal = benchQuery t.campaignHourlyFinal

private theorem Serving.SameTables.sameReads {s t : Serving} (h : s.SameTables t) : s.SameReads t where
  exposuresFinal := h.exposuresFinal
  attributedFinal := h.attributedFinal
  campaignHourlyFinal := h.campaignHourly.finalRows_perm
  reportSnapshotsFinal := h.reportSnapshots.finalRows_perm
  profileMarker := h.evalMeta ()
  maxIngest := h.maxIngest
  dirtyKeys := h.dirtyKeys
  credited := by
    have hperm := h.attributedFinal.filter fun r => r.attributed
    have hids : ((s.attributedFinal.filter fun r => r.attributed).map fun r => r.conversionId).Nodup :=
      (nodup_key_finalRows _).sublist (List.filter_sublist.map _)
    rw [Serving.credited, Serving.credited, sortedBy_eq_of_perm _ hperm hids]
  report := reportQuery_perm h.exposuresFinal h.attributedFinal
  bench := benchQuery_perm h.campaignHourly.finalRows_perm

/-- Whatever is merged and when, among the statements of any jobs at once: the same jobs
without a merge stand at the same points, over the same lake and the same reads. -/
theorem merges_unseen {bucketOf : String → Nat} {σ₀ σ : System} {running : List (SystemScript Unit)}
    (h : Disturbed (Job bucketOf) System.Merge σ₀ σ running) :
    ∃ τ earlier running', Interleaves (Job bucketOf) σ₀ τ earlier running' ∧
      List.Forall₂ (Alike SameSystem) running running' ∧ σ.lake = τ.lake ∧ σ.serving.SameReads τ.serving := by
  have hjobs (p : SystemScript Unit) (hp : Job bucketOf p) : Alike SameSystem p p := by
    cases hp with
    | engine run profile => exact alike_engineMain run profile
    | load days => exact alike_materializeLoad days
    | pass d => exact alike_driver bucketOf d
    | replay days => exact alike_truncateAndReload days
  have hmerge (σ σ' τ : System) (hm : σ.Merge σ') (hs : SameSystem σ τ) : SameSystem σ' τ := by
    obtain ⟨s, hm, rfl⟩ := hm
    exact ⟨hs.lake, hs.serving.merge hm⟩
  obtain ⟨τ, earlier, running', hrun, hsame, hall⟩ := h.undisturbed (.refl σ₀) hjobs hmerge
  exact ⟨τ, earlier, running', hrun, hall, hsame.lake, hsame.serving.sameReads⟩

/-- An engine run, and the same one again up to its marker. -/
def sampleRedelivered : System := sampleAfter [sampleLanding, landRun sampleMissed >>= materializeLoad]

/-- The rows loaded twice are merged before the second run writes its marker. -/
theorem merges_unseen_sample : ∃ rows : List AttributedConversion,
    sampleRedelivered.serving.attributedConversions.length = 4 ∧ rows.length = 2 ∧
    ∃ τ earlier running', Interleaves (Job String.length) ⟨Lake.empty, Serving.empty⟩ τ earlier running' ∧
      List.Forall₂ (Alike SameSystem) [.done ()] running' ∧ sampleRedelivered.lake = τ.lake ∧
      Serving.SameReads { sampleRedelivered.serving with
        attributedConversions := rows, evalMeta := sampleRedelivered.serving.evalMeta ++ ["tiny"] } τ.serving := by
  have hstart : Interleaves (Job String.length) ⟨Lake.empty, Serving.empty⟩ ⟨Lake.empty, Serving.empty⟩ [] [] := .init
  obtain ⟨_, hlanded⟩ := (hstart.start (Job.engine sampleMissed "tiny")).ends sampleLanding_ends
  have hagain := hlanded.start (Job.engine sampleMissed "tiny")
  rw [engineMain, ← bind_assoc] at hagain
  have hload : (landRun sampleMissed >>= materializeLoad).Ends (sampleAfter [sampleLanding]) () sampleRedelivered :=
    Prod.ext rfl (by decide +kernel)
  obtain ⟨_, hloaded⟩ := hagain.ends_bind hload
  have hmerge := Serving.Merge.attributedConversions (mergesTo_finalRows sampleRedelivered.serving.attributedConversions)
  have hstep : System.Merge sampleRedelivered ⟨_, _⟩ := ⟨_, hmerge, rfl⟩
  have hmarking : Disturbed (Job String.length) System.Merge _ _ ([] ++ writeMarker "tiny" :: []) :=
    hloaded.disturbed.background hstep
  have hunseen := merges_unseen hmarking.write
  refine ⟨_, ?_, ?_, hunseen⟩
  · decide +kernel
  · decide +kernel

end CtvAttribution
