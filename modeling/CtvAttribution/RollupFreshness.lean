import CtvAttribution.ReconcilePass
import CtvAttribution.RollupBookkeeping

/-! The incremental rollup against the full rebuild. The loads record every stamp they see;
a refresh therefore reaches each key whose latest stamp moved above its last refresh. -/
namespace CtvAttribution
open Library Script

namespace Serving
variable {s t : Serving} {k : RollupKey}

@[simp] theorem exposuresFinal_afterRefresh : s.afterRefresh.exposuresFinal = s.exposuresFinal := by
  rw [exposuresFinal, exposuresLanded_afterRefresh]
  rfl

@[simp] theorem attributedFinal_afterRefresh : s.afterRefresh.attributedFinal = s.attributedFinal := by
  rw [attributedFinal, attributedConversions_afterRefresh]
  rfl

@[simp] theorem rollupDirty_afterRefresh : s.afterRefresh.rollupDirty = s.rollupDirty := by
  unfold afterRefresh
  split <;> rfl

@[simp] theorem rebuiltRollup_afterRefresh : s.afterRefresh.rebuiltRollup k = s.rebuiltRollup k := by
  rw [rebuiltRollup, exposuresFinal_afterRefresh, attributedFinal_afterRefresh]
  rfl

/-- A refresh stamps the dirty keys. -/
theorem rollupRefreshed_afterRefresh : s.afterRefresh.rollupRefreshed = s.rollupRefreshed ++ s.dirtyKeys := by
  unfold afterRefresh
  split
  · rename_i h
    rw [h, List.append_nil]
  · rfl

/-- A refresh writes the rebuilt row of every dirty key. -/
theorem servedRollup_afterRefresh (s : Serving) (k : RollupKey) : s.afterRefresh.servedRollup k =
    newer RollupRow.reportedAt (if k ∈ s.dirtyKeys.map RollupStamp.key then s.rebuiltRollup k else none)
      (s.servedRollup k) := by
  unfold afterRefresh
  split
  · rename_i h
    rw [h, List.map_nil, if_neg List.not_mem_nil, none_newer]
  · exact finalRow_append.trans (congrArg (newer RollupRow.reportedAt · (s.servedRollup k))
      (finalRow_refreshRows _ _ _ k))

/-- Nothing is dirty after a refresh. -/
theorem Booked.dirtyKeys_afterRefresh (h : s.Booked) : s.afterRefresh.dirtyKeys = [] := by
  rw [List.eq_nil_iff_forall_not_mem]
  intro d hd
  obtain ⟨hstamp, hne⟩ := mem_dirtyKeys.mp hd
  have hold : s.dirtyStamp d.key = some d := by
    rw [dirtyStamp, ← rollupDirty_afterRefresh]
    exact hstamp
  have honly : ∀ x ∈ s.dirtyKeys, x.key = d.key → x = d := by
    intro x hx hk
    have hxs := (mem_dirtyKeys.mp hx).1
    rw [hk, hold] at hxs
    exact (Option.some.inj hxs).symm
  apply hne
  unfold refreshedVersion
  rw [rollupRefreshed_afterRefresh]
  by_cases hdirty : d ∈ s.dirtyKeys
  · have hle : ∀ x ∈ s.rollupRefreshed, x.key = d.key → x.version ≤ d.version := by
      intro x hx hk
      obtain ⟨c, hc, hle⟩ := recordedIn_iff.mp (h.refreshed x hx)
      rw [hk, hold] at hc
      cases hc
      exact hle
    rw [finalRow_append_of_le (finalRow_of_unique hdirty honly) hle]
    rfl
  · rw [finalRow_append_of_not_mem fun x hx hk => hdirty (honly x hx hk ▸ hx)]
    by_contra hver
    exact hdirty (mem_dirtyKeys.mpr ⟨hold, hver⟩)

theorem Booked.afterRefresh (h : s.Booked) : s.afterRefresh.Booked where
  recorded := by
    simp only [exposuresFinal_afterRefresh, attributedFinal_afterRefresh, rollupDirty_afterRefresh]
    exact h.recorded
  refreshed d hd := by
    rw [rollupRefreshed_afterRefresh] at hd
    rw [rollupDirty_afterRefresh]
    rcases List.mem_append.mp hd with hd | hd
    · exact h.refreshed d hd
    · exact recordedIn_iff.mpr ⟨d, (mem_dirtyKeys.mp hd).1, le_rfl⟩
  reported row hr := by
    rw [rollupDirty_afterRefresh]
    unfold Serving.afterRefresh at hr
    split at hr
    · exact h.reported row hr
    · rcases List.mem_append.mp hr with hr | hr
      · exact h.reported row hr
      · obtain ⟨_, hrow⟩ := mem_refreshRows_some.mp hr
        obtain ⟨hat, hne⟩ := reportedAt_of_rebuilt hrow
        rw [hat]
        exact recordedIn_iff.mpr (h.latestStamp hne)

/-- The bookkeeping is complete, nothing is dirty, and the rollup is the full rebuild. -/
structure Current (s : Serving) : Prop where
  booked : s.Booked
  clean : s.dirtyKeys = []
  fresh : s.Fresh

/-- Every key whose measures changed carries a stamp above the version it was last
refreshed at. -/
def Advances (s s' : Serving) : Prop :=
  ∀ k, (s'.rebuiltRollup k).map RollupRow.measures ≠ (s.rebuiltRollup k).map RollupRow.measures →
    s.refreshedVersion k < s'.latestStamp k

/-- In a clean state a key was last refreshed at its recorded stamp. -/
theorem version_of_clean (h : s.dirtyKeys = []) {d : RollupStamp} (hd : s.dirtyStamp k = some d) :
    d.version = s.refreshedVersion k := by
  by_contra hne
  have hmem := mem_map_key_dirtyKeys.mpr ⟨d, hd, hne⟩
  rw [h] at hmem
  cases hmem

theorem rebuiltRollup_eq_none : s.rebuiltRollup k = none ↔ ¬ ∃ e ∈ s.exposuresFinal, rollupKey e = k := by
  have hgroup : keyGroup s.exposuresFinal s.attributedFinal k ≠ [] ↔ ∃ e ∈ s.exposuresFinal, rollupKey e = k :=
    keyGroup_ne_nil
  rw [← hgroup, not_not, rebuiltRollup, rebuiltRow]
  split
  · rename_i h
    simp [h]
  · rename_i h
    simp [h]

theorem rollupKey_of_exposureKey {e f : Exposure} (h : exposureKey e = exposureKey f) : rollupKey e = rollupKey f := by
  have hcampaign : e.campaignId = f.campaignId := congrArg (fun x => (ofLex x).1) h
  have htime : e.eventTime = f.eventTime := congrArg (fun x => (ofLex (ofLex x).2).1) h
  rw [rollupKey, rollupKey, hcampaign, htime]

/-- Loading days takes no key its group. -/
theorem rebuiltRollup_of_dayLoads (h : DayLoads s t) (hk : t.rebuiltRollup k = none) : s.rebuiltRollup k = none := by
  rw [rebuiltRollup_eq_none] at hk ⊢
  intro ⟨e, he, hek⟩
  have hmem := h.exposures e (finalRow_eq_some (mem_exposuresFinal.mp he)).1
  obtain ⟨f, hf⟩ := exists_finalRow exposureKey (fun _ => ()) hmem
  have hkey : exposureKey f = exposureKey e := (finalRow_eq_some hf).2.1
  exact hk ⟨f, mem_exposuresFinal.mpr (hkey ▸ hf), (rollupKey_of_exposureKey hkey).trans hek⟩

/-- One load: what changed is refreshed, what was refreshed for nothing changes nothing. -/
theorem Current.refresh (hs : s.Current) (h : DayLoads s t) (hadv : Advances s t.afterRefresh) :
    t.afterRefresh.Current := by
  have hbooked := h.booked hs.booked
  refine ⟨hbooked.afterRefresh, hbooked.dirtyKeys_afterRefresh, fresh_iff.mpr fun k => ?_⟩
  have hserved : t.servedRollup k = s.servedRollup k := by rw [servedRollup, h.campaignHourly]; rfl
  have hfresh := fresh_iff.mp hs.fresh k
  rw [servedRollup_afterRefresh, hserved, rebuiltRollup_afterRefresh]
  by_cases hsame : (t.rebuiltRollup k).map RollupRow.measures = (s.rebuiltRollup k).map RollupRow.measures
  · -- whichever of the two rows is served, its measures are the rebuilt ones
    rw [← hsame] at hfresh
    split
    · rcases newer_eq_or RollupRow.reportedAt (t.rebuiltRollup k) (s.servedRollup k) with he | he
      · rw [he]
      · rw [he, hfresh]
    · rw [none_newer, hfresh]
  · cases hrow : t.rebuiltRollup k with
    | none =>
      rw [hrow, rebuiltRollup_of_dayLoads h hrow] at hsame
      exact absurd rfl hsame
    | some row =>
      have hlt : s.refreshedVersion k < t.latestStamp k := by
        have hadvk := hadv k
        rw [rebuiltRollup_afterRefresh, latestStamp, exposuresFinal_afterRefresh,
          attributedFinal_afterRefresh] at hadvk
        exact hadvk hsame
      obtain ⟨hat, hne⟩ := reportedAt_of_rebuilt hrow
      obtain ⟨d, hd, hle⟩ := hbooked.latestStamp hne
      have hdirty : k ∈ t.dirtyKeys.map RollupStamp.key := by
        refine mem_map_key_dirtyKeys.mpr ⟨d, hd, ?_⟩
        rw [refreshedVersion, h.rollupRefreshed]
        exact (hlt.trans_le hle).ne'
      rw [if_pos hdirty, newer_eq_left]
      intro old hold
      obtain ⟨hmem, hk, _⟩ := finalRow_eq_some hold
      obtain ⟨c, hc, hcle⟩ := recordedIn_iff.mp (hk ▸ hs.booked.reported old hmem)
      rw [version_of_clean hs.clean hc] at hcle
      exact hcle.trans (hat ▸ hlt.le)

/-- A load that leaves every key it has rows of a stamp above the key's last refresh. -/
theorem advances_of_stamps (h : DayLoads s t)
    (hstamps : ∀ c ∈ contributions t.exposuresFinal t.attributedFinal, s.refreshedVersion c.key < t.latestStamp c.key) :
    Advances s t.afterRefresh := by
  intro k hchanged
  rw [rebuiltRollup_afterRefresh] at hchanged
  rw [latestStamp, exposuresFinal_afterRefresh, attributedFinal_afterRefresh, ← latestStamp]
  have hne : keyGroup t.exposuresFinal t.attributedFinal k ≠ [] := by
    intro hnil
    have hnone : t.rebuiltRollup k = none := if_pos hnil
    rw [hnone, rebuiltRollup_of_dayLoads h hnone] at hchanged
    exact hchanged rfl
  obtain ⟨c, hc, rfl, _⟩ := exists_latestStamp hne
  exact hstamps c hc

private theorem advances_afterLoad {lake : Lake} {days : List Int} (hdays : days ≠ [])
    (hstamps : ∀ c ∈ contributions (s.afterDays lake (sortedSet days)).exposuresFinal
        (s.afterDays lake (sortedSet days)).attributedFinal,
      s.refreshedVersion c.key < (s.afterDays lake (sortedSet days)).latestStamp c.key) :
    Advances s (s.afterLoad lake days) := by
  rw [Serving.afterLoad, if_neg hdays]
  exact advances_of_stamps (dayLoads_afterDays _ _) hstamps

/-- A load that leaves the FINAL rows as they were changes no key. -/
theorem advances_of_final (hexposures : t.exposuresFinal = s.exposuresFinal)
    (hattributed : t.attributedFinal = s.attributedFinal) : Advances s t := by
  intro k hchanged
  rw [rebuiltRollup, rebuiltRollup, hexposures, hattributed] at hchanged
  exact absurd rfl hchanged

private theorem current_empty : Serving.empty.Current where
  booked := ⟨nofun, nofun, nofun⟩
  clean := by decide
  fresh := .nil

theorem Current.afterLoad (hs : s.Current) {lake : Lake} {days : List Int}
    (hadv : Advances s (s.afterLoad lake days)) : (s.afterLoad lake days).Current := by
  unfold Serving.afterLoad at hadv ⊢
  split at hadv
  · rename_i h
    rwa [if_pos h]
  · rename_i h
    rw [if_neg h]
    exact hs.refresh (dayLoads_afterDays _ _) hadv

/-- The snapshots leave the rollup's tables alone. -/
theorem Advances.afterFinalize (h : Advances s t) : Advances s t.afterFinalize := h

theorem Current.afterFinalize (hs : s.Current) : s.afterFinalize.Current :=
  ⟨⟨hs.booked.recorded, hs.booked.refreshed, hs.booked.reported⟩, hs.clean, hs.fresh⟩

end Serving

/-- Landings, loads and passes of either driver from empty stores; each load, also the one
inside a pass, satisfies `P` before and after. -/
inductive LoadRun (bucketOf : String → Nat) (P : Serving → Serving → Prop) : System → Prop where
  | empty : LoadRun bucketOf P ⟨Lake.empty, Serving.empty⟩
  | land {σ : System} (exposures : List Exposure) (rows : List AttributedConversion) : LoadRun bucketOf P σ →
      LoadRun bucketOf P { σ with lake := (σ.lake.land exposures).landAttributed rows }
  | load {σ σ' : System} {days : List Int} : LoadRun bucketOf P σ → (materializeLoad days).Ends σ () σ' →
      P σ.serving σ'.serving → LoadRun bucketOf P σ'
  | pass {σ σ' : System} {d : Driver} : LoadRun bucketOf P σ → (d.script bucketOf).Ends σ () σ' →
      P σ.serving σ'.serving → LoadRun bucketOf P σ'

section run
variable {bucketOf : String → Nat} {σ σ' : System} {d : Driver}

/-- A pass loads once and snapshots. -/
theorem serving_of_ends_driver (hd : (d.script bucketOf).Ends σ () σ') :
    ∃ lake days, σ'.serving = (σ.serving.afterLoad lake days).afterFinalize := by
  cases d with
  | run =>
    obtain ⟨_, _, _, _, _, rfl⟩ := ends_reconcileRun.mp hd
    exact ⟨_, _, rfl⟩
  | backfill partition =>
    obtain ⟨_, _, _, _, _, _, rfl⟩ := ends_runReconcile.mp hd
    exact ⟨_, _, rfl⟩

theorem LoadRun.current (h : LoadRun bucketOf Serving.Advances σ) : σ.serving.Current := by
  induction h with
  | empty => exact Serving.current_empty
  | land _ _ _ ih => exact ih
  | load _ hload hadv ih =>
    obtain ⟨_, rfl⟩ := ends_materializeLoad.mp hload
    exact ih.afterLoad hadv
  | pass _ hd hadv ih =>
    obtain ⟨lake, days, hs⟩ := serving_of_ends_driver hd
    rw [hs] at hadv ⊢
    have hadv' : Serving.Advances _ (Serving.afterLoad _ lake days) := hadv
    exact (ih.afterLoad hadv').afterFinalize

/-- While each load leaves every key it changed a stamp above the key's last refresh, the
rollup equals the full rebuild after every load and pass. -/
theorem rollup_fresh_of_advances (h : LoadRun bucketOf Serving.Advances σ) : σ.serving.Fresh := h.current.fresh

/-- The bound is needed: a key whose measures changed and for which no stamp above its last
refresh was recorded is served stale. -/
theorem stale_of_not_recorded {s t : Serving} {k : RollupKey} (hs : s.Current) (h : DayLoads s t)
    (hchanged : (t.rebuiltRollup k).map RollupRow.measures ≠ (s.rebuiltRollup k).map RollupRow.measures)
    (hrecorded : ∀ d, t.dirtyStamp k = some d → d.version = s.refreshedVersion k) : ¬ t.afterRefresh.Fresh := by
  intro hfresh
  have hclean : k ∉ t.dirtyKeys.map RollupStamp.key := by
    intro hk
    obtain ⟨d, hd, hne⟩ := Serving.mem_map_key_dirtyKeys.mp hk
    rw [Serving.refreshedVersion, h.rollupRefreshed] at hne
    exact hne (hrecorded d hd)
  have hserved : t.servedRollup k = s.servedRollup k := by rw [Serving.servedRollup, h.campaignHourly]; rfl
  have hk := Serving.fresh_iff.mp hfresh k
  rw [Serving.servedRollup_afterRefresh, if_neg hclean, none_newer, hserved, Serving.rebuiltRollup_afterRefresh,
    Serving.fresh_iff.mp hs.fresh k] at hk
  exact hchanged hk.symm

end run

section sample

/-- Two deferred conversions of one exposure, a day apart. -/
def sampleTwoDays : EngineRun :=
  { sampleRun with rows := sampleRun.rows ++ [deferredRow "c2" (sampleDay + Time.day + Time.minute)] }

def sampleTwoDaysLoaded : System :=
  let lake := (Lake.empty.land sampleTwoDays.exposures).landAttributed sampleTwoDays.rows
  ⟨lake, Serving.empty.afterLoad lake [20700, 20701]⟩

/-- What the backfill of one day appends. -/
def sampleRecovered (σ : System) (day : Int) : List AttributedConversion :=
  (recoverDay String.length σ.lake day (reconciledAtFor σ.serving.maxIngest) longWindow).toOption.getD []

/-- And what it leaves. -/
def samplePartition (σ : System) (day : Int) : System :=
  let lake := σ.lake.landAttributed (sampleRecovered σ day)
  ⟨lake, (σ.serving.afterLoad lake ([sampleRecovered σ day].map touched).flatten).afterFinalize⟩

private theorem samplePartition_ends {σ : System} {day : Int} (hday : dayPartitions day = true)
    (hrows : recoverDay String.length σ.lake day (reconciledAtFor σ.serving.maxIngest) longWindow =
      .ok (sampleRecovered σ day))
    (hknown : ∀ d ∈ ([sampleRecovered σ day].map touched).flatten, dayPartitions d = true) :
    (runReconcile String.length (some day)).Ends σ () (samplePartition σ day) :=
  ends_runReconcile.mpr ⟨[day], [sampleRecovered σ day], _, rfl, .cons hday hrows (.nil _), hknown, rfl⟩

/-- Both partitions done: one conversion is served, the rebuild counts two. -/
def sampleBackfilled : System := samplePartition (samplePartition sampleTwoDaysLoaded 20700) 20701

private theorem sampleBackfilled_served :
    (sampleBackfilled.serving.campaignHourlyFinal.map RollupRow.attributedConversions).sum = 1 := by decide

private theorem sampleBackfilled_rebuilt : ((refreshRows none sampleBackfilled.serving.exposuresFinal
    sampleBackfilled.serving.attributedFinal).map RollupRow.attributedConversions).sum = 2 := by decide

/-- Two partitions crediting one campaign hour carry one version: the second is not seen. -/
theorem rollup_not_fresh : ∃ σ, LoadRun String.length (fun _ _ => True) σ ∧ ¬ σ.serving.Fresh := by
  have hlanded : LoadRun String.length (fun _ _ => True)
      ⟨sampleTwoDaysLoaded.lake, Serving.empty⟩ := .land _ _ .empty
  have hloaded : LoadRun String.length (fun _ _ => True) sampleTwoDaysLoaded :=
    hlanded.load (ends_materializeLoad.mpr ⟨by decide, rfl⟩) trivial
  have hfirst := hloaded.pass (d := .backfill (some 20700))
    (samplePartition_ends (by decide) (by decide) (by decide)) trivial
  have hsecond : LoadRun String.length (fun _ _ => True) sampleBackfilled :=
    hfirst.pass (d := .backfill (some 20701)) (samplePartition_ends (by decide) (by decide) (by decide)) trivial
  refine ⟨_, hsecond, fun hfresh => ?_⟩
  have hsum := (hfresh.map RollupRow.attributedConversions).sum_nat
  rw [List.map_map, List.map_map] at hsum
  exact absurd (sampleBackfilled_served.symm.trans (hsum.trans sampleBackfilled_rebuilt)) (by decide)

/-- The first of the two partitions done, and its day loaded once more. -/
def sampleReloaded : System :=
  let σ := samplePartition sampleTwoDaysLoaded 20700
  ⟨σ.lake, σ.serving.afterLoad σ.lake [20700]⟩

/-- Two days loaded, one recovered, and a load repeated that changes nothing. -/
theorem rollup_fresh_of_advances_sample : sampleReloaded.serving.Fresh := by
  have hlanded : LoadRun String.length Serving.Advances ⟨sampleTwoDaysLoaded.lake, Serving.empty⟩ := .land _ _ .empty
  have hloaded : LoadRun String.length Serving.Advances sampleTwoDaysLoaded :=
    hlanded.load (ends_materializeLoad.mpr ⟨by decide, rfl⟩)
      (Serving.advances_afterLoad (by decide) (by decide +kernel))
  have hrecovered : LoadRun String.length Serving.Advances (samplePartition sampleTwoDaysLoaded 20700) :=
    hloaded.pass (d := .backfill (some 20700)) (samplePartition_ends (by decide) (by decide) (by decide))
      (Serving.advances_afterLoad (by decide) (by decide +kernel)).afterFinalize
  exact rollup_fresh_of_advances (hrecovered.load (ends_materializeLoad.mpr ⟨by decide, rfl⟩)
    (Serving.advances_of_final (by decide +kernel) (by decide +kernel)))

end sample
end CtvAttribution
