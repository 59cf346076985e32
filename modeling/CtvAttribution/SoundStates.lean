import CtvAttribution.LandedRun
import CtvAttribution.SystemRuns

/-! What holds of both stores whenever a driver is stopped, and what either reconcile
driver has appended by then. -/
namespace CtvAttribution
open Library Script

/-- The serving tables hold rows of the lake only. -/
structure ServedFrom (lake : Lake) (s : Serving) : Prop where
  exposures : ∀ e ∈ s.exposuresLanded, e ∈ lake.exposures
  rows : ∀ r ∈ s.attributedConversions, r ∈ lake.attributed

/-- A lake the engine and the passes land in. -/
structure SoundLake (lake : Lake) : Prop where
  keyed : Keyed Exposure.exposureId lake.exposures
  sameDay : SameDay lake.attributed
  checked : ∀ r ∈ lake.attributed, HotUnattributed r → checkCandidate r = .ok ()
  exposuresOnGrid : ∀ e ∈ lake.exposures, landedExposure e = e
  rowsOnGrid : ∀ r ∈ lake.attributed, landedRow r = r

/-- The lake is pinned, and the serving tables keep `I`. -/
structure Over (lake : Lake) (I : Serving → Prop) (σ : System) : Prop where
  lake : σ.lake = lake
  serving : I σ.serving

section served
variable {lake : Lake} {s t : Serving} {σ σ' : System} {days : List Int}

theorem mem_of_mem_batched {α : Type} {n : Nat} {l chunk : List α} (hn : 0 < n) (h : chunk ∈ batched n l)
    {a : α} (ha : a ∈ chunk) : a ∈ l := by
  rw [← flatten_batched hn l]
  exact List.mem_flatten.mpr ⟨chunk, h, ha⟩

theorem mem_of_mem_readExposuresForDays {log : List Exposure} {e : Exposure}
    (h : e ∈ readExposuresForDays log days) : e ∈ log ∧ dayOf e.eventTime ∈ days := by
  rw [readExposuresForDays, mem_sortedBy, mem_firstSeen, List.mem_filter, dayRangesPredicate_iff] at h
  exact h

theorem mem_of_mem_readCurrent {log : List AttributedConversion} {days : Option (List Int)}
    {r : AttributedConversion} (h : r ∈ readCurrent log days) : r ∈ log := by
  rw [readCurrent, mem_sortedBy, mem_collapse, current_firstSeen] at h
  have hm := (current_eq_some h).1
  cases days with
  | none => exact hm
  | some days => exact (List.mem_filter.mp hm).1

/-- What inserts of rows of the lake keep, and statements on the other tables. -/
structure TableInvariant (lake : Lake) (I : Serving → Prop) : Prop where
  exposures : ∀ s chunk, I s → (∀ e ∈ chunk, e ∈ lake.exposures) →
    I { s with exposuresLanded := s.exposuresLanded ++ chunk }
  rows : ∀ s chunk, I s → (∀ r ∈ chunk, r ∈ lake.attributed) →
    I { s with attributedConversions := s.attributedConversions ++ chunk }
  bookkeeping : ∀ s t, t.exposuresLanded = s.exposuresLanded →
    t.attributedConversions = s.attributedConversions → I s → I t

theorem tableInvariant_served (lake : Lake) : TableInvariant lake (ServedFrom lake) where
  exposures s chunk hs h := by
    refine ⟨fun e he => ?_, hs.rows⟩
    rcases List.mem_append.mp he with he | he
    · exact hs.exposures e he
    · exact h e he
  rows s chunk hs h := by
    refine ⟨hs.exposures, fun r hr => ?_⟩
    rcases List.mem_append.mp hr with hr | hr
    · exact hs.rows r hr
    · exact h r hr
  bookkeeping s t he hr hs := ⟨he ▸ hs.exposures, hr ▸ hs.rows⟩

section tables
variable {I : Serving → Prop} (hI : TableInvariant lake I)
include hI

theorem keeps_insertExposures {rows : List Exposure} (h : ∀ e ∈ rows, e ∈ lake.exposures) :
    (insertExposures rows).Keeps I := by
  apply keeps_forEach
  intro chunk hchunk
  apply keeps_modify
  intro s hs
  exact hI.exposures s chunk hs fun e he => h e (mem_of_mem_batched (by decide) hchunk he)

theorem keeps_insertAttributed {rows : List AttributedConversion} (h : ∀ r ∈ rows, r ∈ lake.attributed) :
    (insertAttributed rows).Keeps I := by
  apply keeps_forEach
  intro chunk hchunk
  apply keeps_modify
  intro s hs
  exact hI.rows s chunk hs fun r hr => h r (mem_of_mem_batched (by decide) hchunk hr)

/-- The other tables are bookkeeping here. -/
theorem keeps_bookkeeping {f : Serving → Serving} (he : ∀ s, (f s).exposuresLanded = s.exposuresLanded)
    (hr : ∀ s, (f s).attributedConversions = s.attributedConversions) :
    (Script.modify f : ServingScript).Keeps I := by
  apply keeps_modify
  intro s hs
  exact hI.bookkeeping s (f s) (he s) (hr s) hs

theorem keeps_insertDirty (stamps : Serving → List RollupStamp) :
    (Script.modify fun s => s.insertDirty (stamps s) : ServingScript).Keeps I :=
  keeps_bookkeeping hI (fun _ => rfl) fun _ => rfl

theorem keeps_loadExposuresDay (day : Int) : (loadExposuresDay lake.exposures day).Keeps I := by
  apply keeps_bind' (keeps_insertExposures hI fun e he => (mem_of_mem_readExposuresForDays he).1)
  intro _
  exact keeps_bind' (keeps_insertDirty hI _) fun _ => keeps_insertDirty hI _

theorem keeps_loadAttributedDay (day : Int) : (loadAttributedDay lake.attributed day).Keeps I := by
  apply keeps_bind' (keeps_insertAttributed hI fun r hr => mem_of_mem_readCurrent hr)
  intro _
  exact keeps_insertDirty hI _

theorem keeps_refreshCampaignHourly : refreshCampaignHourly.Keeps I := by
  apply keeps_get_bind
  intro s hs t ht
  dsimp only at ht
  split at ht
  · rw [leaves_pure.mp ht]
    exact hs
  · refine keeps_bind' (keeps_bookkeeping hI ?_ ?_) (fun _ => keeps_bookkeeping hI ?_ ?_) s t hs ht <;>
      intro _ <;> rfl

end tables

/-- A statement on ClickHouse leaves the lake alone. -/
theorem leaves_onServing {p : ServingScript} (h : (onServing p).Leaves σ σ') :
    ∃ s, p.Leaves σ.serving s ∧ σ' = { σ with serving := s } := by
  have hview (σ : System) (s : Serving) : System.serving { σ with serving := s } = s := rfl
  exact leaves_zoom hview (fun _ _ _ => rfl) (fun _ => rfl) h

private theorem keeps_onServing {I : System → Prop} {p : ServingScript}
    (h : ∀ σ, I σ → ∀ s, p.Leaves σ.serving s → I { σ with serving := s }) : (onServing p).Keeps I := by
  intro σ σ' hσ hl
  obtain ⟨s, hs, rfl⟩ := leaves_onServing hl
  exact h σ hσ s hs

section pinned
variable {I : Serving → Prop}

theorem keeps_over {p : ServingScript} (h : p.Keeps I) : (onServing p).Keeps (Over lake I) := by
  apply keeps_onServing
  intro σ hσ s hs
  exact ⟨hσ.lake, h _ _ hσ.serving hs⟩

private theorem keeps_loadDay_of_keeps {day : Int} (he : (loadExposuresDay lake.exposures day).Keeps I)
    (ha : (loadAttributedDay lake.attributed day).Keeps I) : (loadDay day).Keeps (Over lake I) := by
  apply keeps_get_bind
  intro σ hσ τ hτ
  rw [hσ.lake] at hτ
  refine keeps_bind' (keeps_over he) (fun _ => ?_) σ τ hσ hτ
  apply keeps_get_bind
  intro σ hσ τ hτ
  rw [hσ.lake] at hτ
  exact keeps_over ha σ τ hσ hτ

/-- What the loads of its days and the refresh keep, a load stopped anywhere keeps. -/
theorem keeps_materializeLoad_of_days {days : List Int}
    (he : ∀ day ∈ days, (loadExposuresDay lake.exposures day).Keeps I)
    (ha : ∀ day ∈ days, (loadAttributedDay lake.attributed day).Keeps I)
    (hr : refreshCampaignHourly.Keeps I) : (materializeLoad days).Keeps (Over lake I) := by
  rw [materializeLoad_eq]
  split
  · exact keeps_done ()
  · split
    · refine keeps_bind' (keeps_forEach fun day hday => ?_) fun _ => keeps_over hr
      have hmem : day ∈ days := mem_sortedSet.mp hday
      exact keeps_loadDay_of_keeps (he day hmem) (ha day hmem)
    · intro σ τ hσ hτ
      rw [leaves_fail.mp hτ]
      exact hσ

variable (he : ∀ day, (loadExposuresDay lake.exposures day).Keeps I)
  (ha : ∀ day, (loadAttributedDay lake.attributed day).Keeps I)
include he ha

theorem keeps_loadDay (day : Int) : (loadDay day).Keeps (Over lake I) := keeps_loadDay_of_keeps (he day) (ha day)

theorem keeps_materializeLoad (hr : refreshCampaignHourly.Keeps I) (days : List Int) :
    (materializeLoad days).Keeps (Over lake I) :=
  keeps_materializeLoad_of_days (fun day _ => he day) (fun day _ => ha day) hr

end pinned

section frame
variable {I : Serving → Prop}
  (hI : ∀ s t, t.evalMeta = s.evalMeta → t.reportSnapshots = s.reportSnapshots → I s → I t)
include hI

private theorem keeps_frame_refresh : refreshCampaignHourly.Keeps I := by
  apply keeps_get_bind
  intro s hs t ht
  dsimp only at ht
  split at ht
  · rw [leaves_pure.mp ht]
    exact hs
  · refine keeps_bind' (keeps_modify ?_) (fun _ => keeps_modify ?_) s t hs ht <;>
      exact fun s h => hI s _ rfl rfl h

/-- A load writes neither markers nor report snapshots. -/
theorem keeps_frame_materializeLoad (days : List Int) : (materializeLoad days).Keeps (Over lake I) := by
  refine keeps_materializeLoad (fun day => ?_) (fun day => ?_) (keeps_frame_refresh hI) days
  · exact keeps_bind' (keeps_forEach fun _ _ => keeps_modify fun s h => hI s _ rfl rfl h) fun _ =>
      keeps_bind' (keeps_modify fun s h => hI s _ rfl rfl h) fun _ => keeps_modify fun s h => hI s _ rfl rfl h
  · exact keeps_bind' (keeps_forEach fun _ _ => keeps_modify fun s h => hI s _ rfl rfl h) fun _ =>
      keeps_modify fun s h => hI s _ rfl rfl h

end frame

theorem keeps_served_materializeLoad (lake : Lake) (days : List Int) :
    (materializeLoad days).Keeps (Over lake (ServedFrom lake)) :=
  have hI := tableInvariant_served lake
  keeps_materializeLoad (keeps_loadExposuresDay hI) (keeps_loadAttributedDay hI) (keeps_refreshCampaignHourly hI) days

theorem keeps_served_finalize (lake : Lake) : finalize.Keeps (Over lake (ServedFrom lake)) :=
  have hI := tableInvariant_served lake
  keeps_bind' (keeps_over (keeps_bookkeeping hI (fun _ => rfl) fun _ => rfl)) fun _ =>
    keeps_over (keeps_bookkeeping hI (fun _ => rfl) fun _ => rfl)

theorem keeps_served_writeMarker (lake : Lake) (profile : String) :
    (writeMarker profile).Keeps (Over lake (ServedFrom lake)) :=
  keeps_over (keeps_bookkeeping (tableInvariant_served lake) (fun _ => rfl) fun _ => rfl)

theorem keeps_true {α : Type} (p : Script Serving Failure α) : p.Keeps fun _ => True := fun _ _ _ _ => trivial

/-- Loading never touches the lake. -/
theorem lake_of_leaves_materializeLoad (h : (materializeLoad days).Leaves σ σ') : σ'.lake = σ.lake :=
  (keeps_materializeLoad (fun _ => keeps_true _) (fun _ => keeps_true _) (keeps_true _) days σ σ'
    ⟨rfl, trivial⟩ h).lake

theorem lake_of_leaves_finalize (h : finalize.Leaves σ σ') : σ'.lake = σ.lake :=
  (keeps_bind' (keeps_over (keeps_true _)) (fun _ => keeps_over (keeps_true _)) σ σ' ⟨rfl, trivial⟩ h).lake

theorem lake_of_leaves_truncateAndReload (h : (truncateAndReload days).Leaves σ σ') : σ'.lake = σ.lake := by
  rw [truncateAndReload_eq] at h
  split at h
  · rw [leaves_fail.mp h]
  · rcases leaves_bind' h with h₁ | ⟨_, m, hm, h₁⟩
    · exact (keeps_forEach (fun _ _ => keeps_over (keeps_true _)) σ σ' ⟨rfl, trivial⟩ h₁).lake
    · rw [lake_of_leaves_materializeLoad h₁]
      exact (keeps_forEach (fun _ _ => keeps_over (keeps_true _)) σ m ⟨rfl, trivial⟩ hm.leaves).lake

end served
end CtvAttribution
