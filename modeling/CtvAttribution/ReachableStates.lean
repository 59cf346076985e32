import CtvAttribution.ReconcilePass
import CtvAttribution.TableLoads

/-! The states the drivers reach from empty stores, wherever they are stopped. -/
namespace CtvAttribution
open Library Script

/-- A hot run over the records landed so far: an exposure id names one exposure, the rows
of a conversion carry its event time. -/
structure Lands (lake : Lake) (run : EngineRun) : Prop where
  hot : HotRun run.rows
  exposures : Keyed Exposure.exposureId (lake.land run.exposures).exposures
  eventTimes : ∀ r ∈ (lake.landAttributed run.rows).attributed, ∀ s ∈ (lake.landAttributed run.rows).attributed,
    r.conversionId = s.conversionId → r.eventTime = s.eventTime

section lands
variable {lake : Lake} {run : EngineRun}

theorem soundLake_empty : SoundLake Lake.empty := by
  constructor <;> simp [Lake.empty, Keyed, SameDay]

theorem SoundLake.land (h : SoundLake lake) (hl : Lands lake run) : SoundLake (lake.land run.exposures) where
  keyed := hl.exposures
  sameDay := h.sameDay
  checked := h.checked
  exposuresOnGrid e he := by
    rcases List.mem_append.mp he with he | he
    · exact h.exposuresOnGrid e he
    · obtain ⟨x, _, rfl⟩ := List.mem_map.mp he
      exact landedExposure_landedExposure x
  rowsOnGrid := h.rowsOnGrid

theorem SoundLake.landRun (h : SoundLake lake) (hl : Lands lake run) :
    SoundLake ((lake.land run.exposures).landAttributed run.rows) where
  keyed := hl.exposures
  sameDay r hr s hs he := congrArg dayOf (hl.eventTimes r hr s hs he)
  checked y hy hhot := by
    rcases List.mem_append.mp hy with hy | hy
    · exact h.checked y hy hhot
    · obtain ⟨r, hr, rfl⟩ := List.mem_map.mp hy
      exact hl.hot.checked r hr
  exposuresOnGrid := (h.land hl).exposuresOnGrid
  rowsOnGrid y hy := by
    rcases List.mem_append.mp hy with hy | hy
    · exact h.rowsOnGrid y hy
    · obtain ⟨r, _, rfl⟩ := List.mem_map.mp hy
      exact landedRow_landedRow r

theorem ServedFrom.mono {lake' : Lake} {s : Serving} (h : ServedFrom lake s)
    (he : ∀ e ∈ lake.exposures, e ∈ lake'.exposures) (hr : ∀ r ∈ lake.attributed, r ∈ lake'.attributed) :
    ServedFrom lake' s :=
  ⟨fun e hes => he e (h.exposures e hes), fun r hrs => hr r (h.rows r hrs)⟩

end lands

/-- Both stores in order: a sound lake, and nothing served that is not in it. -/
structure SoundSystem (σ : System) : Prop where
  lake : SoundLake σ.lake
  served : ServedFrom σ.lake σ.serving

section sound
variable {σ σ' : System} {run : EngineRun} {bucketOf : String → Nat}

theorem servedFrom_empty (lake : Lake) : ServedFrom lake Serving.empty := by
  constructor <;> simp [Serving.empty]

theorem soundSystem_empty : SoundSystem ⟨Lake.empty, Serving.empty⟩ := ⟨soundLake_empty, servedFrom_empty _⟩

theorem SoundSystem.wiped (h : SoundSystem σ) : SoundSystem { σ with serving := Serving.empty } :=
  ⟨h.lake, servedFrom_empty _⟩

theorem SoundSystem.landed (h : SoundSystem σ) (hl : Lands σ.lake run) :
    SoundSystem { σ with lake := (σ.lake.land run.exposures).landAttributed run.rows } :=
  ⟨h.lake.landRun hl, h.served.mono (fun _ he => List.mem_append_left _ he) fun _ hr => List.mem_append_left _ hr⟩

/-- A landing stopped anywhere. -/
theorem SoundSystem.landRun (h : SoundSystem σ) (hl : Lands σ.lake run) (hrun : (landRun run).Leaves σ σ') :
    SoundSystem σ' := by
  rcases leaves_landRun hrun with rfl | rfl | rfl
  · exact h
  · exact ⟨h.lake.land hl, h.served.mono (fun _ he => List.mem_append_left _ he) fun _ hr => hr⟩
  · exact h.landed hl

/-- A load stopped anywhere. -/
theorem SoundSystem.materializeLoad (h : SoundSystem σ) {days : List Int}
    (hl : (materializeLoad days).Leaves σ σ') : SoundSystem σ' := by
  have hkeep := keeps_served_materializeLoad σ.lake days σ σ' ⟨rfl, h.served⟩ hl
  have hlake := hkeep.lake
  exact ⟨hlake ▸ h.lake, hlake ▸ hkeep.serving⟩

/-- An engine run completely loaded. -/
theorem SoundSystem.engineMain (h : SoundSystem σ) (hl : Lands σ.lake run) {profile : String}
    (hrun : (engineMain run profile).Ends σ () σ') : SoundSystem σ' := by
  obtain ⟨days, m, hm, h₁⟩ := ends_bind'.mp hrun
  obtain ⟨_, n, hn, h₂⟩ := ends_bind'.mp h₁
  have hloaded := (h.landRun hl hm.leaves).materializeLoad hn.leaves
  have hkeep := keeps_served_writeMarker n.lake profile n σ' ⟨rfl, hloaded.served⟩ h₂.leaves
  have hlake := hkeep.lake
  exact ⟨hlake ▸ hloaded.lake, hlake ▸ hkeep.serving⟩

/-- A pass stopped anywhere. -/
theorem SoundSystem.pass (h : SoundSystem σ) {d : Driver} (hd : (d.script bucketOf).Leaves σ σ') :
    SoundSystem σ' := by
  obtain ⟨_, _, _, hc⟩ := leaves_driver h.lake hd
  exact ⟨hc.soundLake h.lake, hc.served h.served⟩

end sound
end CtvAttribution
