import CtvAttribution.ReachableStates

/-! The version of a pass against the rows it corrects. The version is read from ClickHouse,
the rows from the lake: a row is superseded when something served came in late enough. -/
namespace CtvAttribution
open Library Script

/-- Landings, loads and passes, each stopped anywhere, and ClickHouse lost. -/
inductive Reached (bucketOf : String → Nat) : System → Prop where
  | empty : Reached bucketOf ⟨Lake.empty, Serving.empty⟩
  | land {σ σ' : System} {run : EngineRun} : Reached bucketOf σ → Lands σ.lake run →
      (landRun run).Leaves σ σ' → Reached bucketOf σ'
  | load {σ σ' : System} {days : List Int} : Reached bucketOf σ → (materializeLoad days).Leaves σ σ' →
      Reached bucketOf σ'
  | wipe {σ : System} : Reached bucketOf σ → Reached bucketOf { σ with serving := Serving.empty }
  | pass {σ σ' : System} {d : Driver} : Reached bucketOf σ → (d.script bucketOf).Leaves σ σ' →
      Reached bucketOf σ'

/-- Every appended row is versioned above the current hot row it corrects, and read from
then on. -/
def Supersedes (log log' : List AttributedConversion) : Prop :=
  ∃ new, log' = log ++ new ∧ ∀ y ∈ new, ∃ r, currentRow log y.conversionId = some r ∧ HotUnattributed r ∧
    r.processedAt < y.processedAt ∧ y ∈ readCurrent log' none

/-- Some served row came in less than the reconcile step before an instant, or after it; an
empty table counts as the epoch. -/
def ServedAbove (s : Serving) (t : Int) : Prop :=
  (∃ e ∈ s.exposuresFinal, t < e.ingestTime + reconcileDelta) ∨
    (∃ a ∈ s.attributedFinal, t < a.ingestTime + reconcileDelta) ∨
    ((s.exposuresFinal = [] ∨ s.attributedFinal = []) ∧ t < reconcileDelta)

section version
variable {s : Serving} {lake : Lake} {t : Int}

/-- What the version of a pass lies above. -/
theorem lt_reconciledAtFor_iff : t < reconciledAtFor s.maxIngest ↔ ServedAbove s t := by
  have hshift (m : Int) : t < m + reconcileDelta ↔ t - reconcileDelta < m := by omega
  have hzero : t < reconcileDelta ↔ t - reconcileDelta < 0 := by omega
  rw [reconciledAtFor, hshift, Serving.maxIngest, lt_max_iff, lt_maxOf_iff, lt_maxOf_iff, ServedAbove]
  simp only [hshift, hzero, List.mem_map, List.map_eq_nil_iff, exists_exists_and_eq_and]
  rw [or_and_right, or_assoc]
  exact or_congr_right or_left_comm

/-- The version of a pass is a whole millisecond, as the stored instants are. -/
theorem toUtcMs_reconciledAtFor (hlake : SoundLake lake) (hs : ServedFrom lake s) :
    toUtcMs (reconciledAtFor s.maxIngest) = reconciledAtFor s.maxIngest := by
  have hgrid {times : List Int} (h : ∀ x ∈ times, toUtcMs x = x) : toUtcMs (maxOf times) = maxOf times := by
    rcases maxOf_mem_or times with hm | ⟨_, hz⟩
    · exact h _ hm
    · rw [hz]
      rfl
  have he : toUtcMs (maxOf (s.exposuresFinal.map Exposure.ingestTime)) =
      maxOf (s.exposuresFinal.map Exposure.ingestTime) := by
    apply hgrid
    intro x hx
    obtain ⟨e, hmem, rfl⟩ := List.mem_map.mp hx
    have hin := hs.exposures e (finalRow_eq_some (mem_finalRows.mp hmem)).1
    exact congrArg Exposure.ingestTime (hlake.exposuresOnGrid e hin)
  have ha : toUtcMs (maxOf (s.attributedFinal.map fun r => r.ingestTime)) =
      maxOf (s.attributedFinal.map fun r => r.ingestTime) := by
    apply hgrid
    intro x hx
    obtain ⟨r, hmem, rfl⟩ := List.mem_map.mp hx
    have hin := hs.rows r (finalRow_eq_some (mem_finalRows.mp hmem)).1
    exact congrArg (fun r : AttributedConversion => r.ingestTime) (hlake.rowsOnGrid r hin)
  have hmax : toUtcMs s.maxIngest = s.maxIngest := by
    rcases max_choice (maxOf (s.exposuresFinal.map Exposure.ingestTime))
      (maxOf (s.attributedFinal.map fun r => r.ingestTime)) with h | h
    · rw [Serving.maxIngest, h, he]
    · rw [Serving.maxIngest, h, ha]
  rw [toUtcMs, millisecond_eq] at hmax
  rw [toUtcMs, reconciledAtFor, reconcileDelta, millisecond_eq]
  omega

end version

section order
variable {bucketOf : String → Nat} {σ σ' : System} {d : Driver}

theorem Reached.sound (h : Reached bucketOf σ) : SoundSystem σ := by
  induction h with
  | empty => exact soundSystem_empty
  | land _ hl hrun ih => exact ih.landRun hl hrun
  | load _ hload ih => exact ih.materializeLoad hload
  | wipe _ ih => exact ih.wiped
  | pass _ hpass ih => exact ih.pass hpass

/-- The corrections of some days supersede their candidates when the version of the pass
lies above each of them. -/
theorem Corrected.supersedes_iff (hσ : SoundSystem σ) {days : List Int} {rows : List AttributedConversion}
    (hc : Corrected (reconciledAtFor σ.serving.maxIngest) σ days rows σ') :
    Supersedes σ.lake.attributed σ'.lake.attributed ↔
      ∀ r ∈ candidateRows σ.lake.attributed, dayOf r.eventTime ∈ days →
        Recoverable σ.lake.exposures longWindow r → ServedAbove σ.serving r.processedAt := by
  have hlog : σ'.lake.attributed = σ.lake.attributed ++ rows.map landedRow := by
    rw [hc.lake]
    rfl
  have hat := toUtcMs_reconciledAtFor hσ.lake hσ.served
  have hversion {r x : AttributedConversion} (hx : correction σ.lake.exposures longWindow
      (reconciledAtFor σ.serving.maxIngest) r = some x) :
      (landedRow x).processedAt = reconciledAtFor σ.serving.maxIngest := by
    rw [← hat, ← (correction_fields hx).2.2.1]
    rfl
  constructor
  · intro ⟨new, hnew, h⟩ r hr hday hrec
    rw [hlog, List.append_cancel_left_eq] at hnew
    subst hnew
    obtain ⟨x, hx⟩ := exists_correction_iff.mpr hrec
    obtain ⟨s, hs, _, hlt, _⟩ := h _ ((hc.corrects.mem_iff _).mpr ⟨r, hr, hday, x, hx, rfl⟩)
    rw [(landed_correction hx).1, (mem_candidateRows.mp hr).1] at hs
    cases hs
    rw [hversion hx] at hlt
    exact lt_reconciledAtFor_iff.mp hlt
  · intro h
    refine ⟨_, hlog, fun y hy => ?_⟩
    obtain ⟨r, hr, hday, x, hx, rfl⟩ := (hc.corrects.mem_iff y).mp hy
    obtain ⟨hcur, hhot⟩ := mem_candidateRows.mp hr
    have hlt := lt_reconciledAtFor_iff.mpr (h r hr hday (exists_correction_iff.mp ⟨x, hx⟩))
    have hid := (landed_correction hx).1
    refine ⟨r, hid ▸ hcur, hhot, by rw [hversion hx]; exact hlt, ?_⟩
    have hsettled := settledRow_eq_landed hhot (by rw [hat]; exact hlt.le) hx
    rw [mem_readCurrent, hid, hlog, currentRow_land hσ.lake.lakeCandidates_eq hc.corrects, hcur, Option.map_some,
      if_pos hday, hsettled]

end order

section sample

/-- The sample run landed, its load refused. -/
def sampleUnloaded : System :=
  ⟨(Lake.empty.land sampleRun.exposures).landAttributed sampleRun.rows, Serving.empty⟩

private theorem sampleUnloaded_reached : Reached String.length sampleUnloaded := by
  have hlands : Lands Lake.empty sampleRun :=
    ⟨⟨by decide, by decide, by decide⟩, by simp [Keyed, Lake.empty, Lake.land, sampleRun], by decide⟩
  have hrun : (landRun sampleRun).Ends ⟨Lake.empty, Serving.empty⟩ (landedDays sampleRun) sampleUnloaded :=
    ends_landRun.mpr ⟨rfl, rfl⟩
  exact .land .empty hlands hrun.leaves

/-- What a pass appends when ClickHouse is empty: corrections of the first second of 1970. -/
def sampleUnversioned : List AttributedConversion :=
  (recoverDays String.length sampleUnloaded.lake [20700]
    (reconciledAtFor sampleUnloaded.serving.maxIngest)).toOption.getD []

end sample
end CtvAttribution
