import CtvAttribution.ReachableStates

/-! Re-running an interrupted pass. The rows a stopped pass appended are current in the
lake, so the next pass reloads their day only for another correction's sake. -/
namespace CtvAttribution
open Library Script

/-- Engine runs, each completely loaded. -/
inductive EngineLoaded : System → Prop where
  | empty : EngineLoaded ⟨Lake.empty, Serving.empty⟩
  | run {σ σ' : System} {run : EngineRun} {profile : String} : EngineLoaded σ → Lands σ.lake run →
      (engineMain run profile).Ends σ () σ' → EngineLoaded σ'

/-- Then passes of either driver, each of them stopped anywhere. -/
inductive Interrupted (bucketOf : String → Nat) : System → Prop where
  | loaded {σ : System} : EngineLoaded σ → Interrupted bucketOf σ
  | pass {σ σ' : System} {d : Driver} : Interrupted bucketOf σ → (d.script bucketOf).Leaves σ σ' →
      Interrupted bucketOf σ'

section interrupted
variable {bucketOf : String → Nat} {σ σ' : System} {d : Driver}

theorem EngineLoaded.sound (h : EngineLoaded σ) : SoundSystem σ := by
  induction h with
  | empty => exact soundSystem_empty
  | run _ hl hrun ih => exact ih.engineMain hl hrun

theorem Interrupted.sound (h : Interrupted bucketOf σ) : SoundSystem σ := by
  induction h with
  | loaded h => exact h.sound
  | pass _ hpass ih => exact ih.pass hpass

/-- A pass moves the current rows of the days it touched only. -/
theorem Corrected.currentRow_of_not_touched {reconciledAt : Int} {days : List Int}
    {rows : List AttributedConversion} (hσ : SoundLake σ.lake) (hc : Corrected reconciledAt σ days rows σ')
    {r : AttributedConversion} (hr : dayOf r.eventTime ∉ touched rows) {cid : String} :
    currentRow σ'.lake.attributed cid = some r ↔ currentRow σ.lake.attributed cid = some r := by
  have hland := currentRow_land hσ.lakeCandidates_eq hc.corrects cid
  have hcur : currentRow σ'.lake.attributed cid =
      currentRow (σ.lake.attributed ++ rows.map landedRow) cid := by
    rw [hc.lake]
    rfl
  rw [hcur, hland]
  cases hold : currentRow σ.lake.attributed cid with
  | none => rfl
  | some s =>
    rw [Option.map_some, Option.some.injEq, Option.some.injEq]
    by_cases hday : dayOf s.eventTime ∈ days
    · rw [if_pos hday]
      by_cases hmoves : HotUnattributed s ∧ Recoverable σ.lake.exposures longWindow s
      · have hcand : s ∈ candidateRows σ.lake.attributed :=
          mem_candidateRows.mpr ⟨currentRow_conversionId hold ▸ hold, hmoves.1⟩
        have htouched := (mem_touched_iff hc.corrects).mpr ⟨s, hcand, rfl, hday, hmoves.2⟩
        have hsday : dayOf (settledRow σ.lake.exposures longWindow reconciledAt s).eventTime =
            dayOf s.eventTime := (settledRow_toConversion s).2
        constructor
        · intro he
          rw [← he, hsday] at hr
          exact absurd htouched hr
        · intro he
          exact absurd (he ▸ htouched) hr
      · rw [settledRow_of_stays fun hhot x hx => hmoves ⟨hhot, exists_correction_iff.mp ⟨x, hx⟩⟩]
    · rw [if_neg hday]

/-- A pass that runs to completion, from any state its predecessors left, serves what the
lake reads exactly when each conversion served otherwise before shares its day with a
candidate the pass recovers. -/
theorem reconcile_heals_iff (hσ : Interrupted bucketOf σ) (hd : (d.script bucketOf).Ends σ () σ') :
    (∀ r, r ∈ σ'.serving.attributedFinal ↔ r ∈ readCurrent σ'.lake.attributed none) ↔
      ∀ r ∈ readCurrent σ.lake.attributed none, r ∉ σ.serving.attributedFinal →
        ∃ days, d.days σ.lake.attributed = .ok days ∧ dayOf r.eventTime ∈ days ∧
          ∃ c ∈ candidateRows σ.lake.attributed, dayOf c.eventTime = dayOf r.eventTime ∧
            Recoverable σ.lake.exposures longWindow c := by
  have hsound := hσ.sound
  obtain ⟨days, rows, hdays, hc, _, hσ'⟩ := ends_driver hsound.lake hd
  have hlake' := hc.soundLake hsound.lake
  have htouched (r : AttributedConversion) : dayOf r.eventTime ∈ touched rows ↔
      ∃ days, d.days σ.lake.attributed = .ok days ∧ dayOf r.eventTime ∈ days ∧
        ∃ c ∈ candidateRows σ.lake.attributed, dayOf c.eventTime = dayOf r.eventTime ∧
          Recoverable σ.lake.exposures longWindow c := by
    rw [mem_touched_iff hc.corrects]
    constructor
    · intro ⟨c, hcand, hcd, hday, hrec⟩
      exact ⟨days, hdays, hday, c, hcand, hcd, hrec⟩
    · intro ⟨days', hdays', hday, c, hcand, hcd, hrec⟩
      rw [hdays] at hdays'
      cases hdays'
      exact ⟨c, hcand, hcd, hday, hrec⟩
  have hserving (cid : String) : σ'.serving.servedRow cid =
      (σ.serving.afterLoad σ'.lake (touched rows)).servedRow cid := by
    rw [hσ']
    rfl
  have hserved : ServedFrom σ'.lake σ.serving :=
    hsound.served.mono (fun e he => hc.lake ▸ he) fun r hr => by
      rw [hc.lake]
      exact List.mem_append_left _ hr
  rw [attributedFinal_eq_iff (hc.served hsound.served)]
  simp only [← htouched, Serving.mem_attributedFinal, mem_readCurrent, hserving]
  constructor
  · intro h r hr hstale
    by_contra hday
    have hr' := (hc.currentRow_of_not_touched hsound.lake hday).mpr hr
    have hnow := h r hr'
    rw [servedRow_of_not_loaded hlake'.sameDay hr' hday] at hnow
    exact hstale hnow
  · intro h r hr
    by_cases hday : dayOf r.eventTime ∈ touched rows
    · exact servedRow_of_loaded hlake'.sameDay hr hserved hday
    · have hold := (hc.currentRow_of_not_touched hsound.lake hday).mp hr
      rw [servedRow_of_not_loaded hlake'.sameDay hr hday]
      by_contra hstale
      exact hday (h r hold hstale)

/-- A pass stopped right after its append. -/
theorem leaves_reconcileRun_landed {days : List Int} {rows : List AttributedConversion}
    (hdays : candidateDays σ.lake.attributed = .ok days)
    (hrows : recoverDays bucketOf σ.lake days (reconciledAtFor σ.serving.maxIngest) = .ok rows) :
    (reconcileRun bucketOf).Leaves σ { σ with lake := σ.lake.landAttributed rows } := by
  refine leaves_bind_of_ends (ends_get.mpr ⟨rfl, rfl⟩) ?_
  refine leaves_bind_of_ends (ends_orRaise.mpr ⟨rfl, hdays⟩) ?_
  refine leaves_bind_of_ends (ends_orRaise.mpr ⟨rfl, hrows⟩) ?_
  have hland : (onLake fun lake => lake.landAttributed rows).Ends σ ()
      { σ with lake := σ.lake.landAttributed rows } := ends_onLake.mpr rfl
  exact leaves_bind_of_ends hland (leaves_self _ _)

end interrupted

section sample

/-- The sample run, landed and loaded. -/
def sampleLoaded : System :=
  let lake := (Lake.empty.land sampleRun.exposures).landAttributed sampleRun.rows
  ⟨lake, { Serving.empty.afterLoad lake [20700] with evalMeta := ["tiny"] }⟩

/-- The pass that appended its corrections and was stopped. -/
def sampleStopped : System :=
  let recovered := (recoverDays String.length sampleLoaded.lake [20700]
    (reconciledAtFor sampleLoaded.serving.maxIngest)).toOption.getD []
  { sampleLoaded with lake := sampleLoaded.lake.landAttributed recovered }

/-- The next pass finds no candidate. -/
def sampleRerun : System := { sampleStopped with serving := sampleStopped.serving.afterFinalize }

private theorem sampleLoaded_engineLoaded : EngineLoaded sampleLoaded := by
  have hlands : Lands Lake.empty sampleRun :=
    ⟨⟨by decide, by decide, by decide⟩, by simp [Keyed, Lake.empty, Lake.land, sampleRun], by decide⟩
  have hends : (engineMain sampleRun "tiny").Ends ⟨Lake.empty, Serving.empty⟩ () sampleLoaded :=
    ends_engineMain.mpr ⟨by decide, by decide⟩
  exact .run .empty hlands hends

private theorem sampleStopped_interrupted : Interrupted String.length sampleStopped := by
  have hdays : candidateDays sampleLoaded.lake.attributed = .ok [20700] := by decide
  have hleft : (Driver.run.script String.length).Leaves sampleLoaded sampleStopped :=
    leaves_reconcileRun_landed hdays (by decide)
  exact .pass (.loaded sampleLoaded_engineLoaded) hleft

private theorem sampleRerun_ends : (Driver.run.script String.length).Ends sampleStopped () sampleRerun := by
  refine ends_reconcileRun.mpr ⟨[], [], by decide, rfl, nofun, ?_⟩
  have hnone : touched [] = [] := rfl
  rw [landAttributed_nil, hnone, Serving.afterLoad, if_pos rfl]
  rfl

theorem reconcile_heals_iff_sample :
    (∀ r, r ∈ sampleRerun.serving.attributedFinal ↔ r ∈ readCurrent sampleRerun.lake.attributed none) ↔
      ∀ r ∈ readCurrent sampleStopped.lake.attributed none, r ∉ sampleStopped.serving.attributedFinal →
        ∃ days, Driver.run.days sampleStopped.lake.attributed = .ok days ∧ dayOf r.eventTime ∈ days ∧
          ∃ c ∈ candidateRows sampleStopped.lake.attributed, dayOf c.eventTime = dayOf r.eventTime ∧
            Recoverable sampleStopped.lake.exposures longWindow c :=
  reconcile_heals_iff sampleStopped_interrupted sampleRerun_ends

/-- Stopped between its append and its load, the pass is not healed by the next one: the
lake reads the correction, ClickHouse serves the hot row. -/
theorem reconcile_not_healed : ∃ σ σ', Interrupted String.length σ ∧
    (Driver.run.script String.length).Ends σ () σ' ∧
    ¬ ∀ r, r ∈ σ'.serving.attributedFinal ↔ r ∈ readCurrent σ'.lake.attributed none := by
  refine ⟨_, _, sampleStopped_interrupted, sampleRerun_ends, fun h => ?_⟩
  have hserved : ∀ r ∈ readCurrent sampleRerun.lake.attributed none, r ∈ sampleRerun.serving.attributedFinal :=
    fun r hr => (h r).mpr hr
  revert hserved
  decide

end sample
end CtvAttribution
