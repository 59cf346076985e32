import CtvAttribution.ReconcilePass

/-! Reprocessing one hot run: landings of the run, whole passes and reloads in any order.
The first pass settles every conversion; nothing after it moves the current rows. -/
namespace CtvAttribution
open Library Script

section congr
variable {l m : List Exposure} (hk : Keyed Exposure.exposureId l) (h : ∀ e, e ∈ l ↔ e ∈ m)
  (window reconciledAt : Int) (r : AttributedConversion)
include hk h

private theorem bestExposure_congr : bestExposure l r window = bestExposure m r window := by
  apply argmax_congr
  · exact keyed_recency (hk.mono fun e he => (mem_eligible.mp (mem_creditable.mp he).1).1)
  · intro e
    simp only [mem_creditable, mem_eligible, h]

/-- A correction depends on the set of exposures only. -/
theorem correction_congr : correction l window reconciledAt r = correction m window reconciledAt r := by
  have hassists (w : Exposure) : assistsOf (ofHousehold l w.householdId) (recordIn r w.householdId) window =
      assistsOf (ofHousehold m w.householdId) (recordIn r w.householdId) window := by
    have hkw : Keyed Exposure.exposureId (ofHousehold l w.householdId) :=
      hk.mono fun e he => (List.mem_filter.mp he).1
    have hel (e : Exposure) : e ∈ eligible (ofHousehold l w.householdId) (recordIn r w.householdId) window ↔
        e ∈ eligible (ofHousehold m w.householdId) (recordIn r w.householdId) window := by
      rw [mem_eligible_ofHousehold, mem_eligible_ofHousehold, mem_eligible, mem_eligible, h]
    exact assistsOf_congr hkw hel
  unfold correction correctedRow
  simp only [bestExposure_congr hk h, hassists]

private theorem settledRow_congr : settledRow l window reconciledAt r = settledRow m window reconciledAt r := by
  unfold settledRow
  rw [correction_congr hk h]

end congr

section absorb
variable {exposures : List Exposure} {window reconciledAt : Int}

/-- Settling never lowers the version. -/
theorem recordVersion_le_settledRow (r : AttributedConversion) :
    recordVersion r ≤ recordVersion (settledRow exposures window reconciledAt r) := by
  unfold settledRow
  cases correction exposures window reconciledAt r with
  | none => exact le_rfl
  | some x =>
    dsimp only
    split
    · rename_i h
      exact h.2.le
    · exact le_rfl

/-- Once settled above its candidate a row is left alone by every later pass. -/
theorem settledRow_absorbs {r : AttributedConversion} {later : Int}
    (hver : HotUnattributed r → r.processedAt ≤ toUtcMs reconciledAt) :
    settledRow exposures window later (settledRow exposures window reconciledAt r) =
      settledRow exposures window reconciledAt r := by
  cases hx : correction exposures window reconciledAt r with
  | none =>
    have hlater : correction exposures window later r = none :=
      correction_eq_none.mpr (correction_eq_none.mp hx)
    rw [settledRow_of_none hx, settledRow_of_none hlater]
  | some x =>
    by_cases hhot : HotUnattributed r
    · rw [settledRow_eq_landed hhot (hver hhot) hx]
      exact settledRow_of_not_hot (not_hotUnattributed_of_correction hx)
    · rw [settledRow_of_not_hot hhot, settledRow_of_not_hot hhot]

end absorb

/-- Landing the run again, reloading, replaying and whole passes; the list holds the
versions of the passes. -/
inductive Reprocessing (bucketOf : String → Nat) (run : EngineRun) : System → List Int → System → Prop where
  | start (σ : System) : Reprocessing bucketOf run σ [] σ
  | landAgain {σ τ τ' : System} {passes days : List Int} : Reprocessing bucketOf run σ passes τ →
      (landRun run).Ends τ days τ' → Reprocessing bucketOf run σ passes τ'
  | reload {σ τ τ' : System} {passes : List Int} (days : List Int) : Reprocessing bucketOf run σ passes τ →
      (materializeLoad days).Ends τ () τ' → Reprocessing bucketOf run σ passes τ'
  | replay {σ τ τ' : System} {passes : List Int} (days : List Int) : Reprocessing bucketOf run σ passes τ →
      (truncateAndReload days).Ends τ () τ' → Reprocessing bucketOf run σ passes τ'
  | pass {σ τ τ' : System} {passes : List Int} {d : Driver} : Reprocessing bucketOf run σ passes τ →
      d = .run ∨ d = .backfill none →
      (∀ r ∈ run.rows, r.processedAt < reconciledAtFor τ.serving.maxIngest) →
      (d.script bucketOf).Ends τ () τ' →
      Reprocessing bucketOf run σ (passes ++ [reconciledAtFor τ.serving.maxIngest]) τ'

/-- The lake a hot run is landed in, after exposures landed before. -/
def landedLake (others : List Exposure) (run : EngineRun) : Lake :=
  ((Lake.empty.land others).land run.exposures).landAttributed run.rows

/-- What the first pass makes of the rows as landed. -/
def afterFirst (exposures : List Exposure) (passes : List Int) (r : AttributedConversion) :
    AttributedConversion :=
  match passes.head? with
  | none => r
  | some reconciledAt => settledRow exposures longWindow reconciledAt r

section afterFirst
variable {exposures : List Exposure} {passes : List Int} {r : AttributedConversion}

private theorem afterFirst_of_head {reconciledAt : Int} (h : passes.head? = some reconciledAt) :
    afterFirst exposures passes r = settledRow exposures longWindow reconciledAt r := by
  unfold afterFirst
  rw [h]

/-- Later passes make no difference. -/
theorem afterFirst_append (hne : passes ≠ []) (later : List Int) :
    afterFirst exposures (passes ++ later) = afterFirst exposures passes := by
  funext r
  unfold afterFirst
  rw [List.head?_append_of_ne_nil _ hne]

private theorem afterFirst_of_attributed (h : r.attributed = true) : afterFirst exposures passes r = r := by
  unfold afterFirst
  cases passes.head? with
  | none => rfl
  | some first =>
    apply settledRow_of_not_hot
    intro hhot
    cases h.symm.trans hhot.1

end afterFirst

/-- The lake after some reprocessing: the landed exposures and rows, each conversion where
the first pass took it. -/
structure Reprocessed (lake₀ : Lake) (passes : List Int) (lake : Lake) : Prop where
  exposures : ∀ e, e ∈ lake.exposures ↔ e ∈ lake₀.exposures
  sound : SoundLake lake
  landed : ∀ r ∈ lake₀.attributed, r ∈ lake.attributed
  current : ∀ cid, currentRow lake.attributed cid =
    (currentRow lake₀.attributed cid).map (afterFirst lake₀.exposures passes)

namespace Reprocessed
variable {lake₀ lake : Lake} {passes : List Int}

/-- Rows landed once more are older than what is current. -/
theorem landAgain (h : Reprocessed lake₀ passes lake) {es : List Exposure} {rows : List AttributedConversion}
    (hes : ∀ e ∈ es, landedExposure e ∈ lake₀.exposures) (hrows : rows.map landedRow = lake₀.attributed) :
    Reprocessed lake₀ passes ((lake.land es).landAttributed rows) := by
  have hexp (e : Exposure) : e ∈ ((lake.land es).landAttributed rows).exposures ↔ e ∈ lake.exposures := by
    simp only [Lake.landAttributed, Lake.land, List.mem_append, List.mem_map, or_iff_left_iff_imp]
    intro h
    obtain ⟨x, hx, he⟩ := h
    rw [h.exposures, ← he]
    exact hes x hx
  have hlog (r : AttributedConversion) :
      r ∈ ((lake.land es).landAttributed rows).attributed ↔ r ∈ lake.attributed := by
    simp only [Lake.landAttributed, Lake.land, hrows, List.mem_append, or_iff_left_iff_imp]
    exact h.landed r
  refine ⟨fun e => (hexp e).trans (h.exposures e), ⟨?_, ?_, ?_, ?_, ?_⟩, fun r hr => (hlog r).mpr (h.landed r hr),
    fun cid => ?_⟩
  · exact h.sound.keyed.mono fun e he => (hexp e).mp he
  · intro r hr s hs
    exact h.sound.sameDay r ((hlog r).mp hr) s ((hlog s).mp hs)
  · exact fun r hr => h.sound.checked r ((hlog r).mp hr)
  · exact fun e he => h.sound.exposuresOnGrid e ((hexp e).mp he)
  · exact fun r hr => h.sound.rowsOnGrid r ((hlog r).mp hr)
  · have happend : ((lake.land es).landAttributed rows).attributed = lake.attributed ++ lake₀.attributed := by
      rw [← hrows]
      rfl
    rw [happend, currentRow_append, h.current]
    cases currentRow lake₀.attributed cid with
    | none => rfl
    | some r =>
      apply newer_eq_left
      intro s hs
      cases hs
      unfold afterFirst
      cases passes.head? with
      | none => exact le_rfl
      | some reconciledAt => exact recordVersion_le_settledRow r

/-- Before the first pass every current row is hot. -/
theorem hot_of_no_pass (h : Reprocessed lake₀ [] lake) (hhot : ∀ y ∈ lake₀.attributed, y.path = .hot) :
    ∀ r ∈ readCurrent lake.attributed none, r.path = .hot := by
  intro r hr
  rw [mem_readCurrent, h.current, Option.map_eq_some_iff] at hr
  obtain ⟨y, hy, rfl⟩ := hr
  exact hhot y (currentRow_mem hy)

/-- The first pass settles the rows, a later one finds nothing to move. -/
theorem pass (h : Reprocessed lake₀ passes lake)
    (hver₀ : ∀ at₀, passes.head? = some at₀ → ∀ r ∈ lake₀.attributed, r.processedAt ≤ toUtcMs at₀)
    {σ σ' : System} {reconciledAt : Int} {days : List Int} {rows : List AttributedConversion}
    (hσ : σ.lake = lake) (hc : Corrected reconciledAt σ days rows σ')
    (hcover : ∀ r ∈ candidateRows lake.attributed, dayOf r.eventTime ∈ days) :
    Reprocessed lake₀ (passes ++ [reconciledAt]) σ'.lake := by
  subst hσ
  refine ⟨fun e => ?_, hc.soundLake h.sound, fun r hr => ?_, fun cid => ?_⟩
  · rw [hc.lake]
    exact h.exposures e
  · rw [hc.lake]
    exact List.mem_append_left _ (h.landed r hr)
  · have hset := (Settles.land h.sound.sameDay h.sound.lakeCandidates_eq hc.corrects).current_of_covers
      h.sound.lakeCandidates_eq hcover cid
    rw [hc.lake, Lake.landAttributed, hset, h.current, Option.map_map]
    apply Option.map_congr
    intro r hr
    have hmem := currentRow_mem hr
    rw [Function.comp_apply, settledRow_congr h.sound.keyed h.exposures]
    cases passes with
    | nil => rfl
    | cons at₀ later => exact settledRow_absorbs fun _ => hver₀ at₀ rfl r hmem

end Reprocessed

section converge
variable {bucketOf : String → Nat} {run : EngineRun} {others : List Exposure} {σ τ υ : System}
  {passes later : List Int}

theorem Reprocessing.trans (h : Reprocessing bucketOf run σ passes τ) (h' : Reprocessing bucketOf run τ later υ) :
    Reprocessing bucketOf run σ (passes ++ later) υ := by
  induction h' with
  | start => rwa [List.append_nil]
  | landAgain _ hland ih => exact .landAgain ih hland
  | reload days _ hload ih => exact .reload days ih hload
  | replay days _ hload ih => exact .replay days ih hload
  | pass _ hd hver hpass ih =>
    rw [← List.append_assoc]
    exact .pass ih hd hver hpass

/-- A whole pass covers every candidate's day. -/
theorem Driver.days_cover {lake : Lake} (h : SoundLake lake) {d : Driver} (hd : d = .run ∨ d = .backfill none)
    {days : List Int} (hdays : d.days lake.attributed = .ok days) :
    ∀ r ∈ candidateRows lake.attributed, dayOf r.eventTime ∈ days := by
  have hcand : d.days lake.attributed = candidateDays lake.attributed := by
    rcases hd with rfl | rfl <;> rfl
  rw [hcand, h.candidateDays_eq] at hdays
  cases hdays
  intro r hr
  rw [mem_sortedSet]
  exact List.mem_map_of_mem hr

private theorem HotRun.landed_hot (hrun : HotRun run.rows) :
    ∀ y ∈ (landedLake others run).attributed, y.path = .hot := by
  intro y hy
  obtain ⟨r, hr, rfl⟩ := List.mem_map.mp hy
  exact hrun.hot r hr

private theorem landedLake_sound (hrun : HotRun run.rows)
    (hk : Keyed Exposure.exposureId (landedLake others run).exposures) : SoundLake (landedLake others run) where
  keyed := hk
  sameDay := hrun.sameDay
  checked y hy _ := by
    obtain ⟨r, hr, rfl⟩ := List.mem_map.mp hy
    exact hrun.checked r hr
  exposuresOnGrid e he := by
    simp only [landedLake, Lake.landAttributed, Lake.land, Lake.empty, List.nil_append, ← List.map_append] at he
    obtain ⟨x, _, rfl⟩ := List.mem_map.mp he
    exact landedExposure_landedExposure x
  rowsOnGrid y hy := by
    obtain ⟨r, _, rfl⟩ := List.mem_map.mp hy
    exact landedRow_landedRow r

/-- Every interleaving leaves the conversions where the first pass took them. -/
theorem Reprocessing.reprocessed (hrun : HotRun run.rows)
    (hk : Keyed Exposure.exposureId (landedLake others run).exposures) (hσ : σ.lake = landedLake others run)
    (h : Reprocessing bucketOf run σ passes τ) :
    Reprocessed (landedLake others run) passes τ.lake ∧
      ∀ first, passes.head? = some first → ∀ r ∈ (landedLake others run).attributed,
        r.processedAt ≤ toUtcMs first := by
  induction h with
  | start =>
    rw [hσ]
    refine ⟨⟨fun e => Iff.rfl, landedLake_sound hrun hk, fun r hr => hr, fun cid => ?_⟩, nofun⟩
    exact Option.map_id'.symm ▸ rfl
  | landAgain _ hland ih =>
    obtain ⟨hr, hver⟩ := ih
    obtain ⟨_, rfl⟩ := ends_landRun.mp hland
    refine ⟨hr.landAgain (fun e he => ?_) rfl, hver⟩
    exact List.mem_append_right _ (List.mem_map_of_mem he)
  | reload days _ hload ih =>
    rw [lake_of_leaves_materializeLoad hload.leaves]
    exact ih
  | replay days _ hload ih =>
    rw [lake_of_leaves_truncateAndReload hload.leaves]
    exact ih
  | @pass τ τ' passes d _ hd hlt hpass ih =>
    obtain ⟨hr, hver⟩ := ih
    obtain ⟨days, rows, hdays, hc, _⟩ := ends_driver hr.sound hpass
    refine ⟨hr.pass hver rfl hc (Driver.days_cover hr.sound hd hdays), fun first hfirst => ?_⟩
    cases passes with
    | cons at₀ rest => exact hver first hfirst
    | nil =>
      cases hfirst
      intro y hy
      obtain ⟨r, hr, rfl⟩ := List.mem_map.mp hy
      exact toUtcMs_mono (hlt r hr).le

/-- Every interleaving with a pass reads as one landing and one pass; later steps change
nothing, a reconciled row stays current, and a hot-attributed row stays as landed. -/
theorem reprocessing_converges (hrun : HotRun run.rows)
    (hk : Keyed Exposure.exposureId (landedLake others run).exposures) {serving : Serving}
    (h : Reprocessing bucketOf run ⟨landedLake others run, serving⟩ passes τ) :
    (∀ first, passes.head? = some first → ∃ once, (landedLake others run).fullPass bucketOf first = .ok once ∧
      readCurrent τ.lake.attributed none = readCurrent once.attributed none) ∧
    (∀ later υ, passes ≠ [] → Reprocessing bucketOf run τ later υ →
      readCurrent υ.lake.attributed none = readCurrent τ.lake.attributed none) ∧
    (∀ later υ, Reprocessing bucketOf run τ later υ → ∀ r ∈ readCurrent τ.lake.attributed none,
      r.path = .reconciled → r ∈ readCurrent υ.lake.attributed none) ∧
    ∀ r ∈ run.rows, r.attributed = true → landedRow r ∈ readCurrent τ.lake.attributed none := by
  have hτ := (h.reprocessed hrun hk rfl).1
  have hlater (later : List Int) (υ : System) (hne : passes ≠ []) (hυ : Reprocessing bucketOf run τ later υ) :
      readCurrent υ.lake.attributed none = readCurrent τ.lake.attributed none := by
    have hυ' := ((h.trans hυ).reprocessed hrun hk rfl).1
    rw [readCurrent_eq_iff]
    intro cid
    rw [hυ'.current, hτ.current, afterFirst_append hne]
  refine ⟨fun first hfirst => ?_, hlater, fun later υ hυ r hr hpath => ?_, fun r hr hatt => ?_⟩
  · have hs := landedLake_sound hrun hk
    obtain ⟨once, honce, _, _, _, hset⟩ := fullPass_settles hs.sameDay hs.keyed hs.lakeCandidates_eq bucketOf first
    refine ⟨once, honce, readCurrent_eq_iff.mpr fun cid => ?_⟩
    rw [hset, hτ.current]
    exact congrArg (Option.map · _) (funext fun r => afterFirst_of_head hfirst)
  · by_cases hne : passes = []
    · subst hne
      rw [hτ.hot_of_no_pass hrun.landed_hot r hr] at hpath
      cases hpath
    · rw [hlater later υ hne hυ]
      exact hr
  · have hrow : currentRow (landedLake others run).attributed r.conversionId = some (landedRow r) :=
      hrun.currentRow_iff.mpr ⟨r, hr, rfl, rfl⟩
    have hstays : afterFirst (landedLake others run).exposures passes (landedRow r) = landedRow r :=
      afterFirst_of_attributed hatt
    rw [mem_readCurrent, landedRow_conversionId, hτ.current, hrow, Option.map_some, hstays]

end converge

section sample

def sampleServing : Serving := { Serving.empty with exposuresLanded := sampleRun.exposures }

/-- What the pass over the sample appends. -/
def sampleCorrections : List AttributedConversion :=
  (recoverDays String.length (landedLake [] sampleRun) [20700]
    (reconciledAtFor sampleServing.maxIngest)).toOption.getD []

/-- One pass, then the run landed again. -/
theorem sampleRun_reprocessing : ∃ τ, Reprocessing String.length sampleRun
    ⟨landedLake [] sampleRun, sampleServing⟩ [reconciledAtFor sampleServing.maxIngest] τ := by
  obtain ⟨τ, hpass⟩ : ∃ τ, (Driver.run.script String.length).Ends ⟨landedLake [] sampleRun, sampleServing⟩ () τ :=
    ⟨_, ends_reconcileRun.mpr ⟨[20700], sampleCorrections, by decide, by decide, by decide, rfl⟩⟩
  exact ⟨_, .landAgain (.pass (.start _) (.inl rfl) (by decide) hpass) (ends_landRun.mpr ⟨rfl, rfl⟩)⟩

theorem reprocessing_converges_sample : ∃ τ,
    (∀ first, [reconciledAtFor sampleServing.maxIngest].head? = some first →
      ∃ once, (landedLake [] sampleRun).fullPass String.length first = .ok once ∧
        readCurrent τ.lake.attributed none = readCurrent once.attributed none) ∧
    (∀ later υ, [reconciledAtFor sampleServing.maxIngest] ≠ [] →
      Reprocessing String.length sampleRun τ later υ →
      readCurrent υ.lake.attributed none = readCurrent τ.lake.attributed none) ∧
    (∀ later υ, Reprocessing String.length sampleRun τ later υ → ∀ r ∈ readCurrent τ.lake.attributed none,
      r.path = .reconciled → r ∈ readCurrent υ.lake.attributed none) ∧
    ∀ r ∈ sampleRun.rows, r.attributed = true → landedRow r ∈ readCurrent τ.lake.attributed none := by
  obtain ⟨τ, h⟩ := sampleRun_reprocessing
  have hrun : HotRun sampleRun.rows := ⟨by decide, by decide, by decide⟩
  exact ⟨τ, reprocessing_converges hrun (by simp [Keyed, landedLake, Lake.land, Lake.landAttributed,
    Lake.empty, sampleRun]) h⟩

end sample
end CtvAttribution
