import CtvAttribution.Library.Fallible
import CtvAttribution.Orchestration

/-! What the drivers leave behind: a completed load in closed form, and what any load, even
an interrupted one, takes over from the lake. -/
namespace CtvAttribution
open Library Script

section stores
variable {σ σ' : System}

@[simp] theorem ends_onServing {p : ServingScript} {u : Unit} :
    (onServing p).Ends σ u σ' ↔ ∃ s, p.Ends σ.serving () s ∧ σ' = { σ with serving := s } := by
  have hview (σ : System) (s : Serving) : System.serving { σ with serving := s } = s := rfl
  unfold onServing
  rw [ends_zoom hview (fun _ _ _ => rfl) fun _ => rfl]

@[simp] theorem ends_onLake {f : Lake → Lake} {u : Unit} :
    (onLake f).Ends σ u σ' ↔ σ' = { σ with lake := f σ.lake } := ends_modify

@[simp] theorem ends_orRaise {α : Type} {x : Except ValueError α} {a : α} :
    (orRaise x).Ends σ a σ' ↔ σ' = σ ∧ x = .ok a := by
  rw [orRaise, ends_ofExcept, mapError_eq_ok_iff]

theorem leaves_orRaise_bind {α β : Type} {x : Except ValueError α} {q : α → SystemScript β}
    (h : (orRaise x >>= q).Leaves σ σ') : σ' = σ ∨ ∃ a, x = .ok a ∧ (q a).Leaves σ σ' := by
  rcases leaves_ofExcept_bind h with rfl | ⟨a, ha, h⟩
  · exact Or.inl rfl
  · exact Or.inr ⟨a, mapError_eq_ok_iff.mp ha, h⟩

end stores

namespace Serving
variable (s : Serving)

/-- A day's exposures inserted and their keys recorded. -/
def afterExposures (rows : List Exposure) (day : Int) : Serving :=
  let s := { s with exposuresLanded := s.exposuresLanded ++ rows }
  let s := s.insertDirty (s.dirtyFromExposures day)
  s.insertDirty (s.dirtyFromExposureCredits day)

def afterRows (rows : List AttributedConversion) (day : Int) : Serving :=
  let s := { s with attributedConversions := s.attributedConversions ++ rows }
  s.insertDirty (s.dirtyFromAttributed day)

/-- `load_exposures_day`, completed. -/
def afterExposuresDay (log : List Exposure) (day : Int) : Serving :=
  s.afterExposures (readExposuresForDays log [day]) day

/-- `load_attributed_day`, completed. -/
def afterAttributedDay (log : List AttributedConversion) (day : Int) : Serving :=
  s.afterRows (readCurrent log (some [day])) day

def afterDay (lake : Lake) (day : Int) : Serving :=
  (s.afterExposuresDay lake.exposures day).afterAttributedDay lake.attributed day

/-- `refresh_campaign_hourly`, completed. -/
def afterRefresh : Serving :=
  if s.dirtyKeys = [] then s
  else (s.insertRefreshed (s.dirtyKeys.map RollupStamp.key)).stampRefreshed s.dirtyKeys

/-- The days of a load, completed, before its refresh. -/
def afterDays (lake : Lake) (days : List Int) : Serving := days.foldl (fun s day => s.afterDay lake day) s

/-- `materialize_load` of some days, completed. -/
def afterLoad (lake : Lake) (days : List Int) : Serving :=
  if days = [] then s else (s.afterDays lake (sortedSet days)).afterRefresh

/-- `finalize`, completed. -/
def afterFinalize : Serving := (s.insertSnapshot 0 true).insertSnapshot reconcileDelta false

end Serving

section complete
variable {s t : Serving} {σ σ' : System} {u : Unit}

private theorem foldl_exposures (chunks : List (List Exposure)) (s : Serving) :
    chunks.foldl (fun s chunk => { s with exposuresLanded := s.exposuresLanded ++ chunk }) s =
      { s with exposuresLanded := s.exposuresLanded ++ chunks.flatten } := by
  induction chunks generalizing s with
  | nil => simp
  | cons chunk chunks ih => rw [List.foldl_cons, ih, List.flatten_cons, List.append_assoc]

private theorem foldl_attributed (chunks : List (List AttributedConversion)) (s : Serving) :
    chunks.foldl (fun s chunk => { s with attributedConversions := s.attributedConversions ++ chunk }) s =
      { s with attributedConversions := s.attributedConversions ++ chunks.flatten } := by
  induction chunks generalizing s with
  | nil => simp
  | cons chunk chunks ih => rw [List.foldl_cons, ih, List.flatten_cons, List.append_assoc]

@[simp] theorem ends_insertExposures {rows : List Exposure} : (insertExposures rows).Ends s u t ↔
    t = { s with exposuresLanded := s.exposuresLanded ++ rows } := by
  rw [insertExposures, ends_forEach fun _ _ _ => ends_modify, foldl_exposures,
    flatten_batched (by decide)]

@[simp] theorem ends_insertAttributed {rows : List AttributedConversion} :
    (insertAttributed rows).Ends s u t ↔
      t = { s with attributedConversions := s.attributedConversions ++ rows } := by
  rw [insertAttributed, ends_forEach fun _ _ _ => ends_modify, foldl_attributed,
    flatten_batched (by decide)]

theorem ends_loadExposuresDay {log : List Exposure} {day : Int} :
    (loadExposuresDay log day).Ends s u t ↔ t = s.afterExposuresDay log day := by
  simp [loadExposuresDay, recordDirtyExposureKeys, ends_bind', Serving.afterExposuresDay, Serving.afterExposures]

theorem ends_loadAttributedDay {log : List AttributedConversion} {day : Int} :
    (loadAttributedDay log day).Ends s u t ↔ t = s.afterAttributedDay log day := by
  simp [loadAttributedDay, recordDirtyAttributedKeys, ends_bind', Serving.afterAttributedDay, Serving.afterRows]

theorem ends_refreshCampaignHourly : refreshCampaignHourly.Ends s u t ↔ t = s.afterRefresh := by
  simp only [refreshCampaignHourly, ends_bind', ends_get, Serving.afterRefresh]
  by_cases h : s.dirtyKeys = []
  · simp [h]
  · simp [h, ends_bind']

theorem ends_loadDay {day : Int} : (loadDay day).Ends σ u σ' ↔
    σ' = { σ with serving := σ.serving.afterDay σ.lake day } := by
  simp [loadDay, ends_bind', ends_loadExposuresDay, ends_loadAttributedDay, Serving.afterDay]

theorem foldl_afterDay (days : List Int) (σ : System) :
    days.foldl (fun (σ : System) day => { σ with serving := σ.serving.afterDay σ.lake day }) σ =
      { σ with serving := σ.serving.afterDays σ.lake days } := by
  induction days generalizing σ with
  | nil => rfl
  | cons day days ih =>
    rw [List.foldl_cons, ih]
    rfl

theorem unknown_eq_nil_iff {days : List Int} : sortedSet (days.filter fun d => !dayPartitions d) = [] ↔
    ∀ d ∈ days, dayPartitions d = true := by
  rw [List.eq_nil_iff_forall_not_mem]
  simp

/-- Days outside the calendar are refused before anything is loaded. -/
theorem materializeLoad_eq (days : List Int) : materializeLoad days =
    if days = [] then pure ()
    else if ∀ d ∈ days, dayPartitions d = true then do
      Script.forEach (sortedSet days) loadDay
      onServing refreshCampaignHourly
    else Script.fail (.unknownPartition (sortedSet (days.filter fun d => !dayPartitions d))) := by
  unfold materializeLoad
  by_cases hd : days = []
  · rw [if_pos hd, if_pos hd]
  · by_cases hknown : ∀ d ∈ days, dayPartitions d = true
    · simp only [if_neg hd, if_pos hknown, unknown_eq_nil_iff.mpr hknown, ne_eq, not_true_eq_false, if_false]
    · simp only [if_neg hd, if_neg hknown, ne_eq, if_pos (mt unknown_eq_nil_iff.mp hknown)]
      rfl

/-- A load completes on days of the calendar only. -/
theorem ends_materializeLoad {days : List Int} : (materializeLoad days).Ends σ u σ' ↔
    (∀ d ∈ days, dayPartitions d = true) ∧
      σ' = { σ with serving := σ.serving.afterLoad σ.lake days } := by
  rw [materializeLoad_eq]
  by_cases hd : days = []
  · simp [hd, Serving.afterLoad]
  · by_cases hknown : ∀ d ∈ days, dayPartitions d = true
    · rw [if_neg hd, if_pos hknown, ends_bind', Serving.afterLoad, if_neg hd]
      simp only [ends_forEach fun _ _ _ => ends_loadDay, foldl_afterDay, ends_onServing,
        ends_refreshCampaignHourly]
      constructor
      · intro ⟨_, m, hm, s, hs, h⟩
        subst hm hs
        exact ⟨hknown, h⟩
      · intro h
        exact ⟨(), _, rfl, _, rfl, h.2⟩
    · rw [if_neg hd, if_neg hknown]
      simp only [ends_fail, false_iff]
      exact fun h => hknown h.1

theorem afterLoad_congr {lake : Lake} {days days' : List Int} (h : ∀ d, d ∈ days ↔ d ∈ days') :
    s.afterLoad lake days = s.afterLoad lake days' := by
  have hnil : days = [] ↔ days' = [] := by
    simp only [List.eq_nil_iff_forall_not_mem, h]
  unfold Serving.afterLoad
  simp only [hnil, sortedSet_congr h]

@[simp] theorem ends_finalize : finalize.Ends σ u σ' ↔
    σ' = { σ with serving := σ.serving.afterFinalize } := by
  simp [finalize, writeReportSnapshot, ends_bind', Serving.afterFinalize]

end complete

/-- The days some rows fall on. -/
def touched (rows : List AttributedConversion) : List Int := touchedDays (rows.map fun r => r.eventTime)

section drivers
variable {σ σ' : System} {u : Unit} {bucketOf : String → Nat}

/-- An empty lake is refused before any table is truncated. -/
theorem truncateAndReload_eq (days : List Int) : truncateAndReload days =
    if days = [] then Script.fail .emptyLake
    else (do
      Script.forEach servingTables fun table => onServing (Script.modify fun s => truncate s table)
      materializeLoad days) := by
  unfold truncateAndReload
  split <;> rfl

/-- The tables once truncated; the restatement history stays. -/
def Serving.emptied (s : Serving) : Serving := { Serving.empty with reportSnapshots := s.reportSnapshots }

theorem ends_truncateTables :
    (Script.forEach servingTables fun table => onServing (Script.modify fun s => truncate s table)).Ends σ u σ' ↔
      σ' = { σ with serving := σ.serving.emptied } := by
  have htruncate (table : ServingTable) (σ τ : System) :
      (onServing (Script.modify fun s => truncate s table)).Ends σ () τ ↔
        τ = { σ with serving := truncate σ.serving table } := by
    simp [ends_onServing]
  rw [ends_forEach htruncate]
  rfl

theorem ends_truncateAndReload {days : List Int} : (truncateAndReload days).Ends σ u σ' ↔
    days ≠ [] ∧ (∀ d ∈ days, dayPartitions d = true) ∧
      σ' = { σ with serving := σ.serving.emptied.afterLoad σ.lake days } := by
  rw [truncateAndReload_eq]
  split
  · rename_i h
    simp [h]
  · rename_i h
    simp only [ends_bind', ends_truncateTables, ends_materializeLoad]
    constructor
    · intro ⟨_, _, hm, hknown, he⟩
      subst hm
      exact ⟨h, hknown, he⟩
    · intro ⟨_, hknown, he⟩
      exact ⟨(), _, rfl, hknown, he⟩

/-- The days a landed run touches. -/
def landedDays (run : EngineRun) : List Int :=
  touchedDays (run.exposures.map Exposure.eventTime) ++ touched run.rows

theorem ends_landRun {run : EngineRun} {days : List Int} : (landRun run).Ends σ days σ' ↔
    days = landedDays run ∧
      σ' = { σ with lake := (σ.lake.land run.exposures).landAttributed run.rows } := by
  simp only [landRun, ends_bind', ends_onLake, ends_pure]
  constructor
  · intro h
    obtain ⟨_, _, hm, _, _, hn, h, hd⟩ := h
    subst hm hn
    exact ⟨hd, h⟩
  · intro h
    obtain ⟨hd, h⟩ := h
    exact ⟨(), _, rfl, (), _, rfl, h, hd⟩

/-- A landing stopped anywhere: of the two appends none, the first or both were done. -/
theorem leaves_landRun {run : EngineRun} (h : (landRun run).Leaves σ σ') :
    σ' = σ ∨ σ' = { σ with lake := σ.lake.land run.exposures } ∨
      σ' = { σ with lake := (σ.lake.land run.exposures).landAttributed run.rows } := by
  rcases leaves_bind' h with h₁ | ⟨_, m, hm, h₁⟩
  · rcases leaves_modify.mp h₁ with h₁ | h₁
    · exact .inl h₁
    · exact .inr (.inl h₁)
  rw [ends_onLake.mp hm] at h₁
  rcases leaves_bind' h₁ with h₂ | ⟨_, n, hn, h₂⟩
  · rcases leaves_modify.mp h₂ with h₂ | h₂
    · exact .inr (.inl h₂)
    · exact .inr (.inr h₂)
  · rw [leaves_pure.mp h₂, ends_onLake.mp hn]
    exact .inr (.inr rfl)

/-- An engine run that completes is landed and loaded, on days of the calendar. -/
theorem ends_engineMain {run : EngineRun} {profile : String} : (engineMain run profile).Ends σ u σ' ↔
    (∀ d ∈ landedDays run, dayPartitions d = true) ∧
      σ' = ⟨(σ.lake.land run.exposures).landAttributed run.rows,
        let s := σ.serving.afterLoad ((σ.lake.land run.exposures).landAttributed run.rows) (landedDays run)
        { s with evalMeta := s.evalMeta ++ [profile] }⟩ := by
  simp only [engineMain, writeMarker, ends_bind', ends_landRun, ends_materializeLoad, ends_onServing, ends_modify]
  constructor
  · intro h
    obtain ⟨_, _, ⟨hdays, hm⟩, _, _, ⟨hknown, hn⟩, _, hs, h⟩ := h
    subst hdays hm hn hs
    exact ⟨hknown, h⟩
  · intro h
    obtain ⟨hknown, h⟩ := h
    exact ⟨_, _, ⟨rfl, rfl⟩, (), _, ⟨hknown, rfl⟩, _, rfl, h⟩

theorem ends_reconcileRun : (reconcileRun bucketOf).Ends σ u σ' ↔
    ∃ days rows, candidateDays σ.lake.attributed = .ok days ∧
      recoverDays bucketOf σ.lake days (reconciledAtFor σ.serving.maxIngest) = .ok rows ∧
      (∀ d ∈ touched rows, dayPartitions d = true) ∧
      σ' = ⟨σ.lake.landAttributed rows,
        (σ.serving.afterLoad (σ.lake.landAttributed rows) (touched rows)).afterFinalize⟩ := by
  simp only [reconcileRun, ends_bind', ends_get, ends_orRaise, ends_onLake, ends_materializeLoad, ends_finalize]
  constructor
  · intro h
    obtain ⟨_, _, ⟨hm, hσ⟩, days, _, ⟨hm', hdays⟩, rows, _, ⟨hm'', hrows⟩, _, _, hland, _, _, ⟨hknown, hload⟩, h⟩ := h
    subst hm hσ hm' hm'' hland hload
    exact ⟨days, rows, hdays, hrows, hknown, h⟩
  · intro h
    obtain ⟨days, rows, hdays, hrows, hknown, h⟩ := h
    exact ⟨_, _, ⟨rfl, rfl⟩, days, _, ⟨rfl, hdays⟩, rows, _, ⟨rfl, hrows⟩, (), _, rfl, (), _,
      ⟨hknown, rfl⟩, h⟩

theorem reconciledConversions_eq (bucketOf : String → Nat) (day : Int) : reconciledConversions bucketOf day =
    if dayPartitions day = true then do
      let σ ← Script.get
      let recovered ← orRaise (recoverDay bucketOf σ.lake day (reconciledAtFor σ.serving.maxIngest) longWindow)
      onLake fun lake => lake.landAttributed recovered
      return touched recovered
    else Script.fail (.unknownPartition [day]) := by
  unfold reconciledConversions
  cases dayPartitions day <;> rfl

theorem ends_reconciledConversions {day : Int} {days : List Int} :
    (reconciledConversions bucketOf day).Ends σ days σ' ↔
      ∃ rows, dayPartitions day = true ∧
        recoverDay bucketOf σ.lake day (reconciledAtFor σ.serving.maxIngest) longWindow = .ok rows ∧
        days = touched rows ∧
        σ' = { σ with lake := σ.lake.landAttributed rows } := by
  rw [reconciledConversions_eq]
  by_cases hd : dayPartitions day = true
  · rw [if_pos hd]
    simp only [ends_bind', ends_pure, ends_get, ends_orRaise, ends_onLake]
    constructor
    · intro h
      obtain ⟨_, _, ⟨hm, hσ⟩, rows, _, ⟨hm', hrows⟩, _, _, hland, h, ht⟩ := h
      subst hm hσ hm' hland
      exact ⟨rows, hd, hrows, ht, h⟩
    · intro h
      obtain ⟨rows, _, hrows, ht, h⟩ := h
      exact ⟨_, _, ⟨rfl, rfl⟩, rows, _, ⟨rfl, hrows⟩, (), _, rfl, h, ht⟩
  · simp [hd]

/-- A day of a backfill is appended or it is not. -/
theorem leaves_reconciledConversions {day : Int} (h : (reconciledConversions bucketOf day).Leaves σ σ') :
    σ' = σ ∨ ∃ rows,
      recoverDay bucketOf σ.lake day (reconciledAtFor σ.serving.maxIngest) longWindow = .ok rows ∧
      σ' = { σ with lake := σ.lake.landAttributed rows } := by
  rw [reconciledConversions_eq] at h
  split at h
  · rcases leaves_get_bind h with rfl | h₁
    · exact Or.inl rfl
    rcases leaves_orRaise_bind h₁ with rfl | ⟨rows, hrows, h₂⟩
    · exact Or.inl rfl
    rcases leaves_bind' h₂ with h₃ | ⟨_, m, hm, h₃⟩
    · rcases leaves_modify.mp h₃ with h₃ | h₃
      · exact Or.inl h₃
      · exact Or.inr ⟨rows, hrows, h₃⟩
    rw [leaves_pure.mp h₃, ends_onLake.mp hm]
    exact Or.inr ⟨rows, hrows, rfl⟩
  · exact Or.inl (leaves_fail.mp h)

/-- The days of a backfill, each recovered after the ones before were landed. -/
inductive DayPasses (bucketOf : String → Nat) (reconciledAt : Int) :
    Lake → List Int → List (List AttributedConversion) → Lake → Prop where
  | nil (lake : Lake) : DayPasses bucketOf reconciledAt lake [] [] lake
  | cons {lake lake' : Lake} {day : Int} {days : List Int} {rows : List AttributedConversion}
      {rest : List (List AttributedConversion)} :
      dayPartitions day = true → recoverDay bucketOf lake day reconciledAt longWindow = .ok rows →
      DayPasses bucketOf reconciledAt (lake.landAttributed rows) days rest lake' →
      DayPasses bucketOf reconciledAt lake (day :: days) (rows :: rest) lake'

/-- A backfill leaves the serving tables alone, so all its days share one version. -/
theorem ends_collect_reconciled {days : List Int} {dayss : List (List Int)} :
    (Script.collect days (reconciledConversions bucketOf)).Ends σ dayss σ' ↔
      ∃ rowss, DayPasses bucketOf (reconciledAtFor σ.serving.maxIngest) σ.lake days rowss σ'.lake ∧
        dayss = rowss.map touched ∧ σ'.serving = σ.serving := by
  induction days generalizing σ dayss with
  | nil =>
    rw [ends_collect_nil]
    constructor
    · intro ⟨h, ht⟩
      subst h
      exact ⟨[], .nil _, ht, rfl⟩
    · intro ⟨rowss, h, ht, hs⟩
      cases σ
      cases σ'
      cases h
      cases hs
      exact ⟨rfl, ht⟩
  | cons day days ih =>
    simp only [ends_collect_cons, ends_reconciledConversions, ih]
    constructor
    · intro ⟨_, _, _, ⟨rows, hday, hrows, ht, hm⟩, ⟨rest, hrest, hts, hs⟩, h⟩
      subst ht hm hts
      exact ⟨rows :: rest, .cons hday hrows hrest, h, hs⟩
    · intro ⟨rowss, h, ht, hs⟩
      cases h with
      | cons hday hrows hrest =>
        exact ⟨_, _, _, ⟨_, hday, hrows, rfl, rfl⟩, ⟨_, hrest, rfl, hs⟩, ht⟩

/-- The days `run_reconcile` goes through. -/
def backfillDays (log : List AttributedConversion) : Option Int → Except ValueError (List Int)
  | some day => .ok [day]
  | none => candidateDays log

theorem runReconcile_eq (partition : Option Int) : runReconcile bucketOf partition = (do
    let days ← orRaise (backfillDays (← Script.get).lake.attributed partition)
    let touched ← Script.collect days (reconciledConversions bucketOf)
    materializeLoad touched.flatten
    finalize) := by
  cases partition <;> rfl

theorem ends_runReconcile {partition : Option Int} : (runReconcile bucketOf partition).Ends σ u σ' ↔
    ∃ days rowss lake, backfillDays σ.lake.attributed partition = .ok days ∧
      DayPasses bucketOf (reconciledAtFor σ.serving.maxIngest) σ.lake days rowss lake ∧
      (∀ d ∈ (rowss.map touched).flatten, dayPartitions d = true) ∧
      σ' = ⟨lake, (σ.serving.afterLoad lake (rowss.map touched).flatten).afterFinalize⟩ := by
  rw [runReconcile_eq]
  simp only [ends_bind', ends_get, ends_orRaise, ends_collect_reconciled, ends_materializeLoad, ends_finalize]
  constructor
  · intro h
    obtain ⟨_, _, ⟨hm, hσ⟩, days, _, ⟨hm', hdays⟩, _, τ, ⟨rowss, hpass, ht, hs⟩, _, _, ⟨hknown, hload⟩, h⟩ := h
    subst hm hσ hm' ht hload
    exact ⟨days, rowss, τ.lake, hdays, hpass, hknown, by rw [h, hs]⟩
  · intro h
    obtain ⟨days, rowss, lake, hdays, hpass, hknown, h⟩ := h
    exact ⟨_, _, ⟨rfl, rfl⟩, days, _, ⟨rfl, hdays⟩, _, ⟨lake, σ.serving⟩, ⟨rowss, hpass, rfl, rfl⟩, (), _,
      ⟨hknown, rfl⟩, h⟩

end drivers
end CtvAttribution
