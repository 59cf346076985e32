import CtvAttribution.SoundStates

/-! Either reconcile driver as corrections landed over the candidates it found, whether it
completes or is stopped. -/
namespace CtvAttribution
open Library Script

/-- `reconcile.run`, or `run_reconcile` over every candidate day or one partition. -/
inductive Driver where
  | run
  | backfill (partition : Option Int)
  deriving DecidableEq, Repr

def Driver.script (bucketOf : String → Nat) : Driver → SystemScript Unit
  | .run => reconcileRun bucketOf
  | .backfill partition => runReconcile bucketOf partition

/-- The days a driver recovers. -/
def Driver.days (log : List AttributedConversion) : Driver → Except ValueError (List Int)
  | .run => candidateDays log
  | .backfill partition => backfillDays log partition

/-- The lake's candidates. -/
def candidateRows (log : List AttributedConversion) : List AttributedConversion :=
  (readCurrent log none).filter fun r => HotUnattributed r

section candidates
variable {log : List AttributedConversion} {r : AttributedConversion} {lake : Lake}

theorem mem_candidateRows :
    r ∈ candidateRows log ↔ currentRow log r.conversionId = some r ∧ HotUnattributed r := by
  rw [candidateRows, List.mem_filter, decide_eq_true_eq, mem_readCurrent]

theorem SoundLake.lakeCandidates_eq (h : SoundLake lake) :
    lakeCandidates lake.attributed none = .ok (candidateRows lake.attributed) := by
  refine lakeCandidates_eq_ok.mpr ⟨fun r hr => ?_, rfl⟩
  obtain ⟨hcur, hhot⟩ := mem_candidateRows.mp hr
  exact h.checked r (currentRow_mem hcur) hhot

theorem SoundLake.candidateDays_eq (h : SoundLake lake) : candidateDays lake.attributed =
    .ok (sortedSet ((candidateRows lake.attributed).map fun r => dayOf r.eventTime)) := by
  rw [candidateDays, h.lakeCandidates_eq]
  rfl

theorem mem_touched {rows : List AttributedConversion} {d : Int} :
    d ∈ touched rows ↔ ∃ r ∈ rows, dayOf r.eventTime = d := mem_touchedDays_rows

end candidates

section corrects
variable {exposures : List Exposure} {window reconciledAt : Int} {log new new' : List AttributedConversion}
  {cands cands' : List AttributedConversion} {days days' : List Int}

theorem Corrects.nil : Corrects exposures window reconciledAt cands [] [] :=
  ⟨fun y => by simp⟩

/-- Two batches landed one after the other are one batch. -/
theorem Corrects.append (hc : lakeCandidates log none = .ok cands)
    (h : Corrects exposures window reconciledAt cands days new)
    (hc' : lakeCandidates (log ++ new) none = .ok cands')
    (h' : Corrects exposures window reconciledAt cands' days' new') :
    Corrects exposures window reconciledAt cands (days ++ days') (new ++ new') := by
  have hsub {r : AttributedConversion} (hr : r ∈ cands') : r ∈ cands := by
    obtain ⟨hcur, hhot⟩ := (mem_lakeCandidates hc').mp hr
    exact candidate_of_landed hc h hcur hhot
  have hrest {r : AttributedConversion} (hr : r ∈ cands) (hd : dayOf r.eventTime ∉ days) : r ∈ cands' := by
    obtain ⟨hcur, hhot⟩ := (mem_lakeCandidates hc).mp hr
    refine (mem_lakeCandidates hc').mpr ⟨?_, hhot⟩
    rw [currentRow_land hc h, hcur, Option.map_some, if_neg hd]
  refine ⟨fun y => ?_⟩
  rw [List.mem_append, h.mem_iff, h'.mem_iff]
  constructor
  · intro hy
    rcases hy with ⟨r, hr, hd, hx⟩ | ⟨r, hr, hd, hx⟩
    · exact ⟨r, hr, List.mem_append_left _ hd, hx⟩
    · exact ⟨r, hsub hr, List.mem_append_right _ hd, hx⟩
  · intro ⟨r, hr, hd, hx⟩
    by_cases hin : dayOf r.eventTime ∈ days
    · exact Or.inl ⟨r, hr, hin, hx⟩
    · exact Or.inr ⟨r, hrest hr hin, (List.mem_append.mp hd).resolve_left hin, hx⟩

/-- The days a pass touches are those of the candidates it can recover. -/
theorem mem_touched_iff {rows : List AttributedConversion}
    (h : Corrects exposures window reconciledAt cands days (rows.map landedRow)) {d : Int} :
    d ∈ touched rows ↔ ∃ c ∈ cands, dayOf c.eventTime = d ∧ d ∈ days ∧ Recoverable exposures window c := by
  rw [mem_touched]
  constructor
  · intro ⟨r, hr, hd⟩
    obtain ⟨c, hc, hday, x, hx, he⟩ := (h.mem_iff _).mp (List.mem_map_of_mem hr)
    have hcd : dayOf c.eventTime = d := by rw [← (landed_correction hx).2, ← he, dayOf_landedRow, hd]
    exact ⟨c, hc, hcd, hcd ▸ hday, exists_correction_iff.mp ⟨x, hx⟩⟩
  · intro ⟨c, hc, hcd, hday, hrec⟩
    obtain ⟨x, hx⟩ := exists_correction_iff.mpr hrec
    obtain ⟨r, hr, he⟩ := List.mem_map.mp ((h.mem_iff _).mpr ⟨c, hc, hcd ▸ hday, x, hx, rfl⟩)
    exact ⟨r, hr, by rw [← dayOf_landedRow, he, (landed_correction hx).2, hcd]⟩

end corrects

@[simp] theorem landAttributed_nil (lake : Lake) : lake.landAttributed [] = lake := by
  simp [Lake.landAttributed]

theorem landAttributed_append (lake : Lake) (rows rows' : List AttributedConversion) :
    (lake.landAttributed rows).landAttributed rows' = lake.landAttributed (rows ++ rows') := by
  simp [Lake.landAttributed]

/-- `σ'` has landed the corrections of some days of `σ`, and serves the lake if `σ` did. -/
structure Corrected (reconciledAt : Int) (σ : System) (days : List Int) (rows : List AttributedConversion)
    (σ' : System) : Prop where
  corrects : Corrects σ.lake.exposures longWindow reconciledAt (candidateRows σ.lake.attributed) days
    (rows.map landedRow)
  lake : σ'.lake = σ.lake.landAttributed rows
  served : ServedFrom σ.lake σ.serving → ServedFrom σ'.lake σ'.serving

section corrected
variable {reconciledAt : Int} {lake : Lake} {σ σ' σ'' : System} {days days' : List Int}
  {rows rows' : List AttributedConversion}

/-- Landing the corrections of some days keeps a lake sound. -/
theorem SoundLake.landAttributed (h : SoundLake lake) (hrows : Corrects lake.exposures longWindow reconciledAt
    (candidateRows lake.attributed) days (rows.map landedRow)) : SoundLake (lake.landAttributed rows) where
  keyed := h.keyed
  sameDay := sameDay_land h.lakeCandidates_eq hrows h.sameDay
  checked y hy hhot := by
    rcases List.mem_append.mp hy with hy | hy
    · exact h.checked y hy hhot
    · obtain ⟨r, _, _, x, hx, rfl⟩ := (hrows.mem_iff y).mp hy
      exact absurd hhot (not_hotUnattributed_of_correction hx)
  exposuresOnGrid := h.exposuresOnGrid
  rowsOnGrid y hy := by
    rcases List.mem_append.mp hy with hy | hy
    · exact h.rowsOnGrid y hy
    · obtain ⟨x, _, rfl⟩ := List.mem_map.mp hy
      exact landedRow_landedRow x

theorem Corrected.soundLake (hσ : SoundLake σ.lake) (h : Corrected reconciledAt σ days rows σ') :
    SoundLake σ'.lake := by
  rw [h.lake]
  exact hσ.landAttributed h.corrects

theorem Corrected.refl (σ : System) : Corrected reconciledAt σ [] [] σ where
  corrects := .nil
  lake := (landAttributed_nil _).symm
  served := id

theorem Corrected.trans (hσ : SoundLake σ.lake) (h : Corrected reconciledAt σ days rows σ')
    (h' : Corrected reconciledAt σ' days' rows' σ'') :
    Corrected reconciledAt σ (days ++ days') (rows ++ rows') σ'' where
  corrects := by
    have hc' := (h.soundLake hσ).lakeCandidates_eq
    have hcorr' := h'.corrects
    rw [h.lake] at hc' hcorr'
    rw [List.map_append]
    exact Corrects.append hσ.lakeCandidates_eq h.corrects hc' hcorr'
  lake := by rw [h'.lake, h.lake, landAttributed_append]
  served hs := h'.served (h.served hs)

theorem Corrected.land (hrows : Corrects σ.lake.exposures longWindow reconciledAt
    (candidateRows σ.lake.attributed) days (rows.map landedRow)) :
    Corrected reconciledAt σ days rows { σ with lake := σ.lake.landAttributed rows } where
  corrects := hrows
  lake := rfl
  served hs := ⟨hs.exposures, fun y hy => List.mem_append_left _ (hs.rows y hy)⟩

/-- Loading and snapshotting add no correction. -/
theorem Corrected.load (h : Corrected reconciledAt σ days rows σ') {loaded : List Int}
    (hl : (do materializeLoad loaded; finalize : SystemScript Unit).Leaves σ' σ'') :
    Corrected reconciledAt σ days rows σ'' where
  corrects := h.corrects
  lake := by
    rw [← h.lake]
    rcases leaves_bind' hl with h₁ | ⟨_, m, hm, h₁⟩
    · exact lake_of_leaves_materializeLoad h₁
    · rw [lake_of_leaves_finalize h₁, lake_of_leaves_materializeLoad hm.leaves]
  served hs := by
    have hkeep := keeps_bind' (keeps_served_materializeLoad σ'.lake loaded)
      (fun _ => keeps_served_finalize σ'.lake) σ' σ'' ⟨rfl, h.served hs⟩ hl
    rw [hkeep.lake]
    exact hkeep.serving

end corrected

section drivers
variable {lake : Lake} {σ σ' : System} {bucketOf : String → Nat} {reconciledAt : Int}

theorem SoundLake.corrects_recoverDays (h : SoundLake lake) {days : List Int} {rows : List AttributedConversion}
    (hrows : recoverDays bucketOf lake days reconciledAt = .ok rows) :
    Corrects lake.exposures longWindow reconciledAt (candidateRows lake.attributed) days
      (rows.map landedRow) := by
  obtain ⟨rows', hrows', hcorr⟩ := recoverDays_ok h.sameDay h.keyed h.lakeCandidates_eq bucketOf days reconciledAt
  rw [hrows] at hrows'
  cases hrows'
  exact hcorr

private theorem recoverDays_singleton {day : Int} {rows : List AttributedConversion}
    (h : recoverDay bucketOf lake day reconciledAt longWindow = .ok rows) :
    recoverDays bucketOf lake [day] reconciledAt = .ok rows := by
  rw [recoverDays, List.mapM_cons, h]
  exact congrArg Except.ok (List.append_nil rows)

private theorem SoundLake.corrects_recoverDay (h : SoundLake lake) {day : Int} {rows : List AttributedConversion}
    (hrows : recoverDay bucketOf lake day reconciledAt longWindow = .ok rows) :
    Corrects lake.exposures longWindow reconciledAt (candidateRows lake.attributed) [day]
      (rows.map landedRow) :=
  h.corrects_recoverDays (recoverDays_singleton hrows)

/-- The days of a completed backfill are one batch. -/
theorem DayPasses.corrected (h : SoundLake σ.lake) {days : List Int}
    {rowss : List (List AttributedConversion)} {lake : Lake}
    (hp : DayPasses bucketOf reconciledAt σ.lake days rowss lake) :
    Corrected reconciledAt σ days rowss.flatten { σ with lake := lake } := by
  obtain ⟨lake₀, serving⟩ := σ
  dsimp only at hp
  induction hp with
  | nil lake => exact .refl _
  | cons _ hrows _ ih =>
    have hland := Corrected.land (σ := ⟨_, serving⟩) (h.corrects_recoverDay hrows)
    exact hland.trans h (ih (hland.soundLake h))

theorem touched_flatten (rowss : List (List AttributedConversion)) (d : Int) :
    d ∈ (rowss.map touched).flatten ↔ d ∈ touched rowss.flatten := by
  simp only [List.mem_flatten, List.mem_map, exists_exists_and_eq_and, mem_touched]
  constructor
  · intro ⟨rows, hrows, r, hr, he⟩
    exact ⟨r, ⟨rows, hrows, hr⟩, he⟩
  · intro ⟨r, ⟨rows, hrows, hr⟩, he⟩
    exact ⟨rows, hrows, r, hr, he⟩

/-- A completed pass: corrections landed, their days loaded, the reports snapshotted. -/
theorem ends_driver (h : SoundLake σ.lake) {d : Driver} (hd : (d.script bucketOf).Ends σ () σ') :
    ∃ days rows, d.days σ.lake.attributed = .ok days ∧
      Corrected (reconciledAtFor σ.serving.maxIngest) σ days rows σ' ∧
      (∀ day ∈ touched rows, dayPartitions day = true) ∧
      σ' = ⟨σ.lake.landAttributed rows,
        (σ.serving.afterLoad (σ.lake.landAttributed rows) (touched rows)).afterFinalize⟩ := by
  have hload (τ : System) (rows : List AttributedConversion)
      (hknown : ∀ day ∈ touched rows, dayPartitions day = true) :
      (do materializeLoad (touched rows); finalize : SystemScript Unit).Ends τ ()
        { τ with serving := (τ.serving.afterLoad τ.lake (touched rows)).afterFinalize } := by
    simp only [ends_bind', ends_materializeLoad, ends_finalize]
    exact ⟨(), _, ⟨hknown, rfl⟩, rfl⟩
  cases d with
  | run =>
    obtain ⟨days, rows, hdays, hrows, hknown, he⟩ := ends_reconcileRun.mp hd
    have hland := Corrected.land (h.corrects_recoverDays hrows)
    subst he
    exact ⟨days, rows, hdays, hland.load (hload _ rows hknown).leaves, hknown, rfl⟩
  | backfill partition =>
    obtain ⟨days, rowss, lake, hdays, hpass, hknown, he⟩ := ends_runReconcile.mp hd
    have hland := hpass.corrected h
    have hlake : lake = σ.lake.landAttributed rowss.flatten := hland.lake
    have hknown' : ∀ day ∈ touched rowss.flatten, dayPartitions day = true :=
      fun day hday => hknown day ((touched_flatten rowss day).mpr hday)
    rw [afterLoad_congr (touched_flatten rowss)] at he
    subst he hlake
    exact ⟨days, _, hdays, hland.load (hload _ _ hknown').leaves, hknown', rfl⟩

/-- A backfill stopped within its days. -/
theorem leaves_collect_reconciled (h : SoundLake σ.lake) {days : List Int}
    (hl : (Script.collect days (reconciledConversions bucketOf)).Leaves σ σ') :
    ∃ days' rows, days' ⊆ days ∧ Corrected (reconciledAtFor σ.serving.maxIngest) σ days' rows σ' := by
  induction days generalizing σ with
  | nil =>
    rw [leaves_done.mp hl]
    exact ⟨_, _, List.Subset.refl _, .refl _⟩
  | cons day days ih =>
    have hday : [day] ⊆ day :: days := List.cons_subset_cons day (List.nil_subset _)
    rcases leaves_collect_cons hl with h₁ | ⟨_, m, hm, h₁⟩
    · rcases leaves_reconciledConversions h₁ with rfl | ⟨rows, hrows, rfl⟩
      · exact ⟨_, _, List.nil_subset _, .refl _⟩
      · exact ⟨_, _, hday, .land (h.corrects_recoverDay hrows)⟩
    · obtain ⟨rows, _, hrows, _, rfl⟩ := ends_reconciledConversions.mp hm
      have hland := Corrected.land (h.corrects_recoverDay hrows)
      obtain ⟨days', rows', hsub, hrest⟩ := ih (hland.soundLake h) h₁
      exact ⟨_, _, List.append_subset.mpr ⟨hday, List.subset_cons_of_subset day hsub⟩, hland.trans h hrest⟩

/-- A pass stopped anywhere has landed corrections of some of its days. -/
theorem leaves_driver (h : SoundLake σ.lake) {d : Driver} (hl : (d.script bucketOf).Leaves σ σ') :
    ∃ days rows, (∀ day ∈ days, ∃ all, d.days σ.lake.attributed = .ok all ∧ day ∈ all) ∧
      Corrected (reconciledAtFor σ.serving.maxIngest) σ days rows σ' := by
  have hstopped : ∃ days rows, (∀ day ∈ days, ∃ all, d.days σ.lake.attributed = .ok all ∧ day ∈ all) ∧
      Corrected (reconciledAtFor σ.serving.maxIngest) σ days rows σ :=
    ⟨_, _, fun _ hday => absurd hday List.not_mem_nil, .refl _⟩
  cases d with
  | run =>
    rcases leaves_get_bind hl with rfl | h₁
    · exact hstopped
    rcases leaves_orRaise_bind h₁ with rfl | ⟨days, hdays, h₂⟩
    · exact hstopped
    rcases leaves_orRaise_bind h₂ with rfl | ⟨rows, hrows, h₃⟩
    · exact hstopped
    have hland := Corrected.land (h.corrects_recoverDays hrows)
    rcases leaves_bind' h₃ with h₄ | ⟨_, m, hm, h₄⟩
    · rcases leaves_modify.mp h₄ with rfl | rfl
      · exact hstopped
      · exact ⟨_, _, fun _ hday => ⟨_, hdays, hday⟩, hland⟩
    rw [ends_onLake.mp hm] at h₄
    exact ⟨_, _, fun _ hday => ⟨_, hdays, hday⟩, hland.load h₄⟩
  | backfill partition =>
    simp only [Driver.script, runReconcile_eq] at hl
    rcases leaves_get_bind hl with rfl | h₁
    · exact hstopped
    rcases leaves_orRaise_bind h₁ with rfl | ⟨days, hdays, h₂⟩
    · exact hstopped
    rcases leaves_bind' h₂ with h₃ | ⟨dayss, m, hm, h₃⟩
    · obtain ⟨days', rows, hsub, hland⟩ := leaves_collect_reconciled h h₃
      exact ⟨_, _, fun _ hday => ⟨_, hdays, hsub hday⟩, hland⟩
    obtain ⟨days', rows, hsub, hland⟩ := leaves_collect_reconciled h hm.leaves
    exact ⟨_, _, fun _ hday => ⟨_, hdays, hsub hday⟩, hland.load h₃⟩

end drivers
end CtvAttribution
