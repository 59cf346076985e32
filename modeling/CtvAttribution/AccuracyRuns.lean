import CtvAttribution.Accuracy
import CtvAttribution.ServingReplay
import CtvAttribution.TrueCredits

/-! Accuracy over runs. Passes and loads, wherever they stop, only add credits to what is
served, so no correct one is lost; on generated streams the hot path credits no wrong household. -/
namespace CtvAttribution
open Library Script

/-- Passes and loads one after another, each stopped anywhere. -/
inductive PassRun (bucketOf : String → Nat) (σ : System) : System → Prop where
  | start : PassRun bucketOf σ σ
  | pass {τ υ : System} {d : Driver} : PassRun bucketOf σ τ → (d.script bucketOf).Leaves τ υ → PassRun bucketOf σ υ
  | load {τ υ : System} {days : List Int} : PassRun bucketOf σ τ → (materializeLoad days).Leaves τ υ →
      PassRun bucketOf σ υ

/-- Every served credit is the lake's current row of its conversion. -/
structure CreditsCurrent (lake : Lake) (s : Serving) : Prop where
  rows : ∀ cid r, s.servedRow cid = some r → r.attributed = true → currentRow lake.attributed cid = some r
  exposures : ∀ e ∈ s.exposuresLanded, e ∈ lake.exposures

/-- `t` serves what `s` served, and credits what `s` credited. -/
structure KeepsCredits (s t : Serving) : Prop where
  rows : ∀ cid r, s.servedRow cid = some r → r.attributed = true → t.servedRow cid = some r
  exposures : ∀ e ∈ s.exposuresLanded, e ∈ t.exposuresLanded

section tables
variable {lake : Lake} {s t u : Serving}

theorem KeepsCredits.refl (s : Serving) : KeepsCredits s s := ⟨fun _ _ h _ => h, fun _ h => h⟩

theorem KeepsCredits.trans (h : KeepsCredits s t) (h' : KeepsCredits t u) : KeepsCredits s u :=
  ⟨fun cid r hr hatt => h'.rows cid r (h.rows cid r hr hatt) hatt, fun e he => h'.exposures e (h.exposures e he)⟩

/-- What a load inserts is current in the lake, so it never displaces a credit. -/
theorem CreditsCurrent.insertAttributed (h : CreditsCurrent lake s) {chunk : List AttributedConversion}
    (hchunk : ∀ r ∈ chunk, currentRow lake.attributed r.conversionId = some r) :
    CreditsCurrent lake { s with attributedConversions := s.attributedConversions ++ chunk } ∧
      KeepsCredits s { s with attributedConversions := s.attributedConversions ++ chunk } := by
  have hserved (cid : String) : Serving.servedRow
      { s with attributedConversions := s.attributedConversions ++ chunk } cid = newer (fun r => r.processedAt)
        (finalRow (fun r : AttributedConversion => r.conversionId) (fun r => r.processedAt) chunk cid)
        (s.servedRow cid) := finalRow_append
  have hnew {cid : String} {x : AttributedConversion}
      (hx : finalRow (fun r : AttributedConversion => r.conversionId) (fun r => r.processedAt) chunk cid = some x) :
      currentRow lake.attributed cid = some x := by
    obtain ⟨hmem, hid, _⟩ := finalRow_eq_some hx
    rw [← hid]
    exact hchunk x hmem
  refine ⟨⟨fun cid r hr hatt => ?_, h.exposures⟩, fun cid r hr hatt => ?_, fun _ he => he⟩
  · rw [hserved] at hr
    rcases newer_eq_or (fun r : AttributedConversion => r.processedAt)
      (finalRow (fun r : AttributedConversion => r.conversionId) (fun r => r.processedAt) chunk cid)
      (s.servedRow cid) with he | he
    · exact hnew (he ▸ hr)
    · exact h.rows cid r (he ▸ hr) hatt
  · rw [hserved]
    cases hx : finalRow (fun r : AttributedConversion => r.conversionId) (fun r => r.processedAt) chunk cid with
    | none => exact hr
    | some x =>
      have hsame : some x = some r := (hnew hx).symm.trans (h.rows cid r hr hatt)
      rw [hr, hsame]
      exact newer_eq_left fun b hb => by cases hb; exact le_rfl

/-- What the statements of a load keep, from tables `s`. -/
def Serves (lake : Lake) (s t : Serving) : Prop := CreditsCurrent lake t ∧ KeepsCredits s t

theorem Serves.bookkeeping (h : Serves lake s t) (he : u.exposuresLanded = t.exposuresLanded)
    (hr : u.attributedConversions = t.attributedConversions) : Serves lake s u := by
  have hrow (cid : String) : u.servedRow cid = t.servedRow cid := by
    rw [Serving.servedRow, hr]
    rfl
  refine ⟨⟨fun cid r => ?_, he ▸ h.1.exposures⟩, fun cid r => ?_, he ▸ h.2.exposures⟩
  · rw [hrow]
    exact h.1.rows cid r
  · rw [hrow]
    exact h.2.rows cid r

private theorem keeps_serves_modify {f : Serving → Serving} (he : ∀ s, (f s).exposuresLanded = s.exposuresLanded)
    (hr : ∀ s, (f s).attributedConversions = s.attributedConversions) :
    (Script.modify f : ServingScript).Keeps (Serves lake s) := by
  apply keeps_modify
  intro t ht
  exact ht.bookkeeping (he t) (hr t)

private theorem keeps_serves_loadExposuresDay (day : Int) :
    (loadExposuresDay lake.exposures day).Keeps (Serves lake s) := by
  have hinsert : (insertExposures (readExposuresForDays lake.exposures [day])).Keeps (Serves lake s) := by
    apply keeps_forEach
    intro chunk hchunk
    apply keeps_modify
    intro t ht
    refine ⟨⟨ht.1.rows, fun e he => ?_⟩, ht.2.rows, fun e he => List.mem_append_left _ (ht.2.exposures e he)⟩
    rcases List.mem_append.mp he with he | he
    · exact ht.1.exposures e he
    · exact (mem_of_mem_readExposuresForDays (mem_of_mem_batched (by decide) hchunk he)).1
  apply keeps_bind' hinsert
  intro _
  exact keeps_bind' (keeps_serves_modify (fun _ => rfl) fun _ => rfl) fun _ =>
    keeps_serves_modify (fun _ => rfl) fun _ => rfl

private theorem keeps_serves_loadAttributedDay (hlake : SameDay lake.attributed) (day : Int) :
    (loadAttributedDay lake.attributed day).Keeps (Serves lake s) := by
  have hinsert : (insertAttributed (readCurrent lake.attributed (some [day]))).Keeps (Serves lake s) := by
    apply keeps_forEach
    intro chunk hchunk
    apply keeps_modify
    intro t ht
    have hcurrent : ∀ r ∈ chunk, currentRow lake.attributed r.conversionId = some r := by
      intro r hr
      exact ((mem_readCurrent_days hlake).mp (mem_of_mem_batched (by decide) hchunk hr)).1
    obtain ⟨hc, hk⟩ := ht.1.insertAttributed hcurrent
    exact ⟨hc, ht.2.trans hk⟩
  exact keeps_bind' hinsert fun _ => keeps_serves_modify (fun _ => rfl) fun _ => rfl

private theorem keeps_serves_refresh : refreshCampaignHourly.Keeps (Serves lake s) := by
  apply keeps_get_bind
  intro t ht u hu
  dsimp only at hu
  split at hu
  · rw [leaves_pure.mp hu]
    exact ht
  · refine keeps_bind' (keeps_serves_modify ?_ ?_) (fun _ => keeps_serves_modify ?_ ?_) t u ht hu <;>
      intro _ <;> rfl

private theorem keeps_serves_materializeLoad (hlake : SameDay lake.attributed) (days : List Int) :
    (materializeLoad days).Keeps (Over lake (Serves lake s)) :=
  keeps_materializeLoad keeps_serves_loadExposuresDay (keeps_serves_loadAttributedDay hlake) keeps_serves_refresh days

private theorem keeps_serves_finalize : finalize.Keeps (Over lake (Serves lake s)) :=
  keeps_bind' (keeps_over (keeps_serves_modify (fun _ => rfl) fun _ => rfl)) fun _ =>
    keeps_over (keeps_serves_modify (fun _ => rfl) fun _ => rfl)

end tables

section driver
variable {bucketOf : String → Nat} {σ σ' : System} {d : Driver}

private theorem serving_of_leaves_collect {days : List Int}
    (h : (Script.collect days (reconciledConversions bucketOf)).Leaves σ σ') : σ'.serving = σ.serving := by
  have hday (day : Int) : (reconciledConversions bucketOf day).Keeps fun τ => τ.serving = σ.serving := by
    intro τ υ hτ hl
    rcases leaves_reconciledConversions hl with rfl | ⟨_, _, rfl⟩
    · exact hτ
    · exact hτ
  exact keeps_collect (fun day _ => hday day) σ σ' rfl h

/-- A stopped pass has landed corrections, and then maybe loaded some days. -/
theorem leaves_driver_load (h : SoundLake σ.lake) (hl : (d.script bucketOf).Leaves σ σ') :
    ∃ days rows m, Corrected (reconciledAtFor σ.serving.maxIngest) σ days rows m ∧ m.serving = σ.serving ∧
      (σ' = m ∨ ∃ loaded, (do materializeLoad loaded; finalize : SystemScript Unit).Leaves m σ') := by
  have hstopped : ∃ days rows m, Corrected (reconciledAtFor σ.serving.maxIngest) σ days rows m ∧
      m.serving = σ.serving ∧
      (σ = m ∨ ∃ loaded, (do materializeLoad loaded; finalize : SystemScript Unit).Leaves m σ) :=
    ⟨_, _, σ, .refl σ, rfl, .inl rfl⟩
  cases d with
  | run =>
    rcases leaves_get_bind hl with rfl | h₁
    · exact hstopped
    rcases leaves_orRaise_bind h₁ with rfl | ⟨days, hdays, h₂⟩
    · exact hstopped
    rcases leaves_orRaise_bind h₂ with rfl | ⟨rows, hrows, h₃⟩
    · exact hstopped
    have hland := Corrected.land (h.corrects_recoverDays hrows)
    rcases leaves_bind' h₃ with h₄ | ⟨_, m, hm, h₄⟩
    · rcases leaves_modify.mp h₄ with rfl | rfl
      · exact hstopped
      · exact ⟨_, _, _, hland, rfl, .inl rfl⟩
    rw [ends_onLake.mp hm] at h₄
    exact ⟨_, _, _, hland, rfl, .inr ⟨_, h₄⟩⟩
  | backfill partition =>
    simp only [Driver.script, runReconcile_eq] at hl
    rcases leaves_get_bind hl with rfl | h₁
    · exact hstopped
    rcases leaves_orRaise_bind h₁ with rfl | ⟨days, hdays, h₂⟩
    · exact hstopped
    rcases leaves_bind' h₂ with h₃ | ⟨dayss, m, hm, h₃⟩
    · obtain ⟨_, _, _, hland⟩ := leaves_collect_reconciled h h₃
      exact ⟨_, _, _, hland, serving_of_leaves_collect h₃, .inl rfl⟩
    obtain ⟨_, _, _, hland⟩ := leaves_collect_reconciled h hm.leaves
    exact ⟨_, _, _, hland, serving_of_leaves_collect hm.leaves, .inr ⟨_, h₃⟩⟩

/-- Corrections leave attributed rows current. -/
theorem Corrected.creditsCurrent {reconciledAt : Int} {days : List Int} {rows : List AttributedConversion}
    (h : SoundLake σ.lake) (hc : Corrected reconciledAt σ days rows σ') (hs : CreditsCurrent σ.lake σ.serving) :
    CreditsCurrent σ'.lake σ.serving := by
  rw [hc.lake]
  refine ⟨fun cid r hr hatt => ?_, hs.exposures⟩
  have hland := currentRow_land h.lakeCandidates_eq hc.corrects cid
  rw [hs.rows cid r hr hatt, Option.map_some] at hland
  refine hland.trans (congrArg some ?_)
  split
  · apply settledRow_of_not_hot
    intro hhot
    cases hatt.symm.trans hhot.1
  · rfl

end driver

section run
variable {bucketOf : String → Nat} {σ τ : System}

/-- The lake stays sound, what is served current, and every credit of the start is kept. -/
theorem PassRun.serves (h : PassRun bucketOf σ τ) (hσ : SoundLake σ.lake) (hs : CreditsCurrent σ.lake σ.serving) :
    SoundLake τ.lake ∧ τ.lake.exposures = σ.lake.exposures ∧ Serves τ.lake σ.serving τ.serving := by
  induction h with
  | start => exact ⟨hσ, rfl, hs, .refl _⟩
  | @pass τ υ d _ hl ih =>
    obtain ⟨hsound, hexp, hcur, hkeep⟩ := ih
    obtain ⟨days, rows, m, hc, hm, hl⟩ := leaves_driver_load hsound hl
    have hsm := hc.soundLake hsound
    have hstart : Over m.lake (Serves m.lake σ.serving) m :=
      ⟨rfl, hm ▸ hc.creditsCurrent hsound hcur, hm ▸ hkeep⟩
    have hend : Over m.lake (Serves m.lake σ.serving) υ := by
      rcases hl with rfl | ⟨loaded, hl⟩
      · exact hstart
      · exact keeps_bind' (keeps_serves_materializeLoad hsm.sameDay loaded) (fun _ => keeps_serves_finalize) _ _
          hstart hl
    have hlake := hend.lake
    refine ⟨hlake ▸ hsm, ?_, hlake ▸ hend.serving⟩
    rw [hlake, hc.lake]
    exact hexp
  | @load τ υ days _ hl ih =>
    obtain ⟨hsound, hexp, hserves⟩ := ih
    have hend := keeps_serves_materializeLoad hsound.sameDay days τ υ ⟨rfl, hserves⟩ hl
    have hlake := hend.lake
    exact ⟨hlake ▸ hsound, hlake ▸ hexp, hlake ▸ hend.serving⟩

/-- Corrections stay traced to the topics. -/
theorem PassRun.fromTopics {index : GraphIndex} {topics : Topics} (h : PassRun bucketOf σ τ)
    (hσ : FromTopics index topics σ.lake) : FromTopics index topics τ.lake := by
  induction h with
  | start => exact hσ
  | pass _ hl ih =>
    obtain ⟨_, _, _, hc⟩ := leaves_driver ih.sound hl
    exact ih.corrected hc
  | load _ hl ih =>
    rw [lake_of_leaves_materializeLoad hl]
    exact ih

end run

section dicts
variable {lake : Lake} {s t : Serving} {cid id household : String}

private theorem get?_credited {credit : String × Option String} : s.credited.get? cid = some credit ↔
    ∃ r, s.servedRow cid = some r ∧ r.attributed = true ∧ (r.householdId, r.exposureId) = credit := by
  have hnodup : ((sortedBy (fun r => r.conversionId) (s.attributedFinal.filter fun r => r.attributed)).map
      fun r => r.conversionId).Nodup := by
    rw [((sortedBy_perm _ _).map _).nodup_iff]
    exact (nodup_key_finalRows _).sublist (List.filter_sublist.map _)
  rw [Serving.credited, OrderedDict.get?_collect_of_nodup _ _ hnodup]
  simp only [mem_sortedBy, List.mem_filter, Serving.mem_attributedFinal]
  constructor
  · intro h
    obtain ⟨r, ⟨hr, hatt⟩, rfl, he⟩ := h
    exact ⟨r, hr, hatt, he⟩
  · intro h
    obtain ⟨r, hr, hatt, he⟩ := h
    obtain rfl := (Serving.servedRow_eq_some hr).2
    exact ⟨r, ⟨hr, hatt⟩, rfl, he⟩

private theorem get?_exposureHouseholds (hk : Keyed Exposure.exposureId lake.exposures)
    (hs : ∀ e ∈ s.exposuresLanded, e ∈ lake.exposures) : s.exposureHouseholds.get? id = some household ↔
      ∃ e ∈ s.exposuresLanded, e.exposureId = id ∧ e.householdId = household := by
  have hmem (e : Exposure) : e ∈ s.exposuresFinal ↔ e ∈ s.exposuresLanded := s.mem_exposuresFinal_of_keyed hk hs
  have hnodup : ((sortedBy Exposure.exposureId s.exposuresFinal).map Exposure.exposureId).Nodup := by
    rw [((sortedBy_perm _ _).map _).nodup_iff]
    apply List.Nodup.map_on _ s.nodup_exposuresFinal
    intro e he f hf hid
    exact hk e (hs e ((hmem e).mp he)) f (hs f ((hmem f).mp hf)) hid
  rw [Serving.exposureHouseholds, OrderedDict.get?_collect_of_nodup _ _ hnodup]
  simp only [mem_sortedBy, hmem]

theorem KeepsCredits.credited (h : KeepsCredits s t) {credit : String × Option String}
    (hc : s.credited.get? cid = some credit) : t.credited.get? cid = some credit := by
  obtain ⟨r, hr, hatt, he⟩ := get?_credited.mp hc
  exact get?_credited.mpr ⟨r, h.rows cid r hr hatt, hatt, he⟩

theorem KeepsCredits.exposureHouseholds (h : KeepsCredits s t) (hk : Keyed Exposure.exposureId lake.exposures)
    (ht : ∀ e ∈ t.exposuresLanded, e ∈ lake.exposures) (hid : s.exposureHouseholds.get? id = some household) :
    t.exposureHouseholds.get? id = some household := by
  have hs : ∀ e ∈ s.exposuresLanded, e ∈ lake.exposures := fun e he => ht e (h.exposures e he)
  obtain ⟨e, he, hide⟩ := (get?_exposureHouseholds hk hs).mp hid
  exact (get?_exposureHouseholds hk ht).mpr ⟨e, h.exposures e he, hide⟩

end dicts

/-- What a later report may only improve on. -/
structure NoWorse (before after : AccuracyReport) : Prop where
  credited : before.credited ≤ after.credited
  householdCorrect : before.householdCorrect ≤ after.householdCorrect
  exactExposureCorrect : before.exactExposureCorrect ≤ after.exactExposureCorrect
  causedMissed : after.causedMissed ≤ before.causedMissed
  «recall» : before.recall ≤ after.recall

section report
variable {truth exposureHousehold exposureHousehold' : OrderedDict String String} {credited credited' : Credited}

/-- More credits over more landed exposures. -/
theorem noWorse_score (hc : ∀ cid credit, credited.get? cid = some credit → credited'.get? cid = some credit)
    (he : ∀ id household, exposureHousehold.get? id = some household → exposureHousehold'.get? id = some household)
    (profile : String) :
    NoWorse (score truth exposureHousehold credited profile) (score truth exposureHousehold' credited' profile) := by
  have hcorrect : (score truth exposureHousehold credited profile).householdCorrect ≤
      (score truth exposureHousehold' credited' profile).householdCorrect := by
    rw [householdCorrect_score, householdCorrect_score]
    apply OrderedDict.countP_entries_le hc
    intro credit _ h
    obtain ⟨t, ht, h⟩ := (Option.any_eq_true _ _).mp h
    exact (Option.any_eq_true _ _).mpr ⟨t, ht, decide_eq_true (he _ _ (of_decide_eq_true h))⟩
  have hkeys (cid : String) (h : cid ∈ credited.keys) : cid ∈ credited'.keys := by
    obtain ⟨credit, h⟩ := OrderedDict.mem_keys_iff.mp h
    exact OrderedDict.mem_keys_iff.mpr ⟨credit, hc cid credit h⟩
  refine ⟨?_, hcorrect, ?_, ?_, ?_⟩
  · have hle := OrderedDict.countP_entries_le hc (p := fun _ => true) (q := fun _ => true) fun _ _ h => h
    rwa [List.countP_true] at hle
  · rw [exactExposureCorrect_score, exactExposureCorrect_score]
    exact OrderedDict.countP_entries_le hc fun _ _ h => h
  · apply List.countP_mono_left
    intro cid _ h
    have hnot : cid ∉ credited'.keys := of_decide_eq_true h
    exact decide_eq_true fun hin => hnot (hkeys cid hin)
  · change rate _ (truth.entries.length : ℚ) ≤ rate _ (truth.entries.length : ℚ)
    unfold rate
    split
    · exact le_rfl
    · exact div_le_div_of_nonneg_right (Nat.cast_le.mpr hcorrect) (Nat.cast_nonneg _)

end report
section engine
variable {dedup : Bool} {allowedLateness : Int} {index : GraphIndex} {topics : Topics} {name : String}
  {run : EngineRun} {σ₀ σ τ : System} {bucketOf : String → Nat} {lake lake' : Lake}

theorem ReadsAs.mem_exposures (h : ReadsAs lake lake') {e : Exposure} : e ∈ lake.exposures ↔ e ∈ lake'.exposures := by
  rw [← mem_firstSeen, h.exposures, mem_firstSeen]

theorem ReadsAs.mem_attributed (h : ReadsAs lake lake') {r : AttributedConversion} :
    r ∈ lake.attributed ↔ r ∈ lake'.attributed := by
  rw [← mem_firstSeen, h.attributed, mem_firstSeen]

/-- Appending a run again adds no row the topics do not account for. -/
theorem FromTopics.of_readsAs (h : FromTopics index topics lake') (hr : ReadsAs lake lake') :
    FromTopics index topics lake where
  sound := {
    keyed := h.sound.keyed.mono fun _ he => hr.mem_exposures.mp he
    sameDay := fun r hmem s hs => h.sound.sameDay r (hr.mem_attributed.mp hmem) s (hr.mem_attributed.mp hs)
    checked := fun r hmem => h.sound.checked r (hr.mem_attributed.mp hmem)
    exposuresOnGrid := fun e he => h.sound.exposuresOnGrid e (hr.mem_exposures.mp he)
    rowsOnGrid := fun r hmem => h.sound.rowsOnGrid r (hr.mem_attributed.mp hmem) }
  exposures e he := h.exposures e (hr.mem_exposures.mp he)
  rows y hy := h.rows y (hr.mem_attributed.mp hy)
  decided y hy := h.decided y (hr.mem_attributed.mp hy)

/-- What the last, completed attempt of an engine leaves: the run's rows, and all of them
served. -/
structure EngineDone (index : GraphIndex) (topics : Topics) (run : EngineRun) (name : String) (σ : System) : Prop where
  fromTopics : FromTopics index topics σ.lake
  readsAs : ReadsAs σ.lake run.lake
  current : CreditsCurrent σ.lake σ.serving
  exposures : ∀ e ∈ run.lake.exposures, e ∈ σ.serving.exposuresLanded
  marker : σ.serving.profileMarker = some name

theorem engineDone (hk : topics.Identified)
    (hrun : runEngine dedup allowedLateness index topics.exposures topics.conversions = .ok run)
    (h : Attempts (engine dedup allowedLateness index topics.exposures topics.conversions name) σ₀)
    (hl : (engine dedup allowedLateness index topics.exposures topics.conversions name).Ends σ₀ () σ) :
    EngineDone index topics run name σ := by
  have hday := sameDay_runEngine hrun
  have hretried := (h.stopped hl.leaves).retried hrun
  obtain ⟨run', hrun', hmain⟩ := ends_engine.mp hl
  rw [hrun] at hrun'
  cases hrun'
  have hdone := (h.retried hrun).finished hday hmain
  have hempty : FromTopics index topics Lake.empty :=
    ⟨soundLake_empty, fun _ he => absurd he List.not_mem_nil, fun _ hy => absurd hy List.not_mem_nil,
      fun _ hy => absurd hy List.not_mem_nil⟩
  have hfrom : FromTopics index topics run.lake := hempty.landRun hk hrun
  have hcurrent := readCurrent_congr hdone.lake.attributed none
  refine ⟨hfrom.of_readsAs hdone.lake, hdone.lake, ⟨fun cid r hr _ => ?_, fun e he => ?_⟩, fun e he => ?_,
    hdone.marker⟩
  · obtain ⟨hmem, hid⟩ := Serving.servedRow_eq_some hr
    rw [← hid, ← mem_readCurrent, hcurrent]
    exact hretried.serving.rows r hmem
  · exact hdone.lake.mem_exposures.mpr (hretried.serving.exposures e he)
  · have hloaded : e ∈ run.lake.loaded.exposuresFinal := by
      rw [Serving.mem_exposuresFinal_of_keyed _ hfrom.sound.keyed fun x hx => mem_exposuresLanded_loaded.mp hx]
      exact mem_exposuresLanded_loaded.mpr he
    exact (finalRow_eq_some (Serving.mem_exposuresFinal.mp (hdone.exposures.mem_iff.mpr hloaded))).1

/-- After the engine, with any attempts stopped before, no pass or load takes a credit back:
correct credits and recall never fall, misses never rise. -/
theorem passes_keep_accuracy (hk : topics.Identified)
    (h : Attempts (engine dedup allowedLateness index topics.exposures topics.conversions name) σ₀)
    (hl : (engine dedup allowedLateness index topics.exposures topics.conversions name).Ends σ₀ () σ)
    (hτ : PassRun bucketOf σ τ) (truth : OrderedDict String String) (profile : String) :
    (∀ cid credit, σ.serving.credited.get? cid = some credit → τ.serving.credited.get? cid = some credit) ∧
      NoWorse (score truth σ.serving.exposureHouseholds σ.serving.credited profile)
        (score truth τ.serving.exposureHouseholds τ.serving.credited profile) := by
  obtain ⟨run, hrun, _⟩ := ends_engine.mp hl
  have hdone := engineDone hk hrun h hl
  obtain ⟨hsound, _, hcur, hkeep⟩ := hτ.serves hdone.fromTopics.sound hdone.current
  have hcredits (cid : String) (credit : String × Option String) (hc : σ.serving.credited.get? cid = some credit) :
      τ.serving.credited.get? cid = some credit := hkeep.credited hc
  exact ⟨hcredits, noWorse_score hcredits (fun _ _ => hkeep.exposureHouseholds hsound.keyed hcur.exposures) profile⟩

end engine
section generated
variable {dedup : Bool} {allowedLateness : Int} {stream : GeneratedStream} {name : String} {run : EngineRun}
  {σ₀ σ τ : System} {bucketOf : String → Nat} {cid truthExposure household : String} {exposureId : Option String}

private theorem exists_link {links : List TruthLink} (h : (loadTruth links).get? cid = some truthExposure) :
    ∃ link ∈ links, link.conversionId = cid ∧ link.truthExposureId = truthExposure := by
  rw [loadTruth, OrderedDict.get?_collect_last, Option.map_eq_some_iff] at h
  obtain ⟨link, hlink, he⟩ := h
  obtain ⟨hmem, hid⟩ := List.mem_filter.mp (List.mem_of_getLast? hlink)
  exact ⟨link, hmem, of_decide_eq_true hid, he⟩

/-- An exposure of the topics is landed under its household. -/
theorem EngineDone.served {index : GraphIndex} {topics : Topics} (h : EngineDone index topics run name σ)
    (hk : topics.Identified)
    (hrun : runEngine dedup allowedLateness index topics.exposures topics.conversions = .ok run) {e : Exposure}
    (he : e ∈ topics.exposures) : σ.serving.exposureHouseholds.get? e.exposureId = some e.householdId := by
  have hin : e ∈ run.exposures := by
    obtain ⟨rows, _, hrows⟩ := bind_eq_ok_iff.mp hrun
    rw [← Except.ok.inj hrows]
    exact (mem_engineStreams_exposures (resolveStream topics.conversions index) dedup hk.exposures).mpr he
  have hlanded : landedExposure e ∈ run.lake.exposures := List.mem_map_of_mem hin
  exact (get?_exposureHouseholds h.fromTopics.sound.keyed h.current.exposures).mpr
    ⟨_, h.exposures _ hlanded, rfl, rfl⟩

/-- The served row behind a credit of a caused conversion, and the household of its cause. -/
theorem caused_credit (hstream : GeneratedFrom stream)
    (hrun : runEngine dedup allowedLateness (GraphIndex.fromHouseholds stream.graph) stream.exposures
      stream.conversions = .ok run)
    (hdone : EngineDone (GraphIndex.fromHouseholds stream.graph) ⟨stream.exposures, stream.conversions⟩ run name σ)
    (hτ : PassRun bucketOf σ τ) (hc : τ.serving.credited.get? cid = some (household, exposureId))
    (ht : (loadTruth stream.truthLinks).get? cid = some truthExposure) :
    ∃ r truth, currentRow τ.lake.attributed cid = some r ∧ r.attributed = true ∧ r.householdId = household ∧
      τ.serving.exposureHouseholds.get? truthExposure = some truth ∧ CreditsTruth truth r := by
  obtain ⟨n, hgraph⟩ := hstream.graph
  have hk : Topics.Identified ⟨stream.exposures, stream.conversions⟩ := ⟨hstream.exposures, hstream.conversions⟩
  obtain ⟨hsound, _, hcur, hkeep⟩ := hτ.serves hdone.fromTopics.sound hdone.current
  obtain ⟨r, hr, hatt, he⟩ := get?_credited.mp hc
  obtain ⟨link, hlink, rfl, rfl⟩ := exists_link ht
  obtain ⟨conv, hconv, e, hmem, h, hh, hcid, heid, hhh, hfired⟩ := hstream.links link hlink
  have hcandidate := mem_candidateHouseholdsOf_of_firedIn hgraph hh hfired
  rw [hhh] at hcandidate
  have hrow := hcur.rows _ r hr hatt
  have hid : r.conversionId = conv.conversionId := (currentRow_conversionId hrow).trans hcid.symm
  have hserved := hkeep.exposureHouseholds hsound.keyed hcur.exposures (hdone.served hk hrun hmem)
  rw [heid] at hserved
  exact ⟨r, e.householdId, hrow, hatt, congrArg Prod.fst he, hserved,
    (hτ.fromTopics hdone.fromTopics).creditsTruth hk hconv hcandidate (currentRow_mem hrow) hid⟩

/-- On every generated stream the hot path credits no caused conversion to a wrong
household. Passes keep its correct credits; a wrong one they add is of a conversion with
several candidates, the true household among them. -/
theorem generated_accuracy (bucketOf : String → Nat) (profile : Profile) (draws rest : List Nat)
    (hgen : (generate profile).run draws = .ok (stream, rest))
    (h : Attempts (engine dedup allowedLateness (GraphIndex.fromHouseholds stream.graph) stream.exposures
      stream.conversions name) σ₀)
    (hl : (engine dedup allowedLateness (GraphIndex.fromHouseholds stream.graph) stream.exposures
      stream.conversions name).Ends σ₀ () σ) :
    ∃ report, evalMain σ.serving (some stream.truthLinks) name = .ok report ∧ report.causedWrongHousehold = 0 ∧
      report.credited = report.householdCorrect + report.organicCredited ∧
      (∀ other, other ≠ name → ∀ links, evalMain σ.serving links other = .error (.marker (.mismatch name other))) ∧
      ∀ τ, PassRun bucketOf σ τ →
        NoWorse report (score (loadTruth stream.truthLinks) τ.serving.exposureHouseholds τ.serving.credited name) ∧
        ∀ cid household exposureId truthExposure,
          τ.serving.credited.get? cid = some (household, exposureId) →
          (loadTruth stream.truthLinks).get? cid = some truthExposure →
          τ.serving.exposureHouseholds.get? truthExposure ≠ some household →
          ∃ r ∈ readCurrent τ.lake.attributed none, r.conversionId = cid ∧ r.path = .reconciled ∧
            1 < r.candidateCount ∧
            ∃ truth ∈ r.candidateHouseholds, τ.serving.exposureHouseholds.get? truthExposure = some truth := by
  have hstream := yields_generate profile draws stream rest hgen
  have hk : Topics.Identified ⟨stream.exposures, stream.conversions⟩ := ⟨hstream.exposures, hstream.conversions⟩
  obtain ⟨run, hrun, _⟩ := ends_engine.mp hl
  have hdone := engineDone hk hrun h hl
  have hhot {r : AttributedConversion} (hr : r ∈ σ.lake.attributed) : r.path = .hot := by
    obtain ⟨x, hx, rfl⟩ := List.mem_map.mp (hdone.readsAs.mem_attributed.mp hr)
    exact (hotRows_of_runEngine hk hrun).hotRun.hot x hx
  have hwrong : (score (loadTruth stream.truthLinks) σ.serving.exposureHouseholds σ.serving.credited
      name).causedWrongHousehold = 0 := by
    rw [causedWrongHousehold_score, List.countP_eq_zero]
    intro credit hcredit hw
    obtain ⟨t, ht, hw⟩ := (Option.any_eq_true _ _).mp hw
    obtain ⟨r, truth, hrow, hatt, hhousehold, hserved, hcredits⟩ :=
      caused_credit hstream hrun hdone (.start : PassRun bucketOf σ σ) (OrderedDict.mem_entries.mp hcredit) ht
    have hmany : ¬ 1 < r.candidateCount := by
      intro hmany
      have hno := hcredits.deferred hmany (hhot (currentRow_mem hrow))
      cases hatt.symm.trans hno
    have hone : r.candidateCount = 1 := le_antisymm (not_lt.mp hmany) r.candidateCount_pos
    apply of_decide_eq_true hw
    rw [hserved, ← hcredits.certain hone hatt, hhousehold]
  have hmarker (other : String) : assertProfileMarker σ.serving.profileMarker other =
      if name ≠ other then .error (.mismatch name other) else .ok () := by
    rw [hdone.marker]
    rfl
  refine ⟨score (loadTruth stream.truthLinks) σ.serving.exposureHouseholds σ.serving.credited name, ?_, hwrong, ?_,
    fun other hne links => ?_, fun τ hτ => ⟨?_, ?_⟩⟩
  · rw [evalMain, hmarker, if_neg (not_not.mpr rfl)]
    rfl
  · rw [balances_score.credited, hwrong]
    rfl
  · unfold evalMain
    rw [hmarker, if_pos hne.symm]
    rfl
  · obtain ⟨hsound, _, hcur, hkeep⟩ := hτ.serves hdone.fromTopics.sound hdone.current
    exact noWorse_score (fun _ _ => hkeep.credited)
      (fun _ _ => hkeep.exposureHouseholds hsound.keyed hcur.exposures) name
  · intro cid household exposureId truthExposure hc ht hne
    obtain ⟨r, truth, hrow, hatt, hhousehold, hserved, hcredits⟩ := caused_credit hstream hrun hdone hτ hc ht
    have hmany : 1 < r.candidateCount := by
      refine lt_of_le_of_ne r.candidateCount_pos fun hone => hne ?_
      rw [hserved, ← hcredits.certain hone.symm hatt, hhousehold]
    have hid := currentRow_conversionId hrow
    refine ⟨r, mem_readCurrent.mpr (hid.symm ▸ hrow), hid, ?_, hmany, truth, hcredits.kept hmany, hserved⟩
    cases hpath : r.path with
    | reconciled => rfl
    | hot =>
      have hno := hcredits.deferred hmany hpath
      cases hatt.symm.trans hno

end generated
section sample

/-- The sample engine's landings once more, and their day loaded. -/
def sampleScored : System :=
  let lake := (sampleLandings.land sampleLandings.exposures).landAttributed sampleLandings.attributed
  ⟨lake, { Serving.empty.afterLoad lake [20700, 20700] with evalMeta := ["tiny"] }⟩

private theorem sampleScored_ends : sampleEngine.Ends ⟨sampleLandings, Serving.empty⟩ () sampleScored := by
  have hrun : runEngine true Time.hour sampleGraph [sampleExposure "e1" sampleDay sampleDay]
      [sampleConversion "c1" (sampleDay + Time.minute) (sampleDay + Time.minute)] =
      .ok ⟨sampleLandings.exposures, sampleLandings.attributed, 1, 0⟩ := by decide
  have hdays : landedDays ⟨sampleLandings.exposures, sampleLandings.attributed, 1, 0⟩ = [20700, 20700] := by decide
  refine ends_engine.mpr ⟨_, hrun, ends_engineMain.mpr ⟨by decide, ?_⟩⟩
  rw [hdays]
  rfl

/-- After a stopped attempt and a complete one, a pass. -/
theorem passes_keep_accuracy_sample : ∃ τ, PassRun String.length sampleScored τ ∧
    (∀ cid credit, sampleScored.serving.credited.get? cid = some credit →
      τ.serving.credited.get? cid = some credit) ∧
      NoWorse (score (loadTruth [⟨"c1", "e1"⟩]) sampleScored.serving.exposureHouseholds sampleScored.serving.credited "tiny")
        (score (loadTruth [⟨"c1", "e1"⟩]) τ.serving.exposureHouseholds τ.serving.credited "tiny") := by
  have hk : Topics.Identified ⟨[sampleExposure "e1" sampleDay sampleDay],
      [sampleConversion "c1" (sampleDay + Time.minute) (sampleDay + Time.minute)]⟩ := ⟨by decide, by decide⟩
  obtain ⟨τ, hpass⟩ : ∃ τ, (Driver.run.script String.length).Ends sampleScored () τ :=
    ⟨_, ends_reconcileRun.mpr ⟨[], [], by decide +kernel, by decide +kernel, by decide, rfl⟩⟩
  have hτ := PassRun.pass .start hpass.leaves
  exact ⟨τ, hτ, passes_keep_accuracy hk sampleEngine_attempts sampleScored_ends hτ _ _⟩

/-- The two households behind one address, inside the calendar. -/
def sampleSeason : Profile := { sampleProfile with simStart := sampleDay }

theorem generated_accuracy_sample : ∃ stream rest σ,
    (generate sampleSeason).run (List.replicate 80 0) = .ok (stream, rest) ∧ stream.truthLinks ≠ [] ∧
    (engine true (6 * Time.hour) (GraphIndex.fromHouseholds stream.graph) stream.exposures stream.conversions
      "tiny").Ends ⟨Lake.empty, Serving.empty⟩ () σ ∧
    ∃ report, evalMain σ.serving (some stream.truthLinks) "tiny" = .ok report ∧ report.causedWrongHousehold = 0 ∧
      report.credited = report.householdCorrect + report.organicCredited ∧
      (∀ other, other ≠ "tiny" → ∀ links, evalMain σ.serving links other = .error (.marker (.mismatch "tiny" other))) ∧
      ∀ τ, PassRun String.length σ τ →
        NoWorse report (score (loadTruth stream.truthLinks) τ.serving.exposureHouseholds τ.serving.credited "tiny") ∧
        ∀ cid household exposureId truthExposure,
          τ.serving.credited.get? cid = some (household, exposureId) →
          (loadTruth stream.truthLinks).get? cid = some truthExposure →
          τ.serving.exposureHouseholds.get? truthExposure ≠ some household →
          ∃ r ∈ readCurrent τ.lake.attributed none, r.conversionId = cid ∧ r.path = .reconciled ∧
            1 < r.candidateCount ∧
            ∃ truth ∈ r.candidateHouseholds, τ.serving.exposureHouseholds.get? truthExposure = some truth := by
  have hcompletes : (((generate sampleSeason).run (List.replicate 80 0)).toOption.any fun p =>
      !p.1.truthLinks.isEmpty ∧ ((runEngine true (6 * Time.hour) (GraphIndex.fromHouseholds p.1.graph) p.1.exposures
        p.1.conversions).toOption.any fun run => ∀ d ∈ landedDays run, dayPartitions d = true)) = true := by
    decide +kernel
  cases hgen : (generate sampleSeason).run (List.replicate 80 0) with
  | error e =>
    rw [hgen] at hcompletes
    cases hcompletes
  | ok p =>
    rw [hgen] at hcompletes
    obtain ⟨hlinks, hengine⟩ : p.1.truthLinks.isEmpty = false ∧
        ((runEngine true (6 * Time.hour) (GraphIndex.fromHouseholds p.1.graph) p.1.exposures
          p.1.conversions).toOption.any fun run => ∀ d ∈ landedDays run, dayPartitions d = true) = true := by
      simpa [Except.toOption] using hcompletes
    cases hrun : runEngine true (6 * Time.hour) (GraphIndex.fromHouseholds p.1.graph) p.1.exposures
        p.1.conversions with
    | error e =>
      rw [hrun] at hengine
      cases hengine
    | ok run =>
      rw [hrun] at hengine
      obtain ⟨σ, hσ⟩ : ∃ σ, (engine true (6 * Time.hour) (GraphIndex.fromHouseholds p.1.graph) p.1.exposures
          p.1.conversions "tiny").Ends ⟨Lake.empty, Serving.empty⟩ () σ :=
        ⟨_, ends_engine.mpr ⟨run, hrun, ends_engineMain.mpr ⟨of_decide_eq_true hengine, rfl⟩⟩⟩
      refine ⟨p.1, p.2, σ, rfl, fun hnil => ?_, hσ, generated_accuracy String.length sampleSeason _ p.2 hgen .empty hσ⟩
      rw [hnil] at hlinks
      cases hlinks

end sample
end CtvAttribution
