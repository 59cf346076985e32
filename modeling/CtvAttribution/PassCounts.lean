import CtvAttribution.PassConvergence
import CtvAttribution.PassParity
import CtvAttribution.ReachableStates

/-! What a pass counts: the totals `run` returns and its counters take in, and the metadata
of the orchestrated days. -/
namespace CtvAttribution
open Library Script

/-- The dict `run` returns. -/
structure PassCounts where
  candidates : Int
  recovered : Int
  stillMissing : Int
  deriving DecidableEq, Repr

/-- The counters of reconcile/metrics.py. -/
structure ReconcileMetrics where
  candidates : Int
  recovered : Int
  stillMissing : Int
  deriving DecidableEq, Repr

/-- `Counter.inc`: a counter refuses a negative amount. -/
def counterInc (value amount : Int) : Option Int := if amount < 0 then none else some (value + amount)

/-- The three `inc` calls at the end of `run`. -/
def ReconcileMetrics.observe (m : ReconcileMetrics) (counts : PassCounts) : Option ReconcileMetrics := do
  return ⟨← counterInc m.candidates counts.candidates, ← counterInc m.recovered counts.recovered,
    ← counterInc m.stillMissing counts.stillMissing⟩

/-- The metadata of `reconciled_conversions[day]`. -/
structure DayMetadata where
  candidates : Nat
  recovered : Nat
  touchedDays : List Int
  deriving DecidableEq, Repr

section scripts
variable (bucketOf : String → Nat)

/-- `run`, with what it returns. -/
def countedRun : SystemScript PassCounts := do
  let σ ← Script.get
  let reconciledAt := reconciledAtFor σ.serving.maxIngest
  let days ← orRaise (candidateDays σ.lake.attributed)
  let candidates ← orRaise (lakeCandidates σ.lake.attributed none)
  let recovered ← orRaise (recoverDays bucketOf σ.lake days reconciledAt)
  onLake fun lake => lake.landAttributed recovered
  materializeLoad (touchedDays (recovered.map fun r => r.eventTime))
  finalize
  return ⟨candidates.length, recovered.length, candidates.length - recovered.length⟩

/-- `reconciled_conversions[day]`, with its metadata. -/
def reconciledConversionsAsset (day : Int) : SystemScript DayMetadata := do
  if !dayPartitions day then Script.fail (.unknownPartition [day])
  let σ ← Script.get
  let candidates ← orRaise (lakeCandidates σ.lake.attributed (some day))
  let recovered ← orRaise (recoverDay bucketOf σ.lake day (reconciledAtFor σ.serving.maxIngest) longWindow)
  onLake fun lake => lake.landAttributed recovered
  return ⟨candidates.length, recovered.length, touchedDays (recovered.map fun r => r.eventTime)⟩

end scripts

section ends
variable {bucketOf : String → Nat} {σ τ : System}

private theorem ends_countedRun {counts : PassCounts} : (countedRun bucketOf).Ends σ counts τ ↔
    ∃ days cands rows, candidateDays σ.lake.attributed = .ok days ∧ lakeCandidates σ.lake.attributed none = .ok cands ∧
      recoverDays bucketOf σ.lake days (reconciledAtFor σ.serving.maxIngest) = .ok rows ∧
      (∀ d ∈ touched rows, dayPartitions d = true) ∧
      counts = ⟨cands.length, rows.length, cands.length - rows.length⟩ ∧
      τ = ⟨σ.lake.landAttributed rows,
        (σ.serving.afterLoad (σ.lake.landAttributed rows) (touched rows)).afterFinalize⟩ := by
  simp only [countedRun, ends_bind', ends_get, ends_orRaise, ends_onLake, ends_materializeLoad, ends_finalize, ends_pure]
  constructor
  · intro h
    obtain ⟨_, _, ⟨hm, hσ⟩, days, _, ⟨hm', hdays⟩, cands, _, ⟨hc, hcands⟩, rows, _, ⟨hm'', hrows⟩, _, _, hland, _, _,
      ⟨hknown, hload⟩, _, _, hfin, hτ, hcounts⟩ := h
    subst hm hσ hm' hc hm'' hland hload hfin
    exact ⟨days, cands, rows, hdays, hcands, hrows, hknown, hcounts, hτ⟩
  · intro h
    obtain ⟨days, cands, rows, hdays, hcands, hrows, hknown, hcounts, hτ⟩ := h
    exact ⟨_, _, ⟨rfl, rfl⟩, days, _, ⟨rfl, hdays⟩, cands, _, ⟨rfl, hcands⟩, rows, _, ⟨rfl, hrows⟩, (), _, rfl, (), _,
      ⟨hknown, rfl⟩, (), _, rfl, hτ, hcounts⟩

/-- Counting changes nothing about the pass. -/
theorem ends_reconcileRun_of_counted {counts : PassCounts} (h : (countedRun bucketOf).Ends σ counts τ) :
    (reconcileRun bucketOf).Ends σ () τ := by
  obtain ⟨days, _, rows, hdays, _, hrows, hknown, _, hτ⟩ := ends_countedRun.mp h
  exact ends_reconcileRun.mpr ⟨days, rows, hdays, hrows, hknown, hτ⟩

end ends

section recovered
variable {bucketOf : String → Nat} {lake : Lake} {days : List Int} {reconciledAt : Int}

/-- The candidates fall on the candidate days, each on one. -/
theorem candidateRows_by_day (h : SoundLake lake) (hdays : candidateDays lake.attributed = .ok days) :
    (days.flatMap fun d => (candidateRows lake.attributed).filter fun r => dayOf r.eventTime = d).Perm
      (candidateRows lake.attributed) := by
  rw [h.candidateDays_eq] at hdays
  cases hdays
  exact OrderedDict.flatMap_filter_perm (fun r : AttributedConversion => dayOf r.eventTime)
    ((sortedSet_strict _).imp ne_of_lt) fun r hr => mem_sortedSet.mpr (List.mem_map_of_mem hr)

/-- Over the candidate days a pass recovers each recoverable candidate once. -/
theorem recoverDays_perm (h : SoundLake lake) (hdays : candidateDays lake.attributed = .ok days)
    {rows : List AttributedConversion} (hrows : recoverDays bucketOf lake days reconciledAt = .ok rows) :
    rows.Perm ((candidateRows lake.attributed).filterMap (correction lake.exposures longWindow reconciledAt)) := by
  have hday (d : Int) := recoverDay_eq h.sameDay rfl h.keyed h.lakeCandidates_eq bucketOf d reconciledAt longWindow
  unfold recoverDays at hrows
  obtain ⟨rowss, hmap, hrows⟩ := bind_eq_ok_iff.mp hrows
  cases hrows
  have hgroups := flatMap_perm_of_mapM_eq_ok hmap (g := fun d =>
    ((candidateRows lake.attributed).filter fun r => dayOf r.eventTime = d).filterMap
      (correction lake.exposures longWindow reconciledAt)) (k := id) fun d _ rows hrows => by
    cases (hday d).symm.trans hrows
    exact .refl _
  rw [List.flatMap_id, ← List.filterMap_flatMap] at hgroups
  exact hgroups.trans ((candidateRows_by_day h hdays).filterMap _)

private theorem length_filterMap_correction (exposures : List Exposure) (cands : List AttributedConversion) :
    (cands.filterMap (correction exposures longWindow reconciledAt)).length =
      cands.countP fun r => Recoverable exposures longWindow r := by
  rw [List.length_filterMap_eq_countP]
  refine List.countP_congr fun r _ => ?_
  rw [decide_eq_true_iff, Option.isSome_iff_exists, exists_correction_iff]

end recovered

/-- What the counts of a pass say about the lake it ran over. -/
structure PassAccount (σ : System) (counts : PassCounts) (τ : System) : Prop where
  candidates : counts.candidates = (candidateRows σ.lake.attributed).length
  recovered : counts.recovered =
    (candidateRows σ.lake.attributed).countP fun r => Recoverable σ.lake.exposures longWindow r
  stillMissing : counts.stillMissing =
    (candidateRows σ.lake.attributed).countP fun r => ¬ Recoverable σ.lake.exposures longWindow r
  appended : ∃ rows, τ.lake = σ.lake.landAttributed rows ∧ counts.recovered = rows.length ∧
    ∀ r ∈ rows, r.path = .reconciled

private theorem passAccount {bucketOf : String → Nat} {σ τ : System} {counts : PassCounts} (hσ : SoundLake σ.lake)
    (h : (countedRun bucketOf).Ends σ counts τ) : PassAccount σ counts τ := by
  obtain ⟨days, cands, rows, hdays, hcands, hrows, _, rfl, rfl⟩ := ends_countedRun.mp h
  rw [hσ.lakeCandidates_eq] at hcands
  cases hcands
  have hperm := recoverDays_perm hσ hdays hrows
  have hlen : rows.length = (candidateRows σ.lake.attributed).countP fun r =>
      Recoverable σ.lake.exposures longWindow r := by
    rw [hperm.length_eq, length_filterMap_correction]
  refine ⟨rfl, congrArg Nat.cast hlen, ?_, rows, rfl, rfl, fun r hr => ?_⟩
  · have hsplit := List.length_eq_countP_add_countP (fun r => decide (Recoverable σ.lake.exposures longWindow r))
      (l := candidateRows σ.lake.attributed)
    simp only [decide_eq_true_iff] at hsplit
    rw [← hlen] at hsplit
    dsimp only
    omega
  · obtain ⟨c, _, hc⟩ := List.mem_filterMap.mp (hperm.mem_iff.mp hr)
    exact (correction_fields hc).2.1

private theorem observe_eq_some {m : ReconcileMetrics} {counts : PassCounts} (hc : 0 ≤ counts.candidates)
    (hr : 0 ≤ counts.recovered) (hm : 0 ≤ counts.stillMissing) :
    m.observe counts = some ⟨m.candidates + counts.candidates, m.recovered + counts.recovered,
      m.stillMissing + counts.stillMissing⟩ := by
  rw [ReconcileMetrics.observe, counterInc, counterInc, counterInc, if_neg (Int.not_lt.mpr hc),
    if_neg (Int.not_lt.mpr hr), if_neg (Int.not_lt.mpr hm)]
  rfl

/-- No amount of a pass is negative, so the counters take it in. -/
theorem PassAccount.observe {σ τ : System} {counts : PassCounts} (h : PassAccount σ counts τ) (m : ReconcileMetrics) :
    m.observe counts = some ⟨m.candidates + counts.candidates, m.recovered + counts.recovered,
      m.stillMissing + counts.stillMissing⟩ := by
  apply observe_eq_some
  · rw [h.candidates]
    exact Int.natCast_nonneg _
  · rw [h.recovered]
    exact Int.natCast_nonneg _
  · rw [h.stillMissing]
    exact Int.natCast_nonneg _

theorem PassAccount.split {σ τ : System} {counts : PassCounts} (h : PassAccount σ counts τ) :
    counts.candidates = counts.recovered + counts.stillMissing := by
  have hsplit := List.length_eq_countP_add_countP (fun r => decide (Recoverable σ.lake.exposures longWindow r))
    (l := candidateRows σ.lake.attributed)
  simp only [decide_eq_true_iff] at hsplit
  rw [h.candidates, h.recovered, h.stillMissing]
  exact_mod_cast hsplit

/-- Engine runs landed, stopped or not, and counted passes in one process, from an empty
lake; ClickHouse may change in any way in between. -/
inductive CountedRun (bucketOf : String → Nat) : System → ReconcileMetrics → Prop where
  | start (serving : Serving) : CountedRun bucketOf ⟨.empty, serving⟩ ⟨0, 0, 0⟩
  | land {σ σ' : System} {m : ReconcileMetrics} {run : EngineRun} : CountedRun bucketOf σ m → Lands σ.lake run →
      (landRun run).Leaves σ σ' → CountedRun bucketOf σ' m
  | serve {σ : System} {m : ReconcileMetrics} (serving : Serving) :
      CountedRun bucketOf σ m → CountedRun bucketOf { σ with serving := serving } m
  | pass {σ τ : System} {m m' : ReconcileMetrics} {counts : PassCounts} : CountedRun bucketOf σ m →
      (countedRun bucketOf).Ends σ counts τ → m.observe counts = some m' → CountedRun bucketOf τ m'

/-- The counters add up, and count the corrections in the log. -/
structure Accounted (σ : System) (m : ReconcileMetrics) : Prop where
  sound : SoundLake σ.lake
  split : m.candidates = m.recovered + m.stillMissing
  nonneg : 0 ≤ m.recovered ∧ 0 ≤ m.stillMissing
  recovered : m.recovered = σ.lake.attributed.countP fun r => r.path = .reconciled

section accounted
variable {bucketOf : String → Nat} {σ τ : System} {m m' : ReconcileMetrics} {counts : PassCounts}

private theorem countP_reconciled_land {log : List AttributedConversion} {rows : List AttributedConversion}
    (h : ∀ r ∈ rows, r.path = .hot) :
    (log ++ rows.map landedRow).countP (fun r => r.path = .reconciled) = log.countP fun r => r.path = .reconciled := by
  rw [List.countP_append, Nat.add_eq_left, List.countP_eq_zero]
  intro r hr
  obtain ⟨x, hx, rfl⟩ := List.mem_map.mp hr
  have hpath : (landedRow x).path = .hot := h x hx
  rw [hpath]
  decide

theorem Accounted.land (h : Accounted σ m) {run : EngineRun} (hl : Lands σ.lake run)
    (hrun : (landRun run).Leaves σ τ) : Accounted τ m := by
  rcases leaves_landRun hrun with rfl | rfl | rfl
  · exact h
  · exact ⟨h.sound.land hl, h.split, h.nonneg, h.recovered⟩
  · refine ⟨h.sound.landRun hl, h.split, h.nonneg, ?_⟩
    rw [h.recovered]
    exact congrArg Nat.cast (countP_reconciled_land hl.hot.hot).symm

theorem Accounted.pass (h : Accounted σ m) (hp : (countedRun bucketOf).Ends σ counts τ)
    (hm : m.observe counts = some m') : Accounted τ m' := by
  have hacc := passAccount h.sound hp
  have hsound : SoundLake τ.lake := by
    obtain ⟨days, rows, _, hc, _, _⟩ := ends_driver (d := .run) h.sound (ends_reconcileRun_of_counted hp)
    exact hc.soundLake h.sound
  rw [hacc.observe] at hm
  cases hm
  obtain ⟨rows, hlake, hlen, hpath⟩ := hacc.appended
  have hsplit := hacc.split
  have hbefore := h.split
  refine ⟨hsound, ?_, ?_, ?_⟩
  · dsimp only
    omega
  · have hstill : 0 ≤ counts.stillMissing := by
      rw [hacc.stillMissing]
      exact Int.natCast_nonneg _
    have hrec := h.nonneg
    dsimp only
    omega
  · have hcount : (rows.map landedRow).countP (fun r => r.path = .reconciled) = rows.length := by
      rw [← List.length_map (f := landedRow), List.countP_eq_length]
      intro r hr
      obtain ⟨x, hx, rfl⟩ := List.mem_map.mp hr
      exact decide_eq_true (hpath x hx)
    have hlog : τ.lake.attributed = σ.lake.attributed ++ rows.map landedRow := by rw [hlake]; rfl
    rw [hlog, List.countP_append, hcount, Int.natCast_add, ← h.recovered, hlen]

private theorem CountedRun.accounted (h : CountedRun bucketOf σ m) : Accounted σ m := by
  induction h with
  | start serving => exact ⟨soundLake_empty, rfl, ⟨Int.le_refl 0, Int.le_refl 0⟩, rfl⟩
  | land _ hl hrun ih => exact ih.land hl hrun
  | serve serving _ ih => exact ⟨ih.sound, ih.split, ih.nonneg, ih.recovered⟩
  | pass _ hp hm ih => exact ih.pass hp hm

end accounted
section assets
variable {bucketOf : String → Nat} {σ τ : System} {day : Int} {days : List Int}

private theorem ends_reconciledConversionsAsset {md : DayMetadata} :
    (reconciledConversionsAsset bucketOf day).Ends σ md τ ↔ ∃ cands rows, dayPartitions day = true ∧
      lakeCandidates σ.lake.attributed (some day) = .ok cands ∧
      recoverDay bucketOf σ.lake day (reconciledAtFor σ.serving.maxIngest) longWindow = .ok rows ∧
      md = ⟨cands.length, rows.length, touched rows⟩ ∧ τ = { σ with lake := σ.lake.landAttributed rows } := by
  have heq : reconciledConversionsAsset bucketOf day = if dayPartitions day = true then do
        let σ ← Script.get
        let candidates ← orRaise (lakeCandidates σ.lake.attributed (some day))
        let recovered ← orRaise (recoverDay bucketOf σ.lake day (reconciledAtFor σ.serving.maxIngest) longWindow)
        onLake fun lake => lake.landAttributed recovered
        return ⟨candidates.length, recovered.length, touched recovered⟩
      else Script.fail (.unknownPartition [day]) := by
    unfold reconciledConversionsAsset
    cases dayPartitions day <;> rfl
  rw [heq]
  by_cases hday : dayPartitions day = true
  · rw [if_pos hday]
    simp only [ends_bind', ends_get, ends_orRaise, ends_onLake, ends_pure]
    constructor
    · intro h
      obtain ⟨_, _, ⟨hm, hσ⟩, cands, _, ⟨hc, hcands⟩, rows, _, ⟨hr, hrows⟩, _, _, hland, hτ, hmeta⟩ := h
      subst hm hσ hc hr hland
      exact ⟨cands, rows, hday, hcands, hrows, hmeta, hτ⟩
    · intro h
      obtain ⟨cands, rows, _, hcands, hrows, hmeta, hτ⟩ := h
      exact ⟨_, _, ⟨rfl, rfl⟩, cands, _, ⟨rfl, hcands⟩, rows, _, ⟨rfl, hrows⟩, (), _, rfl, hτ, hmeta⟩
  · simp [hday]

/-- Each day counts what it would have counted before the others were landed. -/
theorem counts_of_collect (hdays : days.Nodup) {mds : List DayMetadata}
    (h : (Script.collect days (reconciledConversionsAsset bucketOf)).Ends σ mds τ) :
    ∃ candss rowss, days.mapM (fun day => lakeCandidates σ.lake.attributed (some day)) = .ok candss ∧
      days.mapM (fun day => recoverDay bucketOf σ.lake day (reconciledAtFor σ.serving.maxIngest) longWindow) =
        .ok rowss ∧
      (mds.map DayMetadata.candidates).sum = candss.flatten.length ∧
      (mds.map DayMetadata.recovered).sum = rowss.flatten.length := by
  induction days generalizing σ mds with
  | nil =>
    obtain ⟨_, rfl⟩ := ends_collect_nil.mp h
    exact ⟨[], [], rfl, rfl, rfl, rfl⟩
  | cons day days ih =>
    obtain ⟨hday, hdays⟩ := List.nodup_cons.mp hdays
    obtain ⟨md, _, rest, hfirst, hrest, rfl⟩ := ends_collect_cons.mp h
    obtain ⟨cands, rows, _, hcands, hrows, rfl, rfl⟩ := ends_reconciledConversionsAsset.mp hfirst
    obtain ⟨candss, rowss, hcandss, hrowss, hc, hr⟩ := ih hdays hrest
    have hother {d : Int} (hd : d ∈ days) {r : AttributedConversion} (hmem : r ∈ rows) : dayOf r.eventTime ≠ d := by
      rw [dayOf_recoverDay hrows hmem]
      exact fun he => hday (he ▸ hd)
    have hcands' : days.mapM (fun d => lakeCandidates (σ.lake.landAttributed rows).attributed (some d)) =
        days.mapM fun d => lakeCandidates σ.lake.attributed (some d) := by
      refine mapM_congr fun d hd => lakeCandidates_append fun r hr => ?_
      obtain ⟨x, hx, rfl⟩ := List.mem_map.mp hr
      rw [dayOf_landedRow]
      exact hother hd hx
    have hrows' : days.mapM (fun d => recoverDay bucketOf (σ.lake.landAttributed rows) d
          (reconciledAtFor σ.serving.maxIngest) longWindow) =
        days.mapM fun d => recoverDay bucketOf σ.lake d (reconciledAtFor σ.serving.maxIngest) longWindow :=
      mapM_congr fun d hd => recoverDay_landAttributed fun r hr => hother hd hr
    refine ⟨cands :: candss, rows :: rowss, ?_, ?_, ?_, ?_⟩
    · rw [List.mapM_cons, hcands, ← hcands', hcandss]
      rfl
    · rw [List.mapM_cons, hrows, ← hrows', hrowss]
      rfl
    · rw [List.map_cons, List.sum_cons, hc, List.flatten_cons, List.length_append]
    · rw [List.map_cons, List.sum_cons, hr, List.flatten_cons, List.length_append]

/-- The days of a backfill count together what one pass counts. -/
theorem sums_of_collect {bucketOf : String → Nat} {υ : System} {counts : PassCounts} {mds : List DayMetadata}
    (hσ : SoundLake σ.lake) (hdays : candidateDays σ.lake.attributed = .ok days)
    (hp : (countedRun bucketOf).Ends σ counts υ)
    (h : (Script.collect days (reconciledConversionsAsset bucketOf)).Ends σ mds τ) :
    ((mds.map DayMetadata.candidates).sum : Int) = counts.candidates ∧
      ((mds.map DayMetadata.recovered).sum : Int) = counts.recovered := by
  have hnodup : days.Nodup := by
    rw [hσ.candidateDays_eq] at hdays
    cases hdays
    exact (sortedSet_strict _).imp ne_of_lt
  obtain ⟨candss, rowss, hcandss, hrowss, hc, hr⟩ := counts_of_collect hnodup h
  have hacc := passAccount hσ hp
  have hcands : candss.flatten.Perm (candidateRows σ.lake.attributed) := by
    have hgroups := flatMap_perm_of_mapM_eq_ok hcandss (g := fun d =>
      (candidateRows σ.lake.attributed).filter fun r => dayOf r.eventTime = d) (k := id) fun d _ cands hd => by
      cases (lakeCandidates_day hσ.sameDay hσ.lakeCandidates_eq d).symm.trans hd
      exact .refl _
    rw [List.flatMap_id] at hgroups
    exact hgroups.trans (candidateRows_by_day hσ hdays)
  have hrows : recoverDays bucketOf σ.lake days (reconciledAtFor σ.serving.maxIngest) = .ok rowss.flatten := by
    unfold recoverDays
    rw [hrowss]
    rfl
  rw [hc, hr, hcands.length_eq, (recoverDays_perm hσ hdays hrows).length_eq, length_filterMap_correction, hacc.candidates,
    hacc.recovered]
  exact ⟨rfl, rfl⟩

end assets

/-- In every run the counters of a pass take in what it returns, add up, and agree with the
corrections in the log and with the metadata of an orchestrated pass over the same lake. -/
theorem countedRun_accounts {bucketOf : String → Nat} {σ : System} {m : ReconcileMetrics}
    (h : CountedRun bucketOf σ m) :
    Accounted σ m ∧ ∀ counts τ, (countedRun bucketOf).Ends σ counts τ →
      PassAccount σ counts τ ∧ (∃ m', m.observe counts = some m') ∧
      ∀ days mds τ', candidateDays σ.lake.attributed = .ok days →
        (Script.collect days (reconciledConversionsAsset bucketOf)).Ends σ mds τ' →
          ((mds.map DayMetadata.candidates).sum : Int) = counts.candidates ∧
            ((mds.map DayMetadata.recovered).sum : Int) = counts.recovered := by
  have hacc := h.accounted
  refine ⟨hacc, fun counts τ hp => ⟨passAccount hacc.sound hp, ⟨_, (passAccount hacc.sound hp).observe m⟩, ?_⟩⟩
  exact fun days mds τ' hdays hc => sums_of_collect hacc.sound hdays hp hc

section sample

def sampleLanded : System :=
  ⟨(Lake.empty.land sampleRun.exposures).landAttributed sampleRun.rows, sampleServing⟩

/-- The sample run landed and passed over once: its deferred conversion is recovered. -/
theorem countedRun_accounts_sample : ∃ τ,
    (countedRun String.length).Ends sampleLanded ⟨1, 1, 0⟩ τ ∧ Accounted τ ⟨1, 1, 0⟩ ∧
    ∀ counts υ, (countedRun String.length).Ends τ counts υ →
      PassAccount τ counts υ ∧ (∃ m', ReconcileMetrics.observe ⟨1, 1, 0⟩ counts = some m') ∧
      ∀ days mds τ', candidateDays τ.lake.attributed = .ok days →
        (Script.collect days (reconciledConversionsAsset String.length)).Ends τ mds τ' →
          ((mds.map DayMetadata.candidates).sum : Int) = counts.candidates ∧
            ((mds.map DayMetadata.recovered).sum : Int) = counts.recovered := by
  have hlands : Lands Lake.empty sampleRun :=
    ⟨⟨by decide, by decide, by decide⟩, by simp [Keyed, Lake.empty, Lake.land, sampleRun], by decide⟩
  have hland : CountedRun String.length sampleLanded ⟨0, 0, 0⟩ := by
    have hrun : (landRun sampleRun).Ends ⟨Lake.empty, sampleServing⟩ (landedDays sampleRun) sampleLanded :=
      ends_landRun.mpr ⟨rfl, rfl⟩
    exact .land (.start sampleServing) hlands hrun.leaves
  obtain ⟨τ, hp⟩ : ∃ τ, (countedRun String.length).Ends sampleLanded ⟨1, 1, 0⟩ τ :=
    ⟨_, ends_countedRun.mpr ⟨[20700], sampleRun.rows, sampleCorrections, by decide, by decide, by decide, by decide,
      by decide, rfl⟩⟩
  exact ⟨τ, hp, countedRun_accounts (.pass hland hp rfl)⟩

end sample
end CtvAttribution
