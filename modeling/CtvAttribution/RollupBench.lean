import CtvAttribution.RefreshRaces
import CtvAttribution.StorageMerges

/-! The rollup's dirty-set gate. The bench rebuilds the rollup in full, with and without the
reconciled credits, and holds the keys that differ against those the pass refreshed. -/
namespace CtvAttribution
open Library Script

/-- `min` of a timestamp column; over no rows it is the epoch. -/
def minOf (times : List Int) : Int := (times.argmin id).getD 0

/-- `READ_TABLES`. -/
inductive ReadTable where
  | attributedConversions
  | exposuresLanded
  | campaignHourly
  | rollupDirty
  | rollupRefreshed
  deriving DecidableEq, Repr

def readTables : List ReadTable :=
  [.attributedConversions, .exposuresLanded, .campaignHourly, .rollupDirty, .rollupRefreshed]

/-- `optimize table .. final`. -/
def optimize (s : Serving) : ReadTable → Serving
  | .attributedConversions => { s with attributedConversions := s.attributedFinal }
  | .exposuresLanded => { s with exposuresLanded := s.exposuresFinal }
  | .campaignHourly => { s with campaignHourly := s.campaignHourlyFinal }
  | .rollupDirty => { s with rollupDirty := s.rollupDirtyFinal }
  | .rollupRefreshed =>
    { s with rollupRefreshed := finalRows RollupStamp.key RollupStamp.version s.rollupRefreshed }

def canonicalize (s : Serving) : Serving := readTables.foldl optimize s

/-- `campaign_hourly_rows`. -/
def campaignHourlyRows (s : Serving) (hotOnly : Bool) : List RollupRow :=
  refreshRows none s.exposuresFinal (s.attributedFinal.filter fun a => !hotOnly || a.path = .hot)

/-- `_keyed`. -/
def keyed (rows : List RollupRow) : OrderedDict RollupKey RollupRow :=
  OrderedDict.collect RollupRow.key (fun row _ => row.measures) rows

/-- The stamp `min(processed_at) .. where path = 'reconciled'`. -/
def firstReconciled (s : Serving) : Int :=
  minOf ((s.attributedFinal.filter fun a => a.path = .reconciled).map fun a => a.processedAt)

/-- `_RECONCILE_TOUCHED`. -/
def reconcileTouched (s : Serving) : List RollupKey :=
  (sortedBy (fun d : RollupStamp => (toLex d.key : String ×ₗ Int)) <|
    (finalRows RollupStamp.key RollupStamp.version s.rollupRefreshed).filter fun d =>
      firstReconciled s ≤ d.version).map RollupStamp.key

/-- The keys of two dicts under which they differ. -/
def differing (d e : OrderedDict RollupKey RollupRow) : List RollupKey :=
  (firstSeen (d.keys ++ e.keys)).filter fun k => d.get? k ≠ e.get? k

/-- `sorted(keys)[:5]`. -/
def firstFive (keys : List RollupKey) : List RollupKey :=
  (sortedBy (fun k : RollupKey => (toLex k : String ×ₗ Int)) keys).take 5

/-- `changed`: the keys in which the rebuilds without and with the reconciled credits differ. -/
def changedKeys (s : Serving) : List RollupKey :=
  differing (keyed (campaignHourlyRows s true)) (keyed (campaignHourlyRows s false))

/-- The difference of two sets of keys. -/
def minus (keys others : List RollupKey) : List RollupKey := keys.filter fun k => !others.contains k

/-- `_merged`. -/
def merged (incremental served : OrderedDict RollupKey RollupRow) : OrderedDict RollupKey RollupRow :=
  served.update incremental

/-- What the bench refuses. -/
inductive BenchError where
  | emptyRollup
  | nothingChanged
  | missedKeys (first : List RollupKey) (count : Nat)
  | notASaving (dirty total : Nat)
  | disagrees (first : List RollupKey)
  | wroteNoFewer (incremental full : Nat)
  deriving DecidableEq, Repr

/-- What the bench reports, but for what the server alone counts. -/
structure BenchReport where
  totalKeys : Nat
  changed : Nat
  dirty : Nat
  overRefresh : Nat
  equalSets : Bool
  full : Nat
  incremental : Nat
  deriving DecidableEq, Repr

/-- `_measure_into_scratch`: the rows written and, as `FINAL`, left in the scratch table. -/
def measureIntoScratch (rows : List RollupRow) : Nat × OrderedDict RollupKey RollupRow :=
  (rows.length, keyed (finalRows RollupRow.key RollupRow.reportedAt rows))

/-- `run`, on canonicalized tables. -/
def benchTables (s : Serving) : Except BenchError BenchReport :=
  let totalKeys := (campaignHourlyRows s false).length
  let dirty := reconcileTouched s
  let missed := minus (changedKeys s) dirty
  let full := measureIntoScratch (refreshRows none s.exposuresFinal s.attributedFinal)
  let incremental := measureIntoScratch (refreshRows (some dirty) s.exposuresFinal s.attributedFinal)
  let afterIncremental := merged incremental.2 (keyed s.campaignHourlyFinal)
  if totalKeys = 0 then .error .emptyRollup
  else if changedKeys s = [] then .error .nothingChanged
  else if missed ≠ [] then .error (.missedKeys (firstFive missed) missed.length)
  else if totalKeys ≤ dirty.length then .error (.notASaving dirty.length totalKeys)
  else if differing full.2 afterIncremental ≠ [] then
    .error (.disagrees (firstFive (full.2.keys.filter fun k => full.2.get? k ≠ afterIncremental.get? k)))
  else if full.1 ≤ incremental.1 then .error (.wroteNoFewer incremental.1 full.1)
  else .ok
    { totalKeys, changed := (changedKeys s).length, dirty := dirty.length
      overRefresh := (minus dirty (changedKeys s)).length
      equalSets := (minus dirty (changedKeys s)).isEmpty && missed.isEmpty
      full := full.1, incremental := incremental.1 }

/-- `run`. -/
def rollupBench (s : Serving) : Except BenchError BenchReport := benchTables (canonicalize s)

@[simp] theorem mem_minus {keys others : List RollupKey} {k : RollupKey} :
    k ∈ minus keys others ↔ k ∈ keys ∧ k ∉ others := by
  simp [minus]

section dicts
variable {d e : OrderedDict RollupKey RollupRow} {rows : List RollupRow} {k : RollupKey}

private theorem mem_differing : k ∈ differing d e ↔ d.get? k ≠ e.get? k := by
  rw [differing, List.mem_filter, mem_firstSeen, List.mem_append, decide_eq_true_eq]
  constructor
  · intro h
    exact h.2
  · intro h
    refine ⟨?_, h⟩
    rw [OrderedDict.mem_keys_iff, OrderedDict.mem_keys_iff]
    cases hd : d.get? k with
    | some v => exact .inl ⟨v, rfl⟩
    | none =>
      rw [hd] at h
      exact .inr (Option.ne_none_iff_exists'.mp h.symm)

/-- A dict of rows with one row a key, found by their keys. -/
theorem get?_keyed {f : RollupKey → Option RollupRow} (hn : (rows.map RollupRow.key).Nodup)
    (hmem : ∀ row, row ∈ rows ↔ f row.key = some row) (hkey : ∀ k row, f k = some row → row.key = k) (k : RollupKey) :
    (keyed rows).get? k = (f k).map RollupRow.measures := by
  apply Option.ext
  intro m
  rw [keyed, OrderedDict.get?_collect_of_nodup _ _ hn, Option.map_eq_some_iff]
  constructor
  · intro h
    obtain ⟨row, hrow, hk, hm⟩ := h
    exact ⟨row, hk ▸ (hmem row).mp hrow, hm⟩
  · intro h
    obtain ⟨row, hrow, hm⟩ := h
    have hk := hkey k row hrow
    exact ⟨row, (hmem row).mpr (hk.symm ▸ hrow), hk, hm⟩

private theorem get?_keyed_finalRows (rows : List RollupRow) (k : RollupKey) :
    (keyed (finalRows RollupRow.key RollupRow.reportedAt rows)).get? k =
      (finalRow RollupRow.key RollupRow.reportedAt rows k).map RollupRow.measures :=
  get?_keyed (nodup_key_finalRows _) (fun _ => mem_finalRows) (fun _ _ h => (finalRow_eq_some h).2.1) k

private theorem get?_keyed_rebuild (es : List Exposure) (rs : List AttributedConversion) (k : RollupKey) :
    (keyed (refreshRows none es rs)).get? k = (rebuiltRow es rs k).map RollupRow.measures :=
  get?_keyed (nodup_key_aggregate _) (fun _ => mem_refreshRows_none) (fun _ _ => rebuiltRow_key) k

end dicts

section changed
variable {es : List Exposure} {rs : List AttributedConversion} {k : RollupKey}

/-- A key's rows: its exposures, then its credits. -/
theorem keyGroup_eq : keyGroup es rs k = (es.filter fun e => rollupKey e = k).map exposureContribution ++
    ((credits es rs).filter fun c => rollupKey c.2 = k).map creditContribution := by
  rw [keyGroup, contributions, List.filter_append, List.filter_map, List.filter_map]
  rfl

private theorem attributedConversions_keyGroup : (rollupRow k (keyGroup es rs k)).attributedConversions =
    ((credits es rs).filter fun c => rollupKey c.2 = k).length := by
  change ((keyGroup es rs k).map Contribution.isConversion).sum = _
  rw [keyGroup_eq, List.map_append, List.sum_append, List.map_map, List.map_map]
  simp only [Function.comp_def, exposureContribution, creditContribution, List.map_const', List.sum_replicate_nat,
    Nat.mul_zero, Nat.mul_one, Nat.zero_add]

/-- Whether a key has a group does not depend on the credits. -/
theorem rebuiltRow_eq_none : rebuiltRow es rs k = none ↔ ¬ ∃ e ∈ es, rollupKey e = k := by
  have hgroup : keyGroup es rs k ≠ [] ↔ ∃ e ∈ es, rollupKey e = k := keyGroup_ne_nil
  rw [← hgroup, not_not, rebuiltRow]
  split
  · rename_i h
    exact ⟨fun _ => h, fun _ => rfl⟩
  · rename_i h
    exact ⟨fun hnone => absurd hnone (Option.some_ne_none _), fun hnil => absurd hnil h⟩

/-- The keys in which the two rebuilds differ are those a reconciled row credits. -/
theorem rebuiltRow_hot_ne_iff : (rebuiltRow es (rs.filter fun a => a.path = .hot) k).map RollupRow.measures ≠
    (rebuiltRow es rs k).map RollupRow.measures ↔
      ∃ c ∈ credits es rs, c.1.path = .reconciled ∧ rollupKey c.2 = k := by
  constructor
  · intro hne
    by_contra hnone
    apply hne
    have hhot : ∀ c ∈ (credits es rs).filter fun c => rollupKey c.2 = k, c.1.path = .hot := by
      intro c hc
      obtain ⟨hmem, hk⟩ := List.mem_filter.mp hc
      cases hpath : c.1.path with
      | hot => rfl
      | reconciled => exact absurd ⟨c, hmem, hpath, of_decide_eq_true hk⟩ hnone
    have hgroup : keyGroup es (rs.filter fun a => a.path = .hot) k = keyGroup es rs k := by
      rw [keyGroup_eq, keyGroup_eq, credits_filter_rows, List.filter_comm,
        List.filter_eq_self.mpr fun c hc => decide_eq_true (hhot c hc)]
    rw [rebuiltRow, rebuiltRow, hgroup]
  · intro h heq
    obtain ⟨c, hc, hpath, hk⟩ := h
    have hplaced : ∃ e ∈ es, rollupKey e = k := ⟨c.2, (mem_credits.mp hc).2.2.1, hk⟩
    have hgroup (rs : List AttributedConversion) :
        rebuiltRow es rs k = some (rollupRow k (keyGroup es rs k)) := if_neg (keyGroup_ne_nil.mpr hplaced)
    rw [hgroup, hgroup] at heq
    have hcount := congrArg RollupRow.attributedConversions (Option.some.inj heq)
    change (rollupRow k _).attributedConversions = (rollupRow k _).attributedConversions at hcount
    rw [attributedConversions_keyGroup, attributedConversions_keyGroup, credits_filter_rows, List.filter_comm,
      List.length_filter_eq_length_iff] at hcount
    have hhot := of_decide_eq_true (hcount c (List.mem_filter.mpr ⟨hc, decide_eq_true hk⟩))
    cases hhot.symm.trans hpath

end changed

section mins
variable {l : List Int}

private theorem minOf_le {t : Int} (h : t ∈ l) : minOf l ≤ t := by
  cases hm : l.argmin id with
  | none => exact absurd (List.argmin_eq_none.mp hm) (List.ne_nil_of_mem h)
  | some m =>
    rw [minOf, hm]
    exact List.le_of_mem_argmin h hm

private theorem minOf_mem (h : l ≠ []) : minOf l ∈ l := by
  cases hm : l.argmin id with
  | none => exact absurd (List.argmin_eq_none.mp hm) h
  | some m =>
    rw [minOf, hm]
    exact List.argmin_mem hm

private theorem minOf_congr {l' : List Int} (h : ∀ t, t ∈ l ↔ t ∈ l') : minOf l = minOf l' := by
  by_cases hnil : l = []
  · subst hnil
    have hnil' : l' = [] := List.eq_nil_iff_forall_not_mem.mpr fun t ht => List.not_mem_nil ((h t).mpr ht)
    rw [hnil']
  · have hnil' : l' ≠ [] := List.ne_nil_of_mem ((h _).mp (minOf_mem hnil))
    exact le_antisymm (minOf_le ((h _).mpr (minOf_mem hnil'))) (minOf_le ((h _).mp (minOf_mem hnil)))

end mins

namespace Serving
variable {s s' : Serving} {k : RollupKey}

/-- Every recorded key has a landed exposure. -/
def Placed (s : Serving) : Prop := ∀ d ∈ s.rollupDirty, ∃ e ∈ s.exposuresLanded, rollupKey e = d.key

theorem Placed.insertDirty (h : s.Placed) {stamps : List RollupStamp}
    (hstamps : ∀ d ∈ stamps, ∃ e ∈ s.exposuresFinal, rollupKey e = d.key) : (s.insertDirty stamps).Placed := by
  intro d hd
  rcases List.mem_append.mp hd with hd | hd
  · exact h d hd
  · obtain ⟨e, he, hk⟩ := hstamps d (current_eq_some (mem_collapse.mp hd)).1
    exact ⟨e, (finalRow_eq_some (mem_exposuresFinal.mp he)).1, hk⟩

theorem Placed.afterDay (h : s.Placed) (lake : Lake) (day : Int) : (s.afterDay lake day).Placed := by
  have hexposures : Placed { s with exposuresLanded := s.exposuresLanded ++ readExposuresForDays lake.exposures [day] } := by
    intro d hd
    obtain ⟨e, he, hk⟩ := h d hd
    exact ⟨e, List.mem_append_left _ he, hk⟩
  have hday : (s.afterExposuresDay lake.exposures day).Placed :=
    (hexposures.insertDirty fun _ => key_of_mem_dirtyFromExposures).insertDirty
      fun _ => key_of_mem_dirtyFromExposureCredits
  have hrows : Placed { s.afterExposuresDay lake.exposures day with
      attributedConversions := s.attributedConversions ++ readCurrent lake.attributed (some [day]) } := hday
  exact hrows.insertDirty fun _ => key_of_mem_dirtyFromAttributed

theorem Placed.afterDays (h : s.Placed) (lake : Lake) (days : List Int) : (s.afterDays lake days).Placed := by
  induction days generalizing s with
  | nil => exact h
  | cons day days ih => exact ih (h.afterDay lake day)

/-- A recorded key has a row in the full rebuild. -/
theorem Placed.rebuilt (h : s.Placed) {version : Int} (hk : RecordedIn s.rollupDirty k version) :
    s.rebuiltRollup k ≠ none := by
  obtain ⟨d, hd, hdk, _⟩ := hk
  obtain ⟨e, he, hek⟩ := h d hd
  obtain ⟨f, hf⟩ := exists_finalRow exposureKey (fun _ => ()) he
  have hfe : exposureKey f = exposureKey e := (finalRow_eq_some hf).2.1
  intro hnone
  apply rebuiltRow_eq_none.mp hnone
  exact ⟨f, mem_exposuresFinal.mpr (hfe ▸ hf), (rollupKey_of_exposureKey hfe).trans (hek.trans hdk)⟩

/-- The bookkeeping after a completed job. -/
structure UpToDate (s : Serving) : Prop where
  booked : s.Booked
  clean : s.dirtyKeys = []
  placed : s.Placed

private theorem upToDate_empty : Serving.empty.UpToDate where
  booked := booked_emptied Serving.empty
  clean := by decide
  placed _ hd := absurd hd List.not_mem_nil

theorem UpToDate.emptied (s : Serving) : s.emptied.UpToDate where
  booked := booked_emptied s
  clean := upToDate_empty.clean
  placed _ hd := absurd hd List.not_mem_nil

theorem UpToDate.afterLoad (h : s.UpToDate) (lake : Lake) (days : List Int) : (s.afterLoad lake days).UpToDate := by
  unfold Serving.afterLoad
  split
  · exact h
  · have hbooked := (dayLoads_afterDays lake (sortedSet days)).booked h.booked
    refine ⟨hbooked.afterRefresh, hbooked.dirtyKeys_afterRefresh, fun d hd => ?_⟩
    rw [rollupDirty_afterRefresh] at hd
    obtain ⟨e, he, hk⟩ := h.placed.afterDays lake _ d hd
    refine ⟨e, ?_, hk⟩
    unfold afterRefresh
    split
    · exact he
    · exact he

theorem UpToDate.afterFinalize (h : s.UpToDate) : s.afterFinalize.UpToDate :=
  ⟨⟨h.booked.recorded, h.booked.refreshed, h.booked.reported⟩, h.clean, h.placed⟩

end Serving

/-- Any jobs one after another, each completed. -/
inductive CompletedRun (bucketOf : String → Nat) : System → Prop where
  | empty : CompletedRun bucketOf ⟨Lake.empty, Serving.empty⟩
  | job {σ σ' : System} {p : SystemScript Unit} : CompletedRun bucketOf σ → Job bucketOf p → p.Ends σ () σ' →
      CompletedRun bucketOf σ'

private theorem CompletedRun.upToDate {bucketOf : String → Nat} {σ : System} (h : CompletedRun bucketOf σ) :
    σ.serving.UpToDate := by
  induction h with
  | empty => exact Serving.upToDate_empty
  | @job σ _ _ _ hp hl ih =>
    cases hp with
    | engine run profile =>
      obtain ⟨_, rfl⟩ := ends_engineMain.mp hl
      have h := ih.afterLoad ((σ.lake.land run.exposures).landAttributed run.rows) (landedDays run)
      exact ⟨⟨h.booked.recorded, h.booked.refreshed, h.booked.reported⟩, h.clean, h.placed⟩
    | load days =>
      obtain ⟨_, rfl⟩ := ends_materializeLoad.mp hl
      exact ih.afterLoad _ _
    | pass d =>
      obtain ⟨lake, days, hs⟩ := serving_of_ends_driver hl
      rw [hs]
      exact (ih.afterLoad lake days).afterFinalize
    | replay days =>
      obtain ⟨_, _, rfl⟩ := ends_truncateAndReload.mp hl
      exact (Serving.UpToDate.emptied _).afterLoad _ _

section canonical
variable {s s' : Serving} {k : RollupKey}

private theorem merge_optimize (s : Serving) (table : ReadTable) : s.Merge (optimize s table) := by
  cases table with
  | attributedConversions => exact .attributedConversions (mergesTo_finalRows _)
  | exposuresLanded => exact .exposuresLanded (mergesTo_finalRows _)
  | campaignHourly => exact .campaignHourly (mergesTo_finalRows _)
  | rollupDirty => exact .rollupDirty (mergesTo_finalRows _)
  | rollupRefreshed => exact .rollupRefreshed (mergesTo_finalRows _)

/-- To canonicalize is to merge. -/
theorem canonicalize_keeps {P : Serving → Prop} (hP : ∀ s s', P s → s.Merge s' → P s') (h : P s) :
    P (canonicalize s) := by
  unfold canonicalize
  induction readTables generalizing s with
  | nil => exact h
  | cons table tables ih => exact ih (hP s _ h (merge_optimize s table))

private theorem sameTables_canonicalize (s : Serving) : (canonicalize s).SameTables s :=
  canonicalize_keeps (P := fun t => t.SameTables s) (fun _ _ h hm => h.merge hm) (.refl s)

theorem Serving.UpToDate.merge (h : s.UpToDate) (hm : s.Merge s') : s'.UpToDate := by
  have hsame := (Serving.SameTables.refl s).merge hm
  have hrecorded {k : RollupKey} {version : Int} (hr : RecordedIn s.rollupDirty k version) :
      RecordedIn s'.rollupDirty k version := by
    rw [Serving.recordedIn_iff] at hr ⊢
    have hstamp : s'.dirtyStamp k = s.dirtyStamp k := hsame.rollupDirty k
    rwa [hstamp]
  have hrefreshed : ∀ d ∈ s'.rollupRefreshed, d ∈ s.rollupRefreshed := by
    cases hm with
    | rollupRefreshed hm => exact fun _ => hm.mem
    | _ => exact fun _ hd => hd
  have hreported : ∀ row ∈ s'.campaignHourly, row ∈ s.campaignHourly := by
    cases hm with
    | campaignHourly hm => exact fun _ => hm.mem
    | _ => exact fun _ hr => hr
  have hdirty : ∀ d ∈ s'.rollupDirty, d ∈ s.rollupDirty := by
    cases hm with
    | rollupDirty hm => exact fun _ => hm.mem
    | _ => exact fun _ hd => hd
  refine ⟨⟨fun c hc => ?_, fun d hd => hrecorded (h.booked.refreshed d (hrefreshed d hd)),
    fun row hr => hrecorded (h.booked.reported row (hreported row hr))⟩, hsame.dirtyKeys.trans h.clean, fun d hd => ?_⟩
  · have hperm := contributions_perm hsame.exposuresFinal hsame.attributedFinal
    exact hrecorded (h.booked.recorded c (hperm.mem_iff.mp hc))
  · obtain ⟨e, he, hk⟩ := h.placed d (hdirty d hd)
    obtain ⟨f, hf⟩ := exists_finalRow exposureKey (fun _ => ()) he
    have hfe : exposureKey f = exposureKey e := (finalRow_eq_some hf).2.1
    rw [← hsame.exposuresLanded] at hf
    exact ⟨f, (finalRow_eq_some hf).1, (Serving.rollupKey_of_exposureKey hfe).trans hk⟩

theorem Serving.UpToDate.canonicalize (h : s.UpToDate) : (canonicalize s).UpToDate :=
  canonicalize_keeps (fun _ _ h hm => h.merge hm) h

end canonical

section gate
variable {s : Serving} {k : RollupKey}

private theorem get?_campaignHourlyRows (s : Serving) (hotOnly : Bool) (k : RollupKey) :
    (keyed (campaignHourlyRows s hotOnly)).get? k = (rebuiltRow s.exposuresFinal
      (s.attributedFinal.filter fun a => !hotOnly || a.path = .hot) k).map RollupRow.measures := get?_keyed_rebuild _ _ k

/-- The changed keys are those a reconciled row credits. -/
theorem mem_changedKeys : k ∈ changedKeys s ↔
    ∃ c ∈ credits s.exposuresFinal s.attributedFinal, c.1.path = .reconciled ∧ rollupKey c.2 = k := by
  rw [changedKeys, mem_differing, get?_campaignHourlyRows, get?_campaignHourlyRows, ← rebuiltRow_hot_ne_iff]
  simp only [Bool.not_true, Bool.false_or, Bool.not_false, Bool.true_or, List.filter_true]

private theorem mem_reconcileTouched : k ∈ reconcileTouched s ↔
    ∃ d, finalRow RollupStamp.key RollupStamp.version s.rollupRefreshed k = some d ∧ firstReconciled s ≤ d.version := by
  simp only [reconcileTouched, List.mem_map, mem_sortedBy, List.mem_filter, decide_eq_true_eq, mem_finalRows]
  constructor
  · intro h
    obtain ⟨d, ⟨hd, hle⟩, hk⟩ := h
    exact ⟨d, hk ▸ hd, hle⟩
  · intro h
    obtain ⟨d, hd, hle⟩ := h
    have hk : d.key = k := (finalRow_eq_some hd).2.1
    exact ⟨d, ⟨hk.symm ▸ hd, hle⟩, hk⟩

private theorem nodup_reconcileTouched : (reconcileTouched s).Nodup := by
  rw [reconcileTouched, ((sortedBy_perm _ _).map _).nodup_iff]
  exact (nodup_key_finalRows s.rollupRefreshed).sublist (List.filter_sublist.map _)

/-- A refreshed key has a row in the full rebuild. -/
theorem Serving.UpToDate.rebuilt_of_touched (h : s.UpToDate) (hk : k ∈ reconcileTouched s) :
    s.rebuiltRollup k ≠ none := by
  obtain ⟨d, hd, _⟩ := mem_reconcileTouched.mp hk
  obtain ⟨hmem, hdk, _⟩ := finalRow_eq_some hd
  exact h.placed.rebuilt (hdk ▸ h.booked.refreshed d hmem)

/-- No key the pass changed escapes its refresh. -/
theorem Serving.UpToDate.touched_of_changed (h : s.UpToDate)
    (hepoch : ∀ r ∈ s.attributedFinal, r.path = .reconciled → 0 < r.processedAt) (hk : k ∈ changedKeys s) :
    k ∈ reconcileTouched s := by
  obtain ⟨c, hc, hpath, hck⟩ := mem_changedKeys.mp hk
  have hrow := (mem_credits.mp hc).1
  have hfirst : firstReconciled s ≤ c.1.processedAt :=
    minOf_le (List.mem_map.mpr ⟨c.1, List.mem_filter.mpr ⟨hrow, decide_eq_true hpath⟩, rfl⟩)
  obtain ⟨d, hd, hle⟩ := Serving.recordedIn_iff.mp
    (h.booked.recorded _ (mem_contributions.mpr (.inr ⟨c, hc, rfl⟩)))
  have hdk : s.dirtyStamp k = some d := by
    rw [← hck]
    exact hd
  have hlate : c.1.processedAt ≤ s.refreshedVersion k := by
    rw [← Serving.version_of_clean h.clean hdk]
    exact hle
  have hpos := hepoch _ hrow hpath
  unfold Serving.refreshedVersion at hlate
  cases hr : finalRow RollupStamp.key RollupStamp.version s.rollupRefreshed k with
  | none =>
    rw [hr] at hlate
    exact absurd hlate (not_le.mpr hpos)
  | some r =>
    rw [hr] at hlate
    exact mem_reconcileTouched.mpr ⟨r, hr, hfirst.trans hlate⟩

private theorem get?_full (s : Serving) (k : RollupKey) :
    (measureIntoScratch (refreshRows none s.exposuresFinal s.attributedFinal)).2.get? k =
      (s.rebuiltRollup k).map RollupRow.measures := by
  have hnodup : ((refreshRows none s.exposuresFinal s.attributedFinal).map RollupRow.key).Nodup := nodup_key_aggregate _
  refine (get?_keyed_finalRows _ k).trans (congrArg (Option.map RollupRow.measures) ?_)
  apply Option.ext
  intro row
  constructor
  · intro h
    obtain ⟨hmem, rfl, _⟩ := finalRow_eq_some h
    exact mem_refreshRows_none.mp hmem
  · intro h
    obtain rfl := rebuiltRow_key h
    exact finalRow_of_nodup hnodup (mem_refreshRows_none.mpr h)

private theorem get?_merged (s : Serving) (keys : List RollupKey) (k : RollupKey) :
    (merged (measureIntoScratch (refreshRows (some keys) s.exposuresFinal s.attributedFinal)).2
      (keyed s.campaignHourlyFinal)).get? k =
        ((if k ∈ keys then s.rebuiltRollup k else none).or (s.servedRollup k)).map RollupRow.measures := by
  have hincremental := get?_keyed_finalRows (refreshRows (some keys) s.exposuresFinal s.attributedFinal) k
  rw [finalRow_refreshRows] at hincremental
  rw [merged, OrderedDict.get?_update, measureIntoScratch, hincremental, Serving.campaignHourlyFinal,
    get?_keyed_finalRows, ← Option.map_or]
  rfl

/-- The merged rollup is the full rebuild where the pass refreshed, and what is served
elsewhere. -/
theorem Serving.UpToDate.merged_ne_iff (h : s.UpToDate) :
    (measureIntoScratch (refreshRows none s.exposuresFinal s.attributedFinal)).2.get? k ≠
      (merged (measureIntoScratch (refreshRows (some (reconcileTouched s)) s.exposuresFinal s.attributedFinal)).2
        (keyed s.campaignHourlyFinal)).get? k ↔
    k ∉ reconcileTouched s ∧
      (s.servedRollup k).map RollupRow.measures ≠ (s.rebuiltRollup k).map RollupRow.measures := by
  rw [get?_full, get?_merged]
  by_cases hk : k ∈ reconcileTouched s
  · obtain ⟨row, hrow⟩ := Option.ne_none_iff_exists'.mp (h.rebuilt_of_touched hk)
    rw [if_pos hk, hrow]
    exact ⟨fun hne => absurd rfl hne, fun hboth => absurd hk hboth.1⟩
  · rw [if_neg hk, Option.none_or]
    exact ⟨fun hne => ⟨hk, hne.symm⟩, fun hboth => hboth.2.symm⟩

private theorem length_campaignHourlyRows (s : Serving) : (campaignHourlyRows s false).length =
    (refreshRows none s.exposuresFinal s.attributedFinal).length := by
  simp only [campaignHourlyRows, Bool.not_false, Bool.true_or, List.filter_true]

private theorem mem_keys_refreshRows_none :
    k ∈ (refreshRows none s.exposuresFinal s.attributedFinal).map RollupRow.key ↔
    s.rebuiltRollup k ≠ none := by
  rw [List.mem_map, Option.ne_none_iff_exists']
  constructor
  · intro h
    obtain ⟨row, hrow, hk⟩ := h
    exact ⟨row, hk ▸ mem_refreshRows_none.mp hrow⟩
  · intro h
    obtain ⟨row, hrow⟩ := h
    have hk := rebuiltRow_key hrow
    exact ⟨row, mem_refreshRows_none.mpr (hk.symm ▸ hrow), hk⟩

/-- The incremental refresh writes one row for each key it is given. -/
theorem Serving.UpToDate.length_incremental (h : s.UpToDate) :
    (refreshRows (some (reconcileTouched s)) s.exposuresFinal s.attributedFinal).length = (reconcileTouched s).length := by
  have hnodup : ((refreshRows (some (reconcileTouched s)) s.exposuresFinal s.attributedFinal).map
      RollupRow.key).Nodup := nodup_key_aggregate _
  have hperm : ((refreshRows (some (reconcileTouched s)) s.exposuresFinal s.attributedFinal).map
      RollupRow.key).Perm (reconcileTouched s) := by
    rw [List.perm_ext_iff_of_nodup hnodup nodup_reconcileTouched]
    intro k
    rw [List.mem_map]
    constructor
    · intro h
      obtain ⟨row, hrow, hk⟩ := h
      exact hk ▸ (mem_refreshRows_some.mp hrow).1
    · intro hk
      obtain ⟨row, hrow⟩ := Option.ne_none_iff_exists'.mp (h.rebuilt_of_touched hk)
      have hrk := rebuiltRow_key hrow
      exact ⟨row, mem_refreshRows_some.mpr ⟨hrk.symm ▸ hk, hrk.symm ▸ hrow⟩, hrk⟩
  rw [← hperm.length_eq, List.length_map]

/-- Its keys are keys of the full rebuild. -/
theorem Serving.UpToDate.touched_subperm (h : s.UpToDate) :
    (reconcileTouched s).Subperm ((refreshRows none s.exposuresFinal s.attributedFinal).map RollupRow.key) :=
  List.subperm_of_subset nodup_reconcileTouched fun _ hk => mem_keys_refreshRows_none.mpr (h.rebuilt_of_touched hk)

end gate

/-- A report of the bench: the dirty set holds the changed keys and spares some of the rollup,
and what it spares is served as rebuilt. -/
structure Serving.Agrees (s : Serving) (report : BenchReport) : Prop where
  changed : 0 < report.changed
  overRefresh : report.changed + report.overRefresh = report.dirty
  equalSets : report.equalSets = true ↔ report.overRefresh = 0
  incremental : report.incremental = report.dirty
  saving : report.dirty < report.totalKeys
  full : report.full = report.totalKeys
  spared : ∀ k, s.refreshedVersion k < firstReconciled s →
    (s.servedRollup k).map RollupRow.measures = (s.rebuiltRollup k).map RollupRow.measures

/-- The outcomes of the bench, and when they come about. -/
inductive Serving.BenchVerdict (s : Serving) : Except BenchError BenchReport → Prop where
  | emptyRollup : s.exposuresFinal = [] → s.BenchVerdict (.error .emptyRollup)
  | nothingChanged : (∀ c ∈ credits s.exposuresFinal s.attributedFinal, c.1.path = .hot) →
      s.BenchVerdict (.error .nothingChanged)
  | notASaving (total : Nat) : (∀ k, s.rebuiltRollup k ≠ none → firstReconciled s ≤ s.refreshedVersion k) →
      s.BenchVerdict (.error (.notASaving total total))
  | disagrees {first : List RollupKey} : first ≠ [] → (∀ k ∈ first, s.refreshedVersion k < firstReconciled s ∧
      (s.servedRollup k).map RollupRow.measures ≠ (s.rebuiltRollup k).map RollupRow.measures) →
      s.BenchVerdict (.error (.disagrees first))
  | agrees {report : BenchReport} : s.Agrees report → s.BenchVerdict (.ok report)

section verdict
variable {s t : Serving} {bucketOf : String → Nat} {σ : System}

private theorem firstReconciled_pos (hepoch : ∀ r ∈ s.attributedFinal, r.path = .reconciled → 0 < r.processedAt)
    (h : changedKeys s ≠ []) : 0 < firstReconciled s := by
  obtain ⟨k, hk⟩ := List.exists_mem_of_ne_nil _ h
  obtain ⟨c, hc, hpath, _⟩ := mem_changedKeys.mp hk
  have hne : (s.attributedFinal.filter fun a => a.path = .reconciled).map (fun a => a.processedAt) ≠ [] :=
    List.ne_nil_of_mem (List.mem_map.mpr ⟨c.1, List.mem_filter.mpr ⟨(mem_credits.mp hc).1, decide_eq_true hpath⟩, rfl⟩)
  obtain ⟨r, hr, he⟩ := List.mem_map.mp (minOf_mem hne)
  obtain ⟨hmem, hrec⟩ := List.mem_filter.mp hr
  rw [firstReconciled, ← he]
  exact hepoch r hmem (of_decide_eq_true hrec)

/-- The pass refreshed a key when its last refresh is as late as the first reconciled row. -/
theorem mem_reconcileTouched_iff_version (hpos : 0 < firstReconciled s) {k : RollupKey} :
    k ∈ reconcileTouched s ↔ firstReconciled s ≤ s.refreshedVersion k := by
  rw [mem_reconcileTouched, Serving.refreshedVersion]
  cases finalRow RollupStamp.key RollupStamp.version s.rollupRefreshed k with
  | none =>
    constructor
    · intro h
      obtain ⟨_, hd, _⟩ := h
      cases hd
    · intro hle
      exact absurd hle (not_le.mpr hpos)
  | some d =>
    constructor
    · intro h
      obtain ⟨_, hd, hle⟩ := h
      cases hd
      exact hle
    · intro hle
      exact ⟨d, rfl, hle⟩

private theorem mem_firstFive {keys : List RollupKey} {k : RollupKey} (h : k ∈ firstFive keys) : k ∈ keys :=
  (mem_sortedBy _).mp (List.mem_of_mem_take h)

private theorem firstFive_ne_nil {keys : List RollupKey} (h : keys ≠ []) : firstFive keys ≠ [] := by
  intro hnil
  rcases List.take_eq_nil_iff.mp hnil with h5 | hsorted
  · cases h5
  · obtain ⟨k, hk⟩ := List.exists_mem_of_ne_nil _ h
    have hmem := (mem_sortedBy (fun k : RollupKey => (toLex k : String ×ₗ Int))).mpr hk
    rw [hsorted] at hmem
    cases hmem

/-- The changed keys and the others make up the refreshed ones. -/
theorem length_changed_add (hsub : ∀ k ∈ changedKeys s, k ∈ reconcileTouched s) :
    (changedKeys s).length + (minus (reconcileTouched s) (changedKeys s)).length =
      (reconcileTouched s).length := by
  have hchanged : (changedKeys s).Nodup := (nodup_firstSeen _).filter _
  have hperm : ((reconcileTouched s).filter fun k => k ∈ changedKeys s).Perm (changedKeys s) := by
    rw [List.perm_ext_iff_of_nodup (nodup_reconcileTouched.filter _) hchanged]
    intro k
    rw [List.mem_filter, decide_eq_true_eq]
    exact ⟨fun h => h.2, fun h => ⟨hsub k h, h⟩⟩
  have hsplit := List.length_eq_length_filter_add (l := reconcileTouched s) fun k => decide (k ∈ changedKeys s)
  rw [hperm.length_eq] at hsplit
  rw [hsplit]
  congr 2
  apply List.filter_congr
  intro k _
  simp

private theorem Serving.UpToDate.verdict_benchTables (h : s.UpToDate)
    (hepoch : ∀ r ∈ s.attributedFinal, r.path = .reconciled → 0 < r.processedAt) : s.BenchVerdict (benchTables s) := by
  have htotal := length_campaignHourlyRows s
  have hsub : ∀ k ∈ changedKeys s, k ∈ reconcileTouched s := fun k => h.touched_of_changed hepoch
  unfold benchTables
  dsimp only
  split
  · rename_i hempty
    rw [htotal, List.length_eq_zero_iff] at hempty
    refine .emptyRollup (List.eq_nil_iff_forall_not_mem.mpr fun e he => ?_)
    have hkey : rollupKey e ∈ (refreshRows none s.exposuresFinal s.attributedFinal).map RollupRow.key :=
      mem_keys_refreshRows_none.mpr fun hnone => rebuiltRow_eq_none.mp hnone ⟨e, he, rfl⟩
    rw [hempty] at hkey
    cases hkey
  split
  · rename_i hnone
    refine .nothingChanged fun c hc => ?_
    cases hpath : c.1.path with
    | hot => rfl
    | reconciled =>
      have hk := mem_changedKeys.mpr ⟨c, hc, hpath, rfl⟩
      rw [hnone] at hk
      cases hk
  rename_i hchanged
  have hpos := firstReconciled_pos hepoch hchanged
  have hnone : minus (changedKeys s) (reconcileTouched s) = [] := by
    rw [List.eq_nil_iff_forall_not_mem]
    intro k hk
    obtain ⟨hchanged, hmissed⟩ := mem_minus.mp hk
    exact hmissed (hsub k hchanged)
  split
  · rename_i hmissed
    exact absurd hnone hmissed
  split
  · rename_i hall
    have hperm := h.touched_subperm.perm_of_length_le (by rwa [List.length_map, ← htotal])
    have hall : (reconcileTouched s).length = (campaignHourlyRows s false).length := by
      rw [hperm.length_eq, List.length_map, htotal]
    rw [hall]
    refine .notASaving _ fun k hk => ?_
    rw [← mem_reconcileTouched_iff_version hpos, hperm.mem_iff]
    exact mem_keys_refreshRows_none.mpr hk
  rename_i hfewer
  split
  · rename_i hdiffer
    obtain ⟨k, hk⟩ := List.exists_mem_of_ne_nil _ hdiffer
    have hne := mem_differing.mp hk
    refine .disagrees (firstFive_ne_nil (List.ne_nil_of_mem (a := k) ?_)) fun j hj => ?_
    · refine List.mem_filter.mpr ⟨?_, decide_eq_true hne⟩
      obtain ⟨_, hstale⟩ := h.merged_ne_iff.mp hne
      have hrebuilt : s.rebuiltRollup k ≠ none := by
        intro hnone
        cases hserved : s.servedRollup k with
        | none =>
          rw [hserved, hnone] at hstale
          exact hstale rfl
        | some row =>
          obtain ⟨hmem, hrk, _⟩ := finalRow_eq_some hserved
          exact h.placed.rebuilt (hrk ▸ h.booked.reported row hmem) hnone
      obtain ⟨row, hrow⟩ := Option.ne_none_iff_exists'.mp hrebuilt
      refine OrderedDict.mem_keys_iff.mpr ⟨row.measures, ?_⟩
      rw [get?_full, hrow]
      rfl
    · have hj := of_decide_eq_true (List.mem_filter.mp (mem_firstFive hj)).2
      obtain ⟨hnot, hstale⟩ := h.merged_ne_iff.mp hj
      rw [mem_reconcileTouched_iff_version hpos, not_le] at hnot
      exact ⟨hnot, hstale⟩
  rename_i hsame
  have hincremental := h.length_incremental
  split
  · rename_i hwrote
    refine absurd ?_ hfewer
    rw [htotal, ← hincremental]
    exact hwrote
  · refine .agrees ⟨List.length_pos_iff.mpr hchanged, length_changed_add hsub, ?_, hincremental, not_le.mp hfewer,
      htotal.symm, fun k hk => ?_⟩
    · rw [hnone, List.isEmpty_nil, Bool.and_true, List.isEmpty_iff, List.length_eq_zero_iff]
    · by_contra hstale
      apply hsame
      apply List.ne_nil_of_mem (a := k)
      rw [mem_differing, h.merged_ne_iff, mem_reconcileTouched_iff_version hpos, not_le]
      exact ⟨hk, hstale⟩

/-- The verdict is about what the tables read as `FINAL`. -/
theorem Serving.SameTables.verdict (h : s.SameTables t) {outcome : Except BenchError BenchReport}
    (hv : s.BenchVerdict outcome) : t.BenchVerdict outcome := by
  have hserved (k : RollupKey) : s.servedRollup k = t.servedRollup k := h.campaignHourly k
  have hrebuilt (k : RollupKey) : s.rebuiltRollup k = t.rebuiltRollup k :=
    rebuiltRow_perm h.exposuresFinal h.attributedFinal k
  have hfirst : firstReconciled s = firstReconciled t :=
    minOf_congr fun _ => ((h.attributedFinal.filter _).map _).mem_iff
  have hcredits := credits_perm h.exposuresFinal h.attributedFinal
  cases hv with
  | emptyRollup hnil =>
    have hperm := h.exposuresFinal
    rw [hnil] at hperm
    exact .emptyRollup hperm.nil_eq.symm
  | nothingChanged hhot => exact .nothingChanged fun c hc => hhot c (hcredits.mem_iff.mpr hc)
  | notASaving total hall =>
    refine .notASaving total fun k hk => ?_
    rw [← hfirst, ← h.refreshedVersion]
    exact hall k (by rwa [hrebuilt])
  | disagrees hne hstale =>
    refine .disagrees hne fun k hk => ?_
    rw [← hfirst, ← h.refreshedVersion, ← hserved, ← hrebuilt]
    exact hstale k hk
  | agrees hagrees =>
    refine .agrees { hagrees with spared := fun k hk => ?_ }
    rw [← hserved, ← hrebuilt]
    exact hagrees.spared k (by rwa [h.refreshedVersion, hfirst])

/-- After any completed jobs the bench never finds a changed key missing from the dirty set, nor
an incremental refresh that writes as much as a full one; it disagrees exactly with rows
served stale outside the dirty set. -/
theorem rollupBench_gate (h : CompletedRun bucketOf σ)
    (hepoch : ∀ r ∈ σ.serving.attributedFinal, r.path = .reconciled → 0 < r.processedAt) :
    σ.serving.BenchVerdict (rollupBench σ.serving) := by
  have hsame := sameTables_canonicalize σ.serving
  refine hsame.verdict (h.upToDate.canonicalize.verdict_benchTables fun r hr => hepoch r ?_)
  exact hsame.attributedFinal.mem_iff.mp hr

end verdict
section hot
variable {dedup : Bool} {allowedLateness : Int} {index : GraphIndex} {topics : Topics} {name : String}
  {run : EngineRun} {σ₀ σ τ : System} {bucketOf : String → Nat} {lake : Lake}

/-- Passes and loads append no hot row. -/
theorem PassRun.hot_mem (h : PassRun bucketOf σ τ) (hσ : SoundLake σ.lake) (hs : CreditsCurrent σ.lake σ.serving)
    {r : AttributedConversion} (hr : r ∈ τ.lake.attributed) (hhot : r.path = .hot) : r ∈ σ.lake.attributed := by
  induction h with
  | start => exact hr
  | pass hrun hl ih =>
    obtain ⟨days, rows, _, hc⟩ := leaves_driver (hrun.serves hσ hs).1 hl
    rw [hc.lake] at hr
    rcases List.mem_append.mp hr with hr | hr
    · exact ih hr
    · obtain ⟨_, _, _, x, hx, rfl⟩ := (hc.corrects.mem_iff r).mp hr
      cases hhot.symm.trans (correction_fields hx).2.1
  | load _ hl ih =>
    rw [lake_of_leaves_materializeLoad hl] at hr
    exact ih hr

/-- A clean load serves the current rows. -/
theorem mem_attributedFinal_loaded (hlake : SameDay lake.attributed) {r : AttributedConversion}
    (hr : currentRow lake.attributed r.conversionId = some r) : r ∈ lake.loaded.attributedFinal := by
  have hrows : lake.loaded.attributedConversions = loadedRows lake lake.days := by
    rw [Lake.loaded, attributedConversions_afterDays, loadedRows, sortedSet_days]
    rfl
  have hday : dayOf r.eventTime ∈ lake.days :=
    mem_sortedSet.mpr (List.mem_append_right _ (List.mem_map_of_mem (currentRow_mem hr)))
  rw [Serving.mem_attributedFinal, Serving.servedRow, hrows]
  apply finalRow_of_unique ((mem_loadedRows hlake).mpr ⟨hr, hday⟩)
  intro x hx he
  have hxcur := ((mem_loadedRows hlake).mp hx).1
  rw [he, hr] at hxcur
  exact (Option.some.inj hxcur).symm

private theorem contributions_attributed (es : List Exposure) (rs : List AttributedConversion) :
    contributions es (rs.filter fun r => r.attributed) = contributions es rs := by
  rw [contributions, contributions, credits, credits, List.filter_filter]
  simp only [Bool.and_self]

/-- The hot credits after passes are the credits before them. -/
theorem hot_credits (hk : topics.Identified)
    (h : Attempts (engine dedup allowedLateness index topics.exposures topics.conversions name) σ₀)
    (hl : (engine dedup allowedLateness index topics.exposures topics.conversions name).Ends σ₀ () σ)
    (hτ : PassRun bucketOf σ τ) : σ.serving.exposuresFinal.Perm τ.serving.exposuresFinal ∧
      ((τ.serving.attributedFinal.filter fun r => r.path = .hot).filter fun r => r.attributed).Perm
        (σ.serving.attributedFinal.filter fun r => r.attributed) := by
  obtain ⟨run, hrun, hmain⟩ := ends_engine.mp hl
  have hday := sameDay_runEngine hrun
  have hdone := engineDone hk hrun h hl
  have hfinished := (h.retried hrun).finished hday hmain
  have hrows := (hotRows_of_runEngine hk hrun).hotRun
  obtain ⟨hsound, hlake, hcur, hkeep⟩ := hτ.serves hdone.fromTopics.sound hdone.current
  have hexposure (e : Exposure) : e ∈ σ.serving.exposuresFinal ↔ e ∈ σ.serving.exposuresLanded :=
    Serving.mem_exposuresFinal_of_keyed _ hdone.fromTopics.sound.keyed hdone.current.exposures
  have hexposure' (e : Exposure) : e ∈ τ.serving.exposuresFinal ↔ e ∈ τ.serving.exposuresLanded :=
    Serving.mem_exposuresFinal_of_keyed _ hsound.keyed hcur.exposures
  constructor
  · rw [List.perm_ext_iff_of_nodup (Serving.nodup_exposuresFinal _) (Serving.nodup_exposuresFinal _)]
    intro e
    rw [hexposure, hexposure']
    refine ⟨hkeep.exposures e, fun he => hdone.exposures e ?_⟩
    have hmem := hcur.exposures e he
    rw [hlake] at hmem
    exact hdone.readsAs.mem_exposures.mp hmem
  · rw [List.perm_ext_iff_of_nodup (((Serving.nodup_attributedFinal _).filter _).filter _)
      ((Serving.nodup_attributedFinal _).filter _)]
    intro r
    simp only [List.mem_filter, decide_eq_true_eq]
    constructor
    · intro h
      obtain ⟨⟨hr, hhot⟩, hatt⟩ := h
      refine ⟨?_, hatt⟩
      have hcurrent := hcur.rows _ r (Serving.mem_attributedFinal.mp hr) hatt
      have hmem := hτ.hot_mem hdone.fromTopics.sound hdone.current (currentRow_mem hcurrent) hhot
      have hrunrow := hdone.readsAs.mem_attributed.mp hmem
      rw [hfinished.rows.mem_iff]
      apply mem_attributedFinal_loaded hday
      apply currentRow_of_unique hrunrow
      intro y hy hid
      obtain ⟨x, hx, rfl⟩ := List.mem_map.mp hrunrow
      obtain ⟨z, hz, rfl⟩ := List.mem_map.mp hy
      rw [List.inj_on_of_nodup_map hrows.nodup hz hx hid]
    · intro h
      obtain ⟨hr, hatt⟩ := h
      have hserved := hkeep.rows _ r (Serving.mem_attributedFinal.mp hr) hatt
      refine ⟨⟨Serving.mem_attributedFinal.mpr hserved, ?_⟩, hatt⟩
      have hmem := currentRow_mem (hdone.current.rows _ r (Serving.mem_attributedFinal.mp hr) hatt)
      obtain ⟨x, hx, rfl⟩ := List.mem_map.mp (hdone.readsAs.mem_attributed.mp hmem)
      exact hrows.hot x hx

/-- The bench's rebuild without the reconciled credits is the rollup's rebuild as it stood
before any pass, so its changed keys are those the passes changed. -/
theorem hotOnly_rebuild (hk : topics.Identified)
    (h : Attempts (engine dedup allowedLateness index topics.exposures topics.conversions name) σ₀)
    (hl : (engine dedup allowedLateness index topics.exposures topics.conversions name).Ends σ₀ () σ)
    (hτ : PassRun bucketOf σ τ) :
    (campaignHourlyRows τ.serving true).Perm (campaignHourlyRows σ.serving false) ∧
      ∀ k, k ∈ changedKeys τ.serving ↔
        (σ.serving.rebuiltRollup k).map RollupRow.measures ≠ (τ.serving.rebuiltRollup k).map RollupRow.measures := by
  obtain ⟨hexposures, hcredits⟩ := hot_credits hk h hl hτ
  have hsame (k : RollupKey) : rebuiltRow τ.serving.exposuresFinal
      (τ.serving.attributedFinal.filter fun r => r.path = .hot) k = σ.serving.rebuiltRollup k := by
    have hperm := rebuiltRow_perm hexposures.symm hcredits k
    simp only [rebuiltRow, keyGroup, contributions_attributed] at hperm
    exact hperm
  constructor
  · have hnodup (s : Serving) (hotOnly : Bool) : (campaignHourlyRows s hotOnly).Nodup :=
      (nodup_key_aggregate _).of_map _
    rw [List.perm_ext_iff_of_nodup (hnodup _ _) (hnodup _ _)]
    intro row
    rw [campaignHourlyRows, campaignHourlyRows, mem_refreshRows_none, mem_refreshRows_none]
    simp only [Bool.not_true, Bool.false_or, Bool.not_false, Bool.true_or, List.filter_true, hsame]
    rfl
  · intro k
    rw [mem_changedKeys, ← rebuiltRow_hot_ne_iff, hsame]
    rfl

end hot
section sample

/-- The late conversions, and an exposure of another campaign. -/
def sampleCampaigns : SystemScript Unit :=
  engineMain { sampleMissed with
    exposures := sampleMissed.exposures ++
      [{ sampleExposure "f" (20700 * Time.day) (20700 * Time.day) with campaignId := "other", householdId := "hh2" }] }
    "tiny"

private theorem sampleCampaigns_ends :
    sampleCampaigns.Ends ⟨Lake.empty, Serving.empty⟩ () (sampleAfter [sampleCampaigns]) := Prod.ext rfl (by decide +kernel)

theorem rollupBench_gate_sample :
    (∃ report, rollupBench (sampleAfter [sampleCampaigns, samplePass]).serving = .ok report ∧
    report.changed = 1 ∧ report.totalKeys = 2) ∧
      (sampleAfter [sampleCampaigns, samplePass]).serving.BenchVerdict
        (rollupBench (sampleAfter [sampleCampaigns, samplePass]).serving) := by
  have hpass : samplePass.Ends (sampleAfter [sampleCampaigns]) () (sampleAfter [sampleCampaigns, samplePass]) :=
    Prod.ext rfl (by decide +kernel)
  have hlanded : CompletedRun String.length (sampleAfter [sampleCampaigns]) :=
    CompletedRun.empty.job (.engine _ _) sampleCampaigns_ends
  have hepoch : ∀ r ∈ (sampleAfter [sampleCampaigns, samplePass]).serving.attributedFinal,
      r.path = .reconciled → 0 < r.processedAt := by decide +kernel
  have hbench : rollupBench (sampleAfter [sampleCampaigns, samplePass]).serving = .ok ⟨2, 1, 1, 0, true, 2, 1⟩ := by
    decide +kernel
  have hverdict := rollupBench_gate (hlanded.job (.pass .run) hpass) hepoch
  exact ⟨⟨_, hbench, rfl, rfl⟩, hverdict⟩

def sampleDeferring : SystemScript Unit :=
  engine true (6 * Time.hour) sampleGraph [sampleExposure "e" (20700 * Time.day) (20700 * Time.day)]
    [sampleConversion "c1" (20709 * Time.day) (20709 * Time.day)] "tiny"

theorem hotOnly_rebuild_sample : changedKeys (sampleAfter [sampleDeferring, samplePass]).serving ≠ [] ∧
    (campaignHourlyRows (sampleAfter [sampleDeferring, samplePass]).serving true).Perm
      (campaignHourlyRows (sampleAfter [sampleDeferring]).serving false) ∧
    ∀ k, k ∈ changedKeys (sampleAfter [sampleDeferring, samplePass]).serving ↔
      ((sampleAfter [sampleDeferring]).serving.rebuiltRollup k).map RollupRow.measures ≠
        ((sampleAfter [sampleDeferring, samplePass]).serving.rebuiltRollup k).map RollupRow.measures := by
  have hk : Topics.Identified ⟨[sampleExposure "e" (20700 * Time.day) (20700 * Time.day)],
      [sampleConversion "c1" (20709 * Time.day) (20709 * Time.day)]⟩ := ⟨by decide, by decide⟩
  have hl : sampleDeferring.Ends ⟨Lake.empty, Serving.empty⟩ () (sampleAfter [sampleDeferring]) :=
    Prod.ext rfl (by decide +kernel)
  have hpass : samplePass.Ends (sampleAfter [sampleDeferring]) () (sampleAfter [sampleDeferring, samplePass]) :=
    Prod.ext rfl (by decide +kernel)
  refine ⟨by decide +kernel, hotOnly_rebuild hk .empty hl (?_ : PassRun String.length _ _)⟩
  exact .pass (d := .run) .start hpass.leaves

end sample
end CtvAttribution
