import CtvAttribution.Library.PartitionedTable
import CtvAttribution.Library.Script
import CtvAttribution.ServingProjection

/-! The data files under the lake: landings append files, a maintenance pass rewrites the
days of small files and expires snapshots. The logs of record are what the files hold. -/
namespace CtvAttribution
open Library Script

/-- `_spec`: `day(event_time)` then `bucket(N, household_id)`. -/
def lakePartition {α : Type} (bucketOf : String → Nat) (eventTime : α → Int) (householdId : α → String) (a : α) :
    Int × Nat :=
  (dayOf (eventTime a), bucketOf (householdId a))

section maintenance
variable {α ε : Type} {bucketOf : String → Nat} {eventTime : α → Int} {householdId : α → String}

/-- A raw table. -/
abbrev RawTable (bucketOf : String → Nat) (eventTime : α → Int) (householdId : α → String) :=
  SnapshotTable (lakePartition bucketOf eventTime householdId)

abbrev RawWriter (bucketOf : String → Nat) (eventTime : α → Int) (householdId : α → String) :=
  FileWriter (lakePartition bucketOf eventTime householdId)

/-- What a pass reports. -/
structure MaintenanceCounts where
  compactedDays : Nat
  expiredSnapshots : Nat
  deriving DecidableEq, Repr

/-- `expire_snapshots`. -/
def expireSnapshots (olderThan : Int) : Script (RawTable bucketOf eventTime householdId) ε Nat := do
  let before := (← Script.get).snapshots.length
  Script.modify fun t => t.expire olderThan
  return before - (← Script.get).snapshots.length

/-- `days_with_small_files`. -/
def daysWithSmallFiles (t : RawTable bucketOf eventTime householdId) : List Int :=
  sortedSet ((t.partitions.filter fun k => 1 < t.fileCount k).map Prod.fst)

/-- The filter `event_time >= start and event_time < end` of one day. -/
def dayFilter (eventTime : α → Int) (day : Int) (a : α) : Bool := dayRangesPredicate [day] (eventTime a)

/-- One day of `compact_days`; the rewrite is committed at the clock's time. -/
def compactOne (w : RawWriter bucketOf eventTime householdId) (clock : Int → Int) (day : Int) :
    Script (RawTable bucketOf eventTime householdId) ε Unit := do
  let rows := (← Script.get).scan (dayFilter eventTime day)
  if rows.isEmpty then return ()
  Script.modify fun t => t.overwrite w (clock day) (dayFilter eventTime day) rows

/-- `compact_days`. -/
def compactDays (w : RawWriter bucketOf eventTime householdId) (clock : Int → Int) (days : List Int) :
    Script (RawTable bucketOf eventTime householdId) ε Nat := do
  Script.forEach days (compactOne w clock)
  return days.length

/-- `maintain`: compact first, then expire. -/
def maintain (w : RawWriter bucketOf eventTime householdId) (clock : Int → Int) (maxAge now : Int) :
    Script (RawTable bucketOf eventTime householdId) ε MaintenanceCounts := do
  let compacted ← compactDays w clock (daysWithSmallFiles (← Script.get))
  let expired ← expireSnapshots (now - maxAge)
  return ⟨compacted, expired⟩

variable {w : RawWriter bucketOf eventTime householdId} {clock : Int → Int}
  {t t' : RawTable bucketOf eventTime householdId} {day : Int}

private theorem dayFilter_eq (bucketOf : String → Nat) (householdId : α → String) (day : Int) (a : α) :
    dayFilter eventTime day a = decide ((lakePartition bucketOf eventTime householdId a).1 = day) := by
  rw [Bool.eq_iff_iff, dayFilter, dayRangesPredicate_iff, List.mem_singleton, decide_eq_true_iff]
  rfl

/-- The table once one day was compacted. -/
def compacted (w : RawWriter bucketOf eventTime householdId) (clock : Int → Int) (day : Int)
    (t : RawTable bucketOf eventTime householdId) : RawTable bucketOf eventTime householdId :=
  if (t.scan (dayFilter eventTime day)).isEmpty then t
  else t.overwrite w (clock day) (dayFilter eventTime day) (t.scan (dayFilter eventTime day))

private theorem ends_compactOne {u : Unit} :
    (compactOne (ε := ε) w clock day).Ends t u t' ↔ t' = compacted w clock day t := by
  simp only [compactOne, ends_bind', ends_get, compacted]
  by_cases h : (t.scan (dayFilter eventTime day)).isEmpty = true
  · simp [h]
  · simp [h]

private theorem leaves_compactOne (h : (compactOne (ε := ε) w clock day).Leaves t t') :
    t' = t ∨ t' = compacted w clock day t := by
  rcases leaves_get_bind h with h | h
  · exact .inl h
  unfold compacted
  dsimp only at h
  split at h
  · exact .inl (leaves_pure.mp h)
  · rename_i hrows
    rw [if_neg hrows]
    exact leaves_modify.mp h

private theorem rows_compacted : (compacted w clock day t).rows.Perm t.rows := by
  unfold compacted
  split
  · exact List.Perm.refl _
  · exact SnapshotTable.rows_rewrite _

private theorem ends_compactDays {days : List Int} {n : Nat} : (compactDays (ε := ε) w clock days).Ends t n t' ↔
    t' = days.foldl (fun t day => compacted w clock day t) t ∧ n = days.length := by
  simp only [compactDays, ends_bind', ends_forEach fun _ _ _ => ends_compactOne, ends_pure]
  constructor
  · intro h
    obtain ⟨_, _, hm, ht, hn⟩ := h
    exact ⟨ht.trans hm, hn⟩
  · intro h
    obtain ⟨ht, hn⟩ := h
    exact ⟨(), _, rfl, ht, hn⟩

private theorem ends_expireSnapshots {olderThan : Int} {n : Nat} :
    (expireSnapshots (ε := ε) olderThan).Ends t n t' ↔
      t' = t.expire olderThan ∧ n = t.snapshots.length - t'.snapshots.length := by
  simp only [expireSnapshots, ends_bind', ends_get, ends_modify, ends_pure]
  constructor
  · intro h
    obtain ⟨_, _, ⟨hm, hs⟩, _, _, hx, _, _, ⟨hy, hr⟩, ht, hn⟩ := h
    subst hm hs hx hy hr ht
    exact ⟨rfl, hn⟩
  · intro h
    obtain ⟨ht, hn⟩ := h
    subst ht
    exact ⟨_, _, ⟨rfl, rfl⟩, (), _, rfl, _, _, ⟨rfl, rfl⟩, rfl, hn⟩

/-- The table once some days were compacted. -/
def compactedDays (w : RawWriter bucketOf eventTime householdId) (clock : Int → Int) (days : List Int)
    (t : RawTable bucketOf eventTime householdId) : RawTable bucketOf eventTime householdId :=
  days.foldl (fun t day => compacted w clock day t) t

private theorem ends_maintain {maxAge now : Int} {counts : MaintenanceCounts} :
    (maintain (ε := ε) w clock maxAge now).Ends t counts t' ↔
      t' = (compactedDays w clock (daysWithSmallFiles t) t).expire (now - maxAge) ∧
      counts = ⟨(daysWithSmallFiles t).length,
        (compactedDays w clock (daysWithSmallFiles t) t).snapshots.length - t'.snapshots.length⟩ := by
  simp only [maintain, ends_bind', ends_get, ends_compactDays, ends_expireSnapshots, ends_pure]
  constructor
  · intro h
    obtain ⟨_, _, ⟨hm, hs⟩, _, _, ⟨hc, hn⟩, _, _, ⟨he, hk⟩, ht, hcounts⟩ := h
    subst hm hs hc hn he hk ht
    exact ⟨rfl, hcounts⟩
  · intro h
    obtain ⟨ht, hcounts⟩ := h
    subst ht
    exact ⟨_, _, ⟨rfl, rfl⟩, _, _, ⟨rfl, rfl⟩, _, _, ⟨rfl, rfl⟩, rfl, hcounts⟩

private theorem leaves_expireSnapshots {olderThan : Int} (h : (expireSnapshots (ε := ε) olderThan).Leaves t t') :
    t' = t ∨ t' = t.expire olderThan := by
  rcases leaves_get_bind h with h | h
  · exact .inl h
  rcases leaves_bind' h with h | ⟨_, m, hm, h⟩
  · exact leaves_modify.mp h
  rw [ends_modify] at hm
  subst hm
  rcases leaves_get_bind h with h | h
  · exact .inr h
  · exact .inr (leaves_pure.mp h)

/-- Stopped anywhere, a pass keeps the rows, every repeat of them. -/
theorem keeps_maintain {maxAge now : Int} (l : List α) :
    (maintain (ε := ε) w clock maxAge now).Keeps fun t => t.rows.Perm l := by
  have hone (day : Int) : (compactOne (ε := ε) w clock day).Keeps fun t => t.rows.Perm l := by
    intro t t' ht h
    rcases leaves_compactOne h with rfl | rfl
    · exact ht
    · exact rows_compacted.trans ht
  have hexpire : (expireSnapshots (ε := ε) (now - maxAge)).Keeps
      fun t : RawTable bucketOf eventTime householdId => t.rows.Perm l := by
    intro t t' ht h
    rcases leaves_expireSnapshots h with rfl | rfl
    · exact ht
    · rwa [SnapshotTable.rows_expire]
  refine keeps_get_bind fun t ht t' h => ?_
  refine keeps_bind' (keeps_bind' (keeps_forEach fun day _ => hone day) fun _ => keeps_done _) (fun n => ?_) t t' ht h
  exact keeps_bind' hexpire fun _ => keeps_done _

section files

private theorem mem_daysWithSmallFiles :
    day ∈ daysWithSmallFiles t ↔ ∃ k : Int × Nat, k.1 = day ∧ 1 < t.fileCount k := by
  rw [daysWithSmallFiles, mem_sortedSet, List.mem_map]
  constructor
  · intro h
    obtain ⟨k, hk, hday⟩ := h
    exact ⟨k, hday, of_decide_eq_true (List.mem_filter.mp hk).2⟩
  · intro h
    obtain ⟨k, hday, hk⟩ := h
    refine ⟨k, List.mem_filter.mpr ⟨?_, decide_eq_true hk⟩, hday⟩
    rw [SnapshotTable.mem_partitions]
    exact SnapshotTable.fileCount_pos_iff.mp (Nat.lt_of_lt_of_le Nat.zero_lt_one (Nat.le_of_lt hk))

private theorem fileCount_eq_zero {k : Int × Nat} (h : t.scan (dayFilter eventTime k.1) = []) : t.fileCount k = 0 := by
  by_contra hpos
  obtain ⟨a, ha, hk⟩ := SnapshotTable.fileCount_pos_iff.mp (Nat.pos_of_ne_zero hpos)
  have hscan : a ∈ t.scan (dayFilter eventTime k.1) := by
    refine List.mem_filter.mpr ⟨ha, ?_⟩
    rw [dayFilter_eq bucketOf householdId, hk, decide_eq_true rfl]
  rw [h] at hscan
  exact List.not_mem_nil hscan

/-- Compacting a day leaves the files of the others alone. -/
theorem fileCount_compacted_of_ne {k : Int × Nat} (h : k.1 ≠ day) :
    (compacted w clock day t).fileCount k = t.fileCount k := by
  unfold compacted
  split
  · rfl
  · exact SnapshotTable.fileCount_rewrite_of_not (q := fun k => decide (k.1 = day)) (dayFilter_eq _ _ day)
      (decide_eq_false h)

private theorem fileCount_compacted_le (hw : w.Single) {k : Int × Nat} (h : k.1 = day) :
    (compacted w clock day t).fileCount k ≤ 1 := by
  subst h
  unfold compacted
  split
  · rename_i hrows
    rw [fileCount_eq_zero (List.isEmpty_iff.mp hrows)]
    exact Nat.zero_le 1
  · exact SnapshotTable.fileCount_rewrite_of_mem (q := fun j => decide (j.1 = k.1)) (dayFilter_eq _ _ k.1) hw
      (decide_eq_true rfl)

private theorem fileCount_compactedDays_of_not_mem {days : List Int} {k : Int × Nat} (h : k.1 ∉ days) :
    (compactedDays w clock days t).fileCount k = t.fileCount k := by
  induction days generalizing t with
  | nil => rfl
  | cons day days ih =>
    rw [compactedDays, List.foldl_cons]
    exact (ih fun hk => h (List.mem_cons_of_mem _ hk)).trans
      (fileCount_compacted_of_ne fun hk => h (hk ▸ List.mem_cons_self))

private theorem fileCount_compactedDays_le (hw : w.Single) {days : List Int} {k : Int × Nat} (h : k.1 ∈ days) :
    (compactedDays w clock days t).fileCount k ≤ 1 := by
  induction days generalizing t with
  | nil => exact absurd h List.not_mem_nil
  | cons day days ih =>
    rw [compactedDays, List.foldl_cons]
    by_cases hk : k.1 ∈ days
    · exact ih hk
    · have hday : k.1 = day := (List.mem_cons.mp h).resolve_right hk
      exact (fileCount_compactedDays_of_not_mem hk).trans_le (fileCount_compacted_le hw hday)

private theorem rows_compactedDays {days : List Int} : (compactedDays w clock days t).rows.Perm t.rows := by
  induction days generalizing t with
  | nil => exact List.Perm.refl _
  | cons day days ih =>
    rw [compactedDays, List.foldl_cons]
    exact ih.trans rows_compacted

/-- A rewritten day commits two snapshots: its deletion, then its new files. -/
theorem snapshots_compactedDays {days : List Int}
    (h : ∀ day ∈ days, ∃ a ∈ t.rows, dayFilter eventTime day a = true) :
    ∃ new, (compactedDays w clock days t).snapshots = new ++ t.snapshots ∧ new.length = 2 * days.length := by
  induction days generalizing t with
  | nil => exact ⟨[], rfl, rfl⟩
  | cons day days ih =>
    have hrows : ¬ (t.scan (dayFilter eventTime day)).isEmpty = true := by
      obtain ⟨a, ha, hday⟩ := h day List.mem_cons_self
      rw [List.isEmpty_iff]
      exact List.ne_nil_of_mem (List.mem_filter.mpr ⟨ha, hday⟩)
    obtain ⟨new, hnew, hlen⟩ := ih (t := compacted w clock day t) fun d hd => by
      obtain ⟨a, ha, hday⟩ := h d (List.mem_cons_of_mem _ hd)
      exact ⟨a, rows_compacted.mem_iff.mpr ha, hday⟩
    rw [compactedDays, List.foldl_cons]
    change (compactedDays w clock days _).snapshots = _ at hnew
    rw [compactedDays] at hnew
    obtain ⟨s, s', hs⟩ : ∃ s s', (compacted w clock day t).snapshots = s :: s' :: t.snapshots := by
      rw [compacted, if_neg hrows]
      exact ⟨_, _, rfl⟩
    refine ⟨new ++ [s, s'], ?_, ?_⟩
    · rw [hnew, hs, List.append_assoc]
      rfl
    · rw [List.length_append, hlen, List.length_cons, List.length_cons, List.length_cons, List.length_nil]
      omega

/-- A complete pass leaves each partition one file. -/
theorem fileCount_maintained (hw : w.Single) (k : Int × Nat) :
    (compactedDays w clock (daysWithSmallFiles t) t).fileCount k = if k ∈ t.partitions then 1 else 0 := by
  have hle : (compactedDays w clock (daysWithSmallFiles t) t).fileCount k ≤ 1 := by
    by_cases hk : k.1 ∈ daysWithSmallFiles t
    · exact fileCount_compactedDays_le hw hk
    · rw [fileCount_compactedDays_of_not_mem hk]
      by_contra hmany
      exact hk (mem_daysWithSmallFiles.mpr ⟨k, rfl, Nat.lt_of_not_le hmany⟩)
  have hpos : 0 < (compactedDays w clock (daysWithSmallFiles t) t).fileCount k ↔ k ∈ t.partitions := by
    rw [SnapshotTable.fileCount_pos_iff, SnapshotTable.mem_partitions]
    simp only [rows_compactedDays.mem_iff]
  split
  · rename_i hmem
    exact le_antisymm hle (hpos.mpr hmem)
  · rename_i hmem
    exact Nat.eq_zero_of_not_pos (mt hpos.mp hmem)

private theorem daysWithSmallFiles_eq_nil (h : ∀ k, t.fileCount k ≤ 1) : daysWithSmallFiles t = [] := by
  rw [List.eq_nil_iff_forall_not_mem]
  intro day hday
  obtain ⟨k, _, hk⟩ := mem_daysWithSmallFiles.mp hday
  exact Nat.not_le_of_lt hk (h k)

/-- The days of small files hold rows. -/
theorem exists_row_of_mem_daysWithSmallFiles (h : day ∈ daysWithSmallFiles t) :
    ∃ a ∈ t.rows, dayFilter eventTime day a = true := by
  obtain ⟨k, rfl, hk⟩ := mem_daysWithSmallFiles.mp h
  obtain ⟨a, ha, hp⟩ := SnapshotTable.fileCount_pos_iff.mp (Nat.lt_of_lt_of_le Nat.zero_lt_one (Nat.le_of_lt hk))
  refine ⟨a, ha, ?_⟩
  rw [dayFilter_eq bucketOf householdId, hp, decide_eq_true rfl]

private theorem snapshots_maintained (clock : Int → Int) : ∃ own,
    (compactedDays w clock (daysWithSmallFiles t) t).snapshots = own ++ t.snapshots ∧
      own.length = 2 * (daysWithSmallFiles t).length :=
  snapshots_compactedDays fun _ h => exists_row_of_mem_daysWithSmallFiles h

end files

/-- What a complete maintenance pass makes of a table, whatever happened to it before. -/
structure Maintained (olderThan : Int) (t : RawTable bucketOf eventTime householdId) (counts : MaintenanceCounts)
    (t' : RawTable bucketOf eventTime householdId) : Prop where
  rows : t'.rows.Perm t.rows
  compacted : counts.compactedDays = (daysWithSmallFiles t).length
  /-- Of the snapshots, the pass's own two a day included, the old ones go and the current one stays. -/
  snapshots : ∃ own, own.length = 2 * counts.compactedDays ∧
    t'.snapshots.head? = (own ++ t.snapshots).head? ∧
    (∀ s ∈ (own ++ t.snapshots).tail, s ∈ t'.snapshots.tail ↔ olderThan ≤ s.committedAt) ∧
    t'.snapshots.Sublist (own ++ t.snapshots) ∧
    counts.expiredSnapshots + t'.snapshots.length = (own ++ t.snapshots).length

/-- A pass that ends leaves the rows as they were. Where a write cuts each partition's rows into
one file, it leaves one file a partition, and a second pass rewrites nothing. -/
theorem maintain_ends {maxAge now : Int} {counts : MaintenanceCounts}
    (h : (maintain (ε := ε) w clock maxAge now).Ends t counts t') :
    Maintained (now - maxAge) t counts t' ∧
      (w.Single → (∀ k, t'.fileCount k = if k ∈ t.partitions then 1 else 0) ∧
        ∀ clock' maxAge' now' counts' t'', (maintain (ε := ε) w clock' maxAge' now').Ends t' counts' t'' →
          counts'.compactedDays = 0 ∧ t''.files = t'.files) := by
  obtain ⟨rfl, rfl⟩ := ends_maintain.mp h
  constructor
  · obtain ⟨own, hown, hlen⟩ := snapshots_maintained (w := w) (t := t) clock
    refine ⟨?_, rfl, own, hlen, ?_, ?_, ?_, ?_⟩
    · rw [SnapshotTable.rows_expire]
      exact rows_compactedDays
    all_goals rw [← hown]
    · exact SnapshotTable.head?_snapshots_expire _
    · exact fun s hs => SnapshotTable.mem_tail_expire hs
    · exact SnapshotTable.snapshots_expire_sublist _
    · exact Nat.sub_add_cancel (SnapshotTable.snapshots_expire_sublist _).length_le
  · intro hw
    have hfile (k : Int × Nat) : ((compactedDays w clock (daysWithSmallFiles t) t).expire (now - maxAge)).fileCount k =
        if k ∈ t.partitions then 1 else 0 := by
      rw [SnapshotTable.fileCount_expire, fileCount_maintained hw]
    refine ⟨hfile, ?_⟩
    intro clock' maxAge' now' counts' t'' h'
    obtain ⟨rfl, rfl⟩ := ends_maintain.mp h'
    have hnil := daysWithSmallFiles_eq_nil (t := (compactedDays w clock (daysWithSmallFiles t) t).expire (now - maxAge))
      fun k => by
        rw [hfile]
        split
        · exact Nat.le_refl 1
        · exact Nat.zero_le 1
    rw [hnil]
    exact ⟨rfl, SnapshotTable.files_expire _⟩

end maintenance

section reads
variable {lake lake' : Lake}

/-- Rows with one version each read alike from files in any order. -/
theorem readCurrent_congr_mem {log log' : List AttributedConversion}
    (hk : Keyed (fun r : AttributedConversion => (r.conversionId, recordVersion r)) log) (h : ∀ r, r ∈ log ↔ r ∈ log')
    (days : Option (List Int)) : readCurrent log days = readCurrent log' days := by
  have hscanned (r : AttributedConversion) : r ∈ scanned log days ↔ r ∈ scanned log' days := by
    cases days with
    | none => exact h r
    | some days => rw [scanned, scanned, List.mem_filter, List.mem_filter, h]
  have hks : Keyed (fun r : AttributedConversion => (r.conversionId, recordVersion r)) (scanned log days) := by
    refine hk.mono fun r hr => ?_
    cases days with
    | none => exact hr
    | some days => exact (List.mem_filter.mp hr).1
  apply eq_of_strict_of_mem_iff _ (readCurrent_strict _ _) (readCurrent_strict _ _)
  intro r
  rw [readCurrent, readCurrent, mem_sortedBy, mem_sortedBy, mem_collapse, mem_collapse, current_firstSeen,
    current_firstSeen, current_congr hks hscanned]

/-- The same rows, in any order and with any repeats. -/
structure SameRows (lake lake' : Lake) : Prop where
  exposures : ∀ e, e ∈ lake.exposures ↔ e ∈ lake'.exposures
  attributed : ∀ r, r ∈ lake.attributed ↔ r ∈ lake'.attributed

/-- Every read the pipeline makes of a lake gives the same answer. -/
structure ReadsAlike (lake lake' : Lake) : Prop where
  current : ∀ days, readCurrent lake.attributed days = readCurrent lake'.attributed days
  exposures : ∀ days, readExposuresForDays lake.exposures days = readExposuresForDays lake'.exposures days
  byHousehold : ∀ hhs lo hi, readExposuresByHousehold lake.exposures hhs lo hi =
    readExposuresByHousehold lake'.exposures hhs lo hi
  days : lake.days = lake'.days
  recovered : ∀ bucketOf day reconciledAt window,
    recoverDay bucketOf lake day reconciledAt window = recoverDay bucketOf lake' day reconciledAt window

private theorem SameRows.readsAlike (h : SameRows lake lake') (hlake : RegularLake lake) : ReadsAlike lake lake' := by
  have hcurrent := readCurrent_congr_mem hlake.keyed h.attributed
  have hhouseholds (hhs : List String) (lo hi : Int) : readExposuresByHousehold lake.exposures hhs lo hi =
      readExposuresByHousehold lake'.exposures hhs lo hi := by
    unfold readExposuresByHousehold
    congr 1
    refine sortedBy_firstSeen_congr (hlake.exposures.mono fun e he => (List.mem_filter.mp he).1) (fun _ _ he => he) ?_
    intro e
    rw [List.mem_filter, List.mem_filter, h.exposures]
  refine ⟨hcurrent, fun days => ?_, hhouseholds, ?_, fun bucketOf day reconciledAt window => ?_⟩
  · refine sortedBy_firstSeen_congr (hlake.exposures.mono fun e he => (List.mem_filter.mp he).1) ?_ ?_
    · intro a b he
      exact congrArg (fun k : String ×ₗ Int ×ₗ String => (ofLex (ofLex k).2).2) he
    · intro e
      rw [List.mem_filter, List.mem_filter, h.exposures]
  · refine sortedSet_congr fun d => ?_
    simp only [List.mem_append, List.mem_map, h.exposures, h.attributed]
  · have hcands (d : Option Int) : lakeCandidates lake.attributed d = lakeCandidates lake'.attributed d := by
      rw [lakeCandidates, lakeCandidates, hcurrent]
    have hbuckets (expanded : List ResolvedConversion) (lo hi : Int) :
        bucketExposures bucketOf lake.exposures expanded lo hi =
          bucketExposures bucketOf lake'.exposures expanded lo hi := by
      simp only [bucketExposures, hhouseholds]
    simp only [recoverDay, hcands, hbuckets]

end reads

section tables
variable {ε : Type} {bucketOf : String → Nat}

/-- raw.exposures and raw.attributed_conversions. -/
structure LakeTables (bucketOf : String → Nat) where
  exposures : RawTable bucketOf Exposure.eventTime Exposure.householdId
  attributed : RawTable bucketOf (fun r : AttributedConversion => r.eventTime) fun r => r.householdId

structure LakeWriters (bucketOf : String → Nat) where
  exposures : RawWriter bucketOf Exposure.eventTime Exposure.householdId
  attributed : RawWriter bucketOf (fun r : AttributedConversion => r.eventTime) fun r => r.householdId

namespace LakeTables
variable (T : LakeTables bucketOf) (w : LakeWriters bucketOf)

def empty : LakeTables bucketOf := ⟨.empty, .empty⟩

/-- What a scan of the current files sees. -/
def lake : Lake := ⟨T.exposures.rows, T.attributed.rows⟩

/-- `land`: an empty landing commits nothing. -/
def land (time : Int) (exposures : List Exposure) : LakeTables bucketOf :=
  if exposures.isEmpty then T
  else { T with exposures := T.exposures.append w.exposures time (exposures.map landedExposure) }

/-- `land_attributed`. -/
def landAttributed (time : Int) (rows : List AttributedConversion) : LakeTables bucketOf :=
  if rows.isEmpty then T
  else { T with attributed := T.attributed.append w.attributed time (rows.map landedRow) }

end LakeTables

/-- The op `maintain_exposures` of the job `lake_maintenance`. -/
def maintainExposures (w : LakeWriters bucketOf) (clock : Int → Int) (maxAge now : Int) :
    Script (LakeTables bucketOf) ε MaintenanceCounts :=
  Script.zoom LakeTables.exposures (fun T t => { T with exposures := t }) (maintain w.exposures clock maxAge now)

/-- The op `maintain_attributed`. -/
def maintainAttributed (w : LakeWriters bucketOf) (clock : Int → Int) (maxAge now : Int) :
    Script (LakeTables bucketOf) ε MaintenanceCounts :=
  Script.zoom LakeTables.attributed (fun T t => { T with attributed := t }) (maintain w.attributed clock maxAge now)

/-- Landings and maintenance of the tables in any order, beside the logs that only ever
grow. A maintenance op may be stopped before any of its commits. -/
inductive FileRun (w : LakeWriters bucketOf) : LakeTables bucketOf → Lake → Prop where
  | created : FileRun w .empty .empty
  | land {T : LakeTables bucketOf} {lake : Lake} (time : Int) (exposures : List Exposure) : FileRun w T lake →
      FileRun w (T.land w time exposures) (lake.land exposures)
  | landAttributed {T : LakeTables bucketOf} {lake : Lake} (time : Int) (rows : List AttributedConversion) :
      FileRun w T lake → FileRun w (T.landAttributed w time rows) (lake.landAttributed rows)
  | maintainExposures {T T' : LakeTables bucketOf} {lake : Lake} {clock : Int → Int} {maxAge now : Int} :
      FileRun w T lake → (maintainExposures (ε := Empty) w clock maxAge now).Leaves T T' → FileRun w T' lake
  | maintainAttributed {T T' : LakeTables bucketOf} {lake : Lake} {clock : Int → Int} {maxAge now : Int} :
      FileRun w T lake → (maintainAttributed (ε := Empty) w clock maxAge now).Leaves T T' → FileRun w T' lake

/-- The tables hold the logs, every repeat of a row included. -/
structure HoldsLogs (T : LakeTables bucketOf) (lake : Lake) : Prop where
  exposures : T.exposures.rows.Perm lake.exposures
  attributed : T.attributed.rows.Perm lake.attributed

variable {w : LakeWriters bucketOf} {T T' : LakeTables bucketOf} {lake : Lake}

theorem HoldsLogs.land (h : HoldsLogs T lake) (time : Int) (exposures : List Exposure) :
    HoldsLogs (T.land w time exposures) (lake.land exposures) := by
  unfold LakeTables.land
  split
  · rename_i hnil
    rw [List.isEmpty_iff.mp hnil]
    exact ⟨h.exposures.trans (.of_eq (List.append_nil _).symm), h.attributed⟩
  · exact ⟨(SnapshotTable.rows_append _).trans (h.exposures.append_right _), h.attributed⟩

theorem HoldsLogs.landAttributed (h : HoldsLogs T lake) (time : Int) (rows : List AttributedConversion) :
    HoldsLogs (T.landAttributed w time rows) (lake.landAttributed rows) := by
  unfold LakeTables.landAttributed
  split
  · rename_i hnil
    rw [List.isEmpty_iff.mp hnil]
    exact ⟨h.exposures, h.attributed.trans (.of_eq (List.append_nil _).symm)⟩
  · exact ⟨h.exposures, (SnapshotTable.rows_append _).trans (h.attributed.append_right _)⟩

theorem HoldsLogs.maintainExposures (h : HoldsLogs T lake) {clock : Int → Int} {maxAge now : Int}
    (hl : (maintainExposures (ε := ε) w clock maxAge now).Leaves T T') : HoldsLogs T' lake := by
  have hview (T : LakeTables bucketOf) (t : RawTable bucketOf Exposure.eventTime Exposure.householdId) :
      LakeTables.exposures { T with exposures := t } = t := rfl
  obtain ⟨t, ht, rfl⟩ := leaves_zoom hview (fun _ _ _ => rfl) (fun _ => rfl) hl
  exact ⟨keeps_maintain _ _ _ h.exposures ht, h.attributed⟩

theorem HoldsLogs.maintainAttributed (h : HoldsLogs T lake) {clock : Int → Int} {maxAge now : Int}
    (hl : (maintainAttributed (ε := ε) w clock maxAge now).Leaves T T') : HoldsLogs T' lake := by
  have hview (T : LakeTables bucketOf)
      (t : RawTable bucketOf (fun r : AttributedConversion => r.eventTime) fun r => r.householdId) :
      LakeTables.attributed { T with attributed := t } = t := rfl
  obtain ⟨t, ht, rfl⟩ := leaves_zoom hview (fun _ _ _ => rfl) (fun _ => rfl) hl
  exact ⟨h.exposures, keeps_maintain _ _ _ h.attributed ht⟩

private theorem FileRun.holdsLogs (h : FileRun w T lake) : HoldsLogs T lake := by
  induction h with
  | created => exact ⟨.refl _, .refl _⟩
  | land time exposures _ ih => exact ih.land time exposures
  | landAttributed time rows _ ih => exact ih.landAttributed time rows
  | maintainExposures _ hl ih => exact ih.maintainExposures hl
  | maintainAttributed _ hl ih => exact ih.maintainAttributed hl

end tables

section sample

def sampleWriters : LakeWriters String.length := ⟨.byPartition _, .byPartition _⟩

/-- The sample exposures landed twice: two files in each partition. -/
def sampleTables : LakeTables String.length :=
  (LakeTables.empty.land sampleWriters 1 sampleLake.exposures).land sampleWriters 2 sampleLake.exposures

theorem maintain_ends_sample : ∃ counts t',
    (maintain (ε := Empty) sampleWriters.exposures (fun day => day) Time.hour Time.day).Ends
      sampleTables.exposures counts t' ∧ counts.compactedDays = 1 ∧
    Maintained (Time.day - Time.hour) sampleTables.exposures counts t' ∧
      (∀ k, t'.fileCount k = if k ∈ sampleTables.exposures.partitions then 1 else 0) ∧
      ∀ clock' maxAge' now' counts' t'',
        (maintain (ε := Empty) sampleWriters.exposures clock' maxAge' now').Ends t' counts' t'' →
          counts'.compactedDays = 0 ∧ t''.files = t'.files := by
  have hpass : (maintain (ε := Empty) sampleWriters.exposures (fun day => day) Time.hour Time.day).Ends
      sampleTables.exposures _ _ := ends_maintain.mpr ⟨rfl, rfl⟩
  obtain ⟨hmaintained, hsingle⟩ := maintain_ends hpass
  exact ⟨_, _, hpass, by decide +kernel, hmaintained, hsingle FileWriter.single_byPartition⟩

end sample
end CtvAttribution
