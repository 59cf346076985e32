import CtvAttribution.Library.OrderedDict
import CtvAttribution.Library.SortedBy

/-! A table of a lake format: immutable data files, each within one partition, and the
snapshots that list them. A write commits a new list of files; older ones stay readable. -/
namespace CtvAttribution.Library
variable {α κ : Type} {partition : α → κ}

/-- Rows of one partition. -/
structure DataFile (partition : α → κ) where
  rows : List α
  nonempty : rows ≠ []
  within : ∀ a ∈ rows, ∀ b ∈ rows, partition a = partition b

namespace DataFile
variable {f : DataFile partition} {a : α}

def key (f : DataFile partition) : κ := partition (f.rows.head f.nonempty)

theorem partition_eq_key (ha : a ∈ f.rows) : partition a = f.key :=
  f.within a ha _ (List.head_mem f.nonempty)

/-- A file of the given rows, if there are any. -/
def ofRows (rows : List α) (within : ∀ a ∈ rows, ∀ b ∈ rows, partition a = partition b) :
    Option (DataFile partition) :=
  if h : rows = [] then none else some ⟨rows, h, within⟩

theorem rows_ofRows {rows : List α} {within : ∀ a ∈ rows, ∀ b ∈ rows, partition a = partition b} :
    (ofRows rows within).toList.flatMap DataFile.rows = rows := by
  unfold ofRows
  split
  · rename_i h
    simp [h]
  · simp

/-- What is left of a file once a filter's rows are deleted. A file it selects whole goes. -/
def without (p : α → Bool) (f : DataFile partition) : Option (DataFile partition) :=
  ofRows (f.rows.filter fun a => !p a) fun a ha b hb =>
    f.within a (List.mem_filter.mp ha).1 b (List.mem_filter.mp hb).1

theorem rows_without (p : α → Bool) (files : List (DataFile partition)) :
    (files.filterMap (without p)).flatMap rows = (files.flatMap rows).filter fun a => !p a := by
  induction files with
  | nil => rfl
  | cons f files ih =>
    have hone : (f.without p).toList.flatMap rows = f.rows.filter fun a => !p a := rows_ofRows
    rw [List.flatMap_cons, List.filter_append, ← ih, ← hone, List.filterMap_cons]
    cases f.without p <;> simp

end DataFile

/-- What cuts the rows of one write into files. -/
structure FileWriter (partition : α → κ) where
  write : List α → List (DataFile partition)
  rows_perm : ∀ l, ((write l).flatMap DataFile.rows).Perm l

/-- A write makes one file of each partition it touches. -/
def FileWriter.Single (w : FileWriter partition) : Prop := ∀ l, ((w.write l).map DataFile.key).Nodup

section byPartition
variable [DecidableEq κ] {l : List α}

/-- The rows of one partition, as a file. -/
def DataFile.ofPartition (partition : α → κ) (l : List α) (k : κ) : Option (DataFile partition) :=
  ofRows (l.filter (partition · = k)) fun _ ha _ hb =>
    (of_decide_eq_true (List.mem_filter.mp ha).2).trans (of_decide_eq_true (List.mem_filter.mp hb).2).symm

theorem DataFile.key_ofPartition {k : κ} {f : DataFile partition} (h : DataFile.ofPartition partition l k = some f) :
    f.key = k := by
  unfold ofPartition ofRows at h
  split at h
  · cases h
  · rename_i hrows
    have hhead := (List.mem_filter.mp (List.head_mem hrows)).2
    cases h
    exact of_decide_eq_true hhead

theorem rows_ofPartition (l : List α) (ks : List κ) :
    (ks.filterMap (DataFile.ofPartition partition l)).flatMap DataFile.rows =
      ks.flatMap fun k => l.filter (partition · = k) := by
  induction ks with
  | nil => rfl
  | cons k ks ih =>
    have hone : (DataFile.ofPartition partition l k).toList.flatMap DataFile.rows = l.filter (partition · = k) :=
      DataFile.rows_ofRows
    rw [List.flatMap_cons, ← ih, ← hone, List.filterMap_cons]
    cases DataFile.ofPartition partition l k <;> simp

/-- A writer with one file for each partition. -/
def FileWriter.byPartition (partition : α → κ) : FileWriter partition where
  write l := (firstSeen (l.map partition)).filterMap (DataFile.ofPartition partition l)
  rows_perm l := by
    rw [rows_ofPartition]
    exact OrderedDict.flatMap_filter_perm partition (nodup_firstSeen _) fun x hx =>
      mem_firstSeen.mpr (List.mem_map_of_mem hx)

theorem FileWriter.single_byPartition : (FileWriter.byPartition partition).Single := by
  intro l
  have hkeys (ks : List κ) : ((ks.filterMap (DataFile.ofPartition partition l)).map DataFile.key).Sublist ks := by
    induction ks with
    | nil => exact List.Sublist.refl _
    | cons k ks ih =>
      rw [List.filterMap_cons]
      cases h : DataFile.ofPartition partition l k with
      | none => exact ih.cons k
      | some f =>
        rw [List.map_cons, DataFile.key_ofPartition h]
        exact ih.cons_cons k
  exact (hkeys _).nodup (nodup_firstSeen _)

end byPartition

/-- A committed state of a table. -/
structure TableSnapshot (partition : α → κ) where
  committedAt : Int
  files : List (DataFile partition)

/-- The snapshots of a table, the current one first. -/
structure SnapshotTable (partition : α → κ) where
  snapshots : List (TableSnapshot partition)

namespace SnapshotTable
variable (t : SnapshotTable partition) (w : FileWriter partition) (time : Int)

def empty : SnapshotTable partition := ⟨[]⟩

def files : List (DataFile partition) := (t.snapshots.head?.map TableSnapshot.files).getD []

def rows : List α := t.files.flatMap DataFile.rows

def scan (p : α → Bool) : List α := t.rows.filter p

def commit (files : List (DataFile partition)) : SnapshotTable partition := ⟨⟨time, files⟩ :: t.snapshots⟩

def append (l : List α) : SnapshotTable partition := t.commit time (t.files ++ w.write l)

def delete (p : α → Bool) : SnapshotTable partition := t.commit time (t.files.filterMap (DataFile.without p))

/-- Delete what a filter selects, then append. -/
def overwrite (p : α → Bool) (l : List α) : SnapshotTable partition := (t.delete time p).append w time l

/-- Expire the snapshots committed before a time. The current one is kept. -/
def expire (olderThan : Int) : SnapshotTable partition :=
  ⟨t.snapshots.take 1 ++ (t.snapshots.drop 1).filter fun s => olderThan ≤ s.committedAt⟩

def fileCount [DecidableEq κ] (k : κ) : Nat := (t.files.map DataFile.key).count k

def partitions [DecidableEq κ] : List κ := firstSeen (t.files.map DataFile.key)

section laws
variable {t w time}

@[simp] theorem rows_empty : (empty : SnapshotTable partition).rows = [] := rfl
@[simp] theorem files_commit (files : List (DataFile partition)) : (t.commit time files).files = files := rfl
@[simp] theorem files_append (l : List α) : (t.append w time l).files = t.files ++ w.write l := rfl
@[simp] theorem files_delete (p : α → Bool) :
    (t.delete time p).files = t.files.filterMap (DataFile.without p) := rfl

@[simp] theorem files_expire (olderThan : Int) : (t.expire olderThan).files = t.files := by
  cases t with
  | mk snapshots => cases snapshots <;> rfl

@[simp] theorem rows_expire (olderThan : Int) : (t.expire olderThan).rows = t.rows := by
  rw [rows, files_expire, rows]

theorem head?_snapshots_expire (olderThan : Int) : (t.expire olderThan).snapshots.head? = t.snapshots.head? := by
  cases t with
  | mk snapshots => cases snapshots <;> rfl

theorem snapshots_expire_sublist (olderThan : Int) : (t.expire olderThan).snapshots.Sublist t.snapshots := by
  have h : (t.snapshots.take 1 ++ (t.snapshots.drop 1).filter fun s => decide (olderThan ≤ s.committedAt)).Sublist
      (t.snapshots.take 1 ++ t.snapshots.drop 1) :=
    List.filter_sublist.append_left _
  rwa [List.take_append_drop] at h

/-- Of the older snapshots exactly the ones committed in time are kept. -/
theorem mem_tail_expire {olderThan : Int} {s : TableSnapshot partition} (hs : s ∈ t.snapshots.tail) :
    s ∈ (t.expire olderThan).snapshots.tail ↔ olderThan ≤ s.committedAt := by
  cases t with
  | mk snapshots =>
    cases snapshots with
    | nil => exact absurd hs List.not_mem_nil
    | cons current older =>
      change s ∈ older.filter _ ↔ _
      rw [List.mem_filter, decide_eq_true_iff]
      exact and_iff_right hs

theorem rows_append (l : List α) : (t.append w time l).rows.Perm (t.rows ++ l) := by
  rw [rows, files_append, List.flatMap_append]
  exact (w.rows_perm l).append_left _

theorem rows_delete (p : α → Bool) : (t.delete time p).rows = t.rows.filter fun a => !p a := by
  rw [rows, files_delete, DataFile.rows_without, rows]

theorem rows_overwrite (p : α → Bool) (l : List α) :
    (t.overwrite w time p l).rows.Perm ((t.rows.filter fun a => !p a) ++ l) := by
  rw [← rows_delete]
  exact rows_append l

/-- Writing back what a filter selects keeps the rows, every repeat of them. -/
theorem rows_rewrite (p : α → Bool) : (t.overwrite w time p (t.scan p)).rows.Perm t.rows := by
  refine (rows_overwrite p _).trans ?_
  refine List.perm_append_comm.trans ?_
  exact List.filter_append_perm p t.rows

end laws

section counts
variable [DecidableEq κ] {t w time} {k : κ} {p : α → Bool}

/-- A partition has a file exactly when it has a row. -/
theorem fileCount_pos_iff : 0 < t.fileCount k ↔ ∃ a ∈ t.rows, partition a = k := by
  rw [fileCount, List.count_pos_iff, List.mem_map]
  constructor
  · intro h
    obtain ⟨f, hf, hk⟩ := h
    exact ⟨f.rows.head f.nonempty, List.mem_flatMap.mpr ⟨f, hf, List.head_mem _⟩, hk⟩
  · intro h
    obtain ⟨a, ha, hk⟩ := h
    obtain ⟨f, hf, hmem⟩ := List.mem_flatMap.mp ha
    exact ⟨f, hf, (DataFile.partition_eq_key hmem).symm.trans hk⟩

/-- The partitions are the rows' ones. -/
theorem mem_partitions : k ∈ t.partitions ↔ ∃ a ∈ t.rows, partition a = k := by
  rw [partitions, mem_firstSeen, ← List.count_pos_iff]
  exact fileCount_pos_iff

@[simp] theorem fileCount_expire (olderThan : Int) : (t.expire olderThan).fileCount k = t.fileCount k := by
  rw [fileCount, files_expire, fileCount]

end counts

section selection
variable [DecidableEq κ] {t w time} {k : κ} {p : α → Bool} {q : κ → Bool} (hsel : ∀ a, p a = q (partition a))
include hsel

omit [DecidableEq κ] in
/-- A filter on partitions keeps a file whole or not at all. -/
theorem without_eq (f : DataFile partition) : f.without p = if q f.key then none else some f := by
  have hall (a : α) (ha : a ∈ f.rows) : p a = q f.key := by
    rw [hsel, DataFile.partition_eq_key ha]
  cases hq : q f.key with
  | true =>
    have hrows : (f.rows.filter fun a => !p a) = [] := by
      rw [List.filter_eq_nil_iff]
      intro a ha
      simp [hall a ha, hq]
    exact dif_pos hrows
  | false =>
    have hrows : (f.rows.filter fun a => !p a) = f.rows := by
      rw [List.filter_eq_self]
      intro a ha
      simp [hall a ha, hq]
    have hne : (f.rows.filter fun a => !p a) ≠ [] := by
      rw [hrows]
      exact f.nonempty
    rw [DataFile.without, DataFile.ofRows, dif_neg hne]
    cases f
    exact congrArg some (DataFile.mk.injEq .. |>.mpr hrows)

omit [DecidableEq κ] in
theorem files_delete_of_selects : (t.delete time p).files = t.files.filter fun f => !q f.key := by
  have hguard : DataFile.without p = Option.guard fun f : DataFile partition => !q f.key := by
    funext f
    rw [without_eq hsel, Option.guard]
    cases q f.key <;> rfl
  rw [files_delete, hguard, List.filterMap_eq_filter]

omit [DecidableEq κ] in
theorem write_scan_key {f : DataFile partition} (hf : f ∈ w.write (t.scan p)) : q f.key = true := by
  have hmem : f.rows.head f.nonempty ∈ t.scan p :=
    (w.rows_perm _).mem_iff.mp (List.mem_flatMap.mpr ⟨f, hf, List.head_mem _⟩)
  rw [← (List.mem_filter.mp hmem).2, hsel]
  rfl

/-- A rewrite leaves the files of the other partitions alone. -/
theorem fileCount_rewrite_of_not (hk : q k = false) :
    (t.overwrite w time p (t.scan p)).fileCount k = t.fileCount k := by
  rw [fileCount, overwrite, files_append, files_delete_of_selects hsel, List.map_append, List.count_append]
  have hnew : ((w.write (t.scan p)).map DataFile.key).count k = 0 := by
    rw [List.count_eq_zero, List.mem_map]
    intro h
    obtain ⟨f, hf, he⟩ := h
    have hq := write_scan_key hsel hf
    rw [he, hk] at hq
    cases hq
  have hold : ((t.files.filter fun f => !q f.key).map DataFile.key).count k = t.fileCount k := by
    rw [fileCount, List.count_eq_countP, List.countP_map, List.countP_filter, List.count_eq_countP, List.countP_map]
    congr 1
    funext f
    by_cases he : f.key = k
    · simp [he, hk]
    · simp [he]
  rw [hnew, hold, Nat.add_zero]

/-- A rewritten partition is one file. -/
theorem fileCount_rewrite_of_mem (hw : w.Single) (hk : q k = true) :
    (t.overwrite w time p (t.scan p)).fileCount k ≤ 1 := by
  rw [fileCount, overwrite, files_append, files_delete_of_selects hsel, List.map_append, List.count_append]
  have hold : ((t.files.filter fun f => !q f.key).map DataFile.key).count k = 0 := by
    rw [List.count_eq_zero, List.mem_map]
    intro h
    obtain ⟨f, hf, he⟩ := h
    have hq := (List.mem_filter.mp hf).2
    rw [he, hk] at hq
    cases hq
  rw [hold, Nat.zero_add]
  exact List.nodup_iff_count_le_one.mp (hw _) k

end selection

end SnapshotTable

/-- A distinct read in key order does not depend on the order of the files. -/
theorem sortedBy_firstSeen_congr {ι : Type} [DecidableEq α] [LinearOrder κ] {key : α → κ} {id : α → ι} {l m : List α}
    (hl : Keyed id l) (hid : ∀ a b, key a = key b → id a = id b) (h : ∀ a, a ∈ l ↔ a ∈ m) :
    sortedBy key (firstSeen l) = sortedBy key (firstSeen m) := by
  have hnodup {n : List α} (hn : ∀ a ∈ n, a ∈ l) : ((firstSeen n).map key).Nodup := by
    refine (nodup_firstSeen n).map_on fun a ha b hb he => ?_
    exact hl a (hn a (mem_firstSeen.mp ha)) b (hn b (mem_firstSeen.mp hb)) (hid a b he)
  refine eq_of_strict_of_mem_iff key (sortedBy_strict key (hnodup fun a ha => ha))
    (sortedBy_strict key (hnodup fun a ha => (h a).mpr ha)) fun a => ?_
  rw [mem_sortedBy, mem_sortedBy, mem_firstSeen, mem_firstSeen, h]

end CtvAttribution.Library
