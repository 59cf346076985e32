import CtvAttribution.Library.Parties
import CtvAttribution.SnapshotMigration
import Mathlib.Data.List.Perm.Basic
import Mathlib.Data.List.Nodup

/-! Attempts at the migration that crash anywhere, with no other writer: the live table
keeps its rows after every statement, and once an attempt returned nothing is migrated
again. -/
namespace CtvAttribution
open Library

/-- A background merge keeps some row of every sort key. -/
def Merges (rows rows' : List ReportSnapshot) : Prop :=
  rows'.Sublist rows ∧ ∀ r ∈ rows, ∃ r' ∈ rows', r'.key = r.key

/-- Merges of the parts of one table. -/
def MergesTable : Option SnapshotTable → Option SnapshotTable → Prop
  | none, none => True
  | some t, some t' => t'.engine = t.engine ∧ t'.versionColumn = t.versionColumn ∧ Merges t.rows t'.rows
  | _, _ => False

/-- Background merges, at any time and in any tables. -/
def BackgroundMerges (db db' : Database) : Prop := ∀ name, MergesTable (db name) (db' name)

/-- The rows of one table are those of another in their original columns. -/
def SameOriginals (rows rows' : List ReportSnapshot) : Prop :=
  (rows.map ReportSnapshot.original).Perm (rows'.map ReportSnapshot.original)

def DistinctKeys (rows : List ReportSnapshot) : Prop := (rows.map ReportSnapshot.key).Nodup

def Backfilled (rows : List ReportSnapshot) : Prop := ∀ r ∈ rows, r.snapshotVersion = r.reportedAt

section rows
variable {rows rows' : List ReportSnapshot}

theorem SameOriginals.refl (rows : List ReportSnapshot) : SameOriginals rows rows := List.Perm.refl _

theorem map_original_backfilled (rows : List ReportSnapshot) :
    (rows.map ReportSnapshot.backfilled).map ReportSnapshot.original = rows.map ReportSnapshot.original := by
  rw [List.map_map]
  rfl

private theorem backfilled_backfilled (rows : List ReportSnapshot) :
    Backfilled (rows.map ReportSnapshot.backfilled) := by
  intro r hr
  obtain ⟨_, _, rfl⟩ := List.mem_map.mp hr
  rfl

private theorem map_key_original (rows : List ReportSnapshot) :
    (rows.map ReportSnapshot.original).map ReportSnapshot.key = rows.map ReportSnapshot.key := by
  rw [List.map_map]
  rfl

private theorem SameOriginals.distinctKeys (h : SameOriginals rows rows') (hk : DistinctKeys rows') :
    DistinctKeys rows := by
  unfold DistinctKeys at hk ⊢
  rw [← map_key_original] at hk ⊢
  exact (h.map _).nodup_iff.mpr hk

/-- Rows on distinct sort keys never merge. -/
theorem Merges.eq (h : Merges rows rows') (hk : DistinctKeys rows) : rows' = rows := by
  apply h.1.eq_of_length_le
  have hsub : rows.map ReportSnapshot.key ⊆ rows'.map ReportSnapshot.key := by
    intro k hmem
    obtain ⟨r, hr, rfl⟩ := List.mem_map.mp hmem
    obtain ⟨r', hr', he⟩ := h.2 r hr
    exact he ▸ List.mem_map_of_mem hr'
  simpa using (List.subperm_of_subset hk hsub).length_le

theorem BackgroundMerges.get {db db' : Database} (h : BackgroundMerges db db') {name : String} {t : SnapshotTable}
    (ht : db name = some t) (hk : DistinctKeys t.rows) : db' name = some t := by
  have hm := h name
  rw [ht] at hm
  cases ht' : db' name with
  | none =>
    rw [ht'] at hm
    exact hm.elim
  | some t' =>
    rw [ht'] at hm
    obtain ⟨hengine, hcol, hrows⟩ := hm
    have hrows := hrows.eq hk
    cases t
    cases t'
    cases hengine
    cases hcol
    cases hrows
    rfl

end rows

/-- The live table, over the rows it started with. -/
structure KeepsOriginals (table : String) (rows : List ReportSnapshot) (db : Database) (live : SnapshotTable) :
    Prop where
  get : db table = some live
  originals : SameOriginals live.rows rows
  backfilled : live.engine = .versioned → Backfilled live.rows

/-- The scratch table once it holds the copy. -/
structure HoldsCopy (table : String) (rows : List ReportSnapshot) (db : Database) (copy : SnapshotTable) :
    Prop where
  get : db (scratchOf table) = some copy
  versioned : copy.engine = .versioned
  originals : SameOriginals copy.rows rows
  backfilled : Backfilled copy.rows

/-- Nothing that is put in the place of the scratch table touches the live one. -/
theorem KeepsOriginals.update_scratch {table : String} {rows : List ReportSnapshot} {db : Database}
    {live : SnapshotTable} (h : KeepsOriginals table rows db live) (t : Option SnapshotTable) :
    KeepsOriginals table rows (Function.update db (scratchOf table) t) live :=
  ⟨(Function.update_of_ne (scratchOf_ne table).symm _ _).trans h.get, h.originals, h.backfilled⟩

/-- The copy into an empty versioned table is complete. -/
theorem KeepsOriginals.holdsCopy {table : String} {rows : List ReportSnapshot} {db : Database}
    {live copy : SnapshotTable} (h : KeepsOriginals table rows db live) (hversioned : copy.engine = .versioned)
    (hrows : copy.rows = live.rows.map ReportSnapshot.backfilled) :
    HoldsCopy table rows (Function.update db (scratchOf table) (some copy)) copy where
  get := Function.update_self ..
  versioned := hversioned
  originals := by
    rw [hrows, SameOriginals, map_original_backfilled]
    exact h.originals
  backfilled := by
    rw [hrows]
    exact backfilled_backfilled live.rows

/-- What an attempt has made sure of at a point. -/
def MigrationPoint.Reached (table : String) (rows : List ReportSnapshot) (db : Database) : MigrationPoint → Prop
  | .engine | .drop | .alter | .create => True
  | .copy => ∃ t, db (scratchOf table) = some t ∧ t.engine = .versioned ∧ t.rows = []
  | .countOld | .countNew _ | .exchange => ∃ t, HoldsCopy table rows db t
  | .dropOld => ∃ live, db table = some live ∧ live.engine = .versioned

def MigrationProgress.Reached (table : String) (rows : List ReportSnapshot) (db : Database) :
    MigrationProgress → Prop
  | .next point => point.Reached table rows db
  | .returned _ => ∃ live, db table = some live ∧ live.engine = .versioned
  | .failed _ => True

/-- One statement keeps the rows, and reaches what the next point relies on. -/
theorem MigrationPoint.statement_keeps {table : String} {rows : List ReportSnapshot} {db : Database}
    {live : SnapshotTable} {pt : MigrationPoint} (hlive : KeepsOriginals table rows db live)
    (hpt : pt.Reached table rows db) :
    (∃ live', KeepsOriginals table rows (serveStatement (pt.statement table) db).2 live') ∧
      (pt.after table (serveStatement (pt.statement table) db).1).Reached table rows
        (serveStatement (pt.statement table) db).2 := by
  have hne := scratchOf_ne table
  have hget := hlive.get
  cases pt with
  | engine =>
    refine ⟨⟨live, hlive⟩, ?_⟩
    rw [after_engine hget]
    split
    · rename_i hversioned
      exact ⟨live, hget, hversioned⟩
    · trivial
  | drop => exact ⟨⟨live, hlive.update_scratch none⟩, trivial⟩
  | alter =>
    obtain ⟨e, hserve⟩ | ⟨t, ht, hserve⟩ := serve_addVersionColumn db table
    · rw [hserve]
      exact ⟨⟨live, hlive⟩, trivial⟩
    · cases hget.symm.trans ht
      rw [hserve]
      exact ⟨⟨live.withVersionColumn, Function.update_self .., hlive.originals, hlive.backfilled⟩, trivial⟩
  | create =>
    obtain ⟨e, hserve⟩ | hserve := serve_createAs db (scratchOf table) table
    · rw [hserve]
      exact ⟨⟨live, hlive⟩, trivial⟩
    · rw [hserve]
      exact ⟨⟨live, hlive.update_scratch _⟩, SnapshotTable.emptyVersioned, Function.update_self .., rfl, rfl⟩
  | copy =>
    obtain ⟨t, ht, hversioned, hempty⟩ := hpt
    obtain ⟨e, hserve⟩ | ⟨t', source, copy, ht', hsource, hengine, hrows, hserve⟩ :=
      serve_copyBackfilled db (scratchOf table) table
    · rw [hserve]
      exact ⟨⟨live, hlive⟩, trivial⟩
    · cases ht.symm.trans ht'
      cases hget.symm.trans hsource
      rw [hempty, List.nil_append] at hrows
      rw [hserve]
      exact ⟨⟨live, hlive.update_scratch _⟩, copy, hlive.holdsCopy (hengine.trans hversioned) hrows⟩
  | countOld =>
    obtain ⟨e, hserve⟩ | ⟨t, _, hserve⟩ := serve_count db table
    · rw [hserve]
      exact ⟨⟨live, hlive⟩, trivial⟩
    · rw [hserve]
      exact ⟨⟨live, hlive⟩, hpt⟩
  | countNew oldRows =>
    obtain ⟨e, hserve⟩ | ⟨t, _, hserve⟩ := serve_count db (scratchOf table)
    · rw [hserve]
      exact ⟨⟨live, hlive⟩, trivial⟩
    · rw [hserve]
      refine ⟨⟨live, hlive⟩, ?_⟩
      simp only [after]
      split
      · trivial
      · exact hpt
  | exchange =>
    obtain ⟨copy, hcopy⟩ := hpt
    obtain ⟨e, hserve⟩ | ⟨t, o, ht, ho, hserve⟩ := serve_exchange db table (scratchOf table)
    · rw [hserve]
      exact ⟨⟨live, hlive⟩, trivial⟩
    · cases hcopy.get.symm.trans ho
      rw [hserve]
      have hswapped : Function.update (Function.update db table (some copy)) (scratchOf table) (some t) table =
          some copy := by
        rw [Function.update_of_ne hne.symm, Function.update_self]
      exact ⟨⟨copy, hswapped, hcopy.originals, fun _ => hcopy.backfilled⟩, copy, hswapped, hcopy.versioned⟩
  | dropOld =>
    obtain ⟨now, hnow, hversioned⟩ := hpt
    exact ⟨⟨live, hlive.update_scratch none⟩, now, (Function.update_of_ne hne.symm _ _).trans hnow, hversioned⟩

section merges
variable {table : String} {rows : List ReportSnapshot} {db db' : Database} (hk : DistinctKeys rows)
  (hm : BackgroundMerges db db')
include hk hm

theorem KeepsOriginals.merges {live : SnapshotTable} (h : KeepsOriginals table rows db live) :
    KeepsOriginals table rows db' live :=
  ⟨hm.get h.get (h.originals.distinctKeys hk), h.originals, h.backfilled⟩

theorem MigrationPoint.Reached.merges {live : SnapshotTable} (hlive : KeepsOriginals table rows db live)
    {pt : MigrationPoint} (h : pt.Reached table rows db) : pt.Reached table rows db' := by
  cases pt with
  | engine | drop | alter | create => trivial
  | copy =>
    obtain ⟨t, ht, hversioned, hempty⟩ := h
    exact ⟨t, hm.get ht (by rw [hempty]; exact List.nodup_nil), hversioned, hempty⟩
  | countOld | countNew | exchange =>
    obtain ⟨t, ht⟩ := h
    exact ⟨t, hm.get ht.get (ht.originals.distinctKeys hk), ht.versioned, ht.originals, ht.backfilled⟩
  | dropOld =>
    obtain ⟨now, hnow, hversioned⟩ := h
    rw [hlive.get] at hnow
    cases hnow
    exact ⟨live, (hlive.merges hk hm).get, hversioned⟩

theorem MigrationProgress.Reached.merges {live : SnapshotTable} (hlive : KeepsOriginals table rows db live)
    {pr : MigrationProgress} (h : pr.Reached table rows db) : pr.Reached table rows db' := by
  cases pr with
  | next pt => exact MigrationPoint.Reached.merges hk hm hlive h
  | returned b =>
    have hdropOld : MigrationPoint.dropOld.Reached table rows db := h
    exact hdropOld.merges hk hm hlive
  | failed e => trivial

end merges

/-- Wherever an attempt is stopped, the rows are there and its point is what it relies on. -/
theorem attempt_keeps {table : String} {rows : List ReportSnapshot} (hk : DistinctKeys rows) {db db' : Database}
    {live : SnapshotTable} (hlive : KeepsOriginals table rows db live) {made : List SnapshotStatement}
    {q : MigrationSession Bool}
    (h : Reaches serveStatement BackgroundMerges (migrateReportSnapshots table) db made q db') :
    ∃ pr : MigrationProgress, q = pr.session table ∧ pr.Reached table rows db' ∧
      ∃ live', KeepsOriginals table rows db' live' := by
  induction h with
  | start => exact ⟨.next .engine, rfl, trivial, live, hlive⟩
  | ask _ ih =>
    obtain ⟨pr, hq, hpr, live', hlive'⟩ := ih
    cases pr with
    | next pt =>
      rw [MigrationProgress.session, MigrationPoint.program_eq] at hq
      cases hq
      obtain ⟨hkept, hnext⟩ := MigrationPoint.statement_keeps hlive' hpr
      exact ⟨_, rfl, hnext, hkept⟩
    | returned b => cases hq
    | failed e => cases hq
  | settle _ hm ih =>
    obtain ⟨pr, hq, hpr, live', hlive'⟩ := ih
    exact ⟨pr, hq, hpr.merges hk hm hlive', live', hlive'.merges hk hm⟩

def Versioned (table : String) (db : Database) : Prop :=
  ∃ live, db table = some live ∧ live.engine = .versioned

/-- An attempt at a versioned table asks for its engine and is done. -/
theorem attempt_versioned {table : String} {db db' : Database} (hv : Versioned table db)
    {made : List SnapshotStatement} {q : MigrationSession Bool}
    (h : Reaches serveStatement BackgroundMerges (migrateReportSnapshots table) db made q db') :
    Versioned table db' ∧ (made = [] ∧ q = migrateReportSnapshots table ∨
      made = [.engineFull table] ∧ q = .done false) := by
  induction h with
  | start => exact ⟨hv, Or.inl ⟨rfl, rfl⟩⟩
  | ask _ ih =>
    obtain ⟨⟨live, hget, hversioned⟩, ⟨rfl, hq⟩ | ⟨_, hq⟩⟩ := ih
    · have hprogram := MigrationPoint.program_eq table .engine
      rw [MigrationPoint.program, ← hq] at hprogram
      cases hprogram
      refine ⟨⟨live, hget, hversioned⟩, Or.inr ⟨rfl, ?_⟩⟩
      change MigrationProgress.session table (MigrationPoint.engine.after table
        (serveStatement (.engineFull table) _).1) = _
      rw [MigrationPoint.after_engine hget, if_pos hversioned]
      rfl
    · cases hq
  | settle _ hm ih =>
    obtain ⟨⟨live, hget, hversioned⟩, hq⟩ := ih
    have hmerged := hm table
    rw [hget] at hmerged
    refine ⟨?_, hq⟩
    rename_i t' _
    cases hget' : t' table with
    | none =>
      rw [hget'] at hmerged
      exact hmerged.elim
    | some live' =>
      rw [hget'] at hmerged
      exact ⟨live', hget', hmerged.1.trans hversioned⟩

/-- An attempt that returned leaves a versioned table. -/
theorem attempt_returned {table : String} {rows : List ReportSnapshot} (hk : DistinctKeys rows)
    {db db' : Database} {live : SnapshotTable} (hlive : KeepsOriginals table rows db live)
    {made : List SnapshotStatement} {b : Bool}
    (h : Reaches serveStatement BackgroundMerges (migrateReportSnapshots table) db made (.done b) db') :
    Versioned table db' := by
  obtain ⟨pr, hq, hpr, _⟩ := attempt_keeps hk hlive h
  cases pr with
  | next pt =>
    rw [MigrationProgress.session, MigrationPoint.program_eq] at hq
    cases hq
  | returned b => exact hpr
  | failed e => cases hq

/-- Any number of stopped attempts keeps the rows; once one returned the table is versioned. -/
theorem attempts_keep {table : String} {rows : List ReportSnapshot} (hk : DistinctKeys rows) {db db' : Database}
    {live : SnapshotTable} (hlive : KeepsOriginals table rows db live) {attempts : List (MigrationSession Bool)}
    (h : Restarts serveStatement BackgroundMerges (migrateReportSnapshots table) db attempts db') :
    (∃ live', KeepsOriginals table rows db' live') ∧ ((∃ b, .done b ∈ attempts) → Versioned table db') := by
  induction h with
  | none => exact ⟨⟨live, hlive⟩, fun ⟨_, hb⟩ => absurd hb List.not_mem_nil⟩
  | next _ hr ih =>
    obtain ⟨⟨live', hlive'⟩, hversioned⟩ := ih
    obtain ⟨_, _, _, hkept⟩ := attempt_keeps hk hlive' hr
    refine ⟨hkept, ?_⟩
    intro ⟨b, hb⟩
    rcases List.mem_append.mp hb with hb | hb
    · exact (attempt_versioned (hversioned ⟨b, hb⟩) hr).1
    · rw [List.mem_singleton] at hb
      subst hb
      exact attempt_returned hk hlive' hr

/-- Over an un-versioned table with distinct sort keys, after any attempts stopped anywhere
and wherever the current one stands: the live table holds the original rows. Once an attempt
has returned it is versioned and backfilled, and a later one returns `false` without a drop. -/
theorem migration_crash_safe {table : String} {db s t : Database} {live : SnapshotTable}
    (hget : db table = some live) (hplain : live.engine = .plain) (hk : DistinctKeys live.rows)
    {attempts : List (MigrationSession Bool)} {made : List SnapshotStatement} {q : MigrationSession Bool}
    (ha : Restarts serveStatement BackgroundMerges (migrateReportSnapshots table) db attempts s)
    (hr : Reaches serveStatement BackgroundMerges (migrateReportSnapshots table) s made q t) :
    ∃ now, t table = some now ∧ SameOriginals now.rows live.rows ∧
      ((∃ b, .done b ∈ attempts ++ [q]) → now.engine = .versioned ∧ Backfilled now.rows) ∧
      ((∃ b, .done b ∈ attempts) →
        (∀ name, .dropIfExists name ∉ made) ∧ ∀ b, q = .done b → b = false) := by
  have hlive : KeepsOriginals table live.rows db live :=
    ⟨hget, SameOriginals.refl _, fun hv => absurd (hplain.symm.trans hv) nofun⟩
  obtain ⟨⟨now, hnow⟩, hversioned⟩ := attempts_keep hk hlive (ha.next hr)
  refine ⟨now, hnow.get, hnow.originals, ?_, ?_⟩
  · intro hdone
    obtain ⟨now', hget', hengine⟩ := hversioned hdone
    rw [hnow.get] at hget'
    cases hget'
    exact ⟨hengine, hnow.backfilled hengine⟩
  · intro hdone
    obtain ⟨_, ⟨rfl, rfl⟩ | ⟨rfl, rfl⟩⟩ := attempt_versioned ((attempts_keep hk hlive ha).2 hdone) hr
    · refine ⟨fun _ => List.not_mem_nil, fun b hb => ?_⟩
      have hprogram := MigrationPoint.program_eq table .engine
      rw [MigrationPoint.program, hb] at hprogram
      cases hprogram
    · refine ⟨fun name hname => ?_, fun b hb => by cases hb; rfl⟩
      rw [List.mem_singleton] at hname
      cases hname

section sample

def snapshotRow (reportedAt : Int) (campaignId : String) : ReportSnapshot where
  reportedAt := reportedAt
  campaignId := campaignId
  period := "all"
  spend := 100
  revenue := 5000
  conversions := 1
  purchases := 1
  exposures := 1
  roas := none
  cpa := none
  cvr := none
  siteVisitRate := none
  snapshotVersion := 0

def plainTable : SnapshotTable where
  engine := .plain
  versionColumn := false
  rows := [snapshotRow 1 "camp-a", snapshotRow 2 "camp-b"]
  unversioned _ := by decide
  named := nofun

def plainDatabase : Database := fun name => if name = "report_snapshots" then some plainTable else none

/-- What a run alone has come to after `n` statements. -/
abbrev soloMigration (n : Nat) (db : Database) : List SnapshotStatement × MigrationSession Bool × Database :=
  served serveStatement n (migrateReportSnapshots "report_snapshots") db

/-- A crash right after the exchange, then an attempt that finds the table versioned. -/
theorem migration_crash_safe_sample :
    ∃ now, (soloMigration 1 (soloMigration 8 plainDatabase).2.2).2.2 "report_snapshots" = some now ∧
      SameOriginals now.rows plainTable.rows ∧
      ((∃ b, .done b ∈ [(soloMigration 8 plainDatabase).2.1] ++
          [(soloMigration 1 (soloMigration 8 plainDatabase).2.2).2.1]) →
        now.engine = .versioned ∧ Backfilled now.rows) ∧
      ((∃ b, .done b ∈ [(soloMigration 8 plainDatabase).2.1]) →
        (∀ name, .dropIfExists name ∉ (soloMigration 1 (soloMigration 8 plainDatabase).2.2).1) ∧
        ∀ b, (soloMigration 1 (soloMigration 8 plainDatabase).2.2).2.1 = .done b → b = false) :=
  migration_crash_safe (show plainDatabase "report_snapshots" = some plainTable from rfl) rfl
    (by unfold DistinctKeys; decide)
    (.next .none (reaches_served 8 (migrateReportSnapshots "report_snapshots") plainDatabase))
    (reaches_served 1 (migrateReportSnapshots "report_snapshots") (soloMigration 8 plainDatabase).2.2)

end sample
end CtvAttribution
