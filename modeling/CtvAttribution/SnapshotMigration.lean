import CtvAttribution.Library.Session
import CtvAttribution.ReportHistory
import Mathlib.Data.List.Infix

/-! The migration of report_snapshots to a versioned engine, statement by statement: a copy
is made beside the live table, counted, exchanged with it and dropped. -/
namespace CtvAttribution
open Library

/-- A row without its version, as the table held it before it had that column. -/
def ReportSnapshot.original (r : ReportSnapshot) : ReportSnapshot := { r with snapshotVersion := 0 }

/-- `* replace (reported_at as snapshot_version)`. -/
def ReportSnapshot.backfilled (r : ReportSnapshot) : ReportSnapshot := { r with snapshotVersion := r.reportedAt }

inductive SnapshotEngine where
  | plain
  | versioned
  deriving DecidableEq, Repr

/-- Its `engine_full`. -/
def SnapshotEngine.full : SnapshotEngine → String
  | .plain => "ReplacingMergeTree ORDER BY (reported_at, campaign_id, period) SETTINGS index_granularity = 8192"
  | .versioned => "ReplacingMergeTree(snapshot_version) ORDER BY (reported_at, campaign_id, period) " ++
      "SETTINGS index_granularity = 8192"

/-- Without the column no version is stored; the engine can name it only when it is there. -/
structure SnapshotTable where
  engine : SnapshotEngine
  versionColumn : Bool
  rows : List ReportSnapshot
  unversioned : versionColumn = false → ∀ r ∈ rows, r.snapshotVersion = 0
  named : engine = .versioned → versionColumn = true

abbrev Database : Type := String → Option SnapshotTable

/-- The errors of the statements the migration issues. -/
inductive DbError where
  | unknownTable (table : String)
  | tableAlreadyExists (table : String)
  | unknownColumn (column : String)
  | numberOfColumns (table : String)
  deriving DecidableEq, Repr

inductive SnapshotStatement where
  | engineFull (table : String)
  | dropIfExists (table : String)
  | addVersionColumn (table : String)
  | createAs (table like : String)
  | copyBackfilled (target source : String)
  | count (table : String)
  | exchange (table other : String)
  | insert (table : String) (rows : List ReportSnapshot)
  deriving DecidableEq

namespace SnapshotStatement

/-- What a statement returns: the matching `engine_full` values, a count, or nothing. -/
@[reducible] def Result : SnapshotStatement → Type
  | .engineFull _ => List String
  | .count _ => Nat
  | _ => Unit

@[reducible] def Answer (stmt : SnapshotStatement) : Type := Except DbError stmt.Result

end SnapshotStatement

namespace SnapshotTable
variable (t : SnapshotTable)

/-- `add column if not exists`: rows read the column's default. -/
def withVersionColumn : SnapshotTable where
  engine := t.engine
  versionColumn := true
  rows := t.rows
  unversioned := nofun
  named _ := rfl

/-- An empty versioned table with the columns of one that has the version. -/
def emptyVersioned : SnapshotTable where
  engine := .versioned
  versionColumn := true
  rows := []
  unversioned := nofun
  named _ := rfl

/-- Rows with their version appended; the table must have the column. -/
def append (rows : List ReportSnapshot) (h : t.versionColumn = true) : SnapshotTable where
  engine := t.engine
  versionColumn := t.versionColumn
  rows := t.rows ++ rows
  unversioned hno := absurd (h.symm.trans hno) nofun
  named := t.named

end SnapshotTable

/-- One statement, served atomically; a failed one changes nothing. -/
def serveStatement : (stmt : SnapshotStatement) → Database → stmt.Answer × Database
  | .engineFull table, db => (.ok ((db table).toList.map fun t => t.engine.full), db)
  | .dropIfExists table, db => (.ok (), Function.update db table none)
  | .addVersionColumn table, db =>
    match db table with
    | none => (.error (.unknownTable table), db)
    | some t => (.ok (), Function.update db table (some t.withVersionColumn))
  | .createAs table like, db =>
    match db like with
    | none => (.error (.unknownTable like), db)
    | some l =>
      if (db table).isSome then (.error (.tableAlreadyExists table), db)
      else if l.versionColumn = false then (.error (.unknownColumn "snapshot_version"), db)
      else (.ok (), Function.update db table (some SnapshotTable.emptyVersioned))
  | .copyBackfilled target source, db =>
    match db target, db source with
    | none, _ => (.error (.unknownTable target), db)
    | _, none => (.error (.unknownTable source), db)
    | some t, some s =>
      if h : t.versionColumn = true ∧ s.versionColumn = true then
        (.ok (), Function.update db target (some (t.append (s.rows.map ReportSnapshot.backfilled) h.1)))
      else (.error (.numberOfColumns target), db)
  | .count table, db =>
    match db table with
    | none => (.error (.unknownTable table), db)
    | some t => (.ok t.rows.length, db)
  | .exchange table other, db =>
    match db table, db other with
    | some t, some o => (.ok (), Function.update (Function.update db table (some o)) other (some t))
    | none, _ => (.error (.unknownTable table), db)
    | _, none => (.error (.unknownTable other), db)
  | .insert table rows, db =>
    match db table with
    | none => (.error (.unknownTable table), db)
    | some t =>
      if h : t.versionColumn = true then (.ok (), Function.update db table (some (t.append rows h)))
      else (.error (.numberOfColumns table), db)

section served
variable (db : Database) (table other : String)

/-- A failed statement changes nothing; otherwise it did what it is for. -/
theorem serve_addVersionColumn : (∃ e, serveStatement (.addVersionColumn table) db = (.error e, db)) ∨
    ∃ t, db table = some t ∧
      serveStatement (.addVersionColumn table) db = (.ok (), Function.update db table (some t.withVersionColumn)) := by
  simp only [serveStatement]
  split
  · exact Or.inl ⟨_, rfl⟩
  · rename_i t ht
    exact Or.inr ⟨t, ht, rfl⟩

theorem serve_createAs : (∃ e, serveStatement (.createAs table other) db = (.error e, db)) ∨
    serveStatement (.createAs table other) db =
      (.ok (), Function.update db table (some SnapshotTable.emptyVersioned)) := by
  simp only [serveStatement]
  split
  · exact Or.inl ⟨_, rfl⟩
  split
  · exact Or.inl ⟨_, rfl⟩
  split
  · exact Or.inl ⟨_, rfl⟩
  · exact Or.inr rfl

theorem serve_copyBackfilled : (∃ e, serveStatement (.copyBackfilled table other) db = (.error e, db)) ∨
    ∃ t source copy, db table = some t ∧ db other = some source ∧ copy.engine = t.engine ∧
      copy.rows = t.rows ++ source.rows.map ReportSnapshot.backfilled ∧
      serveStatement (.copyBackfilled table other) db = (.ok (), Function.update db table (some copy)) := by
  simp only [serveStatement]
  split
  · exact Or.inl ⟨_, rfl⟩
  · exact Or.inl ⟨_, rfl⟩
  · rename_i t source ht hsource
    split
    · rename_i hcols
      exact Or.inr ⟨t, source, t.append _ hcols.1, ht, hsource, rfl, rfl, rfl⟩
    · exact Or.inl ⟨_, rfl⟩

theorem serve_count : (∃ e, serveStatement (.count table) db = (.error e, db)) ∨
    ∃ t, db table = some t ∧ serveStatement (.count table) db = (.ok t.rows.length, db) := by
  simp only [serveStatement]
  split
  · exact Or.inl ⟨_, rfl⟩
  · rename_i t ht
    exact Or.inr ⟨t, ht, rfl⟩

theorem serve_exchange : (∃ e, serveStatement (.exchange table other) db = (.error e, db)) ∨
    ∃ t o, db table = some t ∧ db other = some o ∧ serveStatement (.exchange table other) db =
      (.ok (), Function.update (Function.update db table (some o)) other (some t)) := by
  simp only [serveStatement]
  split
  · rename_i t o ht ho
    exact Or.inr ⟨t, o, ht, ho, rfl⟩
  · exact Or.inl ⟨_, rfl⟩
  · exact Or.inl ⟨_, rfl⟩

theorem serve_insert (rows : List ReportSnapshot) :
    (∃ e, serveStatement (.insert table rows) db = (.error e, db)) ∨
      ∃ t inserted, db table = some t ∧ inserted.rows = t.rows ++ rows ∧
        serveStatement (.insert table rows) db = (.ok (), Function.update db table (some inserted)) := by
  simp only [serveStatement]
  split
  · exact Or.inl ⟨_, rfl⟩
  · rename_i t ht
    split
    · rename_i hcol
      exact Or.inr ⟨t, t.append rows hcol, ht, rfl, rfl⟩
    · exact Or.inl ⟨_, rfl⟩

end served

/-- What a run fails with. -/
inductive MigrationFailure where
  | database (e : DbError)
  | migrationError (message : String)
  deriving DecidableEq, Repr

abbrev MigrationSession (α : Type) : Type := Session SnapshotStatement SnapshotStatement.Answer MigrationFailure α

/-- A statement through the client: its error is raised. -/
def execute (stmt : SnapshotStatement) : MigrationSession stmt.Result :=
  .ask stmt fun
    | .ok result => .done result
    | .error e => .fail (.database e)

/-- `_scratch`. -/
def scratchOf (table : String) : String := table ++ "_v2"

/-- `_engine_full`: empty for an absent table. -/
def engineFull (table : String) : MigrationSession String := do
  let rows ← execute (.engineFull table)
  return rows.head?.getD ""

/-- `part in text`. -/
def mentions (part text : String) : Bool := decide (part.toList <:+: text.toList)

/-- The guard: an absent table, or one whose engine takes arguments, is left alone. -/
def leavesAlone (engine : String) : Bool := engine = "" || mentions "ReplacingMergeTree(" engine

def shortCopy (table : String) (oldRows newRows : Nat) : String :=
  s!"{table}: copied {newRows} of {oldRows} rows — refusing to exchange"

/-- `migrate_report_snapshots`. -/
def migrateReportSnapshots (table : String) : MigrationSession Bool := do
  let engine ← engineFull table
  if leavesAlone engine then return false
  else
    let scratch := scratchOf table
    execute (.dropIfExists scratch)
    execute (.addVersionColumn table)
    execute (.createAs scratch table)
    execute (.copyBackfilled scratch table)
    let oldRows ← execute (.count table)
    let newRows ← execute (.count scratch)
    if oldRows ≠ newRows then .fail (.migrationError (shortCopy table oldRows newRows))
    else
      execute (.exchange table scratch)
      execute (.dropIfExists scratch)
      return true

/-- The end of `apply`, once the DDL was applied. -/
def applyMigration (table : String) : MigrationSession Unit := do
  let _ ← migrateReportSnapshots table

/-- `write_report_snapshot`, its rows computed from the other tables. -/
def insertSnapshots (table : String) (rows : List ReportSnapshot) : MigrationSession Unit :=
  execute (.insert table rows)

/-- The statements of a run, each at the point where it comes next. -/
inductive MigrationPoint where
  | engine
  | drop
  | alter
  | create
  | copy
  | countOld
  | countNew (oldRows : Nat)
  | exchange
  | dropOld

/-- Where a run is after a statement. -/
inductive MigrationProgress where
  | next (point : MigrationPoint)
  | returned (migrated : Bool)
  | failed (e : MigrationFailure)

namespace MigrationPoint

@[reducible] def statement (table : String) : MigrationPoint → SnapshotStatement
  | .engine => .engineFull table
  | .drop => .dropIfExists (scratchOf table)
  | .alter => .addVersionColumn table
  | .create => .createAs (scratchOf table) table
  | .copy => .copyBackfilled (scratchOf table) table
  | .countOld => .count table
  | .countNew _ => .count (scratchOf table)
  | .exchange => .exchange table (scratchOf table)
  | .dropOld => .dropIfExists (scratchOf table)

/-- Where the answer leads. -/
def after (table : String) : (pt : MigrationPoint) → (pt.statement table).Answer → MigrationProgress
  | _, .error e => .failed (.database e)
  | .engine, .ok names => if leavesAlone (names.head?.getD "") then .returned false else .next .drop
  | .drop, .ok _ => .next .alter
  | .alter, .ok _ => .next .create
  | .create, .ok _ => .next .copy
  | .copy, .ok _ => .next .countOld
  | .countOld, .ok oldRows => .next (.countNew oldRows)
  | .countNew oldRows, .ok newRows =>
    if oldRows ≠ newRows then .failed (.migrationError (shortCopy table oldRows newRows)) else .next .exchange
  | .exchange, .ok _ => .next .dropOld
  | .dropOld, .ok _ => .returned true

section program
variable (table : String)

def fromDropOld : MigrationSession Bool := do
  execute (.dropIfExists (scratchOf table))
  return true

def fromExchange : MigrationSession Bool := do
  execute (.exchange table (scratchOf table))
  fromDropOld table

def fromCountNew (oldRows : Nat) : MigrationSession Bool := do
  let newRows ← execute (.count (scratchOf table))
  if oldRows ≠ newRows then .fail (.migrationError (shortCopy table oldRows newRows)) else fromExchange table

def fromCountOld : MigrationSession Bool := do
  let oldRows ← execute (.count table)
  fromCountNew table oldRows

def fromCopy : MigrationSession Bool := do
  execute (.copyBackfilled (scratchOf table) table)
  fromCountOld table

def fromCreate : MigrationSession Bool := do
  execute (.createAs (scratchOf table) table)
  fromCopy table

def fromAlter : MigrationSession Bool := do
  execute (.addVersionColumn table)
  fromCreate table

def fromDrop : MigrationSession Bool := do
  execute (.dropIfExists (scratchOf table))
  fromAlter table

/-- What is left of a run at a point. -/
def program : MigrationPoint → MigrationSession Bool
  | .engine => migrateReportSnapshots table
  | .drop => fromDrop table
  | .alter => fromAlter table
  | .create => fromCreate table
  | .copy => fromCopy table
  | .countOld => fromCountOld table
  | .countNew oldRows => fromCountNew table oldRows
  | .exchange => fromExchange table
  | .dropOld => fromDropOld table

end program

end MigrationPoint

/-- What is left of a run after a statement. -/
def MigrationProgress.session (table : String) : MigrationProgress → MigrationSession Bool
  | .next point => point.program table
  | .returned migrated => .done migrated
  | .failed e => .fail e

/-- A run is the machine of its points: each asks its statement and goes on where the answer
leads. -/
theorem MigrationPoint.program_eq (table : String) (pt : MigrationPoint) :
    pt.program table = .ask (pt.statement table) fun answer => (pt.after table answer).session table := by
  cases pt with
  | engine =>
    refine congrArg (Session.ask _) (funext fun answer => ?_)
    cases answer with
    | error e => rfl
    | ok names =>
      change (if leavesAlone (names.head?.getD "") = true then (.done false : MigrationSession Bool)
        else MigrationPoint.fromDrop table) = MigrationProgress.session table
          (if leavesAlone (names.head?.getD "") = true then .returned false else .next .drop)
      split <;> rfl
  | countNew oldRows =>
    refine congrArg (Session.ask _) (funext fun answer => ?_)
    cases answer with
    | error e => rfl
    | ok newRows =>
      change (if oldRows ≠ newRows then (.fail (.migrationError (shortCopy table oldRows newRows)) : MigrationSession Bool)
        else MigrationPoint.fromExchange table) = MigrationProgress.session table
          (if oldRows ≠ newRows then .failed (.migrationError (shortCopy table oldRows newRows)) else .next .exchange)
      split <;> rfl
  | drop | alter | create | copy | countOld | exchange | dropOld =>
    refine congrArg (Session.ask _) (funext fun answer => ?_)
    cases answer <;> rfl

theorem scratchOf_ne (table : String) : scratchOf table ≠ table := by
  intro h
  have hlen := congrArg String.length h
  rw [scratchOf, String.length_append] at hlen
  have : "_v2".length = 3 := rfl
  omega

private theorem leavesAlone_full (engine : SnapshotEngine) : leavesAlone engine.full = true ↔ engine = .versioned := by
  cases engine <;> decide +kernel

/-- The guard lets exactly the un-versioned table through. -/
theorem MigrationPoint.after_engine {table : String} {db : Database} {live : SnapshotTable}
    (hget : db table = some live) :
    MigrationPoint.engine.after table (serveStatement (.engineFull table) db).1 =
      if live.engine = .versioned then .returned false else .next .drop := by
  rw [serveStatement, hget]
  change (if leavesAlone live.engine.full = true then (.returned false : MigrationProgress)
    else .next .drop) = _
  simp only [leavesAlone_full]

end CtvAttribution
