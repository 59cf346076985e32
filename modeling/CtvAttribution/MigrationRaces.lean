import CtvAttribution.Library.Parties
import CtvAttribution.MigrationCrashes

/-! Migrations beside each other and beside writers. The counts compare two tables at two
times, and the scratch name is shared: rows are kept as long as no statement falls into
another run's window between its counts and its exchange. -/
namespace CtvAttribution
open Library

/-- The database, and the rows inserted into the live table so far. -/
structure SharedTables where
  db : Database
  inserted : List ReportSnapshot

/-- The rows a successful insert added to the table. -/
def insertedBy (table : String) : (stmt : SnapshotStatement) → stmt.Answer → List ReportSnapshot
  | .insert name rows, .ok _ => if name = table then rows else []
  | _, _ => []

def serveShared (table : String) (stmt : SnapshotStatement) (w : SharedTables) : stmt.Answer × SharedTables :=
  ((serveStatement stmt w.db).1,
    ⟨(serveStatement stmt w.db).2, w.inserted ++ insertedBy table stmt (serveStatement stmt w.db).1⟩)

def rowsAt (db : Database) (name : String) : Option (List ReportSnapshot) := (db name).map SnapshotTable.rows

private theorem rowsAt_of_get {db : Database} {name : String} {t : SnapshotTable} (h : db name = some t) :
    rowsAt db name = some t.rows := by
  rw [rowsAt, h]
  rfl

/-- The statements a run may issue beside others without exposing rows: no insert between
another run's counts and its exchange, no fresh scratch table before another's exchange, and
no copy into a scratch table that holds one. -/
def Unexposed (table : String) (others : List (MigrationSession Unit)) (w : SharedTables) :
    SnapshotStatement → Prop
  | .insert _ _ => ∀ q ∈ others, q.next? ≠ some (.count (scratchOf table)) ∧
      q.next? ≠ some (.exchange table (scratchOf table))
  | .createAs _ _ => ∀ q ∈ others, q.next? ≠ some (.exchange table (scratchOf table))
  | .copyBackfilled target _ => rowsAt w.db target = none ∨ rowsAt w.db target = some []
  | _ => True

instance (table : String) (others : List (MigrationSession Unit)) (w : SharedTables) (stmt : SnapshotStatement) :
    Decidable (Unexposed table others w stmt) := by
  cases stmt <;> unfold Unexposed <;> exact inferInstance

/-- What a statement does to the live table and the scratch table. -/
inductive Effect (table : String) (db db' : Database) : SnapshotStatement → Prop where
  | same {stmt : SnapshotStatement} (hlive : rowsAt db' table = rowsAt db table)
      (hscratch : rowsAt db' (scratchOf table) = rowsAt db (scratchOf table)) : Effect table db db' stmt
  | dropped {stmt : SnapshotStatement} (hlive : rowsAt db' table = rowsAt db table)
      (hscratch : rowsAt db' (scratchOf table) = none) : Effect table db db' stmt
  | created {name like : String} (hlive : rowsAt db' table = rowsAt db table)
      (hscratch : rowsAt db' (scratchOf table) = some []) : Effect table db db' (.createAs name like)
  | copied {stmt : SnapshotStatement} {live copy : List ReportSnapshot} (hbefore : rowsAt db table = some live)
      (hlive : rowsAt db' table = rowsAt db table) (hscratch : rowsAt db' (scratchOf table) = some copy)
      (hsame : SameOriginals copy live) : Effect table db db' stmt
  | exchanged {stmt : SnapshotStatement} {live copy : List ReportSnapshot} (hbefore : rowsAt db table = some live)
      (hlive : rowsAt db' table = some copy) (hscratch : rowsAt db' (scratchOf table) = some live)
      (hsame : SameOriginals copy live) : Effect table db db' stmt
  | inserted {name : String} {live new : List ReportSnapshot} (hbefore : rowsAt db table = some live)
      (hlive : rowsAt db' table = some (live ++ new))
      (hscratch : rowsAt db' (scratchOf table) = rowsAt db (scratchOf table)) :
      Effect table db db' (.insert name new)

/-- The scratch table holds no more than the live one. -/
def ScratchWithin (table : String) (db : Database) : Prop :=
  ∀ copy live, rowsAt db (scratchOf table) = some copy → rowsAt db table = some live →
    (copy.map ReportSnapshot.original).Subperm (live.map ReportSnapshot.original)

def ScratchMatches (table : String) (db : Database) : Prop :=
  ∀ copy live, rowsAt db (scratchOf table) = some copy → rowsAt db table = some live → SameOriginals copy live

/-- What a run at a point can count on, whatever the others do. -/
def MigrationPoint.Sound (table : String) (db : Database) : MigrationPoint → Prop
  | .copy | .countOld => ScratchWithin table db
  | .countNew oldRows => ScratchWithin table db ∧ ∀ live, rowsAt db table = some live → oldRows = live.length
  | .exchange => ScratchMatches table db
  | _ => True

def MigrationProgress.Sound (table : String) (db : Database) : MigrationProgress → Prop
  | .next point => point.Sound table db
  | _ => True

/-- The statement does not fall into the window of a run at the point. -/
def Spares : SnapshotStatement → MigrationPoint → Prop
  | .insert _ _, .countNew _ | .insert _ _, .exchange | .createAs _ _, .exchange => False
  | _, _ => True

theorem SameOriginals.symm {rows rows' : List ReportSnapshot} (h : SameOriginals rows rows') :
    SameOriginals rows' rows := List.Perm.symm h

theorem SameOriginals.length_eq {rows rows' : List ReportSnapshot} (h : SameOriginals rows rows') :
    rows.length = rows'.length := by
  simpa using List.Perm.length_eq h

section effect
variable {table : String} {db db' : Database} {stmt : SnapshotStatement}

theorem ScratchMatches.within (h : ScratchMatches table db) : ScratchWithin table db :=
  fun copy live hcopy hlive => List.Perm.subperm (h copy live hcopy hlive)

private theorem ScratchMatches.of_rows {copy live : List ReportSnapshot}
    (hcopy : rowsAt db (scratchOf table) = some copy) (hlive : rowsAt db table = some live)
    (h : SameOriginals copy live) : ScratchMatches table db := by
  intro copy' live' hcopy' hlive'
  cases hcopy.symm.trans hcopy'
  cases hlive.symm.trans hlive'
  exact h

theorem Effect.within (h : Effect table db db' stmt) (hw : ScratchWithin table db) : ScratchWithin table db' := by
  cases h with
  | same hlive hscratch =>
    intro copy live hcopy hl
    exact hw copy live (hscratch ▸ hcopy) (hlive ▸ hl)
  | dropped hlive hscratch =>
    intro copy live hcopy hl
    cases hscratch.symm.trans hcopy
  | created hlive hscratch =>
    intro copy live hcopy hl
    cases hscratch.symm.trans hcopy
    exact List.nil_subperm
  | copied hbefore hlive hscratch hsame => exact (ScratchMatches.of_rows hscratch (hlive.trans hbefore) hsame).within
  | exchanged hbefore hlive hscratch hsame => exact (ScratchMatches.of_rows hscratch hlive hsame.symm).within
  | inserted hbefore hlive hscratch =>
    rename_i live new
    intro copy live' hcopy hl
    cases hlive.symm.trans hl
    rw [List.map_append]
    exact (hw copy live (hscratch ▸ hcopy) hbefore).trans (List.sublist_append_left _ _).subperm

/-- Another run's point stays sound unless the statement falls into its window. -/
theorem Effect.sound (h : Effect table db db' stmt) {pt : MigrationPoint} (hs : Spares stmt pt)
    (hpt : pt.Sound table db) : pt.Sound table db' := by
  cases pt with
  | engine | drop | alter | create | dropOld => trivial
  | copy | countOld => exact h.within hpt
  | countNew oldRows =>
    refine ⟨h.within hpt.1, fun now hnow => ?_⟩
    cases h with
    | same hlive | dropped hlive | created hlive | copied _ hlive => exact hpt.2 now (hlive ▸ hnow)
    | exchanged hbefore hlive _ hsame =>
      cases hlive.symm.trans hnow
      exact (hpt.2 _ hbefore).trans hsame.length_eq.symm
    | inserted => exact hs.elim
  | exchange =>
    cases h with
    | same hlive hscratch =>
      intro copy live hcopy hl
      exact hpt copy live (hscratch ▸ hcopy) (hlive ▸ hl)
    | dropped _ hscratch =>
      intro copy live hcopy _
      cases hscratch.symm.trans hcopy
    | copied hbefore hlive hscratch hsame => exact .of_rows hscratch (hlive.trans hbefore) hsame
    | exchanged _ hlive hscratch hsame => exact .of_rows hscratch hlive hsame.symm
    | created | inserted => exact hs.elim

end effect

private theorem rowsAt_update_self (db : Database) (name : String) (t : Option SnapshotTable) :
    rowsAt (Function.update db name t) name = t.map SnapshotTable.rows := by
  rw [rowsAt, Function.update_self]

private theorem rowsAt_update_of_ne (db : Database) {name other : String} (h : other ≠ name)
    (t : Option SnapshotTable) :
    rowsAt (Function.update db name t) other = rowsAt db other := by
  rw [rowsAt, Function.update_of_ne h, rowsAt]

/-- What the statement of each point does, a copy only ever filling an empty table. -/
theorem MigrationPoint.effect {table : String} {db : Database} {pt : MigrationPoint} (hpt : pt.Sound table db)
    (hcopy : pt = .copy → rowsAt db (scratchOf table) = none ∨ rowsAt db (scratchOf table) = some []) :
    Effect table db (serveStatement (pt.statement table) db).2 (pt.statement table) := by
  have hne := scratchOf_ne table
  cases pt with
  | engine => exact .same rfl rfl
  | drop | dropOld => exact .dropped (rowsAt_update_of_ne db hne.symm none) (rowsAt_update_self db _ none)
  | alter =>
    obtain ⟨e, hserve⟩ | ⟨t, ht, hserve⟩ := serve_addVersionColumn db table
    · rw [hserve]
      exact .same rfl rfl
    · rw [hserve]
      refine .same ?_ (rowsAt_update_of_ne db hne _)
      rw [rowsAt_update_self, rowsAt_of_get ht]
      rfl
  | create =>
    obtain ⟨e, hserve⟩ | hserve := serve_createAs db (scratchOf table) table
    · rw [hserve]
      exact .same rfl rfl
    · rw [hserve]
      exact .created (rowsAt_update_of_ne db hne.symm _) (rowsAt_update_self db _ _)
  | copy =>
    obtain ⟨e, hserve⟩ | ⟨t, live, copy, ht, hlive, _, hrows, hserve⟩ :=
      serve_copyBackfilled db (scratchOf table) table
    · rw [hserve]
      exact .same rfl rfl
    · rw [hserve]
      have hempty : t.rows = [] := by
        rcases hcopy rfl with hnone | hnil
        · cases (rowsAt_of_get ht).symm.trans hnone
        · exact Option.some.inj ((rowsAt_of_get ht).symm.trans hnil)
      refine .copied (rowsAt_of_get hlive) (rowsAt_update_of_ne db hne.symm _) (rowsAt_update_self db _ _) ?_
      rw [hrows, hempty, List.nil_append, SameOriginals, map_original_backfilled]
  | countOld =>
    obtain ⟨e, hserve⟩ | ⟨t, _, hserve⟩ := serve_count db table
    · rw [hserve]
      exact .same rfl rfl
    · rw [hserve]
      exact .same rfl rfl
  | countNew =>
    obtain ⟨e, hserve⟩ | ⟨t, _, hserve⟩ := serve_count db (scratchOf table)
    · rw [hserve]
      exact .same rfl rfl
    · rw [hserve]
      exact .same rfl rfl
  | exchange =>
    obtain ⟨e, hserve⟩ | ⟨live, copy, hlive, hscratch, hserve⟩ := serve_exchange db table (scratchOf table)
    · rw [hserve]
      exact .same rfl rfl
    · rw [hserve]
      have hbefore : rowsAt db table = some live.rows := rowsAt_of_get hlive
      refine .exchanged hbefore ?_ (rowsAt_update_self _ _ _)
        (hpt copy.rows live.rows (rowsAt_of_get hscratch) hbefore)
      rw [rowsAt_update_of_ne _ hne.symm, rowsAt_update_self]
      rfl

/-- The next point is sound in turn; a count that agrees makes the copy complete. -/
theorem MigrationPoint.after_sound {table : String} {db : Database} {pt : MigrationPoint} (hpt : pt.Sound table db)
    (hcopy : pt = .copy → rowsAt db (scratchOf table) = none ∨ rowsAt db (scratchOf table) = some []) :
    (pt.after table (serveStatement (pt.statement table) db).1).Sound table
      (serveStatement (pt.statement table) db).2 := by
  have hwithin (h : ScratchWithin table db) :=
    (MigrationPoint.effect hpt hcopy).within h
  cases pt with
  | engine =>
    simp only [serveStatement, after]
    split <;> trivial
  | drop | dropOld => trivial
  | alter =>
    obtain ⟨e, hserve⟩ | ⟨t, _, hserve⟩ := serve_addVersionColumn db table
    · rw [hserve]
      trivial
    · rw [hserve]
      trivial
  | create =>
    obtain ⟨e, hserve⟩ | hserve := serve_createAs db (scratchOf table) table
    · rw [hserve]
      trivial
    · rw [hserve]
      intro copy live hscratch _
      cases (rowsAt_update_self db (scratchOf table) _).symm.trans hscratch
      exact List.nil_subperm
  | copy =>
    cases (serveStatement (copy.statement table) db).1 with
    | error e => trivial
    | ok u => exact hwithin hpt
  | countOld =>
    obtain ⟨e, hserve⟩ | ⟨t, ht, hserve⟩ := serve_count db table
    · rw [hserve]
      trivial
    · rw [hserve]
      refine ⟨hpt, fun live hlive => ?_⟩
      cases (rowsAt_of_get ht).symm.trans hlive
      rfl
  | countNew oldRows =>
    obtain ⟨e, hserve⟩ | ⟨t, ht, hserve⟩ := serve_count db (scratchOf table)
    · rw [hserve]
      trivial
    · rw [hserve]
      simp only [after]
      split
      · trivial
      · rename_i heq
        intro copy live hscratch hlive
        have hsub := hpt.1 copy live hscratch hlive
        cases (rowsAt_of_get ht).symm.trans hscratch
        refine hsub.perm_of_length_le ?_
        rw [List.length_map, List.length_map, ← hpt.2 live hlive]
        exact Nat.le_of_eq (Decidable.not_not.mp heq)
  | exchange =>
    cases (serveStatement (exchange.statement table) db).1 with
    | error e => trivial
    | ok u => trivial

/-- A party beside the others: a run at a sound point, a writer before its insert, or one
that has nothing more to ask. -/
def PartyState (table : String) (w : SharedTables) (p : MigrationSession Unit) : Prop :=
  (∃ pt : MigrationPoint, p = (pt.program table).bind (fun _ => .done ()) ∧ pt.Sound table w.db) ∨
    (∃ rows, p = insertSnapshots table rows) ∨ p.next? = none

/-- Every row there was and every row inserted is in the live table. -/
def KeepsInserted (table : String) (rows : List ReportSnapshot) (w : SharedTables) : Prop :=
  ∃ live, rowsAt w.db table = some live ∧ SameOriginals live (rows ++ w.inserted)

section parties
variable {table : String} {rows : List ReportSnapshot} {w : SharedTables} {stmt : SnapshotStatement}
  {others : List (MigrationSession Unit)}

theorem KeepsInserted.of_effect {db' : Database} (h : KeepsInserted table rows w)
    (he : Effect table w.db db' stmt) (hno : ∀ name new, stmt ≠ .insert name new) :
    KeepsInserted table rows ⟨db', w.inserted⟩ := by
  obtain ⟨live, hlive, hsame⟩ := h
  cases he with
  | same hl | dropped hl | created hl | copied _ hl => exact ⟨live, hl.trans hlive, hsame⟩
  | exchanged hbefore hl _ hs =>
    cases hlive.symm.trans hbefore
    exact ⟨_, hl, hs.trans hsame⟩
  | inserted => exact absurd rfl (hno _ _)

/-- The parties whose window the guard looks at are spared. -/
theorem Unexposed.spares (h : Unexposed table others w stmt) {q : MigrationSession Unit} (hq : q ∈ others)
    {pt : MigrationPoint} (hpt : q = (pt.program table).bind fun _ => .done ()) : Spares stmt pt := by
  have hnext : q.next? = some (pt.statement table) := by
    rw [hpt, MigrationPoint.program_eq]
    rfl
  cases stmt with
  | insert name new =>
    obtain ⟨hcount, hexchange⟩ := h q hq
    cases pt with
    | countNew => exact hcount hnext
    | exchange => exact hexchange hnext
    | engine | drop | alter | create | copy | countOld | dropOld => trivial
  | createAs name like =>
    cases pt with
    | exchange => exact h q hq hnext
    | engine | drop | alter | create | copy | countOld | countNew | dropOld => trivial
  | engineFull | dropIfExists | addVersionColumn | copyBackfilled | count | exchange => cases pt <;> trivial

/-- Another party is left as it was by a statement that spares it. -/
theorem PartyState.of_effect {w' : SharedTables} (he : Effect table w.db w'.db stmt)
    (hu : Unexposed table others w stmt) {q : MigrationSession Unit} (hq : q ∈ others)
    (h : PartyState table w q) : PartyState table w' q := by
  rcases h with ⟨pt, hpt, hsound⟩ | h
  · exact Or.inl ⟨pt, hpt, he.sound (hu.spares hq hpt) hsound⟩
  · exact Or.inr h

private theorem insertedBy_statement (pt : MigrationPoint) (answer : (pt.statement table).Answer) :
    insertedBy table (pt.statement table) answer = [] := by
  cases pt <;> rfl

private theorem insertedBy_error (stmt : SnapshotStatement) (e : DbError) : insertedBy table stmt (.error e) = [] := by
  cases stmt <;> rfl

private theorem effect_insert (db : Database) (new : List ReportSnapshot) :
    Effect table db (serveStatement (.insert table new) db).2 (.insert table new) := by
  obtain ⟨e, hserve⟩ | ⟨t, inserted, ht, hrows, hserve⟩ := serve_insert db table new
  · rw [hserve]
    exact .same rfl rfl
  · rw [hserve]
    refine .inserted (rowsAt_of_get ht) ?_ (rowsAt_update_of_ne db (scratchOf_ne table) _)
    rw [rowsAt_update_self, Option.map_some, hrows]

/-- A party's request has an effect, and leads it to a sound point. -/
theorem PartyState.step {k : stmt.Answer → MigrationSession Unit} (h : PartyState table w (.ask stmt k))
    (hu : Unexposed table others w stmt) : Effect table w.db (serveStatement stmt w.db).2 stmt ∧
      PartyState table (serveShared table stmt w).2 (k (serveShared table stmt w).1) := by
  rcases h with ⟨pt, hpt, hsound⟩ | ⟨new, hnew⟩ | hnone
  · rw [MigrationPoint.program_eq] at hpt
    cases hpt
    have hcopy : pt = .copy → rowsAt w.db (scratchOf table) = none ∨ rowsAt w.db (scratchOf table) = some [] := by
      intro hpt
      subst hpt
      exact hu
    refine ⟨MigrationPoint.effect hsound hcopy, ?_⟩
    have hafter := MigrationPoint.after_sound hsound hcopy
    change PartyState table _ (((pt.after table (serveStatement (pt.statement table) w.db).1).session table).bind _)
    cases hpr : pt.after table (serveStatement (pt.statement table) w.db).1 with
    | next pt' =>
      rw [hpr] at hafter
      exact Or.inl ⟨pt', rfl, hafter⟩
    | returned | failed => exact Or.inr (Or.inr rfl)
  · cases hnew
    refine ⟨effect_insert w.db new, Or.inr (Or.inr ?_)⟩
    cases (serveShared table (.insert table new) w).1 <;> rfl
  · cases hnone

/-- Requests of the parties keep the rows, the inserted ones added. -/
theorem KeepsInserted.step {k : stmt.Answer → MigrationSession Unit} (hi : KeepsInserted table rows w)
    (h : PartyState table w (.ask stmt k)) (hu : Unexposed table others w stmt) :
    KeepsInserted table rows (serveShared table stmt w).2 := by
  have he := (h.step hu).1
  rcases h with ⟨pt, hpt, _⟩ | ⟨new, hnew⟩ | hnone
  · rw [MigrationPoint.program_eq] at hpt
    cases hpt
    rw [serveShared, insertedBy_statement, List.append_nil]
    refine hi.of_effect he fun name new hno => ?_
    cases pt <;> cases hno
  · cases hnew
    obtain ⟨live, hlive, hsame⟩ := hi
    obtain ⟨t, ht, rfl⟩ := Option.map_eq_some_iff.mp hlive
    obtain ⟨e, hserve⟩ | ⟨t', inserted, ht', hrows, hserve⟩ := serve_insert w.db table new
    · rw [serveShared, hserve, insertedBy_error, List.append_nil]
      exact ⟨t.rows, hlive, hsame⟩
    · cases ht.symm.trans ht'
      rw [serveShared, hserve, insertedBy, if_pos rfl]
      refine ⟨inserted.rows, rowsAt_update_self _ _ _, ?_⟩
      rw [hrows, SameOriginals, ← List.append_assoc, List.map_append, List.map_append]
      exact List.Perm.append_right _ hsame
  · cases hnone

end parties

private theorem partiesInvariant (table : String) (rows : List ReportSnapshot) :
    PartiesInvariant (serveShared table) (Unexposed table) (KeepsInserted table rows) (PartyState table) where
  store _ _ _ _ hi h hu := hi.step h hu
  next _ _ _ _ _ h hu := (h.step hu).2
  other _ _ _ _ _ _ h hu hq hother := hother.of_effect (h.step hu).1 hu hq

/-- Any number of migrations and writers, interleaved statement by statement and stopped
anywhere: while no statement exposes the rows, every row there was and every row inserted
is in the live table, in its original columns. -/
theorem migrations_keep_rows {table : String} {db : Database} {live : SnapshotTable} (hlive : db table = some live)
    {parties : List (MigrationSession Unit)}
    (hparties : ∀ p ∈ parties, p = applyMigration table ∨ ∃ new, p = insertSnapshots table new) {ms : List Move}
    (hg : Guarded (serveShared table) (Unexposed table) ms (parties, ⟨db, []⟩)) :
    ∃ now, (moves (serveShared table) ms (parties, ⟨db, []⟩)).2.db table = some now ∧
      SameOriginals now.rows
        (live.rows ++ (moves (serveShared table) ms (parties, ⟨db, []⟩)).2.inserted) := by
  have hinit : KeepsInserted table live.rows ⟨db, []⟩ := by
    refine ⟨live.rows, rowsAt_of_get hlive, ?_⟩
    rw [List.append_nil]
    exact SameOriginals.refl _
  have hstates : ∀ p ∈ parties, PartyState table ⟨db, []⟩ p := by
    intro p hp
    rcases hparties p hp with rfl | hnew
    · exact Or.inl ⟨.engine, rfl, trivial⟩
    · exact Or.inr (Or.inl hnew)
  obtain ⟨rows, hrows, hsame⟩ := (partiesInvariant table live.rows).of_moves hinit hstates hg
  obtain ⟨now, hnow, rfl⟩ := Option.map_eq_some_iff.mp hrows
  exact ⟨now, hnow, hsame⟩

section sample

/-- Two migrations and some writers, interleaved by `ms`. -/
def twoMigrations (table : String) (inserts : List (List ReportSnapshot)) (db : Database) (ms : List Move) :
    SharedTables :=
  (moves (serveShared table) ms (applyMigration table :: applyMigration table ::
    inserts.map (insertSnapshots table), ⟨db, []⟩)).2

/-- A row inserted before the copy is copied with the others. -/
def copiedMoves : List Move := List.replicate 3 (.go 0) ++ [.go 1] ++ List.replicate 6 (.go 0)

theorem migrations_keep_rows_sample :
    ∃ now, (moves (serveShared "report_snapshots") copiedMoves ([applyMigration "report_snapshots",
        insertSnapshots "report_snapshots" [snapshotRow 3 "camp-c"]], ⟨plainDatabase, []⟩)).2.db
        "report_snapshots" = some now ∧
      SameOriginals now.rows (plainTable.rows ++
        (moves (serveShared "report_snapshots") copiedMoves ([applyMigration "report_snapshots",
          insertSnapshots "report_snapshots" [snapshotRow 3 "camp-c"]], ⟨plainDatabase, []⟩)).2.inserted) :=
  migrations_keep_rows (show plainDatabase "report_snapshots" = some plainTable from rfl)
    (by
      intro p hp
      rcases List.mem_cons.mp hp with rfl | hp
      · exact Or.inl rfl
      · exact Or.inr ⟨_, List.mem_singleton.mp hp⟩)
    (by decide +kernel)

/-- The first run has passed its counts when the second drops the scratch table and creates
it anew. -/
def racedMoves : List Move := List.replicate 7 (.go 0) ++ List.replicate 4 (.go 1) ++ [.go 0]

/-- The exchange then puts the empty table in the place of the live one. -/
theorem migrations_race :
    ¬ ∀ (table : String) (db : Database) (live : SnapshotTable) (inserts : List (List ReportSnapshot))
      (ms : List Move), db table = some live → live.engine = .plain →
      ∀ r ∈ live.rows ++ (twoMigrations table inserts db ms).inserted,
        ∃ now, (twoMigrations table inserts db ms).db table = some now ∧
          ∃ r' ∈ now.rows, r'.original = r.original := by
  intro h
  have hempty : rowsAt (twoMigrations "report_snapshots" [] plainDatabase racedMoves).db "report_snapshots" =
      some [] := by decide +kernel
  obtain ⟨now, hnow, r', hr', _⟩ := h "report_snapshots" plainDatabase plainTable [] racedMoves rfl rfl
    (snapshotRow 1 "camp-a") (List.mem_append_left _ List.mem_cons_self)
  have hrows : now.rows = [] := Option.some.inj ((rowsAt_of_get hnow).symm.trans hempty)
  rw [hrows] at hr'
  cases hr'

/-- With one run alone, a row inserted between the counts stays behind. -/
example : ((rowsAt (twoMigrations "report_snapshots" [[snapshotRow 3 "camp-c"]] plainDatabase
    (List.replicate 6 (.go 0) ++ [.go 2] ++ List.replicate 2 (.go 0))).db "report_snapshots").map List.length =
      some 2) := by decide +kernel

end sample
end CtvAttribution
