import LLMBenchLab.Faults
import LLMBenchLab.TableDigests
import Mathlib.Logic.Function.Basic

/-!
# The SQLite import

`import_sqlite_to_postgres` (`db/import_sqlite.py`) copies what one snapshot of a stopped
SQLite database holds into the empty tables of a PostgreSQL database, in one transaction. The
digests of the source are compared with those of what the target gives back, before COMMIT and
again after it, on a connection of its own.

What the target makes of the values that are inserted is left open: that is what the digests
are compared for.
-/

namespace LLMBenchLab

namespace SqliteImport

open Python Faults
open Text (Str ofString)

/-! ## Source and target -/

/-- What goes wrong before anything is committed. -/
inductive Failure where
  /-- `SQLiteImportError` -/
  | sqliteImport (message : Str)
  /-- `SQLAlchemyError`, `sqlite3.Error` or `OSError` -/
  | database
  /-- any other exception -/
  | other

/-- The exceptions. -/
inductive ImportError where
  | failed (failure : Failure)
  /-- `SQLiteImportCommittedVerificationError` -/
  | committedVerification (message : Str)
  /-- `SQLiteImportCommitOutcomeUnknownError` -/
  | commitOutcomeUnknown (message : Str)

/-- The source, as its connection sees it. -/
structure SourceDatabase where
  /-- the path, the URL of the target, `BEGIN` and `preflight_sqlite_source` -/
  preflight : Except Failure Unit
  /-- `select(table).order_by(*table.primary_key.columns)` -/
  select : Table → Except Failure (List Row)
  select_supports : ∀ table rows, select table = .ok rows → ∀ row ∈ rows, table.Supports row
  /-- the end of the connection -/
  close : Except Failure Unit

/-- The target: the revisions of its schema, and its tables by their names. -/
structure Target where
  heads : List Str
  rows : Str → List Row

/-- Rows at the end of a table. -/
def Target.insert (name : Str) (rows : List Row) (d : Target) : Target :=
  { d with rows := Function.update d.rows name (d.rows name ++ rows) }

/-- The rows of these tables are rows of their columns. -/
def Target.Typed (tables : List Table) (d : Target) : Prop :=
  ∀ table ∈ tables, ∀ row ∈ d.rows table.name, table.Supports row

/-- The locks of an import. -/
inductive TargetLock where
  | free
  /-- `pg_advisory_xact_lock`, which keeps other imports out -/
  | advisory
  /-- and the tables, which keeps everybody out -/
  | accessExclusive

/-- What an import is given. -/
structure Importer (δ : Type) where
  sha256 : List UInt8 → δ
  /-- the tables of `CORE_TABLE_NAMES` -/
  tables : List Table
  names_nodup : (tables.map Table.name).Nodup
  /-- `expected_database_heads()` -/
  expectedHeads : List Str
  /-- what a table of the target makes of inserted rows, if it takes them -/
  stored : Table → List Row → Target → Option (List Row)
  stored_supports : ∀ table rows d rows', stored table rows d = some rows' →
    ∀ row ∈ rows', table.Supports row
  /-- `order_by(*table.primary_key.columns)` -/
  ordered : Table → List Row → List Row
  ordered_perm : ∀ table rows, (ordered table rows).Perm rows
  service : Service TargetLock Target ImportError
  free : service.free = .free
  excludes : ∀ own d d', service.Step .accessExclusive own d d' → d' = d
  typed : ∀ held own d d', service.Step held own d d' → d.Typed tables → d'.Typed tables
  fault : ∀ e, service.Fault e → e = .failed .database ∨ e = .failed .other

/-- `DatabaseSnapshot` -/
structure DatabaseSnapshot (δ : Type) where
  rows : List (Str × List Row)
  summaries : List (Str × TableSummary δ)

/-- `ImportReport` -/
structure ImportReport (δ : Type) where
  source : List (Str × TableSummary δ)
  precommitTarget : List (Str × TableSummary δ)
  postcommitTarget : List (Str × TableSummary δ)

/-- A line that is printed: `import_summary phase=… table=… row_count=…` and the two digests. -/
structure SummaryLine (δ : Type) where
  phase : String
  table : Str
  summary : TableSummary δ

/-- The variables of an import, with what it has printed. -/
structure Locals (δ : Type) where
  commitConfirmed : Bool
  output : List (SummaryLine δ)

instance {δ : Type} [DecidableEq δ] : DecidableEq (TableSummary δ) := fun s s' =>
  decidable_of_iff (s.rowCount = s'.rowCount ∧ s.pkSetDigest = s'.pkSetDigest ∧
    s.canonicalRowDigest = s'.canonicalRowDigest) (by cases s; cases s'; simp)

variable {δ : Type} (I : Importer δ)

/-- A session of an import with the target. -/
abbrev Import (α : Type) : Type := Session I.service (Locals δ) α

/-! ## Steps -/

/-- What `canonical_table_summary` raises. -/
def ofDigest {α : Type} : Except DigestError α → Except ImportError α
  | .ok a => .ok a
  | .error (.sqliteImport message) => .error (.failed (.sqliteImport message))
  | .error _ => .error (.failed .other)

/-- `snapshot_database` -/
def snapshotDatabase (select : Table → Import I (List Row)) : Import I (DatabaseSnapshot δ) :=
  I.tables.foldlM (fun snapshot table => do
    let rows ← select table
    let summary ← Session.lift (ofDigest (canonicalTableSummary I.sha256 table rows))
    return ⟨snapshot.rows ++ [(table.name, rows)], snapshot.summaries ++ [(table.name, summary)]⟩)
    ⟨[], []⟩

/-- A table of the source. -/
def selectSource (source : SourceDatabase) (table : Table) : Import I (List Row) :=
  Session.lift ((source.select table).mapError .failed)

/-- A table of the target. -/
def selectTarget (table : Table) : Import I (List Row) :=
  Session.read fun d => .ok (I.ordered table (d.rows table.name))

/-- `", ".join(parts)` -/
def join (separator : String) (parts : List Str) : Str :=
  (ofString separator).intercalate parts

/-- `",".join(sorted(set(heads)))` -/
def headLabel (heads : List Str) : Str := join "," (heads.dedup.insertionSort (· ≤ ·))

/-- The comparison of `_require_database_head`. -/
def checkDatabaseHead (role : String) (expected current : List Str) : Except ImportError Unit :=
  if (∀ head ∈ current, head ∈ expected) ∧ ∀ head ∈ expected, head ∈ current then .ok ()
  else
    let currentLabel := if current = [] then ofString "unversioned" else headLabel current
    .error (.failed (.sqliteImport (ofString (role ++
      " database must be at Alembic head (current=") ++ currentLabel ++
        ofString ", expected=" ++ headLabel expected ++ ofString ")")))

/-- `_require_database_head` of the target -/
def requireDatabaseHead : Import I Unit :=
  Session.read fun d => checkDatabaseHead "Target PostgreSQL" I.expectedHeads d.heads

/-- `_serialize_target_import` -/
def serializeTargetImport : Import I Unit := Session.acquire .advisory

/-- `_lock_target_tables` -/
def lockTargetTables : Import I Unit := Session.acquire .accessExclusive

/-- `_require_empty_target` -/
def requireEmptyTarget : Import I Unit := do
  let nonempty ← I.tables.foldlM (fun nonempty table => do
    let rowCount ← Session.read fun d => .ok (d.rows table.name).length
    return if rowCount = 0 then nonempty
      else nonempty ++ [table.name ++ ofString ("=" ++ toString rowCount)]) []
  if nonempty = [] then return ()
  else throw (.failed (.sqliteImport (ofString
    "Target PostgreSQL core tables must be empty (" ++ join ", " nonempty ++ ofString ")")))

/-- `copy_snapshot` -/
def copySnapshot (snapshot : DatabaseSnapshot δ) : Import I Unit :=
  I.tables.foldlM (fun _ table =>
    match snapshot.rows.lookup table.name with
    | none => throw (.failed (.sqliteImport
        (ofString "Source snapshot is missing table " ++ table.name)))
    | some [] => return ()
    | some rows => Session.write fun d =>
        match I.stored table rows d with
        | some rows' => .ok ((), Target.insert table.name rows')
        | none => .error (.failed .database)) ()

/-- `_assert_summaries_match` -/
def assertSummariesMatch [DecidableEq δ] (expected actual : List (Str × TableSummary δ))
    (phase : String) : Except ImportError Unit :=
  let mismatched := (I.tables.map Table.name).filter fun name =>
    expected.lookup name ≠ actual.lookup name
  if mismatched = [] then .ok ()
  else .error (.failed (.sqliteImport (ofString
    ("SQLite to PostgreSQL reconciliation failed during " ++ phase ++ " for tables: ") ++
      join ", " mismatched)))

/-- `print` -/
def printLine (line : SummaryLine δ) : Import I Unit :=
  Session.call fun w =>
    ({ w with vars := { w.vars with output := w.vars.output ++ [line] } }, .ok ())

/-- `_emit_summaries` -/
def emitSummaries (summaries : List (Str × TableSummary δ)) (phase : String) : Import I Unit :=
  I.tables.foldlM (fun _ table =>
    match summaries.lookup table.name with
    | some summary => printLine I ⟨phase, table.name, summary⟩
    | none => throw (.failed .other)) ()

/-! ## The import -/

/-- The part that reads the source. -/
def readSource (source : SourceDatabase) : Import I (DatabaseSnapshot δ) :=
  let read : Import I (DatabaseSnapshot δ) := do
    Session.lift (source.preflight.mapError .failed)
    let snapshot ← snapshotDatabase I (selectSource I source)
    emitSummaries I snapshot.summaries "source"
    return snapshot
  read.andFinally (Session.lift (source.close.mapError .failed))

section Target

variable [DecidableEq δ]

/-- What the transaction does before COMMIT. -/
def copyVerified (source : DatabaseSnapshot δ) : Import I (DatabaseSnapshot δ) := do
  serializeTargetImport I
  requireDatabaseHead I
  lockTargetTables I
  requireDatabaseHead I
  requireEmptyTarget I
  copySnapshot I source
  let precommit ← snapshotDatabase I (selectTarget I)
  Session.lift (assertSummariesMatch I source.summaries precommit.summaries "precommit")
  emitSummaries I precommit.summaries "precommit_target"
  return precommit

/-- The first connection to the target, with its transaction. -/
def importTransaction (source : DatabaseSnapshot δ) : Import I (DatabaseSnapshot δ) := do
  Session.assign fun v => { v with commitConfirmed := false }
  Session.connect
  let transaction : Import I (DatabaseSnapshot δ) := do
    Session.begin .readCommitted
    let precommit ← tryCatch (copyVerified I source) fun e => do
      Session.rollback
      throw e
    tryCatch Session.commit fun _ => throw (.commitOutcomeUnknown (ofString
      ("PostgreSQL did not confirm COMMIT; the target may be empty or may " ++
        "already contain the complete imported rows; do not retry blindly")))
    Session.assign fun v => { v with commitConfirmed := true }
    return precommit
  tryCatch (transaction.andFinally Session.rollback) fun e =>
    match e with
    | .commitOutcomeUnknown message => throw (.commitOutcomeUnknown message)
    | e => do
      if (← Session.vars).commitConfirmed then
        throw (.committedVerification (ofString
          ("Target transaction committed, but connection cleanup did not finish; " ++
            "do not retry blindly because the target tables may already contain the " ++
            "imported rows")))
      else throw e

/-- The second connection to the target. -/
def readCommittedTarget : Import I (DatabaseSnapshot δ) := do
  Session.connect
  let transaction : Import I (DatabaseSnapshot δ) := do
    Session.begin (.repeatableRead none)
    let snapshot ← tryCatch (do
      -- `SET TRANSACTION READ ONLY`, which is no statement that looks
      Session.call fun w => (w, .ok ())
      requireDatabaseHead I
      snapshotDatabase I (selectTarget I)) fun e => do
        Session.rollback
        throw e
    Session.commit
    return snapshot
  transaction.andFinally Session.rollback

/-- The part after COMMIT. -/
def verifyCommitted (source : DatabaseSnapshot δ) : Import I (DatabaseSnapshot δ) :=
  let verify : Import I (DatabaseSnapshot δ) := do
    let postcommit ← readCommittedTarget I
    Session.lift (assertSummariesMatch I source.summaries postcommit.summaries "postcommit")
    emitSummaries I postcommit.summaries "postcommit_target"
    return postcommit
  tryCatch verify fun _ => throw (.committedVerification (ofString
    ("Target transaction committed, but post-commit verification or reporting " ++
      "did not finish; do not retry blindly because the target tables may already " ++
      "contain the imported rows")))

/-- `import_sqlite_to_postgres` -/
def importSqliteToPostgres (source : SourceDatabase) : Import I (ImportReport δ) := do
  let sourceSnapshot ← readSource I source
  let precommit ← importTransaction I sourceSnapshot
  let postcommit ← verifyCommitted I sourceSnapshot
  return ⟨sourceSnapshot.summaries, precommit.summaries, postcommit.summaries⟩

/-- What `main` returns; any other exception leaves it. -/
def exitStatus {α : Type} : Except ImportError α → Option ℕ
  | .ok _ => some 0
  | .error (.commitOutcomeUnknown _) => some 4
  | .error (.committedVerification _) => some 3
  | .error (.failed (.sqliteImport _)) => some 2
  | .error (.failed .database) => some 2
  | .error (.failed .other) => none

end Target

end SqliteImport

end LLMBenchLab
