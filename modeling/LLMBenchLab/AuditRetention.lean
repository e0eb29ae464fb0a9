import LLMBenchLab.ArchiveRoundTrip
import LLMBenchLab.AuditAppends
import LLMBenchLab.Faults

/-!
# Audit retention

`governance/audit_retention.py`: expired events are written to an archive, deleted once they
are in it, and restored from it. A deletion and a restore are one transaction each, which
compares the archive with the table first and is checked again after COMMIT, in a session of
its own.

Every call may fail, and others append events all the time (`Commits`). While the session
holds the maintenance lock nobody else removes an event.
-/

namespace LLMBenchLab

namespace Audit

open Python Faults
open Text (Str)
open Archive (ArchiveFile VerifiedAuditArchive compatibleAlembicHeads archiveEventLimit orderLe
  buildArchiveBytes rawEvent)

/-! ## The database -/

/-- The tables, the revision of the schema and the clock. -/
structure Database where
  store : AuditStore
  heads : List Str
  /-- what `CURRENT_TIMESTAMP` says -/
  now : Instant

/-- The exceptions. -/
inductive Raised where
  /-- `AuditRetentionError` -/
  | retention (code : String)
  /-- `AuditRetentionCommitOutcomeUnknownError` -/
  | commitOutcomeUnknown (code : String) (eventCount : ℕ) (archiveSha256 : Str)
  /-- `AuditRetentionCommittedVerificationError` -/
  | committedVerification (code : String) (eventCount : ℕ) (archiveSha256 : Str)
  /-- `AuditIntegrityError` -/
  | integrity
  /-- anything else -/
  | driver

/-- The row of `as_insert_values`. -/
def AuditEventReadFacts.row (event : AuditEventReadFacts) : AuditEvent where
  id := event.id
  eventKey := event.eventKey
  eventType := event.eventType
  payloadHash := event.payloadHash
  payload := event.payload.toValue
  retentionClass := event.retentionClass
  occurredAt := event.occurredAt
  expiresAt := event.expiresAt
  correlationId := event.correlationId
  runId := event.runId
  modelId := event.modelId
  questionId := event.questionId
  workerId := event.workerId
  reservationId := event.reservationId
  attempt := event.attempt
  providerAttempt := event.providerAttempt
  leaseToken := event.leaseToken
  durationMs := event.durationMs

/-- Any rows are gone. -/
def Database.keep (p : AuditEvent → Bool) (d : Database) : Database :=
  { d with store := { d.store with events := d.store.events.filter p } }

/-- Rows at the end of the table. -/
def Database.append (rows : List AuditEvent) (d : Database) : Database :=
  { d with store := { d.store with events := d.store.events ++ rows } }

/-- What another session commits, beside the pending writes `own` of a session that holds the
maintenance lock, or does not. A row is unique among the committed rows and the pending ones. -/
inductive Commits (held : Bool) (own : Database → Database) (d : Database) : Database → Prop
  | append {row : AuditEvent} {store store' : AuditStore} :
      d.store.insert row = .ok store → (own d).store.insert row = .ok store' →
        Commits held own d { d with store }
  | purge (p : AuditEvent → Bool) : held = false → Commits held own d (d.keep p)
  | reserve (id : Str) : Commits held own d
      { d with store := { d.store with reservations := d.store.reservations ++ [id] } }
  | migrate (heads : List Str) : Commits held own d { d with heads }
  | tick (now : Instant) : Commits held own d { d with now }

/-- What a maintenance session is given. -/
structure Maintenance where
  library : Stdlib
  dialect : Dialect
  /-- `expected_database_heads()` -/
  expectedHeads : List Str
  service : Service Bool Database Raised
  free : service.free = false
  commits : ∀ held own d d', service.Step held own d d' → Commits held own d d'
  fault : ∀ e, service.Fault e → e = .driver

variable (M : Maintenance)

/-- A session, with `commit_state.confirmed` as its variable. -/
abbrev Retention (α : Type) : Type := Session M.service Bool α

/-! ## Statements -/

/-- `_configure_read_snapshot` -/
def configureReadSnapshot : Retention M Unit := do
  Session.begin .readCommitted
  match M.dialect with
  | .sqlite | .postgresql => Session.begin (.repeatableRead none)
  | .other => throw (.retention "audit_retention_database_dialect_unsupported")

/-- `_configure_mutation_transaction` -/
def configureMutationTransaction : Retention M Unit := do
  Session.begin .readCommitted
  match M.dialect with
  | .sqlite | .postgresql => Session.acquire true
  | .other => throw (.retention "audit_retention_database_dialect_unsupported")

/-- The heads that `_require_current_head` accepts. -/
def currentHead (expectedHeads heads : List Str) : Except Raised Str :=
  let current := heads.insertionSort (· ≤ ·)
  if current ≠ expectedHeads.insertionSort (· ≤ ·) ∨ current.length ≠ 1 then
    .error (.retention "audit_retention_database_schema_not_ready")
  else
    match current with
    | head :: _ =>
      if head ∈ compatibleAlembicHeads then .ok head
      else .error (.retention "audit_retention_database_schema_not_compatible")
    | [] => .error (.retention "audit_retention_database_schema_not_ready")

/-- `_require_current_head` -/
def requireCurrentHead : Retention M Str :=
  Session.read fun d => currentHead M.expectedHeads d.heads

/-- `database_utc_now` -/
def databaseUtcNow : Retention M Instant := Session.read fun d => .ok d.now

/-- `_chunks`, and the ranges of `_require_reservations`; `_QUERY_CHUNK_SIZE` is 400. -/
def chunks {α : Type} (values : List α) : List (List α) :=
  (List.range ((values.length + 399) / 400)).map fun i => (values.drop (400 * i)).take 400

/-- `rows_by_identity[row.id] = row` -/
def setRow (rows : List AuditEvent) (row : AuditEvent) : List AuditEvent :=
  if rows.any (·.id == row.id) then rows.map fun other => if other.id == row.id then row else other
  else rows ++ [row]

/-- The rows that have the id or the key of an event. -/
def candidates (events : List AuditEventReadFacts) (store : AuditStore) : List AuditEvent :=
  store.events.filter fun row =>
    events.any (·.id == row.id) || events.any (·.eventKey == row.eventKey)

/-- `_load_candidate_rows`. The row locks exclude nothing here: no row is ever updated. -/
def loadCandidateRows (events : List AuditEventReadFacts) : Retention M (List AuditEvent) :=
  (chunks events).foldlM (fun rows chunk => do
    let found ← Session.read fun d => .ok (candidates chunk d.store)
    return found.foldl setRow rows) []

/-! ## Comparing -/

/-- `==` of the dataclass. -/
def AuditEventReadFacts.eq (a b : AuditEventReadFacts) : Bool :=
  a.id == b.id && a.eventKey == b.eventKey && a.eventType == b.eventType &&
    a.payloadHash == b.payloadHash && a.payload.toValue.val.eq b.payload.toValue.val &&
    a.retentionClass == b.retentionClass && a.occurredAt == b.occurredAt &&
    a.expiresAt == b.expiresAt && a.correlationId == b.correlationId && a.runId == b.runId &&
    a.modelId == b.modelId && a.questionId == b.questionId && a.workerId == b.workerId &&
    a.reservationId == b.reservationId && a.attempt == b.attempt &&
    a.providerAttempt == b.providerAttempt && a.leaseToken == b.leaseToken &&
    (Json.ofFloat a.durationMs).eq (Json.ofFloat b.durationMs)

/-- What becomes of an event of the archive. -/
inductive Verdict where
  | absent
  | exact
  | conflict
  deriving DecidableEq

/-- The body of the loop of `_classify`. -/
def verdict (L : Stdlib) (rows : List AuditEvent) (expected : AuditEventReadFacts) : Verdict :=
  match rows.reverse.find? (·.id == expected.id),
    rows.reverse.find? (·.eventKey == expected.eventKey) with
  | none, none => .absent
  | some idRow, some keyRow =>
    if idRow.id = keyRow.id then
      match validateAuditEventForRead L idRow with
      | .ok actual => if actual.eq expected then .exact else .conflict
      | .error _ => .conflict
    else .conflict
  | _, _ => .conflict

inductive ReconcileStatus where
  | allExact
  | allAbsent
  | mixedExactAbsent
  | conflict
  | emptyArchive
  deriving DecidableEq

structure ReconcileReport where
  status : ReconcileStatus
  eventCount : ℕ
  exactCount : ℕ
  absentCount : ℕ
  conflictCount : ℕ

/-- `_classify`, less the dictionary of the exact rows, which nobody reads. -/
def classify (L : Stdlib) (events : List AuditEventReadFacts) (rows : List AuditEvent) :
    ReconcileReport :=
  let exactCount := events.countP fun event => verdict L rows event = .exact
  let absentCount := events.countP fun event => verdict L rows event = .absent
  let conflictCount := events.countP fun event => verdict L rows event = .conflict
  let status :=
    if events.length = 0 then .emptyArchive
    else if conflictCount ≠ 0 then .conflict
    else if exactCount = events.length then .allExact
    else if absentCount = events.length then .allAbsent
    else .mixedExactAbsent
  ⟨status, events.length, exactCount, absentCount, conflictCount⟩

/-- `_reconcile_in_session` -/
def reconcileInSession (archive : VerifiedAuditArchive) : Retention M ReconcileReport := do
  let rows ← loadCandidateRows M archive.events
  return classify M.library archive.events rows

/-- `reconcile_archive` -/
def reconcileArchive (archive : VerifiedAuditArchive) : Retention M ReconcileReport := do
  Session.connect
  let reconcile : Retention M ReconcileReport := do
    configureReadSnapshot M
    let _ ← requireCurrentHead M
    reconcileInSession M archive
  let guarded : Retention M ReconcileReport := tryCatch reconcile fun e =>
    match e with
    | .retention code => throw (.retention code)
    | _ => throw (.retention "audit_retention_reconcile_failed")
  (guarded.andFinally Session.rollback).andFinally Session.rollback

/-! ## Changing -/

/-- `_require_reservations` -/
def requireReservations (events : List AuditEventReadFacts) : Retention M Unit := do
  let ids := (events.filterMap (·.reservationId)).dedup.insertionSort (· ≤ ·)
  let found ← (chunks ids).foldlM (fun found chunk => do
    let there ← Session.read fun d => .ok (d.store.reservations.filter (chunk.contains ·))
    return found ++ there) []
  if ids.all (found.contains ·) then return ()
  else throw (.retention "audit_retention_reservation_missing")

/-- `_postcommit_report` -/
def postcommitReport (archive : VerifiedAuditArchive) : Retention M ReconcileReport :=
  tryCatch (reconcileArchive M archive) fun _ =>
    throw (.committedVerification "audit_retention_postcommit_verification_failed"
      archive.events.length archive.archiveSha256)

/-- A row is not one of these events. -/
def isNone (events : List AuditEventReadFacts) (row : AuditEvent) : Bool :=
  !events.any (·.id == row.id)

/-- `_delete_exact_event_ids` -/
def deleteExactEventIds (events : List AuditEventReadFacts) : Retention M ℕ :=
  (chunks events).foldlM (fun deletedCount chunk => do
    let rowcount ← Session.write fun d =>
      .ok (d.store.events.countP fun row => !isNone chunk row, Database.keep (isNone chunk))
    return deletedCount + rowcount) 0

/-- The inserts of a flush, one after the other. -/
def insertAll (rows : List AuditEvent) (store : AuditStore) : Except AuditError AuditStore :=
  rows.foldlM AuditStore.insert store

/-- `session.flush()` -/
def flush (rows : List AuditEvent) : Retention M Unit :=
  Session.write fun d =>
    match insertAll rows d.store with
    | .ok _ => .ok ((), Database.append rows)
    | .error _ => .error .driver

/-- `_mutation_session` -/
def mutationSession {α : Type} (archive : VerifiedAuditArchive) (body : Retention M α) :
    Retention M α := do
  Session.assign fun _ => false
  Session.connect
  body.andFinally (tryCatch Session.rollback fun _ => do
    if ← Session.vars then
      throw (.committedVerification "audit_retention_committed_cleanup_failed"
        archive.events.length archive.archiveSha256)
    else return ())

/-- The last two `except` clauses of a mutation. -/
def guardMutation {α : Type} (archive : VerifiedAuditArchive)
    (cleanupFailed precommitFailed : String) (body : Retention M α) : Retention M α :=
  tryCatch body fun e =>
    match e with
    | .retention code => throw (.retention code)
    | .commitOutcomeUnknown code count sha => throw (.commitOutcomeUnknown code count sha)
    | _ => do
      if ← Session.vars then
        throw (.committedVerification cleanupFailed archive.events.length archive.archiveSha256)
      else
        Session.rollback
        throw (.retention precommitFailed)

/-- COMMIT, whose failure leaves the outcome unknown. -/
def commitMutation (archive : VerifiedAuditArchive) (outcomeUnknown : String) :
    Retention M Unit := do
  tryCatch Session.commit fun _ =>
    throw (.commitOutcomeUnknown outcomeUnknown archive.events.length archive.archiveSha256)
  Session.assign fun _ => true

structure MutationReport where
  status : String
  eventCount : ℕ
  changedCount : ℕ
  archiveSha256 : Str

/-- What `restore_archive` and `delete_archive_events` share: the transaction, the check after
COMMIT and the report. -/
def mutateArchive (archive : VerifiedAuditArchive) (cleanupFailed precommitFailed mismatch : String)
    (settled : ReconcileStatus → Bool) (changed unchanged : String) (transaction : Retention M ℕ) :
    Retention M MutationReport := do
  let changedCount ← mutationSession M archive
    (guardMutation M archive cleanupFailed precommitFailed transaction)
  let postcommit ← postcommitReport M archive
  if settled postcommit.status then
    return ⟨if changedCount ≠ 0 then changed else unchanged, archive.events.length, changedCount,
      archive.archiveSha256⟩
  else throw (.committedVerification mismatch archive.events.length archive.archiveSha256)

/-- The transaction of `restore_archive`: the number of the rows it has inserted. -/
def restoreTransaction (archive : VerifiedAuditArchive) : Retention M ℕ := do
  configureMutationTransaction M
  let _ ← requireCurrentHead M
  requireReservations M archive.events
  let report ← reconcileInSession M archive
  if report.status = .conflict then throw (.retention "audit_retention_restore_conflict")
  if report.status = .allAbsent ∨ report.status = .mixedExactAbsent then
    let rows ← loadCandidateRows M archive.events
    let missing := archive.events.filter fun event =>
      !rows.any (·.id == event.id) && !rows.any (·.eventKey == event.eventKey)
    tryCatch (flush M (missing.map (·.row))) fun _ => do
      Session.rollback
      throw (.retention "audit_retention_restore_precommit_failed")
    commitMutation M archive "audit_retention_restore_commit_outcome_unknown"
    return missing.length
  else
    Session.rollback
    return 0

/-- `restore_archive` -/
def restoreArchive (archive : VerifiedAuditArchive) : Retention M MutationReport :=
  mutateArchive M archive "audit_retention_restore_committed_cleanup_failed"
    "audit_retention_restore_precommit_failed" "audit_retention_restore_postcommit_mismatch"
    (fun status => status = .allExact ∨ status = .emptyArchive) "restored" "already_exact"
    (restoreTransaction M archive)

/-- The transaction of `delete_archive_events`: the number of the rows it has deleted. -/
def deleteTransaction (archive : VerifiedAuditArchive) : Retention M ℕ := do
  configureMutationTransaction M
  let _ ← requireCurrentHead M
  let databaseNow ← databaseUtcNow M
  if databaseNow < archive.cutoffAt ∨ archive.events.any (databaseNow ≤ ·.expiresAt) then
    throw (.retention "audit_retention_delete_not_expired")
  let report ← reconcileInSession M archive
  if report.status = .conflict ∨ report.status = .mixedExactAbsent then
    throw (.retention "audit_retention_delete_conflict")
  if report.status = .allExact then
    let actualDeletedCount ← tryCatch (deleteExactEventIds M archive.events) fun _ => do
      Session.rollback
      throw (.retention "audit_retention_delete_precommit_failed")
    if actualDeletedCount ≠ archive.events.length then
      Session.rollback
      throw (.retention "audit_retention_delete_count_mismatch")
    commitMutation M archive "audit_retention_delete_commit_outcome_unknown"
    return actualDeletedCount
  else
    Session.rollback
    return 0

/-- `delete_archive_events` -/
def deleteArchiveEvents (archive : VerifiedAuditArchive) : Retention M MutationReport :=
  mutateArchive M archive "audit_retention_delete_committed_cleanup_failed"
    "audit_retention_delete_precommit_failed" "audit_retention_delete_postcommit_mismatch"
    (fun status => status = .allAbsent ∨ status = .emptyArchive) "deleted" "already_absent"
    (deleteTransaction M archive)

/-! ## Archiving -/

/-- `validate_audit_event_for_read` of each row. -/
def readEvents (L : Stdlib) (rows : List AuditEvent) : Except Raised (List AuditEventReadFacts) :=
  rows.mapM fun row =>
    match validateAuditEventForRead L row with
    | .ok facts => .ok facts
    | .error _ => .error .integrity

/-- `ORDER BY expires_at, id LIMIT ARCHIVE_EVENT_LIMIT + 1` -/
def expiredRows (cutoffAt : Instant) (store : AuditStore) : List AuditEvent :=
  ((store.events.filter fun row => row.expiresAt < cutoffAt).insertionSort fun a b =>
    orderLe (a.expiresAt, a.id) (b.expiresAt, b.id)).take (archiveEventLimit + 1)

/-- What is handed to `write_archive`. -/
structure ArchiveInput where
  events : List AuditEventReadFacts
  cutoffAt : Instant
  sourceAlembicHead : Str
  hasMoreEligible : Bool

/-- The part of `archive_expired_events` that reads the database. -/
def selectExpiredEvents : Retention M ArchiveInput := do
  Session.connect
  let snapshot : Retention M ArchiveInput := do
    configureReadSnapshot M
    let sourceHead ← requireCurrentHead M
    let cutoffAt ← databaseUtcNow M
    let rows ← Session.read fun d => .ok (expiredRows cutoffAt d.store)
    let events ← Session.lift (readEvents M.library (rows.take archiveEventLimit))
    return ⟨events, cutoffAt, sourceHead, archiveEventLimit < rows.length⟩
  let guarded : Retention M ArchiveInput := tryCatch snapshot fun e =>
    match e with
    | .retention code => throw (.retention code)
    | .integrity => throw (.retention "audit_retention_event_integrity_error")
    | _ => throw (.retention "audit_retention_archive_snapshot_failed")
  (guarded.andFinally Session.rollback).andFinally Session.rollback

/-- What `write_archive` returns, and its file. -/
structure WrittenAuditArchive where
  file : ArchiveFile
  eventCount : ℕ
  hasMoreEligible : Bool
  contentSha256 : Str
  archiveSha256 : Str

/-- `write_archive`, once its file is there. -/
def writeArchive (L : Stdlib) (input : ArchiveInput) : Except Raised WrittenAuditArchive :=
  match buildArchiveBytes L (input.events.map rawEvent) input.cutoffAt.toDateTime
    (.str input.sourceAlembicHead) (.bool input.hasMoreEligible) with
  | .ok (data, contentSha256) =>
    .ok ⟨⟨true, true, 0o600, data⟩, input.events.length, input.hasMoreEligible, contentSha256,
      hexdigest (L.sha256 data)⟩
  | .error _ => .error .driver

/-- `archive_expired_events` -/
def archiveExpiredEvents : Retention M WrittenAuditArchive := do
  let input ← selectExpiredEvents M
  Session.call fun w => (w, writeArchive M.library input)

end Audit

end LLMBenchLab
