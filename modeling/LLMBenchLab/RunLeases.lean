import Mathlib.Data.List.Sort
import LLMBenchLab.Evidence

/-!
# Run leases: claims, fencing, retries and cancellation

`RunLeaseRepository` (`runners/run_leases.py`) and `EvaluationRunner._finish`
(`runners/evaluation_runner.py`), one definition a database transaction. Where
a method goes on with `reconcile_run_lease` in a transaction of its own, the
method's first transaction is modelled here and the reconciliation is
`Governance.reconcileRunLease`: other transactions may come in between.

Each method is a pure transition of the Run row under the row lock (`Run.…`),
its audit event, and the flush of the row at commit.
-/

namespace LLMBenchLab

open Relational

/-- Deployment parameters: the constructor arguments of the two repositories,
the question sets of the benchmarks, and the functions of the cryptographic and
URL libraries. -/
structure Config where
  /-- `lease_for` -/
  leaseFor : ℕ
  leaseFor_pos : 0 < leaseFor
  retryBackoffBase : ℕ
  retryBackoffCap : ℕ
  retryBackoff_le : retryBackoffBase ≤ retryBackoffCap
  /-- the questions of a benchmark, by position -/
  questions : BenchmarkId → List QuestionId
  questions_nodup : ∀ b, (questions b).Nodup
  /-- `_policy_hash` -/
  policyHash : PolicyLimits → Digest

/-- The immutable handle a Worker holds. -/
structure RunLease where
  runId : RunId
  owner : Owner
  token : ℕ
  attempt : ℕ
  expiresAt : Time
  deriving DecidableEq, Repr

inductive AttemptDisposition : Type where
  | retryScheduled | deadLettered | recoveredCompleted | cancelled | fenceLost
  | governanceDeferred | governanceExhausted | cooperativeYield
  deriving DecidableEq, Repr

inductive CancelDisposition : Type where
  | cancelled | requested | terminal | notFound
  deriving DecidableEq, Repr

inductive ResponseDisposition : Type where
  | inserted | alreadyPresent | cancelRequested | fenceLost
  deriving DecidableEq, Repr

/-! ## Transitions of the Run row -/

namespace Run

/-- The lease of a RUNNING row has run out at `now`. -/
def leaseExpired (r : Run) (now : Time) : Bool :=
  decide (r.status = .running) && r.leaseExpiresAt.any fun t => decide (t ≤ now)

/-- `_clear_lease`. -/
def clearLease (r : Run) : Run :=
  { r with leaseOwner := none, leaseExpiresAt := none, heartbeatAt := none }

/-- `_eligible`, for a Run with `responseCount` Responses. -/
def eligible (r : Run) (responseCount : ℕ) (now : Time) : Bool :=
  !r.cancellationRequested &&
  decide (r.failedAttemptCount < r.maxAttempts) &&
  decide (r.governanceStatus ≠ .exhausted) &&
  decide (responseCount < r.totalQuestions) &&
  ((decide (r.status = .pending) &&
      r.nextAttemptAt.all (fun t => decide (t ≤ now)) &&
      r.governanceNotBefore.all (fun t => decide (t ≤ now))) ||
    (r.leaseExpired now && decide (r.failedAttemptCount + 1 < r.maxAttempts)))

/-- The `UPDATE` of `claim`. -/
def claimed (r : Run) (owner : Owner) (now expiresAt : Time) : Run :=
  { r with
    status := .running
    attemptCount := r.attemptCount + 1
    failedAttemptCount := r.failedAttemptCount + (if r.leaseExpired now then 1 else 0)
    dispatchCount := r.dispatchCount + 1
    lastScheduledAt := some now
    leaseOwner := some owner
    leaseToken := r.leaseToken + 1
    leaseExpiresAt := some expiresAt
    heartbeatAt := some now
    nextAttemptAt := none
    governanceStatus := if r.governanceStatus = .delayed then .managed else r.governanceStatus
    governanceReason := none
    governanceNotBefore := none
    finishedAt := none
    startedAt := some (r.startedAt.getD now)
    lastError := if r.status = .running then some .workerLeaseExpired else r.lastError }

/-- `_complete_from_evidence`, once the Response set is complete. -/
def completeFromEvidence (r : Run) (now : Time) : Run :=
  clearLease
    { r with
      status := .completed
      finishedAt := some now
      nextAttemptAt := none
      errorMessage := none
      deadLetteredAt := none }

/-- The cancelled row of `finish_cancelled` and `fail_attempt`. -/
def cancelledByOwner (r : Run) (rs : List Response) (now : Time) : Run :=
  clearLease { aggregateRunEvidence rs r with status := .cancelled, finishedAt := some now }

/-- The cancelled row of `request_cancel` on a PENDING Run. The flag is set by
the statement before. -/
def cancelledPending (r : Run) (rs : List Response) (now : Time) : Run :=
  { aggregateRunEvidence rs r with
    status := .cancelled, finishedAt := some now, nextAttemptAt := none }

/-- `min(base * 2 ** exponent, cap)` after the failure just counted. -/
def retryDelay (cfg : Config) (failedAttemptCount : ℕ) : ℕ :=
  min (cfg.retryBackoffBase * 2 ^ (failedAttemptCount - 1)) cfg.retryBackoffCap

/-- Back to PENDING after a failure; `r` has the failure counted. -/
def retryScheduled (cfg : Config) (r : Run) (now : Time) : Run :=
  clearLease
    { r with
      status := .pending
      nextAttemptAt := some (now + retryDelay cfg r.failedAttemptCount) }

/-- Retries are used up; `r` has the failure counted. -/
def deadLettered (r : Run) (now : Time) (message : ErrorCode) : Run :=
  clearLease
    { r with
      status := .failed
      deadLetteredAt := some now
      finishedAt := some now
      errorMessage := some message }

/-- `defer_governance`. -/
def deferred (r : Run) (reason : ErrorCode) (notBefore : Time) : Run :=
  clearLease
    { r with
      status := .pending
      governanceStatus := .delayed
      governanceReason := some reason
      governanceNotBefore := some notBefore
      nextAttemptAt := none }

/-- `cooperative_yield`. -/
def yielded (r : Run) (now : Time) : Run :=
  clearLease
    { r with
      status := .pending
      governanceStatus := .managed
      governanceReason := none
      governanceNotBefore := none
      nextAttemptAt := none
      lastScheduledAt := some now }

/-- `exhaust_governance`. -/
def exhausted (r : Run) (rs : List Response) (reason : ErrorCode) (now : Time) : Run :=
  clearLease
    { aggregateRunEvidence rs r with
      status := .failed
      governanceStatus := .exhausted
      governanceReason := some reason
      governanceNotBefore := none
      lastError := some reason
      errorMessage := some reason
      finishedAt := some now
      nextAttemptAt := none }

/-- `_fail_closed_takeover`. -/
def failedClosed (r : Run) (rs : List Response) (now : Time) : Run :=
  let status := if r.cancellationRequested then RunStatus.cancelled else .failed
  clearLease
    { aggregateRunEvidence rs r with
      status := status
      governanceStatus :=
        if status = .failed ∧ r.governancePolicyId.isSome then .exhausted else r.governanceStatus
      governanceReason := some .governanceIntegrityError
      governanceNotBefore := none
      lastError := some .governanceIntegrityError
      errorMessage := if status = .failed then some .governanceIntegrityError else none
      finishedAt := some now
      nextAttemptAt := none }

/-- The row `EvaluationRunner._finish` writes. -/
def finished (r : Run) (rs : List Response) (status : RunStatus) (now : Time) : Run :=
  { aggregateRunEvidence rs r with
    status := if r.cancellationRequested then .cancelled else status
    finishedAt := some now
    nextAttemptAt := none
    leaseOwner := none
    leaseExpiresAt := none
    heartbeatAt := none }

/-- The cancelled row of `reap_expired`. -/
def reapedCancelled (r : Run) (rs : List Response) (now : Time) : Run :=
  clearLease
    { aggregateRunEvidence rs r with
      status := .cancelled, finishedAt := some now, nextAttemptAt := none }

end Run

namespace RunLeases

variable (cfg : Config)

/-! ## Statements -/

/-- The UPDATE of one Run row at flush. -/
def putRun (r : Run) : Tx Unit := .flush fun s => { s with runs := s.runs.put r }

/-- `SELECT … FOR UPDATE` of a Run by id. -/
def lockRun (runId : RunId) : Tx Store := .forUpdate fun _ => [.run runId]

/-- The fence of `_locked_run`: RUNNING, same owner and token, unexpired. -/
def owns (lease : RunLease) (now : Time) (r : Run) : Bool :=
  decide (r.status = .running) && decide (r.leaseOwner = some lease.owner) &&
  decide (r.leaseToken = lease.token) && r.leaseExpiresAt.any fun t => decide (now < t)

/-- `_locked_run`, with the store the statement saw. -/
def lockedRun (lease : RunLease) (now : Time) : Tx (Store × Option Run) :=
  (lockRun lease.runId).bind fun s =>
    .ret (s, (s.runs.get? lease.runId).filter (owns lease now))

/-- One question execution after a true Run failure; finished questions keep
their cursor. -/
def nextGeneration (s : Store) (runId : RunId) (x : QuestionExecution) : QuestionExecution :=
  if x.runId = runId ∧ ¬ ((s.responsesOf runId).any fun y => y.questionId == x.questionId) then
    { x with
      executionGeneration := x.executionGeneration + 1
      nextProviderAttempt := 1
      firstAttemptAt := none
      retryNotBefore := none }
  else x

theorem key_nextGeneration (s : Store) (runId : RunId) (x : QuestionExecution) :
    key (nextGeneration s runId x) = key x := by
  unfold nextGeneration
  split <;> rfl

/-- The store after `_begin_new_execution_generation`. -/
def newGeneration (runId : RunId) (s : Store) : Store :=
  { s with
    executions := s.executions.update (nextGeneration s runId) (key_nextGeneration s runId) }

/-- `_begin_new_execution_generation`. -/
def beginNewExecutionGeneration (runId : RunId) : Tx Unit := .flush (newGeneration runId)

/-! ## Claims -/

/-- The transaction of `claim`: the lease, and the token of the expired lease it
takes over, if any. -/
def claim (runId : RunId) (owner : Owner) (now : Time) :
    Tx (Option (RunLease × Option ℕ)) := do
  let expiresAt := now + cfg.leaseFor
  let s ← lockRun runId
  match s.runs.get? runId with
  | none => return none
  | some run =>
    if run.eligible (s.responsesOf runId).length now then
      let run' := run.claimed owner now expiresAt
      putRun run'
      if run.leaseExpired now then
        beginNewExecutionGeneration runId
      appendAuditEvent (.runClaimed runId run'.leaseToken) now
        { payload := .dispatch run'.dispatchCount, runId := some runId, modelId := some run.modelId,
          workerId := some owner, attempt := some run'.attemptCount,
          leaseToken := some run'.leaseToken }
      return some (⟨runId, owner, run'.leaseToken, run'.attemptCount, expiresAt⟩,
        if run.leaseExpired now then some run.leaseToken else none)
    else
      return none

/-- The columns of a lease event. -/
def leaseFacts (lease : RunLease) (run : Run) (payload : AuditPayload) : AuditFacts :=
  { payload, runId := some run.id, modelId := some run.modelId, workerId := some lease.owner,
    attempt := some lease.attempt, leaseToken := some lease.token }

/-- `_fail_closed_takeover`: revoke a takeover lease after ledger corruption. It
does not look at the expiry of the lease. -/
def failClosedTakeover (lease : RunLease) (now : Time) : Tx Unit := do
  let s ← lockRun lease.runId
  match s.runs.get? lease.runId with
  | none => return ()
  | some run =>
    if run.status = .running ∧ run.leaseOwner = some lease.owner ∧ run.leaseToken = lease.token then
      let run' := run.failedClosed (s.responsesOf run.id) now
      appendAuditEvent (.runTerminal run.id run'.status) now
        (leaseFacts lease run (.terminal run'.status .governanceIntegrityError))
      putRun run'
    else
      return ()

/-! ## Evidence and cancellation -/

/-- The `error_code` of a persisted Response event. -/
def errorCategory : Option String → AuditReason
  | none => .none
  | some "parse_error" => .parseError
  | some "output_truncated" => .parseError
  | some "evaluator_internal_error" => .evaluatorError
  | some "question_internal_error" => .internalError
  | some _ => .adapterError

/-- `persist_response`. -/
def persistResponse (lease : RunLease) (response : Response) (now : Time) :
    Tx ResponseDisposition := do
  let (s, run?) ← lockedRun lease now
  match run? with
  | none => return .fenceLost
  | some run =>
    if run.cancellationRequested then
      return .cancelRequested
    if (s.responsesOf lease.runId).any fun x => x.questionId == response.questionId then
      return .alreadyPresent
    Prog.ensure (s.responses.get? response.id).isNone .duplicateKey
    Prog.flush fun s => { s with responses := s.responses.insert response }
    let s ← Prog.read
    appendAuditEvent (.responsePersisted response.id) now
      { payload := .reason (errorCategory response.errorType), runId := some lease.runId,
        questionId := some response.questionId, workerId := some lease.owner,
        attempt := some lease.attempt, leaseToken := some lease.token,
        durationMs := response.latencyMs }
    putRun { run with completedQuestions := (s.responsesOf lease.runId).length }
    return .inserted

/-- `request_cancel`. -/
def requestCancel (runId : RunId) (now : Time) : Tx CancelDisposition := do
  let s ← lockRun runId
  match s.runs.get? runId with
  | none => return .notFound
  | some run =>
    match run.status with
    | .pending =>
      putRun { run with cancellationRequested := true }
      appendAuditEvent (.runCancelRequested runId) now
        { payload := .empty, runId := some runId, modelId := some run.modelId }
      appendAuditEvent (.runTerminal runId .cancelled) now
        { payload := .terminal .cancelled .none, runId := some runId, modelId := some run.modelId }
      putRun ({ run with cancellationRequested := true }.cancelledPending (s.responsesOf runId) now)
      return .cancelled
    | .running =>
      putRun { run with cancellationRequested := true }
      appendAuditEvent (.leaseCancelRequested runId run.leaseToken) now
        { payload := .empty, runId := some runId, modelId := some run.modelId,
          workerId := run.leaseOwner, attempt := some run.attemptCount,
          leaseToken := some run.leaseToken }
      return .requested
    | _ => return .terminal

/-- `finish_cancelled`, before its reconciliation. -/
def finishCancelled (lease : RunLease) (now : Time) : Tx Bool := do
  let (s, run?) ← lockedRun lease now
  match run? with
  | none => return false
  | some run =>
    if run.cancellationRequested then
      appendAuditEvent (.runTerminal run.id .cancelled) now
        (leaseFacts lease run (.terminal .cancelled .none))
      putRun (run.cancelledByOwner (s.responsesOf run.id) now)
      return true
    else
      return false

/-- `record_notification_result`. -/
def recordNotificationResult (runId : RunId) (published : Bool) (now : Time) : Tx Bool := do
  let s ← lockRun runId
  match s.runs.get? runId with
  | none => return false
  | some run =>
    if run.status = .pending ∧ run.attemptCount = 0 then
      putRun { run with
        lastError := if published then none else some .queueNotificationUnavailable
        lastEnqueuedAt := if published then some now else run.lastEnqueuedAt }
      appendAuditEvent (.queueNotification runId published) now
        { payload := .published published, runId := some runId, modelId := some run.modelId }
      return true
    else
      return false

/-! ## Ends of an attempt -/

/-- `fail_attempt`, before its reconciliation. -/
def failAttempt (lease : RunLease) (safeError : ErrorCode) (now : Time) :
    Tx AttemptDisposition := do
  let (s, run?) ← lockedRun lease now
  match run? with
  | none => return .fenceLost
  | some run =>
    let rs := s.responsesOf run.id
    if run.cancellationRequested then
      appendAuditEvent (.runTerminal run.id .cancelled) now
        (leaseFacts lease run (.terminal .cancelled .workerError))
      putRun (run.cancelledByOwner rs now)
      return .cancelled
    let run := aggregateRunEvidence rs { run with lastError := some safeError }
    if run.completedQuestions = run.totalQuestions then
      appendAuditEvent (.runTerminal run.id .completed) now
        (leaseFacts lease run (.terminal .completed .workerError))
      putRun (run.completeFromEvidence now)
      return .recoveredCompleted
    let run := { run with failedAttemptCount := run.failedAttemptCount + 1 }
    if run.maxAttempts ≤ run.failedAttemptCount then
      appendAuditEvent (.runDeadLettered run.id) now
        (leaseFacts lease run (.failedAttempts run.failedAttemptCount .workerError))
      appendAuditEvent (.runTerminal run.id .failed) now
        (leaseFacts lease run (.terminal .failed .workerError))
      putRun (run.deadLettered now safeError)
      return .deadLettered
    else
      beginNewExecutionGeneration run.id
      appendAuditEvent (.runRetryScheduled run.id run.failedAttemptCount) now
        (leaseFacts lease run (.failedAttempts run.failedAttemptCount .workerError))
      putRun (run.retryScheduled cfg now)
      return .retryScheduled

/-- `defer_governance`, before its reconciliation. -/
def deferGovernance (lease : RunLease) (safeReason : ErrorCode) (notBefore now : Time) :
    Tx AttemptDisposition := do
  let (_, run?) ← lockedRun lease now
  match run? with
  | none => return .fenceLost
  | some run =>
    appendAuditEvent (.runDeferred run.id lease.token) now
      (leaseFacts lease run (.deferred notBefore))
    putRun (run.deferred safeReason notBefore)
    return .governanceDeferred

/-- `cooperative_yield`, before its reconciliation. -/
def cooperativeYield (lease : RunLease) (responsesAdded : ℕ) (now : Time) :
    Tx AttemptDisposition := do
  let (_, run?) ← lockedRun lease now
  match run? with
  | none => return .fenceLost
  | some run =>
    appendAuditEvent (.runYielded run.id lease.token) now
      (leaseFacts lease run (.yielded responsesAdded))
    putRun (run.yielded now)
    return .cooperativeYield

/-- `exhaust_governance`, before its reconciliation. -/
def exhaustGovernance (lease : RunLease) (safeReason : ErrorCode) (integrityError : Bool)
    (now : Time) : Tx AttemptDisposition := do
  let (s, run?) ← lockedRun lease now
  match run? with
  | none => return .fenceLost
  | some run =>
    if integrityError then
      appendAuditEvent (.leaseGovernanceIntegrity run.id lease.token) now
        (leaseFacts lease run (.reason .governanceIntegrityError))
    appendAuditEvent (.runTerminal run.id .failed) now
      (leaseFacts lease run (.terminal .failed
        (if integrityError then .governanceIntegrityError else .governanceExhausted)))
    putRun (run.exhausted (s.responsesOf run.id) safeReason now)
    return .governanceExhausted

/-- `EvaluationRunner._finish`: the Runner passes COMPLETED, or CANCELLED when
an earlier transaction saw the cancellation flag. -/
def finishRun (lease : RunLease) (status : RunStatus) (now finishedAt : Time) :
    Tx (Option RunStatus) := do
  let (s, run?) ← lockedRun lease now
  match run? with
  | none => return none
  | some run =>
    let rs := s.responsesOf run.id
    if status = .completed ∧ ¬ run.cancellationRequested ∧ rs.length ≠ run.totalQuestions then
      Prog.raise .runResponseSetIncomplete
    let run' := run.finished rs status finishedAt
    appendAuditEvent (.runTerminal run.id run'.status) finishedAt
      { leaseFacts lease run (.terminal run'.status .none) with
        durationMs := run.startedAt.map fun t => ((finishedAt - t : ℕ) : ℚ) / 1000 }
    putRun run'
    return some run'.status

/-! ## The reaper -/

/-- The scan of `reap_expired`: expired leases, the oldest expiry first. -/
def expiredRows (limit : ℕ) (scanNow : Time) (s : Store) : List (RunId × ℕ) :=
  (((s.runs.rows.filter fun r : Run => r.leaseExpired scanNow).insertionSort
      fun a b : Run => a.leaseExpiresAt.getD 0 < b.leaseExpiresAt.getD 0 ∨
        (a.leaseExpiresAt.getD 0 = b.leaseExpiresAt.getD 0 ∧ a.id ≤ b.id)).take limit).map
    fun r : Run => (r.id, r.leaseToken)

/-- What the reaper did to one scanned row. -/
inductive ReapOutcome : Type where
  | skipped | cancelled | completed | deadLettered | retryScheduled
  deriving DecidableEq, Repr

/-- The columns of a reaper event. -/
def reapFacts (run : Run) (payload : AuditPayload) : AuditFacts :=
  { payload, runId := some run.id, modelId := some run.modelId, attempt := some run.attemptCount,
    leaseToken := some run.leaseToken }

/-- The loop body of the reaping transaction. -/
def reapRow (row : RunId × ℕ) (now : Time) : Tx ReapOutcome := do
  let s ← lockRun row.1
  match s.runs.get? row.1 with
  | none => return .skipped
  | some run =>
    if ¬ (run.leaseExpired now ∧ run.leaseToken = row.2) then
      return .skipped
    let rs := s.responsesOf run.id
    if run.cancellationRequested then
      appendAuditEvent (.runTerminal run.id .cancelled) now
        (reapFacts run (.terminal .cancelled .leaseExpired))
      putRun (run.reapedCancelled rs now)
      return .cancelled
    let run := aggregateRunEvidence rs run
    if run.completedQuestions = run.totalQuestions then
      appendAuditEvent (.runTerminal run.id .completed) now
        (reapFacts run (.terminal .completed .leaseExpired))
      putRun (run.completeFromEvidence now)
      return .completed
    let run := { run with
      failedAttemptCount := run.failedAttemptCount + 1, lastError := some .workerLeaseExpired }
    if run.maxAttempts ≤ run.failedAttemptCount then
      appendAuditEvent (.runDeadLettered run.id) now
        (reapFacts run (.failedAttempts run.failedAttemptCount .leaseExpired))
      appendAuditEvent (.runTerminal run.id .failed) now
        (reapFacts run (.terminal .failed .leaseExpired))
      putRun (run.deadLettered now .workerLeaseExpiredRetryExhausted)
      return .deadLettered
    else
      beginNewExecutionGeneration run.id
      appendAuditEvent (.runRetryScheduled run.id run.failedAttemptCount) now
        (reapFacts run (.failedAttempts run.failedAttemptCount .leaseExpired))
      putRun (run.retryScheduled cfg now)
      return .retryScheduled

/-- The reaping transaction over the scanned rows. -/
def reap (now : Time) : List (RunId × ℕ) → Tx (List ReapOutcome)
  | [] => .ret []
  | row :: rows => (reapRow cfg row now).bind fun o => (reap now rows).bind fun os => .ret (o :: os)

end RunLeases

end LLMBenchLab
