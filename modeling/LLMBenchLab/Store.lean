import Mathlib.Data.Rat.Defs
import Mathlib.Algebra.Order.Ring.Rat
import LLMBenchLab.Table
import LLMBenchLab.Transaction

/-!
# The store: tables, rows and constraints

The tables of `backend/app/models` that Run execution and Provider governance
read and write. Identifiers are numbers (the source's are UUID strings; only
their equality and, for reservations, their order matter), instants are
microseconds, and a USD amount is a number of `_MONEY_QUANTUM`s, i.e. of
`0.00000001` dollars.

A governance scope and a minute bucket are addressed by their unique columns,
`(scope_type, scope_key)` and `(scope_id, policy_id, window_start)`; a question
execution by `(run_id, question_id)`. A reservation refers to its scopes by
their keys, one column a scope type, so that it cannot refer to a scope of the
wrong type; the four columns that `question_execution_coherent` allows to be
null only together are the one option `question`.

Columns whose `CHECK` is `>= 0` and that no code path decrements are natural
numbers. Everything else the tables check is `Store.ok`, and `schema` makes a
violated check the exception the database raises.
-/

namespace LLMBenchLab

open Relational

abbrev RunId : Type := ℕ
abbrev ModelId : Type := ℕ
abbrev BenchmarkId : Type := ℕ
abbrev QuestionId : Type := ℕ
abbrev PolicyId : Type := ℕ
abbrev ReservationId : Type := ℕ
abbrev ResponseId : Type := ℕ
/-- A `scope_key`: the global key, an opaque provider key, a Model or a Run id. -/
abbrev ScopeKey : Type := ℕ
/-- A Worker identity. -/
abbrev Owner : Type := ℕ
/-- Microseconds of UTC. -/
abbrev Time : Type := ℕ
/-- A SHA-256 digest. -/
abbrev Digest : Type := ℕ

/-! ## Enumerations -/

inductive RunStatus : Type where
  | pending | running | completed | failed | cancelled
  deriving DecidableEq, Repr

/-- `TERMINAL_RUN_STATUSES`. -/
def RunStatus.terminal : RunStatus → Bool
  | .completed | .failed | .cancelled => true
  | .pending | .running => false

inductive GovernanceRunStatus : Type where
  | legacyUnmanaged | managed | delayed | exhausted
  deriving DecidableEq, Repr

inductive ScopeType : Type where
  | global | provider | model | run
  deriving DecidableEq, Repr

/-- `_SCOPE_ORDER`. -/
def ScopeType.order : ScopeType → ℕ
  | .global => 0
  | .provider => 1
  | .model => 2
  | .run => 3

inductive ReservationState : Type where
  | reserved | sendStarted | settledActual | settledConservative | releasedPreSend
  deriving DecidableEq, Repr

namespace ReservationState

/-- `_ACTIVE_STATES`. -/
def active : ReservationState → Bool
  | reserved | sendStarted => true
  | _ => false

/-- `_SETTLED_STATES`. -/
def settled : ReservationState → Bool
  | settledActual | settledConservative => true
  | _ => false

/-- `_CONSUMED_REQUEST_STATES`: the Provider may have seen the request. -/
def consumedRequest : ReservationState → Bool
  | sendStarted | settledActual | settledConservative => true
  | _ => false

end ReservationState

/-- `ProviderAttemptDisposition`. -/
inductive Disposition : Type where
  | releasedPreSend | settledActual | settledConservative
  deriving DecidableEq, Repr

/-- Outcome codes of a terminal reservation: those of `ProviderAttemptOutcome`
and those the repository writes itself. -/
inductive Outcome : Type where
  | succeeded | usageIncomplete | transportError | httpError | providerResponseError
  | cancelled | markSendFailed | unexpectedError
  | releasedPreSend | leaseReconciledPreSend | leaseReconciledUnknown
  deriving DecidableEq, Repr

/-- Sanitized error codes: the fixed ones, and one handed in by a caller
(`_safe_error_code` applied). -/
inductive ErrorCode : Type where
  | workerLeaseExpired | workerLeaseExpiredRetryExhausted | governanceIntegrityError
  | queueNotificationUnavailable
  | code (n : ℕ)
  deriving DecidableEq, Repr

/-! ## Policies -/

/-- A limit for each scope type. -/
structure PerScope (α : Type) where
  global : α
  provider : α
  model : α
  run : α
  deriving DecidableEq, Repr

/-- `getattr(policy, f"{prefix}_…")`. -/
def PerScope.get {α : Type} (p : PerScope α) : ScopeType → α
  | .global => p.global
  | .provider => p.provider
  | .model => p.model
  | .run => p.run

/-- The lifetime budgets of a global or a Run scope. -/
structure Budgets where
  requests : Option ℕ
  tokens : Option ℕ
  costUsd : Option ℕ
  deriving DecidableEq, Repr

/-- `_POLICY_FIELDS`, validated. -/
structure PolicyLimits where
  concurrencyLimit : PerScope (Option ℕ)
  requestsPerMinute : PerScope (Option ℕ)
  tokensPerMinute : PerScope (Option ℕ)
  globalLifetime : Budgets
  runLifetime : Budgets
  backlogLimit : ℕ
  questionQuantum : ℕ
  deriving DecidableEq, Repr

/-- An immutable, versioned set of admission limits. -/
structure Policy where
  id : PolicyId
  version : ℕ
  policyHash : Digest
  isActive : Bool
  limits : PolicyLimits
  activatedAt : Option Time
  createdAt : Time
  deriving DecidableEq, Repr

/-- `_policy_snapshot`: what a Run freezes of its policy. -/
structure PolicySnapshot where
  policyId : PolicyId
  policyVersion : ℕ
  policyHash : Digest
  limits : PolicyLimits
  deriving DecidableEq, Repr

def Policy.snapshot (p : Policy) : PolicySnapshot :=
  ⟨p.id, p.version, p.policyHash, p.limits⟩

/-- The Run override document frozen at admission. -/
structure RunOverrides where
  inputTokenReservation : Option ℕ
  lifetimeRequestBudget : Option ℕ
  lifetimeTokenBudget : Option ℕ
  lifetimeCostBudgetUsd : Option ℕ
  deriving DecidableEq, Repr

/-- `model_parameters_snapshot["governance"]`. -/
structure GovernanceSnapshot where
  policy : PolicySnapshot
  providerScopeKey : ScopeKey
  runOverrides : RunOverrides
  deriving DecidableEq, Repr

/-! ## Rows -/

/-- A Run. The metrics columns are rationals where the source has floats. -/
structure Run where
  id : RunId
  modelId : ModelId
  benchmarkId : BenchmarkId
  status : RunStatus
  /-- `model_parameters_snapshot["execution"]["retry_policy"]["max_attempts"]` -/
  retryMaxAttempts : Option ℕ
  governanceSnapshot : Option GovernanceSnapshot
  totalQuestions : ℕ
  completedQuestions : ℕ
  correctQuestions : ℤ
  errorQuestions : ℕ
  score : Option ℚ
  completionRate : Option ℚ
  answeredAccuracy : Option ℚ
  averageLatencyMs : Option ℚ
  inputTokens : Option ℕ
  outputTokens : Option ℕ
  estimatedCost : Option ℚ
  cancellationRequested : Bool
  attemptCount : ℕ
  maxAttempts : ℕ
  failedAttemptCount : ℕ
  dispatchCount : ℕ
  lastScheduledAt : Option Time
  governancePolicyId : Option PolicyId
  governanceStatus : GovernanceRunStatus
  governanceReason : Option ErrorCode
  governanceNotBefore : Option Time
  inputTokenReservation : Option ℕ
  lifetimeRequestBudget : Option ℕ
  lifetimeTokenBudget : Option ℕ
  lifetimeCostBudgetUsd : Option ℕ
  leaseOwner : Option Owner
  leaseToken : ℕ
  leaseExpiresAt : Option Time
  heartbeatAt : Option Time
  nextAttemptAt : Option Time
  lastEnqueuedAt : Option Time
  lastError : Option ErrorCode
  deadLetteredAt : Option Time
  startedAt : Option Time
  finishedAt : Option Time
  createdAt : Time
  errorMessage : Option ErrorCode

instance : Keyed Run RunId := ⟨Run.id⟩

/-- `_run_override_snapshot`. -/
def Run.overrideSnapshot (r : Run) : RunOverrides :=
  ⟨r.inputTokenReservation, r.lifetimeRequestBudget, r.lifetimeTokenBudget,
    r.lifetimeCostBudgetUsd⟩

/-- Persisted evidence for one evaluated question. -/
structure Response where
  id : ResponseId
  runId : RunId
  questionId : QuestionId
  rawResponse : Option String
  score : ℚ
  latencyMs : Option ℚ
  inputTokens : Option ℕ
  outputTokens : Option ℕ
  estimatedCost : Option ℚ
  errorType : Option String

instance : Keyed Response ResponseId := ⟨Response.id⟩

/-- The unique columns of a question execution. -/
structure ExecutionKey where
  runId : RunId
  questionId : QuestionId
  deriving DecidableEq, Repr

/-- Persistent retry generation and ordinal of a question. -/
structure QuestionExecution where
  runId : RunId
  questionId : QuestionId
  executionGeneration : ℕ
  nextProviderAttempt : ℕ
  firstAttemptAt : Option Time
  retryNotBefore : Option Time
  deriving DecidableEq, Repr

instance : Keyed QuestionExecution ExecutionKey := ⟨fun x => ⟨x.runId, x.questionId⟩⟩

instance : Keyed Policy PolicyId := ⟨Policy.id⟩

/-- The unique columns of a governance scope. -/
structure ScopeId where
  scopeType : ScopeType
  scopeKey : ScopeKey
  deriving DecidableEq, Repr

/-- A lock anchor with ledger-recomputable materialized totals. -/
structure Scope where
  id : ScopeId
  activeReservations : ℤ
  reservedRequests : ℤ
  reservedInputTokens : ℤ
  reservedOutputTokens : ℤ
  reservedCostUsd : ℤ
  consumedRequests : ℤ
  consumedInputTokens : ℤ
  consumedOutputTokens : ℤ
  consumedCostUsd : ℤ
  overdrawn : Bool
  deriving DecidableEq, Repr

instance : Keyed Scope ScopeId := ⟨Scope.id⟩

/-- The unique columns of a minute bucket. -/
structure BucketKey where
  scopeId : ScopeId
  policyId : PolicyId
  windowStart : Time
  deriving DecidableEq, Repr

/-- Per-policy fixed UTC-minute materialization for one scope. -/
structure Bucket where
  key : BucketKey
  reservedRequests : ℤ
  reservedInputTokens : ℤ
  reservedOutputTokens : ℤ
  consumedRequests : ℤ
  consumedInputTokens : ℤ
  consumedOutputTokens : ℤ
  deriving DecidableEq, Repr

instance : Keyed Bucket BucketKey := ⟨Bucket.key⟩

/-- The question columns of a reservation: null together or not at all. -/
structure QuestionRef where
  runId : RunId
  questionId : QuestionId
  runScope : ScopeKey
  deriving DecidableEq, Repr

/-- One row of the never-delete ledger: one logical Provider attempt. -/
structure Reservation where
  id : ReservationId
  policyId : PolicyId
  question : Option QuestionRef
  modelId : ModelId
  globalScope : ScopeKey
  providerScope : ScopeKey
  modelScope : ScopeKey
  executionGeneration : ℕ
  providerAttempt : ℕ
  leaseOwner : Option Owner
  leaseToken : Option ℕ
  state : ReservationState
  leaseExpiresAt : Option Time
  windowStart : Time
  reservedInputTokens : Option ℕ
  reservedOutputTokens : Option ℕ
  reservedCostUsd : Option ℕ
  actualInputTokens : Option ℕ
  actualOutputTokens : Option ℕ
  actualCostUsd : Option ℕ
  outcomeCode : Option Outcome
  sendStartedAt : Option Time
  settledAt : Option Time
  deriving DecidableEq, Repr

instance : Keyed Reservation ReservationId := ⟨Reservation.id⟩

namespace Reservation

def runId (r : Reservation) : Option RunId := r.question.map QuestionRef.runId

def questionId (r : Reservation) : Option QuestionId := r.question.map QuestionRef.questionId

/-- The scopes a row refers to: three, and a fourth when it belongs to a Run. -/
def scopeIds (r : Reservation) : List ScopeId :=
  [⟨.global, r.globalScope⟩, ⟨.provider, r.providerScope⟩, ⟨.model, r.modelScope⟩] ++
    (r.question.map fun q => (⟨.run, q.runScope⟩ : ScopeId)).toList

/-- The minute bucket of a row for one of its scopes. -/
def bucketKey (r : Reservation) (i : ScopeId) : BucketKey := ⟨i, r.policyId, r.windowStart⟩

def bucketKeys (r : Reservation) : List BucketKey := r.scopeIds.map r.bucketKey

end Reservation

/-! ## Audit events -/

/-- `event_key`s, by the transition that writes them. -/
inductive EventKey : Type where
  | policyBootstrapped (p : PolicyId)
  | policyActivated (p : PolicyId) (uuid : ℕ)
  | runAdmitted (r : RunId)
  | runClaimed (r : RunId) (token : ℕ)
  | runCancelRequested (r : RunId)
  | leaseCancelRequested (r : RunId) (token : ℕ)
  | runTerminal (r : RunId) (status : RunStatus)
  | runRetryScheduled (r : RunId) (failedAttempt : ℕ)
  | runDeadLettered (r : RunId)
  | runDeferred (r : RunId) (token : ℕ)
  | runYielded (r : RunId) (token : ℕ)
  | leaseGovernanceIntegrity (r : RunId) (token : ℕ)
  | leaseReconciled (r : RunId) (token : ℕ)
  | responsePersisted (r : ResponseId)
  | reservationReserved (r : ReservationId)
  | reservationSendStarted (r : ReservationId)
  | reservationSettled (r : ReservationId)
  | queueNotification (r : RunId) (published : Bool)
  | governanceIntegrity (uuid : ℕ)
  deriving DecidableEq, Repr

/-- The `reason` and `error_code` enumerations of audit payloads. -/
inductive AuditReason : Type where
  | none | workerError | leaseExpired | governanceDeferred | governanceExhausted
  | governanceIntegrityError | parseError | evaluatorError | internalError | adapterError
  deriving DecidableEq, Repr

/-- Typed payloads. -/
inductive AuditPayload : Type where
  | empty
  | policy (version : ℕ) (hash : Digest)
  | admitted (policyVersion backlogCount questionQuantum : ℕ)
  | dispatch (count : ℕ)
  | reserved (inputTokens outputTokens costUsd : Option ℕ)
  | settled (disposition : ReservationState) (outcome : Outcome)
      (inputTokens outputTokens costUsd : Option ℕ) (reconciled : Bool)
  | reconciled (released conservative : ℕ)
  | terminal (status : RunStatus) (reason : AuditReason)
  | failedAttempts (count : ℕ) (reason : AuditReason)
  | deferred (notBefore : Time)
  | yielded (responsesAdded : ℕ)
  | reason (reason : AuditReason)
  | published (published : Bool)
  deriving DecidableEq, Repr

/-- The facts an event key stands for: everything `_event_matches` compares. -/
structure AuditFacts where
  payload : AuditPayload
  runId : Option RunId := none
  modelId : Option ModelId := none
  questionId : Option QuestionId := none
  workerId : Option Owner := none
  reservationId : Option ReservationId := none
  attempt : Option ℕ := none
  providerAttempt : Option ℕ := none
  leaseToken : Option ℕ := none
  durationMs : Option ℚ := none
  deriving DecidableEq

/-- An append-only audit event. -/
structure AuditEvent where
  eventKey : EventKey
  occurredAt : Time
  facts : AuditFacts

instance : Keyed AuditEvent EventKey := ⟨AuditEvent.eventKey⟩

/-! ## The store -/

/-- The attempt ledger with the counters materialized from it. -/
structure Ledger where
  scopes : Table Scope
  buckets : Table Bucket
  reservations : Table Reservation

/-- All tables. -/
structure Store where
  policies : Table Policy
  runs : Table Run
  responses : Table Response
  executions : Table QuestionExecution
  ledger : Ledger
  audit : Table AuditEvent

/-- The store of a fresh database. -/
def Store.empty : Store :=
  ⟨.empty, .empty, .empty, .empty, ⟨.empty, .empty, .empty⟩, .empty⟩

/-- The Responses of a Run. -/
def Store.responsesOf (s : Store) (r : RunId) : List Response :=
  s.responses.rows.filter fun x => x.runId == r

/-! ## Exceptions -/

/-- Codes of `GovernanceIntegrityError`. -/
inductive IntegrityCode : Type where
  | multipleActivePolicies | activePolicyMissing | policyHashMismatch
  | runPolicyMissing | policyMissing | questionExecutionMissing
  | runSnapshotMismatch | runOverrideSnapshotMismatch
  | reservationMissing | reservationRunMissing | scopeMissing | minuteBucketMissing
  | scopeCounterDrift | minuteBucketCounterDrift
  | databaseClockReversed | releaseAfterSend | settleBeforeSend | questionRetryCursorMismatch
  deriving DecidableEq, Repr

/-- Codes of `GovernanceExhausted`. -/
inductive ExhaustedCode : Type where
  | providerRetryExhausted | inputBoundUnknown | unboundedOutput | pricingUnknown
  | overdrawn (t : ScopeType)
  | requestBudgetExhausted (t : ScopeType)
  | tokenBudgetExhausted (t : ScopeType)
  | costBudgetExhausted (t : ScopeType)
  deriving DecidableEq, Repr

/-- Codes of `GovernanceDeferred`. -/
inductive DeferredCode : Type where
  | concurrency (t : ScopeType) | rpm (t : ScopeType) | tpm (t : ScopeType)
  deriving DecidableEq, Repr

/-- What ends a transaction without a commit. -/
inductive Err : Type where
  | value
  | backlogFull (limit : ℕ)
  | deferred (code : DeferredCode) (notBefore : Time)
  | exhausted (code : ExhaustedCode)
  | fenceLost
  | settlementUnknown
  | integrity (code : IntegrityCode)
  | auditConflict
  | runResponseSetIncomplete
  | rowMissing
  /-- a `UNIQUE` or primary-key violation of the named insert -/
  | duplicateKey
  /-- a violated `CHECK` -/
  | checkViolation
  deriving DecidableEq, Repr

/-! ## Constraints -/

/-- `EvaluationRun.__table_args__`. -/
structure Run.Checks (r : Run) : Prop where
  completedNotAboveTotal : r.completedQuestions ≤ r.totalQuestions
  correctNonnegative : 0 ≤ r.correctQuestions
  correctNotAboveCompleted : r.correctQuestions ≤ r.completedQuestions
  errorsNotAboveCompleted : r.errorQuestions ≤ r.completedQuestions
  scoreRange : ∀ x ∈ r.score, 0 ≤ x ∧ x ≤ 100
  completionRateRange : ∀ x ∈ r.completionRate, 0 ≤ x ∧ x ≤ 100
  answeredAccuracyRange : ∀ x ∈ r.answeredAccuracy, 0 ≤ x ∧ x ≤ 100
  estimatedCostNonnegative : ∀ x ∈ r.estimatedCost, 0 ≤ x
  maxAttemptsPositive : 1 ≤ r.maxAttempts
  failedAttemptCountWithinLimit : r.failedAttemptCount ≤ r.maxAttempts
  leaseMatchesRunningStatus :
    (r.status = .running ∧ r.leaseOwner.isSome ∧ r.leaseExpiresAt.isSome ∧ r.heartbeatAt.isSome) ∨
    (r.status ≠ .running ∧ r.leaseOwner = none ∧ r.leaseExpiresAt = none ∧ r.heartbeatAt = none)
  nextAttemptOnlyPending : r.nextAttemptAt = none ∨ r.status = .pending
  deadLetterOnlyFailed : r.deadLetteredAt = none ∨ r.status = .failed
  governancePolicyMatchesStatus :
    (r.governanceStatus = .legacyUnmanaged ∧ r.governancePolicyId = none) ∨
    (r.governanceStatus ≠ .legacyUnmanaged ∧ r.governancePolicyId.isSome)
  governanceDelayMatchesPending :
    r.governanceNotBefore = none ∨ (r.status = .pending ∧ r.governanceStatus = .delayed)
  governanceExhaustedIsFailed : r.governanceStatus ≠ .exhausted ∨ r.status = .failed

theorem Run.checks_iff (r : Run) :
    r.Checks ↔
      r.completedQuestions ≤ r.totalQuestions ∧ 0 ≤ r.correctQuestions ∧
      r.correctQuestions ≤ r.completedQuestions ∧ r.errorQuestions ≤ r.completedQuestions ∧
      (∀ x ∈ r.score, 0 ≤ x ∧ x ≤ 100) ∧ (∀ x ∈ r.completionRate, 0 ≤ x ∧ x ≤ 100) ∧
      (∀ x ∈ r.answeredAccuracy, 0 ≤ x ∧ x ≤ 100) ∧ (∀ x ∈ r.estimatedCost, 0 ≤ x) ∧
      1 ≤ r.maxAttempts ∧ r.failedAttemptCount ≤ r.maxAttempts ∧
      ((r.status = .running ∧ r.leaseOwner.isSome ∧ r.leaseExpiresAt.isSome ∧
          r.heartbeatAt.isSome) ∨
        (r.status ≠ .running ∧ r.leaseOwner = none ∧ r.leaseExpiresAt = none ∧
          r.heartbeatAt = none)) ∧
      (r.nextAttemptAt = none ∨ r.status = .pending) ∧
      (r.deadLetteredAt = none ∨ r.status = .failed) ∧
      ((r.governanceStatus = .legacyUnmanaged ∧ r.governancePolicyId = none) ∨
        (r.governanceStatus ≠ .legacyUnmanaged ∧ r.governancePolicyId.isSome)) ∧
      (r.governanceNotBefore = none ∨ (r.status = .pending ∧ r.governanceStatus = .delayed)) ∧
      (r.governanceStatus ≠ .exhausted ∨ r.status = .failed) := by
  constructor
  · rintro ⟨h₁, h₂, h₃, h₄, h₅, h₆, h₇, h₈, h₉, h₁₀, h₁₁, h₁₂, h₁₃, h₁₄, h₁₅, h₁₆⟩
    exact ⟨h₁, h₂, h₃, h₄, h₅, h₆, h₇, h₈, h₉, h₁₀, h₁₁, h₁₂, h₁₃, h₁₄, h₁₅, h₁₆⟩
  · rintro ⟨h₁, h₂, h₃, h₄, h₅, h₆, h₇, h₈, h₉, h₁₀, h₁₁, h₁₂, h₁₃, h₁₄, h₁₅, h₁₆⟩
    exact ⟨h₁, h₂, h₃, h₄, h₅, h₆, h₇, h₈, h₉, h₁₀, h₁₁, h₁₂, h₁₃, h₁₄, h₁₅, h₁₆⟩

instance (r : Run) : Decidable r.Checks := decidable_of_iff _ r.checks_iff.symm

/-- `EvaluationResponse.__table_args__`. -/
def Response.Checks (x : Response) : Prop :=
  (0 ≤ x.score ∧ x.score ≤ 1) ∧ (∀ y ∈ x.latencyMs, 0 ≤ y) ∧ (∀ y ∈ x.estimatedCost, 0 ≤ y)

instance (x : Response) : Decidable x.Checks :=
  inferInstanceAs (Decidable (_ ∧ _ ∧ _))

/-- `QuestionExecution.__table_args__`. -/
def QuestionExecution.Checks (x : QuestionExecution) : Prop := 1 ≤ x.nextProviderAttempt

instance (x : QuestionExecution) : Decidable x.Checks := inferInstanceAs (Decidable (_ ≤ _))

/-- `GovernanceScope.__table_args__`: no counter is negative. -/
def Scope.Checks (x : Scope) : Prop :=
  0 ≤ x.activeReservations ∧ 0 ≤ x.reservedRequests ∧ 0 ≤ x.reservedInputTokens ∧
  0 ≤ x.reservedOutputTokens ∧ 0 ≤ x.consumedRequests ∧ 0 ≤ x.consumedInputTokens ∧
  0 ≤ x.consumedOutputTokens ∧ 0 ≤ x.reservedCostUsd ∧ 0 ≤ x.consumedCostUsd

instance (x : Scope) : Decidable x.Checks := inferInstanceAs (Decidable (_ ∧ _))

/-- `GovernanceMinuteBucket.__table_args__`. -/
def Bucket.Checks (x : Bucket) : Prop :=
  0 ≤ x.reservedRequests ∧ 0 ≤ x.reservedInputTokens ∧ 0 ≤ x.reservedOutputTokens ∧
  0 ≤ x.consumedRequests ∧ 0 ≤ x.consumedInputTokens ∧ 0 ≤ x.consumedOutputTokens

instance (x : Bucket) : Decidable x.Checks := inferInstanceAs (Decidable (_ ∧ _))

/-- `ProviderCallReservation.__table_args__`: `state_timestamps_coherent` and
`provider_attempt_positive`. -/
def Reservation.Checks (x : Reservation) : Prop :=
  1 ≤ x.providerAttempt ∧
  match x.state with
  | .reserved => x.sendStartedAt = none ∧ x.settledAt = none
  | .sendStarted => x.sendStartedAt.isSome ∧ x.settledAt = none
  | .releasedPreSend => x.sendStartedAt = none ∧ x.settledAt.isSome
  | .settledActual | .settledConservative => x.sendStartedAt.isSome ∧ x.settledAt.isSome

instance (x : Reservation) : Decidable x.Checks :=
  have (y : Reservation) : Decidable (match x.state with
      | .reserved => y.sendStartedAt = none ∧ y.settledAt = none
      | .sendStarted => y.sendStartedAt.isSome ∧ y.settledAt = none
      | .releasedPreSend => y.sendStartedAt = none ∧ y.settledAt.isSome
      | .settledActual | .settledConservative => y.sendStartedAt.isSome ∧ y.settledAt.isSome) :=
    match x.state with
    | .reserved | .sendStarted | .releasedPreSend | .settledActual | .settledConservative =>
      inferInstanceAs (Decidable (_ ∧ _))
  inferInstanceAs (Decidable (_ ∧ _))

/-- `GovernancePolicy.__table_args__`. -/
def Policy.Checks (x : Policy) : Prop :=
  1 ≤ x.version ∧ 1 ≤ x.limits.questionQuantum ∧ (x.isActive = false ∨ x.activatedAt.isSome)

instance (x : Policy) : Decidable x.Checks := inferInstanceAs (Decidable (_ ∧ _))

/-- Every row satisfies the checks of its table. -/
def Store.ok (s : Store) : Bool :=
  s.policies.rows.all (fun x => decide x.Checks) &&
  s.runs.rows.all (fun x => decide x.Checks) &&
  s.responses.rows.all (fun x => decide x.Checks) &&
  s.executions.rows.all (fun x => decide x.Checks) &&
  s.ledger.scopes.rows.all (fun x => decide x.Checks) &&
  s.ledger.buckets.rows.all (fun x => decide x.Checks) &&
  s.ledger.reservations.rows.all (fun x => decide x.Checks)

/-- The database schema. -/
def schema : Prog.Schema Store Err := ⟨Store.ok, .checkViolation⟩

/-! ## Transactions -/

/-- Rows that `FOR UPDATE` locks. -/
inductive LockKey : Type where
  | policy (p : PolicyId)
  | run (r : RunId)
  | execution (k : ExecutionKey)
  | scope (i : ScopeId)
  | bucket (k : BucketKey)
  | reservation (r : ReservationId)
  deriving DecidableEq, Repr

/-- A transaction of this store; the rows a session holds unlocked that matter
are reservations. -/
abbrev Tx (α : Type) : Type := Prog Store (List Reservation) LockKey Err α

/-- A pure validation as part of a transaction. -/
def Tx.ofExcept {α : Type} : Except Err α → Tx α
  | .ok a => .ret a
  | .error e => .raise e

/-- `append_audit_event`: insert, or replay the same facts under the same key. -/
def appendAuditEvent (key : EventKey) (now : Time) (facts : AuditFacts) : Tx Unit :=
  .query fun s =>
    match s.audit.get? key with
    | none => .flush fun s => { s with audit := s.audit.insert ⟨key, now, facts⟩ }
    | some e => .ensure (decide (e.facts = facts)) .auditConflict

end LLMBenchLab
