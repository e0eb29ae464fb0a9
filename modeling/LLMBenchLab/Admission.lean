import LLMBenchLab.Ledger

/-!
# Admission: policies, scopes and limits

`GovernanceRepository` (`governance/repository.py`) up to `question_context`,
with the statements all its methods share: `_lock_scopes`, `_lock_buckets`, the
two materialization checks and the two limit checks.

`INSERT … ON CONFLICT DO NOTHING` is a write; the wait for a concurrent insert
of the same key is left to the `FOR UPDATE` that follows it.
-/

namespace LLMBenchLab

open Relational

/-! ## Validated inputs -/

def int32Max : ℤ := 2 ^ 31 - 1

def int64Max : ℤ := 2 ^ 63 - 1

/-- `_MONEY_MAX`, in quanta. -/
def moneyMax : ℤ := 10000000 * 10 ^ 8

/-- `_minute_start`. -/
def minuteStart (t : Time) : Time := t / 60000000 * 60000000

/-- `_nonnegative_int`. -/
def nonnegativeInt : Option ℤ → Except Err (Option ℕ)
  | none => .ok none
  | some v => if 0 ≤ v ∧ v ≤ int64Max then .ok (some v.toNat) else .error .value

/-- `_nonnegative_money`: a USD amount rounded up to whole quanta. -/
def nonnegativeMoney (v : ℚ) : Except Err ℕ :=
  if v < 0 then .error .value
  else
    let n := ⌈v * 10 ^ 8⌉
    if moneyMax < n then .error .value else .ok n.toNat

/-- `_nonnegative_money` of an optional amount. -/
def nonnegativeMoney? : Option ℚ → Except Err (Option ℕ)
  | none => .ok none
  | some v => (nonnegativeMoney v).map some

/-- Lifetime budgets as a policy document gives them. -/
structure BudgetValues where
  requests : Option ℤ
  tokens : Option ℤ
  costUsd : Option ℚ

/-- A policy document with the complete supported field set. -/
structure PolicyValues where
  concurrencyLimit : PerScope (Option ℤ)
  requestsPerMinute : PerScope (Option ℤ)
  tokensPerMinute : PerScope (Option ℤ)
  globalLifetime : BudgetValues
  runLifetime : BudgetValues
  backlogLimit : Option ℤ
  questionQuantum : Option ℤ

/-- A policy integer between `minimum` and `maximum`. -/
def policyInt (minimum maximum v : ℤ) : Except Err ℕ :=
  if v ≤ maximum ∧ minimum ≤ v then .ok v.toNat else .error .value

/-- A nullable policy integer. -/
def policyInt? (maximum : ℤ) : Option ℤ → Except Err (Option ℕ)
  | none => .ok none
  | some v => (policyInt 0 maximum v).map some

/-- A policy integer that cannot be null. -/
def policyIntRequired (minimum : ℤ) : Option ℤ → Except Err ℕ
  | none => .error .value
  | some v => policyInt minimum int32Max v

/-- The same check for each scope type. -/
def PerScope.validate {α β : Type} (f : α → Except Err β) (p : PerScope α) :
    Except Err (PerScope β) := do
  return ⟨← f p.global, ← f p.provider, ← f p.model, ← f p.run⟩

def BudgetValues.validate (b : BudgetValues) : Except Err Budgets := do
  return ⟨← policyInt? int64Max b.requests, ← policyInt? int64Max b.tokens,
    ← nonnegativeMoney? b.costUsd⟩

/-- `_normalize_policy_values`. -/
def normalizePolicyValues (v : PolicyValues) : Except Err PolicyLimits := do
  return ⟨← v.concurrencyLimit.validate (policyInt? int32Max),
    ← v.requestsPerMinute.validate (policyInt? int64Max),
    ← v.tokensPerMinute.validate (policyInt? int64Max),
    ← v.globalLifetime.validate, ← v.runLifetime.validate,
    ← policyIntRequired 0 v.backlogLimit, ← policyIntRequired 1 v.questionQuantum⟩

/-! ## Limits -/

/-- What one attempt asks for. -/
structure AttemptAmounts where
  inputTokens : Option ℕ
  outputTokens : Option ℕ
  costUsd : Option ℕ
  deriving DecidableEq, Repr

/-- `new_tokens`. -/
def AttemptAmounts.tokens (a : AttemptAmounts) : ℤ := amount a.inputTokens + amount a.outputTokens

/-- `_stricter`. -/
def stricter : Option ℕ → Option ℕ → Option ℕ
  | some a, some b => some (min a b)
  | some a, none => some a
  | none, b => b

/-- `used + asked > limit`, for a limit that may be absent. -/
def above (limit : Option ℕ) (used asked : ℤ) : Bool :=
  limit.any fun l => decide ((l : ℤ) < used + asked)

def Scope.requests (x : Scope) : ℤ := x.reservedRequests + x.consumedRequests

/-- `lifetime_tokens`. -/
def Scope.tokens (x : Scope) : ℤ :=
  x.reservedInputTokens + x.reservedOutputTokens + x.consumedInputTokens + x.consumedOutputTokens

/-- `lifetime_cost`. -/
def Scope.cost (x : Scope) : ℤ := x.reservedCostUsd + x.consumedCostUsd

def Bucket.requests (x : Bucket) : ℤ := x.reservedRequests + x.consumedRequests

/-- `bucket_tokens`. -/
def Bucket.tokens (x : Bucket) : ℤ :=
  x.reservedInputTokens + x.reservedOutputTokens + x.consumedInputTokens + x.consumedOutputTokens

/-- The lifetime budgets of a scope type: the policy's, for a Run the stricter
of the policy's and its own. -/
def PolicyLimits.lifetime (l : PolicyLimits) (o : RunOverrides) : ScopeType → Option Budgets
  | .global => some l.globalLifetime
  | .run => some
      ⟨stricter l.runLifetime.requests o.lifetimeRequestBudget,
        stricter l.runLifetime.tokens o.lifetimeTokenBudget,
        stricter l.runLifetime.costUsd o.lifetimeCostBudgetUsd⟩
  | _ => none

/-- `hard_token_enabled`. -/
def PolicyLimits.hardToken (l : PolicyLimits) (scopes : List Scope) (o : RunOverrides) : Bool :=
  scopes.any (fun x => (l.tokensPerMinute.get x.id.scopeType).isSome) ||
    l.globalLifetime.tokens.isSome || l.runLifetime.tokens.isSome || o.lifetimeTokenBudget.isSome

/-- `hard_cost_enabled`. -/
def PolicyLimits.hardCost (l : PolicyLimits) (o : RunOverrides) : Bool :=
  l.globalLifetime.costUsd.isSome || l.runLifetime.costUsd.isSome ||
    o.lifetimeCostBudgetUsd.isSome

/-- `buckets[scope.id]`. -/
def bucketOf (buckets : List Bucket) (x : Scope) : Except Err Bucket :=
  match buckets.find? fun b => decide (b.key.scopeId = x.id) with
  | some b => .ok b
  | none => .error .rowMissing

/-- The two fixed-window checks of a scope. -/
def checkWindow (l : PolicyLimits) (x : Scope) (b : Bucket) (newTokens : ℤ) (windowEnd : Time) :
    Except Err Unit :=
  if above (l.requestsPerMinute.get x.id.scopeType) b.requests 1 then
    .error (.deferred (.rpm x.id.scopeType) windowEnd)
  else if above (l.tokensPerMinute.get x.id.scopeType) b.tokens newTokens then
    .error (.deferred (.tpm x.id.scopeType) windowEnd)
  else .ok ()

/-- The lifetime checks of a scope. -/
def checkLifetime (x : Scope) (b : Budgets) (a : AttemptAmounts) : Except Err Unit :=
  if above b.requests x.requests 1 then
    .error (.exhausted (.requestBudgetExhausted x.id.scopeType))
  else if above b.tokens x.tokens a.tokens then
    .error (.exhausted (.tokenBudgetExhausted x.id.scopeType))
  else if above b.costUsd x.cost (amount a.costUsd) then
    .error (.exhausted (.costBudgetExhausted x.id.scopeType))
  else .ok ()

/-- The loop body of `_check_limits`. -/
def checkScope (l : PolicyLimits) (o : RunOverrides) (buckets : List Bucket) (a : AttemptAmounts)
    (now : Time) (x : Scope) : Except Err Unit := do
  if x.overdrawn then
    .error (.exhausted (.overdrawn x.id.scopeType))
  if above (l.concurrencyLimit.get x.id.scopeType) x.activeReservations 1 then
    .error (.deferred (.concurrency x.id.scopeType) (now + 1000000))
  checkWindow l x (← bucketOf buckets x) a.tokens (minuteStart now + 60000000)
  match l.lifetime o x.id.scopeType with
  | none => .ok ()
  | some b => checkLifetime x b a

/-- `_check_limits`. -/
def checkLimits (l : PolicyLimits) (scopes : List Scope) (buckets : List Bucket)
    (a : AttemptAmounts) (o : RunOverrides) (now : Time) : Except Err Unit := do
  let bounded := l.hardToken scopes o || l.hardCost o
  if bounded && (o.inputTokenReservation.isNone || a.inputTokens.isNone) then
    .error (.exhausted .inputBoundUnknown)
  if bounded && a.outputTokens.isNone then
    .error (.exhausted .unboundedOutput)
  if l.hardCost o && a.costUsd.isNone then
    .error (.exhausted .pricingUnknown)
  scopes.forM (checkScope l o buckets a now)

/-- `_check_window_limits`. -/
def checkWindowLimits (l : PolicyLimits) (scopes : List Scope) (buckets : List Bucket)
    (newTokens : ℤ) (now : Time) : Except Err Unit :=
  scopes.forM fun x => do
    checkWindow l x (← bucketOf buckets x) newTokens (minuteStart now + 60000000)

namespace Governance

/-! ## Locks -/

/-- The key of the one global scope. -/
def globalKey : ScopeKey := 0

def globalScopeId : ScopeId := ⟨.global, globalKey⟩

/-- Scopes are locked by rank, then by key. -/
def scopeBefore (a b : ScopeId) : Prop :=
  a.scopeType.order < b.scopeType.order ∨
    (a.scopeType.order = b.scopeType.order ∧ a.scopeKey ≤ b.scopeKey)

instance : DecidableRel scopeBefore := fun _ _ => inferInstanceAs (Decidable (_ ∨ _))

/-- `sorted(set(ids), …)`. -/
def orderScopes (ids : List ScopeId) : List ScopeId := ids.dedup.insertionSort scopeBefore

/-- `_lock_scopes_by_id`, and `_lock_reservation_scopes` on the scopes of a row. -/
def lockScopesById (ids : List ScopeId) : Tx (List Scope) :=
  (Prog.forUpdate fun _ => (orderScopes ids).map LockKey.scope).bind fun s =>
    .ret (s.ledger.scopes.lookup (orderScopes ids))

/-- `INSERT … ON CONFLICT DO NOTHING` of a scope. -/
def insertScope (i : ScopeId) (s : Store) : Store :=
  { s with ledger := { s.ledger with scopes := s.ledger.scopes.insert (.zero i) } }

/-- `INSERT … ON CONFLICT DO NOTHING` of a bucket. -/
def insertBucket (k : BucketKey) (s : Store) : Store :=
  { s with ledger := { s.ledger with buckets := s.ledger.buckets.insert (.zero k) } }

/-- `_lock_scopes`. -/
def lockScopes (ids : List ScopeId) : Tx (List Scope) := do
  Prog.flush fun s => (orderScopes ids).foldl (fun s i => insertScope i s) s
  lockScopesById ids

/-- The bucket keys of scopes under a policy in a window. -/
def bucketKeysOf (scopes : List Scope) (policyId : PolicyId) (windowStart : Time) :
    List BucketKey :=
  scopes.map fun x => ⟨x.id, policyId, windowStart⟩

/-- `_lock_buckets`. -/
def lockBuckets (keys : List BucketKey) : Tx (List Bucket) := do
  Prog.flush fun s => keys.foldl (fun s k => insertBucket k s) s
  let s ← Prog.forUpdate fun _ => keys.map LockKey.bucket
  return s.ledger.buckets.lookup keys

/-- `_lock_existing_buckets`. A `SELECT` returns the session's own object for a
row that the session has edited; `dirty` are these objects. -/
def lockExistingBuckets (keys : List BucketKey) (dirty : List Bucket) : Tx (List Bucket) := do
  let s ← Prog.forUpdate fun _ => keys.map LockKey.bucket
  let buckets := (s.ledger.buckets.putAll dirty).lookup keys
  Prog.ensure (decide (buckets.length = keys.length)) (.integrity .minuteBucketMissing)
  return buckets

/-! ## Materialization checks -/

/-- `_validate_scope_materialization_locked`: the objects against the ledger as
a statement sees it. -/
def validateScopeMaterializationLocked (scopes : List Scope) : Tx Unit :=
  .query fun s => .ensure (decide (∀ x ∈ scopes, x.Materialized s)) (.integrity .scopeCounterDrift)

/-- `_validate_bucket_materialization_locked`. -/
def validateBucketMaterializationLocked (buckets : List Bucket) : Tx Unit :=
  .query fun s =>
    .ensure (decide (∀ x ∈ buckets, x.Materialized s)) (.integrity .minuteBucketCounterDrift)

/-! ## Policies -/

variable (cfg : Config)

/-- `_validate_policy_integrity`. -/
def validatePolicyIntegrity (p : Policy) : Tx Unit :=
  .ensure (decide (cfg.policyHash p.limits = p.policyHash)) (.integrity .policyHashMismatch)

/-- `_DEFAULT_POLICY_ID`. -/
def defaultPolicyId : PolicyId := 0

/-- The limits of `_default_policy_values`. -/
def defaultLimits : PolicyLimits where
  concurrencyLimit := ⟨none, none, none, none⟩
  requestsPerMinute := ⟨none, none, none, none⟩
  tokensPerMinute := ⟨none, none, none, none⟩
  globalLifetime := ⟨none, none, none⟩
  runLifetime := ⟨none, none, none⟩
  backlogLimit := 1000
  questionQuantum := 25

/-- `_default_policy_values`. -/
def defaultPolicy (now : Time) : Policy :=
  ⟨defaultPolicyId, 1, cfg.policyHash defaultLimits, true, defaultLimits, some now, now⟩

/-- The active policies, at most two of them. -/
def activeRows (s : Store) : List Policy :=
  ((s.policies.rows.filter Policy.isActive).insertionSort fun a b => a.version ≤ b.version).take 2

/-- The locking `SELECT` of the active policies. -/
def lockActiveRows : Tx (List Policy) :=
  (Prog.forUpdate fun s => (activeRows s).map fun p => LockKey.policy p.id).bind fun s =>
    .ret (activeRows s)

/-- `_ensure_default_policy_locked`. -/
def ensureDefaultPolicyLocked (now : Time) : Tx Policy := do
  match ← lockActiveRows with
  | _ :: _ :: _ => Prog.raise (.integrity .multipleActivePolicies)
  | [active] =>
    validatePolicyIntegrity cfg active
    return active
  | [] =>
    Prog.flush fun s => { s with policies := s.policies.insert (defaultPolicy cfg now) }
    match ← lockActiveRows with
    | _ :: _ :: _ => Prog.raise (.integrity .multipleActivePolicies)
    | [] => Prog.raise (.integrity .activePolicyMissing)
    | [active] =>
      validatePolicyIntegrity cfg active
      appendAuditEvent (.policyBootstrapped active.id) now
        { payload := .policy active.version active.policyHash }
      return active

/-- `func.max(version) or 0`. -/
def maxVersion (s : Store) : ℕ := (s.policies.rows.map Policy.version).foldr max 0

/-- `apply_policy`; `freshId` and `uuid` are the identifiers `uuid4` draws. -/
def applyPolicy (values : PolicyValues) (freshId uuid : ℕ) (now : Time) : Tx Policy := do
  let limits ← Tx.ofExcept (normalizePolicyValues values)
  let policyHash := cfg.policyHash limits
  let _ ← lockScopes [globalScopeId]
  let current ← ensureDefaultPolicyLocked cfg now
  if current.policyHash = policyHash then
    return current
  let found (s : Store) := s.policies.rows.find? fun p => decide (p.policyHash = policyHash)
  let s ← Prog.forUpdate fun s => ((found s).map fun p => LockKey.policy p.id).toList
  let audit (target : Policy) := appendAuditEvent (.policyActivated target.id uuid) now
    { payload := .policy target.version target.policyHash }
  match found s with
  | some target =>
    validatePolicyIntegrity cfg target
    let target' := { target with isActive := true, activatedAt := some now }
    Prog.flush fun s => { s with policies := s.policies.put { current with isActive := false } }
    Prog.flush fun s => { s with policies := s.policies.put target' }
    audit target'
    return target'
  | none =>
    Prog.flush fun s => { s with policies := s.policies.put { current with isActive := false } }
    let s ← Prog.read
    let target : Policy := ⟨freshId, maxVersion s + 1, policyHash, true, limits, some now, now⟩
    Prog.ensure (s.policies.get? freshId).isNone .duplicateKey
    Prog.flush fun s => { s with policies := s.policies.insert target }
    audit target
    return target

/-! ## Runs -/

/-- What a Run creation request fixes. -/
structure NewRun where
  id : RunId
  modelId : ModelId
  benchmarkId : BenchmarkId
  maxAttempts : ℕ
  /-- `worker_max_attempts` is a setting with `ge=1` -/
  maxAttempts_pos : 1 ≤ maxAttempts
  retryMaxAttempts : Option ℕ
  overrides : RunOverrides
  /-- `provider_scope_key(provider_type, base_url)`, `none` where it raises -/
  providerScope : Option ScopeKey

/-- The row `build_evaluation_run` builds and `admit_run` completes. -/
def NewRun.admitted (n : NewRun) (policy : Policy) (provider : ScopeKey) (now : Time) : Run where
  id := n.id
  modelId := n.modelId
  benchmarkId := n.benchmarkId
  status := .pending
  retryMaxAttempts := n.retryMaxAttempts
  governanceSnapshot := some ⟨policy.snapshot, provider, n.overrides⟩
  totalQuestions := (cfg.questions n.benchmarkId).length
  completedQuestions := 0
  correctQuestions := 0
  errorQuestions := 0
  score := none
  completionRate := none
  answeredAccuracy := none
  averageLatencyMs := none
  inputTokens := none
  outputTokens := none
  estimatedCost := none
  cancellationRequested := false
  attemptCount := 0
  maxAttempts := n.maxAttempts
  failedAttemptCount := 0
  dispatchCount := 0
  lastScheduledAt := none
  governancePolicyId := some policy.id
  governanceStatus := .managed
  governanceReason := none
  governanceNotBefore := none
  inputTokenReservation := n.overrides.inputTokenReservation
  lifetimeRequestBudget := n.overrides.lifetimeRequestBudget
  lifetimeTokenBudget := n.overrides.lifetimeTokenBudget
  lifetimeCostBudgetUsd := n.overrides.lifetimeCostBudgetUsd
  leaseOwner := none
  leaseToken := 0
  leaseExpiresAt := none
  heartbeatAt := none
  nextAttemptAt := none
  lastEnqueuedAt := none
  lastError := none
  deadLetteredAt := none
  startedAt := none
  finishedAt := none
  createdAt := now
  errorMessage := none

/-- The managed Runs that are not terminal. -/
def backlogCount (s : Store) : ℕ :=
  s.runs.rows.countP fun r : Run =>
    !r.status.terminal && decide (r.governanceStatus ≠ .legacyUnmanaged)

/-- `admit_run`. -/
def admitRun (n : NewRun) (now : Time) : Tx Run := do
  let scopes ← lockScopes [globalScopeId]
  validateScopeMaterializationLocked scopes
  let policy ← ensureDefaultPolicyLocked cfg now
  let s ← Prog.read
  Prog.ensure (decide (backlogCount s < policy.limits.backlogLimit))
    (.backlogFull policy.limits.backlogLimit)
  match n.providerScope with
  | none => Prog.raise .value
  | some provider =>
    let run := n.admitted cfg policy provider now
    Prog.ensure (s.runs.get? n.id).isNone .duplicateKey
    Prog.flush fun s => { s with runs := s.runs.insert run }
    appendAuditEvent (.runAdmitted run.id) now
      { payload := .admitted policy.version (backlogCount s) policy.limits.questionQuantum,
        runId := some run.id, modelId := some run.modelId }
    return run

/-- `ProviderAttemptContext`. -/
structure AttemptContext where
  runId : RunId
  questionId : QuestionId
  modelId : ModelId
  providerScope : ScopeKey
  leaseToken : ℕ
  executionGeneration : ℕ
  nextProviderAttempt : ℕ
  reservedInputTokens : Option ℤ
  reservedOutputTokens : Option ℤ
  reservedCostUsd : Option ℚ

/-- The fence of a Provider attempt: the lease is held and no cancellation has
been requested. -/
def fenced (owner : Option Owner) (token : Option ℕ) (now : Time) (r : Run) : Bool :=
  decide (r.status = .running) && !r.cancellationRequested && decide (r.leaseOwner = owner) &&
  decide (some r.leaseToken = token) && r.leaseExpiresAt.any fun t => decide (now < t)

/-- A fresh retry cursor. -/
def newExecution (k : ExecutionKey) : QuestionExecution := ⟨k.runId, k.questionId, 0, 1, none, none⟩

/-- `question_context`. -/
def questionContext (runId : RunId) (questionId : QuestionId) (modelId : ModelId)
    (providerScope : ScopeKey) (leaseOwner : Owner) (leaseToken : ℕ)
    (reservedOutputTokens : Option ℤ) (reservedCostUsd : Option ℚ) (now : Time) :
    Tx AttemptContext := do
  let k : ExecutionKey := ⟨runId, questionId⟩
  let s ← Prog.forUpdate fun _ => [LockKey.execution k]
  let execution := (s.executions.get? k).getD (newExecution k)
  if (s.executions.get? k).isNone then
    Prog.flush fun s => { s with executions := s.executions.insert (newExecution k) }
  let s ← RunLeases.lockRun runId
  match (s.runs.get? runId).filter (fenced (some leaseOwner) (some leaseToken) now) with
  | none => Prog.raise .fenceLost
  | some run =>
    let input ← Tx.ofExcept (nonnegativeInt (run.inputTokenReservation.map Int.ofNat))
    let output ← Tx.ofExcept (nonnegativeInt reservedOutputTokens)
    let cost ← Tx.ofExcept (nonnegativeMoney?
      (if run.inputTokenReservation.isSome then reservedCostUsd else none))
    return {
      runId, questionId, modelId, providerScope, leaseToken
      executionGeneration := execution.executionGeneration
      nextProviderAttempt := execution.nextProviderAttempt
      reservedInputTokens := input.map Int.ofNat
      reservedOutputTokens := output.map Int.ofNat
      reservedCostUsd := cost.map fun n => (n : ℚ) / 10 ^ 8 }

end Governance

end LLMBenchLab
