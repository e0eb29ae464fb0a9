import LLMBenchLab.Admission

/-!
# Attempts: reserve, send, settle, reconcile, renew

The transactions of `GovernanceRepository` on the attempt ledger
(`governance/repository.py`, `reserve` to `renew_run_lease` and the private
`_…_locked` methods).

Sessions run with `autoflush=False`: scope, bucket and reservation objects are
edited in memory and reach the database in one flush. In `reserve`,
`mark_send_started` and `finish` no statement comes between the edits and the
flush. In `_reconcile_rows_locked` there are such statements, so its loop
carries the edited objects (`Reconciliation`) beside the store that its
statements see.
-/

namespace LLMBenchLab

open Relational

/-- `operation_key`: Run and question, generation, attempt. -/
structure OperationKey where
  question : Option (RunId × QuestionId)
  executionGeneration : ℕ
  providerAttempt : ℕ
  deriving DecidableEq, Repr

def Reservation.operationKey (r : Reservation) : OperationKey :=
  ⟨r.question.map fun q => (q.runId, q.questionId), r.executionGeneration, r.providerAttempt⟩

/-- The retry cursor a row belongs to. -/
def Reservation.executionKey (r : Reservation) : Option ExecutionKey :=
  r.question.map fun q => ⟨q.runId, q.questionId⟩

/-- `ProviderAttemptPermit`. -/
structure Permit where
  reservationId : ReservationId
  providerAttempt : ℕ
  deriving DecidableEq, Repr

namespace Governance

variable (cfg : Config)

/-! ## Flushes -/

/-- Edited objects waiting for a flush. -/
structure Dirty where
  scopes : List Scope
  buckets : List Bucket
  rows : List Reservation

/-- The flush of edited ledger objects. -/
def Dirty.flush (x : Dirty) (s : Store) : Store :=
  { s with
    ledger :=
      ⟨s.ledger.scopes.putAll x.scopes, s.ledger.buckets.putAll x.buckets,
        s.ledger.reservations.putAll x.rows⟩ }

/-- A column update of one retry cursor. -/
def setExecution (k : ExecutionKey) (f : QuestionExecution → QuestionExecution)
    (hf : ∀ x, key (f x) = key x) (s : Store) : Store :=
  { s with executions := s.executions.updateAt [k] f hf }

/-! ## Rows -/

/-- `SELECT … FOR UPDATE` of a ledger row with `populate_existing`. -/
def lockReservation (id : ReservationId) : Tx (Option Reservation) :=
  (Prog.forUpdate fun _ => [LockKey.reservation id]).bind fun s =>
    .ret (s.ledger.reservations.get? id)

/-- `session.get` of a ledger row: the view that the pre-lock part works with. -/
def loadReservation (id : ReservationId) : Tx Reservation :=
  (Prog.load fun s => (s.ledger.reservations.get? id).toList).bind fun views =>
    match views with
    | [] => .raise (.integrity .reservationMissing)
    | view :: _ => .ret view

/-! ## Settlement -/

/-- `_input_reservation_is_explicit`. -/
def inputReservationIsExplicitLocked (r : Reservation) : Tx Bool :=
  match r.runId with
  | none => .ret true
  | some id => .query fun s =>
    match s.runs.get? id with
    | none => .raise (.integrity .reservationRunMissing)
    | some run => .ret run.inputTokenReservation.isSome

/-- `_append_settlement_audit`, for the edited row. -/
def appendSettlementAudit (r : Reservation) (outcome : Outcome) (v : Settlement)
    (reconciled : Bool) (now : Time) : Tx Unit :=
  appendAuditEvent (.reservationSettled r.id) now
    { payload := .settled r.state outcome v.inputTokens v.outputTokens v.costUsd reconciled,
      runId := r.runId, modelId := some r.modelId, questionId := r.questionId,
      workerId := r.leaseOwner, reservationId := some r.id,
      providerAttempt := some r.providerAttempt, leaseToken := r.leaseToken }

/-- `_release_locked`: the edited objects, not yet flushed. -/
def releaseLocked (r : Reservation) (scopes : List Scope) (buckets : List Bucket) (now : Time)
    (reconciled : Bool) : Tx Dirty := do
  let r' := r.released now reconciled
  appendSettlementAudit r' (if reconciled then .leaseReconciledPreSend else .releasedPreSend)
    ⟨none, none, none⟩ reconciled now
  return ⟨scopes.map (Scope.release r), buckets.map (Bucket.release r), [r']⟩

/-- `_settle_locked`: the edited objects, not yet flushed. -/
def settleLocked (r : Reservation) (scopes : List Scope) (buckets : List Bucket) (now : Time)
    (inputTokens outputTokens actualCost : Option ℕ) (outcome : Outcome)
    (reconciled forceConservative : Bool) : Tx Dirty := do
  let v := r.settlement inputTokens outputTokens actualCost
  let conservative :=
    forceConservative || reconciled || inputTokens.isNone || outputTokens.isNone
  let explicit ← inputReservationIsExplicitLocked r
  let r' := r.settledAs v now outcome conservative
  appendSettlementAudit r' outcome v reconciled now
  return ⟨scopes.map (Scope.settle r v explicit), buckets.map (Bucket.settle r v), [r']⟩

/-- The cursor after a confirmed pre-send release: the same ordinal, under a new
generation. -/
def restarted (r : Reservation) (x : QuestionExecution) : QuestionExecution :=
  { x with
    executionGeneration := r.executionGeneration + 1
    nextProviderAttempt := r.providerAttempt }

theorem key_restarted (r : Reservation) (x : QuestionExecution) : key (restarted r x) = key x :=
  rfl

/-- The flush of the restarted cursor. -/
def restartExecution (r : Reservation) (s : Store) : Store :=
  match r.executionKey with
  | none => s
  | some k => setExecution k (restarted r) (key_restarted r) s

/-- `_restart_question_execution_after_pre_send_locked`; the commit flushes
`restartExecution`. -/
def restartQuestionExecutionAfterPreSendLocked (r : Reservation) : Tx Unit :=
  match r.executionKey with
  | none => .ret ()
  | some k => do
    let s ← Prog.forUpdate fun _ => [LockKey.execution k]
    match s.executions.get? k with
    | none => Prog.raise (.integrity .questionRetryCursorMismatch)
    | some execution =>
      Prog.ensure (decide (execution.executionGeneration = r.executionGeneration ∧
          execution.nextProviderAttempt = r.providerAttempt + 1))
        (.integrity .questionRetryCursorMismatch)

/-! ## Reconciliation -/

/-- The key of `per_lease`. -/
structure LeaseKey where
  runId : RunId
  leaseToken : ℕ
  modelId : ModelId
  leaseOwner : Option Owner
  deriving DecidableEq, Repr

/-- `(reservation.run_id, lease_token, model_id, lease_owner)`, when both ids are
there. -/
def leaseKey (r : Reservation) : Option LeaseKey :=
  match r.runId, r.leaseToken with
  | some id, some token => some ⟨id, token, r.modelId, r.leaseOwner⟩
  | _, _ => none

/-- `per_lease.setdefault(key, [0, 0])[index] += 1`. -/
def countLease (k : LeaseKey) (settled : Bool) : List (LeaseKey × ℕ × ℕ) → List (LeaseKey × ℕ × ℕ)
  | [] => [(k, if settled then (0, 1) else (1, 0))]
  | (k', a, b) :: l =>
    if k' = k then (k', if settled then (a, b + 1) else (a + 1, b)) :: l
    else (k', a, b) :: countLease k settled l

/-- The state of the loop of `_reconcile_rows_locked`: its counters and the
session's edited, unflushed objects. -/
structure Reconciliation where
  released : ℕ
  conservative : ℕ
  perLease : List (LeaseKey × ℕ × ℕ)
  /-- `scopes_by_id` -/
  scopes : List Scope
  /-- edited bucket objects, the newest last -/
  buckets : List Bucket
  /-- edited ledger rows -/
  rows : List Reservation
  /-- `validated_buckets` -/
  validated : List BucketKey

namespace Reconciliation

/-- The loop before its first row. -/
def start (scopes : List Scope) : Reconciliation := ⟨0, 0, [], scopes, [], [], []⟩

/-- `row_scopes`. -/
def rowScopes (x : Reconciliation) (view : Reservation) : List Scope :=
  view.scopeIds.filterMap fun i => x.scopes.find? fun y => decide (y.id = i)

/-- Take over the edited objects of one row. -/
def absorb (x : Reconciliation) (d : Dirty) (r : Reservation) (settled : Bool) :
    Reconciliation :=
  { x with
    released := x.released + (if settled then 0 else 1)
    conservative := x.conservative + (if settled then 1 else 0)
    perLease := match leaseKey r with
      | none => x.perLease
      | some k => countLease k settled x.perLease
    scopes := x.scopes.map fun y => (d.scopes.find? fun z => decide (z.id = y.id)).getD y
    buckets := x.buckets ++ d.buckets
    rows := x.rows ++ d.rows }

/-- The objects the session flushes. -/
def dirty (x : Reconciliation) : Dirty := ⟨x.scopes, x.buckets, x.rows⟩

end Reconciliation

/-- `still_owned`. -/
def stillOwned (r : Reservation) (run : Option Run) (now : Time) : Bool :=
  run.any (fenced r.leaseOwner r.leaseToken now)

/-- The Run object of a row: the session's own, when it has loaded that Run
before, and the locked row otherwise. -/
def lockRunOf (known : Option Run) (r : Reservation) : Tx (Option Run) :=
  match r.runId with
  | none => .ret none
  | some id =>
    (RunLeases.lockRun id).bind fun s =>
      .ret ((s.runs.get? id).map fun run => (known.filter fun k => decide (k.id = id)).getD run)

/-- The bucket checks of one row of `_reconcile_rows_locked`: the bucket objects,
validated unless every key has been seen. -/
def reconcileBuckets (x : Reconciliation) (keys : List BucketKey) :
    Tx (List Bucket × Reconciliation) := do
  let buckets ← lockExistingBuckets keys x.buckets
  if ∀ k ∈ keys, k ∈ x.validated then
    return (buckets, x)
  else
    validateBucketMaterializationLocked buckets
    return (buckets, { x with validated := x.validated ++ keys })

/-- A row of `_reconcile_rows_locked` that is no longer owned. -/
def reconcileUnowned (r : Reservation) (rowScopes : List Scope) (buckets : List Bucket)
    (now : Time) (x : Reconciliation) : Tx Reconciliation :=
  if r.state = .reserved then
    (releaseLocked r rowScopes buckets now true).bind fun d => .ret (x.absorb d r false)
  else
    (settleLocked r rowScopes buckets now none none none .leaseReconciledUnknown true false).bind
      fun d => .ret (x.absorb d r true)

/-- A row of `_reconcile_rows_locked` that is still active under its lock. -/
def reconcileActive (known : Option Run) (r : Reservation) (rowScopes : List Scope)
    (buckets : List Bucket) (now : Time) (x : Reconciliation) : Tx Reconciliation := do
  let run ← lockRunOf known r
  if stillOwned r run now then
    return x
  else
    reconcileUnowned r rowScopes buckets now x

/-- The loop body of `_reconcile_rows_locked`, for a view that is active. -/
def reconcileView (known : Option Run) (now : Time) (x : Reconciliation) (view : Reservation) :
    Tx Reconciliation := do
  let rowScopes := x.rowScopes view
  Prog.ensure (decide (rowScopes.length = 3 ∨ rowScopes.length = 4)) (.integrity .scopeMissing)
  let (buckets, x) ← reconcileBuckets x (rowScopes.map fun y => view.bucketKey y.id)
  match ← lockReservation view.id with
  | none => return x
  | some r =>
    if r.state.active then
      reconcileActive known r rowScopes buckets now x
    else
      return x

/-- The loop body of `_reconcile_rows_locked`. -/
def reconcileRow (known : Option Run) (now : Time) (x : Reconciliation) (view : Reservation) :
    Tx Reconciliation :=
  if view.state.active then reconcileView known now x view else .ret x

/-- The loop of `_reconcile_rows_locked`. -/
def reconcileLoop (known : Option Run) (now : Time) :
    Reconciliation → List Reservation → Tx Reconciliation
  | x, [] => .ret x
  | x, view :: views =>
    (reconcileRow known now x view).bind fun x => reconcileLoop known now x views

/-- The audit events after the flush. -/
def appendLeaseReconciled (now : Time) : List (LeaseKey × ℕ × ℕ) → Tx Unit
  | [] => .ret ()
  | (k, released, conservative) :: l =>
    (appendAuditEvent (.leaseReconciled k.runId k.leaseToken) now
      { payload := .reconciled released conservative, runId := some k.runId,
        modelId := some k.modelId, workerId := k.leaseOwner,
        leaseToken := some k.leaseToken }).bind fun _ => appendLeaseReconciled now l

/-- `sorted(views, key=lambda item: item.id)`. -/
def sortViews (views : List Reservation) : List Reservation :=
  views.insertionSort fun a b => a.id ≤ b.id

/-- `_reconcile_rows_locked`, with the edited scope objects it leaves in the
session. -/
def reconcileRowsLocked (known : Option Run) (views : List Reservation) (scopes : List Scope)
    (now : Time) : Tx ((ℕ × ℕ) × List Scope) := do
  validateScopeMaterializationLocked scopes
  let x ← reconcileLoop known now (.start scopes) (sortViews views)
  if x.released ≠ 0 ∨ x.conservative ≠ 0 then
    Prog.flush x.dirty.flush
  appendLeaseReconciled now x.perLease
  return ((x.released, x.conservative), x.scopes)

/-- The active rows that share a scope with `ids`. -/
def activeViews (ids : List ScopeId) (s : Store) : List Reservation :=
  s.ledger.reservations.rows.filter fun r =>
    r.state.active && r.scopeIds.any fun i => decide (i ∈ ids)

/-- `_reconcile_stale_locked`. -/
def reconcileStaleLocked (known : Option Run) (ids : List ScopeId) (now : Time) :
    Tx ((ℕ × ℕ) × List Scope) := do
  let views ← Prog.load (activeViews ids)
  let scopes ← lockScopesById (ids ++ views.flatMap Reservation.scopeIds)
  reconcileRowsLocked known views scopes now

/-- The active rows of a lease. -/
def leaseViews (runId : RunId) (leaseToken : ℕ) (s : Store) : List Reservation :=
  s.ledger.reservations.rows.filter fun r =>
    decide (r.runId = some runId ∧ r.leaseToken = some leaseToken) && r.state.active

/-- `reconcile_run_lease`. -/
def reconcileRunLease (runId : RunId) (leaseToken : ℕ) (now : Time) : Tx (ℕ × ℕ) := do
  let views ← Prog.load (leaseViews runId leaseToken)
  if views.isEmpty then
    return (0, 0)
  let scopes ← lockScopesById (views.flatMap Reservation.scopeIds)
  let (counts, _) ← reconcileRowsLocked none views scopes now
  return counts

/-! ## Reserve -/

/-- The amounts a context asks for, validated. -/
def contextAmounts (c : AttemptContext) : Except Err AttemptAmounts := do
  return ⟨← nonnegativeInt c.reservedInputTokens, ← nonnegativeInt c.reservedOutputTokens,
    ← nonnegativeMoney? c.reservedCostUsd⟩

/-- The four scopes of an attempt. -/
def attemptScopes (c : AttemptContext) : List ScopeId :=
  [globalScopeId, ⟨.provider, c.providerScope⟩, ⟨.model, c.modelId⟩, ⟨.run, c.runId⟩]

/-- The ledger row `reserve` inserts. -/
def newReservation (id : ReservationId) (c : AttemptContext) (providerAttempt : ℕ)
    (leaseOwner : Owner) (policyId : PolicyId) (run : Run) (windowStart : Time)
    (a : AttemptAmounts) : Reservation where
  id := id
  policyId := policyId
  question := some ⟨c.runId, c.questionId, c.runId⟩
  modelId := c.modelId
  globalScope := globalKey
  providerScope := c.providerScope
  modelScope := c.modelId
  executionGeneration := c.executionGeneration
  providerAttempt := providerAttempt
  leaseOwner := some leaseOwner
  leaseToken := some c.leaseToken
  state := .reserved
  leaseExpiresAt := run.leaseExpiresAt
  windowStart := windowStart
  reservedInputTokens := a.inputTokens
  reservedOutputTokens := a.outputTokens
  reservedCostUsd := a.costUsd
  actualInputTokens := none
  actualOutputTokens := none
  actualCostUsd := none
  outcomeCode := none
  sendStartedAt := none
  settledAt := none

/-- The policy row of a Run, read and validated. -/
def runPolicy (run : Option Run) : Tx Policy :=
  match run.bind Run.governancePolicyId with
  | none => .raise (.integrity .runPolicyMissing)
  | some policyId => .query fun s =>
    match s.policies.get? policyId with
    | none => .raise (.integrity .policyMissing)
    | some policy => (validatePolicyIntegrity cfg policy).bind fun _ => .ret policy

/-- The frozen snapshot of the Run agrees with the policy and the context. -/
def snapshotMatches (run : Run) (policy : Policy) (c : AttemptContext) : Bool :=
  decide (run.governanceStatus ≠ .legacyUnmanaged) &&
  (run.governanceSnapshot.any fun g =>
    decide (g.policy = policy.snapshot) && decide (g.providerScopeKey = c.providerScope)) &&
  decide (run.modelId = c.modelId)

/-- The frozen overrides, when they still are those of the row. -/
def frozenOverrides (run : Run) : Option RunOverrides :=
  (run.governanceSnapshot.map GovernanceSnapshot.runOverrides).filter fun o =>
    decide (o = run.overrideSnapshot)

/-- The ledger row with an operation key. -/
def findOperation (k : OperationKey) (s : Store) : Option Reservation :=
  s.ledger.reservations.rows.find? fun r => decide (r.operationKey = k)

/-- Replay of a reservation whose acknowledgement was lost. -/
def replayReservation (c : AttemptContext) (providerAttempt : ℕ) (leaseOwner : Owner) :
    Tx Permit :=
  .query fun s =>
    match findOperation ⟨some (c.runId, c.questionId), c.executionGeneration, providerAttempt⟩ s with
    | none => .raise .settlementUnknown
    | some existing =>
      if existing.state = .reserved ∧ existing.leaseToken = some c.leaseToken ∧
          existing.leaseOwner = some leaseOwner then
        .ret ⟨existing.id, providerAttempt⟩
      else .raise .settlementUnknown

/-- The insert and the counter edits at the end of `reserve`. -/
def insertReservation (r : Reservation) (a : AttemptAmounts) (scopes : List Scope)
    (buckets : List Bucket) (execution : QuestionExecution) (run : Run) (now : Time) :
    Tx Permit := do
  let s ← Prog.read
  Prog.ensure (s.ledger.reservations.get? r.id).isNone .duplicateKey
  Prog.ensure (findOperation r.operationKey s).isNone .duplicateKey
  Prog.flush fun s =>
    { s with ledger := { s.ledger with reservations := s.ledger.reservations.insert r } }
  appendAuditEvent (.reservationReserved r.id) now
    { payload := .reserved a.inputTokens a.outputTokens a.costUsd, runId := r.runId,
      modelId := some r.modelId, questionId := r.questionId, workerId := r.leaseOwner,
      reservationId := some r.id, attempt := some run.attemptCount,
      providerAttempt := some r.providerAttempt, leaseToken := r.leaseToken }
  Prog.flush fun s =>
    setExecution ⟨execution.runId, execution.questionId⟩
      (fun x => { x with nextProviderAttempt := execution.nextProviderAttempt + 1 }) (fun _ => rfl)
      (Dirty.flush
        ⟨scopes.map (Scope.reserve a.inputTokens a.outputTokens a.costUsd),
          buckets.map (Bucket.reserve a.inputTokens a.outputTokens), []⟩ s)
  return ⟨r.id, r.providerAttempt⟩

/-- `reserve` for a Run whose fence holds: the snapshot checks, then a replay or
a new reservation. -/
def reserveOwned (id : ReservationId) (c : AttemptContext) (providerAttempt : ℕ)
    (leaseOwner : Owner) (now : Time) (a : AttemptAmounts) (policy : Policy) (scopes : List Scope)
    (buckets : List Bucket) (execution : QuestionExecution) (run : Run) : Tx Permit := do
  Prog.ensure (snapshotMatches run policy c) (.integrity .runSnapshotMismatch)
  match frozenOverrides run with
  | none => Prog.raise (.integrity .runOverrideSnapshotMismatch)
  | some overrides =>
    if execution.executionGeneration ≠ c.executionGeneration ∨
        execution.nextProviderAttempt ≠ providerAttempt then
      replayReservation c providerAttempt leaseOwner
    else do
      Prog.ensure (decide (providerAttempt ≤ run.retryMaxAttempts.getD 1))
        (.exhausted .providerRetryExhausted)
      Tx.ofExcept (checkLimits policy.limits scopes buckets a overrides now)
      insertReservation
        (newReservation id c providerAttempt leaseOwner policy.id run (minuteStart now) a) a scopes
        buckets execution run now

/-- `reserve` once its scopes are locked and reconciled: buckets, cursor and Run
fence. -/
def reserveLocked (id : ReservationId) (c : AttemptContext) (providerAttempt : ℕ)
    (leaseOwner : Owner) (now : Time) (a : AttemptAmounts) (policy : Policy)
    (scopes : List Scope) : Tx Permit := do
  let buckets ← lockBuckets (bucketKeysOf scopes policy.id (minuteStart now))
  validateBucketMaterializationLocked buckets
  let k : ExecutionKey := ⟨c.runId, c.questionId⟩
  let s ← Prog.forUpdate fun _ => [LockKey.execution k]
  let execution := s.executions.get? k
  let s ← RunLeases.lockRun c.runId
  match (s.runs.get? c.runId).filter (fenced (some leaseOwner) (some c.leaseToken) now) with
  | none => Prog.raise .fenceLost
  | some run =>
    match execution with
    | none => Prog.raise (.integrity .questionExecutionMissing)
    | some execution =>
      reserveOwned id c providerAttempt leaseOwner now a policy scopes buckets execution run

/-- `reserve`; `id` is the identifier `uuid4` draws. -/
def reserve (id : ReservationId) (c : AttemptContext) (providerAttempt : ℕ) (leaseOwner : Owner)
    (now : Time) : Tx Permit := do
  Prog.ensure (decide (1 ≤ providerAttempt)) .value
  let a ← Tx.ofExcept (contextAmounts c)
  let s ← Prog.read
  let policy ← runPolicy cfg (s.runs.get? c.runId)
  let _ ← lockScopes (attemptScopes c)
  let (_, scopes) ← reconcileStaleLocked (s.runs.get? c.runId) (attemptScopes c) now
  reserveLocked id c providerAttempt leaseOwner now a policy
    (scopes.filter fun x => decide (x.id ∈ attemptScopes c))

/-! ## Send -/

/-- The bucket edits of `mark_send_started`. -/
def sendBuckets (r : Reservation) (old new : List Bucket) (moved : Bool) : List Bucket :=
  if moved then old.map (Bucket.sendLeft r) ++ new.map (Bucket.sendArrived r)
  else old.map Bucket.sendStarted

/-- The retry cursor at the first send. -/
def firstAttempt (now : Time) (x : QuestionExecution) : QuestionExecution :=
  { x with firstAttemptAt := some (x.firstAttemptAt.getD now) }

theorem key_firstAttempt (now : Time) (x : QuestionExecution) : key (firstAttempt now x) = key x :=
  rfl

/-- The flush of the first send instant. -/
def markFirstAttempt (r : Reservation) (now : Time) (s : Store) : Store :=
  match r.executionKey with
  | none => s
  | some k => setExecution k (firstAttempt now) (key_firstAttempt now) s

/-- The edits of `mark_send_started` and their flush at commit. -/
def startSend (r : Reservation) (scopes : List Scope) (old new : List Bucket) (moved : Bool)
    (leaseOwner : Owner) (sendWindow now : Time) : Tx Unit := do
  appendAuditEvent (.reservationSendStarted r.id) now
    { payload := .empty, runId := r.runId, modelId := some r.modelId, questionId := r.questionId,
      workerId := some leaseOwner, reservationId := some r.id,
      providerAttempt := some r.providerAttempt, leaseToken := r.leaseToken }
  Prog.flush fun s =>
    markFirstAttempt r now (Dirty.flush
      ⟨scopes.map Scope.sendStarted, sendBuckets r old new moved, [r.sent now sendWindow]⟩ s)

/-- The buckets the send is counted in: those of the current minute. -/
def lockSendBuckets (scopes : List Scope) (old : List Bucket) (view : Reservation)
    (sendWindow : Time) : Tx (List Bucket) :=
  if sendWindow ≠ view.windowStart then lockBuckets (bucketKeysOf scopes view.policyId sendWindow)
  else .ret old

/-- `mark_send_started` for a RESERVED row whose fence holds. -/
def sendOwned (r : Reservation) (policy : Policy) (scopes : List Scope) (old new : List Bucket)
    (moved : Bool) (leaseOwner : Owner) (now : Time) : Tx Unit := do
  if moved then
    Tx.ofExcept (checkWindowLimits policy.limits scopes new
      (amount r.reservedInputTokens + amount r.reservedOutputTokens) now)
  startSend r scopes old new moved leaseOwner (minuteStart now) now

/-- `mark_send_started` once the row is locked and read again. -/
def sendLocked (r : Reservation) (scopes : List Scope) (old new : List Bucket) (moved : Bool)
    (leaseOwner : Owner) (now : Time) : Tx Unit := do
  Prog.ensure r.state.active .settlementUnknown
  let s ← Prog.read
  match s.policies.get? r.policyId with
  | none => Prog.raise (.integrity .policyMissing)
  | some policy =>
    validatePolicyIntegrity cfg policy
    let run ← lockRunOf none r
    Prog.ensure (run.any (fenced (some leaseOwner) r.leaseToken now)) .fenceLost
    if r.state = .sendStarted then
      return ()
    else
      sendOwned r policy scopes old new moved leaseOwner now

/-- `mark_send_started`. -/
def markSendStarted (permit : Permit) (leaseOwner : Owner) (now : Time) : Tx Unit := do
  let view ← loadReservation permit.reservationId
  let scopes ← lockScopesById view.scopeIds
  let old ← lockExistingBuckets (bucketKeysOf scopes view.policyId view.windowStart) []
  Prog.ensure (decide (view.windowStart ≤ minuteStart now)) (.integrity .databaseClockReversed)
  let new ← lockSendBuckets scopes old view (minuteStart now)
  validateScopeMaterializationLocked scopes
  validateBucketMaterializationLocked (old ++ new)
  match ← lockReservation permit.reservationId with
  | none => Prog.raise (.integrity .reservationMissing)
  | some r =>
    sendLocked cfg r scopes old new (decide (minuteStart now ≠ view.windowStart)) leaseOwner now

/-! ## Finish -/

/-- What the adapter reports at the end of an attempt. -/
structure FinishReport where
  disposition : Disposition
  outcome : Outcome
  inputTokens : Option ℤ
  outputTokens : Option ℤ
  actualCostUsd : Option ℚ

/-- The settlement branch of `finish`. -/
def finishSettle (r : Reservation) (scopes : List Scope) (buckets : List Bucket)
    (f : FinishReport) (inputTokens outputTokens cost : Option ℕ) (now : Time) : Tx Unit := do
  Prog.ensure (decide (r.state = .sendStarted)) (.integrity .settleBeforeSend)
  let conservative := decide (f.disposition = .settledConservative)
  let d ← settleLocked r scopes buckets now inputTokens outputTokens
    (if conservative then none else cost) f.outcome false conservative
  Prog.flush d.flush

/-- The release branch of `finish`. -/
def finishRelease (r : Reservation) (scopes : List Scope) (buckets : List Bucket) (now : Time) :
    Tx Unit := do
  Prog.ensure (decide (r.state = .reserved)) (.integrity .releaseAfterSend)
  restartQuestionExecutionAfterPreSendLocked r
  let d ← releaseLocked r scopes buckets now false
  Prog.flush fun s => restartExecution r (d.flush s)

/-- `finish` once the row is locked and read again: the first terminal state
wins. -/
def finishLocked (r : Reservation) (scopes : List Scope) (buckets : List Bucket)
    (f : FinishReport) (inputTokens outputTokens cost : Option ℕ) (now : Time) : Tx Unit :=
  if ¬ r.state.active then .ret ()
  else if f.disposition = .releasedPreSend then finishRelease r scopes buckets now
  else finishSettle r scopes buckets f inputTokens outputTokens cost now

/-- `finish`. -/
def finish (permit : Permit) (f : FinishReport) (now : Time) : Tx Unit := do
  let inputTokens ← Tx.ofExcept (nonnegativeInt f.inputTokens)
  let outputTokens ← Tx.ofExcept (nonnegativeInt f.outputTokens)
  let cost ← Tx.ofExcept (nonnegativeMoney? f.actualCostUsd)
  let view ← loadReservation permit.reservationId
  let scopes ← lockScopesById view.scopeIds
  let buckets ← lockExistingBuckets (bucketKeysOf scopes view.policyId view.windowStart) []
  validateScopeMaterializationLocked scopes
  validateBucketMaterializationLocked buckets
  match ← lockReservation permit.reservationId with
  | none => Prog.raise (.integrity .reservationMissing)
  | some r => finishLocked r scopes buckets f inputTokens outputTokens cost now

/-! ## Renewal -/

/-- The active rows of a lease and its owner. -/
def ownedViews (runId : RunId) (leaseOwner : Owner) (leaseToken : ℕ) (s : Store) :
    List Reservation :=
  s.ledger.reservations.rows.filter fun r =>
    decide (r.runId = some runId ∧ r.leaseOwner = some leaseOwner ∧
      r.leaseToken = some leaseToken) && r.state.active

/-- `renew_run_lease`, the transaction of a heartbeat. -/
def renewRunLease (runId : RunId) (leaseOwner : Owner) (leaseToken : ℕ) (now : Time) :
    Tx (Option Time) := do
  let expiresAt := now + cfg.leaseFor
  let views ← Prog.load (ownedViews runId leaseOwner leaseToken)
  let scopes ← lockScopesById (views.flatMap Reservation.scopeIds)
  validateScopeMaterializationLocked scopes
  let s ← Prog.forUpdate fun _ => views.map fun r => LockKey.reservation r.id
  let reservations := s.ledger.reservations.lookup (views.map Reservation.id)
  let s ← RunLeases.lockRun runId
  match (s.runs.get? runId).filter (fenced (some leaseOwner) (some leaseToken) now) with
  | none => return none
  | some run =>
    let renewed := (reservations.filter fun r => r.state.active).map fun r =>
      { r with leaseExpiresAt := some expiresAt }
    let run' := { run with heartbeatAt := some now, leaseExpiresAt := some expiresAt }
    Prog.flush fun s => Dirty.flush ⟨[], [], renewed⟩ { s with runs := s.runs.put run' }
    return some expiresAt

end Governance

end LLMBenchLab
