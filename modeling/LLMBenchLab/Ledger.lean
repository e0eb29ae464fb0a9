import Mathlib.Data.Fintype.Defs
import Mathlib.Data.Fintype.Basic
import LLMBenchLab.RunLeases

/-!
# The ledger: facts, aggregates and counter edits

The pure part of `governance/repository.py`. `scopeFactSource` expands every
ledger row into its scope facts and `aggregate` is one column of
`_scope_fact_aggregates`: each of the nine counters is the `SUM` of a `CASE`
over the facts of a scope, and of a scope, a policy and a window for the six
that a minute bucket has. The rest of the file is what the transactions do to
the counters of a scope and of its bucket: `reserve`, `mark_send_started`,
`_release_locked` and `_settle_locked`, field by field as the source does it.
-/

namespace LLMBenchLab

open Relational

/-! ## Counters -/

/-- The numeric columns of a governance scope. -/
inductive Counter : Type where
  | activeReservations | reservedRequests | reservedInputTokens | reservedOutputTokens
  | reservedCostUsd | consumedRequests | consumedInputTokens | consumedOutputTokens
  | consumedCostUsd
  deriving DecidableEq, Repr

/-- The numeric columns of a minute bucket. -/
inductive BucketCounter : Type where
  | reservedRequests | reservedInputTokens | reservedOutputTokens
  | consumedRequests | consumedInputTokens | consumedOutputTokens
  deriving DecidableEq, Repr

instance : Fintype Counter where
  elems :=
    {.activeReservations, .reservedRequests, .reservedInputTokens, .reservedOutputTokens,
      .reservedCostUsd, .consumedRequests, .consumedInputTokens, .consumedOutputTokens,
      .consumedCostUsd}
  complete c := by cases c <;> decide

instance : Fintype BucketCounter where
  elems :=
    {.reservedRequests, .reservedInputTokens, .reservedOutputTokens,
      .consumedRequests, .consumedInputTokens, .consumedOutputTokens}
  complete c := by cases c <;> decide

/-- A bucket column is the scope column of the same name, over one window. -/
def BucketCounter.toCounter : BucketCounter → Counter
  | reservedRequests => .reservedRequests
  | reservedInputTokens => .reservedInputTokens
  | reservedOutputTokens => .reservedOutputTokens
  | consumedRequests => .consumedRequests
  | consumedInputTokens => .consumedInputTokens
  | consumedOutputTokens => .consumedOutputTokens

def Scope.count (x : Scope) : Counter → ℤ
  | .activeReservations => x.activeReservations
  | .reservedRequests => x.reservedRequests
  | .reservedInputTokens => x.reservedInputTokens
  | .reservedOutputTokens => x.reservedOutputTokens
  | .reservedCostUsd => x.reservedCostUsd
  | .consumedRequests => x.consumedRequests
  | .consumedInputTokens => x.consumedInputTokens
  | .consumedOutputTokens => x.consumedOutputTokens
  | .consumedCostUsd => x.consumedCostUsd

def Bucket.count (x : Bucket) : BucketCounter → ℤ
  | .reservedRequests => x.reservedRequests
  | .reservedInputTokens => x.reservedInputTokens
  | .reservedOutputTokens => x.reservedOutputTokens
  | .consumedRequests => x.consumedRequests
  | .consumedInputTokens => x.consumedInputTokens
  | .consumedOutputTokens => x.consumedOutputTokens

/-- A fresh scope. -/
def Scope.zero (i : ScopeId) : Scope := ⟨i, 0, 0, 0, 0, 0, 0, 0, 0, 0, false⟩

/-- A fresh bucket. -/
def Bucket.zero (k : BucketKey) : Bucket := ⟨k, 0, 0, 0, 0, 0, 0⟩

/-! ## Facts -/

/-- `actual > reserved`, both known. -/
def exceeds : Option ℕ → Option ℕ → Bool
  | some actual, some reserved => decide (reserved < actual)
  | _, _ => false

/-- A nullable amount as the `SUM` counts it. -/
def amount (x : Option ℕ) : ℤ := (x.getD 0 : ℕ)

/-- What a ledger row contributes to a counter: the `CASE` of its column. -/
def Counter.fact (c : Counter) (r : Reservation) : ℤ :=
  match c with
  | activeReservations => if r.state.active then 1 else 0
  | reservedRequests => if r.state = .reserved then 1 else 0
  | consumedRequests => if r.state.consumedRequest then 1 else 0
  | reservedInputTokens => if r.state.active then amount r.reservedInputTokens else 0
  | reservedOutputTokens => if r.state.active then amount r.reservedOutputTokens else 0
  | reservedCostUsd => if r.state.active then amount r.reservedCostUsd else 0
  | consumedInputTokens => if r.state.settled then amount r.actualInputTokens else 0
  | consumedOutputTokens => if r.state.settled then amount r.actualOutputTokens else 0
  | consumedCostUsd => if r.state.settled then amount r.actualCostUsd else 0

/-- The `overdrawn` expression of a ledger row. -/
def Reservation.overdrawn (r : Reservation) (explicit : Bool) : Bool :=
  r.state.settled &&
    ((explicit && exceeds r.actualInputTokens r.reservedInputTokens) ||
      exceeds r.actualOutputTokens r.reservedOutputTokens ||
      (explicit && exceeds r.actualCostUsd r.reservedCostUsd))

/-- `input_reservation_is_explicit`: the outer join with the Run of the row. -/
def inputReservationIsExplicit (runs : Table Run) (r : Reservation) : Bool :=
  match r.runId with
  | none => true
  | some id => (runs.get? id).any fun run => run.inputTokenReservation.isSome

/-- A ledger row seen from one of its scopes. -/
structure ScopeFact where
  scopeId : ScopeId
  row : Reservation
  explicit : Bool

/-- `_scope_fact_source`: every ledger row, once for each of its scopes. -/
def scopeFactSource (s : Store) : List ScopeFact :=
  s.ledger.reservations.rows.flatMap fun r =>
    r.scopeIds.map fun i => ⟨i, r, inputReservationIsExplicit s.runs r⟩

/-- One column of `_scope_fact_aggregates`. -/
def aggregate (c : Counter) (facts : List ScopeFact) : ℤ := (facts.map fun f => c.fact f.row).sum

/-- The `overdrawn` column of `_scope_fact_aggregates`. -/
def aggregateOverdrawn (facts : List ScopeFact) : Bool := facts.any fun f => f.row.overdrawn f.explicit

/-- The facts of a scope. -/
def scopeFacts (s : Store) (i : ScopeId) : List ScopeFact :=
  (scopeFactSource s).filter fun f => f.scopeId = i

/-- The facts of a scope under a policy in a window. -/
def bucketFacts (s : Store) (k : BucketKey) : List ScopeFact :=
  (scopeFactSource s).filter fun f => f.row.bucketKey f.scopeId = k

/-- A scope equals its aggregates. -/
def Scope.Materialized (s : Store) (x : Scope) : Prop :=
  (∀ c, x.count c = aggregate c (scopeFacts s x.id)) ∧
    x.overdrawn = aggregateOverdrawn (scopeFacts s x.id)

/-- A bucket equals its aggregates. -/
def Bucket.Materialized (s : Store) (x : Bucket) : Prop :=
  ∀ c : BucketCounter, x.count c = aggregate c.toCounter (bucketFacts s x.key)

instance (s : Store) (x : Scope) : Decidable (x.Materialized s) :=
  inferInstanceAs (Decidable (_ ∧ _))

instance (s : Store) (x : Bucket) : Decidable (x.Materialized s) :=
  inferInstanceAs (Decidable (∀ _ : BucketCounter, _))

/-! ## Counter edits -/

/-- `reserve` on a scope. -/
def Scope.reserve (inputTokens outputTokens costUsd : Option ℕ) (x : Scope) : Scope :=
  { x with
    activeReservations := x.activeReservations + 1
    reservedRequests := x.reservedRequests + 1
    reservedInputTokens := x.reservedInputTokens + amount inputTokens
    reservedOutputTokens := x.reservedOutputTokens + amount outputTokens
    reservedCostUsd := x.reservedCostUsd + amount costUsd }

/-- `reserve` on a bucket. -/
def Bucket.reserve (inputTokens outputTokens : Option ℕ) (x : Bucket) : Bucket :=
  { x with
    reservedRequests := x.reservedRequests + 1
    reservedInputTokens := x.reservedInputTokens + amount inputTokens
    reservedOutputTokens := x.reservedOutputTokens + amount outputTokens }

/-- `mark_send_started` on a scope. -/
def Scope.sendStarted (x : Scope) : Scope :=
  { x with
    reservedRequests := x.reservedRequests - 1
    consumedRequests := x.consumedRequests + 1 }

/-- `mark_send_started` on a bucket that the row stays in. -/
def Bucket.sendStarted (x : Bucket) : Bucket :=
  { x with
    reservedRequests := x.reservedRequests - 1
    consumedRequests := x.consumedRequests + 1 }

/-- `mark_send_started` on the bucket that the row leaves. -/
def Bucket.sendLeft (r : Reservation) (x : Bucket) : Bucket :=
  { x with
    reservedRequests := x.reservedRequests - 1
    reservedInputTokens := x.reservedInputTokens - amount r.reservedInputTokens
    reservedOutputTokens := x.reservedOutputTokens - amount r.reservedOutputTokens }

/-- `mark_send_started` on the bucket that the row comes to. -/
def Bucket.sendArrived (r : Reservation) (x : Bucket) : Bucket :=
  { x with
    reservedInputTokens := x.reservedInputTokens + amount r.reservedInputTokens
    reservedOutputTokens := x.reservedOutputTokens + amount r.reservedOutputTokens
    consumedRequests := x.consumedRequests + 1 }

/-- `_release_locked` on a scope. -/
def Scope.release (r : Reservation) (x : Scope) : Scope :=
  { x with
    activeReservations := x.activeReservations - 1
    reservedRequests := x.reservedRequests - 1
    reservedInputTokens := x.reservedInputTokens - amount r.reservedInputTokens
    reservedOutputTokens := x.reservedOutputTokens - amount r.reservedOutputTokens
    reservedCostUsd := x.reservedCostUsd - amount r.reservedCostUsd }

/-- `_release_locked` on a bucket. -/
def Bucket.release (r : Reservation) (x : Bucket) : Bucket :=
  { x with
    reservedRequests := x.reservedRequests - 1
    reservedInputTokens := x.reservedInputTokens - amount r.reservedInputTokens
    reservedOutputTokens := x.reservedOutputTokens - amount r.reservedOutputTokens }

/-- What a settlement records: reported amounts where known, the reservation
where not. -/
structure Settlement where
  inputTokens : Option ℕ
  outputTokens : Option ℕ
  costUsd : Option ℕ

/-- The `settled_*` values of `_settle_locked`. -/
def Reservation.settlement (r : Reservation) (inputTokens outputTokens actualCost : Option ℕ) :
    Settlement where
  inputTokens := inputTokens.orElse fun _ => r.reservedInputTokens
  outputTokens := outputTokens.orElse fun _ => r.reservedOutputTokens
  costUsd := actualCost.orElse fun _ => r.reservedCostUsd

/-- The settlement goes above the reservation it settles. -/
def Settlement.overdraws (v : Settlement) (r : Reservation) (explicit : Bool) : Bool :=
  (explicit && exceeds v.inputTokens r.reservedInputTokens) ||
    exceeds v.outputTokens r.reservedOutputTokens ||
    (explicit && exceeds v.costUsd r.reservedCostUsd)

/-- `_settle_locked` on a scope. -/
def Scope.settle (r : Reservation) (v : Settlement) (explicit : Bool) (x : Scope) : Scope :=
  { x with
    activeReservations := x.activeReservations - 1
    reservedInputTokens := x.reservedInputTokens - amount r.reservedInputTokens
    reservedOutputTokens := x.reservedOutputTokens - amount r.reservedOutputTokens
    reservedCostUsd := x.reservedCostUsd - amount r.reservedCostUsd
    consumedInputTokens := x.consumedInputTokens + amount v.inputTokens
    consumedOutputTokens := x.consumedOutputTokens + amount v.outputTokens
    consumedCostUsd := x.consumedCostUsd + amount v.costUsd
    overdrawn := if v.overdraws r explicit then true else x.overdrawn }

/-- `_settle_locked` on a bucket. -/
def Bucket.settle (r : Reservation) (v : Settlement) (x : Bucket) : Bucket :=
  { x with
    reservedInputTokens := x.reservedInputTokens - amount r.reservedInputTokens
    reservedOutputTokens := x.reservedOutputTokens - amount r.reservedOutputTokens
    consumedInputTokens := x.consumedInputTokens + amount v.inputTokens
    consumedOutputTokens := x.consumedOutputTokens + amount v.outputTokens }

/-! ## Row edits -/

/-- The row after `mark_send_started`. -/
def Reservation.sent (r : Reservation) (now sendWindow : Time) : Reservation :=
  { r with state := .sendStarted, sendStartedAt := some now, windowStart := sendWindow }

/-- The row after `_release_locked`. -/
def Reservation.released (r : Reservation) (now : Time) (reconciled : Bool) : Reservation :=
  { r with
    state := .releasedPreSend
    outcomeCode := some (if reconciled then .leaseReconciledPreSend else .releasedPreSend)
    settledAt := some now }

/-- The row after `_settle_locked`. -/
def Reservation.settledAs (r : Reservation) (v : Settlement) (now : Time) (outcome : Outcome)
    (conservative : Bool) : Reservation :=
  { r with
    state := if conservative then .settledConservative else .settledActual
    actualInputTokens := v.inputTokens
    actualOutputTokens := v.outputTokens
    actualCostUsd := v.costUsd
    outcomeCode := some outcome
    settledAt := some now }

end LLMBenchLab
