import LLMBenchLab.Books
import LLMBenchLab.Costs
import LLMBenchLab.Json
import LLMBenchLab.Materialization
import Mathlib.Data.List.Sort

/-!
# The ledger check of the SQLite import

`_validate_governance_materializations` (`db/import_sqlite.py`) goes over the reservations
once and builds what every scope and every minute bucket should hold, in Python; the
repository asks the database for the same sums (`scopeFactSource`, `aggregate`), and the
upgrade of migration 0007 writes the flag `overdrawn` from an `EXISTS`. The three are
written here from their sources and shown to agree.

The loop is a run over references, a reservation and one of its scopes. One reference adds
its facts to one scope and one bucket (`tracks_accumulateScopeLedger`), so that in the end
each of them has the facts of its own references. Costs are added in the default decimal
context, which rounds sums of more than 28 digits; a sum of that size is larger than what a
column holds before and after it is rounded (`CostTracks`).
-/

namespace LLMBenchLab

namespace SqliteImport

open Relational Rounding

/-- The `SQLiteImportError`s of the check. -/
inductive LedgerError where
  | scopeDrift
  | minuteBucketDrift
  deriving DecidableEq

def LedgerError.message : LedgerError → String
  | scopeDrift => "Source SQLite governance scope materialized counter drift; " ++
      "rebuild all scope counters from the Provider reservation ledger before importing"
  | minuteBucketDrift => "Source SQLite governance minute-bucket materialized counter drift; " ++
      "rebuild minute counters from the Provider reservation ledger before importing"

/-! ## Rows -/

/-- The tables of the source: a cost of a scope is a `NUMERIC(20, 8)`, of less than `10 ^ 20`
quanta. -/
structure Source where
  store : Store
  costs_fit : ∀ x ∈ store.ledger.scopes.rows,
    x.reservedCostUsd < 10 ^ 20 ∧ x.consumedCostUsd < 10 ^ 20

/-- `_ledger_money` of a cost, in USD -/
def ledgerMoney (quanta : Option ℕ) : ℚ := (quanta.getD 0 : ℕ) / 10 ^ 8

/-- `_ScopeLedgerCounters` -/
structure ScopeLedgerCounters where
  activeReservations : ℤ
  reservedRequests : ℤ
  reservedInputTokens : ℤ
  reservedOutputTokens : ℤ
  reservedCostUsd : ℚ
  consumedRequests : ℤ
  consumedInputTokens : ℤ
  consumedOutputTokens : ℤ
  consumedCostUsd : ℚ
  overdrawn : Bool
  deriving DecidableEq

def ScopeLedgerCounters.zero : ScopeLedgerCounters := ⟨0, 0, 0, 0, 0, 0, 0, 0, 0, false⟩

/-- `_BucketLedgerCounters` -/
structure BucketLedgerCounters where
  reservedRequests : ℤ
  reservedInputTokens : ℤ
  reservedOutputTokens : ℤ
  consumedRequests : ℤ
  consumedInputTokens : ℤ
  consumedOutputTokens : ℤ
  deriving DecidableEq

def BucketLedgerCounters.zero : BucketLedgerCounters := ⟨0, 0, 0, 0, 0, 0⟩

/-- `actual > reserved`, both known, as decimals. -/
def moneyExceeds : Option ℚ → Option ℚ → Bool
  | some actual, some reserved => decide (reserved < actual)
  | _, _ => false

/-- `_reservation_is_overdrawn` -/
def reservationIsOverdrawn (r : Reservation) (inputReservationIsExplicit : Bool) : Bool :=
  let tokens (n : ℕ) : ℚ := n
  let usd (quanta : ℕ) : ℚ := quanta / 10 ^ 8
  if r.state.settled then
    [(r.reservedInputTokens.map tokens, r.actualInputTokens.map tokens, true),
      (r.reservedOutputTokens.map tokens, r.actualOutputTokens.map tokens, false),
      (r.reservedCostUsd.map usd, r.actualCostUsd.map usd, true)].any
        fun (reserved, actual, requiresExplicitInput) =>
          !(requiresExplicitInput && !inputReservationIsExplicit) && moneyExceeds actual reserved
  else false

/-- `_accumulate_scope_ledger` -/
def accumulateScopeLedger (counters : ScopeLedgerCounters) (r : Reservation)
    (inputReservationIsExplicit : Bool) : ScopeLedgerCounters :=
  let counters :=
    if r.state.active then
      { counters with
        activeReservations := counters.activeReservations + 1
        reservedInputTokens := counters.reservedInputTokens + amount r.reservedInputTokens
        reservedOutputTokens := counters.reservedOutputTokens + amount r.reservedOutputTokens
        reservedCostUsd :=
          decimalContext (counters.reservedCostUsd + ledgerMoney r.reservedCostUsd) }
    else counters
  let counters :=
    if r.state = .reserved then
      { counters with reservedRequests := counters.reservedRequests + 1 }
    else counters
  let counters :=
    if r.state.consumedRequest then
      { counters with consumedRequests := counters.consumedRequests + 1 }
    else counters
  if r.state.settled then
    { counters with
      consumedInputTokens := counters.consumedInputTokens + amount r.actualInputTokens
      consumedOutputTokens := counters.consumedOutputTokens + amount r.actualOutputTokens
      consumedCostUsd := decimalContext (counters.consumedCostUsd + ledgerMoney r.actualCostUsd)
      overdrawn := counters.overdrawn || reservationIsOverdrawn r inputReservationIsExplicit }
  else counters

/-- `_accumulate_bucket_ledger` -/
def accumulateBucketLedger (counters : BucketLedgerCounters) (r : Reservation) :
    BucketLedgerCounters :=
  let counters :=
    if r.state.active then
      { counters with
        reservedInputTokens := counters.reservedInputTokens + amount r.reservedInputTokens
        reservedOutputTokens := counters.reservedOutputTokens + amount r.reservedOutputTokens }
    else counters
  let counters :=
    if r.state = .reserved then
      { counters with reservedRequests := counters.reservedRequests + 1 }
    else counters
  let counters :=
    if r.state.consumedRequest then
      { counters with consumedRequests := counters.consumedRequests + 1 }
    else counters
  if r.state.settled then
    { counters with
      consumedInputTokens := counters.consumedInputTokens + amount r.actualInputTokens
      consumedOutputTokens := counters.consumedOutputTokens + amount r.actualOutputTokens }
  else counters

/-! ## The loop over the reservations -/

/-- `run_input_reservations` -/
def runInputReservations (s : Store) : List (RunId × Option ℕ) :=
  s.runs.rows.map fun run => (run.id, run.inputTokenReservation)

/-- `input_reservation_is_explicit` -/
def explicitInput (s : Store) (r : Reservation) : Bool :=
  match r.runId with
  | none => true
  | some runId =>
    match (runInputReservations s).lookup runId with
    | some inputTokenReservation => inputTokenReservation.isSome
    | none => false

/-- `expected_scopes`, `expected_buckets` and `missing_bucket`. The keys of the dictionaries
are those of the stored rows. -/
structure Expected where
  scopes : ScopeId → ScopeLedgerCounters
  buckets : BucketKey → BucketLedgerCounters
  missingBucket : Bool

def Expected.zero : Expected := ⟨fun _ => .zero, fun _ => .zero, false⟩

/-- A reference to a scope that is there. -/
def Expected.add (s : Store) (e : Expected) (r : Reservation) (i : ScopeId) : Expected :=
  let e := { e with
    scopes := Function.update e.scopes i
      (accumulateScopeLedger (e.scopes i) r (explicitInput s r)) }
  let key := r.bucketKey i
  if (s.ledger.buckets.get? key).isNone then { e with missingBucket := true }
  else { e with
    buckets := Function.update e.buckets key (accumulateBucketLedger (e.buckets key) r) }

/-- The body of the inner loop. The type of a scope is part of its key, so that a reference
of another type is one to no scope. -/
def accumulateReference (s : Store) (r : Reservation) (e : Expected) (i : ScopeId) :
    Except LedgerError Expected :=
  if (s.ledger.scopes.get? i).isNone then .error .scopeDrift
  else .ok (e.add s r i)

/-- `select(reservations).order_by(reservations.c.id)` -/
def reservationRows (s : Store) : List Reservation :=
  s.ledger.reservations.rows.insertionSort fun a b => a.id ≤ b.id

/-- The loop over the reservations and, for each of them, over its scopes. -/
def expectedLedger (s : Store) : Except LedgerError Expected :=
  (reservationRows s).foldlM (fun e r => r.scopeIds.foldlM (accumulateReference s r) e) .zero

/-! ## The comparison -/

/-- The `materialized` tuple of a scope. -/
def materializedScope (x : Scope) : ScopeLedgerCounters where
  activeReservations := x.activeReservations
  reservedRequests := x.reservedRequests
  reservedInputTokens := x.reservedInputTokens
  reservedOutputTokens := x.reservedOutputTokens
  reservedCostUsd := x.reservedCostUsd / 10 ^ 8
  consumedRequests := x.consumedRequests
  consumedInputTokens := x.consumedInputTokens
  consumedOutputTokens := x.consumedOutputTokens
  consumedCostUsd := x.consumedCostUsd / 10 ^ 8
  overdrawn := x.overdrawn

/-- The `materialized` tuple of a bucket. -/
def materializedBucket (x : Bucket) : BucketLedgerCounters where
  reservedRequests := x.reservedRequests
  reservedInputTokens := x.reservedInputTokens
  reservedOutputTokens := x.reservedOutputTokens
  consumedRequests := x.consumedRequests
  consumedInputTokens := x.consumedInputTokens
  consumedOutputTokens := x.consumedOutputTokens

/-- `_validate_governance_materializations` -/
def validateGovernanceMaterializations (source : Source) : Except LedgerError Unit := do
  let s := source.store
  let e ← expectedLedger s
  s.ledger.scopes.rows.forM fun x =>
    Python.ensure (materializedScope x = e.scopes x.id) .scopeDrift
  Python.ensure (e.missingBucket = false) .minuteBucketDrift
  s.ledger.buckets.rows.forM fun x =>
    Python.ensure (materializedBucket x = e.buckets x.key) .minuteBucketDrift

/-! ## Migration 0007 -/

/-- `_overdraw_expression` -/
def overdrawExpression (s : Store) (requireExplicitInput : Bool) (x : Scope) : Bool :=
  s.ledger.reservations.rows.any fun r =>
    let scopeMatches := r.scopeIds.any fun i => i == x.id
    let explicitInput := match r.runId with
      | none => true
      | some runId => s.runs.rows.any fun run =>
          run.id == runId && run.inputTokenReservation.isSome
    let inputOverdraw := exceeds r.actualInputTokens r.reservedInputTokens
    let costOverdraw := exceeds r.actualCostUsd r.reservedCostUsd
    let inputOverdraw :=
      if requireExplicitInput then explicitInput && inputOverdraw else inputOverdraw
    let costOverdraw :=
      if requireExplicitInput then explicitInput && costOverdraw else costOverdraw
    let outputOverdraw := exceeds r.actualOutputTokens r.reservedOutputTokens
    r.state.settled && scopeMatches && (inputOverdraw || outputOverdraw || costOverdraw)

/-- The write of the flag. -/
def Scope.withOverdrawn (f : Scope → Bool) (x : Scope) : Scope := { x with overdrawn := f x }

theorem key_withOverdrawn (f : Scope → Bool) (x : Scope) : key (Scope.withOverdrawn f x) = key x :=
  rfl

/-- `_recompute_overdrawn`; none where it raises `RuntimeError`. -/
def recomputeOverdrawn (s : Store) (requireExplicitInput : Bool) : Option Store :=
  if s.ledger.reservations.rows.any fun r => r.state.active then none
  else some { s with ledger := { s.ledger with
    scopes := s.ledger.scopes.update
      (Scope.withOverdrawn (overdrawExpression s requireExplicitInput)) (key_withOverdrawn _) } }

/-- `upgrade` -/
def upgrade (s : Store) : Option Store := recomputeOverdrawn s true

/-- `downgrade` -/
def downgrade (s : Store) : Option Store := recomputeOverdrawn s false

/-! ## Rules for overdraw and for explicit input -/

theorem moneyExceeds_map {f : ℕ → ℚ} (hf : StrictMono f) (actual reserved : Option ℕ) :
    moneyExceeds (actual.map f) (reserved.map f) = exceeds actual reserved := by
  cases actual with
  | none => rfl
  | some a =>
    cases reserved with
    | none => rfl
    | some r => exact decide_eq_decide.mpr hf.lt_iff_lt

/-- The loop over the dimensions is the expression of the query. -/
theorem reservationIsOverdrawn_eq (r : Reservation) (explicit : Bool) :
    reservationIsOverdrawn r explicit = r.overdrawn explicit := by
  have htokens : StrictMono fun n : ℕ => (n : ℚ) := Nat.strictMono_cast
  have husd : StrictMono fun n : ℕ => (n : ℚ) / 10 ^ 8 := by
    intro n m h
    exact div_lt_div_of_pos_right (Nat.cast_lt.mpr h) (by norm_num)
  rw [reservationIsOverdrawn, Reservation.overdrawn]
  simp only [List.any_cons, List.any_nil, moneyExceeds_map htokens, moneyExceeds_map husd]
  cases r.state.settled <;> cases explicit <;> simp [Bool.or_assoc]

theorem lookup_runInputReservations (runs : List Run) (runId : RunId) :
    (runs.map fun run => (run.id, run.inputTokenReservation)).lookup runId =
      (runs.find? fun run => decide (key run = runId)).map Run.inputTokenReservation := by
  induction runs with
  | nil => rfl
  | cons run runs ih =>
    by_cases h : run.id = runId
    · simp [Keyed.key, h]
    · have h' : ¬ runId = run.id := fun heq => h heq.symm
      simp only [List.map_cons, List.lookup_cons, beq_eq_false_iff_ne.mpr h', ih]
      simp [Keyed.key, h]

/-- The dictionary of the Runs is the outer join. -/
theorem explicitInput_eq (s : Store) (r : Reservation) :
    explicitInput s r = inputReservationIsExplicit s.runs r := by
  rw [explicitInput, inputReservationIsExplicit]
  cases r.runId with
  | none => rfl
  | some runId =>
    simp only [runInputReservations, lookup_runInputReservations, Table.get?]
    cases s.runs.rows.find? fun run => decide (key run = runId) <;> rfl

/-- The subquery of the Runs is the outer join. -/
theorem any_runs_eq (s : Store) (runId : RunId) :
    (s.runs.rows.any fun run => run.id == runId && run.inputTokenReservation.isSome) =
      (s.runs.get? runId).any fun run => run.inputTokenReservation.isSome := by
  rw [Bool.eq_iff_iff, List.any_eq_true, Option.any_eq_true]
  constructor
  · rintro ⟨run, hrun, h⟩
    rw [Bool.and_eq_true, beq_iff_eq] at h
    obtain ⟨rfl, h⟩ := h
    exact ⟨run, Table.get?_of_mem hrun, h⟩
  · rintro ⟨run, hrun, h⟩
    refine ⟨run, Table.mem_of_get? hrun, ?_⟩
    rw [Bool.and_eq_true, beq_iff_eq]
    exact ⟨Table.key_of_get? hrun, h⟩

/-! ## One scope, one bucket -/

/-- A sum of costs in USD, in the default context, beside the exact sum in quanta. It is
exact up to 28 digits, and large where the exact one is. -/
def CostTracks (usd : ℚ) (quanta : ℤ) : Prop :=
  (quanta < 10 ^ 28 → usd = quanta / 10 ^ 8) ∧ (10 ^ 28 ≤ quanta → 10 ^ 20 ≤ usd)

theorem CostTracks.zero : CostTracks 0 0 := by
  refine ⟨fun _ => by norm_num, fun h => ?_⟩
  norm_num at h

theorem CostTracks.add {usd : ℚ} {quanta : ℤ} (h : CostTracks usd quanta) (h0 : 0 ≤ quanta)
    (n : ℕ) : CostTracks (decimalContext (usd + n / 10 ^ 8)) (quanta + n) := by
  constructor
  · intro hlt
    have hexact : usd + n / 10 ^ 8 = ((quanta + n : ℤ) : ℚ) * (10 : ℚ) ^ (-8 : ℤ) := by
      rw [h.1 (by omega)]
      push_cast
      norm_num
      ring
    have habs : |quanta + n| < 10 ^ 28 := by
      rw [abs_of_nonneg (by omega)]
      exact hlt
    have hround : decimalContext (usd + n / 10 ^ 8) = usd + n / 10 ^ 8 :=
      roundTo_eq_self hexact habs
    rw [hround, h.1 (by omega)]
    push_cast
    ring
  · intro hle
    -- a sum that large is rounded to one that large
    have hlarge : (10 : ℚ) ^ 20 ≤ usd + n / 10 ^ 8 := by
      rcases lt_or_ge quanta (10 ^ 28) with hlt | hge
      · rw [h.1 hlt, ← add_div, le_div_iff₀ (by norm_num)]
        have hcast : ((10 ^ 28 : ℤ) : ℚ) ≤ ((quanta + n : ℤ) : ℚ) := Int.cast_le.mpr hle
        push_cast at hcast
        linarith
      · have hnonneg : (0 : ℚ) ≤ n / 10 ^ 8 := by positivity
        linarith [h.2 hge]
    have hpower : decimalContext ((10 : ℚ) ^ 20) = (10 : ℚ) ^ 20 := by
      refine roundTo_eq_self (c := 1) (k := 20) (by norm_num) ?_
      norm_num [decimalPrecision]
    calc (10 : ℚ) ^ 20 = decimalContext ((10 : ℚ) ^ 20) := hpower.symm
      _ ≤ decimalContext (usd + n / 10 ^ 8) := roundTo_mono (by decide) (by positivity) hlarge

/-- What a column holds is the sum exactly if the sum of the loop is. -/
theorem CostTracks.eq_iff {usd : ℚ} {quanta stored : ℤ} (h : CostTracks usd quanta)
    (hstored : stored < 10 ^ 20) : (stored : ℚ) / 10 ^ 8 = usd ↔ stored = quanta := by
  rcases lt_or_ge quanta (10 ^ 28) with hlt | hge
  · rw [h.1 hlt, div_left_inj' (by norm_num), Int.cast_inj]
  · refine iff_of_false (fun heq => ?_) (by omega)
    have hlarge := h.2 hge
    rw [← heq, le_div_iff₀ (by norm_num)] at hlarge
    have hsmall : (stored : ℚ) < ((10 ^ 20 : ℤ) : ℚ) := Int.cast_lt.mpr hstored
    push_cast at hsmall
    linarith

/-- The counters of the loop beside sums and a flag. -/
structure Tracks (counters : ScopeLedgerCounters) (sum : Counter → ℤ) (overdrawn : Bool) :
    Prop where
  activeReservations : counters.activeReservations = sum .activeReservations
  reservedRequests : counters.reservedRequests = sum .reservedRequests
  reservedInputTokens : counters.reservedInputTokens = sum .reservedInputTokens
  reservedOutputTokens : counters.reservedOutputTokens = sum .reservedOutputTokens
  reservedCostUsd : CostTracks counters.reservedCostUsd (sum .reservedCostUsd)
  consumedRequests : counters.consumedRequests = sum .consumedRequests
  consumedInputTokens : counters.consumedInputTokens = sum .consumedInputTokens
  consumedOutputTokens : counters.consumedOutputTokens = sum .consumedOutputTokens
  consumedCostUsd : CostTracks counters.consumedCostUsd (sum .consumedCostUsd)
  overdrawn : counters.overdrawn = overdrawn

/-- One reservation adds its facts. -/
theorem Tracks.accumulate {counters : ScopeLedgerCounters} {sum : Counter → ℤ}
    {overdrawn : Bool} (h : Tracks counters sum overdrawn) (h0 : ∀ c, 0 ≤ sum c) (r : Reservation)
    (explicit : Bool) : Tracks (accumulateScopeLedger counters r explicit)
      (fun c => sum c + c.fact r) (overdrawn || r.overdrawn explicit) := by
  obtain ⟨hactive, hrequests, hinput, houtput, hcost, hconsumed, hinput', houtput', hcost', hover⟩ := h
  have hadd := hcost.add (h0 _) (r.reservedCostUsd.getD 0)
  have hadd' := hcost'.add (h0 _) (r.actualCostUsd.getD 0)
  cases hstate : r.state with
  | reserved =>
    constructor <;> simp [accumulateScopeLedger, Counter.fact, Reservation.overdrawn, hstate,
      ReservationState.active, ReservationState.settled, ReservationState.consumedRequest, amount,
      hactive, hrequests, hinput, houtput, hconsumed, hinput', houtput', hcost', hover]
    exact hadd
  | sendStarted =>
    constructor <;> simp [accumulateScopeLedger, Counter.fact, Reservation.overdrawn, hstate,
      ReservationState.active, ReservationState.settled, ReservationState.consumedRequest, amount,
      hactive, hrequests, hinput, houtput, hconsumed, hinput', houtput', hcost', hover]
    exact hadd
  | settledActual =>
    constructor <;> simp [accumulateScopeLedger, Counter.fact, reservationIsOverdrawn_eq, hstate,
      ReservationState.active, ReservationState.settled, ReservationState.consumedRequest, amount,
      hactive, hrequests, hinput, houtput, hconsumed, hinput', houtput', hcost, hover]
    exact hadd'
  | settledConservative =>
    constructor <;> simp [accumulateScopeLedger, Counter.fact, reservationIsOverdrawn_eq, hstate,
      ReservationState.active, ReservationState.settled, ReservationState.consumedRequest, amount,
      hactive, hrequests, hinput, houtput, hconsumed, hinput', houtput', hcost, hover]
    exact hadd'
  | releasedPreSend =>
    constructor <;> simp [accumulateScopeLedger, Counter.fact, Reservation.overdrawn, hstate,
      ReservationState.active, ReservationState.settled, ReservationState.consumedRequest,
      hactive, hrequests, hinput, houtput, hconsumed, hinput', houtput', hcost, hcost', hover]

/-- The loop over the references of one scope. -/
theorem tracks_foldl (explicit : Reservation → Bool) (rows : List Reservation) :
    Tracks (rows.foldl (fun counters r => accumulateScopeLedger counters r (explicit r)) .zero)
      (fun c => (rows.map c.fact).sum) (rows.any fun r => r.overdrawn (explicit r)) := by
  induction rows using List.reverseRecOn with
  | nil => exact ⟨rfl, rfl, rfl, rfl, .zero, rfl, rfl, rfl, .zero, rfl⟩
  | append_singleton rows r ih =>
    have hnonneg : ∀ c : Counter, 0 ≤ (rows.map c.fact).sum := by
      intro c
      refine List.sum_nonneg fun x hx => ?_
      obtain ⟨r, -, rfl⟩ := List.mem_map.mp hx
      exact fact_nonneg c r
    have hstep := ih.accumulate hnonneg r (explicit r)
    simpa only [List.foldl_append, List.foldl_cons, List.foldl_nil, List.map_append, List.map_cons,
      List.map_nil, List.sum_append, List.sum_cons, List.sum_nil, add_zero, List.any_append,
      List.any_cons, List.any_nil, Bool.or_false] using hstep

/-- A stored scope has the counters of the loop exactly if it has the sums. -/
theorem Tracks.eq_iff {counters : ScopeLedgerCounters} {sum : Counter → ℤ} {overdrawn : Bool}
    (h : Tracks counters sum overdrawn) {x : Scope} (hreserved : x.reservedCostUsd < 10 ^ 20)
    (hconsumed : x.consumedCostUsd < 10 ^ 20) :
    materializedScope x = counters ↔ (∀ c, x.count c = sum c) ∧ x.overdrawn = overdrawn := by
  have hcost := h.reservedCostUsd.eq_iff hreserved
  have hcost' := h.consumedCostUsd.eq_iff hconsumed
  constructor
  · rintro rfl
    refine ⟨fun c => ?_, h.overdrawn⟩
    cases c with
    | activeReservations => exact h.activeReservations
    | reservedRequests => exact h.reservedRequests
    | reservedInputTokens => exact h.reservedInputTokens
    | reservedOutputTokens => exact h.reservedOutputTokens
    | reservedCostUsd => exact hcost.mp rfl
    | consumedRequests => exact h.consumedRequests
    | consumedInputTokens => exact h.consumedInputTokens
    | consumedOutputTokens => exact h.consumedOutputTokens
    | consumedCostUsd => exact hcost'.mp rfl
  · rintro ⟨hcount, hover⟩
    have hreservedCost := hcost.mpr (hcount .reservedCostUsd)
    have hconsumedCost := hcost'.mpr (hcount .consumedCostUsd)
    have hactive := (hcount .activeReservations).trans h.activeReservations.symm
    have hrequests := (hcount .reservedRequests).trans h.reservedRequests.symm
    have hinput := (hcount .reservedInputTokens).trans h.reservedInputTokens.symm
    have houtput := (hcount .reservedOutputTokens).trans h.reservedOutputTokens.symm
    have hrequests' := (hcount .consumedRequests).trans h.consumedRequests.symm
    have hinput' := (hcount .consumedInputTokens).trans h.consumedInputTokens.symm
    have houtput' := (hcount .consumedOutputTokens).trans h.consumedOutputTokens.symm
    cases counters
    exact ScopeLedgerCounters.mk.injEq .. ▸ ⟨hactive, hrequests, hinput, houtput, hreservedCost,
      hrequests', hinput', houtput', hconsumedCost, hover.trans h.overdrawn.symm⟩

/-- What the counters of a bucket are in the loop. -/
def BucketLedgerCounters.count (x : BucketLedgerCounters) : BucketCounter → ℤ
  | .reservedRequests => x.reservedRequests
  | .reservedInputTokens => x.reservedInputTokens
  | .reservedOutputTokens => x.reservedOutputTokens
  | .consumedRequests => x.consumedRequests
  | .consumedInputTokens => x.consumedInputTokens
  | .consumedOutputTokens => x.consumedOutputTokens

theorem count_accumulateBucketLedger (counters : BucketLedgerCounters) (r : Reservation)
    (c : BucketCounter) : (accumulateBucketLedger counters r).count c =
      counters.count c + c.toCounter.fact r := by
  cases hstate : r.state <;> cases c <;>
    simp [accumulateBucketLedger, BucketLedgerCounters.count, BucketCounter.toCounter,
      Counter.fact, hstate, ReservationState.active, ReservationState.settled,
      ReservationState.consumedRequest]

theorem count_foldl_bucket (rows : List Reservation) (c : BucketCounter) :
    (rows.foldl accumulateBucketLedger .zero).count c = (rows.map c.toCounter.fact).sum := by
  induction rows using List.reverseRecOn with
  | nil => cases c <;> rfl
  | append_singleton rows r ih =>
    rw [List.foldl_append, List.foldl_cons, List.foldl_nil, count_accumulateBucketLedger, ih,
      List.map_append, List.sum_append, List.map_cons, List.map_nil, List.sum_singleton]

theorem materializedBucket_eq_iff {x : Bucket} {counters : BucketLedgerCounters} :
    materializedBucket x = counters ↔ ∀ c, x.count c = counters.count c := by
  constructor
  · rintro rfl c
    cases c <;> rfl
  · intro h
    cases counters
    exact BucketLedgerCounters.mk.injEq .. ▸ ⟨h .reservedRequests, h .reservedInputTokens,
      h .reservedOutputTokens, h .consumedRequests, h .consumedInputTokens,
      h .consumedOutputTokens⟩

/-! ## The dictionaries after the loop -/

/-- The references of the ledger, in the order of the loop. -/
def references (s : Store) : List (Reservation × ScopeId) :=
  (reservationRows s).flatMap fun r => r.scopeIds.map fun i => (r, i)

/-- What the loop leaves. -/
def collected (s : Store) : Expected := (references s).foldl (fun e p => e.add s p.1 p.2) .zero

/-- Every reservation refers to scopes that are there. -/
def RefersToScopes (s : Store) : Prop :=
  ∀ r ∈ s.ledger.reservations.rows, ∀ i ∈ r.scopeIds, (s.ledger.scopes.get? i).isSome

theorem mem_reservationRows {s : Store} {r : Reservation} :
    r ∈ reservationRows s ↔ r ∈ s.ledger.reservations.rows :=
  List.mem_insertionSort _

theorem foldlM_accumulateReference {s : Store} {r : Reservation} {ids : List ScopeId}
    (h : ∀ i ∈ ids, (s.ledger.scopes.get? i).isSome) (e : Expected) :
    ids.foldlM (accumulateReference s r) e = .ok (ids.foldl (fun e i => e.add s r i) e) := by
  induction ids generalizing e with
  | nil => rfl
  | cons i ids ih =>
    rw [List.forall_mem_cons] at h
    have hthere : ¬ (s.ledger.scopes.get? i).isNone = true := by
      rw [Option.isNone_iff_eq_none, ← ne_eq, Option.ne_none_iff_isSome]
      exact h.1
    rw [List.foldlM_cons, accumulateReference, if_neg hthere]
    exact ih h.2 _

theorem expectedLedger_eq {s : Store} (h : RefersToScopes s) :
    expectedLedger s = .ok (collected s) := by
  have hrows : ∀ (rows : List Reservation), rows ⊆ s.ledger.reservations.rows → ∀ e : Expected,
      rows.foldlM (fun e r => r.scopeIds.foldlM (accumulateReference s r) e) e =
        .ok ((rows.flatMap fun r => r.scopeIds.map fun i => (r, i)).foldl
          (fun e p => e.add s p.1 p.2) e) := by
    intro rows
    induction rows with
    | nil => exact fun _ _ => rfl
    | cons r rows ih =>
      intro hsub e
      obtain ⟨hr, hrest⟩ := List.cons_subset.mp hsub
      rw [List.foldlM_cons, foldlM_accumulateReference (h r hr), List.flatMap_cons,
        List.foldl_append, List.foldl_map]
      exact ih hrest _
  exact hrows _ (fun r hr => mem_reservationRows.mp hr) _

/-- A scope has seen its own references. -/
theorem scopes_foldl (s : Store) (refs : List (Reservation × ScopeId)) (e : Expected)
    (i : ScopeId) : (refs.foldl (fun e p => e.add s p.1 p.2) e).scopes i =
      ((refs.filter fun p => p.2 = i).map Prod.fst).foldl
        (fun counters r => accumulateScopeLedger counters r (explicitInput s r)) (e.scopes i) := by
  induction refs generalizing e with
  | nil => rfl
  | cons p refs ih =>
    have hadd : (e.add s p.1 p.2).scopes = Function.update e.scopes p.2
        (accumulateScopeLedger (e.scopes p.2) p.1 (explicitInput s p.1)) := by
      rw [Expected.add]
      dsimp only
      split <;> rfl
    rw [List.foldl_cons, ih, hadd, List.filter_cons]
    by_cases hp : p.2 = i
    · subst hp
      simp
    · have hp' : i ≠ p.2 := fun heq => hp heq.symm
      simp [hp, hp']

/-- A bucket that is there has seen its own references. -/
theorem buckets_foldl (s : Store) (refs : List (Reservation × ScopeId)) (e : Expected)
    {k : BucketKey} (hk : (s.ledger.buckets.get? k).isSome) :
    (refs.foldl (fun e p => e.add s p.1 p.2) e).buckets k =
      ((refs.filter fun p => p.1.bucketKey p.2 = k).map Prod.fst).foldl accumulateBucketLedger
        (e.buckets k) := by
  induction refs generalizing e with
  | nil => rfl
  | cons p refs ih =>
    rw [List.foldl_cons, ih, List.filter_cons, Expected.add]
    dsimp only
    by_cases hp : p.1.bucketKey p.2 = k
    · subst hp
      have hthere : ¬ (s.ledger.buckets.get? (p.1.bucketKey p.2)).isNone = true := by
        rw [Option.isNone_iff_eq_none, ← ne_eq, Option.ne_none_iff_isSome]
        exact hk
      rw [if_neg hthere]
      simp
    · have hp' : k ≠ p.1.bucketKey p.2 := fun heq => hp heq.symm
      split <;> simp [hp, hp']

theorem missingBucket_foldl (s : Store) (refs : List (Reservation × ScopeId)) (e : Expected) :
    (refs.foldl (fun e p => e.add s p.1 p.2) e).missingBucket =
      (e.missingBucket ||
        refs.any fun p => (s.ledger.buckets.get? (p.1.bucketKey p.2)).isNone) := by
  induction refs generalizing e with
  | nil => simp
  | cons p refs ih =>
    rw [List.foldl_cons, ih, List.any_cons, Expected.add]
    dsimp only
    split
    · next hnone => simp [hnone]
    · next hsome => simp [Bool.not_eq_true _ ▸ hsome]

/-! ## The loop and the queries -/

/-- A reference as a fact of the query. -/
def factOf (s : Store) (p : Reservation × ScopeId) : ScopeFact :=
  ⟨p.2, p.1, inputReservationIsExplicit s.runs p.1⟩

/-- The facts of the query are the references of the loop, in another order. -/
theorem scopeFactSource_perm (s : Store) :
    (scopeFactSource s).Perm ((references s).map (factOf s)) := by
  have hsort : (reservationRows s).Perm s.ledger.reservations.rows := List.perm_insertionSort _ _
  rw [references, List.map_flatMap]
  simp only [List.map_map]
  exact (hsort.flatMap_right _).symm

theorem scopeFacts_perm (s : Store) (i : ScopeId) :
    (scopeFacts s i).Perm (((references s).filter fun p => p.2 = i).map (factOf s)) := by
  have h := (scopeFactSource_perm s).filter fun f => f.scopeId = i
  rwa [List.filter_map] at h

theorem bucketFacts_perm (s : Store) (k : BucketKey) :
    (bucketFacts s k).Perm
      (((references s).filter fun p => p.1.bucketKey p.2 = k).map (factOf s)) := by
  have h := (scopeFactSource_perm s).filter fun f => f.row.bucketKey f.scopeId = k
  rwa [List.filter_map] at h

theorem aggregate_of_perm {s : Store} {facts : List ScopeFact}
    {refs : List (Reservation × ScopeId)} (h : facts.Perm (refs.map (factOf s))) (c : Counter) :
    aggregate c facts = ((refs.map Prod.fst).map c.fact).sum := by
  rw [aggregate, (h.map _).sum_eq, List.map_map, List.map_map]
  rfl

/-- The flag that the loop leaves is that of the query. -/
theorem overdrawn_of_perm {s : Store} {facts : List ScopeFact}
    {refs : List (Reservation × ScopeId)} (h : facts.Perm (refs.map (factOf s))) :
    aggregateOverdrawn facts =
      (refs.map Prod.fst).any fun r => r.overdrawn (explicitInput s r) := by
  rw [aggregateOverdrawn, h.any_eq, List.any_map, List.any_map]
  simp only [explicitInput_eq]
  rfl

/-- What the loop collects for a scope beside what the query does. -/
theorem tracks_collected (s : Store) (i : ScopeId) : Tracks ((collected s).scopes i)
    (fun c => aggregate c (scopeFacts s i)) (aggregateOverdrawn (scopeFacts s i)) := by
  have hfold := tracks_foldl (explicitInput s)
    (((references s).filter fun p => p.2 = i).map Prod.fst)
  rw [overdrawn_of_perm (scopeFacts_perm s i)]
  simp only [aggregate_of_perm (scopeFacts_perm s i)]
  rw [collected, scopes_foldl]
  exact hfold

theorem materializedScope_eq_iff {s : Store} {x : Scope} (hreserved : x.reservedCostUsd < 10 ^ 20)
    (hconsumed : x.consumedCostUsd < 10 ^ 20) :
    materializedScope x = (collected s).scopes x.id ↔ x.Materialized s :=
  (tracks_collected s x.id).eq_iff hreserved hconsumed

theorem materializedBucket_eq_collected_iff {s : Store} {x : Bucket}
    (hx : x ∈ s.ledger.buckets.rows) :
    materializedBucket x = (collected s).buckets x.key ↔ x.Materialized s := by
  have hthere : (s.ledger.buckets.get? x.key).isSome := by
    rw [show x.key = key x from rfl, Table.get?_of_mem hx]
    rfl
  rw [materializedBucket_eq_iff, Bucket.Materialized, collected, buckets_foldl s _ _ hthere]
  refine forall_congr' fun c => ?_
  rw [aggregate_of_perm (bucketFacts_perm s x.key)]
  exact iff_of_eq (congrArg (x.count c = ·) (count_foldl_bucket _ c))

theorem missingBucket_eq_false_iff (s : Store) : (collected s).missingBucket = false ↔
    ∀ r ∈ s.ledger.reservations.rows, ∀ k ∈ r.bucketKeys, (s.ledger.buckets.get? k).isSome := by
  rw [collected, missingBucket_foldl]
  simp only [Expected.zero, Bool.false_or, List.any_eq_false, references, List.mem_flatMap,
    List.mem_map, mem_reservationRows, Reservation.bucketKeys]
  constructor
  · rintro h r hr k ⟨i, hi, rfl⟩
    have hnone := h (r, i) ⟨r, hr, i, hi, rfl⟩
    rwa [Option.isNone_iff_eq_none, ← ne_eq, Option.ne_none_iff_isSome] at hnone
  · rintro h p ⟨r, hr, i, hi, rfl⟩
    rw [Option.isNone_iff_eq_none, ← ne_eq, Option.ne_none_iff_isSome]
    exact h r hr _ ⟨i, hi, rfl⟩

theorem forM_ensure_eq_ok {ε α : Type} {p : α → Prop} [DecidablePred p] {e : ε} {l : List α} :
    (l.forM fun a => Python.ensure (p a) e) = .ok () ↔ ∀ a ∈ l, p a := by
  induction l with
  | nil => exact iff_of_true rfl fun _ ha => absurd ha List.not_mem_nil
  | cons a l ih =>
    rw [List.forall_mem_cons, ← ih]
    change (Python.ensure (p a) e >>= fun _ => l.forM fun a => Python.ensure (p a) e) = _ ↔ _
    rw [Python.bind_eq_ok]
    constructor
    · rintro ⟨u, hu, hl⟩
      exact ⟨Python.ensure_eq_ok.mp hu, hl⟩
    · rintro ⟨ha, hl⟩
      exact ⟨(), Python.ensure_eq_ok.mpr ha, hl⟩

/-- **The check of the import.** It passes exactly if every counter is its aggregate and every
bucket of a reservation is there. -/
theorem validateGovernanceMaterializations_eq_ok {source : Source}
    (h : RefersToScopes source.store) :
    validateGovernanceMaterializations source = .ok () ↔
      (∀ x ∈ source.store.ledger.scopes.rows, x.Materialized source.store) ∧
      (∀ x ∈ source.store.ledger.buckets.rows, x.Materialized source.store) ∧
      ∀ r ∈ source.store.ledger.reservations.rows, ∀ k ∈ r.bucketKeys,
        (source.store.ledger.buckets.get? k).isSome := by
  have hscopes : (∀ x ∈ source.store.ledger.scopes.rows,
      materializedScope x = (collected source.store).scopes x.id) ↔
        ∀ x ∈ source.store.ledger.scopes.rows, x.Materialized source.store := by
    refine forall₂_congr fun x hx => ?_
    obtain ⟨hreserved, hconsumed⟩ := source.costs_fit x hx
    exact materializedScope_eq_iff hreserved hconsumed
  have hbuckets : (∀ x ∈ source.store.ledger.buckets.rows,
      materializedBucket x = (collected source.store).buckets x.key) ↔
        ∀ x ∈ source.store.ledger.buckets.rows, x.Materialized source.store :=
    forall₂_congr fun x hx => materializedBucket_eq_collected_iff hx
  rw [← hscopes, ← hbuckets, ← missingBucket_eq_false_iff, validateGovernanceMaterializations,
    expectedLedger_eq h]
  simp only [Python.bind_eq_ok, Except.ok.injEq, exists_eq_left', forM_ensure_eq_ok,
    Python.ensure_eq_ok]
  constructor
  · rintro ⟨u, hrows, -, hmissing, hkeys⟩
    exact ⟨forM_ensure_eq_ok.mp hrows, hkeys, hmissing⟩
  · rintro ⟨hrows, hkeys, hmissing⟩
    exact ⟨(), forM_ensure_eq_ok.mpr hrows, (), hmissing, hkeys⟩

/-! ## The flag of the migration -/

/-- The outer `EXISTS` finds the facts of the scope. -/
theorem overdrawExpression_eq (s : Store) (x : Scope) :
    overdrawExpression s true x = aggregateOverdrawn (scopeFacts s x.id) := by
  have hrow : ∀ r : Reservation, (match r.runId with
      | none => true
      | some runId => s.runs.rows.any fun run =>
          run.id == runId && run.inputTokenReservation.isSome) =
        inputReservationIsExplicit s.runs r := by
    intro r
    rw [inputReservationIsExplicit]
    cases r.runId with
    | none => rfl
    | some runId => exact any_runs_eq s runId
  have hscope : ∀ r : Reservation, (r.overdrawn (inputReservationIsExplicit s.runs r) &&
      r.scopeIds.any fun i => i == x.id) = (((r.scopeIds.map fun i =>
        (⟨i, r, inputReservationIsExplicit s.runs r⟩ : ScopeFact)).filter
          fun f => f.scopeId = x.id).any fun f => f.row.overdrawn f.explicit) := by
    intro r
    rw [List.any_filter, List.any_map]
    induction r.scopeIds with
    | nil => exact Bool.and_false _
    | cons i ids ih =>
      rw [List.any_cons, List.any_cons, ← ih, Bool.and_or_distrib_left]
      exact congrArg (· || _) (Bool.and_comm _ _)
  rw [overdrawExpression, aggregateOverdrawn, scopeFacts, scopeFactSource, List.filter_flatMap,
    List.any_flatMap]
  refine congrArg s.ledger.reservations.rows.any (funext fun r => ?_)
  rw [← hscope, ← hrow, Reservation.overdrawn]
  dsimp only
  rw [if_pos rfl, if_pos rfl]
  ac_rfl

theorem upgrade_eq {s : Store} (h : ∀ r ∈ s.ledger.reservations.rows, r.state.active = false) :
    upgrade s = some { s with ledger := { s.ledger with
      scopes := s.ledger.scopes.update
        (Scope.withOverdrawn (overdrawExpression s true)) (key_withOverdrawn _) } } := by
  have hnone : ¬ (s.ledger.reservations.rows.any fun r => r.state.active) = true := by
    rw [List.any_eq_true]
    rintro ⟨r, hr, hactive⟩
    exact absurd hactive (Bool.eq_false_iff.mp (h r hr))
  rw [upgrade, recomputeOverdrawn, if_neg hnone]

/-- **One ledger, three accounts of it.** Where every reservation refers to scopes that are
there, the check of the import passes exactly if every counter is the aggregate of the
repository and every bucket of a reservation is there. Without active reservations the
upgrade writes the flag that the loop and the query compute. -/
theorem import_ledger_check (source : Source) (h : RefersToScopes source.store) :
    (validateGovernanceMaterializations source = .ok () ↔
      (∀ x ∈ source.store.ledger.scopes.rows, x.Materialized source.store) ∧
      (∀ x ∈ source.store.ledger.buckets.rows, x.Materialized source.store) ∧
      ∀ r ∈ source.store.ledger.reservations.rows, ∀ k ∈ r.bucketKeys,
        (source.store.ledger.buckets.get? k).isSome) ∧
    ((∀ r ∈ source.store.ledger.reservations.rows, r.state.active = false) →
      ∃ s' e, upgrade source.store = some s' ∧ expectedLedger source.store = .ok e ∧
        ∀ x ∈ source.store.ledger.scopes.rows,
          ∃ x', s'.ledger.scopes.get? x.id = some x' ∧
            x'.overdrawn = (e.scopes x.id).overdrawn ∧
            x'.overdrawn = aggregateOverdrawn (scopeFacts source.store x.id)) := by
  refine ⟨validateGovernanceMaterializations_eq_ok h, fun hactive => ?_⟩
  refine ⟨_, _, upgrade_eq hactive, expectedLedger_eq h, fun x hx => ?_⟩
  refine ⟨Scope.withOverdrawn (overdrawExpression source.store true) x, ?_, ?_, ?_⟩
  · refine (Table.get?_update source.store.ledger.scopes _ (key_withOverdrawn _) x.id).trans ?_
    rw [show x.id = key x from rfl, Table.get?_of_mem hx]
    rfl
  · rw [(tracks_collected source.store x.id).overdrawn]
    exact overdrawExpression_eq source.store x
  · exact overdrawExpression_eq source.store x

/-- Worker 100 has settled a call above what it had reserved. -/
def Sample.settled : Source :=
  ⟨LLMBenchLab.Sample.after LLMBenchLab.Sample.sentRun, by decide +kernel⟩

theorem import_ledger_check_sample :
    validateGovernanceMaterializations Sample.settled = .ok () ∧
      ∃ s' e, upgrade Sample.settled.store = some s' ∧
        expectedLedger Sample.settled.store = .ok e ∧
        ∀ x ∈ Sample.settled.store.ledger.scopes.rows,
          ∃ x', s'.ledger.scopes.get? x.id = some x' ∧
            x'.overdrawn = (e.scopes x.id).overdrawn ∧
            x'.overdrawn = aggregateOverdrawn (scopeFacts Sample.settled.store x.id) := by
  have hbalanced := (LLMBenchLab.Sample.committed_after
    LLMBenchLab.Sample.sentRun).booksInv.balanced
  have hcheck := import_ledger_check Sample.settled hbalanced.scopes
  refine ⟨hcheck.1.mpr ⟨fun x hx => ?_, fun x hx => ?_, hbalanced.buckets⟩,
    hcheck.2 (by decide +kernel)⟩
  · exact (x.materialized_iff _).mpr (hbalanced.scope x hx)
  · exact (x.materialized_iff _).mpr (hbalanced.bucket x hx)

end SqliteImport

end LLMBenchLab
