import LLMBenchLab.Attempts

/-!
# The system: one committed transaction after another

`Op` is a call of one of the transactions of the two repositories or of the
Runner, with the arguments its caller chose and the instant its clock showed.
Clock readings are arguments like any other: nothing says that a later
transaction reads a later time. `next` runs an operation to its commit or its
rollback, and a run of the system is any sequence of operations (`Reachable`).

Multi-transaction methods are their transactions in a row: a takeover is
`claim`, `reconcileRunLease` and, when that fails, `failClosedTakeover`; a
lease end is followed by `reconcileRunLease`; the reaper is one
`reconcileRunLease` a scanned row and then `reap`.
-/

namespace LLMBenchLab

open Relational

/-- A call of one transaction. -/
inductive Op : Type where
  | applyPolicy (values : PolicyValues) (freshId uuid : ℕ) (now : Time)
  | admitRun (n : Governance.NewRun) (now : Time)
  | claim (runId : RunId) (owner : Owner) (now : Time)
  | failClosedTakeover (lease : RunLease) (now : Time)
  | persistResponse (lease : RunLease) (id : ResponseId) (questionId : QuestionId)
      (outcome : QuestionOutcome) (now : Time)
  | requestCancel (runId : RunId) (now : Time)
  | finishCancelled (lease : RunLease) (now : Time)
  | recordNotificationResult (runId : RunId) (published : Bool) (now : Time)
  | failAttempt (lease : RunLease) (safeError : ErrorCode) (now : Time)
  | deferGovernance (lease : RunLease) (safeReason : ErrorCode) (notBefore now : Time)
  | cooperativeYield (lease : RunLease) (responsesAdded : ℕ) (now : Time)
  | exhaustGovernance (lease : RunLease) (safeReason : ErrorCode) (integrityError : Bool)
      (now : Time)
  | finishRun (lease : RunLease) (cancelled : Bool) (now finishedAt : Time)
  | reap (rows : List (RunId × ℕ)) (now : Time)
  | questionContext (runId : RunId) (questionId : QuestionId) (modelId : ModelId)
      (providerScope : ScopeKey) (leaseOwner : Owner) (leaseToken : ℕ)
      (reservedOutputTokens : Option ℤ) (reservedCostUsd : Option ℚ) (now : Time)
  | reserve (id : ReservationId) (c : Governance.AttemptContext) (providerAttempt : ℕ)
      (leaseOwner : Owner) (now : Time)
  | markSendStarted (permit : Permit) (leaseOwner : Owner) (now : Time)
  | finish (permit : Permit) (report : Governance.FinishReport) (now : Time)
  | reconcileRunLease (runId : RunId) (leaseToken : ℕ) (now : Time)
  | renewRunLease (runId : RunId) (leaseOwner : Owner) (leaseToken : ℕ) (now : Time)

namespace Op

variable (cfg : Config)

/-- The transaction of an operation, its result dropped. -/
def tx : Op → Tx Unit
  | applyPolicy values freshId uuid now =>
    (Governance.applyPolicy cfg values freshId uuid now).bind fun _ => .ret ()
  | admitRun n now => (Governance.admitRun cfg n now).bind fun _ => .ret ()
  | claim runId owner now => (RunLeases.claim cfg runId owner now).bind fun _ => .ret ()
  | failClosedTakeover lease now => RunLeases.failClosedTakeover lease now
  | persistResponse lease id questionId outcome now =>
    (RunLeases.persistResponse lease (outcome.response id lease.runId questionId) now).bind
      fun _ => .ret ()
  | requestCancel runId now => (RunLeases.requestCancel runId now).bind fun _ => .ret ()
  | finishCancelled lease now => (RunLeases.finishCancelled lease now).bind fun _ => .ret ()
  | recordNotificationResult runId published now =>
    (RunLeases.recordNotificationResult runId published now).bind fun _ => .ret ()
  | failAttempt lease safeError now =>
    (RunLeases.failAttempt cfg lease safeError now).bind fun _ => .ret ()
  | deferGovernance lease safeReason notBefore now =>
    (RunLeases.deferGovernance lease safeReason notBefore now).bind fun _ => .ret ()
  | cooperativeYield lease responsesAdded now =>
    (RunLeases.cooperativeYield lease responsesAdded now).bind fun _ => .ret ()
  | exhaustGovernance lease safeReason integrityError now =>
    (RunLeases.exhaustGovernance lease safeReason integrityError now).bind fun _ => .ret ()
  | finishRun lease cancelled now finishedAt =>
    (RunLeases.finishRun lease (if cancelled then .cancelled else .completed) now
      finishedAt).bind fun _ => .ret ()
  | reap rows now => (RunLeases.reap cfg now rows).bind fun _ => .ret ()
  | questionContext runId questionId modelId providerScope leaseOwner leaseToken output cost now =>
    (Governance.questionContext runId questionId modelId providerScope leaseOwner leaseToken output
      cost now).bind fun _ => .ret ()
  | reserve id c providerAttempt leaseOwner now =>
    (Governance.reserve cfg id c providerAttempt leaseOwner now).bind fun _ => .ret ()
  | markSendStarted permit leaseOwner now => Governance.markSendStarted cfg permit leaseOwner now
  | finish permit report now => Governance.finish permit report now
  | reconcileRunLease runId leaseToken now =>
    (Governance.reconcileRunLease runId leaseToken now).bind fun _ => .ret ()
  | renewRunLease runId leaseOwner leaseToken now =>
    (Governance.renewRunLease cfg runId leaseOwner leaseToken now).bind fun _ => .ret ()

/-- What the Runner guarantees of its calls: it evaluates the questions of the
Run's own benchmark. -/
def Issued (s : Store) : Op → Prop
  | persistResponse lease _ questionId _ _ =>
    ∀ run, s.runs.get? lease.runId = some run → questionId ∈ cfg.questions run.benchmarkId
  | _ => True

end Op

variable (cfg : Config)

/-- One operation, committed or rolled back. -/
def next (s : Store) (o : Op) : Store := Prog.after schema (o.tx cfg) s

/-- Some run of the system from a fresh database ends in `s`. -/
def Reachable (s : Store) : Prop := Reaches (next cfg) (Op.Issued cfg) Store.empty s

/-! ## A small deployment

One benchmark of three questions and Runs of one Model, for concrete runs. -/

namespace Sample

/-- Leases of a second, retries after at most ten microseconds. -/
def config : Config where
  leaseFor := 1000000
  leaseFor_pos := by decide
  retryBackoffBase := 1
  retryBackoffCap := 10
  retryBackoff_le := by decide
  questions _ := [1, 2, 3]
  questions_nodup _ := by decide
  policyHash l := l.backlogLimit

/-- A Run of Model 5 at Provider 4 with two Provider attempts a question. -/
def newRun (id : RunId) (overrides : RunOverrides) : Governance.NewRun where
  id := id
  modelId := 5
  benchmarkId := 1
  maxAttempts := 3
  maxAttempts_pos := by decide
  retryMaxAttempts := some 2
  overrides := overrides
  providerScope := some 4

/-- No bound and no budget. -/
def unlimited : RunOverrides := ⟨none, none, none, none⟩

/-- The Response of an answer with these counts. -/
def answer (inputTokens outputTokens : ℕ) : QuestionOutcome :=
  .evaluated "A" (by decide) ⟨4, some inputTokens, some outputTokens, none, by decide, nofun⟩
    ⟨true, none, nofun⟩ false

/-- The handle of Worker 100 on Run 1, claimed at instant 20. -/
def lease : RunLease := ⟨1, 100, 1, 1, 1000020⟩

/-- The store after a list of operations on a fresh database. -/
def after (ops : List Op) : Store := ops.foldl (next config) Store.empty

/-- No operation of the list is a `persist_response`. -/
def silent (ops : List Op) : Bool :=
  ops.all fun o => match o with
    | .persistResponse .. => false
    | _ => true

theorem reachable_after {ops : List Op} (h : silent ops = true) : Reachable config (after ops) := by
  refine Reaches.start.foldl fun s o ho => ?_
  have ho' := List.all_eq_true.mp h o ho
  cases o with
  | persistResponse => cases ho'
  | _ => exact trivial

/-- The transaction ends with this exception. -/
def refused {α : Type} (p : Tx α) (s : Store) (e : Err) : Bool :=
  match Prog.exec schema p s with
  | .error e' => decide (e' = e)
  | .ok _ => false

theorem error_of_refused {α : Type} {p : Tx α} {s : Store} {e : Err} (h : refused p s e = true) :
    Prog.exec schema p s = .error e := by
  unfold refused at h
  split at h
  · next e' he => rw [he, of_decide_eq_true h]
  · cases h

theorem ok_of_isOk {α : Type} {p : Tx α} {s : Store} (h : (Prog.exec schema p s).isOk = true) :
    ∃ a s', Prog.exec schema p s = .ok (a, s') := by
  rcases hx : Prog.exec schema p s with e | ⟨a, s'⟩
  · rw [hx] at h
    cases h
  · exact ⟨a, s', rfl⟩

end Sample

end LLMBenchLab
