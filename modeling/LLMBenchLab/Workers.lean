import LLMBenchLab.Fencing

/-!
# Workers: the control flow of `EvaluationRunner.execute`

`System` lets every operation come at any time with any lease. Here a lease is
held by the Worker that claimed it, which runs `execute`
(`runners/evaluation_runner.py`): it reads the open questions once, evaluates a
slice of them with several consumers, and chooses its last transition from a
cancellation check made in an earlier transaction. A `World` is the store with
the Workers between two of their transactions; an `Act` is the next transaction
of one of them, or of the API, the reaper or the ledger.

A crash or a shutdown is a Worker that takes no further act. The number of
consumers is not bounded.
-/

namespace LLMBenchLab

open Relational Relational.Prog

/-- The governance exceptions that `_run_questions` keeps. -/
inductive GovernanceSignal : Type where
  | deferred (code : ErrorCode) (notBefore : Time)
  | settlementUnknown
  | exhausted (code : ErrorCode)
  | integrityError (code : ErrorCode)
  deriving DecidableEq, Repr

def GovernanceSignal.priority : GovernanceSignal → ℕ
  | deferred _ _ => 1
  | settlementUnknown => 2
  | exhausted _ => 3
  | integrityError _ => 4

/-- Two deferrals, the candidate the later one. -/
def GovernanceSignal.later : GovernanceSignal → GovernanceSignal → Bool
  | deferred _ candidate, deferred _ held => decide (held < candidate)
  | _, _ => false

/-- `remember_governance_signal`. -/
def rememberGovernanceSignal (held : Option GovernanceSignal) (candidate : GovernanceSignal) :
    Option GovernanceSignal :=
  match held with
  | none => some candidate
  | some signal =>
    if signal.priority < candidate.priority ∨ candidate.later signal then some candidate
    else some signal

/-- The questions of one execution. -/
structure Progress where
  /-- of the slice, not taken by a consumer -/
  waiting : List QuestionId
  /-- in evaluation -/
  inFlight : List QuestionId
  /-- ended by a governance signal, in this order -/
  signalled : List (QuestionId × GovernanceSignal)
  /-- beyond the slice -/
  rest : List QuestionId
  /-- `stop_scheduling` -/
  stopped : Bool
  /-- `responses_added` -/
  responsesAdded : ℕ
  deriving DecidableEq, Repr

namespace Progress

/-- `governance_signal`. -/
def governanceSignal (p : Progress) : Option GovernanceSignal :=
  (p.signalled.map Prod.snd).foldl rememberGovernanceSignal none

/-- The questions that the Worker has read as open and not answered. -/
def unanswered (p : Progress) : List QuestionId :=
  p.waiting ++ (p.inFlight ++ (p.signalled.map Prod.fst ++ p.rest))

end Progress

inductive Phase : Type where
  /-- claimed; the snapshots are not read -/
  | loading
  | evaluating (p : Progress)
  /-- after the last cancellation check -/
  | decided (p : Progress) (cancellationRequested : Bool)
  /-- the fence was lost -/
  | leaseLost
  | ended
  deriving DecidableEq, Repr

/-- A Worker and the lease it holds. -/
structure Worker where
  lease : RunLease
  phase : Phase
  deriving DecidableEq, Repr

structure World where
  store : Store
  workers : List Worker

inductive Act : Type where
  /-- the API, the reaper, and the Worker's ledger and heartbeat transactions -/
  | external (o : Op)
  | claim (runId : RunId) (owner : Owner) (now : Time)
  /-- the reconciliation of a takeover raised an integrity error -/
  | failClosedTakeover (w : Worker) (now : Time)
  /-- `_load_snapshots` -/
  | loadSnapshots (w : Worker)
  /-- a consumer takes a question and checks for a cancellation -/
  | takeQuestion (w : Worker)
  /-- `_evaluate_question` ends with `persist_response` -/
  | persist (w : Worker) (id : ResponseId) (q : QuestionId) (outcome : QuestionOutcome)
      (now : Time)
  /-- `_evaluate_question` raises a governance signal -/
  | signal (w : Worker) (q : QuestionId) (g : GovernanceSignal)
  /-- the cancellation check after the last question -/
  | check (w : Worker)
  /-- the transition that the check has chosen -/
  | transition (w : Worker) (now finishedAt : Time)
  /-- any other exception: `fail_attempt` -/
  | fail (w : Worker) (e : ErrorCode) (now : Time)
  /-- `_LeaseUnavailable`: `finish_cancelled` -/
  | giveUp (w : Worker) (now : Time)

/-- The transition of `execute` after its last cancellation check. -/
def Worker.transition (w : Worker) (now finishedAt : Time) : Option Op :=
  match w.phase with
  | .decided p cancelled =>
    if cancelled then some (.finishRun w.lease true now finishedAt)
    else match p.governanceSignal with
      | some (.deferred code notBefore) => some (.deferGovernance w.lease code notBefore now)
      | some (.exhausted code) => some (.exhaustGovernance w.lease code false now)
      | some (.integrityError code) => some (.exhaustGovernance w.lease code true now)
      | some .settlementUnknown => some (.cooperativeYield w.lease p.responsesAdded now)
      | none =>
        if p.rest.isEmpty then some (.finishRun w.lease false now finishedAt)
        else some (.cooperativeYield w.lease p.responsesAdded now)
  | _ => none

/-- The transaction of an act, if it has one that writes. -/
def Act.op : Act → Option Op
  | external o => some o
  | claim runId owner now => some (.claim runId owner now)
  | failClosedTakeover w now => some (.failClosedTakeover w.lease now)
  | persist w id q outcome now => some (.persistResponse w.lease id q outcome now)
  | transition w now finishedAt => w.transition now finishedAt
  | fail w e now => some (.failAttempt w.lease e now)
  | giveUp w now => some (.finishCancelled w.lease now)
  | _ => none

/-- Operations that a Worker makes under its lease, in the order of `execute`. -/
def Op.ofWorker : Op → Bool
  | .claim .. => true
  | .failClosedTakeover .. => true
  | .persistResponse .. => true
  | .finishCancelled .. => true
  | .failAttempt .. => true
  | .deferGovernance .. => true
  | .cooperativeYield .. => true
  | .exhaustGovernance .. => true
  | .finishRun .. => true
  | _ => false

/-- `_cancellation_requested`. -/
def Store.cancellationRequested (s : Store) (runId : RunId) : Bool :=
  (s.runs.get? runId).any Run.cancellationRequested

/-- The questions of a Run without a Response, by position. -/
def openQuestions (cfg : Config) (s : Store) (run : Run) : List QuestionId :=
  (cfg.questions run.benchmarkId).filter fun q =>
    !(s.responsesOf run.id).any fun x => x.questionId == q

/-- `_load_snapshots`, and the slice of a governed Run. -/
def loadSnapshots (cfg : Config) (s : Store) (runId : RunId) : Phase :=
  match s.runs.get? runId with
  | none => .loading
  | some run =>
    let questions := openQuestions cfg s run
    let quantum := match run.governanceSnapshot with
      | none => questions.length
      | some g => g.policy.limits.questionQuantum
    .evaluating ⟨questions.take quantum, [], [], questions.drop quantum, false, 0⟩

/-- `consume_questions` with the first check of `evaluate_bounded`. -/
def Progress.takeQuestion (p : Progress) (cancelled : Bool) : Progress :=
  match p.waiting with
  | [] => p
  | q :: waiting =>
    if cancelled then { p with waiting, stopped := true }
    else { p with waiting, inFlight := q :: p.inFlight }

/-- The Worker after `persist_response`. -/
def Progress.persisted (p : Progress) (q : QuestionId) : ResponseDisposition → Phase
  | .fenceLost => .leaseLost
  | .inserted => .evaluating
      { p with inFlight := p.inFlight.erase q, responsesAdded := p.responsesAdded + 1 }
  | _ => .evaluating { p with inFlight := p.inFlight.erase q }

/-- The Worker after a governance signal. -/
def Progress.signal (p : Progress) (q : QuestionId) (g : GovernanceSignal) : Progress :=
  { p with
    inFlight := p.inFlight.erase q
    signalled := p.signalled ++ [(q, g)]
    stopped := true }

/-- When `execute` can take this act next. -/
def Act.enabled (W : World) : Act → Bool
  | external o => !o.ofWorker
  | claim _ _ _ => true
  | failClosedTakeover w _ => decide (w ∈ W.workers) && decide (w.phase = .loading)
  | loadSnapshots w => decide (w ∈ W.workers) && decide (w.phase = .loading)
  | takeQuestion w => decide (w ∈ W.workers) && match w.phase with
    | .evaluating p => !p.stopped && !p.waiting.isEmpty
    | _ => false
  | persist w _ q _ _ => decide (w ∈ W.workers) && match w.phase with
    | .evaluating p => decide (q ∈ p.inFlight)
    | _ => false
  | signal w q _ => decide (w ∈ W.workers) && match w.phase with
    | .evaluating p => decide (q ∈ p.inFlight)
    | _ => false
  | check w => decide (w ∈ W.workers) && match w.phase with
    | .evaluating p => p.inFlight.isEmpty && (p.waiting.isEmpty || p.stopped)
    | _ => false
  | transition w _ _ => decide (w ∈ W.workers) && match w.phase with
    | .decided _ _ => true
    | _ => false
  | fail w _ _ => decide (w ∈ W.workers) && decide (w.phase ≠ .ended)
  | giveUp w _ => decide (w ∈ W.workers) && decide (w.phase ≠ .ended)

/-- The phase of the acting Worker after a transaction that returned, or raised. -/
def Worker.after {α : Type} (w : Worker) (x : Except Err (α × Store)) (returned : α → Phase) :
    Phase :=
  match x with
  | .ok (a, _) => returned a
  | .error _ => w.phase

/-- The acting Worker of an act and its next phase. -/
def Act.turn (cfg : Config) (s : Store) : Act → Option (Worker × Phase)
  | external _ => none
  | claim _ _ _ => none
  | failClosedTakeover w now =>
    some (w, w.after (exec schema (RunLeases.failClosedTakeover w.lease now) s) fun _ => .ended)
  | loadSnapshots w => some (w, LLMBenchLab.loadSnapshots cfg s w.lease.runId)
  | takeQuestion w => some (w, match w.phase with
    | .evaluating p => .evaluating (p.takeQuestion (s.cancellationRequested w.lease.runId))
    | phase => phase)
  | persist w id q outcome now => some (w, match w.phase with
    | .evaluating p =>
      w.after (exec schema (RunLeases.persistResponse w.lease
        (outcome.response id w.lease.runId q) now) s) (p.persisted q)
    | phase => phase)
  | signal w q g => some (w, match w.phase with
    | .evaluating p => .evaluating (p.signal q g)
    | phase => phase)
  | check w => some (w, match w.phase with
    | .evaluating p => .decided p (s.cancellationRequested w.lease.runId)
    | phase => phase)
  | transition w now finishedAt => some (w, match w.transition now finishedAt with
    | some o => w.after (exec schema (o.tx cfg) s) fun _ => .ended
    | none => w.phase)
  | fail w e now =>
    some (w, w.after (exec schema (RunLeases.failAttempt cfg w.lease e now) s) fun _ => .ended)
  | giveUp w now =>
    some (w, w.after (exec schema (RunLeases.finishCancelled w.lease now) s) fun _ => .ended)

/-- The Worker that a claim starts. -/
def Act.started (cfg : Config) (s : Store) : Act → List Worker
  | claim runId owner now =>
    match exec schema (RunLeases.claim cfg runId owner now) s with
    | .ok (some (lease, _), _) => [⟨lease, .loading⟩]
    | _ => []
  | _ => []

/-- One act. -/
def World.next (cfg : Config) (W : World) (a : Act) : World where
  store := match a.op with
    | none => W.store
    | some o => LLMBenchLab.next cfg W.store o
  workers := a.started cfg W.store ++ match a.turn cfg W.store with
    | none => W.workers
    | some (w, phase) => { w with phase } :: W.workers.erase w

/-- A fresh database and no Worker. -/
def World.start : World := ⟨Store.empty, []⟩

end LLMBenchLab
