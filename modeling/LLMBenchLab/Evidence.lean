import Mathlib.Data.Rat.Floor
import LLMBenchLab.Store

/-!
# Evidence: protocol-v1 metrics from persisted Responses

`canonical_run_evidence` (`services/run_evidence.py`) applied to the SQL
aggregates of a Run's Responses, as `aggregate_run_evidence`
(`runners/run_leases.py`) does it. Floats are read as exact rationals.

The last section builds the Response that `_evaluate_question`
(`runners/evaluation_runner.py`) hands to `persist_response`: a question ends in
an adapter error, an internal error, an evaluator failure or an evaluation, and
only an evaluation without a parse error can carry a positive score.
-/

namespace LLMBenchLab

/-- Python's `round` of a float: to the nearest integer, ties to even. -/
def pyRound (x : ℚ) : ℤ :=
  let f := x.floor
  let d := x - f
  if d < 1 / 2 then f
  else if 1 / 2 < d then f + 1
  else if f % 2 = 0 then f else f + 1

/-- The row of SQL aggregates over the Responses of a Run. -/
structure EvidenceAggregate where
  responseCount : ℕ
  scoreSum : ℚ
  completedOutputs : ℕ
  evaluableResponses : ℕ
  errorResponses : ℕ
  averageLatencyMs : Option ℚ
  knownInputTokens : ℕ
  inputTokenReports : ℕ
  knownOutputTokens : ℕ
  outputTokenReports : ℕ
  knownEstimatedCost : ℚ
  estimatedCostReports : ℕ

namespace Response

/-- `raw_response IS NOT NULL AND raw_response <> ''`. -/
def hasOutput (x : Response) : Bool := x.rawResponse.any fun t => t != ""

/-- A parsed answer over a non-empty output. -/
def evaluable (x : Response) : Bool := x.errorType.isNone && x.hasOutput

end Response

/-- The `SELECT` of `aggregate_run_evidence`. -/
def selectEvidence (rs : List Response) : EvidenceAggregate where
  responseCount := rs.length
  scoreSum := (rs.map Response.score).sum
  completedOutputs := rs.countP Response.hasOutput
  evaluableResponses := rs.countP Response.evaluable
  errorResponses := rs.countP fun x => x.errorType.isSome
  averageLatencyMs :=
    let known := rs.filterMap Response.latencyMs
    if known.isEmpty then none else some (known.sum / known.length)
  knownInputTokens := (rs.filterMap Response.inputTokens).sum
  inputTokenReports := (rs.filterMap Response.inputTokens).length
  knownOutputTokens := (rs.filterMap Response.outputTokens).sum
  outputTokenReports := (rs.filterMap Response.outputTokens).length
  knownEstimatedCost := (rs.filterMap Response.estimatedCost).sum
  estimatedCostReports := (rs.filterMap Response.estimatedCost).length

/-- Derived Run metrics. -/
structure CanonicalRunEvidence where
  completedQuestions : ℕ
  correctQuestions : ℤ
  errorQuestions : ℕ
  score : ℚ
  completionRate : ℚ
  answeredAccuracy : Option ℚ
  averageLatencyMs : Option ℚ
  inputTokens : Option ℕ
  outputTokens : Option ℕ
  estimatedCost : Option ℚ

/-- A usage total is known only when every Response reports it. -/
def exactUsage {α : Type} (responseCount reports : ℕ) (known : α) : Option α :=
  if responseCount ≠ 0 ∧ reports = responseCount then some known else none

/-- `canonical_run_evidence`. -/
def canonicalRunEvidence (plannedQuestions : ℕ) (e : EvidenceAggregate) :
    CanonicalRunEvidence where
  completedQuestions := e.responseCount
  correctQuestions := pyRound e.scoreSum
  errorQuestions := e.errorResponses
  score := if plannedQuestions = 0 then 0 else e.scoreSum / plannedQuestions * 100
  completionRate :=
    if plannedQuestions = 0 then 0 else (e.completedOutputs : ℚ) / plannedQuestions * 100
  answeredAccuracy :=
    if e.evaluableResponses = 0 then none
    else some ((pyRound e.scoreSum : ℚ) / e.evaluableResponses * 100)
  averageLatencyMs := e.averageLatencyMs
  inputTokens := exactUsage e.responseCount e.inputTokenReports e.knownInputTokens
  outputTokens := exactUsage e.responseCount e.outputTokenReports e.knownOutputTokens
  estimatedCost := exactUsage e.responseCount e.estimatedCostReports e.knownEstimatedCost

/-- The assignments of `aggregate_run_evidence`: the metrics columns of the Run
from its Responses `rs`. The function returns the number of Responses, which is
`completedQuestions` of the result. -/
def aggregateRunEvidence (rs : List Response) (r : Run) : Run :=
  let m := canonicalRunEvidence r.totalQuestions (selectEvidence rs)
  { r with
    completedQuestions := m.completedQuestions
    correctQuestions := m.correctQuestions
    errorQuestions := m.errorQuestions
    score := some m.score
    completionRate := some m.completionRate
    answeredAccuracy := m.answeredAccuracy
    averageLatencyMs := m.averageLatencyMs
    inputTokens := m.inputTokens
    outputTokens := m.outputTokens
    estimatedCost := m.estimatedCost }

/-! ## What a question evaluates to -/

/-- `EvaluationResult` of an evaluator: a binary score, zero with a parse
error. -/
structure EvaluationResult where
  correct : Bool
  parseError : Option String
  /-- every `_error(…)` of the evaluators has `correct=False` -/
  sound : parseError.isSome → correct = false

def EvaluationResult.score (e : EvaluationResult) : ℚ := if e.correct then 1 else 0

/-- What a generation reports besides its text. -/
structure GenerationUsage where
  latencyMs : ℚ
  inputTokens : Option ℕ
  outputTokens : Option ℕ
  estimatedCost : Option ℚ
  /-- a difference of two readings of a monotonic clock -/
  latency_nonneg : 0 ≤ latencyMs
  /-- token counts times prices -/
  cost_nonneg : ∀ c ∈ estimatedCost, 0 ≤ c

/-- How `_evaluate_question` ends for a question, governance and lease signals
apart. A generated text is not blank: a blank one is an `empty_response`
adapter error. -/
inductive QuestionOutcome : Type where
  | adapterError (errorType : String)
  | internalError
  | evaluatorFailed (text : String) (nonempty : text ≠ "") (usage : GenerationUsage)
  | evaluated (text : String) (nonempty : text ≠ "") (usage : GenerationUsage)
      (result : EvaluationResult) (truncated : Bool)

/-- `_parse_error_evidence`: the error type of an evaluated Response. -/
def parseErrorType (result : EvaluationResult) (truncated : Bool) : Option String :=
  result.parseError.map fun _ => if truncated then "output_truncated" else "parse_error"

/-- The Response `_evaluate_question` builds. -/
def QuestionOutcome.response (o : QuestionOutcome) (id : ResponseId) (runId : RunId)
    (questionId : QuestionId) : Response :=
  match o with
  | adapterError errorType =>
    ⟨id, runId, questionId, none, 0, none, none, none, none, some errorType⟩
  | internalError =>
    ⟨id, runId, questionId, none, 0, none, none, none, none, some "question_internal_error"⟩
  | evaluatorFailed text _ u =>
    ⟨id, runId, questionId, some text, 0, some u.latencyMs, u.inputTokens, u.outputTokens,
      u.estimatedCost, some "evaluator_internal_error"⟩
  | evaluated text _ u result truncated =>
    ⟨id, runId, questionId, some text, result.score, some u.latencyMs, u.inputTokens,
      u.outputTokens, u.estimatedCost, parseErrorType result truncated⟩

end LLMBenchLab
