import Mathlib.Data.List.Sort
import LLMBenchLab.Evidence
import LLMBenchLab.Grouping

/-!
# Progress and reports: the metrics computed again

`services/run_progress.py` computes the metrics of a Run once more for polling,
by SQL over blocks of 512 positions and a sum in Python; `reports/run_report.py`
computes them a third time for the export, by a fold over the Responses into
groups of questions and a merge of the groups.

What all three add up is one commutative monoid of totals (`Totals`), so that
neither the blocks nor the groups nor their order matter.
-/

namespace LLMBenchLab

open Relational Grouping

/-! ## Questions -/

/-- The columns of a question that the projections read; `metadata` only decides
its group. -/
structure Question where
  id : QuestionId
  benchmarkId : BenchmarkId
  position : ℕ
  metadata : ℕ
  deriving DecidableEq, Repr

instance : Keyed Question QuestionId := ⟨Question.id⟩

/-- The question table with `uq_questions_benchmark_position`. -/
structure Catalog where
  questions : Table Question
  positions : ∀ q ∈ questions.rows, ∀ q' ∈ questions.rows,
    q.benchmarkId = q'.benchmarkId → q.position = q'.position → q = q'

/-! ## Totals -/

/-- The additive facts of a set of Responses. -/
@[ext] structure Totals where
  responseCount : ℕ
  scoreSum : ℚ
  completedOutputs : ℕ
  evaluableResponses : ℕ
  errorResponses : ℕ
  latencySum : ℚ
  latencyReports : ℕ
  knownInputTokens : ℕ
  inputTokenReports : ℕ
  knownOutputTokens : ℕ
  outputTokenReports : ℕ
  knownEstimatedCost : ℚ
  estimatedCostReports : ℕ
  deriving DecidableEq

namespace Totals

instance : Zero Totals := ⟨⟨0, 0, 0, 0, 0, 0, 0, 0, 0, 0, 0, 0, 0⟩⟩

instance : Add Totals where
  add a b :=
    ⟨a.responseCount + b.responseCount, a.scoreSum + b.scoreSum,
      a.completedOutputs + b.completedOutputs, a.evaluableResponses + b.evaluableResponses,
      a.errorResponses + b.errorResponses, a.latencySum + b.latencySum,
      a.latencyReports + b.latencyReports, a.knownInputTokens + b.knownInputTokens,
      a.inputTokenReports + b.inputTokenReports, a.knownOutputTokens + b.knownOutputTokens,
      a.outputTokenReports + b.outputTokenReports, a.knownEstimatedCost + b.knownEstimatedCost,
      a.estimatedCostReports + b.estimatedCostReports⟩

theorem add_def (a b : Totals) : a + b =
    ⟨a.responseCount + b.responseCount, a.scoreSum + b.scoreSum,
      a.completedOutputs + b.completedOutputs, a.evaluableResponses + b.evaluableResponses,
      a.errorResponses + b.errorResponses, a.latencySum + b.latencySum,
      a.latencyReports + b.latencyReports, a.knownInputTokens + b.knownInputTokens,
      a.inputTokenReports + b.inputTokenReports, a.knownOutputTokens + b.knownOutputTokens,
      a.outputTokenReports + b.outputTokenReports, a.knownEstimatedCost + b.knownEstimatedCost,
      a.estimatedCostReports + b.estimatedCostReports⟩ := rfl

theorem zero_def : (0 : Totals) = ⟨0, 0, 0, 0, 0, 0, 0, 0, 0, 0, 0, 0, 0⟩ := rfl

instance : AddCommMonoid Totals where
  add_assoc a b c := by simp only [add_def, add_assoc]
  zero_add a := by simp only [add_def, zero_def, zero_add]
  add_zero a := by simp only [add_def, zero_def, add_zero]
  add_comm a b := by simp only [add_def, Nat.add_comm, Rat.add_comm]
  nsmul := nsmulRec

/-- The facts of one Response. -/
def ofResponse (x : Response) : Totals where
  responseCount := 1
  scoreSum := x.score
  completedOutputs := if x.hasOutput then 1 else 0
  evaluableResponses := if x.evaluable then 1 else 0
  errorResponses := if x.errorType.isSome then 1 else 0
  latencySum := x.latencyMs.getD 0
  latencyReports := if x.latencyMs.isSome then 1 else 0
  knownInputTokens := x.inputTokens.getD 0
  inputTokenReports := if x.inputTokens.isSome then 1 else 0
  knownOutputTokens := x.outputTokens.getD 0
  outputTokenReports := if x.outputTokens.isSome then 1 else 0
  knownEstimatedCost := x.estimatedCost.getD 0
  estimatedCostReports := if x.estimatedCost.isSome then 1 else 0

/-- `latency_sum / latency_reports if latency_reports else None`. -/
def averageLatencyMs (t : Totals) : Option ℚ :=
  if t.latencyReports = 0 then none else some (t.latencySum / t.latencyReports)

/-- The arguments of `canonical_run_evidence`. -/
def aggregate (t : Totals) : EvidenceAggregate where
  responseCount := t.responseCount
  scoreSum := t.scoreSum
  completedOutputs := t.completedOutputs
  evaluableResponses := t.evaluableResponses
  errorResponses := t.errorResponses
  averageLatencyMs := t.averageLatencyMs
  knownInputTokens := t.knownInputTokens
  inputTokenReports := t.inputTokenReports
  knownOutputTokens := t.knownOutputTokens
  outputTokenReports := t.outputTokenReports
  knownEstimatedCost := t.knownEstimatedCost
  estimatedCostReports := t.estimatedCostReports

end Totals

/-- The aggregate columns of the `SELECT` of `load_progress_index`, over the
Responses of one group. -/
def selectTotals (rs : List Response) : Totals where
  responseCount := rs.length
  scoreSum := (rs.map Response.score).sum
  completedOutputs := rs.countP Response.hasOutput
  evaluableResponses := rs.countP Response.evaluable
  errorResponses := rs.countP fun x => x.errorType.isSome
  latencySum := (rs.filterMap Response.latencyMs).sum
  latencyReports := (rs.filterMap Response.latencyMs).length
  knownInputTokens := (rs.filterMap Response.inputTokens).sum
  inputTokenReports := (rs.filterMap Response.inputTokens).length
  knownOutputTokens := (rs.filterMap Response.outputTokens).sum
  outputTokenReports := (rs.filterMap Response.outputTokens).length
  knownEstimatedCost := (rs.filterMap Response.estimatedCost).sum
  estimatedCostReports := (rs.filterMap Response.estimatedCost).length

theorem sum_filterMap_cons {α A : Type} [AddMonoid A] (f : α → Option A) (x : α) (xs : List α) :
    ((x :: xs).filterMap f).sum = (f x).getD 0 + (xs.filterMap f).sum := by
  cases h : f x <;> simp [h]

theorem length_filterMap_cons {α A : Type} (f : α → Option A) (x : α) (xs : List α) :
    ((x :: xs).filterMap f).length = (if (f x).isSome then 1 else 0) + (xs.filterMap f).length := by
  cases h : f x <;> simp [h, Nat.add_comm]

/-- The columns are the sums of the facts. -/
theorem selectTotals_eq (rs : List Response) : selectTotals rs = (rs.map Totals.ofResponse).sum := by
  induction rs with
  | nil => rfl
  | cons x rs ih =>
    rw [List.map_cons, List.sum_cons, ← ih]
    simp only [selectTotals, Totals.ofResponse, Totals.add_def, sum_filterMap_cons,
      length_filterMap_cons, List.map_cons, List.sum_cons, List.length_cons, List.countP_cons,
      Nat.add_comm]

theorem average_eq (l : List ℚ) : (if l.isEmpty then none else some (l.sum / l.length)) =
    if l.length = 0 then none else some (l.sum / l.length) := by
  cases l with
  | nil => rfl
  | cons x l => simp

/-- The `SELECT` of `aggregate_run_evidence` has the same columns, with an `AVG`
for the latency. -/
theorem selectEvidence_eq (rs : List Response) :
    selectEvidence rs = (selectTotals rs).aggregate := by
  simp only [selectEvidence, Totals.aggregate, selectTotals, Totals.averageLatencyMs, average_eq]
  rfl

/-! ## Blocks -/

/-- `PROGRESS_BLOCK_SIZE`. -/
def progressBlockSize : ℕ := 512

/-- `progress_block_count`. -/
def progressBlockCount (totalQuestions : ℕ) : ℕ :=
  (totalQuestions + progressBlockSize - 1) / progressBlockSize

/-- `block_start` and `block_end`. -/
def blockStart (i : ℕ) : ℕ := i * progressBlockSize

def blockEnd (totalQuestions i : ℕ) : ℕ := min (blockStart i + progressBlockSize) totalQuestions

/-- Codes of `RunProgressIntegrityError`. -/
inductive ProgressError : Type where
  | responseMappingMissing | responseOutsideFrozenPlan | blockResponseCountInvalid
  | responseCountInvalid
  deriving DecidableEq, Repr

/-- The `GROUP BY` columns, null where no question is joined. -/
structure BlockKey where
  benchmarkId : Option BenchmarkId
  blockIndex : Option ℕ
  deriving DecidableEq, Repr

/-- A row of the `SELECT` of `load_progress_index`. -/
structure BlockRow where
  key : BlockKey
  minimumPosition : Option ℕ
  maximumPosition : Option ℕ
  totals : Totals

/-- `RunProgressIndexProjection`; the usage columns are those of the totals. -/
structure ProgressIndex where
  metrics : CanonicalRunEvidence
  totals : Totals
  blockResponseCounts : List ℕ

namespace Catalog

variable (c : Catalog)

/-- The question of a Response. -/
def questionOf (x : Response) : Option Question := c.questions.get? x.questionId

/-- The group of a row of the outer joins; `none` is the Run without a Response. -/
def blockKey : Option Response → BlockKey
  | none => ⟨none, none⟩
  | some x =>
    ⟨(c.questionOf x).map Question.benchmarkId,
      (c.questionOf x).map fun q => q.position / progressBlockSize⟩

/-- `FROM run LEFT JOIN responses`: a Run without a Response is one row. -/
def runResponses (rs : List Response) : List (Option Response) :=
  if rs.isEmpty then [none] else rs.map some

/-- `ORDER BY` of a nullable column, nulls last. -/
def nullsLast : Option ℕ → Option ℕ → Bool
  | some a, some b => decide (a ≤ b)
  | _, none => true
  | none, some _ => false

/-- `ORDER BY benchmark_id, block_index`. -/
def keyBefore (a b : BlockKey) : Bool :=
  if a.benchmarkId = b.benchmarkId then nullsLast a.blockIndex b.blockIndex
  else nullsLast a.benchmarkId b.benchmarkId

/-- The row of a group. -/
def blockRow (rows : List (Option Response)) (k : BlockKey) : BlockRow :=
  let group := (rows.filter fun x => c.blockKey x = k).filterMap id
  let positions := (group.filterMap c.questionOf).map Question.position
  ⟨k, positions.min?, positions.max?, selectTotals group⟩

/-- The rows of the `SELECT` of `load_progress_index`. -/
def blockRows (rs : List Response) : List BlockRow :=
  (((runResponses rs).map c.blockKey).dedup.insertionSort fun a b => keyBefore a b).map
    (c.blockRow (runResponses rs))

end Catalog

/-- `block_counts` and the accumulators of `load_progress_index`. -/
structure IndexState where
  blockCounts : List ℕ
  totals : Totals

/-- The loop body of `load_progress_index`. -/
def indexRow (run : Run) (st : IndexState) (row : BlockRow) : Except ProgressError IndexState :=
  if row.totals.responseCount = 0 then .ok st
  else
    match row.key.benchmarkId, row.key.blockIndex, row.minimumPosition, row.maximumPosition with
    | some benchmarkId, some i, some lo, some hi =>
      if benchmarkId ≠ run.benchmarkId ∨ st.blockCounts.length ≤ i ∨ lo < blockStart i ∨
          blockEnd run.totalQuestions i ≤ hi then
        .error .responseOutsideFrozenPlan
      else
        let counts := st.blockCounts.modify i (· + row.totals.responseCount)
        if blockEnd run.totalQuestions i - blockStart i < counts.getD i 0 then
          .error .blockResponseCountInvalid
        else .ok ⟨counts, st.totals + row.totals⟩
    | _, _, _, _ => .error .responseMappingMissing

/-- `load_progress_index`, for a Run with the Responses `rs`. -/
def loadProgressIndex (c : Catalog) (run : Run) (rs : List Response) :
    Except ProgressError ProgressIndex := do
  let st ← (c.blockRows rs).foldlM (indexRow run)
    ⟨List.replicate (progressBlockCount run.totalQuestions) 0, 0⟩
  if run.totalQuestions < st.totals.responseCount then
    .error .responseCountInvalid
  .ok ⟨canonicalRunEvidence run.totalQuestions st.totals.aggregate, st.totals, st.blockCounts⟩

/-- `EvaluationProgressOutcome`. -/
inductive ProgressOutcome : Type where
  | error | passed | wrong
  deriving DecidableEq, Repr

/-- An item of a progress block. -/
structure ProgressItem where
  position : ℕ
  outcome : ProgressOutcome
  score : ℚ
  latencyMs : Option ℚ
  inputTokens : Option ℕ
  outputTokens : Option ℕ
  estimatedCost : Option ℚ
  errorType : Option String

/-- The rows of the `SELECT` of `load_progress_block`. -/
def progressBlockRows (c : Catalog) (run : Run) (rs : List Response) (i : ℕ) :
    List (Response × Question) :=
  ((rs.filterMap fun x => (c.questionOf x).map fun q => (x, q)).filter fun p =>
      decide (p.2.benchmarkId = run.benchmarkId) && decide (blockStart i ≤ p.2.position) &&
        decide (p.2.position < blockEnd run.totalQuestions i)).insertionSort
    fun a b => a.2.position ≤ b.2.position

/-- `load_progress_block`. -/
def loadProgressBlock (c : Catalog) (run : Run) (rs : List Response) (i : ℕ) : List ProgressItem :=
  (progressBlockRows c run rs i).map fun (x, q) =>
    { position := q.position
      outcome :=
        if x.errorType.isSome then .error else if x.score = 1 then .passed else .wrong
      score := x.score
      latencyMs := x.latencyMs
      inputTokens := x.inputTokens
      outputTokens := x.outputTokens
      estimatedCost := x.estimatedCost
      errorType := x.errorType }

/-! ## Reports -/

/-- `_GroupAggregate`. -/
@[ext] structure GroupAggregate where
  plannedQuestions : ℕ
  totals : Totals

namespace GroupAggregate

instance : Zero GroupAggregate := ⟨⟨0, 0⟩⟩

/-- `merge`. -/
instance : Add GroupAggregate where
  add a b := ⟨a.plannedQuestions + b.plannedQuestions, a.totals + b.totals⟩

theorem add_def (a b : GroupAggregate) :
    a + b = ⟨a.plannedQuestions + b.plannedQuestions, a.totals + b.totals⟩ := rfl

theorem zero_def : (0 : GroupAggregate) = ⟨0, 0⟩ := rfl

instance : AddCommMonoid GroupAggregate where
  add_assoc a b c := by simp only [add_def, add_assoc]
  zero_add a := by simp only [add_def, zero_def, zero_add]
  add_zero a := by simp only [add_def, zero_def, add_zero]
  add_comm a b := by simp only [add_def, add_comm]
  nsmul := nsmulRec

end GroupAggregate

/-- `_accumulate_response`. -/
def accumulateResponse (g : GroupAggregate) (x : Response) : GroupAggregate :=
  let t := g.totals
  { g with
    totals :=
      { responseCount := t.responseCount + 1
        scoreSum := t.scoreSum + x.score
        completedOutputs := if x.hasOutput then t.completedOutputs + 1 else t.completedOutputs
        evaluableResponses :=
          if x.errorType.isNone && x.hasOutput then t.evaluableResponses + 1
          else t.evaluableResponses
        errorResponses := if x.errorType.isSome then t.errorResponses + 1 else t.errorResponses
        latencySum := x.latencyMs.elim t.latencySum (t.latencySum + ·)
        latencyReports := if x.latencyMs.isSome then t.latencyReports + 1 else t.latencyReports
        knownInputTokens := x.inputTokens.elim t.knownInputTokens (t.knownInputTokens + ·)
        inputTokenReports :=
          if x.inputTokens.isSome then t.inputTokenReports + 1 else t.inputTokenReports
        knownOutputTokens := x.outputTokens.elim t.knownOutputTokens (t.knownOutputTokens + ·)
        outputTokenReports :=
          if x.outputTokens.isSome then t.outputTokenReports + 1 else t.outputTokenReports
        knownEstimatedCost :=
          x.estimatedCost.elim t.knownEstimatedCost (t.knownEstimatedCost + ·)
        estimatedCostReports :=
          if x.estimatedCost.isSome then t.estimatedCostReports + 1 else t.estimatedCostReports } }

/-- What `as_metrics` returns. -/
structure ReportMetrics where
  totalQuestions : ℕ
  evidence : CanonicalRunEvidence

/-- `as_metrics`. -/
def GroupAggregate.asMetrics (g : GroupAggregate) : ReportMetrics where
  totalQuestions := g.plannedQuestions
  evidence :=
    { completedQuestions := g.totals.responseCount
      correctQuestions := pyRound g.totals.scoreSum
      errorQuestions := g.totals.errorResponses
      score :=
        if g.plannedQuestions = 0 then 0 else g.totals.scoreSum / g.plannedQuestions * 100
      completionRate :=
        if g.plannedQuestions = 0 then 0
        else (g.totals.completedOutputs : ℚ) / g.plannedQuestions * 100
      answeredAccuracy :=
        if g.totals.evaluableResponses = 0 then none
        else some ((pyRound g.totals.scoreSum : ℚ) / g.totals.evaluableResponses * 100)
      averageLatencyMs :=
        if g.totals.latencyReports = 0 then none
        else some (g.totals.latencySum / g.totals.latencyReports)
      inputTokens :=
        exactUsage g.totals.responseCount g.totals.inputTokenReports g.totals.knownInputTokens
      outputTokens :=
        exactUsage g.totals.responseCount g.totals.outputTokenReports g.totals.knownOutputTokens
      estimatedCost :=
        exactUsage g.totals.responseCount g.totals.estimatedCostReports
          g.totals.knownEstimatedCost }

/-- Codes of `ReportIntegrityError`. -/
inductive ReportError : Type where
  | questionCountMismatch | questionOutsideBenchmark | groupAbsent | responseCountMismatch
  | responseCountExceedsPlan
  deriving DecidableEq, Repr

/-- The groups in the order of their first question. -/
abbrev Groups : Type := List (String × GroupAggregate)

/-- The questions of a benchmark, by position. -/
def Catalog.plan (c : Catalog) (benchmarkId : BenchmarkId) : List Question :=
  (c.questions.rows.filter fun q => q.benchmarkId == benchmarkId).insertionSort fun a b =>
    a.position < b.position ∨ (a.position = b.position ∧ a.id ≤ b.id)

/-- `_load_planned_groups`; `group` is `_question_group_value`. -/
def loadPlannedGroups (c : Catalog) (benchmarkId : BenchmarkId) (pageSize : ℕ)
    (group : Question → String) : Groups :=
  let groups := (pages pageSize (c.plan benchmarkId) 0).foldl (fun groups page =>
    page.foldl (fun groups q => upsert (group q) 0 (fun g =>
      { g with plannedQuestions := g.plannedQuestions + 1 }) groups) groups) []
  if groups.isEmpty then [("all", 0)] else groups

/-- The rows of the `SELECT` of `_write_responses_jsonl`. -/
def reportRows (c : Catalog) (rs : List Response) : List (Response × Question) :=
  (rs.filterMap fun x => (c.questionOf x).map fun q => (x, q)).insertionSort fun a b =>
    a.2.position < b.2.position ∨ (a.2.position = b.2.position ∧ a.1.id ≤ b.1.id)

/-- The loop body of `_write_responses_jsonl`: the groups and the number of
exported Responses. -/
def writeResponse (run : Run) (group : Question → String) (st : Groups × ℕ)
    (row : Response × Question) : Except ReportError (Groups × ℕ) :=
  if row.2.benchmarkId ≠ run.benchmarkId then .error .questionOutsideBenchmark
  else
    match update? (group row.2) (fun g => accumulateResponse g row.1) st.1 with
    | none => .error .groupAbsent
    | some groups => .ok (groups, st.2 + 1)

/-- `_write_responses_jsonl`. -/
def writeResponses (c : Catalog) (run : Run) (rs : List Response) (pageSize : ℕ)
    (group : Question → String) (groups : Groups) : Except ReportError (Groups × ℕ) :=
  (pages pageSize (reportRows c rs) 0).foldlM
    (fun st page => page.foldlM (writeResponse run group) st) (groups, 0)

/-- `_evidence_metrics`. -/
def evidenceMetrics (groups : Groups) : ReportMetrics :=
  ((groups.map Prod.snd).foldl (· + ·) 0).asMetrics

/-- The metrics of `export_run_report`, for a Run with the Responses `rs`. -/
def reportMetrics (c : Catalog) (run : Run) (rs : List Response) (pageSize : ℕ)
    (group : Question → String) : Except ReportError ReportMetrics := do
  let groups := loadPlannedGroups c run.benchmarkId pageSize group
  if (groups.map fun g => g.2.plannedQuestions).sum ≠ run.totalQuestions then
    .error .questionCountMismatch
  let (groups, responseCount) ← writeResponses c run rs pageSize group groups
  let metrics := evidenceMetrics groups
  if metrics.evidence.completedQuestions ≠ responseCount then
    .error .responseCountMismatch
  if run.totalQuestions < responseCount then
    .error .responseCountExceedsPlan
  .ok metrics

end LLMBenchLab
