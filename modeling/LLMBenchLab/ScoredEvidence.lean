import LLMBenchLab.AuditEvents
import LLMBenchLab.Costs
import LLMBenchLab.EvidenceIntegrity
import LLMBenchLab.NumericEvaluator

/-!
# Scored evidence

The registry of `evaluators/__init__.py` and `_evaluate_question`
(`runners/evaluation_runner.py`) from the outcome of the adapter to the Response
that is handed to `persist_response`. Only the branch of an evaluated answer can
score, and what it stores is a `QuestionOutcome`, so the invariants of all runs
hold for the Responses it builds.
-/

namespace LLMBenchLab

open Relational Python Evaluators
open Text (Str ofString)

/-! ## The registry -/

namespace Evaluators

inductive Evaluator : Type where
  | exactMatch | multipleChoice | numeric
  deriving DecidableEq, Repr

namespace Evaluator

def evaluatorName : Evaluator → String
  | exactMatch => ExactMatch.evaluatorName
  | multipleChoice => MultipleChoice.evaluatorName
  | numeric => Numeric.evaluatorName

def evaluate (u : Unicode) : Evaluator → Object → Object → EvaluatorConfig → EvaluationResult
  | exactMatch => ExactMatch.evaluate u
  | multipleChoice => MultipleChoice.evaluate u
  | numeric => Numeric.evaluate u

theorem evaluate_sound (u : Unicode) (evaluator : Evaluator) (rawResponse referenceAnswer : Object)
    (config : EvaluatorConfig) :
    (evaluator.evaluate u rawResponse referenceAnswer config).Sound := by
  cases evaluator with
  | exactMatch => exact ExactMatch.evaluate_sound u rawResponse referenceAnswer config
  | multipleChoice => exact MultipleChoice.evaluate_sound u rawResponse referenceAnswer config
  | numeric => exact Numeric.evaluate_sound u rawResponse referenceAnswer config

end Evaluator

/-- `evaluator_classes` -/
def evaluatorClasses : List (String × Evaluator) :=
  [("exact", .exactMatch), ("exact_match", .exactMatch), ("multiple_choice", .multipleChoice),
    ("multiplechoice", .multipleChoice), ("numeric", .numeric), ("number", .numeric)]

/-- `get_evaluator`; none where it raises. -/
def getEvaluator (u : Unicode) (evaluatorType : Str) : Option Evaluator :=
  let normalized := Text.replace (ofString "-") (ofString "_") (u.lower (strip evaluatorType))
  let normalized :=
    if ofString "_v1" <:+ normalized then normalized.take (normalized.length - 3) else normalized
  (evaluatorClasses.find? fun x => ofString x.1 = normalized).map Prod.snd

example : getEvaluator .ascii (ofString " Exact-Match_v1") = some .exactMatch := by decide +kernel

end Evaluators

namespace EvaluationRunner

/-! ## What an adapter returns -/

/-- A value of the generation metadata, as far as it is looked at. -/
inductive MetadataValue : Type where
  | text (s : Str)
  | int (n : ℤ)
  | other
  deriving DecidableEq

/-- `ModelGenerationResult`; no metadata where it is not a mapping. -/
structure Generated where
  text : Str
  latencyMs : ℚ
  inputTokens : Option ℕ
  outputTokens : Option ℕ
  providerRequestId : MetadataValue
  metadata : List (Str × MetadataValue)
  /-- a difference of two readings of a monotonic clock -/
  latency_nonneg : 0 ≤ latencyMs

/-- How the adapter call of a question ends. -/
inductive AdapterOutcome : Type where
  | generated (g : Generated)
  | adapterError (errorType errorMessage : String)
  /-- one of the five governance exceptions -/
  | governanceSignal
  | exception (typeName : String)

/-- What `_evaluate_question` lets through to its caller. -/
inductive Raised : Type where
  | unsupportedEvaluator
  | governanceSignal
  deriving DecidableEq, Repr

structure ProviderEvidence where
  providerRequestId : Option Str
  returnedModel : Option Str
  systemFingerprint : Option Str
  finishReason : Option Str
  httpAttemptCount : Option ℤ

/-- No evidence, as in a Response without a generation. -/
def ProviderEvidence.none : ProviderEvidence := ⟨.none, .none, .none, .none, .none⟩

/-- `normalize_http_attempt_count` -/
def normalizeHttpAttemptCount : MetadataValue → Option ℤ
  | .int n => if 1 ≤ n ∧ n ≤ 2147483647 then some n else none
  | .text _ | .other => none

/-- `normalize_provider_metadata` of any value. -/
def normalizeMetadata (maxLength : ℕ) : MetadataValue → Option Str
  | .text s => ProviderMetadata.normalizeProviderMetadata s maxLength
  | .int _ | .other => none

/-- `_provider_evidence` -/
def providerEvidence (g : Generated) (defaultAttempts : MetadataValue) : ProviderEvidence :=
  let get (key : String) : MetadataValue := (g.metadata.lookup (ofString key)).getD .other
  { providerRequestId := normalizeMetadata 256 g.providerRequestId
    returnedModel := normalizeMetadata 256 (get "returned_model")
    systemFingerprint := normalizeMetadata 256 (get "system_fingerprint")
    finishReason := normalizeMetadata 128 (get "finish_reason")
    httpAttemptCount := (normalizeHttpAttemptCount (get "attempts")).or
      (normalizeHttpAttemptCount defaultAttempts) }

/-- The provider stopped at the output limit. -/
def ProviderEvidence.truncated (e : ProviderEvidence) : Bool :=
  e.finishReason = some (ofString "length") || e.finishReason = some (ofString "max_tokens")

/-- `_parse_error_evidence` -/
def parseErrorEvidence (parseError : Option String) (evidence : ProviderEvidence) :
    Option String × Option String :=
  match parseError with
  | none => (none, none)
  | some e =>
    if evidence.truncated then
      (some "output_truncated", some ("Provider stopped at the output token limit before a valid " ++
        "final answer was parsed (" ++ e ++ ")."))
    else (some "parse_error", some e)

/-! ## A question -/

/-- The part of `_ModelSnapshot` that a Response depends on. -/
structure ModelSnapshot where
  mock : Bool
  prices : Prices

/-- The part of `_QuestionSnapshot` that its evaluation reads. -/
structure QuestionSnapshot where
  questionType : Str
  /-- the mapping of the choices, if there are any -/
  choices : Option Object
  referenceAnswer : Object
  evaluatorConfig : EvaluatorConfig

/-- `evaluator_config` with the choices of the question. -/
def QuestionSnapshot.config (q : QuestionSnapshot) : EvaluatorConfig :=
  match q.choices with
  | none => q.evaluatorConfig
  | some choices => (ofString "choices", choices) :: q.evaluatorConfig

/-- `EvaluationResponse` without its keys and its time. -/
structure EvaluationResponse where
  rawResponse : Option Str
  parsedAnswer : Option Str
  referenceAnswerSnapshot : Object
  score : ℚ
  evaluatorName : String
  latencyMs : Option ℚ
  inputTokens : Option ℕ
  outputTokens : Option ℕ
  estimatedCost : Option ℚ
  evidence : ProviderEvidence
  errorType : Option String
  errorMessage : Option String

/-- A Response for a question that has no generation. -/
def QuestionSnapshot.errorResponse (q : QuestionSnapshot) (evaluator : Evaluator)
    (errorType errorMessage : String) : EvaluationResponse :=
  ⟨none, none, q.referenceAnswer, 0, evaluator.evaluatorName, none, none, none, none, .none,
    some errorType, some errorMessage⟩

/-- A Response for a generation. -/
def QuestionSnapshot.generatedResponse (q : QuestionSnapshot) (m : ModelSnapshot) (g : Generated)
    (evidence : ProviderEvidence) (parsedAnswer : Option Str) (score : ℚ) (evaluatorName : String)
    (error : Option String × Option String) : EvaluationResponse :=
  ⟨some g.text, parsedAnswer, q.referenceAnswer, score, evaluatorName, some g.latencyMs,
    g.inputTokens, g.outputTokens,
    m.prices.cost (g.inputTokens.map Int.ofNat) (g.outputTokens.map Int.ofNat), evidence,
    error.1, error.2⟩

/-- `_evaluate_question` from the outcome of the adapter to the Response.
`evaluatorRaises` is the type of an exception of the evaluator. -/
def evaluateQuestion (u : Unicode) (m : ModelSnapshot) (q : QuestionSnapshot)
    (outcome : AdapterOutcome) (evaluatorRaises : Option String) :
    Except Raised EvaluationResponse :=
  match getEvaluator u q.questionType with
  | none => .error .unsupportedEvaluator
  | some evaluator =>
    match outcome with
    | .governanceSignal => .error .governanceSignal
    | .adapterError errorType errorMessage =>
      .ok (q.errorResponse evaluator errorType errorMessage)
    | .exception typeName =>
      .ok (q.errorResponse evaluator "question_internal_error"
        ("Question processing failed: " ++ typeName))
    | .generated g =>
      if (strip g.text).isEmpty then
        .ok (q.errorResponse evaluator "empty_response" "The model returned an empty response.")
      else
        let evidence := providerEvidence g (if m.mock then .int 1 else .other)
        match evaluatorRaises with
        | some typeName =>
          .ok (q.generatedResponse m g evidence none 0 evaluator.evaluatorName
            (some "evaluator_internal_error", some ("Evaluator failed: " ++ typeName)))
        | none =>
          let evaluated := evaluator.evaluate u (.text g.text) q.referenceAnswer q.config
          .ok (q.generatedResponse m g evidence evaluated.parsedAnswer evaluated.score
            evaluated.evaluatorName (parseErrorEvidence evaluated.parseError evidence))

/-! ## The stored Response -/

/-- A text as a column holds it; a lone surrogate, which no column holds, is a NUL. -/
def storedText (s : Str) : String := .ofList (s.map fun c => Char.ofNat c.val)

theorem storedText_ne_empty {s : Str} (h : (strip s).isEmpty = false) : storedText s ≠ "" := by
  rintro hs
  obtain rfl : s = [] := by simpa [storedText] using hs
  cases h

/-- The columns that the store keeps of a Response. -/
def EvaluationResponse.stored (x : EvaluationResponse) (id : ResponseId) (runId : RunId)
    (questionId : QuestionId) : Response :=
  ⟨id, runId, questionId, x.rawResponse.map storedText, x.score, x.latencyMs, x.inputTokens,
    x.outputTokens, x.estimatedCost, x.errorType⟩

/-- What the ledger and the metrics need to know of a generation. -/
def Generated.usage (g : Generated) (m : ModelSnapshot) : GenerationUsage where
  latencyMs := g.latencyMs
  inputTokens := g.inputTokens
  outputTokens := g.outputTokens
  estimatedCost := m.prices.cost (g.inputTokens.map Int.ofNat) (g.outputTokens.map Int.ofNat)
  latency_nonneg := g.latency_nonneg
  cost_nonneg := m.prices.cost_nonneg g.inputTokens g.outputTokens

variable {u : Unicode} {m : ModelSnapshot} {q : QuestionSnapshot} {outcome : AdapterOutcome}
  {evaluatorRaises : Option String} {x : EvaluationResponse}

theorem parseErrorEvidence_fst (result : LLMBenchLab.EvaluationResult) (evidence : ProviderEvidence) :
    (parseErrorEvidence result.parseError evidence).1 =
      parseErrorType result evidence.truncated := by
  rw [parseErrorType]
  cases result.parseError with
  | none => rfl
  | some e =>
    simp only [parseErrorEvidence, Option.map_some]
    split <;> rfl

/-- Every Response of `_evaluate_question` is one of the outcomes of a question. -/
theorem evaluateQuestion_outcome (h : evaluateQuestion u m q outcome evaluatorRaises = .ok x) :
    ∃ o : QuestionOutcome, ∀ id runId questionId,
      x.stored id runId questionId = o.response id runId questionId := by
  rw [evaluateQuestion] at h
  split at h
  · cases h
  next evaluator _ =>
  split at h
  · cases h
  · cases h
    exact ⟨.adapterError _, fun _ _ _ => rfl⟩
  · cases h
    exact ⟨.internalError, fun _ _ _ => rfl⟩
  next g =>
  split at h
  · cases h
    exact ⟨.adapterError _, fun _ _ _ => rfl⟩
  next hblank =>
  have hne := storedText_ne_empty (Bool.eq_false_iff.mpr hblank)
  simp only at h
  split at h
  · cases h
    exact ⟨.evaluatorFailed _ hne (g.usage m), fun _ _ _ => rfl⟩
  · cases h
    have hsound := evaluator.evaluate_sound u (.text g.text) q.referenceAnswer q.config
    refine ⟨.evaluated _ hne (g.usage m) ⟨_, _, hsound.parseError⟩
      (providerEvidence g (if m.mock then .int 1 else .other)).truncated, fun _ _ _ => ?_⟩
    rw [QuestionOutcome.response, ← parseErrorEvidence_fst]
    simp only [EvaluationResponse.stored, QuestionSnapshot.generatedResponse, hsound.score,
      LLMBenchLab.EvaluationResult.score, Generated.usage, Option.map_some]

/-- A Response that scores has an answer and no error. -/
theorem evaluateQuestion_scores (h : evaluateQuestion u m q outcome evaluatorRaises = .ok x)
    (hs : x.score = 1) : x.errorType = none ∧ ∃ t ∈ x.rawResponse, t ≠ [] := by
  obtain ⟨o, ho⟩ := evaluateQuestion_outcome h
  have hsound := o.response_sound 0 0 0
  rw [← ho] at hsound
  obtain ⟨-, he⟩ := hsound.score.resolve_left fun h0 => zero_ne_one (h0.symm.trans hs)
  rw [Response.evaluable, Bool.and_eq_true] at he
  obtain ⟨herror, houtput⟩ := he
  refine ⟨Option.isNone_iff_eq_none.mp herror, ?_⟩
  rw [Response.hasOutput, Option.any_eq_true] at houtput
  obtain ⟨s, hs, hne⟩ := houtput
  obtain ⟨t, ht, rfl⟩ := Option.map_eq_some_iff.mp hs
  refine ⟨t, ht, ?_⟩
  rintro rfl
  simp [storedText] at hne

/-! ## The metrics of a Run -/

/-- Rounding of the results of float operations: it keeps the order, and these
numbers are floats. -/
structure FloatRounding where
  round : ℚ → ℚ
  mono : Monotone round
  zero : round 0 = 0
  one : round 1 = 1
  hundred : round 100 = 100

/-- `part / whole * 100` in floats. -/
def FloatRounding.percentage (f : FloatRounding) (part whole : ℚ) : ℚ :=
  f.round (f.round (part / whole) * 100)

theorem FloatRounding.percentage_range (f : FloatRounding) {part whole : ℚ} (h₀ : 0 ≤ part)
    (h₁ : part ≤ whole) : 0 ≤ f.percentage part whole ∧ f.percentage part whole ≤ 100 := by
  have hratio : part / whole ≤ 1 := div_le_one_of_le₀ h₁ (h₀.trans h₁)
  have hlow : 0 ≤ f.round (part / whole) := f.zero ▸ f.mono (div_nonneg h₀ (h₀.trans h₁))
  have hhigh : f.round (part / whole) ≤ 1 := f.one ▸ f.mono hratio
  constructor
  · calc 0 = f.round 0 := f.zero.symm
      _ ≤ f.percentage part whole := f.mono (mul_nonneg hlow (by norm_num))
  · calc f.percentage part whole ≤ f.round 100 := f.mono (by linarith)
      _ = 100 := f.hundred

/-- The counts of a Run are nested and its rates are percentages. -/
structure EvidenceOrdered (total : ℕ) (e : EvidenceAggregate) (x : CanonicalRunEvidence) :
    Prop where
  correct_nonneg : 0 ≤ x.correctQuestions
  correct : x.correctQuestions ≤ e.evaluableResponses
  evaluable : e.evaluableResponses ≤ e.completedOutputs
  output : e.completedOutputs ≤ x.completedQuestions
  completed : x.completedQuestions ≤ total
  score : 0 ≤ x.score ∧ x.score ≤ 100
  completionRate : 0 ≤ x.completionRate ∧ x.completionRate ≤ 100
  answeredAccuracy : ∀ a ∈ x.answeredAccuracy, 0 ≤ a ∧ a ≤ 100
  /-- the same in floats -/
  float : ∀ f : FloatRounding,
    (0 ≤ f.percentage e.scoreSum total ∧ f.percentage e.scoreSum total ≤ 100) ∧
    (0 ≤ f.percentage e.completedOutputs total ∧ f.percentage e.completedOutputs total ≤ 100) ∧
    0 ≤ f.percentage x.correctQuestions e.evaluableResponses ∧
      f.percentage x.correctQuestions e.evaluableResponses ≤ 100

theorem evidence_ordered {cfg : Config} {s : Store} (h : Reachable cfg s) {id : RunId} {r : Run}
    (hr : s.runs.get? id = some r) :
    EvidenceOrdered r.totalQuestions (selectEvidence (s.responsesOf id))
      (canonicalRunEvidence r.totalQuestions (selectEvidence (s.responsesOf id))) := by
  set rs := s.responsesOf id with hrs
  have hsound : ∀ x ∈ rs, x.Sound := fun x hx => h.runsInv.sound x (mem_responsesOf.mp hx).1
  have htotal : rs.length ≤ r.totalQuestions := h.runsInv.length_le hr
  have hchecks := aggregateRunEvidence_progress hsound htotal
  obtain ⟨h₀, h₁⟩ := scoreSum_bounds hsound
  have hevaluable : rs.countP Response.evaluable ≤ rs.countP Response.hasOutput := by
    refine List.countP_mono_left fun x _ hx => ?_
    rw [Response.evaluable, Bool.and_eq_true] at hx
    exact hx.2
  have houtput : rs.countP Response.hasOutput ≤ rs.length := List.countP_le_length
  have hcorrect : pyRound (rs.map Response.score).sum ≤ (rs.countP Response.evaluable : ℕ) :=
    pyRound_le (by exact_mod_cast h₁)
  have hcorrect₀ : 0 ≤ pyRound (rs.map Response.score).sum := pyRound_nonneg h₀
  have hplanned : ((rs.countP Response.hasOutput : ℕ) : ℚ) ≤ (r.totalQuestions : ℕ) := by
    exact_mod_cast houtput.trans htotal
  refine ⟨hcorrect₀, hcorrect, hevaluable, houtput, htotal, hchecks.scoreRange _ rfl,
    hchecks.completionRateRange _ rfl, fun a ha => hchecks.answeredAccuracyRange a ha,
    fun f => ⟨f.percentage_range h₀ ?_, f.percentage_range (Nat.cast_nonneg _) hplanned,
      f.percentage_range (by exact_mod_cast hcorrect₀) (by exact_mod_cast hcorrect)⟩⟩
  exact h₁.trans ((Nat.cast_le.mpr hevaluable).trans hplanned)

/-- **Scored evidence is evaluable.** A parse error scores zero with each
evaluator; a Response of `_evaluate_question` that scores has an answer and no
error; all its Responses are outcomes that the operations of the system persist;
and in every reachable store the counts of a Run are nested, its rates, derived
anew or stored, are percentages. -/
theorem scored_evidence_evaluable (u : Unicode) :
    (∀ (evaluator : Evaluator) rawResponse referenceAnswer config,
      (evaluator.evaluate u rawResponse referenceAnswer config).parseError.isSome →
        (evaluator.evaluate u rawResponse referenceAnswer config).score = 0) ∧
    (∀ m q outcome evaluatorRaises x, evaluateQuestion u m q outcome evaluatorRaises = .ok x →
      (x.score = 1 → x.errorType = none ∧ ∃ t ∈ x.rawResponse, t ≠ []) ∧
      ∃ o : QuestionOutcome, ∀ id runId questionId,
        x.stored id runId questionId = o.response id runId questionId) ∧
    ∀ cfg s, Reachable cfg s → ∀ id r, s.runs.get? id = some r →
      EvidenceOrdered r.totalQuestions (selectEvidence (s.responsesOf id))
          (canonicalRunEvidence r.totalQuestions (selectEvidence (s.responsesOf id))) ∧
        (∀ a ∈ r.score, 0 ≤ a ∧ a ≤ 100) ∧ (∀ a ∈ r.completionRate, 0 ≤ a ∧ a ≤ 100) ∧
        ∀ a ∈ r.answeredAccuracy, 0 ≤ a ∧ a ≤ 100 := by
  refine ⟨fun evaluator rawResponse referenceAnswer config he => ?_,
    fun m q outcome evaluatorRaises x hx =>
      ⟨evaluateQuestion_scores hx, evaluateQuestion_outcome hx⟩,
    fun cfg s h id r hr => ?_⟩
  · exact (evaluator.evaluate_sound u rawResponse referenceAnswer config).score_eq_zero he
  · have hchecks := Store.ok_runs h.ok (Table.mem_of_get? hr)
    exact ⟨evidence_ordered h hr, hchecks.scoreRange, hchecks.completionRateRange,
      hchecks.answeredAccuracyRange⟩

/-- A numeric question. -/
def sampleQuestion : QuestionSnapshot where
  questionType := ofString "numeric"
  choices := none
  referenceAnswer := .text (ofString "42")
  evaluatorConfig := []

/-- Its answer. -/
def sampleAnswer : Generated where
  text := ofString "The answer is 42.\n"
  latencyMs := 4
  inputTokens := some 3
  outputTokens := some 5
  providerRequestId := .other
  metadata := [(ofString "finish_reason", .text (ofString "stop"))]
  latency_nonneg := by norm_num

theorem Sample.reachable_cancelledRun :
    Reachable Sample.config (Sample.after Sample.cancelledRun) := by
  refine Reaches.start.foldl fun s o ho => ?_
  simp only [Sample.cancelledRun, List.mem_cons, List.not_mem_nil, or_false] at ho
  rcases ho with rfl | rfl | rfl | rfl | rfl | rfl
  · trivial
  · trivial
  · exact fun _ _ => by simp [Sample.config]
  · exact fun _ _ => by simp [Sample.config]
  · trivial
  · trivial

theorem scored_evidence_evaluable_sample :
    ((Evaluator.numeric.evaluate .ascii (.text (ofString "no number")) (.text (ofString "42"))
        []).score = 0) ∧
      (∃ x, evaluateQuestion .ascii ⟨true, Governance.samplePrices⟩ sampleQuestion
            (.generated sampleAnswer) none = .ok x ∧ x.score = 1 ∧ x.errorType = none) ∧
      ∃ r, (Sample.after Sample.cancelledRun).runs.get? 1 = some r ∧ r.completedQuestions = 2 ∧
        ∀ a ∈ r.score, 0 ≤ a ∧ a ≤ 100 := by
  obtain ⟨hparse, hquestion, hruns⟩ := scored_evidence_evaluable .ascii
  refine ⟨hparse .numeric _ _ _ (by decide +kernel), ?_, ?_⟩
  · have hscore : (evaluateQuestion .ascii ⟨true, Governance.samplePrices⟩ sampleQuestion
        (.generated sampleAnswer) none).toOption.map EvaluationResponse.score = some 1 := by
      decide +kernel
    cases hx : evaluateQuestion .ascii ⟨true, Governance.samplePrices⟩ sampleQuestion
        (.generated sampleAnswer) none with
    | error e =>
      rw [hx] at hscore
      cases hscore
    | ok x =>
      rw [hx] at hscore
      have hs : x.score = 1 := Option.some.inj hscore
      exact ⟨x, rfl, hs, ((hquestion _ _ _ _ x hx).1 hs).1⟩
  · have hrun : ((Sample.after Sample.cancelledRun).runs.get? 1).map Run.completedQuestions =
        some 2 := by decide +kernel
    obtain ⟨r, hr, he⟩ := Option.map_eq_some_iff.mp hrun
    exact ⟨r, hr, he, (hruns _ _ Sample.reachable_cancelledRun 1 r hr).2.1⟩

end EvaluationRunner

end LLMBenchLab
