import LLMBenchLab.Regex
import LLMBenchLab.Replacing
import Mathlib.Data.Rat.Defs

/-!
# Evaluators: exact match and multiple choice

`evaluators/base.py`, `exact_match.py` and `multiple_choice.py`. An evaluator
parses a raw response and scores it; a response that it cannot parse has a parse
error and scores zero (`EvaluationResult.Sound`). The metadata of a result, which
nothing reads, is left out.
-/

namespace LLMBenchLab

namespace Evaluators

open Python
open Text (Str CodePoint ofString)

/-- A Python object as the evaluators look at it: its class as far as they ask for
it, and what `str` makes of it or of its items. -/
inductive Object : Type where
  | none
  | bool (b : Bool)
  | text (s : Str)
  | number (str : Str) (truth : Bool)
  | mapping (keys : List Str) (str : Str)
  | sequence (items : List Str) (str : Str)
  deriving DecidableEq

namespace Object

/-- `str(value)` -/
def str : Object → Str
  | none => ofString "None"
  | bool b => if b then ofString "True" else ofString "False"
  | text s => s
  | number str _ => str
  | mapping _ str => str
  | sequence _ str => str

/-- `bool(value)` -/
def truth : Object → Bool
  | none => false
  | bool b => b
  | text s => !s.isEmpty
  | number _ truth => truth
  | mapping keys _ => !keys.isEmpty
  | sequence items _ => !items.isEmpty

/-- `value is None or not str(value).strip()` -/
def blank (value : Object) : Bool := value = none || (strip value.str).isEmpty

end Object

/-- A dictionary with text keys; no configuration is an empty one. -/
abbrev EvaluatorConfig := List (Str × Object)

/-- `config.get(key)` -/
def EvaluatorConfig.get (config : EvaluatorConfig) (key : String) : Option Object :=
  config.lookup (ofString key)

structure EvaluationResult where
  parsedAnswer : Option Str
  score : ℚ
  correct : Bool
  evaluatorName : String
  parseError : Option String

/-- The score says whether the answer is correct, and an answer with a parse error
is not. -/
structure EvaluationResult.Sound (x : EvaluationResult) : Prop where
  score : x.score = if x.correct then 1 else 0
  parseError : x.parseError.isSome → x.correct = false

theorem EvaluationResult.Sound.score_eq_zero {x : EvaluationResult} (h : x.Sound)
    (he : x.parseError.isSome) : x.score = 0 := by
  rw [h.score, h.parseError he, if_neg Bool.false_ne_true]

/-- The `_error` of an evaluator. -/
def failure (evaluatorName parseError : String) (parsedAnswer : Option Str) : EvaluationResult :=
  ⟨parsedAnswer, 0, false, evaluatorName, some parseError⟩

/-- A parsed answer. -/
def scored (evaluatorName : String) (parsed : Str) (correct : Bool) : EvaluationResult :=
  ⟨some parsed, if correct then 1 else 0, correct, evaluatorName, none⟩

theorem failure_sound (evaluatorName parseError : String) (parsedAnswer : Option Str) :
    (failure evaluatorName parseError parsedAnswer).Sound :=
  ⟨rfl, fun _ => rfl⟩

theorem scored_sound (evaluatorName : String) (parsed : Str) (correct : Bool) :
    (scored evaluatorName parsed correct).Sound :=
  ⟨rfl, nofun⟩

/-- `text.replace("\r\n", "\n").replace("\r", "\n")` -/
def normalizeNewlines (text : Str) : Str :=
  Text.replace (ofString "\r") (ofString "\n") (Text.replace (ofString "\r\n") (ofString "\n") text)

variable (u : Unicode)

/-! ## Exact match -/

namespace ExactMatch

def evaluatorName : String := "exact_match_v1"

def whitespaceRe : Regex := .atLeastOne isSpace

/-- `_normalize_text` -/
def normalizeText (value : Object) (normalizeWhitespace caseSensitive : Bool) : Str :=
  let text := strip (normalizeNewlines value.str)
  let text := if normalizeWhitespace then whitespaceRe.sub (fun _ => ofString " ") text else text
  if caseSensitive then text else u.casefold text

def evaluate (rawResponse referenceAnswer : Object) (config : EvaluatorConfig) :
    EvaluationResult :=
  let caseSensitive := ((config.get "case_sensitive").getD (.bool false)).truth
  let normalizeWhitespace := ((config.get "normalize_whitespace").getD (.bool true)).truth
  if rawResponse.blank then failure evaluatorName "empty_response" none
  else if referenceAnswer = .none then failure evaluatorName "invalid_reference_answer" none
  else
    let parsed := normalizeText u rawResponse normalizeWhitespace caseSensitive
    let reference := normalizeText u referenceAnswer normalizeWhitespace caseSensitive
    scored evaluatorName parsed (parsed = reference)

theorem evaluate_sound (rawResponse referenceAnswer : Object) (config : EvaluatorConfig) :
    (evaluate u rawResponse referenceAnswer config).Sound := by
  simp only [evaluate]
  split
  · exact failure_sound ..
  split
  · exact failure_sound ..
  · exact scored_sound ..

end ExactMatch

/-! ## Answer markers -/

/-- `\s*[\(\uff08]?\s*` -/
def openParenthesis : Regex := .seqs [.spaces, .opt (.oneOf "(（"), .spaces]

/-- `(?:是|为|[:\uff1a])` -/
def chineseIs : Regex := .alts [.exact "是", .exact "为", .oneOf ":："]

/-- `\b(?:the\s+)?(?:final\s+)?answer\s*(?:is|:|\uff1a)`, ignoring case -/
def englishMarker : Regex :=
  .seqs [.boundary u.isWord, .opt (.seq (.word "the") (.atLeastOne isSpace)),
    .opt (.seq (.word "final") (.atLeastOne isSpace)), .word "answer", .spaces,
    .alts [.word "is", .exact ":", .exact "："]]

/-! ## Multiple choice -/

namespace MultipleChoice

def evaluatorName : String := "multiple_choice_v1"

/-- `([A-Z])(?![A-Z])`, ignoring case -/
def key : Regex := .seq (.group 1 (.char Regex.isLetter)) (.ahead false (.char Regex.isLetter))

/-- The key after a marker. -/
def keyAfter (marker : Regex) : Regex :=
  .seqs [marker, openParenthesis, key, .spaces, .opt (.oneOf ")）")]

/-- `_EXPLICIT_PATTERNS` -/
def explicitPatterns : List Regex :=
  [keyAfter (.seqs [.exact "最终", .spaces, .exact "答案", .spaces, chineseIs]),
    keyAfter (.seqs [.behind false [Regex.isOneOf "终", Regex.isOneOf "最"], .exact "答案",
      .spaces, chineseIs]),
    keyAfter (.seqs [.exact "选择", .spaces, .opt chineseIs]),
    keyAfter (englishMarker u)]

/-- `_BARE_ANSWER_RE` -/
def bareAnswerRe : Regex :=
  .seqs [.start, .spaces,
    .alts [.group 1 (.char Regex.isLetter),
      .seq (.group 2 (.char Regex.isLetter)) (.exact "."),
      .seqs [.exact "(", .group 3 (.char Regex.isLetter), .exact ")"],
      .seqs [.exact "（", .group 4 (.char Regex.isLetter), .exact "）"]],
    .spaces, .finish]

/-- `_EXPLICIT_ALTERNATIVE_RE` -/
def explicitAlternativeRe : Regex :=
  .seqs [.start, .spaces, .alts [.word "or", .exact "或", .exact "或者", .exact "/"],
    openParenthesis, key]

def isKey (s : Str) : Bool :=
  match s with
  | [c] => 0x41 ≤ c.val && c.val ≤ 0x5a
  | _ => false

/-- `_choice_keys`; the empty list where the source returns an empty set. -/
def choiceKeys (config : EvaluatorConfig) : List Str :=
  let valid (values : List Str) : List Str :=
    let keys := values.map fun value => u.upper (strip value)
    if keys.all isKey then keys else []
  match (config.get "choices").getD ((config.get "valid_choices").getD .none) with
  | .none => [ofString "A", ofString "B", ofString "C", ofString "D"]
  | .mapping keys _ => valid keys
  | .sequence items _ => valid items
  | .bool _ | .text _ | .number .. => []

/-- `_bare_candidate` -/
def bareCandidate (text : Str) : Option Str :=
  (bareAnswerRe.fullmatch text).bind fun m => ([1, 2, 3, 4].findSome? m.group).map u.upper

/-- The keys that the explicit patterns name, in the order of the source. -/
def explicitAnswers (text : Str) : List Str :=
  (explicitPatterns u).flatMap fun pattern =>
    (pattern.finditer text).flatMap fun m =>
      ((m.group 1).map u.upper).toList ++
        ((explicitAlternativeRe.matchStart m.rest).bind fun alternative =>
          (alternative.group 1).map u.upper).toList

/-- The label of a reference answer. -/
def referenceLabel (referenceAnswer : Object) : Str :=
  if referenceAnswer = .none then [] else u.upper (strip referenceAnswer.str)

/-- `_score_candidates` -/
def scoreCandidates (candidates : List Str) (reference : Str) (validChoices : List Str) :
    EvaluationResult :=
  match candidates.dedup with
  | [parsed] =>
    if parsed ∉ validChoices then failure evaluatorName "invalid_choice" (some parsed)
    else scored evaluatorName parsed (parsed = reference)
  | _ => failure evaluatorName "ambiguous_choice" none

def evaluate (rawResponse referenceAnswer : Object) (config : EvaluatorConfig) :
    EvaluationResult :=
  let validChoices := choiceKeys u config
  if validChoices.isEmpty then failure evaluatorName "invalid_choices_config" none
  else if rawResponse.blank then failure evaluatorName "empty_response" none
  else
    let reference := referenceLabel u referenceAnswer
    if reference ∉ validChoices then failure evaluatorName "invalid_reference_answer" none
    else
      let text := strip (normalizeNewlines rawResponse.str)
      let explicit := explicitAnswers u text
      if !explicit.isEmpty then scoreCandidates explicit reference validChoices
      else
        match bareCandidate u text with
        | some bare => scoreCandidates [bare] reference validChoices
        | none =>
          let answerLines :=
            (text.splitOn (Fin.ofNat _ 0xa)).filterMap fun line => bareCandidate u (strip line)
          if !answerLines.isEmpty then scoreCandidates answerLines reference validChoices
          else failure evaluatorName "choice_not_found" none

theorem scoreCandidates_sound (candidates : List Str) (reference : Str) (validChoices : List Str) :
    (scoreCandidates candidates reference validChoices).Sound := by
  rw [scoreCandidates]
  split
  · split
    · exact failure_sound ..
    · exact scored_sound ..
  · exact failure_sound ..

theorem evaluate_sound (rawResponse referenceAnswer : Object) (config : EvaluatorConfig) :
    (evaluate u rawResponse referenceAnswer config).Sound := by
  simp only [evaluate]
  split
  · exact failure_sound ..
  split
  · exact failure_sound ..
  split
  · exact failure_sound ..
  split
  · exact scoreCandidates_sound ..
  split
  · exact scoreCandidates_sound ..
  split
  · exact scoreCandidates_sound ..
  · exact failure_sound ..

/-- A sentence that names one choice twice, once as an alternative in full width. -/
example : explicitAnswers .ascii (ofString "The final answer is (b) or （B") =
    [ofString "B", ofString "B"] := by decide +kernel

end MultipleChoice

end Evaluators

end LLMBenchLab
