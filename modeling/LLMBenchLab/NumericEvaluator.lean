import LLMBenchLab.Evaluators
import LLMBenchLab.Json
import LLMBenchLab.Rounding

/-!
# The numeric evaluator

`evaluators/numeric.py`: one finite number is extracted from the response and
compared with the reference in a decimal context whose precision exceeds the
digits of every number in the comparison.

The precision knows nothing of exponents: numbers of very different size have a
difference with more digits than either. Rounding keeps the order of the difference
and the tolerance, so it can only make them equal (`Rounding.roundTo_le_roundTo_iff`).
-/

namespace LLMBenchLab

namespace Evaluators

namespace Numeric

open Python
open Text (Str CodePoint ofString)
open Rounding (Context roundTo)

variable (u : Unicode)

def evaluatorName : String := "numeric_v1"

def maxNumberLength : ℕ := 256

def maxAdjustedExponent : ℤ := 100000

/-! ## Patterns -/

/-- `[0-9]` -/
def digit : CodePoint → Bool := Decimal.isDigit

/-- `_NUMBER_CORE` -/
def numberCore : Regex :=
  .seqs [.opt (.oneOf "+-"),
    .alt (.seq (.atLeastOne digit) (.opt (.seq (.exact ".") (.many digit))))
      (.seq (.exact ".") (.atLeastOne digit)),
    .opt (.seqs [.oneOf "eE", .opt (.oneOf "+-"), .atLeastOne digit])]

/-- `[\w.]` -/
def wordOrPoint (c : CodePoint) : Bool := u.isWord c || c.val == 0x2e

/-- `({_NUMBER_CORE})(?![\w.])` -/
def numberHere : Regex := .seq (.group 1 numberCore) (.ahead false (.char (wordOrPoint u)))

/-- `_NUMBER_TOKEN_RE` -/
def numberTokenRe : Regex := .seq (.behind false [wordOrPoint u]) (numberHere u)

/-- `_NUMBER_FULL_RE` -/
def numberFullRe : Regex := .seqs [.start, .spaces, .group 1 numberCore, .spaces, .finish]

/-- `^\s*(?:\*\*)?\s*\$?\s*[\(\uff08]?\s*` -/
def leading : Regex :=
  .seqs [.start, .spaces, .opt (.exact "**"), .spaces, .opt (.exact "$"), openParenthesis]

/-- `_LEADING_NUMBER_RE` -/
def leadingNumberRe : Regex := .seq leading (numberHere u)

/-- `[+-]?(?:nan|inf(?:inity)?)(?!\w)`, ignoring case -/
def nonFiniteWord : Regex :=
  .seqs [.opt (.oneOf "+-"), .alt (.word "nan") (.seq (.word "inf") (.opt (.word "inity"))),
    .ahead false (.char u.isWord)]

/-- `_LEADING_NON_FINITE_RE` -/
def leadingNonFiniteRe : Regex := .seq leading (nonFiniteWord u)

/-- `_NON_FINITE_RE` -/
def nonFiniteRe : Regex := .seq (.behind false [u.isWord]) (nonFiniteWord u)

/-- `_BOXED_RE` -/
def boxedRe : Regex :=
  .seqs [.exact "\\boxed", .spaces, .exact "\x7b", .group 1 (.many (Regex.noneOf "\x7b\x7d")),
    .exact "\x7d"]

/-- `_LEADING_BOXED_RE` -/
def leadingBoxedRe : Regex := .seqs [.start, .spaces, boxedRe]

/-- `_FINAL_MARKER_RE` -/
def finalMarkerRe : Regex :=
  .alt
    (.seqs [.alt (.seqs [.exact "最终", .spaces, .exact "答案"]) (.exact "答案"), .spaces, chineseIs])
    (englishMarker u)

/-- `_ALTERNATIVE_AFTER_RE` -/
def alternativeAfterRe : Regex :=
  .seqs [.start, .spaces, .alts [.word "or", .exact "或", .exact "或者", .exact "/"],
    openParenthesis, numberHere u]

/-- `(?:[+*/^]|-(?=\s*[0-9]))` -/
def operator : Regex :=
  .alt (.oneOf "+*/^") (.seq (.exact "-") (.ahead true (.seq .spaces (.char digit))))

/-- `_EXPRESSION_RE` -/
def expressionRe : Regex := .seqs [numberCore, .spaces, operator, .spaces, numberCore]

/-- `^\s*(?:[+*/^]|-(?=\s*[0-9]))` -/
def operatorAfterRe : Regex := .seqs [.start, .spaces, operator]

/-! ## Parsing -/

/-- The number of a whole text. -/
def parseNumber (text : Str) : Except String Decimal :=
  match (numberFullRe.fullmatch (strip text)).bind (·.group 1) with
  | none => .error "invalid numeric syntax"
  | some token =>
    if maxNumberLength < token.length then .error "invalid numeric syntax"
    else
      match Decimal.ofText token with
      | none => .error "invalid numeric syntax"
      | some number =>
        if !number.isFinite then .error "non-finite numeric value"
        else if number.value ≠ 0 ∧ maxAdjustedExponent < |number.adjusted| then
          .error "numeric exponent outside supported range"
        else .ok number

/-- `_parse_decimal_token`; the error is the text of its `ValueError`. -/
def parseDecimalToken : Object → Except String Decimal
  | .none => .error "not a numeric scalar"
  | .bool _ => .error "not a numeric scalar"
  | .text s => parseNumber s
  | .number str _ => parseNumber str
  | .mapping _ str => parseNumber str
  | .sequence _ str => parseNumber str

/-- `_canonical_decimal` -/
def canonicalDecimal (value : Decimal) : Str :=
  if value.value = 0 then ofString "0" else Text.replace (ofString "e") (ofString "E") value.str

/-- `_unique_candidate`; of equal numbers a set keeps the first. -/
def uniqueCandidate (candidates : List Decimal) (parser : String) :
    Except String (Decimal × String) :=
  match candidates with
  | [] => .error "ambiguous_numeric"
  | first :: rest =>
    if rest.all fun d => d.value = first.value then .ok (first, parser)
    else .error "ambiguous_numeric"

/-- The candidates after one final-answer marker, the alternative first. -/
def markedCandidates (tail : Str) : Except String (List Decimal) :=
  if ((leadingNonFiniteRe u).matchStart tail).isSome then .error "non_finite_number"
  else
    match (leadingBoxedRe.matchStart tail).or ((leadingNumberRe u).matchStart tail) with
    | none => .error "invalid_numeric"
    | some m =>
      let token := (m.group 1).getD []
      match parseDecimalToken (.text token) with
      | .error _ =>
        if ((nonFiniteRe u).search token).isSome then .error "non_finite_number"
        else .error "invalid_numeric"
      | .ok value =>
        if (operatorAfterRe.matchStart m.rest).isSome then .error "invalid_numeric_expression"
        else
          match (alternativeAfterRe u).matchStart m.rest with
          | none => .ok [value]
          | some alternative =>
            match parseDecimalToken (.text ((alternative.group 1).getD [])) with
            | .error _ => .error "invalid_numeric"
            | .ok other => .ok [other, value]

/-- A number in a `\boxed`. -/
def boxedCandidate (content : Str) : Except String Decimal :=
  match parseDecimalToken (.text content) with
  | .ok value => .ok value
  | .error _ =>
    if ((nonFiniteRe u).search content).isSome then .error "non_finite_number"
    else .error "invalid_boxed_numeric"

/-- A number on its own. -/
def bareCandidate (token : Str) : Except String Decimal :=
  match parseDecimalToken (.text token) with
  | .ok value => .ok value
  | .error _ => .error "invalid_numeric"

/-- `_extract_number`: the number and the parser that found it, or the parse error. -/
def extractNumber (text : Str) : Except String (Decimal × String) :=
  let markers := (finalMarkerRe u).finditer text
  if !markers.isEmpty then do
    let candidates ← markers.mapM fun marker => markedCandidates u marker.rest
    uniqueCandidate candidates.flatten "final_answer"
  else if ofString "\\boxed" <:+: text then
    let contents := (boxedRe.finditer text).map fun (m : Regex.Match) => (m.group 1).getD []
    if contents.isEmpty then .error "invalid_boxed_numeric"
    else do
      let candidates ← contents.mapM (boxedCandidate u)
      uniqueCandidate candidates "boxed"
  else if ((nonFiniteRe u).search text).isSome then .error "non_finite_number"
  else if (expressionRe.search text).isSome then .error "invalid_numeric_expression"
  else
    match numberFullRe.fullmatch text with
    | some m => (bareCandidate ((m.group 1).getD [])).map (·, "bare_number")
    | none => do
      let candidates ← ((numberTokenRe u).finditer text).mapM fun (m : Regex.Match) =>
        bareCandidate ((m.group 1).getD [])
      if candidates.isEmpty then .error "numeric_not_found"
      else uniqueCandidate candidates "unique_number"

/-! ## Comparing -/

/-- `localcontext()` with the precision that `evaluate` sets. -/
def workingContext (numbers : List Decimal) : Context where
  prec := (numbers.map Decimal.digits).foldr max 50 + 10
  emin := -999999
  emax := 999999
  prec_pos := Nat.succ_pos _

/-- The comparison of `evaluate`; none where an operation raises. -/
def withinTolerance (parsed reference absoluteTolerance relativeTolerance : Decimal) :
    Option Bool := do
  let ctx := workingContext [parsed, reference, absoluteTolerance, relativeTolerance]
  let difference ← ctx.round |← ctx.round (parsed.value - reference.value)|
  let product ← ctx.round (relativeTolerance.value * (← ctx.round |reference.value|))
  return difference ≤ max absoluteTolerance.value product

/-- A tolerance of the configuration, under its own or its short name. -/
def tolerance (config : EvaluatorConfig) (name shortName : String) : Except String Decimal :=
  parseDecimalToken
    ((config.get name).getD ((config.get shortName).getD (.number (ofString "0") false)))

def absoluteTolerance (config : EvaluatorConfig) : Except String Decimal :=
  tolerance config "absolute_tolerance" "abs_tolerance"

def relativeTolerance (config : EvaluatorConfig) : Except String Decimal :=
  tolerance config "relative_tolerance" "rel_tolerance"

/-- The text that `_extract_number` gets. -/
def responseText (rawResponse : Object) : Str := strip (normalizeNewlines rawResponse.str)

def evaluate (rawResponse referenceAnswer : Object) (config : EvaluatorConfig) :
    EvaluationResult :=
  match absoluteTolerance config, relativeTolerance config with
  | .ok absolute, .ok relative =>
    if absolute.isNegative || relative.isNegative then
      failure evaluatorName "invalid_tolerance" none
    else
      match parseDecimalToken referenceAnswer with
      | .error _ => failure evaluatorName "invalid_reference_answer" none
      | .ok reference =>
        if rawResponse.blank then failure evaluatorName "empty_response" none
        else
          match extractNumber u (responseText rawResponse) with
          | .error parseError => failure evaluatorName parseError none
          | .ok (parsed, _) =>
            match withinTolerance parsed reference absolute relative with
            | none => failure evaluatorName "numeric_comparison_error" none
            | some correct => scored evaluatorName (canonicalDecimal parsed) correct
  | _, _ => failure evaluatorName "invalid_tolerance" none

theorem evaluate_sound (rawResponse referenceAnswer : Object) (config : EvaluatorConfig) :
    (evaluate u rawResponse referenceAnswer config).Sound := by
  rw [evaluate]
  split
  · split
    · exact failure_sound ..
    split
    · exact failure_sound ..
    split
    · exact failure_sound ..
    split
    · exact failure_sound ..
    split
    · exact failure_sound ..
    · exact scored_sound ..
  · exact failure_sound ..

/-! ## Accepted numbers -/

/-- What `_parse_decimal_token` lets through. -/
structure Accepted (d : Decimal) : Prop where
  digits : d.digits ≤ maxNumberLength
  exponent : d.value ≠ 0 → |d.adjusted| ≤ maxAdjustedExponent
  finite : ∃ negative coefficient exponent, d = .finite negative coefficient exponent

theorem length_digitsOf_le {c n : ℕ} (hn : 0 < n) (h : c < 10 ^ n) : (digitsOf c).length ≤ n := by
  rw [digitsOf]
  split
  · exact hn
  · rw [List.length_reverse]
    exact (Nat.digits_length_le_iff (by decide) c).mpr h

theorem lt_pow_length_digitsOf (c : ℕ) : c < 10 ^ (digitsOf c).length := by
  rw [digitsOf]
  split
  · next h => rw [h]; decide
  · rw [List.length_reverse]
    exact Nat.lt_base_pow_length_digits (by decide)

theorem parseNumber_accepted {text : Str} {d : Decimal} (h : parseNumber text = .ok d) :
    Accepted d := by
  rw [parseNumber] at h
  split at h
  · cases h
  next token _ =>
  split_ifs at h with hlen
  split at h
  · cases h
  next number hnumber =>
  split_ifs at h with hfinite hexponent
  cases h
  obtain ⟨negative, coefficient, exponent⟩ | _ | _ := d
  · have hlt : coefficient < 10 ^ maxNumberLength :=
      (Decimal.ofText_lt hnumber).trans_le (Nat.pow_le_pow_right (by decide) (not_lt.mp hlen))
    refine ⟨length_digitsOf_le (by decide) hlt, fun hne => ?_, _, _, _, rfl⟩
    exact not_lt.mp fun hlt => hexponent ⟨hne, hlt⟩
  · exact absurd rfl hfinite
  · exact absurd rfl hfinite

theorem parseDecimalToken_accepted {value : Object} {d : Decimal}
    (h : parseDecimalToken value = .ok d) : Accepted d := by
  cases value with
  | none => cases h
  | bool b => cases h
  | text s => exact parseNumber_accepted h
  | number str truth => exact parseNumber_accepted h
  | mapping keys str => exact parseNumber_accepted h
  | sequence items str => exact parseNumber_accepted h

/-! ## The comparison never raises -/

/-- Zero, or of a size between two powers of ten. -/
def Spans (k : ℤ) (x : ℚ) : Prop := x = 0 ∨ (10 : ℚ) ^ (-k) ≤ |x| ∧ |x| ≤ (10 : ℚ) ^ k

theorem Spans.abs {k : ℤ} {x : ℚ} (h : Spans k x) : Spans k |x| := by
  rcases h with rfl | h
  · exact .inl abs_zero
  · exact .inr (by rwa [abs_abs])

theorem Spans.mul {j k : ℤ} {x y : ℚ} (hx : Spans j x) (hy : Spans k y) : Spans (j + k) (x * y) := by
  rcases hx with rfl | hx
  · exact .inl (zero_mul y)
  rcases hy with rfl | hy
  · exact .inl (mul_zero x)
  refine .inr ⟨?_, ?_⟩
  · rw [neg_add, zpow_add₀ (by norm_num), abs_mul]
    exact mul_le_mul hx.1 hy.1 (by positivity) (abs_nonneg x)
  · rw [zpow_add₀ (by norm_num), abs_mul]
    exact mul_le_mul hx.2 hy.2 (abs_nonneg y) (by positivity)

theorem roundTo_zpow {prec : ℕ} (hprec : 0 < prec) (k : ℤ) :
    roundTo prec ((10 : ℚ) ^ k) = (10 : ℚ) ^ k := by
  refine Rounding.roundTo_eq_self (c := 1) (k := k) (by simp) ?_
  rw [abs_one]
  exact one_lt_pow₀ (by norm_num) hprec.ne'

theorem Spans.roundTo {prec : ℕ} {k : ℤ} {x : ℚ} (hprec : 0 < prec) (h : Spans k x) :
    Spans k (roundTo prec x) := by
  rcases h with rfl | ⟨hmin, hmax⟩
  · exact .inl Rounding.roundTo_zero
  · refine .inr ⟨?_, ?_⟩
    · rw [Rounding.abs_roundTo, ← roundTo_zpow hprec (-k)]
      exact Rounding.roundTo_mono hprec (by positivity) hmin
    · rw [Rounding.abs_roundTo, ← roundTo_zpow hprec k]
      exact Rounding.roundTo_mono hprec (abs_nonneg x) hmax

theorem Spans.round {numbers : List Decimal} {k : ℤ} {x : ℚ} (h : Spans k x) (hk : k < 999999) :
    (workingContext numbers).round x = some (Rounding.roundTo (workingContext numbers).prec x) := by
  apply Context.round_of_normal
  refine h.imp_right fun ⟨hmin, hmax⟩ => ⟨?_, ?_⟩
  · exact (zpow_le_zpow_right₀ (by norm_num) (by change -999999 ≤ -k; omega)).trans hmin
  · exact hmax.trans_lt (zpow_lt_zpow_right₀ (by norm_num) hk)

/-- The place of the last digit of any accepted number. -/
def lastPlace : ℤ := -100255

theorem Accepted.multiple {d : Decimal} (h : Accepted d) :
    ∃ m : ℤ, d.value = m * (10 : ℚ) ^ lastPlace := by
  obtain ⟨hdigits, hexponent, negative, c, e, rfl⟩ := h
  rcases eq_or_ne (Decimal.finite negative c e).value 0 with h0 | hne
  · exact ⟨0, by rw [h0, Int.cast_zero, zero_mul]⟩
  have hadjusted := abs_le.mp (hexponent hne)
  simp only [Decimal.adjusted, Decimal.digits, maxAdjustedExponent, maxNumberLength] at *
  obtain ⟨n, hn⟩ : ∃ n : ℕ, e - lastPlace = n := Int.eq_ofNat_of_zero_le (by rw [lastPlace]; omega)
  refine ⟨(if negative then -(c : ℤ) else c) * 10 ^ n, ?_⟩
  have he : (10 : ℚ) ^ e = 10 ^ n * (10 : ℚ) ^ lastPlace := by
    rw [← zpow_natCast, ← hn, ← zpow_add₀ (by norm_num), sub_add_cancel]
  rw [Decimal.value, he]
  push_cast
  ring

theorem abs_value (negative : Bool) (c : ℕ) (e : ℤ) :
    |(Decimal.finite negative c e).value| = c * (10 : ℚ) ^ e := by
  have hpow : (0 : ℚ) < (10 : ℚ) ^ e := by positivity
  rw [Decimal.value, abs_mul, abs_of_pos hpow]
  split
  · rw [abs_neg, Nat.abs_cast]
  · rw [Nat.abs_cast]

theorem Accepted.le {d : Decimal} (h : Accepted d) : |d.value| ≤ (10 : ℚ) ^ (100001 : ℤ) := by
  obtain ⟨hdigits, hexponent, negative, c, e, rfl⟩ := h
  rcases eq_or_ne (Decimal.finite negative c e).value 0 with h0 | hne
  · rw [h0, abs_zero]
    positivity
  have hadjusted := abs_le.mp (hexponent hne)
  have hc : (c : ℚ) ≤ (10 : ℚ) ^ ((digitsOf c).length : ℤ) := by
    rw [zpow_natCast]
    exact_mod_cast (lt_pow_length_digitsOf c).le
  rw [abs_value]
  calc c * (10 : ℚ) ^ e ≤ (10 : ℚ) ^ ((digitsOf c).length : ℤ) * (10 : ℚ) ^ e :=
        mul_le_mul_of_nonneg_right hc (by positivity)
    _ = (10 : ℚ) ^ ((digitsOf c).length + e) := (zpow_add₀ (by norm_num) _ _).symm
    _ ≤ (10 : ℚ) ^ (100001 : ℤ) := by
      refine zpow_le_zpow_right₀ (by norm_num) ?_
      simp only [Decimal.adjusted, maxAdjustedExponent] at hadjusted
      omega

/-- A sum of multiples of the last place that is not too large. -/
theorem spans_of_multiple {m : ℤ} {x : ℚ} (hx : x = m * (10 : ℚ) ^ lastPlace)
    (hle : |x| ≤ (10 : ℚ) ^ (100002 : ℤ)) : Spans 100255 x := by
  rcases eq_or_ne m 0 with rfl | hm
  · exact .inl (by rw [hx, Int.cast_zero, zero_mul])
  · refine .inr ⟨?_, hle.trans (zpow_le_zpow_right₀ (by norm_num) (by decide))⟩
    have hone : (1 : ℚ) ≤ |(m : ℚ)| := by exact_mod_cast Int.one_le_abs hm
    have hpow : (0 : ℚ) < (10 : ℚ) ^ lastPlace := by positivity
    rw [hx, abs_mul, abs_of_pos hpow]
    exact le_mul_of_one_le_left hpow.le hone

theorem Accepted.spans {d : Decimal} (h : Accepted d) : Spans 100255 d.value := by
  obtain ⟨m, hm⟩ := h.multiple
  exact spans_of_multiple hm (h.le.trans (zpow_le_zpow_right₀ (by norm_num) (by decide)))

theorem Accepted.sub {d e : Decimal} (hd : Accepted d) (he : Accepted e) :
    Spans 100255 (d.value - e.value) := by
  obtain ⟨m, hm⟩ := hd.multiple
  obtain ⟨n, hn⟩ := he.multiple
  refine spans_of_multiple (m := m - n) ?_ ?_
  · rw [hm, hn]
    push_cast
    ring
  · have hten : (10 : ℚ) ^ (100002 : ℤ) = 10 * (10 : ℚ) ^ (100001 : ℤ) := by
      rw [show (100002 : ℤ) = 1 + 100001 by norm_num, zpow_add₀ (by norm_num), zpow_one]
    have hpow : (0 : ℚ) < (10 : ℚ) ^ (100001 : ℤ) := by positivity
    calc |d.value - e.value| ≤ |d.value| + |e.value| := abs_sub _ _
      _ ≤ (10 : ℚ) ^ (100001 : ℤ) + (10 : ℚ) ^ (100001 : ℤ) := add_le_add hd.le he.le
      _ ≤ (10 : ℚ) ^ (100002 : ℤ) := by
        rw [hten]
        generalize (10 : ℚ) ^ (100001 : ℤ) = bound at hpow ⊢
        linarith

theorem le_foldr_max {a b : ℕ} {l : List ℕ} (h : a ∈ l) : a ≤ l.foldr max b := by
  induction l with
  | nil => cases h
  | cons x l ih =>
    rcases List.mem_cons.mp h with rfl | h
    · exact le_max_left ..
    · exact (ih h).trans (le_max_right ..)

/-- A number of the comparison keeps all its digits. -/
theorem Accepted.roundTo_abs {d : Decimal} {numbers : List Decimal} (h : Accepted d)
    (hd : d ∈ numbers) : roundTo (workingContext numbers).prec |d.value| = |d.value| := by
  obtain ⟨negative, c, e, rfl⟩ := h.finite
  refine Rounding.roundTo_eq_self (c := c) (abs_value negative c e) ?_
  rw [Nat.abs_cast]
  have hprec : (digitsOf c).length ≤ (workingContext numbers).prec := by
    have hle : (digitsOf c).length ≤ (numbers.map Decimal.digits).foldr max 50 :=
      le_foldr_max (List.mem_map_of_mem hd)
    exact hle.trans (Nat.le_add_right _ 10)
  exact_mod_cast (lt_pow_length_digitsOf c).trans_le (Nat.pow_le_pow_right (by decide) hprec)

theorem nonneg_of_not_isNegative {d : Decimal} (h : d.isNegative = false) : 0 ≤ d.value := by
  obtain ⟨negative, c, e⟩ | _ | _ := d
  · have hpow : (0 : ℚ) < (10 : ℚ) ^ e := by positivity
    rw [Decimal.isNegative, Bool.and_eq_false_iff] at h
    rw [Decimal.value]
    rcases h with rfl | h
    · rw [if_neg Bool.false_ne_true]
      positivity
    · obtain rfl : c = 0 := by simpa using h
      simp
  · exact le_rfl
  · exact le_rfl

theorem roundTo_max {prec : ℕ} {x y : ℚ} (hprec : 0 < prec) (hx : 0 ≤ x) (hy : 0 ≤ y) :
    roundTo prec (max x y) = max (roundTo prec x) (roundTo prec y) := by
  rcases le_total x y with h | h
  · rw [max_eq_right h, max_eq_right (Rounding.roundTo_mono hprec hx h)]
  · rw [max_eq_left h, max_eq_left (Rounding.roundTo_mono hprec hy h)]

/-- The difference of two numbers. -/
def distance (p r : Decimal) : ℚ := |p.value - r.value|

/-- The larger of the two tolerances. -/
def allowance (r absolute relative : Decimal) : ℚ := max absolute.value (relative.value * |r.value|)

theorem withinTolerance_eq {p r a b : Decimal} (hp : Accepted p) (hr : Accepted r)
    (ha : Accepted a) (hb : Accepted b) (ha0 : 0 ≤ a.value) (hb0 : 0 ≤ b.value) :
    withinTolerance p r a b =
      some (decide (roundTo (workingContext [p, r, a, b]).prec (distance p r) ≤
        roundTo (workingContext [p, r, a, b]).prec (allowance r a b))) := by
  set ctx := workingContext [p, r, a, b] with hctx
  have hdifference : Spans 100255 (p.value - r.value) := hp.sub hr
  have hrounded : Spans 100255 (roundTo ctx.prec (distance p r)) :=
    hdifference.abs.roundTo ctx.prec_pos
  have hproduct : Spans 200510 (b.value * |r.value|) := hb.spans.mul hr.spans.abs
  have hreference : roundTo ctx.prec |r.value| = |r.value| := hr.roundTo_abs (by simp)
  have habsolute : roundTo ctx.prec a.value = a.value := by
    have h : roundTo ctx.prec |a.value| = |a.value| := ha.roundTo_abs (by simp)
    rwa [abs_of_nonneg ha0] at h
  have hallowed : max a.value (roundTo ctx.prec (b.value * |r.value|)) =
      roundTo ctx.prec (allowance r a b) := by
    rw [allowance, roundTo_max ctx.prec_pos ha0 (mul_nonneg hb0 (abs_nonneg _)), habsolute]
  rw [withinTolerance, ← hctx]
  simp only [Option.bind_eq_bind]
  rw [hdifference.round (by decide), Option.bind_some, Rounding.abs_roundTo]
  rw [← distance, hrounded.round (by decide), Option.bind_some,
    Rounding.roundTo_roundTo ctx.prec_pos]
  rw [hr.spans.abs.round (by decide), Option.bind_some, hreference]
  rw [hproduct.round (by decide), Option.bind_some, ← hctx, hallowed]
  rfl

/-! ## What is extracted -/

theorem mem_of_mapM {α β : Type} {f : α → Except String β} {l : List α} {bs : List β}
    (h : l.mapM f = .ok bs) : ∀ b ∈ bs, ∃ a ∈ l, f a = .ok b := by
  induction l generalizing bs with
  | nil =>
    cases h
    nofun
  | cons a l ih =>
    rw [List.mapM_cons] at h
    cases ha : f a with
    | error e =>
      rw [ha] at h
      cases h
    | ok b =>
      cases hl : l.mapM f with
      | error e =>
        rw [ha, hl] at h
        cases h
      | ok cs =>
        rw [ha, hl] at h
        cases h
        intro x hx
        rcases List.mem_cons.mp hx with rfl | hx
        · exact ⟨a, List.mem_cons_self, ha⟩
        · obtain ⟨y, hy, hxy⟩ := ih hl x hx
          exact ⟨y, List.mem_cons_of_mem _ hy, hxy⟩

theorem uniqueCandidate_mem {candidates : List Decimal} {parser : String} {x : Decimal × String}
    (h : uniqueCandidate candidates parser = .ok x) : x.1 ∈ candidates := by
  cases candidates with
  | nil => cases h
  | cons first rest =>
    rw [uniqueCandidate] at h
    split at h
    · cases h
      exact List.mem_cons_self
    · cases h

theorem bareCandidate_accepted {token : Str} {d : Decimal} (h : bareCandidate token = .ok d) :
    Accepted d := by
  rw [bareCandidate] at h
  split at h
  · next hvalue =>
    cases h
    exact parseDecimalToken_accepted hvalue
  · cases h

theorem boxedCandidate_accepted {content : Str} {d : Decimal}
    (h : boxedCandidate u content = .ok d) : Accepted d := by
  rw [boxedCandidate] at h
  split at h
  · next hvalue =>
    cases h
    exact parseDecimalToken_accepted hvalue
  · split at h <;> cases h

theorem markedCandidates_accepted {tail : Str} {ds : List Decimal}
    (h : markedCandidates u tail = .ok ds) : ∀ d ∈ ds, Accepted d := by
  simp only [markedCandidates] at h
  split at h
  · cases h
  split at h
  · cases h
  split at h
  · split at h <;> cases h
  next value hvalue =>
  split at h
  · cases h
  split at h
  · cases h
    intro d hd
    rw [List.mem_singleton.mp hd]
    exact parseDecimalToken_accepted hvalue
  split at h
  · cases h
  next other hother =>
  cases h
  intro d hd
  rcases List.mem_pair.mp hd with rfl | rfl
  · exact parseDecimalToken_accepted hother
  · exact parseDecimalToken_accepted hvalue

theorem extractNumber_accepted {text : Str} {x : Decimal × String}
    (h : extractNumber u text = .ok x) : Accepted x.1 := by
  simp only [extractNumber] at h
  split at h
  · obtain ⟨candidates, hcandidates, h⟩ := bind_eq_ok.mp h
    obtain ⟨ds, hds, hx⟩ := List.mem_flatten.mp (uniqueCandidate_mem h)
    obtain ⟨marker, -, hmarker⟩ := mem_of_mapM hcandidates ds hds
    exact markedCandidates_accepted u hmarker _ hx
  split at h
  · split at h
    · cases h
    obtain ⟨candidates, hcandidates, h⟩ := bind_eq_ok.mp h
    obtain ⟨content, -, hcontent⟩ := mem_of_mapM hcandidates _ (uniqueCandidate_mem h)
    exact boxedCandidate_accepted u hcontent
  split at h
  · cases h
  split at h
  · cases h
  split at h
  · obtain ⟨d, hd, rfl⟩ := map_eq_ok.mp h
    exact bareCandidate_accepted hd
  · obtain ⟨candidates, hcandidates, h⟩ := bind_eq_ok.mp h
    split at h
    · cases h
    obtain ⟨m, -, hm⟩ := mem_of_mapM hcandidates _ (uniqueCandidate_mem h)
    exact bareCandidate_accepted hm

/-! ## When a score is exact -/

variable {u} {rawResponse referenceAnswer : Object} {config : EvaluatorConfig}
  {p r a b : Decimal} {parser : String}

/-- The score of a response with a number in it compares the rounded difference
with the rounded tolerance. -/
theorem evaluate_score (habsolute : absoluteTolerance config = .ok a)
    (hrelative : relativeTolerance config = .ok b) (ha : a.isNegative = false)
    (hb : b.isNegative = false) (hreference : parseDecimalToken referenceAnswer = .ok r)
    (hraw : rawResponse.blank = false)
    (hp : extractNumber u (responseText rawResponse) = .ok (p, parser)) :
    (evaluate u rawResponse referenceAnswer config).score = 1 ↔
      roundTo (workingContext [p, r, a, b]).prec (distance p r) ≤
        roundTo (workingContext [p, r, a, b]).prec (allowance r a b) := by
  have hcompare := withinTolerance_eq (extractNumber_accepted u hp)
    (parseDecimalToken_accepted hreference) (parseDecimalToken_accepted habsolute)
    (parseDecimalToken_accepted hrelative) (nonneg_of_not_isNegative ha)
    (nonneg_of_not_isNegative hb)
  rw [evaluate, habsolute, hrelative]
  simp only [ha, hb, hreference, hraw, hp, hcompare, Bool.or_false, Bool.false_eq_true, if_false]
  simp only [scored, decide_eq_true_eq]
  split
  · next h => exact iff_of_true rfl h
  · next h => exact iff_of_false zero_ne_one h

/-- **Exact scores.** A score says whether the number is within the tolerance,
unless it is outside by so little that difference and tolerance are one number in
the working precision. -/
theorem evaluate_exact_iff (habsolute : absoluteTolerance config = .ok a)
    (hrelative : relativeTolerance config = .ok b) (ha : a.isNegative = false)
    (hb : b.isNegative = false) (hreference : parseDecimalToken referenceAnswer = .ok r)
    (hraw : rawResponse.blank = false)
    (hp : extractNumber u (responseText rawResponse) = .ok (p, parser)) :
    ((evaluate u rawResponse referenceAnswer config).score = 1 ↔ distance p r ≤ allowance r a b) ↔
      distance p r ≤ allowance r a b ∨
        roundTo (workingContext [p, r, a, b]).prec (distance p r) ≠
          roundTo (workingContext [p, r, a, b]).prec (allowance r a b) := by
  have hallowance : 0 ≤ allowance r a b := le_max_of_le_left (nonneg_of_not_isNegative ha)
  rw [evaluate_score habsolute hrelative ha hb hreference hraw hp,
    Rounding.roundTo_le_roundTo_iff (workingContext [p, r, a, b]).prec_pos hallowance]
  tauto

/-- The tolerance 1e61. -/
def wideTolerance : EvaluatorConfig :=
  [(ofString "absolute_tolerance", .number (ofString "1e+61") true)]

/-- 1e61 is 1e61 and one away from -1. -/
theorem evaluate_wideTolerance :
    ∃ p r a b parser, absoluteTolerance wideTolerance = .ok a ∧
      relativeTolerance wideTolerance = .ok b ∧ a.isNegative = false ∧ b.isNegative = false ∧
      parseDecimalToken (.text (ofString "-1")) = .ok r ∧
      extractNumber .ascii (responseText (.text (ofString "1e61"))) = .ok (p, parser) ∧
      ¬ ((evaluate .ascii (.text (ofString "1e61")) (.text (ofString "-1")) wideTolerance).score = 1 ↔
        distance p r ≤ allowance r a b) := by
  refine ⟨.finite false 1 61, .finite true 1 0, .finite false 1 61, .finite false 0 0,
    "bare_number", ?_, ?_, rfl, rfl, ?_, ?_, ?_⟩
  all_goals decide +kernel

/-- A response within one percent of its reference. -/
theorem evaluate_exact_percent :
    (evaluate .ascii (.text (ofString "it is 99.5 apples")) (.number (ofString "100") true)
        [(ofString "rel_tolerance", .number (ofString "0.01") true)]).score = 1 ↔
      distance (.finite false 995 (-1)) (.finite false 100 0) ≤
        allowance (.finite false 100 0) (.finite false 0 0) (.finite false 1 (-2)) := by
  have hp : extractNumber .ascii (responseText (.text (ofString "it is 99.5 apples"))) =
      .ok (.finite false 995 (-1), "unique_number") := by decide +kernel
  refine (evaluate_exact_iff ?_ ?_ rfl rfl ?_ ?_ hp).mpr (.inl ?_)
  all_goals decide +kernel

end Numeric

end Evaluators

end LLMBenchLab
