import LLMBenchLab.Json
import LLMBenchLab.ModelRegistry
import LLMBenchLab.Numerals
import LLMBenchLab.Redaction

/-!
# Results of a provider, without the key

`sanitize_error_message`, `_redact_json_secret` and the two builders of a
`ModelGenerationResult` (`adapters/openai_compatible.py`,
`adapters/provider_protocols.py`): whatever a provider sends back, each occurrence of
the API key is replaced by `[REDACTED]`. The key stays out of the result as long as it
cannot join with that placeholder and is in none of the texts of the adapter's own
(`Safe`).
-/

namespace LLMBenchLab

namespace ProviderResults

open Python Python.Regex
open Text (Str CodePoint ofString replace Separate Ahead Behind FirstAfter Patched)

/-- How the interpreter writes values. -/
structure Host where
  unicode : Unicode
  /-- `float.__repr__` of a finite float -/
  floatText : Double → Str
  /-- `str(value)` of a value that is no text -/
  str : Json → Str
  floatText_zero : floatText Double.zero = ofString "0.0"

def placeholder : Str := ofString "[REDACTED]"

def fallback : Str := ofString "Upstream request failed."

/-! ## Diagnostic texts -/

/-- `_AUTHORIZATION_RE` -/
def authorizationRe : Regex :=
  seq (group 1 (seqs [word "authorization", spaces, oneOf ":=", spaces]))
    (seqs [ahead false (word "[redacted]"), opt (seqs [word "bearer", atLeastOne isSpace]),
      atLeastOne fun c => !isSpace c && noneOf ",;]\x7d" c])

/-- `_BEARER_RE` -/
def bearerRe (u : Unicode) : Regex :=
  seqs [boundary u.isWord, word "bearer", atLeastOne isSpace,
    atLeastOne fun c => isLetter c || Decimal.isDigit c || isOneOf "._~+/=-" c]

/-- `_SECRET_FIELD_RE` -/
def secretFieldRe : Regex :=
  seq (group 1 (alts [seqs [word "api", opt (oneOf "_-"), word "key"],
      seqs [word "access", opt (oneOf "_-"), word "token"], word "secret"]))
    (seq (group 2 (seqs [spaces, oneOf ":=", spaces]))
      (seqs [opt (oneOf "'\""), atLeastOne fun c => !isSpace c && noneOf ",'\"\x7d]" c]))

/-- The secrets taken out one after the other. -/
def redactSecrets (secrets : List Str) (text : Str) : Str :=
  secrets.foldl (fun s secret => if secret = [] then s else replace secret placeholder s) text

/-- The fields that look like credentials. -/
def redactFields (u : Unicode) (text : Str) : Str :=
  let text := (bearerRe u).sub (fun _ => placeholder) text
  let text := authorizationRe.sub (fun m => (m.group 1).getD [] ++ placeholder) text
  secretFieldRe.sub (fun m => (m.group 1).getD [] ++ (m.group 2).getD [] ++ placeholder) text

/-- `sanitize_error_message(message, *secrets)`, for the text of the message. -/
def sanitizeErrorMessage (u : Unicode) (message : Str) (secrets : List Str) : Str :=
  let text := replace (ofString "\n") (ofString " ") (replace (ofString "\r") (ofString " ") message)
  let text := redactFields u (redactSecrets secrets text)
  let text := (List.intercalate (ofString " ") (words text)).take 500
  if text = [] then fallback else text

/-! ## JSON values -/

/-- `json.dumps` of a float. -/
def floatDump (h : Host) : Double → Str
  | .nan => ofString "NaN"
  | .infinite negative => ofString (if negative then "-Infinity" else "Infinity")
  | .finite negative exponent fraction => h.floatText (.finite negative exponent fraction)

/-- `json.dumps` of a scalar that is no text. -/
def scalarText (h : Host) : Json → Option Str
  | .null => some (ofString "null")
  | .bool b => some (ofString (if b then "true" else "false"))
  | .int n => some (intText n)
  | .float x => some (floatDump h x)
  | _ => none

/-- A dictionary from pairs in order; the last one of a key counts. -/
def dictOf (pairs : List (Str × Json)) : List (Str × Json) :=
  pairs.foldl (fun fields p => setField p.1 p.2 fields) []

/-- `_redact_json_secret` of a scalar that is no text. -/
def redactScalar (h : Host) (secret : Str) (value : Json) : Json :=
  if (scalarText h value).any fun t => secret <:+: t then .str placeholder else value

mutual

/-- `_redact_json_secret`, for a non-empty secret. -/
def redactJsonSecret (h : Host) (secret : Str) : Json → Json
  | .str s => .str (replace secret placeholder s)
  | .array items => .array (redactItems h secret items)
  | .object fields => .object (dictOf (redactPairs h secret fields))
  | value => redactScalar h secret value

def redactItems (h : Host) (secret : Str) : List Json → List Json
  | [] => []
  | item :: items => redactJsonSecret h secret item :: redactItems h secret items

def redactPairs (h : Host) (secret : Str) : List (Str × Json) → List (Str × Json)
  | [] => []
  | (key, item) :: fields =>
    (replace secret placeholder key, redactJsonSecret h secret item) :: redactPairs h secret fields

end

mutual

/-- The keys and leaves of a value, as they are written. -/
def texts (h : Host) : Json → List Str
  | .str s => [s]
  | .array items => itemTexts h items
  | .object fields => fieldTexts h fields
  | value => (scalarText h value).toList

def itemTexts (h : Host) : List Json → List Str
  | [] => []
  | item :: items => texts h item ++ itemTexts h items

def fieldTexts (h : Host) : List (Str × Json) → List Str
  | [] => []
  | (key, item) :: fields => key :: texts h item ++ fieldTexts h fields

end

/-! ## Results -/

/-- What the builders read of an HTTP response. -/
structure Response where
  statusCode : ℕ
  /-- `headers.get("x-request-id")` -/
  requestId : Option Str
  /-- `headers.get("request-id")` -/
  otherRequestId : Option Str

/-- What the builders are handed besides the response; `null` is `None`. -/
structure Upstream where
  content : Json
  finishReason : Json
  usage : Json
  providerRequestId : Json
  returnedModel : Json
  systemFingerprint : Json
  latencyMs : Double
  attempts : ℕ
  responseMode : Str

structure ModelGenerationResult where
  text : Str
  inputTokens : Option ℤ
  outputTokens : Option ℤ
  latencyMs : Double
  providerRequestId : Option Str
  rawUsage : Option Json
  metadata : List (Str × Json)

/-- The strings of a result and the keys and leaves of its values. -/
def ModelGenerationResult.texts (h : Host) (r : ModelGenerationResult) : List Str :=
  r.text :: (r.inputTokens.map intText).toList ++ (r.outputTokens.map intText).toList ++
    floatDump h r.latencyMs :: r.providerRequestId.toList ++
    r.rawUsage.elim [] (ProviderResults.texts h) ++ fieldTexts h r.metadata

inductive Failure where
  | adapterError (errorType message : String) (statusCode : Option ℕ) (attempts : ℕ)
  | typeError
  deriving DecidableEq

/-- `_safe_status_code` -/
def safeStatusCode (statusCode : ℕ) (secret : Str) : Option ℕ :=
  if secret <:+: natText statusCode then none else some statusCode

/-- `_usage_int` -/
def usageInt (usage : Option Json) (key : String) : Option ℤ :=
  match usage with
  | some (.object fields) =>
    match fields.lookup (ofString key) with
    | some (.int n) => if n < 0 then none else some n
    | _ => none
  | _ => none

/-- The usage of a result. -/
def rawUsage (h : Host) (key : Str) : Json → Option Json
  | .object fields => some (redactJsonSecret h key (.object fields))
  | _ => none

/-- `max(0.0, x)` -/
def maxZero (x : Double) : Double :=
  match x with
  | .nan => .zero
  | x => if x.isNegative || x.isZero then .zero else x

/-- The request id of a result. -/
def requestId (h : Host) (response : Response) (key : Str) (value : Json) : Option Str :=
  let text : Option Str :=
    match value with
    | .null => if response.requestId.getD [] = [] then response.otherRequestId else response.requestId
    | .str s => some s
    | value => some (h.str value)
  text.map fun message => sanitizeErrorMessage h.unicode message [key]

/-- A field of the metadata that the provider fills. -/
def sanitizedField (h : Host) (key : Str) : Json → Json
  | .str s => .str (sanitizeErrorMessage h.unicode s [key])
  | _ => .null

/-- The result of a call, from the content without the key. -/
def result (h : Host) (response : Response) (upstream : Upstream) (key content : Str)
    (input output : String) (metadata : List (Str × Json)) : ModelGenerationResult :=
  let rawUsage := rawUsage h key upstream.usage
  { text := content
    inputTokens := usageInt rawUsage input
    outputTokens := usageInt rawUsage output
    latencyMs := maxZero upstream.latencyMs
    providerRequestId := requestId h response key upstream.providerRequestId
    rawUsage
    metadata }

/-- The metadata that every builder writes. -/
def metadata (h : Host) (upstream : Upstream) (key adapterName : Str) : List (Str × Json) :=
  [(ofString "adapter", .str adapterName), (ofString "attempts", .int upstream.attempts),
    (ofString "response_mode", .str upstream.responseMode),
    (ofString "finish_reason", sanitizedField h key upstream.finishReason),
    (ofString "returned_model", sanitizedField h key upstream.returnedModel)]

/-- `_build_generation_result` -/
def buildGenerationResult (h : Host) (response : Response) (upstream : Upstream) (key : Str) :
    Except Failure ModelGenerationResult :=
  let status := safeStatusCode response.statusCode key
  let exhausted := upstream.finishReason = .str (ofString "length")
  let truncated := Failure.adapterError "output_truncated"
    "Upstream exhausted the output token budget before returning text. Increase max_tokens or let the Provider choose its default."
    status upstream.attempts
  match upstream.content with
  | .str content =>
    if strip content = [] then
      if exhausted then .error truncated
      else .error (.adapterError "empty_response" "Upstream returned an empty model response." status
        upstream.attempts)
    else
      .ok (result h response upstream key (replace key placeholder content) "prompt_tokens"
        "completion_tokens" (metadata h upstream key (ofString "openai_compatible") ++
          [(ofString "system_fingerprint", sanitizedField h key upstream.systemFingerprint)]))
  | _ =>
    if exhausted then .error truncated
    else .error (.adapterError "invalid_provider_response" "Upstream response content was not text."
      status upstream.attempts)

/-- `finish_reason in {...}`; a list or a dictionary has no hash. -/
def isTruncated : Json → Except Failure Bool
  | .str s => .ok (s ∈ [ofString "length", ofString "max_tokens", ofString "max_output_tokens"])
  | .array _ => .error .typeError
  | .object _ => .error .typeError
  | _ => .ok false

/-- `_build_result` -/
def buildResult (h : Host) (response : Response) (upstream : Upstream) (key adapterName : Str) :
    Except Failure ModelGenerationResult :=
  let status := safeStatusCode response.statusCode key
  match upstream.content with
  | .str content =>
    if strip content = [] then do
      if ← isTruncated upstream.finishReason then
        .error (.adapterError "output_truncated"
          "Upstream exhausted the output token budget before returning text. Increase max_tokens."
          status upstream.attempts)
      else
        .error (.adapterError "empty_response" "Upstream returned an empty model response." status
          upstream.attempts)
    else
      .ok (result h response upstream key (replace key placeholder content) "input_tokens"
        "output_tokens" (metadata h upstream key adapterName))
  | _ =>
    .error (.adapterError "invalid_provider_response" "Upstream response content was not text."
      status upstream.attempts)

/-! ## What must not come back -/

/-- Every key that a Model may have. -/
structure Admissible (key : Str) : Prop where
  long : 8 ≤ key.length
  visible : ∀ c ∈ key, 0x21 ≤ c.val ∧ c.val ≤ 0x7e

theorem require_eq_ok {c : Bool} {loc msg : String} {v : Unit} (h : ModelSchema.require c loc msg = .ok v) :
    c = true := by
  cases c with
  | false => cases h
  | true => rfl

theorem admissible_of_validate {raw : String} {value : Option String}
    (h : ModelSchema.validateApiKeyValue (some raw) = .ok value) : Admissible (ofString raw) := by
  obtain ⟨_, -, h⟩ := bind_eq_ok.mp h
  obtain ⟨_, -, h⟩ := bind_eq_ok.mp h
  obtain ⟨_, hvisible, h⟩ := bind_eq_ok.mp h
  obtain ⟨_, hlong, -⟩ := bind_eq_ok.mp h
  refine ⟨?_, ?_⟩
  · rw [ofString, List.length_map, String.length_toList]
    exact of_decide_eq_true (require_eq_ok hlong)
  · intro c hc
    obtain ⟨d, hd, rfl⟩ := List.mem_map.mp hc
    exact of_decide_eq_true (List.all_eq_true.mp (require_eq_ok hvisible) d hd)

/-- The texts of the adapters' own in every result or message. -/
def fixedTexts : List Str :=
  [fallback, ofString "openai_compatible", ofString "adapter", ofString "attempts",
    ofString "response_mode", ofString "finish_reason", ofString "returned_model",
    ofString "system_fingerprint"]

/-- A key that cannot join with the placeholder and is in no text of the adapters' own. -/
structure Safe (key : Str) : Prop where
  separate : Separate key placeholder
  fixed : ∀ t ∈ fixedTexts, ¬ key <:+: t

/-- What the adapter knows of a call by itself. -/
def labels (h : Host) (upstream : Upstream) : List Str :=
  [upstream.responseMode, intText upstream.attempts, floatDump h (maxZero upstream.latencyMs)]

/-- The key is in nothing that is returned. -/
structure Complete (h : Host) (key : Str) : Prop where
  message : ∀ message secrets, key ∈ secrets → ¬ key <:+: sanitizeErrorMessage h.unicode message secrets
  json : ∀ value, ∀ t ∈ texts h (redactJsonSecret h key value), ¬ key <:+: t
  generation : ∀ response upstream r, (∀ t ∈ labels h upstream, ¬ key <:+: t) →
    buildGenerationResult h response upstream key = .ok r → ∀ t ∈ r.texts h, ¬ key <:+: t
  result : ∀ response upstream adapterName r, (∀ t ∈ adapterName :: labels h upstream, ¬ key <:+: t) →
    buildResult h response upstream key adapterName = .ok r → ∀ t ∈ r.texts h, ¬ key <:+: t

section

variable {key : Str}

theorem Admissible.ne_nil (hk : Admissible key) : key ≠ [] := by
  have := hk.long
  rintro rfl
  exact absurd this (by decide)

theorem Admissible.not_infix_short (hk : Admissible key) {t : Str} (ht : t.length < 8) :
    ¬ key <:+: t :=
  fun h => absurd (h.length_le.trans_lt ht) (not_lt.mpr hk.long)

theorem Admissible.space (hk : Admissible key) : Fin.ofNat 0x110000 0x20 ∉ key :=
  fun h => absurd (hk.visible _ h).1 (by decide)

theorem placeholder_ne_nil : placeholder ≠ [] := by decide

/-! ### Messages -/

theorem redactSecrets_absent (hs : Separate key placeholder) {text : Str} (ht : ¬ key <:+: text)
    (secrets : List Str) : ¬ key <:+: redactSecrets secrets text := by
  induction secrets generalizing text with
  | nil => exact ht
  | cons secret secrets ih =>
    rw [redactSecrets, List.foldl_cons, ← redactSecrets]
    apply ih
    split_ifs with hsecret
    · exact ht
    · exact (Text.patched_replace hsecret text).absent hs placeholder_ne_nil ht

theorem redactSecrets_of_mem (hk : Admissible key) (hs : Separate key placeholder) {secrets : List Str}
    (hmem : key ∈ secrets) (text : Str) : ¬ key <:+: redactSecrets secrets text := by
  induction secrets generalizing text with
  | nil => cases hmem
  | cons secret secrets ih =>
    rw [redactSecrets, List.foldl_cons, ← redactSecrets]
    rcases List.mem_cons.mp hmem with rfl | hmem
    · rw [if_neg hk.ne_nil]
      exact redactSecrets_absent hs (hs.not_infix_replace hk.ne_nil placeholder_ne_nil text) secrets
    · exact ih hmem _

theorem redactFields_absent (hs : Separate key placeholder) (u : Unicode) {text : Str}
    (ht : ¬ key <:+: text) : ¬ key <:+: redactFields u text := by
  have hauthorization : Keeps placeholder authorizationRe fun m => (m.group 1).getD [] ++ placeholder :=
    keeps_group placeholder (by decide) (by decide)
  have hsecret : Keeps placeholder secretFieldRe fun m =>
      (m.group 1).getD [] ++ (m.group 2).getD [] ++ placeholder :=
    keeps_groups placeholder (by decide) (by decide) (by decide)
  rw [redactFields]
  apply (patched_sub hsecret _).absent hs placeholder_ne_nil
  apply (patched_sub hauthorization _).absent hs placeholder_ne_nil
  exact (patched_sub (keeps_nothing placeholder (bearerRe u)) text).absent hs placeholder_ne_nil ht

theorem sanitizeErrorMessage_absent (hk : Admissible key) (hsafe : Safe key) (u : Unicode)
    (message : Str) {secrets : List Str} (hmem : key ∈ secrets) :
    ¬ key <:+: sanitizeErrorMessage u message secrets := by
  rw [sanitizeErrorMessage]
  split_ifs
  · exact hsafe.fixed fallback List.mem_cons_self
  · intro h
    obtain ⟨w, hw, hin⟩ := infix_intercalate hk.ne_nil hk.space (h.trans (List.take_prefix _ _).isInfix)
    exact redactFields_absent hsafe.separate u (redactSecrets_of_mem hk hsafe.separate hmem _)
      (hin.trans (infix_of_mem_words hw))

/-! ### JSON values -/

theorem mem_fieldTexts {h : Host} {fields : List (Str × Json)} {t : Str} :
    t ∈ fieldTexts h fields ↔ ∃ p ∈ fields, t = p.1 ∨ t ∈ texts h p.2 := by
  induction fields with
  | nil => simp [fieldTexts]
  | cons p fields ih =>
    obtain ⟨k, v⟩ := p
    simp [fieldTexts, ih, or_assoc]

theorem mem_dictOf {pairs : List (Str × Json)} {p : Str × Json} (h : p ∈ dictOf pairs) : p ∈ pairs := by
  have hfold : ∀ (pairs fields : List (Str × Json)),
      p ∈ pairs.foldl (fun fields p => setField p.1 p.2 fields) fields → p ∈ fields ∨ p ∈ pairs := by
    intro pairs
    induction pairs with
    | nil => exact fun fields h => .inl h
    | cons q pairs ih =>
      intro fields h
      rcases ih _ h with hset | hpairs
      · rcases mem_setField hset with rfl | hfields
        · exact .inr List.mem_cons_self
        · exact .inl hfields
      · exact .inr (List.mem_cons_of_mem q hpairs)
  exact (hfold pairs [] h).resolve_left List.not_mem_nil

theorem redactScalar_absent {h : Host} (hs : Separate key placeholder) {value : Json}
    (htexts : texts h value = (scalarText h value).toList) :
    ∀ t ∈ texts h (redactScalar h key value), ¬ key <:+: t := by
  intro t ht
  rw [redactScalar] at ht
  split_ifs at ht with hin
  · obtain rfl := List.mem_singleton.mp ht
    exact fun h => hs.ahead (.inl h)
  · intro hkey
    rw [htexts, Option.mem_toList] at ht
    refine hin ?_
    rw [ht, Option.any_some]
    exact decide_eq_true hkey

mutual

theorem redactJsonSecret_absent (h : Host) (hk : Admissible key) (hs : Separate key placeholder) :
    ∀ value, ∀ t ∈ texts h (redactJsonSecret h key value), ¬ key <:+: t
  | .null => redactScalar_absent hs rfl
  | .bool _ => redactScalar_absent hs rfl
  | .int _ => redactScalar_absent hs rfl
  | .float _ => redactScalar_absent hs rfl
  | .str s => by
    intro t ht
    obtain rfl := List.mem_singleton.mp ht
    exact hs.not_infix_replace hk.ne_nil placeholder_ne_nil s
  | .array items => redactItems_absent h hk hs items
  | .object fields => by
    intro t ht
    obtain ⟨p, hp, ht⟩ := mem_fieldTexts.mp ht
    obtain ⟨hkey, htexts⟩ := redactPairs_absent h hk hs fields p (mem_dictOf hp)
    rcases ht with rfl | ht
    · exact hkey
    · exact htexts t ht

theorem redactItems_absent (h : Host) (hk : Admissible key) (hs : Separate key placeholder) :
    ∀ items, ∀ t ∈ itemTexts h (redactItems h key items), ¬ key <:+: t
  | [] => fun _ ht => nomatch ht
  | item :: items => by
    intro t ht
    rcases List.mem_append.mp ht with ht | ht
    · exact redactJsonSecret_absent h hk hs item t ht
    · exact redactItems_absent h hk hs items t ht

theorem redactPairs_absent (h : Host) (hk : Admissible key) (hs : Separate key placeholder) :
    ∀ fields, ∀ p ∈ redactPairs h key fields, ¬ key <:+: p.1 ∧ ∀ t ∈ texts h p.2, ¬ key <:+: t
  | [] => fun _ hp => nomatch hp
  | (k, item) :: fields => by
    intro p hp
    rcases List.mem_cons.mp hp with rfl | hp
    · exact ⟨hs.not_infix_replace hk.ne_nil placeholder_ne_nil k, redactJsonSecret_absent h hk hs item⟩
    · exact redactPairs_absent h hk hs fields p hp

end

/-! ### Results -/

theorem rawUsage_absent {h : Host} (hk : Admissible key) (hs : Separate key placeholder) {usage : Json} :
    ∀ t ∈ (rawUsage h key usage).elim [] (texts h), ¬ key <:+: t := by
  cases usage with
  | object fields => exact redactJsonSecret_absent h hk hs (.object fields)
  | _ => exact fun _ ht => nomatch ht

/-- A token count is one of the leaves of the usage. -/
theorem usageInt_mem {h : Host} {usage : Option Json} {field : String} {n : ℤ}
    (hn : usageInt usage field = some n) : intText n ∈ usage.elim [] (texts h) := by
  cases usage with
  | none => cases hn
  | some value =>
    cases value with
    | object fields =>
      simp only [usageInt] at hn
      split at hn
      · next m hlookup =>
        split_ifs at hn
        obtain rfl := Option.some.inj hn
        exact mem_fieldTexts.mpr ⟨_, mem_of_lookup hlookup, .inr List.mem_cons_self⟩
      · cases hn
    | _ => cases hn

theorem requestId_absent {h : Host} (hk : Admissible key) (hsafe : Safe key) {response : Response}
    {value : Json} : ∀ t ∈ (requestId h response key value).toList, ¬ key <:+: t := by
  intro t ht
  rw [Option.mem_toList] at ht
  obtain ⟨message, -, rfl⟩ := Option.map_eq_some_iff.mp ht
  exact sanitizeErrorMessage_absent hk hsafe h.unicode message List.mem_cons_self

theorem sanitizedField_absent {h : Host} (hk : Admissible key) (hsafe : Safe key) {value : Json} :
    ∀ t ∈ texts h (sanitizedField h key value), ¬ key <:+: t := by
  intro t ht
  have hnull : ∀ t ∈ texts h .null, ¬ key <:+: t := by
    intro t ht
    obtain rfl := List.mem_singleton.mp ht
    exact hk.not_infix_short (by decide)
  cases value with
  | str s =>
    obtain rfl := List.mem_singleton.mp ht
    exact sanitizeErrorMessage_absent hk hsafe h.unicode s List.mem_cons_self
  | _ => exact hnull t ht

/-- A result whose metadata does not have the key. -/
theorem result_absent {h : Host} (hk : Admissible key) (hsafe : Safe key) {response : Response}
    {upstream : Upstream} {content : Str} {input output : String} {metadata : List (Str × Json)}
    (hlabels : ∀ t ∈ labels h upstream, ¬ key <:+: t)
    (hmetadata : ∀ p ∈ metadata, ¬ key <:+: p.1 ∧ ∀ t ∈ texts h p.2, ¬ key <:+: t) :
    ∀ t ∈ (result h response upstream key (replace key placeholder content) input output metadata).texts h,
      ¬ key <:+: t := by
  have husage : ∀ t ∈ (rawUsage h key upstream.usage).elim [] (texts h), ¬ key <:+: t :=
    rawUsage_absent hk hsafe.separate
  have htokens : ∀ field, ∀ t ∈ ((usageInt (rawUsage h key upstream.usage) field).map intText).toList,
      ¬ key <:+: t := by
    intro field t ht
    rw [Option.mem_toList] at ht
    obtain ⟨n, hn, rfl⟩ := Option.map_eq_some_iff.mp ht
    exact husage _ (usageInt_mem hn)
  intro t ht
  simp only [ModelGenerationResult.texts, result, List.cons_append, List.append_assoc, List.mem_cons,
    List.mem_append] at ht
  rcases ht with rfl | ht | ht | rfl | ht | ht | ht
  · exact hsafe.separate.not_infix_replace hk.ne_nil placeholder_ne_nil content
  · exact htokens input t ht
  · exact htokens output t ht
  · exact hlabels _ (by simp [labels])
  · exact requestId_absent hk hsafe t ht
  · exact husage t ht
  · obtain ⟨p, hp, ht⟩ := mem_fieldTexts.mp ht
    rcases ht with rfl | ht
    · exact (hmetadata p hp).1
    · exact (hmetadata p hp).2 t ht

theorem metadata_absent {h : Host} (hk : Admissible key) (hsafe : Safe key) {upstream : Upstream}
    {adapterName : Str} (hadapter : ¬ key <:+: adapterName)
    (hlabels : ∀ t ∈ labels h upstream, ¬ key <:+: t) :
    ∀ p ∈ metadata h upstream key adapterName, ¬ key <:+: p.1 ∧ ∀ t ∈ texts h p.2, ¬ key <:+: t := by
  intro p hp
  simp only [metadata, List.mem_cons, List.not_mem_nil, or_false] at hp
  rcases hp with rfl | rfl | rfl | rfl | rfl
  · refine ⟨hsafe.fixed (ofString "adapter") (by decide), fun t ht => ?_⟩
    obtain rfl := List.mem_singleton.mp ht
    exact hadapter
  · refine ⟨hsafe.fixed (ofString "attempts") (by decide), fun t ht => ?_⟩
    obtain rfl := List.mem_singleton.mp ht
    exact hlabels _ (by simp [labels])
  · refine ⟨hsafe.fixed (ofString "response_mode") (by decide), fun t ht => ?_⟩
    obtain rfl := List.mem_singleton.mp ht
    exact hlabels _ (by simp [labels])
  · exact ⟨hsafe.fixed (ofString "finish_reason") (by decide), sanitizedField_absent hk hsafe⟩
  · exact ⟨hsafe.fixed (ofString "returned_model") (by decide), sanitizedField_absent hk hsafe⟩

end

end ProviderResults

end LLMBenchLab
