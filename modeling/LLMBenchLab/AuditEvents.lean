import LLMBenchLab.Credentials
import LLMBenchLab.Patterns
import LLMBenchLab.Stdlib

/-!
# Audit events

`backend/app/governance/audit.py`. `append_audit_event` writes one typed event,
`validate_audit_event_for_read` checks a stored row before it is listed, and the
archive checks it once more against a frozen copy of the same contract.

A payload is a JSON object with the fields its event type allows. Both sides
normalize it field by field; the reader also requires that this changes
nothing.
-/

namespace LLMBenchLab

open Python
open Text (Str CodePoint)

/-! ## Provider metadata -/

namespace ProviderMetadata

def isTokenChar (extra : List ℕ) (c : CodePoint) : Bool := Pattern.isAlnum c || extra.contains c.val

/-- A letter, a digit or one of `._:@+=-` and the slash. -/
def isMetadataChar : CodePoint → Bool := isTokenChar [0x2e, 0x5f, 0x3a, 0x2f, 0x40, 0x2b, 0x3d, 0x2d]

open Pattern in
/-- `_COMMON_SECRET_PATTERN` -/
def commonSecretPattern : Pattern :=
  let sep := oneOf fun c => c.val == 0x5f || c.val == 0x2d
  let sepOrSpace := oneOf fun c => c.val == 0x2d || c.val == 0x5f || c.val == 0x20
  let wordOrDash := fun c => isWord c || c.val == 0x2d
  let bounded := fun p => seq boundary (seq p boundary)
  alt
    [bounded (seq (opt (seq (lit "proxy") (opt sepOrSpace))) (lit "authorization")),
      bounded (lit "bearer"),
      bounded (alt
        [seq (lit "api") (seq (opt sep) (lit "key")),
          seq (lit "access") (seq (opt sep) (lit "token")),
          seq (lit "refresh") (seq (opt sep) (lit "token")),
          seq (lit "client") (seq (opt sep) (lit "secret")),
          lit "cookie"]),
      bounded (alt
        [seq (lit "sk-") (atLeast wordOrDash 8),
          seq (lit "gh") (seq (oneOf fun c => (Text.ofString "pousr").contains (Decimal.lower c))
            (seq (lit "_") (atLeast isAlnum 20))),
          seq (lit "aiza") (atLeast wordOrDash 20)])]

/-- `normalize_provider_metadata` -/
def normalizeProviderMetadata (value : Str) (maxLength : ℕ) : Option Str :=
  if ¬(1 ≤ value.length ∧ value.length ≤ maxLength) ∨ ¬value.all isMetadataChar ∨
      commonSecretPattern.search value then none
  else some value

end ProviderMetadata

namespace Audit

open ProviderMetadata

/-! ## Tokens -/

/-- A letter, a digit or one of `_.:@-` and the slash. -/
def isSafeChar : CodePoint → Bool := isTokenChar [0x5f, 0x2e, 0x3a, 0x40, 0x2f, 0x2d]

/-- `_SAFE_TOKEN`, `_SAFE_IDENTITY_TOKEN` -/
def safeToken (maximum : ℕ) (s : Str) : Bool :=
  1 ≤ s.length && s.length ≤ maximum && s.all isSafeChar

/-- `_SAFE_HASH` -/
def safeHash (s : Str) : Bool := s.length == 64 && s.all isLowerHex

/-- `\.[0-9]{1,8}` -/
def safeFraction : Str → Bool
  | c :: ds => c.val == 0x2e && 1 ≤ ds.length && ds.length ≤ 8 && ds.all Decimal.isDigit
  | [] => false

/-- `_SAFE_DECIMAL` -/
def safeDecimal (s : Str) : Bool :=
  let (whole, rest) := s.span Decimal.isDigit
  (s == Text.ofString "0") ||
    (whole.head?.any (fun c => 0x31 ≤ c.val) && whole.length ≤ 20 && (rest.isEmpty || safeFraction rest)) ||
    (whole == Text.ofString "0" && safeFraction rest)

def int32Max : ℤ := 2 ^ 31 - 1

def int64Max : ℤ := 2 ^ 63 - 1

/-! ## Contracts -/

inductive AuditRetentionClass where
  | operational
  | security
  deriving DecidableEq

def AuditRetentionClass.value : AuditRetentionClass → Str
  | operational => "operational"
  | security => "security"

inductive AuditError where
  | valueError (message : Str)
  | invalidOperation
  | overflowError
  | integrityError (message : Str)
  | jsonError
  | databaseError

/-- `_AuditPayloadContract` -/
structure PayloadContract where
  eventFields : List (Str × List Str)
  nullableFields : List (Str × List Str)
  integerFields : List Str
  decimalFields : List Str
  booleanFields : List Str
  hashFields : List Str
  timeFields : List Str
  enumValues : List (Str × List Str)

/-- `_ARCHIVE_V1_PAYLOAD_CONTRACT` -/
def archiveV1PayloadContract : PayloadContract where
  eventFields :=
    [("governance_policy_bootstrapped", ["policy_version", "policy_hash"]),
      ("governance_policy_applied", ["policy_version", "policy_hash"]),
      ("run_admitted", ["policy_version", "backlog_count", "question_quantum"]),
      ("run_claimed", ["dispatch_count"]),
      ("run_cancel_requested", []),
      ("run_deferred", ["reason", "not_before"]),
      ("run_yielded", ["responses_added"]),
      ("run_terminal", ["status", "reason"]),
      ("run_retry_scheduled", ["failed_attempt_count", "reason"]),
      ("run_dead_lettered", ["failed_attempt_count", "reason"]),
      ("run_lease_reconciled", ["released_reservations", "conservative_settlements"]),
      ("provider_attempt_reserved",
        ["reserved_input_tokens", "reserved_output_tokens", "reserved_cost_usd"]),
      ("provider_attempt_send_started", []),
      ("provider_attempt_settled",
        ["disposition", "outcome", "input_tokens", "output_tokens", "cost_usd", "reconciled"]),
      ("question_evidence_persisted", ["error_code"]),
      ("queue_notification", ["result"]),
      ("credential_changed", ["action", "credential_source", "key_id"]),
      ("credential_rejected", ["reason", "credential_source", "key_id"]),
      ("credential_decrypt_failed", ["reason", "key_id"]),
      ("governance_integrity_error", ["reason"])]
  nullableFields :=
    [("provider_attempt_reserved",
        ["reserved_input_tokens", "reserved_output_tokens", "reserved_cost_usd"]),
      ("provider_attempt_settled", ["input_tokens", "output_tokens", "cost_usd"]),
      ("credential_changed", ["key_id"]),
      ("credential_rejected", ["key_id"]),
      ("credential_decrypt_failed", ["key_id"])]
  integerFields :=
    ["policy_version", "backlog_count", "question_quantum", "dispatch_count", "responses_added",
      "failed_attempt_count", "released_reservations", "conservative_settlements",
      "reserved_input_tokens", "reserved_output_tokens", "input_tokens", "output_tokens"]
  decimalFields := ["reserved_cost_usd", "cost_usd"]
  booleanFields := ["reconciled"]
  hashFields := ["policy_hash"]
  timeFields := ["not_before"]
  enumValues :=
    [("disposition", ["released_pre_send", "settled_actual", "settled_conservative"]),
      ("outcome",
        ["succeeded", "usage_incomplete", "transport_error", "http_error",
          "provider_response_error", "cancelled", "mark_send_failed", "unexpected_error",
          "released_pre_send", "lease_reconciled_pre_send", "lease_reconciled_unknown"]),
      ("reason",
        ["none", "governance_deferred", "governance_exhausted", "governance_integrity_error",
          "lease_expired", "origin_rejected", "active_run_conflict", "decrypt_failed",
          "worker_error"]),
      ("status", ["pending", "running", "completed", "failed", "cancelled"]),
      ("result", ["published", "unavailable", "acknowledged", "already_absent"]),
      ("action", ["created", "replaced", "source_switched", "removed"]),
      ("credential_source", ["none", "environment", "stored"]),
      ("error_code", ["none", "adapter_error", "parse_error", "evaluator_error", "internal_error"])]

/-- `_LIVE_PAYLOAD_CONTRACT`, a copy -/
def livePayloadContract : PayloadContract where
  eventFields := archiveV1PayloadContract.eventFields
  nullableFields := archiveV1PayloadContract.nullableFields
  integerFields := archiveV1PayloadContract.integerFields
  decimalFields := archiveV1PayloadContract.decimalFields
  booleanFields := archiveV1PayloadContract.booleanFields
  hashFields := archiveV1PayloadContract.hashFields
  timeFields := archiveV1PayloadContract.timeFields
  enumValues := archiveV1PayloadContract.enumValues

/-- `_ARCHIVE_V1_RETENTION_DAYS` -/
def archiveV1RetentionDays : AuditRetentionClass → ℕ
  | .operational => 90
  | .security => 365

/-- `_LIVE_RETENTION_DAYS`, a copy -/
def liveRetentionDays : AuditRetentionClass → ℕ := archiveV1RetentionDays

/-! ## Payloads -/

/-- A value a caller passes in a payload; of an object that is neither a JSON
value nor a datetime only its `str` is used. -/
inductive Arg where
  | json (v : Json)
  | datetime (t : DateTime)
  | other (text : Str)

/-- `str(value)`. That of a list, a dictionary or a datetime is no numeral, and
an integer of more than 4300 digits is not converted. -/
def Arg.text (L : Stdlib) : Arg → Option Str
  | .json (.str s) => some s
  | .json (.int n) => if n.natAbs < 10 ^ 4300 then some (intText n) else none
  | .json (.float x) => some (L.reprFloat x)
  | .json (.bool b) => some (if b then "True" else "False")
  | .other text => some text
  | _ => none

/-- `Decimal(str(value))` -/
def Arg.decimal (L : Stdlib) (value : Arg) : Except AuditError Decimal :=
  match value.text L >>= Decimal.ofText with
  | some d => .ok d
  | none => .error .invalidOperation

/-- The datetime a value of a time field stands for. -/
def Arg.timestamp (L : Stdlib) : Arg → Option DateTime
  | .datetime t => some t
  | .json (.str s) => L.fromisoformat s
  | _ => none

def fieldError (key : Str) (what : Str) : AuditError :=
  .valueError (Text.ofString "audit payload field " ++ key ++ what)

/-- A short safe token that no known kind of secret occurs in. -/
def cleanToken (maximum : ℕ) (s : Str) : Bool :=
  safeToken maximum s && !(decide (Text.ofString "://" <:+: s)) &&
    (normalizeProviderMetadata s maximum).isSome

/-- One field of `_normalize_payload`. -/
def normalizeValue (L : Stdlib) (c : PayloadContract) (eventType key : Str) (value : Arg) :
    Except AuditError Value :=
  match value with
  | .json .null =>
    if key ∈ (c.nullableFields.lookup eventType).getD [] then .ok .null
    else .error (fieldError key " cannot be null")
  | value =>
    if key ∈ c.integerFields then
      match value with
      | .json (.int n) =>
        if 0 ≤ n ∧ n ≤ int64Max then .ok (.int n)
        else .error (fieldError key " must be a non-negative integer")
      | _ => .error (fieldError key " must be a non-negative integer")
    else if key ∈ c.decimalFields then do
      let d ← value.decimal L
      if d.isFinite && !d.isNegative && safeDecimal d.formatF then .ok (.str d.formatF)
      else .error (fieldError key " must be a bounded USD decimal")
    else if key ∈ c.booleanFields then
      match value with
      | .json (.bool b) => .ok (.bool b)
      | _ => .error (fieldError key " must be boolean")
    else if key ∈ c.hashFields then
      match value with
      | .json (.str s) =>
        if safeHash s then .ok (.str s)
        else .error (fieldError key " must be a SHA-256 hex digest")
      | _ => .error (fieldError key " must be a SHA-256 hex digest")
    else if key ∈ c.timeFields then
      match value.timestamp L with
      | some t =>
        if t.utcoffset = some 0 then .ok (.str (L.isoformat t.wall t.utcoffset))
        else .error (fieldError key " must be a UTC timestamp")
      | none => .error (fieldError key " must be a UTC timestamp")
    else
      match value with
      | .json (.str s) =>
        if cleanToken 128 s then
          if (c.enumValues.lookup key).all (·.contains s) then .ok (.str s)
          else .error (fieldError key " is not an allowed value")
        else .error (fieldError key " must be a short safe token")
      | _ => .error (fieldError key " must be a short safe token")

/-- The loop of `_normalize_payload`. -/
def normalizeFields (L : Stdlib) (c : PayloadContract) (eventType : Str) :
    Dict → List (Str × Arg) → Except AuditError Dict
  | normalized, [] => .ok normalized
  | normalized, p :: rest => do
    let v ← normalizeValue L c eventType p.1 p.2
    normalizeFields L c eventType (normalized.set p.1 v) rest

/-- `_normalize_payload` -/
def normalizePayload (L : Stdlib) (c : PayloadContract) (eventType : Str)
    (values : List (Str × Arg)) : Except AuditError Dict :=
  match c.eventFields.lookup eventType with
  | none => .error (.valueError "unsupported audit event type")
  | some allowed =>
    if (∀ k ∈ values.map Prod.fst, k ∈ allowed) ∧ (∀ k ∈ allowed, k ∈ values.map Prod.fst) then
      normalizeFields L c eventType .empty values
    else .error (.valueError "audit payload does not match the event contract")

/-- The items of a dictionary, as a caller passes them. -/
def argsOf (d : Dict) : List (Str × Arg) := d.fields.map fun p => (p.1, .json p.2.val)

/-- `_canonical_payload`: the encoded payload and its hash -/
def canonicalPayload (L : Stdlib) (payload : Dict) : Option (String × Str) :=
  (L.dumps payload.toValue.val).map fun encoded =>
    (encoded, hexdigest (L.sha256 (Py.encodeUtf8 encoded)))

/-! ## Columns -/

/-- `_safe_identity` -/
def safeIdentity (name : String) (value : Json) (maximum : ℕ) : Except AuditError (Option Str) :=
  match value with
  | .null => .ok none
  | .str s =>
    if s = [] ∨ maximum < s.length then
      .error (.valueError (name ++ " must contain 1 to " ++ toString maximum ++ " characters"))
    else if safeToken 255 s ∧ ¬ Text.ofString "://" <:+: s ∧
        (normalizeProviderMetadata s maximum).isSome then .ok (some s)
    else .error (.valueError (name ++ " must be a safe identifier"))
  | _ => .error (.valueError (name ++ " must contain 1 to " ++ toString maximum ++ " characters"))

/-- A count that is null or an integer of this range. -/
def counter (message : Str) (low high : ℤ) (value : Json) : Except AuditError (Option ℤ) :=
  match value with
  | .null => .ok none
  | .int n => if low ≤ n ∧ n ≤ high then .ok (some n) else .error (.valueError message)
  | _ => .error (.valueError message)

/-- A duration that is null or a finite number not below zero, as a float. -/
def durationValue (L : Stdlib) (value : Json) : Except AuditError (Option Double) :=
  match value with
  | .null => .ok none
  | .int n =>
    match L.floatOfInt n with
    | none => .error .overflowError
    | some x => if n < 0 then .error (.valueError "duration_ms must be non-negative") else .ok (some x)
  | .float x =>
    if x.isFinite && !x.isNegative then .ok (some x)
    else .error (.valueError "duration_ms must be non-negative")
  | _ => .error (.valueError "duration_ms must be non-negative")

/-! ## Reading -/

/-- The arguments of the reader. -/
structure RawEvent where
  id : Json
  eventKey : Json
  eventType : Json
  payloadHash : Json
  payload : Value
  retentionClass : AuditRetentionClass
  occurredAt : DateTime
  expiresAt : DateTime
  correlationId : Json
  runId : Json
  modelId : Json
  questionId : Json
  workerId : Json
  reservationId : Json
  attempt : Json
  providerAttempt : Json
  leaseToken : Json
  durationMs : Json

structure AuditEventReadFacts where
  id : Str
  eventKey : Str
  eventType : Str
  payloadHash : Str
  payload : Dict
  retentionClass : AuditRetentionClass
  occurredAt : Instant
  expiresAt : Instant
  correlationId : Option Str
  runId : Option Str
  modelId : Option Str
  questionId : Option Str
  workerId : Option Str
  reservationId : Option Str
  attempt : Option ℤ
  providerAttempt : Option ℤ
  leaseToken : Option ℤ
  durationMs : Option Double

/-- `_validate_audit_payload_for_read`, none where it raises -/
def payloadForRead (L : Stdlib) (c : PayloadContract) (eventType : Json) (payload : Value)
    (payloadHash : Json) : Option Dict :=
  match eventType, payload.dict?, payloadHash with
  | .str eventType, some fields, .str payloadHash => do
    let normalized ← (normalizePayload L c eventType (argsOf fields)).toOption
    let (encoded, expectedHash) ← canonicalPayload L normalized
    let rawEncoded ← L.dumps payload.val
    if rawEncoded = encoded ∧ safeHash payloadHash = true ∧ expectedHash = payloadHash then
      some normalized
    else none
  | _, _, _ => none

/-- `validate_audit_identity_for_read`, none where it raises -/
def identityForRead (name : String) (value : Json) (maximum : ℕ) : Option (Option Str) :=
  (safeIdentity name value maximum).toOption

/-- `0.0` for either zero. -/
def unsignedZero (x : Double) : Double := if x.isZero then .zero else x

def durationForRead (L : Stdlib) (value : Json) : Option (Option Double) :=
  (durationValue L value).toOption.map (Option.map unsignedZero)

/-- Both timestamps in UTC, if the interval is long enough. -/
def retentionInterval (minimum : ℤ) (occurredAt expiresAt : DateTime) :
    Option (Instant × Instant) := do
  let occurred ← occurredAt.toUtc
  let expires ← expiresAt.toUtc
  if expires.val - occurred.val < minimum then none else some (occurred, expires)

def asStr : Json → Option Str
  | .str s => some s
  | _ => none

/-- The body of `_validate_audit_event_values_for_read`, none where it raises. -/
def checkEvent (L : Stdlib) (c : PayloadContract) (retentionDays : AuditRetentionClass → ℕ)
    (raw : RawEvent) : Option AuditEventReadFacts := do
  let payload ← payloadForRead L c raw.eventType raw.payload raw.payloadHash
  let id ← (identityForRead "id" raw.id 36).join
  let eventKey ← (identityForRead "event_key" raw.eventKey 255).join
  let eventType ← asStr raw.eventType
  let payloadHash ← asStr raw.payloadHash
  let interval ←
    retentionInterval (days (retentionDays raw.retentionClass)) raw.occurredAt raw.expiresAt
  let attempt ← (counter "invalid audit attempt" 0 int32Max raw.attempt).toOption
  let providerAttempt ←
    (counter "invalid audit provider attempt" 1 int32Max raw.providerAttempt).toOption
  let leaseToken ← (counter "invalid audit lease token" 0 int64Max raw.leaseToken).toOption
  let durationMs ← durationForRead L raw.durationMs
  let correlationId ← identityForRead "correlation_id" raw.correlationId 128
  let runId ← identityForRead "run_id" raw.runId 36
  let modelId ← identityForRead "model_id" raw.modelId 36
  let questionId ← identityForRead "question_id" raw.questionId 36
  let workerId ← identityForRead "worker_id" raw.workerId 128
  let reservationId ← identityForRead "reservation_id" raw.reservationId 36
  some {
    id, eventKey, eventType, payloadHash, payload, retentionClass := raw.retentionClass,
    occurredAt := interval.1, expiresAt := interval.2, correlationId, runId, modelId, questionId,
    workerId, reservationId, attempt, providerAttempt, leaseToken, durationMs }

/-- `_validate_audit_event_values_for_read` -/
def validateAuditEventValuesForRead (L : Stdlib) (c : PayloadContract)
    (retentionDays : AuditRetentionClass → ℕ) (raw : RawEvent) :
    Except AuditError AuditEventReadFacts :=
  match checkEvent L c retentionDays raw with
  | some facts => .ok facts
  | none => .error (.integrityError "retained audit event failed integrity validation")

/-- `validate_audit_archive_v1_event_values_for_read` -/
def validateAuditArchiveV1EventValuesForRead (L : Stdlib) (raw : RawEvent) :
    Except AuditError AuditEventReadFacts :=
  validateAuditEventValuesForRead L archiveV1PayloadContract archiveV1RetentionDays raw

/-! ## Rows -/

/-- `audit_events` -/
structure AuditEvent where
  id : Str
  eventKey : Str
  eventType : Str
  payloadHash : Str
  payload : Value
  retentionClass : AuditRetentionClass
  occurredAt : Instant
  expiresAt : Instant
  correlationId : Option Str
  runId : Option Str
  modelId : Option Str
  questionId : Option Str
  workerId : Option Str
  reservationId : Option Str
  attempt : Option ℤ
  providerAttempt : Option ℤ
  leaseToken : Option ℤ
  durationMs : Option Double

def AuditEvent.raw (event : AuditEvent) : RawEvent where
  id := .str event.id
  eventKey := .str event.eventKey
  eventType := .str event.eventType
  payloadHash := .str event.payloadHash
  payload := event.payload
  retentionClass := event.retentionClass
  occurredAt := event.occurredAt.toDateTime
  expiresAt := event.expiresAt.toDateTime
  correlationId := Json.ofStr event.correlationId
  runId := Json.ofStr event.runId
  modelId := Json.ofStr event.modelId
  questionId := Json.ofStr event.questionId
  workerId := Json.ofStr event.workerId
  reservationId := Json.ofStr event.reservationId
  attempt := Json.ofInt event.attempt
  providerAttempt := Json.ofInt event.providerAttempt
  leaseToken := Json.ofInt event.leaseToken
  durationMs := Json.ofFloat event.durationMs

/-- `validate_audit_event_for_read` -/
def validateAuditEventForRead (L : Stdlib) (event : AuditEvent) :
    Except AuditError AuditEventReadFacts :=
  validateAuditEventValuesForRead L livePayloadContract liveRetentionDays event.raw

/-! ## Normalizing twice -/

section Normalize

variable {L : Stdlib} {c : PayloadContract} {eventType key : Str} {value : Arg} {v : Value}

theorem length_of_safeDecimal {s : Str} (h : safeDecimal s = true) : s.length ≤ 1000 := by
  have hs : s.takeWhile Decimal.isDigit ++ s.dropWhile Decimal.isDigit = s :=
    List.takeWhile_append_dropWhile
  have hfrac : ∀ {r : Str}, safeFraction r = true → r.length ≤ 9 := by
    intro r hr
    cases r with
    | nil => decide
    | cons c ds =>
      simp only [safeFraction, Bool.and_eq_true, decide_eq_true_eq] at hr
      rw [List.length_cons]
      omega
  have hlen := congrArg List.length hs
  rw [List.length_append] at hlen
  simp only [safeDecimal, List.span_eq_takeWhile_dropWhile, Bool.or_eq_true, Bool.and_eq_true,
    decide_eq_true_eq, beq_iff_eq, List.isEmpty_iff] at h
  rcases h with (rfl | ⟨⟨-, hw⟩, hr | hr⟩) | ⟨hw, hr⟩
  · decide
  · rw [hr, List.length_nil] at hlen
    omega
  · have := hfrac hr
    omega
  · have := hfrac hr
    rw [hw] at hlen
    simp only [Text.ofString, List.length_map] at hlen
    have : "0".toList.length = 1 := rfl
    omega

/-- A bounded decimal has no sign. -/
theorem safeDecimal_minus (s : Str) : safeDecimal (Text.ofString "-" ++ s) = false := by
  have hspan : (Text.ofString "-" ++ s).span Decimal.isDigit = ([], Text.ofString "-" ++ s) := by
    rw [List.span_eq_takeWhile_dropWhile]
    rfl
  rw [safeDecimal, hspan]
  rfl

/-- What a bounded decimal is rendered as is read as a decimal rendered in the same way. -/
theorem ofText_formatF {d : Decimal} (hfin : d.isFinite = true) (hsafe : safeDecimal d.formatF = true) :
    ∃ d', Decimal.ofText d.formatF = some d' ∧ d'.isFinite = true ∧ d'.isNegative = false ∧
      d'.formatF = d.formatF := by
  cases d with
  | infinite | nan => cases hfin
  | finite negative coefficient exponent =>
    cases negative with
    | true =>
      have h := (safeDecimal_minus (Decimal.fixed coefficient exponent)).symm.trans hsafe
      cases h
    | false =>
      obtain ⟨c', e', hread, htext⟩ := Decimal.ofText_fixed (length_of_safeDecimal hsafe)
      exact ⟨_, hread, rfl, rfl, htext⟩

/-- How a value is normalized, by the kind of its field. -/
inductive Normalizes (L : Stdlib) (c : PayloadContract) (eventType key : Str) : Arg → Value → Prop
  | null : key ∈ (c.nullableFields.lookup eventType).getD [] →
      Normalizes L c eventType key (.json .null) .null
  | integer {n : ℤ} : key ∈ c.integerFields → 0 ≤ n ∧ n ≤ int64Max →
      Normalizes L c eventType key (.json (.int n)) (.int n)
  | decimal {value : Arg} {d : Decimal} : value ≠ .json .null → key ∉ c.integerFields →
      key ∈ c.decimalFields → value.decimal L = .ok d → d.isFinite = true → d.isNegative = false →
      safeDecimal d.formatF = true → Normalizes L c eventType key value (.str d.formatF)
  | boolean {b : Bool} : key ∉ c.integerFields → key ∉ c.decimalFields → key ∈ c.booleanFields →
      Normalizes L c eventType key (.json (.bool b)) (.bool b)
  | hash {s : Str} : key ∉ c.integerFields → key ∉ c.decimalFields → key ∉ c.booleanFields →
      key ∈ c.hashFields → safeHash s = true → Normalizes L c eventType key (.json (.str s)) (.str s)
  | time {value : Arg} {t : DateTime} : value ≠ .json .null → key ∉ c.integerFields →
      key ∉ c.decimalFields → key ∉ c.booleanFields → key ∉ c.hashFields → key ∈ c.timeFields →
      value.timestamp L = some t → t.utcoffset = some 0 →
      Normalizes L c eventType key value (.str (L.isoformat t.wall t.utcoffset))
  | token {s : Str} : key ∉ c.integerFields → key ∉ c.decimalFields → key ∉ c.booleanFields →
      key ∉ c.hashFields → key ∉ c.timeFields → cleanToken 128 s = true →
      (c.enumValues.lookup key).all (·.contains s) = true →
      Normalizes L c eventType key (.json (.str s)) (.str s)

theorem normalizes_of_eq_ok (h : normalizeValue L c eventType key value = .ok v) :
    Normalizes L c eventType key value v := by
  rw [normalizeValue.eq_def] at h
  split at h
  · split_ifs at h with hnull
    cases h
    exact .null hnull
  next hne =>
  split_ifs at h with hint hdec hbool hhash htime
  · split at h
    · split_ifs at h with hrange
      cases h
      exact .integer hint hrange
    · cases h
  · obtain ⟨d, hd, h⟩ := bind_eq_ok.mp h
    split_ifs at h with hcond
    cases h
    simp only [Bool.and_eq_true, Bool.not_eq_true'] at hcond
    exact .decimal hne hint hdec hd hcond.1.1 hcond.1.2 hcond.2
  · split at h
    · cases h
      exact .boolean hint hdec hbool
    · cases h
  · split at h
    · split_ifs at h with hsafe
      cases h
      exact .hash hint hdec hbool hhash hsafe
    · cases h
  · split at h
    · next t ht =>
      split_ifs at h with hutc
      cases h
      exact .time hne hint hdec hbool hhash htime ht hutc
    · cases h
  · split at h
    · split_ifs at h with hclean henum
      cases h
      exact .token hint hdec hbool hhash htime hclean henum
    · cases h

theorem Normalizes.eq_ok (h : Normalizes L c eventType key value v) :
    normalizeValue L c eventType key value = .ok v := by
  cases h with
  | null hnull => exact if_pos hnull
  | integer hint hrange => exact (if_pos hint).trans (if_pos hrange)
  | boolean hint hdec hbool => exact (if_neg hint).trans ((if_neg hdec).trans (if_pos hbool))
  | hash hint hdec hbool hhash hsafe =>
    exact (if_neg hint).trans ((if_neg hdec).trans ((if_neg hbool).trans
      ((if_pos hhash).trans (if_pos hsafe))))
  | token hint hdec hbool hhash htime hclean henum =>
    exact (if_neg hint).trans ((if_neg hdec).trans ((if_neg hbool).trans
      ((if_neg hhash).trans ((if_neg htime).trans ((if_pos hclean).trans (if_pos henum))))))
  | @decimal _ d hne hint hdec hd hfin hneg hsafe =>
    have hcond : (d.isFinite && !d.isNegative && safeDecimal d.formatF) = true := by
      rw [hfin, hneg, hsafe]
      rfl
    rw [normalizeValue.eq_def]
    split
    · exact absurd rfl hne
    · rw [if_neg hint, if_pos hdec, hd]
      exact if_pos hcond
  | @time _ t hne hint hdec hbool hhash htime ht hutc =>
    rw [normalizeValue.eq_def]
    split
    · exact absurd rfl hne
    · rw [if_neg hint, if_neg hdec, if_neg hbool, if_neg hhash, if_pos htime]
      rw [ht]
      exact if_pos hutc

/-- A normalized value is left as it is. -/
theorem Normalizes.normal (h : Normalizes L c eventType key value v) :
    Normalizes L c eventType key (.json v.val) v := by
  cases h with
  | null hnull => exact .null hnull
  | integer hint hrange => exact .integer hint hrange
  | boolean hint hdec hbool => exact .boolean hint hdec hbool
  | hash hint hdec hbool hhash hsafe => exact .hash hint hdec hbool hhash hsafe
  | token hint hdec hbool hhash htime hclean henum =>
    exact .token hint hdec hbool hhash htime hclean henum
  | @decimal _ d hne hint hdec hd hfin hneg hsafe =>
    obtain ⟨d', hread, hfin', hneg', htext⟩ := ofText_formatF hfin hsafe
    have hd' : (Arg.json (.str d.formatF)).decimal L = .ok d' := by
      rw [Arg.decimal, Arg.text, Option.bind_eq_bind, Option.bind_some, hread]
    have hnorm : Normalizes L c eventType key (.json (.str d.formatF)) (.str d'.formatF) :=
      .decimal (nofun) hint hdec hd' hfin' hneg' (htext ▸ hsafe)
    rwa [htext] at hnorm
  | @time _ t hne hint hdec hbool hhash htime ht hutc =>
    rw [hutc]
    obtain ⟨t', hread, hwall, hutc'⟩ := L.fromisoformat_isoformat t.inRange.1 t.inRange.2
    have hnorm : Normalizes L c eventType key (.json (.str (L.isoformat t.wall (some 0))))
        (.str (L.isoformat t'.wall t'.utcoffset)) :=
      .time (nofun) hint hdec hbool hhash htime hread hutc'
    rwa [hwall, hutc'] at hnorm

theorem plainText_of_all {p : CodePoint → Bool} {s : Str} (hp : ∀ c, p c = true → PlainChar c)
    (h : s.all p = true) : PlainText s :=
  fun c hc => hp c (List.all_eq_true.mp h c hc)

theorem plainChar_of_isSafeChar {c : CodePoint} (h : isSafeChar c = true) : PlainChar c := by
  simp only [isSafeChar, isTokenChar, Pattern.isAlnum, Pattern.isWord, Bool.or_eq_true,
    Bool.and_eq_true, decide_eq_true_eq, beq_iff_eq, bne_iff_ne, List.contains_eq_mem,
    List.mem_cons, List.not_mem_nil, or_false] at h
  simp only [PlainChar]
  omega

theorem plainChar_of_isLowerHex {c : CodePoint} (h : isLowerHex c = true) : PlainChar c := by
  simp only [isLowerHex, Bool.or_eq_true, Bool.and_eq_true, decide_eq_true_eq] at h
  simp only [PlainChar]
  omega

theorem plainText_of_safeToken {maximum : ℕ} {s : Str} (h : safeToken maximum s = true) :
    PlainText s := by
  simp only [safeToken, Bool.and_eq_true] at h
  exact plainText_of_all (fun _ => plainChar_of_isSafeChar) h.2

theorem plainText_of_safeHash {s : Str} (h : safeHash s = true) : PlainText s := by
  simp only [safeHash, Bool.and_eq_true] at h
  exact plainText_of_all (fun _ => plainChar_of_isLowerHex) h.2

theorem plainText_fixed (coefficient : ℕ) (exponent : ℤ) :
    PlainText (Decimal.fixed coefficient exponent) := by
  intro c hc
  have := Decimal.numeric_val (Decimal.numeric_fixed c hc)
  simp only [PlainChar]
  omega

/-- What a value is normalized to is a scalar that JSON writes as it is. -/
theorem Normalizes.plain (h : Normalizes L c eventType key value v) : v.val.Plain 0 := by
  cases h with
  | null | integer | boolean => trivial
  | hash _ _ _ _ hsafe => exact plainText_of_safeHash hsafe
  | token _ _ _ _ _ hclean =>
    simp only [cleanToken, Bool.and_eq_true] at hclean
    exact plainText_of_safeToken hclean.1.1
  | @decimal _ d _ _ _ _ hfin _ hsafe =>
    cases d with
    | infinite | nan => cases hfin
    | finite negative coefficient exponent =>
      cases negative with
      | true => exact nomatch (safeDecimal_minus _).symm.trans hsafe
      | false => exact plainText_fixed coefficient exponent
  | time => exact L.isoformat_plain _ _

/-- A field of the result was there before, or is one of the values, normalized. -/
theorem get?_normalizeFields {d e : Dict} {values : List (Str × Arg)} {k : Str} {w : Value}
    (h : normalizeFields L c eventType d values = .ok e) (hw : e.get? k = some w) :
    d.get? k = some w ∨ ∃ a, Normalizes L c eventType k a w := by
  induction values generalizing d with
  | nil =>
    cases h
    exact .inl hw
  | cons p rest ih =>
    obtain ⟨v, hv, h⟩ := bind_eq_ok.mp h
    rcases ih h with hw | hw
    · by_cases hk : k = p.1
      · subst hk
        rw [Dict.get?_set] at hw
        cases hw
        exact .inr ⟨p.2, normalizes_of_eq_ok hv⟩
      · exact .inl ((Dict.get?_set_of_ne d v hk).symm.trans hw)
    · exact .inr hw

theorem mem_keys_normalizeFields {d e : Dict} {values : List (Str × Arg)} {k : Str}
    (h : normalizeFields L c eventType d values = .ok e) :
    k ∈ e.keys ↔ k ∈ d.keys ∨ k ∈ values.map Prod.fst := by
  induction values generalizing d with
  | nil =>
    cases h
    simp
  | cons p rest ih =>
    obtain ⟨v, hv, h⟩ := bind_eq_ok.mp h
    rw [ih h, Dict.keys, Dict.set, mem_keys_setField, List.map_cons, List.mem_cons]
    tauto

/-- Values that are normal already are set one after the other. -/
theorem normalizeFields_normal {d : Dict} {pairs : List (Str × Value)}
    (h : ∀ p ∈ pairs, Normalizes L c eventType p.1 (.json p.2.val) p.2) :
    normalizeFields L c eventType d (pairs.map fun p => (p.1, .json p.2.val)) =
      .ok (pairs.foldl (fun d p => d.set p.1 p.2) d) := by
  induction pairs generalizing d with
  | nil => rfl
  | cons p rest ih =>
    rw [List.map_cons, normalizeFields, (h p List.mem_cons_self).eq_ok,
      List.foldl_cons, ← ih fun q hq => h q (List.mem_cons_of_mem _ hq)]
    rfl

theorem keys_argsOf (d : Dict) : (argsOf d).map Prod.fst = d.keys := by
  rw [argsOf, List.map_map]
  rfl

/-- A normalized payload has the fields of its event type, each a scalar that is
left as it is. -/
structure NormalPayload (L : Stdlib) (c : PayloadContract) (eventType : Str) (d : Dict) : Prop where
  keys : ∃ allowed, c.eventFields.lookup eventType = some allowed ∧ ∀ k, k ∈ d.keys ↔ k ∈ allowed
  fields : ∀ p ∈ d.fields, Normalizes L c eventType p.1 (.json p.2.val) p.2

theorem normalPayload_of_eq_ok {values : List (Str × Arg)} {d : Dict}
    (h : normalizePayload L c eventType values = .ok d) : NormalPayload L c eventType d := by
  rw [normalizePayload] at h
  split at h
  · cases h
  next allowed hallowed =>
  split_ifs at h with hkeys
  refine ⟨⟨allowed, hallowed, fun k => ?_⟩, fun p hp => ?_⟩
  · rw [mem_keys_normalizeFields h]
    constructor
    · rintro (hk | hk)
      · cases hk
      · exact hkeys.1 k hk
    · exact fun hk => .inr (hkeys.2 k hk)
  · rcases get?_normalizeFields h (Dict.get?_of_mem hp) with hw | ⟨a, ha⟩
    · cases hw
    · exact ha.normal

/-- Payload normalization is idempotent. -/
theorem NormalPayload.eq_ok {d : Dict} (h : NormalPayload L c eventType d) :
    normalizePayload L c eventType (argsOf d) = .ok d := by
  obtain ⟨allowed, hallowed, hkeys⟩ := h.keys
  have hcond : (∀ k ∈ (argsOf d).map Prod.fst, k ∈ allowed) ∧
      (∀ k ∈ allowed, k ∈ (argsOf d).map Prod.fst) := by
    rw [keys_argsOf]
    exact ⟨fun k => (hkeys k).mp, fun k => (hkeys k).mpr⟩
  rw [normalizePayload, hallowed]
  refine (if_pos hcond).trans ((normalizeFields_normal h.fields).trans ?_)
  exact congrArg Except.ok (Dict.ofList_fields d)

/-- The names of the fields are plain text. -/
def PayloadContract.Plain (c : PayloadContract) : Prop :=
  ∀ p ∈ c.eventFields, ∀ k ∈ p.2, PlainText k

theorem plain_archiveV1PayloadContract : archiveV1PayloadContract.Plain := by
  have h : (archiveV1PayloadContract.eventFields.all fun p => p.2.all fun k =>
      k.all fun c => decide (PlainChar c)) = true := by decide +kernel
  intro p hp k hk c hc
  have hp := List.all_eq_true.mp h p hp
  have hk := List.all_eq_true.mp hp k hk
  exact of_decide_eq_true (List.all_eq_true.mp hk c hc)

theorem NormalPayload.plain {d : Dict} (hc : c.Plain) (h : NormalPayload L c eventType d) :
    d.toValue.val.Plain 1 := by
  obtain ⟨allowed, hallowed, hkeys⟩ := h.keys
  intro p hp
  obtain ⟨q, hq, rfl⟩ := List.mem_map.mp hp
  refine ⟨?_, (h.fields q hq).plain⟩
  exact hc _ (mem_of_lookup hallowed) _ ((hkeys q.1).mp (List.mem_map_of_mem hq))

end Normalize

/-! ## What the reader accepts -/

/-- A text `_safe_identity` lets through. -/
structure SafeIdentity (maximum : ℕ) (s : Str) : Prop where
  ne_nil : s ≠ []
  length : s.length ≤ maximum
  token : safeToken 255 s = true
  scheme : ¬ Text.ofString "://" <:+: s
  metadata : (normalizeProviderMetadata s maximum).isSome = true

theorem SafeIdentity.plain {maximum : ℕ} {s : Str} (h : SafeIdentity maximum s) : PlainText s :=
  plainText_of_safeToken h.token

/-- The hash of the payload that is written. -/
def PayloadHash (L : Stdlib) (d : Dict) (hash : Str) : Prop :=
  ∃ t, L.dumps d.toValue.val = some t ∧ hash = hexdigest (L.sha256 (Py.encodeUtf8 t))

/-- A duration as the reader returns it. -/
def Duration (x : Double) : Prop :=
  x.isFinite = true ∧ x.isNegative = false ∧ unsignedZero x = x

/-- The facts of an event that reads back as itself. -/
structure AuditEventReadFacts.Valid (L : Stdlib) (c : PayloadContract)
    (retentionDays : AuditRetentionClass → ℕ) (f : AuditEventReadFacts) : Prop where
  payload : NormalPayload L c f.eventType f.payload
  payloadHash : PayloadHash L f.payload f.payloadHash
  id : SafeIdentity 36 f.id
  eventKey : SafeIdentity 255 f.eventKey
  retention : days (retentionDays f.retentionClass) ≤ f.expiresAt.val - f.occurredAt.val
  attempt : ∀ n ∈ f.attempt, 0 ≤ n ∧ n ≤ int32Max
  providerAttempt : ∀ n ∈ f.providerAttempt, 1 ≤ n ∧ n ≤ int32Max
  leaseToken : ∀ n ∈ f.leaseToken, 0 ≤ n ∧ n ≤ int64Max
  durationMs : ∀ x ∈ f.durationMs, Duration x
  correlationId : ∀ s ∈ f.correlationId, SafeIdentity 128 s
  runId : ∀ s ∈ f.runId, SafeIdentity 36 s
  modelId : ∀ s ∈ f.modelId, SafeIdentity 36 s
  questionId : ∀ s ∈ f.questionId, SafeIdentity 36 s
  workerId : ∀ s ∈ f.workerId, SafeIdentity 128 s
  reservationId : ∀ s ∈ f.reservationId, SafeIdentity 36 s

/-- The arguments of the reader hold these facts. -/
structure RawEvent.Describes (L : Stdlib) (raw : RawEvent) (f : AuditEventReadFacts) : Prop where
  id : raw.id = .str f.id
  eventKey : raw.eventKey = .str f.eventKey
  eventType : raw.eventType = .str f.eventType
  payloadHash : raw.payloadHash = .str f.payloadHash
  payload : raw.payload = f.payload.toValue
  retentionClass : raw.retentionClass = f.retentionClass
  occurredAt : raw.occurredAt.toUtc = some f.occurredAt
  expiresAt : raw.expiresAt.toUtc = some f.expiresAt
  attempt : raw.attempt = Json.ofInt f.attempt
  providerAttempt : raw.providerAttempt = Json.ofInt f.providerAttempt
  leaseToken : raw.leaseToken = Json.ofInt f.leaseToken
  durationMs : durationForRead L raw.durationMs = some f.durationMs
  correlationId : raw.correlationId = Json.ofStr f.correlationId
  runId : raw.runId = Json.ofStr f.runId
  modelId : raw.modelId = Json.ofStr f.modelId
  questionId : raw.questionId = Json.ofStr f.questionId
  workerId : raw.workerId = Json.ofStr f.workerId
  reservationId : raw.reservationId = Json.ofStr f.reservationId

theorem RawEvent.Describes.unique {L : Stdlib} {raw : RawEvent} {f g : AuditEventReadFacts}
    (hf : raw.Describes L f) (hg : raw.Describes L g) : f = g := by
  have hstr : ∀ {a b : Option Str}, Json.ofStr a = Json.ofStr b → a = b := by
    intro a b h
    cases a <;> cases b <;> cases h <;> rfl
  have hint : ∀ {a b : Option ℤ}, Json.ofInt a = Json.ofInt b → a = b := by
    intro a b h
    cases a <;> cases b <;> cases h <;> rfl
  cases f
  cases g
  congr
  · exact Json.str.inj (hf.id.symm.trans hg.id)
  · exact Json.str.inj (hf.eventKey.symm.trans hg.eventKey)
  · exact Json.str.inj (hf.eventType.symm.trans hg.eventType)
  · exact Json.str.inj (hf.payloadHash.symm.trans hg.payloadHash)
  · have hpayload := congrArg Value.dict? (hf.payload.symm.trans hg.payload)
    rw [Value.dict?_toValue, Value.dict?_toValue] at hpayload
    exact Option.some.inj hpayload
  · exact hf.retentionClass.symm.trans hg.retentionClass
  · exact Option.some.inj (hf.occurredAt.symm.trans hg.occurredAt)
  · exact Option.some.inj (hf.expiresAt.symm.trans hg.expiresAt)
  · exact hstr (hf.correlationId.symm.trans hg.correlationId)
  · exact hstr (hf.runId.symm.trans hg.runId)
  · exact hstr (hf.modelId.symm.trans hg.modelId)
  · exact hstr (hf.questionId.symm.trans hg.questionId)
  · exact hstr (hf.workerId.symm.trans hg.workerId)
  · exact hstr (hf.reservationId.symm.trans hg.reservationId)
  · exact hint (hf.attempt.symm.trans hg.attempt)
  · exact hint (hf.providerAttempt.symm.trans hg.providerAttempt)
  · exact hint (hf.leaseToken.symm.trans hg.leaseToken)
  · exact Option.some.inj (hf.durationMs.symm.trans hg.durationMs)

section Read

variable {L : Stdlib} {c : PayloadContract} {retentionDays : AuditRetentionClass → ℕ}
  {raw : RawEvent} {f : AuditEventReadFacts}

theorem safeIdentity_eq_ok {name : String} {value : Json} {maximum : ℕ} {o : Option Str} :
    safeIdentity name value maximum = .ok o ↔
      value = Json.ofStr o ∧ ∀ s ∈ o, SafeIdentity maximum s := by
  constructor
  · intro h
    rw [safeIdentity.eq_def] at h
    split at h
    · cases h
      exact ⟨rfl, fun s hs => nomatch hs⟩
    · split_ifs at h with hlen hclean
      cases h
      rw [not_or, not_lt] at hlen
      refine ⟨rfl, fun s hs => ?_⟩
      cases hs
      exact ⟨hlen.1, hlen.2, hclean.1, hclean.2.1, hclean.2.2⟩
    · cases h
  · rintro ⟨rfl, h⟩
    cases o with
    | none => rfl
    | some s =>
      have hs := h s rfl
      refine (if_neg ?_).trans (if_pos ⟨hs.token, hs.scheme, hs.metadata⟩)
      rw [not_or, not_lt]
      exact ⟨hs.ne_nil, hs.length⟩

theorem identityForRead_eq_some {name : String} {value : Json} {maximum : ℕ} {o : Option Str} :
    identityForRead name value maximum = some o ↔
      value = Json.ofStr o ∧ ∀ s ∈ o, SafeIdentity maximum s :=
  toOption_eq_some.trans safeIdentity_eq_ok

/-- An identity that must be there. -/
theorem join_identityForRead_eq_some {name : String} {value : Json} {maximum : ℕ} {s : Str} :
    (identityForRead name value maximum).join = some s ↔
      value = .str s ∧ SafeIdentity maximum s := by
  rw [Option.join_eq_some_iff, identityForRead_eq_some]
  exact and_congr_right fun _ => ⟨fun h => h s rfl, fun h t ht => by cases ht; exact h⟩

theorem counter_eq_ok {message : Str} {low high : ℤ} {value : Json} {o : Option ℤ} :
    counter message low high value = .ok o ↔
      value = Json.ofInt o ∧ ∀ n ∈ o, low ≤ n ∧ n ≤ high := by
  constructor
  · intro h
    rw [counter.eq_def] at h
    split at h
    · cases h
      exact ⟨rfl, fun n hn => nomatch hn⟩
    · split_ifs at h with hrange
      cases h
      exact ⟨rfl, fun n hn => by cases hn; exact hrange⟩
    · cases h
  · rintro ⟨rfl, h⟩
    cases o with
    | none => rfl
    | some n => exact if_pos (h n rfl)

theorem durationValue_eq_ok {value : Json} {o : Option Double} (h : durationValue L value = .ok o) :
    ∀ x ∈ o, x.isFinite = true ∧ x.isNegative = false := by
  rw [durationValue.eq_def] at h
  split at h
  · cases h
    exact fun x hx => nomatch hx
  · split at h
    · cases h
    next n _ hfloat =>
    split_ifs at h with hneg
    cases h
    rintro x ⟨⟩
    exact ⟨L.floatOfInt_finite hfloat, L.floatOfInt_nonneg (not_lt.mp hneg) hfloat⟩
  · split_ifs at h with hcond
    cases h
    rintro x ⟨⟩
    simpa using hcond
  · cases h

theorem unsignedZero_of_isZero {x : Double} (h : x.isZero = true) : unsignedZero x = .zero :=
  if_pos h

theorem unsignedZero_of_not {x : Double} (h : ¬ x.isZero = true) : unsignedZero x = x := if_neg h

theorem duration_unsignedZero {x : Double} (hfin : x.isFinite = true) (hneg : x.isNegative = false) :
    Duration (unsignedZero x) := by
  by_cases h : x.isZero = true
  · rw [unsignedZero_of_isZero h]
    exact ⟨rfl, rfl, rfl⟩
  · rw [unsignedZero_of_not h]
    exact ⟨hfin, hneg, unsignedZero_of_not h⟩

theorem durationForRead_eq_some {value : Json} {o : Option Double}
    (h : durationForRead L value = some o) : ∀ x ∈ o, Duration x := by
  obtain ⟨o', ho', rfl⟩ := Option.map_eq_some_iff.mp h
  intro x hx
  obtain ⟨y, hy, rfl⟩ := Option.map_eq_some_iff.mp hx
  have := durationValue_eq_ok (toOption_eq_some.mp ho') y hy
  exact duration_unsignedZero this.1 this.2

theorem durationForRead_ofFloat {o : Option Double} (h : ∀ x ∈ o, Duration x) :
    durationForRead L (Json.ofFloat o) = some o := by
  cases o with
  | none => rfl
  | some x =>
    obtain ⟨hfin, hneg, hzero⟩ := h x rfl
    have hcond : (x.isFinite && !x.isNegative) = true := by rw [hfin, hneg]; rfl
    have hvalue : durationValue L (.float x) = .ok (some x) := if_pos hcond
    change (durationValue L (.float x)).toOption.map (Option.map unsignedZero) = _
    rw [hvalue]
    exact congrArg (fun x => some (some x)) hzero

theorem safeHash_hexdigest (d : BitVec 256) : safeHash (hexdigest d) = true := by
  rw [safeHash, Bool.and_eq_true]
  exact ⟨beq_iff_eq.mpr (length_hexdigest d),
    List.all_eq_true.mpr fun _ => isLowerHex_of_mem_hexdigest⟩

theorem plain_mono {n : ℕ} : ∀ {v : Json}, v.Plain n → v.Plain (n + 1) := by
  induction n with
  | zero => intro v h; cases v <;> trivial
  | succ n ih =>
    intro v h
    cases v with
    | object fields => exact fun p hp => ⟨(h p hp).1, ih (h p hp).2⟩
    | array items => exact h
    | _ => exact h

/-- A payload is accepted if it is normal and the hash is that of its text. -/
theorem payloadForRead_eq_some (hc : c.Plain) {eventType : Json} {payload : Value}
    {payloadHash : Json} {d : Dict} :
    payloadForRead L c eventType payload payloadHash = some d ↔
      ∃ e h, eventType = .str e ∧ payloadHash = .str h ∧ payload = d.toValue ∧
        NormalPayload L c e d ∧ PayloadHash L d h := by
  constructor
  · intro h
    rw [payloadForRead.eq_def] at h
    split at h
    · next e fields hash hfields =>
      obtain ⟨n, hn, h⟩ := Option.bind_eq_some_iff.mp h
      obtain ⟨⟨encoded, expected⟩, hcanon, h⟩ := Option.bind_eq_some_iff.mp h
      obtain ⟨rawEncoded, hraw, h⟩ := Option.bind_eq_some_iff.mp h
      split_ifs at h with hcond
      obtain rfl := Option.some.inj h
      obtain ⟨t, ht, hpair⟩ := Option.map_eq_some_iff.mp hcanon
      obtain ⟨rfl, rfl⟩ := Prod.mk.inj hpair
      have hnormal := normalPayload_of_eq_ok (toOption_eq_some.mp hn)
      rw [hcond.1] at hraw
      have heq := L.dumps_inj (plain_mono (hnormal.plain hc)) hraw ht
      exact ⟨e, hash, rfl, rfl, heq, hnormal, t, ht, hcond.2.2.symm⟩
    · cases h
  · rintro ⟨e, hash, rfl, rfl, rfl, hnormal, t, ht, rfl⟩
    have hread : (normalizePayload L c e (argsOf d)).toOption = some d :=
      toOption_eq_some.mpr hnormal.eq_ok
    rw [payloadForRead.eq_def, Value.dict?_toValue]
    simp only [hread, canonicalPayload, ht, Option.map_some, Option.bind_eq_bind, Option.bind_some,
      safeHash_hexdigest, and_self, if_true]

theorem asStr_eq_some {v : Json} {s : Str} : asStr v = some s ↔ v = .str s := by
  cases v with
  | str t => exact ⟨fun h => congrArg Json.str (Option.some.inj h), fun h => congrArg asStr h⟩
  | _ => exact ⟨(nomatch ·), (nomatch ·)⟩

theorem retentionInterval_eq_some {minimum : ℤ} {occurredAt expiresAt : DateTime}
    {interval : Instant × Instant} :
    retentionInterval minimum occurredAt expiresAt = some interval ↔
      occurredAt.toUtc = some interval.1 ∧ expiresAt.toUtc = some interval.2 ∧
        minimum ≤ interval.2.val - interval.1.val := by
  constructor
  · intro h
    obtain ⟨occurred, ho, h⟩ := Option.bind_eq_some_iff.mp h
    obtain ⟨expires, he, h⟩ := Option.bind_eq_some_iff.mp h
    split_ifs at h with hlt
    cases h
    exact ⟨ho, he, not_lt.mp hlt⟩
  · rintro ⟨ho, he, hle⟩
    simp only [retentionInterval, ho, he, Option.bind_eq_bind, Option.bind_some]
    exact if_neg (not_lt.mpr hle)

/-- An event that is read holds facts that are valid. -/
theorem describes_of_checkEvent (hc : c.Plain) (h : checkEvent L c retentionDays raw = some f) :
    raw.Describes L f ∧ f.Valid L c retentionDays := by
  obtain ⟨payload, hpayload, h⟩ := Option.bind_eq_some_iff.mp h
  obtain ⟨id, hid, h⟩ := Option.bind_eq_some_iff.mp h
  obtain ⟨eventKey, hkey, h⟩ := Option.bind_eq_some_iff.mp h
  obtain ⟨eventType, htype, h⟩ := Option.bind_eq_some_iff.mp h
  obtain ⟨payloadHash, hhash, h⟩ := Option.bind_eq_some_iff.mp h
  obtain ⟨interval, hinterval, h⟩ := Option.bind_eq_some_iff.mp h
  obtain ⟨attempt, hattempt, h⟩ := Option.bind_eq_some_iff.mp h
  obtain ⟨providerAttempt, hprovider, h⟩ := Option.bind_eq_some_iff.mp h
  obtain ⟨leaseToken, hlease, h⟩ := Option.bind_eq_some_iff.mp h
  obtain ⟨durationMs, hduration, h⟩ := Option.bind_eq_some_iff.mp h
  obtain ⟨correlationId, hcorrelation, h⟩ := Option.bind_eq_some_iff.mp h
  obtain ⟨runId, hrun, h⟩ := Option.bind_eq_some_iff.mp h
  obtain ⟨modelId, hmodel, h⟩ := Option.bind_eq_some_iff.mp h
  obtain ⟨questionId, hquestion, h⟩ := Option.bind_eq_some_iff.mp h
  obtain ⟨workerId, hworker, h⟩ := Option.bind_eq_some_iff.mp h
  obtain ⟨reservationId, hreservation, h⟩ := Option.bind_eq_some_iff.mp h
  obtain rfl := Option.some.inj h
  obtain ⟨e, hash, he, hh, hvalue, hnormal, hdigest⟩ := (payloadForRead_eq_some hc).mp hpayload
  rw [asStr_eq_some] at htype hhash
  obtain rfl : eventType = e := Json.str.inj (htype.symm.trans he)
  obtain rfl : payloadHash = hash := Json.str.inj (hhash.symm.trans hh)
  rw [join_identityForRead_eq_some] at hid hkey
  rw [retentionInterval_eq_some] at hinterval
  rw [toOption_eq_some, counter_eq_ok] at hattempt hprovider hlease
  rw [identityForRead_eq_some] at hcorrelation hrun hmodel hquestion hworker hreservation
  exact ⟨⟨hid.1, hkey.1, htype, hhash, hvalue, rfl, hinterval.1, hinterval.2.1, hattempt.1,
      hprovider.1, hlease.1, hduration, hcorrelation.1, hrun.1, hmodel.1, hquestion.1, hworker.1,
      hreservation.1⟩,
    ⟨hnormal, hdigest, hid.2, hkey.2, hinterval.2.2, hattempt.2, hprovider.2, hlease.2,
      durationForRead_eq_some hduration, hcorrelation.2, hrun.2, hmodel.2, hquestion.2, hworker.2,
      hreservation.2⟩⟩

/-- Arguments that hold valid facts are read as these facts. -/
theorem RawEvent.Describes.checkEvent (hc : c.Plain) (h : raw.Describes L f)
    (hv : f.Valid L c retentionDays) : checkEvent L c retentionDays raw = some f := by
  refine Option.bind_eq_some_iff.mpr ⟨f.payload, (payloadForRead_eq_some hc).mpr
    ⟨_, _, h.eventType, h.payloadHash, h.payload, hv.payload, hv.payloadHash⟩, ?_⟩
  refine Option.bind_eq_some_iff.mpr ⟨_, join_identityForRead_eq_some.mpr ⟨h.id, hv.id⟩, ?_⟩
  refine Option.bind_eq_some_iff.mpr
    ⟨_, join_identityForRead_eq_some.mpr ⟨h.eventKey, hv.eventKey⟩, ?_⟩
  refine Option.bind_eq_some_iff.mpr ⟨_, asStr_eq_some.mpr h.eventType, ?_⟩
  refine Option.bind_eq_some_iff.mpr ⟨_, asStr_eq_some.mpr h.payloadHash, ?_⟩
  refine Option.bind_eq_some_iff.mpr ⟨(f.occurredAt, f.expiresAt), retentionInterval_eq_some.mpr
    ⟨h.occurredAt, h.expiresAt, h.retentionClass ▸ hv.retention⟩, ?_⟩
  refine Option.bind_eq_some_iff.mpr
    ⟨_, toOption_eq_some.mpr (counter_eq_ok.mpr ⟨h.attempt, hv.attempt⟩), ?_⟩
  refine Option.bind_eq_some_iff.mpr
    ⟨_, toOption_eq_some.mpr (counter_eq_ok.mpr ⟨h.providerAttempt, hv.providerAttempt⟩), ?_⟩
  refine Option.bind_eq_some_iff.mpr
    ⟨_, toOption_eq_some.mpr (counter_eq_ok.mpr ⟨h.leaseToken, hv.leaseToken⟩), ?_⟩
  refine Option.bind_eq_some_iff.mpr ⟨_, h.durationMs, ?_⟩
  refine Option.bind_eq_some_iff.mpr
    ⟨_, identityForRead_eq_some.mpr ⟨h.correlationId, hv.correlationId⟩, ?_⟩
  refine Option.bind_eq_some_iff.mpr ⟨_, identityForRead_eq_some.mpr ⟨h.runId, hv.runId⟩, ?_⟩
  refine Option.bind_eq_some_iff.mpr ⟨_, identityForRead_eq_some.mpr ⟨h.modelId, hv.modelId⟩, ?_⟩
  refine Option.bind_eq_some_iff.mpr
    ⟨_, identityForRead_eq_some.mpr ⟨h.questionId, hv.questionId⟩, ?_⟩
  refine Option.bind_eq_some_iff.mpr ⟨_, identityForRead_eq_some.mpr ⟨h.workerId, hv.workerId⟩, ?_⟩
  refine Option.bind_eq_some_iff.mpr
    ⟨_, identityForRead_eq_some.mpr ⟨h.reservationId, hv.reservationId⟩, ?_⟩
  rw [h.retentionClass]

/-- An event is read exactly if its arguments hold valid facts, and as these facts. -/
theorem checkEvent_eq_some (hc : c.Plain) :
    checkEvent L c retentionDays raw = some f ↔ raw.Describes L f ∧ f.Valid L c retentionDays :=
  ⟨describes_of_checkEvent hc, fun h => h.1.checkEvent hc h.2⟩

end Read

end Audit

end LLMBenchLab
