import LLMBenchLab.AuditEvents

/-!
# The audit archive

`backend/app/governance/audit_archive.py`. An archive is a file of JSON lines:
a header, one line for each event, and a manifest with counts, extremes and a
digest of the lines before it. `build_archive_bytes` makes the bytes,
`verify_archive` reads them back; both repeat the same checks of the events.
-/

namespace LLMBenchLab

namespace Archive

open Python Audit
open Text (Str CodePoint)
open Framing (Bytes)

/-! ## Failures and constants -/

/-- `AuditArchiveError` with its code, or another exception that the verifier
lets through. -/
inductive Failure where
  | archive (code : String)
  | valueError
  | recursionError
  | overflowError

def archiveSchema : Str := "llmbenchlab-audit-archive-v1"

def compatibleAlembicHeads : List Str :=
  ["20260828_0005", "20260829_0006", "20260830_0007", "20260830_0008"]

def archiveEventLimit : ℕ := 10000

def archiveFileLimitBytes : ℕ := 128 * 1024 * 1024

def archiveLineLimitBytes : ℕ := 64 * 1024

/-- `_CONTENT_HASH_DOMAIN` -/
def contentHashDomain : Bytes := Py.encodeUtf8 "LLMBenchLab audit archive content v1" ++ [0]

def headerKeys : List Str :=
  ["record_type", "schema", "cutoff_at", "source_alembic_head", "event_limit"]

def eventKeys : List Str :=
  ["record_type", "id", "event_key", "event_type", "payload_hash", "payload", "retention_class",
    "occurred_at", "expires_at", "correlation_id", "run_id", "model_id", "question_id",
    "worker_id", "reservation_id", "attempt", "provider_attempt", "lease_token", "duration_ms_hex"]

def manifestKeys : List Str :=
  ["record_type", "schema", "cutoff_at", "source_alembic_head", "event_count",
    "event_type_counts", "retention_class_counts", "occurred_at_min", "occurred_at_max",
    "expires_at_min", "expires_at_max", "has_more_eligible", "content_sha256"]

/-! ## Fields -/

/-- `_canonical_json` -/
def canonicalJson (L : Stdlib) (value : Dict) : Except Failure Bytes :=
  match L.dumps value.toValue.val with
  | none =>
    .error (if L.tooDeep value.toValue.val then .recursionError
      else .archive "archive_value_not_canonical_json")
  | some text =>
    if archiveLineLimitBytes < (Py.encodeUtf8 text).length then
      .error (.archive "archive_line_limit_exceeded")
    else .ok (Py.encodeUtf8 text)

/-- `_parse_timestamp` -/
def parseTimestamp (L : Stdlib) (value : Json) : Except Failure Instant :=
  match value with
  | .str s =>
    match L.strptime s with
    | none => .error (.archive "archive_timestamp_invalid")
    | some parsed =>
      if L.strftime parsed = s then .ok parsed
      else .error (.archive "archive_timestamp_not_canonical")
  | _ => .error (.archive "archive_timestamp_invalid")

/-- `_duration_to_hex` -/
def durationToHex (L : Stdlib) (value : Option Double) : Except Failure (Option Str) :=
  match value with
  | none => .ok none
  | some x =>
    if x.isFinite && !x.isNegative then .ok (some (L.hex (unsignedZero x)))
    else .error (.archive "archive_duration_invalid")

/-- `_duration_from_hex` -/
def durationFromHex (L : Stdlib) (value : Json) : Except Failure (Option Double) :=
  match value with
  | .null => .ok none
  | .str s =>
    match L.fromhex s with
    | .error .value => .error (.archive "archive_duration_invalid")
    | .error .overflow => .error .overflowError
    | .ok parsed => do
      let canonical ← durationToHex L (some parsed)
      if canonical = some s then .ok (some parsed)
      else .error (.archive "archive_duration_not_canonical")
  | _ => .error (.archive "archive_duration_invalid")

/-- `_event_record` -/
def eventRecord (L : Stdlib) (event : AuditEventReadFacts) : Except Failure Dict := do
  let durationMsHex ← durationToHex L event.durationMs
  return .ofList
    [("record_type", .str "audit_event"),
      ("id", .str event.id),
      ("event_key", .str event.eventKey),
      ("event_type", .str event.eventType),
      ("payload_hash", .str event.payloadHash),
      ("payload", event.payload.toValue),
      ("retention_class", .str event.retentionClass.value),
      ("occurred_at", .str (L.strftime event.occurredAt)),
      ("expires_at", .str (L.strftime event.expiresAt)),
      ("correlation_id", .ofStr event.correlationId),
      ("run_id", .ofStr event.runId),
      ("model_id", .ofStr event.modelId),
      ("question_id", .ofStr event.questionId),
      ("worker_id", .ofStr event.workerId),
      ("reservation_id", .ofStr event.reservationId),
      ("attempt", .ofInt event.attempt),
      ("provider_attempt", .ofInt event.providerAttempt),
      ("lease_token", .ofInt event.leaseToken),
      ("duration_ms_hex", .ofStr durationMsHex)]

/-- `_validated_facts` -/
def validatedFacts (L : Stdlib) (event : RawEvent) : Except Failure AuditEventReadFacts :=
  match validateAuditArchiveV1EventValuesForRead L event with
  | .ok facts => .ok facts
  | .error _ => .error (.archive "archive_event_integrity_invalid")

/-- `n.to_bytes(8, "big")` -/
def bigEndian (n : ℕ) : Bytes := (List.range 8).map fun i => UInt8.ofNat (n / 256 ^ (7 - i))

/-- `_content_digest` -/
def contentDigest (L : Stdlib) (lines : List Bytes) : Str :=
  hexdigest (L.sha256 (contentHashDomain ++ lines.flatMap fun line => bigEndian line.length ++ line))

/-- `_ALEMBIC_REVISION` -/
def alembicRevision (s : Str) : Bool := 1 ≤ s.length && s.length ≤ 64 && s.all Pattern.isWord

/-- `_validate_source_head` -/
def validateSourceHead (value : Json) : Except Failure Str :=
  match value with
  | .str s =>
    if alembicRevision s then
      if s ∈ compatibleAlembicHeads then .ok s
      else .error (.archive "archive_source_revision_unsupported")
    else .error (.archive "archive_source_revision_invalid")
  | _ => .error (.archive "archive_source_revision_invalid")

/-! ## Checks and rollups of events -/

/-- `order <= previous_order` -/
def orderLe (a b : Instant × Str) : Bool := a.1 < b.1 || (a.1 == b.1 && a.2 ≤ b.2)

/-- The loop over the events, of the builder and of the verifier alike. -/
def checkEvents (cutoff : Instant) (previousOrder : Option (Instant × Str)) (seenIds seenKeys : List Str) :
    List AuditEventReadFacts → Except Failure Unit
  | [] => .ok ()
  | event :: rest =>
    if previousOrder.any (orderLe (event.expiresAt, event.id)) then
      .error (.archive "archive_events_not_strictly_ordered")
    else if event.id ∈ seenIds ∨ event.eventKey ∈ seenKeys then
      .error (.archive "archive_event_identity_duplicated")
    else if cutoff ≤ event.expiresAt then .error (.archive "archive_event_not_eligible")
    else
      checkEvents cutoff (some (event.expiresAt, event.id)) (event.id :: seenIds)
        (event.eventKey :: seenKeys) rest

/-- `dict(sorted(Counter(..).items()))` -/
def eventTypeCounts (events : List AuditEventReadFacts) : Dict :=
  .ofList (events.map fun event =>
    (event.eventType, .int (events.countP fun other => other.eventType == event.eventType)))

def retentionClassCounts (events : List AuditEventReadFacts) : Dict :=
  .ofList ([AuditRetentionClass.operational, .security].map fun retention =>
    (retention.value, .int (events.countP fun event => event.retentionClass.value == retention.value)))

/-- `_format_timestamp(..) if events else None` -/
def extreme (L : Stdlib) (instant : Option Instant) : Value := .ofStr (instant.map L.strftime)

/-- `expected_rollup` of the verifier -/
def rollup (L : Stdlib) (events : List AuditEventReadFacts) : List (Str × Value) :=
  [("event_count", .int events.length),
    ("event_type_counts", (eventTypeCounts events).toValue),
    ("retention_class_counts", (retentionClassCounts events).toValue),
    ("occurred_at_min", extreme L (events.map (·.occurredAt)).min?),
    ("occurred_at_max", extreme L (events.map (·.occurredAt)).max?),
    ("expires_at_min", extreme L (events.map (·.expiresAt)).min?),
    ("expires_at_max", extreme L (events.map (·.expiresAt)).max?)]

/-! ## Building -/

def headerRecord (L : Stdlib) (cutoff : Instant) (sourceHead : Str) : Dict :=
  .ofList
    [("record_type", .str "header"),
      ("schema", .str archiveSchema),
      ("cutoff_at", .str (L.strftime cutoff)),
      ("source_alembic_head", .str sourceHead),
      ("event_limit", .int archiveEventLimit)]

def manifestRecord (L : Stdlib) (cutoff : Instant) (sourceHead : Str)
    (events : List AuditEventReadFacts) (hasMoreEligible : Bool) (contentSha256 : Str) : Dict :=
  .ofList
    [("record_type", .str "manifest"),
      ("schema", .str archiveSchema),
      ("cutoff_at", .str (L.strftime cutoff)),
      ("source_alembic_head", .str sourceHead),
      ("event_count", .int events.length),
      ("event_type_counts", (eventTypeCounts events).toValue),
      ("retention_class_counts", (retentionClassCounts events).toValue),
      ("occurred_at_min", extreme L (events.map (·.occurredAt)).min?),
      ("occurred_at_max", extreme L (events.map (·.occurredAt)).max?),
      ("expires_at_min", extreme L (events.map (·.expiresAt)).min?),
      ("expires_at_max", extreme L (events.map (·.expiresAt)).max?),
      ("has_more_eligible", .bool hasMoreEligible),
      ("content_sha256", .str contentSha256)]

def newline : UInt8 := 10

/-- `b"\n".join(lines) + b"\n"` -/
def joinLines (lines : List Bytes) : Bytes := [newline].intercalate lines ++ [newline]

/-- `_parse_timestamp(_format_timestamp(cutoff_at))` -/
def normalizeCutoff (L : Stdlib) (cutoffAt : DateTime) : Except Failure Instant :=
  match cutoffAt.toUtc with
  | none => .error (.archive "archive_cutoff_invalid")
  | some cutoff => parseTimestamp L (.str (L.strftime cutoff))

/-- The header and event lines of an archive. -/
def contentLines (L : Stdlib) (cutoff : Instant) (sourceHead : Str)
    (events : List AuditEventReadFacts) : Except Failure (List Bytes) := do
  let header ← canonicalJson L (headerRecord L cutoff sourceHead)
  let lines ← events.mapM fun event => eventRecord L event >>= canonicalJson L
  return header :: lines

/-- `build_archive_bytes` -/
def buildArchiveBytes (L : Stdlib) (events : List RawEvent) (cutoffAt : DateTime)
    (sourceAlembicHead : Json) (hasMoreEligible : Json) : Except Failure (Bytes × Str) := do
  ensure (events.length ≤ archiveEventLimit) (.archive "archive_event_limit_exceeded")
  let hasMore ← (match hasMoreEligible with
    | .bool b => .ok b
    | _ => .error (.archive "archive_has_more_invalid"))
  let sourceHead ← validateSourceHead sourceAlembicHead
  let cutoff ← normalizeCutoff L cutoffAt
  let facts ← events.mapM (validatedFacts L)
  checkEvents cutoff none [] [] facts
  let content ← contentLines L cutoff sourceHead facts
  let contentSha256 := contentDigest L content
  let manifest ← canonicalJson L (manifestRecord L cutoff sourceHead facts hasMore contentSha256)
  let data := joinLines (content ++ [manifest])
  ensure (data.length ≤ archiveFileLimitBytes) (.archive "archive_file_limit_exceeded")
  return (data, contentSha256)

/-! ## Reading -/

/-- `_strict_object` -/
def strictObject (result : Dict) : List (Str × Value) → Except Failure Dict
  | [] => .ok result
  | (key, value) :: rest =>
    if key ∈ result.keys then .error (.archive "archive_json_duplicate_key")
    else strictObject (result.set key value) rest

/-- `object_pairs_hook` and `parse_constant` of the verifier. -/
def strictHooks : Hooks Failure where
  objectPairs := strictObject .empty
  constant _ := .error (.archive "archive_json_non_finite")

/-- What becomes of an exception of the scanner. -/
def scanFailure : Fault → Failure
  | .decode => .archive "archive_json_invalid"
  | .digits => .valueError
  | .recursion => .recursionError

/-- `_decode_line` -/
def decodeLine (L : Stdlib) (line : Bytes) : Except Failure Dict := do
  ensure (line ≠ [] ∧ line.length ≤ archiveLineLimitBytes) (.archive "archive_line_invalid")
  let text ← (Py.decodeUtf8 line).elim (.error (.archive "archive_json_invalid")) .ok
  let value ← (L.scan text).load strictHooks scanFailure
  let record ← value.dict?.elim (.error (.archive "archive_record_not_object")) .ok
  let encoded ← canonicalJson L record
  ensure (encoded = line) (.archive "archive_record_not_canonical")
  return record

/-- `value[key]`, of a record whose keys have been checked -/
def field (record : Dict) (key : Str) : Value := (record.get? key).getD .null

/-- `_require_exact_keys` -/
def requireExactKeys (record : Dict) (keys : List Str) (code : String) : Except Failure Unit :=
  ensure ((∀ k ∈ record.keys, k ∈ keys) ∧ ∀ k ∈ keys, k ∈ record.keys) (.archive code)

/-- `retention_value not in ARCHIVE_V1_RETENTION_VALUES`, and the class -/
def parseRetentionClass (value : Json) : Except Failure AuditRetentionClass :=
  if value = .str AuditRetentionClass.operational.value then .ok .operational
  else if value = .str AuditRetentionClass.security.value then .ok .security
  else .error (.archive "archive_retention_class_invalid")

/-- `_parse_event` -/
def parseEvent (L : Stdlib) (record : Dict) : Except Failure AuditEventReadFacts := do
  requireExactKeys record eventKeys "archive_event_schema_invalid"
  ensure ((field record "record_type").val.eq (.str "audit_event")) (.archive "archive_event_type_invalid")
  let retentionClass ← parseRetentionClass (field record "retention_class").val
  let occurredAt ← parseTimestamp L (field record "occurred_at").val
  let expiresAt ← parseTimestamp L (field record "expires_at").val
  let durationMs ← durationFromHex L (field record "duration_ms_hex").val
  validatedFacts L {
    id := (field record "id").val
    eventKey := (field record "event_key").val
    eventType := (field record "event_type").val
    payloadHash := (field record "payload_hash").val
    payload := field record "payload"
    retentionClass
    occurredAt := occurredAt.toDateTime
    expiresAt := expiresAt.toDateTime
    correlationId := (field record "correlation_id").val
    runId := (field record "run_id").val
    modelId := (field record "model_id").val
    questionId := (field record "question_id").val
    workerId := (field record "worker_id").val
    reservationId := (field record "reservation_id").val
    attempt := (field record "attempt").val
    providerAttempt := (field record "provider_attempt").val
    leaseToken := (field record "lease_token").val
    durationMs := Json.ofFloat durationMs }

/-- What the descriptor of an opened file shows. -/
structure ArchiveFile where
  regular : Bool
  owned : Bool
  mode : ℕ
  content : Bytes

/-- `_read_owned_private_file`; none of the bits outside `0o600` may be set. -/
def readOwnedPrivateFile (file : ArchiveFile) : Except Failure Bytes := do
  ensure (file.regular = true) (.archive "archive_input_not_regular")
  ensure (file.owned = true) (.archive "archive_input_wrong_owner")
  ensure (file.mode &&& 0o7177 = 0) (.archive "archive_input_permissions_too_broad")
  ensure (file.content.length ≤ archiveFileLimitBytes) (.archive "archive_file_limit_exceeded")
  return file.content

/-- `_validate_digest` -/
def validateDigest (value : Json) (code : String) : Except Failure Str :=
  match value with
  | .str s => if safeHash s then .ok s else .error (.archive code)
  | _ => .error (.archive code)

/-- A count of a rollup. -/
def isCount : Json → Bool
  | .int n => 0 ≤ n
  | _ => false

def isEventCount : Json → Bool
  | .int n => 0 ≤ n && n ≤ archiveEventLimit
  | _ => false

/-- `_validate_count_mapping` -/
def validateCountMapping (value : Value) : Except Failure Unit :=
  ensure (value.dict?.any fun d => d.fields.all fun p => isCount p.2.val)
    (.archive "archive_manifest_rollup_invalid")

structure VerifiedAuditArchive where
  cutoffAt : Instant
  sourceAlembicHead : Str
  events : List AuditEventReadFacts
  hasMoreEligible : Bool
  contentSha256 : Str
  archiveSha256 : Str

/-- The lines of a file that ends in one newline. -/
def splitLines (data : Bytes) : Except Failure (List Bytes) := do
  ensure (data ≠ [] ∧ [newline] <:+ data ∧ ¬ [newline, newline] <:+ data)
    (.archive "archive_line_termination_invalid")
  ensure (data.count newline ≤ archiveEventLimit + 2) (.archive "archive_event_limit_exceeded")
  let rawLines := data.dropLast.splitOn newline
  ensure (2 ≤ rawLines.length ∧ [] ∉ rawLines) (.archive "archive_record_sequence_invalid")
  return rawLines

/-- The checks of the header and of the manifest that need no events: the cutoff
and the source head. -/
def verifyEnds (L : Stdlib) (header manifest : Dict) : Except Failure (Instant × Str) := do
  requireExactKeys header headerKeys "archive_header_schema_invalid"
  requireExactKeys manifest manifestKeys "archive_manifest_schema_invalid"
  ensure ((field header "record_type").val.eq (.str "header") ∧
      (field manifest "record_type").val.eq (.str "manifest"))
    (.archive "archive_record_sequence_invalid")
  ensure ((field header "schema").val.eq (.str archiveSchema) ∧
      (field manifest "schema").val.eq (.str archiveSchema))
    (.archive "archive_schema_unsupported")
  ensure ((field header "event_limit").val.eq (.int archiveEventLimit))
    (.archive "archive_event_limit_invalid")
  let cutoffAt ← parseTimestamp L (field header "cutoff_at").val
  let sourceHead ← validateSourceHead (field header "source_alembic_head").val
  ensure ((field manifest "cutoff_at").val.eq (field header "cutoff_at").val)
    (.archive "archive_manifest_header_mismatch")
  ensure ((field manifest "source_alembic_head").val.eq (.str sourceHead))
    (.archive "archive_manifest_header_mismatch")
  ensure (isEventCount (field manifest "event_count").val) (.archive "archive_manifest_rollup_invalid")
  validateCountMapping (field manifest "event_type_counts")
  validateCountMapping (field manifest "retention_class_counts")
  return (cutoffAt, sourceHead)

/-- `manifest[key] != expected_value`, for each of the rollups -/
def verifyRollup (manifest : Dict) : List (Str × Value) → Except Failure Unit
  | [] => .ok ()
  | (key, expected) :: rest =>
    if (field manifest key).val.eq expected.val then verifyRollup manifest rest
    else .error (.archive "archive_manifest_rollup_mismatch")

/-- What is verified of the decoded records: the cutoff, the source head, the
events, whether there are more, and the digest of the lines. -/
def verifyRecords (L : Stdlib) (rawLines : List Bytes) (header : Dict) (eventValues : List Dict)
    (manifest : Dict) :
    Except Failure (Instant × Str × List AuditEventReadFacts × Bool × Str) := do
  let (cutoffAt, sourceHead) ← verifyEnds L header manifest
  ensure (eventValues.length ≤ archiveEventLimit) (.archive "archive_event_limit_exceeded")
  let events ← eventValues.mapM (parseEvent L)
  checkEvents cutoffAt none [] [] events
  let contentSha256 ← validateDigest (field manifest "content_sha256").val "archive_content_digest_invalid"
  ensure (contentDigest L rawLines.dropLast = contentSha256) (.archive "archive_content_digest_mismatch")
  verifyRollup manifest (rollup L events)
  let hasMoreEligible ← (match (field manifest "has_more_eligible").val with
    | .bool b => .ok b
    | _ => .error (.archive "archive_has_more_invalid"))
  return (cutoffAt, sourceHead, events, hasMoreEligible, contentSha256)

/-- The digest the caller expects of the file, if any. -/
def checkExpected (archiveSha256 : Str) (expectedSha256 : Json) : Except Failure Unit :=
  match expectedSha256 with
  | .null => .ok ()
  | value => do
    let expected ← validateDigest value "archive_expected_digest_invalid"
    ensure (archiveSha256 = expected) (.archive "archive_digest_mismatch")

/-- `verify_archive` -/
def verifyArchive (L : Stdlib) (file : ArchiveFile) (expectedSha256 : Json) :
    Except Failure VerifiedAuditArchive := do
  let data ← readOwnedPrivateFile file
  let archiveSha256 := hexdigest (L.sha256 data)
  checkExpected archiveSha256 expectedSha256
  let rawLines ← splitLines data
  let values ← rawLines.mapM (decodeLine L)
  let (cutoffAt, sourceAlembicHead, events, hasMoreEligible, contentSha256) ←
    verifyRecords L rawLines (values.headD .empty) (values.tail.dropLast) (values.getLastD .empty)
  return {
    cutoffAt, sourceAlembicHead, events, hasMoreEligible, contentSha256, archiveSha256 }

end Archive

end LLMBenchLab
