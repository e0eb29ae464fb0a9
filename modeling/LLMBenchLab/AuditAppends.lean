import LLMBenchLab.AuditEvents

/-!
# Appending audit events

`append_audit_event` against the table `audit_events`. The statement does
nothing if the event key is taken; the row under the key is then read back and
compared with the facts of the call, its timestamps apart. An exception undoes
what the transaction of the caller has done.
-/

namespace LLMBenchLab

open Python
open Text (Str CodePoint)

namespace Audit

open ProviderMetadata

/-! ## The call -/

/-- `str(uuid4())` -/
structure Uuid where
  text : Str
  length : text.length = 36
  chars : ∀ c ∈ text, isLowerHex c = true ∨ c.val = 0x2d

/-- The keyword arguments of `append_audit_event`. -/
structure AppendCall where
  eventKey : Json
  eventType : Str
  occurredAt : DateTime
  payload : Option (List (Str × Arg))
  retentionClass : AuditRetentionClass
  correlationId : Json
  runId : Json
  modelId : Json
  questionId : Json
  workerId : Json
  reservationId : Json
  attempt : Json
  providerAttempt : Json
  leaseToken : Json
  durationMs : Json

/-- The dictionary `values`; a duration that is an integer is converted by the column. -/
structure AppendValues where
  id : Str
  eventKey : Str
  eventType : Str
  payloadHash : Str
  payload : Dict
  retentionClass : AuditRetentionClass
  occurredAt : DateTime
  expiresAt : DateTime
  correlationId : Option Str
  runId : Option Str
  modelId : Option Str
  questionId : Option Str
  workerId : Option Str
  reservationId : Option Str
  attempt : Option ℤ
  providerAttempt : Option ℤ
  leaseToken : Option ℤ
  durationMs : Json
  duration : Option Double

def AppendCall.retention (call : AppendCall) : ℤ :=
  days (if call.retentionClass = .security then 365 else 90)

def required (name : String) : Option Str → Except AuditError Str
  | some s => .ok s
  | none => .error (.valueError (name ++ " is required"))

/-- `append_audit_event`, up to the statement -/
def prepareAppend (L : Stdlib) (uuid : Uuid) (call : AppendCall) :
    Except AuditError AppendValues := do
  let key ← safeIdentity "event_key" call.eventKey 255
  let eventKey ← required "event_key" key
  ensure (livePayloadContract.eventFields.lookup call.eventType ≠ none)
    (.valueError "unsupported audit event type")
  let payload ← normalizePayload L livePayloadContract call.eventType (call.payload.getD [])
  let canonical ← (canonicalPayload L payload).elim (.error .jsonError) .ok
  let attempt ← counter "attempt must be non-negative" 0 int32Max call.attempt
  let providerAttempt ← counter "provider_attempt must be positive" 1 int32Max call.providerAttempt
  let leaseToken ← counter "lease_token must be non-negative" 0 int64Max call.leaseToken
  let duration ← durationValue L call.durationMs
  ensure (call.occurredAt.utcoffset = some 0) (.valueError "occurred_at must be a UTC timestamp")
  let expiresAt ← (call.occurredAt.add call.retention).elim (.error .overflowError) .ok
  let correlationId ← safeIdentity "correlation_id" call.correlationId 128
  let runId ← safeIdentity "run_id" call.runId 36
  let modelId ← safeIdentity "model_id" call.modelId 36
  let questionId ← safeIdentity "question_id" call.questionId 36
  let workerId ← safeIdentity "worker_id" call.workerId 128
  let reservationId ← safeIdentity "reservation_id" call.reservationId 36
  return {
    id := uuid.text, eventKey, eventType := call.eventType, payloadHash := canonical.2, payload,
    retentionClass := call.retentionClass, occurredAt := call.occurredAt, expiresAt,
    correlationId, runId, modelId, questionId, workerId, reservationId, attempt, providerAttempt,
    leaseToken, durationMs := call.durationMs, duration }

/-! ## The table -/

/-- The table, and the reservations its foreign key may name. -/
structure AuditStore where
  events : List AuditEvent
  reservations : List Str

/-- The row of an insert; `UTCDateTime` stores the instants. -/
def AppendValues.row (values : AppendValues) : Except AuditError AuditEvent := do
  let occurredAt ← values.occurredAt.toUtc.elim (.error .overflowError) .ok
  let expiresAt ← values.expiresAt.toUtc.elim (.error .overflowError) .ok
  return {
    id := values.id, eventKey := values.eventKey, eventType := values.eventType,
    payloadHash := values.payloadHash, payload := values.payload.toValue,
    retentionClass := values.retentionClass, occurredAt, expiresAt,
    correlationId := values.correlationId, runId := values.runId, modelId := values.modelId,
    questionId := values.questionId, workerId := values.workerId,
    reservationId := values.reservationId, attempt := values.attempt,
    providerAttempt := values.providerAttempt, leaseToken := values.leaseToken,
    durationMs := values.duration }

/-- The check constraints of `audit_events`. -/
def AuditEvent.checks (row : AuditEvent) : Bool :=
  row.payloadHash.length == 64 && row.attempt.all (0 ≤ ·) && row.providerAttempt.all (1 ≤ ·) &&
    row.leaseToken.all (0 ≤ ·) && row.durationMs.all (!·.isNegative) &&
    decide (row.occurredAt < row.expiresAt)

/-- `INSERT INTO audit_events` -/
def AuditStore.insert (store : AuditStore) (row : AuditEvent) : Except AuditError AuditStore :=
  if row.checks ∧ (∀ other ∈ store.events, other.id ≠ row.id ∧ other.eventKey ≠ row.eventKey) ∧
      (∀ r ∈ row.reservationId, r ∈ store.reservations) then
    .ok { store with events := store.events ++ [row] }
  else .error .databaseError

/-- `SELECT .. WHERE event_key = key` -/
def AuditStore.byKey (store : AuditStore) (key : Str) : Option AuditEvent :=
  store.events.find? (·.eventKey == key)

/-- `_event_matches` -/
def eventMatches (event : AuditEvent) (values : AppendValues) : Bool :=
  event.eventType == values.eventType && event.payloadHash == values.payloadHash &&
    event.payload.val.eq values.payload.toValue.val &&
    event.retentionClass == values.retentionClass &&
    event.correlationId == values.correlationId && event.runId == values.runId &&
    event.modelId == values.modelId && event.questionId == values.questionId &&
    event.workerId == values.workerId && event.reservationId == values.reservationId &&
    event.attempt == values.attempt && event.providerAttempt == values.providerAttempt &&
    event.leaseToken == values.leaseToken && (Json.ofFloat event.durationMs).eq values.durationMs

inductive Dialect where
  | postgresql
  | sqlite
  | other

def conflict : AuditError := .integrityError "audit event key conflicts with a different fact"

/-- `values.row` is inserted. -/
def AppendValues.insert (values : AppendValues) (store : AuditStore) :
    Except AuditError (AuditStore × Option AuditEvent) := do
  let row ← values.row
  let store ← store.insert row
  return (store, none)

/-- The statement of a call, and what was found if none is needed. A statement
that does nothing on a conflict has converted and checked its values. -/
def runStatement (dialect : Dialect) (store : AuditStore) (values : AppendValues) :
    Except AuditError (AuditStore × Option AuditEvent) :=
  match dialect, store.byKey values.eventKey with
  | .other, some existing =>
    if eventMatches existing values then .ok (store, some existing) else .error conflict
  | _, some _ => do
    let row ← values.row
    if row.checks then .ok (store, none) else .error .databaseError
  | _, none => values.insert store

/-- `append_audit_event` -/
def appendAuditEvent (L : Stdlib) (dialect : Dialect) (uuid : Uuid) (call : AppendCall)
    (store : AuditStore) : Except AuditError (AuditStore × AuditEvent) := do
  let values ← prepareAppend L uuid call
  let (store, existing) ← runStatement dialect store values
  match existing with
  | some event => return (store, event)
  | none =>
    match store.byKey values.eventKey with
    | none => throw (.integrityError "audit event could not be read after append")
    | some event => if eventMatches event values then return (store, event) else throw conflict

/-! ## What is prepared -/

section Prepare

variable {L : Stdlib} {uuid : Uuid} {call : AppendCall} {values : AppendValues}

/-- Not ahead of UTC when the event expires. -/
def AppendCall.KeepsUtc (call : AppendCall) : Prop :=
  ∀ t, call.occurredAt.add call.retention = some t → ∀ o ∈ t.utcoffset, o ≤ 0

/-- What the checks of a call have established. -/
structure Prepared (L : Stdlib) (uuid : Uuid) (call : AppendCall) (values : AppendValues) : Prop where
  id : values.id = uuid.text
  eventKey : call.eventKey = .str values.eventKey ∧ SafeIdentity 255 values.eventKey
  eventType : values.eventType = call.eventType
  payload : normalizePayload L livePayloadContract call.eventType (call.payload.getD []) =
    .ok values.payload
  payloadHash : PayloadHash L values.payload values.payloadHash
  retentionClass : values.retentionClass = call.retentionClass
  occurredAt : values.occurredAt = call.occurredAt
  utc : call.occurredAt.utcoffset = some 0
  expiresAt : call.occurredAt.add call.retention = some values.expiresAt
  attempt : call.attempt = Json.ofInt values.attempt ∧ ∀ n ∈ values.attempt, 0 ≤ n ∧ n ≤ int32Max
  providerAttempt : call.providerAttempt = Json.ofInt values.providerAttempt ∧
    ∀ n ∈ values.providerAttempt, 1 ≤ n ∧ n ≤ int32Max
  leaseToken : call.leaseToken = Json.ofInt values.leaseToken ∧
    ∀ n ∈ values.leaseToken, 0 ≤ n ∧ n ≤ int64Max
  durationMs : values.durationMs = call.durationMs
  duration : durationValue L call.durationMs = .ok values.duration
  correlationId : call.correlationId = Json.ofStr values.correlationId ∧
    ∀ s ∈ values.correlationId, SafeIdentity 128 s
  runId : call.runId = Json.ofStr values.runId ∧ ∀ s ∈ values.runId, SafeIdentity 36 s
  modelId : call.modelId = Json.ofStr values.modelId ∧ ∀ s ∈ values.modelId, SafeIdentity 36 s
  questionId : call.questionId = Json.ofStr values.questionId ∧
    ∀ s ∈ values.questionId, SafeIdentity 36 s
  workerId : call.workerId = Json.ofStr values.workerId ∧ ∀ s ∈ values.workerId, SafeIdentity 128 s
  reservationId : call.reservationId = Json.ofStr values.reservationId ∧
    ∀ s ∈ values.reservationId, SafeIdentity 36 s

theorem required_eq_ok {name : String} {o : Option Str} {s : Str} :
    required name o = .ok s ↔ o = some s := by
  cases o with
  | none => exact ⟨(nomatch ·), (nomatch ·)⟩
  | some t => exact ⟨fun h => congrArg some (Except.ok.inj h), fun h => congrArg Except.ok (Option.some.inj h)⟩

theorem prepared_of_eq_ok (h : prepareAppend L uuid call = .ok values) :
    Prepared L uuid call values := by
  obtain ⟨key, hkey, h⟩ := bind_eq_ok.mp h
  obtain ⟨eventKey, hrequired, h⟩ := bind_eq_ok.mp h
  obtain ⟨_, htype, h⟩ := bind_eq_ok.mp h
  obtain ⟨payload, hpayload, h⟩ := bind_eq_ok.mp h
  obtain ⟨canonical, hcanonical, h⟩ := bind_eq_ok.mp h
  obtain ⟨attempt, hattempt, h⟩ := bind_eq_ok.mp h
  obtain ⟨providerAttempt, hprovider, h⟩ := bind_eq_ok.mp h
  obtain ⟨leaseToken, hlease, h⟩ := bind_eq_ok.mp h
  obtain ⟨duration, hduration, h⟩ := bind_eq_ok.mp h
  obtain ⟨_, hutc, h⟩ := bind_eq_ok.mp h
  obtain ⟨expiresAt, hexpires, h⟩ := bind_eq_ok.mp h
  obtain ⟨correlationId, hcorrelation, h⟩ := bind_eq_ok.mp h
  obtain ⟨runId, hrun, h⟩ := bind_eq_ok.mp h
  obtain ⟨modelId, hmodel, h⟩ := bind_eq_ok.mp h
  obtain ⟨questionId, hquestion, h⟩ := bind_eq_ok.mp h
  obtain ⟨workerId, hworker, h⟩ := bind_eq_ok.mp h
  obtain ⟨reservationId, hreservation, h⟩ := bind_eq_ok.mp h
  cases h
  rw [safeIdentity_eq_ok, required_eq_ok.mp hrequired] at hkey
  rw [elim_eq_ok] at hcanonical hexpires
  rw [ensure_eq_ok] at hutc
  rw [safeIdentity_eq_ok] at hcorrelation hrun hmodel hquestion hworker hreservation
  rw [counter_eq_ok] at hattempt hprovider hlease
  obtain ⟨t, ht, hcanonical⟩ := Option.map_eq_some_iff.mp hcanonical
  exact ⟨rfl, ⟨hkey.1, hkey.2 eventKey rfl⟩, rfl, hpayload,
    ⟨t, ht, congrArg Prod.snd hcanonical.symm⟩, rfl, rfl, hutc, hexpires, hattempt, hprovider,
    hlease, rfl, hduration, hcorrelation, hrun, hmodel, hquestion, hworker, hreservation⟩

/-! ## Identifiers -/

def IdChar (c : CodePoint) : Prop := isLowerHex c = true ∨ c.val = 0x2d

theorem idChar_val {c : CodePoint} (h : IdChar c) :
    (0x30 ≤ c.val ∧ c.val ≤ 0x39) ∨ (0x61 ≤ c.val ∧ c.val ≤ 0x66) ∨ c.val = 0x2d := by
  rcases h with h | h
  · simp only [isLowerHex, Bool.or_eq_true, Bool.and_eq_true, decide_eq_true_eq] at h
    omega
  · exact .inr (.inr h)

theorem lower_ne_of_idChar {c : CodePoint} (hc : 0x66 < c.val ∨ c.val = 0x5f) :
    ∀ d, IdChar d → Decimal.lower d ≠ c := by
  rintro d hd rfl
  have := idChar_val hd
  rw [Decimal.lower, if_neg (by omega)] at hc
  omega

open Pattern in
/-- No known kind of secret is written with hexadecimal digits and dashes. -/
theorem dead_commonSecretPattern : Dead IdChar commonSecretPattern := by
  have hlit : ∀ {w : Str} (ch : Char), Text.ofChar ch ∈ w → 0x66 < (Text.ofChar ch).val →
      Dead IdChar (lit w) :=
    fun ch hmem hval => dead_lit hmem (lower_ne_of_idChar (.inl hval))
  have hbounded : ∀ {p : Pattern}, Dead IdChar p → Dead IdChar (seq boundary (seq p boundary)) :=
    fun hp => keeps_boundary.seq_dead (hp.seq boundary)
  refine dead_alt fun p hp => ?_
  simp only [List.mem_cons, List.not_mem_nil, or_false] at hp
  rcases hp with rfl | rfl | rfl | rfl
  · exact hbounded ((((keeps_lit _).seq (keeps_oneOf _).opt).opt).seq_dead
      (hlit 'u' (by decide) (by decide)))
  · exact hbounded (hlit 'r' (by decide) (by decide))
  · refine hbounded (dead_alt fun p hp => ?_)
    simp only [List.mem_cons, List.not_mem_nil, or_false] at hp
    rcases hp with rfl | rfl | rfl | rfl | rfl
    · exact (hlit 'p' (by decide) (by decide)).seq _
    · exact (hlit 's' (by decide) (by decide)).seq _
    · exact (hlit 'r' (by decide) (by decide)).seq _
    · exact (hlit 'l' (by decide) (by decide)).seq _
    · exact hlit 'o' (by decide) (by decide)
  · refine hbounded (dead_alt fun p hp => ?_)
    simp only [List.mem_cons, List.not_mem_nil, or_false] at hp
    rcases hp with rfl | rfl | rfl
    · exact (hlit 's' (by decide) (by decide)).seq _
    · exact (hlit 'g' (by decide) (by decide)).seq _
    · exact (hlit 'i' (by decide) (by decide)).seq _

theorem safeIdentity_uuid (uuid : Uuid) : SafeIdentity 36 uuid.text := by
  have hlen := uuid.length
  have hsafe : ∀ c ∈ uuid.text, isSafeChar c = true := by
    intro c hc
    have := idChar_val (uuid.chars c hc)
    simp only [isSafeChar, isTokenChar, Pattern.isAlnum, Pattern.isWord, Bool.or_eq_true,
      Bool.and_eq_true, decide_eq_true_eq, beq_iff_eq, bne_iff_ne, List.contains_eq_mem,
      List.mem_cons, List.not_mem_nil, or_false]
    omega
  have hmeta : ∀ c ∈ uuid.text, isMetadataChar c = true := by
    intro c hc
    have := idChar_val (uuid.chars c hc)
    simp only [isMetadataChar, isTokenChar, Pattern.isAlnum, Pattern.isWord, Bool.or_eq_true,
      Bool.and_eq_true, decide_eq_true_eq, beq_iff_eq, bne_iff_ne, List.contains_eq_mem,
      List.mem_cons, List.not_mem_nil, or_false]
    omega
  have hsecret := Pattern.search_of_dead dead_commonSecretPattern uuid.chars
  refine ⟨fun h => ?_, hlen.le, ?_, fun h => ?_, ?_⟩
  · rw [h] at hlen
    cases hlen
  · simp only [safeToken, Bool.and_eq_true, decide_eq_true_eq]
    exact ⟨by omega, List.all_eq_true.mpr hsafe⟩
  · have := idChar_val (uuid.chars (Text.ofChar ':') (h.subset (by decide)))
    revert this
    decide
  · rw [normalizeProviderMetadata, if_neg]
    · rfl
    · rw [hsecret, List.all_eq_true.mpr hmeta, hlen]
      decide

/-! ## What is stored -/

/-- The row passes the reader and the archive. -/
def Readable (L : Stdlib) (row : AuditEvent) : Prop :=
  (∃ f, validateAuditEventForRead L row = .ok f) ∧
    ∃ f, validateAuditArchiveV1EventValuesForRead L row.raw = .ok f

/-- Both check a row against the same contract. -/
theorem readable_iff {row : AuditEvent} :
    Readable L row ↔
      ∃ f, row.raw.Describes L f ∧ f.Valid L archiveV1PayloadContract archiveV1RetentionDays := by
  have hcheck : ∀ f, validateAuditArchiveV1EventValuesForRead L row.raw = .ok f ↔
      row.raw.Describes L f ∧ f.Valid L archiveV1PayloadContract archiveV1RetentionDays := by
    intro f
    rw [← checkEvent_eq_some plain_archiveV1PayloadContract,
      validateAuditArchiveV1EventValuesForRead, validateAuditEventValuesForRead]
    cases checkEvent L archiveV1PayloadContract archiveV1RetentionDays row.raw with
    | none => exact ⟨(nomatch ·), (nomatch ·)⟩
    | some g => exact ⟨fun h => congrArg some (Except.ok.inj h), fun h => congrArg Except.ok (Option.some.inj h)⟩
  constructor
  · rintro ⟨-, f, hf⟩
    exact ⟨f, (hcheck f).mp hf⟩
  · rintro ⟨f, hf⟩
    exact ⟨⟨f, (hcheck f).mpr hf⟩, f, (hcheck f).mpr hf⟩

/-- The facts a row holds, but for the check of its interval. -/
def AuditEvent.facts (row : AuditEvent) (payload : Dict) : AuditEventReadFacts where
  id := row.id
  eventKey := row.eventKey
  eventType := row.eventType
  payloadHash := row.payloadHash
  payload := payload
  retentionClass := row.retentionClass
  occurredAt := row.occurredAt
  expiresAt := row.expiresAt
  correlationId := row.correlationId
  runId := row.runId
  modelId := row.modelId
  questionId := row.questionId
  workerId := row.workerId
  reservationId := row.reservationId
  attempt := row.attempt
  providerAttempt := row.providerAttempt
  leaseToken := row.leaseToken
  durationMs := row.durationMs.map unsignedZero

theorem AuditEvent.eq_facts {row : AuditEvent} {f : AuditEventReadFacts}
    (h : row.raw.Describes L f) : f.occurredAt = row.occurredAt ∧ f.expiresAt = row.expiresAt ∧
      f.retentionClass = row.retentionClass :=
  ⟨Option.some.inj (h.occurredAt.symm.trans (Instant.toUtc_toDateTime _)),
    Option.some.inj (h.expiresAt.symm.trans (Instant.toUtc_toDateTime _)), h.retentionClass.symm⟩

/-- The instants of the row. -/
structure IsRow (values : AppendValues) (row : AuditEvent) : Prop where
  occurredAt : values.occurredAt.toUtc = some row.occurredAt
  expiresAt : values.expiresAt.toUtc = some row.expiresAt
  rest : row = {
    id := values.id, eventKey := values.eventKey, eventType := values.eventType,
    payloadHash := values.payloadHash, payload := values.payload.toValue,
    retentionClass := values.retentionClass, occurredAt := row.occurredAt,
    expiresAt := row.expiresAt, correlationId := values.correlationId, runId := values.runId,
    modelId := values.modelId, questionId := values.questionId, workerId := values.workerId,
    reservationId := values.reservationId, attempt := values.attempt,
    providerAttempt := values.providerAttempt, leaseToken := values.leaseToken,
    durationMs := values.duration }

theorem isRow_of_eq_ok {row : AuditEvent} (h : values.row = .ok row) : IsRow values row := by
  obtain ⟨occurredAt, ho, h⟩ := bind_eq_ok.mp h
  obtain ⟨expiresAt, he, h⟩ := bind_eq_ok.mp h
  cases h
  exact ⟨elim_eq_ok.mp ho, elim_eq_ok.mp he, rfl⟩

theorem durationForRead_stored {value : Json} {o : Option Double} (h : durationValue L value = .ok o) :
    durationForRead L (Json.ofFloat o) = some (o.map unsignedZero) := by
  cases o with
  | none => rfl
  | some x =>
    obtain ⟨hfin, hneg⟩ := durationValue_eq_ok h x rfl
    have hcond : (x.isFinite && !x.isNegative) = true := by rw [hfin, hneg]; rfl
    have hvalue : durationValue L (.float x) = .ok (some x) := if_pos hcond
    exact congrArg (fun e => (Except.toOption e).map (Option.map unsignedZero)) hvalue

theorem days_retention (call : AppendCall) :
    days (archiveV1RetentionDays call.retentionClass) = call.retention := by
  rw [AppendCall.retention]
  cases call.retentionClass <;> rfl

/-- Between the instants of the row lies the retention of the call, less the
offset of its zone when it ends. -/
theorem IsRow.interval {row : AuditEvent} (hp : Prepared L uuid call values) (hr : IsRow values row) :
    row.expiresAt.val - row.occurredAt.val =
      call.retention - values.expiresAt.utcoffset.getD 0 := by
  have ho := instant?_eq_some.mp hr.occurredAt
  have he := instant?_eq_some.mp hr.expiresAt
  rw [hp.occurredAt, hp.utc, Option.getD_some] at ho
  have hadd := hp.expiresAt
  rw [DateTime.add] at hadd
  split_ifs at hadd
  have hwall := congrArg DateTime.wall (Option.some.inj hadd)
  simp only at hwall
  omega

/-- A stored row is readable exactly if the zone of the call is not ahead of UTC
when the event expires. -/
theorem IsRow.readable_iff {row : AuditEvent} (hp : Prepared L uuid call values)
    (hr : IsRow values row) : Readable L row ↔ call.KeepsUtc := by
  have hinterval := hr.interval hp
  have hkeeps : call.KeepsUtc ↔ values.expiresAt.utcoffset.getD 0 ≤ 0 := by
    constructor
    · intro h
      have := h _ hp.expiresAt
      cases ho : values.expiresAt.utcoffset with
      | none => exact le_refl 0
      | some o => exact this o ho
    · intro h t ht o ho
      obtain rfl := Option.some.inj (hp.expiresAt.symm.trans ht)
      rwa [ho] at h
  rw [Audit.readable_iff, hkeeps]
  constructor
  · rintro ⟨f, hd, hv⟩
    obtain ⟨ho, he, hclass⟩ := AuditEvent.eq_facts hd
    have hret := hv.retention
    have hclass' : row.retentionClass = call.retentionClass := by
      rw [hr.rest]
      exact hp.retentionClass
    rw [ho, he, hclass, hclass', days_retention, hinterval] at hret
    omega
  · intro h
    refine ⟨row.facts values.payload, ?_, ?_⟩
    · rw [hr.rest]
      exact ⟨rfl, rfl, rfl, rfl, rfl, rfl, Instant.toUtc_toDateTime _, Instant.toUtc_toDateTime _,
        rfl, rfl, rfl, durationForRead_stored hp.duration, rfl, rfl, rfl, rfl, rfl, rfl⟩
    · have hnormal := normalPayload_of_eq_ok hp.payload
      have hid : SafeIdentity 36 values.id := hp.id ▸ safeIdentity_uuid uuid
      have hduration : ∀ x ∈ values.duration.map unsignedZero, Duration x :=
        durationForRead_eq_some (durationForRead_stored hp.duration)
      have hret : days (archiveV1RetentionDays values.retentionClass) ≤
          row.expiresAt.val - row.occurredAt.val := by
        rw [hp.retentionClass, days_retention, hinterval]
        omega
      rw [← hp.eventType] at hnormal
      rw [hr.rest]
      exact ⟨hnormal, hp.payloadHash, hid, hp.eventKey.2, hret, hp.attempt.2, hp.providerAttempt.2,
        hp.leaseToken.2, hduration, hp.correlationId.2, hp.runId.2, hp.modelId.2, hp.questionId.2,
        hp.workerId.2, hp.reservationId.2⟩

/-! ## What an append does -/

variable {dialect : Dialect} {store store' : AuditStore} {row : AuditEvent}

/-- The row holds the facts of the call, its timestamps apart. -/
structure SameFacts (L : Stdlib) (row : AuditEvent) (call : AppendCall) : Prop where
  eventType : row.eventType = call.eventType
  payload : ∃ d, normalizePayload L livePayloadContract call.eventType (call.payload.getD []) = .ok d ∧
    PayloadHash L d row.payloadHash ∧ row.payload.val.eq d.toValue.val = true
  retentionClass : row.retentionClass = call.retentionClass
  correlationId : call.correlationId = Json.ofStr row.correlationId
  runId : call.runId = Json.ofStr row.runId
  modelId : call.modelId = Json.ofStr row.modelId
  questionId : call.questionId = Json.ofStr row.questionId
  workerId : call.workerId = Json.ofStr row.workerId
  reservationId : call.reservationId = Json.ofStr row.reservationId
  attempt : call.attempt = Json.ofInt row.attempt
  providerAttempt : call.providerAttempt = Json.ofInt row.providerAttempt
  leaseToken : call.leaseToken = Json.ofInt row.leaseToken
  durationMs : (Json.ofFloat row.durationMs).eq call.durationMs = true

theorem sameFacts_of_matches (hp : Prepared L uuid call values)
    (h : eventMatches row values = true) : SameFacts L row call := by
  simp only [eventMatches, Bool.and_eq_true, beq_iff_eq] at h
  obtain ⟨⟨⟨⟨⟨⟨⟨⟨⟨⟨⟨⟨⟨htype, hhash⟩, hpayload⟩, hclass⟩, hcorrelation⟩, hrun⟩, hmodel⟩, hquestion⟩,
    hworker⟩, hreservation⟩, hattempt⟩, hprovider⟩, hlease⟩, hduration⟩ := h
  exact {
    eventType := htype.trans hp.eventType
    payload := ⟨values.payload, hp.payload, hhash ▸ hp.payloadHash, hpayload⟩
    retentionClass := hclass.trans hp.retentionClass
    correlationId := hcorrelation ▸ hp.correlationId.1
    runId := hrun ▸ hp.runId.1
    modelId := hmodel ▸ hp.modelId.1
    questionId := hquestion ▸ hp.questionId.1
    workerId := hworker ▸ hp.workerId.1
    reservationId := hreservation ▸ hp.reservationId.1
    attempt := hattempt ▸ hp.attempt.1
    providerAttempt := hprovider ▸ hp.providerAttempt.1
    leaseToken := hlease ▸ hp.leaseToken.1
    durationMs := hp.durationMs ▸ hduration }

/-- A statement finds the key in the table, or adds the row. -/
theorem runStatement_cases {found : Option AuditEvent}
    (h : runStatement dialect store values = .ok (store', found)) :
    (store' = store ∧ store.byKey values.eventKey ≠ none ∧
        ∀ event ∈ found, store.byKey values.eventKey = some event ∧ eventMatches event values = true) ∨
      (store.byKey values.eventKey = none ∧ found = none ∧
        ∃ row, values.row = .ok row ∧ store' = { store with events := store.events ++ [row] }) := by
  have hinsert : ∀ {found}, values.insert store = .ok (store', found) →
      found = none ∧ ∃ row, values.row = .ok row ∧
        store' = { store with events := store.events ++ [row] } := by
    intro found h
    obtain ⟨row, hrow, h⟩ := bind_eq_ok.mp h
    obtain ⟨store₁, hstore, h⟩ := bind_eq_ok.mp h
    cases h
    rw [AuditStore.insert] at hstore
    split_ifs at hstore
    cases hstore
    exact ⟨rfl, row, hrow, rfl⟩
  rw [runStatement.eq_def] at h
  split at h
  · next existing hkey =>
    split_ifs at h with hmatch
    cases h
    refine .inl ⟨rfl, by rw [hkey]; exact Option.some_ne_none _, fun event hevent => ?_⟩
    cases hevent
    exact ⟨hkey, hmatch⟩
  · next existing _ hkey =>
    obtain ⟨row, -, h⟩ := bind_eq_ok.mp h
    split_ifs at h
    cases h
    exact .inl ⟨rfl, by rw [hkey]; exact Option.some_ne_none _, fun event hevent => nomatch hevent⟩
  · next hkey => exact .inr ⟨hkey, hinsert h⟩

theorem byKey_eq_some {key : Str} (h : store.byKey key = some row) :
    row ∈ store.events ∧ row.eventKey = key :=
  ⟨List.mem_of_find?_eq_some h, by simpa using List.find?_some h⟩

/-- An append that returns leaves the table as it is and returns the row under
the key, or adds the row it returns. -/
theorem append_cases (h : appendAuditEvent L dialect uuid call store = .ok (store', row)) :
    ∃ values, Prepared L uuid call values ∧ row.eventKey = values.eventKey ∧ SameFacts L row call ∧
      ((store' = store ∧ row ∈ store.events) ∨
        (store.byKey values.eventKey = none ∧ IsRow values row ∧
          store' = { store with events := store.events ++ [row] })) := by
  obtain ⟨values, hvalues, h⟩ := bind_eq_ok.mp h
  obtain ⟨⟨store₁, found⟩, hrun, h⟩ := bind_eq_ok.mp h
  have hp := prepared_of_eq_ok hvalues
  cases found with
  | some event =>
    cases h
    rcases runStatement_cases hrun with ⟨rfl, -, hfound⟩ | ⟨-, hnone, -⟩
    · obtain ⟨hkey, hmatch⟩ := hfound row rfl
      obtain ⟨hmem, heq⟩ := byKey_eq_some hkey
      exact ⟨values, hp, heq, sameFacts_of_matches hp hmatch, .inl ⟨rfl, hmem⟩⟩
    · cases hnone
  | none =>
    simp only at h
    split at h
    · cases h
    next event hevent =>
    split_ifs at h with hmatch
    cases h
    have heq := (byKey_eq_some hevent).2
    refine ⟨values, hp, heq, sameFacts_of_matches hp hmatch, ?_⟩
    rcases runStatement_cases hrun with ⟨rfl, -, -⟩ | ⟨hkey, -, added, hadded, rfl⟩
    · exact .inl ⟨rfl, (byKey_eq_some hevent).1⟩
    · have hfind : (store.events ++ [added]).find? (·.eventKey == values.eventKey) = some row := hevent
      rw [List.find?_append, show store.events.find? (·.eventKey == values.eventKey) = none from hkey,
        Option.none_or] at hfind
      obtain rfl := List.mem_singleton.mp (List.mem_of_find?_eq_some hfind)
      exact .inr ⟨hkey, isRow_of_eq_ok hadded, rfl⟩

/-- The tables that appends alone have made, each call with the property; other
transactions add and remove reservations. -/
inductive Appended (L : Stdlib) (P : AppendCall → Prop) : AuditStore → Prop
  | empty (reservations : List Str) : Appended L P ⟨[], reservations⟩
  | append {store store' : AuditStore} {dialect : Dialect} {uuid : Uuid} {call : AppendCall}
      {row : AuditEvent} : Appended L P store → P call →
      appendAuditEvent L dialect uuid call store = .ok (store', row) → Appended L P store'
  | other {store : AuditStore} (reservations : List Str) : Appended L P store →
      Appended L P { store with reservations }

theorem Appended.readable (h : Appended L AppendCall.KeepsUtc store) :
    ∀ row ∈ store.events, Readable L row := by
  induction h with
  | empty => exact fun row hrow => nomatch hrow
  | other reservations _ ih => exact ih
  | append _ hcall hrun ih =>
    obtain ⟨values, hp, -, -, ⟨rfl, -⟩ | ⟨-, hrow, rfl⟩⟩ := append_cases hrun
    · exact ih
    · intro other hother
      rcases List.mem_append.mp hother with hother | hother
      · exact ih other hother
      · rw [List.mem_singleton.mp hother]
        exact (hrow.readable_iff hp).mpr hcall

end Prepare

/-- Every stored row is readable, as long as no call is made in a zone that is
ahead of UTC when the event expires; a call that does this stores a row that is
not. A key that is taken leaves the table as it is, whatever the call. -/
theorem append_readable (L : Stdlib) :
    (∀ dialect uuid call store store' row,
      (∀ other ∈ store.events, call.eventKey ≠ .str other.eventKey) →
      appendAuditEvent L dialect uuid call store = .ok (store', row) →
        row ∈ store'.events ∧ (Readable L row ↔ call.KeepsUtc)) ∧
    (∀ store, Appended L AppendCall.KeepsUtc store →
      (∀ row ∈ store.events, Readable L row) ∧
      ∀ dialect uuid call store' row, call.KeepsUtc →
        appendAuditEvent L dialect uuid call store = .ok (store', row) →
          row ∈ store'.events ∧ Readable L row) ∧
    ∀ dialect uuid call store store' row other, other ∈ store.events →
      call.eventKey = .str other.eventKey →
      appendAuditEvent L dialect uuid call store = .ok (store', row) →
        store' = store ∧ row ∈ store.events ∧ call.eventKey = .str row.eventKey ∧
          SameFacts L row call := by
  refine ⟨fun dialect uuid call store store' row hnew h => ?_, fun store hs => ⟨hs.readable, ?_⟩, ?_⟩
  · obtain ⟨values, hp, hkey, -, ⟨rfl, hmem⟩ | ⟨-, hrow, rfl⟩⟩ := append_cases h
    · exact absurd (hp.eventKey.1.trans (congrArg Json.str hkey.symm)) (hnew row hmem)
    · exact ⟨List.mem_append_right _ List.mem_cons_self, hrow.readable_iff hp⟩
  · intro dialect uuid call store' row hcall h
    have hmem : row ∈ store'.events := by
      obtain ⟨values, -, -, -, ⟨rfl, hmem⟩ | ⟨-, -, rfl⟩⟩ := append_cases h
      · exact hmem
      · exact List.mem_append_right _ List.mem_cons_self
    exact ⟨hmem, (hs.append hcall h).readable row hmem⟩
  · intro dialect uuid call store store' row other hother hkey h
    obtain ⟨values, hp, hrowkey, hsame, hcase⟩ := append_cases h
    have hcallkey : call.eventKey = .str row.eventKey :=
      hp.eventKey.1.trans (congrArg Json.str hrowkey.symm)
    rcases hcase with ⟨rfl, hmem⟩ | ⟨hnone, -, -⟩
    · exact ⟨rfl, hmem, hcallkey, hsame⟩
    · have := List.find?_eq_none.mp hnone other hother
      rw [Json.str.inj (hp.eventKey.1.symm.trans hkey)] at this
      exact absurd (beq_self_eq_true _) this

/-! ### A zone that is ahead of UTC in summer -/

/-- `Europe/London` in 2026: summer time between the last Sundays of March and October. -/
def london : Zone where
  utcoffset wall fold :=
    if 63910342800000000 ≤ wall ∧ wall < 63928490400000000 ∧
        ¬(63928490400000000 - 3600000000 ≤ wall ∧ fold = true) then 3600000000 else 0

namespace Sample

def payload : Json := .object [("dispatch_count", .int 1)]

def payloadText : String := "\x7b\"dispatch_count\":1\x7d"

def tables : Tables where
  json := .ofTable [(payload, payloadText)] (Codec.printable_of_all (by decide +kernel))
    (by decide +kernel)
  digests := [(Py.encodeUtf8 payloadText,
    0x0c8e5f83b25876f082871413887efce6f51996cfdf08dd60e7384784e394a0d8)]
  floats := []
  isos := []
  stamps := []
  floats_texts := .nil
  isos_texts := .nil
  stamps_texts := .nil

def uuidText : Str := "4f0c6a52-9d1e-4b7a-8c33-0a1b2c3d4e5f"

def uuid : Uuid where
  text := uuidText
  length := by decide +kernel
  chars := by
    have h : (uuidText.all fun c => isLowerHex c || c.val == 0x2d) = true := by decide +kernel
    intro c hc
    simpa using List.all_eq_true.mp h c hc

theorem noon_inRange : (0 : ℤ) ≤ 63904075200000000 ∧ (63904075200000000 : ℤ) < maxWall := by
  decide

/-- A run is claimed at noon on 15 January 2026. -/
def claimed (zone : Zone) : AppendCall where
  eventKey := .str "run:r1:claimed:1"
  eventType := "run_claimed"
  occurredAt := ⟨63904075200000000, false, some zone, noon_inRange⟩
  payload := some [("dispatch_count", .json (.int 1))]
  retentionClass := .operational
  correlationId := .null
  runId := .str "r1"
  modelId := .null
  questionId := .null
  workerId := .str "worker-1"
  reservationId := .null
  attempt := .null
  providerAttempt := .null
  leaseToken := .int 1
  durationMs := .null

end Sample

theorem Sample.keepsUtc_claimed : (Sample.claimed .utc).KeepsUtc := by
  intro t ht o ho
  cases ht
  cases ho
  decide

theorem Sample.not_keepsUtc_claimed : ¬ (Sample.claimed london).KeepsUtc := by
  intro h
  have hadd : ∃ t, (Sample.claimed london).occurredAt.add (Sample.claimed london).retention = some t ∧
      t.utcoffset = some 3600000000 := ⟨_, rfl, by decide +kernel⟩
  obtain ⟨t, ht, ho⟩ := hadd
  exact absurd (h t ht _ ho) (by decide)

/-- Claimed in UTC, and claimed once more. -/
theorem append_readable_claimed :
    ∃ store row again,
      appendAuditEvent (.ofTables Sample.tables) .sqlite Sample.uuid (Sample.claimed .utc) ⟨[], []⟩ =
        .ok (store, row) ∧
      Readable (.ofTables Sample.tables) row ∧
      appendAuditEvent (.ofTables Sample.tables) .sqlite Sample.uuid (Sample.claimed .utc) store =
        .ok (store, again) ∧ again ∈ store.events := by
  have hrun : (appendAuditEvent (.ofTables Sample.tables) .sqlite Sample.uuid (Sample.claimed .utc)
      ⟨[], []⟩ >>= fun p => appendAuditEvent (.ofTables Sample.tables) .sqlite Sample.uuid
        (Sample.claimed .utc) p.1).toBool = true := by decide +kernel
  obtain ⟨⟨store', again⟩, hrun⟩ := exists_of_toBool hrun
  obtain ⟨⟨store, row⟩, hfirst, hsecond⟩ := bind_eq_ok.mp hrun
  have hthm := append_readable (.ofTables Sample.tables)
  have hrow := hthm.1 _ _ _ _ _ _ (fun other h => absurd h List.not_mem_nil) hfirst
  obtain ⟨values, hp, hkey, -, -⟩ := append_cases hfirst
  obtain ⟨rfl, hagain, -, -⟩ := hthm.2.2 _ _ _ _ _ _ row hrow.1
    (hp.eventKey.1.trans (congrArg Json.str hkey.symm)) hsecond
  exact ⟨store', row, again, hfirst, hrow.2.mpr Sample.keepsUtc_claimed, hsecond, hagain⟩

/-- Claimed in London in January, the event expires in summer, an hour too early
to be read. -/
theorem append_unreadable_london :
    ¬ ∀ (L : Stdlib) dialect uuid call store store' row,
      appendAuditEvent L dialect uuid call store = .ok (store', row) → Readable L row := by
  intro h
  have hrun : (appendAuditEvent (.ofTables Sample.tables) .sqlite Sample.uuid (Sample.claimed london)
      ⟨[], []⟩).toBool = true := by decide +kernel
  obtain ⟨⟨store, row⟩, hrun⟩ := exists_of_toBool hrun
  obtain ⟨values, hp, -, -, ⟨-, hmem⟩ | ⟨-, hrow, -⟩⟩ := append_cases hrun
  · cases hmem
  · exact Sample.not_keepsUtc_claimed ((hrow.readable_iff hp).mp (h _ _ _ _ _ _ _ hrun))

end Audit

end LLMBenchLab
