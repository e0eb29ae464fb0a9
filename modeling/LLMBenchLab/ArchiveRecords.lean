import LLMBenchLab.AuditArchive

/-!
# The records of an archive

A line is the text of its record and nothing else; a record is the text of its
event, of the header or of the manifest, and of nothing else, but for one field
of the header: its limit is compared with `==`, which a float passes.
-/

namespace LLMBenchLab

namespace Archive

open Python Audit
open Text (Str CodePoint)
open Framing (Bytes)

variable {L : Stdlib}

/-! ## Lines -/

section Lines

variable {record : Dict} {line : Bytes}

theorem canonicalJson_eq_ok : canonicalJson L record = .ok line ↔
    (∃ t, L.dumps record.toValue.val = some t ∧ line = Py.encodeUtf8 t) ∧
      line.length ≤ archiveLineLimitBytes := by
  rw [canonicalJson.eq_def]
  split
  · next hnone => exact ⟨(nomatch ·), fun ⟨⟨t, ht, _⟩, _⟩ => nomatch hnone.symm.trans ht⟩
  · next t ht =>
    split_ifs with hlong
    · refine ⟨(nomatch ·), fun ⟨⟨t', ht', hline⟩, hlen⟩ => ?_⟩
      obtain rfl := Option.some.inj (ht.symm.trans ht')
      rw [hline] at hlen
      omega
    · constructor
      · intro h
        obtain rfl := Except.ok.inj h
        exact ⟨⟨t, ht, rfl⟩, not_lt.mp hlong⟩
      · rintro ⟨⟨t', ht', rfl⟩, -⟩
        rw [Option.some.inj (ht.symm.trans ht')]

/-- A line is not empty and has no newline in it. -/
theorem line_of_canonicalJson (h : canonicalJson L record = .ok line) :
    line ≠ [] ∧ newline ∉ line := by
  obtain ⟨⟨t, ht, rfl⟩, -⟩ := canonicalJson_eq_ok.mp h
  obtain ⟨hne, hchars⟩ := L.dumps_text ht
  refine ⟨fun h => hne (Py.eq_empty_of_encodeUtf8 h), fun hmem => ?_⟩
  obtain ⟨c, hc, hb⟩ := Py.mem_encodeUtf8 (fun c hc => (hchars c hc).2) hmem
  have hlo : ' '.val ≤ c.val := (hchars c hc).1
  have hhi : c.val ≤ '~'.val := (hchars c hc).2
  have hlo : 32 ≤ c.val.toNat := hlo
  have hhi : c.val.toNat ≤ 126 := hhi
  have hval := congrArg UInt8.toNat hb
  rw [UInt32.toNat_toUInt8] at hval
  have : newline.toNat = 10 := rfl
  omega

theorem strictObject_eq_ok {pairs : List (Str × Value)} {d : Dict}
    (hnd : (pairs.map Prod.fst).Nodup) (hnew : ∀ p ∈ pairs, p.1 ∉ d.keys) :
    strictObject d pairs = .ok (pairs.foldl (fun d p => d.set p.1 p.2) d) := by
  induction pairs generalizing d with
  | nil => rfl
  | cons p rest ih =>
    obtain ⟨hp, hnd⟩ := List.nodup_cons.mp hnd
    rw [strictObject, if_neg (hnew p List.mem_cons_self), ih hnd]
    · rfl
    · intro q hq hmem
      rcases mem_keys_setField.mp hmem with heq | hmem
      · exact hp (heq ▸ List.mem_map_of_mem hq)
      · exact hnew q (List.mem_cons_of_mem _ hq) hmem

/-- The hook gives back a dictionary whose fields it is given. -/
theorem strictHooks_keep (d : Dict) : strictHooks.objectPairs d.fields = .ok d := by
  refine (strictObject_eq_ok d.sorted.nodup fun p _ h => absurd h List.not_mem_nil).trans ?_
  exact congrArg Except.ok (Dict.ofList_fields d)

/-- A line is decoded as the record it was made from. -/
theorem decodeLine_of_canonicalJson (hplain : record.toValue.val.Plain 2)
    (h : canonicalJson L record = .ok line) : decodeLine L line = .ok record := by
  have hline := line_of_canonicalJson h
  obtain ⟨⟨t, ht, rfl⟩, hlen⟩ := canonicalJson_eq_ok.mp h
  refine bind_eq_ok.mpr ⟨(), ensure_eq_ok.mpr ⟨hline.1, hlen⟩, ?_⟩
  refine bind_eq_ok.mpr ⟨t, elim_eq_ok.mpr (Py.decodeUtf8_encodeUtf8 t), ?_⟩
  refine bind_eq_ok.mpr ⟨_, L.load_scan_dumps strictHooks_keep hplain ht, ?_⟩
  refine bind_eq_ok.mpr ⟨record, elim_eq_ok.mpr (Value.dict?_toValue record), ?_⟩
  refine bind_eq_ok.mpr ⟨_, h, ?_⟩
  exact bind_eq_ok.mpr ⟨(), ensure_eq_ok.mpr rfl, rfl⟩

/-- A line that is decoded is the line of its record. -/
theorem canonicalJson_of_decodeLine (h : decodeLine L line = .ok record) :
    canonicalJson L record = .ok line := by
  obtain ⟨_, -, h⟩ := bind_eq_ok.mp h
  obtain ⟨_, -, h⟩ := bind_eq_ok.mp h
  obtain ⟨_, -, h⟩ := bind_eq_ok.mp h
  obtain ⟨record', -, h⟩ := bind_eq_ok.mp h
  obtain ⟨encoded, hencoded, h⟩ := bind_eq_ok.mp h
  obtain ⟨_, heq, h⟩ := bind_eq_ok.mp h
  cases h
  rwa [ensure_eq_ok.mp heq] at hencoded

end Lines

/-! ## Fields -/

section Fields

theorem requireExactKeys_eq_ok {record : Dict} {keys : List Str} {code : String} {u : Unit} :
    requireExactKeys record keys code = .ok u ↔ ∀ k, k ∈ record.keys ↔ k ∈ keys := by
  rw [requireExactKeys, ensure_eq_ok]
  exact ⟨fun h k => ⟨h.1 k, h.2 k⟩, fun h => ⟨fun k => (h k).mp, fun k => (h k).mpr⟩⟩

theorem field_ofList {pairs : List (Str × Value)} (hnd : (pairs.map Prod.fst).Nodup) {k : Str}
    {v : Value} (h : (k, v) ∈ pairs) : field (.ofList pairs) k = v := by
  rw [field, Dict.get?_ofList hnd, lookup_of_mem hnd h]
  rfl

/-- A record is known from its keys and fields. -/
theorem eq_ofList {record : Dict} {pairs : List (Str × Value)} (hnd : (pairs.map Prod.fst).Nodup)
    (hkeys : ∀ k, k ∈ record.keys ↔ k ∈ pairs.map Prod.fst)
    (h : ∀ p ∈ pairs, field record p.1 = p.2) : record = .ofList pairs := by
  refine Dict.ext fun k => ?_
  rw [Dict.get?_ofList hnd]
  by_cases hk : k ∈ pairs.map Prod.fst
  · obtain ⟨p, hp, rfl⟩ := List.mem_map.mp hk
    obtain ⟨q, hq, hqk⟩ := List.mem_map.mp ((hkeys p.1).mpr hk)
    have hget : record.get? p.1 = some q.2 := by
      rw [← hqk]
      exact Dict.get?_of_mem hq
    have hfield := h p hp
    rw [field, hget, Option.getD_some] at hfield
    rw [hget, hfield, lookup_of_mem hnd hp]
  · rw [lookup_eq_none hk, Dict.get?_of_notMem fun h => hk ((hkeys k).mp h)]

theorem eq_str {v : Json} {s : Str} : v.eq (.str s) = true ↔ v = .str s := by
  cases v <;> simp [Json.eq, Json.eqNumber, Json.integer?]

theorem eq_null {v : Json} : v.eq .null = true ↔ v = .null := by
  cases v <;> simp [Json.eq, Json.eqNumber, Json.integer?]

theorem eq_int {m n : ℤ} : (Json.int m).eq (.int n) = true ↔ m = n := by
  simp [Json.eq, Json.eqNumber, Json.integer?]

theorem eq_ofStr {v : Value} {o : Option Str} : v.val.eq (Value.ofStr o).val = true ↔ v = .ofStr o := by
  rw [← Subtype.val_inj]
  cases o with
  | none => exact eq_null
  | some s => exact eq_str

theorem validateSourceHead_eq_ok {v : Json} {s : Str} :
    validateSourceHead v = .ok s ↔ v = .str s ∧ alembicRevision s = true ∧ s ∈ compatibleAlembicHeads := by
  cases v with
  | str t =>
    simp only [validateSourceHead]
    split_ifs with hrev hmem
    · exact ⟨fun h => by cases h; exact ⟨rfl, hrev, hmem⟩, fun h => congrArg Except.ok (Json.str.inj h.1)⟩
    · exact ⟨(nomatch ·), fun ⟨h, _, hm⟩ => absurd (Json.str.inj h ▸ hm) hmem⟩
    · exact ⟨(nomatch ·), fun ⟨h, hr, _⟩ => absurd (Json.str.inj h ▸ hr) hrev⟩
  | _ => exact ⟨(nomatch ·), fun h => nomatch h.1⟩

/-- An instant whose text is read back. -/
def Stamped (L : Stdlib) (t : Instant) : Prop := L.strptime (L.strftime t) = some t

theorem parseTimestamp_eq_ok {v : Json} {t : Instant} :
    parseTimestamp L v = .ok t ↔ v = .str (L.strftime t) ∧ Stamped L t := by
  cases v with
  | str s =>
    rw [parseTimestamp.eq_def]
    simp only
    constructor
    · intro h
      split at h
      · cases h
      next parsed hparsed =>
      split_ifs at h with heq
      cases h
      exact ⟨congrArg Json.str heq.symm, by rw [Stamped, heq, hparsed]⟩
    · rintro ⟨h, hstamped⟩
      obtain rfl := Json.str.inj h
      rw [hstamped]
      exact if_pos rfl
  | _ => exact ⟨(nomatch ·), fun h => nomatch h.1⟩

theorem durationToHex_of_duration {o : Option Double} (h : ∀ x ∈ o, Duration x) :
    durationToHex L o = .ok (o.map L.hex) := by
  cases o with
  | none => rfl
  | some x =>
    obtain ⟨hfin, hneg, hzero⟩ := h x rfl
    have hcond : (x.isFinite && !x.isNegative) = true := by rw [hfin, hneg]; rfl
    refine (if_pos hcond).trans ?_
    rw [hzero]
    rfl

/-- A duration that is read from its text, and is valid. -/
theorem durationFromHex_of_duration {o : Option Double} (h : ∀ x ∈ o, Duration x) :
    durationFromHex L (Json.ofStr (o.map L.hex)) = .ok o := by
  cases o with
  | none => rfl
  | some x =>
    have hread := L.fromhex_hex x (h x rfl).1
    have hhex := durationToHex_of_duration (L := L) h
    rw [durationFromHex.eq_def]
    simp only [Option.map_some, Json.ofStr, hread]
    exact bind_eq_ok.mpr ⟨_, hhex, if_pos rfl⟩

/-- The text of a duration that is read is that of the duration returned. -/
theorem of_durationFromHex {v : Json} {o o' : Option Double} (h : durationFromHex L v = .ok o)
    (h' : durationForRead L (Json.ofFloat o) = some o') : v = Json.ofStr (o'.map L.hex) := by
  rw [durationFromHex.eq_def] at h
  split at h
  · cases h
    cases h'
    rfl
  · split at h
    · cases h
    · cases h
    next parsed _ =>
    obtain ⟨canonical, hcanonical, h⟩ := bind_eq_ok.mp h
    split_ifs at h with heq
    cases h
    rw [durationToHex.eq_def] at hcanonical
    simp only at hcanonical
    split_ifs at hcanonical with hcond
    cases hcanonical
    have hvalue : durationValue L (.float parsed) = .ok (some parsed) := if_pos hcond
    have hread : durationForRead L (Json.ofFloat (some parsed)) = some (some (unsignedZero parsed)) :=
      congrArg (fun e => (Except.toOption e).map (Option.map unsignedZero)) hvalue
    obtain rfl := Option.some.inj (hread.symm.trans h')
    exact congrArg Json.str (Option.some.inj heq).symm
  · cases h

end Fields

/-! ## Events -/

section Events

variable {record : Dict} {f : AuditEventReadFacts}

/-- The record of an event whose duration is valid. -/
def eventFields (L : Stdlib) (event : AuditEventReadFacts) : List (Str × Value) :=
  [("record_type", .str "audit_event"),
    ("id", .str event.id),
    ("event_key", .str event.eventKey),
    ("event_type", .str event.eventType),
    ("payload_hash", .str event.payloadHash),
    ("payload", event.payload.toValue),
    ("retention_class", .str event.retentionClass.value),
    ("occurred_at", .str (L.strftime event.occurredAt)),
    ("expires_at", .str (L.strftime event.expiresAt)),
    ("correlation_id", .ofStr event.correlationId),
    ("run_id", .ofStr event.runId),
    ("model_id", .ofStr event.modelId),
    ("question_id", .ofStr event.questionId),
    ("worker_id", .ofStr event.workerId),
    ("reservation_id", .ofStr event.reservationId),
    ("attempt", .ofInt event.attempt),
    ("provider_attempt", .ofInt event.providerAttempt),
    ("lease_token", .ofInt event.leaseToken),
    ("duration_ms_hex", .ofStr (event.durationMs.map L.hex))]

theorem nodup_keys : eventKeys.Nodup ∧ headerKeys.Nodup ∧ manifestKeys.Nodup := by
  decide +kernel

theorem keys_eventFields : (eventFields L f).map Prod.fst = eventKeys := rfl

theorem nodup_eventFields : ((eventFields L f).map Prod.fst).Nodup :=
  keys_eventFields ▸ nodup_keys.1

/-- Valid under the contract of the archive. -/
abbrev ValidEvent (L : Stdlib) (f : AuditEventReadFacts) : Prop :=
  f.Valid L archiveV1PayloadContract archiveV1RetentionDays

theorem eventRecord_eq_ok (hv : ValidEvent L f) : eventRecord L f = .ok (.ofList (eventFields L f)) :=
  bind_eq_ok.mpr ⟨_, durationToHex_of_duration hv.durationMs, rfl⟩

theorem validatedFacts_eq_ok {raw : RawEvent} :
    validatedFacts L raw = .ok f ↔ raw.Describes L f ∧ ValidEvent L f := by
  rw [← checkEvent_eq_some plain_archiveV1PayloadContract, validatedFacts,
    validateAuditArchiveV1EventValuesForRead, validateAuditEventValuesForRead]
  cases checkEvent L archiveV1PayloadContract archiveV1RetentionDays raw with
  | none => exact ⟨(nomatch ·), (nomatch ·)⟩
  | some g =>
    exact ⟨fun h => congrArg some (Except.ok.inj h), fun h => congrArg Except.ok (Option.some.inj h)⟩

theorem parseRetentionClass_eq_ok {v : Json} {r : AuditRetentionClass} :
    parseRetentionClass v = .ok r ↔ v = .str r.value := by
  have hne : AuditRetentionClass.operational.value ≠ AuditRetentionClass.security.value := by
    decide +kernel
  rw [parseRetentionClass]
  split_ifs with ho hs
  · cases r with
    | operational => exact ⟨fun _ => ho, fun _ => rfl⟩
    | security => exact ⟨(nomatch ·), fun h => absurd (Json.str.inj (ho.symm.trans h)) hne⟩
  · cases r with
    | operational => exact ⟨(nomatch ·), fun h => absurd h ho⟩
    | security => exact ⟨fun _ => hs, fun _ => rfl⟩
  · cases r with
    | operational => exact ⟨(nomatch ·), fun h => absurd h ho⟩
    | security => exact ⟨(nomatch ·), fun h => absurd h hs⟩

theorem ofStr_val (o : Option Str) : (Value.ofStr o).val = Json.ofStr o := by cases o <;> rfl

theorem ofInt_val (o : Option ℤ) : (Value.ofInt o).val = Json.ofInt o := by cases o <;> rfl

/-- The fields of a record are those of the event. -/
structure HoldsEvent (L : Stdlib) (record : Dict) (f : AuditEventReadFacts) : Prop where
  recordType : field record "record_type" = .str "audit_event"
  id : field record "id" = .str f.id
  eventKey : field record "event_key" = .str f.eventKey
  eventType : field record "event_type" = .str f.eventType
  payloadHash : field record "payload_hash" = .str f.payloadHash
  payload : field record "payload" = f.payload.toValue
  retentionClass : field record "retention_class" = .str f.retentionClass.value
  occurredAt : field record "occurred_at" = .str (L.strftime f.occurredAt)
  expiresAt : field record "expires_at" = .str (L.strftime f.expiresAt)
  correlationId : field record "correlation_id" = .ofStr f.correlationId
  runId : field record "run_id" = .ofStr f.runId
  modelId : field record "model_id" = .ofStr f.modelId
  questionId : field record "question_id" = .ofStr f.questionId
  workerId : field record "worker_id" = .ofStr f.workerId
  reservationId : field record "reservation_id" = .ofStr f.reservationId
  attempt : field record "attempt" = .ofInt f.attempt
  providerAttempt : field record "provider_attempt" = .ofInt f.providerAttempt
  leaseToken : field record "lease_token" = .ofInt f.leaseToken
  durationMsHex : field record "duration_ms_hex" = .ofStr (f.durationMs.map L.hex)

theorem holdsEvent_iff : HoldsEvent L record f ↔ ∀ p ∈ eventFields L f, field record p.1 = p.2 := by
  constructor
  · intro h p hp
    simp only [eventFields, List.mem_cons, List.not_mem_nil, or_false] at hp
    rcases hp with rfl | rfl | rfl | rfl | rfl | rfl | rfl | rfl | rfl | rfl | rfl | rfl | rfl | rfl |
      rfl | rfl | rfl | rfl | rfl
    · exact h.recordType
    · exact h.id
    · exact h.eventKey
    · exact h.eventType
    · exact h.payloadHash
    · exact h.payload
    · exact h.retentionClass
    · exact h.occurredAt
    · exact h.expiresAt
    · exact h.correlationId
    · exact h.runId
    · exact h.modelId
    · exact h.questionId
    · exact h.workerId
    · exact h.reservationId
    · exact h.attempt
    · exact h.providerAttempt
    · exact h.leaseToken
    · exact h.durationMsHex
  · intro h
    exact {
      recordType := h ("record_type", _) (List.mem_of_getElem? (i := 0) rfl)
      id := h ("id", _) (List.mem_of_getElem? (i := 1) rfl)
      eventKey := h ("event_key", _) (List.mem_of_getElem? (i := 2) rfl)
      eventType := h ("event_type", _) (List.mem_of_getElem? (i := 3) rfl)
      payloadHash := h ("payload_hash", _) (List.mem_of_getElem? (i := 4) rfl)
      payload := h ("payload", _) (List.mem_of_getElem? (i := 5) rfl)
      retentionClass := h ("retention_class", _) (List.mem_of_getElem? (i := 6) rfl)
      occurredAt := h ("occurred_at", _) (List.mem_of_getElem? (i := 7) rfl)
      expiresAt := h ("expires_at", _) (List.mem_of_getElem? (i := 8) rfl)
      correlationId := h ("correlation_id", _) (List.mem_of_getElem? (i := 9) rfl)
      runId := h ("run_id", _) (List.mem_of_getElem? (i := 10) rfl)
      modelId := h ("model_id", _) (List.mem_of_getElem? (i := 11) rfl)
      questionId := h ("question_id", _) (List.mem_of_getElem? (i := 12) rfl)
      workerId := h ("worker_id", _) (List.mem_of_getElem? (i := 13) rfl)
      reservationId := h ("reservation_id", _) (List.mem_of_getElem? (i := 14) rfl)
      attempt := h ("attempt", _) (List.mem_of_getElem? (i := 15) rfl)
      providerAttempt := h ("provider_attempt", _) (List.mem_of_getElem? (i := 16) rfl)
      leaseToken := h ("lease_token", _) (List.mem_of_getElem? (i := 17) rfl)
      durationMsHex := h ("duration_ms_hex", _) (List.mem_of_getElem? (i := 18) rfl) }

/-- A record is parsed as an event if it is the record of the event. -/
theorem parseEvent_eq_ok : parseEvent L record = .ok f ↔
    record = .ofList (eventFields L f) ∧ ValidEvent L f ∧ Stamped L f.occurredAt ∧
      Stamped L f.expiresAt := by
  constructor
  · intro h
    obtain ⟨_, hkeys, h⟩ := bind_eq_ok.mp h
    obtain ⟨_, htype, h⟩ := bind_eq_ok.mp h
    obtain ⟨retentionClass, hretention, h⟩ := bind_eq_ok.mp h
    obtain ⟨occurredAt, hoccurred, h⟩ := bind_eq_ok.mp h
    obtain ⟨expiresAt, hexpires, h⟩ := bind_eq_ok.mp h
    obtain ⟨durationMs, hduration, h⟩ := bind_eq_ok.mp h
    obtain ⟨hd, hv⟩ := validatedFacts_eq_ok.mp h
    rw [requireExactKeys_eq_ok] at hkeys
    rw [ensure_eq_ok, eq_str] at htype
    rw [parseRetentionClass_eq_ok] at hretention
    rw [parseTimestamp_eq_ok] at hoccurred hexpires
    obtain rfl := Option.some.inj ((Instant.toUtc_toDateTime _).symm.trans hd.occurredAt)
    obtain rfl := Option.some.inj ((Instant.toUtc_toDateTime _).symm.trans hd.expiresAt)
    obtain rfl := hd.retentionClass
    refine ⟨eq_ofList nodup_eventFields hkeys (holdsEvent_iff.mp ?_), hv, hoccurred.2, hexpires.2⟩
    exact {
      recordType := Subtype.ext htype
      id := Subtype.ext hd.id
      eventKey := Subtype.ext hd.eventKey
      eventType := Subtype.ext hd.eventType
      payloadHash := Subtype.ext hd.payloadHash
      payload := hd.payload
      retentionClass := Subtype.ext hretention
      occurredAt := Subtype.ext hoccurred.1
      expiresAt := Subtype.ext hexpires.1
      correlationId := Subtype.ext (hd.correlationId.trans (ofStr_val _).symm)
      runId := Subtype.ext (hd.runId.trans (ofStr_val _).symm)
      modelId := Subtype.ext (hd.modelId.trans (ofStr_val _).symm)
      questionId := Subtype.ext (hd.questionId.trans (ofStr_val _).symm)
      workerId := Subtype.ext (hd.workerId.trans (ofStr_val _).symm)
      reservationId := Subtype.ext (hd.reservationId.trans (ofStr_val _).symm)
      attempt := Subtype.ext (hd.attempt.trans (ofInt_val _).symm)
      providerAttempt := Subtype.ext (hd.providerAttempt.trans (ofInt_val _).symm)
      leaseToken := Subtype.ext (hd.leaseToken.trans (ofInt_val _).symm)
      durationMsHex :=
        Subtype.ext ((of_durationFromHex hduration hd.durationMs).trans (ofStr_val _).symm) }
  · rintro ⟨hrecord, hv, hoccurred, hexpires⟩
    have hkeys : ∀ k, k ∈ record.keys ↔ k ∈ eventKeys := by
      intro k
      rw [hrecord, Dict.mem_keys_ofList nodup_eventFields, keys_eventFields]
    have h : HoldsEvent L record f := by
      rw [hrecord]
      exact holdsEvent_iff.mpr fun p hp => field_ofList nodup_eventFields hp
    clear hrecord
    refine bind_eq_ok.mpr ⟨(), requireExactKeys_eq_ok.mpr hkeys, ?_⟩
    refine bind_eq_ok.mpr ⟨(), ensure_eq_ok.mpr (eq_str.mpr (congrArg Subtype.val h.recordType)), ?_⟩
    refine bind_eq_ok.mpr ⟨f.retentionClass,
      parseRetentionClass_eq_ok.mpr (congrArg Subtype.val h.retentionClass), ?_⟩
    refine bind_eq_ok.mpr ⟨f.occurredAt,
      parseTimestamp_eq_ok.mpr ⟨congrArg Subtype.val h.occurredAt, hoccurred⟩, ?_⟩
    refine bind_eq_ok.mpr ⟨f.expiresAt,
      parseTimestamp_eq_ok.mpr ⟨congrArg Subtype.val h.expiresAt, hexpires⟩, ?_⟩
    refine bind_eq_ok.mpr ⟨f.durationMs, ?_, ?_⟩
    · rw [h.durationMsHex, ofStr_val]
      exact durationFromHex_of_duration hv.durationMs
    refine validatedFacts_eq_ok.mpr ⟨?_, hv⟩
    exact {
      id := congrArg Subtype.val h.id
      eventKey := congrArg Subtype.val h.eventKey
      eventType := congrArg Subtype.val h.eventType
      payloadHash := congrArg Subtype.val h.payloadHash
      payload := h.payload
      retentionClass := rfl
      occurredAt := Instant.toUtc_toDateTime _
      expiresAt := Instant.toUtc_toDateTime _
      attempt := (congrArg Subtype.val h.attempt).trans (ofInt_val _)
      providerAttempt := (congrArg Subtype.val h.providerAttempt).trans (ofInt_val _)
      leaseToken := (congrArg Subtype.val h.leaseToken).trans (ofInt_val _)
      durationMs := durationForRead_ofFloat hv.durationMs
      correlationId := (congrArg Subtype.val h.correlationId).trans (ofStr_val _)
      runId := (congrArg Subtype.val h.runId).trans (ofStr_val _)
      modelId := (congrArg Subtype.val h.modelId).trans (ofStr_val _)
      questionId := (congrArg Subtype.val h.questionId).trans (ofStr_val _)
      workerId := (congrArg Subtype.val h.workerId).trans (ofStr_val _)
      reservationId := (congrArg Subtype.val h.reservationId).trans (ofStr_val _) }

end Events

/-! ## Plain records -/

section Plain

variable {f : AuditEventReadFacts} {events : List AuditEventReadFacts} {cutoff : Instant}
  {head sha : Str} {more : Bool}

/-- Every text of a list is plain. -/
theorem plain_of_all {l : List Str} (h : (l.all fun k => k.all fun c => decide (PlainChar c)) = true) :
    ∀ k ∈ l, PlainText k := by
  intro k hk c hc
  exact of_decide_eq_true (List.all_eq_true.mp (List.all_eq_true.mp h k hk) c hc)

/-- The texts that are the same in every archive: keys, constants and the types of events. -/
theorem plain_texts : (∀ k ∈ eventKeys, PlainText k) ∧ (∀ k ∈ headerKeys, PlainText k) ∧
    (∀ k ∈ manifestKeys, PlainText k) ∧
    (∀ k ∈ archiveSchema :: Text.ofString "audit_event" :: Text.ofString "header" ::
      Text.ofString "manifest" :: AuditRetentionClass.operational.value ::
      AuditRetentionClass.security.value :: compatibleAlembicHeads, PlainText k) ∧
    ∀ k ∈ archiveV1PayloadContract.eventFields.map Prod.fst, PlainText k := by
  refine ⟨plain_of_all ?_, plain_of_all ?_, plain_of_all ?_, plain_of_all ?_, plain_of_all ?_⟩
  all_goals decide +kernel

theorem plain_eventKeys : ∀ k ∈ eventKeys, PlainText k := plain_texts.1

theorem plain_headerKeys : ∀ k ∈ headerKeys, PlainText k := plain_texts.2.1

theorem plain_manifestKeys : ∀ k ∈ manifestKeys, PlainText k := plain_texts.2.2.1

/-- The other texts of a record that are constants. -/
theorem plain_constants : ∀ k ∈ archiveSchema :: Text.ofString "audit_event" ::
    Text.ofString "header" :: Text.ofString "manifest" :: AuditRetentionClass.operational.value ::
    AuditRetentionClass.security.value :: compatibleAlembicHeads, PlainText k :=
  plain_texts.2.2.2.1

theorem plain_eventTypes : ∀ k ∈ archiveV1PayloadContract.eventFields.map Prod.fst, PlainText k :=
  plain_texts.2.2.2.2

theorem plain_retentionClass (r : AuditRetentionClass) : PlainText r.value := by
  cases r with
  | operational => exact plain_constants _ (by simp)
  | security => exact plain_constants _ (by simp)

theorem plain_ofStr {o : Option Str} (h : ∀ s ∈ o, PlainText s) {depth : ℕ} :
    (Value.ofStr o).val.Plain depth := by
  cases o with
  | none => cases depth <;> trivial
  | some s => cases depth <;> exact h s rfl

theorem plain_ofInt (o : Option ℤ) {depth : ℕ} : (Value.ofInt o).val.Plain depth := by
  cases o <;> cases depth <;> trivial

theorem plain_eventType (hv : ValidEvent L f) : PlainText f.eventType := by
  obtain ⟨allowed, hallowed, -⟩ := hv.payload.keys
  exact plain_eventTypes _ (List.mem_map_of_mem (mem_of_lookup hallowed))

theorem plain_hexdigest (d : BitVec 256) : PlainText (hexdigest d) :=
  plainText_of_safeHash (safeHash_hexdigest d)

theorem plain_eventRecord (hv : ValidEvent L f) :
    (Dict.ofList (eventFields L f)).toValue.val.Plain 2 := by
  have hid : ∀ {maximum} {o : Option Str}, (∀ s ∈ o, SafeIdentity maximum s) →
      (Value.ofStr o).val.Plain 1 := fun h => plain_ofStr fun s hs => (h s hs).plain
  have hhash : PlainText f.payloadHash := by
    obtain ⟨t, -, ht⟩ := hv.payloadHash
    rw [ht]
    exact plain_hexdigest _
  have hhex : ∀ s ∈ f.durationMs.map L.hex, PlainText s := by
    intro s hs
    obtain ⟨x, -, rfl⟩ := Option.map_eq_some_iff.mp hs
    exact L.hex_plain x
  refine Dict.plain_ofList fun p hp => ⟨plain_eventKeys _ ?_, ?_⟩
  · exact keys_eventFields ▸ List.mem_map_of_mem hp
  simp only [eventFields, List.mem_cons, List.not_mem_nil, or_false] at hp
  rcases hp with rfl | rfl | rfl | rfl | rfl | rfl | rfl | rfl | rfl | rfl | rfl | rfl | rfl | rfl |
    rfl | rfl | rfl | rfl | rfl
  · exact plain_constants _ (by simp)
  · exact hv.id.plain
  · exact hv.eventKey.plain
  · exact plain_eventType hv
  · exact hhash
  · exact hv.payload.plain plain_archiveV1PayloadContract
  · exact plain_retentionClass _
  · exact L.strftime_plain _
  · exact L.strftime_plain _
  · exact hid hv.correlationId
  · exact hid hv.runId
  · exact hid hv.modelId
  · exact hid hv.questionId
  · exact hid hv.workerId
  · exact hid hv.reservationId
  · exact plain_ofInt _
  · exact plain_ofInt _
  · exact plain_ofInt _
  · exact plain_ofStr hhex

end Plain

/-! ## Header and manifest -/

section Ends

variable {record header manifest : Dict} {events : List AuditEventReadFacts} {cutoff : Instant}
  {head sha : Str} {more : Bool} {limit : Value}

/-- A header with this limit. -/
def headerFields (L : Stdlib) (cutoff : Instant) (head : Str) (limit : Value) : List (Str × Value) :=
  [("record_type", .str "header"),
    ("schema", .str archiveSchema),
    ("cutoff_at", .str (L.strftime cutoff)),
    ("source_alembic_head", .str head),
    ("event_limit", limit)]

def manifestFields (L : Stdlib) (cutoff : Instant) (head : Str)
    (events : List AuditEventReadFacts) (more : Bool) (sha : Str) : List (Str × Value) :=
  [("record_type", .str "manifest"),
    ("schema", .str archiveSchema),
    ("cutoff_at", .str (L.strftime cutoff)),
    ("source_alembic_head", .str head),
    ("event_count", .int events.length),
    ("event_type_counts", (eventTypeCounts events).toValue),
    ("retention_class_counts", (retentionClassCounts events).toValue),
    ("occurred_at_min", extreme L (events.map (·.occurredAt)).min?),
    ("occurred_at_max", extreme L (events.map (·.occurredAt)).max?),
    ("expires_at_min", extreme L (events.map (·.expiresAt)).min?),
    ("expires_at_max", extreme L (events.map (·.expiresAt)).max?),
    ("has_more_eligible", .bool more),
    ("content_sha256", .str sha)]

theorem nodup_headerFields : ((headerFields L cutoff head limit).map Prod.fst).Nodup :=
  nodup_keys.2.1

theorem nodup_manifestFields :
    ((manifestFields L cutoff head events more sha).map Prod.fst).Nodup :=
  nodup_keys.2.2

/-- The fields of a header. -/
structure HoldsHeader (L : Stdlib) (record : Dict) (cutoff : Instant) (head : Str) (limit : Value) : Prop where
  recordType : field record "record_type" = .str "header"
  schema : field record "schema" = .str archiveSchema
  cutoffAt : field record "cutoff_at" = .str (L.strftime cutoff)
  sourceHead : field record "source_alembic_head" = .str head
  eventLimit : field record "event_limit" = limit

theorem holdsHeader_iff : HoldsHeader L record cutoff head limit ↔
    ∀ p ∈ headerFields L cutoff head limit, field record p.1 = p.2 := by
  constructor
  · intro h p hp
    simp only [headerFields, List.mem_cons, List.not_mem_nil, or_false] at hp
    rcases hp with rfl | rfl | rfl | rfl | rfl
    · exact h.recordType
    · exact h.schema
    · exact h.cutoffAt
    · exact h.sourceHead
    · exact h.eventLimit
  · intro h
    exact {
      recordType := h ("record_type", _) (List.mem_of_getElem? (i := 0) rfl)
      schema := h ("schema", _) (List.mem_of_getElem? (i := 1) rfl)
      cutoffAt := h ("cutoff_at", _) (List.mem_of_getElem? (i := 2) rfl)
      sourceHead := h ("source_alembic_head", _) (List.mem_of_getElem? (i := 3) rfl)
      eventLimit := h ("event_limit", _) (List.mem_of_getElem? (i := 4) rfl) }

/-- The fields of a manifest. -/
structure HoldsManifest (L : Stdlib) (record : Dict) (cutoff : Instant) (head : Str)
    (events : List AuditEventReadFacts) (more : Bool) (sha : Str) : Prop where
  recordType : field record "record_type" = .str "manifest"
  schema : field record "schema" = .str archiveSchema
  cutoffAt : field record "cutoff_at" = .str (L.strftime cutoff)
  sourceHead : field record "source_alembic_head" = .str head
  eventCount : field record "event_count" = .int events.length
  eventTypeCounts : field record "event_type_counts" = (eventTypeCounts events).toValue
  retentionClassCounts : field record "retention_class_counts" = (retentionClassCounts events).toValue
  occurredAtMin : field record "occurred_at_min" = extreme L (events.map (·.occurredAt)).min?
  occurredAtMax : field record "occurred_at_max" = extreme L (events.map (·.occurredAt)).max?
  expiresAtMin : field record "expires_at_min" = extreme L (events.map (·.expiresAt)).min?
  expiresAtMax : field record "expires_at_max" = extreme L (events.map (·.expiresAt)).max?
  hasMoreEligible : field record "has_more_eligible" = .bool more
  contentSha256 : field record "content_sha256" = .str sha

theorem holdsManifest_iff : HoldsManifest L record cutoff head events more sha ↔
    ∀ p ∈ manifestFields L cutoff head events more sha, field record p.1 = p.2 := by
  constructor
  · intro h p hp
    simp only [manifestFields, List.mem_cons, List.not_mem_nil, or_false] at hp
    rcases hp with rfl | rfl | rfl | rfl | rfl | rfl | rfl | rfl | rfl | rfl | rfl | rfl | rfl
    · exact h.recordType
    · exact h.schema
    · exact h.cutoffAt
    · exact h.sourceHead
    · exact h.eventCount
    · exact h.eventTypeCounts
    · exact h.retentionClassCounts
    · exact h.occurredAtMin
    · exact h.occurredAtMax
    · exact h.expiresAtMin
    · exact h.expiresAtMax
    · exact h.hasMoreEligible
    · exact h.contentSha256
  · intro h
    exact {
      recordType := h ("record_type", _) (List.mem_of_getElem? (i := 0) rfl)
      schema := h ("schema", _) (List.mem_of_getElem? (i := 1) rfl)
      cutoffAt := h ("cutoff_at", _) (List.mem_of_getElem? (i := 2) rfl)
      sourceHead := h ("source_alembic_head", _) (List.mem_of_getElem? (i := 3) rfl)
      eventCount := h ("event_count", _) (List.mem_of_getElem? (i := 4) rfl)
      eventTypeCounts := h ("event_type_counts", _) (List.mem_of_getElem? (i := 5) rfl)
      retentionClassCounts := h ("retention_class_counts", _) (List.mem_of_getElem? (i := 6) rfl)
      occurredAtMin := h ("occurred_at_min", _) (List.mem_of_getElem? (i := 7) rfl)
      occurredAtMax := h ("occurred_at_max", _) (List.mem_of_getElem? (i := 8) rfl)
      expiresAtMin := h ("expires_at_min", _) (List.mem_of_getElem? (i := 9) rfl)
      expiresAtMax := h ("expires_at_max", _) (List.mem_of_getElem? (i := 10) rfl)
      hasMoreEligible := h ("has_more_eligible", _) (List.mem_of_getElem? (i := 11) rfl)
      contentSha256 := h ("content_sha256", _) (List.mem_of_getElem? (i := 12) rfl) }

/-- A source head that archives are compatible with. -/
def Compatible (head : Str) : Prop := alembicRevision head = true ∧ head ∈ compatibleAlembicHeads

theorem plain_extreme (instant : Option Instant) {depth : ℕ} : (extreme L instant).val.Plain depth :=
  plain_ofStr fun s hs => by
    obtain ⟨t, -, rfl⟩ := Option.map_eq_some_iff.mp hs
    exact L.strftime_plain t

theorem plain_header (hhead : Compatible head) (hlimit : limit.val.Plain 1) :
    (Dict.ofList (headerFields L cutoff head limit)).toValue.val.Plain 2 := by
  refine Dict.plain_ofList fun p hp => ⟨plain_headerKeys _ (List.mem_map_of_mem hp), ?_⟩
  simp only [headerFields, List.mem_cons, List.not_mem_nil, or_false] at hp
  rcases hp with rfl | rfl | rfl | rfl | rfl
  · exact plain_constants _ (by simp)
  · exact plain_constants _ (by simp)
  · exact L.strftime_plain _
  · exact plain_constants _ (by simp [hhead.2])
  · exact hlimit

theorem plain_manifest (hhead : Compatible head) (hevents : ∀ e ∈ events, ValidEvent L e)
    (hsha : PlainText sha) :
    (Dict.ofList (manifestFields L cutoff head events more sha)).toValue.val.Plain 2 := by
  refine Dict.plain_ofList fun p hp => ⟨plain_manifestKeys _ (List.mem_map_of_mem hp), ?_⟩
  simp only [manifestFields, List.mem_cons, List.not_mem_nil, or_false] at hp
  rcases hp with rfl | rfl | rfl | rfl | rfl | rfl | rfl | rfl | rfl | rfl | rfl | rfl | rfl
  · exact plain_constants _ (by simp)
  · exact plain_constants _ (by simp)
  · exact L.strftime_plain _
  · exact plain_constants _ (by simp [hhead.2])
  · trivial
  · refine Dict.plain_ofList fun p hp => ?_
    obtain ⟨e, he, rfl⟩ := List.mem_map.mp hp
    exact ⟨plain_eventType (hevents e he), trivial⟩
  · refine Dict.plain_ofList fun p hp => ?_
    obtain ⟨r, -, rfl⟩ := List.mem_map.mp hp
    exact ⟨plain_retentionClass r, trivial⟩
  · exact plain_extreme _
  · exact plain_extreme _
  · exact plain_extreme _
  · exact plain_extreme _
  · trivial
  · exact hsha

end Ends

/-! ## Records -/

section Records

variable {header manifest : Dict} {eventValues : List Dict} {events : List AuditEventReadFacts}
  {cutoff : Instant} {head sha : Str} {more : Bool} {rawLines : List Bytes}

theorem verifyRollup_eq_ok {pairs : List (Str × Value)} {u : Unit} :
    verifyRollup manifest pairs = .ok u ↔
      ∀ p ∈ pairs, (field manifest p.1).val.eq p.2.val = true := by
  induction pairs with
  | nil => exact ⟨fun _ p hp => absurd hp List.not_mem_nil, fun _ => rfl⟩
  | cons p rest ih =>
    rw [verifyRollup, List.forall_mem_cons]
    split
    · next h => rw [ih]; exact ⟨fun hr => ⟨h, hr⟩, fun hr => hr.2⟩
    · next h => exact ⟨(nomatch ·), fun hr => absurd hr.1 h⟩

/-- A mapping of counts. -/
def Counts (d : Dict) : Prop := ∀ p ∈ d.fields, ∃ n : ℕ, p.2 = .int n

theorem counts_eventTypeCounts : Counts (eventTypeCounts events) := by
  intro p hp
  obtain ⟨e, -, rfl⟩ := List.mem_map.mp (Dict.mem_fields_ofList hp)
  exact ⟨_, rfl⟩

theorem counts_retentionClassCounts : Counts (retentionClassCounts events) := by
  intro p hp
  obtain ⟨r, -, rfl⟩ := List.mem_map.mp (Dict.mem_fields_ofList hp)
  exact ⟨_, rfl⟩

theorem isCount_iff {v : Value} : isCount v.val = true ↔ ∃ n : ℕ, v = .int n := by
  constructor
  · intro h
    obtain ⟨v, hv⟩ := v
    cases v with
    | int n =>
      obtain ⟨m, rfl⟩ := Int.eq_ofNat_of_zero_le (of_decide_eq_true h)
      exact ⟨m, rfl⟩
    | _ => cases h
  · rintro ⟨n, rfl⟩
    exact decide_eq_true (Int.natCast_nonneg n)

theorem validateCountMapping_eq_ok {v : Value} {u : Unit} :
    validateCountMapping v = .ok u ↔ ∃ d, v = d.toValue ∧ Counts d := by
  rw [validateCountMapping, ensure_eq_ok, Option.any_eq_true]
  constructor
  · rintro ⟨d, hd, hall⟩
    exact ⟨d, Value.dict?_eq_some.mp hd, fun p hp => isCount_iff.mp (List.all_eq_true.mp hall p hp)⟩
  · rintro ⟨d, rfl, hcounts⟩
    exact ⟨d, Value.dict?_toValue d, List.all_eq_true.mpr fun p hp => isCount_iff.mpr (hcounts p hp)⟩

theorem Counts.ints {d : Dict} (h : Counts d) : ∀ p ∈ d.fields, ∃ n, p.2 = .int n := by
  intro p hp
  obtain ⟨n, hn⟩ := h p hp
  exact ⟨n, hn⟩

/-- A mapping of counts that is equal to the counts expected. -/
theorem eq_of_counts {v : Value} {e : Dict} (hv : ∃ d, v = d.toValue ∧ Counts d) (he : Counts e)
    (h : v.val.eq e.toValue.val = true) : v = e.toValue := by
  obtain ⟨d, rfl, hd⟩ := hv
  rw [Dict.eq_of_eq hd.ints he.ints h]

theorem eq_self_of_counts {d : Dict} (h : Counts d) : d.toValue.val.eq d.toValue.val = true := by
  rw [Dict.toValue, Json.eq, Bool.and_eq_true, Json.eqFields_eq_true]
  refine ⟨beq_self_eq_true _, fun p hp => ?_⟩
  obtain ⟨q, hq, rfl⟩ := List.mem_map.mp hp
  obtain ⟨n, hn⟩ := h q hq
  refine ⟨q.2.val, ?_, ?_⟩
  · rw [lookup_mapVal, lookup_of_mem d.sorted.nodup hq]
    rfl
  · rw [hn]
    exact eq_int.mpr rfl

theorem isEventCount_iff {v : Value} :
    isEventCount v.val = true ↔ ∃ n : ℕ, v = .int n ∧ n ≤ archiveEventLimit := by
  constructor
  · intro h
    obtain ⟨v, hv⟩ := v
    cases v with
    | int n =>
      obtain ⟨h0, hle⟩ := Bool.and_eq_true_iff.mp h
      obtain ⟨m, rfl⟩ := Int.eq_ofNat_of_zero_le (of_decide_eq_true h0)
      exact ⟨m, rfl, Int.ofNat_le.mp (of_decide_eq_true hle)⟩
    | _ => cases h
  · rintro ⟨n, rfl, hle⟩
    exact Bool.and_eq_true_iff.mpr
      ⟨decide_eq_true (Int.natCast_nonneg n), decide_eq_true (Int.ofNat_le.mpr hle)⟩

/-- What the header and the manifest agree on. -/
structure EndsAgree (L : Stdlib) (header manifest : Dict) (cutoff : Instant) (head : Str) : Prop where
  headerKeys : ∀ k, k ∈ header.keys ↔ k ∈ headerKeys
  manifestKeys : ∀ k, k ∈ manifest.keys ↔ k ∈ manifestKeys
  holds : HoldsHeader L header cutoff head (field header "event_limit")
  limit : (field header "event_limit").val.eq (.int archiveEventLimit) = true
  manifestType : field manifest "record_type" = .str "manifest"
  manifestSchema : field manifest "schema" = .str archiveSchema
  manifestCutoff : field manifest "cutoff_at" = .str (L.strftime cutoff)
  manifestHead : field manifest "source_alembic_head" = .str head
  stamped : Stamped L cutoff
  compatible : Compatible head
  eventCount : ∃ n : ℕ, field manifest "event_count" = .int n ∧ n ≤ archiveEventLimit
  typeCounts : ∃ d, field manifest "event_type_counts" = d.toValue ∧ Counts d
  classCounts : ∃ d, field manifest "retention_class_counts" = d.toValue ∧ Counts d

theorem verifyEnds_eq_ok :
    verifyEnds L header manifest = .ok (cutoff, head) ↔ EndsAgree L header manifest cutoff head := by
  constructor
  · intro h
    obtain ⟨_, hhkeys, h⟩ := bind_eq_ok.mp h
    obtain ⟨_, hmkeys, h⟩ := bind_eq_ok.mp h
    obtain ⟨_, htypes, h⟩ := bind_eq_ok.mp h
    obtain ⟨_, hschemas, h⟩ := bind_eq_ok.mp h
    obtain ⟨_, hlimit, h⟩ := bind_eq_ok.mp h
    obtain ⟨cutoffAt, hcutoff, h⟩ := bind_eq_ok.mp h
    obtain ⟨sourceHead, hhead, h⟩ := bind_eq_ok.mp h
    obtain ⟨_, hmcutoff, h⟩ := bind_eq_ok.mp h
    obtain ⟨_, hmhead, h⟩ := bind_eq_ok.mp h
    obtain ⟨_, hcount, h⟩ := bind_eq_ok.mp h
    obtain ⟨_, htypeCounts, h⟩ := bind_eq_ok.mp h
    obtain ⟨_, hclassCounts, h⟩ := bind_eq_ok.mp h
    cases h
    rw [ensure_eq_ok, eq_str, eq_str] at htypes hschemas
    rw [parseTimestamp_eq_ok] at hcutoff
    rw [validateSourceHead_eq_ok] at hhead
    rw [ensure_eq_ok, hcutoff.1, eq_str] at hmcutoff
    rw [ensure_eq_ok, eq_str] at hmhead
    exact {
      headerKeys := requireExactKeys_eq_ok.mp hhkeys
      manifestKeys := requireExactKeys_eq_ok.mp hmkeys
      holds := ⟨Subtype.ext htypes.1, Subtype.ext hschemas.1, Subtype.ext hcutoff.1,
        Subtype.ext hhead.1, rfl⟩
      limit := ensure_eq_ok.mp hlimit
      manifestType := Subtype.ext htypes.2
      manifestSchema := Subtype.ext hschemas.2
      manifestCutoff := Subtype.ext hmcutoff
      manifestHead := Subtype.ext hmhead
      stamped := hcutoff.2
      compatible := hhead.2
      eventCount := isEventCount_iff.mp (ensure_eq_ok.mp hcount)
      typeCounts := validateCountMapping_eq_ok.mp htypeCounts
      classCounts := validateCountMapping_eq_ok.mp hclassCounts }
  · intro h
    have hval : ∀ {a b : Value}, a = b → a.val = b.val := fun h => congrArg Subtype.val h
    refine bind_eq_ok.mpr ⟨(), requireExactKeys_eq_ok.mpr h.headerKeys, ?_⟩
    refine bind_eq_ok.mpr ⟨(), requireExactKeys_eq_ok.mpr h.manifestKeys, ?_⟩
    refine bind_eq_ok.mpr ⟨(), ensure_eq_ok.mpr
      ⟨eq_str.mpr (hval h.holds.recordType), eq_str.mpr (hval h.manifestType)⟩, ?_⟩
    refine bind_eq_ok.mpr ⟨(), ensure_eq_ok.mpr
      ⟨eq_str.mpr (hval h.holds.schema), eq_str.mpr (hval h.manifestSchema)⟩, ?_⟩
    refine bind_eq_ok.mpr ⟨(), ensure_eq_ok.mpr h.limit, ?_⟩
    refine bind_eq_ok.mpr
      ⟨cutoff, parseTimestamp_eq_ok.mpr ⟨hval h.holds.cutoffAt, h.stamped⟩, ?_⟩
    refine bind_eq_ok.mpr
      ⟨head, validateSourceHead_eq_ok.mpr ⟨hval h.holds.sourceHead, h.compatible⟩, ?_⟩
    refine bind_eq_ok.mpr ⟨(), ensure_eq_ok.mpr ?_, ?_⟩
    · rw [h.holds.cutoffAt]
      exact eq_str.mpr (hval h.manifestCutoff)
    refine bind_eq_ok.mpr ⟨(), ensure_eq_ok.mpr (eq_str.mpr (hval h.manifestHead)), ?_⟩
    refine bind_eq_ok.mpr ⟨(), ensure_eq_ok.mpr (isEventCount_iff.mpr h.eventCount), ?_⟩
    refine bind_eq_ok.mpr ⟨(), validateCountMapping_eq_ok.mpr h.typeCounts, ?_⟩
    exact bind_eq_ok.mpr ⟨(), validateCountMapping_eq_ok.mpr h.classCounts, rfl⟩

theorem validateDigest_eq_ok {v : Json} {code : String} :
    validateDigest v code = .ok sha ↔ v = .str sha ∧ safeHash sha = true := by
  cases v with
  | str s =>
    simp only [validateDigest]
    split_ifs with hsafe
    · exact ⟨fun h => by cases h; exact ⟨rfl, hsafe⟩, fun h => congrArg Except.ok (Json.str.inj h.1)⟩
    · exact ⟨(nomatch ·), fun ⟨h, hs⟩ => absurd (Json.str.inj h ▸ hs) hsafe⟩
  | _ => exact ⟨(nomatch ·), fun h => nomatch h.1⟩

/-- The record of an event that is valid, and whose times are read back. -/
structure Recorded (L : Stdlib) (record : Dict) (f : AuditEventReadFacts) : Prop where
  record : record = .ofList (eventFields L f)
  valid : ValidEvent L f
  occurredAt : Stamped L f.occurredAt
  expiresAt : Stamped L f.expiresAt

theorem parseEvents_eq_ok :
    eventValues.mapM (parseEvent L) = .ok events ↔ List.Forall₂ (Recorded L) eventValues events := by
  rw [mapM_eq_ok]
  constructor
  · intro h
    refine h.imp fun record f hf => ?_
    obtain ⟨hrecord, hv, hoccurred, hexpires⟩ := parseEvent_eq_ok.mp hf
    exact ⟨hrecord, hv, hoccurred, hexpires⟩
  · intro h
    exact h.imp fun record f hf =>
      parseEvent_eq_ok.mpr ⟨hf.record, hf.valid, hf.occurredAt, hf.expiresAt⟩

/-- The records of an archive that is accepted. -/
structure RecordsAgree (L : Stdlib) (rawLines : List Bytes) (first : Dict) (eventValues : List Dict)
    (last : Dict) (cutoff : Instant) (head : Str) (events : List AuditEventReadFacts) (more : Bool)
    (sha : Str) : Prop where
  header : first = .ofList (headerFields L cutoff head (field first "event_limit"))
  limit : (field first "event_limit").val.eq (.int archiveEventLimit) = true
  manifest : last = .ofList (manifestFields L cutoff head events more sha)
  recorded : List.Forall₂ (Recorded L) eventValues events
  stamped : Stamped L cutoff
  compatible : Compatible head
  count : events.length ≤ archiveEventLimit
  ordered : checkEvents cutoff none [] [] events = .ok ()
  digest : contentDigest L rawLines.dropLast = sha

theorem rollup_of_holds (h : HoldsManifest L manifest cutoff head events more sha) :
    ∀ p ∈ rollup L events, (field manifest p.1).val.eq p.2.val = true := by
  intro p hp
  simp only [rollup, List.mem_cons, List.not_mem_nil, or_false] at hp
  rcases hp with rfl | rfl | rfl | rfl | rfl | rfl | rfl
  · rw [h.eventCount]
    exact eq_int.mpr rfl
  · rw [h.eventTypeCounts]
    exact eq_self_of_counts counts_eventTypeCounts
  · rw [h.retentionClassCounts]
    exact eq_self_of_counts counts_retentionClassCounts
  · exact eq_ofStr.mpr h.occurredAtMin
  · exact eq_ofStr.mpr h.occurredAtMax
  · exact eq_ofStr.mpr h.expiresAtMin
  · exact eq_ofStr.mpr h.expiresAtMax

theorem EndsAgree.holdsManifest (h : EndsAgree L header manifest cutoff head)
    (hrollup : ∀ p ∈ rollup L events, (field manifest p.1).val.eq p.2.val = true)
    (hmore : field manifest "has_more_eligible" = .bool more)
    (hsha : field manifest "content_sha256" = .str sha) :
    HoldsManifest L manifest cutoff head events more sha := by
  have hcount := hrollup ("event_count", _) (List.mem_of_getElem? (i := 0) rfl)
  have htypes := hrollup ("event_type_counts", _) (List.mem_of_getElem? (i := 1) rfl)
  have hclasses := hrollup ("retention_class_counts", _) (List.mem_of_getElem? (i := 2) rfl)
  obtain ⟨n, hn, -⟩ := h.eventCount
  have hevents : field manifest "event_count" = .int events.length := by
    rw [hn] at hcount ⊢
    rw [eq_int.mp hcount]
  exact {
    recordType := h.manifestType
    schema := h.manifestSchema
    cutoffAt := h.manifestCutoff
    sourceHead := h.manifestHead
    eventCount := hevents
    eventTypeCounts := eq_of_counts h.typeCounts counts_eventTypeCounts htypes
    retentionClassCounts := eq_of_counts h.classCounts counts_retentionClassCounts hclasses
    occurredAtMin := eq_ofStr.mp (hrollup (_, _) (List.mem_of_getElem? (i := 3) rfl))
    occurredAtMax := eq_ofStr.mp (hrollup (_, _) (List.mem_of_getElem? (i := 4) rfl))
    expiresAtMin := eq_ofStr.mp (hrollup (_, _) (List.mem_of_getElem? (i := 5) rfl))
    expiresAtMax := eq_ofStr.mp (hrollup (_, _) (List.mem_of_getElem? (i := 6) rfl))
    hasMoreEligible := hmore
    contentSha256 := hsha }

theorem verifyRecords_eq_ok : verifyRecords L rawLines header eventValues manifest =
      .ok (cutoff, head, events, more, sha) ↔
    RecordsAgree L rawLines header eventValues manifest cutoff head events more sha := by
  constructor
  · intro h
    obtain ⟨⟨cutoff', head'⟩, hends, h⟩ := bind_eq_ok.mp h
    obtain ⟨_, hlength, h⟩ := bind_eq_ok.mp h
    obtain ⟨events', hevents, h⟩ := bind_eq_ok.mp h
    obtain ⟨_, hordered, h⟩ := bind_eq_ok.mp h
    obtain ⟨sha', hsha, h⟩ := bind_eq_ok.mp h
    obtain ⟨_, hdigest, h⟩ := bind_eq_ok.mp h
    obtain ⟨_, hrollup, h⟩ := bind_eq_ok.mp h
    obtain ⟨more', hmore, h⟩ := bind_eq_ok.mp h
    cases h
    have hends := verifyEnds_eq_ok.mp hends
    have hevents := parseEvents_eq_ok.mp hevents
    have hmore : field manifest "has_more_eligible" = .bool more := by
      split at hmore
      · next b hb =>
        cases hmore
        exact Subtype.ext hb
      · cases hmore
    have hholds := hends.holdsManifest (verifyRollup_eq_ok.mp hrollup) hmore
      (Subtype.ext (validateDigest_eq_ok.mp hsha).1)
    exact {
      header := eq_ofList nodup_headerFields hends.headerKeys (holdsHeader_iff.mp hends.holds)
      limit := hends.limit
      manifest := eq_ofList nodup_manifestFields hends.manifestKeys (holdsManifest_iff.mp hholds)
      recorded := hevents
      stamped := hends.stamped
      compatible := hends.compatible
      count := hevents.length_eq ▸ ensure_eq_ok.mp hlength
      ordered := hordered
      digest := ensure_eq_ok.mp hdigest }
  · intro h
    have hheader : HoldsHeader L header cutoff head (field header "event_limit") := by
      refine holdsHeader_iff.mpr fun p hp => ?_
      conv_lhs => rw [h.header]
      exact field_ofList nodup_headerFields hp
    have hmanifest : HoldsManifest L manifest cutoff head events more sha := by
      rw [h.manifest]
      exact holdsManifest_iff.mpr fun p hp => field_ofList nodup_manifestFields hp
    have hheaderKeys : ∀ k, k ∈ header.keys ↔ k ∈ headerKeys := by
      intro k
      rw [h.header]
      exact Dict.mem_keys_ofList nodup_headerFields
    have hmanifestKeys : ∀ k, k ∈ manifest.keys ↔ k ∈ manifestKeys := by
      intro k
      rw [h.manifest]
      exact Dict.mem_keys_ofList nodup_manifestFields
    have hends : EndsAgree L header manifest cutoff head := {
      headerKeys := hheaderKeys
      manifestKeys := hmanifestKeys
      holds := hheader
      limit := h.limit
      manifestType := hmanifest.recordType
      manifestSchema := hmanifest.schema
      manifestCutoff := hmanifest.cutoffAt
      manifestHead := hmanifest.sourceHead
      stamped := h.stamped
      compatible := h.compatible
      eventCount := ⟨_, hmanifest.eventCount, h.count⟩
      typeCounts := ⟨_, hmanifest.eventTypeCounts, counts_eventTypeCounts⟩
      classCounts := ⟨_, hmanifest.retentionClassCounts, counts_retentionClassCounts⟩ }
    have hsafe : safeHash sha = true := by
      rw [← h.digest]
      exact safeHash_hexdigest _
    refine bind_eq_ok.mpr ⟨(cutoff, head), verifyEnds_eq_ok.mpr hends, ?_⟩
    refine bind_eq_ok.mpr ⟨(), ensure_eq_ok.mpr (h.recorded.length_eq ▸ h.count), ?_⟩
    refine bind_eq_ok.mpr ⟨events, parseEvents_eq_ok.mpr h.recorded, ?_⟩
    refine bind_eq_ok.mpr ⟨(), h.ordered, ?_⟩
    refine bind_eq_ok.mpr ⟨sha, validateDigest_eq_ok.mpr
      ⟨congrArg Subtype.val hmanifest.contentSha256, hsafe⟩, ?_⟩
    refine bind_eq_ok.mpr ⟨(), ensure_eq_ok.mpr h.digest, ?_⟩
    refine bind_eq_ok.mpr ⟨(), verifyRollup_eq_ok.mpr (rollup_of_holds hmanifest), ?_⟩
    rw [hmanifest.hasMoreEligible]
    rfl

end Records

end Archive

end LLMBenchLab
