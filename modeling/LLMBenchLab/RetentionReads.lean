import LLMBenchLab.AuditRetention

/-!
# What a retention session reads

The table as a session of `governance/audit_retention.py` finds it while others append: rows are
loaded a chunk at a time, and what has been loaded lies between the first look and the last one.
Comparing them with an archive tells which of its events are there as they were archived and
which are not there (`classify_status`), since valid facts that are equal are the same.
-/

namespace LLMBenchLab

namespace Audit

open Python Faults
open Text (Str)
open Archive (ValidEvent)

/-! ## Equal facts are the same -/

/-- A double is known from its scaled magnitude. -/
theorem scaled_inj {i j : Fin 2047} {f g : Fin (2 ^ 52)}
    (h : Double.scaled i f = Double.scaled j g) : i = j ∧ f = g := by
  have hf := f.isLt
  have hg := g.isLt
  -- a number that is normal has its exponent as the place of its first bit
  have hlow : ∀ (e : ℕ) (m : ℕ), m < 2 ^ 52 → 2 ^ (52 + e) ≤ (2 ^ 52 + m) * 2 ^ e ∧
      (2 ^ 52 + m) * 2 ^ e < 2 ^ (52 + e + 1) := by
    intro e m hm
    have hpos : 0 < 2 ^ e := Nat.two_pow_pos e
    constructor
    · rw [pow_add]
      exact Nat.mul_le_mul_right _ (by omega)
    · calc (2 ^ 52 + m) * 2 ^ e < (2 ^ 52 + 2 ^ 52) * 2 ^ e :=
            Nat.mul_lt_mul_of_pos_right (by omega) hpos
        _ = 2 ^ (52 + e + 1) := by ring
  have hexp : ∀ {e e' m m' : ℕ}, m < 2 ^ 52 → m' < 2 ^ 52 →
      (2 ^ 52 + m) * 2 ^ e = (2 ^ 52 + m') * 2 ^ e' → e = e' ∧ m = m' := by
    intro e e' m m' hm hm' heq
    have h₁ := hlow e m hm
    have h₂ := hlow e' m' hm'
    have hle : 52 + e < 52 + e' + 1 :=
      (Nat.pow_lt_pow_iff_right (by decide)).mp (h₁.1.trans_lt (heq ▸ h₂.2))
    have hge : 52 + e' < 52 + e + 1 :=
      (Nat.pow_lt_pow_iff_right (by decide)).mp (h₂.1.trans_lt (heq ▸ h₁.2))
    obtain rfl : e = e' := by omega
    have := Nat.eq_of_mul_eq_mul_right (Nat.two_pow_pos e) heq
    exact ⟨rfl, by omega⟩
  have hzero : ∀ {k : Fin 2047} {m m' : ℕ}, m < 2 ^ 52 → k ≠ 0 →
      2 * m ≠ (2 ^ 52 + m') * 2 ^ (k : ℕ) := by
    intro k m m' hm hk heq
    have hk1 : 1 ≤ (k : ℕ) := Nat.one_le_iff_ne_zero.mpr fun h0 => hk (Fin.ext h0)
    have hpow : 2 ^ 1 ≤ 2 ^ (k : ℕ) := Nat.pow_le_pow_right (by decide) hk1
    have hle : (2 ^ 52 + m') * 2 ^ 1 ≤ (2 ^ 52 + m') * 2 ^ (k : ℕ) := Nat.mul_le_mul_left _ hpow
    omega
  unfold Double.scaled at h
  by_cases hi : i = 0
  · by_cases hj : j = 0
    · rw [if_pos hi, if_pos hj] at h
      exact ⟨hi.trans hj.symm, Fin.ext (by omega)⟩
    · rw [if_pos hi, if_neg hj] at h
      exact absurd h (hzero hf hj)
  · by_cases hj : j = 0
    · rw [if_neg hi, if_pos hj] at h
      exact absurd h.symm (hzero hg hi)
    · rw [if_neg hi, if_neg hj] at h
      obtain ⟨hij, hfg⟩ := hexp hf hg h
      exact ⟨Fin.ext hij, Fin.ext hfg⟩

/-- A duration has a positive sign. -/
theorem Duration.positive {x : Double} (h : Duration x) :
    ∃ e f, x = .finite false e f := by
  obtain ⟨hfin, hneg, hzero⟩ := h
  cases x with
  | infinite negative => cases hfin
  | nan => cases hfin
  | finite negative e f =>
    cases negative with
    | false => exact ⟨e, f, rfl⟩
    | true =>
      have hle : (Double.scaled e f : ℤ) ≤ 0 := by
        have hlt := of_decide_eq_false hneg
        simp only [if_true] at hlt
        omega
      have hscaled : Double.scaled e f = 0 := by omega
      have his : Double.isZero (.finite true e f) = true := by
        rw [Double.isZero, Double.value?, hscaled]
        rfl
      rw [unsignedZero, if_pos his] at hzero
      cases hzero

theorem Duration.eq_of_eq {x y : Double} (hx : Duration x) (hy : Duration y)
    (h : x.eq y = true) : x = y := by
  obtain ⟨i, f, rfl⟩ := hx.positive
  obtain ⟨j, g, rfl⟩ := hy.positive
  have hvalue : ((Double.scaled i f : ℕ) : ℤ) = (Double.scaled j g : ℕ) := by
    simpa [Double.eq, Double.isFinite, Double.value?] using h
  obtain ⟨rfl, rfl⟩ := scaled_inj (Int.ofNat.inj hvalue)
  rfl

/-- Normal values of one field that are equal are the same. -/
theorem Normalizes.eq_of_eq {L : Stdlib} {c : PayloadContract} {eventType key : Str} {v w : Value}
    (hv : Normalizes L c eventType key (.json v.val) v)
    (hw : Normalizes L c eventType key (.json w.val) w) (h : v.val.eq w.val = true) : v = w := by
  generalize Arg.json v.val = a at hv
  generalize Arg.json w.val = b at hw
  cases hv <;> cases hw <;>
    simp_all [Json.eq, Json.eqNumber, Json.integer?, Value.null, Value.int, Value.bool, Value.str]
  next b b' _ _ _ =>
    cases b <;> cases b' <;> first | rfl | cases h

/-- Dictionaries that are equal are the same where equal values of one key are. -/
theorem dict_eq_of_eq {d e : Dict}
    (hvalue : ∀ k v w, (k, v) ∈ d.fields → (k, w) ∈ e.fields → v.val.eq w.val = true → v = w)
    (h : d.toValue.val.eq e.toValue.val = true) : d = e := by
  have hfields : (d.fields.map fun p => (p.1, p.2.val)).length =
        (e.fields.map fun p => (p.1, p.2.val)).length ∧
      Json.eqFields (d.fields.map fun p => (p.1, p.2.val))
        (e.fields.map fun p => (p.1, p.2.val)) = true := by
    simpa [Dict.toValue, Json.eq] using h
  obtain ⟨hlen, heq⟩ := hfields
  rw [List.length_map, List.length_map] at hlen
  rw [Json.eqFields_eq_true] at heq
  have hget : ∀ p ∈ d.fields, e.get? p.1 = some p.2 := by
    intro p hp
    obtain ⟨w, hw, hpw⟩ := heq _ (List.mem_map_of_mem hp)
    rw [lookup_mapVal] at hw
    obtain ⟨v, hv, rfl⟩ := Option.map_eq_some_iff.mp hw
    rw [hvalue p.1 p.2 v hp (mem_of_lookup hv) hpw]
    exact hv
  have hsub : d.keys ⊆ e.keys := by
    intro k hk
    obtain ⟨p, hp, rfl⟩ := List.mem_map.mp hk
    exact Dict.mem_keys_of_get? (hget p hp)
  have hperm : d.keys.Perm e.keys :=
    (List.subperm_of_subset d.sorted.nodup hsub).perm_of_length_le
      (by simp only [Dict.keys, List.length_map]; omega)
  refine Dict.ext fun k => ?_
  by_cases hk : k ∈ d.keys
  · obtain ⟨p, hp, rfl⟩ := List.mem_map.mp hk
    rw [Dict.get?_of_mem hp, hget p hp]
  · rw [Dict.get?_of_notMem hk, Dict.get?_of_notMem fun hmem => hk (hperm.mem_iff.mpr hmem)]

/-- Valid facts that the dataclass calls equal are the same. -/
theorem AuditEventReadFacts.eq_of_eq {L : Stdlib} {f g : AuditEventReadFacts}
    (hf : ValidEvent L f) (hg : ValidEvent L g) (h : f.eq g = true) : f = g := by
  obtain ⟨id, eventKey, eventType, payloadHash, payload, retentionClass, occurredAt, expiresAt,
    correlationId, runId, modelId, questionId, workerId, reservationId, attempt, providerAttempt,
    leaseToken, durationMs⟩ := f
  obtain ⟨id', eventKey', eventType', payloadHash', payload', retentionClass', occurredAt',
    expiresAt', correlationId', runId', modelId', questionId', workerId', reservationId', attempt',
    providerAttempt', leaseToken', durationMs'⟩ := g
  simp only [AuditEventReadFacts.eq, Bool.and_eq_true, beq_iff_eq] at h
  obtain ⟨⟨⟨⟨⟨⟨⟨⟨⟨⟨⟨⟨⟨⟨⟨⟨⟨rfl, rfl⟩, rfl⟩, rfl⟩, hpayload⟩, rfl⟩, rfl⟩, rfl⟩, rfl⟩, rfl⟩, rfl⟩,
    rfl⟩, rfl⟩, rfl⟩, rfl⟩, rfl⟩, rfl⟩, hduration⟩ := h
  have hpayloads : payload = payload' := by
    refine dict_eq_of_eq (fun k v w hv hw heq => ?_) hpayload
    exact (hf.payload.fields _ hv).eq_of_eq (hg.payload.fields _ hw) heq
  have hdurations : durationMs = durationMs' := by
    cases durationMs with
    | none =>
      cases durationMs' with
      | none => rfl
      | some y => cases hduration
    | some x =>
      cases durationMs' with
      | none => cases hduration
      | some y =>
        exact congrArg some ((hf.durationMs x rfl).eq_of_eq (hg.durationMs y rfl) hduration)
  rw [hpayloads, hdurations]

/-! ## The table -/

/-- The unique columns of `audit_events`. -/
structure AuditStore.Keyed (store : AuditStore) : Prop where
  id : (store.events.map AuditEvent.id).Nodup
  eventKey : (store.events.map AuditEvent.eventKey).Nodup

variable {store store' : AuditStore} {row row' : AuditEvent}

theorem AuditStore.Keyed.eq_of_id (h : store.Keyed) (hr : row ∈ store.events)
    (hr' : row' ∈ store.events) (heq : row.id = row'.id) : row = row' :=
  List.inj_on_of_nodup_map h.id hr hr' heq

theorem AuditStore.Keyed.eq_of_eventKey (h : store.Keyed) (hr : row ∈ store.events)
    (hr' : row' ∈ store.events) (heq : row.eventKey = row'.eventKey) : row = row' :=
  List.inj_on_of_nodup_map h.eventKey hr hr' heq

theorem insert_eq_ok : store.insert row = .ok store' ↔
    (row.checks = true ∧
      (∀ other ∈ store.events, other.id ≠ row.id ∧ other.eventKey ≠ row.eventKey) ∧
      ∀ r ∈ row.reservationId, r ∈ store.reservations) ∧
    store' = { store with events := store.events ++ [row] } := by
  rw [AuditStore.insert]
  split
  · next h => exact ⟨fun heq => ⟨h, (Except.ok.inj heq).symm⟩, fun heq => congrArg _ heq.2.symm⟩
  · next h =>
    constructor
    · intro heq
      cases heq
    · exact fun heq => absurd heq.1 h

theorem AuditStore.Keyed.insert (h : store.Keyed) (hinsert : store.insert row = .ok store') :
    store'.Keyed := by
  obtain ⟨⟨-, hnew, -⟩, rfl⟩ := insert_eq_ok.mp hinsert
  constructor
  · rw [List.map_append, List.map_singleton, List.nodup_append]
    refine ⟨h.id, List.nodup_singleton _, fun i hi j hj heq => ?_⟩
    obtain ⟨other, hother, rfl⟩ := List.mem_map.mp hi
    exact (hnew other hother).1 (heq.trans (List.mem_singleton.mp hj))
  · rw [List.map_append, List.map_singleton, List.nodup_append]
    refine ⟨h.eventKey, List.nodup_singleton _, fun k hk j hj heq => ?_⟩
    obtain ⟨other, hother, rfl⟩ := List.mem_map.mp hk
    exact (hnew other hother).2 (heq.trans (List.mem_singleton.mp hj))

theorem AuditStore.Keyed.filter (h : store.Keyed) (p : AuditEvent → Bool) :
    AuditStore.Keyed { store with events := store.events.filter p } :=
  ⟨h.id.sublist (List.filter_sublist.map _), h.eventKey.sublist (List.filter_sublist.map _)⟩

/-- The flush inserts rows that are in nobody's way. -/
theorem insertAll_eq_ok {rows : List AuditEvent} (h : insertAll rows store = .ok store') :
    store' = { store with events := store.events ++ rows } ∧
      ∀ row ∈ rows, ∀ other ∈ store.events, other.id ≠ row.id ∧ other.eventKey ≠ row.eventKey := by
  induction rows generalizing store with
  | nil =>
    cases h
    exact ⟨by rw [List.append_nil], fun _ hrow => absurd hrow List.not_mem_nil⟩
  | cons row rows ih =>
    rw [insertAll, List.foldlM_cons] at h
    obtain ⟨next, hnext, h⟩ := bind_eq_ok.mp h
    obtain ⟨⟨-, hnew, -⟩, rfl⟩ := insert_eq_ok.mp hnext
    obtain ⟨hstore, hrows⟩ := ih h
    refine ⟨?_, List.forall_mem_cons.mpr ⟨hnew, fun row' hrow' other hother => ?_⟩⟩
    · rw [hstore, List.append_assoc]
      rfl
    · exact hrows row' hrow' other (List.mem_append_left _ hother)

/-! ## What the others commit -/

/-- Events are added at the end. -/
def Grows (d d' : Database) : Prop := ∃ rows, d'.store.events = d.store.events ++ rows

theorem Grows.refl (d : Database) : Grows d d := ⟨[], (List.append_nil _).symm⟩

theorem Grows.trans {d d' d'' : Database} (h : Grows d d') (h' : Grows d' d'') : Grows d d'' := by
  obtain ⟨rows, hrows⟩ := h
  obtain ⟨rows', hrows'⟩ := h'
  exact ⟨rows ++ rows', by rw [hrows', hrows, List.append_assoc]⟩

theorem Grows.mem {d d' : Database} (h : Grows d d') (hrow : row ∈ d.store.events) :
    row ∈ d'.store.events := by
  obtain ⟨rows, hrows⟩ := h
  rw [hrows]
  exact List.mem_append_left _ hrow

variable {held : Bool} {own : Database → Database} {d d' : Database}

/-- Nobody removes an event while the lock is held. -/
theorem Commits.grows (h : Commits true own d d') : Grows d d' := by
  cases h with
  | append hinsert _ => exact ⟨_, congrArg AuditStore.events (insert_eq_ok.mp hinsert).2⟩
  | purge p hfree => cases hfree
  | reserve id => exact .refl d
  | migrate heads => exact .refl d
  | tick now => exact .refl d

theorem Commits.keyed (h : Commits held own d d') (hd : d.store.Keyed) : d'.store.Keyed := by
  cases h with
  | append hinsert _ => exact hd.insert hinsert
  | purge p _ => exact hd.filter p
  | reserve id => exact ⟨hd.id, hd.eventKey⟩
  | migrate heads => exact hd
  | tick now => exact hd

/-- A row that is pending keeps its columns to itself. -/
theorem Commits.apart {rows : List AuditEvent} (h : Commits held (Database.append rows) d d')
    (hrow : row ∈ rows)
    (hd : ∀ other ∈ d.store.events, other.id ≠ row.id ∧ other.eventKey ≠ row.eventKey) :
    held = true → ∀ other ∈ d'.store.events, other.id ≠ row.id ∧ other.eventKey ≠ row.eventKey := by
  intro hheld other hother
  cases h with
  | append hinsert hpending =>
    obtain ⟨-, rfl⟩ := insert_eq_ok.mp hinsert
    obtain ⟨⟨-, hnew, -⟩, -⟩ := insert_eq_ok.mp hpending
    rcases List.mem_append.mp hother with hother | hother
    · exact hd other hother
    · obtain rfl := List.mem_singleton.mp hother
      obtain ⟨hid, hkey⟩ := hnew row (List.mem_append_right _ hrow)
      exact ⟨hid.symm, hkey.symm⟩
  | purge p hfree => cases hheld.symm.trans hfree
  | reserve id => exact hd other hother
  | migrate heads => exact hd other hother
  | tick now => exact hd other hother

variable {M : Maintenance}

/-- From one instant to a later one. -/
abbrev Later (M : Maintenance) : Database → Database → Prop := Session.Meanwhile M.service

theorem Later.keyed (h : Later M d d') (hd : d.store.Keyed) : d'.store.Keyed := by
  induction h with
  | refl => exact hd
  | tail _ hstep ih =>
    obtain ⟨held, own, hstep⟩ := hstep
    exact (M.commits held own _ _ hstep).keyed ih

theorem others_grows (h : M.service.Others true own d d') : Grows d d' := by
  induction h with
  | refl => exact .refl d
  | tail _ hstep ih => exact ih.trans (M.commits true own _ _ hstep).grows

/-! ## A transaction that reads -/

/-- What it sees only grows: it holds the lock, or has its snapshot. -/
inductive Stable (w : World M.service Bool) : Prop where
  | held : w.held = true → w.isolation = .readCommitted → Stable w
  | snapshot (seen : Database) : w.isolation = .repeatableRead (some seen) → Stable w

/-- From one world of a transaction without writes to a later one. -/
structure Steady (w w' : World M.service Bool) : Prop where
  later : Later M w.committed w'.committed
  grows : Grows w.view w'.view
  own : w'.own = w.own
  held : w'.held = w.held
  isolation : w'.isolation = w.isolation
  vars : w'.vars = w.vars

variable {w w' w'' : World M.service Bool}

theorem Steady.refl (w : World M.service Bool) : Steady w w := ⟨.refl, .refl _, rfl, rfl, rfl, rfl⟩

theorem Steady.trans (h : Steady w w') (h' : Steady w' w'') : Steady w w'' :=
  ⟨h.later.trans h'.later, h.grows.trans h'.grows, h'.own.trans h.own, h'.held.trans h.held,
    h'.isolation.trans h.isolation, h'.vars.trans h.vars⟩

theorem Steady.stable (h : Steady w w') (hw : Stable w) : Stable w' := by
  cases hw with
  | held hheld hiso => exact .held (h.held.trans hheld) (h.isolation.trans hiso)
  | snapshot seen hiso => exact .snapshot seen (h.isolation.trans hiso)

theorem Stable.isolation (hw : Stable w) : w.isolation ≠ .repeatableRead none := by
  cases hw with
  | held _ hiso => exact fun h => by cases hiso.symm.trans h
  | snapshot seen hiso => exact fun h => by cases hiso.symm.trans h

theorem view_of_readCommitted (h : w.isolation = .readCommitted) : w.view = w.own w.committed := by
  unfold World.view
  rw [h]

theorem view_of_snapshot {seen : Database} (h : w.isolation = .repeatableRead (some seen)) :
    w.view = w.own seen := by
  unfold World.view
  rw [h]

theorem Steady.of_turned (h : Session.Turned w w') (hw : Stable w) (hown : w.own = id) :
    Steady w w' where
  later := h.meanwhile
  grows := by
    cases hw with
    | held hheld hiso =>
      rw [view_of_readCommitted hiso, view_of_readCommitted (h.isolation.trans hiso), h.own, hown]
      exact others_grows (hheld ▸ h.others)
    | snapshot seen hiso =>
      rw [view_of_snapshot hiso, view_of_snapshot (h.isolation.trans hiso), h.own]
      exact .refl _
  own := h.own
  held := h.held
  isolation := h.isolation
  vars := h.vars

/-- A statement of such a transaction sees a later view, or fails. -/
theorem ends_read_of_stable {α : Type} {f : Database → Except Raised α} (hw : Stable w)
    (hown : w.own = id) : (Session.read f : Retention M α).Ends w fun w' r =>
      Steady w w' ∧ (r = f w'.view ∨ ∃ e, r = .error e ∧ M.service.Fault e) :=
  (Session.ends_read_settled hw.isolation).mono fun _ _ h => ⟨.of_turned h.1 hw hown, h.2⟩

/-! ## Chunks -/

theorem flatten_chunks {α : Type} (values : List α) : (chunks values).flatten = values := by
  have htake : ∀ n, ((List.range n).map fun i => (values.drop (400 * i)).take 400).flatten =
      values.take (400 * n) := by
    intro n
    induction n with
    | zero => rfl
    | succ n ih =>
      rw [List.range_succ, List.map_append, List.flatten_append, ih, Nat.mul_succ, List.take_add]
      simp
  rw [chunks, htake]
  exact List.take_of_length_le (by omega)

theorem mem_chunks {α : Type} {values : List α} {a : α} :
    a ∈ values ↔ ∃ chunk ∈ chunks values, a ∈ chunk := by
  conv_lhs => rw [← flatten_chunks values]
  exact List.mem_flatten

/-! ## Loading -/

theorem mem_setRow {rows : List AuditEvent} (h : row' ∈ setRow rows row) :
    row' = row ∨ row' ∈ rows := by
  unfold setRow at h
  split at h
  · obtain ⟨other, hother, heq⟩ := List.mem_map.mp h
    split at heq
    · exact .inl heq.symm
    · exact .inr (heq ▸ hother)
  · rcases List.mem_append.mp h with h | h
    · exact .inr h
    · exact .inl (List.mem_singleton.mp h)

theorem mem_setRow_self {rows : List AuditEvent} : row ∈ setRow rows row := by
  unfold setRow
  split
  · next h =>
    obtain ⟨other, hother, heq⟩ := List.any_eq_true.mp h
    exact List.mem_map.mpr ⟨other, hother, if_pos heq⟩
  · exact List.mem_append_right _ (List.mem_singleton.mpr rfl)

theorem mem_setRow_of_mem {rows : List AuditEvent} (h : row' ∈ rows)
    (hid : row'.id = row.id → row' = row) : row' ∈ setRow rows row := by
  unfold setRow
  split
  · refine List.mem_map.mpr ⟨row', h, ?_⟩
    split
    · next heq => exact (hid (beq_iff_eq.mp heq)).symm
    · rfl
  · exact List.mem_append_left _ h

theorem mem_foldl_setRow {found rows : List AuditEvent} (h : row ∈ found.foldl setRow rows) :
    row ∈ found ∨ row ∈ rows := by
  induction found generalizing rows with
  | nil => exact .inr h
  | cons first found ih =>
    rcases ih h with h | h
    · exact .inl (List.mem_cons_of_mem _ h)
    · rcases mem_setRow h with rfl | h
      · exact .inl List.mem_cons_self
      · exact .inr h

theorem mem_foldl_setRow_of_mem {found rows : List AuditEvent} (h : row ∈ found ∨ row ∈ rows)
    (hid : ∀ other ∈ found, row.id = other.id → row = other) : row ∈ found.foldl setRow rows := by
  induction found generalizing rows with
  | nil => exact h.resolve_left List.not_mem_nil
  | cons first found ih =>
    rw [List.forall_mem_cons] at hid
    refine ih ?_ hid.2
    rcases h with h | h
    · rcases List.mem_cons.mp h with rfl | h
      · exact .inr mem_setRow_self
      · exact .inl h
    · exact .inr (mem_setRow_of_mem h hid.1)

theorem mem_candidates {events : List AuditEventReadFacts} : row ∈ candidates events store ↔
    row ∈ store.events ∧ ∃ event ∈ events, event.id = row.id ∨ event.eventKey = row.eventKey := by
  rw [candidates, List.mem_filter, Bool.or_eq_true, List.any_eq_true, List.any_eq_true]
  refine and_congr_right fun _ => ?_
  simp only [beq_iff_eq]
  constructor
  · rintro (⟨event, hevent, h⟩ | ⟨event, hevent, h⟩)
    · exact ⟨event, hevent, .inl h⟩
    · exact ⟨event, hevent, .inr h⟩
  · rintro ⟨event, hevent, h | h⟩
    · exact .inl ⟨event, hevent, h⟩
    · exact .inr ⟨event, hevent, h⟩

/-- What is loaded lies between the candidates of the first instant and the table of the last. -/
structure Loaded (events : List AuditEventReadFacts) (d d' : Database) (rows : List AuditEvent) :
    Prop where
  complete : ∀ row ∈ candidates events d.store, row ∈ rows
  sound : ∀ row ∈ rows, row ∈ d'.store.events

theorem ends_loadCandidateRows {events : List AuditEventReadFacts} (hw : Stable w)
    (hown : w.own = id) (hkeyed : ∀ w', Steady w w' → w'.view.store.Keyed) :
    (loadCandidateRows M events).Ends w fun w' r => Steady w w' ∧
      match r with
      | .ok rows => Loaded events w.view w'.view rows
      | .error e => M.service.Fault e := by
  -- after some chunks: what they have found is there, and nothing else
  let I : List (List AuditEventReadFacts) → List AuditEvent → World M.service Bool → Prop :=
    fun done rows w' => Steady w w' ∧ Loaded done.flatten w.view w'.view rows
  have hloop := Session.ends_foldlM (S := M.service)
    (f := fun rows chunk => do
      let found ← (Session.read fun d => .ok (candidates chunk d.store) : Retention M _)
      return found.foldl setRow rows)
    (I := I) (E := fun e w' => Steady w w' ∧ M.service.Fault e) (l := chunks events) (b := [])
    (w := w) ?_ ?_
  · refine hloop.mono fun w' r hr => ?_
    cases r with
    | error e => exact hr
    | ok rows =>
      obtain ⟨hsteady, hloaded⟩ := hr
      rw [flatten_chunks] at hloaded
      exact ⟨hsteady, hloaded⟩
  · rintro done chunk rest rows w₁ - ⟨hsteady, hloaded⟩
    have hown₁ : w₁.own = id := hsteady.own.trans hown
    refine Session.ends_bind ((ends_read_of_stable (hsteady.stable hw) hown₁).mono ?_)
    rintro w₂ r ⟨hsteady', rfl | ⟨e, rfl, he⟩⟩
    · refine Session.ends_pure ⟨hsteady.trans hsteady', fun row hrow => ?_, fun row hrow => ?_⟩
      · have hkeyed₂ := hkeyed w₂ (hsteady.trans hsteady')
        obtain ⟨hmem, event, hevent, heq⟩ := mem_candidates.mp hrow
        have hmem₂ := (hsteady.trans hsteady').grows.mem hmem
        refine mem_foldl_setRow_of_mem ?_ fun other hother hid =>
          hkeyed₂.eq_of_id hmem₂ (mem_candidates.mp hother).1 hid
        rw [List.flatten_append, List.mem_append] at hevent
        rcases hevent with hevent | hevent
        · exact .inr (hloaded.complete row (mem_candidates.mpr ⟨hmem, event, hevent, heq⟩))
        · rw [List.flatten_singleton] at hevent
          exact .inl (mem_candidates.mpr ⟨hmem₂, event, hevent, heq⟩)
      · rcases mem_foldl_setRow hrow with hrow | hrow
        · exact (mem_candidates.mp hrow).1
        · exact hsteady'.grows.mem (hloaded.sound row hrow)
    · exact ⟨hsteady.trans hsteady', he⟩
  · refine ⟨.refl w, fun row hrow => ?_, fun row hrow => absurd hrow List.not_mem_nil⟩
    obtain ⟨-, event, hevent, -⟩ := mem_candidates.mp hrow
    cases hevent

/-! ## Comparing -/

/-- The event is there as it was archived. -/
def Present (L : Stdlib) (d : Database) (event : AuditEventReadFacts) : Prop :=
  ∃ row ∈ d.store.events, row.id = event.id ∧ row.eventKey = event.eventKey ∧
    validateAuditEventForRead L row = .ok event

/-- Neither its id nor its key is there. -/
def Absent (d : Database) (event : AuditEventReadFacts) : Prop :=
  ∀ row ∈ d.store.events, row.id ≠ event.id ∧ row.eventKey ≠ event.eventKey

theorem find?_reverse_eq_some {α : Type} {rows : List α} {p : α → Bool} {a : α}
    (hunique : ∀ a ∈ rows, ∀ b ∈ rows, p a = true → p b = true → a = b) :
    rows.reverse.find? p = some a ↔ a ∈ rows ∧ p a = true := by
  constructor
  · intro h
    exact ⟨List.mem_reverse.mp (List.mem_of_find?_eq_some h), List.find?_some h⟩
  · rintro ⟨ha, hp⟩
    obtain ⟨b, hb⟩ := Option.isSome_iff_exists.mp
      (List.find?_isSome.mpr ⟨a, List.mem_reverse.mpr ha, hp⟩)
    rw [hb, hunique a ha b (List.mem_reverse.mp (List.mem_of_find?_eq_some hb)) hp
      (List.find?_some hb)]

theorem find?_reverse_eq_none {α : Type} {rows : List α} {p : α → Bool} :
    rows.reverse.find? p = none ↔ ∀ a ∈ rows, ¬ p a = true := by
  rw [List.find?_eq_none]
  exact forall_congr' fun a => by rw [List.mem_reverse]

/-- A value is equal to itself, unless it holds a NaN. -/
theorem Normalizes.eq_self {L : Stdlib} {c : PayloadContract} {eventType key : Str} {v : Value}
    (h : Normalizes L c eventType key (.json v.val) v) : v.val.eq v.val = true := by
  generalize Arg.json v.val = a at h
  cases h <;> simp [Json.eq, Json.eqNumber, Json.integer?, Value.null, Value.int, Value.bool,
    Value.str]

theorem dict_eq_self {d : Dict} (h : ∀ p ∈ d.fields, p.2.val.eq p.2.val = true) :
    d.toValue.val.eq d.toValue.val = true := by
  have hfields : Json.eqFields (d.fields.map fun p => (p.1, p.2.val))
      (d.fields.map fun p => (p.1, p.2.val)) = true := by
    refine Json.eqFields_eq_true.mpr fun p hp => ?_
    obtain ⟨q, hq, rfl⟩ := List.mem_map.mp hp
    refine ⟨q.2.val, ?_, h q hq⟩
    rw [lookup_mapVal, lookup_of_mem d.sorted.nodup hq]
    rfl
  simpa [Dict.toValue, Json.eq] using hfields

theorem AuditEventReadFacts.eq_self {L : Stdlib} {f : AuditEventReadFacts} (hf : ValidEvent L f) :
    f.eq f = true := by
  have hpayload := dict_eq_self fun p hp => (hf.payload.fields p hp).eq_self
  have hduration : (Json.ofFloat f.durationMs).eq (Json.ofFloat f.durationMs) = true := by
    cases hd : f.durationMs with
    | none => rfl
    | some x =>
      obtain ⟨e, m, rfl⟩ := (hf.durationMs x hd).positive
      simp [Json.ofFloat, Json.eq, Json.eqNumber, Double.eq, Double.isFinite, Double.value?]
  simp [AuditEventReadFacts.eq, hpayload, hduration]

/-- The contract of the reader is that of the archive. -/
theorem validEvent_of_read {L : Stdlib} {f : AuditEventReadFacts}
    (h : validateAuditEventForRead L row = .ok f) : row.raw.Describes L f ∧ ValidEvent L f := by
  have hcheck : checkEvent L archiveV1PayloadContract archiveV1RetentionDays row.raw = some f := by
    rw [validateAuditEventForRead, validateAuditEventValuesForRead] at h
    split at h
    · next g hg =>
      cases h
      exact hg
    · cases h
  exact (checkEvent_eq_some plain_archiveV1PayloadContract).mp hcheck

section Verdict

variable {events : List AuditEventReadFacts} {rows : List AuditEvent} {event : AuditEventReadFacts}
  {L : Stdlib}

theorem Loaded.absent (h : Loaded events d d' rows) (hevent : event ∈ events)
    (hverdict : verdict L rows event = .absent) : Absent d event := by
  unfold verdict at hverdict
  split at hverdict
  · next hid hkey =>
    intro row hrow
    have hmem : ∀ heq : event.id = row.id ∨ event.eventKey = row.eventKey, row ∈ rows :=
      fun heq => h.complete row (mem_candidates.mpr ⟨hrow, event, hevent, heq⟩)
    constructor
    · exact fun heq => find?_reverse_eq_none.mp hid row (hmem (.inl heq.symm)) (beq_iff_eq.mpr heq)
    · exact fun heq => find?_reverse_eq_none.mp hkey row (hmem (.inr heq.symm)) (beq_iff_eq.mpr heq)
  · split at hverdict
    · split at hverdict
      · split at hverdict <;> cases hverdict
      · cases hverdict
    · cases hverdict
  · cases hverdict

theorem Loaded.present (h : Loaded events d d' rows) (hd' : d'.store.Keyed)
    (hvalid : ValidEvent L event) (hverdict : verdict L rows event = .exact) :
    Present L d' event := by
  unfold verdict at hverdict
  split at hverdict
  · cases hverdict
  · next idRow keyRow hid hkey =>
    split at hverdict
    · next hsame =>
      split at hverdict
      · next actual hactual =>
        split at hverdict
        · next heq =>
          have hidRow := h.sound idRow (List.mem_reverse.mp (List.mem_of_find?_eq_some hid))
          have hkeyRow := h.sound keyRow (List.mem_reverse.mp (List.mem_of_find?_eq_some hkey))
          obtain rfl := hd'.eq_of_id hidRow hkeyRow hsame
          obtain rfl := AuditEventReadFacts.eq_of_eq (validEvent_of_read hactual).2 hvalid heq
          exact ⟨idRow, hidRow, beq_iff_eq.mp (List.find?_some hid :),
            beq_iff_eq.mp (List.find?_some hkey :), hactual⟩
        · cases hverdict
      · cases hverdict
    · cases hverdict
  · cases hverdict

theorem Loaded.exact_of_present (h : Loaded events d d' rows) (hd' : d'.store.Keyed)
    (hevent : event ∈ events) (hpresent : Present L d event) :
    verdict L rows event = .exact := by
  obtain ⟨row, hrow, hid, hkey, hread⟩ := hpresent
  have hmem : row ∈ rows := h.complete row (mem_candidates.mpr ⟨hrow, event, hevent, .inl hid.symm⟩)
  have hfindId : rows.reverse.find? (·.id == event.id) = some row := by
    refine (find?_reverse_eq_some fun a ha b hb hpa hpb => ?_).mpr ⟨hmem, beq_iff_eq.mpr hid⟩
    exact hd'.eq_of_id (h.sound a ha) (h.sound b hb)
      ((beq_iff_eq.mp hpa).trans (beq_iff_eq.mp hpb).symm)
  have hfindKey : rows.reverse.find? (·.eventKey == event.eventKey) = some row := by
    refine (find?_reverse_eq_some fun a ha b hb hpa hpb => ?_).mpr ⟨hmem, beq_iff_eq.mpr hkey⟩
    exact hd'.eq_of_eventKey (h.sound a ha) (h.sound b hb)
      ((beq_iff_eq.mp hpa).trans (beq_iff_eq.mp hpb).symm)
  rw [verdict, hfindId, hfindKey]
  dsimp only
  rw [if_pos rfl, hread]
  dsimp only
  rw [if_pos (AuditEventReadFacts.eq_self (validEvent_of_read hread).2)]

theorem Loaded.absent_of_absent (h : Loaded events d d' rows) (habsent : Absent d' event) :
    verdict L rows event = .absent := by
  have hfindId : rows.reverse.find? (·.id == event.id) = none :=
    find?_reverse_eq_none.mpr fun row hrow heq =>
      (habsent row (h.sound row hrow)).1 (beq_iff_eq.mp heq)
  have hfindKey : rows.reverse.find? (·.eventKey == event.eventKey) = none :=
    find?_reverse_eq_none.mpr fun row hrow heq =>
      (habsent row (h.sound row hrow)).2 (beq_iff_eq.mp heq)
  rw [verdict, hfindId, hfindKey]

/-- What each status says of the events. -/
theorem classify_status (L : Stdlib) (events : List AuditEventReadFacts) (rows : List AuditEvent) :
    match (classify L events rows).status with
    | .emptyArchive => events = []
    | .conflict => ∃ event ∈ events, verdict L rows event = .conflict
    | .allExact => events ≠ [] ∧ ∀ event ∈ events, verdict L rows event = .exact
    | .allAbsent => events ≠ [] ∧ ∀ event ∈ events, verdict L rows event = .absent
    | .mixedExactAbsent => (∀ event ∈ events, verdict L rows event ≠ .conflict) ∧
        (∃ event ∈ events, verdict L rows event ≠ .exact) ∧
        ∃ event ∈ events, verdict L rows event ≠ .absent := by
  have hall : ∀ v, events.countP (fun event => verdict L rows event = v) = events.length ↔
      ∀ event ∈ events, verdict L rows event = v := by
    intro v
    rw [List.countP_eq_length]
    exact forall₂_congr fun _ _ => decide_eq_true_iff
  have hnone : events.countP (fun event => verdict L rows event = .conflict) = 0 ↔
      ∀ event ∈ events, verdict L rows event ≠ .conflict := by
    rw [List.countP_eq_zero]
    exact forall₂_congr fun _ _ => not_congr decide_eq_true_iff
  unfold classify
  dsimp only
  by_cases hempty : events.length = 0
  · rw [if_pos hempty]
    exact List.eq_nil_of_length_eq_zero hempty
  rw [if_neg hempty]
  have hne : events ≠ [] := fun h => hempty (h ▸ rfl)
  by_cases hconflict : events.countP (fun event => verdict L rows event = .conflict) = 0
  · rw [if_neg (not_not.mpr hconflict)]
    by_cases hexact : events.countP (fun event => verdict L rows event = .exact) = events.length
    · rw [if_pos hexact]
      exact ⟨hne, (hall .exact).mp hexact⟩
    rw [if_neg hexact]
    by_cases habsent : events.countP (fun event => verdict L rows event = .absent) = events.length
    · rw [if_pos habsent]
      exact ⟨hne, (hall .absent).mp habsent⟩
    rw [if_neg habsent]
    rw [hall] at hexact habsent
    push Not at hexact habsent
    exact ⟨hnone.mp hconflict, hexact, habsent⟩
  · rw [if_pos hconflict]
    rw [hnone] at hconflict
    push Not at hconflict
    exact hconflict

end Verdict

end Audit

end LLMBenchLab
