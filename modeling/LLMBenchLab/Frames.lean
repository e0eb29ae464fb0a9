import LLMBenchLab.Books
import LLMBenchLab.LeaseSteps

/-!
# Frames: what an operation leaves alone

Frame relations checked write by write (`Prog.Within`). The ledger
transactions (`question_context` to `reconcile_run_lease`) write scopes,
buckets, reservations, cursors and events: Runs, Responses and policies stay
(`SameControl`). With the moves of `LeaseSteps` this closes the account of what
a committed operation can do to the Runs (`steps_of_exec`).
-/

namespace LLMBenchLab

open Relational Relational.Prog RunLeases Governance

variable {cfg : Config} {s s' : Store} {α β : Type}

/-! ## Writes to the ledger only -/

/-- Runs, Responses and policies are unchanged, and no event tells the end or a
failure of a Run. -/
structure SameControl (s s' : Store) : Prop where
  runs : s'.runs = s.runs
  responses : s'.responses = s.responses
  policies : s'.policies = s.policies
  audit : Appended EventKey.Passing s.audit s'.audit

theorem SameControl.refl (s : Store) : SameControl s s := ⟨rfl, rfl, rfl, .refl _⟩

theorem SameControl.trans {a b c : Store} (h : SameControl a b) (h' : SameControl b c) :
    SameControl a c :=
  ⟨h'.runs.trans h.runs, h'.responses.trans h.responses, h'.policies.trans h.policies,
    h.audit.trans h'.audit⟩

/-- An event is appended within any relation that bears one more event. -/
theorem within_appendAuditEvent {K : Store → Store → Prop} {k : EventKey} {now : Time}
    {f : AuditFacts} (hK : ∀ s, K s { s with audit := s.audit.insert ⟨k, now, f⟩ }) :
    Within K (appendAuditEvent k now f) := by
  intro s
  dsimp only
  split
  · exact within_flush hK
  · exact within_ensure _ _

@[simp] theorem within_ofExcept {K : Store → Store → Prop} (x : Except Err α) :
    Within K (Tx.ofExcept x) := by
  rcases x with e | a
  · trivial
  · trivial

/-! ### Statements that only read -/

theorem readOnly_lockScopesById (ids : List ScopeId) : ReadOnly (lockScopesById ids) :=
  (within_forUpdate _).bind fun _ => trivial

theorem readOnly_lockExistingBuckets (keys : List BucketKey) (dirty : List Bucket) :
    ReadOnly (lockExistingBuckets keys dirty) :=
  (within_forUpdate _).bind fun _ => (within_ensure _ _).bind fun _ => trivial

theorem readOnly_validateScopes (scopes : List Scope) :
    ReadOnly (validateScopeMaterializationLocked scopes) := fun _ => within_ensure _ _

theorem readOnly_validateBuckets (buckets : List Bucket) :
    ReadOnly (validateBucketMaterializationLocked buckets) := fun _ => within_ensure _ _

theorem readOnly_lockReservation (id : ReservationId) : ReadOnly (lockReservation id) :=
  (within_forUpdate _).bind fun _ => trivial

theorem readOnly_loadReservation (id : ReservationId) : ReadOnly (loadReservation id) := by
  refine (within_load _).bind fun views => ?_
  split <;> trivial

theorem readOnly_lockRunOf (known : Option Run) (r : Reservation) :
    ReadOnly (lockRunOf known r) := by
  unfold lockRunOf
  split
  · trivial
  · exact (within_forUpdate _).bind fun _ => trivial

theorem readOnly_inputReservationIsExplicitLocked (r : Reservation) :
    ReadOnly (inputReservationIsExplicitLocked r) := by
  unfold inputReservationIsExplicitLocked
  split
  · trivial
  · intro s
    dsimp only
    split <;> trivial

theorem readOnly_reconcileBuckets (x : Reconciliation) (keys : List BucketKey) :
    ReadOnly (reconcileBuckets x keys) := by
  refine (readOnly_lockExistingBuckets _ _).bind fun buckets => ?_
  split
  · trivial
  · exact (readOnly_validateBuckets _).bind fun _ => trivial

theorem readOnly_runPolicy (run : Option Run) : ReadOnly (runPolicy cfg run) := by
  unfold runPolicy
  split
  · trivial
  · intro s
    dsimp only
    split
    · trivial
    · exact (within_ensure _ _).bind fun _ => trivial

namespace SameControl

theorem flush (d : Dirty) (s : Store) : SameControl s (d.flush s) := ⟨rfl, rfl, rfl, .refl _⟩

theorem insertScopes (ids : List ScopeId) :
    ∀ s : Store, SameControl s (ids.foldl (fun s i => insertScope i s) s) := by
  induction ids with
  | nil => exact SameControl.refl
  | cons i ids ih =>
    intro s
    have hi : SameControl s (insertScope i s) := ⟨rfl, rfl, rfl, .refl _⟩
    exact hi.trans (ih (insertScope i s))

theorem insertBuckets (keys : List BucketKey) :
    ∀ s : Store, SameControl s (keys.foldl (fun s k => insertBucket k s) s) := by
  induction keys with
  | nil => exact SameControl.refl
  | cons k keys ih =>
    intro s
    have hk : SameControl s (insertBucket k s) := ⟨rfl, rfl, rfl, .refl _⟩
    exact hk.trans (ih (insertBucket k s))

theorem lockScopes (ids : List ScopeId) : Within SameControl (lockScopes ids) :=
  (within_flush (insertScopes _)).bind fun _ => (readOnly_lockScopesById ids).within refl

theorem lockBuckets (keys : List BucketKey) : Within SameControl (lockBuckets keys) :=
  (within_flush (insertBuckets _)).bind fun _ => (within_forUpdate _).bind fun _ => trivial

theorem event {k : EventKey} (hk : k.Passing) (now : Time) (f : AuditFacts) :
    Within SameControl (appendAuditEvent k now f) :=
  within_appendAuditEvent fun s => ⟨rfl, rfl, rfl, (appended_insert s.audit _).one hk⟩

/-! ### Settlement and reconciliation -/

theorem releaseLocked (r : Reservation) (scopes : List Scope) (buckets : List Bucket)
    (now : Time) (reconciled : Bool) :
    Within SameControl (releaseLocked r scopes buckets now reconciled) :=
  (event (by exact fun _ => trivial) _ _).bind fun _ => trivial

theorem settleLocked (r : Reservation) (scopes : List Scope) (buckets : List Bucket)
    (now : Time) (i o c : Option ℕ) (outcome : Outcome) (reconciled force : Bool) :
    Within SameControl (settleLocked r scopes buckets now i o c outcome reconciled force) :=
  ((readOnly_inputReservationIsExplicitLocked r).within refl).bind fun _ => (event (by exact fun _ => trivial) _ _).bind fun _ => trivial

theorem reconcileRow (known : Option Run) (now : Time) (x : Reconciliation)
    (view : Reservation) : Within SameControl (reconcileRow known now x view) := by
  unfold Governance.reconcileRow
  split
  swap
  · trivial
  refine (within_ensure _ _).bind fun _ =>
    ((readOnly_reconcileBuckets _ _).within refl).bind fun p => ?_
  refine ((readOnly_lockReservation _).within refl).bind fun r? => ?_
  split
  · trivial
  split
  swap
  · trivial
  refine ((readOnly_lockRunOf _ _).within refl).bind fun run => ?_
  split
  · trivial
  unfold reconcileUnowned
  split
  · exact (releaseLocked _ _ _ _ _).bind fun _ => trivial
  · exact (settleLocked _ _ _ _ _ _ _ _ _ _).bind fun _ => trivial

theorem reconcileLoop (known : Option Run) (now : Time) (views : List Reservation) :
    ∀ x, Within SameControl (reconcileLoop known now x views) := by
  induction views with
  | nil => intro x; trivial
  | cons view views ih => intro x; exact (reconcileRow _ _ _ _).bind ih

theorem appendLeaseReconciled (now : Time) (l : List (LeaseKey × ℕ × ℕ)) :
    Within SameControl (appendLeaseReconciled now l) := by
  induction l with
  | nil => trivial
  | cons p l ih => exact (event (by exact fun _ => trivial) _ _).bind fun _ => ih

theorem reconcileRowsLocked (known : Option Run) (views : List Reservation)
    (scopes : List Scope) (now : Time) :
    Within SameControl (reconcileRowsLocked known views scopes now) := by
  refine ((readOnly_validateScopes _).within refl).bind fun _ =>
    (reconcileLoop _ _ _ _).bind fun x => ?_
  dsimp only
  split
  · exact (within_flush fun _ => ⟨rfl, rfl, rfl, .refl _⟩).bind fun _ =>
      (appendLeaseReconciled _ _).bind fun _ => trivial
  · exact (appendLeaseReconciled _ _).bind fun _ => trivial

theorem reconcileStaleLocked (known : Option Run) (ids : List ScopeId) (now : Time) :
    Within SameControl (reconcileStaleLocked known ids now) :=
  (within_load _).bind fun _ => ((readOnly_lockScopesById _).within refl).bind fun _ =>
    reconcileRowsLocked _ _ _ _

theorem reconcileRunLease (runId : RunId) (leaseToken : ℕ) (now : Time) :
    Within SameControl (reconcileRunLease runId leaseToken now) := by
  refine (within_load _).bind fun views => ?_
  split
  · trivial
  · exact ((readOnly_lockScopesById _).within refl).bind fun _ =>
      (reconcileRowsLocked _ _ _ _).bind fun _ => trivial

/-! ### Attempts -/

theorem questionContext (runId : RunId) (questionId : QuestionId) (modelId : ModelId)
    (providerScope : ScopeKey) (leaseOwner : Owner) (leaseToken : ℕ) (output : Option ℤ)
    (cost : Option ℚ) (now : Time) :
    Within SameControl (questionContext runId questionId modelId providerScope leaseOwner
      leaseToken output cost now) := by
  have hchecked {α β γ : Type} {x : Except Err α} {y : Except Err β} {z : Except Err γ}
      (f : α → β → γ → Governance.AttemptContext) :
      Within SameControl ((Tx.ofExcept x).bind fun a => (Tx.ofExcept y).bind fun b =>
        (Tx.ofExcept z).bind fun c => .ret (f a b c)) :=
    (within_ofExcept _).bind fun _ => (within_ofExcept _).bind fun _ =>
      (within_ofExcept _).bind fun _ => trivial
  refine (within_forUpdate _).bind fun s => ?_
  dsimp only
  split
  · refine (within_flush fun _ => ⟨rfl, rfl, rfl, .refl _⟩).bind fun _ =>
      (within_forUpdate _).bind fun _ => ?_
    split
    · trivial
    · exact hchecked _
  · refine (within_forUpdate _).bind fun _ => ?_
    split
    · trivial
    · exact hchecked _

theorem insertReservation (r : Reservation) (a : AttemptAmounts) (scopes : List Scope)
    (buckets : List Bucket) (execution : QuestionExecution) (run : Run) (now : Time) :
    Within SameControl (insertReservation r a scopes buckets execution run now) :=
  within_read.bind fun _ => (within_ensure _ _).bind fun _ => (within_ensure _ _).bind fun _ =>
    (within_flush fun _ => ⟨rfl, rfl, rfl, .refl _⟩).bind fun _ => (event (by exact fun _ => trivial) _ _).bind fun _ =>
      (within_flush fun _ => ⟨rfl, rfl, rfl, .refl _⟩).bind fun _ => trivial

theorem reserveOwned (id : ReservationId) (c : Governance.AttemptContext) (providerAttempt : ℕ)
    (leaseOwner : Owner) (now : Time) (a : AttemptAmounts) (policy : Policy) (scopes : List Scope)
    (buckets : List Bucket) (execution : QuestionExecution) (run : Run) :
    Within SameControl (reserveOwned id c providerAttempt leaseOwner now a policy scopes buckets
      execution run) := by
  refine (within_ensure _ _).bind fun _ => ?_
  split
  · trivial
  split
  · intro s
    dsimp only
    split
    · trivial
    · split <;> trivial
  · exact (within_ensure _ _).bind fun _ => (within_ofExcept _).bind fun _ =>
      insertReservation _ _ _ _ _ _ _

theorem reserveLocked (id : ReservationId) (c : Governance.AttemptContext) (providerAttempt : ℕ)
    (leaseOwner : Owner) (now : Time) (a : AttemptAmounts) (policy : Policy)
    (scopes : List Scope) :
    Within SameControl (reserveLocked id c providerAttempt leaseOwner now a policy scopes) := by
  refine (lockBuckets _).bind fun _ => ((readOnly_validateBuckets _).within refl).bind fun _ =>
    (within_forUpdate _).bind fun _ => (within_forUpdate _).bind fun _ => ?_
  split
  · trivial
  split
  · trivial
  · exact reserveOwned _ _ _ _ _ _ _ _ _ _ _

theorem reserve (id : ReservationId) (c : Governance.AttemptContext) (providerAttempt : ℕ)
    (leaseOwner : Owner) (now : Time) :
    Within SameControl (reserve cfg id c providerAttempt leaseOwner now) :=
  (within_ensure _ _).bind fun _ => (within_ofExcept _).bind fun _ =>
    within_read.bind fun _ => ((readOnly_runPolicy _).within refl).bind fun _ =>
    (lockScopes _).bind fun _ =>
    (reconcileStaleLocked _ _ _).bind fun _ => reserveLocked _ _ _ _ _ _ _ _

theorem markFirstAttempt (r : Reservation) (now : Time) (s : Store) :
    SameControl s (markFirstAttempt r now s) := by
  unfold Governance.markFirstAttempt
  split <;> exact ⟨rfl, rfl, rfl, .refl _⟩

theorem restartExecution (r : Reservation) (s : Store) :
    SameControl s (restartExecution r s) := by
  unfold Governance.restartExecution
  split <;> exact ⟨rfl, rfl, rfl, .refl _⟩

theorem startSend (r : Reservation) (scopes : List Scope) (old new : List Bucket) (moved : Bool)
    (leaseOwner : Owner) (sendWindow now : Time) :
    Within SameControl (startSend r scopes old new moved leaseOwner sendWindow now) :=
  (event (by exact fun _ => trivial) _ _).bind fun _ => within_flush fun _ =>
    (flush _ _).trans (markFirstAttempt _ _ _)

theorem sendLocked (r : Reservation) (scopes : List Scope) (old new : List Bucket) (moved : Bool)
    (leaseOwner : Owner) (now : Time) :
    Within SameControl (sendLocked cfg r scopes old new moved leaseOwner now) := by
  refine (within_ensure _ _).bind fun _ => within_read.bind fun s => ?_
  split
  · trivial
  refine (within_ensure _ _).bind fun _ => ((readOnly_lockRunOf _ _).within refl).bind fun _ =>
    (within_ensure _ _).bind fun _ => ?_
  split
  · trivial
  unfold sendOwned
  split
  · exact (within_ofExcept _).bind fun _ => startSend _ _ _ _ _ _ _ _
  · exact startSend _ _ _ _ _ _ _ _

theorem markSendStarted (permit : Permit) (leaseOwner : Owner) (now : Time) :
    Within SameControl (markSendStarted cfg permit leaseOwner now) := by
  have hsend (scopes : List Scope) (old : List Bucket) (view : Reservation) (w : Time) :
      Within SameControl (lockSendBuckets scopes old view w) := by
    unfold lockSendBuckets
    split
    · exact lockBuckets _
    · trivial
  refine ((readOnly_loadReservation _).within refl).bind fun _ =>
    ((readOnly_lockScopesById _).within refl).bind fun _ =>
    ((readOnly_lockExistingBuckets _ _).within refl).bind fun _ => (within_ensure _ _).bind fun _ =>
    (hsend _ _ _ _).bind fun _ => ((readOnly_validateScopes _).within refl).bind fun _ =>
    ((readOnly_validateBuckets _).within refl).bind fun _ =>
    ((readOnly_lockReservation _).within refl).bind fun r? => ?_
  split
  · trivial
  · exact sendLocked _ _ _ _ _ _ _

theorem finishLocked (r : Reservation) (scopes : List Scope) (buckets : List Bucket)
    (f : FinishReport) (i o c : Option ℕ) (now : Time) :
    Within SameControl (finishLocked r scopes buckets f i o c now) := by
  have hrestart : Within SameControl (restartQuestionExecutionAfterPreSendLocked r) := by
    unfold restartQuestionExecutionAfterPreSendLocked
    split
    · trivial
    · refine (within_forUpdate _).bind fun _ => ?_
      split
      · trivial
      · exact within_ensure _ _
  unfold Governance.finishLocked
  split
  · trivial
  split
  · exact (within_ensure _ _).bind fun _ => hrestart.bind fun _ =>
      (releaseLocked _ _ _ _ _).bind fun _ => within_flush fun _ =>
        (flush _ _).trans (restartExecution _ _)
  · exact (within_ensure _ _).bind fun _ => (settleLocked _ _ _ _ _ _ _ _ _ _).bind fun _ =>
      within_flush fun _ => ⟨rfl, rfl, rfl, .refl _⟩

theorem finish (permit : Permit) (f : FinishReport) (now : Time) :
    Within SameControl (finish permit f now) := by
  refine (within_ofExcept _).bind fun _ => (within_ofExcept _).bind fun _ =>
    (within_ofExcept _).bind fun _ => ((readOnly_loadReservation _).within refl).bind fun _ =>
    ((readOnly_lockScopesById _).within refl).bind fun _ =>
    ((readOnly_lockExistingBuckets _ _).within refl).bind fun _ =>
    ((readOnly_validateScopes _).within refl).bind fun _ =>
    ((readOnly_validateBuckets _).within refl).bind fun _ =>
    ((readOnly_lockReservation _).within refl).bind fun r? => ?_
  split
  · trivial
  · exact finishLocked _ _ _ _ _ _ _ _

end SameControl

/-! ## Policies and admission -/

/-- Runs and Responses are unchanged, and every policy keeps its limits. -/
structure SameRuns (s s' : Store) : Prop where
  runs : s'.runs = s.runs
  responses : s'.responses = s.responses
  audit : Appended EventKey.Passing s.audit s'.audit
  limits : ∀ id p, s.policies.get? id = some p →
    ∃ p', s'.policies.get? id = some p' ∧ p'.limits = p.limits

theorem SameRuns.refl (s : Store) : SameRuns s s := ⟨rfl, rfl, .refl _, fun _ p h => ⟨p, h, rfl⟩⟩

theorem SameRuns.trans {a b c : Store} (h : SameRuns a b) (h' : SameRuns b c) : SameRuns a c where
  runs := h'.runs.trans h.runs
  responses := h'.responses.trans h.responses
  audit := h.audit.trans h'.audit
  limits id p hp := by
    obtain ⟨p', hp', he⟩ := h.limits id p hp
    obtain ⟨p'', hp'', he'⟩ := h'.limits id p' hp'
    exact ⟨p'', hp'', he'.trans he⟩

theorem SameControl.sameRuns (h : SameControl s s') : SameRuns s s' where
  runs := h.runs
  responses := h.responses
  audit := h.audit
  limits id p hp := ⟨p, by rw [h.policies]; exact hp, rfl⟩

namespace SameRuns

theorem event {k : EventKey} (hk : k.Passing) (now : Time) (f : AuditFacts) :
    Within SameRuns (appendAuditEvent k now f) :=
  Within.mono SameControl.sameRuns (SameControl.event hk now f)

theorem insertPolicy (p : Policy) (s : Store) :
    SameRuns s { s with policies := s.policies.insert p } where
  runs := rfl
  responses := rfl
  audit := .refl _
  limits id q hq := by
    refine ⟨q, ?_, rfl⟩
    show (s.policies.insert p).get? id = some q
    rw [Table.get?_insert]
    split
    · next h => rw [← h, hq]; rfl
    · exact hq

/-- A policy row is written back with its own limits. -/
theorem putPolicy {p : Policy} (s : Store)
    (h : ∀ q, s.policies.get? p.id = some q → q.limits = p.limits) :
    SameRuns s { s with policies := s.policies.put p } where
  runs := rfl
  responses := rfl
  audit := .refl _
  limits id q hq := by
    show ∃ p', (s.policies.put p).get? id = some p' ∧ p'.limits = q.limits
    rw [Table.get?_put, hq]
    refine ⟨Table.overwrite p q, rfl, ?_⟩
    unfold Table.overwrite
    split
    · next hk =>
      have hid : id = p.id := (Table.key_of_get? hq).symm.trans hk
      rw [hid] at hq
      exact (h q hq).symm
    · rfl

theorem ensureDefaultPolicyLocked (now : Time) :
    Within SameRuns (ensureDefaultPolicyLocked cfg now) := by
  have hactive : Within SameRuns lockActiveRows := (within_forUpdate _).bind fun _ => trivial
  refine hactive.bind fun rows => ?_
  split
  · trivial
  · exact (within_ensure _ _).bind fun _ => trivial
  · refine (within_flush (insertPolicy _)).bind fun _ => hactive.bind fun rows => ?_
    split
    · trivial
    · trivial
    · exact (within_ensure _ _).bind fun _ => (event (by exact fun _ => trivial) _ _).bind fun _ => trivial

end SameRuns

theorem mem_activeRows {p : Policy} (h : p ∈ activeRows s) : s.policies.get? p.id = some p := by
  have hmem : p ∈ (s.policies.rows.filter Policy.isActive).insertionSort
      fun a b => a.version ≤ b.version := List.mem_of_mem_take h
  rw [List.mem_insertionSort] at hmem
  exact Table.get?_of_mem (List.mem_of_mem_filter hmem)

/-- The policy that `_ensure_default_policy_locked` returns is a row. -/
theorem ensureDefaultPolicyLocked_ok {now : Time} {p : Policy}
    (h : exec schema (ensureDefaultPolicyLocked cfg now) s = .ok (p, s')) :
    SameRuns s s' ∧ s'.policies.get? p.id = some p ∧ s'.ledger = s.ledger := by
  refine ⟨(SameRuns.ensureDefaultPolicyLocked now).exec SameRuns.refl SameRuns.trans h, ?_⟩
  unfold ensureDefaultPolicyLocked lockActiveRows Prog.forUpdate at h
  simp only [bind_eq, Prog.bind, exec_lock] at h
  split at h
  · cases h
  · next hrows =>
    obtain ⟨-, h⟩ := exec_ensure_bind h
    obtain ⟨rfl, rfl⟩ := exec_pure_ok h
    exact ⟨mem_activeRows (by rw [hrows]; exact List.mem_singleton_self _), rfl⟩
  · have h := exec_flush_bind h
    rw [exec_lock] at h
    split at h
    · cases h
    · cases h
    · next hrows =>
      have hget := mem_activeRows (by rw [hrows]; exact List.mem_singleton_self _)
      obtain ⟨-, h⟩ := exec_ensure_bind h
      obtain ⟨t, -, h⟩ := exec_audit_bind h
      obtain ⟨rfl, rfl⟩ := exec_pure_ok h
      exact ⟨hget, rfl⟩

/-- Cursors are unchanged, and the ledger has new empty scopes at most. -/
structure Prepares (s s' : Store) : Prop where
  executions : s'.executions = s.executions
  ledger : ∃ ids : List ScopeId, s'.ledger = s.ledger.playAll (ids.map .openScope)

theorem Prepares.refl (s : Store) : Prepares s s := ⟨rfl, [], rfl⟩

theorem Prepares.trans {a b c : Store} (h : Prepares a b) (h' : Prepares b c) : Prepares a c := by
  obtain ⟨he, ids, hl⟩ := h
  obtain ⟨he', ids', hl'⟩ := h'
  refine ⟨he'.trans he, ids ++ ids', ?_⟩
  rw [hl', hl, List.map_append, Ledger.playAll_append]

namespace Prepares

theorem event (k : EventKey) (now : Time) (f : AuditFacts) :
    Within Prepares (appendAuditEvent k now f) :=
  within_appendAuditEvent fun _ => ⟨rfl, [], rfl⟩

theorem insertScopes (ids : List ScopeId) :
    ∀ s : Store, Prepares s (ids.foldl (fun s i => insertScope i s) s) := by
  induction ids with
  | nil => exact Prepares.refl
  | cons i ids ih =>
    intro s
    have hi : Prepares s (insertScope i s) := ⟨rfl, [i], rfl⟩
    exact hi.trans (ih (insertScope i s))

theorem lockScopes (ids : List ScopeId) : Within Prepares (lockScopes ids) :=
  (within_flush (insertScopes _)).bind fun _ => (readOnly_lockScopesById ids).within refl

/-- A write to the policies. -/
theorem policies (f : Store → Table Policy) :
    Within Prepares (flush fun s => { s with policies := f s } : Tx Unit) :=
  within_flush fun _ => ⟨rfl, [], rfl⟩

theorem lockActiveRows : Within Prepares lockActiveRows := (within_forUpdate _).bind fun _ => trivial

theorem ensureDefaultPolicyLocked (now : Time) :
    Within Prepares (ensureDefaultPolicyLocked cfg now) := by
  refine lockActiveRows.bind fun rows => ?_
  split
  · trivial
  · exact (within_ensure _ _).bind fun _ => trivial
  · refine (policies _).bind fun _ => lockActiveRows.bind fun rows => ?_
    split
    · trivial
    · trivial
    · exact (within_ensure _ _).bind fun _ => (event _ _ _).bind fun _ => trivial

theorem applyPolicy (values : PolicyValues) (freshId uuid : ℕ) (now : Time) :
    Within Prepares (applyPolicy cfg values freshId uuid now) := by
  refine (within_ofExcept _).bind fun limits => (lockScopes _).bind fun _ =>
    (ensureDefaultPolicyLocked now).bind fun current => ?_
  split
  · trivial
  refine (within_forUpdate _).bind fun s => ?_
  split
  · exact (within_ensure _ _).bind fun _ => (policies _).bind fun _ => (policies _).bind fun _ =>
      (event _ _ _).bind fun _ => trivial
  · exact (policies _).bind fun _ => within_read.bind fun s => (within_ensure _ _).bind fun _ =>
      (policies _).bind fun _ => (event _ _ _).bind fun _ => trivial

theorem admitRun (n : NewRun) (now : Time) : Within Prepares (admitRun cfg n now) := by
  refine (lockScopes _).bind fun scopes => ((readOnly_validateScopes _).within refl).bind fun _ =>
    (ensureDefaultPolicyLocked now).bind fun policy => within_read.bind fun s =>
    (within_ensure _ _).bind fun _ => ?_
  split
  · trivial
  · exact (within_ensure _ _).bind fun _ => (within_flush fun _ => ⟨rfl, [], rfl⟩).bind fun _ =>
      (event _ _ _).bind fun _ => trivial

end Prepares

theorem applyPolicy_sameRuns {values : PolicyValues} {freshId uuid : ℕ} {now : Time} {p : Policy}
    (h : exec schema (applyPolicy cfg values freshId uuid now) s = .ok (p, s')) :
    SameRuns s s' := by
  obtain ⟨limits, -, h⟩ := exec_ofExcept_bind h
  obtain ⟨_, s₁, h₁, h⟩ := exec_bind_eq_ok h
  have k₁ : SameRuns s s₁ :=
    ((SameControl.lockScopes _).exec SameControl.refl SameControl.trans h₁).sameRuns
  obtain ⟨current, s₂, h₂, h⟩ := exec_bind_eq_ok h
  obtain ⟨k₂, hcur, -⟩ := ensureDefaultPolicyLocked_ok h₂
  have k₂ := k₁.trans k₂
  -- the active row is written back with the flag down
  have k₃ : SameRuns s₂ { s₂ with policies := s₂.policies.put { current with isActive := false } } := by
    refine SameRuns.putPolicy s₂ fun q hq => ?_
    obtain rfl : current = q := Option.some.inj (hcur.symm.trans hq)
    rfl
  split at h
  · obtain ⟨-, rfl⟩ := exec_pure_ok h
    exact k₂
  · rw [bind_eq, Prog.forUpdate, Prog.bind, exec_lock] at h
    simp only [Prog.bind] at h
    split at h
    · next target hfound =>
      obtain ⟨-, h⟩ := exec_ensure_bind h
      have h := exec_flush_bind (exec_flush_bind h)
      obtain ⟨_, s₃, h₃, h⟩ := exec_bind_eq_ok h
      obtain ⟨-, rfl⟩ := exec_pure_ok h
      refine (k₂.trans (k₃.trans (SameRuns.putPolicy _ fun q hq => ?_))).trans
        ((SameRuns.event (by exact fun _ => trivial) _ _).exec SameRuns.refl SameRuns.trans h₃)
      obtain ⟨q', hq', he⟩ := k₃.limits target.id target
        (Table.get?_of_mem (List.mem_of_find?_eq_some hfound))
      obtain rfl : q' = q := Option.some.inj (hq'.symm.trans hq)
      exact he
    · have h := exec_flush_bind h
      simp only [Prog.read, bind_eq, Prog.bind, exec_query] at h
      obtain ⟨-, h⟩ := exec_ensure_bind h
      have h := exec_flush_bind h
      obtain ⟨_, s₃, h₃, h⟩ := exec_bind_eq_ok h
      obtain ⟨-, rfl⟩ := exec_pure_ok h
      exact (k₂.trans (k₃.trans (SameRuns.insertPolicy _ _))).trans
        ((SameRuns.event (by exact fun _ => trivial) _ _).exec SameRuns.refl SameRuns.trans h₃)

/-- A committed admission inserts one Run, under a policy of the store. -/
theorem admitRun_inserts {n : NewRun} {now : Time} {r : Run}
    (h : exec schema (admitRun cfg n now) s = .ok (r, s')) :
    (∃ policy provider, s.runs.get? n.id = none ∧ s'.policies.get? policy.id = some policy ∧
        s'.runs = s.runs.insert (n.admitted cfg policy provider now) ∧
        s'.responses = s.responses ∧ Appended EventKey.Passing s.audit s'.audit ∧
        s'.executions = s.executions) ∧
      ∀ id p, s.policies.get? id = some p →
        ∃ p', s'.policies.get? id = some p' ∧ p'.limits = p.limits := by
  have hprep := (Prepares.admitRun n now).exec Prepares.refl Prepares.trans h
  obtain ⟨scopes, s₁, h₁, h⟩ := exec_bind_eq_ok h
  have k₁ : SameRuns s s₁ :=
    ((SameControl.lockScopes _).exec SameControl.refl SameControl.trans h₁).sameRuns
  obtain ⟨_, s₂, h₂, h⟩ := exec_bind_eq_ok h
  obtain rfl := (readOnly_validateScopes _).exec h₂
  obtain ⟨policy, s₃, h₃, h⟩ := exec_bind_eq_ok h
  obtain ⟨k₃, hpol, -⟩ := ensureDefaultPolicyLocked_ok h₃
  have k₃ := k₁.trans k₃
  simp only [Prog.read, bind_eq, Prog.bind, exec_query] at h
  obtain ⟨-, h⟩ := exec_ensure_bind h
  split at h
  · cases h
  · next provider _ =>
    obtain ⟨hfresh, h⟩ := exec_ensure_bind h
    have h := exec_flush_bind h
    obtain ⟨t, hlog, h⟩ := exec_audit_bind h
    obtain ⟨-, rfl⟩ := exec_pure_ok h
    have hnone : s₃.runs.get? n.id = none := by simpa using hfresh
    have hruns : s₃.runs.insert (n.admitted cfg policy provider now) =
        s.runs.insert (n.admitted cfg policy provider now) := by rw [k₃.runs]
    rw [k₃.runs] at hnone
    exact ⟨⟨policy, provider, hnone, hpol, hruns, k₃.responses,
      k₃.audit.trans (hlog.one fun _ => trivial), hprep.executions⟩, k₃.limits⟩

theorem admitRun_storeStep {n : NewRun} {now : Time} {r : Run}
    (h : exec schema (admitRun cfg n now) s = .ok (r, s')) :
    StoreStep cfg (.admitRun n now) s s' ∧
      ∀ id p, s.policies.get? id = some p →
        ∃ p', s'.policies.get? id = some p' ∧ p'.limits = p.limits := by
  obtain ⟨⟨policy, provider, hnone, hpol, hruns, hresp, hlog, hexec⟩, hlimits⟩ := admitRun_inserts h
  exact ⟨.admitted rfl hnone hpol hruns hresp hlog hexec, hlimits⟩

theorem renewRunLease_storeStep {runId : RunId} {owner : Owner} {token : ℕ} {now : Time}
    {a : Option Time} (h : exec schema (renewRunLease cfg runId owner token now) s = .ok (a, s')) :
    StoreStep cfg (.renewRunLease runId owner token now) s s' ∧ s'.policies = s.policies := by
  unfold renewRunLease Prog.load at h
  simp only [bind_eq, Prog.bind, exec_peek, lockScopesById, Prog.forUpdate, lockRun,
    validateScopeMaterializationLocked, exec_lock, exec_query] at h
  obtain ⟨-, h⟩ := exec_ensure_bind h
  rw [exec_lock, exec_lock] at h
  split at h
  · obtain ⟨-, rfl⟩ := exec_pure_ok h
    exact ⟨.same, rfl⟩
  · next r hr =>
    obtain ⟨hg, ho⟩ := Option.filter_eq_some_iff.mp hr
    obtain rfl : r.id = runId := Table.key_of_get? hg
    have h := exec_flush_bind h
    obtain ⟨-, rfl⟩ := exec_pure_ok h
    refine ⟨.move hg (.renew ho) rfl rfl (by rintro _ ⟨⟩) ?_ (.refl _), rfl⟩
    rw [if_neg fun hgo => absurd hgo.1 (lt_irrefl _)]
    rfl

/-! ## Lease transactions -/

/-- The ledger and the policies are unchanged. -/
structure SameLedger (s s' : Store) : Prop where
  ledger : s'.ledger = s.ledger
  policies : s'.policies = s.policies

theorem SameLedger.refl (s : Store) : SameLedger s s := ⟨rfl, rfl⟩

theorem SameLedger.trans {a b c : Store} (h : SameLedger a b) (h' : SameLedger b c) :
    SameLedger a c :=
  ⟨h'.ledger.trans h.ledger, h'.policies.trans h.policies⟩

namespace SameLedger

theorem event (k : EventKey) (now : Time) (f : AuditFacts) :
    Within SameLedger (appendAuditEvent k now f) :=
  within_appendAuditEvent fun _ => ⟨rfl, rfl⟩

theorem putRun (r : Run) : Within SameLedger (putRun r) := within_flush fun _ => ⟨rfl, rfl⟩

theorem lockedRun (lease : RunLease) (now : Time) : Within SameLedger (lockedRun lease now) :=
  (within_forUpdate _).bind fun _ => trivial

theorem newGeneration (runId : RunId) :
    Within SameLedger (beginNewExecutionGeneration runId) := within_flush fun _ => ⟨rfl, rfl⟩

theorem claim (runId : RunId) (owner : Owner) (now : Time) :
    Within SameLedger (claim cfg runId owner now) := by
  refine (within_forUpdate _).bind fun s => ?_
  split
  · trivial
  split
  · refine (putRun _).bind fun _ => ?_
    split
    · exact (newGeneration _).bind fun _ => (event _ _ _).bind fun _ => trivial
    · exact (event _ _ _).bind fun _ => trivial
  · trivial

theorem failClosedTakeover (lease : RunLease) (now : Time) :
    Within SameLedger (failClosedTakeover lease now) := by
  refine (within_forUpdate _).bind fun s => ?_
  split
  · trivial
  split
  · exact (event _ _ _).bind fun _ => putRun _
  · trivial

theorem persistResponse (lease : RunLease) (x : Response) (now : Time) :
    Within SameLedger (persistResponse lease x now) := by
  refine (lockedRun _ _).bind fun ⟨s, run?⟩ => ?_
  rcases run? with _ | run
  · trivial
  dsimp only
  split
  · trivial
  split
  · trivial
  · exact (within_ensure _ _).bind fun _ => (within_flush fun _ => ⟨rfl, rfl⟩).bind fun _ =>
      within_read.bind fun _ => (event _ _ _).bind fun _ => (putRun _).bind fun _ => trivial

theorem requestCancel (runId : RunId) (now : Time) :
    Within SameLedger (requestCancel runId now) := by
  refine (within_forUpdate _).bind fun s => ?_
  split
  · trivial
  split
  · exact (putRun _).bind fun _ => (event _ _ _).bind fun _ => (event _ _ _).bind fun _ =>
      (putRun _).bind fun _ => trivial
  · exact (putRun _).bind fun _ => (event _ _ _).bind fun _ => trivial
  · trivial

theorem finishCancelled (lease : RunLease) (now : Time) :
    Within SameLedger (finishCancelled lease now) := by
  refine (lockedRun _ _).bind fun ⟨s, run?⟩ => ?_
  rcases run? with _ | run
  · trivial
  dsimp only
  split
  · exact (event _ _ _).bind fun _ => (putRun _).bind fun _ => trivial
  · trivial

theorem recordNotificationResult (runId : RunId) (published : Bool) (now : Time) :
    Within SameLedger (recordNotificationResult runId published now) := by
  refine (within_forUpdate _).bind fun s => ?_
  split
  · trivial
  split
  · exact (putRun _).bind fun _ => (event _ _ _).bind fun _ => trivial
  · trivial

theorem failAttempt (lease : RunLease) (e : ErrorCode) (now : Time) :
    Within SameLedger (failAttempt cfg lease e now) := by
  refine (lockedRun _ _).bind fun ⟨s, run?⟩ => ?_
  rcases run? with _ | run
  · trivial
  dsimp only
  split
  · exact (event _ _ _).bind fun _ => (putRun _).bind fun _ => trivial
  split
  · exact (event _ _ _).bind fun _ => (putRun _).bind fun _ => trivial
  split
  · exact (event _ _ _).bind fun _ => (event _ _ _).bind fun _ => (putRun _).bind fun _ => trivial
  · exact (newGeneration _).bind fun _ => (event _ _ _).bind fun _ =>
      (putRun _).bind fun _ => trivial

theorem deferGovernance (lease : RunLease) (e : ErrorCode) (notBefore now : Time) :
    Within SameLedger (deferGovernance lease e notBefore now) := by
  refine (lockedRun _ _).bind fun ⟨s, run?⟩ => ?_
  rcases run? with _ | run
  · trivial
  dsimp only
  · exact (event _ _ _).bind fun _ => (putRun _).bind fun _ => trivial

theorem cooperativeYield (lease : RunLease) (n : ℕ) (now : Time) :
    Within SameLedger (cooperativeYield lease n now) := by
  refine (lockedRun _ _).bind fun ⟨s, run?⟩ => ?_
  rcases run? with _ | run
  · trivial
  dsimp only
  · exact (event _ _ _).bind fun _ => (putRun _).bind fun _ => trivial

theorem exhaustGovernance (lease : RunLease) (e : ErrorCode) (integrityError : Bool)
    (now : Time) : Within SameLedger (exhaustGovernance lease e integrityError now) := by
  refine (lockedRun _ _).bind fun ⟨s, run?⟩ => ?_
  rcases run? with _ | run
  · trivial
  dsimp only
  split
  · exact (event _ _ _).bind fun _ => (event _ _ _).bind fun _ => (putRun _).bind fun _ => trivial
  · exact (event _ _ _).bind fun _ => (putRun _).bind fun _ => trivial

theorem finishRun (lease : RunLease) (status : RunStatus) (now finishedAt : Time) :
    Within SameLedger (finishRun lease status now finishedAt) := by
  refine (lockedRun _ _).bind fun ⟨s, run?⟩ => ?_
  rcases run? with _ | run
  · trivial
  dsimp only
  split
  · trivial
  · exact (event _ _ _).bind fun _ => (putRun _).bind fun _ => trivial

theorem reapRow (row : RunId × ℕ) (now : Time) : Within SameLedger (reapRow cfg row now) := by
  refine (within_forUpdate _).bind fun s => ?_
  split
  · trivial
  split
  · trivial
  dsimp only
  split
  · exact (event _ _ _).bind fun _ => (putRun _).bind fun _ => trivial
  split
  · exact (event _ _ _).bind fun _ => (putRun _).bind fun _ => trivial
  split
  · exact (event _ _ _).bind fun _ => (event _ _ _).bind fun _ => (putRun _).bind fun _ => trivial
  · exact (newGeneration _).bind fun _ => (event _ _ _).bind fun _ =>
      (putRun _).bind fun _ => trivial

theorem reap (now : Time) (rows : List (RunId × ℕ)) : Within SameLedger (reap cfg now rows) := by
  induction rows with
  | nil => trivial
  | cons row rows ih => exact (reapRow _ _).bind fun _ => ih.bind fun _ => trivial

end SameLedger

/-! ## The account of the Runs -/

/-- Every policy keeps its limits. -/
def KeepsLimits (s s' : Store) : Prop :=
  ∀ id p, s.policies.get? id = some p → ∃ p', s'.policies.get? id = some p' ∧ p'.limits = p.limits

theorem SameLedger.keepsLimits (h : SameLedger s s') : KeepsLimits s s' := by
  intro id p hp
  exact ⟨p, by rw [h.policies]; exact hp, rfl⟩

/-- One lease transaction: its move, and its frame. -/
theorem lease_steps {o : Op} {p : Tx α} {a : α} (hw : Within SameLedger p)
    (h : exec schema p s = .ok (a, s')) (hs : StoreStep cfg o s s') :
    Relation.ReflTransGen (StoreStep cfg o) s s' ∧ KeepsLimits s s' :=
  ⟨.single hs, (hw.exec SameLedger.refl SameLedger.trans h).keepsLimits⟩

/-- One ledger transaction: the Runs stay. -/
theorem control_steps {o : Op} {p : Tx α} {a : α} (hw : Within SameControl p)
    (hbooks : o.onBooks = true) (h : exec schema p s = .ok (a, s')) :
    Relation.ReflTransGen (StoreStep cfg o) s s' ∧ KeepsLimits s s' := by
  have hc := hw.exec SameControl.refl SameControl.trans h
  refine ⟨.single (.idle hc.runs hc.responses hc.audit fun ho => ?_), hc.sameRuns.limits⟩
  rw [hbooks] at ho
  cases ho

/-- A committed operation moves the Runs along `StoreStep`, and every policy
keeps its limits. -/
theorem steps_of_exec {o : Op} {u : Unit} (h : exec schema (o.tx cfg) s = .ok (u, s')) :
    Relation.ReflTransGen (StoreStep cfg o) s s' ∧ KeepsLimits s s' := by
  cases o with
  | applyPolicy values freshId uuid now =>
    obtain ⟨_, h⟩ := exec_unit_ok h
    have k := applyPolicy_sameRuns h
    have hprep := (Prepares.applyPolicy values freshId uuid now).exec Prepares.refl Prepares.trans h
    exact ⟨.single (.idle k.runs k.responses k.audit fun _ => hprep.executions), k.limits⟩
  | admitRun n now =>
    obtain ⟨_, h⟩ := exec_unit_ok h
    obtain ⟨hs, hl⟩ := admitRun_storeStep h
    exact ⟨.single hs, hl⟩
  | claim runId owner now =>
    obtain ⟨_, h⟩ := exec_unit_ok h
    exact lease_steps (SameLedger.claim _ _ _) h (claim_storeStep h)
  | failClosedTakeover lease now =>
    exact lease_steps (SameLedger.failClosedTakeover _ _) h (failClosedTakeover_storeStep h)
  | persistResponse lease id q outcome now =>
    obtain ⟨_, h⟩ := exec_unit_ok h
    exact lease_steps (SameLedger.persistResponse _ _ _) h (persistResponse_storeStep h)
  | requestCancel runId now =>
    obtain ⟨_, h⟩ := exec_unit_ok h
    exact lease_steps (SameLedger.requestCancel _ _) h (requestCancel_storeStep h)
  | finishCancelled lease now =>
    obtain ⟨_, h⟩ := exec_unit_ok h
    exact lease_steps (SameLedger.finishCancelled _ _) h (finishCancelled_storeStep h)
  | recordNotificationResult runId published now =>
    obtain ⟨_, h⟩ := exec_unit_ok h
    exact lease_steps (SameLedger.recordNotificationResult _ _ _) h
      (recordNotificationResult_storeStep h)
  | failAttempt lease e now =>
    obtain ⟨_, h⟩ := exec_unit_ok h
    exact lease_steps (SameLedger.failAttempt _ _ _) h (failAttempt_storeStep h)
  | deferGovernance lease e notBefore now =>
    obtain ⟨_, h⟩ := exec_unit_ok h
    exact lease_steps (SameLedger.deferGovernance _ _ _ _) h (deferGovernance_storeStep h)
  | cooperativeYield lease n now =>
    obtain ⟨_, h⟩ := exec_unit_ok h
    exact lease_steps (SameLedger.cooperativeYield _ _ _) h (cooperativeYield_storeStep h)
  | exhaustGovernance lease e integrityError now =>
    obtain ⟨_, h⟩ := exec_unit_ok h
    exact lease_steps (SameLedger.exhaustGovernance _ _ _ _) h (exhaustGovernance_storeStep h)
  | finishRun lease cancelled now finishedAt =>
    obtain ⟨_, h⟩ := exec_unit_ok h
    exact lease_steps (SameLedger.finishRun _ _ _ _) h (finishRun_storeStep h)
  | reap rows now =>
    obtain ⟨_, h⟩ := exec_unit_ok h
    exact ⟨reap_storeSteps (fun _ hx => hx) h,
      ((SameLedger.reap _ _).exec SameLedger.refl SameLedger.trans h).keepsLimits⟩
  | questionContext runId q modelId provider owner token output cost now =>
    obtain ⟨_, h⟩ := exec_unit_ok h
    exact control_steps (SameControl.questionContext _ _ _ _ _ _ _ _ _) rfl h
  | reserve id c attempt owner now =>
    obtain ⟨_, h⟩ := exec_unit_ok h
    exact control_steps (SameControl.reserve _ _ _ _ _) rfl h
  | markSendStarted permit owner now =>
    exact control_steps (SameControl.markSendStarted _ _ _) rfl h
  | finish permit report now =>
    exact control_steps (SameControl.finish _ _ _) rfl h
  | reconcileRunLease runId token now =>
    obtain ⟨_, h⟩ := exec_unit_ok h
    exact control_steps (SameControl.reconcileRunLease _ _ _) rfl h
  | renewRunLease runId owner token now =>
    obtain ⟨_, h⟩ := exec_unit_ok h
    obtain ⟨hs, hp⟩ := renewRunLease_storeStep h
    exact ⟨.single hs, fun id p hp' => ⟨p, by rw [hp]; exact hp', rfl⟩⟩

/-- What every `StoreStep` of its operation keeps, a step of the system keeps. -/
theorem next_invariant {I : Store → Prop} {o : Op} (hI : I s)
    (hstep : ∀ s s', I s → StoreStep cfg o s s' → I s') : I (next cfg s o) := by
  unfold next
  rcases after_cases schema (o.tx cfg) s with h | ⟨u, s', h, h'⟩
  · rw [h]
    exact hI
  · rw [h']
    have hsteps := (steps_of_exec h).1
    clear h h'
    induction hsteps with
    | refl => exact hI
    | tail _ hlast ih => exact hstep _ _ ih hlast

end LLMBenchLab
