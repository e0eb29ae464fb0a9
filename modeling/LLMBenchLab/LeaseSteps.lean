import Mathlib.Logic.Relation
import LLMBenchLab.System

/-!
# What an operation does to the Runs

`Moves o r r'` lists, case by case, how the transaction of `o` takes a Run row
`r` to `r'`: the guard under the row lock and the row that is flushed.
`steps_of_exec` says that this is all: a committed operation leaves the Runs and
the Responses alone, or admits one Run, or moves rows one after another
(`StoreStep`; only the reaper moves more than one).

Every invariant of Run rows is then a case analysis of `Moves`, and no later
proof opens a transaction of `RunLeases` again.
-/

namespace LLMBenchLab

open Relational Relational.Prog RunLeases

/-! ## Statements -/

theorem exec_pure_ok {α : Type} {a b : α} {s s' : Store}
    (h : exec schema (ret a : Tx α) s = .ok (b, s')) : b = a ∧ s' = s := by
  obtain ⟨rfl, rfl⟩ := Prod.mk.inj (Except.ok.inj h)
  exact ⟨rfl, rfl⟩

theorem exec_flush_ok {w : Store → Store} {s s' : Store} {a : Unit}
    (h : exec schema (flush w : Tx Unit) s = .ok (a, s')) : s' = w s := by
  rw [Prog.flush, exec_write] at h
  split at h
  · exact (exec_pure_ok h).2
  · cases h

theorem exec_ensure_ok {c : Bool} {e : Err} {s s' : Store} {a : Unit}
    (h : exec schema (ensure c e : Tx Unit) s = .ok (a, s')) : c = true ∧ s' = s := by
  unfold Prog.ensure at h
  split at h
  · next hc => exact ⟨hc, (exec_pure_ok h).2⟩
  · cases h

theorem exec_ofExcept_ok {α : Type} {x : Except Err α} {s s' : Store} {a : α}
    (h : exec schema (Tx.ofExcept x) s = .ok (a, s')) : x = .ok a ∧ s' = s := by
  rcases x with e | b
  · cases h
  · obtain ⟨rfl, rfl⟩ := exec_pure_ok h
    exact ⟨rfl, rfl⟩

/-- The log `t'` has the events of `t` and others whose keys meet `P`. -/
def Appended (P : EventKey → Prop) (t t' : Table AuditEvent) : Prop :=
  ∀ k, (t'.get? k).isSome → (t.get? k).isSome ∨ P k

theorem Appended.refl {P : EventKey → Prop} (t : Table AuditEvent) : Appended P t t :=
  fun _ hk => Or.inl hk

theorem Appended.trans {P : EventKey → Prop} {a b c : Table AuditEvent} (h : Appended P a b)
    (h' : Appended P b c) : Appended P a c := by
  intro k hk
  rcases h' k hk with hb | hp
  · exact h k hb
  · exact Or.inr hp

theorem Appended.mono {P Q : EventKey → Prop} {a b : Table AuditEvent} (h : Appended P a b)
    (hPQ : ∀ k, P k → Q k) : Appended Q a b :=
  fun k hk => (h k hk).imp_right (hPQ k)

/-- One event that meets `P`. -/
theorem Appended.one {P : EventKey → Prop} {k : EventKey} {a b : Table AuditEvent}
    (h : Appended (· = k) a b) (hk : P k) : Appended P a b := by
  refine h.mono ?_
  rintro _ rfl
  exact hk

theorem appended_insert (t : Table AuditEvent) (e : AuditEvent) :
    Appended (· = e.eventKey) t (t.insert e) := by
  intro k hk
  rw [Table.get?_insert] at hk
  split at hk
  · next he => exact Or.inr he
  · exact Or.inl hk

/-- An appended event changes the audit log and nothing else. -/
theorem exec_appendAuditEvent_ok {k : EventKey} {now : Time} {f : AuditFacts} {s s' : Store}
    {a : Unit} (h : exec schema (appendAuditEvent k now f) s = .ok (a, s')) :
    ∃ t, Appended (· = k) s.audit t ∧ s' = { s with audit := t } := by
  unfold appendAuditEvent at h
  rw [exec_query] at h
  split at h
  · exact ⟨_, appended_insert s.audit ⟨k, now, f⟩, exec_flush_ok h⟩
  · exact ⟨s.audit, .refl _, (exec_ensure_ok h).2⟩

/-- Go on after an appended event. -/
theorem exec_audit_bind {β : Type} {k : EventKey} {now : Time} {f : AuditFacts}
    {g : Unit → Tx β} {s s' : Store} {b : β}
    (h : exec schema ((appendAuditEvent k now f).bind g) s = .ok (b, s')) :
    ∃ t, Appended (· = k) s.audit t ∧ exec schema (g ()) { s with audit := t } = .ok (b, s') := by
  obtain ⟨_, _, h₁, h₂⟩ := exec_bind_eq_ok h
  obtain ⟨t, ht, rfl⟩ := exec_appendAuditEvent_ok h₁
  exact ⟨t, ht, h₂⟩

/-- Go on after a flush. -/
theorem exec_flush_bind {β : Type} {w : Store → Store} {g : Unit → Tx β} {s s' : Store} {b : β}
    (h : exec schema ((flush w).bind g) s = .ok (b, s')) :
    exec schema (g ()) (w s) = .ok (b, s') := by
  obtain ⟨_, _, h₁, h₂⟩ := exec_bind_eq_ok h
  obtain rfl := exec_flush_ok h₁
  exact h₂

/-- Go on after a check. -/
theorem exec_ensure_bind {β : Type} {c : Bool} {e : Err} {g : Unit → Tx β} {s s' : Store} {b : β}
    (h : exec schema ((ensure c e).bind g) s = .ok (b, s')) :
    c = true ∧ exec schema (g ()) s = .ok (b, s') := by
  obtain ⟨_, _, h₁, h₂⟩ := exec_bind_eq_ok h
  obtain ⟨hc, rfl⟩ := exec_ensure_ok h₁
  exact ⟨hc, h₂⟩

/-- Go on after a validation. -/
theorem exec_ofExcept_bind {α β : Type} {x : Except Err α} {g : α → Tx β} {s s' : Store} {b : β}
    (h : exec schema ((Tx.ofExcept x).bind g) s = .ok (b, s')) :
    ∃ a, x = .ok a ∧ exec schema (g a) s = .ok (b, s') := by
  obtain ⟨a, _, h₁, h₂⟩ := exec_bind_eq_ok h
  obtain ⟨hx, rfl⟩ := exec_ofExcept_ok h₁
  exact ⟨a, hx, h₂⟩

/-- Drop the result of a transaction. -/
theorem exec_unit_ok {α : Type} {p : Tx α} {s s' : Store} {u : Unit}
    (h : exec schema (p.bind fun _ => ret ()) s = .ok (u, s')) :
    ∃ a, exec schema p s = .ok (a, s') := by
  obtain ⟨a, s₁, h₁, h₂⟩ := exec_bind_eq_ok h
  obtain ⟨-, rfl⟩ := exec_pure_ok h₂
  exact ⟨a, h₁⟩

/-! ## Moves -/

/-- `Moves cfg rs o r r'`: the transaction of `o` finds the row `r`, with the
Responses `rs`, and flushes `r'`. -/
inductive Moves (cfg : Config) (rs : List Response) : Op → Run → Run → Prop where
  | claim {r : Run} {owner : Owner} {now : Time} :
    r.eligible rs.length now → Moves cfg rs (.claim r.id owner now) r
      (r.claimed owner now (now + cfg.leaseFor))
  | failClosed {r : Run} {lease : RunLease} {now : Time} :
    r.id = lease.runId → r.status = .running → r.leaseOwner = some lease.owner →
    r.leaseToken = lease.token →
    Moves cfg rs (.failClosedTakeover lease now) r (r.failedClosed rs now)
  | persist {r : Run} {lease : RunLease} {id : ResponseId} {q : QuestionId} {o : QuestionOutcome}
      {now : Time} :
    r.id = lease.runId → owns lease now r → r.cancellationRequested = false →
    (∀ x ∈ rs, x.questionId ≠ q) →
    Moves cfg rs (.persistResponse lease id q o now) r
      { r with completedQuestions := rs.length + 1 }
  | cancelPending {r : Run} {now : Time} :
    r.status = .pending → Moves cfg rs (.requestCancel r.id now) r
      ({ r with cancellationRequested := true }.cancelledPending rs now)
  | cancelRunning {r : Run} {now : Time} :
    r.status = .running → Moves cfg rs (.requestCancel r.id now) r
      { r with cancellationRequested := true }
  | finishCancelled {r : Run} {lease : RunLease} {now : Time} :
    r.id = lease.runId → owns lease now r → r.cancellationRequested = true →
    Moves cfg rs (.finishCancelled lease now) r (r.cancelledByOwner rs now)
  | notify {r : Run} {published : Bool} {now : Time} :
    r.status = .pending → r.attemptCount = 0 →
    Moves cfg rs (.recordNotificationResult r.id published now) r
      { r with
        lastError := if published then none else some .queueNotificationUnavailable
        lastEnqueuedAt := if published then some now else r.lastEnqueuedAt }
  | failCancelled {r : Run} {lease : RunLease} {e : ErrorCode} {now : Time} :
    r.id = lease.runId → owns lease now r → r.cancellationRequested = true →
    Moves cfg rs (.failAttempt lease e now) r (r.cancelledByOwner rs now)
  | failRecovered {r : Run} {lease : RunLease} {e : ErrorCode} {now : Time} :
    r.id = lease.runId → owns lease now r → r.cancellationRequested = false →
    rs.length = r.totalQuestions →
    Moves cfg rs (.failAttempt lease e now) r
      ((aggregateRunEvidence rs { r with lastError := some e }).completeFromEvidence now)
  | failDeadLettered {r : Run} {lease : RunLease} {e : ErrorCode} {now : Time} :
    r.id = lease.runId → owns lease now r → r.cancellationRequested = false →
    rs.length ≠ r.totalQuestions → r.maxAttempts ≤ r.failedAttemptCount + 1 →
    Moves cfg rs (.failAttempt lease e now) r
      ({ aggregateRunEvidence rs { r with lastError := some e } with
        failedAttemptCount := r.failedAttemptCount + 1 }.deadLettered now e)
  | failRetried {r : Run} {lease : RunLease} {e : ErrorCode} {now : Time} :
    r.id = lease.runId → owns lease now r → r.cancellationRequested = false →
    rs.length ≠ r.totalQuestions → r.failedAttemptCount + 1 < r.maxAttempts →
    Moves cfg rs (.failAttempt lease e now) r
      ({ aggregateRunEvidence rs { r with lastError := some e } with
        failedAttemptCount := r.failedAttemptCount + 1 }.retryScheduled cfg now)
  | defer {r : Run} {lease : RunLease} {e : ErrorCode} {notBefore now : Time} :
    r.id = lease.runId → owns lease now r →
    Moves cfg rs (.deferGovernance lease e notBefore now) r (r.deferred e notBefore)
  | yield {r : Run} {lease : RunLease} {n : ℕ} {now : Time} :
    r.id = lease.runId → owns lease now r →
    Moves cfg rs (.cooperativeYield lease n now) r (r.yielded now)
  | exhaust {r : Run} {lease : RunLease} {e : ErrorCode} {integrityError : Bool} {now : Time} :
    r.id = lease.runId → owns lease now r →
    Moves cfg rs (.exhaustGovernance lease e integrityError now) r (r.exhausted rs e now)
  | finish {r : Run} {lease : RunLease} {cancelled : Bool} {now finishedAt : Time} :
    r.id = lease.runId → owns lease now r →
    (cancelled = false → r.cancellationRequested = false → rs.length = r.totalQuestions) →
    Moves cfg rs (.finishRun lease cancelled now finishedAt) r
      (r.finished rs (if cancelled then .cancelled else .completed) finishedAt)
  | reapCancelled {r : Run} {rows : List (RunId × ℕ)} {now : Time} :
    (r.id, r.leaseToken) ∈ rows → r.leaseExpired now → r.cancellationRequested = true →
    Moves cfg rs (.reap rows now) r (r.reapedCancelled rs now)
  | reapCompleted {r : Run} {rows : List (RunId × ℕ)} {now : Time} :
    (r.id, r.leaseToken) ∈ rows → r.leaseExpired now → r.cancellationRequested = false →
    rs.length = r.totalQuestions →
    Moves cfg rs (.reap rows now) r ((aggregateRunEvidence rs r).completeFromEvidence now)
  | reapDeadLettered {r : Run} {rows : List (RunId × ℕ)} {now : Time} :
    (r.id, r.leaseToken) ∈ rows → r.leaseExpired now → r.cancellationRequested = false →
    rs.length ≠ r.totalQuestions → r.maxAttempts ≤ r.failedAttemptCount + 1 →
    Moves cfg rs (.reap rows now) r
      ({ aggregateRunEvidence rs r with
        failedAttemptCount := r.failedAttemptCount + 1
        lastError := some .workerLeaseExpired }.deadLettered now .workerLeaseExpiredRetryExhausted)
  | reapRetried {r : Run} {rows : List (RunId × ℕ)} {now : Time} :
    (r.id, r.leaseToken) ∈ rows → r.leaseExpired now → r.cancellationRequested = false →
    rs.length ≠ r.totalQuestions → r.failedAttemptCount + 1 < r.maxAttempts →
    Moves cfg rs (.reap rows now) r
      ({ aggregateRunEvidence rs r with
        failedAttemptCount := r.failedAttemptCount + 1
        lastError := some .workerLeaseExpired }.retryScheduled cfg now)
  | renew {r : Run} {owner : Owner} {token : ℕ} {now : Time} :
    Governance.fenced (some owner) (some token) now r →
    Moves cfg rs (.renewRunLease r.id owner token now) r
      { r with heartbeatAt := some now, leaseExpiresAt := some (now + cfg.leaseFor) }

/-- The Response an operation brings. -/
def Op.answer : Op → Option Response
  | .persistResponse lease id q o _ => some (o.response id lease.runId q)
  | _ => none

/-- The Responses after an operation that moved its Run. -/
def Op.evidence (o : Op) (t : Table Response) : Table Response :=
  match o.answer with
  | none => t
  | some x => t.insert x

/-- A failure was counted and the Run goes on: its cursors start a new
generation. -/
def Run.goesOn (r r' : Run) : Prop :=
  r.failedAttemptCount < r'.failedAttemptCount ∧ r'.status ≠ .failed

instance (r r' : Run) : Decidable (r.goesOn r') := inferInstanceAs (Decidable (_ ∧ _))

/-- What an event says of its Run `r`: that it has ended, or how many failures
it has counted at least. -/
def EventKey.Records (r : Run) : EventKey → Prop
  | runCancelRequested id => id = r.id ∧ r.status.terminal
  | runTerminal id _ => id = r.id ∧ r.status.terminal
  | runDeadLettered id => id = r.id ∧ r.status.terminal
  | runRetryScheduled id n => id = r.id ∧ n ≤ r.failedAttemptCount
  | _ => True

/-- The events that say nothing about the end or the failures of a Run. -/
def EventKey.Passing (k : EventKey) : Prop := ∀ r : Run, k.Records r

/-- The operations on the attempt ledger and its cursors. -/
def Op.onBooks : Op → Bool
  | .questionContext .. | .reserve .. | .markSendStarted .. | .finish .. | .reconcileRunLease .. =>
    true
  | _ => false

/-- What an operation can do to the Runs and the Responses, and one outside the
books to the cursors. -/
inductive StoreStep (cfg : Config) (o : Op) (s s' : Store) : Prop where
  | idle : s'.runs = s.runs → s'.responses = s.responses →
    Appended EventKey.Passing s.audit s'.audit →
    (o.onBooks = false → s'.executions = s.executions) → StoreStep cfg o s s'
  | admitted {n : Governance.NewRun} {policy : Policy} {provider : ScopeKey} {now : Time} :
    o = .admitRun n now → s.runs.get? n.id = none → s'.policies.get? policy.id = some policy →
    s'.runs = s.runs.insert (n.admitted cfg policy provider now) →
    s'.responses = s.responses → Appended EventKey.Passing s.audit s'.audit →
    s'.executions = s.executions → StoreStep cfg o s s'
  | move {r r' : Run} :
    s.runs.get? r.id = some r → Moves cfg (s.responsesOf r.id) o r r' →
    s'.runs = s.runs.put r' → s'.responses = o.evidence s.responses →
    (∀ x ∈ o.answer, s.responses.get? x.id = none) →
    s'.executions = (if r.goesOn r' then newGeneration r.id s else s).executions →
    Appended (EventKey.Records r') s.audit s'.audit → StoreStep cfg o s s'

/-! ## Inversion, one operation at a time -/

variable {cfg : Config} {s s' : Store}

/-- What `_locked_run` found. -/
theorem owned_of_filter {lease : RunLease} {now : Time} {run : Run}
    (h : (s.runs.get? lease.runId).filter (owns lease now) = some run) :
    s.runs.get? run.id = some run ∧ run.id = lease.runId ∧ owns lease now run := by
  obtain ⟨hg, ho⟩ := Option.filter_eq_some_iff.mp h
  have hid : run.id = lease.runId := Table.key_of_get? hg
  exact ⟨by rw [hid]; exact hg, hid, ho⟩

theorem StoreStep.same {o : Op} : StoreStep cfg o s s :=
  .idle rfl rfl (.refl _) fun _ => rfl

/-- A move that counts no failure keeps the cursors. -/
theorem StoreStep.moved {o : Op} {r r' : Run} {t : Table AuditEvent}
    (hr : s.runs.get? r.id = some r) (hm : Moves cfg (s.responsesOf r.id) o r r')
    (ha : o.answer = none) (hf : r'.failedAttemptCount = r.failedAttemptCount)
    (hlog : Appended (EventKey.Records r') s.audit t) :
    StoreStep cfg o s { s with runs := s.runs.put r', audit := t } := by
  refine .move hr hm rfl ?_ ?_ ?_ hlog
  · unfold Op.evidence
    rw [ha]
  · intro x hx
    rw [ha] at hx
    cases hx
  · rw [if_neg]
    rintro ⟨hlt, -⟩
    omega

theorem claim_step {runId : RunId} {owner : Owner} {now : Time}
    {a : Option (RunLease × Option ℕ)}
    (h : exec schema (claim cfg runId owner now) s = .ok (a, s')) :
    (s' = s ∧ a = none) ∨
      ∃ r, s.runs.get? r.id = some r ∧ r.id = runId ∧ r.eligible (s.responsesOf runId).length now ∧
        (∃ l, a = some l ∧ l.1 = ⟨runId, owner, r.leaseToken + 1, r.attemptCount + 1,
          now + cfg.leaseFor⟩) ∧
        ∃ t, Appended EventKey.Passing s.audit t ∧
          s' = { (if r.leaseExpired now then newGeneration runId s else s) with
            runs := s.runs.put (r.claimed owner now (now + cfg.leaseFor)), audit := t } := by
  unfold claim lockRun Prog.forUpdate at h
  simp only [bind_eq, Prog.bind, exec_lock] at h
  split at h
  · obtain ⟨rfl, rfl⟩ := exec_pure_ok h
    exact Or.inl ⟨rfl, rfl⟩
  · next r hr =>
    have hid : r.id = runId := Table.key_of_get? hr
    split at h
    · next he =>
      refine Or.inr ⟨r, by rw [hid]; exact hr, hid, he, ?_⟩
      have h := exec_flush_bind h
      split at h
      · next hx =>
        rw [if_pos hx]
        obtain ⟨t, hlog, h⟩ := exec_audit_bind (exec_flush_bind h)
        obtain ⟨rfl, rfl⟩ := exec_pure_ok h
        exact ⟨⟨_, rfl, rfl⟩, t, hlog.one fun _ => trivial, rfl⟩
      · next hx =>
        rw [if_neg hx]
        obtain ⟨t, hlog, h⟩ := exec_audit_bind h
        obtain ⟨rfl, rfl⟩ := exec_pure_ok h
        exact ⟨⟨_, rfl, rfl⟩, t, hlog.one fun _ => trivial, rfl⟩
    · obtain ⟨rfl, rfl⟩ := exec_pure_ok h
      exact Or.inl ⟨rfl, rfl⟩

/-- An expired lease is a RUNNING row's. -/
theorem running_of_leaseExpired {r : Run} {now : Time} (h : r.leaseExpired now) :
    r.status = .running := by
  unfold Run.leaseExpired at h
  rw [Bool.and_eq_true] at h
  exact of_decide_eq_true h.1

theorem claim_storeStep {runId : RunId} {owner : Owner} {now : Time}
    {a : Option (RunLease × Option ℕ)}
    (h : exec schema (claim cfg runId owner now) s = .ok (a, s')) :
    StoreStep cfg (.claim runId owner now) s s' := by
  obtain ⟨rfl, -⟩ | ⟨r, hr, rfl, he, -, t, hlog, rfl⟩ := claim_step h
  · exact .same
  · refine .move hr (.claim he) rfl ?_ nofun ?_ (hlog.mono fun _ hk => hk _)
    · split <;> rfl
    · have hg : r.goesOn (r.claimed owner now (now + cfg.leaseFor)) ↔ r.leaseExpired now := by
        unfold Run.goesOn Run.claimed
        by_cases hx : r.leaseExpired now <;> simp [hx]
      simp only [hg]

theorem terminal_failedClosed (r : Run) (rs : List Response) (now : Time) :
    (r.failedClosed rs now).status.terminal := by
  unfold Run.failedClosed Run.clearLease
  dsimp only
  split <;> rfl

/-- The Runner finishes a Run as COMPLETED or CANCELLED. -/
theorem terminal_finished (r : Run) (rs : List Response) (cancelled : Bool) (now : Time) :
    (r.finished rs (if cancelled then .cancelled else .completed) now).status.terminal := by
  unfold Run.finished
  dsimp only
  split
  · rfl
  · cases cancelled <;> rfl

theorem failClosedTakeover_storeStep {lease : RunLease} {now : Time} {u : Unit}
    (h : exec schema (failClosedTakeover lease now) s = .ok (u, s')) :
    StoreStep cfg (.failClosedTakeover lease now) s s' := by
  unfold failClosedTakeover lockRun Prog.forUpdate at h
  simp only [bind_eq, Prog.bind, exec_lock] at h
  split at h
  · obtain ⟨-, rfl⟩ := exec_pure_ok h
    exact .same
  · next r hr =>
    have hid : r.id = lease.runId := Table.key_of_get? hr
    split at h
    · next hc =>
      obtain ⟨t, hlog, h⟩ := exec_audit_bind h
      obtain rfl := exec_flush_ok h
      exact .moved (by rw [hid]; exact hr) (.failClosed hid hc.1 hc.2.1 hc.2.2) rfl rfl
        (hlog.one ⟨rfl, terminal_failedClosed r _ now⟩)
    · obtain ⟨-, rfl⟩ := exec_pure_ok h
      exact .same

theorem persistResponse_storeStep {lease : RunLease} {id : ResponseId} {q : QuestionId}
    {outcome : QuestionOutcome} {now : Time} {d : ResponseDisposition}
    (h : exec schema (persistResponse lease (outcome.response id lease.runId q) now) s =
      .ok (d, s')) :
    StoreStep cfg (.persistResponse lease id q outcome now) s s' := by
  have hx : (outcome.response id lease.runId q).questionId = q ∧
      (outcome.response id lease.runId q).runId = lease.runId := by
    cases outcome <;> exact ⟨rfl, rfl⟩
  generalize hresp : outcome.response id lease.runId q = x at h hx
  unfold persistResponse lockedRun lockRun Prog.forUpdate at h
  simp only [bind_eq, Prog.bind, exec_lock] at h
  split at h
  · obtain ⟨-, rfl⟩ := exec_pure_ok h
    exact .same
  · next r hr =>
    obtain ⟨hg, hid, ho⟩ := owned_of_filter hr
    split at h
    · obtain ⟨-, rfl⟩ := exec_pure_ok h
      exact .same
    next hcancel =>
    split at h
    · obtain ⟨-, rfl⟩ := exec_pure_ok h
      exact .same
    next hnew =>
    obtain ⟨hfresh, h⟩ := exec_ensure_bind h
    have hnone : s.responses.get? x.id = none := by simpa using hfresh
    have h := exec_flush_bind h
    simp only [Prog.read, Prog.bind, exec_query] at h
    obtain ⟨t, hlog, h⟩ := exec_audit_bind h
    have h := exec_flush_bind h
    obtain ⟨-, rfl⟩ := exec_pure_ok h
    -- the count after the insert is one more than before
    have hcount : ({ s with responses := s.responses.insert x }.responsesOf lease.runId).length =
        (s.responsesOf lease.runId).length + 1 := by
      have hkey : s.responses.get? (key x) = none := hnone
      simp [Store.responsesOf, Table.insert_of_none hkey, List.filter_append, hx.2]
    have hnone' : ∀ y ∈ s.responsesOf r.id, y.questionId ≠ q := by
      rw [hid]
      simpa [hx.1] using hnew
    have hevid : (Op.persistResponse lease id q outcome now).evidence s.responses =
        s.responses.insert x := by
      rw [← hresp]
      rfl
    have hm : Moves cfg (s.responsesOf r.id) (.persistResponse lease id q outcome now) r
        { r with completedQuestions := (s.responsesOf r.id).length + 1 } :=
      .persist hid ho (by simpa using hcancel) hnone'
    refine .move hg hm ?_ hevid.symm ?_ ?_ (hlog.one trivial)
    · exact congrArg (fun n => s.runs.put { r with completedQuestions := n })
        (hcount.trans (by rw [hid]))
    · intro y hy
      obtain rfl : outcome.response id lease.runId q = y := Option.some.inj hy
      rw [hresp]
      exact hnone
    · rw [if_neg fun hgo => absurd hgo.1 (lt_irrefl _)]

theorem requestCancel_storeStep {runId : RunId} {now : Time} {d : CancelDisposition}
    (h : exec schema (requestCancel runId now) s = .ok (d, s')) :
    StoreStep cfg (.requestCancel runId now) s s' := by
  unfold requestCancel lockRun Prog.forUpdate at h
  simp only [bind_eq, Prog.bind, exec_lock] at h
  split at h
  · obtain ⟨-, rfl⟩ := exec_pure_ok h
    exact .same
  · next r hr =>
    obtain rfl : r.id = runId := Table.key_of_get? hr
    split at h
    · next hst =>
      obtain ⟨t, hlog, h⟩ := exec_audit_bind (exec_flush_bind h)
      obtain ⟨t', hlog', h⟩ := exec_audit_bind h
      have h := exec_flush_bind h
      obtain ⟨-, rfl⟩ := exec_pure_ok h
      -- the flag and the row are two updates of one row
      have hput : (s.runs.put { r with cancellationRequested := true }).put
          ({ r with cancellationRequested := true }.cancelledPending (s.responsesOf r.id) now) =
          s.runs.put
            ({ r with cancellationRequested := true }.cancelledPending (s.responsesOf r.id) now) :=
        Table.put_put rfl
      refine .move hr (.cancelPending hst) hput rfl (by rintro _ ⟨⟩) ?_
        ((hlog.one ⟨rfl, rfl⟩).trans (hlog'.one ⟨rfl, rfl⟩))
      rw [if_neg fun hgo => absurd hgo.1 (lt_irrefl _)]
    · next hst =>
      obtain ⟨t, hlog, h⟩ := exec_audit_bind (exec_flush_bind h)
      obtain ⟨-, rfl⟩ := exec_pure_ok h
      exact .moved hr (.cancelRunning hst) rfl rfl (hlog.one trivial)
    · obtain ⟨-, rfl⟩ := exec_pure_ok h
      exact .same

theorem finishCancelled_storeStep {lease : RunLease} {now : Time} {b : Bool}
    (h : exec schema (finishCancelled lease now) s = .ok (b, s')) :
    StoreStep cfg (.finishCancelled lease now) s s' := by
  unfold finishCancelled lockedRun lockRun Prog.forUpdate at h
  simp only [bind_eq, Prog.bind, exec_lock] at h
  split at h
  · obtain ⟨-, rfl⟩ := exec_pure_ok h
    exact .same
  · next r hr =>
    obtain ⟨hg, hid, ho⟩ := owned_of_filter hr
    split at h
    · next hc =>
      obtain ⟨t, hlog, h⟩ := exec_audit_bind h
      have h := exec_flush_bind h
      obtain ⟨-, rfl⟩ := exec_pure_ok h
      exact .moved hg (.finishCancelled hid ho hc) rfl rfl (hlog.one ⟨rfl, rfl⟩)
    · obtain ⟨-, rfl⟩ := exec_pure_ok h
      exact .same

theorem recordNotificationResult_storeStep {runId : RunId} {published : Bool} {now : Time}
    {b : Bool} (h : exec schema (recordNotificationResult runId published now) s = .ok (b, s')) :
    StoreStep cfg (.recordNotificationResult runId published now) s s' := by
  unfold recordNotificationResult lockRun Prog.forUpdate at h
  simp only [bind_eq, Prog.bind, exec_lock] at h
  split at h
  · obtain ⟨-, rfl⟩ := exec_pure_ok h
    exact .same
  · next r hr =>
    obtain rfl : r.id = runId := Table.key_of_get? hr
    split at h
    · next hc =>
      obtain ⟨t, hlog, h⟩ := exec_audit_bind (exec_flush_bind h)
      obtain ⟨-, rfl⟩ := exec_pure_ok h
      exact .moved hr (.notify hc.1 hc.2) rfl rfl (hlog.one trivial)
    · obtain ⟨-, rfl⟩ := exec_pure_ok h
      exact .same

theorem failAttempt_storeStep {lease : RunLease} {e : ErrorCode} {now : Time}
    {d : AttemptDisposition} (h : exec schema (failAttempt cfg lease e now) s = .ok (d, s')) :
    StoreStep cfg (.failAttempt lease e now) s s' := by
  unfold failAttempt lockedRun lockRun Prog.forUpdate at h
  simp only [bind_eq, Prog.bind, exec_lock] at h
  split at h
  · obtain ⟨-, rfl⟩ := exec_pure_ok h
    exact .same
  next r hr =>
  obtain ⟨hg, hid, ho⟩ := owned_of_filter hr
  split at h
  · next hc =>
    obtain ⟨t, hlog, h⟩ := exec_audit_bind h
    have h := exec_flush_bind h
    obtain ⟨-, rfl⟩ := exec_pure_ok h
    exact .moved hg (.failCancelled hid ho hc) rfl rfl (hlog.one ⟨rfl, rfl⟩)
  next hc =>
  have hc : r.cancellationRequested = false := by simpa using hc
  split at h
  · next hall =>
    obtain ⟨t, hlog, h⟩ := exec_audit_bind h
    have h := exec_flush_bind h
    obtain ⟨-, rfl⟩ := exec_pure_ok h
    exact .moved hg (.failRecovered hid ho hc hall) rfl rfl (hlog.one ⟨rfl, rfl⟩)
  next hall =>
  split at h
  · next hmax =>
    obtain ⟨t, hlog, h⟩ := exec_audit_bind h
    obtain ⟨t', hlog', h⟩ := exec_audit_bind h
    have h := exec_flush_bind h
    obtain ⟨-, rfl⟩ := exec_pure_ok h
    refine .move hg (.failDeadLettered hid ho hc hall hmax) rfl rfl (by rintro _ ⟨⟩) ?_
      ((hlog.one ⟨rfl, rfl⟩).trans (hlog'.one ⟨rfl, rfl⟩))
    rw [if_neg fun hgo => absurd rfl hgo.2]
  · next hmax =>
    have h := exec_flush_bind h
    obtain ⟨t, hlog, h⟩ := exec_audit_bind h
    have h := exec_flush_bind h
    obtain ⟨-, rfl⟩ := exec_pure_ok h
    refine .move hg (.failRetried hid ho hc hall (Nat.lt_of_not_le hmax)) rfl rfl (by rintro _ ⟨⟩) ?_
      (hlog.one ⟨rfl, le_rfl⟩)
    rw [if_pos ⟨Nat.lt_succ_self _, (by rintro ⟨⟩)⟩]
    rfl

theorem deferGovernance_storeStep {lease : RunLease} {e : ErrorCode} {notBefore now : Time}
    {d : AttemptDisposition}
    (h : exec schema (deferGovernance lease e notBefore now) s = .ok (d, s')) :
    StoreStep cfg (.deferGovernance lease e notBefore now) s s' := by
  unfold deferGovernance lockedRun lockRun Prog.forUpdate at h
  simp only [bind_eq, Prog.bind, exec_lock] at h
  split at h
  · obtain ⟨-, rfl⟩ := exec_pure_ok h
    exact .same
  · next r hr =>
    obtain ⟨hg, hid, ho⟩ := owned_of_filter hr
    obtain ⟨t, hlog, h⟩ := exec_audit_bind h
    have h := exec_flush_bind h
    obtain ⟨-, rfl⟩ := exec_pure_ok h
    exact .moved hg (.defer hid ho) rfl rfl (hlog.one trivial)

theorem cooperativeYield_storeStep {lease : RunLease} {n : ℕ} {now : Time}
    {d : AttemptDisposition} (h : exec schema (cooperativeYield lease n now) s = .ok (d, s')) :
    StoreStep cfg (.cooperativeYield lease n now) s s' := by
  unfold cooperativeYield lockedRun lockRun Prog.forUpdate at h
  simp only [bind_eq, Prog.bind, exec_lock] at h
  split at h
  · obtain ⟨-, rfl⟩ := exec_pure_ok h
    exact .same
  · next r hr =>
    obtain ⟨hg, hid, ho⟩ := owned_of_filter hr
    obtain ⟨t, hlog, h⟩ := exec_audit_bind h
    have h := exec_flush_bind h
    obtain ⟨-, rfl⟩ := exec_pure_ok h
    exact .moved hg (.yield hid ho) rfl rfl (hlog.one trivial)

theorem exhaustGovernance_storeStep {lease : RunLease} {e : ErrorCode} {integrityError : Bool}
    {now : Time} {d : AttemptDisposition}
    (h : exec schema (exhaustGovernance lease e integrityError now) s = .ok (d, s')) :
    StoreStep cfg (.exhaustGovernance lease e integrityError now) s s' := by
  unfold exhaustGovernance lockedRun lockRun Prog.forUpdate at h
  simp only [bind_eq, Prog.bind, exec_lock] at h
  split at h
  · obtain ⟨-, rfl⟩ := exec_pure_ok h
    exact .same
  · next r hr =>
    obtain ⟨hg, hid, ho⟩ := owned_of_filter hr
    split at h
    · obtain ⟨t, hlog, h⟩ := exec_audit_bind h
      obtain ⟨t', hlog', h⟩ := exec_audit_bind h
      have h := exec_flush_bind h
      obtain ⟨-, rfl⟩ := exec_pure_ok h
      exact .moved hg (.exhaust hid ho) rfl rfl ((hlog.one trivial).trans (hlog'.one ⟨rfl, rfl⟩))
    · obtain ⟨t, hlog, h⟩ := exec_audit_bind h
      have h := exec_flush_bind h
      obtain ⟨-, rfl⟩ := exec_pure_ok h
      exact .moved hg (.exhaust hid ho) rfl rfl (hlog.one ⟨rfl, rfl⟩)

theorem finishRun_storeStep {lease : RunLease} {cancelled : Bool} {now finishedAt : Time}
    {d : Option RunStatus}
    (h : exec schema (finishRun lease (if cancelled then .cancelled else .completed) now finishedAt)
      s = .ok (d, s')) :
    StoreStep cfg (.finishRun lease cancelled now finishedAt) s s' := by
  generalize hst : (if cancelled then RunStatus.cancelled else .completed) = st at h
  unfold finishRun lockedRun lockRun Prog.forUpdate at h
  simp only [bind_eq, Prog.bind, exec_lock] at h
  split at h
  · obtain ⟨-, rfl⟩ := exec_pure_ok h
    exact .same
  · next r hr =>
    obtain ⟨hg, hid, ho⟩ := owned_of_filter hr
    split at h
    · cases h
    · next hall =>
      obtain ⟨t, hlog, h⟩ := exec_audit_bind h
      have h := exec_flush_bind h
      obtain ⟨-, rfl⟩ := exec_pure_ok h
      subst hst
      refine .moved hg (.finish hid ho fun hcan hreq => ?_) rfl rfl
        (hlog.one ⟨rfl, terminal_finished r _ _ finishedAt⟩)
      by_contra hne
      exact hall ⟨by rw [hcan]; rfl, by rw [hreq]; exact Bool.false_ne_true, hne⟩

/-! ## The reaper -/

theorem reapRow_storeStep {rows : List (RunId × ℕ)} {row : RunId × ℕ} (hrow : row ∈ rows)
    {now : Time} {d : ReapOutcome} (h : exec schema (reapRow cfg row now) s = .ok (d, s')) :
    StoreStep cfg (.reap rows now) s s' := by
  unfold reapRow lockRun Prog.forUpdate at h
  simp only [bind_eq, Prog.bind, exec_lock] at h
  split at h
  · obtain ⟨-, rfl⟩ := exec_pure_ok h
    exact .same
  next r hr =>
  have hid : r.id = row.1 := Table.key_of_get? hr
  rw [← hid] at hr
  split at h
  · obtain ⟨-, rfl⟩ := exec_pure_ok h
    exact .same
  next hx =>
  obtain ⟨hx, htok⟩ := not_not.mp hx
  have hmem : (r.id, r.leaseToken) ∈ rows := by
    rw [hid, htok]
    exact hrow
  split at h
  · next hc =>
    obtain ⟨t, hlog, h⟩ := exec_audit_bind h
    have h := exec_flush_bind h
    obtain ⟨-, rfl⟩ := exec_pure_ok h
    exact .moved hr (.reapCancelled hmem hx hc) rfl rfl (hlog.one ⟨rfl, rfl⟩)
  next hc =>
  have hc : r.cancellationRequested = false := by simpa using hc
  split at h
  · next hall =>
    obtain ⟨t, hlog, h⟩ := exec_audit_bind h
    have h := exec_flush_bind h
    obtain ⟨-, rfl⟩ := exec_pure_ok h
    exact .moved hr (.reapCompleted hmem hx hc hall) rfl rfl (hlog.one ⟨rfl, rfl⟩)
  next hall =>
  split at h
  · next hmax =>
    obtain ⟨t, hlog, h⟩ := exec_audit_bind h
    obtain ⟨t', hlog', h⟩ := exec_audit_bind h
    have h := exec_flush_bind h
    obtain ⟨-, rfl⟩ := exec_pure_ok h
    refine .move hr (.reapDeadLettered hmem hx hc hall hmax) rfl rfl (by rintro _ ⟨⟩) ?_
      ((hlog.one ⟨rfl, rfl⟩).trans (hlog'.one ⟨rfl, rfl⟩))
    rw [if_neg fun hgo => absurd rfl hgo.2]
  · next hmax =>
    have h := exec_flush_bind h
    obtain ⟨t, hlog, h⟩ := exec_audit_bind h
    have h := exec_flush_bind h
    obtain ⟨-, rfl⟩ := exec_pure_ok h
    refine .move hr (.reapRetried hmem hx hc hall (Nat.lt_of_not_le hmax)) rfl rfl (by rintro _ ⟨⟩) ?_
      (hlog.one ⟨rfl, le_rfl⟩)
    rw [if_pos ⟨Nat.lt_succ_self _, (by rintro ⟨⟩)⟩]
    rfl

/-- The reaping transaction is one move after another. -/
theorem reap_storeSteps {rows : List (RunId × ℕ)} {now : Time} :
    ∀ {todo : List (RunId × ℕ)} {s : Store} {os : List ReapOutcome}, (∀ x ∈ todo, x ∈ rows) →
      exec schema (reap cfg now todo) s = .ok (os, s') →
      Relation.ReflTransGen (StoreStep cfg (.reap rows now)) s s' := by
  intro todo
  induction todo with
  | nil =>
    intro s os _ h
    obtain ⟨-, rfl⟩ := exec_pure_ok h
    exact .refl
  | cons row todo ih =>
    intro s os hsub h
    obtain ⟨_, s₁, h₁, h₂⟩ := exec_bind_eq_ok h
    obtain ⟨_, s₂, h₂, h₃⟩ := exec_bind_eq_ok h₂
    obtain ⟨-, rfl⟩ := exec_pure_ok h₃
    exact .head (reapRow_storeStep (hsub row List.mem_cons_self) h₁)
      (ih (fun x hx => hsub x (List.mem_cons_of_mem _ hx)) h₂)

end LLMBenchLab
