import LLMBenchLab.RunInvariants

/-!
# Lease transitions and the table constraints

Which operations of the lease repository, and of the Runner's `_finish`, can
the database reject. `Moves.control` and `Moves.progress` say that every row an
operation flushes satisfies the constraints of `evaluation_runs`, with one
exception: `request_cancel` on a PENDING Run that governance has delayed leaves
`governance_not_before` behind.
-/

namespace LLMBenchLab

open Relational Relational.Prog RunLeases

variable {cfg : Config} {s s' : Store}

/-- The case the database rejects: a cancellation request finds its Run PENDING
with a governance delay. -/
def Op.CancelsDelayed (s : Store) : Op → Prop
  | .requestCancel runId _ =>
    ∃ r, s.runs.get? runId = some r ∧ r.status = .pending ∧ r.governanceNotBefore.isSome
  | _ => False

theorem owns_running {lease : RunLease} {now : Time} {r : Run} (h : owns lease now r) :
    r.status = .running := by
  unfold owns at h
  simp only [Bool.and_eq_true, decide_eq_true_eq] at h
  exact h.1.1.1

/-- A RUNNING row has no retry time, no dead letter, no governance delay. -/
theorem Run.ControlChecks.running {r : Run} (h : r.ControlChecks) (hr : r.status = .running) :
    r.nextAttemptAt = none ∧ r.deadLetteredAt = none ∧ r.governanceNotBefore = none ∧
      r.governanceStatus ≠ .exhausted := by
  refine ⟨?_, ?_, ?_, ?_⟩
  · rcases h.nextAttemptOnlyPending with h | h
    · exact h
    · rw [hr] at h
      cases h
  · rcases h.deadLetterOnlyFailed with h | h
    · exact h
    · rw [hr] at h
      cases h
  · rcases h.governanceDelayMatchesPending with h | h
    · exact h
    · rw [hr] at h
      cases h.1
  · rcases h.governanceExhaustedIsFailed with h | h
    · exact h
    · rw [hr] at h
      cases h

/-- A row without a lease. -/
theorem Run.ControlChecks.unleased {r : Run} (hmax : 1 ≤ r.maxAttempts)
    (hfail : r.failedAttemptCount ≤ r.maxAttempts) (hst : r.status ≠ .running)
    (hlease : r.leaseOwner = none ∧ r.leaseExpiresAt = none ∧ r.heartbeatAt = none)
    (hnext : r.nextAttemptAt = none ∨ r.status = .pending)
    (hdead : r.deadLetteredAt = none ∨ r.status = .failed)
    (hpol : r.governanceStatus ≠ .legacyUnmanaged ∧ r.governancePolicyId.isSome)
    (hdelay : r.governanceNotBefore = none ∨ (r.status = .pending ∧ r.governanceStatus = .delayed))
    (hex : r.governanceStatus ≠ .exhausted ∨ r.status = .failed) : r.ControlChecks :=
  ⟨hmax, hfail, Or.inr ⟨hst, hlease⟩, hnext, hdead, Or.inr hpol, hdelay, hex⟩

/-- Progress survives a change of the other columns. -/
theorem Run.ProgressChecks.congr {r r' : Run} (h : r.ProgressChecks)
    (h₁ : r'.completedQuestions = r.completedQuestions) (h₂ : r'.totalQuestions = r.totalQuestions)
    (h₃ : r'.correctQuestions = r.correctQuestions) (h₄ : r'.errorQuestions = r.errorQuestions)
    (h₅ : r'.score = r.score) (h₆ : r'.completionRate = r.completionRate)
    (h₇ : r'.answeredAccuracy = r.answeredAccuracy) (h₈ : r'.estimatedCost = r.estimatedCost) :
    r'.ProgressChecks := by
  obtain ⟨a, b, c, d, e, f, g, i⟩ := h
  rw [← h₁, ← h₂] at a
  rw [← h₃] at b
  rw [← h₃, ← h₁] at c
  rw [← h₄, ← h₁] at d
  rw [← h₅] at e
  rw [← h₆] at f
  rw [← h₇] at g
  rw [← h₈] at i
  exact ⟨a, b, c, d, e, f, g, i⟩

/-- The progress columns of a flushed row. -/
theorem Moves.progress {rs : List Response} {o : Op} {r r' : Run} (h : Moves cfg rs o r r')
    (hp : r.ProgressChecks) (hi : RunInv cfg rs r) (hs : ∀ x ∈ rs, x.Sound)
    (hlen : rs.length ≤ r.totalQuestions)
    (hans : o.answer.isSome → rs.length < r.totalQuestions) : r'.ProgressChecks := by
  have hagg : ∀ {q : Run}, q.totalQuestions = r.totalQuestions →
      (aggregateRunEvidence rs q).ProgressChecks := by
    intro q hq
    exact aggregateRunEvidence_progress hs (by rw [hq]; exact hlen)
  cases h with
  | claim he => exact hp.congr rfl rfl rfl rfl rfl rfl rfl rfl
  | failClosed hid hst how htok => exact (hagg rfl).congr rfl rfl rfl rfl rfl rfl rfl rfl
  | persist hid ho hcan hnew =>
    -- the counters of the last aggregation stay below the new count
    have hle : r.completedQuestions ≤ rs.length + 1 := hi.completed.trans (Nat.le_succ _)
    exact ⟨hans rfl, hp.correctNonnegative,
      hp.correctNotAboveCompleted.trans (by exact_mod_cast hle),
      hp.errorsNotAboveCompleted.trans hle, hp.scoreRange, hp.completionRateRange,
      hp.answeredAccuracyRange, hp.estimatedCostNonnegative⟩
  | cancelPending hst =>
    refine (hagg (q := { r with cancellationRequested := true }) rfl).congr ?_ ?_ ?_ ?_ ?_ ?_ ?_ ?_ <;>
      rfl
  | cancelRunning hst => exact hp.congr rfl rfl rfl rfl rfl rfl rfl rfl
  | finishCancelled hid ho hcan => exact (hagg rfl).congr rfl rfl rfl rfl rfl rfl rfl rfl
  | notify hst h0 => exact hp.congr rfl rfl rfl rfl rfl rfl rfl rfl
  | failCancelled hid ho hcan => exact (hagg rfl).congr rfl rfl rfl rfl rfl rfl rfl rfl
  | failRecovered hid ho hcan hall => exact (hagg rfl).congr rfl rfl rfl rfl rfl rfl rfl rfl
  | failDeadLettered hid ho hcan hall hmax =>
    exact (hagg rfl).congr rfl rfl rfl rfl rfl rfl rfl rfl
  | failRetried hid ho hcan hall hmax => exact (hagg rfl).congr rfl rfl rfl rfl rfl rfl rfl rfl
  | defer hid ho => exact hp.congr rfl rfl rfl rfl rfl rfl rfl rfl
  | yield hid ho => exact hp.congr rfl rfl rfl rfl rfl rfl rfl rfl
  | exhaust hid ho => exact (hagg rfl).congr rfl rfl rfl rfl rfl rfl rfl rfl
  | finish hid ho hall => exact (hagg rfl).congr rfl rfl rfl rfl rfl rfl rfl rfl
  | reapCancelled hrow hx hcan => exact (hagg rfl).congr rfl rfl rfl rfl rfl rfl rfl rfl
  | reapCompleted hrow hx hcan hall => exact (hagg rfl).congr rfl rfl rfl rfl rfl rfl rfl rfl
  | reapDeadLettered hrow hx hcan hall hmax =>
    exact (hagg rfl).congr rfl rfl rfl rfl rfl rfl rfl rfl
  | reapRetried hrow hx hcan hall hmax => exact (hagg rfl).congr rfl rfl rfl rfl rfl rfl rfl rfl
  | renew ho => exact hp.congr rfl rfl rfl rfl rfl rfl rfl rfl

/-- The lease, retry and governance columns of a flushed row. -/
theorem Moves.control {rs : List Response} {o : Op} {r r' : Run} (h : Moves cfg rs o r r')
    (hc : r.ControlChecks) (hi : RunInv cfg rs r) (hr : s.runs.get? r.id = some r)
    (hnot : ¬ o.CancelsDelayed s) : r'.ControlChecks := by
  have hmax := hc.maxAttemptsPositive
  have hfail := hc.failedAttemptCountWithinLimit
  have hsucc : r.status = .running → r.failedAttemptCount + 1 ≤ r.maxAttempts :=
    fun hst => hi.attempts (by rw [hst]; rfl)
  have hpol : ∀ {st : GovernanceRunStatus}, st ≠ .legacyUnmanaged →
      st ≠ .legacyUnmanaged ∧ r.governancePolicyId.isSome := fun h => ⟨h, hi.managed.2⟩
  cases h with
  | claim he =>
    rename_i owner now
    unfold Run.eligible at he
    simp only [Bool.and_eq_true, Bool.or_eq_true, decide_eq_true_eq] at he
    obtain ⟨⟨⟨⟨hcan, hlt⟩, hex⟩, hopen⟩, hwhen⟩ := he
    refine ⟨hmax, ?_, Or.inl ⟨rfl, rfl, rfl, rfl⟩, Or.inl rfl, Or.inl ?_, Or.inr (hpol ?_),
      Or.inl rfl, Or.inl ?_⟩
    · show r.failedAttemptCount + (if r.leaseExpired now then 1 else 0) ≤ r.maxAttempts
      split <;> omega
    · -- an eligible row is PENDING or RUNNING, so it has no dead letter
      show r.deadLetteredAt = none
      rcases hc.deadLetterOnlyFailed with h | h
      · exact h
      · rcases hwhen with ⟨⟨hst, -⟩, -⟩ | ⟨hx, -⟩
        · rw [h] at hst
          cases hst
        · have hst := running_of_leaseExpired hx
          rw [h] at hst
          cases hst
    · show (if r.governanceStatus = .delayed then GovernanceRunStatus.managed
          else r.governanceStatus) ≠ _
      split
      · rintro ⟨⟩
      · exact hi.managed.1
    · show (if r.governanceStatus = .delayed then GovernanceRunStatus.managed
          else r.governanceStatus) ≠ _
      split
      · rintro ⟨⟩
      · exact hex
  | failClosed hid hst how htok =>
    obtain ⟨-, hdead, -, hex⟩ := hc.running hst
    rcases hcan : r.cancellationRequested with _ | _
    · refine .unleased hmax hfail ?_ ⟨rfl, rfl, rfl⟩ (Or.inl rfl) (Or.inl hdead) ?_ (Or.inl rfl) ?_ <;>
        simp [Run.failedClosed, Run.clearLease, aggregateRunEvidence, hcan, hi.managed.2]
    · refine .unleased hmax hfail ?_ ⟨rfl, rfl, rfl⟩ (Or.inl rfl) (Or.inl hdead) ?_ (Or.inl rfl) ?_ <;>
        simp [Run.failedClosed, Run.clearLease, aggregateRunEvidence, hcan, hi.managed, hex]
  | persist hid ho hcan hnew => exact { hc with }
  | cancelPending hst =>
    -- the one row that keeps its governance delay through the transition
    have hdelay : r.governanceNotBefore = none := by
      by_contra hne
      exact hnot ⟨r, hr, hst, Option.isSome_iff_ne_none.mpr hne⟩
    obtain ⟨hrun, -⟩ | ⟨-, hlease⟩ := hc.leaseMatchesRunningStatus
    · rw [hst] at hrun
      cases hrun
    have hdead : r.deadLetteredAt = none := by
      rcases hc.deadLetterOnlyFailed with h | h
      · exact h
      · rw [hst] at h
        cases h
    have hex : r.governanceStatus ≠ .exhausted := by
      rcases hc.governanceExhaustedIsFailed with h | h
      · exact h
      · rw [hst] at h
        cases h
    exact .unleased hmax hfail (by rintro ⟨⟩) hlease (Or.inl rfl) (Or.inl hdead) hi.managed
      (Or.inl hdelay) (Or.inl hex)
  | cancelRunning hst => exact { hc with }
  | finishCancelled hid ho hcan =>
    obtain ⟨hnext, hdead, hdelay, hex⟩ := hc.running (owns_running ho)
    exact .unleased hmax hfail (by rintro ⟨⟩) ⟨rfl, rfl, rfl⟩ (Or.inl hnext) (Or.inl hdead) hi.managed
      (Or.inl hdelay) (Or.inl hex)
  | notify hst h0 => exact { hc with }
  | failCancelled hid ho hcan =>
    obtain ⟨hnext, hdead, hdelay, hex⟩ := hc.running (owns_running ho)
    exact .unleased hmax hfail (by rintro ⟨⟩) ⟨rfl, rfl, rfl⟩ (Or.inl hnext) (Or.inl hdead) hi.managed
      (Or.inl hdelay) (Or.inl hex)
  | failRecovered hid ho hcan hall =>
    obtain ⟨hnext, hdead, hdelay, hex⟩ := hc.running (owns_running ho)
    exact .unleased hmax hfail (by rintro ⟨⟩) ⟨rfl, rfl, rfl⟩ (Or.inl rfl) (Or.inl rfl) hi.managed
      (Or.inl hdelay) (Or.inl hex)
  | failDeadLettered hid ho hcan hall hlim =>
    obtain ⟨hnext, hdead, hdelay, hex⟩ := hc.running (owns_running ho)
    exact .unleased hmax (hsucc (owns_running ho)) (by rintro ⟨⟩) ⟨rfl, rfl, rfl⟩ (Or.inl hnext)
      (Or.inr rfl) hi.managed (Or.inl hdelay) (Or.inl hex)
  | failRetried hid ho hcan hall hlim =>
    obtain ⟨hnext, hdead, hdelay, hex⟩ := hc.running (owns_running ho)
    exact .unleased hmax (hsucc (owns_running ho)) (by rintro ⟨⟩) ⟨rfl, rfl, rfl⟩ (Or.inr rfl)
      (Or.inl hdead) hi.managed (Or.inl hdelay) (Or.inl hex)
  | defer hid ho =>
    obtain ⟨hnext, hdead, hdelay, hex⟩ := hc.running (owns_running ho)
    exact .unleased hmax hfail (by rintro ⟨⟩) ⟨rfl, rfl, rfl⟩ (Or.inl rfl) (Or.inl hdead) (hpol (by rintro ⟨⟩))
      (Or.inr ⟨rfl, rfl⟩) (Or.inl (by rintro ⟨⟩))
  | yield hid ho =>
    obtain ⟨hnext, hdead, hdelay, hex⟩ := hc.running (owns_running ho)
    exact .unleased hmax hfail (by rintro ⟨⟩) ⟨rfl, rfl, rfl⟩ (Or.inl rfl) (Or.inl hdead) (hpol (by rintro ⟨⟩))
      (Or.inl rfl) (Or.inl (by rintro ⟨⟩))
  | exhaust hid ho =>
    obtain ⟨hnext, hdead, hdelay, hex⟩ := hc.running (owns_running ho)
    exact .unleased hmax hfail (by rintro ⟨⟩) ⟨rfl, rfl, rfl⟩ (Or.inl rfl) (Or.inl hdead) (hpol (by rintro ⟨⟩))
      (Or.inl rfl) (Or.inr rfl)
  | finish hid ho hall =>
    rename_i lease cancelled now finishedAt
    obtain ⟨hnext, hdead, hdelay, hex⟩ := hc.running (owns_running ho)
    refine .unleased hmax hfail ?_ ⟨rfl, rfl, rfl⟩ (Or.inl rfl) (Or.inl hdead) hi.managed
      (Or.inl hdelay) (Or.inl hex)
    show (if r.cancellationRequested then RunStatus.cancelled
      else if cancelled then .cancelled else .completed) ≠ .running
    split
    · rintro ⟨⟩
    · split <;> rintro ⟨⟩
  | reapCancelled hrow hx hcan =>
    obtain ⟨hnext, hdead, hdelay, hex⟩ := hc.running (running_of_leaseExpired hx)
    exact .unleased hmax hfail (by rintro ⟨⟩) ⟨rfl, rfl, rfl⟩ (Or.inl rfl) (Or.inl hdead) hi.managed
      (Or.inl hdelay) (Or.inl hex)
  | reapCompleted hrow hx hcan hall =>
    obtain ⟨hnext, hdead, hdelay, hex⟩ := hc.running (running_of_leaseExpired hx)
    exact .unleased hmax hfail (by rintro ⟨⟩) ⟨rfl, rfl, rfl⟩ (Or.inl rfl) (Or.inl rfl) hi.managed
      (Or.inl hdelay) (Or.inl hex)
  | reapDeadLettered hrow hx hcan hall hlim =>
    obtain ⟨hnext, hdead, hdelay, hex⟩ := hc.running (running_of_leaseExpired hx)
    exact .unleased hmax (hsucc (running_of_leaseExpired hx)) (by rintro ⟨⟩) ⟨rfl, rfl, rfl⟩ (Or.inl hnext)
      (Or.inr rfl) hi.managed (Or.inl hdelay) (Or.inl hex)
  | reapRetried hrow hx hcan hall hlim =>
    obtain ⟨hnext, hdead, hdelay, hex⟩ := hc.running (running_of_leaseExpired hx)
    exact .unleased hmax (hsucc (running_of_leaseExpired hx)) (by rintro ⟨⟩) ⟨rfl, rfl, rfl⟩ (Or.inr rfl)
      (Or.inl hdead) hi.managed (Or.inl hdelay) (Or.inl hex)
  | renew ho =>
    rename_i owner token now
    refine { hc with leaseMatchesRunningStatus := ?_ }
    unfold Governance.fenced at ho
    simp only [Bool.and_eq_true, decide_eq_true_eq] at ho
    obtain ⟨⟨⟨⟨hst, -⟩, how⟩, -⟩, -⟩ := ho
    exact Or.inl ⟨hst, by rw [how]; rfl, rfl, rfl⟩

/-- A store whose rows pass the checks, with the invariant of its Runs. -/
structure Sane (cfg : Config) (s : Store) : Prop where
  ok : s.ok = true
  inv : RunsInv cfg s

/-- Every row that an operation flushes satisfies the constraints of its table. -/
theorem Moves.checks {o : Op} {r r' : Run} (hs : Sane cfg s) (hr : s.runs.get? r.id = some r)
    (h : Moves cfg (s.responsesOf r.id) o r r') (hiss : o.Issued cfg s)
    (hnot : ¬ o.CancelsDelayed s) : r'.Checks := by
  have hc : r.Checks := Store.ok_runs hs.ok (Table.mem_of_get? hr)
  have hi := hs.inv.run _ r hr
  have hsound : ∀ x ∈ s.responsesOf r.id, x.Sound := by
    intro x hx
    exact hs.inv.sound x (mem_responsesOf.mp hx).1
  refine .of (h.progress hc.progress hi hsound (hs.inv.length_le hr) fun ha => ?_)
    (h.control hc.control hi hr hnot)
  obtain ⟨x, hx⟩ := Option.isSome_iff_exists.mp ha
  obtain ⟨-, hid, hq, hnew⟩ := h.answer hx hr hiss
  exact hs.inv.length_lt hr hq hnew

/-! ## No rejected flush -/

section Admitted

variable {α : Type}

theorem admitted_ret (a : α) : Admitted schema (ret a : Tx α) s := nofun

theorem admitted_flush {w : Store → Store} {g : Unit → Tx α} (hw : (w s).ok = true)
    (hg : Admitted schema (g ()) (w s)) : Admitted schema ((flush w).bind g) s := by
  have hw' : schema.ok (w s) = true := hw
  show exec schema (write w (g ())) s ≠ _
  rw [exec_write, if_pos hw']
  exact hg

theorem admitted_audit {k : EventKey} {now : Time} {f : AuditFacts} {g : Unit → Tx α}
    (hs : s.ok = true) (hg : ∀ t, Admitted schema (g ()) { s with audit := t }) :
    Admitted schema ((appendAuditEvent k now f).bind g) s := by
  refine Admitted.bind ?_ ?_
  · show exec schema _ s ≠ _
    unfold appendAuditEvent
    rw [exec_query]
    split
    · rw [Prog.flush, exec_write]
      split
      · rintro ⟨⟩
      · next h => exact absurd hs h
    · unfold Prog.ensure
      split <;> rintro ⟨⟩
  · intro a s' h
    obtain ⟨t, -, rfl⟩ := exec_appendAuditEvent_ok h
    exact hg t

theorem Store.ok_iff : s.ok = true ↔
    (∀ x ∈ s.policies.rows, x.Checks) ∧ (∀ x ∈ s.runs.rows, x.Checks) ∧
    (∀ x ∈ s.responses.rows, x.Checks) ∧ (∀ x ∈ s.executions.rows, x.Checks) ∧
    (∀ x ∈ s.ledger.scopes.rows, x.Checks) ∧ (∀ x ∈ s.ledger.buckets.rows, x.Checks) ∧
    (∀ x ∈ s.ledger.reservations.rows, x.Checks) := by
  unfold Store.ok
  simp only [Bool.and_eq_true, List.all_eq_true, decide_eq_true_eq, and_assoc]

theorem Store.ok_putRun (hs : s.ok = true) {r : Run} (hr : r.Checks) :
    { s with runs := s.runs.put r }.ok = true := by
  obtain ⟨h₁, h₂, h₃⟩ := Store.ok_iff.mp hs
  refine Store.ok_iff.mpr ⟨h₁, fun x hx => ?_, h₃⟩
  rcases Table.mem_put hx with rfl | ⟨hx, -⟩
  · exact hr
  · exact h₂ x hx

theorem Store.ok_newGeneration (hs : s.ok = true) (id : RunId) :
    (newGeneration id s).ok = true := by
  obtain ⟨h₁, h₂, h₃, h₄, h₅⟩ := Store.ok_iff.mp hs
  refine Store.ok_iff.mpr ⟨h₁, h₂, h₃, fun x hx => ?_, h₅⟩
  obtain ⟨y, hy, rfl⟩ := List.mem_map.mp hx
  unfold nextGeneration
  split
  · exact Nat.le_refl 1
  · exact h₄ y hy

theorem Store.ok_insertResponse (hs : s.ok = true) {x : Response} (hx : x.Checks) :
    { s with responses := s.responses.insert x }.ok = true := by
  obtain ⟨h₁, h₂, h₃, h₄⟩ := Store.ok_iff.mp hs
  refine Store.ok_iff.mpr ⟨h₁, h₂, fun y hy => ?_, h₄⟩
  rcases Table.mem_insert.mp hy with hy | ⟨-, rfl⟩
  · exact h₃ y hy
  · exact hx

theorem admitted_unit {p : Tx α} (h : Admitted schema p s) :
    Admitted schema (p.bind fun _ => ret ()) s :=
  h.bind fun _ _ _ => admitted_ret ()

end Admitted

/-! ### One operation at a time -/

theorem claim_admitted (hs : Sane cfg s) (runId : RunId) (owner : Owner) (now : Time) :
    Admitted schema (claim cfg runId owner now) s := by
  unfold claim lockRun Prog.forUpdate
  simp only [bind_eq, Prog.bind]
  show Admitted schema _ s
  unfold Admitted
  rw [exec_lock]
  split
  · rintro ⟨⟩
  next r hr =>
  obtain rfl : r.id = runId := Table.key_of_get? hr
  split
  swap
  · rintro ⟨⟩
  next he =>
  have hck := Moves.checks hs hr (@Moves.claim cfg _ r owner now he) trivial (by rintro ⟨⟩)
  refine admitted_flush (Store.ok_putRun hs.ok hck) ?_
  split
  · refine admitted_flush (Store.ok_newGeneration (Store.ok_putRun hs.ok hck) _) ?_
    exact admitted_audit (Store.ok_newGeneration (Store.ok_putRun hs.ok hck) _)
      fun _ => admitted_ret _
  · exact admitted_audit (Store.ok_putRun hs.ok hck) fun _ => admitted_ret _

theorem failClosedTakeover_admitted (hs : Sane cfg s) (lease : RunLease) (now : Time) :
    Admitted schema (failClosedTakeover lease now) s := by
  unfold failClosedTakeover lockRun Prog.forUpdate Admitted
  simp only [bind_eq, Prog.bind, exec_lock]
  split
  · rintro ⟨⟩
  next r hr =>
  have hid : r.id = lease.runId := Table.key_of_get? hr
  rw [← hid] at hr
  split
  swap
  · rintro ⟨⟩
  next hc =>
  have hck := Moves.checks hs hr
    (@Moves.failClosed cfg _ r lease now hid hc.1 hc.2.1 hc.2.2) trivial (by rintro ⟨⟩)
  exact admitted_audit hs.ok fun _ => admitted_flush (Store.ok_putRun hs.ok hck) (admitted_ret ())

theorem persistResponse_admitted (hs : Sane cfg s) (lease : RunLease) (id : ResponseId)
    (q : QuestionId) (outcome : QuestionOutcome) (now : Time)
    (hiss : Op.Issued cfg s (.persistResponse lease id q outcome now)) :
    Admitted schema (persistResponse lease (outcome.response id lease.runId q) now) s := by
  have hx : (outcome.response id lease.runId q).questionId = q ∧
      (outcome.response id lease.runId q).runId = lease.runId := by
    cases outcome <;> exact ⟨rfl, rfl⟩
  have hxs := (outcome.response_sound id lease.runId q).checks
  unfold persistResponse lockedRun lockRun Prog.forUpdate Admitted
  simp only [bind_eq, Prog.bind, exec_lock]
  split
  · rintro ⟨⟩
  next r hr =>
  obtain ⟨hg, hid, ho⟩ := owned_of_filter hr
  split
  · rintro ⟨⟩
  next hcan =>
  split
  · rintro ⟨⟩
  next hnew =>
  have hnew' : ∀ y ∈ s.responsesOf r.id, y.questionId ≠ q := by
    rw [hid]
    simpa [hx.1] using hnew
  have hck := Moves.checks hs hg
    (@Moves.persist cfg _ r lease id q outcome now hid ho (by simpa using hcan) hnew') hiss (by rintro ⟨⟩)
  generalize outcome.response id lease.runId q = x at hx hxs
  refine Admitted.bind ?_ fun _ s₁ h₁ => ?_
  · unfold Prog.ensure
    split <;> rintro ⟨⟩
  obtain ⟨hfresh, rfl⟩ := exec_ensure_ok h₁
  have hnone : s₁.responses.get? x.id = none := by simpa using hfresh
  have hkey : s₁.responses.get? (key x) = none := hnone
  refine admitted_flush (Store.ok_insertResponse hs.ok hxs) ?_
  refine admitted_audit (Store.ok_insertResponse hs.ok hxs) fun t => ?_
  have hcount : ({ s₁ with responses := s₁.responses.insert x }.responsesOf lease.runId).length =
      (s₁.responsesOf r.id).length + 1 := by
    rw [hid]
    simp [Store.responsesOf, Table.insert_of_none hkey, List.filter_append, hx.2]
  refine admitted_flush ?_ (admitted_ret _)
  refine Store.ok_putRun (s := { s₁ with responses := s₁.responses.insert x })
    (Store.ok_insertResponse hs.ok hxs) ?_
  rw [hcount]
  exact hck

theorem requestCancel_admitted (hs : Sane cfg s) (runId : RunId) (now : Time)
    (hnot : ¬ Op.CancelsDelayed s (.requestCancel runId now)) :
    Admitted schema (requestCancel runId now) s := by
  unfold requestCancel lockRun Prog.forUpdate Admitted
  simp only [bind_eq, Prog.bind, exec_lock]
  split
  · rintro ⟨⟩
  next r hr =>
  obtain rfl : r.id = runId := Table.key_of_get? hr
  have hc : r.Checks := Store.ok_runs hs.ok (Table.mem_of_get? hr)
  have hflag : Run.Checks { r with cancellationRequested := true } := { hc with }
  split
  · next hst =>
    have hck := Moves.checks hs hr (@Moves.cancelPending cfg _ r now hst) trivial hnot
    have hok := Store.ok_putRun hs.ok hflag
    refine admitted_flush hok (admitted_audit hok fun _ => admitted_audit hok fun _ => ?_)
    refine admitted_flush ?_ (admitted_ret _)
    exact Store.ok_putRun (s := { s with runs := s.runs.put { r with cancellationRequested := true } })
      hok hck
  · have hok := Store.ok_putRun hs.ok hflag
    exact admitted_flush hok (admitted_audit hok fun _ => admitted_ret _)
  · rintro ⟨⟩

theorem finishCancelled_admitted (hs : Sane cfg s) (lease : RunLease) (now : Time) :
    Admitted schema (finishCancelled lease now) s := by
  unfold finishCancelled lockedRun lockRun Prog.forUpdate Admitted
  simp only [bind_eq, Prog.bind, exec_lock]
  split
  · rintro ⟨⟩
  next r hr =>
  obtain ⟨hg, hid, ho⟩ := owned_of_filter hr
  split
  swap
  · rintro ⟨⟩
  next hc =>
  have hck := Moves.checks hs hg (@Moves.finishCancelled cfg _ r lease now hid ho hc) trivial (by rintro ⟨⟩)
  exact admitted_audit hs.ok fun _ => admitted_flush (Store.ok_putRun hs.ok hck) (admitted_ret _)

theorem recordNotificationResult_admitted (hs : Sane cfg s) (runId : RunId) (published : Bool)
    (now : Time) : Admitted schema (recordNotificationResult runId published now) s := by
  unfold recordNotificationResult lockRun Prog.forUpdate Admitted
  simp only [bind_eq, Prog.bind, exec_lock]
  split
  · rintro ⟨⟩
  next r hr =>
  obtain rfl : r.id = runId := Table.key_of_get? hr
  split
  swap
  · rintro ⟨⟩
  next hc =>
  have hck := Moves.checks hs hr (@Moves.notify cfg _ r published now hc.1 hc.2) trivial (by rintro ⟨⟩)
  have hok := Store.ok_putRun hs.ok hck
  exact admitted_flush hok (admitted_audit hok fun _ => admitted_ret _)

theorem failAttempt_admitted (hs : Sane cfg s) (lease : RunLease) (e : ErrorCode) (now : Time) :
    Admitted schema (failAttempt cfg lease e now) s := by
  unfold failAttempt lockedRun lockRun Prog.forUpdate Admitted
  simp only [bind_eq, Prog.bind, exec_lock]
  split
  · rintro ⟨⟩
  next r hr =>
  obtain ⟨hg, hid, ho⟩ := owned_of_filter hr
  split
  · next hc =>
    have hck := Moves.checks hs hg (@Moves.failCancelled cfg _ r lease e now hid ho hc) trivial (by rintro ⟨⟩)
    exact admitted_audit hs.ok fun _ => admitted_flush (Store.ok_putRun hs.ok hck) (admitted_ret _)
  next hc =>
  have hc : r.cancellationRequested = false := by simpa using hc
  split
  · next hall =>
    have hck := Moves.checks hs hg (@Moves.failRecovered cfg _ r lease e now hid ho hc hall) trivial
      (by rintro ⟨⟩)
    exact admitted_audit hs.ok fun _ => admitted_flush (Store.ok_putRun hs.ok hck) (admitted_ret _)
  next hall =>
  split
  · next hmax =>
    have hck := Moves.checks hs hg (@Moves.failDeadLettered cfg _ r lease e now hid ho hc hall hmax)
      trivial (by rintro ⟨⟩)
    exact admitted_audit hs.ok fun _ => admitted_audit hs.ok fun _ =>
      admitted_flush (Store.ok_putRun hs.ok hck) (admitted_ret _)
  · next hmax =>
    have hck := Moves.checks hs hg
      (@Moves.failRetried cfg _ r lease e now hid ho hc hall (Nat.lt_of_not_le hmax)) trivial (by rintro ⟨⟩)
    have hok := Store.ok_newGeneration hs.ok r.id
    exact admitted_flush hok (admitted_audit hok fun _ =>
      admitted_flush (Store.ok_putRun hok hck) (admitted_ret _))

theorem deferGovernance_admitted (hs : Sane cfg s) (lease : RunLease) (e : ErrorCode)
    (notBefore now : Time) : Admitted schema (deferGovernance lease e notBefore now) s := by
  unfold deferGovernance lockedRun lockRun Prog.forUpdate Admitted
  simp only [bind_eq, Prog.bind, exec_lock]
  split
  · rintro ⟨⟩
  next r hr =>
  obtain ⟨hg, hid, ho⟩ := owned_of_filter hr
  have hck := Moves.checks hs hg (@Moves.defer cfg _ r lease e notBefore now hid ho) trivial (by rintro ⟨⟩)
  exact admitted_audit hs.ok fun _ => admitted_flush (Store.ok_putRun hs.ok hck) (admitted_ret _)

theorem cooperativeYield_admitted (hs : Sane cfg s) (lease : RunLease) (n : ℕ) (now : Time) :
    Admitted schema (cooperativeYield lease n now) s := by
  unfold cooperativeYield lockedRun lockRun Prog.forUpdate Admitted
  simp only [bind_eq, Prog.bind, exec_lock]
  split
  · rintro ⟨⟩
  next r hr =>
  obtain ⟨hg, hid, ho⟩ := owned_of_filter hr
  have hck := Moves.checks hs hg (@Moves.yield cfg _ r lease n now hid ho) trivial (by rintro ⟨⟩)
  exact admitted_audit hs.ok fun _ => admitted_flush (Store.ok_putRun hs.ok hck) (admitted_ret _)

theorem exhaustGovernance_admitted (hs : Sane cfg s) (lease : RunLease) (e : ErrorCode)
    (integrityError : Bool) (now : Time) :
    Admitted schema (exhaustGovernance lease e integrityError now) s := by
  unfold exhaustGovernance lockedRun lockRun Prog.forUpdate Admitted
  simp only [bind_eq, Prog.bind, exec_lock]
  split
  · rintro ⟨⟩
  next r hr =>
  obtain ⟨hg, hid, ho⟩ := owned_of_filter hr
  have hck := Moves.checks hs hg (@Moves.exhaust cfg _ r lease e integrityError now hid ho) trivial
    (by rintro ⟨⟩)
  have hok := Store.ok_putRun hs.ok hck
  split
  · exact admitted_audit hs.ok fun _ => admitted_audit hs.ok fun _ =>
      admitted_flush hok (admitted_ret _)
  · exact admitted_audit hs.ok fun _ => admitted_flush hok (admitted_ret _)

theorem finishRun_admitted (hs : Sane cfg s) (lease : RunLease) (cancelled : Bool)
    (now finishedAt : Time) :
    Admitted schema (finishRun lease (if cancelled then .cancelled else .completed) now finishedAt)
      s := by
  generalize hst : (if cancelled then RunStatus.cancelled else .completed) = st
  unfold finishRun lockedRun lockRun Prog.forUpdate Admitted
  simp only [bind_eq, Prog.bind, exec_lock]
  split
  · rintro ⟨⟩
  next r hr =>
  obtain ⟨hg, hid, ho⟩ := owned_of_filter hr
  split
  · rintro ⟨⟩
  next hall =>
  subst hst
  have hm : Moves cfg (s.responsesOf r.id) (.finishRun lease cancelled now finishedAt) r
      (r.finished (s.responsesOf r.id) (if cancelled then .cancelled else .completed)
        finishedAt) := by
    refine .finish hid ho fun hcan hreq => ?_
    by_contra hne
    exact hall ⟨by rw [hcan]; rfl, by rw [hreq]; exact Bool.false_ne_true, hne⟩
  have hck := Moves.checks hs hg hm trivial (by rintro ⟨⟩)
  exact admitted_audit hs.ok fun _ => admitted_flush (Store.ok_putRun hs.ok hck) (admitted_ret _)

theorem reapRow_admitted (hs : Sane cfg s) (row : RunId × ℕ) (now : Time) :
    Admitted schema (reapRow cfg row now) s := by
  unfold reapRow lockRun Prog.forUpdate Admitted
  simp only [bind_eq, Prog.bind, exec_lock]
  split
  · rintro ⟨⟩
  next r hr =>
  have hid : r.id = row.1 := Table.key_of_get? hr
  rw [← hid] at hr
  split
  · rintro ⟨⟩
  next hx =>
  obtain ⟨hx, htok⟩ := not_not.mp hx
  have hmem : (r.id, r.leaseToken) ∈ [row] := by
    rw [hid, htok]
    exact List.mem_singleton_self row
  split
  · next hc =>
    have hck := Moves.checks hs hr (@Moves.reapCancelled cfg _ r _ now hmem hx hc) trivial (by rintro ⟨⟩)
    exact admitted_audit hs.ok fun _ => admitted_flush (Store.ok_putRun hs.ok hck) (admitted_ret _)
  next hc =>
  have hc : r.cancellationRequested = false := by simpa using hc
  split
  · next hall =>
    have hck := Moves.checks hs hr (@Moves.reapCompleted cfg _ r _ now hmem hx hc hall) trivial (by rintro ⟨⟩)
    exact admitted_audit hs.ok fun _ => admitted_flush (Store.ok_putRun hs.ok hck) (admitted_ret _)
  next hall =>
  split
  · next hmax =>
    have hck := Moves.checks hs hr (@Moves.reapDeadLettered cfg _ r _ now hmem hx hc hall hmax)
      trivial (by rintro ⟨⟩)
    exact admitted_audit hs.ok fun _ => admitted_audit hs.ok fun _ =>
      admitted_flush (Store.ok_putRun hs.ok hck) (admitted_ret _)
  · next hmax =>
    have hck := Moves.checks hs hr
      (@Moves.reapRetried cfg _ r _ now hmem hx hc hall (Nat.lt_of_not_le hmax)) trivial (by rintro ⟨⟩)
    have hok := Store.ok_newGeneration hs.ok r.id
    exact admitted_flush hok (admitted_audit hok fun _ =>
      admitted_flush (Store.ok_putRun hok hck) (admitted_ret _))

theorem reap_admitted (now : Time) (rows : List (RunId × ℕ)) :
    ∀ {s : Store}, Sane cfg s → Admitted schema (reap cfg now rows) s := by
  induction rows with
  | nil => intro s _; exact admitted_ret _
  | cons row rows ih =>
    intro s hs
    refine (reapRow_admitted hs row now).bind fun _ s₁ h₁ => ?_
    have hstep := reapRow_storeStep (List.mem_cons_self (l := rows)) h₁
    have hs₁ : Sane cfg s₁ := ⟨ok_of_exec (σ := schema) hs.ok h₁, hstep.runsInv hs.inv trivial⟩
    exact (ih hs₁).bind fun _ _ _ => admitted_ret _

theorem renewRunLease_admitted (hs : Sane cfg s) (runId : RunId) (owner : Owner) (token : ℕ)
    (now : Time) : Admitted schema (Governance.renewRunLease cfg runId owner token now) s := by
  unfold Governance.renewRunLease Prog.load Admitted
  simp only [bind_eq, Prog.bind, exec_peek, Governance.lockScopesById, Prog.forUpdate, lockRun,
    Governance.validateScopeMaterializationLocked, exec_lock, exec_query]
  refine Admitted.bind ?_ fun _ s₁ h₁ => ?_
  · unfold Prog.ensure
    split <;> rintro ⟨⟩
  obtain ⟨-, rfl⟩ := exec_ensure_ok h₁
  unfold Admitted
  rw [exec_lock, exec_lock]
  split
  · rintro ⟨⟩
  next r hr =>
  obtain ⟨hg, ho⟩ := Option.filter_eq_some_iff.mp hr
  obtain rfl : r.id = runId := Table.key_of_get? hg
  have hck := Moves.checks hs hg (@Moves.renew cfg _ r owner token now ho) trivial (by rintro ⟨⟩)
  refine admitted_flush ?_ (admitted_ret _)
  obtain ⟨h₁, h₂, h₃, h₄, h₅, h₆, h₇⟩ := Store.ok_iff.mp (Store.ok_putRun hs.ok hck)
  refine Store.ok_iff.mpr ⟨h₁, h₂, h₃, h₄, h₅, h₆, fun x hx => ?_⟩
  rcases Table.mem_putAll hx with hx | hx
  · -- a renewed row differs in its expiry only
    obtain ⟨y, hy, rfl⟩ := List.mem_map.mp hx
    exact h₇ y (Table.mem_lookup.mp (List.mem_of_mem_filter hy)).1
  · exact h₇ x hx

/-! ## The result -/

/-- The operations of `RunLeaseRepository`, and the Runner's `_finish`. -/
def Op.ofLease : Op → Bool
  | .claim .. | .failClosedTakeover .. | .persistResponse .. | .requestCancel ..
  | .finishCancelled .. | .recordNotificationResult .. | .failAttempt .. | .deferGovernance ..
  | .cooperativeYield .. | .exhaustGovernance .. | .finishRun .. | .reap .. | .renewRunLease .. =>
    true
  | _ => false

/-- In a sane store the database rejects no lease operation but a cancellation
of a delayed Run. -/
theorem Op.ofLease_admitted {o : Op} (hs : Sane cfg s) (ho : o.ofLease = true)
    (hiss : o.Issued cfg s) (hnot : ¬ o.CancelsDelayed s) : Admitted schema (o.tx cfg) s := by
  cases o with
  | claim runId owner now => exact admitted_unit (claim_admitted hs runId owner now)
  | failClosedTakeover lease now => exact failClosedTakeover_admitted hs lease now
  | persistResponse lease id q outcome now =>
    exact admitted_unit (persistResponse_admitted hs lease id q outcome now hiss)
  | requestCancel runId now => exact admitted_unit (requestCancel_admitted hs runId now hnot)
  | finishCancelled lease now => exact admitted_unit (finishCancelled_admitted hs lease now)
  | recordNotificationResult runId published now =>
    exact admitted_unit (recordNotificationResult_admitted hs runId published now)
  | failAttempt lease e now => exact admitted_unit (failAttempt_admitted hs lease e now)
  | deferGovernance lease e notBefore now =>
    exact admitted_unit (deferGovernance_admitted hs lease e notBefore now)
  | cooperativeYield lease n now => exact admitted_unit (cooperativeYield_admitted hs lease n now)
  | exhaustGovernance lease e integrityError now =>
    exact admitted_unit (exhaustGovernance_admitted hs lease e integrityError now)
  | finishRun lease cancelled now finishedAt =>
    exact admitted_unit (finishRun_admitted hs lease cancelled now finishedAt)
  | reap rows now => exact admitted_unit (reap_admitted now rows hs)
  | renewRunLease runId owner token now =>
    exact admitted_unit (renewRunLease_admitted hs runId owner token now)
  | _ => cases ho

/-! ## The cancellation of a delayed Run -/

/-- A flush that the constraints admit goes through. -/
theorem exec_flush_of_ok {α : Type} {w : Store → Store} {g : Unit → Tx α} (hw : (w s).ok = true) :
    exec schema ((flush w).bind g) s = exec schema (g ()) (w s) := by
  have hw' : schema.ok (w s) = true := hw
  show exec schema (write w (g ())) s = _
  rw [exec_write, if_pos hw']

/-- An event under a new key is appended. -/
theorem exec_audit_fresh {α : Type} {k : EventKey} {now : Time} {f : AuditFacts} {g : Unit → Tx α}
    (hs : s.ok = true) (hk : s.audit.get? k = none) :
    exec schema ((appendAuditEvent k now f).bind g) s =
      exec schema (g ()) { s with audit := s.audit.insert ⟨k, now, f⟩ } := by
  unfold appendAuditEvent
  simp only [Prog.bind, exec_query, hk]
  exact exec_flush_of_ok hs

/-- The database rejects the CANCELLED row of a delayed Run: it would keep its
delay. -/
theorem Op.CancelsDelayed.rejected {o : Op} (hs : s.ok = true) (hlog : Logged s)
    (h : o.CancelsDelayed s) : exec schema (o.tx cfg) s = .error .checkViolation := by
  cases o with
  | requestCancel runId now =>
    obtain ⟨r, hr, hst, hdelay⟩ := h
    obtain rfl : r.id = runId := Table.key_of_get? hr
    have hend : ¬ r.status.terminal = true := by
      rw [hst]
      exact Bool.false_ne_true
    have hck : r.Checks := Store.ok_runs hs (Table.mem_of_get? hr)
    have hflag : { s with runs := s.runs.put { r with cancellationRequested := true } }.ok = true :=
      Store.ok_putRun hs { hck with }
    have hreq := hlog.fresh (k := .runCancelRequested r.id) hr (fun _ h => h.1.symm) fun h => hend h.2
    have hterm := hlog.fresh (k := .runTerminal r.id .cancelled) hr (fun _ h => h.1.symm)
      fun h => hend h.2
    refine exec_bind_of_error ?_
    unfold RunLeases.requestCancel lockRun Prog.forUpdate
    simp only [bind_eq, Prog.bind, exec_lock, hr]
    split
    · refine (exec_flush_of_ok hflag).trans ((exec_audit_fresh hflag hreq).trans
        ((exec_audit_fresh ?_ ?_).trans ?_))
      · exact hflag
      · show (s.audit.insert _).get? _ = none
        rw [Table.get?_insert, if_neg (by rintro ⟨⟩)]
        exact hterm
      · -- the row to flush is CANCELLED with a delay
        refine exec_bind_of_error ?_
        rw [putRun, Prog.flush, exec_write, if_neg]
        · rfl
        · intro hok
          have hrow := Table.get?_put_self (r := { r with cancellationRequested := true }.cancelledPending
            (s.responsesOf r.id) now) (Table.get?_put_self (r := { r with cancellationRequested := true }) hr)
          have hck' := Store.ok_runs hok (Table.mem_of_get? hrow)
          rcases hck'.governanceDelayMatchesPending with hn | ⟨hn, -⟩
          · have hn : r.governanceNotBefore = none := hn
            rw [hn] at hdelay
            cases hdelay
          · cases hn
    · next hrun => rw [hst] at hrun; cases hrun
    · next hne _ => exact absurd hst hne
  | _ => exact h.elim

/-- **Lease operations and `CHECK` constraints.** In every reachable store an
operation of the lease repository is rolled back by a constraint exactly where
it cancels a PENDING Run under a governance delay. -/
theorem lease_operation_checked {o : Op} (h : Reachable cfg s) (ho : o.ofLease = true)
    (hiss : o.Issued cfg s) :
    exec schema (o.tx cfg) s ≠ .error .checkViolation ↔ ¬ o.CancelsDelayed s :=
  ⟨fun hadm hcan => hadm (hcan.rejected h.ok h.logged),
    fun hnot => Op.ofLease_admitted ⟨h.ok, h.runsInv⟩ ho hiss hnot⟩

/-- A Run that was claimed and then deferred by governance. -/
def Sample.deferredRun : List Op :=
  [.admitRun (Sample.newRun 1 Sample.unlimited) 10, .claim 1 100 20,
    .deferGovernance Sample.lease (.code 0) 5000000 30]

theorem lease_operation_checked_sample :
    Reachable Sample.config (Sample.after Sample.deferredRun) ∧
      exec schema ((Op.claim 1 100 5000000).tx Sample.config) (Sample.after Sample.deferredRun) ≠
        .error .checkViolation :=
  ⟨Sample.reachable_after rfl,
    (lease_operation_checked (o := .claim 1 100 5000000) (Sample.reachable_after rfl) rfl
      trivial).mpr id⟩

/-- The claimed guarantee fails: the API cancels a deferred Run, and the
database rejects the CANCELLED row. -/
theorem cancel_of_deferred_run_violates_check :
    Reachable Sample.config (Sample.after Sample.deferredRun) ∧
      exec schema ((Op.requestCancel 1 40).tx Sample.config) (Sample.after Sample.deferredRun) =
        .error .checkViolation :=
  ⟨Sample.reachable_after rfl, Sample.error_of_refused (by decide +kernel)⟩

end LLMBenchLab
