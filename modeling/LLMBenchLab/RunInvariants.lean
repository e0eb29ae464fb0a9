import Mathlib.Tactic.Linarith
import Mathlib.Tactic.Positivity
import Mathlib.Tactic.FieldSimp
import Mathlib.Algebra.Order.BigOperators.Group.List
import LLMBenchLab.Frames

/-!
# Invariants of Run rows

Two facts about the rows of a reachable store, on top of the constraints that
the database has checked at every flush: what a Run froze at admission stays
(`SameOrigin`), and a Run that can still be worked on has a failure left, is
managed, and counts no more answers than its benchmark has questions
(`RunInv`).

The last section is the arithmetic of `aggregate_run_evidence`: over sound
Responses its metrics stay within the ranges that the table checks.
-/

namespace LLMBenchLab

open Relational Relational.Prog RunLeases

variable {cfg : Config} {s s' : Store}

/-! ## What stays -/

/-- The columns that admission writes and no transition touches. -/
structure Run.SameOrigin (r r' : Run) : Prop where
  id : r'.id = r.id
  modelId : r'.modelId = r.modelId
  benchmarkId : r'.benchmarkId = r.benchmarkId
  retryMaxAttempts : r'.retryMaxAttempts = r.retryMaxAttempts
  governanceSnapshot : r'.governanceSnapshot = r.governanceSnapshot
  totalQuestions : r'.totalQuestions = r.totalQuestions
  maxAttempts : r'.maxAttempts = r.maxAttempts
  governancePolicyId : r'.governancePolicyId = r.governancePolicyId
  overrides : r'.overrideSnapshot = r.overrideSnapshot

theorem Run.SameOrigin.refl (r : Run) : r.SameOrigin r := ⟨rfl, rfl, rfl, rfl, rfl, rfl, rfl, rfl, rfl⟩

theorem Run.SameOrigin.trans {a b c : Run} (h : a.SameOrigin b) (h' : b.SameOrigin c) :
    a.SameOrigin c :=
  ⟨h'.id.trans h.id, h'.modelId.trans h.modelId, h'.benchmarkId.trans h.benchmarkId,
    h'.retryMaxAttempts.trans h.retryMaxAttempts, h'.governanceSnapshot.trans h.governanceSnapshot,
    h'.totalQuestions.trans h.totalQuestions, h'.maxAttempts.trans h.maxAttempts,
    h'.governancePolicyId.trans h.governancePolicyId, h'.overrides.trans h.overrides⟩

theorem Moves.sameOrigin {rs : List Response} {o : Op} {r r' : Run} (h : Moves cfg rs o r r') :
    r.SameOrigin r' := by
  cases h <;> exact ⟨rfl, rfl, rfl, rfl, rfl, rfl, rfl, rfl, rfl⟩

/-- Looking up a Run after a move of the row `r` to `r'`. -/
theorem get?_put_move {r r' : Run} (hr : s.runs.get? r.id = some r) (hid : r'.id = r.id)
    (id : RunId) :
    (s.runs.put r').get? id = if id = r.id then some r' else s.runs.get? id := by
  split
  · next h =>
    rw [← hid] at hr
    rw [h, ← hid]
    exact Table.get?_put_self hr
  · next h => exact Table.get?_put_ne (by show id ≠ r'.id; rw [hid]; exact h)

/-- Runs are never deleted, and keep what they froze at admission. -/
theorem StoreStep.sameOrigin {o : Op} (h : StoreStep cfg o s s') {id : RunId} {r : Run}
    (hr : s.runs.get? id = some r) : ∃ r', s'.runs.get? id = some r' ∧ r.SameOrigin r' := by
  cases h with
  | idle hruns _ => exact ⟨r, by rw [hruns]; exact hr, .refl r⟩
  | admitted _ hnew _ hruns _ =>
    refine ⟨r, ?_, .refl r⟩
    rw [hruns, Table.get?_insert, if_neg]
    · exact hr
    · rintro rfl
      exact absurd (hnew.symm.trans hr) nofun
  | move hm hmove hruns _ _ _ =>
    rw [hruns, get?_put_move hm hmove.sameOrigin.id]
    split
    · next h =>
      subst h
      obtain rfl := Option.some.inj (hm.symm.trans hr)
      exact ⟨_, rfl, hmove.sameOrigin⟩
    · exact ⟨r, hr, .refl r⟩

/-! ## Metrics -/

theorem pyRound_nonneg {x : ℚ} (h : 0 ≤ x) : 0 ≤ pyRound x := by
  have hf : 0 ≤ x.floor := Rat.le_floor_iff.mpr (by exact_mod_cast h)
  unfold pyRound
  dsimp only
  split
  · exact hf
  · split
    · omega
    · split <;> omega

theorem pyRound_le {x : ℚ} {n : ℤ} (h : x ≤ n) : pyRound x ≤ n := by
  have hf : x.floor ≤ n := by
    have := Rat.floor_le x
    exact_mod_cast this.trans h
  have hlt : x.floor = n → x - x.floor < 1 / 2 := by
    intro he
    rw [he]
    linarith
  unfold pyRound
  dsimp only
  by_cases hd : x - x.floor < 1 / 2
  · rw [if_pos hd]
    exact hf
  · -- a rounding up starts below `n`
    have hne : x.floor ≠ n := fun he => hd (hlt he)
    rw [if_neg hd]
    split
    · omega
    · split <;> omega

/-- A Response as the Runner builds it: right or not, and right only where there
is an answer to evaluate. -/
structure Response.Sound (x : Response) : Prop where
  score : x.score = 0 ∨ (x.score = 1 ∧ x.evaluable)
  latency : ∀ y ∈ x.latencyMs, 0 ≤ y
  cost : ∀ y ∈ x.estimatedCost, 0 ≤ y

theorem Response.Sound.checks {x : Response} (h : x.Sound) : x.Checks := by
  refine ⟨?_, h.latency, h.cost⟩
  rcases h.score with h | ⟨h, -⟩ <;> rw [h] <;> norm_num

theorem QuestionOutcome.response_sound (o : QuestionOutcome) (id : ResponseId) (runId : RunId)
    (q : QuestionId) : (o.response id runId q).Sound := by
  cases o with
  | adapterError e => exact ⟨Or.inl rfl, nofun, nofun⟩
  | internalError => exact ⟨Or.inl rfl, nofun, nofun⟩
  | evaluatorFailed text hne u =>
    refine ⟨Or.inl rfl, fun y hy => ?_, u.cost_nonneg⟩
    obtain rfl : u.latencyMs = y := Option.some.inj hy
    exact u.latency_nonneg
  | evaluated text hne u result truncated =>
    refine ⟨?_, fun y hy => ?_, u.cost_nonneg⟩
    · show result.score = 0 ∨ _
      unfold EvaluationResult.score
      rcases hc : result.correct with _ | _
      · exact Or.inl rfl
      · -- a correct result has no parse error, and its text is not empty
        refine Or.inr ⟨by simp [QuestionOutcome.response, EvaluationResult.score, hc], ?_⟩
        have hp : result.parseError = none := by
          rcases hp : result.parseError with _ | e
          · rfl
          · have := result.sound (by rw [hp]; rfl)
            rw [hc] at this
            cases this
        simp [QuestionOutcome.response, Response.evaluable, Response.hasOutput, parseErrorType, hp,
          hne]
    · obtain rfl : u.latencyMs = y := Option.some.inj hy
      exact u.latency_nonneg

section Evidence

variable {rs : List Response}

/-- Scores add up to at most the number of evaluable Responses. -/
theorem scoreSum_bounds (h : ∀ x ∈ rs, x.Sound) :
    0 ≤ (rs.map Response.score).sum ∧
      (rs.map Response.score).sum ≤ (rs.countP Response.evaluable : ℕ) := by
  induction rs with
  | nil => simp
  | cons x rs ih =>
    obtain ⟨h₀, h₁⟩ := ih fun y hy => h y (List.mem_cons_of_mem _ hy)
    rw [List.map_cons, List.sum_cons, List.countP_cons]
    rcases (h x List.mem_cons_self).score with hx | ⟨hx, he⟩
    · rw [hx]
      refine ⟨by linarith, ?_⟩
      push_cast
      split <;> simp <;> linarith
    · rw [hx, if_pos he]
      push_cast
      constructor <;> linarith

/-- The progress and rate constraints of a Run row. -/
structure Run.ProgressChecks (r : Run) : Prop where
  completedNotAboveTotal : r.completedQuestions ≤ r.totalQuestions
  correctNonnegative : 0 ≤ r.correctQuestions
  correctNotAboveCompleted : r.correctQuestions ≤ r.completedQuestions
  errorsNotAboveCompleted : r.errorQuestions ≤ r.completedQuestions
  scoreRange : ∀ x ∈ r.score, 0 ≤ x ∧ x ≤ 100
  completionRateRange : ∀ x ∈ r.completionRate, 0 ≤ x ∧ x ≤ 100
  answeredAccuracyRange : ∀ x ∈ r.answeredAccuracy, 0 ≤ x ∧ x ≤ 100
  estimatedCostNonnegative : ∀ x ∈ r.estimatedCost, 0 ≤ x

/-- A part of a whole, as a percentage. -/
theorem percentage_range {a n : ℚ} (h₀ : 0 ≤ a) (h₁ : a ≤ n) : 0 ≤ a / n * 100 ∧ a / n * 100 ≤ 100 := by
  have hn : 0 ≤ n := h₀.trans h₁
  have hq : a / n ≤ 1 := div_le_one_of_le₀ h₁ hn
  exact ⟨by positivity, by linarith⟩

/-- Metrics recomputed from sound Responses pass the checks. -/
theorem aggregateRunEvidence_progress {r : Run} (hs : ∀ x ∈ rs, x.Sound)
    (htotal : rs.length ≤ r.totalQuestions) : (aggregateRunEvidence rs r).ProgressChecks := by
  obtain ⟨h₀, h₁⟩ := scoreSum_bounds hs
  have hev : rs.countP Response.evaluable ≤ rs.length := List.countP_le_length
  have hle : (rs.map Response.score).sum ≤ (rs.length : ℕ) := h₁.trans (by exact_mod_cast hev)
  have htot : ((rs.length : ℕ) : ℚ) ≤ (r.totalQuestions : ℕ) := by exact_mod_cast htotal
  constructor
  · exact htotal
  · exact pyRound_nonneg h₀
  · exact pyRound_le (by exact_mod_cast hle)
  · exact List.countP_le_length
  · rintro x hx
    obtain rfl := Option.some.inj hx
    unfold canonicalRunEvidence
    dsimp only
    split
    · norm_num
    · exact percentage_range h₀ (hle.trans htot)
  · rintro x hx
    obtain rfl := Option.some.inj hx
    unfold canonicalRunEvidence
    dsimp only
    split
    · norm_num
    · refine percentage_range (by positivity) (le_trans ?_ htot)
      exact_mod_cast List.countP_le_length
  · intro x hx
    have hx : (if rs.countP Response.evaluable = 0 then none
        else some ((pyRound (rs.map Response.score).sum : ℚ) / rs.countP Response.evaluable * 100)) =
        some x := hx
    split at hx
    · cases hx
    · obtain rfl := Option.some.inj hx
      refine percentage_range (by exact_mod_cast pyRound_nonneg h₀) ?_
      have : pyRound (rs.map Response.score).sum ≤ ((rs.countP Response.evaluable : ℕ) : ℤ) :=
        pyRound_le (by exact_mod_cast h₁)
      exact_mod_cast this
  · intro x hx
    have hx : exactUsage rs.length (rs.filterMap Response.estimatedCost).length
        (rs.filterMap Response.estimatedCost).sum = some x := hx
    unfold exactUsage at hx
    split at hx
    · obtain rfl := Option.some.inj hx
      refine List.sum_nonneg fun c hc => ?_
      obtain ⟨y, hy, hyc⟩ := List.mem_filterMap.mp hc
      exact (hs y hy).cost c hyc
    · cases hx

end Evidence

/-! ## The invariant -/

/-- The lease, retry and governance constraints of a Run row. -/
structure Run.ControlChecks (r : Run) : Prop where
  maxAttemptsPositive : 1 ≤ r.maxAttempts
  failedAttemptCountWithinLimit : r.failedAttemptCount ≤ r.maxAttempts
  leaseMatchesRunningStatus :
    (r.status = .running ∧ r.leaseOwner.isSome ∧ r.leaseExpiresAt.isSome ∧ r.heartbeatAt.isSome) ∨
    (r.status ≠ .running ∧ r.leaseOwner = none ∧ r.leaseExpiresAt = none ∧ r.heartbeatAt = none)
  nextAttemptOnlyPending : r.nextAttemptAt = none ∨ r.status = .pending
  deadLetterOnlyFailed : r.deadLetteredAt = none ∨ r.status = .failed
  governancePolicyMatchesStatus :
    (r.governanceStatus = .legacyUnmanaged ∧ r.governancePolicyId = none) ∨
    (r.governanceStatus ≠ .legacyUnmanaged ∧ r.governancePolicyId.isSome)
  governanceDelayMatchesPending :
    r.governanceNotBefore = none ∨ (r.status = .pending ∧ r.governanceStatus = .delayed)
  governanceExhaustedIsFailed : r.governanceStatus ≠ .exhausted ∨ r.status = .failed

theorem Run.Checks.of {r : Run} (hp : r.ProgressChecks) (hc : r.ControlChecks) : r.Checks where
  __ := hp
  __ := hc

theorem Run.Checks.progress {r : Run} (h : r.Checks) : r.ProgressChecks where
  __ := h

theorem Run.Checks.control {r : Run} (h : r.Checks) : r.ControlChecks where
  __ := h

/-- What holds of a Run row with the Responses `rs` beyond the table's checks. -/
structure RunInv (cfg : Config) (rs : List Response) (r : Run) : Prop where
  /-- a Run that is not terminal has a failure left -/
  attempts : r.status.terminal = false → r.failedAttemptCount < r.maxAttempts
  managed : r.governanceStatus ≠ .legacyUnmanaged ∧ r.governancePolicyId.isSome
  total : r.totalQuestions = (cfg.questions r.benchmarkId).length
  completed : r.completedQuestions ≤ rs.length

/-- The invariant of Runs and Responses. -/
structure RunsInv (cfg : Config) (s : Store) : Prop where
  run : ∀ id r, s.runs.get? id = some r → RunInv cfg (s.responsesOf id) r
  sound : ∀ x ∈ s.responses.rows, x.Sound
  answers : ∀ x ∈ s.responses.rows,
    ∃ r, s.runs.get? x.runId = some r ∧ x.questionId ∈ cfg.questions r.benchmarkId
  distinct : ∀ x ∈ s.responses.rows, ∀ y ∈ s.responses.rows,
    x.runId = y.runId → x.questionId = y.questionId → x = y

theorem mem_responsesOf {x : Response} {id : RunId} :
    x ∈ s.responsesOf id ↔ x ∈ s.responses.rows ∧ x.runId = id := by
  unfold Store.responsesOf
  rw [List.mem_filter, beq_iff_eq]

theorem RunsInv.empty : RunsInv cfg Store.empty where
  run _ _ h := by cases h
  sound _ h := absurd h List.not_mem_nil
  answers _ h := absurd h List.not_mem_nil
  distinct _ h := absurd h List.not_mem_nil

/-- The answered questions of a Run are distinct questions of its benchmark. -/
theorem RunsInv.questions (h : RunsInv cfg s) {id : RunId} {r : Run}
    (hr : s.runs.get? id = some r) :
    ((s.responsesOf id).map Response.questionId).Nodup ∧
      (s.responsesOf id).map Response.questionId ⊆ cfg.questions r.benchmarkId := by
  constructor
  · have hnd : (s.responsesOf id).Nodup :=
      (List.Nodup.of_map _ s.responses.nodup).filter _
    refine List.Nodup.map_on (fun x hx y hy he => ?_) hnd
    obtain ⟨hx, hxid⟩ := mem_responsesOf.mp hx
    obtain ⟨hy, hyid⟩ := mem_responsesOf.mp hy
    exact h.distinct x hx y hy (hxid.trans hyid.symm) he
  · intro q hq
    obtain ⟨x, hx, rfl⟩ := List.mem_map.mp hq
    obtain ⟨hmem, rfl⟩ := mem_responsesOf.mp hx
    obtain ⟨r', hr', hq⟩ := h.answers x hmem
    obtain rfl := Option.some.inj (hr'.symm.trans hr)
    exact hq

/-- A Run has no more Responses than questions. -/
theorem RunsInv.length_le (h : RunsInv cfg s) {id : RunId} {r : Run}
    (hr : s.runs.get? id = some r) : (s.responsesOf id).length ≤ r.totalQuestions := by
  obtain ⟨hnd, hsub⟩ := h.questions hr
  have := (List.subperm_of_subset hnd hsub).length_le
  rw [List.length_map] at this
  rw [(h.run id r hr).total]
  exact this

/-- A Run with an open question has fewer. -/
theorem RunsInv.length_lt (h : RunsInv cfg s) {id : RunId} {r : Run} {q : QuestionId}
    (hr : s.runs.get? id = some r) (hq : q ∈ cfg.questions r.benchmarkId)
    (hnew : ∀ x ∈ s.responsesOf id, x.questionId ≠ q) :
    (s.responsesOf id).length < r.totalQuestions := by
  obtain ⟨hnd, hsub⟩ := h.questions hr
  have hnd' : (q :: (s.responsesOf id).map Response.questionId).Nodup := by
    refine List.nodup_cons.mpr ⟨fun hmem => ?_, hnd⟩
    obtain ⟨x, hx, he⟩ := List.mem_map.mp hmem
    exact hnew x hx he
  have hsub' : q :: (s.responsesOf id).map Response.questionId ⊆ cfg.questions r.benchmarkId := by
    intro y hy
    rcases List.mem_cons.mp hy with rfl | hy
    · exact hq
    · exact hsub hy
  have := (List.subperm_of_subset hnd' hsub').length_le
  rw [List.length_cons, List.length_map] at this
  rw [(h.run id r hr).total]
  exact this

/-- The counters after a move. -/
theorem Moves.runInv {o : Op} {rs rs' : List Response} {r r' : Run} (h : Moves cfg rs o r r')
    (hi : RunInv cfg rs r) (hlen : rs.length ≤ rs'.length)
    (hans : ∀ x ∈ o.answer, rs'.length = rs.length + 1) : RunInv cfg rs' r' := by
  have hm : ∀ {st : GovernanceRunStatus}, st ≠ .legacyUnmanaged →
      st ≠ .legacyUnmanaged ∧ r.governancePolicyId.isSome := fun h => ⟨h, hi.managed.2⟩
  have hrun : r.status = .running → r.failedAttemptCount < r.maxAttempts :=
    fun hst => hi.attempts (by rw [hst]; rfl)
  have hown : ∀ {lease : RunLease} {now : Time}, owns lease now r → r.status = .running := by
    intro lease now ho
    unfold owns at ho
    simp only [Bool.and_eq_true, decide_eq_true_eq] at ho
    exact ho.1.1.1
  cases h with
  | claim he =>
    rename_i owner now
    refine ⟨fun _ => ?_, ?_, hi.total, hi.completed.trans hlen⟩
    · show r.failedAttemptCount + (if r.leaseExpired now then 1 else 0) < r.maxAttempts
      unfold Run.eligible at he
      simp only [Bool.and_eq_true, Bool.or_eq_true, decide_eq_true_eq] at he
      split
      · next hx =>
        rcases he.2 with ⟨⟨hst, -⟩, -⟩ | ⟨-, hlt⟩
        · have := running_of_leaseExpired hx
          rw [hst] at this
          cases this
        · exact hlt
      · exact he.1.1.1.2
    · show (if r.governanceStatus = .delayed then GovernanceRunStatus.managed
          else r.governanceStatus) ≠ .legacyUnmanaged ∧ _
      split
      · exact hm nofun
      · exact hi.managed
  | failClosed _ hst _ _ =>
    refine ⟨?_, ?_, hi.total, hlen⟩
    · rcases hcan : r.cancellationRequested with _ | _ <;>
        simp [Run.failedClosed, Run.clearLease, RunStatus.terminal, hcan]
    · rcases hcan : r.cancellationRequested with _ | _
      · simp [Run.failedClosed, Run.clearLease, aggregateRunEvidence, hcan, hi.managed.2]
      · simpa [Run.failedClosed, Run.clearLease, aggregateRunEvidence, hcan] using hi.managed
  | persist _ ho hcan hnew =>
    refine ⟨hi.attempts, hi.managed, hi.total, ?_⟩
    show rs.length + 1 ≤ rs'.length
    rw [hans _ rfl]
  | cancelPending hst => exact ⟨nofun, hi.managed, hi.total, hlen⟩
  | cancelRunning hst => exact ⟨hi.attempts, hi.managed, hi.total, hi.completed.trans hlen⟩
  | finishCancelled _ ho hcan => exact ⟨nofun, hi.managed, hi.total, hlen⟩
  | notify hst h0 => exact ⟨hi.attempts, hi.managed, hi.total, hi.completed.trans hlen⟩
  | failCancelled _ ho hcan => exact ⟨nofun, hi.managed, hi.total, hlen⟩
  | failRecovered _ ho hcan hall => exact ⟨nofun, hi.managed, hi.total, hlen⟩
  | failDeadLettered _ ho hcan hall hmax => exact ⟨nofun, hi.managed, hi.total, hlen⟩
  | failRetried _ ho hcan hall hmax => exact ⟨fun _ => hmax, hi.managed, hi.total, hlen⟩
  | defer _ ho =>
    exact ⟨fun _ => hrun (hown ho), hm nofun, hi.total, hi.completed.trans hlen⟩
  | yield _ ho =>
    exact ⟨fun _ => hrun (hown ho), hm nofun, hi.total, hi.completed.trans hlen⟩
  | exhaust _ ho => exact ⟨nofun, hm nofun, hi.total, hlen⟩
  | finish hid ho hall =>
    rename_i lease cancelled now finishedAt
    refine ⟨?_, hi.managed, hi.total, hlen⟩
    show RunStatus.terminal (if r.cancellationRequested then .cancelled
      else if cancelled then .cancelled else .completed) = false → _
    split
    · nofun
    · split <;> nofun
  | reapCancelled _ hx hcan => exact ⟨nofun, hi.managed, hi.total, hlen⟩
  | reapCompleted _ hx hcan hall => exact ⟨nofun, hi.managed, hi.total, hlen⟩
  | reapDeadLettered _ hx hcan hall hmax => exact ⟨nofun, hi.managed, hi.total, hlen⟩
  | reapRetried _ hx hcan hall hmax => exact ⟨fun _ => hmax, hi.managed, hi.total, hlen⟩
  | renew ho => exact ⟨hi.attempts, hi.managed, hi.total, hi.completed.trans hlen⟩

/-- The Responses after an operation. -/
theorem rows_evidence {o : Op} (hfresh : ∀ x ∈ o.answer, s.responses.get? x.id = none)
    (hresp : s'.responses = o.evidence s.responses) :
    s'.responses.rows = s.responses.rows ++ o.answer.toList := by
  rw [hresp]
  unfold Op.evidence
  rcases ha : o.answer with _ | x
  · simp
  · rw [Table.insert_of_none (hfresh x ha)]
    rfl

/-- The Responses of one Run after an operation. -/
theorem responsesOf_evidence {o : Op} (hfresh : ∀ x ∈ o.answer, s.responses.get? x.id = none)
    (hresp : s'.responses = o.evidence s.responses) (id : RunId) :
    s'.responsesOf id = s.responsesOf id ++ o.answer.toList.filter fun x => x.runId == id := by
  unfold Store.responsesOf
  rw [rows_evidence hfresh hresp, List.filter_append]

theorem responsesOf_congr (h : s'.responses = s.responses) (id : RunId) :
    s'.responsesOf id = s.responsesOf id := by
  unfold Store.responsesOf
  rw [h]

/-- The invariant looks at the Runs through the origin of each row. -/
theorem RunsInv.of_origin (hi : RunsInv cfg s) (hresp : s'.responses = s.responses)
    (hrun : ∀ id r, s'.runs.get? id = some r → RunInv cfg (s'.responsesOf id) r)
    (hold : ∀ id r, s.runs.get? id = some r → ∃ r', s'.runs.get? id = some r' ∧ r.SameOrigin r') :
    RunsInv cfg s' := by
  refine ⟨hrun, ?_, ?_, ?_⟩
  · rw [hresp]
    exact hi.sound
  · rw [hresp]
    intro x hx
    obtain ⟨r, hr, hq⟩ := hi.answers x hx
    obtain ⟨r', hr', ho⟩ := hold _ r hr
    exact ⟨r', hr', by rw [ho.benchmarkId]; exact hq⟩
  · rw [hresp]
    exact hi.distinct

/-- A new answer to an open question of the benchmark keeps the invariant of the
Responses. -/
theorem RunsInv.of_answer (hi : RunsInv cfg s) {x : Response} {r : Run}
    (hrows : s'.responses.rows = s.responses.rows ++ [x]) (hx : x.Sound)
    (hr : s.runs.get? x.runId = some r) (hq : x.questionId ∈ cfg.questions r.benchmarkId)
    (hnew : ∀ y ∈ s.responsesOf x.runId, y.questionId ≠ x.questionId)
    (hrun : ∀ id r, s'.runs.get? id = some r → RunInv cfg (s'.responsesOf id) r)
    (hold : ∀ id r, s.runs.get? id = some r → ∃ r', s'.runs.get? id = some r' ∧ r.SameOrigin r') :
    RunsInv cfg s' := by
  have hmem : ∀ {y : Response}, y ∈ s'.responses.rows → y ∈ s.responses.rows ∨ y = x := by
    intro y hy
    rw [hrows, List.mem_append, List.mem_singleton] at hy
    exact hy
  refine ⟨hrun, ?_, ?_, ?_⟩
  · intro y hy
    rcases hmem hy with hy | rfl
    · exact hi.sound y hy
    · exact hx
  · intro y hy
    have hans : ∃ r, s.runs.get? y.runId = some r ∧ y.questionId ∈ cfg.questions r.benchmarkId := by
      rcases hmem hy with hy | rfl
      · exact hi.answers y hy
      · exact ⟨r, hr, hq⟩
    obtain ⟨r₁, hr₁, hq₁⟩ := hans
    obtain ⟨r', hr', ho⟩ := hold _ r₁ hr₁
    exact ⟨r', hr', by rw [ho.benchmarkId]; exact hq₁⟩
  · intro y hy z hz hid hqe
    rcases hmem hy with hy | rfl <;> rcases hmem hz with hz | rfl
    · exact hi.distinct y hy z hz hid hqe
    · exact absurd hqe (hnew y (mem_responsesOf.mpr ⟨hy, hid⟩))
    · exact absurd hqe.symm (hnew z (mem_responsesOf.mpr ⟨hz, hid.symm⟩))
    · rfl

/-- The Response that an operation brings is of the Run it moves. -/
theorem Moves.answer_run {rs : List Response} {o : Op} {r r' : Run} (h : Moves cfg rs o r r')
    {x : Response} (hx : o.answer = some x) : x.runId = r.id := by
  cases o with
  | persistResponse lease id q outcome now =>
    obtain rfl := Option.some.inj hx
    cases h with
    | persist hid =>
      rw [hid]
      cases outcome <;> rfl
  | _ => cases hx

/-- The Response that an operation brings answers an open question of the Run it
moves. -/
theorem Moves.answer {rs : List Response} {o : Op} {r r' : Run} (h : Moves cfg rs o r r')
    {x : Response} (hx : o.answer = some x) (hr : s.runs.get? r.id = some r)
    (hiss : o.Issued cfg s) :
    x.Sound ∧ x.runId = r.id ∧ x.questionId ∈ cfg.questions r.benchmarkId ∧
      ∀ y ∈ rs, y.questionId ≠ x.questionId := by
  cases o with
  | persistResponse lease id q outcome now =>
    obtain rfl := Option.some.inj hx
    cases h with
    | persist hid ho hcan hnew =>
      rw [hid] at hr
      have hfields : (outcome.response id lease.runId q).questionId = q ∧
          (outcome.response id lease.runId q).runId = lease.runId := by
        cases outcome <;> exact ⟨rfl, rfl⟩
      rw [hfields.1, hfields.2]
      exact ⟨outcome.response_sound id lease.runId q, hid.symm, hiss r hr, hnew⟩
  | _ => cases hx

/-- One step keeps the invariant, when the Runner answers a question of the
Run's benchmark. -/
theorem StoreStep.runsInv {o : Op} (h : StoreStep cfg o s s') (hi : RunsInv cfg s)
    (hiss : o.Issued cfg s) : RunsInv cfg s' := by
  have hold := fun id r (hr : s.runs.get? id = some r) => h.sameOrigin hr
  cases h with
  | idle hruns hresp =>
    refine hi.of_origin hresp (fun id r hr => ?_) hold
    rw [hruns] at hr
    rw [responsesOf_congr hresp]
    exact hi.run id r hr
  | @admitted n policy provider now ho hnew hpol hruns hresp =>
    refine hi.of_origin hresp (fun id r hr => ?_) hold
    rw [hruns, Table.get?_insert] at hr
    rw [responsesOf_congr hresp]
    split at hr
    · have hnew' : s.runs.get? (key (n.admitted cfg policy provider now)) = none := hnew
      rw [hnew'] at hr
      obtain rfl := Option.some.inj hr
      exact ⟨fun _ => n.maxAttempts_pos, ⟨(by rintro ⟨⟩), rfl⟩, rfl, Nat.zero_le _⟩
    · exact hi.run id r hr
  | @move r r' hr hm hruns hresp hfresh _ =>
    have hof := responsesOf_evidence hfresh hresp
    have hlen : ∀ id, (s.responsesOf id).length ≤ (s'.responsesOf id).length := by
      intro id
      rw [hof, List.length_append]
      exact Nat.le_add_right _ _
    have hrun : ∀ id x, s'.runs.get? id = some x → RunInv cfg (s'.responsesOf id) x := by
      intro id x hx
      rw [hruns, get?_put_move hr hm.sameOrigin.id] at hx
      split at hx
      · next hid =>
        subst hid
        obtain rfl := Option.some.inj hx
        refine hm.runInv (hi.run _ r hr) (hlen _) fun y hy => ?_
        obtain ⟨-, hyid, -⟩ := hm.answer hy hr hiss
        rw [hof, hy]
        simp [hyid]
      · have hinv := hi.run id x hx
        exact ⟨hinv.attempts, hinv.managed, hinv.total, hinv.completed.trans (hlen id)⟩
    rcases ha : o.answer with _ | x
    · refine hi.of_origin ?_ hrun hold
      rw [hresp, Op.evidence, ha]
    · obtain ⟨hsound, hid, hq, hnew⟩ := hm.answer ha hr hiss
      refine hi.of_answer ?_ hsound (by rw [hid]; exact hr) hq (by rw [hid]; exact hnew) hrun hold
      rw [rows_evidence hfresh hresp, ha]
      rfl

/-- The Runner's guarantee is about frozen columns. -/
theorem Op.Issued.step {o : Op} (h : o.Issued cfg s) (hs : StoreStep cfg o s s') :
    o.Issued cfg s' := by
  cases o with
  | persistResponse lease id q outcome now =>
    intro run hrun
    cases hs with
    | idle hruns _ =>
      rw [hruns] at hrun
      exact h run hrun
    | admitted ho _ _ _ _ => cases ho
    | @move r r' hr hm hruns _ _ _ =>
      rw [hruns, get?_put_move hr hm.sameOrigin.id] at hrun
      split at hrun
      · next hid =>
        obtain rfl := Option.some.inj hrun
        rw [hm.sameOrigin.benchmarkId]
        exact h r (by rw [hid]; exact hr)
      · exact h run hrun
  | _ => exact trivial

/-! ## The history of a Run in the log -/

/-- No operation moves a Run that has ended. -/
theorem Moves.active {rs : List Response} {o : Op} {r r' : Run} (h : Moves cfg rs o r r') :
    r.status = .pending ∨ r.status = .running := by
  have howns {lease : RunLease} {now : Time} (ho : owns lease now r) : r.status = .running := by
    unfold owns at ho
    simp only [Bool.and_eq_true, decide_eq_true_eq] at ho
    exact ho.1.1.1
  cases h with
  | claim he =>
    unfold Run.eligible at he
    simp only [Bool.and_eq_true, Bool.or_eq_true, decide_eq_true_eq] at he
    rcases he.2 with hp | hx
    · exact Or.inl hp.1.1
    · exact Or.inr (running_of_leaseExpired hx.1)
  | failClosed _ hst => exact Or.inr hst
  | cancelPending hst => exact Or.inl hst
  | cancelRunning hst => exact Or.inr hst
  | notify hst => exact Or.inl hst
  | persist _ ho => exact Or.inr (howns ho)
  | finishCancelled _ ho => exact Or.inr (howns ho)
  | failCancelled _ ho => exact Or.inr (howns ho)
  | failRecovered _ ho => exact Or.inr (howns ho)
  | failDeadLettered _ ho => exact Or.inr (howns ho)
  | failRetried _ ho => exact Or.inr (howns ho)
  | defer _ ho => exact Or.inr (howns ho)
  | yield _ ho => exact Or.inr (howns ho)
  | exhaust _ ho => exact Or.inr (howns ho)
  | finish _ ho => exact Or.inr (howns ho)
  | reapCancelled _ hx => exact Or.inr (running_of_leaseExpired hx)
  | reapCompleted _ hx => exact Or.inr (running_of_leaseExpired hx)
  | reapDeadLettered _ hx => exact Or.inr (running_of_leaseExpired hx)
  | reapRetried _ hx => exact Or.inr (running_of_leaseExpired hx)
  | renew ho =>
    unfold Governance.fenced at ho
    simp only [Bool.and_eq_true, decide_eq_true_eq] at ho
    exact Or.inr ho.1.1.1.1

theorem Moves.not_terminal {rs : List Response} {o : Op} {r r' : Run} (h : Moves cfg rs o r r') :
    r.status.terminal = false := by
  rcases h.active with hst | hst <;> rw [hst] <;> rfl

/-- Failures are counted and never forgotten. -/
theorem Moves.failures_le {rs : List Response} {o : Op} {r r' : Run} (h : Moves cfg rs o r r') :
    r.failedAttemptCount ≤ r'.failedAttemptCount := by
  cases h with
  | claim => exact Nat.le_add_right _ _
  | failDeadLettered => exact Nat.le_succ _
  | failRetried => exact Nat.le_succ _
  | reapDeadLettered => exact Nat.le_succ _
  | reapRetried => exact Nat.le_succ _
  | _ => exact Nat.le_refl _

/-- What an event says of a Run stays true of it. -/
theorem Moves.records {rs : List Response} {o : Op} {r r' : Run} (h : Moves cfg rs o r r')
    {k : EventKey} (hk : k.Records r) : k.Records r' := by
  have hend {id : RunId} (hid : id = r.id ∧ r.status.terminal) :
      id = r'.id ∧ r'.status.terminal := by
    rw [h.not_terminal] at hid
    exact absurd hid.2 Bool.false_ne_true
  cases k with
  | runCancelRequested id => exact hend hk
  | runTerminal id st => exact hend hk
  | runDeadLettered id => exact hend hk
  | runRetryScheduled id n =>
    exact ⟨hk.1.trans h.sameOrigin.id.symm, hk.2.trans h.failures_le⟩
  | _ => trivial

/-- Every event about the end or the failures of a Run is true of the Run. -/
def Logged (s : Store) : Prop :=
  ∀ k, (s.audit.get? k).isSome →
    k.Passing ∨ ∃ r, s.runs.get? r.id = some r ∧ k.Records r

theorem Logged.empty : Logged Store.empty := nofun

/-- An event that is not true of its Run is not in the log. -/
theorem Logged.fresh (hi : Logged s) {k : EventKey} {r : Run} (hr : s.runs.get? r.id = some r)
    (hk : ∀ q, k.Records q → q.id = r.id) (hno : ¬ k.Records r) : s.audit.get? k = none := by
  rcases hg : s.audit.get? k with _ | e
  · rfl
  · rcases hi k (by rw [hg]; rfl) with hp | ⟨q, hq, hrec⟩
    · exact absurd (hp r) hno
    · rw [hk q hrec] at hq
      obtain rfl := Option.some.inj (hr.symm.trans hq)
      exact absurd hrec hno

theorem StoreStep.logged {o : Op} (h : StoreStep cfg o s s') (hi : Logged s) : Logged s' := by
  intro k hk
  cases h with
  | idle hruns _ hlog =>
    rcases hlog k hk with hk | hk
    · rw [hruns]
      exact hi k hk
    · exact Or.inl hk
  | admitted _ hnew _ hruns _ hlog =>
    rcases hlog k hk with hk | hk
    · refine (hi k hk).imp_right fun ⟨r, hr, hrec⟩ => ⟨r, ?_, hrec⟩
      rw [hruns, Table.get?_insert, if_neg]
      · exact hr
      · intro hid
        rw [hid] at hr
        exact absurd (hnew.symm.trans hr) nofun
    · exact Or.inl hk
  | @move r r' hr hm hruns _ _ _ hlog =>
    have hput := get?_put_move hr hm.sameOrigin.id
    have hr' : s'.runs.get? r'.id = some r' := by
      rw [hruns, hput, if_pos hm.sameOrigin.id]
    rcases hlog k hk with hk | hk
    · refine (hi k hk).imp_right fun ⟨q, hq, hrec⟩ => ?_
      by_cases hid : q.id = r.id
      · rw [hid] at hq
        obtain rfl := Option.some.inj (hr.symm.trans hq)
        exact ⟨r', hr', hm.records hrec⟩
      · exact ⟨q, by rw [hruns, hput, if_neg hid]; exact hq, hrec⟩
    · exact Or.inr ⟨r', hr', hk⟩

/-! ## Reachable stores -/

theorem RunsInv.next {o : Op} (hi : RunsInv cfg s) (hiss : o.Issued cfg s) :
    RunsInv cfg (next cfg s o) := by
  have hboth : RunsInv cfg (LLMBenchLab.next cfg s o) ∧ o.Issued cfg (LLMBenchLab.next cfg s o) :=
    next_invariant (I := fun s => RunsInv cfg s ∧ o.Issued cfg s) ⟨hi, hiss⟩
      fun _ _ h hs => ⟨hs.runsInv h.1 h.2, h.2.step hs⟩
  exact hboth.1

theorem Reachable.runsInv (h : Reachable cfg s) : RunsInv cfg s :=
  h.invariant RunsInv.empty fun _ _ hi hiss => hi.next hiss

theorem Reachable.logged (h : Reachable cfg s) : Logged s :=
  h.invariant Logged.empty fun _ _ hi _ => next_invariant hi fun _ _ hi hs => hs.logged hi

theorem Reachable.ok (h : Reachable cfg s) : s.ok = true :=
  h.invariant (I := fun s => schema.ok s = true) rfl fun _ _ hi _ => ok_after hi

theorem Store.ok_runs (h : s.ok = true) {r : Run} (hr : r ∈ s.runs.rows) : r.Checks := by
  unfold Store.ok at h
  simp only [Bool.and_eq_true, List.all_eq_true, decide_eq_true_eq] at h
  exact h.1.1.1.1.1.2 r hr

end LLMBenchLab
