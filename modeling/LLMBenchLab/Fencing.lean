import LLMBenchLab.RunInvariants

/-!
# Fencing

The lease token of a Run grows with every claim and never shrinks, so a token
below the one that a claim installed stays below it for good. Every operation
that carries a token (`Op.ticket`) compares it with the row it has locked, and
one that carries a stale token changes nothing at all: the lease transitions and
the heartbeat return without a write, `question_context`, `reserve` and
`mark_send_started` raise and are rolled back whole. Nothing here compares two
clock readings, so the clocks of the transactions may run in any order.
-/

namespace LLMBenchLab

open Relational Relational.Prog RunLeases Governance

variable {cfg : Config} {s s' : Store} {α : Type}

/-! ## Tokens -/

theorem Moves.token_le {rs : List Response} {o : Op} {r r' : Run} (h : Moves cfg rs o r r') :
    r.leaseToken ≤ r'.leaseToken := by
  cases h with
  | claim => exact Nat.le_succ _
  | _ => exact Nat.le_refl _

/-- The token of a Run has come at least this far. -/
def TokenFrom (runId : RunId) (t : ℕ) (s : Store) : Prop :=
  ∃ r, s.runs.get? runId = some r ∧ t ≤ r.leaseToken

theorem StoreStep.tokenFrom {o : Op} {runId : RunId} {t : ℕ} (h : StoreStep cfg o s s')
    (ht : TokenFrom runId t s) : TokenFrom runId t s' := by
  obtain ⟨q, hq, hle⟩ := ht
  cases h with
  | idle hruns => exact ⟨q, by rw [hruns]; exact hq, hle⟩
  | admitted _ hnew _ hruns =>
    refine ⟨q, ?_, hle⟩
    rw [hruns, Table.get?_insert, if_neg]
    · exact hq
    · rintro rfl
      exact absurd (hnew.symm.trans hq) nofun
  | @move r r' hr hm hruns =>
    have hput := get?_put_move hr hm.sameOrigin.id runId
    by_cases hid : runId = r.id
    · subst hid
      obtain rfl := Option.some.inj (hr.symm.trans hq)
      exact ⟨r', by rw [hruns, hput, if_pos rfl], hle.trans hm.token_le⟩
    · exact ⟨q, by rw [hruns, hput, if_neg hid]; exact hq, hle⟩

theorem TokenFrom.next {o : Op} {runId : RunId} {t : ℕ} (h : TokenFrom runId t s) :
    TokenFrom runId t (next cfg s o) :=
  next_invariant h fun _ _ h hs => hs.tokenFrom h

/-! ## Operations with a stale token -/

/-- The Run and the token that an operation carries. The token of
`mark_send_started` is that of the ledger row its permit names. -/
def Op.ticket (s : Store) : Op → Option (RunId × ℕ)
  | failClosedTakeover lease _ => some (lease.runId, lease.token)
  | persistResponse lease _ _ _ _ => some (lease.runId, lease.token)
  | finishCancelled lease _ => some (lease.runId, lease.token)
  | failAttempt lease _ _ => some (lease.runId, lease.token)
  | deferGovernance lease _ _ _ => some (lease.runId, lease.token)
  | cooperativeYield lease _ _ => some (lease.runId, lease.token)
  | exhaustGovernance lease _ _ _ => some (lease.runId, lease.token)
  | finishRun lease _ _ _ => some (lease.runId, lease.token)
  | questionContext runId _ _ _ _ token _ _ _ => some (runId, token)
  | reserve _ c _ _ _ => some (c.runId, c.leaseToken)
  | markSendStarted permit _ _ =>
    (s.ledger.reservations.get? permit.reservationId).bind fun r =>
      r.runId.bind fun id => r.leaseToken.map fun t => (id, t)
  | renewRunLease runId _ token _ => some (runId, token)
  | _ => none

/-- The store after a transaction that commits, its result dropped. -/
theorem after_of_exec {p : Tx α} {a : α} (h : exec schema p s = .ok (a, s')) :
    after schema (p.bind fun _ => (.ret () : Tx Unit)) s = s' := by
  refine after_of_ok (a := ()) ?_
  rw [exec_bind_of_ok h]
  rfl

/-- A transaction that cannot commit. -/
theorem after_of_not_ok {p : Tx α} (h : ∀ a s', exec schema p s ≠ .ok (a, s')) :
    after schema p s = s := by
  rcases hx : exec schema p s with e | ⟨a, s'⟩
  · exact after_of_error hx
  · exact absurd hx (h a s')

theorem not_ok_bind {β : Type} {p : Tx α} {g : α → Tx β}
    (h : ∀ a s', exec schema p s ≠ .ok (a, s')) (b : β) (s' : Store) :
    exec schema (p.bind g) s ≠ .ok (b, s') := by
  intro hx
  obtain ⟨a, s₁, h₁, -⟩ := exec_bind_eq_ok hx
  exact h a s₁ h₁

section Stale

variable {lease : RunLease} {now : Time}

/-- `_locked_run` finds nothing for a stale lease. -/
theorem lockedRun_stale (h : TokenFrom lease.runId (lease.token + 1) s) :
    (s.runs.get? lease.runId).filter (owns lease now) = none := by
  obtain ⟨r, hr, hlt⟩ := h
  have hno : ¬ owns lease now r = true := by
    simp only [owns, Bool.and_eq_true, decide_eq_true_eq]
    omega
  rw [hr, Option.filter_some, if_neg hno]

/-- A stale lease makes a lease transition return at once. -/
theorem exec_lockedRun_stale {g : Store × Option Run → Tx α}
    (h : TokenFrom lease.runId (lease.token + 1) s) :
    exec schema ((lockedRun lease now).bind g) s = exec schema (g (s, none)) s := by
  simp only [lockedRun, lockRun, Prog.forUpdate, Prog.bind, exec_lock, lockedRun_stale h]

/-- The attempt fence is down for a stale token. -/
theorem fenced_stale {runId : RunId} {token : ℕ} {owner : Option Owner}
    (h : TokenFrom runId (token + 1) s) :
    (s.runs.get? runId).filter (fenced owner (some token) now) = none := by
  obtain ⟨r, hr, hlt⟩ := h
  have hno : ¬ fenced owner (some token) now r = true := by
    simp only [fenced, Bool.and_eq_true, decide_eq_true_eq, Option.some.injEq]
    omega
  rw [hr, Option.filter_some, if_neg hno]

end Stale

theorem TokenFrom.of_runs {runId : RunId} {t : ℕ} (h : TokenFrom runId t s)
    (hruns : s'.runs = s.runs) : TokenFrom runId t s' := by
  obtain ⟨r, hr, hle⟩ := h
  exact ⟨r, by rw [hruns]; exact hr, hle⟩

theorem questionContext_stale {runId : RunId} {questionId : QuestionId} {modelId : ModelId}
    {providerScope : ScopeKey} {owner : Owner} {token : ℕ} {output : Option ℤ} {cost : Option ℚ}
    {now : Time} (h : TokenFrom runId (token + 1) s) (a : Governance.AttemptContext) (s' : Store) :
    exec schema (questionContext runId questionId modelId providerScope owner token output cost now)
      s ≠ .ok (a, s') := by
  intro hx
  simp only [questionContext, Prog.forUpdate, lockRun, bind_eq, Prog.bind, exec_lock] at hx
  split at hx
  · have hx := exec_flush_bind hx
    have h' : TokenFrom runId (token + 1)
        { s with executions := s.executions.insert (newExecution ⟨runId, questionId⟩) } :=
      h.of_runs rfl
    rw [exec_lock, fenced_stale h'] at hx
    cases hx
  · rw [exec_lock, fenced_stale h] at hx
    cases hx

theorem reserveLocked_stale {id : ReservationId} {c : Governance.AttemptContext} {providerAttempt : ℕ}
    {owner : Owner} {now : Time} {a : AttemptAmounts} {policy : Policy} {scopes : List Scope}
    (h : TokenFrom c.runId (c.leaseToken + 1) s) (p : Permit) (s' : Store) :
    exec schema (reserveLocked id c providerAttempt owner now a policy scopes) s ≠ .ok (p, s') := by
  intro hx
  obtain ⟨buckets, s₁, h₁, hx⟩ := exec_bind_eq_ok hx
  have k₁ := (SameControl.lockBuckets _).exec SameControl.refl SameControl.trans h₁
  obtain ⟨_, s₂, h₂, hx⟩ := exec_bind_eq_ok hx
  obtain rfl := (readOnly_validateBuckets _).exec h₂
  simp only [Prog.forUpdate, lockRun, bind_eq, Prog.bind, exec_lock] at hx
  rw [fenced_stale (h.of_runs k₁.runs)] at hx
  cases hx

theorem reserve_stale {id : ReservationId} {c : Governance.AttemptContext} {providerAttempt : ℕ}
    {owner : Owner} {now : Time} (h : TokenFrom c.runId (c.leaseToken + 1) s) (p : Permit)
    (s' : Store) : exec schema (reserve cfg id c providerAttempt owner now) s ≠ .ok (p, s') := by
  intro hx
  obtain ⟨-, hx⟩ := exec_ensure_bind hx
  obtain ⟨a, -, hx⟩ := exec_ofExcept_bind hx
  simp only [Prog.read, bind_eq, Prog.bind, exec_query] at hx
  obtain ⟨policy, s₁, h₁, hx⟩ := exec_bind_eq_ok hx
  obtain rfl := (readOnly_runPolicy _).exec h₁
  obtain ⟨_, s₂, h₂, hx⟩ := exec_bind_eq_ok hx
  have k₂ := (SameControl.lockScopes _).exec SameControl.refl SameControl.trans h₂
  obtain ⟨x, s₃, h₃, hx⟩ := exec_bind_eq_ok hx
  have k₃ := (SameControl.reconcileStaleLocked _ _ _).exec SameControl.refl SameControl.trans h₃
  exact reserveLocked_stale ((h.of_runs k₂.runs).of_runs k₃.runs) p s' hx

/-- The buckets of the send window are made, and no ledger row is touched. -/
theorem lockSendBuckets_rows {scopes : List Scope} {old new : List Bucket} {view : Reservation}
    {w : Time} (h : exec schema (lockSendBuckets scopes old view w) s = .ok (new, s')) :
    s'.ledger.reservations = s.ledger.reservations ∧ s'.runs = s.runs := by
  have hinsert (keys : List BucketKey) : ∀ s : Store,
      (keys.foldl (fun s k => insertBucket k s) s).ledger.reservations = s.ledger.reservations ∧
        (keys.foldl (fun s k => insertBucket k s) s).runs = s.runs := by
    induction keys with
    | nil => exact fun _ => ⟨rfl, rfl⟩
    | cons k keys ih => exact fun s => ih (insertBucket k s)
  unfold lockSendBuckets at h
  split at h
  · obtain ⟨_, s₁, h₁, h⟩ := exec_bind_eq_ok h
    obtain rfl := exec_flush_ok h₁
    simp only [Prog.forUpdate, bind_eq, Prog.bind, exec_lock] at h
    obtain ⟨-, rfl⟩ := exec_pure_ok h
    exact hinsert _ s
  · obtain ⟨-, rfl⟩ := exec_pure_ok h
    exact ⟨rfl, rfl⟩

theorem sendLocked_stale {r : Reservation} {runId : RunId} {token : ℕ} {scopes : List Scope}
    {old new : List Bucket} {moved : Bool} {owner : Owner} {now : Time}
    (hid : r.runId = some runId) (htok : r.leaseToken = some token)
    (h : TokenFrom runId (token + 1) s) (u : Unit) (s' : Store) :
    exec schema (sendLocked cfg r scopes old new moved owner now) s ≠ .ok (u, s') := by
  intro hx
  obtain ⟨-, hx⟩ := exec_ensure_bind hx
  simp only [Prog.read, bind_eq, Prog.bind, exec_query] at hx
  split at hx
  · cases hx
  · obtain ⟨-, hx⟩ := exec_ensure_bind hx
    simp only [lockRunOf, hid, lockRun, Prog.forUpdate, Prog.bind, exec_lock] at hx
    obtain ⟨hfence, -⟩ := exec_ensure_bind hx
    -- the fence names the row's own token
    obtain ⟨q, hq, hlt⟩ := h
    rw [hq, htok] at hfence
    simp only [Option.map_some, Option.filter_none, Option.getD_none, Option.any_some, fenced,
      Bool.and_eq_true, decide_eq_true_eq, Option.some.injEq] at hfence
    omega

theorem markSendStarted_stale {permit : Permit} {r : Reservation} {runId : RunId} {token : ℕ}
    {owner : Owner} {now : Time} (hr : s.ledger.reservations.get? permit.reservationId = some r)
    (hid : r.runId = some runId) (htok : r.leaseToken = some token)
    (h : TokenFrom runId (token + 1) s) (u : Unit) (s' : Store) :
    exec schema (markSendStarted cfg permit owner now) s ≠ .ok (u, s') := by
  intro hx
  obtain ⟨view, s₁, h₁, hx⟩ := exec_bind_eq_ok hx
  obtain rfl := (readOnly_loadReservation _).exec h₁
  obtain ⟨scopes, s₂, h₂, hx⟩ := exec_bind_eq_ok hx
  obtain rfl := (readOnly_lockScopesById _).exec h₂
  obtain ⟨old, s₃, h₃, hx⟩ := exec_bind_eq_ok hx
  obtain rfl := (readOnly_lockExistingBuckets _ _).exec h₃
  obtain ⟨-, hx⟩ := exec_ensure_bind hx
  obtain ⟨new, s₄, h₄, hx⟩ := exec_bind_eq_ok hx
  obtain ⟨hrows, hruns⟩ := lockSendBuckets_rows h₄
  obtain ⟨_, s₅, h₅, hx⟩ := exec_bind_eq_ok hx
  obtain rfl := (readOnly_validateScopes _).exec h₅
  obtain ⟨_, s₆, h₆, hx⟩ := exec_bind_eq_ok hx
  obtain rfl := (readOnly_validateBuckets _).exec h₆
  simp only [lockReservation, Prog.forUpdate, bind_eq, Prog.bind, exec_lock, hrows, hr] at hx
  exact sendLocked_stale hid htok (h.of_runs hruns) u s' hx

theorem renewRunLease_stale {runId : RunId} {owner : Owner} {token : ℕ} {now : Time}
    {a : Option Time} (h : TokenFrom runId (token + 1) s)
    (hx : exec schema (renewRunLease cfg runId owner token now) s = .ok (a, s')) : s' = s := by
  simp only [renewRunLease, Prog.load, bind_eq, Prog.bind, exec_peek, lockScopesById,
    Prog.forUpdate, lockRun, validateScopeMaterializationLocked, exec_lock, exec_query] at hx
  obtain ⟨-, hx⟩ := exec_ensure_bind hx
  rw [exec_lock, exec_lock, fenced_stale h] at hx
  exact (exec_pure_ok hx).2

/-- **Stale tokens change nothing.** -/
theorem next_of_stale {o : Op} {runId : RunId} {token : ℕ} (ho : o.ticket s = some (runId, token))
    (h : TokenFrom runId (token + 1) s) : next cfg s o = s := by
  have hlease {lease : RunLease} (hl : some (lease.runId, lease.token) = some (runId, token)) :
      TokenFrom lease.runId (lease.token + 1) s := by
    obtain ⟨rfl, rfl⟩ := Prod.mk.inj (Option.some.inj hl)
    exact h
  cases o with
  | failClosedTakeover lease now =>
    obtain ⟨r, hr, hlt⟩ := hlease ho
    refine after_of_ok (a := ()) ?_
    simp only [Op.tx, failClosedTakeover, lockRun, Prog.forUpdate, bind_eq, Prog.bind, exec_lock, hr]
    rw [if_neg fun hc => by omega]
    rfl
  | persistResponse lease id q outcome now =>
    exact after_of_exec (exec_lockedRun_stale (hlease ho))
  | finishCancelled lease now => exact after_of_exec (exec_lockedRun_stale (hlease ho))
  | failAttempt lease e now => exact after_of_exec (exec_lockedRun_stale (hlease ho))
  | deferGovernance lease e notBefore now => exact after_of_exec (exec_lockedRun_stale (hlease ho))
  | cooperativeYield lease n now => exact after_of_exec (exec_lockedRun_stale (hlease ho))
  | exhaustGovernance lease e integrityError now =>
    exact after_of_exec (exec_lockedRun_stale (hlease ho))
  | finishRun lease cancelled now finishedAt =>
    exact after_of_exec (exec_lockedRun_stale (hlease ho))
  | questionContext id q modelId providerScope owner t output cost now =>
    obtain ⟨rfl, rfl⟩ := Prod.mk.inj (Option.some.inj ho)
    exact after_of_not_ok (not_ok_bind (questionContext_stale h))
  | reserve id c providerAttempt owner now =>
    obtain ⟨rfl, rfl⟩ := Prod.mk.inj (Option.some.inj ho)
    exact after_of_not_ok (not_ok_bind (reserve_stale h))
  | markSendStarted permit owner now =>
    simp only [Op.ticket, Option.bind_eq_some_iff, Option.map_eq_some_iff, Prod.mk.injEq] at ho
    obtain ⟨r, hr, id, hid, t, ht, rfl, rfl⟩ := ho
    exact after_of_not_ok (markSendStarted_stale hr hid ht h)
  | renewRunLease id owner t now =>
    obtain ⟨rfl, rfl⟩ := Prod.mk.inj (Option.some.inj ho)
    rcases after_cases schema ((Op.renewRunLease id owner t now).tx cfg) s with hx | ⟨_, s', hx, hs⟩
    · exact hx
    · obtain ⟨_, hx⟩ := exec_unit_ok hx
      rw [next, hs, renewRunLease_stale h hx]
  | _ => cases ho

/-! ## Ended Runs -/

/-- The Run of an id is the row `r`, with the Responses `rs`. -/
def Frozen (r : Run) (rs : List Response) (s : Store) : Prop :=
  s.runs.get? r.id = some r ∧ s.responsesOf r.id = rs

/-- A step leaves a Run that has ended as it is. -/
theorem StoreStep.frozen {o : Op} {r : Run} {rs : List Response} (h : StoreStep cfg o s s')
    (hend : r.status.terminal = true) (hf : Frozen r rs s) : Frozen r rs s' := by
  obtain ⟨hr, hrs⟩ := hf
  cases h with
  | idle hruns hresp => exact ⟨by rw [hruns]; exact hr, by rw [responsesOf_congr hresp]; exact hrs⟩
  | admitted _ hnew _ hruns hresp =>
    refine ⟨?_, by rw [responsesOf_congr hresp]; exact hrs⟩
    rw [hruns, Table.get?_insert, if_neg]
    · exact hr
    · intro hid
      rw [hid] at hr
      exact absurd (hnew.symm.trans hr) nofun
  | @move q q' hq hm hruns hresp hfresh =>
    have hne : r.id ≠ q.id := by
      intro hid
      rw [hid] at hr
      obtain rfl := Option.some.inj (hr.symm.trans hq)
      rw [hm.not_terminal] at hend
      cases hend
    refine ⟨by rw [hruns, get?_put_move hq hm.sameOrigin.id, if_neg hne]; exact hr, ?_⟩
    rw [responsesOf_evidence hfresh hresp, hrs]
    -- a new Response belongs to the Run that moved
    rcases ha : o.answer with _ | x
    · simp
    · have hx : x.runId = q.id := hm.answer_run ha
      simp [hx, Ne.symm hne]

/-- **Fencing.** For every Run:

* a claim that commits installs a token above the one before it;
* after it, through any operations in any order and with any clock readings, an
  operation that carries a lower token of this Run leaves the whole store as it
  is;
* a Run that has ended keeps its row and its Responses. -/
theorem fencing (cfg : Config) (runId : RunId) :
    (∀ s s' owner now lease old,
        exec schema (claim cfg runId owner now) s = .ok (some (lease, old), s') →
        (∃ r r', s.runs.get? runId = some r ∧ s'.runs.get? runId = some r' ∧
          r'.leaseToken = lease.token ∧ r.leaseToken < lease.token) ∧
        ∀ s'', Reaches (next cfg) (Op.Issued cfg) s' s'' →
          ∀ o t, o.ticket s'' = some (runId, t) → t < lease.token → next cfg s'' o = s'') ∧
      ∀ s s' r, s.runs.get? runId = some r → r.status.terminal = true →
        Reaches (next cfg) (Op.Issued cfg) s s' →
        s'.runs.get? runId = some r ∧ s'.responsesOf runId = s.responsesOf runId := by
  refine ⟨fun s s' owner now lease old h => ?_, fun s s' r hr hend hrun => ?_⟩
  · obtain ⟨-, hnone⟩ | ⟨r, hr, rfl, -, ⟨l, hl, hlease⟩, t, -, rfl⟩ := claim_step h
    · cases hnone
    · obtain rfl := Option.some.inj hl
      have hlease : lease = _ := hlease
      have hrow := Table.get?_put_self (r := r.claimed owner now (now + cfg.leaseFor)) hr
      have htok : lease.token = r.leaseToken + 1 := by rw [hlease]
      refine ⟨⟨r, _, hr, hrow, htok.symm, by omega⟩, fun s'' hrun o t ho hlt => ?_⟩
      have hfrom := hrun.invariant (I := TokenFrom r.id lease.token) ⟨_, hrow, htok.le⟩
        fun _ _ hi _ => hi.next
      obtain ⟨q, hq, hle⟩ := hfrom
      exact next_of_stale ho ⟨q, hq, by omega⟩
  · obtain rfl : r.id = runId := Table.key_of_get? hr
    exact hrun.invariant (I := Frozen r (s.responsesOf r.id)) ⟨hr, rfl⟩ fun _ _ hi _ =>
      next_invariant hi fun _ _ hi hs => hs.frozen hend hi

/-- A Run claimed by Worker 100, whose lease ends at 1000020. -/
def Sample.claimedRun : List Op :=
  [.admitRun (Sample.newRun 1 Sample.unlimited) 10, .claim 1 100 20]

/-- Worker 200 takes Run 1 over, and a late answer of Worker 100 with an old
clock reading changes nothing. -/
theorem fencing_sample :
    ∃ lease old s', exec schema (claim Sample.config 1 200 2000000)
        (Sample.after Sample.claimedRun) = .ok (some (lease, old), s') ∧ lease.token = 2 ∧
      next Sample.config s'
        (.persistResponse Sample.lease 9 1 (.adapterError "timeout") 500) = s' := by
  have h : ((exec schema (claim Sample.config 1 200 2000000)
      (Sample.after Sample.claimedRun)).toOption.bind fun r => r.1.map fun l => l.1.token) =
        some 2 := by decide +kernel
  rcases hx : exec schema (claim Sample.config 1 200 2000000)
    (Sample.after Sample.claimedRun) with e | ⟨claimed, s'⟩
  · rw [hx] at h
    cases h
  · rw [hx] at h
    obtain ⟨⟨lease, old⟩, rfl, htok⟩ := Option.map_eq_some_iff.mp h
    have htok : lease.token = 2 := htok
    exact ⟨lease, old, s', rfl, htok,
      ((fencing Sample.config 1).1 _ _ _ _ _ _ hx).2 s' .start _ 1 rfl (by omega)⟩

end LLMBenchLab
