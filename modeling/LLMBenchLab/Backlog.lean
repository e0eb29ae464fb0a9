import LLMBenchLab.Interleaving
import LLMBenchLab.Frames

/-!
# The backlog limit

`admit_run` counts the managed Runs that are PENDING or RUNNING under the lock
of the global scope, and every other transaction changes Runs without that
lock. Two facts carry the bound through every interleaving: a transaction
writes a Run row only under the lock of the row it has read, and no row it
writes is in the backlog unless the row it read was (`Run.Eases`).

`Edits` says the first of a program, statement by statement, and `Edits.safe`
turns it into the proof rule of the interleavings.
-/

namespace LLMBenchLab

open Relational Relational.Prog Governance RunLeases

namespace Backlog

variable {cfg : Config} {s t u : Store} {α β : Type}

/-! ## Rows -/

/-- The row takes a place of the backlog. -/
def counted (r : Run) : Bool :=
  !r.status.terminal && decide (r.governanceStatus ≠ .legacyUnmanaged)

/-- `r` may be rewritten as `r'`: a terminal Run stays terminal, and nobody
brings a Run under governance or out of it. -/
structure Eases (r r' : Run) : Prop where
  id : r'.id = r.id
  policy : r'.governancePolicyId = r.governancePolicyId
  terminal : r.status.terminal = true → r'.status.terminal = true

theorem Eases.refl (r : Run) : Eases r r := ⟨rfl, rfl, fun h => h⟩

theorem Eases.trans {a b c : Run} (h : Eases a b) (h' : Eases b c) : Eases a c :=
  ⟨h'.id.trans h.id, h'.policy.trans h.policy, fun ha => h'.terminal (h.terminal ha)⟩

/-- A Run that is not terminal may become anything under the same policy. -/
theorem Eases.of_open {r r' : Run} (h : r.status.terminal = false) (hid : r'.id = r.id)
    (hp : r'.governancePolicyId = r.governancePolicyId) : Eases r r' :=
  ⟨hid, hp, fun ht => by rw [h] at ht; cases ht⟩

/-- The check on the policy of a Run makes its governance status as constant as
its policy. -/
theorem counted_of_eases {r r' : Run} (hr : r.Checks) (hr' : r'.Checks) (h : Eases r r')
    (hc : counted r' = true) : counted r = true := by
  simp only [counted, Bool.and_eq_true, Bool.not_eq_true', decide_eq_true_eq] at hc ⊢
  refine ⟨?_, fun hl => hc.2 ?_⟩
  · by_contra hn
    rw [h.terminal (by simpa using hn)] at hc
    exact absurd hc.1 (by decide)
  · rcases hr.governancePolicyMatchesStatus with ⟨-, hp⟩ | ⟨hne, -⟩
    · rcases hr'.governancePolicyMatchesStatus with ⟨hs, -⟩ | ⟨-, hp'⟩
      · exact hs
      · rw [h.policy, hp] at hp'
        cases hp'
    · exact absurd hl hne

/-! ## Counting -/

/-- A count of rows is a count of keys. -/
theorem countP_eq (t : Table Run) (p : Run → Bool) :
    t.rows.countP p = (t.rows.map key).countP fun k => (t.get? k).any p := by
  rw [List.countP_map]
  refine List.countP_congr fun r hr => ?_
  simp [Table.get?_of_mem hr]

/-- Every Run of the store meets its checks. -/
def Checked (s : Store) : Prop := ∀ r ∈ s.runs.rows, r.Checks

theorem checked_of_ok (h : schema.ok s = true) : Checked s := by
  intro r hr
  have hok : s.ok = true := h
  simp only [Store.ok, Bool.and_eq_true, List.all_eq_true, decide_eq_true_eq] at hok
  exact hok.1.1.1.1.1.2 r hr

/-! ## What a session has done -/

/-- The session that holds the locks `h` makes `t'` of the committed store `t`:
Runs are neither added nor removed, and only locked rows differ. -/
structure Eased (h : List LockKey) (t t' : Store) : Prop where
  policies : t'.policies = t.policies
  keys : t'.runs.rows.map key = t.runs.rows.map key
  rows : ∀ id r', t'.runs.get? id = some r' → t.runs.get? id = some r' ∨
    (LockKey.run id ∈ h ∧ r'.Checks ∧ ∃ r, t.runs.get? id = some r ∧ Eases r r')

theorem Eased.refl (h : List LockKey) (t : Store) : Eased h t t := ⟨rfl, rfl, fun _ _ => .inl⟩

theorem Eased.mono {h h' : List LockKey} (hh : h ⊆ h') {t'} (ht : Eased h t t') : Eased h' t t' :=
  ⟨ht.policies, ht.keys, fun id r' hr' => (ht.rows id r' hr').imp_right fun hr => ⟨hh hr.1, hr.2⟩⟩

/-- The row the session sees is the committed one, eased. -/
theorem Eased.seen {h : List LockKey} {t' : Store} (ht : Eased h t t') {id : RunId} {r' : Run}
    (hr' : t'.runs.get? id = some r') : ∃ r, t.runs.get? id = some r ∧ Eases r r' := by
  rcases ht.rows id r' hr' with hr | ⟨-, -, r, hr, he⟩
  · exact ⟨r', hr, .refl r'⟩
  · exact ⟨r, hr, he⟩

theorem Eased.checked {h : List LockKey} {t' : Store} (ht : Eased h t t') (hc : Checked t) :
    Checked t' := by
  intro r' hr'
  rcases ht.rows _ r' (Table.get?_of_mem hr') with hr | ⟨-, hr, -⟩
  · exact hc r' (Table.mem_of_get? hr)
  · exact hr

theorem Eased.backlogCount_le {h : List LockKey} {t' : Store} (ht : Eased h t t')
    (hc : Checked t) : backlogCount t' ≤ backlogCount t := by
  have hcount (s : Store) : backlogCount s =
      (s.runs.rows.map key).countP fun k => (s.runs.get? k).any counted := countP_eq s.runs counted
  rw [hcount, hcount, ht.keys]
  apply List.countP_mono_left
  intro id _ hid
  rcases hr' : t'.runs.get? id with _ | r'
  · simp [hr'] at hid
  · have hin : counted r' = true := by simpa [hr'] using hid
    obtain ⟨r, hr, he⟩ := ht.seen hr'
    have hr'c := ht.checked hc r' (Table.mem_of_get? hr')
    simp [hr, counted_of_eases (hc r (Table.mem_of_get? hr)) hr'c he hin]

/-- One more row written. -/
theorem Eased.put {h : List LockKey} {t' t'' : Store} (ht : Eased h t t')
    (hpolicies : t''.policies = t'.policies) {r r' : Run} (hruns : t''.runs = t'.runs.put r')
    (hlock : LockKey.run r'.id ∈ h) (hr : t.runs.get? r'.id = some r) (he : Eases r r')
    (hchecks : r'.Checks) : Eased h t t'' where
  policies := hpolicies.trans ht.policies
  keys := by rw [hruns, Table.map_key_put, ht.keys]
  rows id x hx := by
    by_cases hid : id = r'.id
    · subst hid
      rw [hruns, Table.get?_put] at hx
      obtain ⟨y, hy, rfl⟩ := Option.map_eq_some_iff.mp hx
      have hkey : key y = key r' := Table.key_of_get? hy
      rw [Table.overwrite, if_pos hkey]
      exact .inr ⟨hlock, hchecks, r, hr, he⟩
    · rw [hruns, Table.get?_put_ne hid] at hx
      exact ht.rows id x hx

/-! ## Programs -/

/-- Runs and policies are unchanged. -/
def Spares (s s' : Store) : Prop := s'.runs = s.runs ∧ s'.policies = s.policies

/-- Every write spares the Runs, or eases one that satisfies `K`: a row the
session has read and locked. -/
def Edits : (Run → Prop) → Tx α → Prop
  | _, .ret _ => True
  | _, .raise _ => True
  | K, .query k => ∀ s, Edits K (k s)
  | K, .peek _ k => ∀ r, Edits K (k r)
  | K, .lock ls k => ∀ s : Store,
    Edits (fun r => K r ∨ (LockKey.run r.id ∈ ls s ∧ s.runs.get? r.id = some r)) (k s)
  | K, .write f p => ((∀ s, Spares s (f s)) ∨ ∃ r r', K r ∧ Eases r r' ∧
      ∀ s, (f s).runs = s.runs.put r' ∧ (f s).policies = s.policies) ∧ Edits K p

theorem Edits.of_within {p : Tx α} (h : Within Spares p) : ∀ {K : Run → Prop}, Edits K p := by
  induction p with
  | ret a => exact trivial
  | raise e => exact trivial
  | query k ih => exact fun s => ih s (h s)
  | peek f k ih => exact fun r => ih r (h r)
  | lock ls k ih => exact fun s => ih s (h s)
  | write f p ih => exact ⟨.inl h.1, ih h.2⟩

/-- What a session knows it goes on knowing. -/
theorem Edits.bind {p : Tx α} {g : α → Tx β} : ∀ {K : Run → Prop}, Edits K p →
    (∀ (K' : Run → Prop) (a : α), (∀ r, K r → K' r) → Edits K' (g a)) → Edits K (p.bind g) := by
  induction p with
  | ret a => exact fun _ hg => hg _ a fun _ hr => hr
  | raise e => exact fun _ _ => trivial
  | query k ih => exact fun hp hg s => ih s (hp s) hg
  | peek f k ih => exact fun hp hg r => ih r (hp r) hg
  | lock ls k ih => exact fun hp hg s => ih s (hp s) fun K' a hK => hg K' a fun r hr => hK r (.inl hr)
  | write f p ih => exact fun hp hg => ⟨hp.1, ih hp.2 hg⟩

/-! ### Statements -/

section Statements

variable {K : Run → Prop}

theorem edits_event (k : EventKey) (now : Time) (f : AuditFacts) :
    Edits K (appendAuditEvent k now f) :=
  .of_within (within_appendAuditEvent fun _ => ⟨rfl, rfl⟩)

theorem edits_newGeneration (id : RunId) : Edits K (beginNewExecutionGeneration id) :=
  .of_within (within_flush fun _ => ⟨rfl, rfl⟩)

theorem edits_putRun {r r' : Run} (hr : K r) (h : Eases r r') : Edits K (putRun r') :=
  ⟨.inr ⟨r, r', hr, h, fun _ => ⟨rfl, rfl⟩⟩, trivial⟩

/-- `lockRun`: the row it finds is known from then on. -/
theorem edits_lockRun {id : RunId} {g : Store → Tx α}
    (hg : ∀ s (K' : Run → Prop), (∀ r, s.runs.get? id = some r → K' r) → Edits K' (g s)) :
    Edits K ((lockRun id).bind g) := by
  intro s
  refine hg s _ fun r hr => .inr ?_
  obtain rfl : r.id = id := Table.key_of_get? hr
  exact ⟨List.mem_singleton_self _, hr⟩

theorem edits_lockedRun {lease : RunLease} {now : Time} {g : Store × Option Run → Tx α}
    (hnone : ∀ s (K' : Run → Prop), Edits K' (g (s, none)))
    (hsome : ∀ s r (K' : Run → Prop), K' r → owns lease now r = true → Edits K' (g (s, some r))) :
    Edits K ((lockedRun lease now).bind g) := by
  rw [lockedRun, bind_assoc]
  refine edits_lockRun fun s K' hK => ?_
  show Edits K' (g (s, (s.runs.get? lease.runId).filter (owns lease now)))
  rcases hr : (s.runs.get? lease.runId).filter (owns lease now) with _ | r
  · exact hnone s K'
  · obtain ⟨hr, ho⟩ := Option.filter_eq_some_iff.mp hr
    exact hsome s r K' (hK r hr) ho

/-- The last write of a transaction, its event before it. -/
theorem edits_event_putRun {k : EventKey} {now : Time} {f : AuditFacts} {r r' : Run} (hr : K r)
    (h : r.status.terminal = false) {a : α} (hid : r'.id = r.id)
    (hp : r'.governancePolicyId = r.governancePolicyId) :
    Edits K ((appendAuditEvent k now f).bind fun _ => (putRun r').bind fun _ => .ret a) :=
  (edits_event _ _ _).bind fun _ _ hK =>
    (edits_putRun (hK r hr) (.of_open h hid hp)).bind fun _ _ _ => trivial

end Statements

/-! ### Transactions -/

theorem open_of_running {r : Run} (h : r.status = .running) : r.status.terminal = false := by
  rw [h]
  rfl

theorem open_of_owns {lease : RunLease} {now : Time} {r : Run} (h : owns lease now r = true) :
    r.status.terminal = false := by
  simp only [owns, Bool.and_eq_true, decide_eq_true_eq] at h
  exact open_of_running h.1.1.1

theorem open_of_leaseExpired {now : Time} {r : Run} (h : r.leaseExpired now = true) :
    r.status.terminal = false := by
  simp only [Run.leaseExpired, Bool.and_eq_true, decide_eq_true_eq] at h
  exact open_of_running h.1

theorem open_of_eligible {n : ℕ} {now : Time} {r : Run} (h : r.eligible n now = true) :
    r.status.terminal = false := by
  simp only [Run.eligible, Bool.and_eq_true, Bool.or_eq_true, decide_eq_true_eq] at h
  rcases h.2 with ⟨⟨hp, -⟩, -⟩ | ⟨he, -⟩
  · rw [hp]
    rfl
  · exact open_of_leaseExpired he

section Transactions

variable {K : Run → Prop}

theorem edits_claim (id : RunId) (owner : Owner) (now : Time) :
    Edits K (claim cfg id owner now) := by
  refine edits_lockRun fun s K' hK => ?_
  split
  · exact trivial
  next run hrun =>
  split
  · next hel =>
    have he : Eases run (run.claimed owner now (now + cfg.leaseFor)) :=
      .of_open (open_of_eligible hel) rfl rfl
    refine (edits_putRun (hK run hrun) he).bind fun _ _ _ => ?_
    split
    · exact (edits_newGeneration _).bind fun _ _ _ => (edits_event _ _ _).bind fun _ _ _ => trivial
    · exact (edits_event _ _ _).bind fun _ _ _ => trivial
  · exact trivial

theorem edits_failClosedTakeover (lease : RunLease) (now : Time) :
    Edits K (failClosedTakeover lease now) := by
  refine edits_lockRun fun s K' hK => ?_
  split
  · exact trivial
  next run hrun =>
  split
  · next h =>
    exact (edits_event _ _ _).bind fun _ _ hK' =>
      edits_putRun (hK' _ (hK run hrun)) (.of_open (open_of_running h.1) rfl rfl)
  · exact trivial

theorem edits_persistResponse (lease : RunLease) (x : Response) (now : Time) :
    Edits K (persistResponse lease x now) := by
  refine edits_lockedRun (fun _ _ => trivial) fun s run K' hK ho => ?_
  dsimp only
  split
  · exact trivial
  split
  · exact trivial
  refine (Edits.of_within (within_ensure _ _)).bind fun _ _ hK₁ =>
    (Edits.of_within (within_flush fun _ => ⟨rfl, rfl⟩)).bind fun _ _ hK₂ =>
    (Edits.of_within within_read).bind fun _ _ hK₃ => ?_
  exact edits_event_putRun (hK₃ _ (hK₂ _ (hK₁ _ hK))) (open_of_owns ho) rfl rfl

theorem edits_requestCancel (id : RunId) (now : Time) : Edits K (requestCancel id now) := by
  refine edits_lockRun fun s K' hK => ?_
  split
  · exact trivial
  next run hrun =>
  split
  · next hst =>
    have hopen : run.status.terminal = false := by rw [hst]; rfl
    have hflag : Eases run { run with cancellationRequested := true } := .of_open hopen rfl rfl
    refine (edits_putRun (hK run hrun) hflag).bind fun _ _ hK₁ =>
      (edits_event _ _ _).bind fun _ _ hK₂ => ?_
    exact edits_event_putRun (hK₂ _ (hK₁ _ (hK run hrun))) hopen rfl rfl
  · next hst =>
    have hflag : Eases run { run with cancellationRequested := true } :=
      .of_open (open_of_running hst) rfl rfl
    exact (edits_putRun (hK run hrun) hflag).bind fun _ _ _ =>
      (edits_event _ _ _).bind fun _ _ _ => trivial
  · exact trivial

theorem edits_finishCancelled (lease : RunLease) (now : Time) :
    Edits K (finishCancelled lease now) := by
  refine edits_lockedRun (fun _ _ => trivial) fun s run K' hK ho => ?_
  dsimp only
  split
  · exact edits_event_putRun hK (open_of_owns ho) rfl rfl
  · exact trivial

theorem edits_recordNotificationResult (id : RunId) (published : Bool) (now : Time) :
    Edits K (recordNotificationResult id published now) := by
  refine edits_lockRun fun s K' hK => ?_
  split
  · exact trivial
  next run hrun =>
  split
  · next h =>
    have hopen : run.status.terminal = false := by rw [h.1]; rfl
    have he : Eases run { run with
        lastError := if published then none else some .queueNotificationUnavailable
        lastEnqueuedAt := if published then some now else run.lastEnqueuedAt } :=
      .of_open hopen rfl rfl
    exact (edits_putRun (hK run hrun) he).bind fun _ _ _ =>
      (edits_event _ _ _).bind fun _ _ _ => trivial
  · exact trivial

theorem edits_failAttempt (lease : RunLease) (e : ErrorCode) (now : Time) :
    Edits K (failAttempt cfg lease e now) := by
  refine edits_lockedRun (fun _ _ => trivial) fun s run K' hK ho => ?_
  have hopen := open_of_owns ho
  dsimp only
  split
  · exact edits_event_putRun hK hopen rfl rfl
  split
  · exact edits_event_putRun hK hopen rfl rfl
  split
  · exact (edits_event _ _ _).bind fun _ _ hK' =>
      edits_event_putRun (hK' _ hK) hopen rfl rfl
  · exact (edits_newGeneration _).bind fun _ _ hK' =>
      edits_event_putRun (hK' _ hK) hopen rfl rfl

theorem edits_deferGovernance (lease : RunLease) (e : ErrorCode) (notBefore now : Time) :
    Edits K (deferGovernance lease e notBefore now) :=
  edits_lockedRun (fun _ _ => trivial) fun _ _ _ hK ho =>
    edits_event_putRun hK (open_of_owns ho) rfl rfl

theorem edits_cooperativeYield (lease : RunLease) (n : ℕ) (now : Time) :
    Edits K (cooperativeYield lease n now) :=
  edits_lockedRun (fun _ _ => trivial) fun _ _ _ hK ho =>
    edits_event_putRun hK (open_of_owns ho) rfl rfl

theorem edits_exhaustGovernance (lease : RunLease) (e : ErrorCode) (integrityError : Bool)
    (now : Time) : Edits K (exhaustGovernance lease e integrityError now) := by
  refine edits_lockedRun (fun _ _ => trivial) fun s run K' hK ho => ?_
  have hopen := open_of_owns ho
  dsimp only
  split
  · exact (edits_event _ _ _).bind fun _ _ hK' =>
      edits_event_putRun (hK' _ hK) hopen rfl rfl
  · exact edits_event_putRun hK hopen rfl rfl

theorem edits_finishRun (lease : RunLease) (status : RunStatus) (now finishedAt : Time) :
    Edits K (finishRun lease status now finishedAt) := by
  refine edits_lockedRun (fun _ _ => trivial) fun s run K' hK ho => ?_
  dsimp only
  split
  · exact trivial
  · exact edits_event_putRun hK (open_of_owns ho) rfl rfl

theorem edits_reapRow (row : RunId × ℕ) (now : Time) : Edits K (reapRow cfg row now) := by
  refine edits_lockRun fun s K' hK => ?_
  split
  · exact trivial
  next run hrun =>
  split
  · exact trivial
  next hexp =>
  have hopen := open_of_leaseExpired (not_not.mp hexp).1
  have hK := hK run hrun
  dsimp only
  split
  · exact edits_event_putRun hK hopen rfl rfl
  split
  · exact edits_event_putRun hK hopen rfl rfl
  split
  · exact (edits_event _ _ _).bind fun _ _ hK' =>
      edits_event_putRun (hK' _ hK) hopen rfl rfl
  · exact (edits_newGeneration _).bind fun _ _ hK' =>
      edits_event_putRun (hK' _ hK) hopen rfl rfl

theorem edits_reap (now : Time) (rows : List (RunId × ℕ)) :
    ∀ {K : Run → Prop}, Edits K (reap cfg now rows) := by
  induction rows with
  | nil => exact trivial
  | cons row rows ih =>
    exact (edits_reapRow row now).bind fun _ _ _ => ih.bind fun _ _ _ => trivial

/-- The ledger transactions write no Run. -/
theorem edits_books {p : Tx α} (h : Within SameControl p) : Edits K p :=
  .of_within (h.mono fun hc => ⟨hc.runs, hc.policies⟩)

theorem edits_renewRunLease (id : RunId) (owner : Owner) (token : ℕ) (now : Time) :
    Edits K (renewRunLease cfg id owner token now) := by
  refine (Edits.of_within (within_load _)).bind fun _ views _ =>
    (Edits.of_within ((readOnly_lockScopesById _).within fun _ => ⟨rfl, rfl⟩)).bind fun _ scopes _ =>
    (Edits.of_within ((readOnly_validateScopes _).within fun _ => ⟨rfl, rfl⟩)).bind fun _ _ _ =>
    (Edits.of_within (within_forUpdate _)).bind fun _ _ _ => ?_
  refine edits_lockRun fun s K' hK => ?_
  split
  · exact trivial
  next run hrun =>
  obtain ⟨hrun, -⟩ := Option.filter_eq_some_iff.mp hrun
  have he : Eases run
      { run with heartbeatAt := some now, leaseExpiresAt := some (now + cfg.leaseFor) } :=
    ⟨rfl, rfl, fun h => h⟩
  exact ⟨.inr ⟨run, _, hK run hrun, he, fun _ => ⟨rfl, rfl⟩⟩, trivial⟩

/-- Every operation but an admission and a change of the policy. -/
theorem edits_tx {o : Op} (hp : ∀ values freshId uuid now, o ≠ .applyPolicy values freshId uuid now)
    (ha : ∀ n now, o ≠ .admitRun n now) : Edits K (o.tx cfg) := by
  cases o with
  | applyPolicy values freshId uuid now => exact absurd rfl (hp values freshId uuid now)
  | admitRun n now => exact absurd rfl (ha n now)
  | claim id owner now => exact (edits_claim id owner now).bind fun _ _ _ => trivial
  | failClosedTakeover lease now => exact edits_failClosedTakeover lease now
  | persistResponse lease id q outcome now =>
    exact (edits_persistResponse lease _ now).bind fun _ _ _ => trivial
  | requestCancel id now => exact (edits_requestCancel id now).bind fun _ _ _ => trivial
  | finishCancelled lease now => exact (edits_finishCancelled lease now).bind fun _ _ _ => trivial
  | recordNotificationResult id published now =>
    exact (edits_recordNotificationResult id published now).bind fun _ _ _ => trivial
  | failAttempt lease e now => exact (edits_failAttempt lease e now).bind fun _ _ _ => trivial
  | deferGovernance lease e notBefore now =>
    exact (edits_deferGovernance lease e notBefore now).bind fun _ _ _ => trivial
  | cooperativeYield lease n now =>
    exact (edits_cooperativeYield lease n now).bind fun _ _ _ => trivial
  | exhaustGovernance lease e integrityError now =>
    exact (edits_exhaustGovernance lease e integrityError now).bind fun _ _ _ => trivial
  | finishRun lease cancelled now finishedAt =>
    exact (edits_finishRun lease _ now finishedAt).bind fun _ _ _ => trivial
  | reap rows now => exact (edits_reap now rows).bind fun _ _ _ => trivial
  | questionContext id q modelId provider owner token output cost now =>
    exact (edits_books (SameControl.questionContext _ _ _ _ _ _ _ _ _)).bind fun _ _ _ => trivial
  | reserve id c attempt owner now =>
    exact (edits_books (SameControl.reserve _ _ _ _ _)).bind fun _ _ _ => trivial
  | markSendStarted permit owner now => exact edits_books (SameControl.markSendStarted _ _ _)
  | finish permit report now => exact edits_books (SameControl.finish _ _ _)
  | reconcileRunLease id token now =>
    exact (edits_books (SameControl.reconcileRunLease _ _ _)).bind fun _ _ _ => trivial
  | renewRunLease id owner token now =>
    exact (edits_renewRunLease id owner token now).bind fun _ _ _ => trivial

end Transactions

/-! ## Every interleaving -/

/-- What holds of a committed store under the active policy `p`. -/
structure Inv (p : Policy) (s : Store) : Prop where
  checked : Checked s
  active : activeRows s = [p]
  bound : backlogCount s ≤ p.limits.backlogLimit

/-- What others leave alone while the session holds `h`. -/
structure Rely (h : List LockKey) (s t : Store) : Prop where
  runs : ∀ id r, LockKey.run id ∈ h → s.runs.get? id = some r → t.runs.get? id = some r
  count : LockKey.scope globalScopeId ∈ h → backlogCount t ≤ backlogCount s

/-- What a commit with the locks `h` may change. -/
structure Guar (h : List LockKey) (s t : Store) : Prop where
  runs : ∀ id r, LockKey.run id ∉ h → s.runs.get? id = some r → t.runs.get? id = some r
  count : LockKey.scope globalScopeId ∉ h → backlogCount t ≤ backlogCount s

theorem Rely.refl (h : List LockKey) (s : Store) : Rely h s s := ⟨fun _ _ _ hr => hr, fun _ => le_rfl⟩

theorem Rely.trans (h : List LockKey) (s t u : Store) (h₁ : Rely h s t) (h₂ : Rely h t u) :
    Rely h s u :=
  ⟨fun id r hid hr => h₂.runs id r hid (h₁.runs id r hid hr),
    fun hl => (h₂.count hl).trans (h₁.count hl)⟩

theorem Rely.mono {h h' : List LockKey} (hh : h ⊆ h') (hr : Rely h' s t) : Rely h s t :=
  ⟨fun id r hid => hr.runs id r (hh hid), fun hl => hr.count (hh hl)⟩

theorem Guar.rely (h h' : List LockKey) (s t : Store) (hap : ∀ l ∈ h, l ∉ h') (hg : Guar h' s t) :
    Rely h s t :=
  ⟨fun id r hid => hg.runs id r (hap _ hid), fun hl => hg.count (hap _ hl)⟩

variable {p : Policy}

theorem Eased.commit {h : List LockKey} {t' : Store} (ht : Eased h t t') (hi : Inv p t) :
    Inv p t' ∧ Guar h t t' := by
  have hle := ht.backlogCount_le hi.checked
  refine ⟨⟨ht.checked hi.checked, ?_, hle.trans hi.bound⟩, fun id r hid hr => ?_, fun _ => hle⟩
  · rw [activeRows, ht.policies]
    exact hi.active
  · have hkey : id ∈ t'.runs.rows.map key := by
      rw [ht.keys]
      exact (Table.isSome_get? _ _).mp (by rw [hr]; rfl)
    obtain ⟨r', hr'⟩ := Option.isSome_iff_exists.mp ((Table.isSome_get? _ _).mpr hkey)
    rcases ht.rows id r' hr' with hsame | ⟨hlock, -⟩
    · rw [hr', ← hsame, hr]
    · exact absurd hlock hid

/-- What a session with writes `w` and locks `h` is, over the committed store
`t`, once it knows the rows `K`. -/
structure Open (K : Run → Prop) (h : List LockKey) (w : Store → Store) (t : Store) : Prop where
  eased : Eased h t (w t)
  known : ∀ r, K r → LockKey.run r.id ∈ h ∧ ∃ r₀, t.runs.get? r.id = some r₀ ∧ Eases r₀ r

/-- A locking read makes the locked rows known. -/
theorem Open.lock {K : Run → Prop} {h : List LockKey} {w : Store → Store} {ls : List LockKey}
    (ht : Open K h w t) (hu : Open K h w u) (htu : Rely (h ++ ls) t u) :
    Open (fun r => K r ∨ (LockKey.run r.id ∈ ls ∧ (w t).runs.get? r.id = some r)) (h ++ ls) w u where
  eased := hu.eased.mono (List.subset_append_left _ _)
  known r hr := by
    rcases hr with hr | ⟨hl, hr⟩
    · obtain ⟨hl, hr⟩ := hu.known r hr
      exact ⟨List.mem_append_left _ hl, hr⟩
    · obtain ⟨r₀, hr₀, he⟩ := ht.eased.seen hr
      exact ⟨List.mem_append_right _ hl, r₀, htu.runs _ _ (List.mem_append_right _ hl) hr₀, he⟩

/-- A write whose row has passed the checks once. -/
theorem Open.write {K : Run → Prop} {h : List LockKey} {w f : Store → Store} {r r' : Run}
    (hr : K r) (he : Eases r r')
    (hf : ∀ s, (f s).runs = s.runs.put r' ∧ (f s).policies = s.policies) (ht : Open K h w t)
    (hok : schema.ok (f (w t)) = true) (hu : Open K h w u) : Open K h (f ∘ w) u where
  eased := by
    obtain ⟨hlock, r₀, hr₀, he₀⟩ := hu.known r hr
    rw [← he.id] at hlock hr₀
    refine hu.eased.put (hf _).2 (hf _).1 hlock hr₀ (he₀.trans he) ?_
    obtain ⟨-, r₁, hr₁, -⟩ := ht.known r hr
    rw [← he.id] at hr₁
    have hkey : r'.id ∈ (w t).runs.rows.map key := by
      rw [ht.eased.keys]
      exact (Table.isSome_get? _ _).mp (by rw [hr₁]; rfl)
    obtain ⟨r₂, hr₂⟩ := Option.isSome_iff_exists.mp ((Table.isSome_get? _ _).mpr hkey)
    have hput : (f (w t)).runs.get? r'.id = some r' := by
      rw [(hf _).1]
      exact Table.get?_put_self hr₂
    exact checked_of_ok hok r' (Table.mem_of_get? hput)
  known := hu.known

/-- A transaction that edits only what it has locked is safe. -/
theorem Edits.safe {q : Tx α} : ∀ {K : Run → Prop} {w : Store → Store} {h : List LockKey} {s : Store},
    Edits K q → (∀ t, Rely h s t → Inv p t → Open K h w t) →
      Safe schema (Inv p) Rely Guar q w h s := by
  induction q with
  | ret a =>
    intro K w h s _ hopen t hst ht
    exact (hopen t hst ht).eased.commit ht
  | raise e => exact fun _ _ => trivial
  | query k ih =>
    intro K w h s he hopen t hst ht
    exact ih _ (he _) fun u htu hu => hopen u (Rely.trans _ _ _ _ hst htu) hu
  | peek f k ih =>
    intro K w h s he hopen t hst ht
    exact ih _ (he _) fun u htu hu => hopen u (Rely.trans _ _ _ _ hst htu) hu
  | lock ls k ih =>
    intro K w h s he hopen t hst ht
    refine ih _ (he _) fun u htu hu => ?_
    have hsu := Rely.trans _ _ _ _ hst (htu.mono (List.subset_append_left _ _))
    exact (hopen t hst ht).lock (hopen u hsu hu) htu
  | write f q ih =>
    intro K w h s he hopen t hst ht hok
    refine ih he.2 fun u htu hu => ?_
    have hu' := hopen u (Rely.trans _ _ _ _ hst htu) hu
    rcases he.1 with hsame | ⟨r, r', hr, hease, hf⟩
    · obtain ⟨hruns, hpolicies⟩ := hsame (w u)
      refine ⟨⟨hpolicies.trans hu'.eased.policies, ?_, ?_⟩, hu'.known⟩
      · rw [Function.comp_apply, hruns]
        exact hu'.eased.keys
      · intro id r hr
        rw [Function.comp_apply, hruns] at hr
        exact hu'.eased.rows id r hr
    · exact (hopen t hst ht).write hr hease hf hok hu'

/-! ### Admission -/

/-- The rows of a store with the scopes opened by `lockScopes`. -/
theorem insertScopes_spares (ids : List ScopeId) (s : Store) :
    Spares s (ids.foldl (fun s i => insertScope i s) s) :=
  ⟨(SameControl.insertScopes ids s).runs, (SameControl.insertScopes ids s).policies⟩

theorem backlogCount_insert_le (r : Run) (s : Store) :
    backlogCount { s with runs := s.runs.insert r } ≤ backlogCount s + 1 := by
  show (s.runs.insert r).rows.countP counted ≤ s.runs.rows.countP counted + 1
  rcases hr : s.runs.get? (key r) with _ | x
  · rw [Table.insert_of_none hr, List.countP_append, List.countP_singleton]
    split <;> omega
  · rw [Table.insert_of_some hr]
    exact Nat.le_succ _

/-- The end of a transaction that writes no Run and no policy any more. -/
theorem safe_of_within {q : Tx α} (hq : Within Spares q) : ∀ {w : Store → Store}
    {h : List LockKey} {s : Store},
    (∀ t, Rely h s t → Inv p t → ∀ t', Spares (w t) t' → Inv p t' ∧ Guar h t t') →
      Safe schema (Inv p) Rely Guar q w h s := by
  induction q with
  | ret a => exact fun hw t hst ht => hw t hst ht _ ⟨rfl, rfl⟩
  | raise e => exact fun _ => trivial
  | query k ih =>
    exact fun hw t hst _ => ih _ (hq _) fun u htu => hw u (Rely.trans _ _ _ _ hst htu)
  | peek f k ih =>
    exact fun hw t hst _ => ih _ (hq _) fun u htu => hw u (Rely.trans _ _ _ _ hst htu)
  | lock ls k ih =>
    intro w h s hw t hst _
    refine ih _ (hq _) fun u htu hu t' ht' => ?_
    have htu' := htu.mono (List.subset_append_left _ _)
    obtain ⟨hi, hg⟩ := hw u (Rely.trans _ _ _ _ hst htu') hu t' ht'
    exact ⟨hi, fun id r hid => hg.runs id r fun hl => hid (List.mem_append_left _ hl),
      fun hl => hg.count fun hl' => hl (List.mem_append_left _ hl')⟩
  | write f q ih =>
    intro w h s hw t hst _ _
    refine ih hq.2 fun u htu hu t' ht' => ?_
    obtain ⟨hruns, hpolicies⟩ := hq.1 (w u)
    exact hw u (Rely.trans _ _ _ _ hst htu) hu t'
      ⟨ht'.1.trans hruns, ht'.2.trans hpolicies⟩

theorem admitted_checks (n : NewRun) (policy : Policy) (provider : ScopeKey) (now : Time) :
    (n.admitted cfg policy provider now).Checks := by
  constructor <;> simp [NewRun.admitted, n.maxAttempts_pos]

/-- The insertion of a Run, after a count under the scope lock found room. -/
theorem insert_commit {h : List LockKey} {r : Run} {t' : Store} (hi : Inv p t)
    (hlock : LockKey.scope globalScopeId ∈ h) (hroom : backlogCount t < p.limits.backlogLimit)
    (hr : r.Checks) (hruns : t'.runs = t.runs.insert r) (hpolicies : t'.policies = t.policies) :
    Inv p t' ∧ Guar h t t' := by
  refine ⟨⟨fun x hx => ?_, ?_, ?_⟩, fun id x _ hx => ?_, fun hn => absurd hlock hn⟩
  · rw [hruns, Table.mem_insert] at hx
    rcases hx with hx | ⟨-, rfl⟩
    · exact hi.checked x hx
    · exact hr
  · rw [activeRows, hpolicies]
    exact hi.active
  · have hle : backlogCount t' ≤ backlogCount t + 1 := by
      rw [backlogCount, hruns]
      exact backlogCount_insert_le r t
    omega
  · rw [hruns, Table.get?_insert]
    split
    · next hid => rw [← hid, hx]; rfl
    · exact hx

section Statements

variable {w : Store → Store} {h : List LockKey}

theorem safe_lockScopes {ids : List ScopeId} {g : List Scope → Tx α}
    (hg : ∀ scopes t, Rely h s t → Inv p t → Safe schema (Inv p) Rely Guar (g scopes)
      ((fun s => (orderScopes ids).foldl (fun s i => insertScope i s) s) ∘ w)
      (h ++ (orderScopes ids).map LockKey.scope) t) :
    Safe schema (Inv p) Rely Guar ((lockScopes ids).bind g) w h s := by
  rw [lockScopes, bind_eq, bind_assoc]
  refine safe_flush_bind fun t ht _ _ => ?_
  rw [lockScopesById, bind_assoc]
  exact safe_forUpdate fun u hu hi => hg _ u (Rely.trans _ _ _ _ ht hu) hi

theorem safe_validateScopes {scopes : List Scope} {g : Unit → Tx α}
    (hg : ∀ t, Rely h s t → Inv p t → Safe schema (Inv p) Rely Guar (g ()) w h t) :
    Safe schema (Inv p) Rely Guar ((validateScopeMaterializationLocked scopes).bind g) w h s :=
  fun t ht hi => safe_ensure fun _ => hg t ht hi

/-- Under a fixed active policy, this is the policy everybody finds. -/
theorem safe_ensureDefaultPolicyLocked (hw : ∀ s, Spares s (w s)) {now : Time} {g : Policy → Tx α}
    (hg : ∀ h' t, h ⊆ h' → Rely h s t → Inv p t → Safe schema (Inv p) Rely Guar (g p) w h' t) :
    Safe schema (Inv p) Rely Guar ((ensureDefaultPolicyLocked cfg now).bind g) w h s := by
  simp only [ensureDefaultPolicyLocked, lockActiveRows, bind_eq, bind_assoc]
  refine safe_forUpdate fun t ht hi => ?_
  have hrows : activeRows (w t) = [p] := by
    rw [activeRows, (hw t).2]
    exact hi.active
  simp only [Prog.bind, hrows, validatePolicyIntegrity]
  rw [bind_assoc]
  exact safe_ensure fun _ => hg _ t (List.subset_append_left _ _) ht hi

end Statements

theorem admitRun_safe (n : NewRun) (now : Time) :
    Safe schema (Inv p) Rely Guar ((Op.admitRun n now).tx cfg) id [] s := by
  have hspares (s : Store) : Spares s
      (((fun s => (orderScopes [globalScopeId]).foldl (fun s i => insertScope i s) s) ∘ id) s) :=
    insertScopes_spares _ s
  have hlock : LockKey.scope globalScopeId ∈
      [] ++ (orderScopes [globalScopeId]).map LockKey.scope := by decide
  show Safe schema (Inv p) Rely Guar ((admitRun cfg n now).bind fun _ => .ret ()) id [] s
  simp only [admitRun, bind_eq, bind_assoc]
  refine safe_lockScopes fun scopes t₁ _ _ => safe_validateScopes fun t₂ _ _ =>
    safe_ensureDefaultPolicyLocked hspares fun h' t₃ hh' _ _ => safe_read fun t₄ _ _ =>
    safe_ensure fun hroom => ?_
  rcases n.providerScope with _ | provider
  · exact trivial
  simp only [bind_assoc]
  refine safe_ensure fun _ => safe_flush_bind fun t₅ h₅ _ _ => ?_
  refine safe_of_within ?_ fun u hu hi t' ht' => ?_
  · exact (within_appendAuditEvent fun _ => ⟨rfl, rfl⟩).bind fun _ => trivial
  have hchecks : (n.admitted cfg p provider now).Checks := admitted_checks n p provider now
  have hcount := (Rely.trans _ _ _ _ h₅ hu).count (hh' hlock)
  have hroom : backlogCount t₄ < p.limits.backlogLimit := by
    rw [decide_eq_true_eq, backlogCount, (hspares t₄).1] at hroom
    exact hroom
  refine insert_commit hi (hh' hlock) (hcount.trans_lt hroom) hchecks ?_ ?_
  · rw [ht'.1, Function.comp_apply, (hspares u).1]
  · rw [ht'.2, Function.comp_apply, (hspares u).2]

/-- The transactions that leave the policy alone. -/
def Submitted (cfg : Config) (q : Tx Unit) : Prop :=
  ∃ o : Op, (∀ values freshId uuid now, o ≠ .applyPolicy values freshId uuid now) ∧ q = o.tx cfg

theorem Submitted.safe {q : Tx Unit} (hq : Submitted cfg q) (s : Store) :
    Safe schema (Inv p) Rely Guar q id [] s := by
  obtain ⟨o, hp, rfl⟩ := hq
  by_cases ha : ∃ n now, o = .admitRun n now
  · obtain ⟨n, now, rfl⟩ := ha
    exact admitRun_safe n now
  · have he : Edits (fun _ => False) (o.tx cfg) := edits_tx hp fun n now h => ha ⟨n, now, h⟩
    exact he.safe fun t _ _ => ⟨.refl _ _, fun _ hf => hf.elim⟩

end Backlog

open Backlog

/-- **The backlog limit.** Under a fixed active policy, no interleaving of the
statements of any number of transactions, admissions among them, commits more
managed Runs that are not terminal than the limit of the policy, unless there
were more of them before. -/
theorem backlog_bounded {ι : Type} [DecidableEq ι] (cfg : Config) (p : Policy) (s : Store)
    (hok : schema.ok s = true) (hactive : activeRows s = [p])
    (hinit : backlogCount s ≤ p.limits.backlogLimit)
    (c : Interleaved ι Store (List Reservation) LockKey Err Unit)
    (hrun : Relation.ReflTransGen (Interleaved.Step schema (Submitted cfg)) (.quiet s) c) :
    backlogCount c.committed ≤ p.limits.backlogLimit := by
  have hinv : Inv p c.committed :=
    Interleaved.invariant Rely.refl Rely.trans (fun h h' s t hap _ hg => Guar.rely h h' s t hap hg)
      (fun _ hq s _ => hq.safe s) ⟨checked_of_ok hok, hactive, hinit⟩ hrun
  exact hinv.bound

/-- An admission beside the sample Run, under the default policy. -/
theorem backlog_bounded_sample :
    backlogCount (Prog.after schema
      ((Op.admitRun (Sample.newRun 2 Sample.unlimited) 11).tx Sample.config)
      (Sample.after [.admitRun (Sample.newRun 1 Sample.unlimited) 10])) ≤ 1000 := by
  have hactive : activeRows (Sample.after [.admitRun (Sample.newRun 1 Sample.unlimited) 10]) =
      [defaultPolicy Sample.config 10] := by decide +kernel
  have hnext : Submitted Sample.config
      ((Op.admitRun (Sample.newRun 2 Sample.unlimited) 11).tx Sample.config) :=
    ⟨.admitRun (Sample.newRun 2 Sample.unlimited) 11, fun _ _ _ _ => Op.noConfusion, rfl⟩
  have hrun := Interleaved.reaches_after (σ := schema) (P := Submitted Sample.config) 0 hnext
    (s := Sample.after [.admitRun (Sample.newRun 1 Sample.unlimited) 10]) (by decide +kernel)
  exact backlog_bounded (ι := ℕ) Sample.config (defaultPolicy Sample.config 10) _
    (by decide +kernel) hactive (by decide +kernel) (.quiet _) hrun

end LLMBenchLab
