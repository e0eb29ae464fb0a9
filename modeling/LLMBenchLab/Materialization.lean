import LLMBenchLab.RunInvariants
import LLMBenchLab.Sessions

/-!
# Materialization: the counters are the ledger

Every committed operation plays licensed actions on the ledger
(`Account.of_exec`), so along any sequence of operations each scope and each
minute bucket equals the aggregate the repository computes for it.
-/

namespace LLMBenchLab

open Relational Relational.Prog Governance

variable {cfg : Config} {s s' : Store} {α : Type}

/-! ## The account of the ledger -/

/-- The policies of a store. -/
def Knows (s : Store) (p : Policy) : Prop := s.policies.get? p.id = some p

/-- The actions a transaction may play from `s`. -/
def Licence (s : Store) : Ledger → Action → Prop := Licensed (Knows s) (· = s)

/-- The insert of an empty counter row. -/
def Action.Opens (a : Action) : Prop := (∃ i, a = .openScope i) ∨ ∃ k, a = .openBucket k

/-- The actions an operation plays. `reserve` may reconcile other rows before it
inserts its own. -/
def Op.Performs (X : Option RunId → Bool) (a : Action) : Op → Prop
  | .applyPolicy .. | .admitRun .. => a.Opens
  | .reserve id c attempt owner now =>
    a.Opens ∨ Reconciles X a ∨ ∃ amounts policyId run, contextAmounts c = .ok amounts ∧
      a = .reserve (newReservation id c attempt owner policyId run (minuteStart now) amounts)
  | .markSendStarted permit _ now =>
    a.Opens ∨ ∃ r : Reservation, r.id = permit.reservationId ∧ a = .send r now (minuteStart now)
  | .finish permit f now => ∃ i o m, nonnegativeInt f.inputTokens = .ok i ∧
    nonnegativeInt f.outputTokens = .ok o ∧ nonnegativeMoney? f.actualCostUsd = .ok m ∧
    ∃ r : Reservation, r.id = permit.reservationId ∧ a = finishAction X f i o m now r
  | .reconcileRunLease .. => Reconciles X a
  | .renewRunLease .. => ∃ r expiresAt, a = .renew r expiresAt
  | _ => False

theorem Action.Opens.edited {a : Action} (h : a.Opens) : a.edited = none ∧ ∀ r, a ≠ .reserve r := by
  rcases h with ⟨i, rfl⟩ | ⟨k, rfl⟩
  · refine ⟨rfl, fun r hr => ?_⟩
    cases hr
  · refine ⟨rfl, fun r hr => ?_⟩
    cases hr

theorem Reconciles.ne_reserve {X : Option RunId → Bool} {a : Action} (h : Reconciles X a)
    (r : Reservation) : a ≠ .reserve r := by
  obtain ⟨now, q, rfl⟩ := h
  simp only [reconcileAction]
  split <;> rintro ⟨⟩

/-- Only `reserve` inserts a row. -/
theorem Op.Performs.reserve {X : Option RunId → Bool} {o : Op} {r : Reservation}
    (h : o.Performs X (.reserve r)) :
    ∃ id c attempt owner now amounts policyId run, o = .reserve id c attempt owner now ∧
      contextAmounts c = .ok amounts ∧
      r = newReservation id c attempt owner policyId run (minuteStart now) amounts := by
  cases o with
  | applyPolicy => exact absurd rfl (h.edited.2 r)
  | admitRun => exact absurd rfl (h.edited.2 r)
  | reserve id c attempt owner now =>
    rcases h with h | h | ⟨amounts, policyId, run, hc, hr⟩
    · exact absurd rfl (h.edited.2 r)
    · exact absurd rfl (h.ne_reserve r)
    · exact ⟨id, c, attempt, owner, now, amounts, policyId, run, rfl, hc, Action.reserve.inj hr⟩
  | markSendStarted =>
    rcases h with h | ⟨q, -, hq⟩
    · exact absurd rfl (h.edited.2 r)
    · cases hq
  | finish =>
    obtain ⟨_, _, _, -, -, -, q, -, hq⟩ := h
    simp only [finishAction] at hq
    split at hq <;> cases hq
  | reconcileRunLease => exact absurd rfl (Reconciles.ne_reserve h r)
  | renewRunLease =>
    obtain ⟨_, _, hq⟩ := h
    cases hq
  | _ => exact h.elim

/-- A settlement is one of reconciliation, at the reservation, or one of `finish`. -/
theorem Op.Performs.settle {X : Option RunId → Bool} {op : Op} {r : Reservation} {v : Settlement}
    {explicit : Bool} {now : Time} {outcome : Outcome} {conservative : Bool}
    (h : op.Performs X (.settle r v explicit now outcome conservative)) :
    v = r.settlement none none none ∨
      ∃ permit f i o m, op = .finish permit f now ∧ nonnegativeInt f.inputTokens = .ok i ∧
        nonnegativeInt f.outputTokens = .ok o ∧ nonnegativeMoney? f.actualCostUsd = .ok m ∧
        r.id = permit.reservationId ∧ f.disposition ≠ .releasedPreSend ∧
        v = r.settlement i o
          (if decide (f.disposition = .settledConservative) then none else m) := by
  have hrec (h : Reconciles X (.settle r v explicit now outcome conservative)) :
      v = r.settlement none none none := by
    obtain ⟨now', q, hq⟩ := h
    simp only [reconcileAction] at hq
    split at hq <;> cases hq
    rfl
  cases op with
  | applyPolicy => cases h.edited.1
  | admitRun => cases h.edited.1
  | reserve id c attempt owner now =>
    rcases h with h | h | ⟨_, _, _, -, hr⟩
    · cases h.edited.1
    · exact Or.inl (hrec h)
    · cases hr
  | markSendStarted =>
    rcases h with h | ⟨q, -, hq⟩
    · cases h.edited.1
    · cases hq
  | finish permit f now =>
    obtain ⟨i, o, m, hi, ho, hm, q, hid, hq⟩ := h
    simp only [finishAction] at hq
    split at hq
    · cases hq
    · next hd =>
      cases hq
      exact Or.inr ⟨permit, f, i, o, m, rfl, hi, ho, hm, hid, hd, rfl⟩
  | reconcileRunLease => exact Or.inl (hrec h)
  | renewRunLease =>
    obtain ⟨_, _, hq⟩ := h
    cases hq
  | _ => exact h.elim

/-- What one operation does to the ledger: it plays actions of its own, and those
of the attempt transactions move the cursors with them. -/
def Account (o : Op) (s s' : Store) : Prop :=
  ∃ acts, s.ledger.Plays (explicitOf s.runs) (Licence s) acts ∧
    s'.ledger = s.ledger.playAll acts ∧
    (o.onBooks = true → s'.executions = cursors acts s.executions ∨
      ∃ k, s'.executions = s.executions.insert (newExecution k) ∧ acts = []) ∧
    ∀ a ∈ acts, o.Performs (explicitOf s.runs) a

/-- The counters equal the sums of the rows, every row has its counters, and the
Run of every row exists. -/
structure BooksInv (s : Store) : Prop where
  balanced : s.ledger.Balanced (explicitOf s.runs)
  owned : ∀ r ∈ s.ledger.reservations.rows, ∀ id ∈ r.runId, (s.runs.get? id).isSome
  global : ∀ r ∈ s.ledger.reservations.rows, r.globalScope = globalKey

theorem BooksInv.empty : BooksInv Store.empty where
  balanced := .empty
  owned _ h := absurd h List.not_mem_nil
  global _ h := absurd h List.not_mem_nil

theorem plays_openScopes {X : Option RunId → Bool} {P : Policy → Prop} {D : Store → Prop}
    (ids : List ScopeId) : ∀ l : Ledger, l.Plays X (Licensed P D) (ids.map .openScope) := by
  induction ids with
  | nil => exact fun _ => trivial
  | cons i ids ih => exact fun l => ⟨⟨trivial, trivial⟩, ih _⟩

theorem still_openScopes (ids : List ScopeId) : ∀ a ∈ ids.map Action.openScope, a.cursor = id := by
  intro a ha
  obtain ⟨i, -, rfl⟩ := List.mem_map.mp ha
  rfl

theorem openScopes_spec (ids : List ScopeId) : ∀ l : Ledger,
    (l.playAll (ids.map .openScope)).reservations = l.reservations ∧
    (∀ i, (l.scopes.get? i).isSome → ((l.playAll (ids.map .openScope)).scopes.get? i).isSome) ∧
    ∀ i ∈ ids, ((l.playAll (ids.map .openScope)).scopes.get? i).isSome := by
  induction ids with
  | nil => exact fun l => ⟨rfl, fun _ h => h, fun _ hi => absurd hi List.not_mem_nil⟩
  | cons j ids ih =>
    intro l
    obtain ⟨hr, hkept, hthere⟩ := ih (l.play (.openScope j))
    have hj (i : ScopeId) : (l.scopes.get? i).isSome ∨ i = j →
        ((l.play (.openScope j)).scopes.get? i).isSome := by
      intro h
      show ((l.scopes.insert (.zero j)).get? i).isSome
      rw [Table.get?_insert]
      split
      · rfl
      · next hne =>
        rcases h with h | rfl
        · exact h
        · exact absurd rfl hne
    refine ⟨hr, fun i hi => hkept i (hj i (Or.inl hi)), fun i hi => ?_⟩
    rcases List.mem_cons.mp hi with rfl | hi
    · exact hkept i (hj i (Or.inr rfl))
    · exact hthere i hi

/-- Alone in its store, a session works on the ledger of the store. -/
theorem BooksInv.working (hi : BooksInv s) : Working (explicitOf s.runs) (· = s) s.ledger where
  balanced := hi.balanced
  explicit := by
    rintro _ rfl _ _
    rfl
  seen := ⟨s, rfl⟩

/-- A session that has played its actions is an account. -/
theorem Played.account {o : Op} {w : Store → Store}
    (h : Played (Knows s) (· = s) (explicitOf s.runs)
      (fun a => o.Performs (explicitOf s.runs) a) s.ledger w) (hs : s' = w s) :
    Account o s s' := by
  obtain ⟨acts, hp, hA, hw⟩ := h
  subst hs
  exact ⟨acts, hp, hw.ledger s rfl, fun _ => Or.inl (hw.executions s rfl), hA⟩

theorem Account.of_prepares {o : Op} (h : Prepares s s') (ho : o.onBooks = false)
    (hopen : ∀ a : Action, a.Opens → o.Performs (explicitOf s.runs) a) : Account o s s' := by
  obtain ⟨ids, hl⟩ := h.ledger
  refine ⟨ids.map .openScope, plays_openScopes ids _, hl, fun h => ?_,
    List.forall_mem_map.mpr fun i _ => hopen _ (Or.inl ⟨i, rfl⟩)⟩
  rw [ho] at h
  cases h

/-- A lease transaction leaves the ledger alone. -/
theorem Account.of_within {o : Op} {p : Tx α} {a : α} (hp : Within SameLedger p)
    (ho : o.onBooks = false) (h : exec schema p s = .ok (a, s')) : Account o s s' := by
  refine ⟨[], trivial, (hp.exec SameLedger.refl SameLedger.trans h).ledger, fun h => ?_,
    fun _ ha => absurd ha List.not_mem_nil⟩
  rw [ho] at h
  cases h

/-! ### The attempt transactions -/

theorem runs_runPolicy {D : Store → Prop} {w w' : Store → Store} {run : Option Run} {policy : Policy}
    (h : Runs schema D (runPolicy cfg run) w policy w') :
    w = w' ∧ ∃ d, D d ∧ (w d).policies.get? policy.id = some policy := by
  simp only [runPolicy] at h
  split at h
  · exact h.elim
  · next policyId _ =>
    obtain ⟨d, hd, h⟩ := runs_query.mp h
    split at h
    · exact h.elim
    · next p hp =>
      obtain ⟨_, w₁, h₁, rfl, rfl⟩ := runs_bind.mp h
      obtain ⟨-, rfl⟩ := runs_ensure.mp h₁
      have hid : p.id = policyId := Table.key_of_get? hp
      exact ⟨rfl, d, hd, by rw [hid]; exact hp⟩

theorem reserve_account {rid : ReservationId} {c : Governance.AttemptContext} {attempt : ℕ}
    {owner : Owner} {now : Time} {permit : Permit} (hi : BooksInv s)
    (h : exec schema (reserve cfg rid c attempt owner now) s = .ok (permit, s')) :
    Account (.reserve rid c attempt owner now) s s' := by
  obtain ⟨w', hx, hs⟩ := runs_of_exec (w := id) h
  refine Played.account ?_ hs
  obtain ⟨_, w₁, h₁, hx⟩ := runs_bind.mp hx
  obtain ⟨hpos, rfl⟩ := runs_ensure.mp h₁
  obtain ⟨a, w₂, h₂, hx⟩ := runs_bind.mp hx
  obtain ⟨ha, rfl⟩ := runs_ofExcept h₂
  obtain ⟨s₀, w₃, h₃, hx⟩ := runs_bind.mp hx
  obtain ⟨s, rfl, rfl, rfl⟩ := runs_read.mp h₃
  obtain ⟨policy, w₄, h₄, hx⟩ := runs_bind.mp hx
  obtain ⟨rfl, s, rfl, hpolicy⟩ := runs_runPolicy h₄
  obtain ⟨scopes, w₅, h₅, hx⟩ := runs_bind.mp hx
  obtain ⟨_, w₆, h₆, h₅⟩ := runs_bind.mp h₅
  obtain ⟨-, rfl⟩ := runs_flush.mp h₆
  -- the scopes are opened before they are locked
  have hids (i : ScopeId) : i ∈ orderScopes (attemptScopes c) ↔ i ∈ attemptScopes c :=
    mem_orderScopes
  obtain ⟨hrows, -, hthere⟩ := openScopes_spec (orderScopes (attemptScopes c)) s.ledger
  have hw : Sees (· = s) id s.ledger id := .start fun d hd => by rw [hd]
  have hL : Working (explicitOf s.runs) (· = s)
      (s.ledger.playAll ((orderScopes (attemptScopes c)).map .openScope)) :=
    ⟨hi.balanced.playAll (plays_openScopes (P := Knows s) (D := (· = s)) _ _),
      by rintro _ rfl _ _; rfl, ⟨s, rfl⟩⟩
  refine Played.after (plays_openScopes (orderScopes (attemptScopes c)) s.ledger)
    (still_openScopes _) (List.forall_mem_map.mpr fun i _ => Or.inl (Or.inl ⟨i, rfl⟩)) ?_
  exact runs_reserveFrom hL (hw.insertScopes _) (of_decide_eq_true hpos) hpolicy
    (fun i hi => hthere i ((hids i).mpr hi)) (fun _ hrec => Or.inr (Or.inl hrec))
    (fun k => Or.inl (Or.inr ⟨k, rfl⟩)) (fun run => Or.inr (Or.inr ⟨a, policy.id, run, ha, rfl⟩))
    (runs_bind.mpr ⟨_, _, h₅, hx⟩)

/-- The row that `session.get` has read. -/
theorem runs_loadReservation {D : Store → Prop} {w w' : Store → Store} {rid : ReservationId}
    {view : Reservation} (h : Runs schema D (loadReservation rid) w view w') :
    w = w' ∧ ∃ d, D d ∧ (w d).ledger.reservations.get? rid = some view := by
  obtain ⟨views, w₁, h₁, h⟩ := runs_bind.mp h
  obtain ⟨d, hd, rfl, rfl⟩ := runs_load.mp h₁
  rcases hget : (w d).ledger.reservations.get? rid with _ | r
  · rw [hget] at h
    exact h.elim
  · rw [hget] at h
    obtain ⟨rfl, rfl⟩ := h
    exact ⟨rfl, d, hd, hget⟩

theorem markSendStarted_account {permit : Permit} {owner : Owner} {now : Time} {u : Unit}
    (hi : BooksInv s) (h : exec schema (markSendStarted cfg permit owner now) s = .ok (u, s')) :
    Account (.markSendStarted permit owner now) s s' := by
  obtain ⟨w', hx, hs⟩ := runs_of_exec (w := id) h
  refine Played.account ?_ hs
  obtain ⟨view, w₁, h₁, hx⟩ := runs_bind.mp hx
  obtain ⟨rfl, s, rfl, hview⟩ := runs_loadReservation h₁
  have hid : view.id = permit.reservationId := Table.key_of_get? hview
  rw [← hid] at hx
  exact runs_sendFrom hi.working (.start fun d hd => by rw [hd])
    (Current.of_mem (Table.mem_of_get? hview)).held (fun k => Or.inl (Or.inr ⟨k, rfl⟩))
    (fun r hr => Or.inr ⟨r, hr.trans hid, rfl⟩) hx

theorem finish_account {permit : Permit} {f : FinishReport} {now : Time} {u : Unit}
    (hi : BooksInv s) (h : exec schema (finish permit f now) s = .ok (u, s')) :
    Account (.finish permit f now) s s' := by
  obtain ⟨w', hx, hs⟩ := runs_of_exec (w := id) h
  refine Played.account ?_ hs
  obtain ⟨i, w₁, h₁, hx⟩ := runs_bind.mp hx
  obtain ⟨hin, rfl⟩ := runs_ofExcept h₁
  obtain ⟨q, w₂, h₂, hx⟩ := runs_bind.mp hx
  obtain ⟨hout, rfl⟩ := runs_ofExcept h₂
  obtain ⟨m, w₃, h₃, hx⟩ := runs_bind.mp hx
  obtain ⟨hcost, rfl⟩ := runs_ofExcept h₃
  obtain ⟨view, w₄, h₄, hx⟩ := runs_bind.mp hx
  obtain ⟨rfl, s, rfl, hview⟩ := runs_loadReservation h₄
  have hid : view.id = permit.reservationId := Table.key_of_get? hview
  rw [← hid] at hx
  exact runs_finishFrom hi.working (.start fun d hd => by rw [hd])
    (Current.of_mem (Table.mem_of_get? hview))
    (fun r hr => ⟨i, q, m, hin, hout, hcost, r, hr.trans hid, rfl⟩) hx

theorem reconcileRunLease_account {runId : RunId} {token : ℕ} {now : Time} {n : ℕ × ℕ}
    (hi : BooksInv s) (h : exec schema (reconcileRunLease runId token now) s = .ok (n, s')) :
    Account (.reconcileRunLease runId token now) s s' := by
  obtain ⟨w', hx, hs⟩ := runs_of_exec (w := id) h
  refine Played.account ?_ hs
  have hw : Sees (· = s) id s.ledger id := .start fun d hd => by rw [hd]
  obtain ⟨views, w₁, h₁, hx⟩ := runs_bind.mp hx
  obtain ⟨s, rfl, rfl, rfl⟩ := runs_load.mp h₁
  split at hx
  · obtain ⟨-, rfl⟩ := hx
    exact .nothing hw
  · exact runs_reconcileFrom hi.working hw
      (fun v hv => Current.of_mem (List.mem_of_mem_filter hv))
      (s.ledger.reservations.nodup.sublist (List.filter_sublist.map _)) (fun _ hrec => hrec) hx

theorem questionContext_account {o : Op} {runId : RunId} {questionId : QuestionId}
    {modelId : ModelId} {providerScope : ScopeKey} {owner : Owner} {token : ℕ}
    {output : Option ℤ} {cost : Option ℚ} {now : Time} {a : Governance.AttemptContext}
    (h : exec schema (questionContext runId questionId modelId providerScope owner token output cost
      now) s = .ok (a, s')) : Account o s s' := by
  simp only [questionContext, Prog.forUpdate, RunLeases.lockRun, bind_eq, Prog.bind,
    exec_lock] at h
  split at h
  · -- the cursor is new
    have h := exec_flush_bind h
    rw [exec_lock] at h
    split at h
    · cases h
    · obtain ⟨_, -, h⟩ := exec_ofExcept_bind h
      obtain ⟨_, -, h⟩ := exec_ofExcept_bind h
      obtain ⟨_, -, h⟩ := exec_ofExcept_bind h
      obtain ⟨-, rfl⟩ := exec_pure_ok h
      exact ⟨[], trivial, rfl, fun _ => Or.inr ⟨_, rfl, rfl⟩, fun _ ha => absurd ha List.not_mem_nil⟩
  · rw [exec_lock] at h
    split at h
    · cases h
    · obtain ⟨_, -, h⟩ := exec_ofExcept_bind h
      obtain ⟨_, -, h⟩ := exec_ofExcept_bind h
      obtain ⟨_, -, h⟩ := exec_ofExcept_bind h
      obtain ⟨-, rfl⟩ := exec_pure_ok h
      exact ⟨[], trivial, rfl, fun _ => Or.inl rfl, fun _ ha => absurd ha List.not_mem_nil⟩

/-- Renewing rows one after another is the flush of the renewed rows. -/
theorem plays_renew {X : Option RunId → Bool} {P : Policy → Prop} {D : Store → Prop}
    (expiresAt : Time) : ∀ (rs : List Reservation) (l : Ledger),
      (∀ r ∈ rs, r ∈ l.reservations.rows ∧ r.state.active = true) →
      (rs.map Reservation.id).Nodup → l.Plays X (Licensed P D) (rs.map (.renew · expiresAt)) ∧
        l.playAll (rs.map (.renew · expiresAt)) =
          ⟨l.scopes, l.buckets, l.reservations.putAll
            (rs.map fun r => { r with leaseExpiresAt := some expiresAt })⟩ := by
  intro rs
  induction rs with
  | nil => exact fun l _ _ => ⟨trivial, rfl⟩
  | cons r rs ih =>
    intro l hmem hnd
    obtain ⟨hr, hnd⟩ := List.nodup_cons.mp hnd
    obtain ⟨hrow, hactive⟩ := hmem r List.mem_cons_self
    have hget : l.reservations.get? r.id = some r := Table.get?_of_mem hrow
    -- the other rows are where they were
    have hrest : ∀ q ∈ rs, q ∈ (l.play (.renew r expiresAt)).reservations.rows ∧
        q.state.active = true := by
      intro q hq
      obtain ⟨hqrow, hqactive⟩ := hmem q (List.mem_cons_of_mem _ hq)
      have hne : q.id ≠ r.id := fun he => hr (by rw [← he]; exact List.mem_map_of_mem hq)
      have hq' : l.reservations.get? q.id = some q := Table.get?_of_mem hqrow
      exact ⟨Table.mem_of_get? (Eq.trans (Table.get?_put_ne hne) hq'), hqactive⟩
    obtain ⟨hp, hl⟩ := ih (l.play (.renew r expiresAt)) hrest hnd
    refine ⟨⟨⟨⟨hget, hactive⟩, trivial⟩, hp⟩, ?_⟩
    rw [List.map_cons, Ledger.playAll_cons, hl]
    rfl

theorem renewRunLease_account {runId : RunId} {owner : Owner} {token : ℕ} {now : Time}
    {a : Option Time} (h : exec schema (renewRunLease cfg runId owner token now) s = .ok (a, s')) :
    Account (.renewRunLease runId owner token now) s s' := by
  simp only [renewRunLease, Prog.load, bind_eq, Prog.bind, exec_peek, lockScopesById, Prog.forUpdate,
    RunLeases.lockRun, validateScopeMaterializationLocked, exec_lock, exec_query] at h
  obtain ⟨-, h⟩ := exec_ensure_bind h
  rw [exec_lock, exec_lock] at h
  split at h
  · obtain ⟨-, rfl⟩ := exec_pure_ok h
    exact ⟨[], trivial, rfl, (by rintro ⟨⟩), fun _ ha => absurd ha List.not_mem_nil⟩
  · have h := exec_flush_bind h
    obtain ⟨-, rfl⟩ := exec_pure_ok h
    obtain ⟨hp, hl⟩ := plays_renew (X := explicitOf s.runs) (P := Knows s) (D := (· = s))
      (now + cfg.leaseFor) ((s.ledger.reservations.lookup ((ownedViews runId owner token s).map
        Reservation.id)).filter fun r => r.state.active) s.ledger
      (fun r hr => ⟨(Table.mem_lookup.mp (List.mem_of_mem_filter hr)).1, (List.mem_filter.mp hr).2⟩)
      (by
        refine List.Nodup.sublist (List.filter_sublist.map _) ?_
        rw [show List.map Reservation.id _ = _ from Table.map_key_lookup _ _]
        exact List.Nodup.filter _
          (s.ledger.reservations.nodup.sublist (List.filter_sublist.map Reservation.id)))
    exact ⟨_, hp, hl.symm, (by rintro ⟨⟩), List.forall_mem_map.mpr fun r _ => ⟨r, _, rfl⟩⟩

/-- Every committed operation has its account. -/
theorem Account.of_exec {o : Op} {u : Unit} (hi : BooksInv s)
    (h : exec schema (o.tx cfg) s = .ok (u, s')) : Account o s s' := by
  cases o with
  | applyPolicy values freshId uuid now =>
    obtain ⟨_, h⟩ := exec_unit_ok h
    exact .of_prepares ((Prepares.applyPolicy values freshId uuid now).exec Prepares.refl
      Prepares.trans h) rfl fun _ ha => ha
  | admitRun n now =>
    obtain ⟨_, h⟩ := exec_unit_ok h
    exact .of_prepares ((Prepares.admitRun n now).exec Prepares.refl Prepares.trans h) rfl fun _ ha => ha
  | claim runId owner now =>
    obtain ⟨_, h⟩ := exec_unit_ok h
    exact .of_within (SameLedger.claim _ _ _) rfl h
  | failClosedTakeover lease now =>
    exact .of_within (SameLedger.failClosedTakeover _ _) rfl h
  | persistResponse lease id q outcome now =>
    obtain ⟨_, h⟩ := exec_unit_ok h
    exact .of_within (SameLedger.persistResponse _ _ _) rfl h
  | requestCancel runId now =>
    obtain ⟨_, h⟩ := exec_unit_ok h
    exact .of_within (SameLedger.requestCancel _ _) rfl h
  | finishCancelled lease now =>
    obtain ⟨_, h⟩ := exec_unit_ok h
    exact .of_within (SameLedger.finishCancelled _ _) rfl h
  | recordNotificationResult runId published now =>
    obtain ⟨_, h⟩ := exec_unit_ok h
    exact .of_within (SameLedger.recordNotificationResult _ _ _) rfl h
  | failAttempt lease e now =>
    obtain ⟨_, h⟩ := exec_unit_ok h
    exact .of_within (SameLedger.failAttempt _ _ _) rfl h
  | deferGovernance lease e notBefore now =>
    obtain ⟨_, h⟩ := exec_unit_ok h
    exact .of_within (SameLedger.deferGovernance _ _ _ _) rfl h
  | cooperativeYield lease n now =>
    obtain ⟨_, h⟩ := exec_unit_ok h
    exact .of_within (SameLedger.cooperativeYield _ _ _) rfl h
  | exhaustGovernance lease e integrityError now =>
    obtain ⟨_, h⟩ := exec_unit_ok h
    exact .of_within (SameLedger.exhaustGovernance _ _ _ _) rfl h
  | finishRun lease cancelled now finishedAt =>
    obtain ⟨_, h⟩ := exec_unit_ok h
    exact .of_within (SameLedger.finishRun _ _ _ _) rfl h
  | reap rows now =>
    obtain ⟨_, h⟩ := exec_unit_ok h
    exact .of_within (SameLedger.reap _ _) rfl h
  | questionContext runId q modelId provider owner token output cost now =>
    obtain ⟨_, h⟩ := exec_unit_ok h
    exact questionContext_account h
  | reserve id c attempt owner now =>
    obtain ⟨_, h⟩ := exec_unit_ok h
    exact reserve_account hi h
  | markSendStarted permit owner now => exact markSendStarted_account hi h
  | finish permit report now => exact finish_account hi h
  | reconcileRunLease runId token now =>
    obtain ⟨_, h⟩ := exec_unit_ok h
    exact reconcileRunLease_account hi h
  | renewRunLease runId owner token now =>
    obtain ⟨_, h⟩ := exec_unit_ok h
    exact renewRunLease_account h

/-! ## The invariant -/

/-- Runs are never deleted by an operation, and keep what they froze. -/
theorem sameOrigin_of_exec {o : Op} {u : Unit} (h : exec schema (o.tx cfg) s = .ok (u, s'))
    {id : RunId} {r : Run} (hr : s.runs.get? id = some r) :
    ∃ r', s'.runs.get? id = some r' ∧ r.SameOrigin r' := by
  have hsteps := (steps_of_exec h).1
  clear h
  induction hsteps with
  | refl => exact ⟨r, hr, .refl r⟩
  | tail _ hlast ih =>
    obtain ⟨r₁, hr₁, ho₁⟩ := ih
    obtain ⟨r₂, hr₂, ho₂⟩ := hlast.sameOrigin hr₁
    exact ⟨r₂, hr₂, ho₁.trans ho₂⟩

/-- Rows belong to Runs of `runs` and to the one global scope. -/
def Rooted (runs : Table Run) (l : Ledger) : Prop :=
  ∀ r ∈ l.reservations.rows, (∀ id ∈ r.runId, (runs.get? id).isSome) ∧ r.globalScope = globalKey

theorem Rooted.play {X : Option RunId → Bool} {l : Ledger} {a : Action} (h : Rooted s.runs l)
    (ha : l.Allows X a) (hlic : Licence s l a) : Rooted s.runs (l.play a) := by
  refine Ledger.forall_play h ha ?_ ?_
  · rintro r rfl
    obtain ⟨run, policy, o, now, hl⟩ := hlic
    obtain ⟨q, hq⟩ := hl.question
    obtain ⟨_, rfl, hrun⟩ := hl.seenRun
    refine ⟨fun id hid => ?_, hl.global⟩
    obtain rfl : run.id = id := by simpa [Reservation.runId, hq] using hid
    rw [hrun]
    rfl
  · rintro r r' he ⟨hrun, hglobal⟩
    have hs := Action.edited_same he
    refine ⟨fun id hid => hrun id ?_, hs.globalScope.trans hglobal⟩
    rw [Reservation.runId, ← hs.question]
    exact hid

/-- An operation adds rows to Runs that were there before it only. -/
theorem BooksInv.rooted {o : Op} {u : Unit} (hi : BooksInv s)
    (h : exec schema (o.tx cfg) s = .ok (u, s')) : Rooted s.runs s'.ledger := by
  obtain ⟨acts, hp, hl, -⟩ := Account.of_exec hi h
  rw [hl]
  exact hp.invariant (I := Rooted s.runs) (fun r hr => ⟨hi.owned r hr, hi.global r hr⟩)
    fun l a hl ha hlic => hl.play ha hlic

/-- A committed operation keeps the books. -/
theorem BooksInv.step {o : Op} {u : Unit} (hi : BooksInv s)
    (h : exec schema (o.tx cfg) s = .ok (u, s')) : BooksInv s' := by
  have hrooted := hi.rooted h
  obtain ⟨acts, hp, hl, -⟩ := Account.of_exec hi h
  refine ⟨?_, fun r hr id hid => ?_, fun r hr => (hrooted r hr).2⟩
  · rw [hl]
    refine (hi.balanced.playAll hp).congr fun r hr => ?_
    -- the Run of the row was there, and still reserves its input as before
    congr 1
    rcases hid : r.runId with _ | id
    · rfl
    · obtain ⟨run, hrun⟩ := Option.isSome_iff_exists.mp
        ((hrooted r (by rw [hl]; exact hr)).1 id hid)
      obtain ⟨run', hrun', ho⟩ := sameOrigin_of_exec h hrun
      have hres : run'.inputTokenReservation = run.inputTokenReservation :=
        congrArg RunOverrides.inputTokenReservation ho.overrides
      simp only [explicitOf, hrun, hrun', Option.any_some, hres]
  · obtain ⟨run, hrun⟩ := Option.isSome_iff_exists.mp ((hrooted r hr).1 id hid)
    obtain ⟨run', hrun', -⟩ := sameOrigin_of_exec h hrun
    rw [hrun']
    rfl

/-- Some sequence of operations, whatever their arguments and clocks, leads from
a fresh database to `s`. -/
def Committed (cfg : Config) (s : Store) : Prop :=
  Reaches (next cfg) (fun _ _ => True) Store.empty s

/-- What every committed operation keeps holds after any sequence of them. -/
theorem Committed.invariant {I : Store → Prop} (h : Committed cfg s) (h₀ : I Store.empty)
    (hstep : ∀ (s s' : Store) (o : Op) (u : Unit), I s →
      exec schema (o.tx cfg) s = .ok (u, s') → I s') : I s := by
  refine Reaches.invariant h h₀ fun s o hs _ => ?_
  rw [next]
  rcases after_cases schema (o.tx cfg) s with h | ⟨u, s', h, h'⟩
  · rw [h]
    exact hs
  · rw [h']
    exact hstep s s' o u hs h

theorem Committed.booksInv (h : Committed cfg s) : BooksInv s :=
  h.invariant .empty fun _ _ _ _ hi hx => hi.step hx

/-- **Materialization.** After any sequence of committed operations every scope
and every minute bucket equals the aggregate of the ledger rows that refer to
it, and no counter is negative. -/
theorem ledger_materialized (cfg : Config) (s : Store) (h : Committed cfg s) :
    (∀ x ∈ s.ledger.scopes.rows, x.Materialized s ∧ ∀ c, 0 ≤ x.count c) ∧
      ∀ x ∈ s.ledger.buckets.rows, x.Materialized s ∧ ∀ c, 0 ≤ x.count c := by
  have hb := h.booksInv.balanced
  refine ⟨fun x hx => ⟨(x.materialized_iff s).mpr (hb.scope x hx), fun c => ?_⟩,
    fun x hx => ⟨(x.materialized_iff s).mpr (hb.bucket x hx), fun c => ?_⟩⟩
  · rw [(hb.scope x hx).count]
    exact (scopeSummary (explicitOf s.runs)).sum_nonneg (c := some c)
      (fun r _ => fact_nonneg c r) _
  · rw [hb.bucket x hx]
    exact bucketSummary.sum_nonneg (fun r _ => fact_nonneg c.toCounter r) _

/-- Worker 100 holds Run 1 around a full minute: a reservation of the old minute
is sent in the new one and settled above what it reserved. -/
def Sample.sentRun : List Op :=
  [.admitRun (Sample.newRun 1 Sample.unlimited) 10, .claim 1 100 59999990,
    .questionContext 1 1 5 4 100 1 (some 10) none 59999991,
    .reserve 7 ⟨1, 1, 5, 4, 1, 0, 1, none, some 10, none⟩ 1 100 59999995,
    .markSendStarted ⟨7, 1⟩ 100 60000005,
    .finish ⟨7, 1⟩ ⟨.settledActual, .succeeded, some 3, some 12, none⟩ 60000010]

theorem Sample.committed_after (ops : List Op) : Committed Sample.config (Sample.after ops) :=
  Reaches.start.foldl fun _ _ _ => trivial

theorem ledger_materialized_sample :
    (Sample.after Sample.sentRun).ledger.reservations.rows.map
        (fun r => (r.state, r.windowStart)) = [(.settledActual, 60000000)] ∧
      (∀ x ∈ (Sample.after Sample.sentRun).ledger.scopes.rows,
        x.Materialized (Sample.after Sample.sentRun) ∧ ∀ c, 0 ≤ x.count c) ∧
      ∀ x ∈ (Sample.after Sample.sentRun).ledger.buckets.rows,
        x.Materialized (Sample.after Sample.sentRun) ∧ ∀ c, 0 ≤ x.count c :=
  ⟨by decide +kernel,
    ledger_materialized Sample.config _ (Sample.committed_after Sample.sentRun)⟩

end LLMBenchLab
