import LLMBenchLab.Books
import LLMBenchLab.Frames

/-!
# Ledger sessions: transactions as runs of actions

The transactions of `Attempts` are sequences of the actions of `Books`. The
inversion is over `Prog.Runs`, so it covers a transaction that runs alone and
one whose statements see different stores, as long as all of them have the same
ledger (`Sees`): that is what the lock on the global scope gives.

The loop of `_reconcile_rows_locked` needs an invariant of its own
(`Pending`): its edited objects are not in the database yet, and they are the
counter rows and ledger rows of the ledger that the actions so far lead to.
-/

namespace LLMBenchLab

open Relational Relational.Prog Governance

variable {cfg : Config} {D : Store → Prop} {w w' : Store → Store} {α : Type}

/-! ## What a session sees -/

/-- Only the audit log differs. -/
structure SameBooks (s s' : Store) : Prop where
  ledger : s'.ledger = s.ledger
  executions : s'.executions = s.executions
  runs : s'.runs = s.runs
  policies : s'.policies = s.policies

theorem SameBooks.refl (s : Store) : SameBooks s s := ⟨rfl, rfl, rfl, rfl⟩

theorem SameBooks.trans {a b c : Store} (h : SameBooks a b) (h' : SameBooks b c) : SameBooks a c :=
  ⟨h'.ledger.trans h.ledger, h'.executions.trans h.executions, h'.runs.trans h.runs,
    h'.policies.trans h.policies⟩

theorem SameBooks.event (k : EventKey) (now : Time) (f : AuditFacts) :
    Within SameBooks (appendAuditEvent k now f) :=
  within_appendAuditEvent fun _ => ⟨rfl, rfl, rfl, rfl⟩

/-- Under its pending writes `w` the session sees the ledger `l` and the cursors
changed by `c`, whichever store of `D` it looks at. -/
structure Sees (D : Store → Prop) (w : Store → Store) (l : Ledger)
    (c : Table QuestionExecution → Table QuestionExecution) : Prop where
  ledger : ∀ d, D d → (w d).ledger = l
  executions : ∀ d, D d → (w d).executions = c d.executions
  runs : ∀ d, D d → (w d).runs = d.runs
  policies : ∀ d, D d → (w d).policies = d.policies

namespace Sees

variable {l : Ledger} {c : Table QuestionExecution → Table QuestionExecution}

/-- Before any write. -/
theorem start (h : ∀ d, D d → d.ledger = l) : Sees D id l id :=
  ⟨h, fun _ _ => rfl, fun _ _ => rfl, fun _ _ => rfl⟩

theorem same (h : Sees D w l c) (hw : ∀ d, SameBooks (w d) (w' d)) : Sees D w' l c where
  ledger d hd := (hw d).ledger.trans (h.ledger d hd)
  executions d hd := (hw d).executions.trans (h.executions d hd)
  runs d hd := (hw d).runs.trans (h.runs d hd)
  policies d hd := (hw d).policies.trans (h.policies d hd)

/-- A statement that only appends to the audit log. -/
theorem within (h : Sees D w l c) {p : Tx α} {a : α} (hp : Within SameBooks p)
    (hr : Runs schema D p w a w') : Sees D w' l c :=
  h.same (hp.runs SameBooks.refl SameBooks.trans hr)

theorem flush (h : Sees D w l c) (x : Dirty) :
    Sees D (x.flush ∘ w) ⟨l.scopes.putAll x.scopes, l.buckets.putAll x.buckets,
      l.reservations.putAll x.rows⟩ c where
  ledger d hd := by rw [← h.ledger d hd]; rfl
  executions := h.executions
  runs := h.runs
  policies := h.policies

theorem insertScopes (h : Sees D w l c) (ids : List ScopeId) :
    Sees D ((fun s => ids.foldl (fun s i => insertScope i s) s) ∘ w)
      (l.playAll (ids.map .openScope)) c := by
  induction ids generalizing w l with
  | nil => exact h
  | cons i ids ih =>
    refine ih (w := insertScope i ∘ w) ⟨fun d hd => ?_, h.executions, h.runs, h.policies⟩
    rw [← h.ledger d hd]
    rfl

theorem insertBuckets (h : Sees D w l c) (keys : List BucketKey) :
    Sees D ((fun s => keys.foldl (fun s k => insertBucket k s) s) ∘ w)
      (l.playAll (keys.map .openBucket)) c := by
  induction keys generalizing w l with
  | nil => exact h
  | cons k keys ih =>
    refine ih (w := insertBucket k ∘ w) ⟨fun d hd => ?_, h.executions, h.runs, h.policies⟩
    rw [← h.ledger d hd]
    rfl

theorem setExecution (h : Sees D w l c) (k : ExecutionKey)
    (f : QuestionExecution → QuestionExecution) (hf : ∀ x, key (f x) = key x) :
    Sees D (setExecution k f hf ∘ w) l (fun t => (c t).updateAt [k] f hf) where
  ledger := h.ledger
  executions d hd := by rw [← h.executions d hd]; rfl
  runs := h.runs
  policies := h.policies

end Sees

/-! ## Actions and retry cursors -/

/-- A column update of the cursor of a row. -/
def atCursor (r : Reservation) (f : QuestionExecution → QuestionExecution)
    (hf : ∀ x, key (f x) = key x) (t : Table QuestionExecution) : Table QuestionExecution :=
  match r.executionKey with
  | none => t
  | some k => t.updateAt [k] f hf

theorem Sees.cursor {l : Ledger} {c : Table QuestionExecution → Table QuestionExecution}
    (h : Sees D w l c) (r : Reservation) (f : QuestionExecution → QuestionExecution)
    (hf : ∀ x, key (f x) = key x) :
    Sees D ((fun s => { s with executions := atCursor r f hf s.executions }) ∘ w) l
      (fun t => atCursor r f hf (c t)) where
  ledger := h.ledger
  executions d hd := by rw [← h.executions d hd]; rfl
  runs := h.runs
  policies := h.policies

theorem markFirstAttempt_eq (r : Reservation) (now : Time) (s : Store) :
    markFirstAttempt r now s =
      { s with executions := atCursor r (firstAttempt now) (fun _ => rfl) s.executions } := by
  simp only [markFirstAttempt, atCursor]
  cases r.executionKey <;> rfl

theorem restartExecution_eq (r : Reservation) (s : Store) :
    restartExecution r s =
      { s with executions := atCursor r (restarted r) (fun _ => rfl) s.executions } := by
  simp only [restartExecution, atCursor]
  cases r.executionKey <;> rfl

/-- The cursor moves past the reserved attempt. -/
def advanced (r : Reservation) (x : QuestionExecution) : QuestionExecution :=
  { x with nextProviderAttempt := r.providerAttempt + 1 }

/-- What the transaction of an action does to the cursors with it. -/
def Action.cursor : Action → Table QuestionExecution → Table QuestionExecution
  | .reserve r => atCursor r (advanced r) fun _ => rfl
  | .send r now _ => atCursor r (firstAttempt now) (key_firstAttempt now)
  | .release r _ false => atCursor r (restarted r) (key_restarted r)
  | _ => id

/-- The cursors after a list of actions. -/
def cursors (acts : List Action) (t : Table QuestionExecution) : Table QuestionExecution :=
  acts.foldl (fun t a => a.cursor t) t

theorem cursors_append (acts acts' : List Action) (t : Table QuestionExecution) :
    cursors (acts ++ acts') t = cursors acts' (cursors acts t) :=
  List.foldl_append

/-- Actions of reconciliation and fresh counter rows leave the cursors alone. -/
theorem cursors_eq_self {acts : List Action} (h : ∀ a ∈ acts, a.cursor = id)
    (t : Table QuestionExecution) : cursors acts t = t := by
  induction acts generalizing t with
  | nil => rfl
  | cons a acts ih =>
    have ha := h a List.mem_cons_self
    refine Eq.trans (ih (fun b hb => h b (List.mem_cons_of_mem _ hb)) _) ?_
    show a.cursor t = t
    rw [ha]
    rfl

/-! ## Licences -/

/-- What `reserve` has established when it inserts `r`, besides the places the
counters need. `P` are the policies it may have read. -/
structure ReserveLicence (P : Policy → Prop) (D : Store → Prop) (l : Ledger) (r : Reservation)
    (run : Run) (policy : Policy) (overrides : RunOverrides) (now : Time) : Prop where
  seenPolicy : P policy
  policyId : r.policyId = policy.id
  seenRun : ∃ d, D d ∧ d.runs.get? run.id = some run
  question : ∃ q, r.question = some ⟨run.id, q, run.id⟩
  global : r.globalScope = globalKey
  blank : r.sendStartedAt = none ∧ r.settledAt = none
  fence : fenced r.leaseOwner r.leaseToken now run = true
  snapshot : ∃ g, run.governanceSnapshot = some g ∧ g.policy = policy.snapshot
  frozen : frozenOverrides run = some overrides
  attempt : 1 ≤ r.providerAttempt ∧ r.providerAttempt ≤ run.retryMaxAttempts.getD 1
  cursor : ∃ d, D d ∧ ∃ k x, r.executionKey = some k ∧ d.executions.get? k = some x ∧
    x.executionGeneration = r.executionGeneration ∧ x.nextProviderAttempt = r.providerAttempt
  fresh : ∀ q ∈ l.reservations.rows, q.operationKey ≠ r.operationKey
  limits : ∃ scopes buckets, l.scopes.Objects r.scopeIds scopes ∧
    l.buckets.Objects r.bucketKeys buckets ∧
    checkLimits policy.limits scopes buckets
      ⟨r.reservedInputTokens, r.reservedOutputTokens, r.reservedCostUsd⟩ overrides now = .ok ()

/-- What `mark_send_started` has established when it sends `r`. -/
structure SendLicence (D : Store → Prop) (l : Ledger) (r : Reservation) (run : Run)
    (policy : Policy) (now : Time) : Prop where
  seenPolicy : ∃ d, D d ∧ d.policies.get? r.policyId = some policy
  seenRun : ∃ d, D d ∧ r.runId = some run.id ∧ d.runs.get? run.id = some run
  fence : ∃ owner, fenced (some owner) r.leaseToken now run = true
  limits : minuteStart now ≠ r.windowStart → ∃ scopes buckets,
    l.scopes.Objects r.scopeIds scopes ∧
    l.buckets.Objects (r.sent now (minuteStart now)).bucketKeys buckets ∧
    checkWindowLimits policy.limits scopes buckets
      (amount r.reservedInputTokens + amount r.reservedOutputTokens) now = .ok ()

/-- What the transaction of an action has established, beyond `Ledger.Allows`. -/
def Licensed (P : Policy → Prop) (D : Store → Prop) (l : Ledger) : Action → Prop
  | .reserve r => ∃ run policy overrides now, ReserveLicence P D l r run policy overrides now
  | .send r now sendWindow => sendWindow = minuteStart now ∧ r.windowStart ≤ sendWindow ∧
    ∃ run policy, SendLicence D l r run policy now
  | .release r _ false => ∃ d, D d ∧ ∀ k, r.executionKey = some k → ∃ x, d.executions.get? k = some x ∧
    x.executionGeneration = r.executionGeneration ∧ x.nextProviderAttempt = r.providerAttempt + 1
  | _ => True

/-! ## Statements -/

section Statements

variable {X : Option RunId → Bool} {l : Ledger}
  {c : Table QuestionExecution → Table QuestionExecution}

theorem mem_orderScopes {ids : List ScopeId} {i : ScopeId} : i ∈ orderScopes ids ↔ i ∈ ids := by
  simp [orderScopes]

theorem runs_lockScopesById (hw : Sees D w l c) {ids : List ScopeId} {scopes : List Scope}
    (h : Runs schema D (lockScopesById ids) w scopes w') :
    w = w' ∧ scopes = l.scopes.lookup (orderScopes ids) := by
  obtain ⟨s, w₁, h₁, rfl, rfl⟩ := runs_bind.mp h
  obtain ⟨d, hd, rfl, rfl⟩ := runs_forUpdate.mp h₁
  exact ⟨rfl, by rw [hw.ledger d hd]⟩

theorem runs_lockExistingBuckets (hw : Sees D w l c) {keys : List BucketKey} {dirty bs : List Bucket}
    (h : Runs schema D (lockExistingBuckets keys dirty) w bs w') :
    w = w' ∧ bs = (l.buckets.putAll dirty).lookup keys := by
  obtain ⟨s, w₁, h₁, h⟩ := runs_bind.mp h
  obtain ⟨d, hd, rfl, rfl⟩ := runs_forUpdate.mp h₁
  obtain ⟨u, w₂, h₂, rfl, rfl⟩ := runs_bind.mp h
  obtain ⟨-, rfl⟩ := runs_ensure.mp h₂
  exact ⟨rfl, by rw [hw.ledger d hd]⟩

theorem runs_lockBuckets (hw : Sees D w l c) {keys : List BucketKey} {bs : List Bucket}
    (h : Runs schema D (lockBuckets keys) w bs w') :
    Sees D w' (l.playAll (keys.map .openBucket)) c ∧
      bs = (l.playAll (keys.map .openBucket)).buckets.lookup keys := by
  obtain ⟨u, w₁, h₁, h⟩ := runs_bind.mp h
  obtain ⟨-, rfl⟩ := runs_flush.mp h₁
  have hw₁ := hw.insertBuckets keys
  obtain ⟨s, w₂, h₂, rfl, rfl⟩ := runs_bind.mp h
  obtain ⟨d, hd, rfl, rfl⟩ := runs_forUpdate.mp h₂
  exact ⟨hw₁, by rw [hw₁.ledger d hd]⟩

theorem runs_lockReservation (hw : Sees D w l c) {id : ReservationId} {r : Option Reservation}
    (h : Runs schema D (lockReservation id) w r w') :
    w = w' ∧ r = l.reservations.get? id := by
  obtain ⟨s, w₁, h₁, rfl, rfl⟩ := runs_bind.mp h
  obtain ⟨d, hd, rfl, rfl⟩ := runs_forUpdate.mp h₁
  exact ⟨rfl, by rw [hw.ledger d hd]⟩

theorem runs_inputReservationIsExplicitLocked (hw : Sees D w l c) {r : Reservation} {b : Bool}
    (hX : ∀ d, D d → explicitOf d.runs r.runId = X r.runId)
    (hD : ∃ d, D d) (h : Runs schema D (inputReservationIsExplicitLocked r) w b w') :
    w = w' ∧ b = X r.runId := by
  simp only [inputReservationIsExplicitLocked] at h
  split at h
  · next hn =>
    obtain ⟨rfl, rfl⟩ := h
    obtain ⟨d, hd⟩ := hD
    exact ⟨rfl, by rw [← hX d hd, hn]; rfl⟩
  · next id hid =>
    obtain ⟨d, hd, h⟩ := runs_query.mp h
    split at h
    · exact h.elim
    · next run hrun =>
      obtain ⟨rfl, rfl⟩ := h
      refine ⟨rfl, ?_⟩
      rw [← hX d hd, hid, explicitOf, ← hw.runs d hd, hrun]
      rfl

theorem runs_releaseLocked (hw : Sees D w l c) {r : Reservation} {scopes : List Scope}
    {bs : List Bucket} {now : Time} {reconciled : Bool} {x : Dirty}
    (h : Runs schema D (releaseLocked r scopes bs now reconciled) w x w') :
    Sees D w' l c ∧ x = ⟨scopes.map (Scope.release r), bs.map (Bucket.release r),
      [r.released now reconciled]⟩ := by
  obtain ⟨u, w₁, h₁, rfl, rfl⟩ := runs_bind.mp h
  exact ⟨hw.within (SameBooks.event _ _ _) h₁, rfl⟩

theorem runs_settleLocked (hw : Sees D w l c) {r : Reservation} {scopes : List Scope}
    {bs : List Bucket} {now : Time} {i o m : Option ℕ} {outcome : Outcome}
    {reconciled force : Bool} {x : Dirty}
    (hX : ∀ d, D d → explicitOf d.runs r.runId = X r.runId) (hD : ∃ d, D d)
    (h : Runs schema D (settleLocked r scopes bs now i o m outcome reconciled force) w x w') :
    Sees D w' l c ∧ x = ⟨scopes.map (Scope.settle r (r.settlement i o m) (X r.runId)),
      bs.map (Bucket.settle r (r.settlement i o m)),
      [r.settledAs (r.settlement i o m) now outcome (force || reconciled || i.isNone || o.isNone)]⟩ := by
  obtain ⟨b, w₁, h₁, h⟩ := runs_bind.mp h
  obtain ⟨rfl, rfl⟩ := runs_inputReservationIsExplicitLocked hw hX hD h₁
  obtain ⟨u, w₂, h₂, rfl, rfl⟩ := runs_bind.mp h
  exact ⟨hw.within (SameBooks.event _ _ _) h₂, rfl⟩

end Statements

/-! ## The loop of `_reconcile_rows_locked` -/

section Loop

variable {X : Option RunId → Bool} {G : Ledger → Action → Prop} {l : Ledger}
  {c : Table QuestionExecution → Table QuestionExecution} {ids : List ScopeId}
  {x x' : Reconciliation} {acts : List Action}

/-- What `_reconcile_rows_locked` does with a row that is no longer owned. -/
def reconcileAction (X : Option RunId → Bool) (now : Time) (r : Reservation) : Action :=
  if r.state = .reserved then .release r now true
  else .settle r (r.settlement none none none) (X r.runId) now .leaseReconciledUnknown true

theorem id_reconcileAction_cursor (X : Option RunId → Bool) (now : Time) (r : Reservation) :
    (reconcileAction X now r).cursor = id := by
  simp only [reconcileAction]
  split <;> rfl

/-- An action of reconciliation. -/
def Reconciles (X : Option RunId → Bool) (a : Action) : Prop := ∃ now r, a = reconcileAction X now r

theorem Reconciles.still {X : Option RunId → Bool} {a : Action} (h : Reconciles X a) :
    a.cursor = id := by
  obtain ⟨now, r, rfl⟩ := h
  exact id_reconcileAction_cursor X now r

/-- The loop has played `acts` on `l`: its scope objects, one for each of `ids`,
and its edited buckets and rows are those of the ledger the actions lead to. -/
structure Pending (X : Option RunId → Bool) (G : Ledger → Action → Prop) (l : Ledger)
    (ids : List ScopeId) (x : Reconciliation) (acts : List Action) : Prop where
  plays : l.Plays X G acts
  only : ∀ a ∈ acts, Reconciles X a
  count : x.released + x.conservative = acts.length
  scopeKeys : (l.playAll acts).scopes.rows.map key = l.scopes.rows.map key
  scopeMem : ∀ y ∈ x.scopes, y ∈ (l.playAll acts).scopes.rows
  scopeIds : x.scopes.map Scope.id = ids
  scopeElse : ∀ i ∉ ids, (l.playAll acts).scopes.get? i = l.scopes.get? i
  buckets : (l.playAll acts).buckets = l.buckets.putAll x.buckets
  rows : (l.playAll acts).reservations = l.reservations.putAll x.rows

theorem Pending.start {scopes : List Scope} (h : ∀ y ∈ scopes, y ∈ l.scopes.rows) :
    Pending X G l (scopes.map Scope.id) (.start scopes) [] :=
  ⟨trivial, fun _ ha => absurd ha List.not_mem_nil, rfl, rfl, h, rfl, fun _ _ => rfl, rfl, rfl⟩

/-- The flush after the loop writes the ledger of the actions. -/
theorem Pending.flush (h : Pending X G l ids x acts) (hids : ids.Nodup) :
    (⟨l.scopes.putAll x.scopes, l.buckets.putAll x.buckets, l.reservations.putAll x.rows⟩ : Ledger) =
      l.playAll acts := by
  have hscopes : l.scopes.putAll x.scopes = (l.playAll acts).scopes := by
    apply Table.ext_get?
    · rw [Table.map_key_putAll, h.scopeKeys]
    · intro i
      have hnd : (x.scopes.map key).Nodup := by
        rw [show x.scopes.map key = ids from h.scopeIds]
        exact hids
      by_cases hi : i ∈ ids
      · obtain ⟨y, hy, rfl⟩ := List.mem_map.mp (h.scopeIds ▸ hi)
        have hget := Table.get?_of_mem (h.scopeMem y hy)
        refine Eq.trans (Table.get?_putAll_of_mem hnd hy ?_) hget.symm
        rw [Table.isSome_get?, ← h.scopeKeys, ← Table.isSome_get?, hget]
        rfl
      · rw [h.scopeElse i hi]
        refine Table.get?_putAll_of_not_mem fun y hy he => hi ?_
        rw [← h.scopeIds, ← he]
        exact List.mem_map_of_mem (f := Scope.id) hy
  rw [hscopes, ← h.buckets, ← h.rows]

/-- `row_scopes` are the objects of the row's scopes. -/
theorem Pending.rowScopes (h : Pending X G l ids x acts) {view : Reservation}
    (hview : ∀ i ∈ view.scopeIds, i ∈ ids) :
    (l.playAll acts).scopes.Objects view.scopeIds (x.rowScopes view) := by
  constructor
  · intro y hy
    obtain ⟨i, -, hf⟩ := List.mem_filterMap.mp hy
    exact h.scopeMem y (List.mem_of_find?_eq_some hf)
  · intro i
    rw [List.mem_map]
    constructor
    · rintro ⟨y, hy, rfl⟩
      obtain ⟨j, hj, hf⟩ := List.mem_filterMap.mp hy
      have hid : y.id = j := by simpa using List.find?_some hf
      rw [← hid] at hj
      exact hj
    · intro hi
      have hmem : i ∈ x.scopes.map Scope.id := by rw [h.scopeIds]; exact hview i hi
      obtain ⟨y, hy, rfl⟩ := List.mem_map.mp hmem
      rcases hf : x.scopes.find? (fun z => decide (z.id = y.id)) with _ | z
      · exact absurd (decide_eq_true rfl) (List.find?_eq_none.mp hf y hy)
      · have hid : z.id = y.id := by simpa using List.find?_some hf
        exact ⟨z, List.mem_filterMap.mpr ⟨y.id, hi, hf⟩, hid⟩

/-- The object that `scopes_by_id` holds after the edit of a row's scopes. -/
theorem find?_edited {t : Table Scope} {is : List ScopeId} {objs : List Scope}
    (h : t.Objects is objs) {f : Scope → Scope} (hf : ∀ y, key (f y) = key y) {y : Scope}
    (hy : y ∈ t.rows) :
    ((objs.map f).find? fun z => decide (z.id = y.id)).getD y = if y.id ∈ is then f y else y := by
  rcases hfind : (objs.map f).find? (fun z => decide (z.id = y.id)) with _ | z
  · have hnone : y.id ∉ is := by
      intro hi
      obtain ⟨y', hy', hk, -⟩ := h.exists hi
      have := List.find?_eq_none.mp hfind (f y') (List.mem_map_of_mem hy')
      exact this (decide_eq_true ((hf y').trans hk))
    rw [if_neg hnone, hfind]
    rfl
  · obtain ⟨y', hy', rfl⟩ := List.mem_map.mp (List.mem_of_find?_eq_some hfind)
    have hid : (f y').id = y.id := by simpa using List.find?_some hfind
    have hk : key y' = key y := (hf y').symm.trans hid
    have hi : y.id ∈ is := (h.keys (key y)).mp (by rw [← hk]; exact List.mem_map_of_mem hy')
    rw [if_pos hi, hfind, Table.eq_of_key (h.mem y' hy') hy hk]
    rfl

/-- The loop takes over the edited objects of one action. -/
theorem Pending.absorb (h : Pending X G l ids x acts) {r r' : Reservation} {a : Action}
    {f : Scope → Scope} {hf : ∀ y, key (f y) = key y} {g : Bucket → Bucket}
    {hg : ∀ y, key (g y) = key y} {objs : List Scope} {bs : List Bucket} {settled : Bool}
    (hids : ∀ i ∈ r.scopeIds, i ∈ ids) (hobjs : (l.playAll acts).scopes.Objects r.scopeIds objs)
    (hbs : (l.playAll acts).buckets.Objects r.bucketKeys bs)
    (hplay : (l.playAll acts).play a = ⟨(l.playAll acts).scopes.updateAt r.scopeIds f hf,
      (l.playAll acts).buckets.updateAt r.bucketKeys g hg, (l.playAll acts).reservations.put r'⟩)
    (ha : (l.playAll acts).Allows X a) (hG : G (l.playAll acts) a) (honly : Reconciles X a) :
    Pending X G l ids (x.absorb ⟨objs.map f, bs.map g, [r']⟩ r settled) (acts ++ [a]) := by
  have hnext : l.playAll (acts ++ [a]) = (l.playAll acts).play a := by
    rw [Ledger.playAll_append]
    rfl
  constructor
  · exact h.plays.snoc ha hG
  · intro b hb
    rcases List.mem_append.mp hb with hb | hb
    · exact h.only b hb
    · rw [List.mem_singleton.mp hb]
      exact honly
  · have hcount := h.count
    simp only [Reconciliation.absorb, List.length_append, List.length_singleton]
    cases settled <;> simp <;> omega
  · rw [hnext, hplay]
    exact (Table.map_key_updateAt _ _ _ hf).trans h.scopeKeys
  · intro y' hy'
    obtain ⟨y, hy, rfl⟩ := List.mem_map.mp hy'
    rw [find?_edited hobjs hf (h.scopeMem y hy), hnext, hplay]
    exact (Table.mem_updateAt hf).mpr ⟨y, h.scopeMem y hy, rfl⟩
  · refine Eq.trans ?_ h.scopeIds
    rw [Reconciliation.absorb, List.map_map]
    refine List.map_congr_left fun y hy => ?_
    show (((objs.map f).find? fun z => decide (z.id = y.id)).getD y).id = y.id
    rw [find?_edited hobjs hf (h.scopeMem y hy)]
    split
    · exact hf y
    · rfl
  · intro i hi
    rw [hnext, hplay]
    show ((l.playAll acts).scopes.updateAt r.scopeIds f hf).get? i = _
    rw [Table.get?_updateAt, h.scopeElse i hi]
    have hni : i ∉ r.scopeIds := fun hr => hi (hids i hr)
    simp [hni]
  · rw [hnext, hplay]
    show (l.playAll acts).buckets.updateAt r.bucketKeys g hg = _
    rw [← hbs.putAll g hg, h.buckets]
    exact (Table.putAll_append _ _ _).symm
  · rw [hnext, hplay]
    show (l.playAll acts).reservations.put r' = _
    rw [h.rows]
    exact (Table.putAll_append _ _ [r']).symm

/-- The ledger a session works on: balanced, and its Runs reserve their input as
`X` says in every store it sees. -/
structure Working (X : Option RunId → Bool) (D : Store → Prop) (l : Ledger) : Prop where
  balanced : l.Balanced X
  explicit : ∀ d, D d → ∀ r ∈ l.reservations.rows, explicitOf d.runs r.runId = X r.runId
  seen : ∃ d, D d

/-- A row that the loop has not come to is still the row of `l`. -/
theorem Pending.get?_row (h : Pending X G l ids x acts) {id : ReservationId}
    (hnew : ∀ q ∈ x.rows, q.id ≠ id) :
    (l.playAll acts).reservations.get? id = l.reservations.get? id := by
  rw [h.rows]
  exact Table.get?_putAll_of_not_mem hnew

theorem runs_reconcileUnowned {P : Policy → Prop} (hL : Working X D l) (hw : Sees D w l c)
    (h : Pending X (Licensed P D) l ids x acts) {r : Reservation} {objs : List Scope}
    {bs : List Bucket} {now : Time} (hr : l.reservations.get? r.id = some r)
    (hactive : r.state.active = true) (hnew : ∀ q ∈ x.rows, q.id ≠ r.id)
    (hids : ∀ i ∈ r.scopeIds, i ∈ ids) (hobjs : (l.playAll acts).scopes.Objects r.scopeIds objs)
    (hbs : (l.playAll acts).buckets.Objects r.bucketKeys bs)
    (hx : Runs schema D (reconcileUnowned r objs bs now x) w x' w') :
    Sees D w' l c ∧ Pending X (Licensed P D) l ids x' (acts ++ [reconcileAction X now r]) ∧
      ∃ r', x'.rows = x.rows ++ [r'] ∧ r'.id = r.id := by
  have hrow : (l.playAll acts).reservations.get? r.id = some r := by rw [h.get?_row hnew, hr]
  have hX := fun d hd => hL.explicit d hd r (Table.mem_of_get? hr)
  simp only [reconcileUnowned] at hx
  split at hx
  · next hst =>
    obtain ⟨d, w₁, h₁, rfl, rfl⟩ := runs_bind.mp hx
    obtain ⟨hw₁, rfl⟩ := runs_releaseLocked hw h₁
    rw [reconcileAction, if_pos hst]
    exact ⟨hw₁, h.absorb hids hobjs hbs rfl ⟨hrow, hst⟩ trivial
      ⟨now, r, by rw [reconcileAction, if_pos hst]⟩, _, rfl, rfl⟩
  · next hst =>
    have hsend : r.state = .sendStarted := by
      cases hs : r.state <;> simp_all [ReservationState.active]
    obtain ⟨d, w₁, h₁, rfl, rfl⟩ := runs_bind.mp hx
    obtain ⟨hw₁, rfl⟩ := runs_settleLocked hw hX hL.seen h₁
    rw [reconcileAction, if_neg hst]
    exact ⟨hw₁, h.absorb hids hobjs hbs rfl ⟨hrow, hsend, rfl⟩ trivial
      ⟨now, r, by rw [reconcileAction, if_neg hst]⟩, _, rfl, rfl⟩

/-- The bucket keys built from the scope objects of a row. -/
theorem mem_bucketKeysOf {t : Table Scope} {r : Reservation} {objs : List Scope}
    (h : t.Objects r.scopeIds objs) {p : PolicyId} {start : Time} (k : BucketKey) :
    k ∈ bucketKeysOf objs p start ↔ k ∈ ({ r with policyId := p, windowStart := start }).bucketKeys := by
  simp only [bucketKeysOf, Reservation.bucketKeys, List.mem_map]
  constructor
  · rintro ⟨y, hy, rfl⟩
    exact ⟨y.id, (h.keys y.id).mp (List.mem_map_of_mem (f := key) hy), rfl⟩
  · rintro ⟨i, hi, rfl⟩
    obtain ⟨y, hy, rfl, -⟩ := h.exists hi
    exact ⟨y, hy, rfl⟩

/-- A view still describes its row: the same scopes and policy, and the same
window as long as the row is active. -/
def Current (l : Ledger) (view : Reservation) : Prop :=
  ∀ r, l.reservations.get? view.id = some r →
    r.scopeIds = view.scopeIds ∧ r.policyId = view.policyId ∧
      (r.state.active = true → r.windowStart = view.windowStart)

theorem Pending.validated (h : Pending X G l ids x acts) (keys : List BucketKey) :
    Pending X G l ids { x with validated := keys } acts :=
  ⟨h.plays, h.only, h.count, h.scopeKeys, h.scopeMem, h.scopeIds, h.scopeElse, h.buckets, h.rows⟩

theorem runs_reconcileBuckets (hw : Sees D w l c) (h : Pending X G l ids x acts)
    {keys : List BucketKey} {y : List Bucket × Reconciliation}
    (hx : Runs schema D (reconcileBuckets x keys) w y w') :
    w = w' ∧ y.1 = (l.playAll acts).buckets.lookup keys ∧ Pending X G l ids y.2 acts ∧
      y.2.rows = x.rows := by
  obtain rfl := (readOnly_reconcileBuckets x keys).runs hx
  obtain ⟨bs, w₁, h₁, hx⟩ := runs_bind.mp hx
  obtain ⟨rfl, rfl⟩ := runs_lockExistingBuckets hw h₁
  rw [← h.buckets] at hx
  split at hx
  · obtain ⟨rfl, -⟩ := hx
    exact ⟨rfl, rfl, h, rfl⟩
  · obtain ⟨u, w₂, -, rfl, -⟩ := runs_bind.mp hx
    exact ⟨rfl, rfl, h.validated _, rfl⟩

theorem runs_reconcileRow {P : Policy → Prop} (hL : Working X D l) (hw : Sees D w l c)
    (h : Pending X (Licensed P D) l ids x acts) {known : Option Run} {now : Time}
    {view : Reservation} (hview : Current l view) (hnew : ∀ q ∈ x.rows, q.id ≠ view.id)
    (hids : ∀ r, l.reservations.get? view.id = some r → ∀ i ∈ r.scopeIds, i ∈ ids)
    (hx : Runs schema D (reconcileRow known now x view) w x' w') :
    Sees D w' l c ∧ (∀ q ∈ x'.rows, q ∈ x.rows ∨ q.id = view.id) ∧
      ∃ acts', Pending X (Licensed P D) l ids x' acts' := by
  simp only [reconcileRow] at hx
  split at hx
  · obtain ⟨u, w₁, h₁, hx⟩ := runs_bind.mp hx
    obtain ⟨-, rfl⟩ := runs_ensure.mp h₁
    obtain ⟨⟨bs, x₁⟩, w₂, h₂, hx⟩ := runs_bind.mp hx
    obtain ⟨rfl, rfl, hp, hrows⟩ := runs_reconcileBuckets hw h h₂
    have hold : ∀ q ∈ x₁.rows, q ∈ x.rows ∨ q.id = view.id := by
      rw [hrows]
      exact fun q hq => Or.inl hq
    obtain ⟨o, w₃, h₃, hx⟩ := runs_bind.mp hx
    obtain ⟨rfl, rfl⟩ := runs_lockReservation hw h₃
    split at hx
    · obtain ⟨rfl, rfl⟩ := hx
      exact ⟨hw, hold, _, hp⟩
    · next r hr =>
      have hid : r.id = view.id := Table.key_of_get? hr
      split at hx
      · next hactive =>
        obtain ⟨run, w₄, h₄, hx⟩ := runs_bind.mp hx
        obtain rfl := (readOnly_lockRunOf known r).runs h₄
        split at hx
        · obtain ⟨rfl, rfl⟩ := hx
          exact ⟨hw, hold, _, hp⟩
        · -- the row is stale: the objects at hand are those of its own scopes and window
          obtain ⟨hs, hpol, hwin⟩ := hview r hr
          have hnew' : ∀ q ∈ x₁.rows, q.id ≠ r.id := by rw [hrows, hid]; exact hnew
          have hobjs : (l.playAll acts).scopes.Objects r.scopeIds (x.rowScopes view) := by
            rw [hs]
            exact h.rowScopes (by rw [← hs]; exact hids r hr)
          have hkeys (k : BucketKey) : k ∈ (x.rowScopes view).map (fun y => view.bucketKey y.id) ↔
              k ∈ r.bucketKeys := by
            refine Iff.trans (mem_bucketKeysOf hobjs k) ?_
            rw [← hpol, ← hwin hactive]
          have hbal := hL.balanced.playAll h.plays
          rw [← hid] at hr
          have hbs := Table.objects_lookup (hbal.buckets r (Table.mem_of_get?
            ((h.get?_row (by rw [← hrows]; exact hnew')).trans hr))) hkeys
          obtain ⟨hw', hp', r', hr', hid'⟩ := runs_reconcileUnowned hL hw hp hr hactive hnew'
            (hids r (by rw [← hid]; exact hr)) hobjs hbs hx
          refine ⟨hw', fun q hq => ?_, _, hp'⟩
          rw [hr', hrows] at hq
          rcases List.mem_append.mp hq with hq | hq
          · exact Or.inl hq
          · exact Or.inr (by rw [List.mem_singleton.mp hq, hid', hid])
      · obtain ⟨rfl, rfl⟩ := hx
        exact ⟨hw, hold, _, hp⟩
  · obtain ⟨rfl, rfl⟩ := hx
    exact ⟨hw, fun q hq => Or.inl hq, _, h⟩

/-- The loop, row by row: the rows it has edited are those of the views behind
it. -/
theorem runs_reconcileLoop {P : Policy → Prop} (hL : Working X D l) {known : Option Run} {now : Time} :
    ∀ {views : List Reservation} {w : Store → Store} {x : Reconciliation} {acts : List Action},
      Sees D w l c → Pending X (Licensed P D) l ids x acts →
      (∀ v ∈ views, Current l v) → (views.map Reservation.id).Nodup →
      (∀ v ∈ views, ∀ q ∈ x.rows, q.id ≠ v.id) →
      (∀ v ∈ views, ∀ r, l.reservations.get? v.id = some r → ∀ i ∈ r.scopeIds, i ∈ ids) →
      Runs schema D (reconcileLoop known now x views) w x' w' →
      Sees D w' l c ∧ ∃ acts', Pending X (Licensed P D) l ids x' acts' := by
  intro views
  induction views with
  | nil =>
    rintro w x acts hw h - - - - ⟨rfl, rfl⟩
    exact ⟨hw, _, h⟩
  | cons view views ih =>
    intro w x acts hw h hviews hnd hnew hids hx
    obtain ⟨hfresh, hnd⟩ := List.nodup_cons.mp hnd
    obtain ⟨x₁, w₁, h₁, hx⟩ := runs_bind.mp hx
    obtain ⟨hw₁, hrows, acts₁, h₁⟩ := runs_reconcileRow hL hw h (hviews view List.mem_cons_self)
      (hnew view List.mem_cons_self) (hids view List.mem_cons_self) h₁
    refine ih hw₁ h₁ (fun v hv => hviews v (List.mem_cons_of_mem _ hv)) hnd (fun v hv q hq => ?_)
      (fun v hv => hids v (List.mem_cons_of_mem _ hv)) hx
    rcases hrows q hq with hq | hq
    · exact hnew v (List.mem_cons_of_mem _ hv) q hq
    · rw [hq]
      intro he
      exact hfresh (by rw [he]; exact List.mem_map_of_mem hv)

theorem mem_sortViews {views : List Reservation} {v : Reservation} : v ∈ sortViews views ↔ v ∈ views :=
  List.mem_insertionSort _

/-- `_reconcile_rows_locked` plays its actions and leaves the scope objects of
the ledger they lead to. -/
theorem runs_reconcileRowsLocked {P : Policy → Prop} (hL : Working X D l) (hw : Sees D w l c)
    {known : Option Run} {now : Time} {views : List Reservation} {scopes : List Scope}
    {y : (ℕ × ℕ) × List Scope} (hviews : ∀ v ∈ views, Current l v)
    (hnd : (views.map Reservation.id).Nodup) (hscopes : ∀ z ∈ scopes, z ∈ l.scopes.rows)
    (hsnd : (scopes.map Scope.id).Nodup)
    (hids : ∀ v ∈ views, ∀ r, l.reservations.get? v.id = some r →
      ∀ i ∈ r.scopeIds, i ∈ scopes.map Scope.id)
    (hx : Runs schema D (reconcileRowsLocked known views scopes now) w y w') :
    ∃ acts, l.Plays X (Licensed P D) acts ∧ (∀ a ∈ acts, Reconciles X a) ∧
      Sees D w' (l.playAll acts) c ∧ (∀ z ∈ y.2, z ∈ (l.playAll acts).scopes.rows) ∧
      y.2.map Scope.id = scopes.map Scope.id := by
  obtain ⟨u, w₁, h₁, hx⟩ := runs_bind.mp hx
  obtain rfl := (readOnly_validateScopes scopes).runs h₁
  obtain ⟨x, w₂, h₂, hx⟩ := runs_bind.mp hx
  obtain ⟨hw₂, acts, hp⟩ := runs_reconcileLoop (P := P) hL hw (Pending.start hscopes)
    (fun v hv => hviews v (mem_sortViews.mp hv))
    (((List.perm_insertionSort _ views).map Reservation.id).nodup_iff.mpr hnd)
    (fun _ _ q hq => absurd hq List.not_mem_nil) (fun v hv => hids v (mem_sortViews.mp hv)) h₂
  refine ⟨acts, hp.plays, hp.only, ?_⟩
  -- either the session flushes, or nothing has been edited
  have hflush : ∃ w₃ w₄, Sees D w₃ (l.playAll acts) c ∧
      Runs schema D (appendLeaseReconciled now x.perLease) w₃ () w₄ ∧
      y = ((x.released, x.conservative), x.scopes) ∧ w₄ = w' := by
    split at hx
    · obtain ⟨u, w₃, h₃, hx⟩ := runs_bind.mp hx
      obtain ⟨-, rfl⟩ := runs_flush.mp h₃
      obtain ⟨u, w₄, h₄, rfl, rfl⟩ := runs_bind.mp hx
      refine ⟨_, _, ?_, h₄, rfl, rfl⟩
      rw [← hp.flush hsnd]
      exact hw₂.flush x.dirty
    · next hzero =>
      obtain ⟨u, w₄, h₄, rfl, rfl⟩ := runs_bind.mp hx
      refine ⟨_, _, ?_, h₄, rfl, rfl⟩
      have hlen := hp.count
      have hnil : acts = [] := by
        apply List.eq_nil_of_length_eq_zero
        omega
      rw [hnil]
      exact hw₂
  obtain ⟨w₃, w₄, hw₃, h₄, rfl, rfl⟩ := hflush
  refine ⟨hw₃.within ?_ h₄, hp.scopeMem, hp.scopeIds⟩
  clear h₄
  induction x.perLease with
  | nil => trivial
  | cons k l ih => exact (SameBooks.event _ _ _).bind fun _ => ih

theorem nodup_lockedScopes (t : Table Scope) (is : List ScopeId) :
    ((t.lookup (orderScopes is)).map Scope.id).Nodup := by
  rw [show (t.lookup (orderScopes is)).map Scope.id = _ from t.map_key_lookup _]
  refine List.Nodup.filter _ ?_
  exact ((List.perm_insertionSort _ _).nodup_iff).mpr (List.nodup_dedup is)

theorem mem_lockedScopes {t : Table Scope} {is : List ScopeId} {i : ScopeId} :
    i ∈ (t.lookup (orderScopes is)).map Scope.id ↔ i ∈ is ∧ (t.get? i).isSome := by
  rw [show (t.lookup (orderScopes is)).map Scope.id = _ from t.map_key_lookup _, List.mem_filter,
    mem_orderScopes]

theorem Current.of_mem {r : Reservation} (h : r ∈ l.reservations.rows) : Current l r := by
  intro r' hr'
  obtain rfl : r' = r := by
    rw [show l.reservations.get? r.id = some r from Table.get?_of_mem h] at hr'
    exact (Option.some.inj hr').symm
  exact ⟨rfl, rfl, fun _ => rfl⟩

/-- The scopes of views that still describe their rows have all been locked. -/
theorem Working.scopesLocked (hL : Working X D l) {views : List Reservation} {is : List ScopeId}
    (hviews : ∀ v ∈ views, Current l v) (hsub : ∀ v ∈ views, ∀ i ∈ v.scopeIds, i ∈ is) :
    ∀ v ∈ views, ∀ r, l.reservations.get? v.id = some r →
      ∀ i ∈ r.scopeIds, i ∈ (l.scopes.lookup (orderScopes is)).map Scope.id := by
  intro v hv r hr i hi
  refine mem_lockedScopes.mpr ⟨hsub v hv i ?_, hL.balanced.scopes r (Table.mem_of_get? hr) i hi⟩
  rw [← (hviews v hv r hr).1]
  exact hi

/-- `_reconcile_stale_locked` reads its rows under the lock. -/
theorem runs_reconcileStaleLocked {P : Policy → Prop} (hL : Working X D l) (hw : Sees D w l c)
    {known : Option Run} {now : Time} {is : List ScopeId} {y : (ℕ × ℕ) × List Scope}
    (hx : Runs schema D (reconcileStaleLocked known is now) w y w') :
    ∃ acts, l.Plays X (Licensed P D) acts ∧ (∀ a ∈ acts, Reconciles X a) ∧
      Sees D w' (l.playAll acts) c ∧ (∀ z ∈ y.2, z ∈ (l.playAll acts).scopes.rows) ∧
      ∀ i ∈ is, (l.scopes.get? i).isSome → i ∈ y.2.map Scope.id := by
  obtain ⟨views, w₁, h₁, hx⟩ := runs_bind.mp hx
  obtain ⟨d, hd, rfl, rfl⟩ := runs_load.mp h₁
  obtain ⟨scopes, w₂, h₂, hx⟩ := runs_bind.mp hx
  obtain ⟨rfl, rfl⟩ := runs_lockScopesById hw h₂
  rw [activeViews, hw.ledger d hd] at hx
  have hviews : ∀ v ∈ l.reservations.rows.filter (fun r =>
      r.state.active && r.scopeIds.any fun i => decide (i ∈ is)), Current l v :=
    fun v hv => Current.of_mem (List.mem_of_mem_filter hv)
  obtain ⟨acts, hp, honly, hw', hmem, hids⟩ := runs_reconcileRowsLocked (P := P) hL hw hviews
    (l.reservations.nodup.sublist (List.filter_sublist.map _)) (fun z hz => (Table.mem_lookup.mp hz).1)
    (nodup_lockedScopes _ _)
    (hL.scopesLocked hviews fun v hv i hi =>
      List.mem_append_right _ (List.mem_flatMap.mpr ⟨v, hv, hi⟩)) hx
  refine ⟨acts, hp, honly, hw', hmem, fun i hi hsome => ?_⟩
  rw [hids]
  exact mem_lockedScopes.mpr ⟨List.mem_append_left _ hi, hsome⟩

end Loop

/-! ## Reserve -/

section Bodies

variable {X : Option RunId → Bool} {l : Ledger} {P : Policy → Prop} {A : Action → Prop}

/-- The session has played licensed actions on `l`, cursors included, and only
those of `A`. -/
def Played (P : Policy → Prop) (D : Store → Prop) (X : Option RunId → Bool) (A : Action → Prop)
    (l : Ledger) (w : Store → Store) : Prop :=
  ∃ acts, l.Plays X (Licensed P D) acts ∧ (∀ a ∈ acts, A a) ∧
    Sees D w (l.playAll acts) (cursors acts)

/-- Actions that leave the cursors alone, then others. -/
theorem Played.after {acts : List Action} (hp : l.Plays X (Licensed P D) acts)
    (hstill : ∀ a ∈ acts, a.cursor = id) (hA : ∀ a ∈ acts, A a)
    (h : Played P D X A (l.playAll acts) w) : Played P D X A l w := by
  obtain ⟨acts', hp', hA', hw⟩ := h
  refine ⟨acts ++ acts', hp.append hp', fun a ha => (List.mem_append.mp ha).elim (hA a) (hA' a), ?_⟩
  rw [Ledger.playAll_append]
  have hc : cursors (acts ++ acts') = cursors acts' := by
    funext t
    rw [cursors_append, cursors_eq_self hstill]
  rw [hc]
  exact hw

theorem Played.still {acts : List Action} (hp : l.Plays X (Licensed P D) acts)
    (hstill : ∀ a ∈ acts, a.cursor = id) (hA : ∀ a ∈ acts, A a) (h : Sees D w (l.playAll acts) id) :
    Played P D X A l w := by
  refine ⟨acts, hp, hA, ?_⟩
  rw [show cursors acts = id from funext (cursors_eq_self hstill)]
  exact h

theorem Played.nothing (h : Sees D w l id) : Played P D X A l w :=
  ⟨[], trivial, fun _ ha => absurd ha List.not_mem_nil, h⟩

/-- One action. -/
theorem Played.one (a : Action) (ha : l.Allows X a) (hlic : Licensed P D l a) (hA : A a)
    (h : Sees D w (l.playAll [a]) (cursors [a])) : Played P D X A l w :=
  ⟨[a], ⟨⟨ha, hlic⟩, trivial⟩, fun b hb => by rw [List.mem_singleton.mp hb]; exact hA, h⟩

theorem plays_openBuckets (keys : List BucketKey) :
    ∀ l : Ledger, l.Plays X (Licensed P D) (keys.map .openBucket) := by
  induction keys with
  | nil => exact fun _ => trivial
  | cons k keys ih => exact fun l => ⟨⟨trivial, trivial⟩, ih _⟩

theorem still_openBuckets (keys : List BucketKey) :
    ∀ a ∈ keys.map Action.openBucket, a.cursor = id := by
  intro a ha
  obtain ⟨k, -, rfl⟩ := List.mem_map.mp ha
  rfl

/-- Fresh buckets are there, and nothing that was there has gone. -/
theorem openBuckets_spec (keys : List BucketKey) : ∀ l : Ledger,
    (l.playAll (keys.map .openBucket)).scopes = l.scopes ∧
    (l.playAll (keys.map .openBucket)).reservations = l.reservations ∧
    (∀ b ∈ l.buckets.rows, b ∈ (l.playAll (keys.map .openBucket)).buckets.rows) ∧
    ∀ k ∈ keys, ((l.playAll (keys.map .openBucket)).buckets.get? k).isSome := by
  induction keys with
  | nil => exact fun l => ⟨rfl, rfl, fun _ hb => hb, fun _ hk => absurd hk List.not_mem_nil⟩
  | cons k keys ih =>
    intro l
    obtain ⟨hs, hr, hb, hk⟩ := ih (l.play (.openBucket k))
    refine ⟨hs, hr, fun b hm => hb b (Table.mem_insert.mpr (Or.inl hm)), fun j hj => ?_⟩
    rcases List.mem_cons.mp hj with rfl | hj
    · have hsome : ((l.play (.openBucket j)).buckets.get? j).isSome := by
        show ((l.buckets.insert (.zero j)).get? j).isSome
        rw [Table.get?_insert, if_pos (show j = key (Bucket.zero j) from rfl)]
        rfl
      obtain ⟨b, hget⟩ := Option.isSome_iff_exists.mp hsome
      have hkey : key b = j := Table.key_of_get? hget
      have hmem := Table.get?_of_mem (hb b (Table.mem_of_get? hget))
      rw [hkey] at hmem
      rw [List.map_cons, Ledger.playAll_cons, hmem]
      rfl
    · exact hk j hj

theorem findOperation_none {k : OperationKey} {s : Store} (h : (findOperation k s).isNone) :
    ∀ q ∈ s.ledger.reservations.rows, q.operationKey ≠ k := by
  rw [Option.isNone_iff_eq_none, findOperation, List.find?_eq_none] at h
  simpa using h

/-- The insert at the end of `reserve` is the action. -/
theorem runs_insertReservation {r : Reservation} {a : AttemptAmounts} {scopes : List Scope}
    {bs : List Bucket} {execution : QuestionExecution} {run : Run} {now : Time} {permit : Permit}
    (hw : Sees D w l id) (hst : r.state = .reserved)
    (ha : a = ⟨r.reservedInputTokens, r.reservedOutputTokens, r.reservedCostUsd⟩)
    (hobjs : l.scopes.Objects r.scopeIds scopes) (hbs : l.buckets.Objects r.bucketKeys bs)
    (hk : r.executionKey = some (key execution))
    (hn : execution.nextProviderAttempt = r.providerAttempt)
    (hlic : (∀ q ∈ l.reservations.rows, q.operationKey ≠ r.operationKey) →
      Licensed P D l (.reserve r)) (hA : A (.reserve r))
    (hx : Runs schema D (insertReservation r a scopes bs execution run now) w permit w') :
    Played P D X A l w' := by
  subst ha
  obtain ⟨s, w₁, h₁, hx⟩ := runs_bind.mp hx
  obtain ⟨d, hd, rfl, rfl⟩ := runs_read.mp h₁
  obtain ⟨u, w₂, h₂, hx⟩ := runs_bind.mp hx
  obtain ⟨hnone, rfl⟩ := runs_ensure.mp h₂
  obtain ⟨u, w₃, h₃, hx⟩ := runs_bind.mp hx
  obtain ⟨hfresh, rfl⟩ := runs_ensure.mp h₃
  obtain ⟨u, w₄, h₄, hx⟩ := runs_bind.mp hx
  obtain ⟨-, rfl⟩ := runs_flush.mp h₄
  obtain ⟨u, w₅, h₅, hx⟩ := runs_bind.mp hx
  obtain ⟨u, w₆, h₆, -, rfl⟩ := runs_bind.mp hx
  obtain ⟨-, rfl⟩ := runs_flush.mp h₆
  have hfresh := findOperation_none hfresh
  rw [hw.ledger d hd] at hfresh hnone
  have hw₄ : Sees D ((fun s => { s with ledger :=
      { s.ledger with reservations := s.ledger.reservations.insert r } }) ∘ w)
      { l with reservations := l.reservations.insert r } id :=
    ⟨fun d hd => by rw [← hw.ledger d hd]; rfl, hw.executions, hw.runs, hw.policies⟩
  have hw₅ := hw₄.within (SameBooks.event _ _ _) h₅
  refine .one (.reserve r) ⟨Option.isNone_iff_eq_none.mp hnone, hst, fun i hi => ?_, fun k hk => ?_⟩
    (hlic hfresh) hA ?_
  · obtain ⟨y, -, -, hy⟩ := hobjs.exists hi
    rw [hy]
    rfl
  · obtain ⟨b, -, -, hb⟩ := hbs.exists hk
    rw [hb]
    rfl
  · have hw₆ := (hw₅.flush ⟨scopes.map (Scope.reserve r.reservedInputTokens r.reservedOutputTokens
        r.reservedCostUsd), bs.map (Bucket.reserve r.reservedInputTokens r.reservedOutputTokens),
        []⟩).setExecution (key execution)
      (fun x => { x with nextProviderAttempt := execution.nextProviderAttempt + 1 }) fun _ => rfl
    have hledger : l.playAll [.reserve r] = ⟨l.scopes.putAll (scopes.map
        (Scope.reserve r.reservedInputTokens r.reservedOutputTokens r.reservedCostUsd)),
        l.buckets.putAll (bs.map (Bucket.reserve r.reservedInputTokens r.reservedOutputTokens)),
        l.reservations.insert r⟩ := by
      rw [hobjs.putAll _ (Scope.key_reserve _ _ _), hbs.putAll _ (Bucket.key_reserve _ _)]
      rfl
    have hcursor : cursors [.reserve r] = fun t => t.updateAt [key execution]
        (fun x => { x with nextProviderAttempt := execution.nextProviderAttempt + 1 })
        fun _ => rfl := by
      funext t
      show atCursor r (advanced r) _ t = _
      simp only [atCursor, hk]
      rw [hn]
      rfl
    rw [hledger, hcursor]
    exact hw₆

theorem runs_replayReservation {c : Governance.AttemptContext} {attempt : ℕ} {owner : Owner} {permit : Permit}
    (hx : Runs schema D (replayReservation c attempt owner) w permit w') : w = w' := by
  obtain ⟨d, -, hx⟩ := runs_query.mp hx
  split at hx
  · exact hx.elim
  · split at hx
    · exact hx.2
    · exact hx.elim

theorem runs_ofExcept {x : Except Err α} {a : α} (h : Runs schema D (Tx.ofExcept x) w a w') :
    x = .ok a ∧ w = w' := by
  rcases x with e | b
  · exact h.elim
  · obtain ⟨rfl, rfl⟩ := h
    exact ⟨rfl, rfl⟩

theorem runs_reserveOwned {rid : ReservationId} {c : Governance.AttemptContext} {attempt : ℕ} {owner : Owner}
    {now : Time} {a : AttemptAmounts} {policy : Policy} {scopes : List Scope} {bs : List Bucket}
    {execution : QuestionExecution} {run : Run} {permit : Permit} (hw : Sees D w l id)
    (hpos : 1 ≤ attempt) (hpolicy : P policy) (hobjs : l.scopes.Objects (attemptScopes c) scopes)
    (hbs : l.buckets.Objects
      (newReservation rid c attempt owner policy.id run (minuteStart now) a).bucketKeys bs)
    (hexec : ∃ d, D d ∧ d.executions.get? ⟨c.runId, c.questionId⟩ = some execution)
    (hrun : ∃ d, D d ∧ d.runs.get? c.runId = some run)
    (hfence : fenced (some owner) (some c.leaseToken) now run = true)
    (hA : A (.reserve (newReservation rid c attempt owner policy.id run (minuteStart now) a)))
    (hx : Runs schema D
      (reserveOwned rid c attempt owner now a policy scopes bs execution run) w permit w') :
    Played P D X A l w' := by
  obtain ⟨d, hd, hexec⟩ := hexec
  obtain ⟨d', hd', hrun⟩ := hrun
  have hkey : key execution = ⟨c.runId, c.questionId⟩ := Table.key_of_get? hexec
  have hid : run.id = c.runId := Table.key_of_get? hrun
  obtain ⟨u, w₁, h₁, hx⟩ := runs_bind.mp hx
  obtain ⟨hsnap, rfl⟩ := runs_ensure.mp h₁
  split at hx
  · exact hx.elim
  · next o ho =>
    split at hx
    · obtain rfl := runs_replayReservation hx
      exact .nothing hw
    · next hcur =>
      rw [not_or, not_not, not_not] at hcur
      obtain ⟨u, w₂, h₂, hx⟩ := runs_bind.mp hx
      obtain ⟨hle, rfl⟩ := runs_ensure.mp h₂
      obtain ⟨u, w₃, h₃, hx⟩ := runs_bind.mp hx
      obtain ⟨hlim, rfl⟩ := runs_ofExcept h₃
      refine runs_insertReservation
        (r := newReservation rid c attempt owner policy.id run (minuteStart now) a) hw rfl rfl hobjs
        hbs (by rw [hkey]; rfl) hcur.2 (fun hfresh => ?_) hA hx
      simp only [snapshotMatches, Bool.and_eq_true, Option.any_eq_true_iff_get] at hsnap
      obtain ⟨⟨-, hsome, hg⟩, -⟩ := hsnap
      refine ⟨run, policy, o, now, ?_⟩
      exact {
        seenPolicy := hpolicy
        policyId := rfl
        seenRun := ⟨d', hd', by rw [hid]; exact hrun⟩
        question := ⟨c.questionId, by rw [hid]; rfl⟩
        global := rfl
        blank := ⟨rfl, rfl⟩
        fence := hfence
        snapshot := ⟨_, (Option.some_get hsome).symm, of_decide_eq_true hg.1⟩
        frozen := ho
        attempt := ⟨hpos, of_decide_eq_true hle⟩
        cursor := ⟨d, hd, _, execution, rfl, hexec, hcur.1, hcur.2⟩
        fresh := hfresh
        limits := ⟨scopes, bs, hobjs, hbs, hlim⟩ }

theorem runs_reserveLocked {rid : ReservationId} {c : Governance.AttemptContext} {attempt : ℕ} {owner : Owner}
    {now : Time} {a : AttemptAmounts} {policy : Policy} {scopes : List Scope} {permit : Permit}
    (hw : Sees D w l id) (hpos : 1 ≤ attempt) (hpolicy : P policy)
    (hobjs : l.scopes.Objects (attemptScopes c) scopes) (hopen : ∀ k, A (.openBucket k))
    (hA : ∀ run, A (.reserve (newReservation rid c attempt owner policy.id run (minuteStart now) a)))
    (hx : Runs schema D (reserveLocked rid c attempt owner now a policy scopes) w permit w') :
    Played P D X A l w' := by
  obtain ⟨bs, w₁, h₁, hx⟩ := runs_bind.mp hx
  obtain ⟨hw₁, rfl⟩ := runs_lockBuckets hw h₁
  obtain ⟨hs, hr, -, hthere⟩ :=
    openBuckets_spec (bucketKeysOf scopes policy.id (minuteStart now)) l
  refine Played.after (plays_openBuckets (bucketKeysOf scopes policy.id (minuteStart now)) l)
    (still_openBuckets _) (List.forall_mem_map.mpr fun k _ => hopen k) ?_
  obtain ⟨u, w₂, h₂, hx⟩ := runs_bind.mp hx
  obtain rfl := (readOnly_validateBuckets _).runs h₂
  obtain ⟨s, w₃, h₃, hx⟩ := runs_bind.mp hx
  obtain ⟨d, hd, rfl, rfl⟩ := runs_forUpdate.mp h₃
  obtain ⟨s, w₄, h₄, hx⟩ := runs_bind.mp hx
  obtain ⟨d', hd', rfl, rfl⟩ := runs_forUpdate.mp h₄
  split at hx
  · exact hx.elim
  · next run hrun =>
    obtain ⟨hrun, hfence⟩ := Option.filter_eq_some_iff.mp hrun
    split at hx
    · exact hx.elim
    · next execution hexec =>
      rw [hw₁.executions d hd] at hexec
      rw [hw₁.runs d' hd'] at hrun
      have hkeys (k : BucketKey) : k ∈ bucketKeysOf scopes policy.id (minuteStart now) ↔
          k ∈ (newReservation rid c attempt owner policy.id run (minuteStart now) a).bucketKeys :=
        mem_bucketKeysOf
          (r := newReservation rid c attempt owner policy.id run (minuteStart now) a) hobjs k
      refine runs_reserveOwned hw₁ hpos hpolicy (by rw [hs]; exact hobjs) ?_ ⟨d, hd, hexec⟩
        ⟨d', hd', hrun⟩ hfence (hA run) hx
      exact Table.objects_lookup (fun k hk => hthere k ((hkeys k).mpr hk)) hkeys

/-- `reserve` from the lock on its scopes on. -/
def reserveFrom (known : Option Run) (rid : ReservationId) (c : Governance.AttemptContext) (attempt : ℕ)
    (owner : Owner) (now : Time) (a : AttemptAmounts) (policy : Policy) : Tx Permit := do
  let _ ← lockScopesById (attemptScopes c)
  let (_, scopes) ← reconcileStaleLocked known (attemptScopes c) now
  reserveLocked rid c attempt owner now a policy
    (scopes.filter fun x => decide (x.id ∈ attemptScopes c))

theorem runs_reserveFrom {known : Option Run} {rid : ReservationId} {c : Governance.AttemptContext}
    {attempt : ℕ} {owner : Owner} {now : Time} {a : AttemptAmounts} {policy : Policy}
    {permit : Permit} (hL : Working X D l) (hw : Sees D w l id) (hpos : 1 ≤ attempt)
    (hpolicy : P policy) (hscopes : ∀ i ∈ attemptScopes c, (l.scopes.get? i).isSome)
    (hrec : ∀ a, Reconciles X a → A a) (hopen : ∀ k, A (.openBucket k))
    (hA : ∀ run, A (.reserve (newReservation rid c attempt owner policy.id run (minuteStart now) a)))
    (hx : Runs schema D (reserveFrom known rid c attempt owner now a policy) w permit w') :
    Played P D X A l w' := by
  obtain ⟨_, w₁, h₁, hx⟩ := runs_bind.mp hx
  obtain ⟨rfl, -⟩ := runs_lockScopesById hw h₁
  obtain ⟨⟨n, scopes⟩, w₂, h₂, hx⟩ := runs_bind.mp hx
  obtain ⟨acts, hp, honly, hw₂, hmem, hids⟩ := runs_reconcileStaleLocked (P := P) hL hw h₂
  refine Played.after hp (fun a ha => (honly a ha).still) (fun a ha => hrec a (honly a ha))
    (runs_reserveLocked hw₂ hpos hpolicy ⟨?_, fun i => ?_⟩ hopen hA hx)
  · intro z hz
    exact hmem z (List.mem_of_mem_filter hz)
  · rw [List.mem_map]
    constructor
    · rintro ⟨z, hz, rfl⟩
      exact of_decide_eq_true (List.mem_filter.mp hz).2
    · intro hi
      obtain ⟨z, hz, rfl⟩ := List.mem_map.mp (hids i hi (hscopes i hi))
      exact ⟨z, List.mem_filter.mpr ⟨hz, decide_eq_true hi⟩, rfl⟩

/-! ## Reconciliation of a lease -/

/-- `reconcile_run_lease` from the rows it has read on. -/
def reconcileFrom (views : List Reservation) (now : Time) : Tx (ℕ × ℕ) := do
  let scopes ← lockScopesById (views.flatMap Reservation.scopeIds)
  let (counts, _) ← reconcileRowsLocked none views scopes now
  return counts

theorem runs_reconcileFrom {views : List Reservation} {now : Time} {n : ℕ × ℕ}
    (hL : Working X D l) (hw : Sees D w l id) (hviews : ∀ v ∈ views, Current l v)
    (hnd : (views.map Reservation.id).Nodup) (hrec : ∀ a, Reconciles X a → A a)
    (hx : Runs schema D (reconcileFrom views now) w n w') : Played P D X A l w' := by
  obtain ⟨scopes, w₁, h₁, hx⟩ := runs_bind.mp hx
  obtain ⟨rfl, rfl⟩ := runs_lockScopesById hw h₁
  obtain ⟨y, w₂, h₂, -, rfl⟩ := runs_bind.mp hx
  obtain ⟨acts, hp, honly, hw₂, -, -⟩ := runs_reconcileRowsLocked (P := P) hL hw hviews hnd
    (fun z hz => (Table.mem_lookup.mp hz).1) (nodup_lockedScopes _ _)
    (hL.scopesLocked hviews fun v hv i hi => List.mem_flatMap.mpr ⟨v, hv, hi⟩) h₂
  exact .still hp (fun a ha => (honly a ha).still) (fun a ha => hrec a (honly a ha)) hw₂

/-! ## Send -/

/-- A view that described its row before the row was sent: the same scopes and
policy, and the same window as long as the row is RESERVED. -/
def Held (l : Ledger) (view : Reservation) : Prop :=
  ∀ r, l.reservations.get? view.id = some r →
    r.scopeIds = view.scopeIds ∧ r.policyId = view.policyId ∧
      (r.state = .reserved → r.windowStart = view.windowStart)

theorem Current.held {view : Reservation} (h : Current l view) : Held l view := by
  intro r hr
  obtain ⟨hs, hp, hwin⟩ := h r hr
  exact ⟨hs, hp, fun hst => hwin (by rw [hst]; rfl)⟩

/-- The edits of `mark_send_started` are the action. -/
theorem runs_startSend {r : Reservation} {scopes : List Scope} {old new : List Bucket} {moved : Bool}
    {owner : Owner} {sendWindow now : Time} {u : Unit} (hw : Sees D w l id)
    (hr : l.reservations.get? r.id = some r) (hst : r.state = .reserved)
    (hmoved : moved = decide (sendWindow ≠ r.windowStart))
    (hobjs : l.scopes.Objects r.scopeIds scopes) (hold : l.buckets.Objects r.bucketKeys old)
    (hnew : l.buckets.Objects (r.sent now sendWindow).bucketKeys new)
    (hlic : Licensed P D l (.send r now sendWindow)) (hA : A (.send r now sendWindow))
    (hx : Runs schema D (startSend r scopes old new moved owner sendWindow now) w u w') :
    Played P D X A l w' := by
  obtain ⟨_, w₁, h₁, hx⟩ := runs_bind.mp hx
  have hw₁ := hw.within (SameBooks.event _ _ _) h₁
  obtain ⟨-, rfl⟩ := runs_flush.mp hx
  have hbuckets : l.buckets.putAll (sendBuckets r old new moved) =
      sendWindows r now sendWindow l.buckets := by
    by_cases hwin : sendWindow = r.windowStart
    · rw [hmoved, hwin, decide_eq_false (not_not.mpr rfl)]
      simp only [sendBuckets, sendWindows, Bool.false_eq_true, if_false, if_true]
      exact hold.putAll _ Bucket.key_sendStarted
    · -- the buckets the row comes to are not among those it leaves
      rw [hmoved, decide_eq_true hwin]
      simp only [sendBuckets, sendWindows, if_true, if_neg hwin]
      rw [Table.putAll_append, hold.putAll _ (Bucket.key_sendLeft r)]
      refine Table.Objects.putAll ⟨fun b hb => ?_, hnew.keys⟩ _ (Bucket.key_sendArrived r)
      refine (Table.mem_updateAt (f := Bucket.sendLeft r) (Bucket.key_sendLeft r)).mpr
        ⟨b, hnew.mem b hb, if_neg fun hk => ?_⟩
      have hkb := (hnew.keys (key b)).mp (List.mem_map_of_mem hb)
      obtain ⟨i, -, hi⟩ := List.mem_map.mp hkb
      obtain ⟨j, -, hj⟩ := List.mem_map.mp hk
      rw [← hi] at hj
      exact hwin (congrArg BucketKey.windowStart hj).symm
  refine .one (.send r now sendWindow) ⟨hr, hst, fun k hk => ?_⟩ hlic hA ?_
  · obtain ⟨b, -, -, hb⟩ := hnew.exists hk
    rw [hb]
    rfl
  · have hw₂ := hw₁.flush ⟨scopes.map Scope.sendStarted, sendBuckets r old new moved,
      [r.sent now sendWindow]⟩
    have hledger : l.playAll [.send r now sendWindow] = ⟨l.scopes.putAll (scopes.map Scope.sendStarted),
        l.buckets.putAll (sendBuckets r old new moved),
        l.reservations.putAll [r.sent now sendWindow]⟩ := by
      rw [hobjs.putAll _ Scope.key_sendStarted, hbuckets]
      rfl
    have hflush := hw₂.cursor r (firstAttempt now) fun _ => rfl
    rw [hledger]
    refine hflush.same fun d => ?_
    simp only [Function.comp_apply, markFirstAttempt_eq]
    exact .refl _

theorem runs_lockRunOf (hw : Sees D w l id) {r : Reservation} {run : Option Run}
    (hx : Runs schema D (lockRunOf none r) w run w') :
    w = w' ∧ ∀ q, run = some q → ∃ d, D d ∧ r.runId = some q.id ∧ d.runs.get? q.id = some q := by
  obtain rfl := (readOnly_lockRunOf none r).runs hx
  refine ⟨rfl, fun q hq => ?_⟩
  subst hq
  simp only [lockRunOf] at hx
  split at hx
  · cases hx.1
  · next id hid =>
    obtain ⟨s, w₁, h₁, hq, -⟩ := runs_bind.mp hx
    obtain ⟨d, hd, rfl, rfl⟩ := runs_forUpdate.mp h₁
    rw [hw.runs d hd] at hq
    have hget : d.runs.get? id = some q := by simpa using hq
    have hqid : q.id = id := Table.key_of_get? hget
    exact ⟨d, hd, by rw [hid, hqid], by rw [hqid]; exact hget⟩

/-- `mark_send_started` once its row is locked. -/
theorem runs_sendLocked {r : Reservation} {scopes : List Scope} {old new : List Bucket} {moved : Bool}
    {owner : Owner} {now : Time} {u : Unit} (hw : Sees D w l id)
    (hr : l.reservations.get? r.id = some r) (hobjs : l.scopes.Objects r.scopeIds scopes)
    (hlate : r.state = .reserved → r.windowStart ≤ minuteStart now)
    (hmoved : r.state = .reserved → moved = decide (minuteStart now ≠ r.windowStart))
    (hold : r.state = .reserved → l.buckets.Objects r.bucketKeys old)
    (hnew : r.state = .reserved →
      l.buckets.Objects (r.sent now (minuteStart now)).bucketKeys new)
    (hA : A (.send r now (minuteStart now)))
    (hx : Runs schema D (sendLocked cfg r scopes old new moved owner now) w u w') :
    Played P D X A l w' := by
  obtain ⟨_, w₁, h₁, hx⟩ := runs_bind.mp hx
  obtain ⟨hactive, rfl⟩ := runs_ensure.mp h₁
  obtain ⟨s, w₂, h₂, hx⟩ := runs_bind.mp hx
  obtain ⟨d, hd, rfl, rfl⟩ := runs_read.mp h₂
  split at hx
  · exact hx.elim
  · next policy hpolicy =>
    rw [hw.policies d hd] at hpolicy
    obtain ⟨_, w₃, h₃, hx⟩ := runs_bind.mp hx
    obtain ⟨-, rfl⟩ := runs_ensure.mp h₃
    obtain ⟨run, w₄, h₄, hx⟩ := runs_bind.mp hx
    obtain ⟨rfl, hrun⟩ := runs_lockRunOf hw h₄
    obtain ⟨_, w₅, h₅, hx⟩ := runs_bind.mp hx
    obtain ⟨hfence, rfl⟩ := runs_ensure.mp h₅
    have hq : ∃ q, run = some q ∧ fenced (some owner) r.leaseToken now q = true := by
      cases run with
      | none => cases hfence
      | some q => exact ⟨q, rfl, hfence⟩
    obtain ⟨q, hq, hfence⟩ := hq
    split at hx
    · obtain ⟨-, rfl⟩ := hx
      exact .nothing hw
    · next hne =>
      have hst : r.state = .reserved := by
        cases hs : r.state <;> simp_all [ReservationState.active]
      -- the window checks are made when the row leaves its window
      have hcheck : ∃ w₆, (moved = true → checkWindowLimits policy.limits scopes new
          (amount r.reservedInputTokens + amount r.reservedOutputTokens) now = .ok ()) ∧ w = w₆ ∧
          Runs schema D (startSend r scopes old new moved owner (minuteStart now) now) w₆ u w' := by
        simp only [sendOwned] at hx
        split at hx
        · obtain ⟨_, w₆, h₆, hx⟩ := runs_bind.mp hx
          obtain ⟨hok, rfl⟩ := runs_ofExcept h₆
          exact ⟨_, fun _ => hok, rfl, hx⟩
        · next hm => exact ⟨_, fun h => absurd h hm, rfl, hx⟩
      obtain ⟨w₆, hok, rfl, hx⟩ := hcheck
      refine runs_startSend hw hr hst (hmoved hst) hobjs (hold hst) (hnew hst)
        ⟨rfl, hlate hst, q, policy, ⟨d, hd, hpolicy⟩, hrun q hq, ⟨owner, hfence⟩, fun hwin => ?_⟩ hA hx
      refine ⟨scopes, new, hobjs, hnew hst, hok ?_⟩
      rw [hmoved hst]
      exact decide_eq_true hwin

/-- `mark_send_started` from the row it has read on. -/
def sendFrom (cfg : Config) (rid : ReservationId) (view : Reservation) (owner : Owner)
    (now : Time) : Tx Unit := do
  let scopes ← lockScopesById view.scopeIds
  let old ← lockExistingBuckets (bucketKeysOf scopes view.policyId view.windowStart) []
  Prog.ensure (decide (view.windowStart ≤ minuteStart now)) (.integrity .databaseClockReversed)
  let new ← lockSendBuckets scopes old view (minuteStart now)
  validateScopeMaterializationLocked scopes
  validateBucketMaterializationLocked (old ++ new)
  match ← lockReservation rid with
  | none => Prog.raise (.integrity .reservationMissing)
  | some r =>
    sendLocked cfg r scopes old new (decide (minuteStart now ≠ view.windowStart)) owner now

theorem runs_sendFrom {view : Reservation} {owner : Owner} {now : Time} {u : Unit}
    (hL : Working X D l) (hw : Sees D w l id) (hview : Held l view)
    (hopen : ∀ k, A (.openBucket k))
    (hA : ∀ r : Reservation, r.id = view.id → A (.send r now (minuteStart now)))
    (hx : Runs schema D (sendFrom cfg view.id view owner now) w u w') : Played P D X A l w' := by
  obtain ⟨scopes, w₁, h₁, hx⟩ := runs_bind.mp hx
  obtain ⟨rfl, rfl⟩ := runs_lockScopesById hw h₁
  obtain ⟨old, w₂, h₂, hx⟩ := runs_bind.mp hx
  obtain ⟨rfl, rfl⟩ := runs_lockExistingBuckets hw h₂
  obtain ⟨_, w₃, h₃, hx⟩ := runs_bind.mp hx
  obtain ⟨hlate, rfl⟩ := runs_ensure.mp h₃
  obtain ⟨new, w₄, h₄, hx⟩ := runs_bind.mp hx
  -- the buckets of the current minute, opened when the row is to leave its window
  obtain ⟨keys, hw₄, hnew⟩ : ∃ keys : List BucketKey,
      Sees D w₄ (l.playAll (keys.map .openBucket)) id ∧
      (if minuteStart now ≠ view.windowStart then
        keys = bucketKeysOf (l.scopes.lookup (orderScopes view.scopeIds)) view.policyId
          (minuteStart now) ∧ new = (l.playAll (keys.map .openBucket)).buckets.lookup keys
      else keys = [] ∧ new = l.buckets.lookup
        (bucketKeysOf (l.scopes.lookup (orderScopes view.scopeIds)) view.policyId
          view.windowStart)) := by
    simp only [lockSendBuckets] at h₄
    split at h₄
    · next hm =>
      obtain ⟨hw₄, rfl⟩ := runs_lockBuckets hw h₄
      exact ⟨_, hw₄, by rw [if_pos hm]; exact ⟨rfl, rfl⟩⟩
    · next hm =>
      obtain ⟨rfl, rfl⟩ := h₄
      exact ⟨[], hw, by rw [if_neg hm]; exact ⟨rfl, rfl⟩⟩
  refine Played.after (plays_openBuckets keys l) (still_openBuckets keys)
    (List.forall_mem_map.mpr fun k _ => hopen k) ?_
  obtain ⟨hscopes, hrows, hkept, hthere⟩ := openBuckets_spec keys l
  obtain ⟨_, w₅, h₅, hx⟩ := runs_bind.mp hx
  obtain rfl := (readOnly_validateScopes _).runs h₅
  obtain ⟨_, w₆, h₆, hx⟩ := runs_bind.mp hx
  obtain rfl := (readOnly_validateBuckets _).runs h₆
  obtain ⟨o, w₇, h₇, hx⟩ := runs_bind.mp hx
  obtain ⟨rfl, rfl⟩ := runs_lockReservation hw₄ h₇
  split at hx
  · exact hx.elim
  · next r hr =>
    have hid : r.id = view.id := Table.key_of_get? hr
    rw [hrows] at hr
    obtain ⟨hs, hp, hwin⟩ := hview r hr
    rw [← hid] at hr
    have hobjs : l.scopes.Objects r.scopeIds (l.scopes.lookup (orderScopes view.scopeIds)) :=
      Table.objects_lookup (hL.balanced.scopes r (Table.mem_of_get? hr))
        (fun i => by rw [mem_orderScopes, hs])
    have hkeys (start : Time) (k : BucketKey) :
        k ∈ bucketKeysOf (l.scopes.lookup (orderScopes view.scopeIds)) view.policyId start ↔
          k ∈ (r.sent now start).bucketKeys := by
      rw [← hp]
      exact mem_bucketKeysOf hobjs k
    refine runs_sendLocked hw₄ (by rw [hrows]; exact hr) (by rw [hscopes]; exact hobjs)
      (fun hst => by rw [hwin hst]; exact of_decide_eq_true hlate)
      (fun hst => by rw [hwin hst]) (fun hst => ?_) (fun hst => ?_) (hA r hid) hx
    · -- opening buckets has not touched the old ones
      have hold : l.buckets.Objects r.bucketKeys (l.buckets.lookup (bucketKeysOf
          (l.scopes.lookup (orderScopes view.scopeIds)) view.policyId view.windowStart)) := by
        refine Table.objects_lookup (hL.balanced.buckets r (Table.mem_of_get? hr)) fun k => ?_
        rw [← hwin hst]
        exact hkeys _ k
      exact ⟨fun b hb => hkept b (hold.mem b hb), hold.keys⟩
    · by_cases hm : minuteStart now ≠ view.windowStart
      · rw [if_pos hm] at hnew
        obtain ⟨rfl, rfl⟩ := hnew
        exact Table.objects_lookup (fun k hk => hthere k ((hkeys _ k).mpr hk)) (hkeys _)
      · rw [if_neg hm] at hnew
        obtain ⟨rfl, rfl⟩ := hnew
        rw [not_not] at hm
        refine Table.objects_lookup (fun k hk => ?_) (fun k => by rw [hm]; exact hkeys _ k)
        refine hL.balanced.buckets r (Table.mem_of_get? hr) k ?_
        rw [hm, ← hwin hst] at hk
        exact hk

/-! ## Finish -/

theorem runs_restartQuestionExecution (hw : Sees D w l id) (hD : ∃ d, D d) {r : Reservation} {u : Unit}
    (hx : Runs schema D (restartQuestionExecutionAfterPreSendLocked r) w u w') :
    w = w' ∧ ∃ d, D d ∧ ∀ k, r.executionKey = some k → ∃ x, d.executions.get? k = some x ∧
      x.executionGeneration = r.executionGeneration ∧
      x.nextProviderAttempt = r.providerAttempt + 1 := by
  simp only [restartQuestionExecutionAfterPreSendLocked] at hx
  split at hx
  · next hn =>
    obtain ⟨d, hd⟩ := hD
    exact ⟨hx.2, d, hd, fun k hk => by rw [hn] at hk; cases hk⟩
  · next k hk =>
    obtain ⟨s, w₁, h₁, hx⟩ := runs_bind.mp hx
    obtain ⟨d, hd, rfl, rfl⟩ := runs_forUpdate.mp h₁
    split at hx
    · exact hx.elim
    · next x hget =>
      obtain ⟨hcur, rfl⟩ := runs_ensure.mp hx
      rw [hw.executions d hd] at hget
      refine ⟨rfl, d, hd, fun k' hk' => ⟨x, ?_, of_decide_eq_true hcur⟩⟩
      obtain rfl : k = k' := Option.some.inj (hk.symm.trans hk')
      exact hget

/-- What `finish` does with an active row, its reported amounts validated. -/
def finishAction (X : Option RunId → Bool) (f : FinishReport) (inputTokens outputTokens cost : Option ℕ)
    (now : Time) (r : Reservation) : Action :=
  if f.disposition = .releasedPreSend then .release r now false
  else
    let conservative := decide (f.disposition = .settledConservative)
    .settle r (r.settlement inputTokens outputTokens (if conservative then none else cost))
      (X r.runId) now f.outcome (conservative || false || inputTokens.isNone || outputTokens.isNone)

/-- The flush of settled objects is the action. -/
theorem played_settle {r : Reservation} {v : Settlement} {scopes : List Scope} {bs : List Bucket}
    {now : Time} {outcome : Outcome} {conservative : Bool} (hw : Sees D w l id)
    (hr : l.reservations.get? r.id = some r) (hst : r.state = .sendStarted)
    (hobjs : l.scopes.Objects r.scopeIds scopes) (hbs : l.buckets.Objects r.bucketKeys bs)
    (hA : A (.settle r v (X r.runId) now outcome conservative)) :
    Played P D X A l (Dirty.flush ⟨scopes.map (Scope.settle r v (X r.runId)),
      bs.map (Bucket.settle r v), [r.settledAs v now outcome conservative]⟩ ∘ w) := by
  refine .one (.settle r v (X r.runId) now outcome conservative) ⟨hr, hst, rfl⟩ trivial hA ?_
  have hledger : l.playAll [.settle r v (X r.runId) now outcome conservative] =
      ⟨l.scopes.putAll (scopes.map (Scope.settle r v (X r.runId))),
        l.buckets.putAll (bs.map (Bucket.settle r v)),
        l.reservations.putAll [r.settledAs v now outcome conservative]⟩ := by
    rw [hobjs.putAll _ (Scope.key_settle r v _), hbs.putAll _ (Bucket.key_settle r v)]
    rfl
  rw [hledger]
  exact hw.flush _

/-- `finish` once its row is locked. -/
theorem runs_finishLocked {r : Reservation} {scopes : List Scope} {bs : List Bucket}
    {f : FinishReport} {i o m : Option ℕ} {now : Time} {u : Unit} (hL : Working X D l)
    (hw : Sees D w l id) (hr : l.reservations.get? r.id = some r)
    (hobjs : l.scopes.Objects r.scopeIds scopes)
    (hbs : r.state.active = true → l.buckets.Objects r.bucketKeys bs)
    (hA : A (finishAction X f i o m now r))
    (hx : Runs schema D (finishLocked r scopes bs f i o m now) w u w') : Played P D X A l w' := by
  simp only [finishLocked] at hx
  split at hx
  · obtain ⟨-, rfl⟩ := hx
    exact .nothing hw
  · next hactive =>
    have hbs := hbs (not_not.mp hactive)
    split at hx
    · next hdisp =>
      rw [finishAction, if_pos hdisp] at hA
      obtain ⟨_, w₁, h₁, hx⟩ := runs_bind.mp hx
      obtain ⟨hst, rfl⟩ := runs_ensure.mp h₁
      obtain ⟨_, w₂, h₂, hx⟩ := runs_bind.mp hx
      obtain ⟨rfl, hcur⟩ := runs_restartQuestionExecution hw hL.seen h₂
      obtain ⟨x, w₃, h₃, hx⟩ := runs_bind.mp hx
      obtain ⟨hw₃, rfl⟩ := runs_releaseLocked hw h₃
      obtain ⟨-, rfl⟩ := runs_flush.mp hx
      refine .one (.release r now false) ⟨hr, of_decide_eq_true hst⟩ hcur hA ?_
      have hledger : l.playAll [.release r now false] =
          ⟨l.scopes.putAll (scopes.map (Scope.release r)),
            l.buckets.putAll (bs.map (Bucket.release r)),
            l.reservations.putAll [r.released now false]⟩ := by
        rw [hobjs.putAll _ (Scope.key_release r), hbs.putAll _ (Bucket.key_release r)]
        rfl
      rw [hledger]
      have hflush := (hw₃.flush ⟨scopes.map (Scope.release r), bs.map (Bucket.release r),
        [r.released now false]⟩).cursor r (restarted r) fun _ => rfl
      refine hflush.same fun d => ?_
      simp only [Function.comp_apply, restartExecution_eq]
      exact .refl _
    · next hdisp =>
      rw [finishAction, if_neg hdisp] at hA
      obtain ⟨_, w₁, h₁, hx⟩ := runs_bind.mp hx
      obtain ⟨hst, rfl⟩ := runs_ensure.mp h₁
      obtain ⟨x, w₂, h₂, hx⟩ := runs_bind.mp hx
      obtain ⟨hw₂, rfl⟩ := runs_settleLocked hw
        (fun d hd => hL.explicit d hd r (Table.mem_of_get? hr)) hL.seen h₂
      obtain ⟨-, rfl⟩ := runs_flush.mp hx
      exact played_settle hw₂ hr (of_decide_eq_true hst) hobjs hbs hA

/-- `finish` from the row it has read on. -/
def finishFrom (rid : ReservationId) (view : Reservation) (f : FinishReport)
    (inputTokens outputTokens cost : Option ℕ) (now : Time) : Tx Unit := do
  let scopes ← lockScopesById view.scopeIds
  let buckets ← lockExistingBuckets (bucketKeysOf scopes view.policyId view.windowStart) []
  validateScopeMaterializationLocked scopes
  validateBucketMaterializationLocked buckets
  match ← lockReservation rid with
  | none => Prog.raise (.integrity .reservationMissing)
  | some r => finishLocked r scopes buckets f inputTokens outputTokens cost now

theorem runs_finishFrom {view : Reservation} {f : FinishReport} {i o m : Option ℕ} {now : Time}
    {u : Unit} (hL : Working X D l) (hw : Sees D w l id) (hview : Current l view)
    (hA : ∀ r : Reservation, r.id = view.id → A (finishAction X f i o m now r))
    (hx : Runs schema D (finishFrom view.id view f i o m now) w u w') : Played P D X A l w' := by
  obtain ⟨scopes, w₁, h₁, hx⟩ := runs_bind.mp hx
  obtain ⟨rfl, rfl⟩ := runs_lockScopesById hw h₁
  obtain ⟨bs, w₂, h₂, hx⟩ := runs_bind.mp hx
  obtain ⟨rfl, rfl⟩ := runs_lockExistingBuckets hw h₂
  obtain ⟨_, w₃, h₃, hx⟩ := runs_bind.mp hx
  obtain rfl := (readOnly_validateScopes _).runs h₃
  obtain ⟨_, w₄, h₄, hx⟩ := runs_bind.mp hx
  obtain rfl := (readOnly_validateBuckets _).runs h₄
  obtain ⟨q, w₅, h₅, hx⟩ := runs_bind.mp hx
  obtain ⟨rfl, rfl⟩ := runs_lockReservation hw h₅
  split at hx
  · exact hx.elim
  · next r hr =>
    have hid : r.id = view.id := Table.key_of_get? hr
    obtain ⟨hs, hp, hwin⟩ := hview r hr
    rw [← hid] at hr
    have hobjs : l.scopes.Objects r.scopeIds (l.scopes.lookup (orderScopes view.scopeIds)) :=
      Table.objects_lookup (hL.balanced.scopes r (Table.mem_of_get? hr))
        (fun i => by rw [mem_orderScopes, hs])
    refine runs_finishLocked hL hw hr hobjs (fun hactive => ?_) (hA r hid) hx
    refine Table.objects_lookup (hL.balanced.buckets r (Table.mem_of_get? hr)) fun k => ?_
    rw [← hwin hactive, ← hp]
    exact mem_bucketKeysOf hobjs k

end Bodies

end LLMBenchLab
