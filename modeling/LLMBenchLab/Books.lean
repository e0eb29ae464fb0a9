import LLMBenchLab.Summary
import LLMBenchLab.Attempts

/-!
# The books: the ledger as a machine of its own

The attempt ledger with its materialized counters, apart from sessions, locks
and flushes: six actions on a `Ledger`, each an edit of one ledger row together
with the counter edits of its scopes and buckets, and the invariant that every
counter is the sum it stands for (`Ledger.Balanced`). An action keeps the
invariant when its counter edit is the change of the row's share
(`Ledger.Step.balanced`). That the transactions of `Attempts` are sequences of
these actions is for the modules after this one.
-/

namespace LLMBenchLab

open Relational

/-! ## Sums over the ledger -/

/-- `input_reservation_is_explicit` by the Run of a row. -/
def explicitOf (runs : Table Run) : Option RunId → Bool
  | none => true
  | some id => (runs.get? id).any fun run => run.inputTokenReservation.isSome

theorem inputReservationIsExplicit_eq (runs : Table Run) (r : Reservation) :
    inputReservationIsExplicit runs r = explicitOf runs r.runId := by
  unfold inputReservationIsExplicit explicitOf
  split <;> simp_all

/-- The columns of `_scope_fact_aggregates`; `none` counts the overdrafts. -/
def scopeSummary (X : Option RunId → Bool) : Summary Reservation ScopeId (Option Counter) where
  groups := Reservation.scopeIds
  fact
    | none, r => if r.overdrawn (X r.runId) then 1 else 0
    | some c, r => c.fact r

/-- The columns of the bucket aggregates. -/
def bucketSummary : Summary Reservation BucketKey BucketCounter where
  groups := Reservation.bucketKeys
  fact c r := c.toCounter.fact r

theorem nodup_scopeIds (r : Reservation) : r.scopeIds.Nodup := by
  unfold Reservation.scopeIds
  cases r.question <;> simp

theorem nodup_bucketKeys (r : Reservation) : r.bucketKeys.Nodup :=
  (nodup_scopeIds r).map fun i j h => by
    simpa [Reservation.bucketKey] using h

theorem amount_nonneg (x : Option ℕ) : 0 ≤ amount x := Int.natCast_nonneg _

theorem fact_nonneg (c : Counter) (r : Reservation) : 0 ≤ c.fact r := by
  cases c <;> simp only [Counter.fact] <;> split <;> first | exact amount_nonneg _ | decide

theorem overdraft_nonneg (X : Option RunId → Bool) (r : Reservation) :
    0 ≤ (scopeSummary X).fact none r := by
  simp only [scopeSummary]
  split <;> decide

theorem aggregate_scopeFacts (s : Store) (i : ScopeId) (c : Counter) :
    aggregate c (scopeFacts s i) =
      (scopeSummary (explicitOf s.runs)).sum s.ledger.reservations i (some c) :=
  (scopeSummary (explicitOf s.runs)).sum_flatMap (fun _ i => i) ScopeFact.scopeId
    (fun _ => List.map_id _) nodup_scopeIds (fun _ _ => rfl) (fun _ _ => rfl) i

theorem aggregate_bucketFacts (s : Store) (k : BucketKey) (c : BucketCounter) :
    aggregate c.toCounter (bucketFacts s k) = bucketSummary.sum s.ledger.reservations k c :=
  bucketSummary.sum_flatMap Reservation.bucketKey
    (fun f : ScopeFact => f.row.bucketKey f.scopeId) (fun _ => rfl) nodup_bucketKeys
    (fun _ _ => rfl) (fun _ _ => rfl) k

theorem aggregateOverdrawn_scopeFacts (s : Store) (i : ScopeId) :
    aggregateOverdrawn (scopeFacts s i) = decide (0 <
      (scopeSummary (explicitOf s.runs)).sum s.ledger.reservations i none) := by
  rw [Bool.eq_iff_iff, decide_eq_true_eq,
    Summary.sum_pos_iff _ fun r _ => overdraft_nonneg (explicitOf s.runs) r]
  simp only [aggregateOverdrawn, scopeFacts, scopeFactSource, List.any_eq_true, List.mem_filter,
    List.mem_flatMap, List.mem_map, decide_eq_true_eq, scopeSummary,
    ← inputReservationIsExplicit_eq]
  constructor
  · rintro ⟨f, ⟨⟨r, hr, j, hj, rfl⟩, rfl⟩, hover⟩
    exact ⟨r, hr, hj, by rw [if_pos hover]; decide⟩
  · rintro ⟨r, hr, hi, hpos⟩
    refine ⟨⟨i, r, inputReservationIsExplicit s.runs r⟩, ⟨⟨r, hr, i, hi, rfl⟩, rfl⟩, ?_⟩
    by_contra hno
    rw [if_neg hno] at hpos
    exact absurd hpos (lt_irrefl _)

/-! ## The invariant -/

/-- A scope equals its sums. -/
structure Scope.Balanced (X : Option RunId → Bool) (rows : Table Reservation) (x : Scope) :
    Prop where
  count : ∀ c, x.count c = (scopeSummary X).sum rows x.id (some c)
  overdrawn : x.overdrawn = decide (0 < (scopeSummary X).sum rows x.id none)

/-- A bucket equals its sums. -/
def Bucket.Balanced (rows : Table Reservation) (x : Bucket) : Prop :=
  ∀ c, x.count c = bucketSummary.sum rows x.key c

/-- The counters are the sums of the rows, and every row has its scopes and
buckets. -/
structure Ledger.Balanced (X : Option RunId → Bool) (l : Ledger) : Prop where
  scope : ∀ x ∈ l.scopes.rows, x.Balanced X l.reservations
  bucket : ∀ x ∈ l.buckets.rows, x.Balanced l.reservations
  scopes : ∀ r ∈ l.reservations.rows, ∀ i ∈ r.scopeIds, (l.scopes.get? i).isSome
  buckets : ∀ r ∈ l.reservations.rows, ∀ k ∈ r.bucketKeys, (l.buckets.get? k).isSome

theorem Scope.materialized_iff (s : Store) (x : Scope) :
    x.Materialized s ↔ x.Balanced (explicitOf s.runs) s.ledger.reservations := by
  unfold Scope.Materialized
  simp only [aggregate_scopeFacts, aggregateOverdrawn_scopeFacts]
  exact ⟨fun h => ⟨h.1, h.2⟩, fun h => ⟨h.count, h.overdrawn⟩⟩

theorem Bucket.materialized_iff (s : Store) (x : Bucket) :
    x.Materialized s ↔ x.Balanced s.ledger.reservations := by
  unfold Bucket.Materialized Bucket.Balanced
  simp only [aggregate_bucketFacts]

/-! ## Counter edits keep the key -/

@[simp] theorem Scope.key_reserve (i o c : Option ℕ) (x : Scope) : key (x.reserve i o c) = key x := rfl

@[simp] theorem Scope.key_sendStarted (x : Scope) : key x.sendStarted = key x := rfl

@[simp] theorem Scope.key_release (r : Reservation) (x : Scope) : key (x.release r) = key x := rfl

@[simp] theorem Scope.key_settle (r : Reservation) (v : Settlement) (explicit : Bool) (x : Scope) :
    key (x.settle r v explicit) = key x := rfl

@[simp] theorem Bucket.key_reserve (i o : Option ℕ) (x : Bucket) : key (x.reserve i o) = key x := rfl

@[simp] theorem Bucket.key_sendStarted (x : Bucket) : key x.sendStarted = key x := rfl

@[simp] theorem Bucket.key_sendLeft (r : Reservation) (x : Bucket) : key (x.sendLeft r) = key x := rfl

@[simp] theorem Bucket.key_sendArrived (r : Reservation) (x : Bucket) :
    key (x.sendArrived r) = key x := rfl

@[simp] theorem Bucket.key_release (r : Reservation) (x : Bucket) : key (x.release r) = key x := rfl

@[simp] theorem Bucket.key_settle (r : Reservation) (v : Settlement) (x : Bucket) :
    key (x.settle r v) = key x := rfl

/-! ## Actions -/

/-- An edit of one ledger row with the counter edits that come with it, or the
insert of an empty counter row. -/
inductive Action : Type where
  | openScope (i : ScopeId)
  | openBucket (k : BucketKey)
  | reserve (r : Reservation)
  | send (r : Reservation) (now sendWindow : Time)
  | release (r : Reservation) (now : Time) (reconciled : Bool)
  | settle (r : Reservation) (v : Settlement) (explicit : Bool) (now : Time) (outcome : Outcome)
      (conservative : Bool)
  | renew (r : Reservation) (expiresAt : Time)

/-- The buckets after a send: the row stays in its window or goes to another. -/
def sendWindows (r : Reservation) (now sendWindow : Time) (buckets : Table Bucket) : Table Bucket :=
  if sendWindow = r.windowStart then
    buckets.updateAt r.bucketKeys Bucket.sendStarted Bucket.key_sendStarted
  else
    (buckets.updateAt r.bucketKeys (Bucket.sendLeft r) (Bucket.key_sendLeft r)).updateAt
      (r.sent now sendWindow).bucketKeys (Bucket.sendArrived r) (Bucket.key_sendArrived r)

theorem isSome_get?_sendWindows (r : Reservation) (now sendWindow : Time) (t : Table Bucket)
    (k : BucketKey) : ((sendWindows r now sendWindow t).get? k).isSome = (t.get? k).isSome := by
  simp only [sendWindows]
  split
  · rw [Table.isSome_get?_updateAt]
  · rw [Table.isSome_get?_updateAt, Table.isSome_get?_updateAt]

namespace Ledger

/-- The effect of an action. -/
def play (l : Ledger) : Action → Ledger
  | .openScope i => { l with scopes := l.scopes.insert (.zero i) }
  | .openBucket k => { l with buckets := l.buckets.insert (.zero k) }
  | .reserve r =>
    ⟨l.scopes.updateAt r.scopeIds
        (Scope.reserve r.reservedInputTokens r.reservedOutputTokens r.reservedCostUsd)
        (Scope.key_reserve _ _ _),
      l.buckets.updateAt r.bucketKeys
        (Bucket.reserve r.reservedInputTokens r.reservedOutputTokens) (Bucket.key_reserve _ _),
      l.reservations.insert r⟩
  | .send r now sendWindow =>
    ⟨l.scopes.updateAt r.scopeIds Scope.sendStarted Scope.key_sendStarted,
      sendWindows r now sendWindow l.buckets, l.reservations.put (r.sent now sendWindow)⟩
  | .release r now reconciled =>
    ⟨l.scopes.updateAt r.scopeIds (Scope.release r) (Scope.key_release r),
      l.buckets.updateAt r.bucketKeys (Bucket.release r) (Bucket.key_release r),
      l.reservations.put (r.released now reconciled)⟩
  | .settle r v explicit now outcome conservative =>
    ⟨l.scopes.updateAt r.scopeIds (Scope.settle r v explicit) (Scope.key_settle r v explicit),
      l.buckets.updateAt r.bucketKeys (Bucket.settle r v) (Bucket.key_settle r v),
      l.reservations.put (r.settledAs v now outcome conservative)⟩
  | .renew r expiresAt =>
    { l with reservations := l.reservations.put { r with leaseExpiresAt := some expiresAt } }

/-- When an action may be played: the row is there in the state the action
leaves, or not there yet, and the counter rows it edits exist. -/
def Allows (X : Option RunId → Bool) (l : Ledger) : Action → Prop
  | .openScope _ => True
  | .openBucket _ => True
  | .reserve r =>
    l.reservations.get? r.id = none ∧ r.state = .reserved ∧
    (∀ i ∈ r.scopeIds, (l.scopes.get? i).isSome) ∧ ∀ k ∈ r.bucketKeys, (l.buckets.get? k).isSome
  | .send r now sendWindow =>
    l.reservations.get? r.id = some r ∧ r.state = .reserved ∧
    ∀ k ∈ (r.sent now sendWindow).bucketKeys, (l.buckets.get? k).isSome
  | .release r _ _ => l.reservations.get? r.id = some r ∧ r.state = .reserved
  | .settle r _ explicit _ _ _ =>
    l.reservations.get? r.id = some r ∧ r.state = .sendStarted ∧ explicit = X r.runId
  | .renew r _ => l.reservations.get? r.id = some r ∧ r.state.active = true

/-! ## An action keeps the books -/

variable {X : Option RunId → Bool} {l : Ledger}

theorem Balanced.empty : Balanced X ⟨.empty, .empty, .empty⟩ where
  scope _ h := absurd h List.not_mem_nil
  bucket _ h := absurd h List.not_mem_nil
  scopes _ h := absurd h List.not_mem_nil
  buckets _ h := absurd h List.not_mem_nil

/-- The scopes `ids` follow sums that grow by `δ` there. -/
theorem scope_updateAt {scopes : Table Scope} {t t' : Table Reservation} {ids : List ScopeId}
    {f : Scope → Scope} (hf : ∀ x, key (f x) = key x) {δ : Option Counter → ℤ}
    (h : ∀ x ∈ scopes.rows, x.Balanced X t)
    (hsum : ∀ i c, (scopeSummary X).sum t' i c =
      (scopeSummary X).sum t i c + if i ∈ ids then δ c else 0)
    (hcount : ∀ x c, (f x).count c = x.count c + δ (some c)) (hδ : 0 ≤ δ none)
    (hover : ∀ x, (f x).overdrawn = (x.overdrawn || decide (0 < δ none))) :
    ∀ x ∈ (scopes.updateAt ids f hf).rows, x.Balanced X t' := by
  intro x' hx'
  obtain ⟨x, hx, rfl⟩ := (Table.mem_updateAt hf).mp hx'
  have hpos : 0 ≤ (scopeSummary X).sum t x.id none :=
    (scopeSummary X).sum_nonneg (fun r _ => overdraft_nonneg X r) _
  obtain ⟨hc, ho⟩ := h x hx
  by_cases hk : x.id ∈ ids
  · have hid : (f x).id = x.id := hf x
    rw [show (if key x ∈ ids then f x else x) = f x from if_pos hk]
    refine ⟨fun c => ?_, ?_⟩
    · rw [hcount, hc, hid, hsum, if_pos hk]
    · rw [hover, ho, hid, hsum, if_pos hk, ← Bool.decide_or]
      apply decide_eq_decide.mpr
      omega
  · rw [show (if key x ∈ ids then f x else x) = x from if_neg hk]
    refine ⟨fun c => ?_, ?_⟩
    · rw [hc, hsum, if_neg hk, add_zero]
    · rw [ho, hsum, if_neg hk, add_zero]

theorem settled_of_active {q : ReservationState} (h : q.active = true) : q.settled = false := by
  cases q <;> first | rfl | cases h

theorem sum_put_same {t : Table Reservation} {r r' : Reservation} (h : t.get? r'.id = some r)
    (hg : r'.scopeIds = r.scopeIds) (i : ScopeId) (c : Option Counter) :
    (scopeSummary X).sum (t.put r') i c = (scopeSummary X).sum t i c +
      if i ∈ r.scopeIds then (scopeSummary X).fact c r' - (scopeSummary X).fact c r else 0 := by
  rw [(scopeSummary X).sum_put h]
  simp only [Summary.share, show (scopeSummary X).groups = Reservation.scopeIds from rfl, hg]
  split <;> simp

theorem bucketSum_put_same {t : Table Reservation} {r r' : Reservation}
    (h : t.get? r'.id = some r) (hg : r'.bucketKeys = r.bucketKeys) (k : BucketKey)
    (c : BucketCounter) :
    bucketSummary.sum (t.put r') k c = bucketSummary.sum t k c +
      if k ∈ r.bucketKeys then c.toCounter.fact r' - c.toCounter.fact r else 0 := by
  rw [bucketSummary.sum_put h]
  simp only [Summary.share, show bucketSummary.groups = Reservation.bucketKeys from rfl, hg]
  split
  · rfl
  · rfl

/-- A row written over another one with the same scopes finds its counter rows. -/
theorem Balanced.put_exist (h : Balanced X l) {r : Reservation}
    (hr : l.reservations.get? r.id = some r) (r' : Reservation) (hs : r'.scopeIds = r.scopeIds) {scopes : Table Scope}
    {buckets : Table Bucket} (hscopes : ∀ i, (scopes.get? i).isSome = (l.scopes.get? i).isSome)
    (hbuckets : ∀ k, (buckets.get? k).isSome = (l.buckets.get? k).isSome)
    (hk : ∀ k ∈ r'.bucketKeys, (l.buckets.get? k).isSome) :
    (∀ q ∈ (l.reservations.put r').rows, ∀ i ∈ q.scopeIds, (scopes.get? i).isSome) ∧
      ∀ q ∈ (l.reservations.put r').rows, ∀ k ∈ q.bucketKeys, (buckets.get? k).isSome := by
  refine ⟨fun q hq i hi => ?_, fun q hq k hk' => ?_⟩
  · rw [hscopes]
    rcases Table.mem_put hq with rfl | ⟨hq, -⟩
    · exact h.scopes r (Table.mem_of_get? hr) i (by rw [← hs]; exact hi)
    · exact h.scopes q hq i hi
  · rw [hbuckets]
    rcases Table.mem_put hq with rfl | ⟨hq, -⟩
    · exact hk k hk'
    · exact h.buckets q hq k hk'

/-- The scopes of a row, edited by the change of its facts. -/
theorem Balanced.scope_put (h : Balanced X l) {r r' : Reservation} {f : Scope → Scope}
    (hf : ∀ x, key (f x) = key x) (hr : l.reservations.get? r'.id = some r)
    (hs : r'.scopeIds = r.scopeIds) (hrun : r'.runId = r.runId) (hactive : r.state.active = true)
    (hcount : ∀ x c, (f x).count c = x.count c + (c.fact r' - c.fact r))
    (hover : ∀ x, (f x).overdrawn = (x.overdrawn || r'.overdrawn (X r.runId))) :
    ∀ x ∈ (l.scopes.updateAt r.scopeIds f hf).rows, x.Balanced X (l.reservations.put r') := by
  -- an active row has not been settled, so it has no overdraft yet
  have hnone : r.overdrawn (X r.runId) = false := by
    rw [Reservation.overdrawn, settled_of_active hactive, Bool.false_and]
  have hδ : (scopeSummary X).fact none r' - (scopeSummary X).fact none r =
      if r'.overdrawn (X r.runId) then 1 else 0 := by
    simp [scopeSummary, hrun, hnone]
  refine scope_updateAt hf h.scope (sum_put_same hr hs) hcount ?_ fun x => ?_
  · rw [hδ]
    split <;> decide
  · rw [hover, hδ]
    cases r'.overdrawn (X r.runId) <;> simp

/-- A row edited in its window: its counter rows change by the change of its
facts. -/
theorem Balanced.edit (h : Balanced X l) {r r' : Reservation} {f : Scope → Scope}
    {hf : ∀ x, key (f x) = key x} {g : Bucket → Bucket} {hg : ∀ x, key (g x) = key x}
    (hr : l.reservations.get? r.id = some r) (hid : r'.id = r.id)
    (hs : r'.scopeIds = r.scopeIds) (hk : r'.bucketKeys = r.bucketKeys) (hrun : r'.runId = r.runId)
    (hactive : r.state.active = true)
    (hcount : ∀ x c, (f x).count c = x.count c + (c.fact r' - c.fact r))
    (hover : ∀ x, (f x).overdrawn = (x.overdrawn || r'.overdrawn (X r.runId)))
    (hbucket : ∀ x (c : BucketCounter), (g x).count c =
      x.count c + (c.toCounter.fact r' - c.toCounter.fact r)) :
    Balanced X ⟨l.scopes.updateAt r.scopeIds f hf, l.buckets.updateAt r.bucketKeys g hg,
      l.reservations.put r'⟩ := by
  have hr' : l.reservations.get? r'.id = some r := by rw [hid]; exact hr
  obtain ⟨hscopes, hbuckets⟩ := h.put_exist hr r' hs
    (l.scopes.isSome_get?_updateAt r.scopeIds f hf)
    (l.buckets.isSome_get?_updateAt r.bucketKeys g hg)
    (by rw [hk]; exact h.buckets r (Table.mem_of_get? hr))
  refine ⟨h.scope_put hf hr' hs hrun hactive hcount hover, fun x hx c => ?_, hscopes, hbuckets⟩
  have hstore : Stores Bucket.count l.buckets (bucketSummary.sum l.reservations) := h.bucket
  rw [bucketSum_put_same hr' hk]
  exact hstore.updateAt hg hbucket x hx c

/-- A send that stays in its window or goes to another. -/
theorem Balanced.send (h : Balanced X l) {r : Reservation} {now sendWindow : Time}
    (ha : l.Allows X (.send r now sendWindow)) : Balanced X (l.play (.send r now sendWindow)) := by
  obtain ⟨hr, hst, hkeys⟩ := ha
  have hactive : r.state.active = true := by rw [hst]; rfl
  have hcount (x : Scope) (c : Counter) : x.sendStarted.count c =
      x.count c + (c.fact (r.sent now sendWindow) - c.fact r) := by
    cases c <;> simp [Scope.sendStarted, Scope.count, Counter.fact, Reservation.sent, hst,
      ReservationState.active, ReservationState.consumedRequest, ReservationState.settled]
    omega
  have hover (x : Scope) : x.sendStarted.overdrawn =
      (x.overdrawn || (r.sent now sendWindow).overdrawn (X r.runId)) := by
    simp [Scope.sendStarted, Reservation.overdrawn, Reservation.sent, ReservationState.settled]
  by_cases hw : sendWindow = r.windowStart
  · have hk : (r.sent now sendWindow).bucketKeys = r.bucketKeys := by rw [hw]; rfl
    have hplay : l.play (.send r now sendWindow) =
        ⟨l.scopes.updateAt r.scopeIds Scope.sendStarted Scope.key_sendStarted,
          l.buckets.updateAt r.bucketKeys Bucket.sendStarted Bucket.key_sendStarted,
          l.reservations.put (r.sent now sendWindow)⟩ := by
      simp only [play, sendWindows, if_pos hw]
    rw [hplay]
    refine h.edit hr rfl rfl hk rfl hactive hcount hover fun x c => ?_
    cases c <;> simp [Bucket.sendStarted, Bucket.count, Counter.fact, BucketCounter.toCounter,
      Reservation.sent, hst, ReservationState.active, ReservationState.consumedRequest,
      ReservationState.settled]
    omega
  · obtain ⟨hscopes, hbuckets⟩ := h.put_exist hr (r.sent now sendWindow) rfl
      (l.scopes.isSome_get?_updateAt r.scopeIds Scope.sendStarted Scope.key_sendStarted)
      (isSome_get?_sendWindows r now sendWindow l.buckets) hkeys
    refine ⟨h.scope_put Scope.key_sendStarted hr rfl rfl hactive hcount hover,
      fun x hx c => ?_, hscopes, hbuckets⟩
    -- the old window gives back what the row held, the new one takes what it now holds
    simp only [play, sendWindows, if_neg hw] at hx
    have hstore : Stores Bucket.count l.buckets (bucketSummary.sum l.reservations) := h.bucket
    have hleft (x : Bucket) (c : BucketCounter) :
        (x.sendLeft r).count c = x.count c + -c.toCounter.fact r := by
      cases c <;> simp [Bucket.sendLeft, Bucket.count, Counter.fact, BucketCounter.toCounter, hst,
        ReservationState.active, ReservationState.consumedRequest, ReservationState.settled,
        sub_eq_add_neg]
    have harrived (x : Bucket) (c : BucketCounter) : (x.sendArrived r).count c =
        x.count c + c.toCounter.fact (r.sent now sendWindow) := by
      cases c <;> simp [Bucket.sendArrived, Bucket.count, Counter.fact, BucketCounter.toCounter,
        Reservation.sent, ReservationState.active, ReservationState.consumedRequest,
        ReservationState.settled]
    have hx' := (hstore.updateAt (Bucket.key_sendLeft r) hleft).updateAt
      (Bucket.key_sendArrived r) harrived x hx c
    rw [hx']
    simp only [play]
    rw [bucketSummary.sum_put (r := r.sent now sendWindow) hr]
    show bucketSummary.sum l.reservations x.key c +
        (if x.key ∈ r.bucketKeys then -c.toCounter.fact r else 0) +
        (if x.key ∈ (r.sent now sendWindow).bucketKeys then
          c.toCounter.fact (r.sent now sendWindow) else 0) =
      bucketSummary.sum l.reservations x.key c +
        ((if x.key ∈ (r.sent now sendWindow).bucketKeys then
          c.toCounter.fact (r.sent now sendWindow) else 0) -
        if x.key ∈ r.bucketKeys then c.toCounter.fact r else 0)
    split <;> omega

theorem Balanced.release (h : Balanced X l) {r : Reservation} {now : Time} {reconciled : Bool}
    (ha : l.Allows X (.release r now reconciled)) :
    Balanced X (l.play (.release r now reconciled)) := by
  obtain ⟨hr, hst⟩ := ha
  refine h.edit hr rfl rfl rfl rfl (by rw [hst]; rfl) (fun x c => ?_) (fun x => ?_) fun x c => ?_
  · cases c <;> simp [Scope.release, Scope.count, Counter.fact, Reservation.released, hst,
      ReservationState.active, ReservationState.consumedRequest, ReservationState.settled,
      sub_eq_add_neg]
  · simp [Scope.release, Reservation.overdrawn, Reservation.released, ReservationState.settled]
  · cases c <;> simp [Bucket.release, Bucket.count, Counter.fact, BucketCounter.toCounter,
      Reservation.released, hst, ReservationState.active, ReservationState.consumedRequest,
      ReservationState.settled, sub_eq_add_neg]

theorem settled_settledAs (r : Reservation) (v : Settlement) (now : Time) (outcome : Outcome)
    (conservative : Bool) : (r.settledAs v now outcome conservative).state.settled = true := by
  cases conservative <;> rfl

theorem Balanced.settle (h : Balanced X l) {r : Reservation} {v : Settlement} {explicit : Bool}
    {now : Time} {outcome : Outcome} {conservative : Bool}
    (ha : l.Allows X (.settle r v explicit now outcome conservative)) :
    Balanced X (l.play (.settle r v explicit now outcome conservative)) := by
  obtain ⟨hr, hst, rfl⟩ := ha
  have hsettled := settled_settledAs r v now outcome conservative
  refine h.edit hr rfl rfl rfl rfl (by rw [hst]; rfl) (fun x c => ?_) (fun x => ?_) fun x c => ?_
  · cases conservative <;> cases c <;> simp [Scope.settle, Scope.count, Counter.fact,
      Reservation.settledAs, hst, ReservationState.active, ReservationState.consumedRequest,
      ReservationState.settled, sub_eq_add_neg]
  · rw [Reservation.overdrawn, hsettled, Bool.true_and]
    show (if v.overdraws r (X r.runId) then true else x.overdrawn) =
      (x.overdrawn || v.overdraws r (X r.runId))
    cases v.overdraws r (X r.runId) <;> simp
  · cases conservative <;> cases c <;> simp [Bucket.settle, Bucket.count, Counter.fact,
      BucketCounter.toCounter, Reservation.settledAs, hst, ReservationState.active,
      ReservationState.consumedRequest, ReservationState.settled, sub_eq_add_neg]

theorem Balanced.reserve (h : Balanced X l) {r : Reservation} (ha : l.Allows X (.reserve r)) :
    Balanced X (l.play (.reserve r)) := by
  obtain ⟨hnone, hst, hscopes, hbuckets⟩ := ha
  have hover : (scopeSummary X).fact none r = 0 := by
    simp [scopeSummary, Reservation.overdrawn, hst, ReservationState.settled]
  have hrow {q : Reservation} (hq : q ∈ (l.reservations.insert r).rows) :
      q ∈ l.reservations.rows ∨ q = r :=
    (Table.mem_insert.mp hq).imp_right And.right
  constructor
  · refine scope_updateAt (Scope.key_reserve _ _ _) (δ := fun c => (scopeSummary X).fact c r) h.scope
      ((scopeSummary X).sum_insert hnone) (fun x c => ?_) (le_of_eq hover.symm) fun x => ?_
    · cases c <;> simp [Scope.reserve, Scope.count, scopeSummary, Counter.fact, hst,
        ReservationState.active, ReservationState.consumedRequest, ReservationState.settled]
    · simp [Scope.reserve, hover]
  · intro x hx c
    have hstore : Stores Bucket.count l.buckets (bucketSummary.sum l.reservations) := h.bucket
    have hδ (x : Bucket) (c : BucketCounter) :
        (x.reserve r.reservedInputTokens r.reservedOutputTokens).count c =
          x.count c + c.toCounter.fact r := by
      cases c <;> simp [Bucket.reserve, Bucket.count, Counter.fact, BucketCounter.toCounter, hst,
        ReservationState.active, ReservationState.consumedRequest, ReservationState.settled]
    rw [hstore.updateAt (Bucket.key_reserve _ _) hδ x hx c]
    exact (bucketSummary.sum_insert hnone _ _).symm
  · intro q hq i hi
    simp only [play, Table.isSome_get?_updateAt]
    rcases hrow hq with hq | rfl
    · exact h.scopes q hq i hi
    · exact hscopes i hi
  · intro q hq k hk
    simp only [play, Table.isSome_get?_updateAt]
    rcases hrow hq with hq | rfl
    · exact h.buckets q hq k hk
    · exact hbuckets k hk

/-- A row edited in columns that no counter sees. -/
theorem Balanced.renew (h : Balanced X l) {r : Reservation} {expiresAt : Time}
    (hr : l.reservations.get? r.id = some r) : Balanced X (l.play (.renew r expiresAt)) := by
  have hr' : l.reservations.get? ({ r with leaseExpiresAt := some expiresAt } : Reservation).id =
      some r := hr
  obtain ⟨hscopes, hbuckets⟩ := h.put_exist hr { r with leaseExpiresAt := some expiresAt } rfl
    (fun _ => rfl) (fun _ => rfl) (h.buckets r (Table.mem_of_get? hr))
  refine ⟨fun x hx => ⟨fun c => ?_, ?_⟩, fun x hx c => ?_, hscopes, hbuckets⟩
  · rw [(h.scope x hx).count, play, sum_put_same hr' rfl]
    cases c <;> simp [scopeSummary, Counter.fact]
  · rw [(h.scope x hx).overdrawn, play, sum_put_same hr' rfl]
    simp [scopeSummary, Reservation.overdrawn, Reservation.runId]
  · rw [h.bucket x hx, play, bucketSum_put_same hr' rfl]
    cases c <;> simp [Counter.fact, BucketCounter.toCounter]

/-- A fresh counter row stands for a group without rows. -/
theorem Balanced.openScope (h : Balanced X l) (i : ScopeId) :
    Balanced X (l.play (.openScope i)) := by
  refine ⟨fun x hx => ?_, h.bucket, fun r hr j hj => ?_, h.buckets⟩
  · rcases Table.mem_insert.mp hx with hx | ⟨hnone, rfl⟩
    · exact h.scope x hx
    · have hzero (c : Option Counter) : (scopeSummary X).sum l.reservations i c = 0 := by
        refine (scopeSummary X).sum_of_not_mem (fun r hr hi => ?_) c
        have := h.scopes r hr i hi
        rw [show l.scopes.get? i = none from hnone] at this
        cases this
      refine ⟨fun c => ?_, ?_⟩
      · refine Eq.trans ?_ (hzero (some c)).symm
        cases c <;> rfl
      · show false = decide (0 < (scopeSummary X).sum l.reservations i none)
        rw [hzero]
        rfl
  · show ((l.scopes.insert (.zero i)).get? j).isSome
    rw [Table.get?_insert]
    split
    · rfl
    · exact h.scopes r hr j hj

theorem Balanced.openBucket (h : Balanced X l) (k : BucketKey) :
    Balanced X (l.play (.openBucket k)) := by
  have hstore : Stores Bucket.count l.buckets (bucketSummary.sum l.reservations) := h.bucket
  refine ⟨h.scope, ?_, h.scopes, fun r hr j hj => ?_⟩
  · refine hstore.insert (x := .zero k) fun hnone c => ?_
    have hzero : bucketSummary.sum l.reservations k c = 0 := by
      refine bucketSummary.sum_of_not_mem (fun r hr hk => ?_) c
      have := h.buckets r hr k hk
      rw [show l.buckets.get? k = none from hnone] at this
      cases this
    refine Eq.trans ?_ hzero.symm
    cases c <;> rfl
  · show ((l.buckets.insert (.zero k)).get? j).isSome
    rw [Table.get?_insert]
    split
    · rfl
    · exact h.buckets r hr j hj

/-- Every action keeps the books. -/
theorem Balanced.play (h : Balanced X l) {a : Action} (ha : l.Allows X a) :
    Balanced X (l.play a) := by
  cases a with
  | openScope i => exact h.openScope i
  | openBucket k => exact h.openBucket k
  | reserve r => exact h.reserve ha
  | send r now sendWindow => exact h.send ha
  | release r now reconciled => exact h.release ha
  | settle r v explicit now outcome conservative => exact h.settle ha
  | renew r expiresAt => exact h.renew ha.1

/-! ## Runs of actions -/

/-- The ledger after a list of actions. -/
def playAll (l : Ledger) (acts : List Action) : Ledger := acts.foldl play l

@[simp] theorem playAll_nil : l.playAll [] = l := rfl

@[simp] theorem playAll_cons (a : Action) (acts : List Action) :
    l.playAll (a :: acts) = (l.play a).playAll acts := rfl

theorem playAll_append (acts acts' : List Action) :
    l.playAll (acts ++ acts') = (l.playAll acts).playAll acts' :=
  List.foldl_append

/-- Each action of the list may be played when its turn comes, and meets `G`
there. -/
def Plays (X : Option RunId → Bool) (G : Ledger → Action → Prop) : Ledger → List Action → Prop
  | _, [] => True
  | l, a :: acts => (l.Allows X a ∧ G l a) ∧ Plays X G (l.play a) acts

variable {G : Ledger → Action → Prop}

theorem Plays.append {acts acts' : List Action} (h : l.Plays X G acts)
    (h' : (l.playAll acts).Plays X G acts') : l.Plays X G (acts ++ acts') := by
  induction acts generalizing l with
  | nil => exact h'
  | cons a acts ih => exact ⟨h.1, ih h.2 h'⟩

theorem Plays.snoc {acts : List Action} {a : Action} (h : l.Plays X G acts)
    (ha : (l.playAll acts).Allows X a) (hG : G (l.playAll acts) a) :
    l.Plays X G (acts ++ [a]) :=
  h.append ⟨⟨ha, hG⟩, trivial⟩

/-- What every action keeps, a run of actions keeps. -/
theorem Plays.invariant {I : Ledger → Prop} {acts : List Action} (h : l.Plays X G acts) (hI : I l)
    (hstep : ∀ l a, I l → l.Allows X a → G l a → I (l.play a)) : I (l.playAll acts) := by
  induction acts generalizing l with
  | nil => exact hI
  | cons a acts ih => exact ih h.2 (hstep l a hI h.1.1 h.1.2)

theorem Balanced.playAll (h : Balanced X l) {acts : List Action} (hp : l.Plays X G acts) :
    Balanced X (l.playAll acts) :=
  hp.invariant h fun _ _ hl ha _ => hl.play ha

/-- Only the overdrafts ask which Runs reserve their input. -/
theorem Balanced.congr {X' : Option RunId → Bool} (h : Balanced X l)
    (hX : ∀ r ∈ l.reservations.rows, r.overdrawn (X r.runId) = r.overdrawn (X' r.runId)) :
    Balanced X' l := by
  have hsum (i : ScopeId) (c : Option Counter) :
      (scopeSummary X').sum l.reservations i c = (scopeSummary X).sum l.reservations i c := by
    refine congrArg List.sum (List.map_congr_left fun r hr => ?_)
    rcases c with _ | c
    · have hfact : (scopeSummary X').fact none r = (scopeSummary X).fact none r := by
        simp only [scopeSummary, hX r hr]
      simp only [Summary.share, hfact]
      rfl
    · rfl
  refine ⟨fun x hx => ⟨fun c => ?_, ?_⟩, h.bucket, h.scopes, h.buckets⟩
  · rw [hsum, (h.scope x hx).count]
  · rw [hsum, (h.scope x hx).overdrawn]

end Ledger

/-! ## Rows under actions -/

/-- The columns of a row that no action touches. -/
structure Reservation.SameAttempt (r r' : Reservation) : Prop where
  id : r'.id = r.id
  policyId : r'.policyId = r.policyId
  question : r'.question = r.question
  globalScope : r'.globalScope = r.globalScope
  scopeIds : r'.scopeIds = r.scopeIds
  executionGeneration : r'.executionGeneration = r.executionGeneration
  providerAttempt : r'.providerAttempt = r.providerAttempt
  leaseOwner : r'.leaseOwner = r.leaseOwner
  leaseToken : r'.leaseToken = r.leaseToken
  modelId : r'.modelId = r.modelId
  reservedInputTokens : r'.reservedInputTokens = r.reservedInputTokens
  reservedOutputTokens : r'.reservedOutputTokens = r.reservedOutputTokens
  reservedCostUsd : r'.reservedCostUsd = r.reservedCostUsd

theorem Reservation.SameAttempt.refl (r : Reservation) : r.SameAttempt r :=
  ⟨rfl, rfl, rfl, rfl, rfl, rfl, rfl, rfl, rfl, rfl, rfl, rfl, rfl⟩

theorem Reservation.SameAttempt.trans {a b c : Reservation} (h : a.SameAttempt b)
    (h' : b.SameAttempt c) : a.SameAttempt c :=
  ⟨h'.id.trans h.id, h'.policyId.trans h.policyId, h'.question.trans h.question,
    h'.globalScope.trans h.globalScope, h'.scopeIds.trans h.scopeIds,
    h'.executionGeneration.trans h.executionGeneration, h'.providerAttempt.trans h.providerAttempt,
    h'.leaseOwner.trans h.leaseOwner, h'.leaseToken.trans h.leaseToken,
    h'.modelId.trans h.modelId, h'.reservedInputTokens.trans h.reservedInputTokens,
    h'.reservedOutputTokens.trans h.reservedOutputTokens,
    h'.reservedCostUsd.trans h.reservedCostUsd⟩

/-- The row an action finds and the row it leaves in its place. -/
def Action.edited : Action → Option (Reservation × Reservation)
  | .send r now sendWindow => some (r, r.sent now sendWindow)
  | .release r now reconciled => some (r, r.released now reconciled)
  | .settle r v _ now outcome conservative => some (r, r.settledAs v now outcome conservative)
  | .renew r expiresAt => some (r, { r with leaseExpiresAt := some expiresAt })
  | _ => none

theorem Action.edited_same {a : Action} {r r' : Reservation} (h : a.edited = some (r, r')) :
    r.SameAttempt r' := by
  cases a <;> simp only [Action.edited, Option.some.injEq, Prod.mk.injEq, reduceCtorEq] at h <;>
    obtain ⟨rfl, rfl⟩ := h <;> exact ⟨rfl, rfl, rfl, rfl, rfl, rfl, rfl, rfl, rfl, rfl, rfl, rfl, rfl⟩

namespace Ledger

variable {X : Option RunId → Bool} {l : Ledger} {a : Action}

/-- An edit is of a row that is there. -/
theorem Allows.edited (ha : l.Allows X a) {r r' : Reservation} (h : a.edited = some (r, r')) :
    l.reservations.get? r.id = some r := by
  cases a <;> simp only [Action.edited, Option.some.injEq, Prod.mk.injEq, reduceCtorEq] at h <;>
    obtain ⟨rfl, rfl⟩ := h
  · exact ha.1
  · exact ha.1
  · exact ha.1
  · exact ha.1

theorem play_edited {r r' : Reservation} (h : a.edited = some (r, r')) :
    (l.play a).reservations = l.reservations.put r' := by
  cases a <;> simp only [Action.edited, Option.some.injEq, Prod.mk.injEq, reduceCtorEq] at h <;>
    obtain ⟨rfl, rfl⟩ := h <;> rfl

/-- An action that edits no row inserts one or leaves the rows alone. -/
theorem play_unedited (h : a.edited = none) :
    (∃ r, a = .reserve r ∧ (l.play a).reservations = l.reservations.insert r) ∨
      (l.play a).reservations = l.reservations := by
  cases a <;> simp only [Action.edited, reduceCtorEq] at h
  · exact Or.inr rfl
  · exact Or.inr rfl
  · exact Or.inl ⟨_, rfl, rfl⟩

/-- Where a row after an action comes from. -/
theorem mem_play {q : Reservation} (hq : q ∈ (l.play a).reservations.rows) :
    q ∈ l.reservations.rows ∨ a = .reserve q ∨ ∃ r, a.edited = some (r, q) := by
  rcases he : a.edited with _ | ⟨r, r'⟩
  · rcases play_unedited (l := l) he with ⟨r, rfl, hp⟩ | hp
    · rw [hp] at hq
      rcases Table.mem_insert.mp hq with hq | ⟨-, rfl⟩
      · exact Or.inl hq
      · exact Or.inr (Or.inl rfl)
    · rw [hp] at hq
      exact Or.inl hq
  · rw [play_edited he] at hq
    rcases Table.mem_put hq with rfl | ⟨hq, -⟩
    · exact Or.inr (Or.inr ⟨r, rfl⟩)
    · exact Or.inl hq

/-- What an action makes of a row that is there. -/
theorem get?_play (ha : l.Allows X a) {id : ReservationId} {r : Reservation}
    (hr : l.reservations.get? id = some r) :
    (l.play a).reservations.get? id = some r ∨
      ∃ r', (l.play a).reservations.get? id = some r' ∧ a.edited = some (r, r') := by
  rcases he : a.edited with _ | ⟨q, q'⟩
  · rcases play_unedited (l := l) he with ⟨q, rfl, hp⟩ | hp
    · refine Or.inl ?_
      rw [hp, Table.get?_insert, if_neg, hr]
      rintro rfl
      rw [show l.reservations.get? (key q) = none from ha.1] at hr
      cases hr
    · exact Or.inl (by rw [hp]; exact hr)
  · have hq := ha.edited he
    have hk : q'.id = q.id := (Action.edited_same he).id
    rw [play_edited he]
    by_cases hqi : q.id = id
    · -- the edited row is this one
      obtain rfl : q = r := by
        rw [hqi] at hq
        exact Option.some.inj (hq.symm.trans hr)
      refine Or.inr ⟨q', ?_, rfl⟩
      rw [← hk] at hq
      rw [← hqi, ← hk]
      exact Table.get?_put_self hq
    · refine Or.inl ?_
      rw [← hr]
      refine Table.get?_put_ne ?_
      show id ≠ q'.id
      rw [hk]
      exact fun h => hqi h.symm

/-- What holds of every row, of every reserved row and under every edit, holds of
every row after an action. -/
theorem forall_play {I : Reservation → Prop} (h : ∀ r ∈ l.reservations.rows, I r)
    (ha : l.Allows X a) (hreserve : ∀ r, a = .reserve r → I r)
    (hedit : ∀ r r', a.edited = some (r, r') → I r → I r') :
    ∀ r ∈ (l.play a).reservations.rows, I r := by
  intro q hq
  rcases mem_play hq with hq | rfl | ⟨r, he⟩
  · exact h q hq
  · exact hreserve q rfl
  · exact hedit r q he (h r (Table.mem_of_get? (ha.edited he)))

end Ledger

end LLMBenchLab
