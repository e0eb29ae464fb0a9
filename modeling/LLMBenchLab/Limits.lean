import LLMBenchLab.Lifecycle

/-!
# Limits: what admission keeps along a run

The limit checks of `reserve` and `mark_send_started` look at the counters
before the request is added to them. `checkScope_ok` and `checkedWindow` say what a
passed check leaves room for; the two invariants are that no action goes above
that room: minute buckets under the limits of their policy, Run scopes under
the budgets the Run has frozen. A settlement above its reservation is the only
way out, and it leaves a mark: an overspent row, an overdrawn scope.
-/

namespace LLMBenchLab

open Relational Relational.Prog Governance

variable {cfg : Config} {s s' : Store}

/-! ## Passed checks -/

theorem above_eq_false {limit : Option ℕ} {used asked : ℤ} :
    above limit used asked = false ↔ ∀ n ∈ limit, used + asked ≤ n := by
  cases limit with
  | none => simp [above]
  | some n => simp [above]

/-- A loop over a list that ends well has passed every element. -/
theorem forM_ok {α : Type} {f : α → Except Err Unit} :
    ∀ {xs : List α}, xs.forM f = .ok () → ∀ x ∈ xs, f x = .ok () := by
  intro xs
  induction xs with
  | nil => exact fun _ x hx => absurd hx List.not_mem_nil
  | cons y ys ih =>
    intro h x hx
    have h : (f y >>= fun _ => ys.forM f) = .ok () := h
    rcases hy : f y with e | u
    · rw [hy] at h
      cases h
    · rw [hy] at h
      rcases List.mem_cons.mp hx with rfl | hx
      · exact hy
      · exact ih h x hx

theorem bucketOf_ok {buckets : List Bucket} {x : Scope} {b : Bucket}
    (h : bucketOf buckets x = .ok b) : b ∈ buckets ∧ b.key.scopeId = x.id := by
  simp only [bucketOf] at h
  split at h
  · next b' hb' =>
    cases h
    have hid := List.find?_some hb'
    exact ⟨List.mem_of_find?_eq_some hb', of_decide_eq_true hid⟩
  · cases h

/-- A bucket has room for one request of `newTokens`. -/
def Bucket.Room (l : PolicyLimits) (t : ScopeType) (newTokens : ℤ) (b : Bucket) : Prop :=
  (∀ n ∈ l.requestsPerMinute.get t, b.requests + 1 ≤ n) ∧
    ∀ n ∈ l.tokensPerMinute.get t, b.tokens + newTokens ≤ n

theorem checkWindow_ok {l : PolicyLimits} {x : Scope} {b : Bucket} {newTokens : ℤ} {e : Time}
    (h : checkWindow l x b newTokens e = .ok ()) : b.Room l x.id.scopeType newTokens := by
  simp only [checkWindow] at h
  split at h
  · cases h
  · next hr =>
    split at h
    · cases h
    · next ht => exact ⟨above_eq_false.mp (by simpa using hr), above_eq_false.mp (by simpa using ht)⟩

/-- A scope has room for the attempt `a` under the budgets `b`. -/
structure Scope.Room (b : Budgets) (a : AttemptAmounts) (x : Scope) : Prop where
  requests : ∀ n ∈ b.requests, x.requests + 1 ≤ n
  tokens : ∀ n ∈ b.tokens, x.tokens + a.tokens ≤ n
  cost : ∀ n ∈ b.costUsd, x.cost + amount a.costUsd ≤ n

theorem checkLifetime_ok {x : Scope} {b : Budgets} {a : AttemptAmounts}
    (h : checkLifetime x b a = .ok ()) : x.Room b a := by
  simp only [checkLifetime] at h
  split at h
  · cases h
  · next hr =>
    split at h
    · cases h
    · next ht =>
      split at h
      · cases h
      · next hc =>
        exact ⟨above_eq_false.mp (by simpa using hr), above_eq_false.mp (by simpa using ht),
          above_eq_false.mp (by simpa using hc)⟩

/-- What `_check_limits` has found of one scope. -/
structure CheckedScope (l : PolicyLimits) (o : RunOverrides) (buckets : List Bucket)
    (a : AttemptAmounts) (x : Scope) : Prop where
  sound : x.overdrawn = false
  concurrency : ∀ n ∈ l.concurrencyLimit.get x.id.scopeType, x.activeReservations + 1 ≤ n
  window : ∃ b, bucketOf buckets x = .ok b ∧ b.Room l x.id.scopeType a.tokens
  lifetime : ∀ b, l.lifetime o x.id.scopeType = some b → x.Room b a

theorem checkScope_ok {l : PolicyLimits} {o : RunOverrides} {buckets : List Bucket}
    {a : AttemptAmounts} {now : Time} {x : Scope} (h : checkScope l o buckets a now x = .ok ()) :
    CheckedScope l o buckets a x := by
  simp only [checkScope] at h
  split at h
  · cases h
  · next hover =>
    split at h
    · cases h
    · next hconc =>
      rcases hb : bucketOf buckets x with e | b
      · rw [hb] at h
        cases h
      · rw [hb] at h
        rcases hw : checkWindow l x b a.tokens (minuteStart now + 60000000) with e | u
        · simp only [Except.bind, bind, hw] at h
          cases h
        · simp only [Except.bind, bind, hw] at h
          refine ⟨by simpa using hover, above_eq_false.mp (by simpa using hconc),
            ⟨b, hb, checkWindow_ok hw⟩, fun b' hb' => ?_⟩
          rw [hb'] at h
          exact checkLifetime_ok h

/-- What `_check_limits` requires to be known of an attempt. -/
structure Known (l : PolicyLimits) (o : RunOverrides) (ts : List ScopeType) (a : AttemptAmounts) :
    Prop where
  tokens : (∃ t ∈ ts, (l.tokensPerMinute.get t).isSome) ∨ l.runLifetime.tokens.isSome ∨
    o.lifetimeTokenBudget.isSome → o.inputTokenReservation.isSome ∧ a.inputTokens.isSome ∧
      a.outputTokens.isSome
  cost : l.runLifetime.costUsd.isSome ∨ o.lifetimeCostBudgetUsd.isSome →
    o.inputTokenReservation.isSome ∧ a.costUsd.isSome

theorem checkLimits_ok {l : PolicyLimits} {scopes : List Scope} {buckets : List Bucket}
    {a : AttemptAmounts} {o : RunOverrides} {now : Time}
    (h : checkLimits l scopes buckets a o now = .ok ()) :
    Known l o (scopes.map fun x => x.id.scopeType) a ∧
      ∀ x ∈ scopes, CheckedScope l o buckets a x := by
  simp only [checkLimits] at h
  split at h
  · cases h
  · next hin =>
    split at h
    · cases h
    · next hout =>
      split at h
      · cases h
      · next hcost =>
        refine ⟨⟨fun ht => ?_, fun hc => ?_⟩, fun x hx => checkScope_ok (forM_ok h x hx)⟩
        · have hhard : l.hardToken scopes o = true := by
            simp only [PolicyLimits.hardToken, Bool.or_eq_true, List.any_eq_true]
            rcases ht with ⟨t, ht, hs⟩ | ht | ht
            · obtain ⟨x, hx, rfl⟩ := List.mem_map.mp ht
              exact Or.inl (Or.inl (Or.inl ⟨x, hx, hs⟩))
            · exact Or.inl (Or.inr ht)
            · exact Or.inr ht
          simp only [hhard, Bool.true_or, Bool.true_and, Bool.or_eq_true, not_or,
            Option.isNone_iff_eq_none, ← ne_eq, Option.ne_none_iff_isSome] at hin hout
          exact ⟨hin.1, hin.2, hout⟩
        · have hhard : l.hardCost o = true := by
            simp only [PolicyLimits.hardCost, Bool.or_eq_true]
            rcases hc with hc | hc
            · exact Or.inl (Or.inr hc)
            · exact Or.inr hc
          simp only [hhard, Bool.or_true, Bool.true_and, Bool.or_eq_true, not_or,
            Option.isNone_iff_eq_none, ← ne_eq, Option.ne_none_iff_isSome] at hin hcost
          exact ⟨hin.1, hcost⟩

/-! ## Minute windows -/

/-- The row was settled with more tokens than it had reserved. -/
def Reservation.Overspent (r : Reservation) : Prop :=
  r.state.settled = true ∧ ∃ i o, r.reservedInputTokens = some i ∧ r.reservedOutputTokens = some o ∧
    ((i + o : ℕ) : ℤ) < amount r.actualInputTokens + amount r.actualOutputTokens

/-- The bucket keeps the limits of its window, for tokens as long as none of its
rows is overspent. -/
structure Bucket.WithinWindow (l : PolicyLimits) (rows : Table Reservation) (b : Bucket) : Prop where
  requests : ∀ n ∈ l.requestsPerMinute.get b.key.scopeId.scopeType, b.requests ≤ n
  tokens : ∀ n ∈ l.tokensPerMinute.get b.key.scopeId.scopeType,
    b.tokens ≤ n ∨ ∃ r ∈ rows.rows, b.key ∈ r.bucketKeys ∧ r.Overspent

/-- A limit on the tokens of one of its buckets makes the row know its tokens. -/
def Reservation.TokensKnown (l : PolicyLimits) (r : Reservation) : Prop :=
  (∃ i ∈ r.scopeIds, (l.tokensPerMinute.get i.scopeType).isSome) →
    r.reservedInputTokens.isSome ∧ r.reservedOutputTokens.isSome

section Windows

variable {X : Option RunId → Bool} {l : Ledger} {a : Action} {p : PolicyLimits}

/-- An overspent row has ended, so it stays. -/
theorem Reservation.Overspent.play {r : Reservation} (h : r.Overspent) (ha : l.Allows X a)
    (hr : r ∈ l.reservations.rows) : r ∈ (l.play a).reservations.rows := by
  rcases Ledger.get?_play ha (Table.get?_of_mem hr) with hget | ⟨r', -, he⟩
  · exact Table.mem_of_get? hget
  · have hsettled := h.1
    rw [Ledger.settled_of_active (Edge.of_edited ha he).1] at hsettled
    cases hsettled

/-- A bucket that has given back, or stayed as it was. -/
theorem Bucket.WithinWindow.lower {b b' : Bucket} (h : b.WithinWindow p l.reservations)
    (ha : l.Allows X a) (hk : b'.key = b.key) (hr : b'.requests ≤ b.requests)
    (ht : b'.tokens ≤ b.tokens) : b'.WithinWindow p (l.play a).reservations where
  requests n hn := by
    rw [hk] at hn
    exact hr.trans (h.requests n hn)
  tokens n hn := by
    rw [hk] at hn ⊢
    rcases h.tokens n hn with hle | ⟨r, hr, hkey, hover⟩
    · exact Or.inl (ht.trans hle)
    · exact Or.inr ⟨r, hover.play ha hr, hkey, hover⟩

/-- A bucket that has taken what it had room for. -/
theorem Bucket.WithinWindow.raise {rows : Table Reservation} {b b' : Bucket} {newTokens : ℤ}
    (h : b.Room p b.key.scopeId.scopeType newTokens) (hk : b'.key = b.key)
    (hr : b'.requests = b.requests + 1) (ht : b'.tokens = b.tokens + newTokens) :
    b'.WithinWindow p rows where
  requests n hn := by
    rw [hk] at hn
    rw [hr]
    exact h.1 n hn
  tokens n hn := by
    rw [hk] at hn
    rw [ht]
    exact Or.inl (h.2 n hn)

/-- The checks of a loop over the scopes of a row reach each of its buckets. -/
theorem room_of_checked {r : Reservation} {scopes : List Scope} {buckets : List Bucket}
    {newTokens : ℤ} (hs : l.scopes.Objects r.scopeIds scopes)
    (hb : l.buckets.Objects r.bucketKeys buckets)
    (hc : ∀ x ∈ scopes, ∃ b, bucketOf buckets x = .ok b ∧ b.Room p x.id.scopeType newTokens)
    {b : Bucket} (hbm : b ∈ l.buckets.rows) (hk : b.key ∈ r.bucketKeys) :
    b.Room p b.key.scopeId.scopeType newTokens := by
  obtain ⟨i, hi, hbk⟩ := List.mem_map.mp hk
  obtain ⟨x, hx, hxi, -⟩ := hs.exists hi
  obtain ⟨b', hb', hroom⟩ := hc x hx
  obtain ⟨hmem, hid⟩ := bucketOf_ok hb'
  -- the bucket found for the scope is the one of this window
  obtain ⟨j, -, hj⟩ := List.mem_map.mp ((hb.keys b'.key).mp (List.mem_map_of_mem hmem))
  have hxi : x.id = i := hxi
  have hji : j = i := by
    rw [← hxi, ← hid, ← hj]
    rfl
  have hkey : b'.key = b.key := by rw [← hj, ← hbk, hji]
  obtain rfl : b' = b := Table.eq_of_key (hb.mem b' hmem) hbm hkey
  rw [hid]
  exact hroom

theorem checkWindowLimits_ok {scopes : List Scope} {buckets : List Bucket} {newTokens : ℤ}
    {now : Time} (h : checkWindowLimits p scopes buckets newTokens now = .ok ()) :
    ∀ x ∈ scopes, ∃ b, bucketOf buckets x = .ok b ∧ b.Room p x.id.scopeType newTokens := by
  intro x hx
  have hx := forM_ok h x hx
  rcases hb : bucketOf buckets x with e | b
  · rw [hb] at hx
    cases hx
  · rw [hb] at hx
    exact ⟨b, rfl, checkWindow_ok hx⟩

/-- The rows know their policy, and the buckets keep the limits of theirs. -/
structure WindowInv (policies : Table Policy) (l : Ledger) : Prop where
  known : ∀ r ∈ l.reservations.rows, ∃ p, policies.get? r.policyId = some p ∧ r.TokensKnown p.limits
  window : ∀ b ∈ l.buckets.rows, ∀ p, policies.get? b.key.policyId = some p →
    b.WithinWindow p.limits l.reservations

theorem ReserveLicence.tokensKnown {P : Policy → Prop} {D : Store → Prop} {r : Reservation}
    {run : Run} {policy : Policy} {o : RunOverrides} {now : Time}
    (h : ReserveLicence P D l r run policy o now) : r.TokensKnown policy.limits := by
  obtain ⟨scopes, buckets, hs, -, hc⟩ := h.limits
  intro ⟨i, hi, ht⟩
  obtain ⟨x, hx, hxi, -⟩ := hs.exists hi
  have hxi : x.id = i := hxi
  obtain ⟨-, hin, hout⟩ := (checkLimits_ok hc).1.tokens (Or.inl
    ⟨x.id.scopeType, List.mem_map_of_mem hx, by rw [hxi]; exact ht⟩)
  exact ⟨hin, hout⟩

/-- An action keeps what the rows know. -/
theorem WindowInv.known_play (h : WindowInv s.policies l) (ha : l.Allows X a)
    (hlic : Licence s l a) : ∀ r ∈ (l.play a).reservations.rows,
      ∃ p, s.policies.get? r.policyId = some p ∧ r.TokensKnown p.limits := by
  refine Ledger.forall_play h.known ha ?_ ?_
  · rintro r rfl
    obtain ⟨run, policy, o, now, hl⟩ := hlic
    exact ⟨policy, by rw [hl.policyId]; exact hl.seenPolicy, hl.tokensKnown⟩
  · rintro r r' he ⟨p, hp, hk⟩
    have hs := Action.edited_same he
    refine ⟨p, by rw [hs.policyId]; exact hp, fun ht => ?_⟩
    rw [hs.reservedInputTokens, hs.reservedOutputTokens]
    rw [hs.scopeIds] at ht
    exact hk ht

theorem settle_tokens {r : Reservation} {v : Settlement} {b : Bucket} :
    (b.settle r v).tokens = b.tokens - (amount r.reservedInputTokens + amount r.reservedOutputTokens)
      + (amount v.inputTokens + amount v.outputTokens) := by
  simp only [Bucket.tokens, Bucket.settle]
  ring

/-- The buckets of the policies of `s` are within their windows. -/
def WithinWindows (s : Store) (buckets : Table Bucket) (rows : Table Reservation) : Prop :=
  ∀ b ∈ buckets.rows, ∀ p, s.policies.get? b.key.policyId = some p → b.WithinWindow p.limits rows

/-- A bucket that only gives back stays within its window. -/
theorem WindowInv.lower (h : WindowInv s.policies l) (ha : l.Allows X a) {b b' : Bucket}
    (hb : b ∈ l.buckets.rows) (hk : b'.key = b.key) (hr : b'.requests ≤ b.requests)
    (ht : b'.tokens ≤ b.tokens) :
    ∀ p, s.policies.get? b'.key.policyId = some p →
      b'.WithinWindow p.limits (l.play a).reservations := by
  intro p hp
  rw [hk] at hp
  exact (h.window b hb p hp).lower ha hk hr ht

theorem WindowInv.same (h : WindowInv s.policies l) (ha : l.Allows X a) :
    WithinWindows s l.buckets (l.play a).reservations :=
  fun _ hb => h.lower ha hb rfl le_rfl le_rfl

/-- A reservation takes the room `_check_limits` has found in each bucket. -/
theorem WindowInv.reserve {r : Reservation} (h : WindowInv s.policies l)
    (ha : l.Allows X (.reserve r)) (hlic : Licence s l (.reserve r)) :
    WithinWindows s (l.play (.reserve r)).buckets (l.play (.reserve r)).reservations := by
  obtain ⟨run, policy, o, now, hl⟩ := hlic
  obtain ⟨scopes, buckets, hs, hb, hc⟩ := hl.limits
  have hchecked := (checkLimits_ok hc).2
  refine Table.forall_updateAt (f := Bucket.reserve r.reservedInputTokens r.reservedOutputTokens)
    (Bucket.key_reserve _ _) (fun b hbm hk p hp => ?_)
    fun b hbm _ => h.same ha b hbm
  have hk : b.key ∈ r.bucketKeys := hk
  obtain rfl : p = policy := by
    obtain ⟨i, -, hi⟩ := List.mem_map.mp hk
    have hid : b.key.policyId = policy.id := by
      rw [← hi, ← hl.policyId]
      rfl
    have hp : s.policies.get? b.key.policyId = some p := hp
    rw [hid] at hp
    exact Option.some.inj (hp.symm.trans hl.seenPolicy)
  refine .raise (room_of_checked hs hb (fun x hx => (hchecked x hx).window) hbm hk) rfl ?_ ?_
  · simp only [Bucket.requests, Bucket.reserve]
    ring
  · simp only [Bucket.tokens, Bucket.reserve, AttemptAmounts.tokens]
    ring

/-- A send into another window takes the room `_check_window_limits` has found
there, and gives back what it had taken in the old one. -/
theorem WindowInv.send_moved {r : Reservation} {now : Time} (h : WindowInv s.policies l)
    (ha : l.Allows X (.send r now (minuteStart now))) {run : Run} {policy : Policy}
    (hl : SendLicence (· = s) l r run policy now) (hmoved : minuteStart now ≠ r.windowStart) :
    WithinWindows s ((l.buckets.updateAt r.bucketKeys (Bucket.sendLeft r)
        (Bucket.key_sendLeft r)).updateAt (r.sent now (minuteStart now)).bucketKeys
        (Bucket.sendArrived r) (Bucket.key_sendArrived r))
      (l.play (.send r now (minuteStart now))).reservations := by
  obtain ⟨scopes, buckets, hs, hb, hc⟩ := hl.limits hmoved
  -- no key belongs to both windows
  have hdisjoint : ∀ k ∈ (r.sent now (minuteStart now)).bucketKeys, k ∉ r.bucketKeys := by
    intro k hk hk'
    obtain ⟨i, -, rfl⟩ := List.mem_map.mp hk
    obtain ⟨j, -, hj⟩ := List.mem_map.mp hk'
    exact hmoved (congrArg BucketKey.windowStart hj).symm
  refine Table.forall_updateAt _ (fun b₁ hb₁ hk p hp => ?_) fun b₁ hb₁ _ => ?_
  · obtain ⟨b, hbm, rfl⟩ := (Table.mem_updateAt _).mp hb₁
    have hk : b.key ∈ (r.sent now (minuteStart now)).bucketKeys := by
      have hkb := Table.key_ite (c := key b ∈ r.bucketKeys) (f := Bucket.sendLeft r)
        (Bucket.key_sendLeft r) b
      rw [hkb] at hk
      exact hk
    have hout : ¬ key b ∈ r.bucketKeys := hdisjoint _ hk
    rw [if_neg hout] at hp ⊢
    obtain rfl : p = policy := by
      obtain ⟨i, -, hi⟩ := List.mem_map.mp hk
      have hid : b.key.policyId = r.policyId := by
        rw [← hi]
        rfl
      obtain ⟨s, rfl, hpolicy⟩ := hl.seenPolicy
      have hp : s.policies.get? b.key.policyId = some p := hp
      rw [hid] at hp
      exact Option.some.inj (hp.symm.trans hpolicy)
    refine .raise (room_of_checked (r := r.sent now (minuteStart now)) hs hb
      (checkWindowLimits_ok hc) hbm hk) rfl ?_ ?_
    · simp only [Bucket.requests, Bucket.sendArrived]
      ring
    · simp only [Bucket.tokens, Bucket.sendArrived]
      ring
  · obtain ⟨b, hbm, rfl⟩ := (Table.mem_updateAt _).mp hb₁
    split
    · refine h.lower ha hbm rfl ?_ ?_
      · simp only [Bucket.requests, Bucket.sendLeft]
        omega
      · have hi := amount_nonneg r.reservedInputTokens
        have ho := amount_nonneg r.reservedOutputTokens
        simp only [Bucket.tokens, Bucket.sendLeft]
        omega
    · exact h.same ha b hbm

theorem WindowInv.send {r : Reservation} {now sendWindow : Time} (h : WindowInv s.policies l)
    (ha : l.Allows X (.send r now sendWindow)) (hlic : Licence s l (.send r now sendWindow)) :
    WithinWindows s (l.play (.send r now sendWindow)).buckets
      (l.play (.send r now sendWindow)).reservations := by
  obtain ⟨rfl, -, run, policy, hl⟩ := hlic
  by_cases hmoved : minuteStart now = r.windowStart
  · -- the request goes from reserved to consumed in its own window
    rw [show (l.play (.send r now (minuteStart now))).buckets =
      l.buckets.updateAt r.bucketKeys Bucket.sendStarted Bucket.key_sendStarted from if_pos hmoved]
    refine Table.forall_updateAt _ (fun b hbm _ => ?_) fun b hbm _ => h.same ha b hbm
    refine h.lower ha hbm rfl (le_of_eq ?_) le_rfl
    simp only [Bucket.requests, Bucket.sendStarted]
    ring
  · rw [show (l.play (.send r now (minuteStart now))).buckets = _ from if_neg hmoved]
    exact h.send_moved ha hl hmoved

theorem WindowInv.release {r : Reservation} {now : Time} {reconciled : Bool}
    (h : WindowInv s.policies l) (ha : l.Allows X (.release r now reconciled)) :
    WithinWindows s (l.play (.release r now reconciled)).buckets
      (l.play (.release r now reconciled)).reservations := by
  refine Table.forall_updateAt (f := Bucket.release r) (Bucket.key_release r) (fun b hbm _ => ?_)
    fun b hbm _ => h.same ha b hbm
  refine h.lower ha hbm rfl ?_ ?_
  · simp only [Bucket.requests, Bucket.release]
    omega
  · have hi := amount_nonneg r.reservedInputTokens
    have ho := amount_nonneg r.reservedOutputTokens
    simp only [Bucket.tokens, Bucket.release]
    omega

/-- A settlement replaces the reserved tokens by the actual ones: either the
bucket gives back, or the settled row is overspent. -/
theorem WindowInv.settle {r : Reservation} {v : Settlement} {explicit : Bool} {now : Time}
    {outcome : Outcome} {conservative : Bool} (h : WindowInv s.policies l)
    (ha : l.Allows X (.settle r v explicit now outcome conservative)) :
    WithinWindows s (l.play (.settle r v explicit now outcome conservative)).buckets
      (l.play (.settle r v explicit now outcome conservative)).reservations := by
  refine Table.forall_updateAt (f := Bucket.settle r v) (Bucket.key_settle r v) (fun b hbm hk p hp => ?_)
    fun b hbm _ => h.same ha b hbm
  have hk : b.key ∈ r.bucketKeys := hk
  have hp : s.policies.get? b.key.policyId = some p := hp
  have hw := h.window b hbm p hp
  refine ⟨hw.requests, fun n hn => ?_⟩
  by_cases hover : amount v.inputTokens + amount v.outputTokens ≤
      amount r.reservedInputTokens + amount r.reservedOutputTokens
  · have ht : (b.settle r v).tokens ≤ b.tokens := by
      rw [settle_tokens]
      omega
    have hlow := hw.lower ha (show (b.settle r v).key = b.key from rfl) le_rfl ht
    exact hlow.tokens n hn
  · obtain ⟨i, hi, hbi⟩ := List.mem_map.mp hk
    obtain ⟨p', hp', hknown⟩ := h.known r (Table.mem_of_get? ha.1)
    rw [← hbi] at hp
    obtain rfl : p' = p := Option.some.inj (hp'.symm.trans hp)
    have hn : n ∈ p'.limits.tokensPerMinute.get b.key.scopeId.scopeType := hn
    rw [← hbi] at hn
    obtain ⟨hin, hout⟩ := hknown ⟨i, hi, Option.isSome_iff_exists.mpr ⟨n, hn⟩⟩
    obtain ⟨x, hx⟩ := Option.isSome_iff_exists.mp hin
    obtain ⟨y, hy⟩ := Option.isSome_iff_exists.mp hout
    refine Or.inr ⟨r.settledAs v now outcome conservative, ?_, hk,
      Ledger.settled_settledAs r v now outcome conservative, x, y, hx, hy, ?_⟩
    · have hput : (l.reservations.put (r.settledAs v now outcome conservative)).get? r.id =
          some (r.settledAs v now outcome conservative) :=
        Table.get?_put_self (r := r.settledAs v now outcome conservative) ha.1
      exact Table.mem_of_get? hput
    · rw [hx, hy] at hover
      simp only [amount, Option.getD_some] at hover
      simp only [Reservation.settledAs, amount]
      push_cast
      omega

/-- An action keeps every bucket within its window. -/
theorem WindowInv.play (h : WindowInv s.policies l) (ha : l.Allows X a) (hlic : Licence s l a) :
    WindowInv s.policies (l.play a) := by
  refine ⟨h.known_play ha hlic, ?_⟩
  cases a with
  | openScope i => exact h.same ha
  | openBucket k =>
    intro b hb p hp
    rcases Table.mem_insert.mp hb with hb | ⟨-, rfl⟩
    · exact h.same ha b hb p hp
    · exact ⟨fun n _ => Int.natCast_nonneg n, fun n _ => Or.inl (Int.natCast_nonneg n)⟩
  | reserve r => exact h.reserve ha hlic
  | send r now sendWindow => exact h.send ha hlic
  | release r now reconciled => exact h.release ha
  | settle r v explicit now outcome conservative => exact h.settle ha
  | renew r expiresAt => exact h.same ha

/-- A bucket without rows is empty. -/
theorem Bucket.Balanced.empty {rows : Table Reservation} {b : Bucket} (h : b.Balanced rows)
    (hrows : ∀ r ∈ rows.rows, b.key ∉ r.bucketKeys) : b.requests = 0 ∧ b.tokens = 0 := by
  have hzero (c : BucketCounter) : b.count c = 0 :=
    (h c).trans (bucketSummary.sum_of_not_mem hrows c)
  have h₁ := hzero .reservedRequests
  have h₂ := hzero .consumedRequests
  have h₃ := hzero .reservedInputTokens
  have h₄ := hzero .reservedOutputTokens
  have h₅ := hzero .consumedInputTokens
  have h₆ := hzero .consumedOutputTokens
  simp only [Bucket.count] at h₁ h₂ h₃ h₄ h₅ h₆
  simp only [Bucket.requests, Bucket.tokens]
  omega

theorem WindowInv.step {o : Op} {u : Unit} (hi : BooksInv s) (h : WindowInv s.policies s.ledger)
    (hx : exec schema (o.tx cfg) s = .ok (u, s')) : WindowInv s'.policies s'.ledger := by
  obtain ⟨acts, hp, hl, -⟩ := Account.of_exec hi hx
  have hkeep := (steps_of_exec hx).2
  have hw : WindowInv s.policies s'.ledger := by
    rw [hl]
    exact hp.invariant (I := WindowInv s.policies) h fun l a h ha hlic => h.play ha hlic
  refine ⟨fun r hr => ?_, fun b hb p' hp' => ?_⟩
  · obtain ⟨p, hget, hk⟩ := hw.known r hr
    obtain ⟨p', hget', hlim⟩ := hkeep _ _ hget
    exact ⟨p', hget', by rw [hlim]; exact hk⟩
  · rcases hget : s.policies.get? b.key.policyId with _ | p
    · -- a policy made by this operation has no rows yet
      have hempty := ((hi.step hx).balanced.bucket b hb).empty fun r hr hk => by
        obtain ⟨i, -, hi⟩ := List.mem_map.mp hk
        obtain ⟨p, hknown, -⟩ := hw.known r hr
        rw [← hi] at hget
        exact absurd (hget.symm.trans hknown) nofun
      refine ⟨fun n _ => ?_, fun n _ => Or.inl ?_⟩
      · rw [hempty.1]
        exact Int.natCast_nonneg n
      · rw [hempty.2]
        exact Int.natCast_nonneg n
    · obtain ⟨p'', hget', hlim⟩ := hkeep _ _ hget
      obtain rfl : p'' = p' := Option.some.inj (hget'.symm.trans hp')
      rw [hlim]
      exact hw.window b hb p hget

theorem Committed.windowInv (h : Committed cfg s) : WindowInv s.policies s.ledger := by
  have hboth : BooksInv s ∧ WindowInv s.policies s.ledger := by
    refine h.invariant (I := fun s => BooksInv s ∧ WindowInv s.policies s.ledger) ⟨.empty, ?_⟩ ?_
    · exact ⟨fun _ hr => absurd hr List.not_mem_nil, fun _ hb => absurd hb List.not_mem_nil⟩
    · rintro s s' o u ⟨hi, hw⟩ hx
      exact ⟨hi.step hx, hw.step hi hx⟩
  exact hboth.2

end Windows

/-- **Minute windows.** After any sequence of committed operations the requests
of a minute bucket, reserved and consumed, are within the limit its policy sets
for that type of scope, and so are its tokens unless a row of the bucket was
settled with more tokens than it had reserved. -/
theorem minute_window_limits (cfg : Config) (s : Store) (h : Committed cfg s) (b : Bucket)
    (hb : b ∈ s.ledger.buckets.rows) (p : Policy)
    (hp : s.policies.get? b.key.policyId = some p) :
    (∀ n ∈ p.limits.requestsPerMinute.get b.key.scopeId.scopeType, b.requests ≤ n) ∧
      ∀ n ∈ p.limits.tokensPerMinute.get b.key.scopeId.scopeType, b.tokens ≤ n ∨
        ∃ r ∈ s.ledger.reservations.rows, b.key ∈ r.bucketKeys ∧ r.Overspent :=
  have hw := h.windowInv.window b hb p hp
  ⟨hw.requests, hw.tokens⟩

/-- Two requests and twenty tokens a minute for each Run, sent a minute after
they were reserved. -/
def Sample.windowRun : List Op :=
  [.applyPolicy ⟨⟨none, none, none, none⟩, ⟨none, none, none, some 2⟩, ⟨none, none, none, some 20⟩,
      ⟨none, none, none⟩, ⟨none, none, none⟩, some 10, some 5⟩ 3 50 5,
    .admitRun (Sample.newRun 1 ⟨some 4, none, none, none⟩) 10, .claim 1 100 59999990,
    .questionContext 1 1 5 4 100 1 (some 6) none 59999991,
    .reserve 7 ⟨1, 1, 5, 4, 1, 0, 1, some 4, some 6, none⟩ 1 100 59999995,
    .markSendStarted ⟨7, 1⟩ 100 60000005]

theorem minute_window_limits_sample :
    ∃ b p, b ∈ (Sample.after Sample.windowRun).ledger.buckets.rows ∧ b.key.windowStart = 60000000 ∧
      (Sample.after Sample.windowRun).policies.get? b.key.policyId = some p ∧
      p.limits.tokensPerMinute.get b.key.scopeId.scopeType = some 20 ∧ b.tokens = 10 ∧
      (∀ n ∈ p.limits.tokensPerMinute.get b.key.scopeId.scopeType, b.tokens ≤ n ∨
        ∃ r ∈ (Sample.after Sample.windowRun).ledger.reservations.rows,
          b.key ∈ r.bucketKeys ∧ r.Overspent) := by
  have hb : ((Sample.after Sample.windowRun).ledger.buckets.get? ⟨⟨.run, 1⟩, 3, 60000000⟩).map
      Bucket.tokens = some 10 := by decide +kernel
  have hp : ((Sample.after Sample.windowRun).policies.get? 3).map
      (fun p => p.limits.tokensPerMinute.run) = some (some 20) := by decide +kernel
  obtain ⟨b, hget, ht⟩ := Option.map_eq_some_iff.mp hb
  obtain ⟨p, hgetp, hlim⟩ := Option.map_eq_some_iff.mp hp
  have hk : b.key = ⟨⟨.run, 1⟩, 3, 60000000⟩ := Table.key_of_get? hget
  have hp' : (Sample.after Sample.windowRun).policies.get? b.key.policyId = some p := by
    rw [hk]
    exact hgetp
  refine ⟨b, p, Table.mem_of_get? hget, by rw [hk], hp', by rw [hk]; exact hlim, ht, ?_⟩
  exact (minute_window_limits Sample.config _ (Sample.committed_after _) b
    (Table.mem_of_get? hget) p hp').2

/-! ## Budgets of a Run -/

/-- The effective budgets of a Run: the stricter of the policy's and its own. -/
def PolicyLimits.runBudgets (p : PolicyLimits) (o : RunOverrides) : Budgets :=
  ⟨stricter p.runLifetime.requests o.lifetimeRequestBudget,
    stricter p.runLifetime.tokens o.lifetimeTokenBudget,
    stricter p.runLifetime.costUsd o.lifetimeCostBudgetUsd⟩

/-- The Run scope keeps its budgets, those of tokens and cost as long as it is
not overdrawn. -/
structure Scope.WithinBudgets (p : PolicyLimits) (o : RunOverrides) (x : Scope) : Prop where
  requests : ∀ n ∈ (p.runBudgets o).requests, x.requests ≤ n
  active : ∀ n ∈ p.concurrencyLimit.run, x.activeReservations ≤ n
  tokens : x.overdrawn = false → ∀ n ∈ (p.runBudgets o).tokens, x.tokens ≤ n
  cost : x.overdrawn = false → ∀ n ∈ (p.runBudgets o).costUsd, x.cost ≤ n

/-- A budget makes the rows of the Run know what they reserve. -/
structure Reservation.AmountsKnown (p : PolicyLimits) (o : RunOverrides) (r : Reservation) :
    Prop where
  tokens : (p.runBudgets o).tokens.isSome → o.inputTokenReservation.isSome ∧
    r.reservedInputTokens.isSome ∧ r.reservedOutputTokens.isSome
  cost : (p.runBudgets o).costUsd.isSome → o.inputTokenReservation.isSome ∧
    r.reservedCostUsd.isSome

theorem isSome_stricter {a b : Option ℕ} (h : (stricter a b).isSome) : a.isSome ∨ b.isSome := by
  cases a with
  | none => exact Or.inr h
  | some n => exact Or.inl rfl

section Lifetimes

variable {X : Option RunId → Bool} {l : Ledger} {a : Action} {p : PolicyLimits} {o : RunOverrides}
  {i : RunId}

/-- The rows of Run `i` know their amounts, no other row is in its scope, and the
scope keeps its budgets. -/
structure BudgetInv (p : PolicyLimits) (o : RunOverrides) (i : RunId) (l : Ledger) : Prop where
  placed : ∀ r ∈ l.reservations.rows, ∀ q ∈ r.question, q.runScope = q.runId
  known : ∀ r ∈ l.reservations.rows, r.runId = some i → r.AmountsKnown p o
  scope : ∀ x ∈ l.scopes.rows, x.id = ⟨.run, i⟩ → x.WithinBudgets p o

theorem run_of_mem_scopeIds {r : Reservation} (hplaced : ∀ q ∈ r.question, q.runScope = q.runId)
    (h : (⟨.run, i⟩ : ScopeId) ∈ r.scopeIds) : r.runId = some i := by
  rcases hq : r.question with _ | q
  · simp [Reservation.scopeIds, hq] at h
  · have hi : i = q.runScope := by simpa [Reservation.scopeIds, hq] using h
    simp only [Reservation.runId, hq, Option.map_some, Option.some.injEq]
    rw [hi, hplaced q hq]

/-- What `reserve` has checked of the scope of its Run. -/
theorem ReserveLicence.checkedRun {P : Policy → Prop} {D : Store → Prop} {r : Reservation}
    {run : Run} {policy : Policy} {o : RunOverrides} {now : Time}
    (h : ReserveLicence P D l r run policy o now) :
    ∃ x, l.scopes.get? ⟨.run, run.id⟩ = some x ∧ ∃ buckets, CheckedScope policy.limits o buckets
      ⟨r.reservedInputTokens, r.reservedOutputTokens, r.reservedCostUsd⟩ x := by
  obtain ⟨scopes, buckets, hs, -, hc⟩ := h.limits
  obtain ⟨q, hq⟩ := h.question
  have hi : (⟨.run, run.id⟩ : ScopeId) ∈ r.scopeIds := by simp [Reservation.scopeIds, hq]
  obtain ⟨x, hx, -, hget⟩ := hs.exists hi
  exact ⟨x, hget, buckets, (checkLimits_ok hc).2 x hx⟩

theorem ReserveLicence.amountsKnown {P : Policy → Prop} {D : Store → Prop} {r : Reservation}
    {run : Run} {policy : Policy} {o : RunOverrides} {now : Time}
    (h : ReserveLicence P D l r run policy o now) : r.AmountsKnown policy.limits o := by
  obtain ⟨scopes, buckets, -, -, hc⟩ := h.limits
  obtain ⟨htokens, hcost⟩ := (checkLimits_ok hc).1
  exact ⟨fun ht => htokens (Or.inr (isSome_stricter ht)), fun hm => hcost (isSome_stricter hm)⟩

theorem ReserveLicence.overrides {P : Policy → Prop} {D : Store → Prop} {r : Reservation}
    {run : Run} {policy : Policy} {o : RunOverrides} {now : Time}
    (h : ReserveLicence P D l r run policy o now) : o = run.overrideSnapshot :=
  of_decide_eq_true (Option.filter_eq_some_iff.mp h.frozen).2

theorem ReserveLicence.policyLimits {P : Policy → Prop} {D : Store → Prop} {r : Reservation}
    {run : Run} {policy : Policy} {o : RunOverrides} {now : Time} {g : GovernanceSnapshot}
    (h : ReserveLicence P D l r run policy o now) (hg : run.governanceSnapshot = some g) :
    policy.limits = g.policy.limits := by
  obtain ⟨g', hg', hp⟩ := h.snapshot
  obtain rfl : g' = g := Option.some.inj (hg'.symm.trans hg)
  rw [hp]
  rfl

/-- A settlement that does not overdraw the scope costs no more than the
reservation. -/
theorem settle_amounts {r : Reservation} {v : Settlement} {x : Scope}
    (hk : r.AmountsKnown p o) (hover : v.overdraws r o.inputTokenReservation.isSome = false) :
    ((p.runBudgets o).tokens.isSome →
        (x.settle r v o.inputTokenReservation.isSome).tokens ≤ x.tokens) ∧
      ((p.runBudgets o).costUsd.isSome →
        (x.settle r v o.inputTokenReservation.isSome).cost ≤ x.cost) := by
  have hle {actual reserved : Option ℕ} (hr : reserved.isSome)
      (h : exceeds actual reserved = false) : amount actual ≤ amount reserved := by
    obtain ⟨n, rfl⟩ := Option.isSome_iff_exists.mp hr
    cases actual with
    | none => exact amount_nonneg _
    | some m =>
      simp only [exceeds, decide_eq_false_iff_not, not_lt] at h
      simp only [amount, Option.getD_some]
      omega
  constructor
  · intro ht
    obtain ⟨hin, hri, hro⟩ := hk.tokens ht
    simp only [Settlement.overdraws, hin, Bool.true_and, Bool.or_eq_false_iff] at hover
    have h₁ := hle hri hover.1.1
    have h₂ := hle hro hover.1.2
    simp only [Scope.tokens, Scope.settle]
    omega
  · intro hm
    obtain ⟨hin, hrc⟩ := hk.cost hm
    simp only [Settlement.overdraws, hin, Bool.true_and, Bool.or_eq_false_iff] at hover
    have h₁ := hle hrc hover.2
    simp only [Scope.cost, Scope.settle]
    omega

/-- A scope that only gives back keeps its budgets. -/
theorem Scope.WithinBudgets.lower {x x' : Scope} (h : x.WithinBudgets p o)
    (hr : x'.requests ≤ x.requests) (ha : x'.activeReservations ≤ x.activeReservations)
    (ho : x'.overdrawn = false → x.overdrawn = false)
    (ht : x'.overdrawn = false → (p.runBudgets o).tokens.isSome → x'.tokens ≤ x.tokens)
    (hc : x'.overdrawn = false → (p.runBudgets o).costUsd.isSome → x'.cost ≤ x.cost) :
    x'.WithinBudgets p o where
  requests n hn := hr.trans (h.requests n hn)
  active n hn := ha.trans (h.active n hn)
  tokens hover n hn :=
    (ht hover (Option.isSome_iff_exists.mpr ⟨n, hn⟩)).trans (h.tokens (ho hover) n hn)
  cost hover n hn :=
    (hc hover (Option.isSome_iff_exists.mpr ⟨n, hn⟩)).trans (h.cost (ho hover) n hn)

/-- A scope that has taken what it had room for. -/
theorem CheckedScope.reserve {buckets : List Bucket} {a : AttemptAmounts} {x : Scope}
    (h : CheckedScope p o buckets a x) (hid : x.id.scopeType = .run) :
    (x.reserve a.inputTokens a.outputTokens a.costUsd).WithinBudgets p o := by
  have hroom := h.lifetime (p.runBudgets o) (by rw [hid]; rfl)
  have hconc := h.concurrency
  rw [hid] at hconc
  refine ⟨fun n hn => ?_, hconc, fun _ n hn => ?_, fun _ n hn => ?_⟩
  · have hn := hroom.requests n hn
    simp only [Scope.requests, Scope.reserve] at hn ⊢
    omega
  · have hn := hroom.tokens n hn
    simp only [Scope.tokens, Scope.reserve, AttemptAmounts.tokens] at hn ⊢
    omega
  · have hn := hroom.cost n hn
    simp only [Scope.cost, Scope.reserve] at hn ⊢
    omega

variable {run : Run} {g : GovernanceSnapshot}

/-- The row of another Run is not in the scope of Run `i`. -/
theorem ReserveLicence.run_of_scope {P : Policy → Prop} {D : Store → Prop} {r : Reservation}
    {policy : Policy} {now : Time} (h : ReserveLicence P D l r run policy o now) :
    (∀ q ∈ r.question, q.runScope = q.runId) ∧
      ((⟨.run, i⟩ : ScopeId) ∈ r.scopeIds → i = run.id) := by
  obtain ⟨q, hq⟩ := h.question
  have hplaced : ∀ q' ∈ r.question, q'.runScope = q'.runId := by
    intro q' hq'
    rw [hq] at hq'
    cases hq'
    rfl
  refine ⟨hplaced, fun hi => ?_⟩
  have hrun := run_of_mem_scopeIds hplaced hi
  simp only [Reservation.runId, hq, Option.map_some, Option.some.injEq] at hrun
  exact hrun.symm

/-- A row is placed in the scope of its own Run. -/
theorem placed_play (h : ∀ r ∈ l.reservations.rows, ∀ q ∈ r.question, q.runScope = q.runId)
    (ha : l.Allows X a) (hlic : Licence s l a) :
    ∀ r ∈ (l.play a).reservations.rows, ∀ q ∈ r.question, q.runScope = q.runId := by
  refine Ledger.forall_play h ha ?_ ?_
  · rintro r rfl
    obtain ⟨run', policy, o, now, hl⟩ := hlic
    exact (hl.run_of_scope (i := 0)).1
  · intro r r' he hr
    rw [(Action.edited_same he).question]
    exact hr

/-- An action keeps the budgets of a Run whose limits are frozen in its row. -/
theorem BudgetInv.play (h : BudgetInv g.policy.limits run.overrideSnapshot run.id l)
    (hrun : s.runs.get? run.id = some run) (hg : run.governanceSnapshot = some g)
    (ha : l.Allows (explicitOf s.runs) a) (hlic : Licence s l a) :
    BudgetInv g.policy.limits run.overrideSnapshot run.id (l.play a) := by
  have hplaced := placed_play h.placed ha hlic
  -- a licence of this Run is for its frozen limits
  have hown : ∀ {r : Reservation} {run' : Run} {policy : Policy} {o : RunOverrides} {now : Time},
      ReserveLicence (Knows s) (· = s) l r run' policy o now → run'.id = run.id →
      policy.limits = g.policy.limits ∧ o = run.overrideSnapshot := by
    intro r run' policy o now hl hid
    obtain ⟨d, rfl, hseen⟩ := hl.seenRun
    rw [hid] at hseen
    obtain rfl : run' = run := Option.some.inj (hseen.symm.trans hrun)
    exact ⟨hl.policyLimits hg, hl.overrides⟩
  refine ⟨hplaced, ?_, ?_⟩
  · refine Ledger.forall_play h.known ha ?_ ?_
    · rintro r rfl hri
      obtain ⟨run', policy, o, now, hl⟩ := hlic
      obtain ⟨q, hq⟩ := hl.question
      have hid : run'.id = run.id := by simpa [Reservation.runId, hq] using hri
      obtain ⟨hlim, rfl⟩ := hown hl hid
      rw [← hlim]
      exact hl.amountsKnown
    · intro r r' he hk hri
      have hs := Action.edited_same he
      have hri : r.runId = some run.id := by
        rw [Reservation.runId, ← hs.question]
        exact hri
      obtain ⟨htokens, hcost⟩ := hk hri
      refine ⟨fun ht => ?_, fun hm => ?_⟩
      · rw [hs.reservedInputTokens, hs.reservedOutputTokens]
        exact htokens ht
      · rw [hs.reservedCostUsd]
        exact hcost hm
  · cases a with
    | openScope j =>
      intro x hx hid
      rcases Table.mem_insert.mp hx with hx | ⟨-, rfl⟩
      · exact h.scope x hx hid
      · exact ⟨fun n _ => Int.natCast_nonneg n, fun n _ => Int.natCast_nonneg n,
          fun _ n _ => Int.natCast_nonneg n, fun _ n _ => Int.natCast_nonneg n⟩
    | openBucket k => exact h.scope
    | reserve r =>
      obtain ⟨run', policy, o, now, hl⟩ := hlic
      refine Table.forall_updateAt
        (f := Scope.reserve r.reservedInputTokens r.reservedOutputTokens r.reservedCostUsd)
        (Scope.key_reserve _ _ _) (fun x hx hk hid => ?_) fun x hx _ => h.scope x hx
      have hid : x.id = ⟨.run, run.id⟩ := hid
      have hk : (⟨.run, run.id⟩ : ScopeId) ∈ r.scopeIds := by
        rw [← hid]
        exact hk
      have hsame := (hl.run_of_scope.2 hk).symm
      obtain ⟨hlim, rfl⟩ := hown hl hsame
      obtain ⟨y, hy, buckets, hchecked⟩ := hl.checkedRun
      obtain rfl : y = x := by
        rw [hsame, ← hid] at hy
        exact Option.some.inj (hy.symm.trans (Table.get?_of_mem hx))
      rw [← hlim]
      exact hchecked.reserve (by rw [hid])
    | send r now sendWindow =>
      refine Table.forall_updateAt (f := Scope.sendStarted) Scope.key_sendStarted
        (fun x hx _ hid => ?_) fun x hx _ => h.scope x hx
      refine (h.scope x hx hid).lower (le_of_eq ?_) le_rfl id (fun _ _ => le_rfl) fun _ _ => le_rfl
      simp only [Scope.requests, Scope.sendStarted]
      ring
    | release r now reconciled =>
      refine Table.forall_updateAt (f := Scope.release r) (Scope.key_release r)
        (fun x hx _ hid => ?_) fun x hx _ => h.scope x hx
      have hi := amount_nonneg r.reservedInputTokens
      have ho := amount_nonneg r.reservedOutputTokens
      have hc := amount_nonneg r.reservedCostUsd
      refine (h.scope x hx hid).lower ?_ ?_ id (fun _ _ => ?_) fun _ _ => ?_
      · simp only [Scope.requests, Scope.release]
        omega
      · simp only [Scope.release]
        omega
      · simp only [Scope.tokens, Scope.release]
        omega
      · simp only [Scope.cost, Scope.release]
        omega
    | settle r v explicit now outcome conservative =>
      refine Table.forall_updateAt (f := Scope.settle r v explicit) (Scope.key_settle r v explicit)
        (fun x hx hk hid => ?_) fun x hx _ => h.scope x hx
      have hid : x.id = ⟨.run, run.id⟩ := hid
      obtain ⟨hr, -, rfl⟩ := ha
      have hmem := Table.mem_of_get? hr
      -- the row belongs to this Run, so its reservation is known where it counts
      have hri : r.runId = some run.id := run_of_mem_scopeIds (h.placed r hmem) (by
        rw [← hid]
        exact hk)
      have hexplicit : explicitOf s.runs r.runId =
          run.overrideSnapshot.inputTokenReservation.isSome := by
        rw [hri, explicitOf, hrun]
        rfl
      rw [hexplicit]
      have hover : (x.settle r v run.overrideSnapshot.inputTokenReservation.isSome).overdrawn =
          false → v.overdraws r run.overrideSnapshot.inputTokenReservation.isSome = false ∧
            x.overdrawn = false := by
        simp only [Scope.settle]
        split
        · rintro ⟨⟩
        · next hno => exact fun hx => ⟨by simpa using hno, hx⟩
      refine (h.scope x hx hid).lower le_rfl ?_ (fun hn => (hover hn).2) (fun hn ht => ?_)
        fun hn hm => ?_
      · simp only [Scope.settle]
        omega
      · exact (settle_amounts (h.known r hmem hri) (hover hn).1).1 ht
      · exact (settle_amounts (h.known r hmem hri) (hover hn).1).2 hm
    | renew r expiresAt => exact h.scope

/-- A scope without rows is empty. -/
theorem Scope.Balanced.empty {rows : Table Reservation} {x : Scope} (h : x.Balanced X rows)
    (hrows : ∀ r ∈ rows.rows, x.id ∉ r.scopeIds) :
    x.activeReservations = 0 ∧ x.requests = 0 ∧ x.tokens = 0 ∧ x.cost = 0 := by
  have hzero (c : Counter) : x.count c = 0 :=
    (h.count c).trans ((scopeSummary X).sum_of_not_mem hrows (some c))
  have h₀ := hzero .activeReservations
  have h₁ := hzero .reservedRequests
  have h₂ := hzero .consumedRequests
  have h₃ := hzero .reservedInputTokens
  have h₄ := hzero .reservedOutputTokens
  have h₅ := hzero .consumedInputTokens
  have h₆ := hzero .consumedOutputTokens
  have h₇ := hzero .reservedCostUsd
  have h₈ := hzero .consumedCostUsd
  simp only [Scope.count] at h₀ h₁ h₂ h₃ h₄ h₅ h₆ h₇ h₈
  simp only [Scope.requests, Scope.tokens, Scope.cost]
  omega

/-- Every Run is within the budgets it has frozen. -/
def BudgetsInv (s : Store) : Prop :=
  (∀ r ∈ s.ledger.reservations.rows, ∀ q ∈ r.question, q.runScope = q.runId) ∧
    ∀ (run : Run) (g : GovernanceSnapshot), s.runs.get? run.id = some run →
      run.governanceSnapshot = some g →
      BudgetInv g.policy.limits run.overrideSnapshot run.id s.ledger

theorem BudgetsInv.step {op : Op} {u : Unit} (hi : BooksInv s) (h : BudgetsInv s)
    (hx : exec schema (op.tx cfg) s = .ok (u, s')) : BudgetsInv s' := by
  have hrooted := hi.rooted hx
  obtain ⟨acts, hp, hl, -⟩ := Account.of_exec hi hx
  have hplaced : ∀ r ∈ s'.ledger.reservations.rows, ∀ q ∈ r.question, q.runScope = q.runId := by
    rw [hl]
    exact hp.invariant (I := fun l => ∀ r ∈ l.reservations.rows, ∀ q ∈ r.question,
      q.runScope = q.runId) h.1 fun _ _ h ha hlic => placed_play h ha hlic
  refine ⟨hplaced, fun run' g hrun' hg => ?_⟩
  rcases hrun : s.runs.get? run'.id with _ | run
  · -- a Run admitted by this operation has no rows yet
    have hnone : ∀ r ∈ s'.ledger.reservations.rows, r.runId ≠ some run'.id := by
      intro r hr hri
      have hsome := (hrooted r hr).1 run'.id hri
      rw [hrun] at hsome
      cases hsome
    refine ⟨hplaced, fun r hr hri => absurd hri (hnone r hr), fun x hx' hid => ?_⟩
    obtain ⟨h₁, h₂, h₃, h₄⟩ := ((hi.step hx).balanced.scope x hx').empty fun r hr hk => by
      rw [hid] at hk
      exact hnone r hr (run_of_mem_scopeIds (hplaced r hr) hk)
    refine ⟨fun n _ => ?_, fun n _ => ?_, fun _ n _ => ?_, fun _ n _ => ?_⟩ <;> omega
  · have hid : run.id = run'.id := Table.key_of_get? hrun
    obtain ⟨run'', hrun'', ho⟩ := sameOrigin_of_exec hx hrun
    obtain rfl : run'' = run' := Option.some.inj (hrun''.symm.trans hrun')
    rw [← hid] at hrun
    rw [ho.overrides, ← hid, hl]
    rw [ho.governanceSnapshot] at hg
    exact hp.invariant (I := BudgetInv g.policy.limits run.overrideSnapshot run.id)
      (h.2 run g hrun hg) fun _ _ h ha hlic => h.play hrun hg ha hlic

theorem Committed.budgetsInv (h : Committed cfg s) : BudgetsInv s := by
  have hboth : BooksInv s ∧ BudgetsInv s := by
    refine h.invariant (I := fun s => BooksInv s ∧ BudgetsInv s) ⟨.empty, ?_⟩ ?_
    · exact ⟨fun _ hr => absurd hr List.not_mem_nil, fun _ _ hr => absurd hr nofun⟩
    · rintro s s' o u ⟨hi, hb⟩ hx
      exact ⟨hi.step hx, hb.step hi hx⟩
  exact hboth.2

end Lifetimes

/-! ## Overdrawn Runs -/

section Overdrawn

variable {X : Option RunId → Bool} {l : Ledger} {a : Action} {i : ScopeId}

/-- The scope is overdrawn. -/
def Ledger.Overdrawn (l : Ledger) (i : ScopeId) : Prop :=
  ∃ x, l.scopes.get? i = some x ∧ x.overdrawn = true

theorem overdrawn_updateAt {scopes : Table Scope} {ids : List ScopeId} {f : Scope → Scope}
    (hf : ∀ x, key (f x) = key x) (hover : ∀ x, x.overdrawn = true → (f x).overdrawn = true)
    (h : ∃ x, scopes.get? i = some x ∧ x.overdrawn = true) :
    ∃ x, (scopes.updateAt ids f hf).get? i = some x ∧ x.overdrawn = true := by
  obtain ⟨x, hx, ho⟩ := h
  refine ⟨if i ∈ ids then f x else x, ?_, ?_⟩
  · rw [Table.get?_updateAt, hx]
    rfl
  · split
    · exact hover x ho
    · exact ho

/-- No action takes an overdraft back. -/
theorem Ledger.Overdrawn.play (h : l.Overdrawn i) : (l.play a).Overdrawn i := by
  cases a with
  | openScope j =>
    obtain ⟨x, hx, ho⟩ := h
    refine ⟨x, ?_, ho⟩
    show (l.scopes.insert (.zero j)).get? i = some x
    rw [Table.get?_insert]
    split
    · next hk => rw [← hk, hx]; rfl
    · exact hx
  | openBucket k => exact h
  | reserve r => exact overdrawn_updateAt (Scope.key_reserve _ _ _) (fun _ hx => hx) h
  | send r now sendWindow => exact overdrawn_updateAt Scope.key_sendStarted (fun _ hx => hx) h
  | release r now reconciled => exact overdrawn_updateAt (Scope.key_release r) (fun _ hx => hx) h
  | settle r v explicit now outcome conservative =>
    refine overdrawn_updateAt (Scope.key_settle r v explicit) (fun x hx => ?_) h
    simp only [Scope.settle]
    split
    · rfl
    · exact hx
  | renew r expiresAt => exact h

/-- The scope of Run `i` is overdrawn, and its rows are among `ids`. -/
def Drained (i : RunId) (ids : List ReservationId) (l : Ledger) : Prop :=
  l.Overdrawn ⟨.run, i⟩ ∧ ∀ r ∈ l.reservations.rows, r.runId = some i → r.id ∈ ids

/-- No row is added to a Run whose scope is overdrawn. -/
theorem Drained.play {i : RunId} {ids : List ReservationId} (h : Drained i ids l)
    (ha : l.Allows X a) (hlic : Licence s l a) : Drained i ids (l.play a) := by
  refine ⟨h.1.play, Ledger.forall_play h.2 ha ?_ ?_⟩
  · rintro r rfl hri
    obtain ⟨run, policy, o, now, hl⟩ := hlic
    obtain ⟨q, hq⟩ := hl.question
    have hid : run.id = i := by simpa [Reservation.runId, hq] using hri
    obtain ⟨x, hx, ho⟩ := h.1
    obtain ⟨y, hy, buckets, hchecked⟩ := hl.checkedRun
    rw [hid] at hy
    obtain rfl : y = x := Option.some.inj (hy.symm.trans hx)
    rw [hchecked.sound] at ho
    cases ho
  · intro r r' he hr hri
    have hs := Action.edited_same he
    rw [hs.id]
    refine hr ?_
    rw [Reservation.runId, ← hs.question]
    exact hri

/-- An operation adds no row to a Run whose scope is overdrawn. -/
theorem Drained.step {i : RunId} {ids : List ReservationId} {o : Op} {u : Unit} (hi : BooksInv s)
    (h : Drained i ids s.ledger) (hx : exec schema (o.tx cfg) s = .ok (u, s')) :
    Drained i ids s'.ledger := by
  obtain ⟨acts, hp, hl, -⟩ := Account.of_exec hi hx
  rw [hl]
  exact hp.invariant h fun _ _ h ha hlic => h.play ha hlic

end Overdrawn

theorem insertReservation_permit {r : Reservation} {a : AttemptAmounts} {scopes : List Scope}
    {buckets : List Bucket} {execution : QuestionExecution} {run : Run} {now : Time}
    {permit : Permit}
    (h : exec schema (insertReservation r a scopes buckets execution run now) s =
      .ok (permit, s')) : s'.ledger.reservations.get? permit.reservationId = some r := by
  simp only [insertReservation, Prog.read, bind_eq, Prog.bind, exec_query] at h
  obtain ⟨hnone, h⟩ := exec_ensure_bind h
  obtain ⟨-, h⟩ := exec_ensure_bind h
  obtain ⟨t, -, h⟩ := exec_audit_bind (exec_flush_bind h)
  have h := exec_flush_bind h
  obtain ⟨rfl, rfl⟩ := exec_pure_ok h
  show (s.ledger.reservations.insert r).get? (key r) = some r
  have hnone : s.ledger.reservations.get? (key r) = none := Option.isNone_iff_eq_none.mp hnone
  rw [Table.get?_insert, if_pos rfl, hnone]
  rfl

theorem reserveOwned_permit {rid : ReservationId} {c : Governance.AttemptContext} {attempt : ℕ} {owner : Owner}
    {now : Time} {a : AttemptAmounts} {policy : Policy} {scopes : List Scope}
    {buckets : List Bucket} {execution : QuestionExecution} {run : Run} {permit : Permit}
    (h : exec schema (reserveOwned rid c attempt owner now a policy scopes buckets execution run) s =
      .ok (permit, s')) :
    ∃ r, s'.ledger.reservations.get? permit.reservationId = some r ∧ r.runId = some c.runId := by
  obtain ⟨-, h⟩ := exec_ensure_bind h
  split at h
  · cases h
  · split at h
    · simp only [replayReservation, exec_query] at h
      split at h
      · cases h
      · next existing hfind =>
        split at h
        · obtain ⟨rfl, rfl⟩ := exec_pure_ok h
          have hop := List.find?_some hfind
          have hq := congrArg OperationKey.question (of_decide_eq_true hop)
          refine ⟨existing, Table.get?_of_mem (List.mem_of_find?_eq_some hfind), ?_⟩
          obtain ⟨q, hq, he⟩ := Option.map_eq_some_iff.mp hq
          rw [Reservation.runId, hq, Option.map_some]
          exact congrArg some (congrArg Prod.fst he)
        · cases h
    · obtain ⟨-, h⟩ := exec_ensure_bind h
      obtain ⟨_, -, h⟩ := exec_ofExcept_bind h
      exact ⟨_, insertReservation_permit h, rfl⟩

/-- The permit `reserve` returns is for a row of the Run. -/
theorem reserve_permit {rid : ReservationId} {c : Governance.AttemptContext} {attempt : ℕ} {owner : Owner}
    {now : Time} {permit : Permit}
    (h : exec schema (reserve cfg rid c attempt owner now) s = .ok (permit, s')) :
    ∃ r, s'.ledger.reservations.get? permit.reservationId = some r ∧ r.runId = some c.runId := by
  obtain ⟨-, h⟩ := exec_ensure_bind h
  obtain ⟨a, -, h⟩ := exec_ofExcept_bind h
  obtain ⟨_, s₁, -, h⟩ := exec_bind_eq_ok h
  obtain ⟨policy, s₂, -, h⟩ := exec_bind_eq_ok h
  obtain ⟨_, s₃, -, h⟩ := exec_bind_eq_ok h
  obtain ⟨_, s₄, -, h⟩ := exec_bind_eq_ok h
  obtain ⟨buckets, s₅, -, h⟩ := exec_bind_eq_ok h
  obtain ⟨_, s₆, -, h⟩ := exec_bind_eq_ok h
  obtain ⟨_, s₇, -, h⟩ := exec_bind_eq_ok h
  obtain ⟨_, s₈, -, h⟩ := exec_bind_eq_ok h
  split at h
  · cases h
  · split at h
    · cases h
    · exact reserveOwned_permit h

/-- **Budgets of a Run.** After any sequence of committed operations the scope of
a Run keeps the request budget and the concurrency limit it has frozen, and the
token and cost budgets unless it is overdrawn. Once it is overdrawn, a `reserve`
of the Run that still succeeds repeats the permit of a reservation made before. -/
theorem run_lifetime_budgets (cfg : Config) (s : Store) (h : Committed cfg s) (run : Run)
    (hrun : s.runs.get? run.id = some run) (g : GovernanceSnapshot)
    (hg : run.governanceSnapshot = some g) (x : Scope)
    (hx : s.ledger.scopes.get? ⟨.run, run.id⟩ = some x) :
    (∀ n ∈ stricter g.policy.limits.runLifetime.requests run.lifetimeRequestBudget,
        x.requests ≤ n) ∧
      (∀ n ∈ g.policy.limits.concurrencyLimit.run, x.activeReservations ≤ n) ∧
      (x.overdrawn = false →
        (∀ n ∈ stricter g.policy.limits.runLifetime.tokens run.lifetimeTokenBudget, x.tokens ≤ n) ∧
        ∀ n ∈ stricter g.policy.limits.runLifetime.costUsd run.lifetimeCostBudgetUsd,
          x.cost ≤ n) ∧
      (x.overdrawn = true → ∀ s', Reaches (next cfg) (fun _ _ => True) s s' →
        (∃ x', s'.ledger.scopes.get? ⟨.run, run.id⟩ = some x' ∧ x'.overdrawn = true) ∧
        ∀ id c attempt owner now permit s'', c.runId = run.id →
          exec schema (reserve cfg id c attempt owner now) s' = .ok (permit, s'') →
          (s.ledger.reservations.get? permit.reservationId).isSome) := by
  have hid : x.id = ⟨.run, run.id⟩ := Table.key_of_get? hx
  have hb := (h.budgetsInv.2 run g hrun hg).scope x (Table.mem_of_get? hx) hid
  refine ⟨hb.requests, hb.active, fun ho => ⟨hb.tokens ho, hb.cost ho⟩, fun ho s' hreach => ?_⟩
  have hboth : BooksInv s' ∧
      Drained run.id (s.ledger.reservations.rows.map Reservation.id) s'.ledger := by
    refine hreach.invariant (I := fun s' => BooksInv s' ∧
      Drained run.id (s.ledger.reservations.rows.map Reservation.id) s'.ledger)
      ⟨h.booksInv, ⟨x, hx, ho⟩, fun r hr _ => List.mem_map_of_mem hr⟩ ?_
    rintro s' o ⟨hi, hd⟩ -
    rw [next]
    rcases after_cases schema (o.tx cfg) s' with hx | ⟨u, s'', hx, hx'⟩
    · rw [hx]
      exact ⟨hi, hd⟩
    · rw [hx']
      exact ⟨hi.step hx, hd.step hi hx⟩
  obtain ⟨hi, hd⟩ := hboth
  refine ⟨hd.1, fun id c attempt owner now permit s'' hc hx => ?_⟩
  have hop : exec schema ((Op.reserve id c attempt owner now).tx cfg) s' = .ok ((), s'') :=
    exec_bind_of_ok hx
  obtain ⟨r, hr, hri⟩ := reserve_permit hx
  rw [hc] at hri
  have hmem := (hd.step hi hop).2 r (Table.mem_of_get? hr) hri
  have hpermit : r.id = permit.reservationId := Table.key_of_get? hr
  obtain ⟨q, hq, hqi⟩ := List.mem_map.mp hmem
  have hget : s.ledger.reservations.get? q.id = some q := Table.get?_of_mem hq
  rw [← hpermit, ← hqi, hget]
  rfl

/-- Run 1 holds a reservation for one question while another question is settled
above its reservation. -/
def Sample.overdrawnRun : List Op :=
  [.admitRun (Sample.newRun 1 Sample.unlimited) 10, .claim 1 100 20,
    .questionContext 1 1 5 4 100 1 (some 10) none 21,
    .questionContext 1 2 5 4 100 1 (some 10) none 22,
    .reserve 7 ⟨1, 1, 5, 4, 1, 0, 1, none, some 10, none⟩ 1 100 23,
    .reserve 8 ⟨1, 2, 5, 4, 1, 0, 1, none, some 10, none⟩ 1 100 24,
    .markSendStarted ⟨8, 1⟩ 100 25,
    .finish ⟨8, 1⟩ ⟨.settledActual, .succeeded, some 3, some 12, none⟩ 26]

theorem run_lifetime_budgets_sample :
    ∃ run g x, (Sample.after Sample.overdrawnRun).runs.get? 1 = some run ∧
      run.governanceSnapshot = some g ∧
      (Sample.after Sample.overdrawnRun).ledger.scopes.get? ⟨.run, 1⟩ = some x ∧
      x.overdrawn = true ∧ x.requests = 2 ∧
      ∀ n ∈ stricter g.policy.limits.runLifetime.requests run.lifetimeRequestBudget,
        x.requests ≤ n := by
  have hrun : ((Sample.after Sample.overdrawnRun).runs.get? 1).map
      (fun r => r.governanceSnapshot.isSome) = some true := by decide +kernel
  have hscope : ((Sample.after Sample.overdrawnRun).ledger.scopes.get? ⟨.run, 1⟩).map
      (fun x => (x.overdrawn, x.requests)) = some (true, 2) := by decide +kernel
  obtain ⟨run, hget, hsome⟩ := Option.map_eq_some_iff.mp hrun
  obtain ⟨g, hg⟩ := Option.isSome_iff_exists.mp hsome
  obtain ⟨x, hx, he⟩ := Option.map_eq_some_iff.mp hscope
  have hid : run.id = 1 := Table.key_of_get? hget
  refine ⟨run, g, x, hget, hg, hx, congrArg Prod.fst he, congrArg Prod.snd he, ?_⟩
  exact (run_lifetime_budgets Sample.config _ (Sample.committed_after _) run
    (by rw [hid]; exact hget) g hg x (by rw [hid]; exact hx)).1

/-- The scope of Run 1 is overdrawn, and a repeated `reserve` for the first
question succeeds: it returns the permit of the reservation that is there. -/
theorem overdrawn_run_replays_permit :
    Committed Sample.config (Sample.after Sample.overdrawnRun) ∧
      ((Sample.after Sample.overdrawnRun).ledger.scopes.get? ⟨.run, 1⟩).map Scope.overdrawn =
        some true ∧
      ∃ s', exec schema (reserve Sample.config 9 ⟨1, 1, 5, 4, 1, 0, 1, none, some 10, none⟩ 1 100 27)
        (Sample.after Sample.overdrawnRun) = .ok (⟨7, 1⟩, s') := by
  refine ⟨Sample.committed_after _, by decide +kernel, ?_⟩
  have hok : (exec schema (reserve Sample.config 9 ⟨1, 1, 5, 4, 1, 0, 1, none, some 10, none⟩ 1 100
      27) (Sample.after Sample.overdrawnRun)).toOption.map Prod.fst = some ⟨7, 1⟩ := by
    decide +kernel
  rcases hx : exec schema (reserve Sample.config 9 ⟨1, 1, 5, 4, 1, 0, 1, none, some 10, none⟩ 1 100
      27) (Sample.after Sample.overdrawnRun) with e | ⟨permit, s'⟩
  · rw [hx] at hok
    cases hok
  · rw [hx] at hok
    exact ⟨s', by rw [show permit = ⟨7, 1⟩ from Option.some.inj hok]⟩

end LLMBenchLab
