import LLMBenchLab.Rounding
import LLMBenchLab.Attempts

/-!
# What an attempt may cost and what it did cost

`_cost` (`runners/evaluation_runner.py`) prices a reservation and `_actual_cost`
(`governance/repository.py`) a settlement, both in the default decimal context:
every product, the sum and the quotient are rounded to 28 digits. The reservation
is then rounded up to whole quanta by `_nonnegative_money`, the settlement by
`_money`. All of these keep the order, so a call that stays within its reserved
tokens stays within its reserved cost, and its settlement only ever frees capacity.
-/

namespace LLMBenchLab

open Relational Rounding

/-- What the decimal module raises. -/
inductive DecimalSignal : Type where
  | invalidOperation
  deriving DecidableEq, Repr

/-- The precision of the default context. -/
def decimalPrecision : ℕ := 28

/-- The result of one operation in the default context. -/
def decimalContext (x : ℚ) : ℚ := roundTo decimalPrecision x

/-- `_money` of a known amount: rounded up to whole quanta of 1e-8 USD. -/
def money (value : ℚ) : Except DecimalSignal ℚ :=
  let quanta := ceilTo 8 value
  -- `quantize` raises where the result needs more digits than the context has
  if |quanta| < 10 ^ decimalPrecision then .ok (quanta / 10 ^ 8) else .error .invalidOperation

/-- The prices of a Model in USD for a million tokens: non-negative, by its
schema. -/
structure Prices where
  input : Option ℚ
  output : Option ℚ
  input_nonneg : ∀ p ∈ input, 0 ≤ p
  output_nonneg : ∀ p ∈ output, 0 ≤ p

/-- The expression that `_cost` and `_actual_cost` share. -/
def costExpression (inputTokens outputTokens : ℤ) (inputPrice outputPrice : ℚ) : ℚ :=
  decimalContext
    (decimalContext
        (decimalContext (inputTokens * inputPrice) + decimalContext (outputTokens * outputPrice)) /
      1000000)

namespace Prices

/-- `_cost`. -/
def cost (m : Prices) : Option ℤ → Option ℤ → Option ℚ
  | some inputTokens, some outputTokens =>
    match m.input, m.output with
    | some inputPrice, some outputPrice =>
      some (costExpression inputTokens outputTokens inputPrice outputPrice)
    | _, _ => none
  | _, _ => none

/-- `_actual_cost`. -/
def actualCost (m : Prices) : Option ℤ → Option ℤ → Except DecimalSignal (Option ℚ)
  | some inputTokens, some outputTokens =>
    match m.input, m.output with
    | some inputPrice, some outputPrice =>
      (money (costExpression inputTokens outputTokens inputPrice outputPrice)).map some
    | _, _ => .ok none
  | _, _ => .ok none

end Prices

/-! ## The order through every rounding -/

section Order

variable {x y p q : ℚ} {a b c d : ℤ}

theorem decimalContext_nonneg (h : 0 ≤ x) : 0 ≤ decimalContext x := by
  rw [decimalContext, ← abs_of_nonneg h, ← abs_roundTo]
  exact abs_nonneg _

theorem decimalContext_mono (h0 : 0 ≤ x) (h : x ≤ y) : decimalContext x ≤ decimalContext y :=
  roundTo_mono (by decide) h0 h

theorem decimalContext_mul_nonneg (ha : 0 ≤ a) (hp : 0 ≤ p) : 0 ≤ decimalContext (a * p) :=
  decimalContext_nonneg (mul_nonneg (Int.cast_nonneg ha) hp)

theorem decimalContext_mul_mono (ha : 0 ≤ a) (hab : a ≤ b) (hp : 0 ≤ p) :
    decimalContext (a * p) ≤ decimalContext (b * p) := by
  apply decimalContext_mono
  · exact mul_nonneg (Int.cast_nonneg ha) hp
  · exact mul_le_mul_of_nonneg_right (Int.cast_le.mpr hab) hp

theorem costExpression_nonneg (ha : 0 ≤ a) (hb : 0 ≤ b) (hp : 0 ≤ p) (hq : 0 ≤ q) :
    0 ≤ costExpression a b p q := by
  have hsum := add_nonneg (decimalContext_mul_nonneg ha hp) (decimalContext_mul_nonneg hb hq)
  exact decimalContext_nonneg (div_nonneg (decimalContext_nonneg hsum) (by norm_num))

theorem costExpression_mono (ha : 0 ≤ a) (hb : 0 ≤ b) (hp : 0 ≤ p) (hq : 0 ≤ q) (hac : a ≤ c)
    (hbd : b ≤ d) : costExpression a b p q ≤ costExpression c d p q := by
  have hsum := add_nonneg (decimalContext_mul_nonneg ha hp) (decimalContext_mul_nonneg hb hq)
  have hle := add_le_add (decimalContext_mul_mono ha hac hp) (decimalContext_mul_mono hb hbd hq)
  apply decimalContext_mono
  · exact div_nonneg (decimalContext_nonneg hsum) (by norm_num)
  · exact div_le_div_of_nonneg_right (decimalContext_mono hsum hle) (by norm_num)

theorem money_nonneg (h0 : 0 ≤ x) (h : money x = .ok y) : 0 ≤ y := by
  have hc : 0 ≤ ceilTo 8 x := Int.ceil_nonneg (mul_nonneg h0 (by positivity))
  simp only [money] at h
  split at h
  · cases h
    exact div_nonneg (Int.cast_nonneg hc) (by norm_num)
  · cases h

theorem nonnegativeMoney_eq_ok {n : ℕ} (h : nonnegativeMoney x = .ok n) :
    ceilTo 8 x = n ∧ ceilTo 8 x ≤ moneyMax := by
  rw [nonnegativeMoney] at h
  split at h
  · cases h
  · next hx =>
    have hn : 0 ≤ ⌈x * 10 ^ 8⌉ := Int.ceil_nonneg (by linarith)
    dsimp only at h
    split at h
    · cases h
    · next hle =>
      cases h
      exact ⟨(Int.toNat_of_nonneg hn).symm, not_lt.mp hle⟩

/-- Whole quanta stay as they are. -/
theorem nonnegativeMoney_quanta {k : ℕ} (h : (k : ℤ) ≤ moneyMax) :
    nonnegativeMoney (((k : ℤ) : ℚ) / 10 ^ 8) = .ok k := by
  have hceil : ⌈((k : ℤ) : ℚ) / 10 ^ 8 * 10 ^ 8⌉ = k := by
    rw [div_mul_cancel₀ _ (by norm_num), Int.ceil_intCast]
  have hneg : ¬ ((k : ℤ) : ℚ) / 10 ^ 8 < 0 := not_lt.mpr (by positivity)
  rw [nonnegativeMoney, if_neg hneg, hceil]
  simp only [if_neg (not_lt.mpr h), Int.toNat_natCast]

/-- An amount below one that `_nonnegative_money` accepts goes through `_money`
and `_nonnegative_money`. -/
theorem money_of_le {n : ℕ} (h0 : 0 ≤ x) (h : x ≤ y) (hy : nonnegativeMoney y = .ok n) :
    ∃ z, ∃ k ≤ n, money x = .ok z ∧ nonnegativeMoney z = .ok k := by
  obtain ⟨hn, hmax⟩ := nonnegativeMoney_eq_ok hy
  have hle : ceilTo 8 x ≤ ceilTo 8 y := ceilTo_mono h
  have h0' : 0 ≤ ceilTo 8 x := Int.ceil_nonneg (mul_nonneg h0 (by positivity))
  have hdigits : moneyMax < 10 ^ decimalPrecision := by decide
  obtain ⟨k, hk⟩ := Int.eq_ofNat_of_zero_le h0'
  refine ⟨((k : ℤ) : ℚ) / 10 ^ 8, k, by omega, ?_, nonnegativeMoney_quanta (by omega)⟩
  rw [money, hk, if_pos]
  rw [abs_of_nonneg (by omega)]
  omega

end Order

theorem Prices.actualCost_nonneg (m : Prices) {i o : Option ℤ} (hi : ∀ v ∈ i, 0 ≤ v)
    (ho : ∀ v ∈ o, 0 ≤ v) {c : Option ℚ} (h : m.actualCost i o = .ok c) : ∀ v ∈ c, 0 ≤ v := by
  obtain ⟨p, q, hp, hq⟩ := m
  match i, o, p, q with
  | some a, some b, some p, some q =>
    have h0 := costExpression_nonneg (hi a rfl) (ho b rfl) (hp p rfl) (hq q rfl)
    simp only [actualCost] at h
    cases hz : money (costExpression a b p q) with
    | error e =>
      rw [hz] at h
      cases h
    | ok z =>
      rw [hz] at h
      cases h
      rintro _ ⟨⟩
      exact money_nonneg h0 hz
  | none, _, _, _ =>
    cases h
    nofun
  | some _, none, _, _ =>
    cases h
    nofun
  | some _, some _, none, _ =>
    cases h
    nofun
  | some _, some _, some _, none =>
    cases h
    nofun

theorem Prices.cost_nonneg (m : Prices) (i o : Option ℕ) :
    ∀ c ∈ m.cost (i.map Int.ofNat) (o.map Int.ofNat), 0 ≤ c := by
  obtain ⟨p, q, hp, hq⟩ := m
  match i, o, p, q with
  | some a, some b, some p, some q =>
    rintro _ ⟨⟩
    exact costExpression_nonneg (Int.natCast_nonneg a) (Int.natCast_nonneg b) (hp p rfl) (hq q rfl)
  | none, _, _, _ => nofun
  | some _, none, _, _ => nofun
  | some _, some _, none, _ => nofun
  | some _, some _, some _, none => nofun

/-! ## Settlements within the reservation -/

variable {m : Prices} {r : Reservation} {rin rout : ℕ} {i o actual : Option ℕ}

/-- The actual cost is defined, and not above the reserved one. -/
theorem Prices.actualCost_le
    (hcost : nonnegativeMoney? (m.cost (some rin) (some rout)) = .ok r.reservedCostUsd)
    (hin : ∀ n ∈ i, n ≤ rin) (hout : ∀ n ∈ o, n ≤ rout) :
    ∃ usd actual, m.actualCost (i.map Int.ofNat) (o.map Int.ofNat) = .ok usd ∧
      nonnegativeMoney? usd = .ok actual ∧ ∀ c ∈ actual, ∃ b ∈ r.reservedCostUsd, c ≤ b := by
  obtain ⟨p, q, hp, hq⟩ := m
  match i, o, p, q with
  | some a, some b, some p, some q =>
    obtain ⟨n, hn, hr⟩ : ∃ n, nonnegativeMoney (costExpression rin rout p q) = .ok n ∧
        some n = r.reservedCostUsd := by
      rw [cost, nonnegativeMoney?] at hcost
      cases h : nonnegativeMoney (costExpression rin rout p q) with
      | error e =>
        rw [h] at hcost
        cases hcost
      | ok n =>
        rw [h] at hcost
        exact ⟨n, rfl, Except.ok.inj hcost⟩
    have h0 := costExpression_nonneg (Int.natCast_nonneg a) (Int.natCast_nonneg b) (hp p rfl)
      (hq q rfl)
    have hle := costExpression_mono (Int.natCast_nonneg a) (Int.natCast_nonneg b) (hp p rfl)
      (hq q rfl) (Int.ofNat_le.mpr (hin a rfl)) (Int.ofNat_le.mpr (hout b rfl))
    obtain ⟨z, k, hk, hmoney, hz⟩ := money_of_le h0 hle hn
    refine ⟨some z, some k, ?_, ?_, ?_⟩
    · simp only [actualCost, Option.map_some, Int.ofNat_eq_natCast, hmoney]
      rfl
    · simp only [nonnegativeMoney?, hz]
      rfl
    · rintro _ ⟨⟩
      exact ⟨n, hr ▸ rfl, hk⟩
  | none, _, _, _ => exact ⟨none, none, rfl, rfl, nofun⟩
  | some _, none, _, _ => exact ⟨none, none, rfl, rfl, nofun⟩
  | some _, some _, none, _ => exact ⟨none, none, rfl, rfl, nofun⟩
  | some _, some _, some _, none => exact ⟨none, none, rfl, rfl, nofun⟩

theorem orElse_le_amount {a b : Option ℕ} (h : ∀ n ∈ a, ∃ k ∈ b, n ≤ k) :
    amount (a.orElse fun _ => b) ≤ amount b ∧ exceeds (a.orElse fun _ => b) b = false := by
  cases a with
  | none =>
    refine ⟨le_rfl, ?_⟩
    cases b <;> simp [exceeds]
  | some n =>
    obtain ⟨k, rfl, hk⟩ := h n rfl
    exact ⟨by simpa [amount] using hk, by simpa [exceeds] using hk⟩

/-- A settlement that is within its reservation in every column. -/
structure Settlement.Within (v : Settlement) (r : Reservation) : Prop where
  input : amount v.inputTokens ≤ amount r.reservedInputTokens
  output : amount v.outputTokens ≤ amount r.reservedOutputTokens
  cost : amount v.costUsd ≤ amount r.reservedCostUsd
  overdraws : ∀ explicit, v.overdraws r explicit = false

theorem settlement_within (hrin : r.reservedInputTokens = some rin)
    (hrout : r.reservedOutputTokens = some rout) (hin : ∀ n ∈ i, n ≤ rin)
    (hout : ∀ n ∈ o, n ≤ rout) (hcost : ∀ c ∈ actual, ∃ b ∈ r.reservedCostUsd, c ≤ b) :
    (r.settlement i o actual).Within r := by
  have hi := orElse_le_amount (a := i) (b := r.reservedInputTokens)
    fun n hn => ⟨rin, hrin, hin n hn⟩
  have ho := orElse_le_amount (a := o) (b := r.reservedOutputTokens)
    fun n hn => ⟨rout, hrout, hout n hn⟩
  have hc := orElse_le_amount hcost
  refine ⟨hi.1, ho.1, hc.1, fun explicit => ?_⟩
  rw [Settlement.overdraws, Reservation.settlement, hi.2, ho.2, hc.2]
  simp

/-- `y` holds no more tokens or cost than `x`, and is overdrawn only if `x` is. -/
structure Scope.Within (y x : Scope) : Prop where
  input : y.reservedInputTokens + y.consumedInputTokens ≤
    x.reservedInputTokens + x.consumedInputTokens
  output : y.reservedOutputTokens + y.consumedOutputTokens ≤
    x.reservedOutputTokens + x.consumedOutputTokens
  cost : y.reservedCostUsd + y.consumedCostUsd ≤ x.reservedCostUsd + x.consumedCostUsd
  overdrawn : y.overdrawn = true → x.overdrawn = true

/-- `y` holds no more tokens than `x`. -/
structure Bucket.Within (y x : Bucket) : Prop where
  input : y.reservedInputTokens + y.consumedInputTokens ≤
    x.reservedInputTokens + x.consumedInputTokens
  output : y.reservedOutputTokens + y.consumedOutputTokens ≤
    x.reservedOutputTokens + x.consumedOutputTokens

theorem Settlement.Within.scope {v : Settlement} (h : v.Within r) (explicit : Bool) (x : Scope) :
    (x.settle r v explicit).Within x := by
  obtain ⟨hi, ho, hc, hd⟩ := h
  constructor
  · simp only [Scope.settle]
    omega
  · simp only [Scope.settle]
    omega
  · simp only [Scope.settle]
    omega
  · simp only [Scope.settle, hd explicit]
    exact id

theorem Settlement.Within.bucket {v : Settlement} (h : v.Within r) (x : Bucket) :
    (x.settle r v).Within x := by
  obtain ⟨hi, ho, -, -⟩ := h
  constructor
  · simp only [Bucket.settle]
    omega
  · simp only [Bucket.settle]
    omega

namespace Governance

open Prog

/-- What `_settle_locked` hands to the flush. -/
theorem settleLocked_eq_ok {scopes : List Scope} {buckets : List Bucket} {now : Time}
    {outcome : Outcome} {reconciled force : Bool} {s s' : Store} {d : Dirty}
    (h : exec schema (settleLocked r scopes buckets now i o actual outcome reconciled force) s =
      .ok (d, s')) :
    ∃ explicit, d.scopes = scopes.map (Scope.settle r (r.settlement i o actual) explicit) ∧
      d.buckets = buckets.map (Bucket.settle r (r.settlement i o actual)) := by
  obtain ⟨explicit, s₁, -, h⟩ := exec_bind_eq_ok h
  obtain ⟨_, s₂, -, h⟩ := exec_bind_eq_ok h
  cases h
  exact ⟨explicit, rfl, rfl⟩

theorem forall₂_map_left {α : Type} {R : α → α → Prop} {f : α → α} (h : ∀ a, R (f a) a)
    (l : List α) : List.Forall₂ R (l.map f) l := by
  rw [List.forall₂_map_left_iff]
  exact List.forall₂_same.mpr fun a _ => h a

/-- Conservative reservations never overdraw: neither with the actual cost nor
with none, which a conservative disposition settles at the reserved one. -/
theorem settleLocked_within (hrin : r.reservedInputTokens = some rin)
    (hrout : r.reservedOutputTokens = some rout)
    (hcost : nonnegativeMoney? (m.cost (some rin) (some rout)) = .ok r.reservedCostUsd)
    (hin : ∀ n ∈ i, n ≤ rin) (hout : ∀ n ∈ o, n ≤ rout) :
    ∃ usd actual, m.actualCost (i.map Int.ofNat) (o.map Int.ofNat) = .ok usd ∧
      nonnegativeMoney? usd = .ok actual ∧
      (∀ c ∈ actual, ∃ b ∈ r.reservedCostUsd, c ≤ b) ∧
      ∀ charged ∈ [actual, none], ∀ scopes buckets now outcome reconciled force s s' d,
        exec schema
            (settleLocked r scopes buckets now i o charged outcome reconciled force) s =
          .ok (d, s') →
        List.Forall₂ Scope.Within d.scopes scopes ∧
          List.Forall₂ Bucket.Within d.buckets buckets := by
  obtain ⟨usd, actual, husd, hactual, hle⟩ := m.actualCost_le hcost hin hout
  refine ⟨usd, actual, husd, hactual, hle, ?_⟩
  intro charged hcharged scopes buckets now outcome reconciled force s s' d hd
  have hle' : ∀ c ∈ charged, ∃ b ∈ r.reservedCostUsd, c ≤ b := by
    rcases List.mem_pair.mp hcharged with rfl | rfl
    · exact hle
    · nofun
  obtain ⟨explicit, hs, hb⟩ := settleLocked_eq_ok hd
  have hw := settlement_within hrin hrout hin hout hle'
  rw [hs, hb]
  exact ⟨forall₂_map_left (hw.scope explicit) scopes, forall₂_map_left hw.bucket buckets⟩

/-- A call of 1000 and 500 reserved tokens at 2.5 and 10 USD a million, sent. -/
def sampleCall : Reservation where
  id := 1
  policyId := 1
  question := none
  modelId := 1
  globalScope := globalKey
  providerScope := 1
  modelScope := 1
  executionGeneration := 0
  providerAttempt := 1
  leaseOwner := none
  leaseToken := none
  state := .sendStarted
  leaseExpiresAt := none
  windowStart := 0
  reservedInputTokens := some 1000
  reservedOutputTokens := some 500
  reservedCostUsd := some 750000
  actualInputTokens := none
  actualOutputTokens := none
  actualCostUsd := none
  outcomeCode := none
  sendStartedAt := some 0
  settledAt := none

/-- Its prices. -/
def samplePrices : Prices where
  input := some (5 / 2)
  output := some 10
  input_nonneg := by rintro p ⟨⟩; norm_num
  output_nonneg := by rintro p ⟨⟩; norm_num

theorem sampleCall_within :
    samplePrices.actualCost (some 900) (some 100) = .ok (some (13 / 4000)) ∧
      ∃ d s', exec schema (settleLocked sampleCall [Scope.zero globalScopeId] [] 1 (some 900)
            (some 100) (some 325000) .succeeded false false) .empty = .ok (d, s') ∧
          List.Forall₂ Scope.Within d.scopes [Scope.zero globalScopeId] := by
  obtain ⟨usd, actual, husd, hactual, -, hsettle⟩ := settleLocked_within (m := samplePrices)
    (r := sampleCall) (i := some 900) (o := some 100) rfl rfl (by decide +kernel)
    (by decide) (by decide)
  have hcost : samplePrices.actualCost (some 900) (some 100) = .ok (some (13 / 4000)) := by
    decide +kernel
  cases husd.symm.trans hcost
  have hmoney : nonnegativeMoney? (some (13 / 4000)) = .ok (some 325000) := by decide +kernel
  cases hactual.symm.trans hmoney
  obtain ⟨d, s', hrun⟩ : ∃ d s', exec schema
      (settleLocked sampleCall [Scope.zero globalScopeId] [] 1 (some 900) (some 100) (some 325000)
        .succeeded false false) .empty = .ok (d, s') := ⟨_, _, rfl⟩
  exact ⟨hcost, d, s', hrun, (hsettle _ (by simp) _ _ _ _ _ _ _ _ _ hrun).1⟩

end Governance

end LLMBenchLab
