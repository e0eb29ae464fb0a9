import LLMBenchLab.EvidenceIntegrity
import LLMBenchLab.Lifecycle
import LLMBenchLab.Costs

/-!
# Widths: what usage reports add up to

A Provider reports token counts, `_usage_int` accepts any non-negative integer,
and from there the counts go through settlement into the ledger and the counters
of scopes and buckets, through `persist_response` into a Response, and through
`aggregate_run_evidence` into a Run. Integers and decimals of the model are
unbounded, so a store says itself whether its columns could hold its values
(`Ledger.Fits`, `EvidenceFits`).

The ledger part is one number a usage: what all rows together are charged
(`Ledger.charged`). Every counter is at most that, an action changes it by an
amount of its own (`charged_play`), and reconciliation never raises it.
-/

namespace LLMBenchLab

open Relational Relational.Prog Governance

variable {cfg : Config} {s s' : Store}

/-! ## Usage reports -/

/-- A value of the `usage` object, as far as `_usage_int` tells them apart. -/
inductive UsageValue : Type where
  | missing
  | bool (b : Bool)
  | int (v : ℤ)
  | other
  deriving DecidableEq, Repr

/-- `_usage_int`. -/
def usageInt : UsageValue → Option ℤ
  | .int v => if v < 0 then none else some v
  | .missing | .bool _ | .other => none

/-- What `DatabaseProviderAttemptController.finish` hands to the repository. -/
def controllerReport (p : Prices) (disposition : Disposition) (outcome : Outcome)
    (inputTokens outputTokens : Option ℤ) : Except DecimalSignal FinishReport :=
  (p.actualCost inputTokens outputTokens).map fun cost =>
    ⟨disposition, outcome, inputTokens, outputTokens, cost⟩

/-- Every `finish` of a run comes from a controller with counts of a usage report. -/
def Op.Reported : Op → Prop
  | .finish _ f _ => ∃ p disposition outcome i o,
    controllerReport p disposition outcome (usageInt i) (usageInt o) = .ok f
  | _ => True

theorem usageInt_nonneg {x : UsageValue} {v : ℤ} (h : usageInt x = some v) : 0 ≤ v := by
  cases x with
  | int w =>
    simp only [usageInt] at h
    split at h
    · cases h
    · next hw =>
      rw [← Option.some.inj h]
      exact not_lt.mp hw
  | _ => cases h

/-! ## What the rows are charged -/

/-- The amounts of an attempt that a usage report settles. -/
inductive Usage : Type where
  | inputTokens | outputTokens | costUsd
  deriving DecidableEq, Repr

namespace Usage

/-- The counter of the amounts that are reserved. -/
def reservedCounter : Usage → Counter
  | inputTokens => .reservedInputTokens
  | outputTokens => .reservedOutputTokens
  | costUsd => .reservedCostUsd

/-- The counter of the amounts that are settled. -/
def consumedCounter : Usage → Counter
  | inputTokens => .consumedInputTokens
  | outputTokens => .consumedOutputTokens
  | costUsd => .consumedCostUsd

/-- The largest value of the columns: `BIGINT`, and `NUMERIC(20, 8)` in quanta. -/
def width : Usage → ℤ
  | inputTokens | outputTokens => int64Max
  | costUsd => 10 ^ 20 - 1

def reserved (r : Reservation) : Usage → Option ℕ
  | inputTokens => r.reservedInputTokens
  | outputTokens => r.reservedOutputTokens
  | costUsd => r.reservedCostUsd

def actual (r : Reservation) : Usage → Option ℕ
  | inputTokens => r.actualInputTokens
  | outputTokens => r.actualOutputTokens
  | costUsd => r.actualCostUsd

def settled (v : Settlement) : Usage → Option ℕ
  | inputTokens => v.inputTokens
  | outputTokens => v.outputTokens
  | costUsd => v.costUsd

/-- What a row is charged: its reservation while it is active, its settlement
afterwards. -/
def charge (u : Usage) (r : Reservation) : ℤ := u.reservedCounter.fact r + u.consumedCounter.fact r

theorem charge_active {u : Usage} {r : Reservation} (h : r.state.active = true) :
    u.charge r = amount (u.reserved r) := by
  have hs := Ledger.settled_of_active h
  cases u <;> simp [charge, reservedCounter, consumedCounter, Counter.fact, reserved, h, hs]

theorem charge_released (u : Usage) (r : Reservation) (now : Time) (reconciled : Bool) :
    u.charge (r.released now reconciled) = 0 := by
  cases u <;> rfl

theorem charge_settledAs (u : Usage) (r : Reservation) (v : Settlement) (now : Time)
    (outcome : Outcome) (conservative : Bool) :
    u.charge (r.settledAs v now outcome conservative) = amount (u.settled v) := by
  cases u <;> cases conservative <;>
    simp [charge, reservedCounter, consumedCounter, Counter.fact, Reservation.settledAs, settled,
      ReservationState.active, ReservationState.settled]

end Usage

/-- What all rows together are charged. -/
def Ledger.charged (l : Ledger) (u : Usage) : ℤ := l.reservations.total u.charge

/-- By how much an action changes what the rows are charged. -/
def Action.charges (u : Usage) : Action → ℤ
  | .reserve r => amount (u.reserved r)
  | .release r _ _ => -amount (u.reserved r)
  | .settle r v _ _ _ _ => amount (u.settled v) - amount (u.reserved r)
  | _ => 0

section Charged

variable {X : Option RunId → Bool} {l : Ledger} {a : Action} {u : Usage}

theorem charged_edited {r r' : Reservation} (ha : l.Allows X a) (h : a.edited = some (r, r')) :
    (l.play a).charged u = l.charged u + (u.charge r' - u.charge r) := by
  have hr := ha.edited h
  rw [← (Action.edited_same h).id] at hr
  rw [Ledger.charged, Ledger.play_edited h]
  exact Table.total_put hr _

/-- The change is what the action says. -/
theorem charged_play (ha : l.Allows X a) :
    (l.play a).charged u = l.charged u + a.charges u := by
  cases a with
  | openScope i => exact (add_zero _).symm
  | openBucket k => exact (add_zero _).symm
  | reserve r =>
    obtain ⟨hnone, hst, -⟩ := ha
    have hr : u.charge r = amount (u.reserved r) := Usage.charge_active (by rw [hst]; rfl)
    exact (Table.total_insert hnone u.charge).trans (by rw [hr]; rfl)
  | send r now sendWindow =>
    have hactive : r.state.active = true := by rw [ha.2.1]; rfl
    rw [charged_edited ha rfl, Usage.charge_active hactive, Usage.charge_active (by rfl)]
    cases u <;> simp [Usage.reserved, Reservation.sent, Action.charges]
  | release r now reconciled =>
    have hactive : r.state.active = true := by rw [ha.2]; rfl
    rw [charged_edited ha rfl, Usage.charge_active hactive, Usage.charge_released]
    simp [Action.charges]
  | settle r v explicit now outcome conservative =>
    have hactive : r.state.active = true := by rw [ha.2.1]; rfl
    rw [charged_edited ha rfl, Usage.charge_active hactive, Usage.charge_settledAs]
    rfl
  | renew r expiresAt =>
    have hsame : u.charge { r with leaseExpiresAt := some expiresAt } = u.charge r := by
      cases u <;> rfl
    rw [charged_edited ha rfl, hsame]
    simp [Action.charges]

theorem charges_opens (h : a.Opens) : a.charges u = 0 := by
  rcases h with ⟨i, rfl⟩ | ⟨k, rfl⟩ <;> rfl

/-- Reconciliation gives a reservation back or settles it at what it is. -/
theorem charges_reconciles (h : Reconciles X a) : a.charges u ≤ 0 := by
  obtain ⟨now, r, rfl⟩ := h
  simp only [reconcileAction]
  split
  · simp only [Action.charges]
    have := amount_nonneg (u.reserved r)
    omega
  · cases u <;> simp [Action.charges, Usage.settled, Usage.reserved, Reservation.settlement]

end Charged

/-! ## The columns of the ledger -/

/-- Every amount of the ledger fits its column. -/
structure Ledger.Fits (l : Ledger) : Prop where
  row : ∀ r ∈ l.reservations.rows, ∀ u,
    amount (Usage.reserved r u) ≤ u.width ∧ amount (Usage.actual r u) ≤ u.width
  scope : ∀ x ∈ l.scopes.rows, ∀ u,
    x.count (Usage.reservedCounter u) ≤ u.width ∧ x.count (Usage.consumedCounter u) ≤ u.width
  bucket : ∀ x ∈ l.buckets.rows, ∀ (c : BucketCounter) (u : Usage),
    c.toCounter = u.reservedCounter ∨ c.toCounter = u.consumedCounter → x.count c ≤ u.width

/-- Every row by itself fits, whatever its state. -/
def RowsFit (l : Ledger) : Prop :=
  ∀ r ∈ l.reservations.rows, ∀ u,
    amount (Usage.reserved r u) ≤ u.width ∧ amount (Usage.actual r u) ≤ u.width

section Fits

variable {X : Option RunId → Bool} {l : Ledger}

theorem fact_le_charge {u : Usage} {c : Counter}
    (hc : c = u.reservedCounter ∨ c = u.consumedCounter) (r : Reservation) :
    c.fact r ≤ u.charge r := by
  have h₁ := fact_nonneg u.reservedCounter r
  have h₂ := fact_nonneg u.consumedCounter r
  rcases hc with rfl | rfl
  · exact le_add_of_nonneg_right h₂
  · exact le_add_of_nonneg_left h₁

theorem total_fact_le {u : Usage} {c : Counter}
    (hc : c = u.reservedCounter ∨ c = u.consumedCounter) :
    l.reservations.total c.fact ≤ l.charged u :=
  List.sum_le_sum fun r _ => fact_le_charge hc r

/-- Rows that fit and a charge that fits make counters that fit. -/
theorem Ledger.Balanced.fits (h : l.Balanced X) (hrows : RowsFit l)
    (hcharged : ∀ u, l.charged u ≤ u.width) : l.Fits where
  row := hrows
  scope x hx u := by
    have hle (c : Counter) (hc : c = u.reservedCounter ∨ c = u.consumedCounter) :
        x.count c ≤ u.width := by
      rw [(h.scope x hx).count]
      calc (scopeSummary X).sum l.reservations x.id (some c)
          ≤ l.reservations.total c.fact :=
            (scopeSummary X).sum_le_total (c := some c) (fun r _ => fact_nonneg c r) _
        _ ≤ l.charged u := total_fact_le hc
        _ ≤ u.width := hcharged u
    exact ⟨hle _ (Or.inl rfl), hle _ (Or.inr rfl)⟩
  bucket x hx c u hc := by
    rw [h.bucket x hx]
    calc bucketSummary.sum l.reservations x.key c
        ≤ l.reservations.total c.toCounter.fact :=
          bucketSummary.sum_le_total (fun r _ => fact_nonneg c.toCounter r) _
      _ ≤ l.charged u := total_fact_le hc
      _ ≤ u.width := hcharged u

end Fits

/-! ## Validated amounts -/

theorem nonnegativeInt_ok {v : Option ℤ} {x : Option ℕ} (h : nonnegativeInt v = .ok x) :
    amount x = v.getD 0 ∧ x.isSome = v.isSome ∧ amount x ≤ int64Max := by
  rcases v with _ | v
  · obtain rfl := Except.ok.inj h
    exact ⟨rfl, rfl, by decide⟩
  · simp only [nonnegativeInt] at h
    split at h
    · next hv =>
      obtain rfl := Except.ok.inj h
      have hn : amount (some v.toNat) = v := Int.toNat_of_nonneg hv.1
      exact ⟨hn, rfl, by rw [hn]; exact hv.2⟩
    · cases h

theorem nonnegativeMoney?_ok {v : Option ℚ} {x : Option ℕ} (h : nonnegativeMoney? v = .ok x) :
    amount x = (v.map fun c => ⌈c * 10 ^ 8⌉).getD 0 ∧ x.isSome = v.isSome ∧
      amount x ≤ moneyMax := by
  rcases v with _ | v
  · obtain rfl := Except.ok.inj h
    exact ⟨rfl, rfl, by decide⟩
  · simp only [nonnegativeMoney?, nonnegativeMoney] at h
    split at h
    · cases h
    · next hv =>
      split at h
      · cases h
      · next hm =>
        obtain rfl := Except.ok.inj h
        have hc : (0 : ℤ) ≤ ⌈v * 10 ^ 8⌉ :=
          Int.ceil_nonneg (mul_nonneg (not_lt.mp hv) (by norm_num))
        have hn : amount (some ⌈v * 10 ^ 8⌉.toNat) = ⌈v * 10 ^ 8⌉ := Int.toNat_of_nonneg hc
        exact ⟨hn, rfl, by rw [hn]; exact not_lt.mp hm⟩

namespace Usage

/-- The largest single amount `finish` accepts. -/
def bound : Usage → ℤ
  | inputTokens | outputTokens => int64Max
  | costUsd => moneyMax

/-- What an attempt asks for. -/
def asked (c : Governance.AttemptContext) : Usage → ℤ
  | inputTokens => c.reservedInputTokens.getD 0
  | outputTokens => c.reservedOutputTokens.getD 0
  | costUsd => (c.reservedCostUsd.map fun v => ⌈v * 10 ^ 8⌉).getD 0

/-- What a report says, costs in quanta. -/
def reported (f : FinishReport) : Usage → Option ℤ
  | inputTokens => f.inputTokens
  | outputTokens => f.outputTokens
  | costUsd => f.actualCostUsd.map fun v => ⌈v * 10 ^ 8⌉

/-- What a row is settled at: the report where it says something, the reservation
where not, and always the reservation for the cost of a conservative settlement. -/
def settledAt (f : FinishReport) (r : Reservation) : Usage → ℤ
  | inputTokens => (reported f inputTokens).getD (amount r.reservedInputTokens)
  | outputTokens => (reported f outputTokens).getD (amount r.reservedOutputTokens)
  | costUsd =>
    if f.disposition = .settledConservative then amount r.reservedCostUsd
    else (reported f costUsd).getD (amount r.reservedCostUsd)

theorem bound_le_width (u : Usage) : u.bound ≤ u.width := by
  cases u <;> decide

end Usage

theorem amount_orElse {x y : Option ℕ} {v : Option ℤ} (hx : amount x = v.getD 0)
    (hs : x.isSome = v.isSome) : amount (x.orElse fun _ => y) = v.getD (amount y) := by
  rcases x with _ | x
  · rcases v with _ | v
    · rfl
    · cases hs
  · rcases v with _ | v
    · cases hs
    · exact hx

/-- The amounts of a new row are those of its context. -/
theorem amount_asked {c : Governance.AttemptContext} {a : AttemptAmounts} (h : contextAmounts c = .ok a)
    {r : Reservation} (hr : (r.reservedInputTokens, r.reservedOutputTokens, r.reservedCostUsd) =
      (a.inputTokens, a.outputTokens, a.costUsd)) (u : Usage) :
    amount (Usage.reserved r u) = u.asked c ∧ amount (Usage.reserved r u) ≤ u.bound := by
  simp only [Prod.mk.injEq] at hr
  obtain ⟨h₁, h₂, h₃⟩ := hr
  obtain ⟨i, hi, h⟩ := except_bind_ok h
  obtain ⟨o, ho, h⟩ := except_bind_ok h
  obtain ⟨m, hm, h⟩ := except_bind_ok h
  obtain rfl := Except.ok.inj h
  cases u with
  | inputTokens =>
    rw [Usage.reserved, h₁]
    exact ⟨(nonnegativeInt_ok hi).1, (nonnegativeInt_ok hi).2.2⟩
  | outputTokens =>
    rw [Usage.reserved, h₂]
    exact ⟨(nonnegativeInt_ok ho).1, (nonnegativeInt_ok ho).2.2⟩
  | costUsd =>
    rw [Usage.reserved, h₃]
    exact ⟨(nonnegativeMoney?_ok hm).1, (nonnegativeMoney?_ok hm).2.2⟩

/-- The amounts of a settlement by `finish`. -/
theorem amount_settledAt {f : FinishReport} {i o m : Option ℕ} {r : Reservation}
    (hi : nonnegativeInt f.inputTokens = .ok i) (ho : nonnegativeInt f.outputTokens = .ok o)
    (hm : nonnegativeMoney? f.actualCostUsd = .ok m) (u : Usage) :
    amount (Usage.settled (r.settlement i o
      (if decide (f.disposition = .settledConservative) then none else m)) u) = u.settledAt f r := by
  obtain ⟨hi, his, -⟩ := nonnegativeInt_ok hi
  obtain ⟨ho, hos, -⟩ := nonnegativeInt_ok ho
  obtain ⟨hm, hms, -⟩ := nonnegativeMoney?_ok hm
  cases u with
  | inputTokens => exact amount_orElse hi his
  | outputTokens => exact amount_orElse ho hos
  | costUsd =>
    simp only [Usage.settled, Reservation.settlement, Usage.settledAt, decide_eq_true_eq]
    split
    · rfl
    · exact amount_orElse hm (by rw [hms]; simp [Usage.reported])

/-- A settlement by `finish` is at most what it accepts or what was reserved. -/
theorem settledAt_le {f : FinishReport} {i o m : Option ℕ} {r : Reservation}
    (hi : nonnegativeInt f.inputTokens = .ok i) (ho : nonnegativeInt f.outputTokens = .ok o)
    (hm : nonnegativeMoney? f.actualCostUsd = .ok m) (hr : ∀ u, amount (Usage.reserved r u) ≤ Usage.width u)
    (u : Usage) :
    amount (Usage.settled (r.settlement i o
      (if decide (f.disposition = .settledConservative) then none else m)) u) ≤ u.width := by
  have hor {x y : Option ℕ} (hx : amount x ≤ u.bound) (hy : amount y ≤ u.width) :
      amount (x.orElse fun _ => y) ≤ u.width := by
    rcases x with _ | x
    · exact hy
    · exact hx.trans u.bound_le_width
  have hzero : amount none ≤ u.bound := by cases u <;> decide
  cases u with
  | inputTokens => exact hor (nonnegativeInt_ok hi).2.2 (hr .inputTokens)
  | outputTokens => exact hor (nonnegativeInt_ok ho).2.2 (hr .outputTokens)
  | costUsd =>
    refine hor ?_ (hr .costUsd)
    split
    · exact hzero
    · exact (nonnegativeMoney?_ok hm).2.2

/-! ## One operation on the ledger -/

section Step

variable {X : Option RunId → Bool} {l : Ledger} {a : Action} {o : Op}

/-- An action that an operation performs leaves rows that fit. -/
theorem RowsFit.play (h : RowsFit l) (ha : l.Allows X a) (hp : o.Performs X a) :
    RowsFit (l.play a) := by
  refine Ledger.forall_play h ha ?_ ?_
  · rintro r rfl u
    obtain ⟨id, c, attempt, owner, now, amounts, policyId, run, rfl, hc, rfl⟩ := hp.reserve
    refine ⟨(amount_asked hc rfl u).2.trans u.bound_le_width, ?_⟩
    have hzero : (0 : ℤ) ≤ u.width := by cases u <;> decide
    cases u <;> exact hzero
  · intro r r' he hr u
    have hs := Action.edited_same he
    have hreserved : Usage.reserved r' u = Usage.reserved r u := by
      cases u
      · exact hs.reservedInputTokens
      · exact hs.reservedOutputTokens
      · exact hs.reservedCostUsd
    refine ⟨by rw [hreserved]; exact (hr u).1, ?_⟩
    -- only a settlement writes the actual amounts
    have hactual := (hr u).2
    cases a <;> simp only [Action.edited, Option.some.injEq, Prod.mk.injEq, reduceCtorEq] at he <;>
      obtain ⟨rfl, rfl⟩ := he
    · cases u <;> exact hactual
    · cases u <;> exact hactual
    · next v explicit now outcome conservative =>
      have hv : amount (Usage.settled v u) ≤ u.width := by
        rcases hp.settle with rfl | ⟨permit, f, i, q, m, -, hi, hq, hm, -, -, rfl⟩
        · have := (hr u).1
          cases u <;> exact this
        · exact settledAt_le hi hq hm (fun u => (hr u).1) u
      cases u <;> exact hv
    · cases u <;> exact hactual

/-- Only a reservation and a `finish` can raise the charge. -/
theorem Op.Performs.charges_le (h : o.Performs X a) (u : Usage) :
    a.charges u ≤ 0 ∨ (∃ r, a = .reserve r) ∨ ∃ permit f now, o = .finish permit f now := by
  cases a with
  | reserve r => exact Or.inr (Or.inl ⟨r, rfl⟩)
  | settle r v explicit now outcome conservative =>
    rcases h.settle with rfl | ⟨permit, f, _, _, _, rfl, -⟩
    · refine Or.inl ?_
      cases u <;> simp [Action.charges, Usage.settled, Usage.reserved, Reservation.settlement]
    · exact Or.inr (Or.inr ⟨permit, f, now, rfl⟩)
  | release r now reconciled =>
    have := amount_nonneg (u.reserved r)
    exact Or.inl (by simp only [Action.charges]; omega)
  | _ => exact Or.inl le_rfl

/-- The action of `finish` ends its row. -/
theorem finishAction_ends {f : FinishReport} {i q m : Option ℕ} {now : Time} {r : Reservation}
    (ha : l.Allows X (finishAction X f i q m now r)) :
    l.reservations.get? r.id = some r ∧ r.state.active = true ∧
      ∃ r', (l.play (finishAction X f i q m now r)).reservations.get? r.id = some r' ∧
        r'.state.active = false := by
  simp only [finishAction] at ha ⊢
  split at ha
  · next hd =>
    rw [if_pos hd]
    exact ⟨ha.1, by rw [ha.2]; rfl, r.released now false, Table.get?_put_self ha.1, rfl⟩
  · next hd =>
    rw [if_neg hd]
    refine ⟨ha.1, by rw [ha.2.1]; rfl, r.settledAs _ now f.outcome _, Table.get?_put_self ha.1, ?_⟩
    simp only [Reservation.settledAs]
    split <;> rfl

/-- `finish` plays one action on its row, or none. -/
theorem finish_acts {G : Ledger → Action → Prop} {permit : Permit} {f : FinishReport} {now : Time}
    {acts : List Action} (hp : l.Plays X G acts)
    (honly : ∀ a ∈ acts, (Op.finish permit f now).Performs X a) :
    acts = [] ∨ ∃ i q m r, nonnegativeInt f.inputTokens = .ok i ∧
      nonnegativeInt f.outputTokens = .ok q ∧ nonnegativeMoney? f.actualCostUsd = .ok m ∧
      l.reservations.get? permit.reservationId = some r ∧ r.state.active = true ∧
      acts = [finishAction X f i q m now r] := by
  rcases acts with _ | ⟨a, acts⟩
  · exact Or.inl rfl
  · obtain ⟨i, q, m, hi, hq, hm, r, hid, rfl⟩ := honly a List.mem_cons_self
    obtain ⟨⟨ha, -⟩, hp⟩ := hp
    obtain ⟨hr, hactive, r', hr', hend⟩ := finishAction_ends ha
    rw [hid] at hr hr'
    refine Or.inr ⟨i, q, m, r, hi, hq, hm, hr, hactive, ?_⟩
    rcases acts with _ | ⟨b, acts⟩
    · rfl
    · -- a second action would need the row to be active still
      obtain ⟨_, _, _, -, -, -, r₂, hid₂, rfl⟩ := honly b (List.mem_cons_of_mem _ List.mem_cons_self)
      obtain ⟨hr₂, hactive₂, -⟩ := finishAction_ends hp.1.1
      rw [hid₂, hr'] at hr₂
      obtain rfl := Option.some.inj hr₂
      rw [hend] at hactive₂
      cases hactive₂

/-- What the rows are charged after actions that do not raise it. -/
theorem charged_playAll_le {G : Ledger → Action → Prop} {u : Usage} :
    ∀ {acts : List Action} {l : Ledger}, l.Plays X G acts → (∀ a ∈ acts, a.charges u ≤ 0) →
      (l.playAll acts).charged u ≤ l.charged u := by
  intro acts
  induction acts with
  | nil => exact fun _ _ => le_rfl
  | cons a acts ih =>
    intro l hp hle
    refine (ih hp.2 fun b hb => hle b (List.mem_cons_of_mem _ hb)).trans ?_
    rw [charged_play hp.1.1]
    have := hle a List.mem_cons_self
    omega

/-- A `reserve` raises the charge by what it asks for, once. -/
theorem charged_reserve {G : Ledger → Action → Prop} {u : Usage} {B : ℤ} {id : ReservationId}
    {c : Governance.AttemptContext} {attempt : ℕ} {owner : Owner} {now : Time} {acts : List Action}
    (hp : l.Plays X G acts)
    (honly : ∀ a ∈ acts, (Op.reserve id c attempt owner now).Performs X a)
    (hle : l.charged u ≤ B) (hB : l.reservations.get? id = none → l.charged u + u.asked c ≤ B) :
    (l.playAll acts).charged u ≤ B := by
  induction acts generalizing l with
  | nil => exact hle
  | cons a acts ih =>
    obtain ⟨⟨ha, -⟩, hp⟩ := hp
    have hperf := honly a List.mem_cons_self
    refine ih hp (fun b hb => honly b (List.mem_cons_of_mem _ hb)) ?_ ?_
    · rw [charged_play ha]
      rcases hperf.charges_le u with h | ⟨r, rfl⟩ | ⟨_, _, _, h⟩
      · omega
      · obtain ⟨_, _, _, _, _, amounts, policyId, run, he, hc, rfl⟩ := hperf.reserve
        cases he
        have hsum := hB ha.1
        rw [Action.charges, (amount_asked hc rfl u).1]
        exact hsum
      · cases h
    · intro hnone
      -- no action removes a row, so the row was not there before either
      have hnone' : l.reservations.get? id = none := by
        rcases hr : l.reservations.get? id with _ | r
        · rfl
        · rcases Ledger.get?_play ha hr with h | ⟨r', h, -⟩ <;> rw [hnone] at h <;> cases h
      rw [charged_play ha]
      rcases hperf.charges_le u with h | ⟨r, rfl⟩ | ⟨_, _, _, h⟩
      · have := hB hnone'
        omega
      · obtain ⟨_, _, _, _, _, amounts, policyId, run, he, hc, rfl⟩ := hperf.reserve
        cases he
        have hin : (l.reservations.insert (newReservation id c attempt owner policyId run
            (minuteStart now) amounts)).get? id = none := hnone
        have hin := ((Table.get?_insert _ _ id).trans (if_pos rfl)).symm.trans hin
        cases hin
      · cases h

end Step

/-! ## The columns of the evidence -/

/-- `NUMERIC(20, 8)` takes the amount: rounded to eight digits it is below
`10 ^ 12`. -/
def FitsNumeric (x : ℚ) : Prop := x * 10 ^ 8 + 1 / 2 < 10 ^ 20

instance (x : ℚ) : Decidable (FitsNumeric x) := inferInstanceAs (Decidable (_ < _))

/-- What the Responses report adds up to no more than the columns of a Run take. -/
structure SumsFit (rs : List Response) : Prop where
  inputTokens : ((rs.filterMap Response.inputTokens).sum : ℤ) ≤ int32Max
  outputTokens : ((rs.filterMap Response.outputTokens).sum : ℤ) ≤ int32Max
  estimatedCost : FitsNumeric (rs.filterMap Response.estimatedCost).sum

/-- The usage columns of a Response or of a Run fit. -/
structure UsageFits (inputTokens outputTokens : Option ℕ) (estimatedCost : Option ℚ) : Prop where
  inputTokens : ∀ n ∈ inputTokens, (n : ℤ) ≤ int32Max
  outputTokens : ∀ n ∈ outputTokens, (n : ℤ) ≤ int32Max
  estimatedCost : ∀ x ∈ estimatedCost, FitsNumeric x

/-- Every Response and every Run fits its columns. -/
structure EvidenceFits (s : Store) : Prop where
  response : ∀ x ∈ s.responses.rows, UsageFits x.inputTokens x.outputTokens x.estimatedCost
  run : ∀ r ∈ s.runs.rows, UsageFits r.inputTokens r.outputTokens r.estimatedCost

theorem SumsFit.nil : SumsFit [] where
  inputTokens := by decide
  outputTokens := by decide
  estimatedCost := by norm_num [FitsNumeric]

theorem UsageFits.none : UsageFits none none none := ⟨by rintro _ ⟨⟩, by rintro _ ⟨⟩, by rintro _ ⟨⟩⟩

/-- A Response is at most the sum it is part of. -/
theorem SumsFit.usageFits {rs : List Response} (h : SumsFit rs)
    (hcost : ∀ x ∈ rs, ∀ c ∈ x.estimatedCost, 0 ≤ c) {x : Response} (hx : x ∈ rs) :
    UsageFits x.inputTokens x.outputTokens x.estimatedCost := by
  have hle (f : Response → Option ℕ) {n : ℕ} (hn : n ∈ f x) : n ≤ (rs.filterMap f).sum :=
    List.single_le_sum (fun _ _ => Nat.zero_le _) n (List.mem_filterMap.mpr ⟨x, hx, hn⟩)
  refine ⟨fun n hn => ?_, fun n hn => ?_, fun c hc => ?_⟩
  · have := hle _ hn
    have := h.inputTokens
    omega
  · have := hle _ hn
    have := h.outputTokens
    omega
  · have hsum : c ≤ (rs.filterMap Response.estimatedCost).sum := by
      refine List.single_le_sum (fun y hy => ?_) c (List.mem_filterMap.mpr ⟨x, hx, hc⟩)
      obtain ⟨z, hz, hy⟩ := List.mem_filterMap.mp hy
      exact hcost z hz y hy
    have := h.estimatedCost
    unfold FitsNumeric at this ⊢
    linarith

/-- The aggregates of Responses that fit. -/
theorem SumsFit.aggregate {rs : List Response} (h : SumsFit rs) (n : ℕ) :
    UsageFits (canonicalRunEvidence n (selectEvidence rs)).inputTokens
      (canonicalRunEvidence n (selectEvidence rs)).outputTokens
      (canonicalRunEvidence n (selectEvidence rs)).estimatedCost := by
  have hexact {α : Type} {P : α → Prop} {i j : ℕ} {known : α} (hP : P known) :
      ∀ y ∈ exactUsage i j known, P y := by
    intro y hy
    simp only [exactUsage] at hy
    split at hy
    · obtain rfl := Option.some.inj hy
      exact hP
    · cases hy
  exact ⟨hexact (P := fun m : ℕ => (m : ℤ) ≤ int32Max) h.inputTokens,
    hexact (P := fun m : ℕ => (m : ℤ) ≤ int32Max) h.outputTokens, hexact h.estimatedCost⟩

/-- The usage columns of a Run. -/
def Run.usage (r : Run) : Option ℕ × Option ℕ × Option ℚ :=
  (r.inputTokens, r.outputTokens, r.estimatedCost)

/-- A transition keeps the usage columns of its Run or aggregates them. -/
theorem Moves.usage {rs : List Response} {o : Op} {r r' : Run} (h : Moves cfg rs o r r') :
    r'.usage = r.usage ∨ r'.usage = (aggregateRunEvidence rs r).usage := by
  cases h <;> first | exact Or.inl rfl | exact Or.inr rfl

/-- What the invariant of the evidence says besides `EvidenceFits`: the sums of
each Run still fit. -/
structure EvidenceRoom (s : Store) : Prop where
  cost : ∀ x ∈ s.responses.rows, ∀ c ∈ x.estimatedCost, 0 ≤ c
  sums : ∀ id, SumsFit (s.responsesOf id)
  run : ∀ r ∈ s.runs.rows, UsageFits r.inputTokens r.outputTokens r.estimatedCost

theorem EvidenceRoom.empty : EvidenceRoom Store.empty where
  cost _ h := absurd h List.not_mem_nil
  sums _ := .nil
  run _ h := absurd h List.not_mem_nil

theorem EvidenceRoom.fits (h : EvidenceRoom s) : EvidenceFits s where
  response x hx :=
    (h.sums x.runId).usageFits (fun y hy => h.cost y (mem_responsesOf.mp hy).1)
      (mem_responsesOf.mpr ⟨hx, rfl⟩)
  run := h.run

theorem QuestionOutcome.cost_nonneg (o : QuestionOutcome) (id : ResponseId) (runId : RunId)
    (q : QuestionId) : ∀ c ∈ (o.response id runId q).estimatedCost, 0 ≤ c := by
  cases o with
  | adapterError errorType => exact nofun
  | internalError => exact nofun
  | evaluatorFailed text hne u => exact u.cost_nonneg
  | evaluated text hne u result truncated => exact u.cost_nonneg

theorem answer_cost_nonneg {o : Op} {x : Response} (h : o.answer = some x) :
    ∀ c ∈ x.estimatedCost, 0 ≤ c := by
  cases o with
  | persistResponse lease id q outcome now =>
    obtain rfl := Option.some.inj h
    exact outcome.cost_nonneg id lease.runId q
  | _ => cases h

theorem StoreStep.evidenceRoom {o : Op} (hs : StoreStep cfg o s s') (h : EvidenceRoom s)
    (hroom : ∀ x ∈ o.answer, SumsFit (s.responsesOf x.runId ++ [x])) : EvidenceRoom s' := by
  cases hs with
  | idle hruns hresp =>
    refine ⟨by rw [hresp]; exact h.cost, fun id => ?_, by rw [hruns]; exact h.run⟩
    rw [responsesOf_congr hresp]
    exact h.sums id
  | @admitted n policy provider now ho hnew hpol hruns hresp =>
    refine ⟨by rw [hresp]; exact h.cost, fun id => ?_, fun r hr => ?_⟩
    · rw [responsesOf_congr hresp]
      exact h.sums id
    · rw [hruns] at hr
      rcases Table.mem_insert.mp hr with hr | ⟨-, rfl⟩
      · exact h.run r hr
      · exact .none
  | @move r r' hr hm hruns hresp hfresh _ =>
    have hrows := rows_evidence hfresh hresp
    refine ⟨fun x hx => ?_, fun id => ?_, fun q hq => ?_⟩
    · rw [hrows, List.mem_append, Option.mem_toList] at hx
      rcases hx with hx | hx
      · exact h.cost x hx
      · exact answer_cost_nonneg hx
    · rw [responsesOf_evidence hfresh hresp]
      rcases ha : o.answer with _ | x
      · simpa using h.sums id
      · by_cases hid : x.runId = id
        · rw [← hid]
          simpa using hroom x ha
        · simpa [hid] using h.sums id
    · rw [hruns] at hq
      rcases Table.mem_put hq with rfl | ⟨hq, -⟩
      · have hkept := h.run r (Table.mem_of_get? hr)
        rcases hm.usage with hu | hu
        · simp only [Run.usage, Prod.mk.injEq] at hu
          rw [hu.1, hu.2.1, hu.2.2]
          exact hkept
        · simp only [Run.usage, Prod.mk.injEq] at hu
          rw [hu.1, hu.2.1, hu.2.2]
          exact (h.sums r.id).aggregate r.totalQuestions
      · exact h.run q hq

/-! ## Runs -/

/-- There is room for what an operation brings: a reservation and a settlement in
the counters of the whole ledger, a Response in the columns of its Run; and no
single reported amount is above what `finish` accepts. -/
def Op.HasRoom (s : Store) : Op → Prop
  | .reserve _ c _ _ _ => ∀ u : Usage, s.ledger.charged u + u.asked c ≤ u.width
  | .finish permit f _ => (∀ u : Usage, ∀ v ∈ u.reported f, v ≤ u.bound) ∧
    ∀ r, s.ledger.reservations.get? permit.reservationId = some r → r.state = .sendStarted →
      ∀ u : Usage, s.ledger.charged u - amount (u.reserved r) + u.settledAt f r ≤ u.width
  | .persistResponse lease id q outcome _ =>
    SumsFit (s.responsesOf lease.runId ++ [outcome.response id lease.runId q])
  | _ => True

theorem RowsFit.empty : RowsFit Store.empty.ledger := fun _ h => absurd h List.not_mem_nil

/-- The ledger part of one operation. -/
theorem charged_step {o : Op} {u : Unit} (hi : BooksInv s) (hrows : RowsFit s.ledger)
    (hcharged : ∀ v : Usage, s.ledger.charged v ≤ v.width) (hroom : o.HasRoom s)
    (hx : exec schema (o.tx cfg) s = .ok (u, s')) :
    RowsFit s'.ledger ∧ ∀ v : Usage, s'.ledger.charged v ≤ v.width := by
  obtain ⟨acts, hp, hl, -, honly⟩ := Account.of_exec hi hx
  rw [hl]
  refine ⟨?_, fun v => ?_⟩
  · clear hl
    generalize s.ledger = l at hrows hp
    induction acts generalizing l with
    | nil => exact hrows
    | cons a acts ih =>
      exact ih (fun b hb => honly b (List.mem_cons_of_mem _ hb)) _
        (hrows.play hp.1.1 (honly a List.mem_cons_self)) hp.2
  · have hother (ho : ∀ id c attempt owner now, o ≠ .reserve id c attempt owner now)
        (hf : ∀ permit f now, o ≠ .finish permit f now) :
        (s.ledger.playAll acts).charged v ≤ v.width := by
      refine (charged_playAll_le hp fun a ha => ?_).trans (hcharged v)
      rcases (honly a ha).charges_le v with h | ⟨r, rfl⟩ | ⟨_, _, _, h⟩
      · exact h
      · obtain ⟨_, _, _, _, _, _, _, _, h, -⟩ := (honly _ ha).reserve
        exact absurd h (ho _ _ _ _ _)
      · exact absurd h (hf _ _ _)
    cases o with
    | reserve id c attempt owner now =>
      exact charged_reserve hp honly (hcharged v) fun _ => hroom v
    | finish permit f now =>
      rcases finish_acts hp honly with rfl | ⟨i, q, m, r, hin, hout, hcost, hr, -, rfl⟩
      · exact hcharged v
      · obtain ⟨⟨ha, -⟩, -⟩ := hp
        show (s.ledger.play _).charged v ≤ v.width
        rw [charged_play ha]
        simp only [finishAction] at ha ⊢
        split
        · have := amount_nonneg (v.reserved r)
          have := hcharged v
          simp only [Action.charges]
          omega
        · next hd =>
          rw [if_neg hd] at ha
          have hle := hroom.2 r hr ha.2.1 v
          rw [Action.charges, amount_settledAt hin hout hcost]
          omega
    | _ => exact hother (fun _ _ _ _ _ h => by cases h) fun _ _ _ h => by cases h

/-- The evidence part of one operation. -/
theorem EvidenceRoom.step {o : Op} {u : Unit} (h : EvidenceRoom s) (hroom : o.HasRoom s)
    (hx : exec schema (o.tx cfg) s = .ok (u, s')) : EvidenceRoom s' := by
  have hchain (ha : o.answer = none) : EvidenceRoom s' := by
    have hsteps := (steps_of_exec hx).1
    clear hx hroom
    induction hsteps with
    | refl => exact h
    | tail _ hlast ih =>
      refine hlast.evidenceRoom ih fun x hx => ?_
      rw [ha] at hx
      cases hx
  cases o with
  | persistResponse lease id q outcome now =>
    obtain ⟨d, hx⟩ := exec_unit_ok hx
    have hstep : StoreStep cfg _ s s' := persistResponse_storeStep hx
    refine hstep.evidenceRoom h fun x hx => ?_
    obtain rfl := Option.some.inj hx
    have hrun : (outcome.response id lease.runId q).runId = lease.runId := by cases outcome <;> rfl
    rw [hrun]
    exact hroom
  | _ => exact hchain rfl

/-- Everything that is kept. -/
structure WidthInv (s : Store) : Prop where
  books : BooksInv s
  rows : RowsFit s.ledger
  charged : ∀ u : Usage, s.ledger.charged u ≤ u.width
  evidence : EvidenceRoom s

theorem WidthInv.empty : WidthInv Store.empty where
  books := .empty
  rows := .empty
  charged u := by cases u <;> decide
  evidence := .empty

theorem WidthInv.next {o : Op} (h : WidthInv s) (hroom : o.HasRoom s) : WidthInv (next cfg s o) := by
  rw [LLMBenchLab.next]
  rcases after_cases schema (o.tx cfg) s with hx | ⟨u, s', hx, hx'⟩
  · rw [hx]
    exact h
  · rw [hx']
    obtain ⟨hrows, hcharged⟩ := charged_step h.books h.rows h.charged hroom hx
    exact ⟨h.books.step hx, hrows, hcharged, h.evidence.step hroom hx⟩

/-! ## Settlement raises no `ValueError` -/

theorem nonnegativeInt_of_le {v : Option ℤ} (h₀ : ∀ x ∈ v, 0 ≤ x) (h₁ : ∀ x ∈ v, x ≤ int64Max) :
    ∃ x, nonnegativeInt v = .ok x := by
  rcases v with _ | v
  · exact ⟨none, rfl⟩
  · exact ⟨some v.toNat, if_pos ⟨h₀ v rfl, h₁ v rfl⟩⟩

theorem nonnegativeMoney?_of_le {v : Option ℚ} (h₀ : ∀ x ∈ v, 0 ≤ x)
    (h₁ : ∀ x ∈ v, ⌈x * 10 ^ 8⌉ ≤ moneyMax) : ∃ x, nonnegativeMoney? v = .ok x := by
  rcases v with _ | v
  · exact ⟨none, rfl⟩
  · refine ⟨some ⌈v * 10 ^ 8⌉.toNat, ?_⟩
    simp only [nonnegativeMoney?, nonnegativeMoney, if_neg (not_lt.mpr (h₀ v rfl)),
      if_neg (not_lt.mpr (h₁ v rfl))]
    rfl

theorem avoids_appendAuditEvent (k : EventKey) (now : Time) (f : AuditFacts) :
    Avoids .value (appendAuditEvent k now f) := by
  refine avoids_query fun s => ?_
  split
  · exact avoids_flush _
  · exact avoids_ensure (by decide) _

theorem avoids_finishLocked (r : Reservation) (scopes : List Scope) (buckets : List Bucket)
    (f : FinishReport) (i o m : Option ℕ) (now : Time) :
    Avoids .value (finishLocked r scopes buckets f i o m now) := by
  simp only [finishLocked]
  split
  · exact avoids_ret _
  · split
    · refine (avoids_ensure (by decide) _).bind fun _ => Avoids.bind ?_ fun _ => ?_
      · simp only [restartQuestionExecutionAfterPreSendLocked]
        split
        · exact avoids_ret _
        · refine (avoids_forUpdate _).bind fun s => ?_
          split
          · rintro ⟨⟩
          · exact avoids_ensure (by decide) _
      · refine Avoids.bind ?_ fun _ => avoids_flush _
        exact (avoids_appendAuditEvent _ _ _).bind fun _ => avoids_ret _
    · refine (avoids_ensure (by decide) _).bind fun _ => Avoids.bind ?_ fun _ => avoids_flush _
      refine Avoids.bind ?_ fun _ => (avoids_appendAuditEvent _ _ _).bind fun _ => avoids_ret _
      simp only [inputReservationIsExplicitLocked]
      split
      · exact avoids_ret _
      · refine avoids_query fun s => ?_
        split
        · rintro ⟨⟩
        · exact avoids_ret _

theorem avoids_finishFrom (id : ReservationId) (f : FinishReport) (i o m : Option ℕ) (now : Time) :
    Avoids .value ((loadReservation id).bind fun view => finishFrom id view f i o m now) := by
  refine Avoids.bind ?_ fun view => ?_
  · refine (avoids_load _).bind fun views => ?_
    split
    · exact nofun
    · exact avoids_ret _
  · refine Avoids.bind ((avoids_forUpdate _).bind fun _ => avoids_ret _) fun scopes => ?_
    refine Avoids.bind ?_ fun buckets => ?_
    · exact (avoids_forUpdate _).bind fun _ => (avoids_ensure (by decide) _).bind fun _ => avoids_ret _
    · refine Avoids.bind (fun _ => avoids_ensure (by decide) _) fun _ => ?_
      refine Avoids.bind (fun _ => avoids_ensure (by decide) _) fun _ => ?_
      refine Avoids.bind ((avoids_forUpdate _).bind fun _ => avoids_ret _) fun r => ?_
      split
      · exact nofun
      · exact avoids_finishLocked _ _ _ _ _ _ _ _

/-- A reported `finish` carries the counts and their actual cost. -/
theorem reported_finish {permit : Permit} {f : FinishReport} {now : Time}
    (h : (Op.finish permit f now).Reported) :
    ∃ (p : Prices) (disposition : _) (outcome : _) (x y : UsageValue) (c : _),
      p.actualCost (usageInt x) (usageInt y) = .ok c ∧
      f = ⟨disposition, outcome, usageInt x, usageInt y, c⟩ := by
  obtain ⟨p, disposition, outcome, x, y, h⟩ := h
  cases hc : p.actualCost (usageInt x) (usageInt y) with
  | error e =>
    rw [controllerReport, hc] at h
    cases h
  | ok c =>
    rw [controllerReport, hc] at h
    exact ⟨p, disposition, outcome, x, y, c, hc, (Except.ok.inj h).symm⟩

/-- A report within the bounds passes the validations of `finish`. -/
theorem finish_no_value {permit : Permit} {f : FinishReport} {now : Time}
    (hrep : (Op.finish permit f now).Reported)
    (hle : ∀ u : Usage, ∀ v ∈ u.reported f, v ≤ u.bound) (s : Store) :
    exec schema (finish permit f now) s ≠ .error .value := by
  obtain ⟨p, disposition, outcome, x, y, c, hc, rfl⟩ := reported_finish hrep
  have hx : ∀ v ∈ usageInt x, 0 ≤ v := fun v hv => usageInt_nonneg hv
  have hy : ∀ v ∈ usageInt y, 0 ≤ v := fun v hv => usageInt_nonneg hv
  obtain ⟨i, hi⟩ := nonnegativeInt_of_le hx (hle .inputTokens)
  obtain ⟨o, ho⟩ := nonnegativeInt_of_le hy (hle .outputTokens)
  obtain ⟨m, hm⟩ := nonnegativeMoney?_of_le (p.actualCost_nonneg hx hy hc)
    fun c hc => hle .costUsd _ (Option.mem_map_of_mem _ hc)
  have hfinish : finish permit ⟨disposition, outcome, usageInt x, usageInt y, c⟩ now =
      (loadReservation permit.reservationId).bind fun view => finishFrom permit.reservationId view
        ⟨disposition, outcome, usageInt x, usageInt y, c⟩ i o m now := by
    simp only [finish, hi, ho, hm, Tx.ofExcept, bind_eq, Prog.bind]
    rfl
  rw [hfinish]
  exact Avoids.exec (show schema.violation ≠ .value by decide) (avoids_finishFrom _ _ _ _ _ _) s

/-- **Usage reports and columns.** Along every run whose reservations, reported
usages and Responses find room, every amount of the ledger, of its scopes and
buckets, of the Responses and of the Runs fits its column, after the next such
operation as well, and `finish` does not refuse a reported amount. -/
theorem usage_reports_fit (cfg : Config) (s : Store)
    (h : Reaches (next cfg) (fun s o => o.Reported ∧ o.HasRoom s) Store.empty s) :
    s.ledger.Fits ∧ EvidenceFits s ∧
      ∀ o : Op, o.Reported → o.HasRoom s →
        (next cfg s o).ledger.Fits ∧ EvidenceFits (next cfg s o) ∧
        ∀ permit f now, o = .finish permit f now →
          exec schema (finish permit f now) s ≠ .error .value := by
  have hinv : WidthInv s :=
    Reaches.invariant h .empty fun _ _ hi hC => hi.next hC.2
  have hfits {t : Store} (ht : WidthInv t) : t.ledger.Fits ∧ EvidenceFits t :=
    ⟨ht.books.balanced.fits ht.rows ht.charged, ht.evidence.fits⟩
  refine ⟨(hfits hinv).1, (hfits hinv).2, fun o hrep hroom => ?_⟩
  have hinv' : WidthInv (next cfg s o) := hinv.next hroom
  have hnext := hfits hinv'
  refine ⟨hnext.1, hnext.2, ?_⟩
  rintro permit f now rfl
  exact finish_no_value hrep hroom.1 s

/-- One quantum a million tokens. -/
def Sample.prices : Prices where
  input := some 1
  output := some 1
  input_nonneg := by rintro p ⟨⟩; norm_num
  output_nonneg := by rintro p ⟨⟩; norm_num

/-- Run 1 has sent the reservation of its first question, and Run 1 still holds
its lease. -/
def Sample.sending : List Op :=
  [.admitRun (Sample.newRun 1 Sample.unlimited) 10, .claim 1 100 20,
    .questionContext 1 1 5 4 100 1 (some 10) none 21,
    .reserve 7 ⟨1, 1, 5, 4, 1, 0, 1, none, some 10, none⟩ 1 100 22, .markSendStarted ⟨7, 1⟩ 100 23]

/-- What the controller reports for these counts. -/
def Sample.report (inputTokens outputTokens : ℤ) : FinishReport :=
  ⟨.settledActual, .succeeded, usageInt (.int inputTokens), usageInt (.int outputTokens),
    some ((inputTokens + outputTokens) / 1000000)⟩

theorem Sample.reported_report {i o : ℤ} (permit : Permit) (now : Time)
    (h : Sample.prices.actualCost (usageInt (.int i)) (usageInt (.int o)) =
      .ok (some ((i + o) / 1000000))) :
    (Op.finish permit (Sample.report i o) now).Reported := by
  refine ⟨Sample.prices, .settledActual, .succeeded, .int i, .int o, ?_⟩
  rw [controllerReport, h]
  rfl

theorem usage_reports_fit_sample :
    (next Sample.config (Sample.after Sample.sending)
        (.finish ⟨7, 1⟩ (Sample.report 3 5) 24)).ledger.Fits ∧
      exec schema (finish ⟨7, 1⟩ (Sample.report 3 5) 24) (Sample.after Sample.sending) ≠
        .error .value := by
  have hreserve : (Op.reserve 7 ⟨1, 1, 5, 4, 1, 0, 1, none, some 10, none⟩ 1 100 22).HasRoom
      (Sample.after (Sample.sending.take 3)) := by
    intro u
    cases u <;> decide +kernel
  have hfinish : (Op.finish ⟨7, 1⟩ (Sample.report 3 5) 24).HasRoom
      (Sample.after Sample.sending) := by
    refine ⟨fun u v hv => ?_, fun r hr _ u => ?_⟩
    · have hall : ∀ v ∈ u.reported (Sample.report 3 5), v ≤ u.bound := by
        cases u <;> decide +kernel
      exact hall v hv
    · have hall : ∀ r ∈ (Sample.after Sample.sending).ledger.reservations.get? 7,
          (Sample.after Sample.sending).ledger.charged u - amount (u.reserved r) +
            u.settledAt (Sample.report 3 5) r ≤ u.width := by
        cases u <;> decide +kernel
      exact hall r hr
  have hrun : Reaches (next Sample.config) (fun s o => o.Reported ∧ o.HasRoom s) Store.empty
      (Sample.after Sample.sending) := by
    simp only [Sample.after, Sample.sending, List.take_succ_cons, List.take_zero, List.foldl_cons,
      List.foldl_nil] at hreserve ⊢
    refine (Reaches.step _ ?_ ⟨trivial, hreserve⟩).step _ ⟨trivial, trivial⟩
    refine (Reaches.step _ ?_ ⟨trivial, trivial⟩).step _ ⟨trivial, trivial⟩
    exact Reaches.start.step _ ⟨trivial, trivial⟩
  obtain ⟨-, -, hnext⟩ := usage_reports_fit Sample.config _ hrun
  obtain ⟨hfits, -, hno⟩ := hnext _ (Sample.reported_report _ _ (by decide +kernel)) hfinish
  exact ⟨hfits, hno _ _ _ rfl⟩

/-- A reported `prompt_tokens` of `2 ^ 63` makes `finish` raise, and one of
`2 ^ 31` leaves a Response that its column cannot hold. -/
theorem usage_report_breaks_write :
    Reaches (next Sample.config) (fun _ o => o.Reported) Store.empty
        (Sample.after Sample.sending) ∧
      (Op.finish ⟨7, 1⟩ (Sample.report (2 ^ 63) 5) 24).Reported ∧
      exec schema (finish ⟨7, 1⟩ (Sample.report (2 ^ 63) 5) 24) (Sample.after Sample.sending) =
        .error .value ∧
      ¬ EvidenceFits (next Sample.config (Sample.after Sample.sending)
        (.persistResponse Sample.lease 11 1 (Sample.answer (2 ^ 31) 5) 30)) := by
  refine ⟨?_, Sample.reported_report _ _ (by decide +kernel), Sample.error_of_refused (by decide +kernel),
    fun h => ?_⟩
  · refine Reaches.start.foldl fun s o ho => ?_
    simp only [Sample.sending, List.mem_cons, List.not_mem_nil, or_false] at ho
    rcases ho with rfl | rfl | rfl | rfl | rfl <;> trivial
  · have hrows : (next Sample.config (Sample.after Sample.sending) (.persistResponse Sample.lease 11 1
        (Sample.answer (2 ^ 31) 5) 30)).responses.rows.map Response.inputTokens = [some (2 ^ 31)] := by
      decide +kernel
    obtain ⟨x, hx, hin⟩ := List.mem_map.mp (by rw [hrows]; exact List.mem_singleton.mpr rfl :
      some (2 ^ 31) ∈ (next Sample.config (Sample.after Sample.sending) (.persistResponse
        Sample.lease 11 1 (Sample.answer (2 ^ 31) 5) 30)).responses.rows.map Response.inputTokens)
    exact absurd ((h.response x hx).inputTokens _ hin) (by decide)

end LLMBenchLab
