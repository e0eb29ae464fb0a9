import Mathlib.Data.Int.Log
import Mathlib.Data.Rat.Floor
import Mathlib.Tactic.Linarith
import Mathlib.Tactic.Positivity
import Mathlib.Tactic.Ring
import Mathlib.Tactic.FieldSimp
import Mathlib.Algebra.Order.Field.Power
import Mathlib.Algebra.Order.Floor.Ring

/-!
# Rounding to a number of significant digits

A decimal context rounds the exact result of an operation to its precision, half
to even. Rounding never changes the order of two numbers, it may only make them
equal; a number of no more digits than the precision stays as it is.
-/

namespace Rounding

/-- The nearest integer, the even one of two. -/
def halfEven (x : ℚ) : ℤ :=
  if x - ⌊x⌋ < 1 / 2 then ⌊x⌋
  else if 1 / 2 < x - ⌊x⌋ then ⌊x⌋ + 1
  else if ⌊x⌋ % 2 = 0 then ⌊x⌋ else ⌊x⌋ + 1

/-- The power of ten of the last digit kept. -/
def lastDigit (prec : ℕ) (x : ℚ) : ℤ := Int.log 10 |x| + 1 - prec

/-- `x` in `prec` significant digits. -/
def roundTo (prec : ℕ) (x : ℚ) : ℚ :=
  halfEven (x / (10 : ℚ) ^ lastDigit prec x) * (10 : ℚ) ^ lastDigit prec x

/-- `x.quantize(10 ** -digits, rounding=ROUND_CEILING)`, in units of the last digit. -/
def ceilTo (digits : ℕ) (x : ℚ) : ℤ := ⌈x * (10 : ℚ) ^ digits⌉

variable {x y : ℚ} {prec : ℕ}

theorem floor_le_halfEven (x : ℚ) : ⌊x⌋ ≤ halfEven x := by
  rw [halfEven]
  split_ifs <;> omega

theorem halfEven_le_floor_add_one (x : ℚ) : halfEven x ≤ ⌊x⌋ + 1 := by
  rw [halfEven]
  split_ifs <;> omega

@[simp] theorem halfEven_intCast (n : ℤ) : halfEven n = n := by
  have h : (n : ℚ) - ⌊(n : ℚ)⌋ < 1 / 2 := by
    rw [Int.floor_intCast, sub_self]
    norm_num
  rw [halfEven, if_pos h, Int.floor_intCast]

theorem halfEven_mono (h : x ≤ y) : halfEven x ≤ halfEven y := by
  rcases (Int.floor_mono h).lt_or_eq with hlt | heq
  · calc halfEven x ≤ ⌊x⌋ + 1 := halfEven_le_floor_add_one x
      _ ≤ ⌊y⌋ := hlt
      _ ≤ halfEven y := floor_le_halfEven y
  · -- on one floor the fractional parts are in the same order
    have hfract : x - ⌊x⌋ ≤ y - ⌊y⌋ := by
      rw [heq]
      linarith
    rw [halfEven, halfEven, heq] at *
    split_ifs <;> first | omega | linarith

theorem halfEven_neg (x : ℚ) : halfEven (-x) = -halfEven x := by
  have hle : (⌊x⌋ : ℚ) ≤ x := Int.floor_le x
  have hlt : x < ⌊x⌋ + 1 := Int.lt_floor_add_one x
  rcases hle.eq_or_lt with heq | hne
  · rw [← heq, ← Int.cast_neg, halfEven_intCast, halfEven_intCast]
  · have hneg : ⌊-x⌋ = -⌊x⌋ - 1 := by
      refine Int.floor_eq_iff.mpr ⟨?_, ?_⟩
      · push_cast
        linarith
      · push_cast
        linarith
    have hdiff : -x - ⌊-x⌋ = 1 - (x - ⌊x⌋) := by
      rw [hneg]
      push_cast
      ring
    rw [halfEven, halfEven, hdiff, hneg]
    split_ifs <;> first | omega | linarith

/-! ## Significant digits -/

theorem roundTo_zero : roundTo prec 0 = 0 := by
  rw [roundTo, zero_div]
  simp [halfEven]

theorem roundTo_neg (x : ℚ) : roundTo prec (-x) = -roundTo prec x := by
  rw [roundTo, roundTo, lastDigit, lastDigit, abs_neg, neg_div, halfEven_neg]
  push_cast
  ring

theorem abs_roundTo (x : ℚ) : |roundTo prec x| = roundTo prec |x| := by
  have hnonneg : ∀ {y : ℚ}, 0 ≤ y → 0 ≤ roundTo prec y := by
    intro y hy
    have h : (0 : ℤ) ≤ halfEven (y / (10 : ℚ) ^ lastDigit prec y) :=
      (Int.floor_nonneg.mpr (by positivity)).trans (floor_le_halfEven _)
    rw [roundTo]
    have h' : (0 : ℚ) ≤ halfEven (y / (10 : ℚ) ^ lastDigit prec y) := by exact_mod_cast h
    positivity
  rcases le_total 0 x with hx | hx
  · rw [abs_of_nonneg hx, abs_of_nonneg (hnonneg hx)]
  · rw [abs_of_nonpos hx, roundTo_neg]
    have := hnonneg (neg_nonneg.mpr hx)
    rw [roundTo_neg] at this
    rw [abs_of_nonpos (by linarith)]

/-- A positive number stays in its decade, the end of it included. -/
theorem roundTo_mem (hprec : 0 < prec) (hx : 0 < x) :
    (10 : ℚ) ^ Int.log 10 x ≤ roundTo prec x ∧ roundTo prec x ≤ (10 : ℚ) ^ (Int.log 10 x + 1) := by
  obtain ⟨p, rfl⟩ := Nat.exists_eq_succ_of_ne_zero hprec.ne'
  have hpow : ∀ k : ℤ, (10 : ℚ) ^ k = ((10 ^ p : ℤ) : ℚ) * (10 : ℚ) ^ (k - p) := by
    intro k
    rw [zpow_sub₀ (by norm_num : (10 : ℚ) ≠ 0), zpow_natCast]
    push_cast
    field_simp
  have hunit : (0 : ℚ) < (10 : ℚ) ^ lastDigit (p + 1) x := by positivity
  have hdigit : lastDigit (p + 1) x = Int.log 10 x - p := by
    rw [lastDigit, abs_of_pos hx]
    push_cast
    ring
  have hlo := Int.zpow_log_le_self (b := 10) (by norm_num) hx
  have hhi := Int.lt_zpow_succ_log_self (b := 10) (by norm_num) x
  push_cast at hlo hhi
  rw [roundTo]
  constructor
  · have h : (10 ^ p : ℤ) ≤ halfEven (x / (10 : ℚ) ^ lastDigit (p + 1) x) := by
      rw [← halfEven_intCast (10 ^ p)]
      refine halfEven_mono ((le_div_iff₀ hunit).mpr ?_)
      rwa [hdigit, ← hpow]
    calc (10 : ℚ) ^ Int.log 10 x = ((10 ^ p : ℤ) : ℚ) * (10 : ℚ) ^ lastDigit (p + 1) x := by
          rw [hdigit, ← hpow]
      _ ≤ _ := mul_le_mul_of_nonneg_right (by exact_mod_cast h) hunit.le
  · have h : halfEven (x / (10 : ℚ) ^ lastDigit (p + 1) x) ≤ 10 * 10 ^ p := by
      rw [← halfEven_intCast (10 * 10 ^ p)]
      refine halfEven_mono ((div_le_iff₀ hunit).mpr ?_)
      rw [hdigit, Int.cast_mul, mul_assoc, ← hpow]
      rw [zpow_add_one₀ (by norm_num)] at hhi
      push_cast
      linarith
    calc _ ≤ ((10 * 10 ^ p : ℤ) : ℚ) * (10 : ℚ) ^ lastDigit (p + 1) x :=
          mul_le_mul_of_nonneg_right (by exact_mod_cast h) hunit.le
      _ = (10 : ℚ) ^ (Int.log 10 x + 1) := by
          rw [hdigit, Int.cast_mul, mul_assoc, ← hpow, zpow_add_one₀ (by norm_num)]
          push_cast
          ring

/-- Rounding keeps the order. -/
theorem roundTo_mono (hprec : 0 < prec) (h0 : 0 ≤ x) (h : x ≤ y) :
    roundTo prec x ≤ roundTo prec y := by
  rcases h0.eq_or_lt with rfl | hx
  · rw [roundTo_zero, ← abs_of_nonneg h, ← abs_roundTo]
    exact abs_nonneg _
  have hy : 0 < y := hx.trans_le h
  rcases (Int.log_mono_right (b := 10) hx h).lt_or_eq with hlt | heq
  · calc roundTo prec x ≤ (10 : ℚ) ^ (Int.log 10 x + 1) := (roundTo_mem hprec hx).2
      _ ≤ (10 : ℚ) ^ Int.log 10 y := zpow_le_zpow_right₀ (by norm_num) hlt
      _ ≤ roundTo prec y := (roundTo_mem hprec hy).1
  · have hdigit : lastDigit prec x = lastDigit prec y := by
      rw [lastDigit, lastDigit, abs_of_pos hx, abs_of_pos hy, heq]
    have hunit : (0 : ℚ) < (10 : ℚ) ^ lastDigit prec y := by positivity
    rw [roundTo, roundTo, hdigit]
    refine mul_le_mul_of_nonneg_right ?_ hunit.le
    exact_mod_cast halfEven_mono (div_le_div_of_nonneg_right h hunit.le)

/-- A number of no more digits than the precision stays as it is. -/
theorem roundTo_eq_self {c k : ℤ} (hx : x = c * (10 : ℚ) ^ k) (hc : |c| < 10 ^ prec) :
    roundTo prec x = x := by
  rcases eq_or_ne c 0 with rfl | hne
  · rw [hx, Int.cast_zero, zero_mul, roundTo_zero]
  have hpow : (0 : ℚ) < (10 : ℚ) ^ k := by positivity
  have hpos : 0 < |x| := by
    rw [hx]
    positivity
  have hlt : |x| < ((10 : ℕ) : ℚ) ^ ((prec : ℤ) + k) := by
    rw [hx, abs_mul, abs_of_pos hpow, Nat.cast_ofNat, zpow_add₀ (by norm_num), zpow_natCast]
    refine mul_lt_mul_of_pos_right ?_ hpow
    exact_mod_cast hc
  have hlog : Int.log 10 |x| < prec + k := (Int.lt_zpow_iff_log_lt (by norm_num) hpos).mp hlt
  obtain ⟨d, hd⟩ : ∃ d : ℕ, k - lastDigit prec x = d := by
    refine Int.eq_ofNat_of_zero_le ?_
    rw [lastDigit]
    omega
  have hdiv : x / (10 : ℚ) ^ lastDigit prec x = ((c * 10 ^ d : ℤ) : ℚ) := by
    calc x / (10 : ℚ) ^ lastDigit prec x = c * ((10 : ℚ) ^ k / (10 : ℚ) ^ lastDigit prec x) := by
          rw [← mul_div_assoc, ← hx]
      _ = ((c * 10 ^ d : ℤ) : ℚ) := by
          rw [← zpow_sub₀ (by norm_num), hd, zpow_natCast]
          push_cast
          rfl
  rw [roundTo, hdiv, halfEven_intCast, ← hdiv]
  exact div_mul_cancel₀ x (by positivity)

/-- A rounded number has no more digits than the precision. -/
theorem roundTo_digits (hprec : 0 < prec) (x : ℚ) :
    ∃ c k : ℤ, roundTo prec x = c * (10 : ℚ) ^ k ∧ |c| < 10 ^ prec := by
  -- a negative number is the mirror image of a positive one
  wlog hx : 0 ≤ x generalizing x with hpos
  · obtain ⟨c, k, hck, hc⟩ := hpos (-x) (by linarith)
    refine ⟨-c, k, ?_, by rwa [abs_neg]⟩
    rw [← neg_neg x, roundTo_neg, hck]
    push_cast
    ring
  rcases hx.eq_or_lt with rfl | hx
  · exact ⟨0, 0, by rw [roundTo_zero, Int.cast_zero, zero_mul], by simp⟩
  set c := halfEven (x / (10 : ℚ) ^ lastDigit prec x) with hc
  have hunit : (0 : ℚ) < (10 : ℚ) ^ lastDigit prec x := by positivity
  have h0 : 0 ≤ c :=
    (Int.floor_nonneg.mpr (by positivity)).trans (floor_le_halfEven _)
  have hle : c ≤ 10 ^ prec := by
    have h := (roundTo_mem hprec hx).2
    rw [roundTo, ← hc] at h
    have hsplit : (10 : ℚ) ^ (Int.log 10 x + 1) = 10 ^ prec * (10 : ℚ) ^ lastDigit prec x := by
      rw [lastDigit, abs_of_pos hx, ← zpow_natCast, ← zpow_add₀ (by norm_num)]
      congr 1
      ring
    rw [hsplit] at h
    exact_mod_cast le_of_mul_le_mul_right h hunit
  rcases hle.lt_or_eq with hlt | heq
  · exact ⟨c, lastDigit prec x, rfl, by rwa [abs_of_nonneg h0]⟩
  · -- a carry into the next decade
    refine ⟨10 ^ (prec - 1), lastDigit prec x + 1, ?_, ?_⟩
    · rw [roundTo, ← hc, heq, zpow_add_one₀ (by norm_num)]
      obtain ⟨p, rfl⟩ := Nat.exists_eq_succ_of_ne_zero hprec.ne'
      push_cast
      rw [pow_succ]
      ring
    · rw [abs_of_pos (by positivity)]
      exact_mod_cast Nat.pow_lt_pow_right (by decide) (by omega)

theorem roundTo_roundTo (hprec : 0 < prec) (x : ℚ) :
    roundTo prec (roundTo prec x) = roundTo prec x := by
  obtain ⟨c, k, h, hc⟩ := roundTo_digits hprec x
  exact roundTo_eq_self h hc

/-- A rounded comparison is wrong exactly where two numbers in strict order round
to one. -/
theorem roundTo_le_roundTo_iff (hprec : 0 < prec) (hy : 0 ≤ y) :
    roundTo prec x ≤ roundTo prec y ↔ x ≤ y ∨ roundTo prec x = roundTo prec y := by
  constructor
  · intro h
    rcases le_or_gt x y with hxy | hxy
    · exact .inl hxy
    · exact .inr (h.antisymm (roundTo_mono hprec hy hxy.le))
  · rintro (h | h)
    · rcases le_total 0 x with hx | hx
      · exact roundTo_mono hprec hx h
      · have h₁ := roundTo_mono hprec le_rfl (neg_nonneg.mpr hx)
        have h₂ := roundTo_mono hprec le_rfl hy
        rw [roundTo_zero] at h₁ h₂
        rw [roundTo_neg] at h₁
        linarith
    · exact h.le

/-! ## Contexts -/

/-- A precision and the exponents of its numbers. -/
structure Context where
  prec : ℕ
  emin : ℤ
  emax : ℤ
  prec_pos : 0 < prec

/-- The result of an operation in a context: none where it overflows. Below the
least normal number the last digit is at a fixed place. -/
def Context.round (ctx : Context) (x : ℚ) : Option ℚ :=
  if |x| < (10 : ℚ) ^ ctx.emin then
    let least := (10 : ℚ) ^ (ctx.emin - ctx.prec + 1)
    some (halfEven (x / least) * least)
  else if (10 : ℚ) ^ (ctx.emax + 1) ≤ |roundTo ctx.prec x| then none
  else some (roundTo ctx.prec x)

/-- Neither too large nor too small for a context. -/
def Context.Normal (ctx : Context) (x : ℚ) : Prop :=
  x = 0 ∨ (10 : ℚ) ^ ctx.emin ≤ |x| ∧ |x| < (10 : ℚ) ^ ctx.emax

theorem Context.round_of_normal {ctx : Context} (h : ctx.Normal x) :
    ctx.round x = some (roundTo ctx.prec x) := by
  rcases h with rfl | ⟨hmin, hmax⟩
  · rw [Context.round, abs_zero, if_pos (by positivity), roundTo_zero]
    simp [halfEven]
  · have hpos : 0 < |x| := lt_of_lt_of_le (by positivity) hmin
    rw [Context.round, if_neg hmin.not_gt, if_neg]
    have hlog : Int.log 10 |x| < ctx.emax := by
      refine (Int.lt_zpow_iff_log_lt (by norm_num) hpos).mp ?_
      exact_mod_cast hmax
    rw [abs_roundTo, not_le]
    calc roundTo ctx.prec |x| ≤ (10 : ℚ) ^ (Int.log 10 |x| + 1) := (roundTo_mem ctx.prec_pos hpos).2
      _ < (10 : ℚ) ^ (ctx.emax + 1) := zpow_lt_zpow_right₀ (by norm_num) (by omega)

theorem ceilTo_mono {digits : ℕ} (h : x ≤ y) : ceilTo digits x ≤ ceilTo digits y :=
  Int.ceil_mono (mul_le_mul_of_nonneg_right h (by positivity))

end Rounding
