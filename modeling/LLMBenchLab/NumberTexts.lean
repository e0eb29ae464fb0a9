import LLMBenchLab.Codes
import LLMBenchLab.Stdlib
import LLMBenchLab.Rounding
import LLMBenchLab.JsonText

/-!
# The texts of numbers

`str` of an integer, `normalize` and the fixed-point format of a decimal in the default
context, `hex` of a float and of bytes. Each of them writes different values differently;
for a decimal that is so of the values that the context represents
(`Decimal.plainText_eq_iff`).
-/

namespace Python

open Text (Str CodePoint ofString Ascii)
open Codes

/-! ## Signs -/

/-- A minus sign is read back where the rest does not begin with one. -/
theorem sign_append_inj {a b : Bool} {s t : Str} (hs : ∀ c ∈ s.head?, c.val ≠ 0x2d)
    (ht : ∀ c ∈ t.head?, c.val ≠ 0x2d)
    (h : (if a then ofString "-" else []) ++ s = (if b then ofString "-" else []) ++ t) :
    a = b ∧ s = t := by
  have hminus : ∀ {u v : Str}, (∀ c ∈ v.head?, c.val ≠ 0x2d) → ofString "-" ++ u ≠ v := by
    rintro u v hv rfl
    exact hv _ rfl rfl
  cases a <;> cases b
  · exact ⟨rfl, h⟩
  · exact absurd h.symm (hminus hs)
  · exact absurd h (hminus ht)
  · exact ⟨rfl, List.append_cancel_left h⟩

/-! ## Integers -/

theorem isDigit_of_mem_natText {n : ℕ} {c : CodePoint} (h : c ∈ natText n) :
    Decimal.isDigit c = true := by
  obtain ⟨d, hd, rfl⟩ := List.mem_map.mp h
  exact Decimal.isDigit_digitChar (Decimal.lt_of_mem_digitsOf hd)

theorem ne_minus_of_isDigit {c : CodePoint} (h : Decimal.isDigit c = true) : c.val ≠ 0x2d := by
  simp only [Decimal.isDigit, Bool.and_eq_true, decide_eq_true_eq] at h
  omega

theorem head_natText (n : ℕ) : ∀ c ∈ (natText n).head?, c.val ≠ 0x2d :=
  fun _ hc => ne_minus_of_isDigit (isDigit_of_mem_natText (List.mem_of_mem_head? hc))

theorem natText_inj {n m : ℕ} (h : natText n = natText m) : n = m := by
  have hread : ∀ n, ofDigits ((natText n).map Decimal.digitVal) = n := by
    intro n
    rw [natText, Decimal.map_digitVal fun _ => Decimal.lt_of_mem_digitsOf,
      Decimal.ofDigits_digitsOf]
  rw [← hread n, h, hread]

theorem intText_inj {n m : ℤ} (h : intText n = intText m) : n = m := by
  have hform : ∀ n : ℤ, intText n =
      (if decide (n < 0) then ofString "-" else []) ++ natText n.natAbs := by
    intro n
    by_cases hn : n < 0
    · rw [intText, if_pos hn, if_pos (decide_eq_true hn)]
    · rw [intText, if_neg hn, if_neg (by simpa using hn), List.nil_append]
  rw [hform, hform] at h
  obtain ⟨hsign, htext⟩ := sign_append_inj (head_natText _) (head_natText _) h
  have habs := natText_inj htext
  have hiff : n < 0 ↔ m < 0 := by simpa using hsign
  omega

theorem ascii_of_isDigit {s : Str} (h : ∀ c ∈ s, Decimal.isDigit c = true) : Ascii s := by
  intro c hc
  have hdigit := h c hc
  simp only [Decimal.isDigit, Bool.and_eq_true, decide_eq_true_eq] at hdigit
  omega

theorem ascii_natText (n : ℕ) : Ascii (natText n) :=
  ascii_of_isDigit fun _ => isDigit_of_mem_natText

theorem ascii_sign_append {s : Str} (negative : Bool) (h : Ascii s) :
    Ascii ((if negative then ofString "-" else []) ++ s) := by
  refine Ascii.append ?_ h
  cases negative <;> decide

theorem ascii_intText (n : ℤ) : Ascii (intText n) := by
  have hminus : Ascii (ofString "-") := by decide
  rw [intText]
  split
  · exact hminus.append (ascii_natText _)
  · exact ascii_natText _

/-! ## Decimals -/

theorem digitsOf_length {n : ℕ} (h : n ≠ 0) : (digitsOf n).length = Nat.log 10 n + 1 := by
  rw [digitsOf, if_neg h, List.length_reverse, Nat.length_digits 10 n (by decide) h]

theorem digitsOf_length_mul_pow {n : ℕ} (h : n ≠ 0) (k : ℕ) :
    (digitsOf (n * 10 ^ k)).length = (digitsOf n).length + k := by
  have hne : n * 10 ^ k ≠ 0 := Nat.mul_ne_zero h (by positivity)
  rw [digitsOf, digitsOf, if_neg h, if_neg hne, List.length_reverse, List.length_reverse,
    Nat.mul_comm, Nat.digits_base_pow_mul (by decide) (by omega), List.length_append,
    List.length_replicate, Nat.add_comm]

theorem digitsOf_length_le {n k : ℕ} (hk : 0 < k) : (digitsOf n).length ≤ k ↔ n < 10 ^ k := by
  rcases eq_or_ne n 0 with rfl | hn
  · have hpow : 0 < 10 ^ k := by positivity
    exact iff_of_true hk hpow
  · rw [digitsOf_length hn, Nat.succ_le_iff]
    exact Nat.log_lt_iff_lt_pow (by decide) hn

namespace Decimal

/-- `prec` of the default context. -/
def contextPrec : ℕ := 28

/-- `Etiny()` of the default context: no number ends below it. -/
def contextEtiny : ℤ := -1000026

/-- `Etop()` of the default context: the place where the largest number ends. -/
def contextEtop : ℤ := 999972

/-- `_fix` of a number that is not zero; none where it raises `Overflow`. -/
def fix (coefficient : ℕ) (exponent : ℤ) : Option (ℕ × ℤ) :=
  let least := exponent + (digitsOf coefficient).length - contextPrec
  if contextEtop < least then none
  else if exponent < max least contextEtiny then
    let place := max least contextEtiny
    let rounded := (Rounding.halfEven (coefficient / (10 : ℚ) ^ (place - exponent))).toNat
    -- a carry gives one digit more
    let (kept, last) :=
      if contextPrec < (digitsOf rounded).length then (rounded / 10, place + 1)
      else (rounded, place)
    if contextEtop < last then none else some (kept, last)
  else some (coefficient, exponent)

/-- The loop of `normalize`, which drops zeros at the end. -/
def dropZeros : ℕ → ℕ → ℤ → ℕ × ℤ
  | 0, coefficient, exponent => (coefficient, exponent)
  | fuel + 1, coefficient, exponent =>
    if coefficient % 10 = 0 then dropZeros fuel (coefficient / 10) (exponent + 1)
    else (coefficient, exponent)

/-- `d.normalize()`; none where it raises `Overflow`. -/
def normalize : Decimal → Option Decimal
  | finite negative coefficient exponent =>
    if coefficient = 0 then some (finite negative 0 0)
    else (fix coefficient exponent).map fun (kept, last) =>
      if kept = 0 then finite negative 0 0
      else
        let (kept, last) := dropZeros (digitsOf kept).length kept last
        finite negative kept last
  | d => some d

/-- `"0" if d == 0 else format(d.normalize(), "f")` -/
def plainText : Decimal → Option Str
  | finite negative coefficient exponent =>
    if coefficient = 0 then some (ofString "0")
    else (normalize (finite negative coefficient exponent)).map formatF
  | d => d.normalize.map formatF

/-- A value that the default context represents: no more than 28 digits, between the places
where its numbers end. -/
def Representable (x : ℚ) : Prop :=
  ∃ c : ℕ, ∃ e : ℤ, c < 10 ^ contextPrec ∧ contextEtiny ≤ e ∧ e ≤ contextEtop ∧
    |x| = c * (10 : ℚ) ^ e

/-- A decimal of no more than 28 digits, whose exponent the context has. -/
theorem representable_of_digits {negative : Bool} {c : ℕ} {e : ℤ}
    (hdigits : (digitsOf c).length ≤ contextPrec) (hlow : contextEtiny ≤ e)
    (hhigh : e ≤ contextEtop) : Representable (value (finite negative c e)) := by
  refine ⟨c, e, (digitsOf_length_le (by decide)).mp hdigits, hlow, hhigh, ?_⟩
  have hpow : (0 : ℚ) < 10 ^ e := by positivity
  rw [value, abs_mul, abs_of_pos hpow]
  cases negative
  · rw [if_neg (by decide), Nat.abs_cast]
  · rw [if_pos rfl, abs_neg, Nat.abs_cast]

/-! ### One value, one form -/

theorem coefficient_eq {c c' k : ℕ} {e : ℤ} (h : (c : ℚ) * 10 ^ e = c' * (10 : ℚ) ^ (e + k)) :
    c = c' * 10 ^ k := by
  have hpow : ((10 : ℚ) ^ e) ≠ 0 := by positivity
  rw [zpow_add₀ (by norm_num), zpow_natCast, mul_left_comm, mul_comm] at h
  exact_mod_cast mul_left_cancel₀ hpow h

/-- The first digits of one number are at one place. -/
theorem digitsOf_length_add {c c' : ℕ} {e e' : ℤ} (hc : c ≠ 0) (hc' : c' ≠ 0)
    (h : (c : ℚ) * 10 ^ e = c' * (10 : ℚ) ^ e') :
    e + (digitsOf c).length = e' + (digitsOf c').length := by
  wlog hle : e ≤ e' generalizing c c' e e'
  · exact (this hc' hc h.symm (by omega)).symm
  obtain ⟨k, rfl⟩ := Int.le.dest hle
  rw [coefficient_eq h, digitsOf_length_mul_pow hc']
  push_cast
  omega

/-- A number has one form without zeros at its end. -/
theorem form_unique {c c' : ℕ} {e e' : ℤ} (hc : c % 10 ≠ 0) (hc' : c' % 10 ≠ 0)
    (h : (c : ℚ) * 10 ^ e = c' * (10 : ℚ) ^ e') : c = c' ∧ e = e' := by
  wlog hle : e ≤ e' generalizing c c' e e'
  · obtain ⟨hcoefficient, hexponent⟩ := this hc' hc h.symm (by omega)
    exact ⟨hcoefficient.symm, hexponent.symm⟩
  obtain ⟨k, rfl⟩ := Int.le.dest hle
  have hk := coefficient_eq h
  cases k with
  | zero => exact ⟨by simpa using hk, by simp⟩
  | succ k =>
    refine absurd ?_ hc
    rw [hk, pow_succ, ← mul_assoc]
    exact Nat.mul_mod_left _ _

theorem dropZeros_spec (fuel c : ℕ) (e : ℤ) (hc : c ≠ 0) (hfuel : c < 10 ^ fuel) :
    (dropZeros fuel c e).1 % 10 ≠ 0 ∧
      ((dropZeros fuel c e).1 : ℚ) * 10 ^ (dropZeros fuel c e).2 = c * 10 ^ e := by
  induction fuel generalizing c e with
  | zero =>
    rw [Nat.pow_zero] at hfuel
    omega
  | succ fuel ih =>
    by_cases hlast : c % 10 = 0
    · rw [dropZeros, if_pos hlast]
      obtain ⟨hdigit, hvalue⟩ := ih (c / 10) (e + 1) (by omega) (by rw [pow_succ] at hfuel; omega)
      refine ⟨hdigit, hvalue.trans ?_⟩
      have hdiv : (c : ℚ) = (c / 10 : ℕ) * 10 := by exact_mod_cast (Nat.div_mul_cancel
        (Nat.dvd_of_mod_eq_zero hlast)).symm
      rw [hdiv, zpow_add_one₀ (by norm_num)]
      ring
    · rw [dropZeros, if_neg hlast]
      exact ⟨hlast, rfl⟩

/-- A value that the context represents stays as it is. -/
theorem fix_eq {c : ℕ} {e : ℤ} (hc : c ≠ 0)
    (h : Representable (c * (10 : ℚ) ^ e)) :
    ∃ kept last, fix c e = some (kept, last) ∧ kept ≠ 0 ∧
      (kept : ℚ) * 10 ^ last = c * 10 ^ e := by
  obtain ⟨c₁, e₁, hlt, hlow, hhigh, hvalue⟩ := h
  have hpos : (0 : ℚ) < c * 10 ^ e := by positivity
  rw [abs_of_pos hpos] at hvalue
  have hc₁ : c₁ ≠ 0 := by
    rintro rfl
    rw [Nat.cast_zero, zero_mul] at hvalue
    exact hpos.ne' hvalue
  have hplace := digitsOf_length_add hc hc₁ hvalue
  have hdigits : (digitsOf c₁).length ≤ contextPrec := (digitsOf_length_le (by decide)).mpr hlt
  rw [fix]
  dsimp only
  rw [if_neg (by omega)]
  by_cases hround : e < max (e + (digitsOf c).length - contextPrec) contextEtiny
  · rw [if_pos hround]
    set place := max (e + ((digitsOf c).length : ℤ) - contextPrec) contextEtiny with hdef
    obtain ⟨k, hk⟩ := Int.le.dest hround.le
    obtain ⟨j, hj⟩ := Int.le.dest (show place ≤ e₁ by omega)
    -- only zeros are cut off
    have hexact : c = c₁ * 10 ^ j * 10 ^ k := by
      rw [mul_assoc, ← pow_add]
      refine coefficient_eq (e := e) (k := j + k) ?_
      rw [hvalue, ← hj, ← hk]
      congr 2
      push_cast
      ring
    have hkept : c₁ * 10 ^ j ≠ 0 := Nat.mul_ne_zero hc₁ (by positivity)
    have hlength := digitsOf_length_mul_pow hkept k
    rw [← hexact] at hlength
    have hrounded : (Rounding.halfEven ((c : ℚ) / 10 ^ (place - e))).toNat = c₁ * 10 ^ j := by
      have hdiv : (c : ℚ) / 10 ^ (place - e) = ((c₁ * 10 ^ j : ℕ) : ℤ) := by
        rw [← hk, add_sub_cancel_left, zpow_natCast, div_eq_iff (by positivity)]
        exact_mod_cast hexact
      rw [hdiv, Rounding.halfEven_intCast, Int.toNat_natCast]
    have hleast : e + ((digitsOf c).length : ℤ) - contextPrec ≤ place := le_max_left _ _
    have hfit : ¬ contextPrec < (digitsOf (c₁ * 10 ^ j)).length := by omega
    rw [hrounded, if_neg hfit]
    dsimp only
    rw [if_neg (show ¬ contextEtop < place by omega)]
    refine ⟨_, _, rfl, hkept, ?_⟩
    rw [hvalue, ← hj, zpow_add₀ (by norm_num), zpow_natCast]
    push_cast
    ring
  · rw [if_neg hround]
    exact ⟨c, e, rfl, hc, rfl⟩

/-! ### Reading a text -/

/-- The number that a text in fixed point stands for. -/
def readFixed (s : Str) : ℚ :=
  let (whole, rest) := s.span isDigit
  let (fraction, _) := fractionPart rest
  ofDigits ((whole ++ fraction).map digitVal) * (10 : ℚ) ^ (-(fraction.length : ℤ))

theorem readFixed_fixed (c : ℕ) (e : ℤ) : readFixed (fixed c e) = c * (10 : ℚ) ^ e := by
  cases e with
  | ofNat e =>
    have hspan : (natText (c * 10 ^ e)).span isDigit = (natText (c * 10 ^ e), []) :=
      span_digits_self fun _ => lt_of_mem_digitsOf
    rw [readFixed, fixed, hspan]
    simp only [fractionPart, List.append_nil, List.length_nil]
    rw [natText, map_digitVal fun _ => lt_of_mem_digitsOf, ofDigits_digitsOf]
    simp
  | negSucc e =>
    set padded := List.replicate (e + 2 - (digitsOf c).length) 0 ++ digitsOf c with hpadded
    have hdigits : ∀ d ∈ padded, d < 10 := by
      intro d hd
      rcases List.mem_append.mp hd with hd | hd
      · rw [List.eq_of_mem_replicate hd]
        decide
      · exact lt_of_mem_digitsOf hd
    have hlength : e + 2 ≤ padded.length := by
      rw [hpadded, List.length_append, List.length_replicate]
      omega
    set whole := padded.take (padded.length - (e + 1)) with hwhole
    set fraction := padded.drop (padded.length - (e + 1)) with hfraction
    have hwhole10 : ∀ d ∈ whole, d < 10 := fun d hd => hdigits d (List.mem_of_mem_take hd)
    have hfraction10 : ∀ d ∈ fraction, d < 10 := fun d hd => hdigits d (List.mem_of_mem_drop hd)
    have hplaces : fraction.length = e + 1 := by
      rw [hfraction, List.length_drop]
      omega
    have hspan : (fixed c (.negSucc e)).span isDigit =
        (whole.map digitChar, ofString "." ++ fraction.map digitChar) := by
      refine Eq.trans (congrArg (List.span isDigit) (List.append_assoc _ _ _)) ?_
      refine span_digits hwhole10 fun c hc => ?_
      obtain rfl := Option.some.inj hc
      rfl
    have hvalue : ofDigits padded = c := (ofDigits_zeros _ _).trans (ofDigits_digitsOf c)
    rw [readFixed, hspan]
    simp only [fractionPart_point, span_digits_self hfraction10]
    rw [← List.map_append, hwhole, hfraction, List.take_append_drop, map_digitVal hdigits, hvalue,
      ← hfraction, List.length_map, hplaces]
    rfl

theorem formatF_value {n n' : Bool} {c c' : ℕ} {e e' : ℤ}
    (h : formatF (finite n c e) = formatF (finite n' c' e')) :
    value (finite n c e) = value (finite n' c' e') := by
  have hhead : ∀ c e, ∀ d ∈ (fixed c e).head?, d.val ≠ 0x2d := by
    intro c e d hd
    have := numeric_val (numeric_fixed d (List.mem_of_mem_head? hd))
    omega
  obtain ⟨rfl, htext⟩ := sign_append_inj (hhead c e) (hhead c' e') h
  have hread := congrArg readFixed htext
  rw [readFixed_fixed, readFixed_fixed] at hread
  cases n
  · exact hread
  · rw [value, value, if_pos rfl, if_pos rfl, neg_mul, neg_mul, hread]

/-! ### Texts and values -/

/-- The form of a number in a text: zero has no sign and no places, any other number no zeros
at its end. -/
def Plain (negative : Bool) (c : ℕ) (e : ℤ) : Prop :=
  c % 10 ≠ 0 ∨ negative = false ∧ c = 0 ∧ e = 0

theorem value_ne_zero {n : Bool} {c : ℕ} {e : ℤ} (h : c % 10 ≠ 0) : value (finite n c e) ≠ 0 := by
  have hc : c ≠ 0 := by
    rintro rfl
    exact h rfl
  have hpow : ((10 : ℚ) ^ e) ≠ 0 := by positivity
  cases n
  · exact mul_ne_zero (Nat.cast_ne_zero.mpr hc) hpow
  · exact mul_ne_zero (neg_ne_zero.mpr (Nat.cast_ne_zero.mpr hc)) hpow

theorem value_true (c : ℕ) (e : ℤ) :
    value (finite true c e) = -value (finite false c e) :=
  neg_mul _ _

/-- A value has one such form. -/
theorem Plain.unique {n n' : Bool} {c c' : ℕ} {e e' : ℤ} (h : Plain n c e) (h' : Plain n' c' e')
    (hvalue : value (finite n c e) = value (finite n' c' e')) :
    finite n c e = finite n' c' e' := by
  have hzero : value (finite false 0 0) = 0 := zero_mul _
  rcases h with h | ⟨rfl, rfl, rfl⟩
  · rcases h' with h' | ⟨rfl, rfl, rfl⟩
    · have hnonneg : ∀ c e, 0 ≤ value (finite false c e) := by
        intro c e
        exact mul_nonneg (Nat.cast_nonneg c) (by positivity)
      have hsame : value (finite false c e) = value (finite false c' e') → n = n' →
          finite n c e = finite n' c' e' := by
        rintro heq rfl
        obtain ⟨rfl, rfl⟩ := form_unique h h' heq
        rfl
      have hc := hnonneg c e
      have hc' := hnonneg c' e'
      have hne := value_ne_zero (n := false) (e := e) h
      cases n <;> cases n'
      · exact hsame hvalue rfl
      · rw [value_true] at hvalue
        exact absurd (le_antisymm (by linarith) hc) hne
      · rw [value_true] at hvalue
        exact absurd (le_antisymm (by linarith) hc) hne
      · rw [value_true, value_true] at hvalue
        exact hsame (neg_inj.mp hvalue) rfl
    · exact absurd (hvalue.trans hzero) (value_ne_zero h)
  · rcases h' with h' | ⟨rfl, rfl, rfl⟩
    · exact absurd (hvalue.symm.trans hzero) (value_ne_zero h')
    · rfl

/-- The text of a value that the context represents. -/
theorem plainText_spec {n : Bool} {c : ℕ} {e : ℤ} (h : Representable (value (finite n c e))) :
    ∃ n' c' e', plainText (finite n c e) = some (formatF (finite n' c' e')) ∧ Plain n' c' e' ∧
      value (finite n' c' e') = value (finite n c e) := by
  rcases eq_or_ne c 0 with rfl | hc
  · refine ⟨false, 0, 0, ?_, Or.inr ⟨rfl, rfl, rfl⟩, ?_⟩
    · rw [plainText, if_pos rfl]
      rfl
    · rw [value, value]
      simp
  · have hrep : Representable (c * (10 : ℚ) ^ e) := by
      cases n
      · exact h
      · rw [value_true] at h
        obtain ⟨c₁, e₁, hlt, hlow, hhigh, heq⟩ := h
        exact ⟨c₁, e₁, hlt, hlow, hhigh, by rw [← heq, abs_neg]; rfl⟩
    obtain ⟨kept, last, hfix, hkept, hvalue⟩ := fix_eq hc hrep
    obtain ⟨hdigit, hdropped⟩ := dropZeros_spec (digitsOf kept).length kept last hkept
      ((digitsOf_length_le (List.length_pos_iff.mpr (digitsOf_ne_nil _))).mp le_rfl)
    refine ⟨n, (dropZeros (digitsOf kept).length kept last).1,
      (dropZeros (digitsOf kept).length kept last).2, ?_, Or.inl hdigit, ?_⟩
    · rw [plainText, if_neg hc, normalize, if_neg hc, hfix]
      simp only [Option.map_some, if_neg hkept]
    · cases n
      · exact hdropped.trans hvalue
      · rw [value_true, value_true]
        exact congrArg Neg.neg (hdropped.trans hvalue)

/-- **Texts of decimals.** Two decimals that the context represents have one text exactly if
they are the same number. -/
theorem plainText_eq_iff {d d' : Decimal} (hd : d.isFinite = true) (hd' : d'.isFinite = true)
    (h : Representable d.value) (h' : Representable d'.value) :
    plainText d = plainText d' ↔ d.value = d'.value := by
  cases d with
  | infinite | nan => cases hd
  | finite n c e =>
    cases d' with
    | infinite | nan => cases hd'
    | finite n' c' e' =>
      obtain ⟨m, k, l, htext, hplain, hvalue⟩ := plainText_spec h
      obtain ⟨m', k', l', htext', hplain', hvalue'⟩ := plainText_spec h'
      rw [htext, htext', ← hvalue, ← hvalue', Option.some.injEq]
      refine ⟨formatF_value, fun heq => ?_⟩
      rw [hplain.unique hplain' heq]

theorem plainText_isSome {d : Decimal} (hd : d.isFinite = true) (h : Representable d.value) :
    (plainText d).isSome = true := by
  cases d with
  | infinite | nan => cases hd
  | finite n c e =>
    obtain ⟨m, k, l, htext, -⟩ := plainText_spec h
    rw [htext]
    rfl

theorem ascii_formatF (d : Decimal) : Ascii (formatF d) := by
  cases d with
  | finite negative c e =>
    refine ascii_sign_append negative fun d hd => ?_
    exact (numeric_val (numeric_fixed d hd)).2.trans_lt (by decide)
  | infinite negative => cases negative <;> decide
  | nan => decide

theorem ascii_plainText {d : Decimal} {s : Str} (h : plainText d = some s) : Ascii s := by
  have hformat : ∀ {o : Option Decimal}, o.map formatF = some s → Ascii s := by
    intro o ho
    obtain ⟨d', -, rfl⟩ := Option.map_eq_some_iff.mp ho
    exact ascii_formatF d'
  cases d with
  | infinite negative => exact hformat (o := normalize (infinite negative)) h
  | nan => exact hformat (o := normalize nan) h
  | finite negative c e =>
    rw [plainText] at h
    split at h
    · obtain rfl := Option.some.inj h
      decide
    · exact hformat h

example : plainText (finite true 120 (-2)) = some (ofString "-1.2") := by decide +kernel

end Decimal

/-! ## Floats -/

namespace Double

/-- The digits of `x.hex()` behind the point. -/
def hexFraction (exponent : Fin 2047) (fraction : Fin (2 ^ 52)) : Str :=
  if exponent = 0 ∧ fraction = 0 then ofString "0" else (places 16 13 fraction).map hexChar

/-- The exponent that `x.hex()` shows. -/
def hexExponent (exponent : Fin 2047) (fraction : Fin (2 ^ 52)) : ℤ :=
  if exponent = 0 then if fraction = 0 then 0 else -1022 else exponent - 1023

/-- `"%+d" % n` -/
def signedText (n : ℤ) : Str := ofString (if n < 0 then "-" else "+") ++ natText n.natAbs

/-- `x.hex()` -/
def hex : Double → Str
  | finite negative exponent fraction =>
    (if negative then ofString "-" else []) ++
      (ofString (if exponent = 0 then "0x0." else "0x1.") ++
        (hexFraction exponent fraction ++ ofString "p" ++
          signedText (hexExponent exponent fraction)))
  | infinite negative => ofString (if negative then "-inf" else "inf")
  | nan => ofString "nan"

theorem signedText_inj {n m : ℤ} (h : signedText n = signedText m) : n = m := by
  have hlength : ∀ n : ℤ, (ofString (if n < 0 then "-" else "+")).length = 1 := by
    intro n
    split_ifs <;> rfl
  obtain ⟨hsign, htext⟩ := List.append_inj h ((hlength n).trans (hlength m).symm)
  have habs := natText_inj htext
  split_ifs at hsign with hn hm hm
  · omega
  · exact absurd hsign (by decide)
  · exact absurd hsign (by decide)
  · omega

/-- A hexadecimal digit is not the mark before the exponent. -/
theorem p_notMem_hexFraction (e : Fin 2047) (f : Fin (2 ^ 52)) :
    (0x70 : CodePoint) ∉ hexFraction e f := by
  have hdigit : ∀ d < 16, hexChar d ≠ 0x70 := by decide
  intro hmem
  rw [hexFraction] at hmem
  split_ifs at hmem
  · exact absurd hmem (by decide)
  · obtain ⟨d, hd, heq⟩ := List.mem_map.mp hmem
    exact hdigit d (lt_of_mem_places (by decide) hd) heq

theorem p_notMem_signedText (n : ℤ) : (0x70 : CodePoint) ∉ signedText n := by
  intro hmem
  rcases List.mem_append.mp hmem with hmem | hmem
  · split_ifs at hmem
    · exact absurd hmem (by decide)
    · exact absurd hmem (by decide)
  · exact absurd (isDigit_of_mem_natText hmem) (by decide)

theorem hexFraction_inj {e e' : Fin 2047} {f f' : Fin (2 ^ 52)}
    (h : hexFraction e f = hexFraction e' f') : f = f' := by
  have hlength : ∀ f : Fin (2 ^ 52), ofString "0" ≠ (places 16 13 f).map hexChar := by
    intro f heq
    have hlen := congrArg List.length heq
    rw [List.length_map, length_places] at hlen
    exact absurd hlen (by decide)
  rw [hexFraction, hexFraction] at h
  split_ifs at h with hzero hzero' hzero'
  · exact hzero.2.trans hzero'.2.symm
  · exact absurd h (hlength f')
  · exact absurd h.symm (hlength f)
  · exact Fin.ext ((prefixCode_hex 13).injOn (show _ < 16 ^ 13 by omega)
      (show _ < 16 ^ 13 by omega) h)

/-- Finite floats have different texts, the two zeros as well. -/
theorem hex_inj {x y : Double} (hx : x.isFinite = true) (hy : y.isFinite = true)
    (h : hex x = hex y) : x = y := by
  cases x with
  | infinite | nan => cases hx
  | finite n e f =>
    cases y with
    | infinite | nan => cases hy
    | finite n' e' f' =>
      have hhead : ∀ (e : Fin 2047) (t : Str),
          ∀ c ∈ (ofString (if e = 0 then "0x0." else "0x1.") ++ t).head?, c.val ≠ 0x2d := by
        intro e t c hc
        split_ifs at hc
        · obtain rfl := Option.some.inj hc
          decide
        · obtain rfl := Option.some.inj hc
          decide
      obtain ⟨rfl, htext⟩ := sign_append_inj (hhead e _) (hhead e' _) h
      have hleading : ∀ e : Fin 2047, (ofString (if e = 0 then "0x0." else "0x1.")).length = 4 := by
        intro e
        split_ifs <;> rfl
      obtain ⟨hlead, hrest⟩ := List.append_inj htext ((hleading e).trans (hleading e').symm)
      have he : e = 0 ↔ e' = 0 := by
        split_ifs at hlead with hzero hzero' hzero'
        · exact iff_of_true hzero hzero'
        · exact absurd hlead (by decide)
        · exact absurd hlead (by decide)
        · exact iff_of_false hzero hzero'
      rw [List.append_assoc, List.append_assoc] at hrest
      obtain ⟨hfraction, -, hexponent⟩ := (List.append_cons_inj_of_notMem
        (p_notMem_hexFraction e f) (p_notMem_signedText _)).mp hrest
      obtain rfl := hexFraction_inj hfraction
      have hexp := signedText_inj hexponent
      rw [hexExponent, hexExponent] at hexp
      have heq : e = e' := by
        by_cases hzero : e = 0
        · exact hzero.trans (he.mp hzero).symm
        · rw [if_neg hzero, if_neg (mt he.mpr hzero)] at hexp
          exact Fin.ext (by omega)
      rw [heq]

theorem ascii_hex (x : Double) : Ascii (hex x) := by
  cases x with
  | infinite negative => cases negative <;> decide
  | nan => decide
  | finite negative e f =>
    have hlead : Ascii (ofString (if e = 0 then "0x0." else "0x1.")) := by
      split_ifs <;> decide
    have hfraction : Ascii (hexFraction e f) := by
      rw [hexFraction]
      split_ifs
      · decide
      · exact Python.ascii_hex 13 f
    have hp : Ascii (ofString "p") := by decide
    have hexponent : Ascii (signedText (hexExponent e f)) := by
      refine Ascii.append ?_ (ascii_natText _)
      split_ifs <;> decide
    exact ascii_sign_append negative (hlead.append ((hfraction.append hp).append hexponent))

/-- One and a half. -/
example : hex (finite false 1023 (2 ^ 51)) = ofString "0x1.8000000000000p+0" := by decide +kernel

end Double

/-! ## Bytes -/

/-- `b.hex()` -/
def bytesHex (b : List UInt8) : Str := b.flatMap fun x => (places 16 2 x.toNat).map hexChar

theorem ascii_bytesHex (b : List UInt8) : Ascii (bytesHex b) := by
  intro c hc
  obtain ⟨x, -, hc⟩ := List.mem_flatMap.mp hc
  exact ascii_hex 2 x.toNat c hc

theorem bytesHex_inj {b b' : List UInt8} (h : bytesHex b = bytesHex b') : b = b' := by
  have hcode : PrefixCode (fun _ => True) fun x : UInt8 => (places 16 2 x.toNat).map hexChar := by
    intro x y _ _ s t hst
    obtain ⟨hval, hrest⟩ := prefixCode_hex 2 x.toNat_lt y.toNat_lt hst
    exact ⟨UInt8.toNat_inj.mp hval, hrest⟩
  refine hcode.flatMap_inj ?_ (fun _ _ => trivial) (fun _ _ => trivial) h
  rintro x - hnil
  have hlength := congrArg List.length hnil
  rw [List.length_map, length_places] at hlength
  cases hlength

end Python
