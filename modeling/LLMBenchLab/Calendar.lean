import LLMBenchLab.JsonText
import LLMBenchLab.Stdlib
import LLMBenchLab.Replacing

/-!
# The calendar: how an instant is written

`_ord2ymd` of `datetime` takes the number of a day to its year, month and day in the
proleptic Gregorian calendar, and `_ymd2ord` takes it back. `isoformat` writes the parts
in a fixed number of digits each, so that two instants never have the same text.
-/

namespace Python

open Text (Str CodePoint ofString Ascii)
open Codes

/-! ## Days -/

/-- `_is_leap` -/
def isLeap (year : ℕ) : Bool := year % 4 == 0 && (year % 100 != 0 || year % 400 == 0)

/-- `_days_before_year` -/
def daysBeforeYear (year : ℕ) : ℕ :=
  (year - 1) * 365 + (year - 1) / 4 - (year - 1) / 100 + (year - 1) / 400

/-- `_DAYS_IN_MONTH`, of a year that may be a leap year -/
def daysInMonth (leap : Bool) (month : ℕ) : ℕ :=
  [0, 31, if leap then 29 else 28, 31, 30, 31, 30, 31, 31, 30, 31, 30, 31].getD month 0

/-- `_days_before_month` -/
def daysBeforeMonth (leap : Bool) (month : ℕ) : ℕ :=
  [0, 0, 31, 59, 90, 120, 151, 181, 212, 243, 273, 304, 334].getD month 0 +
    if leap && 2 < month then 1 else 0

/-- `_ymd2ord` -/
def ymd2ord (year month day : ℕ) : ℕ :=
  daysBeforeYear year + daysBeforeMonth (isLeap year) month + day

/-- The month and the day of a day of the year, from an estimate that is at most one too
large. -/
def monthDay (leap : Bool) (n : ℕ) : ℕ × ℕ :=
  let month := (n + 50) / 32
  let preceding := daysBeforeMonth leap month
  if n < preceding then (month - 1, n - (preceding - daysInMonth leap (month - 1)) + 1)
  else (month, n - preceding + 1)

/-- `_ord2ymd`, of the day after `n` days -/
def ord2ymd (n : ℕ) : ℕ × ℕ × ℕ :=
  let n400 := n / 146097
  let r400 := n % 146097
  let n100 := r400 / 36524
  let r100 := r400 % 36524
  let n4 := r100 / 1461
  let r4 := r100 % 1461
  let n1 := r4 / 365
  let year := n400 * 400 + 1 + n100 * 100 + n4 * 4 + n1
  if n1 = 4 ∨ n100 = 4 then (year - 1, 12, 31)
  else (year, monthDay (n1 == 3 && (n4 != 24 || n100 == 3)) (r4 % 365))

theorem monthDay_spec : ∀ leap : Bool, ∀ n < 365,
    daysBeforeMonth leap (monthDay leap n).1 + (monthDay leap n).2 = n + 1 ∧
      (monthDay leap n).1 ≤ 12 ∧ (monthDay leap n).2 ≤ 31 := by decide +kernel

theorem isLeap_parts {a b c d : ℕ} (hb : b < 4) (hc : c < 25) (hd : d < 4) :
    isLeap (a * 400 + 1 + b * 100 + c * 4 + d) = (d == 3 && (c != 24 || b == 3)) := by
  rw [Bool.eq_iff_iff]
  simp only [isLeap, Bool.and_eq_true, Bool.or_eq_true, beq_iff_eq, bne_iff_ne]
  omega

theorem daysBeforeYear_parts {a b c d : ℕ} (hb : b < 4) (hc : c < 25) (hd : d < 4) :
    daysBeforeYear (a * 400 + 1 + b * 100 + c * 4 + d) =
      a * 146097 + b * 36524 + c * 1461 + d * 365 := by
  unfold daysBeforeYear
  omega

/-- The last day of a leap year. -/
theorem ymd2ord_last {year : ℕ} (h : isLeap year = true) :
    ymd2ord year 12 31 = daysBeforeYear year + 366 := by
  rw [ymd2ord, h]
  rfl

/-- A day is known from its year, month and day. -/
theorem ymd2ord_ord2ymd (n : ℕ) :
    ymd2ord (ord2ymd n).1 (ord2ymd n).2.1 (ord2ymd n).2.2 = n + 1 := by
  have h400 := Nat.div_add_mod n 146097
  have h100 := Nat.div_add_mod (n % 146097) 36524
  have h4 := Nat.div_add_mod (n % 146097 % 36524) 1461
  have h1 := Nat.div_add_mod (n % 146097 % 36524 % 1461) 365
  have hlt400 := Nat.mod_lt n (show 0 < 146097 by decide)
  have hlt100 := Nat.mod_lt (n % 146097) (show 0 < 36524 by decide)
  have hlt4 := Nat.mod_lt (n % 146097 % 36524) (show 0 < 1461 by decide)
  have hlt1 := Nat.mod_lt (n % 146097 % 36524 % 1461) (show 0 < 365 by decide)
  unfold ord2ymd
  dsimp only
  generalize n % 146097 % 36524 % 1461 % 365 = r at *
  generalize n % 146097 % 36524 % 1461 / 365 = d at *
  generalize n % 146097 % 36524 % 1461 = r4 at *
  generalize n % 146097 % 36524 / 1461 = c at *
  generalize n % 146097 % 36524 = r100 at *
  generalize n % 146097 / 36524 = b at *
  generalize n % 146097 = r400 at *
  generalize n / 146097 = a at *
  by_cases hb : b = 4
  · -- the last day of four centuries
    have hyear : a * 400 + 1 + b * 100 + c * 4 + d - 1 = a * 400 + 1 + 3 * 100 + 24 * 4 + 3 := by
      omega
    rw [if_pos (Or.inr hb), hyear, ymd2ord_last (isLeap_parts (by decide) (by decide) (by decide)),
      daysBeforeYear_parts (by decide) (by decide) (by decide)]
    omega
  by_cases hd : d = 4
  · -- the last day of four years
    have hyear : a * 400 + 1 + b * 100 + c * 4 + d - 1 = a * 400 + 1 + b * 100 + c * 4 + 3 := by
      omega
    have hleap : isLeap (a * 400 + 1 + b * 100 + c * 4 + 3) = true := by
      have hne : c ≠ 24 := by omega
      rw [isLeap_parts (by omega) (by omega) (by omega), bne_iff_ne.mpr hne]
      rfl
    rw [if_pos (Or.inl hd), hyear, ymd2ord_last hleap,
      daysBeforeYear_parts (by omega) (by omega) (by omega)]
    omega
  · rw [if_neg (not_or.mpr ⟨hd, hb⟩)]
    dsimp only
    rw [ymd2ord, isLeap_parts (by omega) (by omega) (by omega),
      daysBeforeYear_parts (by omega) (by omega) (by omega)]
    have hmonth := (monthDay_spec (d == 3 && (c != 24 || b == 3)) r hlt1).1
    omega

theorem ord2ymd_lt {n : ℕ} (h : n < 3652059) :
    (ord2ymd n).1 < 10000 ∧ (ord2ymd n).2.1 < 100 ∧ (ord2ymd n).2.2 < 100 := by
  unfold ord2ymd
  dsimp only
  split
  · dsimp only
    omega
  · have hmonth := (monthDay_spec
      (n % 146097 % 36524 % 1461 / 365 == 3 && (n % 146097 % 36524 / 1461 != 24 ||
        n % 146097 / 36524 == 3)) (n % 146097 % 36524 % 1461 % 365) (Nat.mod_lt _ (by decide))).2
    dsimp only
    omega

/-! ## Texts -/

/-- `"%0*d" % (k, n)` for a number of at most `k` digits -/
def zeroPadded (k n : ℕ) : Str := (places 10 k n).map digitChar

/-- `t.isoformat(timespec="microseconds")` of a datetime in UTC -/
def isoformatMicroseconds (t : Instant) : Str :=
  let day := (t.val / 86400000000).toNat
  let time := (t.val % 86400000000).toNat
  zeroPadded 4 (ord2ymd day).1 ++ ofString "-" ++ zeroPadded 2 (ord2ymd day).2.1 ++
    ofString "-" ++ zeroPadded 2 (ord2ymd day).2.2 ++ ofString "T" ++
    zeroPadded 2 (time / 3600000000) ++ ofString ":" ++ zeroPadded 2 (time / 60000000 % 60) ++
    ofString ":" ++ zeroPadded 2 (time / 1000000 % 60) ++ ofString "." ++
    zeroPadded 6 (time % 1000000) ++ ofString "+00:00"

theorem prefixCode_zeroPadded (k : ℕ) : PrefixCode (· < 10 ^ k) (zeroPadded k) := by
  refine prefixCode_places (by decide) fun i j hi hj h => ?_
  have hval := congrArg Fin.val h
  rw [Decimal.val_digitChar hi, Decimal.val_digitChar hj] at hval
  omega

/-- Instants have different texts. -/
theorem isoformatMicroseconds_inj {t t' : Instant}
    (h : isoformatMicroseconds t = isoformatMicroseconds t') : t = t' := by
  have hbounds : ∀ t : Instant, (t.val / 86400000000).toNat < 3652059 ∧
      (t.val % 86400000000).toNat < 86400000000 := by
    intro t
    have ht := t.property
    unfold maxWall at ht
    omega
  obtain ⟨hday, htime⟩ := hbounds t
  obtain ⟨hday', htime'⟩ := hbounds t'
  have hparts := ord2ymd_lt hday
  have hparts' := ord2ymd_lt hday'
  simp only [isoformatMicroseconds, List.append_assoc] at h
  -- the parts, from left to right
  obtain ⟨hyear, h⟩ := prefixCode_zeroPadded 4 hparts.1 hparts'.1 h
  obtain ⟨hmonth, h⟩ := prefixCode_zeroPadded 2 hparts.2.1 hparts'.2.1 (List.append_cancel_left h)
  obtain ⟨hd, h⟩ := prefixCode_zeroPadded 2 hparts.2.2 hparts'.2.2 (List.append_cancel_left h)
  obtain ⟨hhour, h⟩ :=
    prefixCode_zeroPadded 2 (by omega) (by omega) (List.append_cancel_left h)
  obtain ⟨hminute, h⟩ :=
    prefixCode_zeroPadded 2 (by omega) (by omega) (List.append_cancel_left h)
  obtain ⟨hsecond, h⟩ :=
    prefixCode_zeroPadded 2 (by omega) (by omega) (List.append_cancel_left h)
  obtain ⟨hmicro, -⟩ :=
    prefixCode_zeroPadded 6 (by omega) (by omega) (List.append_cancel_left h)
  have hdays : (t.val / 86400000000).toNat + 1 = (t'.val / 86400000000).toNat + 1 := by
    rw [← ymd2ord_ord2ymd, ← ymd2ord_ord2ymd, hyear, hmonth, hd]
  have ht := t.property
  have ht' := t'.property
  refine Subtype.ext ?_
  omega

/-- `isoformat` has no plus sign but the one of its offset. -/
theorem plus_notMem_zeroPadded (k n : ℕ) : (0x2b : CodePoint) ∉ zeroPadded k n := by
  intro hmem
  obtain ⟨d, hd, heq⟩ := List.mem_map.mp hmem
  have hval := congrArg Fin.val heq
  rw [Decimal.val_digitChar (lt_of_mem_places (by decide) hd)] at hval
  have hplus : (0x2b : CodePoint).val = 0x2b := rfl
  omega

theorem ascii_isoformatMicroseconds (t : Instant) : Ascii (isoformatMicroseconds t) := by
  have hdigits : ∀ k n, Ascii (zeroPadded k n) := by
    intro k n
    refine Text.ascii_map fun d hd => ?_
    have hlt := lt_of_mem_places (by decide) hd
    rw [Decimal.val_digitChar hlt]
    omega
  have hdash : Ascii (ofString "-") := by decide
  have hcolon : Ascii (ofString ":") := by decide
  have ht : Ascii (ofString "T") := by decide
  have hpoint : Ascii (ofString ".") := by decide
  have hoffset : Ascii (ofString "+00:00") := by decide
  exact ((((((((((((((hdigits 4 _).append hdash).append (hdigits 2 _)).append hdash).append
    (hdigits 2 _)).append ht).append (hdigits 2 _)).append hcolon).append (hdigits 2 _)).append
    hcolon).append (hdigits 2 _)).append hpoint).append (hdigits 6 _)).append hoffset)

/-- 29 February 2024, two microseconds after half past eight. -/
example : (instant? ((738944 * 86400 + 30600) * 1000000 + 2)).map isoformatMicroseconds =
    some (ofString "2024-02-29T08:30:00.000002+00:00") := by decide +kernel

end Python
