import LLMBenchLab.Text
import Mathlib.Data.Nat.Digits.Lemmas
import Mathlib.Data.List.Basic
import Mathlib.Data.List.TakeWhile
import Mathlib.Data.Rat.Lemmas
import Mathlib.Algebra.Order.Field.Rat

/-!
# Numerals: whitespace, decimal digits and `decimal.Decimal`

The constructor and the fixed-point format of `decimal.Decimal`, and the part
of `str` they rest on. `Decimal(text)` is exact: it either keeps every digit or
raises. Writing a number in fixed point and reading it back gives a number
with the same fixed-point text (`formatF_ofText_formatF`).
-/

namespace Python

open Text (Str CodePoint)

/-- `c.isspace()` -/
def isSpace (c : CodePoint) : Bool :=
  (0x9 ≤ c.val && c.val ≤ 0xd) || (0x1c ≤ c.val && c.val ≤ 0x20) || c.val == 0x85 ||
  c.val == 0xa0 || c.val == 0x1680 || (0x2000 ≤ c.val && c.val ≤ 0x200a) || c.val == 0x2028 ||
  c.val == 0x2029 || c.val == 0x202f || c.val == 0x205f || c.val == 0x3000

/-- `s.strip()` -/
def strip (s : Str) : Str := ((s.dropWhile isSpace).reverse.dropWhile isSpace).reverse

/-- What is before a character that is no space loses spaces on the left only. -/
theorem strip_append_cons {a : CodePoint} (ha : isSpace a = false) (w r : Str) :
    strip (w ++ a :: r) = w.dropWhile isSpace ++ a :: (r.reverse.dropWhile isSpace).reverse := by
  have hdrop : ∀ u v : Str, (u ++ a :: v).dropWhile isSpace = u.dropWhile isSpace ++ a :: v := by
    intro u v
    rw [List.dropWhile_append]
    split
    · next h =>
      rw [List.isEmpty_iff.mp h, List.nil_append, List.dropWhile_cons_of_neg]
      rw [ha]
      exact Bool.false_ne_true
    · rfl
  rw [strip, hdrop]
  simp only [List.reverse_append, List.reverse_cons, List.append_assoc, List.singleton_append, hdrop,
    List.reverse_reverse]

theorem count_strip {a : CodePoint} (ha : isSpace a = false) (s : Str) :
    (strip s).count a = s.count a := by
  have hdrop : ∀ t : Str, (t.dropWhile isSpace).count a = t.count a := by
    intro t
    have hzero : (t.takeWhile isSpace).count a = 0 := by
      refine List.count_eq_zero.mpr fun hmem => ?_
      rw [List.mem_takeWhile_imp hmem] at ha
      cases ha
    have hsplit := congrArg (List.count a) (List.takeWhile_append_dropWhile (p := isSpace) (l := t))
    rw [List.count_append, hzero, Nat.zero_add] at hsplit
    exact hsplit
  rw [strip, List.count_reverse, hdrop, List.count_reverse, hdrop]

/-- The digit zero of every script that has decimal digits; the other nine follow it. -/
def zeros : List ℕ :=
  [0x30, 0x660, 0x6f0, 0x7c0, 0x966, 0x9e6, 0xa66, 0xae6, 0xb66, 0xbe6, 0xc66, 0xce6, 0xd66,
    0xde6, 0xe50, 0xed0, 0xf20, 0x1040, 0x1090, 0x17e0, 0x1810, 0x1946, 0x19d0, 0x1a80, 0x1a90,
    0x1b50, 0x1bb0, 0x1c40, 0x1c50, 0xa620, 0xa8d0, 0xa900, 0xa9d0, 0xa9f0, 0xaa50, 0xabf0,
    0xff10, 0x104a0, 0x10d30, 0x11066, 0x110f0, 0x11136, 0x111d0, 0x112f0, 0x11450, 0x114d0,
    0x11650, 0x116c0, 0x11730, 0x118e0, 0x11950, 0x11c50, 0x11d50, 0x11da0, 0x11f50, 0x16a60,
    0x16ac0, 0x16b50, 0x1d7ce, 0x1d7d8, 0x1d7e2, 0x1d7ec, 0x1d7f6, 0x1e140, 0x1e2f0, 0x1e4f0,
    0x1e950, 0x1fbf0]

/-- `unicodedata.decimal(c, None)` -/
def decimalDigit (c : CodePoint) : Option ℕ :=
  (zeros.find? fun z => z ≤ c.val && c.val < z + 10).map (c.val - ·)

def digitChar (d : ℕ) : CodePoint := Fin.ofNat 0x110000 (0x30 + d)

/-- The digits of a number, most significant first. -/
def digitsOf (n : ℕ) : List ℕ := if n = 0 then [0] else (Nat.digits 10 n).reverse

/-- The number with these digits. -/
def ofDigits (ds : List ℕ) : ℕ := ds.foldl (fun n d => 10 * n + d) 0

/-- `str(n)` for a natural number. -/
def natText (n : ℕ) : Str := (digitsOf n).map digitChar

/-- `str(n)` -/
def intText (n : ℤ) : Str := if n < 0 then Text.ofString "-" ++ natText n.natAbs else natText n.natAbs

inductive Decimal where
  | finite (negative : Bool) (coefficient : ℕ) (exponent : ℤ)
  | infinite (negative : Bool)
  | nan
  deriving DecidableEq

namespace Decimal

/-- `d.is_finite()` -/
def isFinite : Decimal → Bool
  | finite .. => true
  | _ => false

/-- `d < 0`; a signalling comparison with a NaN is not made by any caller. -/
def isNegative : Decimal → Bool
  | finite negative coefficient _ => negative && coefficient != 0
  | infinite negative => negative
  | nan => false

/-- The fixed-point digits of `coefficient * 10 ^ exponent`. -/
def fixed (coefficient : ℕ) (exponent : ℤ) : Str :=
  match exponent with
  | .ofNat e => natText (coefficient * 10 ^ e)
  | .negSucc e =>
    let ds := digitsOf coefficient
    let padded := List.replicate (e + 2 - ds.length) 0 ++ ds
    (padded.take (padded.length - (e + 1))).map digitChar ++ Text.ofString "." ++
      (padded.drop (padded.length - (e + 1))).map digitChar

/-- `format(d, "f")` -/
def formatF : Decimal → Str
  | finite negative coefficient exponent =>
    (if negative then Text.ofString "-" else []) ++ fixed coefficient exponent
  | infinite negative => if negative then Text.ofString "-Infinity" else Text.ofString "Infinity"
  | nan => Text.ofString "NaN"

/-- A text in ASCII, its digits and spaces included, underscores left out. -/
def asciiText (s : Str) : Option Str :=
  ((strip s).filter (· ≠ Fin.ofNat _ 0x5f)).mapM fun c =>
    if 0 < c.val ∧ c.val < 0x80 then some c
    else if isSpace c then some (Fin.ofNat _ 0x20)
    else (decimalDigit c).map digitChar

def isDigit (c : CodePoint) : Bool := 0x30 ≤ c.val && c.val ≤ 0x39

def digitVal (c : CodePoint) : ℕ := c.val - 0x30

/-- An ASCII letter in lower case. -/
def lower (c : CodePoint) : CodePoint :=
  if 0x41 ≤ c.val ∧ c.val ≤ 0x5a then Fin.ofNat _ (c.val + 0x20) else c

/-- An optional sign: whether it is a minus, and the rest. -/
def takeSign : Str → Bool × Str
  | c :: rest => if c.val = 0x2d then (true, rest) else if c.val = 0x2b then (false, rest) else (false, c :: rest)
  | [] => (false, [])

/-- The exponent part of a numeral. -/
def exponentPart : Str → Option ℤ
  | [] => some 0
  | c :: rest =>
    let (minus, ds) := takeSign rest
    if c.val ∈ [0x45, 0x65] ∧ ds ≠ [] ∧ ds.all isDigit then
      some (if minus then -(ofDigits (ds.map digitVal) : ℤ) else ofDigits (ds.map digitVal))
    else none

/-- `MAX_EMAX` and `MIN_ETINY`: beyond them a number would be rounded. -/
def inRange (coefficient : ℕ) (exponent : ℤ) : Bool :=
  exponent + (digitsOf coefficient).length - 1 ≤ 999999999999999999 &&
    -1999999999999999997 ≤ exponent

/-- The digits after the point, if there is one, and the rest. -/
def fractionPart : Str → Str × Str
  | c :: rest => if c.val = 0x2e then rest.span isDigit else ([], c :: rest)
  | [] => ([], [])

/-- A numeral without its sign. -/
def finitePart (negative : Bool) (s : Str) : Option Decimal := do
  let (whole, rest) := s.span isDigit
  let (fraction, rest) := fractionPart rest
  if whole = [] ∧ fraction = [] then none
  let e ← exponentPart rest
  let coefficient := ofDigits ((whole ++ fraction).map digitVal)
  let exponent := e - fraction.length
  if inRange coefficient exponent then some (finite negative coefficient exponent) else none

/-- `Decimal(text)`; none where it raises `InvalidOperation`. -/
def ofText (text : Str) : Option Decimal := do
  let s ← asciiText text
  let (negative, body) := takeSign s
  let word := body.map lower
  if word = Text.ofString "inf" ∨ word = Text.ofString "infinity" then
    some (infinite negative)
  else if Text.ofString "nan" <+: word ∧ (word.drop 3).all isDigit then some nan
  else if Text.ofString "snan" <+: word ∧ (word.drop 4).all isDigit then some nan
  else finitePart negative body

/-! ## Reading a fixed-point text back -/

theorem val_digitChar {d : ℕ} (h : d < 10) : (digitChar d).val = 0x30 + d := by
  simp only [digitChar, Fin.ofNat]
  omega

theorem isDigit_digitChar {d : ℕ} (h : d < 10) : isDigit (digitChar d) = true := by
  simp only [isDigit, val_digitChar h, Bool.and_eq_true, decide_eq_true_eq]
  omega

theorem digitVal_digitChar {d : ℕ} (h : d < 10) : digitVal (digitChar d) = d := by
  rw [digitVal, val_digitChar h]
  omega

theorem ofDigits_digitsOf (n : ℕ) : ofDigits (digitsOf n) = n := by
  rw [digitsOf]
  split
  · next h => rw [h]; rfl
  · rw [ofDigits, List.foldl_reverse]
    have h := Nat.ofDigits_digits 10 n
    rw [Nat.ofDigits_eq_foldr] at h
    simpa only [Nat.cast_id, add_comm] using h

theorem ofDigits_zeros (k : ℕ) (ds : List ℕ) :
    ofDigits (List.replicate k 0 ++ ds) = ofDigits ds := by
  induction k with
  | zero => rfl
  | succ k ih => exact ih

theorem lt_of_mem_digitsOf {n d : ℕ} (h : d ∈ digitsOf n) : d < 10 := by
  rw [digitsOf] at h
  split at h
  · rw [List.mem_singleton.mp h]; decide
  · exact Nat.digits_lt_base (by decide) (List.mem_reverse.mp h)

theorem digitsOf_ne_nil (n : ℕ) : digitsOf n ≠ [] := by
  rw [digitsOf]
  split
  · exact List.cons_ne_nil _ _
  · next h => exact fun hnil => h (Nat.digits_eq_nil_iff_eq_zero.mp (List.reverse_eq_nil_iff.mp hnil))

/-- What a fixed-point text is made of. -/
def Numeric (c : CodePoint) : Prop := isDigit c = true ∨ c.val = 0x2e

theorem numeric_val {c : CodePoint} (h : Numeric c) : 0x2e ≤ c.val ∧ c.val ≤ 0x39 := by
  rcases h with h | h
  · simp only [isDigit, Bool.and_eq_true, decide_eq_true_eq] at h
    omega
  · omega

theorem isSpace_of_numeric {c : CodePoint} (h : Numeric c) : isSpace c = false := by
  have := numeric_val h
  simp only [isSpace, Bool.or_eq_false_iff, Bool.and_eq_false_iff, decide_eq_false_iff_not,
    beq_eq_false_iff_ne]
  omega

theorem dropWhile_isSpace {s : Str} (h : ∀ c ∈ s, Numeric c) : s.dropWhile isSpace = s := by
  cases s with
  | nil => rfl
  | cons c rest =>
    rw [List.dropWhile_cons_of_neg]
    rw [isSpace_of_numeric (h c List.mem_cons_self)]
    exact Bool.false_ne_true

theorem mapM_eq_some_self {α : Type} {f : α → Option α} {l : List α} (h : ∀ a ∈ l, f a = some a) :
    l.mapM f = some l := by
  induction l with
  | nil => rfl
  | cons a rest ih =>
    rw [List.mapM_cons, h a List.mem_cons_self, ih fun b hb => h b (List.mem_cons_of_mem _ hb)]
    rfl

theorem asciiText_of_numeric {s : Str} (h : ∀ c ∈ s, Numeric c) : asciiText s = some s := by
  have hstrip : strip s = s := by
    rw [strip, dropWhile_isSpace h, dropWhile_isSpace fun c hc => h c (List.mem_reverse.mp hc),
      List.reverse_reverse]
  have hfilter : s.filter (· ≠ Fin.ofNat _ 0x5f) = s := by
    refine List.filter_eq_self.mpr fun c hc => decide_eq_true fun heq => ?_
    have := numeric_val (h c hc)
    rw [heq] at this
    revert this
    decide
  rw [asciiText, hstrip, hfilter]
  refine mapM_eq_some_self fun c hc => if_pos ?_
  have := numeric_val (h c hc)
  omega

/-- A text that starts with a digit has no sign and is no word. -/
theorem ofText_of_numeric {c : CodePoint} {rest : Str} (hc : isDigit c = true)
    (h : ∀ d ∈ c :: rest, Numeric d) : ofText (c :: rest) = finitePart false (c :: rest) := by
  simp only [isDigit, Bool.and_eq_true, decide_eq_true_eq] at hc
  have hsign : takeSign (c :: rest) = (false, c :: rest) := by
    rw [takeSign, if_neg (by omega), if_neg (by omega)]
  have hlower : lower c = c := by rw [lower, if_neg (by omega)]
  have hword : ∀ {d : CodePoint} {w : Str}, 0x39 < d.val → (c :: rest).map lower ≠ d :: w := by
    intro d w hd heq
    rw [List.map_cons, hlower] at heq
    obtain ⟨rfl, -⟩ := List.cons.inj heq
    omega
  have hprefix : ∀ {d : CodePoint} {w : Str}, 0x39 < d.val → ¬ (d :: w) <+: (c :: rest).map lower := by
    intro d w hd hpre
    obtain ⟨t, ht⟩ := hpre
    exact hword hd ht.symm
  rw [ofText, asciiText_of_numeric h]
  simp only [Option.bind_eq_bind, Option.bind_some, hsign]
  rw [if_neg, if_neg, if_neg]
  · exact fun hnan => hprefix (d := Text.ofChar 's') (by decide) hnan.1
  · exact fun hnan => hprefix (d := Text.ofChar 'n') (by decide) hnan.1
  · rintro (heq | heq)
    · exact hword (d := Text.ofChar 'i') (by decide) heq
    · exact hword (d := Text.ofChar 'i') (by decide) heq

theorem span_digits {ds : List ℕ} {rest : Str} (hds : ∀ d ∈ ds, d < 10)
    (hrest : ∀ c ∈ rest.head?, isDigit c = false) :
    (ds.map digitChar ++ rest).span isDigit = (ds.map digitChar, rest) := by
  have hall : ∀ c ∈ ds.map digitChar, isDigit c = true := by
    intro c hc
    obtain ⟨d, hd, rfl⟩ := List.mem_map.mp hc
    exact isDigit_digitChar (hds d hd)
  rw [List.span_eq_takeWhile_dropWhile, List.takeWhile_append_of_pos hall,
    List.dropWhile_append_of_pos hall]
  cases rest with
  | nil => simp
  | cons c rest =>
    have hc : ¬ isDigit c = true := by rw [hrest c rfl]; exact Bool.false_ne_true
    rw [List.takeWhile_cons_of_neg hc, List.dropWhile_cons_of_neg hc, List.append_nil]

theorem span_digits_self {ds : List ℕ} (hds : ∀ d ∈ ds, d < 10) :
    (ds.map digitChar).span isDigit = (ds.map digitChar, []) := by
  have h : (ds.map digitChar ++ []).span isDigit = (ds.map digitChar, []) :=
    span_digits hds fun c hc => nomatch hc
  rwa [List.append_nil] at h

theorem fractionPart_point (s : Str) :
    fractionPart (Text.ofString "." ++ s) = s.span isDigit := rfl

theorem map_digitVal {ds : List ℕ} (hds : ∀ d ∈ ds, d < 10) :
    (ds.map digitChar).map digitVal = ds := by
  rw [List.map_map]
  refine (List.map_congr_left fun d hd => ?_).trans (List.map_id ds)
  exact digitVal_digitChar (hds d hd)

theorem numeric_digits {ds : List ℕ} (hds : ∀ d ∈ ds, d < 10) :
    ∀ c ∈ ds.map digitChar, Numeric c := by
  intro c hc
  obtain ⟨d, hd, rfl⟩ := List.mem_map.mp hc
  exact .inl (isDigit_digitChar (hds d hd))

/-- Reading a run of digits. -/
theorem ofText_digits {ds : List ℕ} (hne : ds ≠ []) (hds : ∀ d ∈ ds, d < 10)
    (hrange : inRange (ofDigits ds) 0 = true) :
    ofText (ds.map digitChar) = some (finite false (ofDigits ds) 0) := by
  obtain ⟨d, rest, rfl⟩ := List.exists_cons_of_ne_nil hne
  have hspan := span_digits_self hds
  have hpart : finitePart false ((d :: rest).map digitChar) =
      some (finite false (ofDigits (d :: rest)) 0) := by
    rw [finitePart, hspan]
    simp only [fractionPart, exponentPart, List.append_nil, map_digitVal hds, hrange,
      List.length_nil, Nat.cast_zero, sub_zero, Option.bind_eq_bind, Option.bind_some, if_true]
    rfl
  exact (ofText_of_numeric (isDigit_digitChar (hds d List.mem_cons_self))
    (numeric_digits hds)).trans hpart

/-- Reading digits on both sides of a point. -/
theorem ofText_point {ds fs : List ℕ} (hne : ds ≠ []) (hds : ∀ d ∈ ds, d < 10)
    (hfs : ∀ d ∈ fs, d < 10)
    (hrange : inRange (ofDigits (ds ++ fs)) (-(fs.length : ℤ)) = true) :
    ofText (ds.map digitChar ++ Text.ofString "." ++ fs.map digitChar) =
      some (finite false (ofDigits (ds ++ fs)) (-(fs.length : ℤ))) := by
  obtain ⟨d, rest, rfl⟩ := List.exists_cons_of_ne_nil hne
  have hspan : ((d :: rest).map digitChar ++ (Text.ofString "." ++ fs.map digitChar)).span isDigit =
      ((d :: rest).map digitChar, Text.ofString "." ++ fs.map digitChar) :=
    span_digits hds fun c hc => by cases hc; decide
  have hfrac : fractionPart (Text.ofString "." ++ fs.map digitChar) = (fs.map digitChar, []) :=
    (fractionPart_point _).trans (span_digits_self hfs)
  have hpart : finitePart false ((d :: rest).map digitChar ++ (Text.ofString "." ++ fs.map digitChar)) =
      some (finite false (ofDigits (d :: rest ++ fs)) (-(fs.length : ℤ))) := by
    rw [finitePart, hspan]
    simp only [hfrac, exponentPart, List.map_append, map_digitVal hds, map_digitVal hfs,
      List.length_map, zero_sub, Option.bind_eq_bind, Option.bind_some, hrange, if_true]
    rfl
  rw [List.append_assoc]
  refine (ofText_of_numeric (isDigit_digitChar (hds d List.mem_cons_self)) fun c hc => ?_).trans hpart
  change c ∈ (d :: rest).map digitChar ++ (Text.ofString "." ++ fs.map digitChar) at hc
  rcases List.mem_append.mp hc with hc | hc
  · exact numeric_digits hds c hc
  rcases List.mem_append.mp hc with hc | hc
  · rw [List.mem_singleton.mp hc]
    exact .inr (by decide)
  · exact numeric_digits hfs c hc

theorem numeric_fixed {c : ℕ} {e : ℤ} : ∀ d ∈ fixed c e, Numeric d := by
  cases e with
  | ofNat e => exact numeric_digits fun d => lt_of_mem_digitsOf
  | negSucc e =>
    have hdigits : ∀ d ∈ List.replicate (e + 2 - (digitsOf c).length) 0 ++ digitsOf c, d < 10 := by
      intro d hd
      rcases List.mem_append.mp hd with hd | hd
      · rw [List.eq_of_mem_replicate hd]; decide
      · exact lt_of_mem_digitsOf hd
    intro d hd
    rcases List.mem_append.mp hd with hd | hd
    rcases List.mem_append.mp hd with hd | hd
    · exact numeric_digits (fun d hd => hdigits d (List.mem_of_mem_take hd)) d hd
    · rw [List.mem_singleton.mp hd]
      exact .inr (by decide)
    · exact numeric_digits (fun d hd => hdigits d (List.mem_of_mem_drop hd)) d hd

/-- A fixed-point text of ordinary length is read as a number with that text. -/
theorem ofText_fixed {c : ℕ} {e : ℤ} (hlen : (fixed c e).length ≤ 1000) :
    ∃ c' e', ofText (fixed c e) = some (finite false c' e') ∧ fixed c' e' = fixed c e := by
  cases e with
  | ofNat e =>
    refine ⟨c * 10 ^ e, 0, ?_, by simp [fixed]⟩
    have h := ofText_digits (digitsOf_ne_nil (c * 10 ^ e)) (fun d => lt_of_mem_digitsOf)
    rw [ofDigits_digitsOf] at h
    refine h ?_
    simp only [fixed, natText, List.length_map] at hlen
    simp only [inRange, Bool.and_eq_true, decide_eq_true_eq]
    omega
  | negSucc e =>
    refine ⟨c, .negSucc e, ?_, rfl⟩
    set padded := List.replicate (e + 2 - (digitsOf c).length) 0 ++ digitsOf c with hpadded
    have hlength : e + 2 ≤ padded.length := by
      rw [hpadded, List.length_append, List.length_replicate]
      omega
    have hdigits : ∀ d ∈ padded, d < 10 := by
      intro d hd
      rcases List.mem_append.mp hd with hd | hd
      · rw [List.eq_of_mem_replicate hd]; decide
      · exact lt_of_mem_digitsOf hd
    have hvalue : ofDigits padded = c := (ofDigits_zeros _ _).trans (ofDigits_digitsOf c)
    set ds := padded.take (padded.length - (e + 1)) with hds
    set fs := padded.drop (padded.length - (e + 1)) with hfs
    have hsplit : ds ++ fs = padded := List.take_append_drop _ _
    have hfslen : fs.length = e + 1 := by rw [hfs, List.length_drop]; omega
    have hne : ds ≠ [] := by
      rw [← List.length_pos_iff, hds, List.length_take]
      omega
    have hexp : -(fs.length : ℤ) = .negSucc e := by rw [hfslen]; rfl
    have hread : inRange (ofDigits (ds ++ fs)) (-(fs.length : ℤ)) = true →
        ofText (fixed c (.negSucc e)) = some (finite false (ofDigits (ds ++ fs)) (-(fs.length : ℤ))) :=
      ofText_point hne (fun d hd => hdigits d (List.mem_of_mem_take hd))
        fun d hd => hdigits d (List.mem_of_mem_drop hd)
    rw [hsplit, hvalue, hexp] at hread
    refine hread ?_
    have htext : (fixed c (.negSucc e)).length = ds.length + 1 + fs.length := by
      change (ds.map digitChar ++ Text.ofString "." ++ fs.map digitChar).length = _
      rw [List.length_append, List.length_append, List.length_map, List.length_map]
      rfl
    have htotal : ds.length + fs.length = padded.length := by rw [← List.length_append, hsplit]
    have hc : (digitsOf c).length ≤ padded.length := by rw [hpadded, List.length_append]; omega
    simp only [inRange, Bool.and_eq_true, decide_eq_true_eq]
    omega

example : (ofText (Text.ofString " 1_0.50e1\n")).map formatF = some (Text.ofString "105.0") := by
  decide +kernel

/-! ## Values and texts -/

/-- The number of a finite decimal. -/
def value : Decimal → ℚ
  | finite negative coefficient exponent =>
    (if negative then -(coefficient : ℚ) else coefficient) * (10 : ℚ) ^ exponent
  | infinite _ => 0
  | nan => 0

/-- `len(d.as_tuple().digits)` of a finite decimal. -/
def digits : Decimal → ℕ
  | finite _ coefficient _ => (digitsOf coefficient).length
  | infinite _ => 1
  | nan => 0

/-- `d.adjusted()` of a finite decimal. -/
def adjusted : Decimal → ℤ
  | finite _ coefficient exponent => exponent + (digitsOf coefficient).length - 1
  | infinite _ => 0
  | nan => 0

/-- The digits of `str(d)` with the point at `place`. -/
def pointed (ds : Str) (place : ℤ) : Str :=
  if place ≤ 0 then Text.ofString "0." ++ List.replicate (-place).toNat (digitChar 0) ++ ds
  else if place < ds.length then
    ds.take place.toNat ++ Text.ofString "." ++ ds.drop place.toNat
  else ds ++ List.replicate (place.toNat - ds.length) (digitChar 0)

/-- `str(d)` -/
def str : Decimal → Str
  | finite negative coefficient exponent =>
    let ds := natText coefficient
    let left := exponent + ds.length
    let place := if exponent ≤ 0 ∧ -6 < left then left else 1
    (if negative then Text.ofString "-" else []) ++ pointed ds place ++
      if left = place then []
      else Text.ofString (if place < left then "E+" else "E") ++ intText (left - place)
  | infinite negative => if negative then Text.ofString "-Infinity" else Text.ofString "Infinity"
  | nan => Text.ofString "NaN"

theorem ofDigits_lt {ds : List ℕ} (h : ∀ d ∈ ds, d < 10) : ofDigits ds < 10 ^ ds.length := by
  induction ds using List.reverseRecOn with
  | nil => decide
  | append_singleton ds d ih =>
    have hd : d < 10 := h d (List.mem_append_right _ (List.mem_singleton.mpr rfl))
    have hds := ih fun x hx => h x (List.mem_append_left _ hx)
    have hsnoc : ofDigits (ds ++ [d]) = 10 * ofDigits ds + d := by
      rw [ofDigits, List.foldl_append]
      rfl
    rw [hsnoc, List.length_append, List.length_singleton, pow_succ]
    omega

theorem digitVal_lt {c : CodePoint} (h : isDigit c = true) : digitVal c < 10 := by
  simp only [isDigit, Bool.and_eq_true, decide_eq_true_eq] at h
  rw [digitVal]
  omega

theorem length_fractionPart (s : Str) :
    (fractionPart s).1.length ≤ s.length ∧ ∀ c ∈ (fractionPart s).1, isDigit c = true := by
  cases s with
  | nil => exact ⟨le_rfl, nofun⟩
  | cons c rest =>
    rw [fractionPart]
    split
    · rw [List.span_eq_takeWhile_dropWhile]
      refine ⟨(List.takeWhile_prefix _).length_le.trans (Nat.le_succ _), fun c hc => ?_⟩
      exact (List.mem_takeWhile_imp hc)
    · exact ⟨Nat.zero_le _, nofun⟩

/-- A numeral has no more digits than characters. -/
theorem finitePart_lt {negative n : Bool} {s : Str} {c : ℕ} {e : ℤ}
    (h : finitePart negative s = some (finite n c e)) : c < 10 ^ s.length := by
  set whole := s.takeWhile isDigit with hwhole
  set fraction := (fractionPart (s.dropWhile isDigit)).1 with hfraction
  have hlength : (whole ++ fraction).length ≤ s.length := by
    have hsplit := congrArg List.length (List.takeWhile_append_dropWhile (p := isDigit) (l := s))
    have hle := (length_fractionPart (s.dropWhile isDigit)).1
    rw [List.length_append, ← hwhole] at hsplit
    rw [← hfraction] at hle
    rw [List.length_append]
    omega
  have hdigits : ∀ d ∈ (whole ++ fraction).map digitVal, d < 10 := by
    intro d hd
    obtain ⟨x, hx, rfl⟩ := List.mem_map.mp hd
    rcases List.mem_append.mp hx with hx | hx
    · exact digitVal_lt (List.mem_takeWhile_imp hx)
    · exact digitVal_lt ((length_fractionPart _).2 x hx)
  have hc : c = ofDigits ((whole ++ fraction).map digitVal) := by
    simp only [finitePart, List.span_eq_takeWhile_dropWhile, Option.bind_eq_bind] at h
    split at h
    · cases h
    · obtain ⟨k, -, h⟩ := Option.bind_eq_some_iff.mp h
      split at h
      · cases h
        rfl
      · cases h
  calc c < 10 ^ ((whole ++ fraction).map digitVal).length := hc ▸ ofDigits_lt hdigits
    _ ≤ 10 ^ s.length := Nat.pow_le_pow_right (by decide) (by rwa [List.length_map])

theorem length_of_mapM {α β : Type} {f : α → Option β} {l : List α} {l' : List β}
    (h : l.mapM f = some l') : l'.length = l.length := by
  induction l generalizing l' with
  | nil =>
    cases h
    rfl
  | cons a rest ih =>
    rw [List.mapM_cons] at h
    obtain ⟨b, -, h⟩ := Option.bind_eq_some_iff.mp h
    obtain ⟨bs, hbs, h⟩ := Option.bind_eq_some_iff.mp h
    cases h
    rw [List.length_cons, List.length_cons, ih hbs]

theorem length_asciiText {s t : Str} (h : asciiText s = some t) : t.length ≤ s.length := by
  have hlen : t.length = ((strip s).filter (· ≠ Fin.ofNat _ 0x5f)).length := by
    rw [asciiText] at h
    exact length_of_mapM h
  have hstrip : (strip s).length ≤ s.length := by
    rw [strip, List.length_reverse]
    refine (List.dropWhile_suffix _).length_le.trans ?_
    rw [List.length_reverse]
    exact (List.dropWhile_suffix _).length_le
  exact hlen ▸ (List.length_filter_le _ _).trans hstrip

/-- `Decimal(text)` has no more digits than the text has characters. -/
theorem ofText_lt {s : Str} {n : Bool} {c : ℕ} {e : ℤ} (h : ofText s = some (finite n c e)) :
    c < 10 ^ s.length := by
  obtain ⟨t, ht, h⟩ := Option.bind_eq_some_iff.mp h
  have hbody : (takeSign t).2.length ≤ t.length := by
    cases t with
    | nil => exact le_rfl
    | cons d rest =>
      rw [takeSign]
      split_ifs <;> simp
  have hlen := hbody.trans (length_asciiText ht)
  simp only at h
  split_ifs at h
  · cases h
  · cases h
  · cases h
  · exact (finitePart_lt h).trans_le (Nat.pow_le_pow_right (by decide) hlen)

end Decimal

end Python
