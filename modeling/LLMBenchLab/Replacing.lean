import LLMBenchLab.Text
import Mathlib.Data.List.Count
import Mathlib.Data.List.Basic

/-!
# Replacing a text by another

`str.replace`: occurrences are taken from left to right and do not overlap, and
what has been put in is not looked at again.

A text is `Marked` if its first character is not among the others. Occurrences
of such a text never overlap, so that replacing goes through a concatenation
around one of them.
-/

namespace Text

/-- `replace` past the next `skip` characters, which belong to an occurrence. -/
def replaceFrom (old new : Str) : ℕ → Str → Str
  | _, [] => []
  | 0, c :: rest =>
    if old <+: c :: rest then new ++ replaceFrom old new (old.length - 1) rest
    else c :: replaceFrom old new 0 rest
  | skip + 1, _ :: rest => replaceFrom old new skip rest

/-- `s.replace(old, new)`, for a non-empty `old`. -/
def replace (old new s : Str) : Str := replaceFrom old new 0 s

example : replace (ofString "aa") (ofString "b") (ofString "aaaca") = ofString "baca" := by
  decide +kernel

variable {old new x y : Str}

@[simp] theorem replace_nil : replace old new [] = [] := rfl

theorem replaceFrom_append (x y : Str) : replaceFrom old new x.length (x ++ y) = replace old new y := by
  induction x with
  | nil => rfl
  | cons c x ih => exact ih

theorem replace_cons {c : CodePoint} (h : ¬ old <+: c :: x) :
    replace old new (c :: x) = c :: replace old new x :=
  if_neg h

theorem replace_old_append (h : old ≠ []) (y : Str) :
    replace old new (old ++ y) = new ++ replace old new y := by
  obtain ⟨c, w, rfl⟩ := List.exists_cons_of_ne_nil h
  have hprefix : c :: w <+: c :: (w ++ y) := List.prefix_append (c :: w) y
  calc replace (c :: w) new (c :: w ++ y)
      = new ++ replaceFrom (c :: w) new w.length (w ++ y) := if_pos hprefix
    _ = new ++ replace (c :: w) new y := by rw [replaceFrom_append]

/-- A text without occurrences stays as it is. -/
theorem replace_eq_self (h : ¬ old <:+: x) : replace old new x = x := by
  induction x with
  | nil => rfl
  | cons c x ih =>
    rw [replace_cons fun hp => h hp.isInfix, ih fun hi => h (hi.trans (List.suffix_cons c x).isInfix)]

theorem count_replaceFrom_le (b : CodePoint) (skip : ℕ) (x : Str) :
    (replaceFrom old [] skip x).count b ≤ x.count b := by
  induction x generalizing skip with
  | nil => simp [replaceFrom]
  | cons c x ih =>
    cases skip with
    | zero =>
      rw [replaceFrom]
      split
      · exact (ih _).trans List.count_le_count_cons
      · rw [List.count_cons, List.count_cons]
        exact Nat.add_le_add_right (ih 0) _
    | succ skip => exact (ih skip).trans List.count_le_count_cons

/-! ## Marked texts -/

/-- The first character is not among the others. -/
def Marked (s : Str) : Prop := ∃ a w, s = a :: w ∧ a ∉ w

theorem Marked.ne_nil (h : Marked old) : old ≠ [] := by
  obtain ⟨a, w, rfl, -⟩ := h
  exact List.cons_ne_nil a w

/-- An occurrence that starts before another one ends before it. -/
theorem Marked.prefix_of_append (h : Marked old) (hx : x ≠ []) (hp : old <+: x ++ old ++ y) :
    old <+: x := by
  rw [List.append_assoc] at hp
  rcases le_or_gt old.length x.length with hle | hlt
  · exact List.prefix_of_prefix_length_le hp (List.prefix_append x _) hle
  · -- otherwise the first character would be inside
    obtain ⟨z, hz⟩ := List.prefix_of_prefix_length_le (List.prefix_append x _) hp hlt.le
    obtain ⟨a, w, rfl, ha⟩ := h
    obtain ⟨c, x, rfl⟩ := List.exists_cons_of_ne_nil hx
    have hne : z ≠ [] := by
      rintro rfl
      rw [← hz, List.append_nil] at hlt
      exact lt_irrefl _ hlt
    obtain ⟨b, z, rfl⟩ := List.exists_cons_of_ne_nil hne
    rw [List.cons_append] at hz
    obtain ⟨rfl, rfl⟩ := List.cons.inj hz
    rw [List.cons_append, List.cons_append, List.cons_prefix_cons, List.prefix_append_right_inj] at hp
    obtain rfl := (List.cons_prefix_cons.mp hp.2).1
    exact absurd (List.mem_append_right x List.mem_cons_self) ha

theorem Marked.replaceFrom_append_old (h : Marked old) {skip : ℕ} (hskip : skip ≤ x.length) :
    replaceFrom old new skip (x ++ old ++ y) =
      replaceFrom old new skip x ++ new ++ replace old new y := by
  induction x generalizing skip with
  | nil =>
    obtain rfl : skip = 0 := Nat.le_zero.mp hskip
    exact replace_old_append h.ne_nil y
  | cons c x ih =>
    cases skip with
    | zero =>
      by_cases hp : old <+: c :: x
      · have hp' : old <+: c :: (x ++ old ++ y) := by
          rw [← List.cons_append, ← List.cons_append, List.append_assoc]
          exact hp.trans (List.prefix_append _ _)
        have hlen : old.length - 1 ≤ x.length := by
          have := hp.length_le
          rw [List.length_cons] at this
          omega
        calc replaceFrom old new 0 (c :: x ++ old ++ y)
            = new ++ replaceFrom old new (old.length - 1) (x ++ old ++ y) := if_pos hp'
          _ = new ++ (replaceFrom old new (old.length - 1) x ++ new ++ replace old new y) := by
              rw [ih hlen]
          _ = replaceFrom old new 0 (c :: x) ++ new ++ replace old new y := by
              rw [replaceFrom, if_pos hp]
              simp only [List.append_assoc]
      · have hp' : ¬ old <+: c :: (x ++ old ++ y) :=
          fun hq => hp (h.prefix_of_append (List.cons_ne_nil c x) hq)
        calc replaceFrom old new 0 (c :: x ++ old ++ y)
            = c :: replaceFrom old new 0 (x ++ old ++ y) := if_neg hp'
          _ = c :: (replaceFrom old new 0 x ++ new ++ replace old new y) := by
              rw [ih (Nat.zero_le _)]
          _ = replaceFrom old new 0 (c :: x) ++ new ++ replace old new y := by
              rw [replaceFrom, if_neg hp]
              rfl
    | succ skip => exact ih (Nat.le_of_succ_le_succ hskip)

/-- Replacing goes through a concatenation around an occurrence. -/
theorem Marked.replace_append_old (h : Marked old) (x y : Str) :
    replace old new (x ++ old ++ y) = replace old new x ++ new ++ replace old new y :=
  h.replaceFrom_append_old (Nat.zero_le _)

/-- The first occurrence. -/
theorem Marked.exists_first (h : Marked old) (hx : old <:+: x) :
    ∃ u v, x = u ++ old ++ v ∧ ¬ old <:+: u := by
  induction x with
  | nil =>
    rw [List.infix_nil] at hx
    exact absurd hx h.ne_nil
  | cons c x ih =>
    by_cases hp : old <+: c :: x
    · obtain ⟨v, hv⟩ := hp
      refine ⟨[], v, hv.symm, ?_⟩
      rw [List.infix_nil]
      exact h.ne_nil
    · obtain ⟨u, v, rfl, hu⟩ := ih ((List.infix_cons_iff.mp hx).resolve_left hp)
      refine ⟨c :: u, v, rfl, fun hi => ?_⟩
      rcases List.infix_cons_iff.mp hi with hp' | hi
      · refine hp ?_
        rw [← List.cons_append, ← List.cons_append, List.append_assoc]
        exact hp'.trans (List.prefix_append _ _)
      · exact hu hi

/-- Dropping an occurrence drops its first character. -/
theorem Marked.count_replace_lt (h : Marked old) (hx : old <:+: x) {b : CodePoint} (hb : b ∈ old) :
    (replace old [] x).count b < x.count b := by
  obtain ⟨u, v, rfl, hu⟩ := h.exists_first hx
  have hv : (replace old [] v).count b ≤ v.count b := count_replaceFrom_le b 0 v
  have hold : 0 < old.count b := List.count_pos_iff.mpr hb
  rw [h.replace_append_old, replace_eq_self hu, List.count_append, List.count_append,
    List.count_append, List.count_append, List.count_nil]
  omega

/-- A text without the first character stays as it is. -/
theorem Marked.replace_append {a : CodePoint} {w : Str} (ha : a ∉ x) (y : Str) :
    replace (a :: w) new (x ++ y) = x ++ replace (a :: w) new y := by
  induction x with
  | nil => rfl
  | cons c x ih =>
    obtain ⟨hne, hx⟩ := not_or.mp (List.mem_cons.not.mp ha)
    rw [List.cons_append, replace_cons, ih hx, List.cons_append]
    exact fun hp => hne (List.cons_prefix_cons.mp hp).1

end Text
