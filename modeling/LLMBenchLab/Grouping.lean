import Mathlib.Algebra.BigOperators.Group.List.Basic
import Mathlib.Tactic.Common

/-!
# Grouping: pages, groups and dictionaries

Three ways to go over a list in parts. `pages` reads it by offset and limit
until a page is empty; `sum_groups` adds up the sums of the groups of any key;
a dictionary, as a list of pairs in the order of insertion, takes contributions
under a key. None of them changes a sum in a commutative monoid.
-/

namespace Grouping

universe u v w

variable {α : Type u} {κ : Type v} {A : Type w}

/-! ## Pages -/

/-- `OFFSET offset LIMIT size`, again and again until a page is empty. -/
def pages (size : ℕ) (xs : List α) (offset : ℕ) : List (List α) :=
  if _h : (xs.drop offset).take size = [] then []
  else (xs.drop offset).take size ::
    pages size xs (offset + ((xs.drop offset).take size).length)
termination_by xs.length - offset
decreasing_by
  have hpos : 0 < ((xs.drop offset).take size).length := List.length_pos_iff.mpr _h
  rw [List.length_take, List.length_drop] at hpos ⊢
  omega

/-- The pages are the list from the offset on. -/
theorem flatten_pages {size : ℕ} (hsize : 0 < size) (xs : List α) (offset : ℕ) :
    (pages size xs offset).flatten = xs.drop offset := by
  fun_induction pages size xs offset with
  | case1 offset h =>
    rcases List.take_eq_nil_iff.mp h with h | h
    · omega
    · exact h.symm
  | case2 offset h ih =>
    rw [List.flatten_cons, ih, ← List.drop_drop]
    rw [List.length_take]
    rcases Nat.le_total size (xs.drop offset).length with hle | hle
    · rw [Nat.min_eq_left hle]
      exact List.take_append_drop size (xs.drop offset)
    · rw [Nat.min_eq_right hle, List.take_of_length_le hle, List.drop_length, List.append_nil]

/-- A loop over the pages is a loop over the list. -/
theorem foldl_pages {β : Type w} {size : ℕ} (hsize : 0 < size) (f : β → α → β) (b : β)
    (xs : List α) : (pages size xs 0).foldl (fun b page => page.foldl f b) b = xs.foldl f b := by
  rw [← List.foldl_flatten, flatten_pages hsize, List.drop_zero]

theorem foldlM_pages {m : Type w → Type w} [Monad m] [LawfulMonad m] {β : Type w} {size : ℕ}
    (hsize : 0 < size) (f : β → α → m β) (b : β) (xs : List α) :
    (pages size xs 0).foldlM (fun b page => page.foldlM f b) b = xs.foldlM f b := by
  have hflat : ∀ (ps : List (List α)) (b : β),
      ps.foldlM (fun b page => page.foldlM f b) b = ps.flatten.foldlM f b := by
    intro ps
    induction ps with
    | nil => exact fun _ => rfl
    | cons page ps ih =>
      intro b
      rw [List.foldlM_cons, List.flatten_cons, List.foldlM_append]
      exact bind_congr fun b' => ih b'
  rw [hflat, flatten_pages hsize, List.drop_zero]

/-! ## Groups -/

section Groups

variable [DecidableEq κ]

/-- Every element is in exactly one group. -/
theorem perm_groups {ks : List κ} (hnd : ks.Nodup) (g : α → κ) :
    ∀ {xs : List α}, (∀ x ∈ xs, g x ∈ ks) →
      (ks.flatMap fun k => xs.filter fun x => g x = k).Perm xs := by
  induction ks with
  | nil =>
    intro xs h
    rw [List.eq_nil_iff_forall_not_mem.mpr fun x hx => absurd (h x hx) List.not_mem_nil]
    exact .refl _
  | cons k ks ih =>
    intro xs h
    obtain ⟨hk, hnd⟩ := List.nodup_cons.mp hnd
    -- the other groups are groups of what is left
    have hrest : (ks.flatMap fun k' => xs.filter fun x => g x = k') =
        ks.flatMap fun k' => (xs.filter fun x => !decide (g x = k)).filter fun x => g x = k' := by
      refine List.flatMap_congr fun k' hk' => ?_
      rw [List.filter_filter]
      refine List.filter_congr fun x _ => ?_
      by_cases hx : g x = k'
      · have hne : g x ≠ k := fun he => hk (by rw [← he, hx]; exact hk')
        simp [hne]
      · simp [hx]
    rw [List.flatMap_cons, hrest]
    refine (List.Perm.append_left _ (ih hnd fun x hx => ?_)).trans (List.filter_append_perm _ xs)
    obtain ⟨hmem, hne⟩ := List.mem_filter.mp hx
    rcases List.mem_cons.mp (h x hmem) with he | he
    · simp [he] at hne
    · exact he

variable [AddCommMonoid A]

/-- One key of a list without repetitions. -/
theorem sum_map_ite {ks : List κ} (hnd : ks.Nodup) (k : κ) (a : A) :
    (ks.map fun k' => if k = k' then a else 0).sum = if k ∈ ks then a else 0 := by
  induction ks with
  | nil => rfl
  | cons j ks ih =>
    obtain ⟨hj, hnd⟩ := List.nodup_cons.mp hnd
    rw [List.map_cons, List.sum_cons, ih hnd]
    by_cases hk : k = j
    · subst hk
      rw [if_pos rfl, if_neg hj, add_zero, if_pos List.mem_cons_self]
    · rw [if_neg hk, zero_add]
      simp only [List.mem_cons, hk, false_or]

/-- The sums of the groups add up to the sum. -/
theorem sum_groups {ks : List κ} (hnd : ks.Nodup) (g : α → κ) (f : α → A) :
    ∀ {xs : List α}, (∀ x ∈ xs, g x ∈ ks) →
      (ks.map fun k => ((xs.filter fun x => g x = k).map f).sum).sum = (xs.map f).sum := by
  intro xs
  induction xs with
  | nil =>
    intro _
    simp
  | cons x xs ih =>
    intro hmem
    have hx : (ks.map fun k => (((x :: xs).filter fun y => g y = k).map f).sum) =
        ks.map fun k => (if g x = k then f x else 0) + ((xs.filter fun y => g y = k).map f).sum := by
      refine List.map_congr_left fun k _ => ?_
      by_cases hk : g x = k
      · rw [List.filter_cons_of_pos (by simpa using hk), if_pos hk, List.map_cons, List.sum_cons]
      · rw [List.filter_cons_of_neg (by simpa using hk), if_neg hk, zero_add]
    rw [hx, List.sum_map_add, sum_map_ite hnd, if_pos (hmem x List.mem_cons_self),
      ih fun y hy => hmem y (List.mem_cons_of_mem _ hy), List.map_cons, List.sum_cons]

end Groups

/-! ## Dictionaries -/

section Dictionaries

variable [DecidableEq κ]

/-- `d.setdefault(k, a)`, then an update of the value. -/
def upsert (k : κ) (a : α) (f : α → α) : List (κ × α) → List (κ × α)
  | [] => [(k, f a)]
  | (j, b) :: d => if j = k then (j, f b) :: d else (j, b) :: upsert k a f d

/-- An update of the value of a key, `none` where `d.get(k)` is. -/
def update? (k : κ) (f : α → α) : List (κ × α) → Option (List (κ × α))
  | [] => none
  | (j, b) :: d => if j = k then some ((j, f b) :: d) else (update? k f d).map ((j, b) :: ·)

theorem mem_keys_upsert {k j : κ} {a : α} {f : α → α} {d : List (κ × α)} :
    j ∈ (upsert k a f d).map Prod.fst ↔ j = k ∨ j ∈ d.map Prod.fst := by
  induction d with
  | nil => simp [upsert]
  | cons p d ih =>
    obtain ⟨i, b⟩ := p
    simp only [upsert]
    split
    · next h =>
      subst h
      simp
    · simp only [List.map_cons, List.mem_cons, ih]
      tauto

/-- A key that is there can be updated, and the keys stay. -/
theorem update?_of_mem {k : κ} {f : α → α} {d : List (κ × α)} (h : k ∈ d.map Prod.fst) :
    ∃ d', update? k f d = some d' ∧ d'.map Prod.fst = d.map Prod.fst := by
  induction d with
  | nil => exact absurd h List.not_mem_nil
  | cons p d ih =>
    obtain ⟨i, b⟩ := p
    simp only [update?]
    by_cases hi : i = k
    · exact ⟨(i, f b) :: d, if_pos hi, rfl⟩
    · have hk : k ∈ d.map Prod.fst := by
        rcases List.mem_cons.mp h with rfl | h
        · exact absurd rfl hi
        · exact h
      obtain ⟨d', hd', hkeys⟩ := ih hk
      refine ⟨(i, b) :: d', ?_, by rw [List.map_cons, List.map_cons, hkeys]⟩
      rw [if_neg hi, hd']
      rfl

variable [AddCommMonoid α]

/-- A contribution under any key adds to the total. -/
theorem sum_upsert (k : κ) (x : α) (d : List (κ × α)) :
    ((upsert k 0 (· + x) d).map Prod.snd).sum = (d.map Prod.snd).sum + x := by
  induction d with
  | nil => simp [upsert]
  | cons p d ih =>
    obtain ⟨i, b⟩ := p
    simp only [upsert]
    split
    · simp only [List.map_cons, List.sum_cons, add_right_comm]
    · simp only [List.map_cons, List.sum_cons, ih, add_assoc]

theorem sum_update? {k : κ} {x : α} {d d' : List (κ × α)} (h : update? k (· + x) d = some d') :
    (d'.map Prod.snd).sum = (d.map Prod.snd).sum + x := by
  induction d generalizing d' with
  | nil => cases h
  | cons p d ih =>
    obtain ⟨i, b⟩ := p
    simp only [update?] at h
    split at h
    · obtain rfl := Option.some.inj h
      simp only [List.map_cons, List.sum_cons, add_right_comm]
    · obtain ⟨e, he, rfl⟩ := Option.map_eq_some_iff.mp h
      simp only [List.map_cons, List.sum_cons, ih he, add_assoc]

end Dictionaries

end Grouping
