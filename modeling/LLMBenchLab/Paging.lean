import Mathlib.Data.List.Sort
import Mathlib.Data.List.Nodup
import Mathlib.Data.List.Perm.Basic
import LLMBenchLab.Grouping

/-!
# Paging: one query for each page of an ordered result

A query with an ORDER BY clause may be answered by the rows in any order that the
clause allows (`Answers`). A page is an OFFSET and a LIMIT of such an answer, and two
pages are two queries: nothing ties the order of one to that of the other.

The pages are a partition of the rows, whatever the answers, exactly when rows that
tie never lie on both sides of a page boundary (`partitions_iff`).
-/

namespace Paging

universe u

variable {α : Type u} (le : α → α → Prop)

/-- An answer to the query: the rows, in an order that the clause allows. -/
structure Answers (rows xs : List α) : Prop where
  perm : xs.Perm rows
  ordered : xs.Pairwise le

/-- `OFFSET offset LIMIT limit` -/
def page (offset limit : ℕ) (xs : List α) : List α := (xs.drop offset).take limit

/-- The first `n` pages in a row, the `k`-th one cut from the `k`-th answer. -/
def pages (limit n : ℕ) (answer : ℕ → List α) : List α :=
  (List.range n).flatMap fun k => page (k * limit) limit (answer k)

/-- Whatever the answers, enough pages list every row exactly once. -/
def Partitions (rows : List α) (limit : ℕ) : Prop :=
  ∀ answer : ℕ → List α, (∀ k, Answers le rows (answer k)) →
    ∀ n, rows.length ≤ n * limit → (pages limit n answer).Perm rows

variable [DecidableRel le]

/-- How many rows come before `x` in every answer. -/
def countBefore (rows : List α) (x : α) : ℕ := rows.countP fun y => !decide (le x y)

/-- How many rows come no later than `x` in some answer; `x` is one of them. -/
def countUpTo (rows : List α) (x : α) : ℕ := rows.countP fun y => decide (le y x)

/-- The first and the last place that a row can take are on one page. -/
def TiesWithinPages (rows : List α) (limit : ℕ) : Prop :=
  ∀ x ∈ rows, countBefore le rows x / limit = (countUpTo le rows x - 1) / limit

instance (rows : List α) (limit : ℕ) : Decidable (TiesWithinPages le rows limit) :=
  inferInstanceAs (Decidable (∀ x ∈ rows, _))

/-! ## Places -/

variable {le} {rows xs : List α} {x y : α} {i k limit n : ℕ}

omit [DecidableRel le] in
theorem Answers.mem (h : Answers le rows xs) : x ∈ xs ↔ x ∈ rows := h.perm.mem_iff

omit [DecidableRel le] in
theorem mem_page (hlimit : 0 < limit) :
    x ∈ page (k * limit) limit xs ↔ ∃ i, xs[i]? = some x ∧ i / limit = k := by
  have hdiv (i : ℕ) : i / limit = k ↔ k * limit ≤ i ∧ i < k * limit + limit := by
    rw [Nat.div_eq_iff hlimit, ← Nat.add_one_mul]
    have := Nat.add_one_mul k limit
    omega
  simp only [page, List.mem_iff_getElem?, List.getElem?_take, List.getElem?_drop]
  constructor
  · rintro ⟨j, hj⟩
    split at hj
    · next hlt => exact ⟨k * limit + j, hj, (hdiv _).mpr ⟨Nat.le_add_right _ _, by omega⟩⟩
    · cases hj
  · rintro ⟨i, hi, hik⟩
    obtain ⟨hle, hlt⟩ := (hdiv i).mp hik
    refine ⟨i - k * limit, ?_⟩
    rw [if_pos (by omega), Nat.add_sub_cancel' hle]
    exact hi

theorem exists_split (hi : xs[i]? = some x) : ∃ l₁ l₂, xs = l₁ ++ x :: l₂ ∧ l₁.length = i := by
  obtain ⟨hlt, rfl⟩ := List.getElem?_eq_some_iff.mp hi
  refine ⟨xs.take i, xs.drop (i + 1), ?_, List.length_take_of_le hlt.le⟩
  rw [← List.drop_eq_getElem_cons hlt, List.take_append_drop]

/-- Only rows in front of `x` come before it in every answer. -/
theorem Answers.countBefore_le [Std.Refl le] (h : Answers le rows xs) (hi : xs[i]? = some x) :
    countBefore le rows x ≤ i := by
  obtain ⟨l₁, l₂, rfl, rfl⟩ := exists_split hi
  have hafter : ∀ y ∈ x :: l₂, le x y := by
    intro y hy
    rcases List.mem_cons.mp hy with rfl | hy
    · exact refl_of le _
    · exact (List.pairwise_cons.mp (List.pairwise_append.mp h.ordered).2.1).1 y hy
  have hzero : (x :: l₂).countP (fun y => !decide (le x y)) = 0 :=
    List.countP_eq_zero.mpr fun y hy => by simp [hafter y hy]
  calc countBefore le rows x
      = (l₁ ++ x :: l₂).countP fun y => !decide (le x y) := (h.perm.countP_eq _).symm
    _ = l₁.countP fun y => !decide (le x y) := by rw [List.countP_append, hzero, Nat.add_zero]
    _ ≤ l₁.length := List.countP_le_length

/-- All rows in front of `x` may stand there. -/
theorem Answers.lt_countUpTo [Std.Refl le] (h : Answers le rows xs) (hi : xs[i]? = some x) :
    i < countUpTo le rows x := by
  obtain ⟨l₁, l₂, rfl, rfl⟩ := exists_split hi
  have hall : l₁.countP (fun y => decide (le y x)) = l₁.length :=
    List.countP_eq_length.mpr fun y hy =>
      decide_eq_true ((List.pairwise_append.mp h.ordered).2.2 y hy x List.mem_cons_self)
  calc l₁.length
      < l₁.countP (fun y => decide (le y x)) + (l₂.countP (fun y => decide (le y x)) + 1) := by
        rw [hall]
        omega
    _ = (l₁ ++ x :: l₂).countP fun y => decide (le y x) := by
        have hx : decide (le x x) = true := decide_eq_true (refl_of le x)
        rw [List.countP_append, List.countP_cons_of_pos (p := fun y => decide (le y x)) hx]
    _ = countUpTo le rows x := h.perm.countP_eq _

/-- A row is at a place before the last one, and its page before the last one. -/
theorem countBefore_lt [Std.Refl le] (hx : x ∈ rows) : countBefore le rows x < rows.length := by
  refine lt_of_le_of_ne List.countP_le_length fun heq => ?_
  have hxx := List.countP_eq_length.mp heq x hx
  rw [decide_eq_true (refl_of le x)] at hxx
  cases hxx

theorem TiesWithinPages.mem_page [Std.Refl le] (hties : TiesWithinPages le rows limit)
    (hlimit : 0 < limit) (h : Answers le rows xs) :
    x ∈ page (k * limit) limit xs ↔ x ∈ rows ∧ countBefore le rows x / limit = k := by
  -- all the places that a row can take are on one page
  have hplace {i : ℕ} (hi : xs[i]? = some x) : i / limit = countBefore le rows x / limit := by
    have hx := h.mem.mp (List.mem_of_getElem? hi)
    refine le_antisymm ?_ (Nat.div_le_div_right (h.countBefore_le hi))
    rw [hties x hx]
    exact Nat.div_le_div_right (Nat.le_sub_one_of_lt (h.lt_countUpTo hi))
  rw [Paging.mem_page hlimit]
  constructor
  · rintro ⟨i, hi, rfl⟩
    exact ⟨h.mem.mp (List.mem_of_getElem? hi), (hplace hi).symm⟩
  · rintro ⟨hx, rfl⟩
    obtain ⟨i, hi⟩ := List.mem_iff_getElem?.mp (h.mem.mpr hx)
    exact ⟨i, hi, hplace hi⟩

theorem countBefore_lt_countUpTo [Std.Total le] [IsTrans α le] (hx : x ∈ rows) :
    countBefore le rows x < countUpTo le rows x := by
  have : Std.Refl le := ⟨fun x => (total_of le x x).elim id id⟩
  have h : Answers le rows (rows.insertionSort le) :=
    ⟨List.perm_insertionSort le rows, List.pairwise_insertionSort le rows⟩
  obtain ⟨i, hi⟩ := List.mem_iff_getElem?.mp (h.mem.mpr hx)
  exact (h.countBefore_le hi).trans_lt (h.lt_countUpTo hi)

/-- Where ties stay within pages, the pages are the groups of rows by page. -/
theorem TiesWithinPages.partitions [Std.Refl le] (hties : TiesWithinPages le rows limit)
    (hlimit : 0 < limit) (hnd : rows.Nodup) : Partitions le rows limit := by
  intro answer hanswer n hn
  have hpage (k : ℕ) : (page (k * limit) limit (answer k)).Perm
      (rows.filter fun x => countBefore le rows x / limit = k) := by
    have hnd' : (answer k).Nodup := (hanswer k).perm.nodup_iff.mpr hnd
    refine (List.perm_ext_iff_of_nodup ?_ (hnd.filter _)).mpr fun x => ?_
    · exact hnd'.sublist ((List.take_sublist _ _).trans (List.drop_sublist _ _))
    · rw [hties.mem_page hlimit (hanswer k), List.mem_filter, decide_eq_true_eq]
  have hkey : ∀ x ∈ rows, countBefore le rows x / limit ∈ List.range n := fun x hx =>
    List.mem_range.mpr ((Nat.div_lt_iff_lt_mul hlimit).mpr ((countBefore_lt hx).trans_le hn))
  exact (List.Perm.flatMap_left _ fun k _ => hpage k).trans
    (Grouping.perm_groups List.nodup_range _ hkey)

/-! ## Every place is taken in some answer -/

section Placing

variable (le)

/-- The rows in front of all that tie with `x`, sorted. -/
def front (rows : List α) (x : α) : List α :=
  (rows.insertionSort le).filter fun y => !decide (le x y)

/-- The rows that tie with `x`. -/
def tied (rows : List α) (x : α) : List α :=
  (rows.filter fun y => decide (le x y)).filter fun y => decide (le y x)

/-- The rows behind all that tie with `x`, sorted. -/
def back (rows : List α) (x : α) : List α :=
  ((rows.insertionSort le).filter fun y => decide (le x y)).filter fun y => !decide (le y x)

variable {le}

theorem mem_front : y ∈ front le rows x ↔ y ∈ rows ∧ ¬ le x y := by
  simp [front]

theorem mem_tied : y ∈ tied le rows x ↔ (y ∈ rows ∧ le x y) ∧ le y x := by
  simp only [tied, List.mem_filter, decide_eq_true_eq]

theorem mem_back : y ∈ back le rows x ↔ (y ∈ rows ∧ le x y) ∧ ¬ le y x := by
  simp only [back, List.mem_filter, List.mem_insertionSort, decide_eq_true_eq, Bool.not_eq_true',
    decide_eq_false_iff_not]

theorem perm_front_tied_back (rows : List α) (x : α) :
    (front le rows x ++ (tied le rows x ++ back le rows x)).Perm rows := by
  have hsort : (rows.insertionSort le).Perm rows := List.perm_insertionSort le rows
  have hback : (back le rows x).Perm
      ((rows.filter fun y => decide (le x y)).filter fun y => !decide (le y x)) :=
    (hsort.filter _).filter _
  have hfront : (front le rows x).Perm (rows.filter fun y => !decide (le x y)) := hsort.filter _
  calc (front le rows x ++ (tied le rows x ++ back le rows x)).Perm
        ((rows.filter fun y => !decide (le x y)) ++ rows.filter fun y => decide (le x y)) :=
        hfront.append ((hback.append_left _).trans (List.filter_append_perm _ _))
    _ = _ ++ rows.filter fun y => !!decide (le x y) := by simp only [Bool.not_not]
    List.Perm _ rows := List.filter_append_perm _ rows

theorem length_front (rows : List α) (x : α) : (front le rows x).length = countBefore le rows x := by
  rw [countBefore, List.countP_eq_length_filter]
  exact ((List.perm_insertionSort le rows).filter _).length_eq

theorem countUpTo_le (rows : List α) (x : α) :
    countUpTo le rows x ≤ countBefore le rows x + (tied le rows x).length := by
  have hback : (back le rows x).countP (fun y => decide (le y x)) = 0 :=
    List.countP_eq_zero.mpr fun y hy => by simpa using (mem_back.mp hy).2
  calc countUpTo le rows x
      = (front le rows x ++ (tied le rows x ++ back le rows x)).countP fun y => decide (le y x) :=
        ((perm_front_tied_back rows x).countP_eq _).symm
    _ = (front le rows x).countP (fun y => decide (le y x)) +
          (tied le rows x).countP fun y => decide (le y x) := by
        rw [List.countP_append, List.countP_append, hback, Nat.add_zero]
    _ ≤ (front le rows x).length + (tied le rows x).length :=
        Nat.add_le_add List.countP_le_length List.countP_le_length
    _ = _ := by rw [length_front]

/-- Where no two rows tie, the first `n` rows are those with fewer than `n` in front. -/
theorem Answers.mem_take [Std.Refl le] (h : Answers le rows xs) (hnd : rows.Nodup)
    (hties : ∀ x ∈ rows, ∀ y ∈ rows, le x y → le y x → x = y) :
    x ∈ xs.take n ↔ x ∈ rows ∧ countBefore le rows x < n := by
  have hplace {i : ℕ} (hi : xs[i]? = some x) : i = countBefore le rows x := by
    have hx := h.mem.mp (List.mem_of_getElem? hi)
    have htied : (tied le rows x).Subperm [x] :=
      List.subperm_of_subset ((hnd.filter _).filter _) fun y hy =>
        List.mem_singleton.mpr
          (hties x hx y (mem_tied.mp hy).1.1 (mem_tied.mp hy).1.2 (mem_tied.mp hy).2).symm
    have hle := h.countBefore_le hi
    have hlt := (h.lt_countUpTo hi).trans_le (countUpTo_le rows x)
    have hone : (tied le rows x).length ≤ 1 := htied.length_le
    omega
  constructor
  · intro hx
    obtain ⟨i, hi⟩ := List.mem_iff_getElem?.mp hx
    rw [List.getElem?_take] at hi
    split at hi
    · next hlt => exact ⟨h.mem.mp (List.mem_of_getElem? hi), hplace hi ▸ hlt⟩
    · cases hi
  · rintro ⟨hx, hlt⟩
    obtain ⟨i, hi⟩ := List.mem_iff_getElem?.mp (h.mem.mpr hx)
    refine List.mem_iff_getElem?.mpr ⟨i, ?_⟩
    rw [List.getElem?_take, if_pos (hplace hi ▸ hlt)]
    exact hi

variable [Std.Total le] [IsTrans α le]

/-- Rows that tie may stand in any order between the others. -/
theorem answers_front_tied_back {ties : List α} (h : ties.Perm (tied le rows x)) :
    Answers le rows (front le rows x ++ (ties ++ back le rows x)) where
  perm := ((h.append_right _).append_left _).trans (perm_front_tied_back rows x)
  ordered := by
    have hsorted := List.pairwise_insertionSort le rows
    have hbefore {y : α} (hy : y ∈ front le rows x) : le y x :=
      (total_of le y x).resolve_right (mem_front.mp hy).2
    have htied {y : α} (hy : y ∈ ties) : le x y ∧ le y x :=
      ⟨(mem_tied.mp (h.mem_iff.mp hy)).1.2, (mem_tied.mp (h.mem_iff.mp hy)).2⟩
    refine List.pairwise_append.mpr ⟨hsorted.filter _, List.pairwise_append.mpr
      ⟨List.pairwise_of_forall_mem_list fun y hy z hz => ?_, (hsorted.filter _).filter _, ?_⟩, ?_⟩
    · exact trans_of le (htied hy).2 (htied hz).1
    · exact fun y hy z hz => trans_of le (htied hy).2 (mem_back.mp hz).1.2
    · intro y hy z hz
      rcases List.mem_append.mp hz with hz | hz
      · exact trans_of le (hbefore hy) (htied hz).1
      · exact trans_of le (hbefore hy) (mem_back.mp hz).1.2

/-- A row takes every place between its first and its last one in some answer. -/
theorem exists_answer (hx : x ∈ rows) (hlo : countBefore le rows x ≤ i)
    (hhi : i < countUpTo le rows x) : ∃ xs, Answers le rows xs ∧ xs[i]? = some x := by
  have hxx : le x x := (total_of le x x).elim id id
  have hmem : x ∈ tied le rows x := mem_tied.mpr ⟨⟨hx, hxx⟩, hxx⟩
  obtain ⟨l₁, l₂, hl⟩ := List.append_of_mem hmem
  have hlen : countUpTo le rows x ≤ countBefore le rows x + (tied le rows x).length :=
    countUpTo_le rows x
  rw [hl, List.length_append, List.length_cons] at hlen
  -- the other ties, with `x` among them where it is wanted
  set others := l₁ ++ l₂ with hothers
  set j := i - countBefore le rows x with hj
  have hjlen : j ≤ others.length := by
    rw [hothers, List.length_append]
    omega
  have hperm : (others.take j ++ x :: others.drop j).Perm (tied le rows x) := by
    calc (others.take j ++ x :: others.drop j).Perm (x :: (others.take j ++ others.drop j)) :=
          List.perm_middle
      _ = x :: (l₁ ++ l₂) := by rw [List.take_append_drop]
      List.Perm _ (l₁ ++ x :: l₂) := List.perm_middle.symm
      _ = _ := hl.symm
  refine ⟨_, answers_front_tied_back hperm, ?_⟩
  rw [List.getElem?_append_right (by rw [length_front]; exact hlo), length_front,
    List.append_assoc, List.getElem?_append_right (by rw [List.length_take_of_le hjlen]),
    List.length_take_of_le hjlen, Nat.sub_self]
  rfl

end Placing

/-! ## The condition -/

/-- The pages are a partition of the rows, whatever the answers, exactly when no rows
that tie lie on both sides of a page boundary. -/
theorem partitions_iff [Std.Total le] [IsTrans α le] (hlimit : 0 < limit) (hnd : rows.Nodup) :
    Partitions le rows limit ↔ TiesWithinPages le rows limit := by
  have : Std.Refl le := ⟨fun x => (total_of le x x).elim id id⟩
  refine ⟨fun h => ?_, fun h => h.partitions hlimit hnd⟩
  by_contra hties
  obtain ⟨x, hx, hne⟩ : ∃ x ∈ rows, countBefore le rows x / limit ≠
      (countUpTo le rows x - 1) / limit := by simpa [TiesWithinPages] using hties
  have hlast : countUpTo le rows x - 1 < rows.length := by
    have hle : countUpTo le rows x ≤ rows.length := List.countP_le_length
    have := List.length_pos_of_mem hx
    omega
  have hlt : countBefore le rows x / limit < (countUpTo le rows x - 1) / limit :=
    lt_of_le_of_ne (Nat.div_le_div_right (Nat.le_sub_one_of_lt (countBefore_lt_countUpTo hx))) hne
  -- the last page that the row can be on, and the boundary in front of it
  set k := (countUpTo le rows x - 1) / limit with hk
  have hboundary : countBefore le rows x < k * limit := (Nat.div_lt_iff_lt_mul hlimit).mp hlt
  have hreach : k * limit ≤ countUpTo le rows x - 1 := Nat.div_mul_le_self _ _
  have hkpos : 0 < k := Nat.zero_lt_of_lt hlt
  have hkn : k < rows.length := (Nat.le_mul_of_pos_right k hlimit).trans_lt (hreach.trans_lt hlast)
  obtain ⟨xs, hxs, hend⟩ : ∃ xs, Answers le rows xs ∧ xs[k * limit - 1]? = some x :=
    exists_answer hx (by omega) (by omega)
  obtain ⟨ys, hys, hbegin⟩ : ∃ xs, Answers le rows xs ∧ xs[k * limit]? = some x :=
    exists_answer hx hboundary.le (by omega)
  have hfirst : x ∈ page ((k - 1) * limit) limit xs := by
    refine (mem_page hlimit).mpr ⟨_, hend, ?_⟩
    rw [Nat.div_eq_iff hlimit, Nat.sub_mul, Nat.one_mul]
    have := Nat.le_mul_of_pos_left limit hkpos
    omega
  have hsecond : x ∈ page (k * limit) limit ys :=
    (mem_page hlimit).mpr ⟨_, hbegin, Nat.mul_div_cancel k hlimit⟩
  have hpages := h (fun j => if j < k then xs else ys)
    (fun j => by split <;> assumption) rows.length (Nat.le_mul_of_pos_right _ hlimit)
  have hdisjoint := List.pairwise_iff_getElem.mp
    (List.nodup_flatMap.mp (hpages.nodup_iff.mpr hnd)).2 (k - 1) k
    (by rw [List.length_range]; omega) (by rw [List.length_range]; exact hkn) (by omega)
  rw [List.getElem_range, List.getElem_range] at hdisjoint
  dsimp only [Function.onFun] at hdisjoint
  rw [if_pos (by omega), if_neg (lt_irrefl k)] at hdisjoint
  exact hdisjoint hfirst hsecond

end Paging
