import Mathlib.Algebra.Order.BigOperators.Group.List
import Mathlib.Algebra.Order.Group.Int
import LLMBenchLab.Table

/-!
# Summaries: grouped sums over a table

A summary says which groups a row belongs to and what it adds to each counter
of them; `sum t g c` is the `SELECT SUM(…) … GROUP BY` of one group and one
counter. A table of stored totals stays equal to the sums as long as every write
to the rows comes with the change of the row's share (`sum_insert`, `sum_put`),
and a group that no row belongs to starts from zero (`sum_of_not_mem`).
-/

namespace Relational

universe u v w

/-- What rows contribute to grouped counters. -/
structure Summary (ρ : Type u) (γ : Type v) (ι : Type w) where
  /-- the groups of a row -/
  groups : ρ → List γ
  /-- the contribution of a row to a counter -/
  fact : ι → ρ → ℤ

namespace Summary

variable {ρ : Type u} {γ : Type v} {ι : Type w} {κ : Type*} [Keyed ρ κ] [DecidableEq κ]
  [DecidableEq γ] (v : Summary ρ γ ι)

/-- The contribution of a row to a counter of one group. -/
def share (g : γ) (c : ι) (r : ρ) : ℤ := if g ∈ v.groups r then v.fact c r else 0

/-- The counter of a group, summed over the table. -/
def sum (t : Table ρ) (g : γ) (c : ι) : ℤ := t.total (v.share g c)

omit [DecidableEq κ] in
@[simp] theorem sum_empty (g : γ) (c : ι) : v.sum (Table.empty : Table ρ) g c = 0 := rfl

theorem sum_insert {t : Table ρ} {r : ρ} (h : t.get? (key r) = none) (g : γ) (c : ι) :
    v.sum (t.insert r) g c = v.sum t g c + v.share g c r :=
  Table.total_insert h _

theorem sum_put {t : Table ρ} {r r₀ : ρ} (h : t.get? (key r) = some r₀) (g : γ) (c : ι) :
    v.sum (t.put r) g c = v.sum t g c + (v.share g c r - v.share g c r₀) :=
  Table.total_put h _

omit [DecidableEq κ] in
theorem sum_of_not_mem {t : Table ρ} {g : γ} (h : ∀ r ∈ t.rows, g ∉ v.groups r) (c : ι) :
    v.sum t g c = 0 := by
  refine List.sum_eq_zero fun x hx => ?_
  obtain ⟨r, hr, rfl⟩ := List.mem_map.mp hx
  exact if_neg (h r hr)

omit [DecidableEq κ] in
theorem sum_nonneg {t : Table ρ} {c : ι} (h : ∀ r ∈ t.rows, 0 ≤ v.fact c r) (g : γ) :
    0 ≤ v.sum t g c := by
  refine List.sum_nonneg fun x hx => ?_
  obtain ⟨r, hr, rfl⟩ := List.mem_map.mp hx
  unfold share
  split
  · exact h r hr
  · exact le_rfl

omit [DecidableEq κ] in
/-- A group of non-negative facts sums to no more than all rows do. -/
theorem sum_le_total {t : Table ρ} {c : ι} (h : ∀ r ∈ t.rows, 0 ≤ v.fact c r) (g : γ) :
    v.sum t g c ≤ t.total (v.fact c) := by
  refine List.sum_le_sum fun r hr => ?_
  unfold share
  split
  · exact le_rfl
  · exact h r hr

omit [DecidableEq κ] in
/-- A group has a positive sum of non-negative facts when one row of it has a
positive fact. -/
theorem sum_pos_iff {t : Table ρ} {c : ι} (h : ∀ r ∈ t.rows, 0 ≤ v.fact c r) (g : γ) :
    0 < v.sum t g c ↔ ∃ r ∈ t.rows, g ∈ v.groups r ∧ 0 < v.fact c r := by
  have hshare : ∀ x ∈ t.rows.map (v.share g c), 0 ≤ x := by
    intro x hx
    obtain ⟨r, hr, rfl⟩ := List.mem_map.mp hx
    unfold share
    split
    · exact h r hr
    · exact le_rfl
  constructor
  · intro hpos
    by_contra hno
    refine absurd (List.sum_eq_zero fun x hx => ?_) (ne_of_gt hpos)
    obtain ⟨r, hr, rfl⟩ := List.mem_map.mp hx
    unfold share
    split
    · next hg => exact le_antisymm (not_lt.mp fun hp => hno ⟨r, hr, hg, hp⟩) (h r hr)
    · rfl
  · rintro ⟨r, hr, hg, hp⟩
    have hle := List.single_le_sum hshare _ (List.mem_map_of_mem hr)
    refine lt_of_lt_of_le ?_ hle
    rw [share, if_pos hg]
    exact hp

omit [DecidableEq κ] in
/-- Facts laid out one row a group, as a join gives them: the sum over those of
one group is the sum of the group. -/
theorem sum_flatMap {τ φ : Type*} {members : ρ → List τ} (label : ρ → τ → γ) {mk : ρ → τ → φ}
    (group : φ → γ) {value : φ → ℤ} {c : ι} {t : Table ρ}
    (hgroups : ∀ r, (members r).map (label r) = v.groups r) (hnd : ∀ r, (v.groups r).Nodup)
    (hgroup : ∀ r m, group (mk r m) = label r m) (hvalue : ∀ r m, value (mk r m) = v.fact c r)
    (g : γ) :
    (((t.rows.flatMap fun r => (members r).map (mk r)).filter fun f => group f = g).map value).sum =
      v.sum t g c := by
  have hrow (r : ρ) : ((((members r).map (mk r)).filter fun f => group f = g).map value).sum =
      v.share g c r := by
    have hnd := hnd r
    rw [← hgroups] at hnd
    rw [share, ← hgroups]
    revert hnd
    induction members r with
    | nil => simp
    | cons m l ih =>
      intro hnd
      obtain ⟨hm, hl⟩ := List.nodup_cons.mp hnd
      simp only [List.map_cons, List.filter_cons, hgroup, List.mem_cons]
      by_cases hg : label r m = g
      · -- this member is the one of the group
        have hrest : ¬ g ∈ l.map (label r) := by rw [← hg]; exact hm
        have hnone : (((l.map (mk r)).filter fun f => group f = g).map value).sum = 0 := by
          rw [ih hl, if_neg hrest]
        simp [hg, hvalue, hnone]
      · have hg' : ¬ g = label r m := fun h => hg h.symm
        simpa [hg, hg'] using ih hl
  unfold sum Table.total
  induction t.rows with
  | nil => simp
  | cons r l ih =>
    simp only [List.flatMap_cons, List.filter_append, List.map_append, List.sum_append, hrow, ih,
      List.map_cons, List.sum_cons]

end Summary

/-! ## Stored totals -/

section Stores

variable {τ : Type u} {γ : Type v} {ι : Type w} [Keyed τ γ] [DecidableEq γ] {count : τ → ι → ℤ}
  {t : Table τ} {S : γ → ι → ℤ}

/-- Every counter of the table is the total it stands for. -/
def Stores (count : τ → ι → ℤ) (t : Table τ) (S : γ → ι → ℤ) : Prop :=
  ∀ x ∈ t.rows, ∀ c, count x c = S (key x) c

/-- Adding `δ` to the counters of the groups `ks` follows totals that grow by
`δ` there. -/
theorem Stores.updateAt (h : Stores count t S) {ks : List γ} {f : τ → τ}
    (hf : ∀ x, key (f x) = key x) {δ : ι → ℤ} (hδ : ∀ x c, count (f x) c = count x c + δ c) :
    Stores count (t.updateAt ks f hf) fun g c => S g c + if g ∈ ks then δ c else 0 := by
  intro x hx c
  obtain ⟨y, hy, rfl⟩ := (Table.mem_updateAt hf).mp hx
  have hc := h y hy c
  by_cases hk : key y ∈ ks
  · simp only [if_pos hk, hf, hδ, hc]
  · simp only [if_neg hk, hc, add_zero]

/-- A new counter row starts from zero, as its total does. -/
theorem Stores.insert (h : Stores count t S) {x : τ}
    (hx : t.get? (key x) = none → ∀ c, count x c = S (key x) c) :
    Stores count (t.insert x) S := by
  intro y hy c
  rcases Table.mem_insert.mp hy with hy | ⟨hnone, rfl⟩
  · exact h y hy c
  · exact hx hnone c

end Stores

end Relational
