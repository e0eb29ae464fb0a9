import Mathlib.Data.List.Nodup
import Mathlib.Algebra.BigOperators.Group.List.Basic
import Mathlib.Tactic.Abel

/-!
# Tables: finite relations with a primary key

A table is a list of rows in which no two rows share their key. The key is a
field of the row (`Keyed`), so a row read from a table can be written back
without saying where it came from. Four writes are enough for what an ORM and
a few bulk statements do:

* `insert` — `INSERT … ON CONFLICT DO NOTHING`;
* `put` — an `UPDATE` of the row with the same key, nothing if there is none;
* `putAll` — the flush of a list of edited rows;
* `update` — a bulk `UPDATE` that keeps every key.

`total` is the `SUM` of a column expression. Its two delta rules
(`total_insert`, `total_put`) are what a materialized counter is maintained
by: a write moves the sum by the difference at the written row.
-/

namespace Relational

universe u v w

/-- Rows with a primary key. -/
class Keyed (ρ : Type u) (κ : outParam (Type v)) where
  /-- the key column(s) of a row -/
  key : ρ → κ

export Keyed (key)

/-- A finite relation with a primary key. -/
structure Table (ρ : Type u) {κ : Type v} [Keyed ρ κ] where
  /-- the rows, oldest first -/
  rows : List ρ
  /-- no two rows share their key -/
  nodup : (rows.map key).Nodup

namespace Table

variable {ρ : Type u} {κ : Type v} [Keyed ρ κ]

/-- The table without rows. -/
def empty : Table ρ := ⟨[], List.nodup_nil⟩

@[simp] theorem rows_empty : (empty : Table ρ).rows = [] := rfl

@[ext] theorem ext {t t' : Table ρ} (h : t.rows = t'.rows) : t = t' := by
  cases t; cases t'
  subst h
  rfl

instance [DecidableEq ρ] : DecidableEq (Table ρ) := fun t t' =>
  decidable_of_iff (t.rows = t'.rows) ⟨Table.ext, congrArg rows⟩

/-- Rows of a table are determined by their key. -/
theorem eq_of_key {t : Table ρ} {r r' : ρ} (h : r ∈ t.rows) (h' : r' ∈ t.rows)
    (hk : key r = key r') : r = r' :=
  List.inj_on_of_nodup_map t.nodup h h' hk

variable [DecidableEq κ]

/-- Primary-key lookup. -/
def get? (t : Table ρ) (k : κ) : Option ρ := t.rows.find? fun r => decide (key r = k)

@[simp] theorem get?_empty (k : κ) : (empty : Table ρ).get? k = none := rfl

theorem get?_eq_some {t : Table ρ} {k : κ} {r : ρ} :
    t.get? k = some r ↔ r ∈ t.rows ∧ key r = k := by
  constructor
  · intro h
    exact ⟨List.mem_of_find?_eq_some h, by simpa using List.find?_some h⟩
  · rintro ⟨hr, rfl⟩
    rcases hf : t.get? (key r) with _ | r'
    · have := List.find?_eq_none.mp hf r hr
      simp at this
    · have hk : key r' = key r := by simpa using List.find?_some hf
      exact congrArg some (eq_of_key (List.mem_of_find?_eq_some hf) hr hk)

theorem mem_of_get? {t : Table ρ} {k : κ} {r : ρ} (h : t.get? k = some r) : r ∈ t.rows :=
  (get?_eq_some.mp h).1

theorem key_of_get? {t : Table ρ} {k : κ} {r : ρ} (h : t.get? k = some r) : key r = k :=
  (get?_eq_some.mp h).2

theorem get?_of_mem {t : Table ρ} {r : ρ} (h : r ∈ t.rows) : t.get? (key r) = some r :=
  get?_eq_some.mpr ⟨h, rfl⟩

theorem get?_eq_none {t : Table ρ} {k : κ} : t.get? k = none ↔ ∀ r ∈ t.rows, key r ≠ k := by
  unfold get?
  rw [List.find?_eq_none]
  simp

/-! ## Insertion -/

/-- `INSERT … ON CONFLICT DO NOTHING`. -/
def insert (t : Table ρ) (r : ρ) : Table ρ :=
  if h : t.get? (key r) = none then
    ⟨t.rows ++ [r], by
      rw [List.map_append, List.nodup_append]
      refine ⟨t.nodup, by simp, ?_⟩
      intro a ha b hb
      obtain ⟨x, hx, rfl⟩ := List.mem_map.mp ha
      obtain rfl : b = key r := by simpa using hb
      exact get?_eq_none.mp h x hx⟩
  else t

theorem insert_of_none {t : Table ρ} {r : ρ} (h : t.get? (key r) = none) :
    (t.insert r).rows = t.rows ++ [r] := by
  unfold insert
  rw [dif_pos h]

theorem insert_of_some {t : Table ρ} {r r' : ρ} (h : t.get? (key r) = some r') :
    t.insert r = t := by
  unfold insert
  rw [dif_neg (by rw [h]; exact Option.some_ne_none r')]

theorem mem_insert {t : Table ρ} {r x : ρ} :
    x ∈ (t.insert r).rows ↔ x ∈ t.rows ∨ (t.get? (key r) = none ∧ x = r) := by
  rcases h : t.get? (key r) with _ | r'
  · simp [insert_of_none h]
  · simp [insert_of_some h]

theorem get?_insert (t : Table ρ) (r : ρ) (k : κ) :
    (t.insert r).get? k =
      if k = key r then some ((t.get? (key r)).getD r) else t.get? k := by
  rcases h : t.get? (key r) with _ | r'
  · unfold get?
    rw [insert_of_none h, List.find?_append]
    by_cases hk : k = key r
    · subst hk
      have h' : t.rows.find? (fun x => decide (key x = key r)) = none := h
      simp [h']
    · simp [hk, Ne.symm hk]
  · rw [insert_of_some h]
    by_cases hk : k = key r
    · simp [hk, h]
    · simp [hk]

/-! ## Deletion -/

/-- `DELETE` by primary key. -/
def erase (t : Table ρ) (k : κ) : Table ρ :=
  ⟨t.rows.filter fun r => decide (key r ≠ k), (t.nodup.sublist ((List.filter_sublist).map _))⟩

theorem get?_erase (t : Table ρ) (k k' : κ) :
    (t.erase k).get? k' = if k' = k then none else t.get? k' := by
  split
  · next h =>
    rw [get?_eq_none]
    intro r hr hk
    simp only [erase, List.mem_filter, decide_eq_true_eq] at hr
    exact hr.2 (hk.trans h)
  · next h =>
    rcases hk : t.get? k' with _ | r
    · rw [get?_eq_none] at hk ⊢
      intro r hr
      simp only [erase, List.mem_filter] at hr
      exact hk r hr.1
    · obtain ⟨hr, hkey⟩ := get?_eq_some.mp hk
      rw [get?_eq_some]
      refine ⟨?_, hkey⟩
      simp only [erase, List.mem_filter, decide_eq_true_eq]
      exact ⟨hr, by rw [hkey]; exact h⟩

/-! ## Update by primary key -/

/-- The row `x` after an `UPDATE` that writes `r` by primary key. -/
def overwrite (r x : ρ) : ρ := if key x = key r then r else x

theorem key_overwrite (r x : ρ) : key (overwrite r x) = key x := by
  unfold overwrite
  split
  · next h => exact h.symm
  · rfl

/-- Write `r` over the row with its key; nothing happens if there is none. -/
def put (t : Table ρ) (r : ρ) : Table ρ :=
  ⟨t.rows.map (overwrite r), by
    rw [List.map_map]
    rw [show (key ∘ overwrite r : ρ → κ) = key from funext (key_overwrite r)]
    exact t.nodup⟩

@[simp] theorem rows_put (t : Table ρ) (r : ρ) : (t.put r).rows = t.rows.map (overwrite r) := rfl

theorem get?_put (t : Table ρ) (r : ρ) (k : κ) :
    (t.put r).get? k = (t.get? k).map (overwrite r) := by
  unfold get?
  rw [rows_put, List.find?_map]
  congr 2
  funext x
  simp [key_overwrite]

theorem get?_put_self {t : Table ρ} {r r₀ : ρ} (h : t.get? (key r) = some r₀) :
    (t.put r).get? (key r) = some r := by
  rw [get?_put, h]
  simp [overwrite, key_of_get? h]

theorem get?_put_ne {t : Table ρ} {r : ρ} {k : κ} (h : k ≠ key r) :
    (t.put r).get? k = t.get? k := by
  rw [get?_put]
  rcases hk : t.get? k with _ | x
  · rfl
  · have hx : key x = k := key_of_get? hk
    simp [overwrite, hx, h]

theorem mem_put {t : Table ρ} {r x : ρ} (hx : x ∈ (t.put r).rows) :
    x = r ∨ (x ∈ t.rows ∧ key x ≠ key r) := by
  obtain ⟨y, hy, rfl⟩ := List.mem_map.mp hx
  unfold overwrite
  split
  · exact Or.inl rfl
  · next h => exact Or.inr ⟨hy, h⟩

theorem map_key_put (t : Table ρ) (r : ρ) : (t.put r).rows.map key = t.rows.map key := by
  rw [rows_put, List.map_map]
  exact congrArg (t.rows.map ·) (funext (key_overwrite r))

theorem put_put {t : Table ρ} {r r' : ρ} (h : key r' = key r) : (t.put r).put r' = t.put r' := by
  apply Table.ext
  rw [rows_put, rows_put, rows_put, List.map_map]
  refine List.map_congr_left fun x _ => ?_
  show overwrite r' (overwrite r x) = overwrite r' x
  unfold overwrite
  rw [h]
  split
  · simp
  · rfl

/-- Flush a list of edited rows. -/
def putAll (t : Table ρ) (l : List ρ) : Table ρ := l.foldl put t

@[simp] theorem putAll_nil (t : Table ρ) : t.putAll [] = t := rfl

@[simp] theorem putAll_cons (t : Table ρ) (r : ρ) (l : List ρ) :
    t.putAll (r :: l) = (t.put r).putAll l := rfl

theorem mem_putAll {x : ρ} :
    ∀ {l : List ρ} {t : Table ρ}, x ∈ (t.putAll l).rows → x ∈ l ∨ x ∈ t.rows := by
  intro l
  induction l with
  | nil => intro t h; exact Or.inr h
  | cons r l ih =>
    intro t h
    rcases ih h with h | h
    · exact Or.inl (List.mem_cons_of_mem _ h)
    · rcases mem_put h with rfl | ⟨h, -⟩
      · exact Or.inl List.mem_cons_self
      · exact Or.inr h

theorem get?_putAll_of_not_mem {k : κ} :
    ∀ {l : List ρ} {t : Table ρ}, (∀ r ∈ l, key r ≠ k) → (t.putAll l).get? k = t.get? k := by
  intro l
  induction l with
  | nil => intro t _; rfl
  | cons r l ih =>
    intro t h
    rw [putAll_cons, ih fun x hx => h x (List.mem_cons_of_mem _ hx),
      get?_put_ne (h r List.mem_cons_self).symm]

theorem get?_putAll_of_mem {r : ρ} :
    ∀ {l : List ρ} {t : Table ρ}, (l.map key).Nodup → r ∈ l → (t.get? (key r)).isSome →
      (t.putAll l).get? (key r) = some r := by
  intro l
  induction l with
  | nil => intro t _ h; cases h
  | cons x l ih =>
    intro t hnd hr hsome
    obtain ⟨hx, hnd⟩ := List.nodup_cons.mp hnd
    rw [putAll_cons]
    rcases List.mem_cons.mp hr with rfl | hr
    · obtain ⟨r₀, h₀⟩ := Option.isSome_iff_exists.mp hsome
      rw [get?_putAll_of_not_mem, get?_put_self h₀]
      intro y hy he
      exact hx (by rw [← he]; exact List.mem_map_of_mem hy)
    · refine ih hnd hr ?_
      rw [get?_put, Option.isSome_map]
      exact hsome

theorem map_key_putAll (l : List ρ) : ∀ t : Table ρ,
    (t.putAll l).rows.map key = t.rows.map key := by
  induction l with
  | nil => intro t; rfl
  | cons r l ih => intro t; rw [putAll_cons, ih, map_key_put]

theorem isSome_get? (t : Table ρ) (k : κ) : (t.get? k).isSome ↔ k ∈ t.rows.map key := by
  constructor
  · intro h
    obtain ⟨r, hr⟩ := Option.isSome_iff_exists.mp h
    exact List.mem_map.mpr ⟨r, mem_of_get? hr, key_of_get? hr⟩
  · intro h
    obtain ⟨r, hr, rfl⟩ := List.mem_map.mp h
    rw [get?_of_mem hr]
    rfl

theorem isSome_get?_putAll (t : Table ρ) (l : List ρ) (k : κ) :
    ((t.putAll l).get? k).isSome = (t.get? k).isSome := by
  rw [Bool.eq_iff_iff, isSome_get?, isSome_get?, map_key_putAll]

/-! ## Bulk update -/

/-- A bulk `UPDATE`; `f` keeps the key of every row. -/
def update (t : Table ρ) (f : ρ → ρ) (hf : ∀ r, key (f r) = key r) : Table ρ :=
  ⟨t.rows.map f, by
    rw [List.map_map, show (key ∘ f : ρ → κ) = key from funext hf]
    exact t.nodup⟩

omit [DecidableEq κ] in
@[simp] theorem rows_update (t : Table ρ) (f : ρ → ρ) (hf : ∀ r, key (f r) = key r) :
    (t.update f hf).rows = t.rows.map f := rfl

theorem get?_update (t : Table ρ) (f : ρ → ρ) (hf : ∀ r, key (f r) = key r) (k : κ) :
    (t.update f hf).get? k = (t.get? k).map f := by
  unfold get?
  rw [rows_update, List.find?_map]
  congr 2
  funext x
  simp [hf]

/-! ## Edits of loaded rows

A session loads rows, edits the objects and flushes them. When the rows were
loaded by key and every object was edited by the same function, the flush is
the bulk update of those keys. -/

/-- `SELECT … WHERE key IN ks`, in the order of `ks`. -/
def lookup (t : Table ρ) (ks : List κ) : List ρ := ks.filterMap t.get?

theorem mem_lookup {t : Table ρ} {ks : List κ} {r : ρ} :
    r ∈ t.lookup ks ↔ r ∈ t.rows ∧ key r ∈ ks := by
  unfold lookup
  rw [List.mem_filterMap]
  constructor
  · rintro ⟨k, hk, hr⟩
    obtain ⟨hm, rfl⟩ := get?_eq_some.mp hr
    exact ⟨hm, hk⟩
  · rintro ⟨hm, hk⟩
    exact ⟨key r, hk, get?_of_mem hm⟩

theorem map_key_lookup (t : Table ρ) (ks : List κ) :
    (t.lookup ks).map key = ks.filter fun k => (t.get? k).isSome := by
  induction ks with
  | nil => rfl
  | cons k ks ih =>
    unfold lookup at ih ⊢
    rcases h : t.get? k with _ | r
    · simp [h, ih]
    · simp [h, ih, key_of_get? h]

/-- The bulk `UPDATE` of the rows with a key in `ks`. -/
def updateAt (t : Table ρ) (ks : List κ) (f : ρ → ρ) (hf : ∀ r, key (f r) = key r) : Table ρ :=
  t.update (fun r => if key r ∈ ks then f r else r) fun r => by
    split
    · exact hf r
    · rfl

theorem get?_updateAt (t : Table ρ) (ks : List κ) (f : ρ → ρ) (hf : ∀ r, key (f r) = key r)
    (k : κ) :
    (t.updateAt ks f hf).get? k = (t.get? k).map fun r => if k ∈ ks then f r else r := by
  unfold updateAt
  rw [get?_update]
  rcases h : t.get? k with _ | r
  · rfl
  · rw [Option.map_some, Option.map_some, key_of_get? h]

theorem mem_updateAt {t : Table ρ} {ks : List κ} {f : ρ → ρ} (hf : ∀ r, key (f r) = key r) {x : ρ} :
    x ∈ (t.updateAt ks f hf).rows ↔ ∃ y ∈ t.rows, (if key y ∈ ks then f y else y) = x :=
  List.mem_map

/-- What holds of the edited rows and of the others holds after the update. -/
theorem forall_updateAt {t : Table ρ} {ks : List κ} {f : ρ → ρ} (hf : ∀ r, key (f r) = key r)
    {Q : ρ → Prop} (hin : ∀ x ∈ t.rows, key x ∈ ks → Q (f x))
    (hout : ∀ x ∈ t.rows, key x ∉ ks → Q x) : ∀ x ∈ (t.updateAt ks f hf).rows, Q x := by
  intro x hx
  obtain ⟨y, hy, rfl⟩ := (mem_updateAt hf).mp hx
  split
  · next hk => exact hin y hy hk
  · next hk => exact hout y hy hk

theorem key_ite {c : Prop} [Decidable c] {f : ρ → ρ} (hf : ∀ r, key (f r) = key r) (x : ρ) :
    key (if c then f x else x) = key x := by
  split
  · exact hf x
  · rfl

theorem isSome_get?_updateAt (t : Table ρ) (ks : List κ) (f : ρ → ρ)
    (hf : ∀ r, key (f r) = key r) (k : κ) :
    ((t.updateAt ks f hf).get? k).isSome = (t.get? k).isSome := by
  rw [get?_updateAt, Option.isSome_map]

theorem map_key_updateAt (t : Table ρ) (ks : List κ) (f : ρ → ρ) (hf : ∀ r, key (f r) = key r) :
    (t.updateAt ks f hf).rows.map key = t.rows.map key := by
  unfold updateAt
  rw [rows_update, List.map_map]
  refine List.map_congr_left fun x _ => ?_
  show key (if key x ∈ ks then f x else x) = key x
  split
  · exact hf x
  · rfl

/-- Only the set of the keys matters. -/
theorem updateAt_congr {t : Table ρ} {ks ks' : List κ} {f : ρ → ρ} {hf : ∀ r, key (f r) = key r}
    (h : ∀ k, k ∈ ks ↔ k ∈ ks') : t.updateAt ks f hf = t.updateAt ks' f hf := by
  apply Table.ext
  refine List.map_congr_left fun x _ => ?_
  simp only [h]

theorem rows_putAll (l : List ρ) : ∀ t : Table ρ,
    (t.putAll l).rows = t.rows.map fun x => l.foldl (fun y r => overwrite r y) x := by
  induction l with
  | nil => intro t; simp
  | cons r l ih =>
    intro t
    rw [putAll_cons, ih, rows_put, List.map_map]
    rfl

/-- Flushing edited objects is the bulk update of their keys. -/
theorem putAll_map {t : Table ρ} {l : List ρ} (hl : ∀ z ∈ l, z ∈ t.rows) (f : ρ → ρ)
    (hf : ∀ r, key (f r) = key r) : t.putAll (l.map f) = t.updateAt (l.map key) f hf := by
  apply Table.ext
  rw [rows_putAll]
  refine List.map_congr_left fun x hx => ?_
  -- the objects are edits of rows of `t`: only the one of `x` touches `x`
  suffices step : ∀ y, y = x ∨ y = f x →
      (l.map f).foldl (fun y r => overwrite r y) y = if key x ∈ l.map key then f x else y from
    step x (Or.inl rfl)
  induction l with
  | nil => intro y _; simp
  | cons z l ih =>
    intro y hy
    have hyk : key y = key x := by
      rcases hy with rfl | rfl
      · rfl
      · exact hf x
    have hz : z ∈ t.rows := hl z List.mem_cons_self
    have ih := ih fun a ha => hl a (List.mem_cons_of_mem _ ha)
    rw [List.map_cons, List.foldl_cons]
    by_cases hzx : key x = key z
    · have hfx : overwrite (f z) y = f x := by
        unfold overwrite
        rw [if_pos (by rw [hyk, hf, hzx]), eq_of_key hz hx hzx.symm]
      rw [hfx, ih _ (Or.inr rfl)]
      simp [hzx]
    · have hy' : overwrite (f z) y = y := by
        unfold overwrite
        refine if_neg fun he => hzx ?_
        rw [hyk, hf] at he
        exact he
      rw [hy', ih _ hy]
      simp [hzx]

/-- `xs` are rows of the table, one or more for each key of `ks` and for no other
key: the objects of these rows in a session. -/
structure Objects (t : Table ρ) (ks : List κ) (xs : List ρ) : Prop where
  mem : ∀ x ∈ xs, x ∈ t.rows
  keys : ∀ k, k ∈ xs.map key ↔ k ∈ ks

theorem objects_lookup {t : Table ρ} {ks ks' : List κ} (h : ∀ k ∈ ks, (t.get? k).isSome)
    (hks : ∀ k, k ∈ ks' ↔ k ∈ ks) : t.Objects ks (t.lookup ks') where
  mem _ hx := (mem_lookup.mp hx).1
  keys k := by
    rw [List.mem_map]
    constructor
    · rintro ⟨x, hx, rfl⟩
      exact (hks _).mp (mem_lookup.mp hx).2
    · intro hk
      obtain ⟨x, hx⟩ := Option.isSome_iff_exists.mp (h k hk)
      have hkx : key x = k := key_of_get? hx
      exact ⟨x, mem_lookup.mpr ⟨mem_of_get? hx, by rw [hkx]; exact (hks k).mpr hk⟩, hkx⟩

theorem Objects.putAll {t : Table ρ} {ks : List κ} {xs : List ρ} (h : t.Objects ks xs) (f : ρ → ρ)
    (hf : ∀ r, key (f r) = key r) : t.putAll (xs.map f) = t.updateAt ks f hf := by
  rw [putAll_map h.mem f hf]
  exact updateAt_congr h.keys

theorem Objects.exists {t : Table ρ} {ks : List κ} {xs : List ρ} (h : t.Objects ks xs) {k : κ}
    (hk : k ∈ ks) : ∃ x ∈ xs, key x = k ∧ t.get? k = some x := by
  obtain ⟨x, hx, rfl⟩ := List.mem_map.mp ((h.keys k).mpr hk)
  exact ⟨x, hx, rfl, get?_of_mem (h.mem x hx)⟩

theorem putAll_append (t : Table ρ) (l l' : List ρ) :
    t.putAll (l ++ l') = (t.putAll l).putAll l' :=
  List.foldl_append

/-- A table is its keys in order and its lookups. -/
theorem ext_get? {t t' : Table ρ} (hkeys : t.rows.map key = t'.rows.map key)
    (h : ∀ k, t.get? k = t'.get? k) : t = t' := by
  apply Table.ext
  refine List.ext_getElem? fun i => ?_
  have hi : (t.rows.map key)[i]? = (t'.rows.map key)[i]? := by rw [hkeys]
  rw [List.getElem?_map, List.getElem?_map] at hi
  rcases hr : t.rows[i]? with _ | r
  · rcases hr' : t'.rows[i]? with _ | r'
    · rfl
    · simp [hr, hr'] at hi
  · rcases hr' : t'.rows[i]? with _ | r'
    · simp [hr, hr'] at hi
    · have hk : key r = key r' := by simpa [hr, hr'] using hi
      have hg := get?_of_mem (List.mem_of_getElem? hr)
      rw [h, hk, get?_of_mem (List.mem_of_getElem? hr')] at hg
      exact hg.symm

/-! ## Totals -/

section Total

variable {A : Type w}

/-- `SUM(g)` over the rows. -/
def total [AddMonoid A] (t : Table ρ) (g : ρ → A) : A := (t.rows.map g).sum

omit [DecidableEq κ] in
@[simp] theorem total_empty [AddMonoid A] (g : ρ → A) : (empty : Table ρ).total g = 0 := rfl

theorem total_insert [AddMonoid A] {t : Table ρ} {r : ρ} (h : t.get? (key r) = none) (g : ρ → A) :
    (t.insert r).total g = t.total g + g r := by
  unfold total
  rw [insert_of_none h]
  simp

variable [AddCommGroup A]

private theorem sum_map_overwrite_of_ne (g : ρ → A) {r : ρ} :
    ∀ {l : List ρ}, (∀ x ∈ l, key x ≠ key r) →
      ((l.map (overwrite r)).map g).sum = (l.map g).sum := by
  intro l
  induction l with
  | nil => intro _; rfl
  | cons x l ih =>
    intro h
    have hx : overwrite r x = x := if_neg (h x List.mem_cons_self)
    simp only [List.map_cons, List.sum_cons, hx]
    rw [ih fun y hy => h y (List.mem_cons_of_mem _ hy)]

/-- The delta rule of an update by primary key. -/
theorem total_put {t : Table ρ} {r r₀ : ρ} (h : t.get? (key r) = some r₀) (g : ρ → A) :
    (t.put r).total g = t.total g + (g r - g r₀) := by
  have hk : key r₀ = key r := key_of_get? h
  have hmem : r₀ ∈ t.rows := mem_of_get? h
  have hnd := t.nodup
  unfold total
  rw [rows_put]
  revert hmem hnd
  generalize t.rows = l
  induction l with
  | nil => intro hmem; cases hmem
  | cons x l ih =>
    intro hmem hnd
    obtain ⟨hx, hnd⟩ := List.nodup_cons.mp hnd
    rcases List.mem_cons.mp hmem with rfl | hmem
    · -- the written row is here, and nowhere else
      have hne : ∀ y ∈ l, key y ≠ key r := by
        intro y hy he
        exact hx (by rw [hk, ← he]; exact List.mem_map_of_mem hy)
      have hx' : overwrite r r₀ = r := if_pos hk
      simp only [List.map_cons, List.sum_cons, hx']
      rw [sum_map_overwrite_of_ne g hne]
      abel
    · have hne : key x ≠ key r := by
        intro he
        exact hx (by rw [he, ← hk]; exact List.mem_map_of_mem hmem)
      have hx' : overwrite r x = x := if_neg hne
      simp only [List.map_cons, List.sum_cons, hx']
      rw [ih hmem hnd]
      abel

end Total

end Table

end Relational
