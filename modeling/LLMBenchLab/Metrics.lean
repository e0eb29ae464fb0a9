import Mathlib.Data.List.Dedup
import LLMBenchLab.Progress
import LLMBenchLab.System

/-!
# The three metric implementations agree

`aggregate_run_evidence`, `load_progress_index` and the report all end in the
totals of the Responses of the Run: blocks and groups are groupings of the same
list, and the totals of a grouping add up to the totals (`Grouping.sum_groups`,
`Grouping.sum_upsert`).
-/

namespace LLMBenchLab

open Relational Grouping

/-- The Responses of a Run, one a question (`uq_responses_run_question`), all for
questions of its benchmark at positions of the frozen plan. -/
structure OnPlan (c : Catalog) (run : Run) (rs : List Response) : Prop where
  distinct : (rs.map Response.questionId).Nodup
  placed : ∀ x ∈ rs, ∃ q, c.questionOf x = some q ∧ q.benchmarkId = run.benchmarkId ∧
    q.position < run.totalQuestions

variable {c : Catalog} {run : Run} {rs : List Response}

/-! ## Positions and blocks -/

/-- The position of the question of a Response. -/
def Catalog.positionOf (c : Catalog) (x : Response) : ℕ := ((c.questionOf x).map Question.position).getD 0

/-- The block of a Response. -/
def Catalog.blockOf (c : Catalog) (x : Response) : ℕ := c.positionOf x / progressBlockSize

/-- The Responses of a block. -/
def Catalog.inBlock (c : Catalog) (rs : List Response) (i : ℕ) : List Response :=
  rs.filter fun x => c.blockOf x = i

theorem positionOf_eq {x : Response} {q : Question} (h : c.questionOf x = some q) :
    c.positionOf x = q.position := by
  rw [Catalog.positionOf, h]
  rfl

theorem OnPlan.position_lt (h : OnPlan c run rs) {x : Response} (hx : x ∈ rs) :
    c.positionOf x < run.totalQuestions := by
  obtain ⟨q, hq, -, hlt⟩ := h.placed x hx
  rw [positionOf_eq hq]
  exact hlt

/-- No two Responses are at the same position. -/
theorem OnPlan.nodup_positions (h : OnPlan c run rs) : (rs.map c.positionOf).Nodup := by
  refine List.Nodup.map_on (fun x hx y hy he => ?_) (List.Nodup.of_map _ h.distinct)
  obtain ⟨q, hq, hqb, -⟩ := h.placed x hx
  obtain ⟨q', hq', hqb', -⟩ := h.placed y hy
  rw [positionOf_eq hq, positionOf_eq hq'] at he
  have hsame : q = q' := c.positions q (Table.mem_of_get? hq) q' (Table.mem_of_get? hq')
    (hqb.trans hqb'.symm) he
  have hx' : q.id = x.questionId := Table.key_of_get? hq
  have hy' : q'.id = y.questionId := Table.key_of_get? hq'
  exact List.inj_on_of_nodup_map h.distinct hx hy (by rw [← hx', ← hy', hsame])

theorem blockOf_eq_iff {x : Response} {i : ℕ} :
    c.blockOf x = i ↔ blockStart i ≤ c.positionOf x ∧
      c.positionOf x < blockStart i + progressBlockSize := by
  simp only [Catalog.blockOf, blockStart, progressBlockSize]
  omega

/-- A block has at most as many Responses as positions. -/
theorem OnPlan.inBlock_le (h : OnPlan c run rs) (i : ℕ) :
    (c.inBlock rs i).length ≤ blockEnd run.totalQuestions i - blockStart i := by
  have hnd : ((c.inBlock rs i).map c.positionOf).Nodup :=
    h.nodup_positions.sublist (List.filter_sublist.map _)
  have hsub : (c.inBlock rs i).map c.positionOf ⊆
      List.range' (blockStart i) (blockEnd run.totalQuestions i - blockStart i) := by
    intro p hp
    obtain ⟨x, hx, rfl⟩ := List.mem_map.mp hp
    obtain ⟨hmem, hi⟩ := List.mem_filter.mp hx
    obtain ⟨hlo, hhi⟩ := blockOf_eq_iff.mp (of_decide_eq_true hi)
    have hend : c.positionOf x < blockEnd run.totalQuestions i := lt_min hhi (h.position_lt hmem)
    exact List.mem_range'_1.mpr ⟨hlo, by omega⟩
  have hle := (List.subperm_of_subset hnd hsub).length_le
  rwa [List.length_map, List.length_range'] at hle

theorem OnPlan.length_le (h : OnPlan c run rs) : rs.length ≤ run.totalQuestions := by
  have hsub : rs.map c.positionOf ⊆ List.range run.totalQuestions := by
    intro p hp
    obtain ⟨x, hx, rfl⟩ := List.mem_map.mp hp
    exact List.mem_range.mpr (h.position_lt hx)
  have hle := (List.subperm_of_subset h.nodup_positions hsub).length_le
  rwa [List.length_map, List.length_range] at hle

theorem OnPlan.blockOf_lt (h : OnPlan c run rs) {x : Response} (hx : x ∈ rs) :
    c.blockOf x < progressBlockCount run.totalQuestions := by
  have hlt := h.position_lt hx
  simp only [Catalog.blockOf, progressBlockCount, progressBlockSize]
  omega

/-! ## The index -/

/-- The key of the group of a Response on the plan. -/
def planKey (run : Run) (i : ℕ) : BlockKey := ⟨some run.benchmarkId, some i⟩

theorem planKey_inj {i j : ℕ} : planKey run i = planKey run j ↔ i = j := by
  simp [planKey]

theorem OnPlan.blockKey_eq (h : OnPlan c run rs) {x : Response} (hx : x ∈ rs) :
    c.blockKey (some x) = planKey run (c.blockOf x) := by
  obtain ⟨q, hq, hb, -⟩ := h.placed x hx
  simp only [Catalog.blockKey, planKey, Catalog.blockOf, positionOf_eq hq, hq, Option.map_some, hb]

/-- The group of a block is its Responses. -/
theorem OnPlan.group_eq (h : OnPlan c run rs) (i : ℕ) :
    ((rs.map some).filter fun x => c.blockKey x = planKey run i).filterMap id = c.inBlock rs i := by
  rw [List.filter_map, List.filterMap_map, Catalog.inBlock]
  show ((rs.filter _).filterMap some) = _
  rw [List.filterMap_some]
  refine List.filter_congr fun x hx => ?_
  simp only [Function.comp, h.blockKey_eq hx, planKey_inj]

theorem OnPlan.blockRow_eq (h : OnPlan c run rs) {i : ℕ} (hne : c.inBlock rs i ≠ []) :
    ∃ lo hi, c.blockRow (rs.map some) (planKey run i) =
        ⟨planKey run i, some lo, some hi, selectTotals (c.inBlock rs i)⟩ ∧
      blockStart i ≤ lo ∧ hi < blockEnd run.totalQuestions i := by
  have hpos : ((c.inBlock rs i).filterMap c.questionOf).map Question.position =
      (c.inBlock rs i).map c.positionOf := by
    have hmem : ∀ x ∈ c.inBlock rs i, x ∈ rs := fun x hx => List.mem_of_mem_filter hx
    generalize c.inBlock rs i = xs at hmem
    induction xs with
    | nil => rfl
    | cons x xs ih =>
      obtain ⟨q, hq, -⟩ := h.placed x (hmem x List.mem_cons_self)
      rw [List.filterMap_cons_some hq, List.map_cons, List.map_cons, positionOf_eq hq,
        ih fun y hy => hmem y (List.mem_cons_of_mem _ hy)]
  -- every position of the group is within the block
  have hin : ∀ p ∈ (c.inBlock rs i).map c.positionOf,
      blockStart i ≤ p ∧ p < blockEnd run.totalQuestions i := by
    intro p hp
    obtain ⟨x, hx, rfl⟩ := List.mem_map.mp hp
    obtain ⟨hmem, hi⟩ := List.mem_filter.mp hx
    obtain ⟨hlo, hhi⟩ := blockOf_eq_iff.mp (of_decide_eq_true hi)
    exact ⟨hlo, lt_min hhi (h.position_lt hmem)⟩
  have hne' : (c.inBlock rs i).map c.positionOf ≠ [] := fun he => hne (List.map_eq_nil_iff.mp he)
  obtain ⟨lo, hlo⟩ := Option.isSome_iff_exists.mp (List.isSome_min?_of_ne_nil hne')
  obtain ⟨hi, hhi⟩ := Option.isSome_iff_exists.mp (List.isSome_max?_of_ne_nil hne')
  refine ⟨lo, hi, ?_, (hin lo (List.min?_mem hlo)).1, (hin hi (List.max?_mem hhi)).2⟩
  simp only [Catalog.blockRow, h.group_eq, hpos, hlo, hhi]

/-- `block_counts` once the blocks of `done` have been counted. -/
def countsAfter (c : Catalog) (run : Run) (rs : List Response) (done : List ℕ) : List ℕ :=
  (List.range (progressBlockCount run.totalQuestions)).map fun i =>
    if i ∈ done then (c.inBlock rs i).length else 0

/-- Counting one more block. -/
theorem modify_countsAfter {done : List ℕ} {i : ℕ} (hi : i ∉ done) :
    (countsAfter c run rs done).modify i (· + (c.inBlock rs i).length) =
      countsAfter c run rs (done ++ [i]) := by
  refine List.ext_getElem? fun j => ?_
  rw [List.getElem?_modify]
  simp only [countsAfter, List.getElem?_map]
  by_cases hj : j < progressBlockCount run.totalQuestions
  · rw [List.getElem?_range hj]
    by_cases hij : i = j
    · subst hij
      simp [hi]
    · have hji : j ≠ i := fun he => hij he.symm
      simp [hij, hji]
  · simp [hj]

/-- The loop over the blocks `is` that have Responses. -/
theorem OnPlan.index_loop (h : OnPlan c run rs) :
    ∀ (is done : List ℕ) (t : Totals), (done ++ is).Nodup → (∀ i ∈ is, c.inBlock rs i ≠ []) →
      (∀ i ∈ is, i < progressBlockCount run.totalQuestions) →
      ((is.map (planKey run)).map (c.blockRow (rs.map some))).foldlM (indexRow run)
          ⟨countsAfter c run rs done, t⟩ =
        .ok ⟨countsAfter c run rs (done ++ is),
          t + (is.map fun i => selectTotals (c.inBlock rs i)).sum⟩ := by
  intro is
  induction is with
  | nil =>
    intro done t _ _ _
    have hzero : t + ([].map fun i => selectTotals (c.inBlock rs i)).sum = t := add_zero t
    rw [List.append_nil, hzero]
    rfl
  | cons i is ih =>
    intro done t hnd hne hlt
    have hi : i ∉ done := fun hmem =>
      (List.disjoint_of_nodup_append hnd) hmem List.mem_cons_self
    obtain ⟨lo, hi', hrow, hlo, hhi⟩ := h.blockRow_eq (hne i List.mem_cons_self)
    have hlen : (countsAfter c run rs done).length = progressBlockCount run.totalQuestions := by
      simp [countsAfter]
    have hin := hlt i List.mem_cons_self
    have hcount : (countsAfter c run rs (done ++ [i])).getD i 0 = (c.inBlock rs i).length := by
      simp [countsAfter, List.getD_eq_getElem?_getD, hin]
    have hpos : (selectTotals (c.inBlock rs i)).responseCount ≠ 0 := fun he =>
      hne i List.mem_cons_self (List.length_eq_zero_iff.mp he)
    have hstep : indexRow run ⟨countsAfter c run rs done, t⟩
        (c.blockRow (rs.map some) (planKey run i)) =
        .ok ⟨countsAfter c run rs (done ++ [i]), t + selectTotals (c.inBlock rs i)⟩ := by
      rw [hrow, indexRow]
      simp only [planKey, if_neg hpos]
      rw [if_neg, show (selectTotals (c.inBlock rs i)).responseCount = (c.inBlock rs i).length from rfl,
        modify_countsAfter hi, if_neg]
      · rw [hcount]
        exact not_lt.mpr (h.inBlock_le i)
      · rw [hlen]
        simp only [ne_eq, not_true_eq_false, false_or, not_or, not_le, not_lt]
        exact ⟨hin, hlo, hhi⟩
    rw [List.map_cons, List.map_cons, List.foldlM_cons, hstep]
    have hrest := ih (done ++ [i]) (t + selectTotals (c.inBlock rs i)) (by simpa using hnd)
      (fun j hj => hne j (List.mem_cons_of_mem _ hj)) fun j hj => hlt j (List.mem_cons_of_mem _ hj)
    rw [List.append_assoc, List.singleton_append, add_assoc] at hrest
    rw [List.map_cons, List.sum_cons]
    exact hrest

/-- The blocks that `load_progress_index` goes over. -/
theorem OnPlan.blockRows_eq (h : OnPlan c run rs) (hne : rs ≠ []) :
    ∃ is : List ℕ, c.blockRows rs = (is.map (planKey run)).map (c.blockRow (rs.map some)) ∧
      is.Nodup ∧ (∀ i ∈ is, c.inBlock rs i ≠ []) ∧ ∀ x ∈ rs, c.blockOf x ∈ is := by
  have hrows : Catalog.runResponses rs = rs.map some := if_neg (by simpa using hne)
  rw [Catalog.blockRows, hrows]
  generalize hks : (((rs.map some).map c.blockKey).dedup.insertionSort
    fun a b => Catalog.keyBefore a b) = ks
  have hperm : ks.Perm ((rs.map some).map c.blockKey).dedup := by
    rw [← hks]
    exact List.perm_insertionSort _ _
  have hmem : ∀ k, k ∈ ks ↔ ∃ x ∈ rs, planKey run (c.blockOf x) = k := by
    intro k
    rw [hperm.mem_iff, List.mem_dedup, List.map_map, List.mem_map]
    constructor
    · rintro ⟨x, hx, rfl⟩
      exact ⟨x, hx, (h.blockKey_eq hx).symm⟩
    · rintro ⟨x, hx, rfl⟩
      exact ⟨x, hx, h.blockKey_eq hx⟩
  have hkeys : (ks.map fun k => k.blockIndex.getD 0).map (planKey run) = ks := by
    rw [List.map_map]
    conv_rhs => rw [← List.map_id ks]
    refine List.map_congr_left fun k hk => ?_
    obtain ⟨x, -, rfl⟩ := (hmem k).mp hk
    rfl
  refine ⟨ks.map fun k => k.blockIndex.getD 0, by rw [hkeys], ?_, fun i hi => ?_, fun x hx => ?_⟩
  · refine List.Nodup.of_map (planKey run) ?_
    rw [hkeys]
    exact hperm.nodup_iff.mpr (List.nodup_dedup _)
  · obtain ⟨k, hk, rfl⟩ := List.mem_map.mp hi
    obtain ⟨x, hx, rfl⟩ := (hmem k).mp hk
    have hin : x ∈ c.inBlock rs (c.blockOf x) := List.mem_filter.mpr ⟨hx, by simp⟩
    exact List.ne_nil_of_mem hin
  · exact List.mem_map.mpr ⟨planKey run (c.blockOf x), (hmem _).mpr ⟨x, hx, rfl⟩, rfl⟩

/-- `load_progress_index` finds the totals of the Responses, block by block. -/
theorem OnPlan.loadProgressIndex_eq (h : OnPlan c run rs) :
    loadProgressIndex c run rs = .ok
      ⟨canonicalRunEvidence run.totalQuestions (selectEvidence rs), selectTotals rs,
        (List.range (progressBlockCount run.totalQuestions)).map fun i =>
          (c.inBlock rs i).length⟩ := by
  have hloop : (c.blockRows rs).foldlM (indexRow run)
      ⟨List.replicate (progressBlockCount run.totalQuestions) 0, 0⟩ =
      .ok ⟨(List.range (progressBlockCount run.totalQuestions)).map fun i =>
        (c.inBlock rs i).length, selectTotals rs⟩ := by
    have hzero : List.replicate (progressBlockCount run.totalQuestions) 0 =
        countsAfter c run rs [] := by
      simp [countsAfter, List.map_const']
    by_cases hne : rs = []
    · -- the Run without a Response is one row that counts nothing
      subst hne
      rw [hzero]
      have hcounts : (List.range (progressBlockCount run.totalQuestions)).map
          (fun i => (c.inBlock [] i).length) = countsAfter c run [] [] := by
        simp [countsAfter, Catalog.inBlock]
      rw [hcounts]
      rfl
    · obtain ⟨is, hrows, hnd, hin, hall⟩ := h.blockRows_eq hne
      have hlt : ∀ i ∈ is, i < progressBlockCount run.totalQuestions := by
        intro i hi
        obtain ⟨x, hx⟩ := List.exists_mem_of_ne_nil _ (hin i hi)
        obtain ⟨hmem, hxi⟩ := List.mem_filter.mp hx
        rw [← of_decide_eq_true hxi]
        exact h.blockOf_lt hmem
      rw [hrows, hzero, h.index_loop is [] 0 (by simpa using hnd) hin hlt]
      congr 2
      · rw [List.nil_append]
        refine List.map_congr_left fun i _ => ?_
        split
        · rfl
        · next hi =>
          -- a block that was not visited has no Response
          have hnil : c.inBlock rs i = [] := by
            rw [List.eq_nil_iff_forall_not_mem]
            intro x hx
            obtain ⟨hmem, hxi⟩ := List.mem_filter.mp hx
            exact hi (by rw [← of_decide_eq_true hxi]; exact hall x hmem)
          rw [hnil]
          rfl
      · rw [zero_add, selectTotals_eq, ← sum_groups hnd c.blockOf Totals.ofResponse hall]
        refine congrArg List.sum (List.map_congr_left fun i _ => ?_)
        exact selectTotals_eq _
  have hle : ¬ run.totalQuestions < (selectTotals rs).responseCount := not_lt.mpr h.length_le
  rw [loadProgressIndex, hloop, selectEvidence_eq]
  show (if _ then _ else _) = _
  rw [if_neg hle]

/-! ## The blocks -/

/-- The joined rows are the Responses with their questions. -/
theorem OnPlan.joined_eq (h : OnPlan c run rs) (P : Question → Bool) :
    ((rs.filterMap fun x => (c.questionOf x).map fun q => (x, q)).filter fun p => P p.2).map
        Prod.fst = rs.filter fun x => (c.questionOf x).any P := by
  have hmem : ∀ x ∈ rs, ∃ q, c.questionOf x = some q := fun x hx => by
    obtain ⟨q, hq, -⟩ := h.placed x hx
    exact ⟨q, hq⟩
  clear h
  induction rs with
  | nil => rfl
  | cons x xs ih =>
    obtain ⟨q, hq⟩ := hmem x List.mem_cons_self
    have ih := ih fun y hy => hmem y (List.mem_cons_of_mem _ hy)
    rw [List.filterMap_cons_some (b := (x, q)) (by rw [hq]; rfl)]
    by_cases hP : P q = true
    · have hx : (c.questionOf x).any P = true := by rw [hq]; exact hP
      rw [List.filter_cons_of_pos (a := (x, q)) hP, List.map_cons, ih,
        List.filter_cons_of_pos (a := x) hx]
    · have hx : ¬ (c.questionOf x).any P = true := by rw [hq]; exact hP
      rw [List.filter_cons_of_neg (a := (x, q)) hP, ih,
        List.filter_cons_of_neg (a := x) hx]

/-- The rows of a block are its Responses. -/
theorem OnPlan.blockRows_perm (h : OnPlan c run rs) (i : ℕ) :
    ((progressBlockRows c run rs i).map Prod.fst).Perm (c.inBlock rs i) := by
  refine ((List.perm_insertionSort _ _).map Prod.fst).trans ?_
  rw [h.joined_eq fun q => decide (q.benchmarkId = run.benchmarkId) &&
    decide (blockStart i ≤ q.position) && decide (q.position < blockEnd run.totalQuestions i)]
  refine List.Perm.of_eq (List.filter_congr fun x hx => ?_)
  obtain ⟨q, hq, hb, hlt⟩ := h.placed x hx
  have hblock := blockOf_eq_iff (c := c) (x := x) (i := i)
  rw [positionOf_eq hq] at hblock
  rw [Bool.eq_iff_iff]
  simp only [hq, Option.any_some, hb, decide_true, Bool.true_and, Bool.and_eq_true,
    decide_eq_true_eq, hblock, blockEnd, lt_min_iff]
  tauto

/-! ## The report -/

theorem planned_eq (groups : Groups) (k : String) :
    upsert k 0 (fun g : GroupAggregate => { g with plannedQuestions := g.plannedQuestions + 1 })
      groups = upsert k 0 (· + ⟨1, 0⟩) groups := by
  congr 1
  funext g
  rw [GroupAggregate.add_def, add_zero]

theorem add_ite_one (b : Bool) (n : ℕ) :
    (n + if b = true then 1 else 0) = if b = true then n + 1 else n := by
  cases b <;> rfl

theorem add_getD {A : Type} [AddMonoid A] (a : A) (x : Option A) :
    a + x.getD 0 = x.elim a (a + ·) := by
  cases x with
  | none => exact add_zero a
  | some y => rfl

theorem accumulateResponse_eq (g : GroupAggregate) (x : Response) :
    accumulateResponse g x = g + ⟨0, Totals.ofResponse x⟩ := by
  simp only [GroupAggregate.add_def, add_zero, Totals.add_def, accumulateResponse,
    Totals.ofResponse, add_ite_one, add_getD]
  rfl

/-- The planned groups hold every question, each in the group of its own. -/
theorem plannedGroups_spec (group : Question → String) :
    ∀ (qs : List Question) (groups : Groups),
      ((qs.foldl (fun groups q => upsert (group q) 0 (fun g : GroupAggregate =>
          { g with plannedQuestions := g.plannedQuestions + 1 }) groups) groups).map Prod.snd).sum =
        (groups.map Prod.snd).sum + ⟨qs.length, 0⟩ ∧
      ∀ k, k ∈ (qs.foldl (fun groups q => upsert (group q) 0 (fun g : GroupAggregate =>
          { g with plannedQuestions := g.plannedQuestions + 1 }) groups) groups).map Prod.fst ↔
        k ∈ groups.map Prod.fst ∨ ∃ q ∈ qs, group q = k := by
  intro qs
  induction qs with
  | nil =>
    intro groups
    exact ⟨(add_zero _).symm, fun k => by simp⟩
  | cons q qs ih =>
    intro groups
    rw [List.foldl_cons, planned_eq]
    obtain ⟨hsum, hkeys⟩ := ih (upsert (group q) 0 (· + ⟨1, 0⟩) groups)
    refine ⟨?_, fun k => ?_⟩
    · rw [hsum, sum_upsert, add_assoc]
      simp only [GroupAggregate.add_def, add_zero, List.length_cons, Nat.add_comm]
    · rw [hkeys, mem_keys_upsert]
      simp only [List.mem_cons, exists_eq_or_imp]
      constructor
      · rintro ((rfl | hk) | hk)
        · exact Or.inr (Or.inl rfl)
        · exact Or.inl hk
        · exact Or.inr (Or.inr hk)
      · rintro (hk | rfl | hk)
        · exact Or.inl (Or.inr hk)
        · exact Or.inl (Or.inl rfl)
        · exact Or.inr hk

theorem loadPlannedGroups_spec (c : Catalog) (b : BenchmarkId) {pageSize : ℕ} (hsize : 0 < pageSize)
    (group : Question → String) :
    ((loadPlannedGroups c b pageSize group).map Prod.snd).sum = ⟨(c.plan b).length, 0⟩ ∧
      ∀ q ∈ c.plan b, group q ∈ (loadPlannedGroups c b pageSize group).map Prod.fst := by
  obtain ⟨hsum, hkeys⟩ := plannedGroups_spec group (c.plan b) []
  simp only [loadPlannedGroups]
  rw [foldl_pages hsize]
  split
  · next hnil =>
    -- no question, one empty group
    have hplan : c.plan b = [] := by
      rw [List.eq_nil_iff_forall_not_mem]
      intro q hq
      have hk := (hkeys (group q)).mpr (Or.inr ⟨q, hq, rfl⟩)
      rw [List.isEmpty_iff.mp hnil] at hk
      exact absurd hk List.not_mem_nil
    rw [hplan]
    exact ⟨add_zero (0 : GroupAggregate), fun q hq => absurd hq List.not_mem_nil⟩
  · refine ⟨by rw [hsum]; exact zero_add _, fun q hq => (hkeys _).mpr (Or.inr ⟨q, hq, rfl⟩)⟩

/-- The loop over the Responses, whose groups are all planned. -/
theorem writeResponses_spec (group : Question → String) :
    ∀ (rows : List (Response × Question)) (groups : Groups) (n : ℕ),
      (∀ p ∈ rows, p.2.benchmarkId = run.benchmarkId ∧ group p.2 ∈ groups.map Prod.fst) →
      ∃ groups', rows.foldlM (writeResponse run group) (groups, n) =
          .ok (groups', n + rows.length) ∧
        (groups'.map Prod.snd).sum = (groups.map Prod.snd).sum +
          ⟨0, (rows.map fun p => Totals.ofResponse p.1).sum⟩ := by
  intro rows
  induction rows with
  | nil => exact fun groups n _ => ⟨groups, rfl, (add_zero _).symm⟩
  | cons p rows ih =>
    intro groups n hrows
    obtain ⟨hb, hg⟩ := hrows p List.mem_cons_self
    obtain ⟨groups₁, hup, hkeys⟩ := update?_of_mem (f := (· + ⟨0, Totals.ofResponse p.1⟩)) hg
    obtain ⟨groups', hloop, hsum⟩ := ih groups₁ (n + 1) fun q hq => by
      rw [hkeys]
      exact hrows q (List.mem_cons_of_mem _ hq)
    have hstep : writeResponse run group (groups, n) p = .ok (groups₁, n + 1) := by
      simp only [writeResponse, accumulateResponse_eq, hup]
      rw [if_neg (by simpa using hb)]
    refine ⟨groups', ?_, ?_⟩
    · rw [List.foldlM_cons, hstep]
      refine Eq.trans hloop ?_
      rw [List.length_cons, Nat.add_assoc, Nat.add_comm 1]
    · rw [hsum, sum_update? hup, add_assoc]
      simp only [GroupAggregate.add_def, Nat.add_zero, List.map_cons, List.sum_cons]

/-- `as_metrics` is `canonical_run_evidence`. -/
theorem asMetrics_eq (planned : ℕ) (t : Totals) :
    GroupAggregate.asMetrics ⟨planned, t⟩ =
      ⟨planned, canonicalRunEvidence planned t.aggregate⟩ := rfl

theorem evidenceMetrics_eq (groups : Groups) :
    evidenceMetrics groups = (groups.map Prod.snd).sum.asMetrics := by
  rw [evidenceMetrics, ← List.sum_eq_foldl]

theorem sum_plannedQuestions (groups : Groups) :
    (groups.map Prod.snd).sum.plannedQuestions =
      (groups.map fun g => g.2.plannedQuestions).sum := by
  induction groups with
  | nil => rfl
  | cons g groups ih =>
    simp only [List.map_cons, List.sum_cons, GroupAggregate.add_def, ih]

/-- The report refuses a Run whose plan is not its benchmark, and finds the
totals of the Responses otherwise. -/
theorem OnPlan.reportMetrics_eq (h : OnPlan c run rs) {pageSize : ℕ} (hsize : 0 < pageSize)
    (group : Question → String) :
    reportMetrics c run rs pageSize group =
      if (c.plan run.benchmarkId).length = run.totalQuestions then
        .ok ⟨run.totalQuestions, canonicalRunEvidence run.totalQuestions (selectEvidence rs)⟩
      else .error .questionCountMismatch := by
  obtain ⟨hsum, hkeys⟩ := loadPlannedGroups_spec c run.benchmarkId hsize group
  have hplanned : ((loadPlannedGroups c run.benchmarkId pageSize group).map
      fun g => g.2.plannedQuestions).sum = (c.plan run.benchmarkId).length := by
    rw [← sum_plannedQuestions, hsum]
  rw [reportMetrics, hplanned]
  by_cases hcount : (c.plan run.benchmarkId).length = run.totalQuestions
  · rw [if_pos hcount]
    -- the rows of the export are the Responses, in another order
    have hrows : ∀ p ∈ reportRows c rs, p.2.benchmarkId = run.benchmarkId ∧
        group p.2 ∈ (loadPlannedGroups c run.benchmarkId pageSize group).map Prod.fst := by
      intro p hp
      obtain ⟨x, hx, hxp⟩ := List.mem_filterMap.mp ((List.perm_insertionSort _ _).mem_iff.mp hp)
      obtain ⟨q, hq, rfl⟩ := Option.map_eq_some_iff.mp hxp
      obtain ⟨q', hq', hb, -⟩ := h.placed x hx
      obtain rfl : q' = q := Option.some.inj (hq'.symm.trans hq)
      refine ⟨hb, hkeys q' ((List.perm_insertionSort _ _).mem_iff.mpr ?_)⟩
      exact List.mem_filter.mpr ⟨Table.mem_of_get? hq, by simpa using hb⟩
    have hperm : ((reportRows c rs).map Prod.fst).Perm rs := by
      refine ((List.perm_insertionSort _ _).map Prod.fst).trans (List.Perm.of_eq ?_)
      have hjoin := h.joined_eq fun _ => true
      rw [List.filter_true] at hjoin
      rw [hjoin, List.filter_eq_self]
      intro x hx
      obtain ⟨q, hq, -⟩ := h.placed x hx
      rw [hq]
      rfl
    obtain ⟨groups', hloop, htotal⟩ := writeResponses_spec group (reportRows c rs)
      (loadPlannedGroups c run.benchmarkId pageSize group) 0 hrows
    have htotals : ((reportRows c rs).map fun p => Totals.ofResponse p.1).sum = selectTotals rs := by
      rw [selectTotals_eq, ← (hperm.map Totals.ofResponse).sum_eq, List.map_map]
      rfl
    have hlength : (reportRows c rs).length = rs.length := by
      rw [← hperm.length_eq, List.length_map]
    rw [hsum, htotals, GroupAggregate.add_def, zero_add, Nat.add_zero, hcount] at htotal
    rw [if_neg (not_not.mpr hcount)]
    rw [hlength, Nat.zero_add] at hloop
    have hmetrics : evidenceMetrics groups' =
        ⟨run.totalQuestions, canonicalRunEvidence run.totalQuestions (selectEvidence rs)⟩ := by
      rw [evidenceMetrics_eq, htotal, asMetrics_eq, selectEvidence_eq]
    have hwrite : writeResponses c run rs pageSize group
        (loadPlannedGroups c run.benchmarkId pageSize group) = .ok (groups', rs.length) := by
      rw [writeResponses, foldlM_pages hsize]
      exact hloop
    have hfit : ¬ run.totalQuestions < rs.length := not_lt.mpr h.length_le
    have hsame : ¬ (evidenceMetrics groups').evidence.completedQuestions ≠ rs.length := by
      rw [hmetrics]
      exact not_not.mpr rfl
    rw [hwrite]
    simp only [Except.bind, bind]
    rw [if_neg hsame, if_neg hfit, hmetrics]
  · rw [if_neg hcount, if_pos hcount]
    rfl

/-! ## Agreement -/

/-- The metrics columns of the Run are `m`. -/
structure Run.Shows (run : Run) (m : CanonicalRunEvidence) : Prop where
  completedQuestions : run.completedQuestions = m.completedQuestions
  correctQuestions : run.correctQuestions = m.correctQuestions
  errorQuestions : run.errorQuestions = m.errorQuestions
  score : run.score = some m.score
  completionRate : run.completionRate = some m.completionRate
  answeredAccuracy : run.answeredAccuracy = m.answeredAccuracy
  averageLatencyMs : run.averageLatencyMs = m.averageLatencyMs
  inputTokens : run.inputTokens = m.inputTokens
  outputTokens : run.outputTokens = m.outputTokens
  estimatedCost : run.estimatedCost = m.estimatedCost

/-- **The three metric implementations agree.** For a Run whose Responses are on
its plan, `load_progress_index` ends with the metrics that
`aggregate_run_evidence` writes, and so does the report under any grouping and
page size, when it does not refuse the Run because its benchmark has not as many
questions as the Run has planned. Each progress block has as many items as the
index counts for it, and the blocks together are the Responses, each of them
once. -/
theorem metric_implementations_agree (c : Catalog) (run : Run) (rs : List Response)
    (h : OnPlan c run rs) (pageSize : ℕ) (hsize : 1 ≤ pageSize) (group : Question → String) :
    ∃ p, loadProgressIndex c run rs = .ok p ∧ (aggregateRunEvidence rs run).Shows p.metrics ∧
      reportMetrics c run rs pageSize group =
        (if (c.plan run.benchmarkId).length = run.totalQuestions then
          .ok ⟨run.totalQuestions, p.metrics⟩
        else .error .questionCountMismatch) ∧
      p.blockResponseCounts.length = progressBlockCount run.totalQuestions ∧
      (∀ i < progressBlockCount run.totalQuestions,
        p.blockResponseCounts[i]? = some (loadProgressBlock c run rs i).length) ∧
      ((List.range (progressBlockCount run.totalQuestions)).flatMap fun i =>
        (progressBlockRows c run rs i).map Prod.fst).Perm rs := by
  refine ⟨_, h.loadProgressIndex_eq, ⟨rfl, rfl, rfl, rfl, rfl, rfl, rfl, rfl, rfl, rfl⟩,
    h.reportMetrics_eq hsize group, by simp, fun i hi => ?_, ?_⟩
  · have hlen := (h.blockRows_perm i).length_eq
    rw [List.length_map] at hlen
    rw [List.getElem?_map, List.getElem?_range hi, loadProgressBlock, List.length_map, hlen]
    rfl
  · refine (List.Perm.flatMap_left _ fun i _ => h.blockRows_perm i).trans ?_
    exact perm_groups List.nodup_range c.blockOf fun x hx => List.mem_range.mpr (h.blockOf_lt hx)

namespace Sample

/-- The three questions of benchmark 1. -/
def catalog : Catalog where
  questions := ⟨[⟨1, 1, 0, 7⟩, ⟨2, 1, 1, 8⟩, ⟨3, 1, 2, 7⟩], by decide⟩
  positions := by decide

/-- A correct answer, an error and an answer without input tokens. -/
def responses : List Response :=
  [⟨11, 1, 3, some "A", 1, some 4, some 3, some 5, none, none⟩,
    ⟨12, 1, 1, none, 0, none, none, none, none, some "http_error"⟩,
    ⟨13, 1, 2, some "B", 0, some 6, none, some 2, none, none⟩]

/-- The Run they belong to. -/
def plannedRun : Run :=
  (newRun 1 unlimited).admitted config (Governance.defaultPolicy config 5) 4 10

theorem onPlan : OnPlan catalog plannedRun responses where
  distinct := by decide
  placed := by decide

end Sample

theorem metric_implementations_agree_sample :
    (∃ p, loadProgressIndex Sample.catalog Sample.plannedRun Sample.responses = .ok p ∧
      (aggregateRunEvidence Sample.responses Sample.plannedRun).Shows p.metrics ∧
      reportMetrics Sample.catalog Sample.plannedRun Sample.responses 2
        (fun q => if q.metadata = 7 then "a" else "b") = .ok ⟨3, p.metrics⟩) ∧
      (selectTotals Sample.responses).latencySum = 10 := by
  obtain ⟨p, hp, hshows, hreport, -⟩ := metric_implementations_agree Sample.catalog
    Sample.plannedRun Sample.responses Sample.onPlan 2 (by decide)
    fun q => if q.metadata = 7 then "a" else "b"
  refine ⟨⟨p, hp, hshows, ?_⟩, by decide +kernel⟩
  rw [hreport, if_pos (by decide +kernel)]
  rfl

end LLMBenchLab
