import Mathlib.Algebra.Order.Ring.Rat
import LLMBenchLab.ModelRegistry
import LLMBenchLab.Paging

/-!
# The leaderboard

`_leaderboard_rows` (`api/v1/leaderboard.py`): the completed Runs of a filter, joined
with their Models and benchmarks, page by page. The sort key of the query is one
column and the finish time; unlike the other lists of the API it does not end in the
id. The order of a list is that of its query and a NULL has its place by the database:
before all values of an ascending column in SQLite, after them in PostgreSQL.
-/

namespace LLMBenchLab

open Relational

namespace Leaderboard

/-- `PROTOCOL_VERSION`, the default of the filter. -/
def protocolVersion : String := "llmbenchlab-protocol-v1"

/-! ## Rows -/

/-- A benchmark, as far as an entry shows it. -/
structure Benchmark where
  id : BenchmarkId
  slug : String
  name : String
  version : String
  isDemo : Bool
  deriving DecidableEq, Repr

instance : Keyed Benchmark BenchmarkId := ⟨Benchmark.id⟩

/-- The members of `model_parameters_snapshot["model"]` and `["benchmark"]` that an
entry shows. -/
structure EntrySnapshot where
  modelName : Option String
  benchmarkSlug : Option String
  benchmarkName : Option String
  benchmarkVersion : Option String
  isDemo : Option Bool
  deriving DecidableEq, Repr

/-- A Run with the columns that only its projections read. -/
structure RunRow extends Run where
  protocolVersion : String
  benchmarkHashSnapshot : String
  snapshot : EntrySnapshot

instance : Keyed RunRow RunId := ⟨fun r => r.id⟩

/-- The tables of the query and their foreign keys. -/
structure Database where
  runs : Table RunRow
  models : Table Model
  benchmarks : Table Benchmark
  model_fk : ∀ r ∈ runs.rows, (models.get? r.modelId).isSome
  benchmark_fk : ∀ r ∈ runs.rows, (benchmarks.get? r.benchmarkId).isSome

/-! ## Entries -/

structure LeaderboardEntry where
  runId : RunId
  modelId : ModelId
  modelName : String
  benchmarkId : BenchmarkId
  benchmarkSlug : String
  benchmarkName : String
  benchmarkVersion : String
  benchmarkHash : String
  isDemo : Bool
  protocolVersion : String
  score : ℚ
  answeredAccuracy : Option ℚ
  completionRate : ℚ
  averageLatencyMs : Option ℚ
  inputTokens : Option ℕ
  outputTokens : Option ℕ
  estimatedCost : Option ℚ
  startedAt : Option Time
  finishedAt : Option Time

/-- `str(snapshot.get(name) or current)`: an empty text counts as none. -/
def shown (snapshot : Option String) (current : String) : String :=
  match snapshot with
  | some text => if text = "" then current else text
  | none => current

/-- A row of the joined query. -/
abbrev Joined : Type := RunRow × Model × Benchmark

/-- `_entry` -/
def entry : Joined → LeaderboardEntry
  | (run, model, benchmark) =>
    { runId := run.id
      modelId := model.id
      modelName := shown run.snapshot.modelName model.name
      benchmarkId := benchmark.id
      benchmarkSlug := shown run.snapshot.benchmarkSlug benchmark.slug
      benchmarkName := shown run.snapshot.benchmarkName benchmark.name
      benchmarkVersion := shown run.snapshot.benchmarkVersion benchmark.version
      benchmarkHash := run.benchmarkHashSnapshot
      isDemo := run.snapshot.isDemo.getD benchmark.isDemo
      protocolVersion := run.protocolVersion
      score := run.score.getD 0
      answeredAccuracy := run.answeredAccuracy
      completionRate := run.completionRate.getD 0
      averageLatencyMs := run.averageLatencyMs
      inputTokens := run.inputTokens
      outputTokens := run.outputTokens
      estimatedCost := run.estimatedCost
      startedAt := run.startedAt
      finishedAt := run.finishedAt }

/-! ## The query -/

/-- The filters of the WHERE clause; a Model or benchmark that is not asked for is
none. -/
structure Filter where
  modelId : Option ModelId
  benchmarkId : Option BenchmarkId
  protocolVersion : String := Leaderboard.protocolVersion

def Filter.accepts (f : Filter) (r : RunRow) : Bool :=
  decide (r.status = .completed) && decide (r.protocolVersion = f.protocolVersion) &&
    f.modelId.all (fun id => decide (r.modelId = id)) &&
    f.benchmarkId.all fun id => decide (r.benchmarkId = id)

/-- The `order` parameter. -/
inductive Order : Type where
  | scoreDesc | scoreAsc | latencyAsc | newest
  deriving DecidableEq, Repr

/-- `a` may stand before `b` in an ascending column. -/
def columnLe {α : Type} [LE α] [DecidableLE α] (nullsFirst : Bool) : Option α → Option α → Bool
  | none, none => true
  | none, some _ => nullsFirst
  | some _, none => !nullsFirst
  | some a, some b => decide (a ≤ b)

/-- The first column of the sort key. -/
def Order.first (nullsFirst : Bool) (o : Order) (a b : RunRow) : Bool :=
  match o with
  | scoreDesc => columnLe nullsFirst b.score a.score
  | scoreAsc => columnLe nullsFirst a.score b.score
  | latencyAsc => columnLe nullsFirst a.averageLatencyMs b.averageLatencyMs
  | newest => columnLe nullsFirst b.finishedAt a.finishedAt

/-- `ORDER BY order_by, finished_at DESC` -/
def Order.le (nullsFirst : Bool) (o : Order) (a b : RunRow) : Prop :=
  o.first nullsFirst a b = true ∧
    (o.first nullsFirst b a = true → columnLe nullsFirst b.finishedAt a.finishedAt = true)

instance (nullsFirst : Bool) (o : Order) : DecidableRel (o.le nullsFirst) :=
  fun _ _ => inferInstanceAs (Decidable (_ ∧ _))

namespace Database

variable (db : Database)

/-- `FROM evaluation_runs JOIN models … JOIN benchmarks …` -/
def joined : List Joined :=
  db.runs.rows.flatMap fun run =>
    (db.models.rows.filter fun m => decide (m.id = run.modelId)).flatMap fun model =>
      (db.benchmarks.rows.filter fun b => decide (b.id = run.benchmarkId)).map fun benchmark =>
        (run, model, benchmark)

/-- The rows that the query selects. -/
def selected (f : Filter) : List Joined := db.joined.filter fun x => f.accepts x.1

/-- The completed Runs of a filter. -/
def completed (f : Filter) : List RunRow := db.runs.rows.filter f.accepts

end Database

/-- An order in which the database may answer. -/
abbrev Answer (db : Database) (nullsFirst : Bool) (f : Filter) (o : Order) (xs : List Joined) : Prop :=
  Paging.Answers (fun a b : Joined => o.le nullsFirst a.1 b.1) (db.selected f) xs

/-- `_leaderboard_rows`, for the order in which the database answers its query. -/
def leaderboardRows (db : Database) (f : Filter) (answer : List Joined) (offset limit : ℕ) :
    List LeaderboardEntry × ℕ :=
  ((Paging.page offset limit answer).map entry, (db.completed f).length)

/-- The first `n` pages in a row. -/
def listing (db : Database) (f : Filter) (limit n : ℕ) (answer : ℕ → List Joined) :
    List LeaderboardEntry :=
  (List.range n).flatMap fun k => (leaderboardRows db f (answer k) (k * limit) limit).1

/-- However the database answers each query, the pages list each completed Run of the
filter exactly once. -/
def PagesPartition (db : Database) (nullsFirst : Bool) (f : Filter) (o : Order) (limit : ℕ) : Prop :=
  ∀ answer : ℕ → List Joined, (∀ k, Answer db nullsFirst f o (answer k)) →
    ∀ n, (leaderboardRows db f (answer 0) 0 limit).2 ≤ n * limit →
      ((listing db f limit n answer).map LeaderboardEntry.runId).Perm
        ((db.completed f).map fun r => r.id)

/-! ## The order of a query -/

section Orders

variable {nullsFirst : Bool}

theorem columnLe_total {α : Type} [LinearOrder α] (a b : Option α) :
    columnLe nullsFirst a b = true ∨ columnLe nullsFirst b a = true := by
  cases a <;> cases b
  · exact .inl rfl
  · cases nullsFirst
    · exact .inr rfl
    · exact .inl rfl
  · cases nullsFirst
    · exact .inl rfl
    · exact .inr rfl
  · next a b => simpa [columnLe] using le_total a b

theorem columnLe_trans {α : Type} [LinearOrder α] {a b c : Option α}
    (hab : columnLe nullsFirst a b = true) (hbc : columnLe nullsFirst b c = true) :
    columnLe nullsFirst a c = true := by
  cases a <;> cases b <;> cases c <;> simp_all [columnLe]
  exact hab.trans hbc

theorem Order.first_total (o : Order) (a b : RunRow) :
    o.first nullsFirst a b = true ∨ o.first nullsFirst b a = true := by
  cases o
  · exact columnLe_total b.score a.score
  · exact columnLe_total a.score b.score
  · exact columnLe_total a.averageLatencyMs b.averageLatencyMs
  · exact columnLe_total b.finishedAt a.finishedAt

theorem Order.first_trans {o : Order} {a b c : RunRow} (hab : o.first nullsFirst a b = true)
    (hbc : o.first nullsFirst b c = true) : o.first nullsFirst a c = true := by
  cases o
  · exact columnLe_trans hbc hab
  · exact columnLe_trans hab hbc
  · exact columnLe_trans hab hbc
  · exact columnLe_trans hbc hab

/-- The order of the query between joined rows. -/
abbrev joinedLe (nullsFirst : Bool) (o : Order) (a b : Joined) : Prop := o.le nullsFirst a.1 b.1

instance (o : Order) : Std.Total (joinedLe nullsFirst o) where
  total a b := by
    by_cases hab : o.first nullsFirst a.1 b.1 = true
    · by_cases hba : o.first nullsFirst b.1 a.1 = true
      · -- the first column ties: the finish time decides
        exact (columnLe_total b.1.finishedAt a.1.finishedAt).imp (fun h => ⟨hab, fun _ => h⟩)
          fun h => ⟨hba, fun _ => h⟩
      · exact .inl ⟨hab, fun h => absurd h hba⟩
    · exact .inr ⟨(o.first_total a.1 b.1).resolve_left hab, fun h => absurd h hab⟩

instance (o : Order) : IsTrans Joined (joinedLe nullsFirst o) where
  trans _ _ _ hab hbc := by
    refine ⟨Order.first_trans hab.1 hbc.1, fun hca => ?_⟩
    exact columnLe_trans (hbc.2 (Order.first_trans hca hab.1)) (hab.2 (Order.first_trans hbc.1 hca))

end Orders

/-! ## The join -/

theorem filter_key {ρ κ : Type} [Keyed ρ κ] [DecidableEq κ] {t : Table ρ} {k : κ} {r : ρ}
    (h : t.get? k = some r) : (t.rows.filter fun x => decide (key x = k)) = [r] := by
  obtain ⟨hmem, rfl⟩ := Table.get?_eq_some.mp h
  obtain ⟨l₁, l₂, hl⟩ := List.append_of_mem hmem
  have hnd := t.nodup
  rw [hl, List.map_append, List.map_cons] at hnd
  obtain ⟨-, hcons, hdisj⟩ := List.nodup_append.mp hnd
  have hleft : l₁.filter (fun x => decide (key x = key r)) = [] := by
    refine List.filter_eq_nil_iff.mpr fun x hx he => ?_
    exact hdisj _ (List.mem_map_of_mem hx) _ List.mem_cons_self (of_decide_eq_true he)
  have hright : l₂.filter (fun x => decide (key x = key r)) = [] := by
    refine List.filter_eq_nil_iff.mpr fun x hx he => ?_
    refine (List.nodup_cons.mp hcons).1 ?_
    rw [← of_decide_eq_true he]
    exact List.mem_map_of_mem hx
  rw [hl, List.filter_append, hleft, List.filter_cons, hright]
  simp

variable (db : Database) {nullsFirst : Bool} {f : Filter} {o : Order} {limit : ℕ}

/-- The foreign keys give every Run one row of the join. -/
theorem Database.map_fst_joined : db.joined.map Prod.fst = db.runs.rows := by
  have hrow : ∀ run ∈ db.runs.rows,
      (((db.models.rows.filter fun m => decide (m.id = run.modelId)).flatMap fun model =>
        (db.benchmarks.rows.filter fun b => decide (b.id = run.benchmarkId)).map fun benchmark =>
          ((run, model, benchmark) : Joined)).map Prod.fst) = [run] := by
    intro run hrun
    obtain ⟨m, hm⟩ := Option.isSome_iff_exists.mp (db.model_fk run hrun)
    obtain ⟨b, hb⟩ := Option.isSome_iff_exists.mp (db.benchmark_fk run hrun)
    have hmodel : (db.models.rows.filter fun m => decide (m.id = run.modelId)) = [m] := filter_key hm
    have hbenchmark : (db.benchmarks.rows.filter fun b => decide (b.id = run.benchmarkId)) = [b] :=
      filter_key hb
    rw [hmodel, hbenchmark]
    rfl
  calc db.joined.map Prod.fst
      = db.runs.rows.flatMap fun run => [run] := by
        rw [Database.joined, List.map_flatMap]
        exact List.flatMap_congr hrow
    _ = db.runs.rows := List.flatMap_singleton' _

theorem Database.map_fst_selected (f : Filter) : (db.selected f).map Prod.fst = db.completed f := by
  rw [Database.completed, ← db.map_fst_joined, List.filter_map]
  rfl

theorem Database.nodup_completed (f : Filter) : ((db.completed f).map fun r => r.id).Nodup :=
  db.runs.nodup.sublist (List.filter_sublist.map _)

/-- Rows with distinct keys are told apart by them. -/
theorem perm_of_perm_map {α β : Type} {g : α → β} {l l' : List α} (hsub : l ⊆ l')
    (hnd : (l'.map g).Nodup) (h : (l.map g).Perm (l'.map g)) : l.Perm l' := by
  have hl : l.Nodup := (h.nodup_iff.mpr hnd).of_map
  refine (List.perm_ext_iff_of_nodup hl hnd.of_map).mpr fun x => ⟨fun hx => hsub hx, fun hx => ?_⟩
  obtain ⟨y, hy, hyx⟩ := List.mem_map.mp (h.mem_iff.mpr (List.mem_map_of_mem hx))
  rwa [← List.inj_on_of_nodup_map hnd (hsub hy) hx hyx]

theorem map_runId_listing (n : ℕ) (answer : ℕ → List Joined) :
    (listing db f limit n answer).map LeaderboardEntry.runId =
      (Paging.pages limit n answer).map fun x => x.1.id := by
  rw [listing, Paging.pages, List.map_flatMap, List.map_flatMap]
  refine List.flatMap_congr fun k _ => ?_
  rw [leaderboardRows, List.map_map]
  rfl

theorem pagesPartition_iff :
    PagesPartition db nullsFirst f o limit ↔
      Paging.Partitions (joinedLe nullsFirst o) (db.selected f) limit := by
  have hids : (db.completed f).map (fun r => r.id) = (db.selected f).map fun x => x.1.id := by
    rw [← db.map_fst_selected f, List.map_map]
    rfl
  have hlength : (db.completed f).length = (db.selected f).length := by
    rw [← db.map_fst_selected f, List.length_map]
  have hnd : ((db.selected f).map fun x => x.1.id).Nodup := hids ▸ db.nodup_completed f
  refine forall_congr' fun answer => forall_congr' fun hanswer => forall_congr' fun n => ?_
  rw [show (leaderboardRows db f (answer 0) 0 limit).2 = (db.selected f).length from hlength, hids,
    map_runId_listing]
  refine forall_congr' fun _ => ⟨perm_of_perm_map ?_ hnd, fun h => h.map _⟩
  intro x hx
  obtain ⟨k, -, hk⟩ := List.mem_flatMap.mp hx
  exact (hanswer k).mem.mp (List.mem_of_mem_drop (List.mem_of_mem_take hk))

/-- **Pages of the leaderboard.** However the database answers the query of each page,
the pages list each completed Run of the filter exactly once if and only if no Runs
that tie in the order column and the finish time lie on both sides of a page
boundary. -/
theorem leaderboard_pages_partition (db : Database) (nullsFirst : Bool) (f : Filter) (o : Order)
    {limit : ℕ} (hlimit : 0 < limit) :
    PagesPartition db nullsFirst f o limit ↔
      Paging.TiesWithinPages (o.le nullsFirst) (db.completed f) limit := by
  have hnd : (db.selected f).Nodup := by
    refine List.Nodup.of_map Prod.fst ?_
    rw [db.map_fst_selected]
    exact (db.nodup_completed f).of_map
  rw [pagesPartition_iff, Paging.partitions_iff hlimit hnd, ← db.map_fst_selected f]
  simp only [Paging.TiesWithinPages, Paging.countBefore, Paging.countUpTo, List.forall_mem_map,
    List.countP_map]
  rfl

namespace Sample

/-- A completed Run of Model 5 with the score `1 / 2`. -/
def completedRun (id : RunId) (finishedAt : Time) : RunRow where
  id := id
  modelId := 5
  benchmarkId := 1
  status := .completed
  retryMaxAttempts := some 2
  governanceSnapshot := none
  totalQuestions := 4
  completedQuestions := 4
  correctQuestions := 2
  errorQuestions := 0
  score := some (1 / 2)
  completionRate := some 1
  answeredAccuracy := some (1 / 2)
  averageLatencyMs := none
  inputTokens := none
  outputTokens := none
  estimatedCost := none
  cancellationRequested := false
  attemptCount := 1
  maxAttempts := 3
  failedAttemptCount := 0
  dispatchCount := 1
  lastScheduledAt := some 20
  governancePolicyId := none
  governanceStatus := .managed
  governanceReason := none
  governanceNotBefore := none
  inputTokenReservation := none
  lifetimeRequestBudget := none
  lifetimeTokenBudget := none
  lifetimeCostBudgetUsd := none
  leaseOwner := none
  leaseToken := 1
  leaseExpiresAt := none
  heartbeatAt := none
  nextAttemptAt := none
  lastEnqueuedAt := none
  lastError := none
  deadLetteredAt := none
  startedAt := some 20
  finishedAt := some finishedAt
  createdAt := 10
  errorMessage := none
  protocolVersion := Leaderboard.protocolVersion
  benchmarkHashSnapshot := "7"
  snapshot := ⟨some "Echo", none, none, none, none⟩

def echo : Model :=
  ⟨5, "Echo", .mock, none, none, none, .none, true, none, none, [], 1, 1⟩

def benchmark : Benchmark := ⟨1, "demo", "Demo", "1", true⟩

/-- Runs 1 and 2 tie in score and finish time, Run 3 finished before them. -/
def database : Database where
  runs := ⟨[completedRun 1 30, completedRun 2 30, completedRun 3 25], by decide⟩
  models := ⟨[echo], by decide⟩
  benchmarks := ⟨[benchmark], by decide⟩
  model_fk := by decide
  benchmark_fk := by decide

/-- The default query. -/
def filter : Filter := { modelId := none, benchmarkId := none }

/-- A row of the joined query. -/
def row (id : RunId) (finishedAt : Time) : Joined := (completedRun id finishedAt, echo, benchmark)

/-- The database answers the query of the first page in one order and the later ones in
another. -/
def answer (k : ℕ) : List Joined :=
  if k = 0 then [row 1 30, row 2 30, row 3 25] else [row 2 30, row 1 30, row 3 25]

theorem answers (k : ℕ) : Answer database true filter .scoreDesc (answer k) := by
  unfold answer
  split
  · exact ⟨List.Perm.refl _, by decide +kernel⟩
  · exact ⟨List.Perm.swap .., by decide +kernel⟩

end Sample

theorem leaderboard_pages_partition_sample :
    PagesPartition Sample.database true Sample.filter .scoreDesc 2 :=
  (leaderboard_pages_partition Sample.database true Sample.filter .scoreDesc (by decide)).mpr
    (by decide +kernel)

/-- With one entry a page, Run 1 is shown twice and Run 2 is not shown. -/
theorem leaderboard_shows_run_twice :
    ¬ PagesPartition Sample.database true Sample.filter .scoreDesc 1 := by
  intro h
  have hperm := h Sample.answer Sample.answers 3 (by decide)
  have hids : (listing Sample.database Sample.filter 1 3 Sample.answer).map
      LeaderboardEntry.runId = [1, 1, 3] := rfl
  rw [hids] at hperm
  revert hperm
  decide

end Leaderboard

end LLMBenchLab
