import LLMBenchLab.ImportRun

/-!
# How an import ends

An import fills the empty target in one step or changes nothing, whatever fails and whatever
the others commit, and the way it ends says which (`import_outcome`).
-/

namespace LLMBenchLab

namespace SqliteImport

open Python Faults
open Text (Str ofString)

variable {δ : Type} {I : Importer δ} {source : SourceDatabase} {d d' d₀ d₁ : Target}
  {w w' w'' : World I.service (Locals δ)}

/-- Some call may fail. -/
def Importer.Faulty (I : Importer δ) : Prop := ∃ e, I.service.Fault e

/-- The target, after others have committed. -/
abbrev Later (I : Importer δ) : Target → Target → Prop := Session.Meanwhile I.service

/-- The schema has the expected revisions. -/
def AtHead (I : Importer δ) (d : Target) : Prop :=
  (∀ head ∈ d.heads, head ∈ I.expectedHeads) ∧ ∀ head ∈ I.expectedHeads, head ∈ d.heads

/-- Every table holds what the table of the source does. -/
def Holds (I : Importer δ) (source : SourceDatabase) (d : Target) : Prop :=
  ∀ table ∈ I.tables, ∃ rows, source.select table = .ok rows ∧
    table.contents false (d.rows table.name) = table.contents false rows

/-! ## Summaries -/

section Summaries

variable {sha256 : List UInt8 → δ} {table : Table} {rows rows' : List Row} {s : TableSummary δ}

theorem digestPayloads_perm {ps qs : List (List UInt8)} (h : ps.Perm qs) :
    digestPayloads sha256 ps = digestPayloads sha256 qs := by
  rw [digestPayloads, digestPayloads, sorted_eq_iff.mpr h]

theorem supports_append (h : ∀ row ∈ rows, table.Supports row)
    (h' : ∀ row ∈ rows', table.Supports row) : ∀ row ∈ rows ++ rows', table.Supports row :=
  List.forall_mem_append.mpr ⟨h, h'⟩

/-- Rows that hold the same have the same payloads. -/
theorem payloads_perm (h : ∀ row ∈ rows, table.Supports row)
    (h' : ∀ row ∈ rows', table.Supports row) {columns : List Str} (hsub : columns ⊆ table.columns)
    (hcontents : table.contents false rows = table.contents false rows') :
    (rows.map fun row => payload row columns).Perm (rows'.map fun row => payload row columns) := by
  have hsupports := supports_append h h'
  rw [Table.contents, Table.contents, Multiset.coe_eq_coe] at hcontents
  refine perm_map_of_imp (fun row hrow row' hrow' heq => ?_) hcontents
  refine (payload_eq_iff (hsupports row hrow) (hsupports row' hrow') hsub).mpr ?_
  exact fun column hcolumn => rowContent_eq_iff.mp heq column (hsub hcolumn)

theorem contents_of_payloads (h : ∀ row ∈ rows, table.Supports row)
    (h' : ∀ row ∈ rows', table.Supports row)
    (hperm : (rows.map fun row => payload row table.columns).Perm
      (rows'.map fun row => payload row table.columns)) :
    table.contents false rows = table.contents false rows' := by
  have hsupports := supports_append h h'
  rw [Table.contents, Table.contents, Multiset.coe_eq_coe]
  refine perm_map_of_imp (fun row hrow row' hrow' heq => ?_) hperm
  exact rowContent_eq_iff.mpr
    ((payload_eq_iff (hsupports row hrow) (hsupports row' hrow') (List.Subset.refl _)).mp heq)

/-- The summary of a table is that of the rows it holds, and of no others. -/
theorem summary_eq_ok_iff (hsha : Function.Injective sha256)
    (h : ∀ row ∈ rows, table.Supports row) (h' : ∀ row ∈ rows', table.Supports row)
    (hs : canonicalTableSummary sha256 table rows = .ok s) :
    canonicalTableSummary sha256 table rows' = .ok s ↔
      table.contents false rows' = table.contents false rows := by
  have hkey : table.primaryKey ≠ [] := by
    intro hkey
    rw [canonicalTableSummary, if_pos hkey] at hs
    cases hs
  obtain ⟨hcount, hpk, hcanonical⟩ := (canonicalTableSummary_eq_ok hkey h).mp hs
  rw [canonicalTableSummary_eq_ok hkey h']
  constructor
  · rintro ⟨-, -, hcanonical'⟩
    exact contents_of_payloads h' h
      ((digestPayloads_eq_iff hsha hcanonical' hcanonical).mp rfl)
  · intro hcontents
    have hlength := congrArg Multiset.card hcontents
    rw [Table.contents, Table.contents, Multiset.coe_card, Multiset.coe_card, List.length_map,
      List.length_map] at hlength
    refine ⟨hcount.trans hlength.symm, ?_, ?_⟩
    · rw [digestPayloads_perm (payloads_perm h' h table.primaryKey_subset hcontents)]
      exact hpk
    · rw [digestPayloads_perm (payloads_perm h' h (List.Subset.refl _) hcontents)]
      exact hcanonical

theorem contents_perm (hperm : rows.Perm rows') :
    table.contents false rows = table.contents false rows' :=
  Multiset.coe_eq_coe.mpr (hperm.map _)

end Summaries

/-! ## Parts that write nothing -/

theorem eq_of_exclusive {own : Target → Target}
    (h : I.service.Others .accessExclusive own d d') : d' = d := by
  induction h with
  | refl => rfl
  | tail _ hstep ih => exact (I.excludes _ _ _ hstep).trans ih

theorem Later.typed (h : Later I d d') (hd : d.Typed I.tables) : d'.Typed I.tables := by
  induction h with
  | refl => exact hd
  | tail _ hstep ih =>
    obtain ⟨held, own, hstep⟩ := hstep
    exact I.typed held own _ _ hstep ih

/-- From a world of a transaction to a later one, with nothing written in between. -/
structure Onward (w w' : World I.service (Locals δ)) : Prop where
  others : I.service.Others w.held w.own w.committed w'.committed
  own : w'.own = w.own
  held : w'.held = w.held
  isolation : w'.isolation = w.isolation
  confirmed : w'.vars.commitConfirmed = w.vars.commitConfirmed

theorem Onward.refl (w : World I.service (Locals δ)) : Onward w w := ⟨.refl, rfl, rfl, rfl, rfl⟩

theorem Onward.trans (h : Onward w w') (h' : Onward w' w'') : Onward w w'' where
  others := h.others.trans (h.own ▸ h.held ▸ h'.others)
  own := h'.own.trans h.own
  held := h'.held.trans h.held
  isolation := h'.isolation.trans h.isolation
  confirmed := h'.confirmed.trans h.confirmed

theorem Onward.of_turned (h : Session.Turned w w') : Onward w w' where
  others := h.others
  own := h.own
  held := h.held
  isolation := h.isolation
  confirmed := by rw [h.vars]

theorem Onward.later (h : Onward w w') : Later I w.committed w'.committed :=
  Session.meanwhile_of_others h.others

/-- Such a part ends with a result of `Q`, or in a failure whose reason is `E`. -/
def Reads {α : Type} (w : World I.service (Locals δ)) (E : Prop)
    (Q : World I.service (Locals δ) → α → Prop) (w' : World I.service (Locals δ)) :
    Except ImportError α → Prop
  | .ok a => Onward w w' ∧ Q w' a
  | .error e => Onward w w' ∧ (∃ failure, e = .failed failure) ∧ E

section Reads

variable {α β : Type} {E : Prop} {Q : World I.service (Locals δ) → α → Prop}
  {Q' : World I.service (Locals δ) → β → Prop}

theorem ends_bind_reads {m : Import I α} {f : α → Import I β} (h : m.Ends w (Reads w E Q))
    (hf : ∀ w' a, Onward w w' → Q w' a → (f a).Ends w' (Reads w' E Q')) :
    (m >>= f).Ends w (Reads w E Q') := by
  refine Session.ends_bind (h.mono fun w' r hr => ?_)
  cases r with
  | error e => exact hr
  | ok a =>
    refine (hf w' a hr.1 hr.2).mono fun w'' r' hr' => ?_
    cases r' with
    | ok b => exact ⟨hr.1.trans hr'.1, hr'.2⟩
    | error e => exact ⟨hr.1.trans hr'.1, hr'.2⟩

/-- A loop that writes nothing. -/
theorem ends_foldlM_reads {γ : Type} {f : β → γ → Import I β} {J : List γ → β → Prop}
    {l : List γ} {b : β} (hb : J [] b)
    (hstep : ∀ done a rest b w', done ++ a :: rest = l → Onward w w' → J done b →
      (f b a).Ends w' (Reads w' E fun _ b' => J (done ++ [a]) b')) :
    (l.foldlM f b).Ends w (Reads w E fun _ b' => J l b') := by
  refine (Session.ends_foldlM (w := w) (I := fun done b w' => Onward w w' ∧ J done b)
    (E := fun e w' => Onward w w' ∧ (∃ failure, e = .failed failure) ∧ E) ?_
    ⟨.refl w, hb⟩).mono fun w' r hr => ?_
  · rintro done a rest b w' hl ⟨hw', hJ⟩
    refine (hstep done a rest b w' hl hw' hJ).mono fun w'' r hr => ?_
    cases r with
    | ok b' => exact ⟨hw'.trans hr.1, hr.2⟩
    | error e => exact ⟨hw'.trans hr.1, hr.2⟩
  · cases r with
    | ok b' => exact hr
    | error e => exact hr

theorem failed_of_fault {e : ImportError} (he : I.service.Fault e) :
    ∃ failure, e = .failed failure :=
  (I.fault e he).elim (fun h => ⟨_, h⟩) fun h => ⟨_, h⟩

/-- A statement that looks at the target. -/
theorem ends_read_reads {f : Target → Except ImportError α} (hE : I.Faulty → E)
    (hw : w.isolation ≠ .repeatableRead none)
    (hf : ∀ w', Onward w w' →
      match f w'.view with
      | .ok a => Q w' a
      | .error e => (∃ failure, e = .failed failure) ∧ E) :
    (Session.read f : Import I α).Ends w (Reads w E Q) := by
  refine (Session.ends_read_settled hw).mono fun w' r hr => ?_
  obtain ⟨hturned, rfl | ⟨e, rfl, he⟩⟩ := hr
  · have hf := hf w' (.of_turned hturned)
    cases hv : f w'.view with
    | ok a =>
      rw [hv] at hf
      exact ⟨.of_turned hturned, hf⟩
    | error e =>
      rw [hv] at hf
      exact ⟨.of_turned hturned, hf⟩
  · exact ⟨.of_turned hturned, failed_of_fault he, hE ⟨e, he⟩⟩

theorem ends_printLine (hE : I.Faulty → E) (line : SummaryLine δ) :
    (printLine I line).Ends w (Reads w E fun _ _ => True) := by
  refine Session.ends_call fun w' hw' => ?_
  have honward := Onward.of_turned hw'
  have hprinted : Onward w { w' with
      vars := { w'.vars with output := w'.vars.output ++ [line] } } :=
    ⟨honward.others, honward.own, honward.held, honward.isolation, honward.confirmed⟩
  exact ⟨fun e he => ⟨⟨honward, failed_of_fault he, hE ⟨e, he⟩⟩,
    hprinted, failed_of_fault he, hE ⟨e, he⟩⟩, hprinted, trivial⟩

/-- A snapshot: the rows of every table and their summary. -/
structure Shows (I : Importer δ) (P : Table → List Row → Prop) (tables : List Table)
    (snapshot : DatabaseSnapshot δ) : Prop where
  rowKeys : snapshot.rows.map Prod.fst = tables.map Table.name
  summaryKeys : snapshot.summaries.map Prod.fst = tables.map Table.name
  shows : ∀ table ∈ tables, ∃ rows s, P table rows ∧ snapshot.rows.lookup table.name = some rows ∧
    snapshot.summaries.lookup table.name = some s ∧
    canonicalTableSummary I.sha256 table rows = .ok s

theorem lookup_eq_none {γ : Type} {l : List (Str × γ)} {name : Str}
    (h : name ∉ l.map Prod.fst) : l.lookup name = none := by
  rw [List.lookup_eq_none_iff]
  intro p hp
  rw [bne_iff_ne]
  exact fun heq => h (heq ▸ List.mem_map_of_mem hp)

theorem Shows.append {P : Table → List Row → Prop} {tables : List Table}
    {snapshot : DatabaseSnapshot δ} {table : Table} {rows : List Row} {s : TableSummary δ}
    (h : Shows I P tables snapshot) (hnew : table.name ∉ tables.map Table.name)
    (hP : P table rows) (hs : canonicalTableSummary I.sha256 table rows = .ok s) :
    Shows I P (tables ++ [table]) ⟨snapshot.rows ++ [(table.name, rows)],
      snapshot.summaries ++ [(table.name, s)]⟩ where
  rowKeys := by rw [List.map_append, List.map_append, h.rowKeys]; rfl
  summaryKeys := by rw [List.map_append, List.map_append, h.summaryKeys]; rfl
  shows := by
    intro other hother
    rw [List.lookup_append, List.lookup_append]
    rcases List.mem_append.mp hother with hother | hother
    · obtain ⟨rows', s', hP', hrows', hs', hsummary'⟩ := h.shows other hother
      exact ⟨rows', s', hP', by rw [hrows']; rfl, by rw [hs']; rfl, hsummary'⟩
    · obtain rfl := List.mem_singleton.mp hother
      refine ⟨rows, s, hP, ?_, ?_, hs⟩
      · rw [lookup_eq_none (h.rowKeys ▸ hnew), List.lookup_cons_self]
        rfl
      · rw [lookup_eq_none (h.summaryKeys ▸ hnew), List.lookup_cons_self]
        rfl

/-- The first tables, then one that has another name. -/
theorem name_notMem {done rest : List Table} {table : Table}
    (h : done ++ table :: rest = I.tables) : table.name ∉ done.map Table.name := by
  have hnodup := I.names_nodup
  rw [← h, List.map_append, List.map_cons] at hnodup
  exact fun hmem => (List.nodup_append.mp hnodup).2.2 _ hmem _ List.mem_cons_self rfl

theorem mem_tables {done rest : List Table} {table : Table}
    (h : done ++ table :: rest = I.tables) : table ∈ I.tables :=
  h ▸ List.mem_append_right done List.mem_cons_self

theorem ends_snapshotDatabase {select : Table → Import I (List Row)}
    {P : Table → List Row → Prop}
    (hselect : ∀ w', Onward w w' → ∀ table ∈ I.tables,
      (select table).Ends w' (Reads w' E fun _ rows => P table rows))
    (hsummary : ∀ table ∈ I.tables, ∀ rows, P table rows →
      (∀ s, canonicalTableSummary I.sha256 table rows ≠ .ok s) → E) :
    (snapshotDatabase I select).Ends w
      (Reads w E fun _ snapshot => Shows I P I.tables snapshot) := by
  refine ends_foldlM_reads (J := fun done snapshot => Shows I P done snapshot)
    ⟨rfl, rfl, fun _ h => absurd h List.not_mem_nil⟩ ?_
  intro done table rest snapshot w' hl hw' hshows
  refine ends_bind_reads (hselect w' hw' table (mem_tables hl)) fun w₁ rows _ hP => ?_
  refine Session.ends_bind (Session.ends_lift ?_)
  cases hs : canonicalTableSummary I.sha256 table rows with
  | ok s =>
    refine Session.ends_pure ⟨.refl w₁, ?_⟩
    exact hshows.append (name_notMem hl) hP hs
  | error e =>
    have hE : E := hsummary table (mem_tables hl) rows hP fun s h => by cases hs.symm.trans h
    cases e with
    | sqliteImport message => exact ⟨.refl w₁, ⟨_, rfl⟩, hE⟩
    | _ => exact ⟨.refl w₁, ⟨_, rfl⟩, hE⟩

theorem ends_emitSummaries {P : Table → List Row → Prop} {snapshot : DatabaseSnapshot δ}
    (hE : I.Faulty → E) (h : Shows I P I.tables snapshot) (phase : String) :
    (emitSummaries I snapshot.summaries phase).Ends w (Reads w E fun _ _ => True) := by
  refine ends_foldlM_reads (J := fun _ _ => True) trivial ?_
  intro done table rest _ w' hl hw' _
  obtain ⟨rows, s, -, -, hs, -⟩ := h.shows table (mem_tables hl)
  rw [hs]
  exact ends_printLine hE _

end Reads

/-! ## The source -/

/-- Why the source cannot be read. -/
inductive SourceRefused (I : Importer δ) (source : SourceDatabase) : Prop where
  | preflight : source.preflight ≠ .ok () → SourceRefused I source
  | select {table : Table} : table ∈ I.tables → (∀ rows, source.select table ≠ .ok rows) →
      SourceRefused I source
  | summary {table : Table} {rows : List Row} : table ∈ I.tables → source.select table = .ok rows →
      (∀ s, canonicalTableSummary I.sha256 table rows ≠ .ok s) → SourceRefused I source
  | close : source.close ≠ .ok () → SourceRefused I source

/-- What has been read of the source. -/
abbrev SourceShown (I : Importer δ) (source : SourceDatabase) : DatabaseSnapshot δ → Prop :=
  Shows I (fun table rows => source.select table = .ok rows) I.tables

section Source

variable {E : Prop}

theorem ends_lift_failure {α : Type} {r : Except Failure α} {Q : World I.service (Locals δ) → α → Prop}
    (hok : ∀ a, r = .ok a → Q w a) (herror : (∀ a, r ≠ .ok a) → E) :
    (Session.lift (r.mapError .failed) : Import I α).Ends w (Reads w E Q) := by
  refine Session.ends_lift ?_
  cases r with
  | ok a => exact ⟨.refl w, hok a rfl⟩
  | error e => exact ⟨.refl w, ⟨e, rfl⟩, herror fun a h => by cases h⟩

theorem ends_readSource (hfaulty : I.Faulty → E) (hsource : SourceRefused I source → E) :
    (readSource I source).Ends w (Reads w E fun _ snapshot => SourceShown I source snapshot) := by
  have hread : (do
      Session.lift (source.preflight.mapError .failed)
      let snapshot ← snapshotDatabase I (selectSource I source)
      emitSummaries I snapshot.summaries "source"
      return snapshot : Import I (DatabaseSnapshot δ)).Ends w
        (Reads w E fun _ snapshot => SourceShown I source snapshot) := by
    refine ends_bind_reads (Q := fun _ _ => True)
      (ends_lift_failure (fun _ _ => trivial) fun h => hsource (.preflight (h ()))) ?_
    intro w₁ _ _ _
    have hsnapshot : (snapshotDatabase I (selectSource I source)).Ends w₁
        (Reads w₁ E fun _ snapshot => SourceShown I source snapshot) := by
      refine ends_snapshotDatabase ?_ fun _ htable _ hrows h => hsource (.summary htable hrows h)
      exact fun w' _ _ htable => ends_lift_failure (fun _ h => h) fun h => hsource (.select htable h)
    refine ends_bind_reads hsnapshot fun w₂ snapshot _ hshows => ?_
    refine ends_bind_reads (ends_emitSummaries hfaulty hshows "source") fun w₃ _ _ _ => ?_
    exact Session.ends_pure ⟨.refl w₃, hshows⟩
  refine Session.ends_finally (hread.mono fun w' r hr => Session.ends_lift ?_)
  cases hclose : source.close with
  | ok _ => exact hr
  | error e =>
    have hE : E := hsource (.close fun h => by cases hclose.symm.trans h)
    cases r with
    | ok snapshot => exact ⟨hr.1, ⟨e, rfl⟩, hE⟩
    | error e' => exact ⟨hr.1, ⟨e, rfl⟩, hE⟩

end Source

/-! ## Comparing -/

/-- What is read of a target that holds `d`. -/
abbrev TargetShown (I : Importer δ) (d : Target) : DatabaseSnapshot δ → Prop :=
  Shows I (fun table rows => rows = I.ordered table (d.rows table.name)) I.tables

section Comparing

variable {snapshot back : DatabaseSnapshot δ} {E : Prop}

/-- The summary of a table of the target is that of the source if it holds the same. -/
theorem Shows.summary_iff (hshown : SourceShown I source snapshot)
    (hsha : Function.Injective I.sha256) (hd : d.Typed I.tables) {table : Table}
    (htable : table ∈ I.tables) :
    ∃ rows s, source.select table = .ok rows ∧ snapshot.summaries.lookup table.name = some s ∧
      (canonicalTableSummary I.sha256 table (I.ordered table (d.rows table.name)) = .ok s ↔
        table.contents false (d.rows table.name) = table.contents false rows) := by
  obtain ⟨rows, s, hrows, -, hlookup, hs⟩ := hshown.shows table htable
  refine ⟨rows, s, hrows, hlookup, ?_⟩
  have hperm := I.ordered_perm table (d.rows table.name)
  rw [summary_eq_ok_iff hsha (source.select_supports table rows hrows)
    (fun row hrow => hd table htable row (hperm.mem_iff.mp hrow)) hs, contents_perm hperm]

theorem Shows.summary_of_holds (hshown : SourceShown I source snapshot)
    (hsha : Function.Injective I.sha256) (hd : d.Typed I.tables) (hholds : Holds I source d)
    {table : Table} (htable : table ∈ I.tables) :
    ∃ s, canonicalTableSummary I.sha256 table (I.ordered table (d.rows table.name)) = .ok s := by
  obtain ⟨rows, s, hrows, -, hiff⟩ := hshown.summary_iff hsha hd htable
  obtain ⟨rows', hrows', hcontents⟩ := hholds table htable
  obtain rfl := Except.ok.inj (hrows.symm.trans hrows')
  exact ⟨s, hiff.mpr hcontents⟩

/-- The same summary of every table. -/
def Agree (I : Importer δ) (expected actual : List (Str × TableSummary δ)) : Prop :=
  ∀ table ∈ I.tables, ∃ s, expected.lookup table.name = some s ∧
    actual.lookup table.name = some s

/-- The summaries agree exactly if the target holds what the source does. -/
theorem Shows.agree_iff (hshown : SourceShown I source snapshot)
    (hsha : Function.Injective I.sha256) (hd : d.Typed I.tables) (hback : TargetShown I d back) :
    (∀ table ∈ I.tables, snapshot.summaries.lookup table.name = back.summaries.lookup table.name) ↔
      Holds I source d := by
  refine forall₂_congr fun table htable => ?_
  obtain ⟨rows, s, hrows, hlookup, hiff⟩ := hshown.summary_iff hsha hd htable
  obtain ⟨rows', s', rfl, -, hlookup', hs'⟩ := hback.shows table htable
  rw [hlookup, hlookup', Option.some.injEq]
  rw [hs', Except.ok.injEq, eq_comm] at hiff
  rw [hiff]
  constructor
  · exact fun h => ⟨rows, hrows, h⟩
  · rintro ⟨rows', hrows', h⟩
    obtain rfl := Except.ok.inj (hrows.symm.trans hrows')
    exact h

theorem Shows.agree (hshown : SourceShown I source snapshot) {actual : List (Str × TableSummary δ)}
    (h : ∀ table ∈ I.tables, snapshot.summaries.lookup table.name = actual.lookup table.name) :
    Agree I snapshot.summaries actual := by
  intro table htable
  obtain ⟨-, s, -, -, hlookup, -⟩ := hshown.shows table htable
  exact ⟨s, hlookup, (h table htable).symm.trans hlookup⟩

theorem assertSummariesMatch_cases [DecidableEq δ] (expected actual : List (Str × TableSummary δ))
    (phase : String) :
    (∀ table ∈ I.tables, expected.lookup table.name = actual.lookup table.name) ∧
        assertSummariesMatch I expected actual phase = .ok () ∨
      (¬ ∀ table ∈ I.tables, expected.lookup table.name = actual.lookup table.name) ∧
        ∃ failure, assertSummariesMatch I expected actual phase = .error (.failed failure) := by
  have hnil : ((I.tables.map Table.name).filter fun name =>
      expected.lookup name ≠ actual.lookup name) = [] ↔
        ∀ table ∈ I.tables, expected.lookup table.name = actual.lookup table.name := by
    simp
  by_cases h : ∀ table ∈ I.tables, expected.lookup table.name = actual.lookup table.name
  · exact .inl ⟨h, if_pos (hnil.mpr h)⟩
  · exact .inr ⟨h, _, if_neg (mt hnil.mp h)⟩

/-- The comparison succeeds exactly if the target holds what the source does. -/
theorem Shows.assert_cases [DecidableEq δ] (hshown : SourceShown I source snapshot)
    (hsha : Function.Injective I.sha256) (hd : d.Typed I.tables) (hback : TargetShown I d back)
    (phase : String) :
    Holds I source d ∧ Agree I snapshot.summaries back.summaries ∧
        assertSummariesMatch I snapshot.summaries back.summaries phase = .ok () ∨
      ¬ Holds I source d ∧ ∃ failure,
        assertSummariesMatch I snapshot.summaries back.summaries phase = .error (.failed failure) := by
  rw [← hshown.agree_iff hsha hd hback]
  rcases assertSummariesMatch_cases (I := I) snapshot.summaries back.summaries phase with
    ⟨h, heq⟩ | ⟨h, heq⟩
  · exact .inl ⟨h, hshown.agree h, heq⟩
  · exact .inr ⟨h, heq⟩

/-- A snapshot of the target, which others cannot change meanwhile. -/
theorem ends_snapshotTarget (hshown : SourceShown I source snapshot)
    (hsha : Function.Injective I.sha256) (hd : d.Typed I.tables) (hfaulty : I.Faulty → E)
    (hholds : ¬ Holds I source d → E) (hw : w.isolation ≠ .repeatableRead none)
    (hview : ∀ w', Onward w w' → w'.view = d) :
    (snapshotDatabase I (selectTarget I)).Ends w
      (Reads w E fun _ back => TargetShown I d back) := by
  refine ends_snapshotDatabase (fun w₁ hw₁ table _ => ?_) fun table htable rows hrows hnot => ?_
  · refine ends_read_reads hfaulty (hw₁.isolation ▸ hw) fun w₂ hw₂ => ?_
    rw [hview w₂ (hw₁.trans hw₂)]
  · refine hholds fun h => ?_
    obtain ⟨s, hs⟩ := hshown.summary_of_holds hsha hd h htable
    exact hnot s (hrows ▸ hs)

end Comparing

/-! ## The target -/

/-- Why nothing is imported. -/
inductive ImportRefused (I : Importer δ) (source : SourceDatabase) (d : Target) : Prop where
  | faulty : I.Faulty → ImportRefused I source d
  | source : SourceRefused I source → ImportRefused I source d
  | schema {d₁ : Target} : Later I d d₁ → ¬ AtHead I d₁ → ImportRefused I source d
  | nonempty {d₁ : Target} {table : Table} : Later I d d₁ → table ∈ I.tables →
      d₁.rows table.name ≠ [] → ImportRefused I source d
  | refused {d₁ : Target} {table : Table} {rows : List Row} : table ∈ I.tables →
      source.select table = .ok rows → I.stored table rows d₁ = none → ImportRefused I source d
  /-- a table holds something else once the rows are in it -/
  | changed {d₁ : Target} {table : Table} {rows rows' : List Row} : table ∈ I.tables →
      source.select table = .ok rows → I.stored table rows d₁ = some rows' →
      table.contents false rows' ≠ table.contents false rows → ImportRefused I source d

/-- The import: at one instant the tables are empty, and then they hold what the source does;
nothing else changes. -/
inductive Imports (I : Importer δ) (source : SourceDatabase) (d d' : Target) : Prop where
  | intro {d₀ d₁ : Target} : Later I d d₀ → AtHead I d₀ →
      (∀ table ∈ I.tables, d₀.rows table.name = []) → d₁.heads = d₀.heads →
      (∀ name ∉ I.tables.map Table.name, d₁.rows name = d₀.rows name) → Holds I source d₁ →
      d₁.Typed I.tables → Later I d₁ d' → Imports I source d d'

theorem Imports.later (h : Imports I source d d₀) (hlater : Later I d₀ d') :
    Imports I source d d' := by
  obtain ⟨hbefore, hhead, hempty, hheads, hrest, hholds, htyped, hafter⟩ := h
  exact ⟨hbefore, hhead, hempty, hheads, hrest, hholds, htyped, hafter.trans hlater⟩

theorem Imports.typed (h : Imports I source d d') : d'.Typed I.tables := by
  obtain ⟨-, -, -, -, -, -, htyped, hafter⟩ := h
  exact Later.typed hafter htyped

section Transaction

/-- The tables are locked, and `d₀` is what the target holds. -/
structure Locked (d d₀ : Target) (w : World I.service (Locals δ)) : Prop where
  later : Later I d d₀
  committed : w.committed = d₀
  held : w.held = .accessExclusive
  isolation : w.isolation = .readCommitted
  confirmed : w.vars.commitConfirmed = false

theorem Locked.settled (h : Locked d d₀ w) : w.isolation ≠ .repeatableRead none := by
  rw [h.isolation]
  exact fun h => by cases h

theorem Locked.onward (h : Locked d d₀ w) (hw : Onward w w') : Locked d d₀ w' where
  later := h.later
  committed := (eq_of_exclusive (h.held ▸ hw.others)).trans h.committed
  held := hw.held.trans h.held
  isolation := hw.isolation.trans h.isolation
  confirmed := hw.confirmed.trans h.confirmed

theorem view_of_readCommitted (h : w.isolation = .readCommitted) : w.view = w.own w.committed := by
  rw [World.view, h]

theorem Locked.view (h : Locked d d₀ w) : w.view = w.own d₀ := by
  rw [view_of_readCommitted h.isolation, h.committed]

theorem checkDatabaseHead_cases (role : String) :
    AtHead I d ∧ checkDatabaseHead role I.expectedHeads d.heads = .ok () ∨
      ¬ AtHead I d ∧ ∃ failure, checkDatabaseHead role I.expectedHeads d.heads =
        .error (.failed failure) := by
  by_cases h : AtHead I d
  · exact .inl ⟨h, if_pos h⟩
  · exact .inr ⟨h, _, if_neg h⟩

theorem ends_requireDatabaseHead {E : Prop} (hE : I.Faulty → E)
    (hw : w.isolation ≠ .repeatableRead none) (hhead : ∀ w', Onward w w' → ¬ AtHead I w'.view → E) :
    (requireDatabaseHead I).Ends w (Reads w E fun w' _ => AtHead I w'.view) := by
  refine ends_read_reads hE hw fun w' hw' => ?_
  rcases checkDatabaseHead_cases (I := I) (d := w'.view) "Target PostgreSQL" with
    ⟨h, heq⟩ | ⟨h, failure, heq⟩
  · rw [heq]
    exact h
  · rw [heq]
    exact ⟨⟨failure, rfl⟩, hhead w' hw' h⟩

/-- The rows of each table are counted under the lock. -/
theorem ends_requireEmptyTarget (hw : Locked d d₀ w) (hown : w.own = id) :
    (requireEmptyTarget I).Ends w (Reads w (ImportRefused I source d)
      fun _ _ => ∀ table ∈ I.tables, d₀.rows table.name = []) := by
  have hloop : (I.tables.foldlM (fun nonempty table => do
      let rowCount ← Session.read fun d => .ok (d.rows table.name).length
      return if rowCount = 0 then nonempty
        else nonempty ++ [table.name ++ ofString ("=" ++ toString rowCount)]) [] :
      Import I (List Str)).Ends w (Reads w (ImportRefused I source d) fun _ nonempty =>
        (nonempty = [] → ∀ table ∈ I.tables, d₀.rows table.name = []) ∧
          (nonempty ≠ [] → ImportRefused I source d)) := by
    refine ends_foldlM_reads (J := fun (done : List Table) (nonempty : List Str) =>
      (nonempty = [] → ∀ table ∈ done, d₀.rows table.name = []) ∧
        (nonempty ≠ [] → ImportRefused I source d))
      ⟨fun _ _ h => absurd h List.not_mem_nil, fun h => absurd rfl h⟩ ?_
    rintro done table rest nonempty w₁ hl hw₁ ⟨hempty, hrefused⟩
    have hlocked := hw.onward hw₁
    refine ends_bind_reads (Q := fun _ rowCount => rowCount = (d₀.rows table.name).length)
      (ends_read_reads .faulty hlocked.settled fun w₂ hw₂ => ?_) fun w₂ rowCount _ hcount => ?_
    · rw [(hlocked.onward hw₂).view, hw₂.own, hw₁.own, hown]
      rfl
    refine Session.ends_pure ⟨.refl w₂, ?_⟩
    split
    · next hzero =>
      refine ⟨fun hnil other hother => ?_, hrefused⟩
      rcases List.mem_append.mp hother with hother | hother
      · exact hempty hnil other hother
      · obtain rfl := List.mem_singleton.mp hother
        exact List.length_eq_zero_iff.mp (hcount.symm.trans hzero)
    · next hsome =>
      refine ⟨fun hnil => by simp at hnil, fun _ => .nonempty hw.later (mem_tables hl) fun h => ?_⟩
      rw [h] at hcount
      exact hsome hcount
  refine ends_bind_reads hloop fun w₁ nonempty _ h => ?_
  obtain ⟨hempty, hrefused⟩ := h
  by_cases hnil : nonempty = []
  · rw [if_pos hnil]
    exact Session.ends_pure ⟨.refl w₁, hempty hnil⟩
  · rw [if_neg hnil]
    exact Session.ends_throw ⟨.refl w₁, ⟨_, rfl⟩, hrefused hnil⟩

/-- What a table of the target has made of the rows of a table of the source. -/
def Took (I : Importer δ) (table : Table) (rows rows' : List Row) : Prop :=
  rows = [] ∧ rows' = [] ∨ ∃ d, I.stored table rows d = some rows'

/-- These tables have been copied, and the others are as they were. -/
structure Copied (source : SourceDatabase) (d d₀ : Target) (done : List Table)
    (w : World I.service (Locals δ)) : Prop extends Locked d d₀ w where
  heads : (w.own d₀).heads = d₀.heads
  rest : ∀ name ∉ done.map Table.name, (w.own d₀).rows name = d₀.rows name
  took : ∀ table ∈ done, ∃ rows, source.select table = .ok rows ∧
    Took I table rows ((w.own d₀).rows table.name)

theorem Copied.onward {done : List Table} (h : Copied source d d₀ done w) (hw : Onward w w') :
    Copied source d d₀ done w' where
  toLocked := h.toLocked.onward hw
  heads := hw.own ▸ h.heads
  rest := hw.own ▸ h.rest
  took := hw.own ▸ h.took

/-- The transaction has failed before COMMIT. -/
def Aborted (I : Importer δ) (source : SourceDatabase) (d : Target)
    (w : World I.service (Locals δ)) (e : ImportError) : Prop :=
  (∃ failure, e = .failed failure) ∧ Later I d w.committed ∧ w.vars.commitConfirmed = false ∧
    ImportRefused I source d

theorem Locked.aborted (h : Locked d d₀ w) {e : ImportError} (he : ∃ failure, e = .failed failure)
    (hE : ImportRefused I source d) : Aborted I source d w e :=
  ⟨he, h.committed ▸ h.later, h.confirmed, hE⟩

/-- A part of the transaction ends with a result of `Q`, or has failed. -/
def Prepares {α : Type} (source : SourceDatabase) (d : Target)
    (Q : World I.service (Locals δ) → α → Prop) (w : World I.service (Locals δ)) :
    Except ImportError α → Prop
  | .ok a => Q w a
  | .error e => Aborted I source d w e

section Prepares

variable {α β : Type} {Q : World I.service (Locals δ) → α → Prop}
  {Q' : World I.service (Locals δ) → β → Prop}

theorem ends_bind_prepares {m : Import I α} {f : α → Import I β}
    (h : m.Ends w (Prepares source d Q))
    (hf : ∀ w' a, Q w' a → (f a).Ends w' (Prepares source d Q')) :
    (m >>= f).Ends w (Prepares source d Q') := by
  refine Session.ends_bind (h.mono fun w' r hr => ?_)
  cases r with
  | error e => exact hr
  | ok a => exact hf w' a hr

theorem Locked.prepares {m : Import I α} (hw : Locked d d₀ w)
    (h : m.Ends w (Reads w (ImportRefused I source d) Q)) :
    m.Ends w (Prepares source d fun w' a => Onward w w' ∧ Q w' a) := by
  refine h.mono fun w' r hr => ?_
  cases r with
  | ok a => exact hr
  | error e => exact (hw.onward hr.1).aborted hr.2.1 hr.2.2

end Prepares

/-- One table more. -/
theorem Copied.insert {done : List Table} {table : Table} {rows rows' : List Row}
    (h : Copied source d d₀ done w) (hnew : table.name ∉ done.map Table.name)
    (hempty : d₀.rows table.name = []) (hrows : source.select table = .ok rows)
    (hstored : I.stored table rows (w.own d₀) = some rows') :
    Copied source d d₀ (done ++ [table])
      ({ w with own := Target.insert table.name rows' ∘ w.own } :
        World I.service (Locals δ)) where
  later := h.later
  committed := h.committed
  held := h.held
  isolation := h.isolation
  confirmed := h.confirmed
  heads := h.heads
  rest := by
    intro name hname
    rw [List.map_append, List.mem_append, not_or, List.map_singleton, List.mem_singleton] at hname
    exact (Function.update_of_ne hname.2 _ _).trans (h.rest name hname.1)
  took := by
    intro other hother
    rcases List.mem_append.mp hother with hother | hother
    · obtain ⟨rows₁, hrows₁, htook⟩ := h.took other hother
      refine ⟨rows₁, hrows₁, ?_⟩
      have hne : other.name ≠ table.name := fun heq => hnew (heq ▸ List.mem_map_of_mem hother)
      have hkept : (Target.insert table.name rows' (w.own d₀)).rows other.name =
          (w.own d₀).rows other.name := Function.update_of_ne hne _ _
      exact hkept.symm ▸ htook
    · obtain rfl := List.mem_singleton.mp hother
      refine ⟨rows, hrows, .inr ⟨_, hstored.trans (congrArg some ?_)⟩⟩
      have hnone : (w.own d₀).rows other.name = [] := (h.rest _ hnew).trans hempty
      refine Eq.symm ((Function.update_self _ _ _).trans ?_)
      rw [hnone, List.nil_append]

/-- A table without rows is left as it is. -/
theorem Copied.skip {done : List Table} {table : Table} (h : Copied source d d₀ done w)
    (hnew : table.name ∉ done.map Table.name) (hempty : d₀.rows table.name = [])
    (hrows : source.select table = .ok []) : Copied source d d₀ (done ++ [table]) w where
  toLocked := h.toLocked
  heads := h.heads
  rest := by
    intro name hname
    rw [List.map_append, List.mem_append, not_or] at hname
    exact h.rest name hname.1
  took := by
    refine List.forall_mem_append.mpr ⟨h.took, fun other hother => ?_⟩
    obtain rfl := List.mem_singleton.mp hother
    exact ⟨[], hrows, .inl ⟨rfl, (h.rest _ hnew).trans hempty⟩⟩

theorem ends_copySnapshot {snapshot : DatabaseSnapshot δ} (hshown : SourceShown I source snapshot)
    (hw : Locked d d₀ w) (hown : w.own = id)
    (hempty : ∀ table ∈ I.tables, d₀.rows table.name = []) :
    (copySnapshot I snapshot).Ends w
      (Prepares source d fun w' _ => Copied source d d₀ I.tables w') := by
  have hstart : Copied source d d₀ [] w :=
    ⟨hw, by rw [hown]; rfl, fun _ _ => by rw [hown]; rfl, fun _ h => absurd h List.not_mem_nil⟩
  refine (Session.ends_foldlM (w := w) (I := fun done _ w' => Copied source d d₀ done w')
    (E := fun e w' => Aborted I source d w' e) ?_ hstart).mono fun w' r hr => ?_
  · intro done table rest _ w₁ hl hcopied
    have hnew := name_notMem hl
    have hnone := hempty table (mem_tables hl)
    obtain ⟨rows, -, hrows, hlookup, -, -⟩ := hshown.shows table (mem_tables hl)
    rw [hlookup]
    cases rows with
    | nil => exact Session.ends_pure (hcopied.skip hnew hnone hrows)
    | cons row rows =>
      refine Session.ends_write fun w₂ hw₂ => ?_
      have hcopied₂ := hcopied.onward (.of_turned hw₂)
      rw [World.look_eq_self hcopied₂.settled, hcopied₂.view]
      cases hstored : I.stored table (row :: rows) (w₂.own d₀) with
      | none =>
        have hrefused : ImportRefused I source d := .refused (mem_tables hl) hrows hstored
        exact ⟨fun e he => ⟨hcopied₂.aborted (failed_of_fault he) (.faulty ⟨e, he⟩),
          hcopied₂.aborted (failed_of_fault he) (.faulty ⟨e, he⟩)⟩,
          hcopied₂.aborted ⟨_, rfl⟩ hrefused⟩
      | some rows' =>
        have hinserted := hcopied₂.insert hnew hnone hrows hstored
        exact ⟨fun e he => ⟨hcopied₂.aborted (failed_of_fault he) (.faulty ⟨e, he⟩),
          hinserted.aborted (failed_of_fault he) (.faulty ⟨e, he⟩)⟩, hinserted⟩
  · cases r with
    | ok _ => exact hr
    | error e => exact hr

theorem Copied.typed (h : Copied source d d₀ I.tables w) : (w.own d₀).Typed I.tables := by
  intro table htable row hrow
  obtain ⟨rows, -, ⟨-, hnil⟩ | ⟨d₁, hstored⟩⟩ := h.took table htable
  · rw [hnil] at hrow
    exact absurd hrow List.not_mem_nil
  · exact I.stored_supports table rows d₁ _ hstored row hrow

theorem Copied.refused (h : Copied source d d₀ I.tables w)
    (hholds : ¬ Holds I source (w.own d₀)) : ImportRefused I source d := by
  by_contra hnot
  refine hholds fun table htable => ?_
  obtain ⟨rows, hrows, ⟨hnil, hnil'⟩ | ⟨d₁, hstored⟩⟩ := h.took table htable
  · exact ⟨rows, hrows, by rw [hnil, hnil']⟩
  · refine ⟨rows, hrows, ?_⟩
    by_contra hne
    exact hnot (.changed htable hrows hstored hne)

/-- A transaction that has no locks of tables and has written nothing. -/
structure Begun (d : Target) (w : World I.service (Locals δ)) : Prop where
  later : Later I d w.committed
  own : w.own = id
  isolation : w.isolation = .readCommitted
  confirmed : w.vars.commitConfirmed = false

theorem Begun.onward (h : Begun d w) (hw : Onward w w') : Begun d w' where
  later := h.later.trans hw.later
  own := hw.own.trans h.own
  isolation := hw.isolation.trans h.isolation
  confirmed := hw.confirmed.trans h.confirmed

theorem Begun.aborted (h : Begun d w) {e : ImportError} (he : ∃ failure, e = .failed failure)
    (hE : ImportRefused I source d) : Aborted I source d w e := ⟨he, h.later, h.confirmed, hE⟩

theorem Begun.settled (h : Begun d w) : w.isolation ≠ .repeatableRead none := by
  rw [h.isolation]
  exact fun h => by cases h

theorem ends_acquire (hw : Begun d w) (held : TargetLock) :
    (Session.acquire held : Import I Unit).Ends w
      (Prepares source d fun w' _ => Begun d w' ∧ w'.held = held) := by
  refine Session.ends_call fun w' hw' => ?_
  have hbegun := hw.onward (.of_turned hw')
  have hlocked : Begun d ({ w' with held } : World I.service (Locals δ)) :=
    ⟨hbegun.later, hbegun.own, hbegun.isolation, hbegun.confirmed⟩
  exact ⟨fun e he => ⟨hbegun.aborted (failed_of_fault he) (.faulty ⟨e, he⟩),
    hlocked.aborted (failed_of_fault he) (.faulty ⟨e, he⟩)⟩, hlocked, rfl⟩

theorem Begun.requireDatabaseHead (hw : Begun d w) : (requireDatabaseHead I).Ends w
    (Prepares source d fun w' _ => Onward w w' ∧ AtHead I w'.committed) := by
  have hview : ∀ w', Onward w w' → w'.view = w'.committed := by
    intro w' hw'
    have hbegun := hw.onward hw'
    rw [view_of_readCommitted hbegun.isolation, hbegun.own]
    rfl
  have hhead : ∀ w', Onward w w' → ¬ AtHead I w'.view → ImportRefused I source d :=
    fun w' hw' h => .schema (hw.onward hw').later (hview w' hw' ▸ h)
  refine (ends_requireDatabaseHead .faulty hw.settled hhead).mono fun w' r hr => ?_
  cases r with
  | ok _ => exact ⟨hr.1, hview w' hr.1 ▸ hr.2⟩
  | error e => exact (hw.onward hr.1).aborted hr.2.1 hr.2.2

/-- What is ready to be committed. -/
structure Prepared (I : Importer δ) (source : SourceDatabase) (d : Target)
    (snapshot : DatabaseSnapshot δ) (w : World I.service (Locals δ))
    (precommit : DatabaseSnapshot δ) : Prop where
  ready : ∃ d₀, Copied source d d₀ I.tables w ∧ AtHead I d₀ ∧
    (∀ table ∈ I.tables, d₀.rows table.name = []) ∧ Holds I source (w.own d₀)
  agree : Agree I snapshot.summaries precommit.summaries

theorem ends_copyVerified [DecidableEq δ] {snapshot : DatabaseSnapshot δ}
    (hsha : Function.Injective I.sha256) (hshown : SourceShown I source snapshot)
    (hw : Begun d w) :
    (copyVerified I snapshot).Ends w (Prepares source d (Prepared I source d snapshot)) := by
  refine ends_bind_prepares (ends_acquire hw _) fun w₁ _ h₁ => ?_
  refine ends_bind_prepares h₁.1.requireDatabaseHead fun w₂ _ h₂ => ?_
  refine ends_bind_prepares (ends_acquire (h₁.1.onward h₂.1) _) fun w₃ _ h₃ => ?_
  refine ends_bind_prepares h₃.1.requireDatabaseHead fun w₄ _ h₄ => ?_
  have hbegun := h₃.1.onward h₄.1
  have hlocked : Locked d w₄.committed w₄ :=
    ⟨hbegun.later, rfl, h₄.1.held.trans h₃.2, hbegun.isolation, hbegun.confirmed⟩
  refine ends_bind_prepares (hlocked.prepares (ends_requireEmptyTarget hlocked hbegun.own))
    fun w₅ _ h₅ => ?_
  refine ends_bind_prepares (ends_copySnapshot hshown (hlocked.onward h₅.1)
    (h₅.1.own.trans hbegun.own) h₅.2) fun w₆ _ hcopied => ?_
  refine ends_bind_prepares (hcopied.toLocked.prepares (ends_snapshotTarget hshown hsha
    hcopied.typed .faulty hcopied.refused hcopied.settled fun w' hw' => ?_)) fun w₇ precommit h₇ => ?_
  · have hlocked' := hcopied.toLocked.onward hw'
    rw [hlocked'.view, hw'.own]
  have hcopied₇ := hcopied.onward h₇.1
  rcases hshown.assert_cases hsha hcopied.typed h₇.2 "precommit" with
    ⟨hholds, hagree, heq⟩ | ⟨hholds, failure, heq⟩
  · refine Session.ends_bind (Session.ends_lift ?_)
    rw [heq]
    refine ends_bind_prepares (hcopied₇.toLocked.prepares
      (ends_emitSummaries .faulty h₇.2 "precommit_target")) fun w₈ _ h₈ => ?_
    refine Session.ends_pure ⟨⟨w₄.committed, hcopied₇.onward h₈.1, h₄.2, h₅.2, ?_⟩, hagree⟩
    rw [h₈.1.own, h₇.1.own]
    exact hholds
  · refine Session.ends_bind (Session.ends_lift ?_)
    rw [heq]
    exact hcopied₇.toLocked.aborted ⟨failure, rfl⟩ (hcopied.refused hholds)

/-- How the transaction ends. -/
def Transacted (I : Importer δ) (source : SourceDatabase) (d : Target)
    (snapshot : DatabaseSnapshot δ) (w : World I.service (Locals δ)) :
    Except ImportError (DatabaseSnapshot δ) → Prop
  | .ok precommit => w.vars.commitConfirmed = true ∧ Imports I source d w.committed ∧
      Agree I snapshot.summaries precommit.summaries
  | .error (.failed _) =>
    w.vars.commitConfirmed = false ∧ Later I d w.committed ∧ ImportRefused I source d
  | .error (.commitOutcomeUnknown _) => w.vars.commitConfirmed = false ∧ I.Faulty ∧
      (Later I d w.committed ∨ Imports I source d w.committed)
  | .error (.committedVerification _) => False

/-- How it has ended once its connection is closed. -/
def Transferred (I : Importer δ) (source : SourceDatabase) (d : Target)
    (snapshot : DatabaseSnapshot δ) (w : World I.service (Locals δ)) :
    Except ImportError (DatabaseSnapshot δ) → Prop
  | .ok precommit => Imports I source d w.committed ∧
      Agree I snapshot.summaries precommit.summaries
  | .error (.failed _) => Later I d w.committed ∧ ImportRefused I source d ∨
      I.Faulty ∧ Imports I source d w.committed
  | .error (.commitOutcomeUnknown _) =>
    I.Faulty ∧ (Later I d w.committed ∨ Imports I source d w.committed)
  | .error (.committedVerification _) => I.Faulty ∧ Imports I source d w.committed

section Commit

variable {snapshot precommit : DatabaseSnapshot δ}

/-- COMMIT makes the import. -/
theorem Prepared.imports (h : Prepared I source d snapshot w precommit) (hw : Onward w w') :
    Imports I source d (w'.own w'.committed) := by
  obtain ⟨⟨d₀, hcopied, hhead, hempty, hholds⟩, -⟩ := h
  rw [(hcopied.toLocked.onward hw).committed, hw.own]
  exact ⟨hcopied.later, hhead, hempty, hcopied.heads, hcopied.rest, hholds, hcopied.typed, .refl⟩

theorem Prepared.confirmed (h : Prepared I source d snapshot w precommit) :
    w.vars.commitConfirmed = false := h.ready.elim fun _ h => h.1.confirmed

theorem Prepared.later (h : Prepared I source d snapshot w precommit) :
    Later I d w.committed := by
  obtain ⟨⟨d₀, hcopied, -⟩, -⟩ := h
  exact hcopied.committed ▸ hcopied.later

/-- A failed part of the transaction is rolled back. -/
theorem Aborted.ends_rollback {e : ImportError} (h : Aborted I source d w e) :
    (do
      Session.rollback
      throw e : Import I (DatabaseSnapshot δ)).Ends w fun w' r =>
        ∃ e', r = .error e' ∧ Aborted I source d w' e' := by
  obtain ⟨hfailed, hlater, hconfirmed, hrefused⟩ := h
  refine Session.ends_bind ((Session.ends_rollback w).mono fun w' r => ?_)
  rintro ⟨hlater', hvars, rfl | ⟨e', rfl, he⟩⟩
  · exact Session.ends_throw ⟨e, rfl, hfailed, hlater.trans hlater', hvars ▸ hconfirmed, hrefused⟩
  · exact ⟨e', rfl, failed_of_fault he, hlater.trans hlater', hvars ▸ hconfirmed, hrefused⟩

theorem Transacted.later {r : Except ImportError (DatabaseSnapshot δ)}
    (h : Transacted I source d snapshot w r) (hlater : Later I w.committed w'.committed)
    (hvars : w'.vars = w.vars) : Transacted I source d snapshot w' r := by
  cases r with
  | ok precommit => exact ⟨hvars ▸ h.1, h.2.1.later hlater, h.2.2⟩
  | error e =>
    cases e with
    | failed failure => exact ⟨hvars ▸ h.1, h.2.1.trans hlater, h.2.2⟩
    | commitOutcomeUnknown message =>
      exact ⟨hvars ▸ h.1, h.2.1, h.2.2.imp (·.trans hlater) (·.later hlater)⟩
    | committedVerification message => exact h

theorem ends_importTransaction [DecidableEq δ] (hsha : Function.Injective I.sha256)
    (hshown : SourceShown I source snapshot) :
    (importTransaction I snapshot).Ends w (Transferred I source w.committed snapshot) := by
  refine Session.ends_bind (Session.ends_assign ?_)
  refine Session.ends_bind (Session.ends_connect ?_)
  refine Session.ends_catch (Session.ends_finally ?_)
  refine Session.Ends.mono (Q := Transacted I source w.committed snapshot) ?_ fun w₁ r hr => ?_
  · refine Session.ends_bind (Session.ends_call fun w₁ hw₁ => ?_)
    have hlater : Later I w.committed w₁.committed := hw₁.meanwhile
    have hconfirmed : w₁.vars.commitConfirmed = false := by rw [hw₁.vars]; rfl
    refine ⟨fun e he => ?_, ?_⟩
    · obtain ⟨failure, rfl⟩ := failed_of_fault he
      exact ⟨⟨hconfirmed, hlater, .faulty ⟨_, he⟩⟩, hconfirmed, hlater, .faulty ⟨_, he⟩⟩
    have hbegun : Begun w.committed ({ w₁.idle with isolation := .readCommitted } :
        World I.service (Locals δ)) := ⟨hlater, rfl, rfl, hconfirmed⟩
    refine Session.ends_bind (Session.ends_catch ((ends_copyVerified hsha hshown hbegun).mono
      fun w₂ r hr => ?_))
    cases r with
    | error e =>
      refine (Aborted.ends_rollback hr).mono fun w₃ r hr => ?_
      obtain ⟨_, rfl, ⟨failure, rfl⟩, hlater₃, hconfirmed₃, hrefused⟩ := hr
      exact ⟨hconfirmed₃, hlater₃, hrefused⟩
    | ok precommit =>
      refine Session.ends_bind (Session.ends_catch (Session.ends_commit fun w₃ hw₃ => ?_))
      have honward := Onward.of_turned hw₃
      have himports := hr.imports honward
      have hlater₃ := hr.later.trans honward.later
      have hconfirmed₃ := honward.confirmed.trans hr.confirmed
      refine ⟨fun e he => ⟨Session.ends_throw ?_, Session.ends_throw ?_⟩, ?_⟩
      · exact ⟨hconfirmed₃, ⟨e, he⟩, .inl hlater₃⟩
      · exact ⟨hconfirmed₃, ⟨e, he⟩, .inr himports⟩
      · refine Session.ends_bind (Session.ends_assign ?_)
        exact Session.ends_pure ⟨rfl, himports, hr.agree⟩
  · refine (Session.ends_rollback w₁).mono fun w₂ s => ?_
    rintro ⟨hlater, hvars, rfl | ⟨e, rfl, he⟩⟩
    · have hr₂ := hr.later hlater hvars
      cases r with
      | ok precommit => exact hr₂.2
      | error e =>
        cases e with
        | commitOutcomeUnknown message => exact Session.ends_throw hr₂.2
        | committedVerification message => exact hr₂.elim
        | failed failure =>
          refine Session.ends_bind (Session.ends_vars ?_)
          dsimp only
          rw [hr₂.1]
          exact Session.ends_throw (.inl hr₂.2)
    · -- the connection could not be closed
      obtain ⟨failure, rfl⟩ := failed_of_fault he
      refine Session.ends_bind (Session.ends_vars ?_)
      dsimp only
      have hr₂ := hr.later hlater hvars
      cases r with
      | ok precommit =>
        rw [hr₂.1]
        exact Session.ends_throw ⟨⟨_, he⟩, hr₂.2.1⟩
      | error e =>
        cases e with
        | commitOutcomeUnknown message =>
          rw [hr₂.1]
          refine Session.ends_throw ?_
          exact hr₂.2.2.imp (fun h => ⟨h, .faulty ⟨_, he⟩⟩) fun h => ⟨⟨_, he⟩, h⟩
        | committedVerification message => exact hr₂.elim
        | failed failure' =>
          rw [hr₂.1]
          exact Session.ends_throw (.inl hr₂.2)

end Commit

end Transaction

/-! ## After COMMIT -/

section Committed

variable {snapshot : DatabaseSnapshot δ} {d₂ : Target}

/-- Why the target is not found as it was committed. -/
def Doubtful (I : Importer δ) (source : SourceDatabase) (d : Target) : Prop :=
  I.Faulty ∨ ∃ d₂, Later I d d₂ ∧ (¬ AtHead I d₂ ∨ ¬ Holds I source d₂)

/-- A transaction that sees `d₂`. -/
structure Looking (d d₂ : Target) (w : World I.service (Locals δ)) : Prop where
  before : Later I d d₂
  after : Later I d₂ w.committed
  isolation : w.isolation = .repeatableRead (some d₂)
  own : w.own = id

theorem Looking.onward (h : Looking d d₂ w) (hw : Onward w w') : Looking d d₂ w' where
  before := h.before
  after := h.after.trans hw.later
  isolation := hw.isolation.trans h.isolation
  own := hw.own.trans h.own

theorem Looking.view (h : Looking d d₂ w) : w.view = d₂ := by
  rw [World.view, h.isolation, h.own]
  rfl

theorem Looking.settled (h : Looking d d₂ w) : w.isolation ≠ .repeatableRead none := by
  rw [h.isolation]
  exact fun h => by cases h

/-- How a part of it ends. -/
def Finds {α : Type} (source : SourceDatabase) (d : Target)
    (Q : World I.service (Locals δ) → α → Prop) (w : World I.service (Locals δ)) :
    Except ImportError α → Prop
  | .ok a => Q w a
  | .error _ => Later I d w.committed ∧ Doubtful I source d

theorem Finds.bind {α β : Type} {Q : World I.service (Locals δ) → α → Prop}
    {Q' : World I.service (Locals δ) → β → Prop} {m : Import I α} {f : α → Import I β}
    (h : m.Ends w (Finds source d Q))
    (hf : ∀ w' a, Q w' a → (f a).Ends w' (Finds source d Q')) :
    (m >>= f).Ends w (Finds source d Q') := by
  refine Session.ends_bind (h.mono fun w' r hr => ?_)
  cases r with
  | error e => exact hr
  | ok a => exact hf w' a hr

/-- The first statement of a snapshot, which looks at the revisions. -/
theorem ends_firstLook (hlater : Later I d w.committed)
    (hw : w.isolation = .repeatableRead none) (hown : w.own = id) :
    (requireDatabaseHead I).Ends w (Finds source d fun w' _ =>
      ∃ d₂, AtHead I d₂ ∧ Looking d d₂ w') := by
  refine Session.ends_read fun w₁ hw₁ => ?_
  have hlater₁ := hlater.trans hw₁.meanwhile
  have hiso := hw₁.isolation.trans hw
  have hlook : w₁.look = { w₁ with isolation := .repeatableRead (some w₁.committed) } := by
    rw [World.look, hiso]
  have hview : w₁.view = w₁.committed := by
    rw [World.view, hiso, hw₁.own, hown]
    rfl
  rw [hlook, hview]
  refine ⟨fun e he => ⟨⟨hlater₁, .inl ⟨e, he⟩⟩, hlater₁, .inl ⟨e, he⟩⟩, ?_⟩
  rcases checkDatabaseHead_cases (I := I) (d := w₁.committed) "Target PostgreSQL" with
    ⟨h, heq⟩ | ⟨h, failure, heq⟩
  · rw [heq]
    exact ⟨w₁.committed, h, hlater₁, .refl, rfl, hw₁.own.trans hown⟩
  · rw [heq]
    exact ⟨hlater₁, .inr ⟨_, hlater₁, .inl h⟩⟩

/-- What the transaction has read. -/
def Looked (I : Importer δ) (d : Target) (w : World I.service (Locals δ))
    (back : DatabaseSnapshot δ) : Prop :=
  ∃ d₂, AtHead I d₂ ∧ TargetShown I d₂ back ∧ Looking d d₂ w

/-- What has been read after COMMIT. -/
def Found (I : Importer δ) (d : Target) (w : World I.service (Locals δ))
    (back : DatabaseSnapshot δ) : Prop :=
  ∃ d₂, AtHead I d₂ ∧ TargetShown I d₂ back ∧ Later I d d₂ ∧ Later I d₂ w.committed

theorem ends_readCommittedTarget (hsha : Function.Injective I.sha256)
    (hshown : SourceShown I source snapshot) (htyped : w.committed.Typed I.tables) :
    (readCommittedTarget I).Ends w (Finds source w.committed (Found I w.committed)) := by
  have hlooks : ∀ w₁ : World I.service (Locals δ), Later I w.committed w₁.committed →
      w₁.isolation = .repeatableRead none → w₁.own = id → (do
        Session.call fun w => (w, .ok ())
        requireDatabaseHead I
        snapshotDatabase I (selectTarget I) : Import I (DatabaseSnapshot δ)).Ends w₁
          (Finds source w.committed (Looked I w.committed)) := by
    intro w₁ hlater hiso hown
    refine Session.ends_bind (Session.ends_call fun w₂ hw₂ => ?_)
    have hlater₂ := hlater.trans hw₂.meanwhile
    refine ⟨fun e he => ⟨⟨hlater₂, .inl ⟨e, he⟩⟩, hlater₂, .inl ⟨e, he⟩⟩, ?_⟩
    refine Finds.bind (ends_firstLook hlater₂ (hw₂.isolation.trans hiso) (hw₂.own.trans hown)) ?_
    rintro w₃ _ ⟨d₂, hhead, hlooking⟩
    refine (ends_snapshotTarget (E := Doubtful I source w.committed) hshown hsha
      (Later.typed hlooking.before htyped) .inl
      (fun h => .inr ⟨d₂, hlooking.before, .inr h⟩) hlooking.settled
      fun w' hw' => (hlooking.onward hw').view).mono fun w₄ r hr => ?_
    cases r with
    | ok back => exact ⟨d₂, hhead, hr.2, hlooking.onward hr.1⟩
    | error e =>
      have hlooking₄ := hlooking.onward hr.1
      exact ⟨hlooking₄.before.trans hlooking₄.after, hr.2.2⟩
  refine Session.ends_bind (Session.ends_connect ?_)
  refine Session.ends_finally (Session.Ends.mono
    (Q := Finds source w.committed (Found I w.committed)) ?_ fun w₁ r hr => ?_)
  · refine Session.ends_bind (Session.ends_call fun w₁ hw₁ => ?_)
    have hlater₁ : Later I w.committed w₁.committed := hw₁.meanwhile
    refine ⟨fun e he => ⟨⟨hlater₁, .inl ⟨e, he⟩⟩, hlater₁, .inl ⟨e, he⟩⟩, ?_⟩
    have hlook := hlooks { w₁.idle with isolation := .repeatableRead none } hlater₁ rfl rfl
    refine Finds.bind (Q := Looked I w.committed)
      (Session.ends_catch (hlook.mono fun w₂ r hr => ?_)) ?_
    · cases r with
      | ok back => exact hr
      | error e =>
        refine Session.ends_bind ((Session.ends_rollback w₂).mono fun w₃ s => ?_)
        rintro ⟨hlater₃, -, rfl | ⟨e', rfl, -⟩⟩
        · exact Session.ends_throw ⟨hr.1.trans hlater₃, hr.2⟩
        · exact ⟨hr.1.trans hlater₃, hr.2⟩
    · rintro w₂ back ⟨d₂, hhead, hback, hlooking⟩
      refine Session.ends_bind (Session.ends_commit fun w₃ hw₃ => ?_)
      have hlooking₃ := hlooking.onward (.of_turned hw₃)
      have hlater₃ := hlooking₃.before.trans hlooking₃.after
      -- nothing has been written
      rw [hlooking₃.own]
      refine ⟨fun e he => ⟨⟨hlater₃, .inl ⟨e, he⟩⟩, hlater₃, .inl ⟨e, he⟩⟩, ?_⟩
      exact Session.ends_pure ⟨d₂, hhead, hback, hlooking₃.before, hlooking₃.after⟩
  · refine (Session.ends_rollback w₁).mono fun w₂ s => ?_
    rintro ⟨hlater, -, rfl | ⟨e, rfl, he⟩⟩
    · cases r with
      | ok back =>
        obtain ⟨d₂, hhead, hback, hbefore, hafter⟩ := hr
        exact ⟨d₂, hhead, hback, hbefore, hafter.trans hlater⟩
      | error e => exact ⟨hr.1.trans hlater, hr.2⟩
    · cases r with
      | ok back =>
        obtain ⟨d₂, -, -, hbefore, hafter⟩ := hr
        exact ⟨(hbefore.trans hafter).trans hlater, .inl ⟨e, he⟩⟩
      | error e' => exact ⟨hr.1.trans hlater, hr.2⟩

/-- How the part after COMMIT ends: the target has been found as it was committed, or the
exception says that it has been committed. -/
def Verified (I : Importer δ) (source : SourceDatabase) (snapshot : DatabaseSnapshot δ)
    (d : Target) (w : World I.service (Locals δ)) :
    Except ImportError (DatabaseSnapshot δ) → Prop
  | .ok back => Agree I snapshot.summaries back.summaries ∧
      ∃ d₂, AtHead I d₂ ∧ Holds I source d₂ ∧ Later I d d₂ ∧ Later I d₂ w.committed
  | .error (.committedVerification _) => Later I d w.committed ∧ Doubtful I source d
  | .error _ => False

theorem ends_verifyCommitted [DecidableEq δ] (hsha : Function.Injective I.sha256)
    (hshown : SourceShown I source snapshot) (htyped : w.committed.Typed I.tables) :
    (verifyCommitted I snapshot).Ends w (Verified I source snapshot w.committed) := by
  refine Session.ends_catch (Session.Ends.mono (Q := Finds source w.committed fun w' back =>
    Agree I snapshot.summaries back.summaries ∧
      ∃ d₂, AtHead I d₂ ∧ Holds I source d₂ ∧ Later I w.committed d₂ ∧ Later I d₂ w'.committed)
    ?_ fun w₁ r hr => ?_)
  · refine Finds.bind (ends_readCommittedTarget hsha hshown htyped) ?_
    rintro w₁ back ⟨d₂, hhead, hback, hbefore, hafter⟩
    refine Session.ends_bind (Session.ends_lift ?_)
    rcases hshown.assert_cases hsha (Later.typed hbefore htyped) hback "postcommit" with
      ⟨hholds, hagree, heq⟩ | ⟨hholds, failure, heq⟩
    · rw [heq]
      refine Session.ends_bind ((ends_emitSummaries (E := I.Faulty) id hback "postcommit_target").mono
        fun w₂ r hr => ?_)
      cases r with
      | ok _ =>
        exact Session.ends_pure ⟨hagree, d₂, hhead, hholds, hbefore, hafter.trans hr.1.later⟩
      | error e => exact ⟨(hbefore.trans hafter).trans hr.1.later, .inl hr.2.2⟩
    · rw [heq]
      exact ⟨hbefore.trans hafter, .inr ⟨d₂, hbefore, .inr hholds⟩⟩
  · cases r with
    | ok back => exact hr
    | error e => exact Session.ends_throw hr

end Committed

/-! ## The whole import -/

/-- How an import ends. -/
def ImportOutcome (I : Importer δ) (source : SourceDatabase) (d : Target)
    (w : World I.service (Locals δ)) : Except ImportError (ImportReport δ) → Prop
  | .ok report => ∃ d₁, Imports I source d d₁ ∧ AtHead I d₁ ∧ Holds I source d₁ ∧
      Later I d₁ w.committed ∧ Agree I report.source report.precommitTarget ∧
      Agree I report.source report.postcommitTarget
  | .error (.failed _) => Later I d w.committed ∧ ImportRefused I source d ∨
      I.Faulty ∧ Imports I source d w.committed
  | .error (.commitOutcomeUnknown _) =>
    I.Faulty ∧ (Later I d w.committed ∨ Imports I source d w.committed)
  | .error (.committedVerification _) => ∃ d₁, Imports I source d d₁ ∧
      Later I d₁ w.committed ∧ Doubtful I source d₁

theorem Imports.before (hlater : Later I d d₀) (h : Imports I source d₀ d') :
    Imports I source d d' := by
  obtain ⟨hbefore, hhead, hempty, hheads, hrest, hholds, htyped, hafter⟩ := h
  exact ⟨hlater.trans hbefore, hhead, hempty, hheads, hrest, hholds, htyped, hafter⟩

theorem ImportRefused.before (hlater : Later I d d₀) (h : ImportRefused I source d₀) :
    ImportRefused I source d := by
  cases h with
  | faulty h => exact .faulty h
  | source h => exact .source h
  | schema h h' => exact .schema (hlater.trans h) h'
  | nonempty h htable h' => exact .nonempty (hlater.trans h) htable h'
  | refused htable hrows h => exact .refused htable hrows h
  | changed htable hrows h h' => exact .changed htable hrows h h'

/-- **An import takes effect in one step or not at all.** However its calls fail and whatever
the others commit, its result says what has become of the target. -/
theorem import_outcome [DecidableEq δ] (hsha : Function.Injective I.sha256) :
    (importSqliteToPostgres I source).Ends w (ImportOutcome I source w.committed) := by
  have hread : (readSource I source).Ends w
      (Reads w (ImportRefused I source w.committed) fun _ snapshot =>
        SourceShown I source snapshot) := ends_readSource .faulty .source
  refine Session.ends_bind (hread.mono fun w₁ r hr => ?_)
  cases r with
  | error e =>
    obtain ⟨honward, ⟨failure, rfl⟩, hrefused⟩ := hr
    exact .inl ⟨honward.later, hrefused⟩
  | ok snapshot =>
    obtain ⟨honward, hshown⟩ := hr
    refine Session.ends_bind ((ends_importTransaction (w := w₁) hsha hshown).mono fun w₂ r hr => ?_)
    cases r with
    | error e =>
      cases e with
      | failed failure =>
        refine hr.imp (fun h => ⟨honward.later.trans h.1, h.2.before honward.later⟩) ?_
        exact fun h => ⟨h.1, h.2.before honward.later⟩
      | commitOutcomeUnknown message =>
        refine ⟨hr.1, hr.2.imp honward.later.trans (·.before honward.later)⟩
      | committedVerification message =>
        exact ⟨_, hr.2.before honward.later, .refl, .inl hr.1⟩
    | ok precommit =>
      obtain ⟨himports, hagree⟩ := hr
      refine Session.ends_bind ((ends_verifyCommitted hsha hshown himports.typed).mono
        fun w₃ r hr => ?_)
      have himports := himports.before honward.later
      cases r with
      | error e =>
        cases e with
        | failed failure => exact hr.elim
        | commitOutcomeUnknown message => exact hr.elim
        | committedVerification message => exact ⟨_, himports, hr.1, hr.2⟩
      | ok postcommit =>
        obtain ⟨hagree', d₂, hhead, hholds, hbefore, hafter⟩ := hr
        exact Session.ends_pure
          ⟨d₂, himports.later hbefore, hhead, hholds, hafter, hagree, hagree'⟩

namespace Sample

/-- Values that every column takes. -/
def plain : Value → Bool
  | .none => true
  | .bool _ => true
  | _ => false

def plainRow (table : Table) (row : Row) : Bool :=
  table.columns.all fun column => (row.lookup column).any plain

theorem supports_of_all {table : Table} {rows : List Row} (h : rows.all (plainRow table) = true) :
    ∀ row ∈ rows, table.Supports row := by
  intro row hrow column hcolumn
  have hplain := List.all_eq_true.mp (List.all_eq_true.mp h row hrow) column hcolumn
  obtain ⟨v, hv, hplain⟩ := (Option.any_eq_true plain _).mp hplain
  refine ⟨v, hv, ?_⟩
  cases v with
  | none =>
    rw [Value.Supported]
    exact trivial
  | bool b =>
    rw [Value.Supported]
    exact trivial
  | _ => cases hplain

def rows : List Row := [[(ofString "id", .bool true), (ofString "value", .none)]]

/-- The rows of a table that takes them. -/
def taken (table : Table) (rows : List Row) : Option (List Row) :=
  if rows.all (plainRow table) then some rows else none

theorem supports_of_taken {table : Table} {rows rows' : List Row}
    (h : taken table rows = some rows') : ∀ row ∈ rows', table.Supports row := by
  rw [taken] at h
  split at h
  · next hall => exact Option.some.inj h ▸ supports_of_all hall
  · cases h

/-- A source with one row. -/
def stopped : SourceDatabase where
  preflight := .ok ()
  select := fun table => (taken table rows).elim (.error .database) .ok
  select_supports := by
    intro table rows' h
    cases htaken : taken table rows with
    | none =>
      rw [htaken] at h
      cases h
    | some taken =>
      rw [htaken] at h
      exact Except.ok.inj h ▸ supports_of_taken htaken
  close := .ok ()

/-- If it is busy, others change the revisions and every call may fail. -/
def importer (busy : Bool) : Importer (List UInt8) where
  sha256 := id
  tables := [sampleTable]
  names_nodup := List.nodup_singleton _
  expectedHeads := [ofString "head"]
  stored := fun table rows _ => taken table rows
  stored_supports := fun _ _ _ _ h => supports_of_taken h
  ordered := fun _ rows => rows
  ordered_perm := fun _ rows => .refl rows
  service := ⟨.free, fun held _ d d' => busy = true ∧ held ≠ .accessExclusive ∧ d'.rows = d.rows,
    fun e => busy = true ∧ e = .failed .database⟩
  free := rfl
  excludes := fun _ _ _ h => absurd rfl h.2.1
  typed := fun _ _ _ _ h hd => fun table htable row hrow => hd table htable row (h.2.2 ▸ hrow)
  fault := fun _ h => .inl h.2

def quiet (busy : Bool) : Fate (importer busy).service where
  others := fun _ _ d => d
  allowed := fun _ _ _ => .refl
  raises := none
  fault := fun _ h => by cases h
  landed := true

/-- The call is carried out and its answer is lost. -/
def lost : Fate (importer true).service where
  others := fun _ _ d => d
  allowed := fun _ _ _ => .refl
  raises := some (.failed .database)
  fault := fun _ h => ⟨rfl, (Option.some.inj h).symm⟩
  landed := true

def empty : Target := ⟨[ofString "head"], fun _ => []⟩

/-- The eleventh call, COMMIT, loses its answer. -/
def lossy : World (importer true).service (Locals (List UInt8)) where
  committed := empty
  own := id
  held := .free
  isolation := .readCommitted
  vars := ⟨false, []⟩
  fates := fun n => if n = 10 then lost else quiet true

def calm : World (importer false).service (Locals (List UInt8)) where
  committed := empty
  own := id
  held := .free
  isolation := .readCommitted
  vars := ⟨false, []⟩
  fates := fun _ => quiet false

end Sample

theorem import_outcome_lossy :
    (importSqliteToPostgres (Sample.importer true) Sample.stopped).Ends Sample.lossy
      (ImportOutcome (Sample.importer true) Sample.stopped Sample.empty) :=
  import_outcome (I := Sample.importer true) (w := Sample.lossy) Function.injective_id

/-! ## On a target of its own -/

/-- Nobody else commits, and no call fails. -/
structure Importer.Calm (I : Importer δ) : Prop where
  step : ∀ held own d d', ¬ I.service.Step held own d d'
  fault : ¬ I.Faulty

theorem Importer.Calm.eq_of_later (h : I.Calm) (hlater : Later I d d') : d' = d := by
  induction hlater with
  | refl => rfl
  | tail _ hstep _ =>
    obtain ⟨held, own, hstep⟩ := hstep
    exact absurd hstep (h.step held own _ _)

/-- The source can be read, and the target takes its rows as they are. -/
structure ImportReady (I : Importer δ) (source : SourceDatabase) : Prop where
  preflight : source.preflight = .ok ()
  close : source.close = .ok ()
  rows : ∀ table ∈ I.tables, ∃ rows s, source.select table = .ok rows ∧
    canonicalTableSummary I.sha256 table rows = .ok s ∧
    ∀ d, ∃ rows', I.stored table rows d = some rows' ∧
      table.contents false rows' = table.contents false rows

theorem ImportReady.not_sourceRefused (h : ImportReady I source) : ¬ SourceRefused I source := by
  intro hrefused
  cases hrefused with
  | preflight hnot => exact hnot h.preflight
  | close hnot => exact hnot h.close
  | select htable hnot =>
    obtain ⟨rows, -, hrows, -⟩ := h.rows _ htable
    exact hnot rows hrows
  | summary htable hrows hnot =>
    obtain ⟨rows, s, hrows', hs, -⟩ := h.rows _ htable
    obtain rfl := Except.ok.inj (hrows.symm.trans hrows')
    exact hnot s hs

theorem ImportReady.not_refused (h : ImportReady I source) (hcalm : I.Calm) (hhead : AtHead I d)
    (hempty : ∀ table ∈ I.tables, d.rows table.name = []) : ¬ ImportRefused I source d := by
  intro hrefused
  cases hrefused with
  | faulty hfaulty => exact hcalm.fault hfaulty
  | source hsource => exact h.not_sourceRefused hsource
  | schema hlater hnot => exact hnot (hcalm.eq_of_later hlater ▸ hhead)
  | nonempty hlater htable hnot => exact hnot (hcalm.eq_of_later hlater ▸ hempty _ htable)
  | @refused d₁ table rows htable hrows hnone =>
    obtain ⟨rows', -, hrows', -, hstored⟩ := h.rows table htable
    obtain rfl := Except.ok.inj (hrows.symm.trans hrows')
    obtain ⟨rows', hsome, -⟩ := hstored d₁
    cases hnone.symm.trans hsome
  | @changed d₁ table rows rows' htable hrows hsome hne =>
    obtain ⟨rows₁, -, hrows₁, -, hstored⟩ := h.rows table htable
    obtain rfl := Except.ok.inj (hrows.symm.trans hrows₁)
    obtain ⟨rows₂, hsome₂, hcontents⟩ := hstored d₁
    obtain rfl := Option.some.inj (hsome.symm.trans hsome₂)
    exact hne hcontents

/-- The target holds what the source does, and is otherwise as it was. -/
structure Imported (I : Importer δ) (source : SourceDatabase) (d d' : Target) : Prop where
  holds : Holds I source d'
  heads : d'.heads = d.heads
  rest : ∀ name ∉ I.tables.map Table.name, d'.rows name = d.rows name

theorem Importer.Calm.imported (h : I.Calm) (himports : Imports I source d d') :
    Imported I source d d' ∧ ∀ table ∈ I.tables, d.rows table.name = [] := by
  obtain ⟨hbefore, -, hempty, hheads, hrest, hholds, -, hafter⟩ := himports
  obtain rfl := h.eq_of_later hbefore
  obtain rfl := h.eq_of_later hafter
  exact ⟨⟨hholds, hheads, hrest⟩, hempty⟩

/-- What the source has rows of has rows in the target. -/
theorem Holds.rows_ne_nil {table : Table} {row : Row} {rows : List Row} (h : Holds I source d)
    (htable : table ∈ I.tables) (hrows : source.select table = .ok (row :: rows)) :
    d.rows table.name ≠ [] := by
  intro hnil
  obtain ⟨rows', hrows', hcontents⟩ := h table htable
  obtain rfl := Except.ok.inj (hrows.symm.trans hrows')
  rw [hnil] at hcontents
  have hcard := congrArg Multiset.card hcontents
  rw [Table.contents, Table.contents, Multiset.coe_card, Multiset.coe_card] at hcard
  cases hcard

/-- A second import finds the rows of the first and is refused. -/
theorem Imported.again [DecidableEq δ] {d : Target} {table : Table} {row : Row} {rows : List Row}
    (hsha : Function.Injective I.sha256) (hcalm : I.Calm) (h : Imported I source d w.committed)
    (htable : table ∈ I.tables) (hrows : source.select table = .ok (row :: rows)) :
    (importSqliteToPostgres I source).Ends w fun w' r =>
      w'.committed = w.committed ∧ ∃ failure, r = .error (.failed failure) := by
  have hnot : ∀ {d' : Target}, ¬ Imports I source w.committed d' := fun himports =>
    h.holds.rows_ne_nil htable hrows ((hcalm.imported himports).2 table htable)
  refine (import_outcome hsha).mono fun w' r hr => ?_
  cases r with
  | ok report =>
    obtain ⟨d₁, himports, -⟩ := hr
    exact absurd himports hnot
  | error e =>
    cases e with
    | failed failure =>
      rcases hr with ⟨hlater, -⟩ | ⟨hfaulty, -⟩
      · exact ⟨hcalm.eq_of_later hlater, failure, rfl⟩
      · exact absurd hfaulty hcalm.fault
    | commitOutcomeUnknown message => exact absurd hr.1 hcalm.fault
    | committedVerification message =>
      obtain ⟨d₁, himports, -⟩ := hr
      exact absurd himports hnot

/-- **Once.** With nothing in its way an import makes the target hold what the source does, and
the next one is refused. -/
theorem import_once [DecidableEq δ] {table : Table} {row : Row} {rows : List Row}
    (hsha : Function.Injective I.sha256) (hcalm : I.Calm) (hready : ImportReady I source)
    (hhead : AtHead I w.committed) (hempty : ∀ table ∈ I.tables, w.committed.rows table.name = [])
    (htable : table ∈ I.tables) (hrows : source.select table = .ok (row :: rows)) :
    (importSqliteToPostgres I source).Ends w fun w' r =>
      Imported I source w.committed w'.committed ∧ exitStatus r = some 0 ∧
        (importSqliteToPostgres I source).Ends w' fun w'' r' =>
          w''.committed = w'.committed ∧ ∃ failure, r' = .error (.failed failure) := by
  have hdone : ∀ {w' : World I.service (Locals δ)} {d₁ : Target},
      Imports I source w.committed d₁ → Later I d₁ w'.committed →
        Imported I source w.committed w'.committed := fun himports hlater =>
    (hcalm.imported (himports.later hlater)).1
  refine (import_outcome hsha).mono fun w' r hr => ?_
  cases r with
  | ok report =>
    obtain ⟨d₁, himports, -, -, hlater, -⟩ := hr
    have himported := hdone himports hlater
    exact ⟨himported, rfl, himported.again hsha hcalm htable hrows⟩
  | error e =>
    exfalso
    cases e with
    | failed failure =>
      rcases hr with ⟨-, hrefused⟩ | ⟨hfaulty, -⟩
      · exact hready.not_refused hcalm hhead hempty hrefused
      · exact hcalm.fault hfaulty
    | commitOutcomeUnknown message => exact hcalm.fault hr.1
    | committedVerification message =>
      obtain ⟨d₁, himports, -, hdoubt⟩ := hr
      obtain ⟨⟨hholds, hheads, -⟩, -⟩ := hcalm.imported himports
      rcases hdoubt with hfaulty | ⟨d₂, hlater, hnot⟩
      · exact hcalm.fault hfaulty
      · obtain rfl := hcalm.eq_of_later hlater
        rcases hnot with hnot | hnot
        · exact hnot (by rw [AtHead, hheads]; exact hhead)
        · exact hnot hholds

namespace Sample

theorem calm_importer : (importer false).Calm where
  step := fun _ _ _ _ h => Bool.false_ne_true h.1
  fault := fun h => h.elim fun _ he => Bool.false_ne_true he.1

theorem select_stopped : stopped.select sampleTable = .ok rows := rfl

theorem ready_stopped : ImportReady (importer false) stopped where
  preflight := rfl
  close := rfl
  rows := by
    intro table htable
    obtain rfl := List.mem_singleton.mp htable
    obtain ⟨s, hs⟩ := exists_of_toBool (show (canonicalTableSummary id sampleTable rows).toBool =
      true by decide +kernel)
    exact ⟨rows, s, rfl, hs, fun _ => ⟨rows, rfl, rfl⟩⟩

end Sample

theorem import_once_calm :
    (importSqliteToPostgres (Sample.importer false) Sample.stopped).Ends Sample.calm fun w' r =>
      Imported (Sample.importer false) Sample.stopped Sample.empty w'.committed ∧
        exitStatus r = some 0 ∧
        (importSqliteToPostgres (Sample.importer false) Sample.stopped).Ends w' fun w'' r' =>
          w''.committed = w'.committed ∧ ∃ failure, r' = .error (.failed failure) :=
  import_once (I := Sample.importer false) (w := Sample.calm) Function.injective_id
    Sample.calm_importer Sample.ready_stopped ⟨fun _ h => h, fun _ h => h⟩ (fun _ _ => rfl)
    (List.mem_singleton_self sampleTable) Sample.select_stopped

end SqliteImport

end LLMBenchLab
