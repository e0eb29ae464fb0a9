import LLMBenchLab.CanonicalValues
import Mathlib.Data.List.Perm.Basic
import Mathlib.Data.Multiset.Defs

/-!
# Table digests of the SQLite import

`canonical_table_summary` (`db/import_sqlite.py`) reduces the rows of a table to two
digests: the canonical bytes of every row are sorted, framed by their lengths and hashed.
With a hash that has no collisions, two tables have one summary exactly if they hold the
same rows as often, in any order (`table_digests_characterize`): payloads are read back
from their frames, and the multiset of payloads from their sorted list.
-/

namespace LLMBenchLab

namespace SqliteImport

open Python
open Text (Str ofString)
open Codes

/-! ## Rows and tables -/

/-- The order of bytes objects. -/
def bytesBefore (p q : List UInt8) : Prop := p.map UInt8.toNat ≤ q.map UInt8.toNat

instance (p q : List UInt8) : Decidable (bytesBefore p q) := inferInstanceAs (Decidable (_ ≤ _))

/-- `n.to_bytes(8, byteorder="big")` of a number that fits -/
def bigEndian8 (n : ℕ) : List UInt8 := (places 256 8 n).map UInt8.ofNat

/-- What one payload adds to the digest. -/
def frame (payload : List UInt8) : Except DigestError (List UInt8) :=
  if payload.length < 256 ^ 8 then .ok (bigEndian8 payload.length ++ payload)
  else .error .frameLength

variable {δ : Type}

/-- `_digest_payloads`, with the hash as a parameter -/
def digestPayloads (sha256 : List UInt8 → δ) (payloads : List (List UInt8)) :
    Except DigestError δ :=
  ((payloads.insertionSort bytesBefore).mapM frame).map fun frames => sha256 frames.flatten

/-- A table: its name, its columns and those of its primary key. -/
structure Table where
  name : Str
  columns : List Str
  primaryKey : List Str
  primaryKey_subset : primaryKey ⊆ columns
  columns_scalar : ∀ column ∈ columns, Text.Scalar column

abbrev Row := List (Str × Value)

/-- `(column.name, row[column.name])` -/
def Table.cell (table : Table) (row : Row) (column : Str) : Except DigestError Value :=
  match row.lookup column with
  | some value => .ok (.sequence true [.str column, value])
  | none => .error (.sqliteImport
      (ofString "Table " ++ table.name ++ ofString " summary is missing column " ++ column))

/-- The payloads of a row and of its primary key. -/
def Table.rowPayloads (table : Table) (row : Row) :
    Except DigestError (List UInt8 × List UInt8) := do
  let rowValues ← table.columns.mapM (table.cell row)
  let primaryKeyValues ← table.primaryKey.mapM (table.cell row)
  let rowPayload ← canonicalJsonBytes (.sequence true rowValues)
  let primaryKeyPayload ← canonicalJsonBytes (.sequence true primaryKeyValues)
  .ok (rowPayload, primaryKeyPayload)

/-- `TableSummary` -/
structure TableSummary (δ : Type) where
  rowCount : ℕ
  pkSetDigest : δ
  canonicalRowDigest : δ

/-- `canonical_table_summary` -/
def canonicalTableSummary (sha256 : List UInt8 → δ) (table : Table) (rows : List Row) :
    Except DigestError (TableSummary δ) :=
  if table.primaryKey = [] then
    .error (.sqliteImport (ofString "Table " ++ table.name ++ ofString " has no primary key"))
  else do
    let payloads ← rows.mapM table.rowPayloads
    let pkSetDigest ← digestPayloads sha256 (payloads.map Prod.snd)
    let canonicalRowDigest ← digestPayloads sha256 (payloads.map Prod.fst)
    .ok { rowCount := rows.length, pkSetDigest, canonicalRowDigest }

/-! ### Payloads and digests -/

/-- A payload behind its length. -/
def framed (payload : List UInt8) : List UInt8 := bigEndian8 payload.length ++ payload

theorem prefixCode_bigEndian8 : PrefixCode (· < 256 ^ 8) bigEndian8 := by
  refine prefixCode_places (by decide) fun i j hi hj h => ?_
  have htoNat := congrArg UInt8.toNat h
  rwa [UInt8.toNat_ofNat_of_lt' hi, UInt8.toNat_ofNat_of_lt' hj] at htoNat

theorem prefixCode_framed :
    PrefixCode (fun payload : List UInt8 => payload.length < 256 ^ 8) framed := by
  intro p q hp hq x y h
  rw [framed, framed, List.append_assoc, List.append_assoc] at h
  obtain ⟨hlength, hrest⟩ := prefixCode_bigEndian8 hp hq h
  exact List.append_inj hrest hlength

theorem framed_ne_nil (payload : List UInt8) : framed payload ≠ [] := by
  intro h
  have hlength := congrArg List.length (List.append_eq_nil_iff.mp h).1
  rw [bigEndian8, List.length_map, length_places] at hlength
  cases hlength

instance : Std.Total bytesBefore := ⟨fun p q => le_total (p.map UInt8.toNat) (q.map UInt8.toNat)⟩

instance : IsTrans (List UInt8) bytesBefore :=
  ⟨fun _ _ _ hpq hqr => le_trans (α := List ℕ) hpq hqr⟩

instance : Std.Antisymm bytesBefore where
  antisymm p q hpq hqp := by
    have hinj : Function.Injective UInt8.toNat := fun _ _ h => UInt8.toNat_inj.mp h
    exact hinj.list_map (le_antisymm hpq hqp)

/-- The sorted payloads are the same exactly if the payloads are, as often. -/
theorem sorted_eq_iff {ps qs : List (List UInt8)} :
    ps.insertionSort bytesBefore = qs.insertionSort bytesBefore ↔ ps.Perm qs := by
  have hps := List.perm_insertionSort bytesBefore ps
  have hqs := List.perm_insertionSort bytesBefore qs
  constructor
  · intro h
    exact hps.symm.trans (h ▸ hqs)
  · intro h
    exact (hps.trans (h.trans hqs.symm)).eq_of_pairwise' (List.pairwise_insertionSort _ _)
      (List.pairwise_insertionSort _ _)

section Digests

variable {sha256 : List UInt8 → δ}

theorem frame_eq_ok {p b : List UInt8} :
    frame p = .ok b ↔ p.length < 256 ^ 8 ∧ b = framed p := by
  rw [frame]
  split
  · next hfits => exact ⟨fun h => ⟨hfits, (Except.ok.inj h).symm⟩, fun h => congrArg _ h.2.symm⟩
  · next hlong => exact iff_of_false (by rintro ⟨⟩) fun h => absurd h.1 hlong

theorem mapM_frame_eq_ok {ps frames : List (List UInt8)} : ps.mapM frame = .ok frames ↔
    (∀ p ∈ ps, p.length < 256 ^ 8) ∧ frames = ps.map framed := by
  induction ps generalizing frames with
  | nil =>
    rw [mapM_eq_ok, List.forall₂_nil_left_iff]
    exact ⟨fun h => ⟨fun _ hp => absurd hp List.not_mem_nil, h⟩, fun h => h.2⟩
  | cons p ps ih =>
    rw [List.mapM_cons, bind_eq_ok, List.forall_mem_cons]
    constructor
    · rintro ⟨b, hb, h⟩
      obtain ⟨bs, hbs, h⟩ := bind_eq_ok.mp h
      obtain ⟨hp, rfl⟩ := frame_eq_ok.mp hb
      obtain ⟨hps, rfl⟩ := ih.mp hbs
      exact ⟨⟨hp, hps⟩, (Except.ok.inj h).symm⟩
    · rintro ⟨⟨hp, hps⟩, rfl⟩
      exact ⟨_, frame_eq_ok.mpr ⟨hp, rfl⟩, bind_eq_ok.mpr ⟨_, ih.mpr ⟨hps, rfl⟩, rfl⟩⟩

/-- The length is the only thing a frame can fail for. -/
theorem mapM_frame_cases (ps : List (List UInt8)) :
    (∃ frames, ps.mapM frame = .ok frames) ∨ ps.mapM frame = .error .frameLength := by
  induction ps with
  | nil => exact Or.inl ⟨[], rfl⟩
  | cons p ps ih =>
    rw [List.mapM_cons, frame]
    split
    · rcases ih with ⟨frames, hframes⟩ | hlong
      · exact Or.inl ⟨_, by rw [hframes]; rfl⟩
      · exact Or.inr (by rw [hlong]; rfl)
    · exact Or.inr rfl

theorem digestPayloads_cases (ps : List (List UInt8)) :
    (∃ d, digestPayloads sha256 ps = .ok d) ∨
      digestPayloads sha256 ps = .error .frameLength := by
  rcases mapM_frame_cases (ps.insertionSort bytesBefore) with ⟨frames, hframes⟩ | hlong
  · exact Or.inl ⟨_, map_eq_ok.mpr ⟨frames, hframes, rfl⟩⟩
  · exact Or.inr (by rw [digestPayloads, hlong]; rfl)

theorem digestPayloads_eq_ok {ps : List (List UInt8)} {d : δ} :
    digestPayloads sha256 ps = .ok d ↔ (∀ p ∈ ps, p.length < 256 ^ 8) ∧
      d = sha256 ((ps.insertionSort bytesBefore).flatMap framed) := by
  have hmem : (∀ p ∈ ps.insertionSort bytesBefore, p.length < 256 ^ 8) ↔
      ∀ p ∈ ps, p.length < 256 ^ 8 := by
    simp only [List.mem_insertionSort]
  rw [digestPayloads, map_eq_ok]
  constructor
  · rintro ⟨frames, hframes, rfl⟩
    obtain ⟨hps, rfl⟩ := mapM_frame_eq_ok.mp hframes
    exact ⟨hmem.mp hps, by rw [List.flatMap_def]⟩
  · rintro ⟨hps, rfl⟩
    exact ⟨_, mapM_frame_eq_ok.mpr ⟨hmem.mpr hps, rfl⟩, by rw [List.flatMap_def]⟩

/-- Digests are the same exactly if the payloads are. -/
theorem digestPayloads_eq_iff (hsha : Function.Injective sha256) {ps qs : List (List UInt8)}
    {d d' : δ} (hd : digestPayloads sha256 ps = .ok d) (hd' : digestPayloads sha256 qs = .ok d') :
    d = d' ↔ ps.Perm qs := by
  obtain ⟨hps, rfl⟩ := digestPayloads_eq_ok.mp hd
  obtain ⟨hqs, rfl⟩ := digestPayloads_eq_ok.mp hd'
  rw [← sorted_eq_iff]
  refine ⟨fun h => ?_, fun h => by rw [h]⟩
  refine prefixCode_framed.flatMap_inj (fun p _ => framed_ne_nil p) ?_ ?_ (hsha h)
  · exact fun p hp => hps p ((List.mem_insertionSort _).mp hp)
  · exact fun q hq => hqs q ((List.mem_insertionSort _).mp hq)

end Digests

/-! ### Rows -/

/-- A row that has every column, with a supported value. -/
def Table.Supports (table : Table) (row : Row) : Prop :=
  ∀ column ∈ table.columns, ∃ v, row.lookup column = some v ∧ v.Supported

/-- What a row holds, column by column. -/
def Table.rowContent (table : Table) (strict : Bool) (row : Row) : List (Option Content) :=
  table.columns.map fun column => (row.lookup column).map (Value.content strict)

/-- The rows of a table as a multiset of what they hold. -/
def Table.contents (table : Table) (strict : Bool) (rows : List Row) :
    Multiset (List (Option Content)) :=
  ↑(rows.map (table.rowContent strict))

/-- The pair of a column, where the row has it. -/
def cellValue (row : Row) (column : Str) : Value :=
  .sequence true [.str column, (row.lookup column).getD .none]

/-- The tuple of pairs that is written for a row. -/
def rowValue (row : Row) (columns : List Str) : Value :=
  .sequence true (columns.map (cellValue row))

section Rows

variable {table : Table} {row row' : Row} {columns : List Str}

theorem mapM_cell (h : table.Supports row) (hsub : columns ⊆ table.columns) :
    columns.mapM (table.cell row) = .ok (columns.map (cellValue row)) := by
  induction columns with
  | nil => rfl
  | cons column rest ih =>
    obtain ⟨hcolumn, hrest⟩ := List.cons_subset.mp hsub
    obtain ⟨v, hv, -⟩ := h column hcolumn
    rw [List.mapM_cons, ih hrest, Table.cell, List.map_cons, cellValue, hv]
    rfl

theorem supported_rowValue (h : table.Supports row) (hsub : columns ⊆ table.columns) :
    (rowValue row columns).Supported := by
  rw [rowValue, Value.Supported, Value.supportedItems_iff]
  intro cell hcell
  obtain ⟨column, hcolumn, rfl⟩ := List.mem_map.mp hcell
  obtain ⟨v, hv, hsupported⟩ := h column (hsub hcolumn)
  rw [cellValue, hv, Value.Supported, Value.supportedItems_iff]
  intro w hw
  rcases List.mem_pair.mp hw with rfl | rfl
  · rw [Value.Supported]
    exact table.columns_scalar column (hsub hcolumn)
  · exact hsupported

/-- Two tuples hold the same exactly if the columns do. -/
theorem content_rowValue_eq_iff (h : table.Supports row) (h' : table.Supports row')
    (hsub : columns ⊆ table.columns) :
    (rowValue row columns).content false = (rowValue row' columns).content false ↔
      ∀ column ∈ columns, (row.lookup column).map (Value.content false) =
        (row'.lookup column).map (Value.content false) := by
  rw [rowValue, rowValue, Value.content, Value.content, Content.sequence.injEq,
    Value.contentItems_eq, Value.contentItems_eq, List.map_map, List.map_map, List.map_inj_left]
  simp only [true_and]
  refine forall₂_congr fun column hcolumn => ?_
  obtain ⟨v, hv, -⟩ := h column (hsub hcolumn)
  obtain ⟨v', hv', -⟩ := h' column (hsub hcolumn)
  simp only [Function.comp_apply, cellValue, hv, hv', Option.getD_some, Option.map_some,
    Value.content, Value.contentItems, Content.sequence.injEq, List.cons.injEq, true_and, and_true,
    Option.some.injEq]

theorem rowContent_eq_iff : table.rowContent false row = table.rowContent false row' ↔
    ∀ column ∈ table.columns, (row.lookup column).map (Value.content false) =
      (row'.lookup column).map (Value.content false) := by
  rw [Table.rowContent, Table.rowContent, List.map_inj_left]

/-- The bytes of a supported row in these columns. -/
def payload (row : Row) (columns : List Str) : List UInt8 :=
  (canonicalJsonBytes (rowValue row columns)).toOption.getD []

theorem canonicalJsonBytes_rowValue (h : table.Supports row) (hsub : columns ⊆ table.columns) :
    canonicalJsonBytes (rowValue row columns) = .ok (payload row columns) := by
  obtain ⟨-, b, -, -, hb⟩ := canonicalJsonBytes_total (supported_rowValue h hsub)
  rw [payload, hb]
  rfl

/-- The payloads of a row are the bytes of its tuple and of that of its primary key. -/
theorem rowPayloads_eq (h : table.Supports row) : table.rowPayloads row =
    .ok (payload row table.columns, payload row table.primaryKey) := by
  have hrow := canonicalJsonBytes_rowValue h (List.Subset.refl table.columns)
  have hkey := canonicalJsonBytes_rowValue h table.primaryKey_subset
  rw [Table.rowPayloads, mapM_cell h (List.Subset.refl _), mapM_cell h table.primaryKey_subset]
  change (canonicalJsonBytes (rowValue row table.columns) >>= fun rowPayload =>
    canonicalJsonBytes (rowValue row table.primaryKey) >>= fun primaryKeyPayload =>
      Except.ok (rowPayload, primaryKeyPayload)) = _
  rw [hrow, hkey]
  rfl

/-- Two payloads are the same exactly if the columns hold the same. -/
theorem payload_eq_iff (h : table.Supports row) (h' : table.Supports row')
    (hsub : columns ⊆ table.columns) : payload row columns = payload row' columns ↔
      ∀ column ∈ columns, (row.lookup column).map (Value.content false) =
        (row'.lookup column).map (Value.content false) := by
  rw [← content_rowValue_eq_iff h h' hsub,
    ← canonicalJsonBytes_eq_iff (supported_rowValue h hsub) (supported_rowValue h' hsub),
    canonicalJsonBytes_rowValue h hsub, canonicalJsonBytes_rowValue h' hsub, Except.ok.injEq]

end Rows

/-! ### Tables -/

/-- A relabelling of the items is a relabelling of the multiset. -/
theorem perm_map_of_imp {α β γ : Type} {f : α → β} {g : α → γ} {l l' : List α}
    (h : ∀ a ∈ l ++ l', ∀ b ∈ l ++ l', f a = f b → g a = g b)
    (hperm : (l.map f).Perm (l'.map f)) : (l.map g).Perm (l'.map g) := by
  have hfactors : Function.FactorsThrough (fun a : { a // a ∈ l ++ l' } => some (g a))
      (fun a : { a // a ∈ l ++ l' } => f a) :=
    fun a b hab => congrArg some (h a a.2 b b.2 hab)
  obtain ⟨relabel, hrelabel⟩ :
      ∃ relabel : β → Option γ, ∀ a ∈ l ++ l', relabel (f a) = some (g a) :=
    ⟨_, fun a ha => hfactors.extend_apply (fun _ => none) ⟨a, ha⟩⟩
  have hmap : ∀ {k : List α}, k ⊆ l ++ l' → (k.map f).map relabel = (k.map g).map some := by
    intro k hk
    rw [List.map_map, List.map_map]
    exact List.map_congr_left fun a ha => hrelabel a (hk ha)
  have hrelabelled := hperm.map relabel
  rw [hmap (List.subset_append_left l l'), hmap (List.subset_append_right l l')] at hrelabelled
  exact (List.map_perm_map_iff (Option.some_injective γ)).mp hrelabelled

section Tables

variable {sha256 : List UInt8 → δ} {table : Table} {rows rows' : List Row}

theorem mapM_rowPayloads (h : ∀ row ∈ rows, table.Supports row) :
    rows.mapM table.rowPayloads =
      .ok (rows.map fun row => (payload row table.columns, payload row table.primaryKey)) := by
  rw [mapM_eq_ok, List.forall₂_map_right_iff]
  exact List.forall₂_same.mpr fun row hrow => rowPayloads_eq (h row hrow)

/-- The summary of supported rows: two digests, one after the other. -/
theorem canonicalTableSummary_eq (hkey : table.primaryKey ≠ [])
    (h : ∀ row ∈ rows, table.Supports row) : canonicalTableSummary sha256 table rows =
      (digestPayloads sha256 (rows.map fun row => payload row table.primaryKey) >>=
        fun pkSetDigest =>
          digestPayloads sha256 (rows.map fun row => payload row table.columns) >>=
            fun canonicalRowDigest =>
              .ok { rowCount := rows.length, pkSetDigest, canonicalRowDigest }) := by
  rw [canonicalTableSummary, if_neg hkey, mapM_rowPayloads h]
  change (digestPayloads sha256 _ >>= fun pkSetDigest => digestPayloads sha256 _ >>=
    fun canonicalRowDigest => Except.ok _) = _
  rw [List.map_map, List.map_map]
  rfl

theorem canonicalTableSummary_eq_ok (hkey : table.primaryKey ≠ [])
    (h : ∀ row ∈ rows, table.Supports row) {s : TableSummary δ} :
    canonicalTableSummary sha256 table rows = .ok s ↔ s.rowCount = rows.length ∧
      digestPayloads sha256 (rows.map fun row => payload row table.primaryKey) =
        .ok s.pkSetDigest ∧
      digestPayloads sha256 (rows.map fun row => payload row table.columns) =
        .ok s.canonicalRowDigest := by
  rw [canonicalTableSummary_eq hkey h, bind_eq_ok]
  constructor
  · rintro ⟨pk, hpk, hrest⟩
    obtain ⟨canonical, hcanonical, hs⟩ := bind_eq_ok.mp hrest
    obtain rfl := Except.ok.inj hs
    exact ⟨rfl, hpk, hcanonical⟩
  · rintro ⟨hcount, hpk, hcanonical⟩
    refine ⟨s.pkSetDigest, hpk, bind_eq_ok.mpr ⟨s.canonicalRowDigest, hcanonical, ?_⟩⟩
    rw [← hcount]

/-- Only a payload that is too long for its frame stops a summary of supported rows. -/
theorem canonicalTableSummary_cases (hkey : table.primaryKey ≠ [])
    (h : ∀ row ∈ rows, table.Supports row) :
    (∃ s, canonicalTableSummary sha256 table rows = .ok s) ∨
      canonicalTableSummary sha256 table rows = .error .frameLength := by
  have hcases : ∀ ps, (∃ d, digestPayloads sha256 ps = .ok d) ∨
      digestPayloads sha256 ps = .error .frameLength := digestPayloads_cases
  rw [canonicalTableSummary_eq hkey h]
  rcases hcases (rows.map fun row => payload row table.primaryKey) with ⟨pk, hpk⟩ | hlong
  · rcases hcases (rows.map fun row => payload row table.columns) with ⟨canonical, hc⟩ | hlong
    · exact Or.inl ⟨_, by rw [hpk, hc]; rfl⟩
    · exact Or.inr (by rw [hpk, hlong]; rfl)
  · exact Or.inr (by rw [hlong]; rfl)

/-- **Table digests.** Two tables of supported rows have one summary exactly if they hold the
same rows, each as often. -/
theorem table_digests_characterize (hsha : Function.Injective sha256)
    (hkey : table.primaryKey ≠ []) (h : ∀ row ∈ rows, table.Supports row)
    (h' : ∀ row ∈ rows', table.Supports row) :
    ((∃ s, canonicalTableSummary sha256 table rows = .ok s) ∨
      canonicalTableSummary sha256 table rows = .error .frameLength) ∧
    ∀ s s', canonicalTableSummary sha256 table rows = .ok s →
      canonicalTableSummary sha256 table rows' = .ok s' →
      (s = s' ↔ table.contents false rows = table.contents false rows') := by
  refine ⟨canonicalTableSummary_cases hkey h, fun s s' hs hs' => ?_⟩
  obtain ⟨hcount, hpk, hcanonical⟩ := (canonicalTableSummary_eq_ok hkey h).mp hs
  obtain ⟨hcount', hpk', hcanonical'⟩ := (canonicalTableSummary_eq_ok hkey h').mp hs'
  have hsupports : ∀ row ∈ rows ++ rows', table.Supports row :=
    fun row hrow => (List.mem_append.mp hrow).elim (h row) (h' row)
  rw [Table.contents, Table.contents, Multiset.coe_eq_coe]
  constructor
  · rintro rfl
    refine perm_map_of_imp ?_ ((digestPayloads_eq_iff hsha hcanonical hcanonical').mp rfl)
    intro row hrow row' hrow' hpayload
    rw [rowContent_eq_iff]
    exact (payload_eq_iff (hsupports row hrow) (hsupports row' hrow')
      (List.Subset.refl _)).mp hpayload
  · intro hperm
    have hpayloads : ∀ columns ⊆ table.columns, (rows.map fun row => payload row columns).Perm
        (rows'.map fun row => payload row columns) := by
      intro columns hsub
      refine perm_map_of_imp ?_ hperm
      intro row hrow row' hrow' hcontent
      refine (payload_eq_iff (hsupports row hrow) (hsupports row' hrow') hsub).mpr ?_
      exact fun column hcolumn => rowContent_eq_iff.mp hcontent column (hsub hcolumn)
    have hlength : rows.length = rows'.length := by
      have := hperm.length_eq
      rwa [List.length_map, List.length_map] at this
    have hpks := (digestPayloads_eq_iff hsha hpk hpk').mpr (hpayloads _ table.primaryKey_subset)
    have hrows :=
      (digestPayloads_eq_iff hsha hcanonical hcanonical').mpr (hpayloads _ (List.Subset.refl _))
    cases s
    cases s'
    simp only [TableSummary.mk.injEq]
    exact ⟨hcount.trans (hlength.trans hcount'.symm), hpks, hrows⟩

end Tables

/-! ### Samples -/

def sampleTable : Table where
  name := ofString "reports"
  columns := [ofString "id", ofString "value"]
  primaryKey := [ofString "id"]
  primaryKey_subset := by decide
  columns_scalar := by
    intro column hcolumn
    rcases List.mem_pair.mp hcolumn with rfl | rfl
    · exact Text.scalar_ofString _
    · exact Text.scalar_ofString _

def sampleRow (id : String) (v : Value) : Row :=
  [(ofString "id", .str (ofString id)), (ofString "value", v)]

theorem supports_sampleRow {id : String} {v : Value} (h : v.Supported) :
    sampleTable.Supports (sampleRow id v) := by
  intro column hcolumn
  rcases List.mem_pair.mp hcolumn with rfl | rfl
  · refine ⟨.str (ofString id), rfl, ?_⟩
    rw [Value.Supported]
    exact Text.scalar_ofString id
  · exact ⟨v, rfl, h⟩

/-- 1.50 and 1.5, minus zero and zero, in two orders. -/
theorem table_digests_characterize_sample : ∃ s,
    canonicalTableSummary id sampleTable
      [sampleRow "a" (.decimal (.finite false 150 (-2))),
        sampleRow "b" (.float (.finite true 0 0))] = .ok s ∧
    canonicalTableSummary id sampleTable
      [sampleRow "b" (.float .zero), sampleRow "a" (.decimal (.finite false 15 (-1)))] = .ok s := by
  have hdecimal : ∀ c e, (digitsOf c).length ≤ 28 → -1000026 ≤ e → e ≤ 999972 →
      (Value.decimal (.finite false c e)).Supported := by
    intro c e hc hlow hhigh
    rw [Value.Supported]
    exact ⟨rfl, Decimal.representable_of_digits hc hlow hhigh⟩
  have hzero : ∀ negative, (Value.float (.finite negative 0 0)).Supported := by
    intro negative
    rw [Value.Supported]
    rfl
  obtain ⟨s, hs⟩ := exists_of_toBool (show (canonicalTableSummary id sampleTable
    [sampleRow "a" (.decimal (.finite false 150 (-2))),
      sampleRow "b" (.float (.finite true 0 0))]).toBool = true by decide +kernel)
  obtain ⟨s', hs'⟩ := exists_of_toBool (show (canonicalTableSummary id sampleTable
    [sampleRow "b" (.float .zero),
      sampleRow "a" (.decimal (.finite false 15 (-1)))]).toBool = true by decide +kernel)
  have hrows : ∀ row ∈ [sampleRow "a" (.decimal (.finite false 150 (-2))),
      sampleRow "b" (.float (.finite true 0 0))], sampleTable.Supports row := by
    intro row hrow
    rcases List.mem_pair.mp hrow with rfl | rfl
    · exact supports_sampleRow (hdecimal 150 (-2) (by decide) (by decide) (by decide))
    · exact supports_sampleRow (hzero true)
  have hrows' : ∀ row ∈ [sampleRow "b" (.float .zero),
      sampleRow "a" (.decimal (.finite false 15 (-1)))], sampleTable.Supports row := by
    intro row hrow
    rcases List.mem_pair.mp hrow with rfl | rfl
    · exact supports_sampleRow (hzero false)
    · exact supports_sampleRow (hdecimal 15 (-1) (by decide) (by decide) (by decide))
  have hsummary := (table_digests_characterize Function.injective_id
    (show sampleTable.primaryKey ≠ [] by decide) hrows hrows').2 s s' hs hs'
  refine ⟨s, hs, ?_⟩
  rw [hsummary.mpr ?_]
  · exact hs'
  · rw [Table.contents, Table.contents, Multiset.coe_eq_coe]
    have hvalue :
        Decimal.value (.finite false 150 (-2)) = Decimal.value (.finite false 15 (-1)) := by
      norm_num [Decimal.value]
    have hdecimals :
        sampleTable.rowContent false (sampleRow "a" (.decimal (.finite false 150 (-2)))) =
          sampleTable.rowContent false (sampleRow "a" (.decimal (.finite false 15 (-1)))) := by
      refine rowContent_eq_iff.mpr fun column hcolumn => ?_
      rcases List.mem_pair.mp hcolumn with rfl | rfl
      · rfl
      · exact congrArg (fun q => some (Content.decimal q)) hvalue
    rw [List.map_cons, List.map_cons, hdecimals]
    exact List.Perm.swap _ _ _

/-- Two values that one summary stands for, in rows that are not the same. -/
def Conflated (v w : Value) : Prop :=
  (∃ s, canonicalTableSummary id sampleTable [sampleRow "a" v] = .ok s ∧
    canonicalTableSummary id sampleTable [sampleRow "a" w] = .ok s) ∧
  sampleTable.contents true [sampleRow "a" v] ≠ sampleTable.contents true [sampleRow "a" w]

/-- Two values of one form, which are not the same. -/
theorem conflated_of {v w : Value}
    (hok : (canonicalTableSummary id sampleTable [sampleRow "a" v]).toBool = true)
    (hform : canonicalValue v = canonicalValue w) (hne : v.content true ≠ w.content true) :
    Conflated v w := by
  have hpayloads : sampleTable.rowPayloads (sampleRow "a" v) =
      sampleTable.rowPayloads (sampleRow "a" w) := by
    have htuple : ∀ u : Value, sampleTable.rowPayloads (sampleRow "a" u) = (do
        let rowPayload ← canonicalJsonBytes (.sequence true
          [.sequence true [.str (ofString "id"), .str (ofString "a")],
            .sequence true [.str (ofString "value"), u]])
        let primaryKeyPayload ← canonicalJsonBytes (.sequence true
          [.sequence true [.str (ofString "id"), .str (ofString "a")]])
        .ok (rowPayload, primaryKeyPayload)) := fun _ => rfl
    rw [htuple, htuple]
    simp only [canonicalJsonBytes, canonicalValue, canonicalItems, hform]
  obtain ⟨s, hs⟩ := exists_of_toBool hok
  refine ⟨⟨s, hs, ?_⟩, fun h => hne ?_⟩
  · rw [← hs, canonicalTableSummary, canonicalTableSummary, List.mapM_cons, List.mapM_cons,
      hpayloads]
    rfl
  · rw [Table.contents, Table.contents, Multiset.coe_eq_coe] at h
    have hrows := List.perm_singleton.mp h
    have hvalues := (List.cons.inj (List.cons.inj (List.cons.inj hrows).1).2).1
    exact Option.some.inj hvalues

/-- **What the digests do not tell apart.** A list and the tuple of its items; members of two
enumerations that have one value; decimals below the least number of the default context. -/
theorem table_digests_conflate :
    Conflated (.sequence false [.none]) (.sequence true [.none]) ∧
    Conflated (.member (ofString "RunStatus") (ofString "CANCELLED") (ofString "cancelled"))
      (.member (ofString "AttemptDisposition") (ofString "CANCELLED") (ofString "cancelled")) ∧
    Conflated (.decimal (.finite false 1 (-1000030))) (.decimal (.finite false 2 (-1000030))) := by
  refine ⟨conflated_of (by decide +kernel) rfl ?_, conflated_of (by decide +kernel) rfl ?_,
    conflated_of (by decide +kernel) ?_ ?_⟩
  · rw [Value.content, Value.content, Ne, Content.sequence.injEq]
    exact fun h => Bool.false_ne_true h.1
  · rw [Value.content, Value.content, Ne, Content.member.injEq]
    exact of_decide_eq_false rfl
  · have hone : Decimal.plainText (.finite false 1 (-1000030)) = some (ofString "0") := by
      decide +kernel
    have htwo : Decimal.plainText (.finite false 2 (-1000030)) = some (ofString "0") := by
      decide +kernel
    rw [canonicalValue, canonicalValue, hone, htwo]
    rfl
  · have hpow : ((10 : ℚ) ^ (-1000030 : ℤ)) ≠ 0 := by positivity
    rw [Value.content, Value.content, Ne, Content.decimal.injEq, Decimal.value, Decimal.value]
    intro h
    have hcoefficients := mul_right_cancel₀ hpow h
    norm_num at hcoefficients

end SqliteImport

end LLMBenchLab
