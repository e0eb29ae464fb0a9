import LLMBenchLab.Calendar
import LLMBenchLab.NumberTexts
import Mathlib.Data.List.Sort

/-!
# Canonical values of the SQLite import

`_canonical_value` (`db/import_sqlite.py`) writes a value of a row as tagged JSON, and
`_canonical_json_bytes` as bytes. What a value holds is `Value.content`: numbers are
compared as numbers, instants as instants, and the members of an enumeration by their
texts.

Supported values have the same bytes exactly if they have one content
(`canonicalJsonBytes_eq_iff`). The proof reads each layer back: kinds from tags
(`kind_of_ok`), values from texts (`canonicalValue_eq_iff`, by induction over the nesting),
and texts from bytes.
-/

namespace LLMBenchLab

namespace SqliteImport

open Python
open Text (Str ofString)
open Codes

/-! ## Values -/

/-- A value of a row. The class and the name of the member of an enumeration stand beside
the text of its value, and a mapping with a key that is no string stands apart. -/
inductive Value where
  | none
  | bool (b : Bool)
  | member (cls name text : Str)
  | str (s : Str)
  | int (n : ℤ)
  | decimal (d : Decimal)
  | float (x : Double)
  | datetime (t : DateTime)
  | bytes (b : List UInt8)
  | mapping (fields : List (Str × Value))
  | oddMapping
  | sequence (isTuple : Bool) (items : List Value)
  | other (typeName : Str)

/-- The tags of the canonical form. -/
inductive Kind where
  | null | bool | enum | string | integer | decimal | float | datetime | bytes | object | array
  deriving DecidableEq

def Kind.tag : Kind → Str
  | null => ofString "null"
  | bool => ofString "bool"
  | enum => ofString "enum"
  | string => ofString "string"
  | integer => ofString "integer"
  | decimal => ofString "decimal"
  | float => ofString "float"
  | datetime => ofString "datetime"
  | bytes => ofString "bytes"
  | object => ofString "object"
  | array => ofString "array"

/-- What a summary raises. -/
inductive DigestError where
  /-- `SQLiteImportError` with its message -/
  | sqliteImport (message : Str)
  /-- `decimal.Overflow` of `normalize` -/
  | decimalOverflow
  /-- `ValueError`: an integer with more than 4300 digits -/
  | intDigits
  /-- `OverflowError` of `astimezone` -/
  | datetimeRange
  /-- `UnicodeEncodeError` -/
  | unicodeEncode
  /-- `OverflowError` of `to_bytes` -/
  | frameLength

/-- `[tag, ...]` -/
def tagged (kind : Kind) (rest : List Tree) : Tree := .array (.str kind.tag :: rest)

/-- The order in which `sorted` puts the keys of a mapping. -/
def keyBefore {α : Type} (p q : Str × α) : Prop := p.1 ≤ q.1

instance {α : Type} (p q : Str × α) : Decidable (keyBefore p q) :=
  inferInstanceAs (Decidable (_ ≤ _))

/-- `[key, value]` of an object -/
def objectField (p : Str × Except DigestError Tree) : Except DigestError Tree :=
  p.2.map fun value => .array [.str p.1, value]

mutual

/-- `_canonical_value` -/
def canonicalValue : Value → Except DigestError Tree
  | .none => .ok (tagged .null [])
  | .bool b => .ok (tagged .bool [.bool b])
  | .member _ _ text => .ok (tagged .enum [.str text])
  | .str s => .ok (tagged .string [.str s])
  | .int n =>
    if 10 ^ 4300 ≤ n.natAbs then .error .intDigits
    else .ok (tagged .integer [.str (intText n)])
  | .decimal d =>
    if d.isFinite then
      d.plainText.elim (.error .decimalOverflow) fun text => .ok (tagged .decimal [.str text])
    else .error (.sqliteImport (ofString "Canonical summaries reject non-finite Decimal values"))
  | .float x =>
    if x.isFinite then
      .ok (tagged .float [.str (Double.hex (if x.isZero then Double.zero else x))])
    else .error (.sqliteImport (ofString "Canonical summaries reject non-finite float values"))
  | .datetime t =>
    t.toUtc.elim (.error .datetimeRange) fun u =>
      .ok (tagged .datetime
        [.str (Text.replace (ofString "+00:00") (ofString "Z") (isoformatMicroseconds u))])
  | .bytes b => .ok (tagged .bytes [.str (bytesHex b)])
  | .mapping fields =>
    (((canonicalFields fields).insertionSort keyBefore).mapM objectField).map fun pairs =>
      tagged .object [.array pairs]
  | .oddMapping =>
    .error (.sqliteImport (ofString "Canonical JSON objects require string keys"))
  | .sequence _ items =>
    ((canonicalItems items).mapM id).map fun items => tagged .array [.array items]
  | .other typeName =>
    .error (.sqliteImport
      (ofString "Canonical summaries do not support values of type " ++ typeName))

def canonicalFields : List (Str × Value) → List (Str × Except DigestError Tree)
  | [] => []
  | (key, value) :: rest => (key, canonicalValue value) :: canonicalFields rest

def canonicalItems : List Value → List (Except DigestError Tree)
  | [] => []
  | value :: rest => canonicalValue value :: canonicalItems rest

end

theorem canonicalFields_eq (fields : List (Str × Value)) :
    canonicalFields fields = fields.map fun p => (p.1, canonicalValue p.2) := by
  induction fields with
  | nil => rfl
  | cons p rest ih => rw [canonicalFields, ih, List.map_cons]

theorem canonicalItems_eq (items : List Value) : canonicalItems items = items.map canonicalValue := by
  induction items with
  | nil => rfl
  | cons v rest ih => rw [canonicalItems, ih, List.map_cons]

/-! ## Content -/

/-- What a value holds. -/
inductive Content where
  | none
  | bool (b : Bool)
  | member (identity : Option (Str × Str)) (text : Str)
  | str (s : Str)
  | int (n : ℤ)
  | decimal (q : ℚ)
  | float (x : Double)
  | datetime (t : Option Instant)
  | bytes (b : List UInt8)
  | mapping (fields : List (Str × Content))
  | sequence (isTuple : Bool) (items : List Content)
  | unsupported

namespace Value

mutual

/-- The content of a value: decimals as numbers, the two zeros of the floats as one,
datetimes as instants, mappings without their order. If it is `strict`, it tells the
members of enumerations and lists from tuples. -/
def content (strict : Bool) : Value → Content
  | none => .none
  | bool b => .bool b
  | member cls name text => .member (if strict then some (cls, name) else .none) text
  | str s => .str s
  | int n => .int n
  | decimal d => .decimal d.value
  | float x => .float (if x.isZero then Double.zero else x)
  | datetime t => .datetime t.toUtc
  | bytes b => .bytes b
  | mapping fields => .mapping ((contentFields strict fields).insertionSort keyBefore)
  | oddMapping => .unsupported
  | sequence isTuple items => .sequence (strict && isTuple) (contentItems strict items)
  | other _ => .unsupported

def contentFields (strict : Bool) : List (Str × Value) → List (Str × Content)
  | [] => []
  | (key, value) :: rest => (key, value.content strict) :: contentFields strict rest

def contentItems (strict : Bool) : List Value → List Content
  | [] => []
  | value :: rest => value.content strict :: contentItems strict rest

end

theorem contentFields_eq (strict : Bool) (fields : List (Str × Value)) :
    contentFields strict fields = fields.map fun p => (p.1, p.2.content strict) := by
  induction fields with
  | nil => rfl
  | cons p rest ih => rw [contentFields, ih, List.map_cons]

theorem contentItems_eq (strict : Bool) (items : List Value) :
    contentItems strict items = items.map (content strict) := by
  induction items with
  | nil => rfl
  | cons v rest ih => rw [contentItems, ih, List.map_cons]

/-- The values inside a value. -/
def parts : Value → List Value
  | mapping fields => fields.map Prod.snd
  | sequence _ items => items
  | _ => []

mutual

/-- A fact of all values, from the parts to the whole. -/
theorem of_parts {P : Value → Prop} (step : ∀ v : Value, (∀ w ∈ v.parts, P w) → P v) :
    ∀ v : Value, P v
  | mapping fields => step _ (of_fields step fields)
  | sequence _ items => step _ (of_items step items)
  | none | bool _ | member .. | str _ | int _ | decimal _ | float _ | datetime _ | bytes _
  | oddMapping | other _ => step _ fun _ hw => absurd hw List.not_mem_nil

theorem of_fields {P : Value → Prop} (step : ∀ v : Value, (∀ w ∈ v.parts, P w) → P v) :
    ∀ (fields : List (Str × Value)), ∀ w ∈ fields.map Prod.snd, P w
  | [], _, hw => absurd hw List.not_mem_nil
  | (_, v) :: rest, w, hw =>
    (List.mem_cons.mp hw).elim (fun heq => heq ▸ of_parts step v) (of_fields step rest w)

theorem of_items {P : Value → Prop} (step : ∀ v : Value, (∀ w ∈ v.parts, P w) → P v) :
    ∀ (items : List Value), ∀ w ∈ items, P w
  | [], _, hw => absurd hw List.not_mem_nil
  | v :: rest, w, hw =>
    (List.mem_cons.mp hw).elim (fun heq => heq ▸ of_parts step v) (of_items step rest w)

end

mutual

/-- A value that a summary takes: numbers within the limits of their texts, datetimes with an
instant, strings that UTF-8 can encode. -/
def Supported : Value → Prop
  | none | bool _ | bytes _ => True
  | member _ _ text => Text.Scalar text
  | str s => Text.Scalar s
  | int n => n.natAbs < 10 ^ 4300
  | decimal d => d.isFinite = true ∧ Decimal.Representable d.value
  | float x => x.isFinite = true
  | datetime t => t.toUtc.isSome = true
  | mapping fields => SupportedFields fields
  | sequence _ items => SupportedItems items
  | oddMapping | other _ => False

def SupportedFields : List (Str × Value) → Prop
  | [] => True
  | (key, value) :: rest => (Text.Scalar key ∧ value.Supported) ∧ SupportedFields rest

def SupportedItems : List Value → Prop
  | [] => True
  | value :: rest => value.Supported ∧ SupportedItems rest

end

theorem supportedFields_iff {fields : List (Str × Value)} :
    SupportedFields fields ↔ ∀ p ∈ fields, Text.Scalar p.1 ∧ p.2.Supported := by
  induction fields with
  | nil => exact iff_of_true trivial fun _ hp => absurd hp List.not_mem_nil
  | cons p rest ih => rw [SupportedFields, ih, List.forall_mem_cons]

theorem supportedItems_iff {items : List Value} :
    SupportedItems items ↔ ∀ v ∈ items, v.Supported := by
  induction items with
  | nil => exact iff_of_true trivial fun _ hv => absurd hv List.not_mem_nil
  | cons v rest ih => rw [SupportedItems, ih, List.forall_mem_cons]

/-! ### Kinds -/

/-- The kind of a value that has a canonical form. -/
def kind : Value → Option Kind
  | none => some .null
  | bool _ => some .bool
  | member .. => some .enum
  | str _ => some .string
  | int _ => some .integer
  | decimal _ => some .decimal
  | float _ => some .float
  | datetime _ => some .datetime
  | bytes _ => some .bytes
  | mapping _ => some .object
  | sequence .. => some .array
  | oddMapping | other _ => .none

end Value

/-- The kind of a content. -/
def Content.kind : Content → Option Kind
  | none => some .null
  | bool _ => some .bool
  | member .. => some .enum
  | str _ => some .string
  | int _ => some .integer
  | decimal _ => some .decimal
  | float _ => some .float
  | datetime _ => some .datetime
  | bytes _ => some .bytes
  | mapping _ => some .object
  | sequence .. => some .array
  | unsupported => .none

theorem Kind.tag_inj {k k' : Kind} (h : k.tag = k'.tag) : k = k' := by
  cases k <;> cases k' <;> first | rfl | exact absurd h (by decide)

theorem tagged_inj {k k' : Kind} {l l' : List Tree} :
    tagged k l = tagged k' l' ↔ k = k' ∧ l = l' := by
  constructor
  · intro h
    obtain ⟨htag, hrest⟩ := List.cons.inj (Tree.array.inj h)
    exact ⟨Kind.tag_inj (Tree.str.inj htag), hrest⟩
  · rintro ⟨rfl, rfl⟩
    rfl

namespace Value

theorem kind_content (strict : Bool) (v : Value) : (v.content strict).kind = v.kind := by
  cases v <;> rw [content] <;> rfl

/-- Two values of one kind. -/
inductive Same : Value → Value → Prop where
  | none : Same .none .none
  | bool (b b' : Bool) : Same (.bool b) (.bool b')
  | member (cls name text cls' name' text' : Str) :
      Same (.member cls name text) (.member cls' name' text')
  | str (s s' : Str) : Same (.str s) (.str s')
  | int (n n' : ℤ) : Same (.int n) (.int n')
  | decimal (d d' : Decimal) : Same (.decimal d) (.decimal d')
  | float (x x' : Double) : Same (.float x) (.float x')
  | datetime (t t' : DateTime) : Same (.datetime t) (.datetime t')
  | bytes (b b' : List UInt8) : Same (.bytes b) (.bytes b')
  | mapping (fields fields' : List (Str × Value)) : Same (.mapping fields) (.mapping fields')
  | sequence (isTuple isTuple' : Bool) (items items' : List Value) :
      Same (.sequence isTuple items) (.sequence isTuple' items')

theorem Same.of_kind {v w : Value} {k : Kind} (hv : v.kind = some k) (hw : w.kind = some k) :
    Same v w := by
  cases v <;> cases hv <;> cases w <;> cases hw <;> constructor

end Value

/-! ### Canonical forms, kind by kind -/

section Forms

variable {t : Tree}

theorem canonicalValue_int {n : ℤ} : canonicalValue (.int n) = .ok t ↔
    n.natAbs < 10 ^ 4300 ∧ t = tagged .integer [.str (intText n)] := by
  rw [canonicalValue]
  split
  · next hlarge => exact iff_of_false (by rintro ⟨⟩) fun h => absurd h.1 (not_lt.mpr hlarge)
  · next hsmall =>
    exact ⟨fun h => ⟨not_le.mp hsmall, (Except.ok.inj h).symm⟩, fun h => congrArg _ h.2.symm⟩

theorem canonicalValue_decimal {d : Decimal} : canonicalValue (.decimal d) = .ok t ↔
    d.isFinite = true ∧ ∃ text, d.plainText = some text ∧ t = tagged .decimal [.str text] := by
  rw [canonicalValue]
  split
  · next hfinite =>
    cases htext : d.plainText with
    | none => exact iff_of_false (by rintro ⟨⟩) (by rintro ⟨-, text, ⟨⟩, -⟩)
    | some text =>
      refine ⟨fun h => ⟨hfinite, text, rfl, (Except.ok.inj h).symm⟩, ?_⟩
      rintro ⟨-, _, heq, rfl⟩
      obtain rfl := Option.some.inj heq
      rfl
  · next hinfinite => exact iff_of_false (by rintro ⟨⟩) fun h => absurd h.1 hinfinite

theorem canonicalValue_float {x : Double} : canonicalValue (.float x) = .ok t ↔
    x.isFinite = true ∧
      t = tagged .float [.str (Double.hex (if x.isZero then Double.zero else x))] := by
  rw [canonicalValue]
  split
  · next hfinite => exact ⟨fun h => ⟨hfinite, (Except.ok.inj h).symm⟩, fun h => congrArg _ h.2.symm⟩
  · next hinfinite => exact iff_of_false (by rintro ⟨⟩) fun h => absurd h.1 hinfinite

/-- The text of an instant: `Z` in the place of the offset. -/
def instantText (u : Instant) : Str :=
  Text.replace (ofString "+00:00") (ofString "Z") (isoformatMicroseconds u)

theorem canonicalValue_datetime {d : DateTime} : canonicalValue (.datetime d) = .ok t ↔
    ∃ u, d.toUtc = some u ∧ t = tagged .datetime [.str (instantText u)] := by
  rw [canonicalValue]
  cases d.toUtc with
  | none => exact iff_of_false (by rintro ⟨⟩) (by rintro ⟨u, ⟨⟩, -⟩)
  | some u =>
    refine ⟨fun h => ⟨u, rfl, (Except.ok.inj h).symm⟩, ?_⟩
    rintro ⟨_, heq, rfl⟩
    obtain rfl := Option.some.inj heq
    rfl

/-- The fields of a mapping in the order of their keys. -/
def sortedFields {α : Type} (fields : List (Str × α)) : List (Str × α) :=
  fields.insertionSort keyBefore

/-- The canonical form of a field. -/
def canonicalField (p : Str × Value) : Except DigestError Tree :=
  objectField (p.1, canonicalValue p.2)

/-- A change of the values keeps the order of the fields. -/
theorem sortedFields_map {α β : Type} (f : α → β) (fields : List (Str × α)) :
    (fields.map fun p => (p.1, f p.2)).insertionSort keyBefore =
      (sortedFields fields).map fun p => (p.1, f p.2) :=
  (List.map_insertionSort keyBefore keyBefore (fun p : Str × α => (p.1, f p.2)) fields
    fun _ _ _ _ => Iff.rfl).symm

theorem canonicalValue_mapping {fields : List (Str × Value)} :
    canonicalValue (.mapping fields) = .ok t ↔
      ∃ pairs, (sortedFields fields).mapM canonicalField = .ok pairs ∧
        t = tagged .object [.array pairs] := by
  rw [canonicalValue, canonicalFields_eq, sortedFields_map, List.mapM_map, map_eq_ok]
  constructor
  · rintro ⟨pairs, hpairs, rfl⟩
    exact ⟨pairs, hpairs, rfl⟩
  · rintro ⟨pairs, hpairs, rfl⟩
    exact ⟨pairs, hpairs, rfl⟩

theorem canonicalValue_sequence {isTuple : Bool} {items : List Value} :
    canonicalValue (.sequence isTuple items) = .ok t ↔
      ∃ trees, items.mapM canonicalValue = .ok trees ∧ t = tagged .array [.array trees] := by
  rw [canonicalValue, canonicalItems_eq, List.mapM_map, map_eq_ok]
  constructor
  · rintro ⟨trees, htrees, rfl⟩
    exact ⟨trees, htrees, rfl⟩
  · rintro ⟨trees, htrees, rfl⟩
    exact ⟨trees, htrees, rfl⟩

/-- A canonical form shows the kind of its value. -/
theorem kind_of_ok {v : Value} (h : canonicalValue v = .ok t) :
    ∃ k rest, v.kind = some k ∧ t = tagged k rest := by
  cases v with
  | none => exact ⟨_, _, rfl, by rw [canonicalValue] at h; exact (Except.ok.inj h).symm⟩
  | bool b => exact ⟨_, _, rfl, by rw [canonicalValue] at h; exact (Except.ok.inj h).symm⟩
  | member cls name text =>
    exact ⟨_, _, rfl, by rw [canonicalValue] at h; exact (Except.ok.inj h).symm⟩
  | str s => exact ⟨_, _, rfl, by rw [canonicalValue] at h; exact (Except.ok.inj h).symm⟩
  | bytes b => exact ⟨_, _, rfl, by rw [canonicalValue] at h; exact (Except.ok.inj h).symm⟩
  | int n => exact ⟨_, _, rfl, (canonicalValue_int.mp h).2⟩
  | decimal d =>
    obtain ⟨-, text, -, rfl⟩ := canonicalValue_decimal.mp h
    exact ⟨_, _, rfl, rfl⟩
  | float x => exact ⟨_, _, rfl, (canonicalValue_float.mp h).2⟩
  | datetime d =>
    obtain ⟨u, -, rfl⟩ := canonicalValue_datetime.mp h
    exact ⟨_, _, rfl, rfl⟩
  | mapping fields =>
    obtain ⟨pairs, -, rfl⟩ := canonicalValue_mapping.mp h
    exact ⟨_, _, rfl, rfl⟩
  | sequence isTuple items =>
    obtain ⟨trees, -, rfl⟩ := canonicalValue_sequence.mp h
    exact ⟨_, _, rfl, rfl⟩
  | oddMapping | other _ =>
    rw [canonicalValue] at h
    cases h

end Forms

/-! ### Forms and contents -/

/-- Lists have one result exactly if they have one content, item by item. -/
theorem mapM_eq_iff {ε α β γ : Type} {g : α → Except ε β} {c : α → γ} {l l' : List α}
    {r r' : List β}
    (h : ∀ a ∈ l, ∀ b ∈ l', ∀ x y, g a = .ok x → g b = .ok y → (x = y ↔ c a = c b))
    (hr : l.mapM g = .ok r) (hr' : l'.mapM g = .ok r') : r = r' ↔ l.map c = l'.map c := by
  rw [mapM_eq_ok] at hr hr'
  induction hr generalizing l' r' with
  | nil =>
    cases hr' with
    | nil => exact iff_of_true rfl rfl
    | cons => exact iff_of_false (by rintro ⟨⟩) (by rintro ⟨⟩)
  | @cons a x l r hx _ ih =>
    cases hr' with
    | nil => exact iff_of_false (by rintro ⟨⟩) (by rintro ⟨⟩)
    | @cons b y l' r' hy hl' =>
      have hhead := h a List.mem_cons_self b List.mem_cons_self x y hx hy
      have htail := ih (fun a ha b hb => h a (List.mem_cons_of_mem _ ha) b
        (List.mem_cons_of_mem _ hb)) hl'
      rw [List.map_cons, List.map_cons, List.cons.injEq, List.cons.injEq, hhead, htail]

/-- Nothing but the offset is replaced. -/
theorem instantText_spec (u : Instant) : ∃ s, isoformatMicroseconds u = s ++ ofString "+00:00" ∧
    instantText u = s ++ ofString "Z" := by
  have hplus := plus_notMem_zeroPadded
  refine ⟨_, rfl, Text.Marked.replace_append ?_ _⟩
  change (0x2b : Text.CodePoint) ∉ _
  simp only [List.mem_append, hplus, or_false, false_or]
  decide

theorem instantText_inj {u u' : Instant} (h : instantText u = instantText u') : u = u' := by
  obtain ⟨s, hs, hz⟩ := instantText_spec u
  obtain ⟨s', hs', hz'⟩ := instantText_spec u'
  rw [hz, hz'] at h
  exact isoformatMicroseconds_inj (by rw [hs, hs', List.append_cancel_right h])

theorem ascii_instantText (u : Instant) : Text.Ascii (instantText u) := by
  obtain ⟨s, hs, hz⟩ := instantText_spec u
  have hiso := ascii_isoformatMicroseconds u
  have hmark : Text.Ascii (ofString "Z") := by decide
  rw [hs] at hiso
  rw [hz]
  exact hiso.left.append hmark

/-- A form of one text. -/
theorem tagged_str_inj {k : Kind} {s s' : Str} :
    tagged k [.str s] = tagged k [.str s'] ↔ s = s' := by
  rw [tagged_inj, List.cons.injEq, Tree.str.injEq]
  simp

theorem isFinite_zeroed {x : Double} (h : x.isFinite = true) :
    (if x.isZero then Double.zero else x).isFinite = true := by
  split
  · rfl
  · exact h

/-- **Canonical values.** Two values have one canonical form exactly if they have one
content. -/
theorem canonicalValue_eq_iff (v : Value) : ∀ (w : Value) (t t' : Tree), v.Supported →
    w.Supported → canonicalValue v = .ok t → canonicalValue w = .ok t' →
    (t = t' ↔ v.content false = w.content false) := by
  induction v using Value.of_parts with
  | step v ih =>
    intro w t t' hv hw ht ht'
    obtain ⟨k, l, hk, htag⟩ := kind_of_ok ht
    obtain ⟨k', l', hk', htag'⟩ := kind_of_ok ht'
    by_cases hkind : k = k'
    · subst hkind
      cases Value.Same.of_kind hk hk' with
      | none =>
        rw [canonicalValue] at ht ht'
        exact iff_of_true (Except.ok.inj (ht.symm.trans ht')) rfl
      | bool b b' =>
        rw [canonicalValue] at ht ht'
        rw [← Except.ok.inj ht, ← Except.ok.inj ht', tagged_inj, Value.content, Value.content]
        simp
      | member cls name text cls' name' text' =>
        rw [canonicalValue] at ht ht'
        rw [← Except.ok.inj ht, ← Except.ok.inj ht', tagged_str_inj, Value.content, Value.content]
        simp
      | str s s' =>
        rw [canonicalValue] at ht ht'
        rw [← Except.ok.inj ht, ← Except.ok.inj ht', tagged_str_inj, Value.content, Value.content]
        simp
      | int n n' =>
        rw [(canonicalValue_int.mp ht).2, (canonicalValue_int.mp ht').2, tagged_str_inj,
          Value.content, Value.content, Content.int.injEq]
        exact ⟨intText_inj, congrArg intText⟩
      | decimal d d' =>
        obtain ⟨hfinite, text, htext, rfl⟩ := canonicalValue_decimal.mp ht
        obtain ⟨hfinite', text', htext', rfl⟩ := canonicalValue_decimal.mp ht'
        rw [Value.Supported] at hv hw
        rw [tagged_str_inj, Value.content, Value.content, Content.decimal.injEq,
          ← Decimal.plainText_eq_iff hfinite hfinite' hv.2 hw.2, htext, htext', Option.some.injEq]
      | float x x' =>
        obtain ⟨hfinite, rfl⟩ := canonicalValue_float.mp ht
        obtain ⟨hfinite', rfl⟩ := canonicalValue_float.mp ht'
        rw [tagged_str_inj, Value.content, Value.content, Content.float.injEq]
        exact ⟨Double.hex_inj (isFinite_zeroed hfinite) (isFinite_zeroed hfinite'),
          congrArg Double.hex⟩
      | datetime d d' =>
        obtain ⟨u, hu, rfl⟩ := canonicalValue_datetime.mp ht
        obtain ⟨u', hu', rfl⟩ := canonicalValue_datetime.mp ht'
        rw [tagged_str_inj, Value.content, Value.content, Content.datetime.injEq, hu, hu',
          Option.some.injEq]
        exact ⟨instantText_inj, congrArg instantText⟩
      | bytes b b' =>
        rw [canonicalValue] at ht ht'
        rw [← Except.ok.inj ht, ← Except.ok.inj ht', tagged_str_inj, Value.content, Value.content,
          Content.bytes.injEq]
        exact ⟨bytesHex_inj, congrArg bytesHex⟩
      | mapping fields fields' =>
        obtain ⟨pairs, hpairs, rfl⟩ := canonicalValue_mapping.mp ht
        obtain ⟨pairs', hpairs', rfl⟩ := canonicalValue_mapping.mp ht'
        rw [Value.Supported, Value.supportedFields_iff] at hv hw
        rw [tagged_inj, List.cons.injEq, Tree.array.injEq, Value.content, Value.content,
          Content.mapping.injEq, Value.contentFields_eq, Value.contentFields_eq, sortedFields_map,
          sortedFields_map]
        simp only [and_true, true_and]
        refine mapM_eq_iff ?_ hpairs hpairs'
        intro p hp q hq x y hx hy
        have hp := (List.mem_insertionSort _).mp hp
        have hq := (List.mem_insertionSort _).mp hq
        obtain ⟨tree, htree, rfl⟩ := map_eq_ok.mp hx
        obtain ⟨tree', htree', rfl⟩ := map_eq_ok.mp hy
        have hvalues := ih p.2 (List.mem_map_of_mem hp) q.2 tree tree' (hv p hp).2 (hw q hq).2
          htree htree'
        rw [Tree.array.injEq, List.cons.injEq, List.cons.injEq, Tree.str.injEq, Prod.mk.injEq,
          hvalues]
        simp
      | sequence isTuple isTuple' items items' =>
        obtain ⟨trees, htrees, rfl⟩ := canonicalValue_sequence.mp ht
        obtain ⟨trees', htrees', rfl⟩ := canonicalValue_sequence.mp ht'
        rw [Value.Supported, Value.supportedItems_iff] at hv hw
        rw [tagged_inj, List.cons.injEq, Tree.array.injEq, Value.content, Value.content,
          Content.sequence.injEq, Value.contentItems_eq, Value.contentItems_eq]
        simp only [and_true, true_and, Bool.false_and]
        refine mapM_eq_iff ?_ htrees htrees'
        intro a ha b hb x y hx hy
        exact ih a ha b x y (hv a ha) (hw b hb) hx hy
    · refine iff_of_false (fun h => hkind ?_) fun h => hkind ?_
      · rw [htag, htag'] at h
        exact (tagged_inj.mp h).1
      · have hkinds := congrArg Content.kind h
        rw [Value.kind_content, Value.kind_content, hk, hk'] at hkinds
        exact Option.some.inj hkinds

/-! ### Supported values have a form -/

theorem mapM_total {ε α β : Type} {P : β → Prop} {g : α → Except ε β} {l : List α}
    (h : ∀ a ∈ l, ∃ b, g a = .ok b ∧ P b) : ∃ r, l.mapM g = .ok r ∧ ∀ b ∈ r, P b := by
  induction l with
  | nil => exact ⟨[], rfl, fun _ hb => absurd hb List.not_mem_nil⟩
  | cons a l ih =>
    rw [List.forall_mem_cons] at h
    obtain ⟨b, hb, hP⟩ := h.1
    obtain ⟨r, hr, hrP⟩ := ih h.2
    refine ⟨b :: r, ?_, List.forall_mem_cons.mpr ⟨hP, hrP⟩⟩
    rw [List.mapM_cons, hb, hr]
    rfl

/-- The texts of a form, one behind its tag. -/
theorem scalar_tagged {k : Kind} {rest : List Tree} (h : ∀ t ∈ rest, Text.Scalar t.dumps) :
    Text.Scalar (tagged k rest).dumps := by
  refine Tree.scalar_dumps_array (List.forall_mem_cons.mpr ⟨scalar_quote ?_, h⟩)
  cases k <;> exact Text.scalar_ofString _

theorem scalar_tagged_str {k : Kind} {s : Str} (h : Text.Scalar s) :
    Text.Scalar (tagged k [.str s]).dumps := by
  refine scalar_tagged fun t ht => ?_
  rw [List.mem_singleton.mp ht]
  exact scalar_quote h

/-- A supported value has a canonical form that UTF-8 can encode. -/
theorem canonicalValue_total (v : Value) :
    v.Supported → ∃ t, canonicalValue v = .ok t ∧ Text.Scalar t.dumps := by
  induction v using Value.of_parts with
  | step v ih =>
    intro hv
    cases v with
    | none =>
      refine ⟨tagged .null [], by rw [canonicalValue], scalar_tagged fun t ht => ?_⟩
      exact absurd ht List.not_mem_nil
    | bool b =>
      refine ⟨tagged .bool [.bool b], by rw [canonicalValue], scalar_tagged fun t ht => ?_⟩
      rw [List.mem_singleton.mp ht]
      cases b <;> exact Text.scalar_ofString _
    | member cls name text =>
      rw [Value.Supported] at hv
      exact ⟨_, by rw [canonicalValue], scalar_tagged_str hv⟩
    | str s =>
      rw [Value.Supported] at hv
      exact ⟨_, by rw [canonicalValue], scalar_tagged_str hv⟩
    | int n =>
      rw [Value.Supported] at hv
      exact ⟨_, canonicalValue_int.mpr ⟨hv, rfl⟩, scalar_tagged_str (ascii_intText n).scalar⟩
    | decimal d =>
      rw [Value.Supported] at hv
      obtain ⟨text, htext⟩ := Option.isSome_iff_exists.mp (Decimal.plainText_isSome hv.1 hv.2)
      exact ⟨_, canonicalValue_decimal.mpr ⟨hv.1, text, htext, rfl⟩,
        scalar_tagged_str (Decimal.ascii_plainText htext).scalar⟩
    | float x =>
      rw [Value.Supported] at hv
      exact ⟨_, canonicalValue_float.mpr ⟨hv, rfl⟩, scalar_tagged_str (Double.ascii_hex _).scalar⟩
    | datetime d =>
      rw [Value.Supported] at hv
      obtain ⟨u, hu⟩ := Option.isSome_iff_exists.mp hv
      exact ⟨_, canonicalValue_datetime.mpr ⟨u, hu, rfl⟩,
        scalar_tagged_str (ascii_instantText u).scalar⟩
    | bytes b => exact ⟨_, by rw [canonicalValue], scalar_tagged_str (ascii_bytesHex b).scalar⟩
    | mapping fields =>
      rw [Value.Supported, Value.supportedFields_iff] at hv
      have hfields : ∀ p ∈ sortedFields fields,
          ∃ t, canonicalField p = .ok t ∧ Text.Scalar t.dumps := by
        intro p hp
        have hp := (List.mem_insertionSort _).mp hp
        obtain ⟨t, ht, htext⟩ := ih p.2 (List.mem_map_of_mem hp) (hv p hp).2
        refine ⟨.array [.str p.1, t], map_eq_ok.mpr ⟨t, ht, rfl⟩, Tree.scalar_dumps_array ?_⟩
        intro w hw
        rcases List.mem_pair.mp hw with rfl | rfl
        · exact scalar_quote (hv p hp).1
        · exact htext
      obtain ⟨pairs, hpairs, hscalar⟩ := mapM_total hfields
      refine ⟨_, canonicalValue_mapping.mpr ⟨pairs, hpairs, rfl⟩, scalar_tagged fun t ht => ?_⟩
      rw [List.mem_singleton.mp ht]
      exact Tree.scalar_dumps_array hscalar
    | sequence isTuple items =>
      rw [Value.Supported, Value.supportedItems_iff] at hv
      obtain ⟨trees, htrees, hscalar⟩ := mapM_total fun v hmem => ih v hmem (hv v hmem)
      refine ⟨_, canonicalValue_sequence.mpr ⟨trees, htrees, rfl⟩, scalar_tagged fun t ht => ?_⟩
      rw [List.mem_singleton.mp ht]
      exact Tree.scalar_dumps_array hscalar
    | oddMapping | other _ =>
      rw [Value.Supported] at hv
      exact hv.elim

/-! ### Bytes -/

/-- `_canonical_json_bytes` -/
def canonicalJsonBytes (value : Value) : Except DigestError (List UInt8) := do
  let tree ← canonicalValue value
  (Text.encodeUtf8 tree.dumps).elim (.error .unicodeEncode) .ok

/-- The bytes of a supported value. -/
theorem canonicalJsonBytes_total {v : Value} (hv : v.Supported) :
    ∃ t b, canonicalValue v = .ok t ∧ Text.encodeUtf8 t.dumps = some b ∧
      canonicalJsonBytes v = .ok b := by
  obtain ⟨t, ht, hscalar⟩ := canonicalValue_total v hv
  obtain ⟨b, hb⟩ := Option.isSome_iff_exists.mp hscalar.encodeUtf8_isSome
  refine ⟨t, b, ht, hb, ?_⟩
  rw [canonicalJsonBytes, bind_eq_ok]
  exact ⟨t, ht, by rw [hb]; rfl⟩

/-- Two supported values have the same bytes exactly if they have one content. -/
theorem canonicalJsonBytes_eq_iff {v w : Value} (hv : v.Supported) (hw : w.Supported) :
    canonicalJsonBytes v = canonicalJsonBytes w ↔ v.content false = w.content false := by
  obtain ⟨t, b, ht, hb, hbytes⟩ := canonicalJsonBytes_total hv
  obtain ⟨t', b', ht', hb', hbytes'⟩ := canonicalJsonBytes_total hw
  rw [← canonicalValue_eq_iff v w t t' hv hw ht ht', hbytes, hbytes', Except.ok.injEq]
  constructor
  · rintro rfl
    exact Tree.dumps_inj (encodeUtf8_inj hb hb')
  · rintro rfl
    exact Option.some.inj (hb.symm.trans hb')

end SqliteImport

end LLMBenchLab
