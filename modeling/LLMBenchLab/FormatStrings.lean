import LLMBenchLab.Text
import Mathlib.Data.List.TakeWhile

/-!
# Format strings

The grammar of `str.format` as `string.Formatter().parse` reads it: literal text
in which a doubled brace stands for one, and replacement fields with a name, an
optional conversion and an optional format specification.

`Markup.plain` writes a piece back without doubling a brace and without the colon
of an empty specification. A format string is at least as long as its pieces
written back; one that is not longer has no brace in its literal text.
-/

namespace Python

namespace FormatString

open Text (Str CodePoint ofString)

def openBrace : CodePoint := Text.ofChar (Char.ofNat 0x7b)

def closeBrace : CodePoint := Text.ofChar (Char.ofNat 0x7d)

def isBrace (c : CodePoint) : Bool := c = openBrace || c = closeBrace

structure Field where
  name : Str
  spec : Str
  conversion : Option CodePoint

/-- A literal text and the field that follows it, if one does. -/
structure Markup where
  literal : Str
  field : Option Field

/-- The field name up to the character that ends it; what is in brackets is part of
the name. -/
def scanName : Bool → Str → Except String (Str × CodePoint × Str)
  | _, [] => .error "expected '\x7d' before end of string"
  | true, c :: rest =>
    (scanName (c != Text.ofChar ']') rest).map fun x => (c :: x.1, x.2)
  | false, c :: rest =>
    if c = openBrace then .error "unexpected '\x7b' in field name"
    else if c = closeBrace ∨ c = Text.ofChar ':' ∨ c = Text.ofChar '!' then .ok ([], c, rest)
    else (scanName (c == Text.ofChar '[') rest).map fun x => (c :: x.1, x.2)

/-- The specification up to the brace that closes the field, `depth + 1` braces deep. -/
def scanSpec : ℕ → Str → Except String (Str × Str)
  | _, [] => .error "unmatched '\x7b' in format spec"
  | depth, c :: rest =>
    if c = openBrace then (scanSpec (depth + 1) rest).map fun x => (c :: x.1, x.2)
    else if c = closeBrace then
      match depth with
      | 0 => .ok ([], rest)
      | depth + 1 => (scanSpec depth rest).map fun x => (c :: x.1, x.2)
    else (scanSpec depth rest).map fun x => (c :: x.1, x.2)

/-- A conversion; the parser has no other mark for a missing one than NUL. -/
def conversionOf (c : CodePoint) : Option CodePoint := if c.val = 0 then none else some c

/-- A field with a specification. -/
def specified (name : Str) (conversion : Option CodePoint) (s : Str) : Except String (Field × Str) :=
  (scanSpec 0 s).map fun x => (⟨name, x.1, conversion⟩, x.2)

/-- What follows the exclamation mark of a field. -/
def conversionEnd (name : Str) : Str → Except String (Field × Str)
  | [] => .error "end of string while looking for conversion specifier"
  | [_] => .error "unmatched '\x7b' in format spec"
  | conversion :: d :: rest =>
    if d = closeBrace then .ok (⟨name, [], conversionOf conversion⟩, rest)
    else if d = Text.ofChar ':' then specified name (conversionOf conversion) rest
    else .error "expected ':' after conversion specifier"

/-- What follows the name of a field and the character that ends it. -/
def fieldEnd (name : Str) (c : CodePoint) (rest : Str) : Except String (Field × Str) :=
  if c = closeBrace then .ok (⟨name, [], none⟩, rest)
  else if c = Text.ofChar ':' then specified name none rest
  else conversionEnd name rest

/-- What follows the opening brace of a field. -/
def parseField (s : Str) : Except String (Field × Str) :=
  (scanName false s).bind fun x => fieldEnd x.1 x.2.1 x.2.2

/-- The next piece of a non-empty format string, and the rest. -/
def next (s : Str) : Except String (Markup × Str) :=
  let literal := s.takeWhile fun c => !isBrace c
  match s.dropWhile fun c => !isBrace c with
  | [] => .ok (⟨literal, none⟩, [])
  | [c] =>
    .error (if c = closeBrace then "Single '\x7d' encountered in format string"
      else "Single '\x7b' encountered in format string")
  | c :: d :: rest =>
    if c = d then .ok (⟨literal ++ [c], none⟩, rest)
    else if c = closeBrace then .error "Single '\x7d' encountered in format string"
    else (parseField (d :: rest)).map fun x => (⟨literal, some x.1⟩, x.2)

/-- The pieces that the parser yields, and the text of the `ValueError` that ends it. -/
def parseFrom : ℕ → Str → List Markup × Option String
  | 0, _ => ([], none)
  | _ + 1, [] => ([], none)
  | fuel + 1, c :: rest =>
    match next (c :: rest) with
    | .error e => ([], some e)
    | .ok (markup, rest) =>
      let (markups, e) := parseFrom fuel rest
      (markup :: markups, e)

/-- `string.Formatter().parse(s)`; every piece takes a character. -/
def parse (s : Str) : List Markup × Option String := parseFrom s.length s

/-- `{name}` -/
def plainField (name : Str) : Str := openBrace :: (name ++ [closeBrace])

/-- A piece written back. -/
def Markup.plain (m : Markup) : Str :=
  m.literal ++ m.field.elim [] fun f => plainField f.name

/-- The format string with its fields replaced. -/
def render (value : Str → Str) (markups : List Markup) : Str :=
  markups.flatMap fun m => m.literal ++ m.field.elim [] fun f => value f.name

/-! ## The length of a format string -/

theorem map_eq_ok {α β : Type} {x : Except String α} {f : α → β} {b : β} (h : x.map f = .ok b) :
    ∃ a, x = .ok a ∧ f a = b := by
  cases x with
  | error e => cases h
  | ok a => exact ⟨a, rfl, Except.ok.inj h⟩

theorem length_scanName {bracket : Bool} {s : Str} {x : Str × CodePoint × Str}
    (h : scanName bracket s = .ok x) : x.1.length + 1 + x.2.2.length = s.length := by
  induction s generalizing bracket x with
  | nil => cases bracket <;> cases h
  | cons d s ih =>
    have hstep : ∀ {b : Bool}, (scanName b s).map (fun y => (d :: y.1, y.2)) = .ok x →
        x.1.length + 1 + x.2.2.length = (d :: s).length := by
      intro b hb
      obtain ⟨y, hy, rfl⟩ := map_eq_ok hb
      have := ih hy
      simp only [List.length_cons]
      omega
    cases bracket with
    | true => exact hstep h
    | false =>
      rw [scanName] at h
      split_ifs at h
      · cases h
        simp [Nat.add_comm]
      · exact hstep h

theorem length_scanSpec {depth : ℕ} {s : Str} {x : Str × Str} (h : scanSpec depth s = .ok x) :
    x.2.length ≤ s.length := by
  induction s generalizing depth x with
  | nil => cases depth <;> cases h
  | cons d s ih =>
    have hstep : ∀ {n : ℕ}, (scanSpec n s).map (fun y => (d :: y.1, y.2)) = .ok x →
        x.2.length ≤ (d :: s).length := by
      intro n hn
      obtain ⟨y, hy, rfl⟩ := map_eq_ok hn
      exact (ih hy).trans (Nat.le_succ _)
    cases depth with
    | zero =>
      rw [scanSpec] at h
      split_ifs at h
      · exact hstep h
      · cases h
        exact Nat.le_succ _
      · exact hstep h
    | succ depth =>
      rw [scanSpec] at h
      split_ifs at h <;> exact hstep h

theorem length_specified {name : Str} {conversion : Option CodePoint} {s : Str} {x : Field × Str}
    (h : specified name conversion s = .ok x) : x.1.name = name ∧ x.2.length ≤ s.length := by
  obtain ⟨y, hy, rfl⟩ := map_eq_ok h
  exact ⟨rfl, length_scanSpec hy⟩

theorem length_conversionEnd {name s : Str} {x : Field × Str} (h : conversionEnd name s = .ok x) :
    x.1.name = name ∧ x.2.length ≤ s.length := by
  match s with
  | [] => cases h
  | [_] => cases h
  | conversion :: d :: rest =>
    rw [conversionEnd] at h
    simp only [List.length_cons]
    split_ifs at h
    · cases h
      refine ⟨rfl, ?_⟩
      dsimp only
      omega
    · obtain ⟨hname, hlen⟩ := length_specified h
      exact ⟨hname, by omega⟩

theorem length_fieldEnd {name : Str} {c : CodePoint} {s : Str} {x : Field × Str}
    (h : fieldEnd name c s = .ok x) : x.1.name = name ∧ x.2.length ≤ s.length := by
  rw [fieldEnd] at h
  split_ifs at h
  · cases h
    exact ⟨rfl, le_rfl⟩
  · exact length_specified h
  · exact length_conversionEnd h

/-- A field takes its name and two braces, the first of which is read already. -/
theorem length_parseField {s : Str} {x : Field × Str} (h : parseField s = .ok x) :
    x.1.name.length + 1 + x.2.length ≤ s.length := by
  rw [parseField] at h
  cases hname : scanName false s with
  | error e =>
    rw [hname] at h
    cases h
  | ok y =>
    rw [hname] at h
    obtain ⟨hx, hlen⟩ := length_fieldEnd h
    have := length_scanName hname
    rw [hx]
    omega

/-- There is a brace in the literal text. -/
def Markup.escaped (m : Markup) : Bool := m.literal.any isBrace

theorem not_escaped_takeWhile (s : Str) {f : Option Field} :
    Markup.escaped ⟨s.takeWhile fun c => !isBrace c, f⟩ = false := by
  rw [Markup.escaped, List.any_eq_false]
  intro c hc
  have := List.mem_takeWhile_imp hc
  simpa using this

theorem length_plainField (name : Str) : (plainField name).length = name.length + 2 := by
  simp [plainField]

/-- A piece takes what it is written back as, and one more character for a brace in
its literal text. -/
theorem length_next {s : Str} {x : Markup × Str} (h : next s = .ok x) :
    x.1.plain.length + (if x.1.escaped then 1 else 0) + x.2.length ≤ s.length := by
  have hsplit := congrArg List.length
    (List.takeWhile_append_dropWhile (p := fun c => !isBrace c) (l := s))
  rw [List.length_append] at hsplit
  simp only [next] at h
  split at h
  · next hrest =>
    cases h
    rw [hrest] at hsplit
    simp only [Markup.plain, Option.elim_none, List.append_nil, not_escaped_takeWhile]
    simpa using hsplit.le
  · cases h
  · next c d rest hrest =>
    rw [hrest] at hsplit
    simp only [List.length_cons] at hsplit
    split_ifs at h
    · -- a doubled brace
      cases h
      simp only [Markup.plain, Option.elim_none, List.append_nil, List.length_append,
        List.length_singleton]
      split <;> omega
    · obtain ⟨y, hy, rfl⟩ := map_eq_ok h
      have hfield := length_parseField hy
      simp only [List.length_cons] at hfield
      simp only [Markup.plain, Option.elim_some, List.length_append, length_plainField,
        not_escaped_takeWhile, Bool.false_eq_true, if_false]
      omega

theorem length_parseFrom (fuel : ℕ) (s : Str) :
    ((parseFrom fuel s).1.flatMap Markup.plain).length + (parseFrom fuel s).1.countP Markup.escaped ≤
      s.length := by
  induction fuel generalizing s with
  | zero => exact Nat.zero_le _
  | succ fuel ih =>
    cases s with
    | nil => exact le_rfl
    | cons c rest =>
      rw [parseFrom]
      split
      · exact Nat.zero_le _
      · next markup tail hnext =>
        have hlen := length_next hnext
        have htail := ih tail
        simp only [List.flatMap_cons, List.length_append, List.countP_cons] at hlen ⊢
        omega

/-- A format string that is its pieces written back has no doubled brace. -/
theorem not_escaped_of_plain {s : Str} (h : (parse s).1.flatMap Markup.plain = s) :
    ∀ m ∈ (parse s).1, ∀ c ∈ m.literal, isBrace c = false := by
  have hlen := length_parseFrom s.length s
  rw [parse] at h ⊢
  rw [h] at hlen
  have hcount : (parseFrom s.length s).1.countP Markup.escaped = 0 := by omega
  intro m hm c hc
  have hescaped := List.countP_eq_zero.mp hcount m hm
  rw [Markup.escaped, Bool.not_eq_true, List.any_eq_false] at hescaped
  exact Bool.eq_false_iff.mpr (hescaped c hc)

example : (parse (ofString "a\x7b\x7b\x7bprompt!r:>9\x7d")).1.map (fun m =>
      (m.literal, m.field.map fun f => (f.name, f.spec, f.conversion))) =
    [(ofString "a\x7b", none),
      ([], some (ofString "prompt", ofString ">9", some (Text.ofChar 'r')))] := by
  decide +kernel

end FormatString

end Python
