import LLMBenchLab.Codes
import LLMBenchLab.Stdlib

/-!
# JSON texts of strings, booleans and arrays

`json.dumps(value, ensure_ascii=False, separators=(",", ":"))` on the values that are
built of strings, booleans and lists. Its texts are a prefix code (`Tree.dumps_append_inj`):
a string ends at the first quote that is not escaped, an array at its own bracket.
-/

namespace Text

/-- A text in ASCII. -/
def Ascii (s : Str) : Prop := ∀ c ∈ s, c.val < 0x80

instance (s : Str) : Decidable (Ascii s) := List.decidableBAll (fun c : CodePoint => c.val < 0x80) s

variable {s t : Str}

theorem Ascii.append (hs : Ascii s) (ht : Ascii t) : Ascii (s ++ t) :=
  fun c hc => (List.mem_append.mp hc).elim (hs c) (ht c)

theorem Ascii.left (h : Ascii (s ++ t)) : Ascii s := fun c hc => h c (List.mem_append_left t hc)

theorem Ascii.scalar (h : Ascii s) : Scalar s := fun c hc => Or.inl ((h c hc).trans (by decide))

theorem ascii_map {f : ℕ → CodePoint} {l : List ℕ} (h : ∀ n ∈ l, (f n).val < 0x80) :
    Ascii (l.map f) := by
  intro c hc
  obtain ⟨n, hn, rfl⟩ := List.mem_map.mp hc
  exact h n hn

end Text

namespace Python

open Text (Str CodePoint ofString Ascii Scalar)
open Codes

/-! ## Strings -/

/-- `ESCAPE_DCT`: the character behind the backslash. -/
def shortEscape (c : CodePoint) : Option CodePoint :=
  if c.val = 0x22 then some 0x22
  else if c.val = 0x5c then some 0x5c
  else if c.val = 0x0a then some 0x6e
  else if c.val = 0x0d then some 0x72
  else if c.val = 0x09 then some 0x74
  else if c.val = 0x0c then some 0x66
  else if c.val = 0x08 then some 0x62
  else none

/-- A character inside a string. -/
def escapeChar (c : CodePoint) : Str :=
  match shortEscape c with
  | some d => [0x5c, d]
  | none => if c.val < 0x20 then 0x5c :: 0x75 :: (places 16 4 c.val).map hexChar else [c]

/-- `py_encode_basestring` -/
def quote (s : Str) : Str := 0x22 :: (s.flatMap escapeChar ++ [0x22])

theorem hexChar_inj {i j : ℕ} (hi : i < 16) (hj : j < 16) (h : hexChar i = hexChar j) : i = j := by
  have hall : ∀ i < 16, ∀ j < 16, hexChar i = hexChar j → i = j := by decide
  exact hall i hi j hj h

theorem prefixCode_hex (k : ℕ) : PrefixCode (· < 16 ^ k) fun n => (places 16 k n).map hexChar :=
  prefixCode_places (by decide) fun _ _ hi hj h => hexChar_inj hi hj h

/-- The character that a short escape stands for. -/
def unescape (d : CodePoint) : ℕ :=
  if d.val = 0x6e then 0x0a
  else if d.val = 0x72 then 0x0d
  else if d.val = 0x74 then 0x09
  else if d.val = 0x66 then 0x0c
  else if d.val = 0x62 then 0x08
  else d.val

theorem unescape_of_shortEscape {c d : CodePoint} (h : shortEscape c = some d) :
    unescape d = c.val ∧ d.val ≠ 0x75 := by
  unfold shortEscape at h
  split_ifs at h with h₁ h₂ h₃ h₄ h₅ h₆ h₇
  · obtain rfl := Option.some.inj h
    exact ⟨h₁.symm, by decide⟩
  · obtain rfl := Option.some.inj h
    exact ⟨h₂.symm, by decide⟩
  · obtain rfl := Option.some.inj h
    exact ⟨h₃.symm, by decide⟩
  · obtain rfl := Option.some.inj h
    exact ⟨h₄.symm, by decide⟩
  · obtain rfl := Option.some.inj h
    exact ⟨h₅.symm, by decide⟩
  · obtain rfl := Option.some.inj h
    exact ⟨h₆.symm, by decide⟩
  · obtain rfl := Option.some.inj h
    exact ⟨h₇.symm, by decide⟩

/-- The three kinds of characters. -/
theorem escapeChar_cases (c : CodePoint) :
    (∃ d, shortEscape c = some d ∧ escapeChar c = [0x5c, d]) ∨
    (c.val < 0x20 ∧ escapeChar c = 0x5c :: 0x75 :: (places 16 4 c.val).map hexChar) ∨
    (c.val ≠ 0x22 ∧ c.val ≠ 0x5c ∧ escapeChar c = [c]) := by
  cases hc : shortEscape c with
  | some d => exact Or.inl ⟨d, rfl, by rw [escapeChar, hc]⟩
  | none =>
    have hne : c.val ≠ 0x22 ∧ c.val ≠ 0x5c := by
      unfold shortEscape at hc
      split_ifs at hc with h22 h5c
      all_goals exact ⟨h22, h5c⟩
    by_cases hlow : c.val < 0x20
    · exact Or.inr (Or.inl ⟨hlow, by rw [escapeChar, hc]; exact if_pos hlow⟩)
    · exact Or.inr (Or.inr ⟨hne.1, hne.2, by rw [escapeChar, hc]; exact if_neg hlow⟩)

/-- A character is read back from the front of an escaped text. -/
theorem prefixCode_escapeChar : PrefixCode (fun _ => True) escapeChar := by
  intro a b _ _ x y h
  rcases escapeChar_cases a with ⟨d, hd, ha⟩ | ⟨hlow, ha⟩ | ⟨-, hback, ha⟩
  · obtain ⟨hval, hu⟩ := unescape_of_shortEscape hd
    rcases escapeChar_cases b with ⟨d', hd', hb⟩ | ⟨-, hb⟩ | ⟨-, hback', hb⟩
    · rw [ha, hb] at h
      obtain ⟨rfl, hxy⟩ := List.cons.inj (List.cons.inj h).2
      exact ⟨Fin.ext (hval.symm.trans (unescape_of_shortEscape hd').1), hxy⟩
    · rw [ha, hb] at h
      exact absurd (congrArg Fin.val (List.cons.inj (List.cons.inj h).2).1) hu
    · rw [ha, hb] at h
      exact absurd (congrArg Fin.val (List.cons.inj h).1).symm hback'
  · rcases escapeChar_cases b with ⟨d', hd', hb⟩ | ⟨hlow', hb⟩ | ⟨-, hback', hb⟩
    · rw [ha, hb] at h
      exact absurd (congrArg Fin.val (List.cons.inj (List.cons.inj h).2).1).symm
        (unescape_of_shortEscape hd').2
    · rw [ha, hb] at h
      obtain ⟨hval, hxy⟩ := prefixCode_hex 4 (by omega) (by omega)
        (List.cons.inj (List.cons.inj h).2).2
      exact ⟨Fin.ext hval, hxy⟩
    · rw [ha, hb] at h
      exact absurd (congrArg Fin.val (List.cons.inj h).1).symm hback'
  · rcases escapeChar_cases b with ⟨d', hd', hb⟩ | ⟨-, hb⟩ | ⟨-, -, hb⟩
    · rw [ha, hb] at h
      exact absurd (congrArg Fin.val (List.cons.inj h).1) hback
    · rw [ha, hb] at h
      exact absurd (congrArg Fin.val (List.cons.inj h).1) hback
    · rw [ha, hb] at h
      exact ⟨(List.cons.inj h).1, (List.cons.inj h).2⟩

theorem escapeChar_head (c : CodePoint) : ∃ d s, escapeChar c = d :: s ∧ d ≠ 0x22 := by
  rcases escapeChar_cases c with ⟨d, -, hc⟩ | ⟨-, hc⟩ | ⟨hne, -, hc⟩
  · exact ⟨0x5c, [d], hc, by decide⟩
  · exact ⟨0x5c, _, hc, by decide⟩
  · refine ⟨c, [], hc, ?_⟩
    rintro rfl
    exact hne rfl

/-- A string is read back from the front of a text. -/
theorem quote_append_inj {s t x y : Str} (h : quote s ++ x = quote t ++ y) : s = t ∧ x = y :=
  prefixCode_escapeChar.terminated (fun c _ => escapeChar_head c) (fun _ _ => trivial)
    (fun _ _ => trivial) (List.cons.inj h).2

theorem ascii_hex (k n : ℕ) : Ascii ((places 16 k n).map hexChar) := by
  have hall : ∀ d < 16, (hexChar d).val < 0x80 := by decide
  exact Text.ascii_map fun d hd => hall d (lt_of_mem_places (by decide) hd)

theorem scalar_escapeChar {c : CodePoint} (h : c.val.isValidChar) : Scalar (escapeChar c) := by
  have hback : Ascii [0x5c] := by decide
  rcases escapeChar_cases c with ⟨d, hd, hc⟩ | ⟨-, hc⟩ | ⟨-, -, hc⟩
  · have hshort : Ascii [d] := by
      unfold shortEscape at hd
      split_ifs at hd
      all_goals
        obtain rfl := Option.some.inj hd
        decide
    rw [hc]
    exact (hback.append hshort).scalar
  · rw [hc]
    have hu : Ascii [0x75] := by decide
    exact (hback.append (hu.append (ascii_hex 4 c.val))).scalar
  · rw [hc]
    intro d hd
    rwa [List.mem_singleton.mp hd]

theorem scalar_quote {s : Str} (h : Scalar s) : Scalar (quote s) := by
  have hquote : Ascii [0x22] := by decide
  have hbody : Scalar (s.flatMap escapeChar) := by
    intro d hd
    obtain ⟨c, hc, hd⟩ := List.mem_flatMap.mp hd
    exact scalar_escapeChar (h c hc) d hd
  exact hquote.scalar.append (hbody.append hquote.scalar)

/-! ## Values -/

/-- A JSON value of strings, booleans and arrays. -/
inductive Tree : Type where
  | bool (b : Bool)
  | str (s : Str)
  | array (items : List Tree)

namespace Tree

mutual

/-- `json.dumps` -/
def dumps : Tree → Str
  | bool b => ofString (if b then "true" else "false")
  | str s => quote s
  | array items => 0x5b :: dumpsItems items

/-- The items of an array and its closing bracket. -/
def dumpsItems : List Tree → Str
  | [] => [0x5d]
  | v :: rest => v.dumps ++ dumpsRest rest

def dumpsRest : List Tree → Str
  | [] => [0x5d]
  | v :: rest => 0x2c :: (v.dumps ++ dumpsRest rest)

end

/-- The first character of a text says what kind of value it is. -/
def opening : Tree → CodePoint
  | bool b => if b then 0x74 else 0x66
  | str _ => 0x22
  | array _ => 0x5b

theorem dumps_eq_cons (v : Tree) : ∃ s, v.dumps = v.opening :: s := by
  cases v with
  | bool b => cases b <;> exact ⟨_, rfl⟩
  | str s => exact ⟨_, rfl⟩
  | array items => exact ⟨_, rfl⟩

theorem opening_eq {v w : Tree} {x y : Str} (h : v.dumps ++ x = w.dumps ++ y) :
    v.opening = w.opening := by
  obtain ⟨s, hs⟩ := v.dumps_eq_cons
  obtain ⟨t, ht⟩ := w.dumps_eq_cons
  rw [hs, ht] at h
  exact (List.cons.inj h).1

/-- A value is no closing bracket. -/
theorem opening_ne (v : Tree) : v.opening ≠ 0x5d := by
  cases v with
  | bool b => cases b <;> decide
  | str s => exact of_decide_eq_false rfl
  | array items => exact of_decide_eq_false rfl

mutual

/-- A value is read back from the front of a text. -/
theorem dumps_append_inj : ∀ (v w : Tree) (x y : Str), v.dumps ++ x = w.dumps ++ y → v = w ∧ x = y
  | .bool b, .bool c, x, y, h => by
    have hopening := opening_eq h
    cases b <;> cases c
    · exact ⟨rfl, List.append_cancel_left h⟩
    · exact absurd hopening (by decide)
    · exact absurd hopening (by decide)
    · exact ⟨rfl, List.append_cancel_left h⟩
  | .str s, .str t, x, y, h => by
    obtain ⟨rfl, hxy⟩ := quote_append_inj h
    exact ⟨rfl, hxy⟩
  | .array items, .array items', x, y, h => by
    obtain ⟨rfl, hxy⟩ := dumpsItems_append_inj items items' x y (List.cons.inj h).2
    exact ⟨rfl, hxy⟩
  | .bool b, .str t, x, y, h =>
    absurd (opening_eq h) (by cases b <;> exact of_decide_eq_false rfl)
  | .bool b, .array items, x, y, h =>
    absurd (opening_eq h) (by cases b <;> exact of_decide_eq_false rfl)
  | .str s, .bool b, x, y, h =>
    absurd (opening_eq h) (by cases b <;> exact of_decide_eq_false rfl)
  | .str s, .array items, x, y, h => absurd (opening_eq h) (of_decide_eq_false rfl)
  | .array items, .bool b, x, y, h =>
    absurd (opening_eq h) (by cases b <;> exact of_decide_eq_false rfl)
  | .array items, .str t, x, y, h => absurd (opening_eq h) (of_decide_eq_false rfl)

theorem dumpsItems_append_inj : ∀ (l l' : List Tree) (x y : Str),
    dumpsItems l ++ x = dumpsItems l' ++ y → l = l' ∧ x = y
  | [], [], x, y, h => ⟨rfl, (List.cons.inj h).2⟩
  | v :: l, w :: l', x, y, h => by
    rw [dumpsItems, dumpsItems, List.append_assoc, List.append_assoc] at h
    obtain ⟨rfl, hrest⟩ := dumps_append_inj v w _ _ h
    obtain ⟨rfl, hxy⟩ := dumpsRest_append_inj l l' x y hrest
    exact ⟨rfl, hxy⟩
  | [], w :: l', x, y, h => by
    obtain ⟨s, hs⟩ := w.dumps_eq_cons
    rw [dumpsItems, dumpsItems, hs] at h
    exact absurd (List.cons.inj h).1.symm w.opening_ne
  | v :: l, [], x, y, h => by
    obtain ⟨s, hs⟩ := v.dumps_eq_cons
    rw [dumpsItems, dumpsItems, hs] at h
    exact absurd (List.cons.inj h).1 v.opening_ne

theorem dumpsRest_append_inj : ∀ (l l' : List Tree) (x y : Str),
    dumpsRest l ++ x = dumpsRest l' ++ y → l = l' ∧ x = y
  | [], [], x, y, h => ⟨rfl, (List.cons.inj h).2⟩
  | v :: l, w :: l', x, y, h => by
    rw [dumpsRest, dumpsRest, List.cons_append, List.cons_append, List.append_assoc,
      List.append_assoc] at h
    obtain ⟨rfl, hrest⟩ := dumps_append_inj v w _ _ (List.cons.inj h).2
    obtain ⟨rfl, hxy⟩ := dumpsRest_append_inj l l' x y hrest
    exact ⟨rfl, hxy⟩
  | [], w :: l', x, y, h => absurd (List.cons.inj h).1 (by decide)
  | v :: l, [], x, y, h => absurd (List.cons.inj h).1 (by decide)

end

theorem scalar_dumpsRest {items : List Tree} (h : ∀ v ∈ items, Scalar v.dumps) :
    Scalar (dumpsRest items) := by
  have hcomma : Ascii [0x2c] := by decide
  have hclose : Ascii [0x5d] := by decide
  induction items with
  | nil => exact hclose.scalar
  | cons v rest ih =>
    rw [List.forall_mem_cons] at h
    exact hcomma.scalar.append (h.1.append (ih h.2))

/-- An array has a text without surrogates if its items have. -/
theorem scalar_dumps_array {items : List Tree} (h : ∀ v ∈ items, Scalar v.dumps) :
    Scalar (array items).dumps := by
  have hopen : Ascii [0x5b] := by decide
  have hclose : Ascii [0x5d] := by decide
  cases items with
  | nil => exact (hopen.append hclose).scalar
  | cons v rest =>
    rw [List.forall_mem_cons] at h
    exact hopen.scalar.append (h.1.append (scalar_dumpsRest h.2))

/-- Values have different texts. -/
theorem dumps_inj {v w : Tree} (h : v.dumps = w.dumps) : v = w :=
  (dumps_append_inj v w [] [] (congrArg (· ++ []) h)).1

example : dumps (.array [.str (ofString "a\"\n"), .bool true, .array []]) =
    ofString "[\"a\\\"\\n\",true,[]]" := by decide

end Tree

/-! ## Bytes -/

theorem ofChar_of_toChar {c : CodePoint} {d : Char} (h : Text.toChar c = some d) :
    Text.ofChar d = c := by
  rw [Text.toChar] at h
  by_cases hvalid : c.val.isValidChar
  · rw [dif_pos hvalid] at h
    obtain rfl := Option.some.inj h
    exact Fin.ext rfl
  · rw [dif_neg hvalid] at h
    cases h

theorem map_ofChar_of_chars {s : Str} {cs : List Char} (h : Text.chars s = some cs) :
    cs.map Text.ofChar = s := by
  induction s generalizing cs with
  | nil =>
    obtain rfl := Option.some.inj h
    rfl
  | cons c s ih =>
    rw [Text.chars] at h
    obtain ⟨d, hd, hcs⟩ := Option.bind_eq_some_iff.mp h
    obtain ⟨ds, hds, rfl⟩ := Option.map_eq_some_iff.mp hcs
    rw [List.map_cons, ofChar_of_toChar hd, ih hds]

/-- Texts have different bytes. -/
theorem encodeUtf8_inj {s t : Str} {b : List UInt8} (hs : Text.encodeUtf8 s = some b)
    (ht : Text.encodeUtf8 t = some b) : s = t := by
  obtain ⟨cs, hcs, rfl⟩ := Option.map_eq_some_iff.mp hs
  obtain ⟨ds, hds, heq⟩ := Option.map_eq_some_iff.mp ht
  have hstring : String.ofList ds = String.ofList cs := by
    refine String.toByteArray_inj.mp (ByteArray.ext ?_)
    exact Array.toList_inj.mp heq
  rw [← map_ofChar_of_chars hcs, ← map_ofChar_of_chars hds, String.ofList_injective hstring]

end Python
