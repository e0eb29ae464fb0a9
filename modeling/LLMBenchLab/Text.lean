import Mathlib.Data.List.Infix
import Mathlib.Tactic.Common

/-!
# Text: strings as sequences of code points

A string here is a sequence of code points, surrogates included: a JSON escape
can name one on its own, though no UTF-8 sequence decodes to it.
-/

namespace Text

abbrev CodePoint := Fin 0x110000

abbrev Str := List CodePoint

@[instance] theorem CodePoint.neZero : @NeZero ℕ Zero.ofOfNat0 0x110000 :=
  ⟨Nat.succ_ne_zero _⟩

instance Str.lawfulBEq : LawfulBEq Str := inferInstance

def ofChar (c : Char) : CodePoint :=
  ⟨c.toNat, by
    have h := c.valid
    simp only [UInt32.isValidChar, Nat.isValidChar] at h
    simp only [Char.toNat]
    omega⟩

/-- The text of a literal. -/
def ofString (s : String) : Str := s.toList.map ofChar

/-- `bytes.decode("utf-8")`; none where the bytes are not UTF-8. -/
def decodeUtf8 (b : List UInt8) : Option Str := (String.fromUTF8? ⟨b.toArray⟩).map ofString

/-- The character of a code point that is no surrogate. -/
def toChar (c : CodePoint) : Option Char :=
  if h : c.val.isValidChar then some (Char.ofNatAux c.val h) else none

/-- A text without surrogates. -/
def Scalar (s : Str) : Prop := ∀ c ∈ s, c.val.isValidChar

instance (s : Str) : Decidable (Scalar s) := inferInstanceAs (Decidable (∀ c ∈ s, _))

theorem scalar_ofString (s : String) : Scalar (ofString s) := by
  intro c hc
  obtain ⟨d, -, rfl⟩ := List.mem_map.mp hc
  exact d.valid

theorem Scalar.append {s t : Str} (hs : Scalar s) (ht : Scalar t) : Scalar (s ++ t) :=
  fun c hc => (List.mem_append.mp hc).elim (hs c) (ht c)

theorem Scalar.of_subset {s t : Str} (ht : Scalar t) (h : s ⊆ t) : Scalar s := fun c hc => ht c (h hc)

/-- The characters of a text; none where it has a surrogate. -/
def chars : Str → Option (List Char)
  | [] => some []
  | c :: cs => (toChar c).bind fun d => (chars cs).map (d :: ·)

/-- `text.encode("utf-8")`; none where the text has a surrogate. -/
def encodeUtf8 (s : Str) : Option (List UInt8) :=
  (chars s).map fun cs => (String.ofList cs).toUTF8.data.toList

theorem Scalar.encodeUtf8_isSome {s : Str} (h : Scalar s) : (encodeUtf8 s).isSome := by
  have hchars : (chars s).isSome := by
    induction s with
    | nil => rfl
    | cons c s ih =>
      rw [chars, toChar, dif_pos (h c List.mem_cons_self), Option.bind_some, Option.isSome_map]
      exact ih (h.of_subset (List.subset_cons_self c s))
  rwa [encodeUtf8, Option.isSome_map]

end Text
