import LLMBenchLab.Numerals

/-!
# Patterns: regular expressions over code points

A pattern is a function from a place in a text to the places where a match
that starts there may end; a place is the character before it and the text
after it. `search` tries every place.

What is proved of patterns is when they cannot match: a pattern is `Dead` on
texts of a kind if it needs a character that the kind excludes.
-/

namespace Python

open Text (Str CodePoint)

/-- The character before, and the text from here on. -/
abbrev Place := Option CodePoint × Str

abbrev Pattern := Place → List Place

namespace Pattern

/-- `\w` -/
def isWord (c : CodePoint) : Bool :=
  (0x30 ≤ c.val && c.val ≤ 0x39) || (0x41 ≤ c.val && c.val ≤ 0x5a) || c.val == 0x5f ||
    (0x61 ≤ c.val && c.val ≤ 0x7a)

/-- An ASCII letter or digit. -/
def isAlnum (c : CodePoint) : Bool := isWord c && c.val != 0x5f

/-- A character of the class. -/
def oneOf (p : CodePoint → Bool) : Pattern
  | (_, c :: rest) => if p c then [(some c, rest)] else []
  | (_, []) => []

/-- The word `w`, in any case; `w` is given in lower case. -/
def lit : Str → Pattern
  | [], place => [place]
  | c :: w, place => (oneOf (fun d => Decimal.lower d == c) place).flatMap (lit w)

def seq (p q : Pattern) : Pattern := fun place => (p place).flatMap q

/-- `p?` -/
def opt (p : Pattern) : Pattern := fun place => p place ++ [place]

/-- `p|q|..` -/
def alt (ps : List Pattern) : Pattern := fun place => ps.flatMap (· place)

def manyFrom (p : CodePoint → Bool) : Option CodePoint → Str → List Place
  | before, [] => [(before, [])]
  | before, c :: rest => (before, c :: rest) :: if p c then manyFrom p (some c) rest else []

/-- `[class]*` -/
def many (p : CodePoint → Bool) : Pattern := fun place => manyFrom p place.1 place.2

/-- `[class]{n,}` -/
def atLeast (p : CodePoint → Bool) : ℕ → Pattern
  | 0 => many p
  | n + 1 => seq (oneOf p) (atLeast p n)

/-- `\b` -/
def boundary : Pattern := fun place =>
  if place.1.any isWord != place.2.head?.any isWord then [place] else []

/-- Is there a match at this place or after it? -/
def searchFrom (p : Pattern) : Option CodePoint → Str → Bool
  | before, [] => !(p (before, [])).isEmpty
  | before, c :: rest => !(p (before, c :: rest)).isEmpty || searchFrom p (some c) rest

/-- `p.search(text) is not None` -/
def search (p : Pattern) (text : Str) : Bool := searchFrom p none text

variable {P : CodePoint → Prop}

/-- No match starts in a text of the kind. -/
def Dead (P : CodePoint → Prop) (p : Pattern) : Prop :=
  ∀ before s, (∀ c ∈ s, P c) → p (before, s) = []

/-- What is left after a match in a text of the kind is of the kind. -/
def Keeps (P : CodePoint → Prop) (p : Pattern) : Prop :=
  ∀ before s, (∀ c ∈ s, P c) → ∀ place ∈ p (before, s), ∀ c ∈ place.2, P c

theorem keeps_oneOf (p : CodePoint → Bool) : Keeps P (oneOf p) := by
  intro before s hs place hplace
  cases s with
  | nil => cases hplace
  | cons c rest =>
    rw [oneOf] at hplace
    split at hplace
    · rw [List.mem_singleton.mp hplace]
      exact fun d hd => hs d (List.mem_cons_of_mem _ hd)
    · cases hplace

theorem Keeps.seq {p q : Pattern} (hp : Keeps P p) (hq : Keeps P q) : Keeps P (Pattern.seq p q) := by
  intro before s hs place hplace
  obtain ⟨mid, hmid, hplace⟩ := List.mem_flatMap.mp hplace
  exact hq mid.1 mid.2 (hp before s hs mid hmid) place hplace

theorem keeps_lit (w : Str) : Keeps P (lit w) := by
  induction w with
  | nil =>
    intro before s hs place hplace
    rw [List.mem_singleton.mp hplace]
    exact hs
  | cons c w ih => exact (keeps_oneOf _).seq ih

theorem Keeps.opt {p : Pattern} (hp : Keeps P p) : Keeps P (Pattern.opt p) := by
  intro before s hs place hplace
  rcases List.mem_append.mp hplace with hplace | hplace
  · exact hp before s hs place hplace
  · rw [List.mem_singleton.mp hplace]
    exact hs

theorem Dead.seq {p : Pattern} (hp : Dead P p) (q : Pattern) : Dead P (Pattern.seq p q) := by
  intro before s hs
  rw [Pattern.seq, hp before s hs, List.flatMap_nil]

theorem Keeps.seq_dead {p q : Pattern} (hp : Keeps P p) (hq : Dead P q) : Dead P (Pattern.seq p q) := by
  intro before s hs
  exact List.flatMap_eq_nil_iff.mpr fun mid hmid => hq mid.1 mid.2 (hp before s hs mid hmid)

theorem dead_alt {ps : List Pattern} (h : ∀ p ∈ ps, Dead P p) : Dead P (alt ps) :=
  fun before s hs => List.flatMap_eq_nil_iff.mpr fun p hp => h p hp before s hs

theorem dead_oneOf {p : CodePoint → Bool} (h : ∀ c, P c → p c = false) : Dead P (oneOf p) := by
  intro before s hs
  cases s with
  | nil => rfl
  | cons c rest =>
    rw [oneOf, h c (hs c List.mem_cons_self)]
    exact if_neg Bool.false_ne_true

/-- A word with a character outside the kind does not occur. -/
theorem dead_lit {w : Str} {c : CodePoint} (hc : c ∈ w) (h : ∀ d, P d → Decimal.lower d ≠ c) :
    Dead P (lit w) := by
  induction w with
  | nil => cases hc
  | cons e w ih =>
    rcases List.mem_cons.mp hc with rfl | hc
    · exact (dead_oneOf fun d hd => beq_eq_false_iff_ne.mpr (h d hd)).seq (lit w)
    · exact (keeps_oneOf _).seq_dead (ih hc)

theorem keeps_boundary : Keeps P boundary := by
  intro before s hs place hplace
  rw [boundary] at hplace
  split at hplace
  · rw [List.mem_singleton.mp hplace]
    exact hs
  · cases hplace

theorem search_of_dead {p : Pattern} (hp : Dead P p) {s : Str} (hs : ∀ c ∈ s, P c) :
    p.search s = false := by
  have h : ∀ before, searchFrom p before s = false := by
    induction s with
    | nil => intro before; rw [searchFrom, hp before [] hs]; rfl
    | cons c rest ih =>
      intro before
      rw [searchFrom, hp before _ hs, ih fun d hd => hs d (List.mem_cons_of_mem _ hd)]
      rfl
  exact h none

end Pattern

end Python
