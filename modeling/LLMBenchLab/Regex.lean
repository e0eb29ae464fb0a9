import LLMBenchLab.Patterns

/-!
# Regular expressions with priorities, groups and assertions

Python's `re` as a backtracking matcher: `ends` lists the places where a match
may end in the order in which the engine tries them, so that its head is the match
that `re` reports. Repetition is of character classes only.
-/

namespace Python

open Text (Str CodePoint)

/-- The tables of the Unicode database that `str` methods and `\w` rest on. -/
structure Unicode where
  /-- `c.isalnum()` -/
  isAlnum : CodePoint → Bool
  upper : Str → Str
  lower : Str → Str
  casefold : Str → Str
  isAlnum_ascii : ∀ c : CodePoint, c.val < 0x80 → isAlnum c = Pattern.isAlnum c
  lower_ascii : ∀ s : Str, (∀ c ∈ s, c.val < 0x80) → lower s = s.map Decimal.lower
  casefold_ascii : ∀ s : Str, (∀ c ∈ s, c.val < 0x80) → casefold s = s.map Decimal.lower
  upper_ascii : ∀ s : Str, (∀ c ∈ s, c.val < 0x80) →
    upper s = s.map fun c => if 0x61 ≤ c.val ∧ c.val ≤ 0x7a then Fin.ofNat _ (c.val - 0x20) else c

namespace Unicode

/-- `\w` -/
def isWord (u : Unicode) (c : CodePoint) : Bool := u.isAlnum c || c.val == 0x5f

/-- The tables of a text that is ASCII. -/
def ascii : Unicode where
  isAlnum := Pattern.isAlnum
  upper s := s.map fun c => if 0x61 ≤ c.val ∧ c.val ≤ 0x7a then Fin.ofNat _ (c.val - 0x20) else c
  lower s := s.map Decimal.lower
  casefold s := s.map Decimal.lower
  isAlnum_ascii _ _ := rfl
  lower_ascii _ _ := rfl
  casefold_ascii _ _ := rfl
  upper_ascii _ _ := rfl

end Unicode

inductive Regex : Type where
  | empty
  /-- one character of the class -/
  | char (p : CodePoint → Bool)
  | seq (a b : Regex)
  /-- `a|b` -/
  | alt (a b : Regex)
  /-- `[class]*` -/
  | many (p : CodePoint → Bool)
  /-- `(a)`, the group with this number -/
  | group (n : ℕ) (a : Regex)
  /-- `(?=a)`, and `(?!a)` if not wanted -/
  | ahead (wanted : Bool) (a : Regex)
  /-- `(?<=..)` for a sequence of classes, the nearest character first, and
  `(?<!..)` if not wanted -/
  | behind (wanted : Bool) (ps : List (CodePoint → Bool))
  /-- `^` -/
  | start
  /-- `$` -/
  | finish
  /-- `\b` -/
  | boundary (isWord : CodePoint → Bool)

namespace Regex

/-- A place in a text and the groups captured so far, the last one first. -/
structure Cursor where
  /-- the text before the place, from right to left -/
  before : Str
  after : Str
  groups : List (ℕ × Str)

/-- The text from `c` to the later place `e`. -/
def Cursor.upTo (c e : Cursor) : Str := c.after.take (c.after.length - e.after.length)

/-- Where a run of the class may end, the longest first. -/
def manyEnds (p : CodePoint → Bool) (groups : List (ℕ × Str)) : Str → Str → List Cursor
  | before, [] => [⟨before, [], groups⟩]
  | before, d :: rest =>
    (if p d then manyEnds p groups (d :: before) rest else []) ++ [⟨before, d :: rest, groups⟩]

/-- The text before a place ends in characters of the classes. -/
def endsIn : List (CodePoint → Bool) → Str → Bool
  | [], _ => true
  | p :: ps, d :: before => p d && endsIn ps before
  | _ :: _, [] => false

/-- The ends of the matches that start at a place, in the order of the engine. -/
def ends : Regex → Cursor → List Cursor
  | empty, c => [c]
  | char p, c =>
    match c.after with
    | d :: rest => if p d then [⟨d :: c.before, rest, c.groups⟩] else []
    | [] => []
  | seq a b, c => (a.ends c).flatMap b.ends
  | alt a b, c => a.ends c ++ b.ends c
  | many p, c => manyEnds p c.groups c.before c.after
  | group n a, c => (a.ends c).map fun e => { e with groups := (n, c.upTo e) :: e.groups }
  | ahead wanted a, c => if (a.ends c).isEmpty != wanted then [c] else []
  | behind wanted ps, c => if endsIn ps c.before == wanted then [c] else []
  | start, c => if c.before.isEmpty then [c] else []
  | finish, c => if c.after.isEmpty || c.after == [Fin.ofNat _ 0xa] then [c] else []
  | boundary isWord, c =>
    if c.before.head?.any isWord != c.after.head?.any isWord then [c] else []

/-! ## Shorthands -/

/-- `a?` -/
def opt (a : Regex) : Regex := alt a empty

/-- `[class]+` -/
def atLeastOne (p : CodePoint → Bool) : Regex := seq (char p) (many p)

def seqs : List Regex → Regex
  | [] => empty
  | [a] => a
  | a :: rest => seq a (seqs rest)

def alts : List Regex → Regex
  | [] => ahead false empty
  | [a] => a
  | a :: rest => alt a (alts rest)

def isOneOf (w : String) (c : CodePoint) : Bool := (Text.ofString w).contains c

/-- `[w]` -/
def oneOf (w : String) : Regex := char (isOneOf w)

/-- `[^w]` -/
def noneOf (w : String) : CodePoint → Bool := fun c => !isOneOf w c

/-- The characters of `w` as they stand. -/
def exact (w : String) : Regex := seqs ((Text.ofString w).map fun c => char (· == c))

/-- The lower-case ASCII letter that `re.I` takes a character for. -/
def fold (c : CodePoint) : CodePoint :=
  if c.val = 0x130 ∨ c.val = 0x131 then Fin.ofNat _ 0x69
  else if c.val = 0x17f then Fin.ofNat _ 0x73
  else if c.val = 0x212a then Fin.ofNat _ 0x6b
  else Decimal.lower c

/-- The characters of `w` under `re.I`; its letters are lower-case ASCII or have no case. -/
def word (w : String) : Regex := seqs ((Text.ofString w).map fun c => char (fold · == c))

/-- `[A-Z]` under `re.I` -/
def isLetter (c : CodePoint) : Bool := 0x61 ≤ (fold c).val && (fold c).val ≤ 0x7a

/-- `\s*` -/
def spaces : Regex := many isSpace

/-! ## Matching -/

structure Match where
  start : Cursor
  stop : Cursor

/-- `m.group(n)` -/
def Match.group (m : Match) (n : ℕ) : Option Str := m.stop.groups.lookup n

/-- `text[m.end():]` -/
def Match.rest (m : Match) : Str := m.stop.after

/-- `r.match(text)` -/
def matchStart (r : Regex) (text : Str) : Option Match :=
  (r.ends ⟨[], text, []⟩).head?.map fun e => ⟨⟨[], text, []⟩, e⟩

/-- `r.fullmatch(text)` -/
def fullmatch (r : Regex) (text : Str) : Option Match :=
  ((r.ends ⟨[], text, []⟩).find? (·.after.isEmpty)).map fun e => ⟨⟨[], text, []⟩, e⟩

/-- The first match from a place on; an empty one at the place itself is passed over
if `mustAdvance`. -/
def searchFrom (r : Regex) (mustAdvance : Bool) (before : Str) : Str → Option Match
  | [] => go before []
  | d :: rest =>
    match go before (d :: rest) with
    | some m => some m
    | none => searchFrom r false (d :: before) rest
where
  /-- a match that starts here -/
  go (before after : Str) : Option Match :=
    ((r.ends ⟨before, after, []⟩).find? fun e =>
      !mustAdvance || e.after.length < after.length).map fun e => ⟨⟨before, after, []⟩, e⟩

/-- `r.search(text)` -/
def search (r : Regex) (text : Str) : Option Match := r.searchFrom false [] text

/-- The successive matches from a place on. -/
def findFrom (r : Regex) : ℕ → Bool → Str → Str → List Match
  | 0, _, _, _ => []
  | fuel + 1, mustAdvance, before, after =>
    match r.searchFrom mustAdvance before after with
    | none => []
    | some m =>
      m :: r.findFrom fuel (m.stop.after.length == m.start.after.length) m.stop.before m.stop.after

/-- `r.finditer(text)`: of two successive matches at most one is empty. -/
def finditer (r : Regex) (text : Str) : List Match := r.findFrom (2 * text.length + 2) false [] text

/-- The text from `after` on with the matches replaced. -/
def subFrom (f : Match → Str) (after : Str) : List Match → Str
  | [] => after
  | m :: ms => after.take (after.length - m.start.after.length) ++ f m ++ subFrom f m.stop.after ms

/-- `r.sub(f, text)` -/
def sub (r : Regex) (f : Match → Str) (text : Str) : Str := subFrom f text (r.finditer text)

example : (sub (atLeastOne isSpace) (fun _ => Text.ofString " ") (Text.ofString "a \n b  ")) =
    Text.ofString "a b " := by decide +kernel

end Regex

end Python
