import Mathlib.Data.List.Basic
import Mathlib.Tactic.Common

/-!
# Framing: lines out of a stream that arrives in chunks

A reader keeps the unfinished end of its input in a buffer, takes every
complete line off the front of it after each chunk, and bounds what may stay
behind. A line ends with LF, CR LF or CR, so that a CR at the end of the buffer
has to wait for the next byte. `splitLines` is the same split without chunks.

The reader follows the split on every chunking unless a blank line that ends
with CR comes up while the reader's size is exactly at its limit: there the
waiting CR itself is one byte too many (`Sink.Lawful.decode_eq_iff`).
-/

namespace Framing

universe u v w

abbrev Bytes := List UInt8

def LF : UInt8 := 10

def CR : UInt8 := 13

/-! ## One line off a buffer, and the split of a whole stream -/

/-- The first line of the buffer and what is left behind it. A line without an
ending is one only at the end of the stream. -/
def popLine (atEof : Bool) : Bytes → Option (Bytes × Bytes)
  | [] => none
  | c :: rest =>
    if c = LF then some ([], rest)
    else if c = CR then
      match rest with
      | [] => if atEof then some ([], []) else none
      | d :: behind => some ([], if d = LF then behind else d :: behind)
    else
      match popLine atEof rest with
      | some (line, behind) => some (c :: line, behind)
      | none => if atEof then some (c :: rest, []) else none

/-- A line of the reference split; `cr` says that its ending starts with CR. -/
structure Line where
  text : Bytes
  cr : Bool
  deriving DecidableEq, Repr

/-- The reference split at LF, CR LF or CR; a last line needs no ending. -/
def splitLines : Bytes → List Line
  | [] => []
  | c :: rest =>
    if c = LF then ⟨[], false⟩ :: splitLines rest
    else if c = CR then
      match rest with
      | [] => [⟨[], true⟩]
      | d :: behind =>
        ⟨[], true⟩ :: if d = LF then splitLines behind else splitLines (d :: behind)
    else
      match splitLines rest with
      | [] => [⟨[c], false⟩]
      | line :: lines => ⟨c :: line.text, line.cr⟩ :: lines

@[simp] theorem splitLines_nil : splitLines [] = [] := by
  rw [splitLines]

theorem splitLines_lf (rest : Bytes) : splitLines (LF :: rest) = ⟨[], false⟩ :: splitLines rest := by
  rw [splitLines.eq_def]
  exact if_pos rfl

theorem splitLines_cr_lf (rest : Bytes) :
    splitLines (CR :: LF :: rest) = ⟨[], true⟩ :: splitLines rest := by
  rw [splitLines, if_neg (by decide), if_pos rfl, if_pos rfl]

theorem splitLines_cr {d : UInt8} (hd : d ≠ LF) (rest : Bytes) :
    splitLines (CR :: d :: rest) = ⟨[], true⟩ :: splitLines (d :: rest) := by
  rw [splitLines, if_neg (by decide), if_pos rfl, if_neg hd]

/-- After a CR the rest is split on its own, less an LF that belongs to it. -/
theorem splitLines_cr_cons (rest : Bytes) :
    ∃ lines, splitLines (CR :: rest) = ⟨[], true⟩ :: lines := by
  cases rest with
  | nil => exact ⟨[], by rw [splitLines, if_neg (by decide), if_pos rfl]⟩
  | cons d behind =>
    by_cases hd : d = LF
    · subst hd
      exact ⟨_, splitLines_cr_lf behind⟩
    · exact ⟨_, splitLines_cr hd behind⟩

/-- Any other byte goes in front of the first line. -/
theorem splitLines_byte {c : UInt8} (hlf : c ≠ LF) (hcr : c ≠ CR) {rest : Bytes} {line : Line}
    {lines : List Line} (h : splitLines rest = line :: lines) :
    splitLines (c :: rest) = ⟨c :: line.text, line.cr⟩ :: lines := by
  rw [splitLines.eq_def]
  simp only [if_neg hlf, if_neg hcr, h]

theorem splitLines_eq_nil {b : Bytes} (h : splitLines b = []) : b = [] := by
  cases b with
  | nil => rfl
  | cons c rest =>
    exfalso
    by_cases hlf : c = LF
    · subst hlf
      rw [splitLines_lf] at h
      exact List.cons_ne_nil _ _ h
    · by_cases hcr : c = CR
      · subst hcr
        obtain ⟨lines, hs⟩ := splitLines_cr_cons rest
        rw [hs] at h
        exact List.cons_ne_nil _ _ h
      · rw [splitLines.eq_def] at h
        simp only [if_neg hlf, if_neg hcr] at h
        split at h
        · exact List.cons_ne_nil _ _ h
        · exact List.cons_ne_nil _ _ h

/-! ## The buffer against the split -/

theorem popLine_lf (atEof : Bool) (rest : Bytes) :
    popLine atEof (LF :: rest) = some ([], rest) := by
  rw [popLine.eq_def]
  exact if_pos rfl

theorem popLine_cr_nil (atEof : Bool) :
    popLine atEof [CR] = if atEof then some ([], []) else none := rfl

theorem popLine_cr_cons (atEof : Bool) (d : UInt8) (behind : Bytes) :
    popLine atEof (CR :: d :: behind) = some ([], if d = LF then behind else d :: behind) := rfl

theorem popLine_byte (atEof : Bool) {c : UInt8} (hlf : c ≠ LF) (hcr : c ≠ CR) (rest : Bytes) :
    popLine atEof (c :: rest) =
      match popLine atEof rest with
      | some (line, behind) => some (c :: line, behind)
      | none => if atEof then some (c :: rest, []) else none := by
  rw [popLine.eq_def]
  simp only [if_neg hlf, if_neg hcr]

/-- What a line off the buffer can be: the four shapes of its end, and one byte
more in front. -/
theorem popLine_some {atEof : Bool} {c : UInt8} {rest line behind : Bytes}
    (h : popLine atEof (c :: rest) = some (line, behind)) :
    (c = LF ∧ line = [] ∧ behind = rest) ∨
    (c = CR ∧ rest = [] ∧ atEof = true ∧ line = [] ∧ behind = []) ∨
    (c = CR ∧ rest = LF :: behind ∧ line = []) ∨
    (c = CR ∧ (∃ d more, d ≠ LF ∧ rest = d :: more) ∧ line = [] ∧ behind = rest) ∨
    (c ≠ LF ∧ c ≠ CR ∧ popLine atEof rest = none ∧ atEof = true ∧ line = c :: rest ∧
      behind = []) ∨
    ∃ line', c ≠ LF ∧ c ≠ CR ∧ popLine atEof rest = some (line', behind) ∧ line = c :: line' := by
  by_cases hlf : c = LF
  · subst hlf
    rw [popLine_lf] at h
    simp only [Option.some.injEq, Prod.mk.injEq] at h
    exact Or.inl ⟨rfl, h.1.symm, h.2.symm⟩
  by_cases hcr : c = CR
  · subst hcr
    cases rest with
    | nil =>
      rw [popLine_cr_nil] at h
      cases atEof with
      | false => exact absurd h (by simp)
      | true =>
        simp only [if_true, Option.some.injEq, Prod.mk.injEq] at h
        exact Or.inr (Or.inl ⟨rfl, rfl, rfl, h.1.symm, h.2.symm⟩)
    | cons d more =>
      rw [popLine_cr_cons] at h
      simp only [Option.some.injEq, Prod.mk.injEq] at h
      by_cases hd : d = LF
      · rw [if_pos hd] at h
        exact Or.inr (Or.inr (Or.inl ⟨rfl, by rw [hd, h.2], h.1.symm⟩))
      · rw [if_neg hd] at h
        exact Or.inr (Or.inr (Or.inr (Or.inl ⟨rfl, ⟨d, more, hd, rfl⟩, h.1.symm, h.2.symm⟩)))
  · rw [popLine_byte atEof hlf hcr] at h
    refine Or.inr (Or.inr (Or.inr (Or.inr ?_)))
    cases hp : popLine atEof rest with
    | none =>
      rw [hp] at h
      cases atEof with
      | false => exact absurd h (by simp)
      | true =>
        simp only [if_true, Option.some.injEq, Prod.mk.injEq] at h
        exact Or.inl ⟨hlf, hcr, rfl, rfl, h.1.symm, h.2.symm⟩
    | some q =>
      obtain ⟨line', behind'⟩ := q
      rw [hp] at h
      simp only [Option.some.injEq, Prod.mk.injEq] at h
      exact Or.inr ⟨line', hlf, hcr, by rw [h.2], h.1.symm⟩

/-- A text without CR and LF is a line up to the LF behind it. -/
theorem popLine_text (atEof : Bool) {text : Bytes} (htext : ∀ c ∈ text, c ≠ LF ∧ c ≠ CR)
    (behind : Bytes) : popLine atEof (text ++ LF :: behind) = some (text, behind) := by
  induction text with
  | nil => exact popLine_lf atEof behind
  | cons c text ih =>
    obtain ⟨hlf, hcr⟩ := htext c List.mem_cons_self
    rw [List.cons_append, popLine_byte atEof hlf hcr,
      ih fun d hd => htext d (List.mem_cons_of_mem c hd)]

/-- At the end of the stream only an empty buffer has no line. -/
theorem popLine_eof_none {b : Bytes} (h : popLine true b = none) : b = [] := by
  cases b with
  | nil => rfl
  | cons c rest =>
    exfalso
    by_cases hlf : c = LF
    · subst hlf
      exact absurd h (by simp [popLine_lf])
    by_cases hcr : c = CR
    · subst hcr
      cases rest with
      | nil => exact absurd h (by simp [popLine_cr_nil])
      | cons d more => exact absurd h (by simp [popLine_cr_cons])
    · rw [popLine_byte true hlf hcr] at h
      cases hp : popLine true rest with
      | none => exact absurd h (by simp [hp])
      | some q => exact absurd h (by simp [hp])

/-- The line off the buffer is the first line of the stream, whatever follows;
at the end of the stream nothing does. -/
theorem popLine_splitLines {atEof : Bool} {b line behind more : Bytes}
    (h : popLine atEof b = some (line, behind)) (hmore : atEof = true → more = []) :
    ∃ cr, splitLines (b ++ more) = ⟨line, cr⟩ :: splitLines (behind ++ more) := by
  induction b generalizing line with
  | nil => exact absurd h (by simp [popLine])
  | cons c rest ih =>
    rcases popLine_some h with ⟨rfl, rfl, rfl⟩ | ⟨rfl, rfl, he, rfl, rfl⟩ | ⟨rfl, rfl, rfl⟩ |
      ⟨rfl, ⟨d, tail, hd, rfl⟩, rfl, rfl⟩ | ⟨hlf, hcr, hp, he, rfl, rfl⟩ | ⟨line', hlf, hcr, hp, rfl⟩
    · exact ⟨false, splitLines_lf (behind ++ more)⟩
    · obtain rfl := hmore he
      exact ⟨true, rfl⟩
    · exact ⟨true, splitLines_cr_lf (behind ++ more)⟩
    · exact ⟨true, splitLines_cr hd (tail ++ more)⟩
    · -- the unfinished last line of the stream
      obtain rfl := hmore he
      subst he
      obtain rfl := popLine_eof_none hp
      refine ⟨false, ?_⟩
      rw [List.append_nil, splitLines.eq_def]
      simp only [if_neg hlf, if_neg hcr, splitLines_nil, List.append_nil]
    · obtain ⟨cr, hs⟩ := ih hp
      exact ⟨cr, splitLines_byte hlf hcr hs⟩

theorem popLine_length {atEof : Bool} {b line behind : Bytes}
    (h : popLine atEof b = some (line, behind)) : behind.length < b.length := by
  induction b generalizing line with
  | nil => exact absurd h (by simp [popLine])
  | cons c rest ih =>
    rcases popLine_some h with ⟨-, -, rfl⟩ | ⟨-, -, -, -, rfl⟩ | ⟨-, rfl, -⟩ | ⟨-, -, -, rfl⟩ |
      ⟨-, -, -, -, -, rfl⟩ | ⟨line', -, -, hp, -⟩
    · exact Nat.lt_succ_self _
    · exact Nat.zero_lt_succ _
    · simp only [List.length_cons]
      omega
    · exact Nat.lt_succ_self _
    · exact Nat.zero_lt_succ _
    · exact Nat.lt_trans (ih hp) (Nat.lt_succ_self _)

/-- A buffer without a complete line holds the start of the stream's next line,
perhaps with the CR that ends it. -/
theorem popLine_none {b : Bytes} (h : popLine false b = none) (hb : b ≠ []) (more : Bytes) :
    ∃ line lines, splitLines (b ++ more) = line :: lines ∧ b.length ≤ line.text.length + 1 ∧
      (line.text = [] → line.cr = true) := by
  induction b with
  | nil => exact absurd rfl hb
  | cons c rest ih =>
    by_cases hlf : c = LF
    · subst hlf
      exact absurd h (by simp [popLine_lf])
    by_cases hcr : c = CR
    · subst hcr
      cases rest with
      | nil =>
        obtain ⟨lines, hs⟩ := splitLines_cr_cons more
        exact ⟨⟨[], true⟩, lines, hs, Nat.le_refl _, fun _ => rfl⟩
      | cons d tail => exact absurd h (by simp [popLine_cr_cons])
    rw [popLine_byte false hlf hcr] at h
    have hp : popLine false rest = none := by
      cases hp : popLine false rest with
      | none => rfl
      | some q => exact absurd h (by simp [hp])
    cases hs : splitLines (rest ++ more) with
    | nil =>
      have hnil := splitLines_eq_nil hs
      rw [List.append_eq_nil_iff] at hnil
      obtain ⟨rfl, rfl⟩ := hnil
      refine ⟨⟨[c], false⟩, [], ?_, by simp, by simp⟩
      rw [List.append_nil, splitLines.eq_def]
      simp only [if_neg hlf, if_neg hcr, splitLines_nil]
    | cons line lines =>
      refine ⟨⟨c :: line.text, line.cr⟩, lines, splitLines_byte hlf hcr hs, ?_, by simp⟩
      by_cases hr : rest = []
      · subst hr
        simp
      · obtain ⟨line', lines', hs', hle, -⟩ := ih hp hr
        obtain ⟨rfl, -⟩ := List.cons.inj (hs.symm.trans hs')
        simpa using hle

/-- Where the split cuts a line off, a buffer that reaches beyond the cut has the
line complete. -/
theorem splitLines_cons {b : Bytes} {line : Line} {lines : List Line}
    (h : splitLines b = line :: lines) :
    ∃ front behind, b = front ++ behind ∧ splitLines behind = lines ∧
      ∀ more, more ≠ [] → more <+: behind →
        popLine false (front ++ more) = some (line.text, more) := by
  induction b generalizing line with
  | nil => exact absurd h (by simp)
  | cons c rest ih =>
    by_cases hlf : c = LF
    · subst hlf
      rw [splitLines_lf] at h
      obtain ⟨rfl, rfl⟩ := List.cons.inj h
      exact ⟨[LF], rest, rfl, rfl, fun more _ _ => popLine_lf false more⟩
    by_cases hcr : c = CR
    · subst hcr
      cases rest with
      | nil =>
        obtain ⟨rfl, rfl⟩ := List.cons.inj h
        refine ⟨[CR], [], rfl, rfl, fun more hne hpre => ?_⟩
        exact absurd (List.prefix_nil.mp hpre) hne
      | cons d tail =>
        by_cases hd : d = LF
        · subst hd
          rw [splitLines_cr_lf] at h
          obtain ⟨rfl, rfl⟩ := List.cons.inj h
          exact ⟨[CR, LF], tail, rfl, rfl, fun more _ _ => rfl⟩
        · rw [splitLines_cr hd] at h
          obtain ⟨rfl, rfl⟩ := List.cons.inj h
          refine ⟨[CR], d :: tail, rfl, rfl, fun more hne hpre => ?_⟩
          obtain ⟨e, more, rfl⟩ := List.exists_cons_of_ne_nil hne
          obtain ⟨rfl, -⟩ := List.cons_prefix_cons.mp hpre
          rw [List.singleton_append, popLine_cr_cons, if_neg hd]
    · cases hs : splitLines rest with
      | nil =>
        obtain rfl := splitLines_eq_nil hs
        rw [splitLines.eq_def] at h
        simp only [if_neg hlf, if_neg hcr, splitLines_nil] at h
        obtain ⟨rfl, rfl⟩ := List.cons.inj h
        refine ⟨[c], [], rfl, rfl, fun more hne hpre => ?_⟩
        exact absurd (List.prefix_nil.mp hpre) hne
      | cons line' lines' =>
        rw [splitLines_byte hlf hcr hs] at h
        obtain ⟨rfl, rfl⟩ := List.cons.inj h
        obtain ⟨front, behind, rfl, hb, hpop⟩ := ih hs
        refine ⟨c :: front, behind, rfl, hb, fun more hne hpre => ?_⟩
        rw [List.cons_append, popLine_byte false hlf hcr, hpop more hne hpre]

/-- A stream whose first line is blank and ends with CR starts with CR. -/
theorem splitLines_blank {b : Bytes} {lines : List Line} (h : splitLines b = ⟨[], true⟩ :: lines) :
    ∃ behind, b = CR :: behind := by
  cases b with
  | nil => exact absurd h (by simp)
  | cons c rest =>
    by_cases hlf : c = LF
    · subst hlf
      rw [splitLines_lf] at h
      exact absurd (List.cons.inj h).1 (by simp)
    by_cases hcr : c = CR
    · exact ⟨rest, by rw [hcr]⟩
    · rw [splitLines.eq_def] at h
      simp only [if_neg hlf, if_neg hcr] at h
      split at h
      · exact absurd (List.cons.inj h).1 (by simp)
      · exact absurd (List.cons.inj h).1 (by simp)

/-! ## The reader -/

/-- What a reader does with the lines: `line` takes one in, `size` is what it
holds of its limit, `close` is for a stream that has ended before it is done. -/
structure Sink (σ : Type u) (ε : Type v) (ω : Type w) where
  limit : ℕ
  size : σ → ℕ
  done : σ → Bool
  line : σ → Bytes → Except ε σ
  tooLarge : σ → ε
  result : σ → ω
  close : σ → Except ε ω

variable {σ : Type u} {ε : Type v} {ω : Type w} (k : Sink σ ε ω)

namespace Sink

/-- Takes lines off the buffer until it has none or the reader is done. -/
def drain (atEof : Bool) (s : σ) (buffer : Bytes) : Except ε (σ × Bytes) :=
  match _h : popLine atEof buffer with
  | none => .ok (s, buffer)
  | some (line, behind) =>
    match k.line s line with
    | .error e => .error e
    | .ok s' => if k.done s' then .ok (s', behind) else drain atEof s' behind
termination_by buffer.length
decreasing_by exact popLine_length _h

/-- One chunk: its lines, and then the bound on what stays behind. -/
def feed (s : σ) (buffer chunk : Bytes) : Except ε (σ × Bytes) :=
  match k.drain false s (buffer ++ chunk) with
  | .error e => .error e
  | .ok (s', behind) =>
    if k.done s' then .ok (s', behind)
    else if k.size s' + behind.length > k.limit then .error (k.tooLarge s')
    else .ok (s', behind)

/-- The end of a stream that is not done. -/
def finish (s : σ) (buffer : Bytes) : Except ε ω :=
  match k.drain true s buffer with
  | .error e => .error e
  | .ok (s', _) => if k.done s' then .ok (k.result s') else k.close s'

/-- The reader over a stream in chunks. -/
def decode (s : σ) (buffer : Bytes) : List Bytes → Except ε ω
  | [] => k.finish s buffer
  | chunk :: chunks =>
    match k.feed s buffer chunk with
    | .error e => .error e
    | .ok (s', behind) => if k.done s' then .ok (k.result s') else decode s' behind chunks

/-- The reader over the lines of the split. -/
def consume (s : σ) : List Line → Except ε ω
  | [] => k.close s
  | line :: lines =>
    match k.line s line.text with
    | .error e => .error e
    | .ok s' => if k.done s' then .ok (k.result s') else consume s' lines

/-- The reader takes the lines in, and none of them finishes it. -/
inductive Reads : σ → List Line → σ → Prop where
  | refl (s : σ) : Reads s [] s
  | cons {s s' t : σ} {line : Line} {lines : List Line} (hline : k.line s line.text = .ok s')
      (hdone : k.done s' = false) (h : Reads s' lines t) : Reads s (line :: lines) t

/-- A blank line that ends with CR is reached with the size at its limit. -/
def Tight (s : σ) (lines : List Line) : Prop :=
  ∃ front t more, lines = front ++ ⟨[], true⟩ :: more ∧ k.Reads s front t ∧ k.size t = k.limit

/-- What the bound on the rest of a chunk relies on: a line that does not fit is
refused as too large, a blank one never is, and a failure tells how many lines
went before it. -/
structure Lawful (I : σ → Prop) (read : σ → ℕ) (failed : ε → ℕ) : Prop where
  step : ∀ {s s' : σ} {line : Bytes}, I s → k.line s line = .ok s' → I s'
  size_le : ∀ {s : σ}, I s → k.size s ≤ k.limit
  overflow : ∀ {s : σ} {line : Bytes}, I s → line ≠ [] → k.limit < k.size s + line.length + 1 →
    k.line s line = .error (k.tooLarge s)
  blank : ∀ {s : σ}, k.line s [] ≠ .error (k.tooLarge s)
  read_line : ∀ {s s' : σ} {line : Bytes}, k.line s line = .ok s' → read s' = read s + 1
  failed_line : ∀ {s : σ} {line : Bytes} {e : ε}, k.line s line = .error e → failed e = read s
  failed_close : ∀ {s : σ} {e : ε}, k.close s = .error e → failed e = read s
  failed_tooLarge : ∀ (s : σ), failed (k.tooLarge s) = read s

variable {k} {atEof : Bool} {s s' : σ} {b behind : Bytes}

/-! ## Draining a buffer -/

theorem drain_none (h : popLine atEof b = none) : k.drain atEof s b = .ok (s, b) := by
  rw [drain]
  split
  · rfl
  · rename_i hp
    exact absurd (h.symm.trans hp) (by simp)

theorem drain_some {line : Bytes} (h : popLine atEof b = some (line, behind)) :
    k.drain atEof s b =
      match k.line s line with
      | .error e => .error e
      | .ok s' => if k.done s' then .ok (s', behind) else k.drain atEof s' behind := by
  rw [drain]
  split
  · rename_i hp
    exact absurd (h.symm.trans hp) (by simp)
  · rename_i hp
    simp only [h, Option.some.injEq, Prod.mk.injEq] at hp
    obtain ⟨rfl, rfl⟩ := hp
    rfl

theorem Reads.trans {t u : σ} {lines more : List Line} (h : k.Reads s lines t)
    (h' : k.Reads t more u) : k.Reads s (lines ++ more) u := by
  induction h with
  | refl s => exact h'
  | cons hline hdone _ ih => exact .cons hline hdone (ih h')

theorem Reads.consume {t : σ} {lines : List Line} (h : k.Reads s lines t) (more : List Line) :
    k.consume s (lines ++ more) = k.consume t more := by
  induction h with
  | refl s => rfl
  | cons hline hdone h ih =>
    rw [List.cons_append, Sink.consume, hline]
    simp only [hdone]
    exact ih

theorem Reads.done {t : σ} {lines : List Line} (h : k.Reads s lines t) (hs : k.done s = false) :
    k.done t = false := by
  induction h with
  | refl s => exact hs
  | cons _ hdone _ ih => exact ih hdone

/-- What draining a buffer comes to, whatever follows it: a failure and an early
end are those of the split, and otherwise its lines are read and the rest of
the buffer has no line. -/
theorem drain_spec (atEof : Bool) (b : Bytes) (hs : k.done s = false) :
    (∃ e, k.drain atEof s b = .error e ∧
      ∀ more, (atEof = true → more = []) → k.consume s (splitLines (b ++ more)) = .error e) ∨
    (∃ t behind, k.drain atEof s b = .ok (t, behind) ∧ k.done t = true ∧
      ∀ more, (atEof = true → more = []) →
        k.consume s (splitLines (b ++ more)) = .ok (k.result t)) ∨
    (∃ t behind, k.drain atEof s b = .ok (t, behind) ∧ k.done t = false ∧
      popLine atEof behind = none ∧ ∀ more, (atEof = true → more = []) →
        ∃ lines, k.Reads s lines t ∧ splitLines (b ++ more) = lines ++ splitLines (behind ++ more))
    := by
  -- along the buffer, which every line makes shorter
  induction hn : b.length using Nat.strongRecOn generalizing s b with
  | ind n ih =>
    subst hn
    cases hp : popLine atEof b with
    | none =>
      refine Or.inr (Or.inr ⟨s, b, drain_none hp, hs, hp, fun more _ => ?_⟩)
      exact ⟨[], .refl s, rfl⟩
    | some q =>
      obtain ⟨line, behind⟩ := q
      rw [drain_some hp]
      cases hline : k.line s line with
      | error e =>
        refine Or.inl ⟨e, rfl, fun more hmore => ?_⟩
        obtain ⟨cr, hsplit⟩ := popLine_splitLines hp hmore
        rw [hsplit, consume, hline]
      | ok s' =>
        cases hdone : k.done s' with
        | true =>
          refine Or.inr (Or.inl ⟨s', behind, by simp [hdone], hdone, fun more hmore => ?_⟩)
          obtain ⟨cr, hsplit⟩ := popLine_splitLines hp hmore
          rw [hsplit, consume, hline]
          simp only [hdone, if_true]
        | false =>
          have hcons : ∀ more, (atEof = true → more = []) →
              ∃ cr, splitLines (b ++ more) = ⟨line, cr⟩ :: splitLines (behind ++ more) ∧
                k.consume s (splitLines (b ++ more)) =
                  k.consume s' (splitLines (behind ++ more)) := by
            intro more hmore
            obtain ⟨cr, hsplit⟩ := popLine_splitLines hp hmore
            refine ⟨cr, hsplit, ?_⟩
            rw [hsplit, consume, hline]
            simp [hdone]
          simp only [hdone]
          rcases ih behind.length (popLine_length hp) behind hdone rfl with
            ⟨e, hdrain, hall⟩ | ⟨t, rest, hdrain, ht, hall⟩ | ⟨t, rest, hdrain, ht, hnone, hall⟩
          · refine Or.inl ⟨e, hdrain, fun more hmore => ?_⟩
            obtain ⟨cr, -, hc⟩ := hcons more hmore
            exact hc.trans (hall more hmore)
          · refine Or.inr (Or.inl ⟨t, rest, hdrain, ht, fun more hmore => ?_⟩)
            obtain ⟨cr, -, hc⟩ := hcons more hmore
            exact hc.trans (hall more hmore)
          · refine Or.inr (Or.inr ⟨t, rest, hdrain, ht, hnone, fun more hmore => ?_⟩)
            obtain ⟨cr, hsplit, -⟩ := hcons more hmore
            obtain ⟨lines, hr, hl⟩ := hall more hmore
            exact ⟨⟨line, cr⟩ :: lines, .cons hline hdone hr, by rw [hsplit, hl]; rfl⟩

/-- Where lines are read up to a point of the split, draining a buffer that
reaches beyond it comes to that point. -/
theorem drain_reads {t : σ} {lines rest : List Line} (hr : k.Reads s lines t)
    (hsplit : splitLines b = lines ++ rest) :
    ∃ front behind, b = front ++ behind ∧ splitLines behind = rest ∧
      ∀ more, more ≠ [] → more <+: behind →
        k.drain false s (front ++ more) = k.drain false t more := by
  induction hr generalizing b with
  | refl s => exact ⟨[], b, rfl, hsplit, fun _ _ _ => rfl⟩
  | cons hline hdone hr ih =>
    obtain ⟨front, tail, rfl, htail, hpop⟩ := splitLines_cons hsplit
    obtain ⟨front', behind, rfl, hbehind, hdrain⟩ := ih htail
    refine ⟨front ++ front', behind, by rw [List.append_assoc], hbehind, fun more hne hpre => ?_⟩
    have hne' : front' ++ more ≠ [] := by
      intro h
      exact hne (List.append_eq_nil_iff.mp h).2
    rw [List.append_assoc, drain_some (hpop _ hne' ((List.prefix_append_right_inj front').mpr hpre)),
      hline]
    simp only [hdone, Bool.false_eq_true, if_false]
    exact hdrain more hne hpre

/-! ## Every chunking against the split -/

section Laws

variable {I : σ → Prop} {read : σ → ℕ} {failed : ε → ℕ} (law : k.Lawful I read failed)
include law

theorem Lawful.reads {t : σ} {lines : List Line} (hI : I s) (h : k.Reads s lines t) : I t := by
  induction h with
  | refl s => exact hI
  | cons hline _ _ ih => exact ih (law.step hI hline)

/-- What stays behind a chunk and is too large would be refused as a line, but
for a lone CR. -/
theorem Lawful.rest_tooLarge (hI : I s) (hpop : popLine false b = none)
    (hsize : k.size s + b.length > k.limit) (more : Bytes) :
    k.consume s (splitLines (b ++ more)) = .error (k.tooLarge s) ∨
      k.size s = k.limit ∧ ∃ lines, splitLines (b ++ more) = ⟨[], true⟩ :: lines := by
  have hle := law.size_le hI
  have hb : b ≠ [] := by
    rintro rfl
    rw [List.length_nil] at hsize
    omega
  obtain ⟨line, lines, hs, hlen, hcr⟩ := popLine_none hpop hb more
  rw [hs]
  by_cases htext : line.text = []
  · rw [htext, List.length_nil] at hlen
    refine Or.inr ⟨by omega, lines, ?_⟩
    rw [← htext, ← hcr htext]
  · rw [consume, law.overflow hI htext (by omega)]
    exact Or.inl rfl

/-- On any chunking the reader follows the split, or it stops too early at a
blank line ended by CR that it reached right at the limit. -/
theorem Lawful.decode_cases (hI : I s) (hs : k.done s = false) (chunks : List Bytes) :
    k.decode s b chunks = k.consume s (splitLines (b ++ chunks.flatten)) ∨
    ∃ front t more, splitLines (b ++ chunks.flatten) = front ++ ⟨[], true⟩ :: more ∧
      k.Reads s front t ∧ k.size t = k.limit ∧ k.decode s b chunks = .error (k.tooLarge t) := by
  induction chunks generalizing s b with
  | nil =>
    left
    rw [List.flatten_nil, decode, finish]
    rcases drain_spec true b hs with
      ⟨e, hdrain, hall⟩ | ⟨t, behind, hdrain, ht, hall⟩ | ⟨t, behind, hdrain, ht, hnone, hall⟩
    · rw [hdrain, hall [] fun _ => rfl]
    · rw [hdrain, hall [] fun _ => rfl]
      simp only [ht, if_true]
    · obtain ⟨lines, hr, hl⟩ := hall [] fun _ => rfl
      obtain rfl := popLine_eof_none hnone
      rw [hdrain, hl, hr.consume]
      simp [ht, consume]
  | cons chunk chunks ih =>
    rw [List.flatten_cons, ← List.append_assoc]
    have hmore : false = true → chunks.flatten = [] := fun h => absurd h (by decide)
    rw [decode, feed]
    rcases drain_spec false (b ++ chunk) hs with
      ⟨e, hdrain, hall⟩ | ⟨t, behind, hdrain, ht, hall⟩ | ⟨t, behind, hdrain, ht, hnone, hall⟩
    · rw [hdrain, hall _ hmore]
      exact Or.inl rfl
    · rw [hdrain, hall _ hmore]
      left
      simp only [ht, if_true]
    · obtain ⟨lines, hr, hl⟩ := hall _ hmore
      have hIt := law.reads hI hr
      rw [hdrain, hl, hr.consume]
      simp only [ht, Bool.false_eq_true, if_false]
      by_cases hsize : k.size t + behind.length > k.limit
      · rw [if_pos hsize]
        rcases law.rest_tooLarge hIt hnone hsize chunks.flatten with hc | ⟨heq, more, hsplit⟩
        · exact Or.inl hc.symm
        · exact Or.inr ⟨lines, t, more, by rw [hsplit], hr, heq, rfl⟩
      · rw [if_neg hsize]
        simp only [ht, Bool.false_eq_true, if_false]
        rcases ih hIt ht with hc | ⟨front, u, more, hsplit, hr', heq, hc⟩
        · exact Or.inl hc
        · refine Or.inr ⟨lines ++ front, u, more, ?_, hr.trans hr', heq, hc⟩
          rw [hsplit, List.append_assoc]

/-- A failure over the lines comes after those read before. -/
theorem Lawful.read_le_failed {lines : List Line} {e : ε} (h : k.consume s lines = .error e) :
    read s ≤ failed e := by
  induction lines generalizing s with
  | nil => exact Nat.le_of_eq (law.failed_close h).symm
  | cons line lines ih =>
    rw [consume] at h
    cases hline : k.line s line.text with
    | error e' =>
      rw [hline] at h
      obtain rfl : e' = e := by simpa using h
      exact Nat.le_of_eq (law.failed_line hline).symm
    | ok s' =>
      rw [hline] at h
      simp only at h
      split at h
      · exact absurd h (by simp)
      · have hread := law.read_line hline
        have hle := ih h
        omega

/-- **Chunking.** The reader follows the split on every chunking of a stream
exactly when no blank line ended by CR is reached right at the limit. -/
theorem Lawful.decode_eq_iff (hI : I s) (hs : k.done s = false) (stream : Bytes) :
    (∀ chunks : List Bytes, chunks.flatten = stream →
      k.decode s [] chunks = k.consume s (splitLines stream)) ↔
    ¬ k.Tight s (splitLines stream) := by
  constructor
  · rintro hall ⟨front, t, more, hsplit, hr, hsize⟩
    obtain ⟨before, behind, rfl, hbehind, hdrain⟩ := drain_reads hr hsplit
    obtain ⟨after, rfl⟩ := splitLines_blank hbehind
    -- the cut right behind the CR of the blank line
    have hcut := hall [before ++ [CR], after] (by simp)
    have ht := hr.done hs
    rw [decode, feed, List.nil_append,
      hdrain [CR] (List.cons_ne_nil _ _) ⟨after, rfl⟩, drain_none rfl] at hcut
    simp only [ht, Bool.false_eq_true, if_false, List.length_singleton] at hcut
    rw [if_pos (by omega), hsplit, hr.consume, consume] at hcut
    cases hline : k.line t [] with
    | error e =>
      rw [hline] at hcut
      have he : k.tooLarge t = e := by simpa using hcut
      exact law.blank (hline.trans (by rw [he]))
    | ok t' =>
      rw [hline] at hcut
      simp only at hcut
      split at hcut
      · exact absurd hcut (by simp)
      · have hle := law.read_le_failed hcut.symm
        rw [law.failed_tooLarge, law.read_line hline] at hle
        omega
  · rintro htight chunks rfl
    rcases law.decode_cases hI hs chunks with hc | ⟨front, t, more, hsplit, hr, heq, -⟩
    · exact hc
    · exact absurd ⟨front, t, more, hsplit, hr, heq⟩ htight

end Laws

end Sink

end Framing
