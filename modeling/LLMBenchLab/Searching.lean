import Mathlib.Data.List.Forall2
import LLMBenchLab.Redaction

/-!
# What a search finds

The ends of a sequence, of a word and of a repetition as equivalences, and two rules
about searching. A match of an expression that `avoids` a character stops in front of
every occurrence of it (`suffix_of_avoids`). An expression that matches at a place is found
there, or an earlier match has run over the place (`exists_mem_finditer`).
-/

namespace Python

open Text (Str CodePoint)

namespace Regex

/-! ## Ends of sequences -/

variable {r a b : Regex} {c d e : Cursor} {p : CodePoint → Bool} {x : CodePoint} {tail : Str}

theorem ends_seqs_cons (a : Regex) (l : List Regex) (c : Cursor) :
    (seqs (a :: l)).ends c = (a.ends c).flatMap (seqs l).ends := by
  cases l with
  | nil =>
    have hempty : (seqs []).ends = fun c => [c] := rfl
    rw [hempty, List.flatMap_singleton']
    rfl
  | cons b l => rfl

theorem mem_ends_seqs_cons {l : List Regex} :
    e ∈ (seqs (a :: l)).ends c ↔ ∃ d, d ∈ a.ends c ∧ e ∈ (seqs l).ends d := by
  rw [ends_seqs_cons, List.mem_flatMap]

theorem mem_ends_seqs_nil : e ∈ (seqs []).ends c ↔ e = c := List.mem_singleton

theorem mem_ends_char :
    e ∈ (char p).ends c ↔ ∃ x, p x = true ∧ c.after = x :: e.after ∧ e.before = x :: c.before ∧
      e.groups = c.groups := by
  obtain ⟨before, after, groups⟩ := c
  obtain ⟨before', after', groups'⟩ := e
  cases after with
  | nil => simp [ends]
  | cons x rest =>
    by_cases hp : p x = true
    · simp only [ends, hp, if_true, List.mem_singleton, Cursor.mk.injEq, List.cons.injEq]
      grind
    · simp only [ends, hp, Bool.false_eq_true, if_false, List.not_mem_nil, false_iff]
      grind

/-- A sequence of classes reads as many characters. -/
theorem mem_ends_seqs_char {ps : List (CodePoint → Bool)} :
    e ∈ (seqs (ps.map char)).ends c ↔ ∃ s, List.Forall₂ (fun p x => p x = true) ps s ∧
      c.after = s ++ e.after ∧ e.before = s.reverse ++ c.before ∧ e.groups = c.groups := by
  induction ps generalizing c with
  | nil =>
    rw [List.map_nil, mem_ends_seqs_nil]
    obtain ⟨before, after, groups⟩ := c
    obtain ⟨before', after', groups'⟩ := e
    simp only [Cursor.mk.injEq, List.forall₂_nil_left_iff, exists_eq_left, List.nil_append,
      List.reverse_nil]
    grind
  | cons p ps ih =>
    rw [List.map_cons, mem_ends_seqs_cons]
    constructor
    · rintro ⟨d, hd, he⟩
      obtain ⟨x, hp, hafter, hbefore, hgroups⟩ := mem_ends_char.mp hd
      obtain ⟨s, hs, hafter', hbefore', hgroups'⟩ := ih.mp he
      refine ⟨x :: s, .cons hp hs, ?_, ?_, hgroups'.trans hgroups⟩
      · rw [hafter, hafter', List.cons_append]
      · rw [hbefore', hbefore, List.reverse_cons, List.append_assoc, List.singleton_append]
    · rintro ⟨s, hs, hafter, hbefore, hgroups⟩
      obtain ⟨x, s', hp, hs', rfl⟩ := List.forall₂_cons_left_iff.mp hs
      refine ⟨⟨x :: c.before, s' ++ e.after, c.groups⟩,
        mem_ends_char.mpr ⟨x, hp, hafter, rfl, rfl⟩, ih.mpr ⟨s', hs', rfl, ?_, hgroups⟩⟩
      rw [hbefore, List.reverse_cons, List.append_assoc, List.singleton_append]

theorem forall₂_classes {f : CodePoint → CodePoint} {w s : Str} :
    List.Forall₂ (fun (p : CodePoint → Bool) x => p x = true) (w.map fun c x => f x == c) s ↔
      s.map f = w := by
  induction w generalizing s with
  | nil => simp [List.forall₂_nil_left_iff]
  | cons c w ih =>
    cases s with
    | nil => simp
    | cons x s => simp [ih]

theorem mem_ends_word {w : String} :
    e ∈ (word w).ends c ↔ ∃ s, s.map fold = Text.ofString w ∧ c.after = s ++ e.after ∧
      e.before = s.reverse ++ c.before ∧ e.groups = c.groups := by
  have hword : word w = seqs (((Text.ofString w).map fun c x => fold x == c).map char) := by
    rw [word, List.map_map]
    rfl
  rw [hword, mem_ends_seqs_char]
  simp only [forall₂_classes]

theorem mem_ends_exact {w : String} :
    e ∈ (exact w).ends c ↔ c.after = Text.ofString w ++ e.after ∧
      e.before = (Text.ofString w).reverse ++ c.before ∧ e.groups = c.groups := by
  have hexact : exact w = seqs (((Text.ofString w).map fun c x => id x == c).map char) := by
    rw [exact, List.map_map]
    rfl
  rw [hexact, mem_ends_seqs_char]
  simp only [forall₂_classes, List.map_id, exists_eq_left]

/-- How far a sequence of classes reads. -/
theorem after_of_mem_ends_seqs_char {ps : List (CodePoint → Bool)} {s rest : Str}
    (h : e ∈ (seqs (ps.map char)).ends c) (hc : c.after = s ++ rest) (hs : s.length = ps.length) :
    e.after = rest := by
  obtain ⟨s', hs', hafter, -, -⟩ := mem_ends_seqs_char.mp h
  have hlen : s.length = s'.length := hs.trans hs'.length_eq
  exact (List.append_inj_right (hc.symm.trans hafter) hlen).symm

theorem self_mem_ends_many (c : Cursor) : c ∈ (many p).ends c := by
  obtain ⟨before, after, groups⟩ := c
  cases after <;> simp [ends, manyEnds]

theorem self_mem_ends_opt (c : Cursor) : c ∈ (opt a).ends c :=
  List.mem_append_right _ List.mem_cons_self

theorem next_mem_ends_many {before rest : Str} {groups : List (ℕ × Str)} (h : p x = true) :
    ⟨x :: before, rest, groups⟩ ∈ (many p).ends ⟨before, x :: rest, groups⟩ := by
  have hself : ⟨x :: before, rest, groups⟩ ∈ manyEnds p groups (x :: before) rest :=
    self_mem_ends_many ⟨x :: before, rest, groups⟩
  rw [ends, manyEnds, if_pos h]
  exact List.mem_append_left _ hself

/-- A repetition stays in front of a character that is not of the class. -/
theorem eq_of_mem_ends_many {rest : Str} (hx : c.after = x :: rest) (hp : p x = false)
    (h : e ∈ (many p).ends c) : e = c := by
  obtain ⟨before, after, groups⟩ := c
  simp only at hx
  subst hx
  simpa [ends, manyEnds, hp] using h

theorem text_of_mem_manyEnds {groups : List (ℕ × Str)} {before after : Str}
    (h : e ∈ manyEnds p groups before after) :
    e.before.reverse ++ e.after = before.reverse ++ after := by
  induction after generalizing before with
  | nil => exact List.mem_singleton.mp h ▸ rfl
  | cons x rest ih =>
    rw [manyEnds, List.mem_append] at h
    rcases h with h | h
    · split_ifs at h
      · rw [ih h, List.reverse_cons, List.append_assoc, List.singleton_append]
      · cases h
    · exact List.mem_singleton.mp h ▸ rfl

/-- A match does not change the text. -/
theorem text_of_mem_ends (h : e ∈ r.ends c) :
    e.before.reverse ++ e.after = c.before.reverse ++ c.after := by
  induction r generalizing c e with
  | empty => exact List.mem_singleton.mp h ▸ rfl
  | char p =>
    obtain ⟨x, -, hafter, hbefore, -⟩ := mem_ends_char.mp h
    rw [hafter, hbefore, List.reverse_cons, List.append_assoc, List.singleton_append]
  | seq a b iha ihb =>
    obtain ⟨m, hm, he⟩ := List.mem_flatMap.mp h
    exact (ihb he).trans (iha hm)
  | alt a b iha ihb => exact (List.mem_append.mp h).elim iha ihb
  | many p => exact text_of_mem_manyEnds h
  | group n a ih =>
    obtain ⟨m, hm, rfl⟩ := List.mem_map.mp h
    have htext : m.before.reverse ++ m.after = c.before.reverse ++ c.after := ih hm
    exact htext
  | ahead wanted a _ => exact eq_of_mem_assertion h ▸ rfl
  | behind wanted ps => exact eq_of_mem_assertion h ▸ rfl
  | start => exact eq_of_mem_assertion h ▸ rfl
  | finish => exact eq_of_mem_assertion h ▸ rfl
  | boundary isWord => exact eq_of_mem_assertion h ▸ rfl

/-! ## Matches that stop in front of a character -/

/-- No class of the expression has the character. -/
def avoids (x : CodePoint) : Regex → Bool
  | char p => !p x
  | many p => !p x
  | seq a b => avoids x a && avoids x b
  | alt a b => avoids x a && avoids x b
  | group _ a => avoids x a
  | _ => true

theorem suffix_of_read {y : CodePoint} {rest : Str} (hc : x :: tail <:+ y :: rest)
    (hy : p y = true) (hx : p x = false) : x :: tail <:+ rest := by
  rcases List.suffix_cons_iff.mp hc with heq | hrest
  · obtain ⟨rfl, -⟩ := List.cons.inj heq
    exact absurd (hx.symm.trans hy) Bool.false_ne_true
  · exact hrest

theorem suffix_of_mem_manyEnds {groups : List (ℕ × Str)} {before after : Str} (hx : p x = false)
    (hc : x :: tail <:+ after) (h : e ∈ manyEnds p groups before after) :
    x :: tail <:+ e.after := by
  induction after generalizing before with
  | nil => exact List.mem_singleton.mp h ▸ hc
  | cons y rest ih =>
    rw [manyEnds, List.mem_append] at h
    rcases h with h | h
    · split_ifs at h with hy
      · exact ih (suffix_of_read hc hy hx) h
      · cases h
    · exact List.mem_singleton.mp h ▸ hc

/-- A match of an expression without the character stops in front of it. -/
theorem suffix_of_avoids (hr : r.avoids x = true) (hc : x :: tail <:+ c.after) (h : e ∈ r.ends c) :
    x :: tail <:+ e.after := by
  induction r generalizing c e with
  | empty => exact List.mem_singleton.mp h ▸ hc
  | char p =>
    obtain ⟨y, hy, hafter, -, -⟩ := mem_ends_char.mp h
    exact suffix_of_read (hafter ▸ hc) hy (by simpa [avoids] using hr)
  | seq a b iha ihb =>
    obtain ⟨ha, hb⟩ := Bool.and_eq_true_iff.mp hr
    obtain ⟨m, hm, he⟩ := List.mem_flatMap.mp h
    exact ihb hb (iha ha hc hm) he
  | alt a b iha ihb =>
    obtain ⟨ha, hb⟩ := Bool.and_eq_true_iff.mp hr
    exact (List.mem_append.mp h).elim (iha ha hc) (ihb hb hc)
  | many p => exact suffix_of_mem_manyEnds (by simpa [avoids] using hr) hc h
  | group n a ih =>
    obtain ⟨m, hm, rfl⟩ := List.mem_map.mp h
    have hend : x :: tail <:+ m.after := ih hr hc hm
    exact hend
  | ahead wanted a _ => exact eq_of_mem_assertion h ▸ hc
  | behind wanted ps => exact eq_of_mem_assertion h ▸ hc
  | start => exact eq_of_mem_assertion h ▸ hc
  | finish => exact eq_of_mem_assertion h ▸ hc
  | boundary isWord => exact eq_of_mem_assertion h ▸ hc

theorem Chain.mem {t : Str} {ms : List Match} {m : Match} (h : Chain r t ms) (hm : m ∈ ms) :
    m.stop ∈ r.ends m.start ∧ m.start.groups = [] := by
  induction h with
  | nil t => cases hm
  | cons _ hstop hfresh _ ih =>
    rcases List.mem_cons.mp hm with rfl | hrest
    · exact ⟨hstop, hfresh⟩
    · exact ih hrest

/-! ## Finding a match at a place -/

section Find

variable {w : Str} {P : List (ℕ × Str) → Prop}

theorem go_false (before after : Str) :
    searchFrom.go r false before after =
      (r.ends ⟨before, after, []⟩).head?.map fun e => ⟨⟨before, after, []⟩, e⟩ := by
  rw [searchFrom.go]
  cases r.ends ⟨before, after, []⟩ <;> simp

/-- The search finds a match at the place or before it. -/
theorem exists_searchFrom (hat : r.ends ⟨w.reverse, tail, []⟩ ≠ []) {x before : Str}
    (hw : before.reverse ++ x = w) :
    ∃ m, r.searchFrom false before (x ++ tail) = some m ∧ tail <:+ m.start.after ∧
      m.start.before.reverse ++ m.start.after = w ++ tail := by
  induction x generalizing before with
  | nil =>
    obtain rfl : before = w.reverse := by rw [← hw, List.append_nil, List.reverse_reverse]
    obtain ⟨e, l, hl⟩ := List.exists_cons_of_ne_nil hat
    have hgo : searchFrom.go r false w.reverse tail = some ⟨⟨w.reverse, tail, []⟩, e⟩ := by
      rw [go_false, hl]
      rfl
    refine ⟨⟨⟨w.reverse, tail, []⟩, e⟩, ?_, List.suffix_rfl, by rw [List.reverse_reverse]⟩
    rw [List.nil_append]
    cases tail with
    | nil => exact hgo
    | cons d rest => rw [searchFrom, hgo]
  | cons d x ih =>
    rw [List.cons_append, searchFrom]
    cases hgo : searchFrom.go r false before (d :: (x ++ tail)) with
    | some m =>
      obtain ⟨e, -, rfl⟩ := Option.map_eq_some_iff.mp hgo
      refine ⟨_, rfl, ⟨d :: x, rfl⟩, ?_⟩
      rw [← hw, List.append_assoc, List.cons_append]
    | none =>
      refine ih ?_
      rw [← hw, List.reverse_cons, List.append_assoc, List.singleton_append]

/-- An expression that matches at a place, and whose matches from before it end before it
or meet `P`, has a match that meets `P`. -/
theorem exists_mem_finditer (hread : ∀ c e, e ∈ r.ends c → e.after.length < c.after.length)
    (hat : r.ends ⟨w.reverse, tail, []⟩ ≠ [])
    (hcross : ∀ c e, c.groups = [] → tail <:+ c.after → e ∈ r.ends c →
      tail <:+ e.after ∨ P e.groups) :
    ∃ m ∈ r.finditer (w ++ tail), P m.stop.groups := by
  have hfrom : ∀ (fuel : ℕ) (before x : Str), before.reverse ++ x = w → x.length < fuel →
      ∃ m ∈ r.findFrom fuel false before (x ++ tail), P m.stop.groups := by
    intro fuel
    induction fuel with
    | zero => intro before x _ hfuel; exact absurd hfuel (Nat.not_lt_zero _)
    | succ fuel ih =>
      intro before x hw hfuel
      obtain ⟨m, hm, hstart, htext⟩ := exists_searchFrom hat hw
      obtain ⟨hbegin, hstop, hfresh⟩ := searchFrom_eq_some hm
      have hless := hread _ _ hstop
      have hnext : (m.stop.after.length == m.start.after.length) = false := by
        simpa using hless.ne
      rw [findFrom, hm]
      simp only [hnext]
      rcases hcross _ _ hfresh hstart hstop with ⟨y, hy⟩ | hP
      · -- the match ends before the place, and the search goes on from there
        have hlen : y.length < x.length := by
          have := hbegin.length_le
          have := congrArg List.length hy
          simp only [List.length_append] at *
          omega
        have hw' : m.stop.before.reverse ++ y = w := by
          refine (List.append_left_inj tail).mp ?_
          rw [List.append_assoc, hy, text_of_mem_ends hstop, htext]
        obtain ⟨m', hm', hP⟩ := ih m.stop.before y hw' (by omega)
        rw [← hy]
        exact ⟨m', List.mem_cons_of_mem _ hm', hP⟩
      · exact ⟨m, List.mem_cons_self, hP⟩
  refine hfrom _ [] w rfl ?_
  rw [List.length_append]
  omega

end Find

end Regex

end Python
