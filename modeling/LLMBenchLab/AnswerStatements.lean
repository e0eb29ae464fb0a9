import Mathlib.Data.List.Infix
import LLMBenchLab.Searching
import LLMBenchLab.Evaluators

/-!
# Answer statements in a multiple-choice response

`evaluate` (`evaluators/multiple_choice.py`) reads every answer statement that its four
patterns find, and the alternative behind each of them. A response scores only if they all
name the reference (`explicitAnswers_of_score`). A last line `Answer: c` is always among
them: a match of the fourth pattern that starts before the line ends before it, or it has
read the `c` (`suffix_or_lookup`).
-/

namespace LLMBenchLab

namespace Evaluators

open Python
open Text (Str CodePoint ofString)

namespace MultipleChoice

open Python.Regex

variable (u : Unicode) {marker : Regex} {c e : Cursor} {k : CodePoint}

/-! ## The key of a statement -/

/-- `([A-Z])(?![A-Z])` reads one letter that no letter follows. -/
theorem mem_ends_key (h : e ∈ key.ends c) :
    ∃ x, isLetter x = true ∧ c.after = x :: e.after ∧ e.groups = (1, [x]) :: c.groups ∧
      e.after.head?.all (fun y => !isLetter y) := by
  obtain ⟨g, hg, he⟩ := List.mem_flatMap.mp h
  obtain ⟨m, hm, rfl⟩ := List.mem_map.mp hg
  obtain ⟨x, hx, hafter, -, hgroups⟩ := mem_ends_char.mp hm
  have hkept : c.upTo m = [x] := by
    rw [Cursor.upTo, hafter, List.length_cons, Nat.add_sub_cancel_left]
    rfl
  obtain rfl := eq_of_mem_assertion he
  refine ⟨x, hx, hafter, by rw [hkept, hgroups], ?_⟩
  cases hnext : m.after with
  | nil => rfl
  | cons y rest =>
    cases hy : isLetter y with
    | false => simp [hy]
    | true => simp [ends, hnext, hy] at he

theorem mem_ends_keyAfter :
    e ∈ (keyAfter marker).ends c ↔ ∃ m, m ∈ marker.ends c ∧ ∃ m', m' ∈ openParenthesis.ends m ∧
      ∃ n, n ∈ key.ends m' ∧ e ∈ (seqs [spaces, opt (oneOf ")）")]).ends n := by
  rw [keyAfter, mem_ends_seqs_cons]
  simp only [mem_ends_seqs_cons (a := openParenthesis), mem_ends_seqs_cons (a := key)]

/-- Every match of a pattern captures one letter. -/
theorem groups_keyAfter (hmarker : marker.groupFree = true) (h : e ∈ (keyAfter marker).ends c) :
    ∃ x, e.groups = (1, [x]) :: c.groups := by
  obtain ⟨m, hm, m', hm', n, hn, he⟩ := mem_ends_keyAfter.mp h
  obtain ⟨x, -, -, hgroups, -⟩ := mem_ends_key hn
  refine ⟨x, ?_⟩
  rw [groups_of_groupFree rfl he, hgroups, groups_of_groupFree rfl hm',
    groups_of_groupFree hmarker hm]

/-! ## The statement `Answer: k` -/

/-- `Answer: k` -/
def statement (k : CodePoint) : Str := ofString "Answer: " ++ [k]

theorem statement_eq (k : CodePoint) :
    statement k = 0x41 :: 0x6e :: (ofString "swer: " ++ [k]) := by
  rw [statement, show ofString "Answer: " = 0x41 :: 0x6e :: ofString "swer: " from by decide]
  rfl

/-- A key that is read from before the statement is not its first letter, which another
letter follows. -/
theorem suffix_of_mem_ends_key (hc : statement k <:+ c.after) (h : e ∈ key.ends c) :
    statement k <:+ e.after := by
  obtain ⟨x, -, hafter, -, hnext⟩ := mem_ends_key h
  rw [hafter] at hc
  rcases List.suffix_cons_iff.mp hc with heq | hrest
  · rw [statement_eq] at heq
    rw [← (List.cons.inj heq).2] at hnext
    exact absurd hnext Bool.false_ne_true
  · exact hrest

theorem suffix_of_mem_ends {r : Regex} (hr : r.avoids 0x41 = true) (hc : statement k <:+ c.after)
    (h : e ∈ r.ends c) : statement k <:+ e.after := by
  rw [statement_eq] at hc ⊢
  exact suffix_of_avoids hr hc h

/-- A word is read before the statement, or its end begins the statement. -/
theorem mem_ends_word_cases {w : String} (hw : (ofString w).length ≤ 8)
    (hc : statement k <:+ c.after) (h : e ∈ (word w).ends c) :
    statement k <:+ e.after ∨ ∃ t, t ≠ [] ∧ t <:+ ofString w ∧ t <+: ofString "answer: " ∧
      e.after = (statement k).drop t.length := by
  obtain ⟨s, hs, hread, -, -⟩ := mem_ends_word.mp h
  obtain ⟨y, hy⟩ := hc
  rw [hread] at hy
  rcases List.append_eq_append_iff.mp hy with ⟨z, hz, hstatement⟩ | ⟨z, -, hafter⟩
  · rcases eq_or_ne z [] with rfl | hne
    · exact Or.inl (hstatement ▸ List.suffix_rfl)
    · -- the word has read `z` of the statement
      have hsuffix : z.map fold <:+ ofString w := hs ▸ hz ▸ ⟨y.map fold, List.map_append.symm⟩
      have hfold : (statement k).map fold = ofString "answer: " ++ [fold k] := by
        rw [statement, List.map_append,
          show (ofString "Answer: ").map fold = ofString "answer: " from by decide]
        rfl
      have hprefix : z.map fold <+: ofString "answer: " ++ [fold k] :=
        ⟨e.after.map fold, by rw [← List.map_append, ← hstatement, hfold]⟩
      refine Or.inr ⟨z.map fold, ?_, hsuffix, ?_, ?_⟩
      · exact fun hnil => hne (List.map_eq_nil_iff.mp hnil)
      · exact List.prefix_of_prefix_length_le hprefix (List.prefix_append _ _)
          (hsuffix.length_le.trans hw)
      · rw [List.length_map, hstatement, List.drop_left]
  · exact Or.inl ⟨z, hafter.symm⟩

/-- The word `answer` is read before the statement or is its first word. -/
theorem mem_ends_word_answer (hc : statement k <:+ c.after) (h : e ∈ (word "answer").ends c) :
    statement k <:+ e.after ∨ e.after = ofString ": " ++ [k] := by
  refine (mem_ends_word_cases (by decide) hc h).imp_right ?_
  rintro ⟨t, hne, hword, hbegin, hafter⟩
  have hwhole : ∀ t ∈ (ofString "answer").tails, t ≠ [] → t <+: ofString "answer: " →
      t.length = 6 := by decide
  rw [hafter, hwhole t ((List.mem_tails _ _).mpr hword) hne hbegin]
  rfl

theorem suffix_of_mem_ends_word_final (hc : statement k <:+ c.after)
    (h : e ∈ (word "final").ends c) : statement k <:+ e.after := by
  refine (mem_ends_word_cases (by decide) hc h).resolve_right ?_
  rintro ⟨t, hne, hword, hbegin, -⟩
  have hnone : ∀ t ∈ (ofString "final").tails, t ≠ [] → ¬ t <+: ofString "answer: " := by decide
  exact hnone t ((List.mem_tails _ _).mpr hword) hne hbegin

/-- A capital letter is not read in front of a key. -/
theorem avoids_openParenthesis (hk : 0x41 ≤ k.val ∧ k.val ≤ 0x5a) :
    openParenthesis.avoids k = true := by
  have hspace : isSpace k = false := by
    simp only [isSpace]
    grind
  have hparenthesis : isOneOf "(（" k = false := by
    have hlist : ofString "(（" = [0x28, 0xff08] := by decide
    simp only [isOneOf, hlist]
    grind
  simp [openParenthesis, seqs, spaces, opt, oneOf, avoids, hspace, hparenthesis]

/-- Behind its first word, the statement reads its key. -/
theorem groups_of_after_answer (hk : 0x41 ≤ k.val ∧ k.val ≤ 0x5a)
    (hc : c.after = ofString ": " ++ [k]) {m m' n : Cursor}
    (hm : m ∈ (seqs [spaces, alts [word "is", exact ":", exact "："]]).ends c)
    (hm' : m' ∈ openParenthesis.ends m) (hn : n ∈ key.ends m') : n.groups.lookup 1 = some [k] := by
  have hcolon : ofString ": " ++ [k] = 0x3a :: 0x20 :: [k] := rfl
  obtain ⟨d, hd, hmark⟩ := mem_ends_seqs_cons.mp hm
  obtain rfl : d = c := eq_of_mem_ends_many (hc.trans hcolon) (by decide) hd
  have hafter : m.after = [0x20, k] := by
    rcases List.mem_append.mp hmark with hword | hrest
    · -- the colon is no `i`
      obtain ⟨s, hs, hread, -, -⟩ := mem_ends_word.mp hword
      obtain ⟨x, s, rfl, hx, -⟩ := List.map_eq_cons_iff.mp hs
      rw [hc, hcolon] at hread
      rw [← (List.cons.inj hread).1] at hx
      exact absurd hx (by decide)
    rcases List.mem_append.mp hrest with hnarrow | hwide
    · have hread := (mem_ends_exact.mp hnarrow).1
      rw [hc, hcolon] at hread
      exact (List.cons.inj hread).2.symm
    · have hread := (mem_ends_exact.mp hwide).1
      rw [hc, hcolon] at hread
      exact absurd (List.cons.inj hread).1 (by decide)
  have hend : [k] <:+ m'.after :=
    suffix_of_avoids (avoids_openParenthesis hk) ⟨[0x20], hafter.symm⟩ hm'
  obtain ⟨x, hx, hread, hgroups, -⟩ := mem_ends_key hn
  have hkx : x = k := by
    rw [hread] at hend
    rcases List.suffix_cons_iff.mp hend with heq | hrest
    · exact (List.cons.inj heq).1.symm
    · -- the blank is no letter
      have hsuffix : m'.after <:+ [0x20, k] := hafter ▸ after_suffix hm'
      rw [hread] at hsuffix
      rcases List.suffix_cons_iff.mp hsuffix with heq | hshort
      · rw [(List.cons.inj heq).1] at hx
        exact absurd hx (by decide)
      · have hlen := hshort.length_le
        have hlen' := hrest.length_le
        simp only [List.length_cons, List.length_nil] at hlen hlen'
        omega
  rw [hgroups, hkx]
  rfl

theorem mem_ends_englishMarker :
    e ∈ (englishMarker u).ends c ↔
      ∃ m, m ∈ (seqs [.boundary u.isWord, opt (.seq (word "the") (atLeastOne isSpace)),
          opt (.seq (word "final") (atLeastOne isSpace))]).ends c ∧
        ∃ n, n ∈ (word "answer").ends m ∧
          e ∈ (seqs [spaces, alts [word "is", exact ":", exact "："]]).ends n := by
  rw [englishMarker]
  simp only [mem_ends_seqs_cons, mem_ends_seqs_nil, exists_eq_right']
  grind

theorem suffix_of_mem_ends_opening {isWord : CodePoint → Bool} (hc : statement k <:+ c.after)
    (h : e ∈ (seqs [.boundary isWord, opt (.seq (word "the") (atLeastOne isSpace)),
      opt (.seq (word "final") (atLeastOne isSpace))]).ends c) : statement k <:+ e.after := by
  obtain ⟨d, hd, he⟩ := mem_ends_seqs_cons.mp h
  obtain ⟨d', hd', he'⟩ := mem_ends_seqs_cons.mp he
  obtain rfl := eq_of_mem_assertion hd
  have hthe : statement k <:+ d'.after := suffix_of_mem_ends (by decide) hc hd'
  rcases List.mem_append.mp he' with hfinal | hempty
  · obtain ⟨n, hn, hspaces⟩ := List.mem_flatMap.mp hfinal
    exact suffix_of_mem_ends (by decide) (suffix_of_mem_ends_word_final hthe hn) hspaces
  · exact List.mem_singleton.mp hempty ▸ hthe

/-- A match of the fourth pattern that starts before the statement ends before it, or it
has read its key. -/
theorem suffix_or_lookup (hk : 0x41 ≤ k.val ∧ k.val ≤ 0x5a) (hc : statement k <:+ c.after)
    (h : e ∈ (keyAfter (englishMarker u)).ends c) :
    statement k <:+ e.after ∨ e.groups.lookup 1 = some [k] := by
  obtain ⟨m, hm, m', hm', n, hn, he⟩ := mem_ends_keyAfter.mp h
  obtain ⟨d, hd, d', hd', hmark⟩ := (mem_ends_englishMarker u).mp hm
  have hcd : statement k <:+ d.after := suffix_of_mem_ends_opening hc hd
  rcases mem_ends_word_answer hcd hd' with hbefore | hinside
  · have hm₁ : statement k <:+ m.after := suffix_of_mem_ends (by decide) hbefore hmark
    have hm₂ : statement k <:+ m'.after := suffix_of_mem_ends (by decide) hm₁ hm'
    have hn₁ : statement k <:+ n.after := suffix_of_mem_ends_key hm₂ hn
    exact Or.inl (suffix_of_mem_ends (by decide) hn₁ he)
  · refine Or.inr ?_
    rw [groups_of_groupFree rfl he]
    exact groups_of_after_answer hk hinside hmark hm' hn

/-- The fourth pattern matches at the statement, if no word runs into it. -/
theorem exists_mem_ends_statement (hk : 0x41 ≤ k.val ∧ k.val ≤ 0x5a) {before : Str}
    (hbefore : before.head?.any u.isWord = false) :
    ∃ e, e ∈ (keyAfter (englishMarker u)).ends ⟨before, statement k, []⟩ := by
  have hword : u.isWord 0x41 = true := by
    rw [Unicode.isWord, u.isAlnum_ascii 0x41 (by decide)]
    decide
  have hletter : isLetter k = true := by
    have hfold : (fold k).val = k.val + 0x20 := by
      rw [fold, if_neg (by omega), if_neg (by omega), if_neg (by omega), Decimal.lower, if_pos hk]
      exact Nat.mod_eq_of_lt (by omega)
    simp only [isLetter, hfold, Bool.and_eq_true, decide_eq_true_eq]
    omega
  let start : Cursor := ⟨before, statement k, []⟩
  let answer : Cursor := ⟨(ofString "Answer").reverse ++ before, 0x3a :: 0x20 :: [k], []⟩
  let colon : Cursor := ⟨0x3a :: answer.before, 0x20 :: [k], []⟩
  let blank : Cursor := ⟨0x20 :: colon.before, [k], []⟩
  let read : Cursor := ⟨k :: blank.before, [], [(1, [k])]⟩
  have hopening : start ∈ (seqs [.boundary u.isWord, opt (.seq (word "the") (atLeastOne isSpace)),
      opt (.seq (word "final") (atLeastOne isSpace))]).ends start := by
    have hboundary : start ∈ (Regex.boundary u.isWord).ends start := by
      have hhead : start.after.head?.any u.isWord = true := hword
      rw [ends, hhead, show start.before.head?.any u.isWord = false from hbefore]
      exact List.mem_cons_self
    exact mem_ends_seqs_cons.mpr ⟨start, hboundary, mem_ends_seqs_cons.mpr
      ⟨start, self_mem_ends_opt start, self_mem_ends_opt start⟩⟩
  have hanswer : answer ∈ (word "answer").ends start :=
    mem_ends_word.mpr ⟨ofString "Answer", by decide, rfl, rfl, rfl⟩
  have hcolon : colon ∈ (seqs [spaces, alts [word "is", exact ":", exact "："]]).ends answer := by
    have hexact : colon ∈ (exact ":").ends answer := mem_ends_exact.mpr ⟨rfl, rfl, rfl⟩
    exact mem_ends_seqs_cons.mpr ⟨answer, self_mem_ends_many answer,
      List.mem_append_right _ (List.mem_append_left _ hexact)⟩
  have hblank : blank ∈ openParenthesis.ends colon :=
    mem_ends_seqs_cons.mpr ⟨blank, next_mem_ends_many (by decide), mem_ends_seqs_cons.mpr
      ⟨blank, self_mem_ends_opt blank, self_mem_ends_many blank⟩⟩
  have hread : read ∈ key.ends blank := by
    have hchar : (⟨k :: blank.before, [], []⟩ : Cursor) ∈ (Regex.char isLetter).ends blank :=
      mem_ends_char.mpr ⟨k, hletter, rfl, rfl, rfl⟩
    exact List.mem_flatMap.mpr ⟨read, List.mem_map.mpr ⟨_, hchar, rfl⟩, List.mem_cons_self⟩
  exact ⟨read, mem_ends_keyAfter.mpr ⟨colon,
    (mem_ends_englishMarker u).mpr ⟨start, hopening, answer, hanswer, hcolon⟩, blank, hblank, read,
    hread, mem_ends_seqs_cons.mpr ⟨read, self_mem_ends_many read, self_mem_ends_opt read⟩⟩⟩

theorem length_lt_of_mem_ends_keyAfter (h : e ∈ (keyAfter marker).ends c) :
    e.after.length < c.after.length := by
  obtain ⟨m, hm, m', hm', n, hn, he⟩ := mem_ends_keyAfter.mp h
  obtain ⟨x, -, hread, -, -⟩ := mem_ends_key hn
  have hlen := congrArg List.length hread
  have hrest := (after_suffix he).length_le
  have hopen := (after_suffix hm').length_le
  have hmarker := (after_suffix hm).length_le
  rw [List.length_cons] at hlen
  omega

/-- The statement at the end of a text is found, whatever the text before it is. -/
theorem exists_match_statement (hk : 0x41 ≤ k.val ∧ k.val ≤ 0x5a) {w : Str}
    (hw : w.reverse.head?.any u.isWord = false) :
    ∃ m ∈ (keyAfter (englishMarker u)).finditer (w ++ statement k), m.group 1 = some [k] := by
  refine exists_mem_finditer (P := fun groups => groups.lookup 1 = some [k])
    (fun _ _ h => length_lt_of_mem_ends_keyAfter h) ?_ fun c e _ hc h => suffix_or_lookup u hk hc h
  obtain ⟨e, he⟩ := exists_mem_ends_statement u hk hw
  exact List.ne_nil_of_mem he

/-! ## The last line of a response -/

theorem exists_replace_append {s t y : Str} (hs : s = [] ∨ s = [0xa]) (hy : 0xd ∉ y) :
    ∃ w, Text.replace (0xd :: s) [0xa] (t ++ 0xa :: y) = w ++ 0xa :: y := by
  induction hn : t.length using Nat.strong_induction_on generalizing t with
  | _ n ih =>
  subst hn
  have hself : ∀ x : Str, 0xd ∉ x → Text.replace (0xd :: s) [0xa] x = x := by
    intro x hx
    exact Text.replace_eq_self fun hold => hx (hold.subset List.mem_cons_self)
  cases t with
  | nil => exact ⟨[], hself _ (List.not_mem_cons_of_ne_of_not_mem (by decide) hy)⟩
  | cons c t =>
    by_cases hold : 0xd :: s <+: c :: (t ++ 0xa :: y)
    · obtain ⟨rfl, hrest⟩ := List.cons_prefix_cons.mp hold
      rcases hs with rfl | rfl
      · obtain ⟨w, hw⟩ := ih t.length (Nat.lt_succ_self _) rfl
        refine ⟨0xa :: w, ?_⟩
        have hreplace : Text.replace [0xd] [0xa] ([0xd] ++ (t ++ 0xa :: y)) =
            [0xa] ++ Text.replace [0xd] [0xa] (t ++ 0xa :: y) :=
          Text.replace_old_append (by decide) _
        rw [hw] at hreplace
        exact hreplace
      · cases t with
        | nil =>
          -- the line feed belongs to the carriage return in front of it
          have hreplace : Text.replace [0xd, 0xa] [0xa] ([0xd, 0xa] ++ y) =
              [0xa] ++ Text.replace [0xd, 0xa] [0xa] y :=
            Text.replace_old_append (by decide) y
          rw [hself y hy] at hreplace
          exact ⟨[], hreplace⟩
        | cons d t =>
          obtain ⟨rfl, -⟩ := List.cons_prefix_cons.mp hrest
          obtain ⟨w, hw⟩ := ih t.length (Nat.lt_succ_of_lt (Nat.lt_succ_self _)) rfl
          refine ⟨0xa :: w, ?_⟩
          have hreplace : Text.replace [0xd, 0xa] [0xa] ([0xd, 0xa] ++ (t ++ 0xa :: y)) =
              [0xa] ++ Text.replace [0xd, 0xa] [0xa] (t ++ 0xa :: y) :=
            Text.replace_old_append (by decide) _
          rw [hw] at hreplace
          exact hreplace
    · obtain ⟨w, hw⟩ := ih t.length (Nat.lt_succ_self _) rfl
      refine ⟨c :: w, ?_⟩
      rw [List.cons_append, Text.replace_cons hold, hw, List.cons_append]

/-- Line feeds stay where they are. -/
theorem exists_normalizeNewlines {t y : Str} (hy : 0xd ∉ y) :
    ∃ w, normalizeNewlines (t ++ 0xa :: y) = w ++ 0xa :: y := by
  obtain ⟨w, hw⟩ := exists_replace_append (s := [0xa]) (t := t) (Or.inr rfl) hy
  obtain ⟨w', hw'⟩ := exists_replace_append (s := []) (t := w) (Or.inl rfl) hy
  refine ⟨w', ?_⟩
  rw [normalizeNewlines, show ofString "\r\n" = [0xd, 0xa] from by decide,
    show ofString "\n" = [0xa] from by decide, show ofString "\r" = [0xd] from by decide, hw, hw']

/-- The text that the patterns are searched in, when the last line is the statement. -/
theorem exists_strip_normalizeNewlines (hk : 0x41 ≤ k.val ∧ k.val ≤ 0x5a) (t : Str) :
    ∃ w, strip (normalizeNewlines (t ++ 0xa :: statement k)) = w ++ statement k ∧
      w.reverse.head?.any u.isWord = false := by
  have hspace : isSpace k = false := by
    simp only [isSpace]
    grind
  have hreturn : 0xd ∉ statement k := by
    rw [statement, show ofString "Answer: " = [0x41, 0x6e, 0x73, 0x77, 0x65, 0x72, 0x3a, 0x20] from
      by decide]
    grind
  obtain ⟨w, hw⟩ := exists_normalizeNewlines (t := t) hreturn
  refine ⟨(w ++ [0xa]).dropWhile isSpace, ?_, ?_⟩
  · have hassoc : w ++ 0xa :: statement k =
        (w ++ [0xa]) ++ 0x41 :: (0x6e :: ofString "swer: " ++ [k]) := by
      rw [statement_eq, List.append_assoc]
      rfl
    rw [hw, hassoc, strip_append_cons (by decide), List.reverse_append, List.reverse_singleton,
      List.singleton_append, List.dropWhile_cons_of_neg (by rw [hspace]; exact Bool.false_ne_true),
      statement_eq, List.reverse_cons, List.reverse_reverse]
    rfl
  · obtain ⟨z, hz⟩ := List.dropWhile_suffix (l := w ++ [0xa]) isSpace
    have hlast : (z ++ (w ++ [0xa]).dropWhile isSpace).getLast? = some 0xa := by
      rw [hz, List.getLast?_concat]
    rw [List.head?_reverse]
    rw [List.getLast?_append] at hlast
    cases hd : ((w ++ [0xa]).dropWhile isSpace).getLast? with
    | none => rfl
    | some x =>
      rw [hd] at hlast
      obtain rfl : x = 0xa := Option.some.inj hlast
      rw [Option.any_some, Unicode.isWord, u.isAlnum_ascii 0xa (by decide)]
      decide

/-! ## Scores -/

/-- A response that scores has one candidate, the reference. -/
theorem eq_of_scoreCandidates {candidates validChoices : List Str} {reference : Str}
    (h : (scoreCandidates candidates reference validChoices).score ≠ 0) :
    ∀ x ∈ candidates, x = reference := by
  intro x hx
  rw [scoreCandidates] at h
  split at h
  · next parsed hdedup =>
    split at h
    · exact absurd rfl h
    · rw [scored] at h
      have hparsed : parsed = reference := by
        by_contra hne
        exact h (if_neg (by simpa using hne))
      have hmem : x ∈ candidates.dedup := List.mem_dedup.mpr hx
      rw [hdedup, List.mem_singleton] at hmem
      exact hmem.trans hparsed
  · exact absurd rfl h

/-- All explicit answers of a response that scores are the reference. -/
theorem explicitAnswers_of_score {response reference : Object} {config : EvaluatorConfig}
    (h : (evaluate u response reference config).score ≠ 0) :
    ∀ x ∈ explicitAnswers u (strip (normalizeNewlines response.str)),
      x = referenceLabel u reference := by
  intro x hx
  simp only [evaluate] at h
  split at h
  · exact absurd rfl h
  split at h
  · exact absurd rfl h
  split at h
  · exact absurd rfl h
  rw [if_pos] at h
  · exact eq_of_scoreCandidates h x hx
  · simp [List.ne_nil_of_mem hx]

/-- The marker of a pattern has no group. -/
theorem exists_marker {pattern : Regex} (h : pattern ∈ explicitPatterns u) :
    ∃ marker : Regex, pattern = keyAfter marker ∧ marker.groupFree = true := by
  rw [explicitPatterns] at h
  simp only [List.mem_cons, List.not_mem_nil, or_false] at h
  rcases h with rfl | rfl | rfl | rfl
  · exact ⟨_, rfl, rfl⟩
  · exact ⟨_, rfl, rfl⟩
  · exact ⟨_, rfl, rfl⟩
  · exact ⟨_, rfl, rfl⟩

theorem exists_group_of_mem {pattern : Regex} (h : pattern ∈ explicitPatterns u) {text : Str}
    {m : Match} (hm : m ∈ pattern.finditer text) : ∃ x, m.group 1 = some [x] := by
  obtain ⟨marker, rfl, hmarker⟩ := exists_marker u h
  obtain ⟨hstop, hfresh⟩ := (chain_findFrom _ _ _ _ _).mem hm
  obtain ⟨x, hx⟩ := groups_keyAfter hmarker hstop
  refine ⟨x, ?_⟩
  rw [Match.group, hx]
  rfl

theorem exists_group_of_alternative {text : Str} {m : Match}
    (h : explicitAlternativeRe.matchStart text = some m) : ∃ x, m.group 1 = some [x] := by
  obtain ⟨e, he, rfl⟩ := Option.map_eq_some_iff.mp h
  have hends := List.mem_of_mem_head? he
  rw [explicitAlternativeRe] at hends
  obtain ⟨d₁, -, h₁⟩ := mem_ends_seqs_cons.mp hends
  obtain ⟨d₂, -, h₂⟩ := mem_ends_seqs_cons.mp h₁
  obtain ⟨d₃, -, h₃⟩ := mem_ends_seqs_cons.mp h₂
  obtain ⟨d₄, -, h₄⟩ := mem_ends_seqs_cons.mp h₃
  obtain ⟨x, -, -, hx, -⟩ := mem_ends_key h₄
  refine ⟨x, ?_⟩
  rw [Match.group, hx]
  rfl

theorem mem_explicitAnswers {pattern : Regex} (h : pattern ∈ explicitPatterns u) {text : Str}
    {m : Match} (hm : m ∈ pattern.finditer text) {x : Str} (hx : m.group 1 = some x) :
    u.upper x ∈ explicitAnswers u text := by
  refine List.mem_flatMap.mpr ⟨pattern, h, List.mem_flatMap.mpr ⟨m, hm, List.mem_append_left _ ?_⟩⟩
  rw [hx]
  exact List.mem_cons_self

theorem mem_explicitAnswers_of_alternative {pattern : Regex} (h : pattern ∈ explicitPatterns u)
    {text : Str} {m : Match} (hm : m ∈ pattern.finditer text) {alternative : Match}
    (halternative : explicitAlternativeRe.matchStart m.rest = some alternative) {x : Str}
    (hx : alternative.group 1 = some x) : u.upper x ∈ explicitAnswers u text := by
  refine List.mem_flatMap.mpr ⟨pattern, h, List.mem_flatMap.mpr ⟨m, hm, List.mem_append_right _ ?_⟩⟩
  rw [halternative, Option.bind_some, hx]
  exact List.mem_cons_self

/-- A valid choice is one capital letter. -/
theorem exists_of_mem_choiceKeys {config : EvaluatorConfig} {c : Str}
    (h : c ∈ choiceKeys u config) :
    ∃ k : CodePoint, c = [k] ∧ 0x41 ≤ k.val ∧ k.val ≤ 0x5a := by
  have hvalid : ∀ {keys : List Str}, c ∈ (if keys.all isKey then keys else []) →
      isKey c = true := by
    intro keys hc
    split_ifs at hc with hall
    · exact List.all_eq_true.mp hall c hc
    · cases hc
  have hkey : isKey c = true := by
    simp only [choiceKeys] at h
    split at h
    · have hdefault : ∀ d ∈ [ofString "A", ofString "B", ofString "C", ofString "D"],
          isKey d = true := by decide
      exact hdefault c h
    · exact hvalid h
    · exact hvalid h
    · cases h
    · cases h
    · cases h
  rcases c with _ | ⟨k, _ | ⟨d, rest⟩⟩
  · exact absurd hkey Bool.false_ne_true
  · exact ⟨k, rfl, by simpa [isKey] using hkey⟩
  · exact absurd hkey Bool.false_ne_true

/-- **A contradicted answer is not credited.** A last line `Answer: c` that names another
valid choice than the reference scores zero, whatever the response says before it. Where a
response scores one, every answer statement that a pattern finds names the reference, and
so does every alternative attached to one. -/
theorem multiple_choice_credits_no_contradiction (config : EvaluatorConfig) (reference : Object) :
    (∀ t c : Str, c ∈ choiceKeys u config → c ≠ referenceLabel u reference →
      (evaluate u (.text (t ++ ofString "\nAnswer: " ++ c)) reference config).score = 0) ∧
    (∀ response : Object, (evaluate u response reference config).score = 1 →
      ∀ pattern ∈ explicitPatterns u,
        ∀ m ∈ pattern.finditer (strip (normalizeNewlines response.str)),
          (m.group 1).map u.upper = some (referenceLabel u reference) ∧
          ∀ alternative, explicitAlternativeRe.matchStart m.rest = some alternative →
            (alternative.group 1).map u.upper = some (referenceLabel u reference)) := by
  refine ⟨?_, ?_⟩
  · intro t c hc hne
    obtain ⟨k, rfl, hk⟩ := exists_of_mem_choiceKeys u hc
    by_contra hscore
    obtain ⟨w, hw, hbefore⟩ := exists_strip_normalizeNewlines u hk t
    obtain ⟨m, hm, hgroup⟩ := exists_match_statement u hk hbefore
    have hfourth : keyAfter (englishMarker u) ∈ explicitPatterns u := by simp [explicitPatterns]
    have hmem := mem_explicitAnswers u hfourth hm hgroup
    have hupper : u.upper [k] = [k] := by
      rw [u.upper_ascii]
      · simp
        omega
      · simp
        omega
    have htext : t ++ ofString "\nAnswer: " ++ [k] = t ++ 0xa :: statement k := by
      rw [statement, show ofString "\nAnswer: " = 0xa :: ofString "Answer: " from by decide,
        List.append_assoc]
      rfl
    refine hne (explicitAnswers_of_score u hscore [k] ?_)
    rw [Object.str, htext, hw, ← hupper]
    exact hmem
  · intro response hscore pattern hpattern m hm
    have hne : (evaluate u response reference config).score ≠ 0 := by
      rw [hscore]
      exact one_ne_zero
    have hall := explicitAnswers_of_score u hne
    obtain ⟨x, hx⟩ := exists_group_of_mem u hpattern hm
    refine ⟨?_, ?_⟩
    · rw [hx, Option.map_some, hall _ (mem_explicitAnswers u hpattern hm hx)]
    · intro alternative halternative
      obtain ⟨y, hy⟩ := exists_group_of_alternative halternative
      rw [hy, Option.map_some,
        hall _ (mem_explicitAnswers_of_alternative u hpattern hm halternative hy)]

theorem multiple_choice_credits_no_contradiction_sample :
    (evaluate .ascii
      (.text (ofString "Answer: A\nthe " ++ ofString "\nAnswer: " ++ ofString "B"))
      (.text (ofString "a")) []).score = 0 ∧
    ∀ m ∈ (keyAfter (englishMarker .ascii)).finditer
        (strip (normalizeNewlines (ofString "Answer: A or (a)"))),
      (m.group 1).map Unicode.ascii.upper = some (referenceLabel .ascii (.text (ofString "a"))) ∧
      ∀ alternative, explicitAlternativeRe.matchStart m.rest = some alternative →
        (alternative.group 1).map Unicode.ascii.upper =
          some (referenceLabel .ascii (.text (ofString "a"))) := by
  refine ⟨?_, ?_⟩
  · exact (multiple_choice_credits_no_contradiction .ascii [] (.text (ofString "a"))).1 _ _
      (by decide) (by decide)
  · exact (multiple_choice_credits_no_contradiction .ascii [] (.text (ofString "a"))).2
      (.text (ofString "Answer: A or (a)")) (by decide +kernel) _ (by simp [explicitPatterns])

end MultipleChoice

end Evaluators

end LLMBenchLab
