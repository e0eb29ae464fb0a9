import LLMBenchLab.Regex
import LLMBenchLab.Replacing

/-!
# Replacing a secret by a placeholder

A replacement takes every occurrence of a text out, but the placeholder that it puts
in can join with its neighbours to a new one. `Ahead` and `Behind` say how: the new
occurrence starts inside a placeholder, or it starts in front of one. A secret that
does neither (`Separate`) never comes back, whatever else is replaced by the same
placeholder afterwards (`Patched`).
-/

namespace Text

variable {key mark x y : Str}

/-! ## Occurrences in a concatenation -/

/-- An occurrence in a concatenation is on one side or goes across. -/
theorem infix_append_cases {α : Type} {k x y : List α} (h : k <:+: x ++ y) :
    k <:+: x ∨ k <:+: y ∨ ∃ a b, k = a ++ b ∧ a ≠ [] ∧ b ≠ [] ∧ a <:+ x ∧ b <+: y := by
  induction x with
  | nil => exact .inr (.inl h)
  | cons c x ih =>
    rcases List.infix_cons_iff.mp h with hp | hi
    · -- the occurrence starts here
      have hp : k <+: c :: x ++ y := hp
      rcases le_or_gt k.length (c :: x).length with hle | hlt
      · exact .inl (List.prefix_of_prefix_length_le hp (List.prefix_append _ _) hle).isInfix
      · obtain ⟨b, rfl⟩ := List.prefix_of_prefix_length_le (List.prefix_append _ _) hp hlt.le
        refine .inr (.inr ⟨c :: x, b, rfl, List.cons_ne_nil c x, ?_, List.suffix_rfl,
          (List.prefix_append_right_inj _).mp hp⟩)
        rintro rfl
        rw [List.append_nil] at hlt
        exact lt_irrefl _ hlt
    · rcases ih hi with hx | hy | ⟨a, b, hk, ha, hb, hend, hbegin⟩
      · exact .inl (List.infix_cons hx)
      · exact .inr (.inl hy)
      · exact .inr (.inr ⟨a, b, hk, ha, hb, hend.trans (List.suffix_cons c x), hbegin⟩)

/-! ## The first occurrence -/

/-- The first occurrence is the one after `x`. -/
def FirstAfter (key x : Str) : Prop := ¬ key <:+: x ++ key.dropLast

theorem FirstAfter.absent (h : FirstAfter key x) : ¬ key <:+: x :=
  fun hi => h (hi.trans (List.prefix_append x _).isInfix)

theorem FirstAfter.of_suffix (h : FirstAfter key x) (hy : y <:+ x) : FirstAfter key y := by
  obtain ⟨z, rfl⟩ := hy
  refine fun hi => h (hi.trans ?_)
  rw [List.append_assoc]
  exact (List.suffix_append z _).isInfix

theorem shortened_begins (key x y : Str) : x ++ key.dropLast <+: x ++ key ++ y := by
  rw [List.append_assoc, List.prefix_append_right_inj]
  exact (List.dropLast_prefix key).trans (List.prefix_append key y)

theorem exists_first (hkey : key ≠ []) (h : key <:+: x) :
    ∃ p y, x = p ++ key ++ y ∧ FirstAfter key p := by
  induction x with
  | nil => exact absurd (List.infix_nil.mp h) hkey
  | cons c x ih =>
    by_cases hp : key <+: c :: x
    · obtain ⟨y, hy⟩ := hp
      refine ⟨[], y, hy.symm, fun hi => ?_⟩
      have hlen := hi.length_le
      rw [List.nil_append, List.length_dropLast] at hlen
      have := List.length_pos_iff.mpr hkey
      omega
    · obtain ⟨p, y, rfl, hfirst⟩ := ih ((List.infix_cons_iff.mp h).resolve_left hp)
      refine ⟨c :: p, y, rfl, fun hi => ?_⟩
      rcases List.infix_cons_iff.mp hi with hq | hi
      · exact hp (hq.trans (shortened_begins key (c :: p) y))
      · exact hfirst hi

theorem length_rest_lt {p : Str} (hkey : key ≠ []) (h : x = p ++ key ++ y) : y.length < x.length := by
  have := List.length_pos_iff.mpr hkey
  rw [h, List.length_append, List.length_append]
  omega

theorem replace_first {new : Str} (hkey : key ≠ []) (h : FirstAfter key x) (y : Str) :
    replace key new (x ++ key ++ y) = x ++ new ++ replace key new y := by
  induction x with
  | nil => exact replace_old_append hkey y
  | cons c x ih =>
    have hp : ¬ key <+: c :: (x ++ key ++ y) := by
      intro hp
      refine h (List.prefix_of_prefix_length_le hp (shortened_begins key (c :: x) y) ?_).isInfix
      rw [List.length_append, List.length_cons, List.length_dropLast]
      omega
    calc replace key new (c :: (x ++ key ++ y))
        = c :: replace key new (x ++ key ++ y) := replace_cons hp
      _ = c :: (x ++ new ++ replace key new y) := by
          rw [ih (h.of_suffix (List.suffix_cons c x))]

/-! ## How a key comes back -/

/-- The key lies inside the placeholder or starts inside it. -/
def Ahead (key mark : Str) : Prop := key <:+: mark ∨ ∃ s, s ≠ [] ∧ s <+: key ∧ s <:+ mark

/-- The key starts with `a` in front of the placeholder, and goes on into it or across it. -/
def Behind (key mark a : Str) : Prop :=
  ∃ s b, key = a ++ s ++ b ∧ a ≠ [] ∧ s ≠ [] ∧ s <+: mark ∧ (b = [] ∨ s = mark)

structure Separate (key mark : Str) : Prop where
  ahead : ¬ Ahead key mark
  behind : ∀ a, ¬ Behind key mark a

/-- An occurrence around a placeholder. -/
theorem infix_around (hmark : mark ≠ []) (h : key <:+: x ++ mark ++ y) :
    key <:+: x ∨ key <:+: y ∨ Ahead key mark ∨ ∃ a, a <:+ x ∧ Behind key mark a := by
  rw [List.append_assoc] at h
  rcases infix_append_cases h with hx | hrest | ⟨a, c, hkey, ha, hc, hend, hbegin⟩
  · exact .inl hx
  · rcases infix_append_cases hrest with hin | hy | ⟨s, b, hkey, hs, -, hend, -⟩
    · exact .inr (.inr (.inl (.inl hin)))
    · exact .inr (.inl hy)
    · exact .inr (.inr (.inl (.inr ⟨s, hs, hkey ▸ List.prefix_append s b, hend⟩)))
  · refine .inr (.inr (.inr ⟨a, hend, ?_⟩))
    rcases le_total c.length mark.length with hle | hle
    · refine ⟨c, [], ?_, ha, hc, List.prefix_of_prefix_length_le hbegin
        (List.prefix_append mark y) hle, .inl rfl⟩
      rw [List.append_nil, hkey]
    · obtain ⟨b, rfl⟩ := List.prefix_of_prefix_length_le (List.prefix_append mark y) hbegin hle
      exact ⟨mark, b, by rw [hkey, List.append_assoc], ha, hmark, List.prefix_rfl, .inr rfl⟩

/-! ## Replacing the key -/

/-- A key that stands apart from the placeholder is gone after a replacement, and so is
one that would have to start where it occurred before. -/
theorem not_infix_replace (hkey : key ≠ []) (hmark : mark ≠ []) (hahead : ¬ Ahead key mark)
    (hbehind : ∀ a, Behind key mark a → ¬ FirstAfter key a) (x : Str) :
    ¬ key <:+: replace key mark x := by
  by_cases hx : key <:+: x
  · obtain ⟨p, y, hsplit, hfirst⟩ := exists_first hkey hx
    have hlt : y.length < x.length := length_rest_lt hkey hsplit
    have hy := not_infix_replace hkey hmark hahead hbehind y
    rw [hsplit, replace_first hkey hfirst]
    intro h
    rcases infix_around hmark h with hp | hr | ha | ⟨a, hend, ha⟩
    · exact hfirst.absent hp
    · exact hy hr
    · exact hahead ha
    · exact hbehind a ha (hfirst.of_suffix hend)
  · rwa [replace_eq_self hx]
termination_by x.length

theorem Separate.not_infix_replace (h : Separate key mark) (hkey : key ≠ []) (hmark : mark ≠ [])
    (x : Str) : ¬ key <:+: replace key mark x :=
  Text.not_infix_replace hkey hmark h.ahead (fun a ha => absurd ha (h.behind a)) x

/-- Where the key can come back, it does in some text. -/
theorem exists_infix_replace_of_ahead (hkey : key ≠ []) (h : Ahead key mark) :
    ∃ x, key <:+: replace key mark x := by
  rcases h with hin | ⟨s, hs, ⟨b, rfl⟩, ⟨r, rfl⟩⟩
  · refine ⟨key, ?_⟩
    have hreplace : replace key mark (key ++ []) = mark ++ replace key mark [] :=
      replace_old_append hkey []
    rw [List.append_nil, replace_nil, List.append_nil] at hreplace
    rwa [hreplace]
  · have hb : ¬ s ++ b <:+: b := by
      intro hi
      have := hi.length_le
      have := List.length_pos_iff.mpr hs
      rw [List.length_append] at *
      omega
    refine ⟨s ++ b ++ b, ?_⟩
    rw [replace_old_append hkey, replace_eq_self hb, List.append_assoc]
    exact (List.suffix_append r (s ++ b)).isInfix

theorem exists_infix_replace_of_behind {a : Str} (hkey : key ≠ []) (h : Behind key mark a)
    (hfirst : FirstAfter key a) : ∃ x, key <:+: replace key mark x := by
  obtain ⟨s, b, rfl, ha, hs, ⟨r, hmark⟩, hb⟩ := h
  have hrest : ¬ a ++ s ++ b <:+: b := by
    intro hi
    have := hi.length_le
    have := List.length_pos_iff.mpr ha
    simp only [List.length_append] at *
    omega
  refine ⟨a ++ (a ++ s ++ b) ++ b, ?_⟩
  rw [replace_first hkey hfirst, replace_eq_self hrest]
  rcases hb with rfl | rfl
  · rw [← hmark, List.append_nil, List.append_nil, ← List.append_assoc]
    exact (List.prefix_append (a ++ s) r).isInfix
  · exact List.infix_rfl

/-- Which keys a replacement takes out of every text. -/
theorem not_infix_replace_iff (hkey : key ≠ []) (hmark : mark ≠ []) :
    (∀ x, ¬ key <:+: replace key mark x) ↔
      ¬ Ahead key mark ∧ ∀ a, Behind key mark a → ¬ FirstAfter key a := by
  constructor
  · intro h
    refine ⟨fun ha => ?_, fun a ha hfirst => ?_⟩
    · obtain ⟨x, hx⟩ := exists_infix_replace_of_ahead hkey ha
      exact h x hx
    · obtain ⟨x, hx⟩ := exists_infix_replace_of_behind hkey ha hfirst
      exact h x hx
  · rintro ⟨hahead, hbehind⟩ x
    exact not_infix_replace hkey hmark hahead hbehind x

/-! ## Replacing anything else -/

/-- Parts of a text replaced by the placeholder. -/
inductive Patched (mark : Str) : Str → Str → Prop
  | same (t : Str) : Patched mark t t
  | patch (p gap : Str) {t t' : Str} (h : Patched mark t t') :
    Patched mark (p ++ gap ++ t) (p ++ mark ++ t')

theorem Patched.absent {t t' : Str} (h : Patched mark t t') (hsep : Separate key mark)
    (hmark : mark ≠ []) (ht : ¬ key <:+: t) : ¬ key <:+: t' := by
  induction h with
  | same t => exact ht
  | patch p gap _ ih =>
    intro hi
    rw [List.append_assoc] at ht
    rcases infix_around hmark hi with hp | hr | ha | ⟨a, -, ha⟩
    · exact ht (hp.trans (List.prefix_append p _).isInfix)
    · exact ih (fun hy => ht (hy.trans ((List.suffix_append gap _).trans
        (List.suffix_append p _)).isInfix)) hr
    · exact hsep.ahead ha
    · exact hsep.behind a ha

theorem patched_replace {old : Str} (hold : old ≠ []) (x : Str) :
    Patched mark x (replace old mark x) := by
  by_cases hx : old <:+: x
  · obtain ⟨p, y, hsplit, hfirst⟩ := exists_first hold hx
    have hlt : y.length < x.length := length_rest_lt hold hsplit
    rw [hsplit, replace_first hold hfirst]
    exact .patch p old (patched_replace hold y)
  · rw [replace_eq_self hx]
    exact .same x
termination_by x.length

/-- A key without the first and the last character of the placeholder stands apart. -/
theorem separate_of_notMem {o c : CodePoint} {m : Str} (hmark : mark = o :: (m ++ [c]))
    (ho : o ∉ key) (hc : c ∉ key) (hin : ¬ key <:+: mark) : Separate key mark := by
  refine ⟨?_, ?_⟩
  · rintro (h | ⟨s, hs, hbegin, hend⟩)
    · exact hin h
    · have hlast : c ∈ s := by
        obtain ⟨p, hp⟩ := hend
        have hget := congrArg List.getLast? hp
        rw [hmark, List.getLast?_append_of_ne_nil _ hs] at hget
        refine List.mem_of_getLast? (hget.trans ?_)
        rw [← List.cons_append, List.getLast?_concat]
      exact hc (hbegin.subset hlast)
  · rintro a ⟨s, b, rfl, -, hs, hbegin, -⟩
    obtain ⟨d, s, rfl⟩ := List.exists_cons_of_ne_nil hs
    rw [hmark, List.cons_prefix_cons] at hbegin
    exact ho (hbegin.1 ▸ by simp)

end Text

namespace Python

open Text (Str CodePoint Patched)

/-! ## Whitespace -/

/-- `s.split()` -/
def words (s : Str) : List Str := (s.splitOnP isSpace).filter fun w => !w.isEmpty

theorem splitOnP_infix {p : CodePoint → Bool} (s : Str) :
    ∃ head tail, s.splitOnP p = head :: tail ∧ head <+: s ∧ ∀ w ∈ tail, w <:+: s := by
  induction s with
  | nil => exact ⟨[], [], rfl, List.prefix_rfl, fun _ h => nomatch h⟩
  | cons c s ih =>
    obtain ⟨head, tail, hsplit, hhead, htail⟩ := ih
    rw [List.splitOnP_cons_eq_if_modifyHead, hsplit]
    split_ifs
    · refine ⟨[], head :: tail, rfl, List.nil_prefix, ?_⟩
      intro w hw
      rcases List.mem_cons.mp hw with rfl | hw
      · exact List.infix_cons hhead.isInfix
      · exact List.infix_cons (htail w hw)
    · exact ⟨c :: head, tail, rfl, List.cons_prefix_cons.mpr ⟨rfl, hhead⟩,
        fun w hw => List.infix_cons (htail w hw)⟩

theorem infix_of_mem_words {s w : Str} (h : w ∈ words s) : w <:+: s := by
  obtain ⟨head, tail, hsplit, hhead, htail⟩ := splitOnP_infix (p := isSpace) s
  have hw := List.mem_of_mem_filter h
  rw [hsplit] at hw
  rcases List.mem_cons.mp hw with rfl | hw
  · exact hhead.isInfix
  · exact htail w hw

/-- A key without the separator is in one of the joined texts. -/
theorem infix_intercalate {key : Str} {d : CodePoint} (hkey : key ≠ []) (hd : d ∉ key) {texts : List Str}
    (h : key <:+: List.intercalate [d] texts) : ∃ t ∈ texts, key <:+: t := by
  induction texts with
  | nil => exact absurd (List.infix_nil.mp h) hkey
  | cons t texts ih =>
    rcases eq_or_ne texts [] with rfl | hne
    · rw [List.intercalate_singleton] at h
      exact ⟨t, List.mem_cons_self, h⟩
    · rw [List.intercalate_cons_of_ne_nil hne, List.append_assoc, List.singleton_append] at h
      rcases Text.infix_append_cases h with ht | hrest | ⟨a, b, rfl, -, hb, -, hbegin⟩
      · exact ⟨t, List.mem_cons_self, ht⟩
      · rcases List.infix_cons_iff.mp hrest with hp | hi
        · obtain ⟨c, key, rfl⟩ := List.exists_cons_of_ne_nil hkey
          exact absurd ((List.cons_prefix_cons.mp hp).1 ▸ List.mem_cons_self) hd
        · obtain ⟨t', ht', hin⟩ := ih hi
          exact ⟨t', List.mem_cons_of_mem t ht', hin⟩
      · obtain ⟨c, b, rfl⟩ := List.exists_cons_of_ne_nil hb
        exact absurd ((List.cons_prefix_cons.mp hbegin).1 ▸ by simp) hd

namespace Regex

/-! ## Replacing the matches of an expression -/

theorem after_suffix_manyEnds {p : CodePoint → Bool} {groups : List (ℕ × Str)} {before after : Str}
    {e : Cursor} (h : e ∈ manyEnds p groups before after) : e.after <:+ after ∧ e.groups = groups := by
  induction after generalizing before with
  | nil =>
    obtain rfl := List.mem_singleton.mp h
    exact ⟨List.suffix_rfl, rfl⟩
  | cons d rest ih =>
    rw [manyEnds, List.mem_append] at h
    rcases h with h | h
    · split_ifs at h
      · obtain ⟨hend, hgroups⟩ := ih h
        exact ⟨hend.trans (List.suffix_cons d rest), hgroups⟩
      · cases h
    · obtain rfl := List.mem_singleton.mp h
      exact ⟨List.suffix_rfl, rfl⟩

/-- An assertion stays where it is. -/
theorem eq_of_mem_assertion {p : Prop} [Decidable p] {c e : Cursor} (h : e ∈ if p then [c] else []) :
    e = c := by
  split_ifs at h
  · exact List.mem_singleton.mp h
  · cases h

/-- A match ends further on in the text. -/
theorem after_suffix {r : Regex} {c e : Cursor} (h : e ∈ r.ends c) : e.after <:+ c.after := by
  induction r generalizing c e with
  | empty => exact List.mem_singleton.mp h ▸ List.suffix_rfl
  | char p =>
    rw [ends] at h
    split at h
    · next d rest hafter =>
      split_ifs at h
      · obtain rfl := List.mem_singleton.mp h
        exact hafter ▸ List.suffix_cons d rest
      · cases h
    · cases h
  | seq a b iha ihb =>
    obtain ⟨m, hm, he⟩ := List.mem_flatMap.mp h
    exact (ihb he).trans (iha hm)
  | alt a b iha ihb => exact (List.mem_append.mp h).elim iha ihb
  | many p => exact (after_suffix_manyEnds h).1
  | group n a ih =>
    obtain ⟨m, hm, rfl⟩ := List.mem_map.mp h
    have hend : m.after <:+ c.after := ih hm
    exact hend
  | ahead wanted a _ => exact eq_of_mem_assertion h ▸ List.suffix_rfl
  | behind wanted ps => exact eq_of_mem_assertion h ▸ List.suffix_rfl
  | start => exact eq_of_mem_assertion h ▸ List.suffix_rfl
  | finish => exact eq_of_mem_assertion h ▸ List.suffix_rfl
  | boundary isWord => exact eq_of_mem_assertion h ▸ List.suffix_rfl

/-- An expression without groups. -/
def groupFree : Regex → Bool
  | seq a b => groupFree a && groupFree b
  | alt a b => groupFree a && groupFree b
  | group _ _ => false
  | _ => true

theorem groups_of_groupFree {r : Regex} (hfree : r.groupFree = true) {c e : Cursor} (h : e ∈ r.ends c) :
    e.groups = c.groups := by
  induction r generalizing c e with
  | empty => exact List.mem_singleton.mp h ▸ rfl
  | char p =>
    rw [ends] at h
    split at h
    · split_ifs at h
      · exact List.mem_singleton.mp h ▸ rfl
      · cases h
    · cases h
  | seq a b iha ihb =>
    obtain ⟨ha, hb⟩ := Bool.and_eq_true_iff.mp hfree
    obtain ⟨m, hm, he⟩ := List.mem_flatMap.mp h
    exact (ihb hb he).trans (iha ha hm)
  | alt a b iha ihb =>
    obtain ⟨ha, hb⟩ := Bool.and_eq_true_iff.mp hfree
    exact (List.mem_append.mp h).elim (iha ha) (ihb hb)
  | many p => exact (after_suffix_manyEnds h).2
  | group n a _ => cases hfree
  | ahead wanted a _ => exact eq_of_mem_assertion h ▸ rfl
  | behind wanted ps => exact eq_of_mem_assertion h ▸ rfl
  | start => exact eq_of_mem_assertion h ▸ rfl
  | finish => exact eq_of_mem_assertion h ▸ rfl
  | boundary isWord => exact eq_of_mem_assertion h ▸ rfl

theorem upTo_append {c e : Cursor} (h : e.after <:+ c.after) : c.upTo e ++ e.after = c.after := by
  obtain ⟨t, ht⟩ := h
  rw [Cursor.upTo, ← ht, List.length_append, Nat.add_sub_cancel, List.take_left]

/-- `(a)b`: the text of the group, and what `b` goes on from. -/
theorem ends_group_seq {n : ℕ} {a b : Regex} (ha : a.groupFree = true) {c e : Cursor}
    (h : e ∈ (seq (group n a) b).ends c) :
    ∃ kept m, c.after = kept ++ m.after ∧ m.groups = (n, kept) :: c.groups ∧ e ∈ b.ends m := by
  obtain ⟨g, hg, he⟩ := List.mem_flatMap.mp h
  obtain ⟨m, hm, rfl⟩ := List.mem_map.mp hg
  refine ⟨c.upTo m, { m with groups := (n, c.upTo m) :: m.groups },
    (upTo_append (after_suffix hm)).symm, ?_, he⟩
  exact congrArg ((n, c.upTo m) :: ·) (groups_of_groupFree ha hm)

/-! ### The matches of a text -/

/-- The matches from a place on, one behind the other. -/
inductive Chain (r : Regex) : Str → List Match → Prop
  | nil (t : Str) : Chain r t []
  | cons {t : Str} {m : Match} {ms : List Match} (here : m.start.after <:+ t)
      (stop : m.stop ∈ r.ends m.start) (fresh : m.start.groups = [])
      (rest : Chain r m.stop.after ms) : Chain r t (m :: ms)

/-- A match at a place. -/
theorem go_eq_some {r : Regex} {mustAdvance : Bool} {before after : Str} {m : Match}
    (h : searchFrom.go r mustAdvance before after = some m) :
    m.start.after <:+ after ∧ m.stop ∈ r.ends m.start ∧ m.start.groups = [] := by
  obtain ⟨e, he, rfl⟩ := Option.map_eq_some_iff.mp h
  exact ⟨List.suffix_rfl, List.mem_of_find?_eq_some he, rfl⟩

theorem searchFrom_eq_some {r : Regex} {mustAdvance : Bool} {before after : Str} {m : Match}
    (h : r.searchFrom mustAdvance before after = some m) :
    m.start.after <:+ after ∧ m.stop ∈ r.ends m.start ∧ m.start.groups = [] := by
  induction after generalizing mustAdvance before with
  | nil => exact go_eq_some h
  | cons d rest ih =>
    rw [searchFrom] at h
    split at h
    · next hgo => exact go_eq_some (hgo.trans h)
    · obtain ⟨hend, hmatch⟩ := ih h
      exact ⟨hend.trans (List.suffix_cons d rest), hmatch⟩

theorem chain_findFrom (r : Regex) (fuel : ℕ) (mustAdvance : Bool) (before after : Str) :
    Chain r after (r.findFrom fuel mustAdvance before after) := by
  induction fuel generalizing mustAdvance before after with
  | zero => exact .nil after
  | succ fuel ih =>
    rw [findFrom]
    split
    · exact .nil after
    · next m hm =>
      obtain ⟨hhere, hstop, hfresh⟩ := searchFrom_eq_some hm
      exact .cons hhere hstop hfresh (ih _ _ _)

/-- A match is replaced by a beginning of it and the placeholder. -/
def Keeps (mark : Str) (r : Regex) (f : Match → Str) : Prop :=
  ∀ m : Match, m.stop ∈ r.ends m.start → m.start.groups = [] →
    ∃ kept gap, m.start.after = kept ++ gap ++ m.stop.after ∧ f m = kept ++ mark

theorem patched_subFrom {mark : Str} {r : Regex} {f : Match → Str} (hf : Keeps mark r f) {t : Str}
    {ms : List Match} (h : Chain r t ms) : Patched mark t (subFrom f t ms) := by
  induction h with
  | nil t => exact .same t
  | @cons t m ms here stop fresh _ ih =>
    obtain ⟨kept, gap, hstart, hf⟩ := hf m stop fresh
    obtain ⟨p, rfl⟩ := here
    have htext : p ++ m.start.after = p ++ kept ++ gap ++ m.stop.after := by
      rw [hstart]
      simp only [List.append_assoc]
    have hsub : subFrom f (p ++ m.start.after) (m :: ms) =
        p ++ kept ++ mark ++ subFrom f m.stop.after ms := by
      rw [subFrom, hf, List.length_append, Nat.add_sub_cancel, List.take_left]
      simp only [List.append_assoc]
    rw [hsub, htext]
    exact .patch (p ++ kept) gap ih

/-- Replacing matches patches the text. -/
theorem patched_sub {mark : Str} {r : Regex} {f : Match → Str} (hf : Keeps mark r f) (t : Str) :
    Patched mark t (r.sub f t) :=
  patched_subFrom hf (chain_findFrom r _ false [] t)

/-- Nothing of a match is kept. -/
theorem keeps_nothing (mark : Str) (r : Regex) : Keeps mark r fun _ => mark := by
  intro m hstop _
  obtain ⟨gap, hgap⟩ := after_suffix hstop
  exact ⟨[], gap, hgap.symm, rfl⟩

/-- `\1` and the placeholder. -/
theorem keeps_group (mark : Str) {a b : Regex} (ha : a.groupFree = true) (hb : b.groupFree = true) :
    Keeps mark (seq (group 1 a) b) fun m => (m.group 1).getD [] ++ mark := by
  intro m hstop hfresh
  obtain ⟨kept, c, hkept, hgroups, he⟩ := ends_group_seq ha hstop
  obtain ⟨gap, hgap⟩ := after_suffix he
  refine ⟨kept, gap, by rw [hkept, ← hgap, List.append_assoc], ?_⟩
  simp only [Match.group, groups_of_groupFree hb he, hgroups]
  rfl

/-- `\1\2` and the placeholder. -/
theorem keeps_groups (mark : Str) {a b c : Regex} (ha : a.groupFree = true) (hb : b.groupFree = true)
    (hc : c.groupFree = true) :
    Keeps mark (seq (group 1 a) (seq (group 2 b) c)) fun m =>
      (m.group 1).getD [] ++ (m.group 2).getD [] ++ mark := by
  intro m hstop hfresh
  obtain ⟨first, d, hfirst, hgroups, he⟩ := ends_group_seq ha hstop
  obtain ⟨second, d', hsecond, hgroups', he'⟩ := ends_group_seq hb he
  obtain ⟨gap, hgap⟩ := after_suffix he'
  refine ⟨first ++ second, gap, ?_, ?_⟩
  · rw [hfirst, hsecond, ← hgap]
    simp only [List.append_assoc]
  · simp only [Match.group, groups_of_groupFree hc he', hgroups', hgroups]
    rfl

end Regex

end Python
