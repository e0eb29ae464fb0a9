import Mathlib.Logic.Function.Basic
import Mathlib.Logic.Relation
import LLMBenchLab.Transaction

/-!
# Interleaving: open transactions at READ COMMITTED

Several transactions run at once, one statement of one of them at a time. A
statement sees what is committed when it runs, under the transaction's own
writes; `SELECT … FOR UPDATE` runs only when nobody else holds a row it names;
a commit puts the writes on the committed store and lets go of the locks. A
transaction can be rolled back before any statement: an exception, a violated
constraint, a deadlock, a crash.

`Safe` is the proof rule: a transaction is followed statement by statement,
and between two of them the committed store may change in any way the locks it
holds allow (`Rely`). If every transaction commits within what its own locks
license (`Guar`) and keeps the invariant, the invariant holds in every store
committed in any interleaving (`Interleaved.invariant`).
-/

namespace Relational

open Prog

variable {ι S R L E α : Type} {σ : Schema S E}

/-- An open transaction: what is left to do, the writes flushed so far, the
locked rows. -/
structure Session (S R L E α : Type) where
  rest : Prog S R L E α
  pending : S → S
  held : List L

/-- The committed store and the open transactions. -/
structure Interleaved (ι S R L E α : Type) where
  committed : S
  sessions : ι → Option (Session S R L E α)

/-- Nothing open. -/
def Interleaved.quiet (s : S) : Interleaved ι S R L E α := ⟨s, fun _ => none⟩

/-- One statement over the committed store `s`; `free` says which locks nobody
else holds. -/
inductive Statement (σ : Schema S E) (free : List L → Prop) (s : S) :
    Session S R L E α → Session S R L E α → Prop where
  | query {k : S → Prog S R L E α} {w : S → S} {h : List L} :
      Statement σ free s ⟨query k, w, h⟩ ⟨k (w s), w, h⟩
  | peek {f : S → R} {k : R → Prog S R L E α} {w : S → S} {h : List L} :
      Statement σ free s ⟨peek f k, w, h⟩ ⟨k (f (w s)), w, h⟩
  | lock {ls : S → List L} {k : S → Prog S R L E α} {w : S → S} {h : List L} :
      free (ls (w s)) → Statement σ free s ⟨lock ls k, w, h⟩ ⟨k (w s), w, h ++ ls (w s)⟩
  | write {f : S → S} {p : Prog S R L E α} {w : S → S} {h : List L} :
      σ.ok (f (w s)) → Statement σ free s ⟨write f p, w, h⟩ ⟨p, f ∘ w, h⟩

variable [DecidableEq ι]

/-- The sessions with one of them replaced. -/
def Interleaved.put (c : Interleaved ι S R L E α) (i : ι) (x : Option (Session S R L E α)) :
    Interleaved ι S R L E α :=
  { c with sessions := Function.update c.sessions i x }

/-- No session but `i` holds any of the locks. -/
def Interleaved.Free (c : Interleaved ι S R L E α) (i : ι) (ls : List L) : Prop :=
  ∀ j, j ≠ i → ∀ x, c.sessions j = some x → ∀ l ∈ ls, l ∉ x.held

/-- One step of the database with the transactions `P`. -/
inductive Interleaved.Step (σ : Schema S E) (P : Prog S R L E α → Prop) :
    Interleaved ι S R L E α → Interleaved ι S R L E α → Prop where
  | begin {c : Interleaved ι S R L E α} (i : ι) {p : Prog S R L E α} :
      c.sessions i = none → P p → Step σ P c (c.put i (some ⟨p, id, []⟩))
  | statement {c : Interleaved ι S R L E α} (i : ι) {x y : Session S R L E α} :
      c.sessions i = some x → Statement σ (c.Free i) c.committed x y →
      Step σ P c (c.put i (some y))
  | commit {c : Interleaved ι S R L E α} (i : ι) {a : α} {w : S → S} {h : List L} :
      c.sessions i = some ⟨ret a, w, h⟩ →
      Step σ P c { c.put i none with committed := w c.committed }
  | rollback {c : Interleaved ι S R L E α} (i : ι) {x : Session S R L E α} :
      c.sessions i = some x → Step σ P c (c.put i none)

/-! ## The rule -/

/-- `p`, with pending writes `w` and locks `h`, ends well from any committed
store that the others can make of `s`. -/
def Safe (σ : Schema S E) (Inv : S → Prop) (Rely Guar : List L → S → S → Prop) :
    Prog S R L E α → (S → S) → List L → S → Prop
  | ret _, w, h, s => ∀ t, Rely h s t → Inv t → Inv (w t) ∧ Guar h t (w t)
  | raise _, _, _, _ => True
  | query k, w, h, s => ∀ t, Rely h s t → Inv t → Safe σ Inv Rely Guar (k (w t)) w h t
  | peek f k, w, h, s => ∀ t, Rely h s t → Inv t → Safe σ Inv Rely Guar (k (f (w t))) w h t
  | lock ls k, w, h, s =>
    ∀ t, Rely h s t → Inv t → Safe σ Inv Rely Guar (k (w t)) w (h ++ ls (w t)) t
  | write f p, w, h, s =>
    ∀ t, Rely h s t → Inv t → σ.ok (f (w t)) → Safe σ Inv Rely Guar p (f ∘ w) h t

variable {Inv : S → Prop} {Rely Guar : List L → S → S → Prop}

/-- A transaction stays safe while others commit. -/
theorem Safe.stable (htrans : ∀ h s t u, Rely h s t → Rely h t u → Rely h s u)
    {p : Prog S R L E α} {w : S → S} {h : List L} {s t : S} (hp : Safe σ Inv Rely Guar p w h s)
    (hst : Rely h s t) : Safe σ Inv Rely Guar p w h t := by
  cases p with
  | ret a => exact fun u hu => hp u (htrans _ _ _ _ hst hu)
  | raise e => exact trivial
  | query k => exact fun u hu => hp u (htrans _ _ _ _ hst hu)
  | peek f k => exact fun u hu => hp u (htrans _ _ _ _ hst hu)
  | lock ls k => exact fun u hu => hp u (htrans _ _ _ _ hst hu)
  | write f p => exact fun u hu => hp u (htrans _ _ _ _ hst hu)

/-! ### Statements -/

theorem safe_ensure {β : Type} {c : Bool} {e : E} {g : Unit → Prog S R L E β} {w : S → S}
    {h : List L} {s : S} (hg : c = true → Safe σ Inv Rely Guar (g ()) w h s) :
    Safe σ Inv Rely Guar ((ensure c e).bind g) w h s := by
  cases c with
  | false => exact trivial
  | true => exact hg rfl

theorem safe_read {β : Type} {g : S → Prog S R L E β} {w : S → S} {h : List L} {s : S}
    (hg : ∀ t, Rely h s t → Inv t → Safe σ Inv Rely Guar (g (w t)) w h t) :
    Safe σ Inv Rely Guar (Prog.read.bind g) w h s := hg

theorem safe_forUpdate {β : Type} {ls : S → List L} {g : S → Prog S R L E β} {w : S → S}
    {h : List L} {s : S}
    (hg : ∀ t, Rely h s t → Inv t → Safe σ Inv Rely Guar (g (w t)) w (h ++ ls (w t)) t) :
    Safe σ Inv Rely Guar ((forUpdate ls).bind g) w h s := hg

theorem safe_query {β : Type} {k : S → Prog S R L E β} {w : S → S} {h : List L} {s : S}
    (hk : ∀ t, Rely h s t → Inv t → Safe σ Inv Rely Guar (k (w t)) w h t) :
    Safe σ Inv Rely Guar (query k) w h s := hk

theorem safe_flush_bind {β : Type} {f : S → S} {g : Unit → Prog S R L E β} {w : S → S}
    {h : List L} {s : S}
    (hg : ∀ t, Rely h s t → Inv t → σ.ok (f (w t)) → Safe σ Inv Rely Guar (g ()) (f ∘ w) h t) :
    Safe σ Inv Rely Guar ((flush f).bind g) w h s := hg

/-- A flush at the end of a transaction is a commit. -/
theorem safe_flush (htrans : ∀ h s t u, Rely h s t → Rely h t u → Rely h s u) {f : S → S}
    {w : S → S} {h : List L} {s : S}
    (hf : ∀ t, Rely h s t → Inv t → Inv (f (w t)) ∧ Guar h t (f (w t))) :
    Safe σ Inv Rely Guar (flush f : Prog S R L E Unit) w h s :=
  fun t hst _ _ u htu hu => hf u (htrans h s t u hst htu) hu

/-! ### Steps -/

/-- A statement of a safe transaction leaves a safe transaction. -/
theorem Statement.safe (hrefl : ∀ h s, Rely h s s) {free : List L → Prop} {s : S}
    {x y : Session S R L E α} (hxy : Statement σ free s x y) (hinv : Inv s)
    (hx : Safe σ Inv Rely Guar x.rest x.pending x.held s) :
    Safe σ Inv Rely Guar y.rest y.pending y.held s := by
  cases hxy with
  | query => exact hx s (hrefl _ s) hinv
  | peek => exact hx s (hrefl _ s) hinv
  | lock _ => exact hx s (hrefl _ s) hinv
  | write hok => exact hx s (hrefl _ s) hinv hok

theorem Statement.held {free : List L → Prop} {s : S} {x y : Session S R L E α}
    (hxy : Statement σ free s x y) : ∀ l ∈ y.held, l ∈ x.held ∨ ∃ ls, free ls ∧ l ∈ ls := by
  cases hxy with
  | query => exact fun l hl => Or.inl hl
  | peek => exact fun l hl => Or.inl hl
  | lock hfree =>
    intro l hl
    exact (List.mem_append.mp hl).imp id fun hl => ⟨_, hfree, hl⟩
  | write _ => exact fun l hl => Or.inl hl

/-- What holds of a database all of whose transactions are safe. -/
structure Interleaved.Sound (σ : Schema S E) (Inv : S → Prop) (Rely Guar : List L → S → S → Prop)
    (c : Interleaved ι S R L E α) : Prop where
  inv : Inv c.committed
  safe : ∀ i x, c.sessions i = some x →
    Safe σ Inv Rely Guar x.rest x.pending x.held c.committed
  apart : ∀ i j x y, i ≠ j → c.sessions i = some x → c.sessions j = some y →
    ∀ l ∈ x.held, l ∉ y.held

namespace Interleaved

variable {c c' : Interleaved ι S R L E α} {P : Prog S R L E α → Prop}

theorem put_self (c : Interleaved ι S R L E α) (i : ι) (x : Option (Session S R L E α)) :
    (c.put i x).sessions i = x := by simp [put]

theorem put_of_ne (c : Interleaved ι S R L E α) {i j : ι} (h : j ≠ i)
    (x : Option (Session S R L E α)) : (c.put i x).sessions j = c.sessions j := by
  simp [put, h]

/-- The sessions of `put`, one by one. -/
theorem put_cases {i j : ι} {x : Option (Session S R L E α)} {y : Session S R L E α}
    (h : (c.put i x).sessions j = some y) :
    (j = i ∧ x = some y) ∨ (j ≠ i ∧ c.sessions j = some y) := by
  by_cases hij : j = i
  · rw [hij, put_self] at h
    exact Or.inl ⟨hij, h⟩
  · rw [put_of_ne c hij] at h
    exact Or.inr ⟨hij, h⟩

/-- Putting a session whose locks nobody else holds keeps sessions apart. -/
theorem apart_put {i : ι} {x : Option (Session S R L E α)}
    (hap : ∀ i j x y, i ≠ j → c.sessions i = some x → c.sessions j = some y →
      ∀ l ∈ x.held, l ∉ y.held)
    (hx : ∀ y, x = some y → ∀ j z, j ≠ i → c.sessions j = some z → ∀ l ∈ y.held, l ∉ z.held) :
    ∀ a b y z, a ≠ b → (c.put i x).sessions a = some y → (c.put i x).sessions b = some z →
      ∀ l ∈ y.held, l ∉ z.held := by
  intro a b y z hab hy hz l hl hl'
  rcases put_cases hy with ⟨ha, hy⟩ | ⟨hai, hy⟩ <;> rcases put_cases hz with ⟨hb, hz⟩ | ⟨hbi, hz⟩
  · exact hab (ha.trans hb.symm)
  · exact hx y hy b z hbi hz l hl hl'
  · exact hx z hz a y hai hy l hl' hl
  · exact hap a b y z hab hy hz l hl hl'

variable (hrefl : ∀ h s, Rely h s s) (htrans : ∀ h s t u, Rely h s t → Rely h t u → Rely h s u)
  (hcompat : ∀ h h' s t, (∀ l ∈ h, l ∉ h') → Inv s → Guar h' s t → Rely h s t)
  (hP : ∀ p, P p → ∀ s, Inv s → Safe σ Inv Rely Guar p id [] s)

include hrefl htrans hcompat hP

theorem Sound.step (hc : c.Sound σ Inv Rely Guar) (h : Step σ P c c') :
    c'.Sound σ Inv Rely Guar := by
  obtain ⟨hinv, hsafe, hap⟩ := hc
  cases h with
  | begin i hi hp =>
    refine ⟨hinv, fun j y hy => ?_, apart_put hap ?_⟩
    · rcases put_cases hy with ⟨-, hy⟩ | ⟨-, hy⟩
      · obtain rfl := Option.some.inj hy
        exact hP _ hp _ hinv
      · exact hsafe j y hy
    · intro y hy j z _ _ l hl
      obtain rfl := Option.some.inj hy
      cases hl
  | @statement i x y hx hxy =>
    refine ⟨hinv, fun j z hz => ?_, apart_put hap ?_⟩
    · rcases put_cases hz with ⟨-, hz⟩ | ⟨-, hz⟩
      · obtain rfl := Option.some.inj hz
        exact hxy.safe hrefl hinv (hsafe i x hx)
      · exact hsafe j z hz
    · rintro y' hy j z hj hz l hl
      obtain rfl := Option.some.inj hy
      rcases hxy.held l hl with hl | ⟨ls, hfree, hl⟩
      · exact hap i j x z (Ne.symm hj) hx hz l hl
      · exact hfree j hj z hz l hl
  | @commit i a w h hx =>
    obtain ⟨hinv', hguar⟩ := hsafe i _ hx _ (hrefl _ _) hinv
    refine ⟨hinv', fun j y hy => ?_, apart_put hap ?_⟩
    · rcases put_cases hy with ⟨-, hy⟩ | ⟨hj, hy⟩
      · cases hy
      · have hrely := hcompat _ _ _ _ (hap j i y _ hj hy hx) hinv hguar
        exact Safe.stable htrans (hsafe j y hy) hrely
    · rintro y hy
      cases hy
  | rollback i hx =>
    refine ⟨hinv, fun j y hy => ?_, apart_put hap ?_⟩
    · rcases put_cases hy with ⟨-, hy⟩ | ⟨-, hy⟩
      · cases hy
      · exact hsafe j y hy
    · rintro y hy
      cases hy

/-- The invariant holds of whatever is committed, in every interleaving. -/
theorem invariant {s : S} (hs : Inv s) (h : Relation.ReflTransGen (Step σ P) (quiet s) c) :
    Inv c.committed := by
  have hsound : c.Sound σ Inv Rely Guar := by
    induction h with
    | refl =>
      refine ⟨hs, ?_, ?_⟩
      · intro i x hx
        cases hx
      · intro i j x y _ hx
        cases hx
    | tail _ hstep ih => exact ih.step hrefl htrans hcompat hP hstep
  exact hsound.inv

end Interleaved

/-! ## One after another -/

namespace Interleaved

variable {P : Prog S R L E α → Prop}

theorem free_quiet (s : S) (i : ι) (x : Option (Session S R L E α)) (ls : List L) :
    ((quiet s).put i x).Free i ls := by
  intro j hj y hy
  rw [put_of_ne _ hj] at hy
  cases hy

theorem put_put_quiet (s : S) (i : ι) (x y : Option (Session S R L E α)) :
    ((quiet s).put i x).put i y = (quiet s).put i y := by
  simp [put]

theorem put_none_quiet (s : S) (i : ι) : (quiet s : Interleaved ι S R L E α).put i none = quiet s := by
  simp [put, quiet]

/-- An open transaction with no other beside it runs as it runs alone. -/
theorem reaches_of_exec (i : ι) {p : Prog S R L E α} {w : S → S} {h : List L} {s s' : S} {a : α}
    (hx : exec σ p (w s) = .ok (a, s')) :
    Relation.ReflTransGen (Step σ P) ((quiet s).put i (some ⟨p, w, h⟩)) (quiet s') := by
  induction p generalizing w h with
  | ret b =>
    obtain ⟨-, rfl⟩ := Prod.mk.inj (Except.ok.inj hx)
    have hstep := Step.commit (σ := σ) (P := P) i (put_self (quiet s) i (some ⟨ret b, w, h⟩))
    rw [put_put_quiet, put_none_quiet] at hstep
    exact .single hstep
  | raise e => cases hx
  | query k ih =>
    have hstep := Step.statement (σ := σ) (P := P) i (put_self (quiet s) i (some ⟨query k, w, h⟩))
      .query
    rw [put_put_quiet] at hstep
    exact .head hstep (ih _ hx)
  | peek f k ih =>
    have hstep := Step.statement (σ := σ) (P := P) i (put_self (quiet s) i (some ⟨peek f k, w, h⟩))
      .peek
    rw [put_put_quiet] at hstep
    exact .head hstep (ih _ hx)
  | lock ls k ih =>
    have hstep := Step.statement (σ := σ) (P := P) i (put_self (quiet s) i (some ⟨lock ls k, w, h⟩))
      (.lock (free_quiet s i _ _))
    rw [put_put_quiet] at hstep
    exact .head hstep (ih _ hx)
  | write f p ih =>
    rw [exec_write] at hx
    split at hx
    · next hok =>
      have hstep := Step.statement (σ := σ) (P := P) i
        (put_self (quiet s) i (some ⟨write f p, w, h⟩)) (.write hok)
      rw [put_put_quiet] at hstep
      exact .head hstep (ih (w := f ∘ w) hx)
    · cases hx

/-- A transaction that succeeds alone is one of the interleavings. -/
theorem reaches_after (i : ι) {p : Prog S R L E α} (hp : P p) {s : S}
    (hx : (exec σ p s).isOk = true) :
    Relation.ReflTransGen (Step σ P) (quiet s : Interleaved ι S R L E α) (quiet (after σ p s)) := by
  rcases he : exec σ p s with e | ⟨a, s'⟩
  · rw [he] at hx
    cases hx
  · rw [after_of_ok he]
    exact .head (.begin i rfl hp) (reaches_of_exec i he)

end Interleaved

end Relational
