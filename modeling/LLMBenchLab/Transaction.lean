import Mathlib.Logic.Basic
import Mathlib.Tactic.Common

/-!
# Transactions: statement-level programs over a store

A database transaction is a program `Prog S R L E α` over the store `S`, one
constructor a statement:

* `query` — a plain `SELECT`: the continuation sees the store as of this
  statement;
* `peek` — an unlocked `SELECT` whose rows `R` the session goes on holding (the
  identity map of an ORM), which is why they are kept apart from `query`;
* `lock` — a `SELECT … FOR UPDATE` of the rows named by `ls`;
* `write` — a flush: `INSERT`s and `UPDATE`s as a function on the store;
* `raise` — the exception that rolls the transaction back.

Objects loaded and edited but not yet flushed are just Lean values of the
continuation: a later statement of the same program does not see them until a
`write` puts them into the store.

Two semantics. `exec` runs a transaction alone; a constraint of the schema
that fails after a `write` is an exception like any other. `Runs` runs it
amid other transactions: every statement sees some store of a set `D`, with
the transaction's own writes `w` on top. `exec` is `Runs` over a single store
(`runs_of_exec`), so one inversion of `Runs` serves both.
-/

namespace Relational

/-- Inversion of a validation that passes. -/
theorem except_bind_ok {ε α β : Type} {x : Except ε α} {f : α → Except ε β} {b : β}
    (h : x >>= f = .ok b) : ∃ a, x = .ok a ∧ f a = .ok b := by
  cases x with
  | error e => cases h
  | ok a => exact ⟨a, rfl, h⟩

/-- A transaction: statements over the store `S` that may hold rows `R` read
without a lock, lock rows named by `L`, raise `E` and return an `α`. -/
inductive Prog (S R L E : Type) (α : Type) : Type where
  /-- commit, returning a value -/
  | ret : α → Prog S R L E α
  /-- roll back -/
  | raise : E → Prog S R L E α
  /-- a plain `SELECT` -/
  | query : (S → Prog S R L E α) → Prog S R L E α
  /-- an unlocked `SELECT` whose rows stay in the session -/
  | peek : (S → R) → (R → Prog S R L E α) → Prog S R L E α
  /-- a `SELECT … FOR UPDATE` -/
  | lock : (S → List L) → (S → Prog S R L E α) → Prog S R L E α
  /-- a flush -/
  | write : (S → S) → Prog S R L E α → Prog S R L E α

namespace Prog

variable {S R L E α β γ : Type}

/-- Sequencing: graft a continuation onto every `ret`. -/
protected def bind : Prog S R L E α → (α → Prog S R L E β) → Prog S R L E β
  | ret a, g => g a
  | raise e, _ => raise e
  | query k, g => query fun s => (k s).bind g
  | peek f k, g => peek f fun r => (k r).bind g
  | lock ls k, g => lock ls fun s => (k s).bind g
  | write w p, g => write w (p.bind g)

instance : Monad (Prog S R L E) where
  pure := ret
  bind := Prog.bind

@[simp] theorem pure_eq (a : α) : (pure a : Prog S R L E α) = ret a := rfl

@[simp] theorem bind_eq (p : Prog S R L E α) (g : α → Prog S R L E β) :
    p >>= g = p.bind g := rfl

theorem bind_ret (p : Prog S R L E α) : p.bind ret = p := by
  induction p with
  | ret a => rfl
  | raise e => rfl
  | query k ih => exact congrArg query (funext ih)
  | peek f k ih => exact congrArg (peek f) (funext ih)
  | lock ls k ih => exact congrArg (lock ls) (funext ih)
  | write w p ih => exact congrArg (write w) ih

theorem bind_assoc (p : Prog S R L E α) (f : α → Prog S R L E β) (g : β → Prog S R L E γ) :
    (p.bind f).bind g = p.bind fun a => (f a).bind g := by
  induction p with
  | ret a => rfl
  | raise e => rfl
  | query k ih => exact congrArg query (funext ih)
  | peek f' k ih => exact congrArg (peek f') (funext ih)
  | lock ls k ih => exact congrArg (lock ls) (funext ih)
  | write w p ih => exact congrArg (write w) ih

/-! ## Statements -/

/-- The store as a plain statement sees it. -/
def read : Prog S R L E S := query ret

/-- Rows read without a lock and held by the session. -/
def load (f : S → R) : Prog S R L E R := peek f ret

/-- Lock the named rows and look at the store. -/
def forUpdate (ls : S → List L) : Prog S R L E S := lock ls ret

/-- Flush a write. -/
def flush (w : S → S) : Prog S R L E Unit := write w (ret ())

/-- Raise `e` unless `c` holds. -/
def ensure (c : Bool) (e : E) : Prog S R L E Unit := if c then ret () else raise e

/-! ## Alone -/

/-- What the database checks after every write. -/
structure Schema (S E : Type) where
  /-- the table constraints -/
  ok : S → Bool
  /-- the exception a violated constraint raises -/
  violation : E

variable {σ : Schema S E}

/-- Run a transaction alone. -/
def exec (σ : Schema S E) : Prog S R L E α → S → Except E (α × S)
  | ret a, s => .ok (a, s)
  | raise e, _ => .error e
  | query k, s => exec σ (k s) s
  | peek f k, s => exec σ (k (f s)) s
  | lock _ k, s => exec σ (k s) s
  | write w p, s => if σ.ok (w s) then exec σ p (w s) else .error σ.violation

@[simp] theorem exec_ret (a : α) (s : S) : exec σ (ret a : Prog S R L E α) s = .ok (a, s) := rfl

@[simp] theorem exec_raise (e : E) (s : S) : exec σ (raise e : Prog S R L E α) s = .error e := rfl

@[simp] theorem exec_query (k : S → Prog S R L E α) (s : S) :
    exec σ (query k) s = exec σ (k s) s := rfl

@[simp] theorem exec_peek (f : S → R) (k : R → Prog S R L E α) (s : S) :
    exec σ (peek f k) s = exec σ (k (f s)) s := rfl

@[simp] theorem exec_lock (ls : S → List L) (k : S → Prog S R L E α) (s : S) :
    exec σ (lock ls k) s = exec σ (k s) s := rfl

@[simp] theorem exec_write (w : S → S) (p : Prog S R L E α) (s : S) :
    exec σ (write w p) s = if σ.ok (w s) then exec σ p (w s) else .error σ.violation := rfl

/-- Sequencing runs the first program, then the second from where it left the
store. -/
theorem exec_bind (p : Prog S R L E α) (g : α → Prog S R L E β) (s : S) :
    exec σ (p.bind g) s = (exec σ p s).bind fun x => exec σ (g x.1) x.2 := by
  induction p generalizing s with
  | ret a => rfl
  | raise e => rfl
  | query k ih => exact ih s s
  | peek f k ih => exact ih (f s) s
  | lock ls k ih => exact ih s s
  | write w p ih =>
    simp only [Prog.bind, exec_write]
    split
    · exact ih (w s)
    · rfl

/-- Inversion of a successful sequence. -/
theorem exec_bind_eq_ok {p : Prog S R L E α} {g : α → Prog S R L E β} {s : S} {b : β} {s'' : S}
    (h : exec σ (p.bind g) s = .ok (b, s'')) :
    ∃ a s', exec σ p s = .ok (a, s') ∧ exec σ (g a) s' = .ok (b, s'') := by
  rw [exec_bind] at h
  rcases hp : exec σ p s with e | ⟨a, s'⟩
  · rw [hp] at h
    cases h
  · rw [hp] at h
    exact ⟨a, s', rfl, h⟩

/-- Introduction for a successful sequence. -/
theorem exec_bind_of_ok {p : Prog S R L E α} {g : α → Prog S R L E β} {s s' : S} {a : α}
    (h : exec σ p s = .ok (a, s')) : exec σ (p.bind g) s = exec σ (g a) s' := by
  rw [exec_bind, h]
  rfl

/-- An exception of the first program is the exception of the sequence. -/
theorem exec_bind_of_error {p : Prog S R L E α} {g : α → Prog S R L E β} {s : S} {e : E}
    (h : exec σ p s = .error e) : exec σ (p.bind g) s = .error e := by
  rw [exec_bind, h]
  rfl

/-- The store after the transaction has ended, by commit or by rollback. -/
def after (σ : Schema S E) (p : Prog S R L E α) (s : S) : S :=
  match exec σ p s with
  | .ok (_, s') => s'
  | .error _ => s

theorem after_of_ok {p : Prog S R L E α} {s s' : S} {a : α} (h : exec σ p s = .ok (a, s')) :
    after σ p s = s' := by
  unfold after
  rw [h]

theorem after_of_error {p : Prog S R L E α} {s : S} {e : E} (h : exec σ p s = .error e) :
    after σ p s = s := by
  unfold after
  rw [h]

/-- A transaction that ended either changed nothing or ran through. -/
theorem after_cases (σ : Schema S E) (p : Prog S R L E α) (s : S) :
    after σ p s = s ∨ ∃ a s', exec σ p s = .ok (a, s') ∧ after σ p s = s' := by
  rcases h : exec σ p s with e | ⟨a, s'⟩
  · exact Or.inl (after_of_error h)
  · exact Or.inr ⟨a, s', rfl, after_of_ok h⟩

/-- A committed transaction leaves a store that meets the constraints. -/
theorem ok_of_exec {p : Prog S R L E α} {s s' : S} {a : α} (hs : σ.ok s)
    (h : exec σ p s = .ok (a, s')) : σ.ok s' := by
  induction p generalizing s with
  | ret b =>
    obtain ⟨-, rfl⟩ := Prod.mk.inj (Except.ok.inj h)
    exact hs
  | raise e => cases h
  | query k ih => exact ih s hs h
  | peek f k ih => exact ih (f s) hs h
  | lock ls k ih => exact ih s hs h
  | write w p ih =>
    rw [exec_write] at h
    split at h
    · next hw => exact ih hw h
    · cases h

theorem ok_after {p : Prog S R L E α} {s : S} (hs : σ.ok s) : σ.ok (after σ p s) := by
  rcases after_cases σ p s with h | ⟨a, s', h, h'⟩
  · rw [h]
    exact hs
  · rw [h']
    exact ok_of_exec hs h

/-! ## Frames

A relation that every single write keeps is kept by the whole transaction. -/

/-- Every write of the program moves the store along `K`. -/
def Within (K : S → S → Prop) : Prog S R L E α → Prop
  | ret _ => True
  | raise _ => True
  | query k => ∀ s, Within K (k s)
  | peek _ k => ∀ r, Within K (k r)
  | lock _ k => ∀ s, Within K (k s)
  | write w p => (∀ s, K s (w s)) ∧ Within K p

section Within

variable {K : S → S → Prop}

@[simp] theorem within_ret (a : α) : Within K (ret a : Prog S R L E α) := trivial

@[simp] theorem within_raise (e : E) : Within K (raise e : Prog S R L E α) := trivial

@[simp] theorem within_read : Within K (read : Prog S R L E S) := fun _ => trivial

@[simp] theorem within_load (f : S → R) : Within K (load f : Prog S R L E R) := fun _ => trivial

@[simp] theorem within_forUpdate (ls : S → List L) :
    Within K (forUpdate ls : Prog S R L E S) := fun _ => trivial

theorem within_flush {w : S → S} (h : ∀ s, K s (w s)) :
    Within K (flush w : Prog S R L E Unit) := ⟨h, trivial⟩

@[simp] theorem within_ensure (c : Bool) (e : E) : Within K (ensure c e : Prog S R L E Unit) := by
  unfold ensure
  split <;> trivial

theorem Within.bind {p : Prog S R L E α} {g : α → Prog S R L E β} (hp : Within K p)
    (hg : ∀ a, Within K (g a)) : Within K (p.bind g) := by
  induction p with
  | ret a => exact hg a
  | raise e => trivial
  | query k ih => exact fun s => ih s (hp s)
  | peek f k ih => exact fun r => ih r (hp r)
  | lock ls k ih => exact fun s => ih s (hp s)
  | write w p ih => exact ⟨hp.1, ih hp.2⟩

theorem Within.exec (hrefl : ∀ s, K s s) (htrans : ∀ {a b c}, K a b → K b c → K a c)
    {p : Prog S R L E α} (hp : Within K p) {s s' : S} {a : α} (h : exec σ p s = .ok (a, s')) :
    K s s' := by
  induction p generalizing s with
  | ret b =>
    obtain ⟨-, rfl⟩ := Prod.mk.inj (Except.ok.inj h)
    exact hrefl s
  | raise e => cases h
  | query k ih => exact ih s (hp s) h
  | peek f k ih => exact ih (f s) (hp (f s)) h
  | lock ls k ih => exact ih s (hp s) h
  | write w p ih =>
    rw [exec_write] at h
    split at h
    · exact htrans (hp.1 s) (ih hp.2 h)
    · cases h

theorem Within.after (hrefl : ∀ s, K s s) (htrans : ∀ {a b c}, K a b → K b c → K a c)
    {p : Prog S R L E α} (hp : Within K p) (s : S) : K s (after σ p s) := by
  rcases after_cases σ p s with h | ⟨a, s', h, h'⟩
  · rw [h]
    exact hrefl s
  · rw [h']
    exact hp.exec hrefl htrans h

theorem Within.mono {K' : S → S → Prop} (hK : ∀ {s s'}, K s s' → K' s s') {p : Prog S R L E α}
    (h : Within K p) : Within K' p := by
  induction p with
  | ret a => trivial
  | raise e => trivial
  | query k ih => exact fun s => ih s (h s)
  | peek f k ih => exact fun r => ih r (h r)
  | lock ls k ih => exact fun s => ih s (h s)
  | write w p ih => exact ⟨fun s => hK (h.1 s), ih h.2⟩

/-- The program leaves the store as it is. -/
def ReadOnly (p : Prog S R L E α) : Prop := Within (fun s s' : S => s = s') p

theorem ReadOnly.within (hrefl : ∀ s, K s s) {p : Prog S R L E α} (h : ReadOnly p) : Within K p :=
  Within.mono (fun {s s'} (he : s = s') => by rw [← he]; exact hrefl s) h

theorem ReadOnly.exec {p : Prog S R L E α} (hp : ReadOnly p) {s s' : S} {a : α}
    (h : exec σ p s = .ok (a, s')) : s = s' :=
  Within.exec (K := fun s s' : S => s = s') (fun _ => rfl) Eq.trans hp h

end Within

/-! ## Exceptions a program cannot raise -/

/-- No branch of the program raises `e`. -/
def Avoids (e : E) : Prog S R L E α → Prop
  | ret _ => True
  | raise e' => e' ≠ e
  | query k => ∀ s, Avoids e (k s)
  | peek _ k => ∀ r, Avoids e (k r)
  | lock _ k => ∀ s, Avoids e (k s)
  | write _ p => Avoids e p

section Avoids

variable {e : E}

@[simp] theorem avoids_ret (a : α) : Avoids e (ret a : Prog S R L E α) := trivial

theorem avoids_query {k : S → Prog S R L E α} (h : ∀ s, Avoids e (k s)) : Avoids e (query k) := h

@[simp] theorem avoids_read : Avoids e (read : Prog S R L E S) := fun _ => trivial

@[simp] theorem avoids_load (f : S → R) : Avoids e (load f : Prog S R L E R) := fun _ => trivial

@[simp] theorem avoids_forUpdate (ls : S → List L) :
    Avoids e (forUpdate ls : Prog S R L E S) := fun _ => trivial

@[simp] theorem avoids_flush (w : S → S) : Avoids e (flush w : Prog S R L E Unit) := trivial

theorem avoids_ensure {e' : E} (h : e' ≠ e) (c : Bool) :
    Avoids e (ensure c e' : Prog S R L E Unit) := by
  unfold ensure
  split
  · trivial
  · exact h

theorem Avoids.bind {p : Prog S R L E α} {g : α → Prog S R L E β} (hp : Avoids e p)
    (hg : ∀ a, Avoids e (g a)) : Avoids e (p.bind g) := by
  induction p with
  | ret a => exact hg a
  | raise e' => exact hp
  | query k ih => exact fun s => ih s (hp s)
  | peek f k ih => exact fun r => ih r (hp r)
  | lock ls k ih => exact fun s => ih s (hp s)
  | write w p ih => exact ih hp

/-- An exception that is neither raised nor the violation of a constraint does
not end the transaction. -/
theorem Avoids.exec (he : σ.violation ≠ e) {p : Prog S R L E α} (hp : Avoids e p) (s : S) :
    exec σ p s ≠ .error e := by
  induction p generalizing s with
  | ret a => exact nofun
  | raise e' => exact fun h => hp (Except.error.inj h)
  | query k ih => exact ih s (hp s) s
  | peek f k ih => exact ih (f s) (hp (f s)) s
  | lock ls k ih => exact ih s (hp s) s
  | write w p ih =>
    rw [exec_write]
    split
    · exact ih hp (w s)
    · exact fun h => he (Except.error.inj h)

end Avoids

/-- The transaction does not fail on a constraint of the schema. -/
def Admitted (σ : Schema S E) (p : Prog S R L E α) (s : S) : Prop := exec σ p s ≠ .error σ.violation

theorem Admitted.bind {p : Prog S R L E α} {g : α → Prog S R L E β} {s : S} (hp : Admitted σ p s)
    (hg : ∀ a s', exec σ p s = .ok (a, s') → Admitted σ (g a) s') : Admitted σ (p.bind g) s := by
  unfold Admitted
  rw [exec_bind]
  rcases h : exec σ p s with e | ⟨a, s'⟩
  · intro he
    have hv : e = σ.violation := Except.error.inj he
    exact hp (by rw [h, hv])
  · exact hg a s' h

/-! ## Amid other transactions -/

/-- `Runs σ D p w a w'`: from pending writes `w`, `p` can run to its end with
value `a` and pending writes `w'`, each of its statements seeing some store of
`D` under its own writes. -/
def Runs (σ : Schema S E) (D : S → Prop) :
    Prog S R L E α → (S → S) → α → (S → S) → Prop
  | ret a, w, b, w' => a = b ∧ w = w'
  | raise _, _, _, _ => False
  | query k, w, b, w' => ∃ d, D d ∧ Runs σ D (k (w d)) w b w'
  | peek f k, w, b, w' => ∃ d, D d ∧ Runs σ D (k (f (w d))) w b w'
  | lock _ k, w, b, w' => ∃ d, D d ∧ Runs σ D (k (w d)) w b w'
  | write f p, w, b, w' => (∃ d, D d ∧ σ.ok (f (w d))) ∧ Runs σ D p (f ∘ w) b w'

variable {D : S → Prop} {w w' w'' : S → S}

@[simp] theorem runs_ret {a b : α} :
    Runs σ D (ret a : Prog S R L E α) w b w' ↔ a = b ∧ w = w' := Iff.rfl

@[simp] theorem runs_raise {e : E} {b : α} :
    ¬ Runs σ D (raise e : Prog S R L E α) w b w' := id

@[simp] theorem runs_query {k : S → Prog S R L E α} {b : α} :
    Runs σ D (query k) w b w' ↔ ∃ d, D d ∧ Runs σ D (k (w d)) w b w' := Iff.rfl

@[simp] theorem runs_peek {f : S → R} {k : R → Prog S R L E α} {b : α} :
    Runs σ D (peek f k) w b w' ↔ ∃ d, D d ∧ Runs σ D (k (f (w d))) w b w' := Iff.rfl

@[simp] theorem runs_lock {ls : S → List L} {k : S → Prog S R L E α} {b : α} :
    Runs σ D (lock ls k) w b w' ↔ ∃ d, D d ∧ Runs σ D (k (w d)) w b w' := Iff.rfl

@[simp] theorem runs_write {f : S → S} {p : Prog S R L E α} {b : α} :
    Runs σ D (write f p) w b w' ↔
      (∃ d, D d ∧ σ.ok (f (w d))) ∧ Runs σ D p (f ∘ w) b w' := Iff.rfl

/-- Inversion of a sequence. -/
theorem runs_bind {p : Prog S R L E α} {g : α → Prog S R L E β} {b : β} :
    Runs σ D (p.bind g) w b w'' ↔
      ∃ a w', Runs σ D p w a w' ∧ Runs σ D (g a) w' b w'' := by
  induction p generalizing w with
  | ret a =>
    constructor
    · intro h
      exact ⟨a, w, ⟨rfl, rfl⟩, h⟩
    · rintro ⟨a', w', ⟨rfl, rfl⟩, h⟩
      exact h
  | raise e =>
    constructor
    · intro h
      exact h.elim
    · rintro ⟨a', w', h, -⟩
      exact h.elim
  | query k ih =>
    constructor
    · rintro ⟨d, hd, h⟩
      obtain ⟨a, w', h₁, h₂⟩ := (ih (w d)).mp h
      exact ⟨a, w', ⟨d, hd, h₁⟩, h₂⟩
    · rintro ⟨a, w', ⟨d, hd, h₁⟩, h₂⟩
      exact ⟨d, hd, (ih (w d)).mpr ⟨a, w', h₁, h₂⟩⟩
  | peek f k ih =>
    constructor
    · rintro ⟨d, hd, h⟩
      obtain ⟨a, w', h₁, h₂⟩ := (ih (f (w d))).mp h
      exact ⟨a, w', ⟨d, hd, h₁⟩, h₂⟩
    · rintro ⟨a, w', ⟨d, hd, h₁⟩, h₂⟩
      exact ⟨d, hd, (ih (f (w d))).mpr ⟨a, w', h₁, h₂⟩⟩
  | lock ls k ih =>
    constructor
    · rintro ⟨d, hd, h⟩
      obtain ⟨a, w', h₁, h₂⟩ := (ih (w d)).mp h
      exact ⟨a, w', ⟨d, hd, h₁⟩, h₂⟩
    · rintro ⟨a, w', ⟨d, hd, h₁⟩, h₂⟩
      exact ⟨d, hd, (ih (w d)).mpr ⟨a, w', h₁, h₂⟩⟩
  | write f p ih =>
    constructor
    · rintro ⟨hok, h⟩
      obtain ⟨a, w', h₁, h₂⟩ := ih.mp h
      exact ⟨a, w', ⟨hok, h₁⟩, h₂⟩
    · rintro ⟨a, w', ⟨hok, h₁⟩, h₂⟩
      exact ⟨hok, ih.mpr ⟨a, w', h₁, h₂⟩⟩

/-- Running alone is running over a single store. -/
theorem runs_of_exec {p : Prog S R L E α} {s s' : S} {a : α}
    (h : exec σ p (w s) = .ok (a, s')) :
    ∃ w', Runs σ (· = s) p w a w' ∧ s' = w' s := by
  induction p generalizing w with
  | ret b =>
    obtain ⟨rfl, rfl⟩ := Prod.mk.inj (Except.ok.inj h)
    exact ⟨w, ⟨rfl, rfl⟩, rfl⟩
  | raise e => cases h
  | query k ih =>
    obtain ⟨w', hr, hs⟩ := ih (w s) h
    exact ⟨w', ⟨s, rfl, hr⟩, hs⟩
  | peek f k ih =>
    obtain ⟨w', hr, hs⟩ := ih (f (w s)) h
    exact ⟨w', ⟨s, rfl, hr⟩, hs⟩
  | lock ls k ih =>
    obtain ⟨w', hr, hs⟩ := ih (w s) h
    exact ⟨w', ⟨s, rfl, hr⟩, hs⟩
  | write f p ih =>
    rw [exec_write] at h
    split at h
    · next hok =>
      obtain ⟨w', hr, hs⟩ := ih (w := f ∘ w) h
      exact ⟨w', ⟨⟨s, rfl, hok⟩, hr⟩, hs⟩
    · cases h

theorem runs_read {s : S} :
    Runs σ D (read : Prog S R L E S) w s w' ↔ ∃ d, D d ∧ w d = s ∧ w = w' := Iff.rfl

theorem runs_load {f : S → R} {r : R} :
    Runs σ D (load f : Prog S R L E R) w r w' ↔ ∃ d, D d ∧ f (w d) = r ∧ w = w' := Iff.rfl

theorem runs_forUpdate {ls : S → List L} {s : S} :
    Runs σ D (forUpdate ls : Prog S R L E S) w s w' ↔ ∃ d, D d ∧ w d = s ∧ w = w' := Iff.rfl

theorem runs_flush {f : S → S} {u : Unit} :
    Runs σ D (flush f : Prog S R L E Unit) w u w' ↔ (∃ d, D d ∧ σ.ok (f (w d))) ∧ f ∘ w = w' :=
  ⟨fun h => ⟨h.1, h.2.2⟩, fun h => ⟨h.1, rfl, h.2⟩⟩

theorem runs_ensure {c : Bool} {e : E} {u : Unit} :
    Runs σ D (ensure c e : Prog S R L E Unit) w u w' ↔ c = true ∧ w = w' := by
  cases c with
  | false => exact ⟨fun h => h.elim, fun h => nomatch h.1⟩
  | true => exact ⟨fun h => ⟨rfl, h.2⟩, fun h => ⟨rfl, h.2⟩⟩

/-- More stores to see allow more runs. -/
theorem Runs.mono {D' : S → Prop} (hD : ∀ d, D d → D' d) {p : Prog S R L E α} {a : α}
    (h : Runs σ D p w a w') : Runs σ D' p w a w' := by
  induction p generalizing w with
  | ret b => exact h
  | raise e => exact h
  | query k ih =>
    obtain ⟨d, hd, h⟩ := h
    exact ⟨d, hD d hd, ih _ h⟩
  | peek f k ih =>
    obtain ⟨d, hd, h⟩ := h
    exact ⟨d, hD d hd, ih _ h⟩
  | lock ls k ih =>
    obtain ⟨d, hd, h⟩ := h
    exact ⟨d, hD d hd, ih _ h⟩
  | write f p ih =>
    obtain ⟨⟨d, hd, hok⟩, h⟩ := h
    exact ⟨⟨d, hD d hd, hok⟩, ih h⟩

/-- The pending writes of a framed program stay within the frame. -/
theorem Within.runs {K : S → S → Prop} (hrefl : ∀ s, K s s)
    (htrans : ∀ {a b c}, K a b → K b c → K a c) {p : Prog S R L E α} (hp : Within K p) {a : α}
    (h : Runs σ D p w a w') (d : S) : K (w d) (w' d) := by
  induction p generalizing w with
  | ret b =>
    obtain ⟨-, rfl⟩ := h
    exact hrefl _
  | raise e => exact h.elim
  | query k ih =>
    obtain ⟨s, -, h⟩ := h
    exact ih _ (hp _) h
  | peek f k ih =>
    obtain ⟨s, -, h⟩ := h
    exact ih _ (hp _) h
  | lock ls k ih =>
    obtain ⟨s, -, h⟩ := h
    exact ih _ (hp _) h
  | write f p ih => exact htrans (hp.1 (w d)) (ih hp.2 h.2)

theorem ReadOnly.runs {p : Prog S R L E α} (hp : ReadOnly p) {a : α} (h : Runs σ D p w a w') :
    w = w' :=
  funext (Within.runs (K := fun s s' : S => s = s') (fun _ => rfl) Eq.trans hp h)

end Prog

/-! ## Runs of a system

A system takes one committed transaction after another. `Reaches C s₀ s`: some
run from `s₀` whose every step meets the condition `C` ends in `s`. -/

section Reach

variable {S O : Type} {next : S → O → S} {C : S → O → Prop} {s₀ s : S}

/-- Reachability by steps that meet `C`. -/
inductive Reaches (next : S → O → S) (C : S → O → Prop) (s₀ : S) : S → Prop where
  /-- the empty run -/
  | start : Reaches next C s₀ s₀
  /-- one step more -/
  | step {s : S} (o : O) : Reaches next C s₀ s → C s o → Reaches next C s₀ (next s o)

/-- What holds at the start and is kept by every step holds wherever a run
ends. -/
theorem Reaches.invariant {I : S → Prop} (h : Reaches next C s₀ s) (h₀ : I s₀)
    (hstep : ∀ s o, I s → C s o → I (next s o)) : I s := by
  induction h with
  | start => exact h₀
  | step o _ hC ih => exact hstep _ o ih hC

/-- A list of steps that always meet `C` is a run. -/
theorem Reaches.foldl (h : Reaches next C s₀ s) :
    ∀ {l : List O}, (∀ s, ∀ o ∈ l, C s o) → Reaches next C s₀ (l.foldl next s) := by
  intro l
  induction l generalizing s with
  | nil => intro _; exact h
  | cons o l ih =>
    intro hl
    exact ih (h.step o (hl s o List.mem_cons_self)) fun s o' ho' =>
      hl s o' (List.mem_cons_of_mem _ ho')

/-- Runs compose. -/
theorem Reaches.trans {s₁ s₂ : S} (h₁ : Reaches next C s₀ s₁) (h₂ : Reaches next C s₁ s₂) :
    Reaches next C s₀ s₂ := by
  induction h₂ with
  | start => exact h₁
  | step o _ hC ih => exact ih.step o hC

end Reach

end Relational
