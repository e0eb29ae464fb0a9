import Mathlib.Logic.Relation
import Mathlib.Tactic.Common

/-!
# Faults: a session whose calls may fail

One session of a database that others use as well. Before each of its calls the others may
commit, within what the session has locked and written so far; the call may then raise, and
a call that raises may have been carried out all the same. That goes for COMMIT too, so a
session whose COMMIT has raised does not know what the database holds.

A program is a `Session`: a function of the `World` that leaves a world whether it returns
or raises. `Ends` is its postcondition, with a rule for each way to put programs together.
-/

namespace Faults

universe u

/-- The database beside a session: what the others may commit while the session holds these
locks and has these writes pending, and the exceptions that a call may raise. -/
structure Service (κ σ ε : Type) where
  /-- no locks -/
  free : κ
  Step : κ → (σ → σ) → σ → σ → Prop
  Fault : ε → Prop

variable {κ σ ε ν : Type}

/-- Any number of commits of the others. -/
def Service.Others (S : Service κ σ ε) (held : κ) (own : σ → σ) : σ → σ → Prop :=
  Relation.ReflTransGen (S.Step held own)

/-- What becomes of one call. -/
structure Fate (S : Service κ σ ε) where
  /-- what the others commit before it -/
  others : κ → (σ → σ) → σ → σ
  allowed : ∀ held own s, S.Others held own s (others held own s)
  raises : Option ε
  fault : ∀ e ∈ raises, S.Fault e
  /-- whether it is carried out although it raises -/
  landed : Bool

/-- What the statements of a transaction see: each the newest commits, or all of them what
the first one saw. -/
inductive Isolation (σ : Type) where
  | readCommitted
  | repeatableRead (seen : Option σ)

/-- The database, the open transaction, and the variables `vars` of the program. -/
structure World (S : Service κ σ ε) (ν : Type) where
  committed : σ
  /-- the writes of the transaction -/
  own : σ → σ
  held : κ
  isolation : Isolation σ
  vars : ν
  fates : ℕ → Fate S

variable {S : Service κ σ ε}

namespace World

/-- The others have had their turn. -/
def turn (w : World S ν) : World S ν :=
  { w with
    committed := (w.fates 0).others w.held w.own w.committed
    fates := fun n => w.fates (n + 1) }

/-- No transaction is open. -/
def idle (w : World S ν) : World S ν :=
  { w with own := id, held := S.free, isolation := .readCommitted }

/-- What a statement sees. -/
def view (w : World S ν) : σ :=
  match w.isolation with
  | .readCommitted | .repeatableRead none => w.own w.committed
  | .repeatableRead (some seen) => w.own seen

/-- The first statement of a transaction fixes what it sees. -/
def look (w : World S ν) : World S ν :=
  match w.isolation with
  | .repeatableRead none => { w with isolation := .repeatableRead (some w.committed) }
  | _ => w

/-- Any other statement sees what it saw. -/
theorem look_eq_self {w : World S ν} (h : w.isolation ≠ .repeatableRead none) : w.look = w := by
  rw [look]
  split
  · next heq => exact absurd heq h
  · rfl

end World

/-- From a world to a world and a result. -/
def Session (S : Service κ σ ε) (ν α : Type) : Type := World S ν → World S ν × Except ε α

namespace Session

variable {α β : Type}

instance : Monad (Session S ν) where
  pure a := fun w => (w, .ok a)
  bind m f := fun w =>
    match (m w).2 with
    | .ok a => f a (m w).1
    | .error e => ((m w).1, .error e)

instance : MonadExceptOf ε (Session S ν) where
  throw e := fun w => (w, .error e)
  tryCatch m c := fun w =>
    match (m w).2 with
    | .ok a => ((m w).1, .ok a)
    | .error e => c e (m w).1

/-- `finally`: what it raises takes the place of the result. -/
def andFinally (m : Session S ν α) (c : Session S ν Unit) : Session S ν α := fun w =>
  match (c (m w).1).2 with
  | .ok _ => ((c (m w).1).1, (m w).2)
  | .error e => ((c (m w).1).1, .error e)

/-! ## Calls -/

/-- A call, which does `f` if nothing goes wrong. -/
def call (f : World S ν → World S ν × Except ε α) : Session S ν α := fun w =>
  match (w.fates 0).raises with
  | none => f w.turn
  | some e => (if (w.fates 0).landed then (f w.turn).1 else w.turn, .error e)

/-- `SELECT` -/
def read (f : σ → Except ε α) : Session S ν α := call fun w => (w.look, f w.view)

/-- `INSERT`, `UPDATE` and `DELETE`, with their answer -/
def write (f : σ → Except ε (α × (σ → σ))) : Session S ν α :=
  call fun w =>
    match f w.view with
    | .ok (a, g) => ({ w.look with own := g ∘ w.own }, .ok a)
    | .error e => (w.look, .error e)

/-- `LOCK TABLE` -/
def acquire (held : κ) : Session S ν Unit := call fun w => ({ w with held }, .ok ())

/-- `BEGIN` -/
def begin (isolation : Isolation σ) : Session S ν Unit :=
  call fun w => ({ w.idle with isolation }, .ok ())

/-- `COMMIT` -/
def commit : Session S ν Unit :=
  call fun w => ({ w with committed := w.own w.committed }.idle, .ok ())

/-- `ROLLBACK`, and the end of a connection -/
def rollback : Session S ν Unit := call fun w => (w.idle, .ok ())

/-- A new connection has no transaction. -/
def connect : Session S ν Unit := fun w => (w.idle, .ok ())

/-- A result that is already there. -/
def lift (r : Except ε α) : Session S ν α := fun w => (w, r)

/-- An assignment. -/
def assign (f : ν → ν) : Session S ν Unit := fun w => ({ w with vars := f w.vars }, .ok ())

/-- The variables. -/
def vars : Session S ν ν := fun w => (w, .ok w.vars)

/-! ## Postconditions -/

/-- The world that `m` leaves and its result satisfy `Q`. -/
@[irreducible]
def Ends (m : Session S ν α) (w : World S ν) (Q : World S ν → Except ε α → Prop) : Prop :=
  Q (m w).1 (m w).2

variable {w w' : World S ν} {Q Q' : World S ν → Except ε α → Prop}

theorem ends_iff {m : Session S ν α} : m.Ends w Q ↔ Q (m w).1 (m w).2 := by rw [Ends]

theorem Ends.mono {m : Session S ν α} (h : m.Ends w Q) (hQ : ∀ w' r, Q w' r → Q' w' r) :
    m.Ends w Q' := ends_iff.mpr (hQ _ _ (ends_iff.mp h))

theorem ends_pure {a : α} (h : Q w (.ok a)) : (pure a : Session S ν α).Ends w Q := ends_iff.mpr h

theorem ends_throw {e : ε} (h : Q w (.error e)) : (throw e : Session S ν α).Ends w Q :=
  ends_iff.mpr h

theorem ends_lift {r : Except ε α} (h : Q w r) : (lift r : Session S ν α).Ends w Q :=
  ends_iff.mpr h

theorem ends_vars {Q : World S ν → Except ε ν → Prop} (h : Q w (.ok w.vars)) :
    (vars : Session S ν ν).Ends w Q := ends_iff.mpr h

theorem ends_assign {Q : World S ν → Except ε Unit → Prop} {f : ν → ν}
    (h : Q { w with vars := f w.vars } (.ok ())) : (assign f : Session S ν Unit).Ends w Q :=
  ends_iff.mpr h

theorem ends_connect {Q : World S ν → Except ε Unit → Prop} (h : Q w.idle (.ok ())) :
    (connect : Session S ν Unit).Ends w Q := ends_iff.mpr h

/-- In sequence: an exception ends it. -/
theorem ends_bind {m : Session S ν β} {f : β → Session S ν α}
    (h : m.Ends w fun w' r =>
      match r with
      | .ok b => (f b).Ends w' Q
      | .error e => Q w' (.error e)) :
    (m >>= f).Ends w Q := by
  rw [ends_iff] at h ⊢
  simp only [ends_iff, bind] at h ⊢
  cases hr : (m w).2 with
  | ok b =>
    rw [hr] at h
    exact h
  | error e =>
    rw [hr] at h
    exact h

/-- With a handler: a result passes, and an exception goes on with the handler. -/
theorem ends_catch {m : Session S ν α} {c : ε → Session S ν α}
    (h : m.Ends w fun w' r =>
      match r with
      | .ok a => Q w' (.ok a)
      | .error e => (c e).Ends w' Q) :
    (tryCatch m c).Ends w Q := by
  rw [ends_iff] at h ⊢
  simp only [ends_iff, tryCatch, tryCatchThe, MonadExceptOf.tryCatch] at h ⊢
  cases hr : (m w).2 with
  | ok a =>
    rw [hr] at h
    exact h
  | error e =>
    rw [hr] at h
    exact h

/-- With a final part, which runs either way. -/
theorem ends_finally {m : Session S ν α} {c : Session S ν Unit}
    (h : m.Ends w fun w' r => c.Ends w' fun w'' r' =>
      match r' with
      | .ok _ => Q w'' r
      | .error e => Q w'' (.error e)) :
    (m.andFinally c).Ends w Q := by
  rw [ends_iff] at h ⊢
  simp only [ends_iff, andFinally] at h ⊢
  cases hr : (c (m w).1).2 with
  | ok u =>
    rw [hr] at h
    exact h
  | error e =>
    rw [hr] at h
    exact h

/-- A world after the turn of the others. -/
structure Turned (w w' : World S ν) : Prop where
  others : S.Others w.held w.own w.committed w'.committed
  own : w'.own = w.own
  held : w'.held = w.held
  isolation : w'.isolation = w.isolation
  vars : w'.vars = w.vars

theorem turned_turn (w : World S ν) : Turned w w.turn where
  others := (w.fates 0).allowed w.held w.own w.committed
  own := rfl
  held := rfl
  isolation := rfl
  vars := rfl

/-- A call raises a fault before or after it is carried out, or ends as it should. -/
theorem ends_call {f : World S ν → World S ν × Except ε α}
    (h : ∀ w', Turned w w' →
      (∀ e, S.Fault e → Q w' (.error e) ∧ Q (f w').1 (.error e)) ∧ Q (f w').1 (f w').2) :
    (call f).Ends w Q := by
  obtain ⟨hfault, hok⟩ := h w.turn (turned_turn w)
  rw [ends_iff, call]
  rcases hr : (w.fates 0).raises with _ | e
  · exact hok
  · obtain ⟨hlost, hlanded⟩ := hfault e ((w.fates 0).fault e hr)
    cases (w.fates 0).landed with
    | false => exact hlost
    | true => exact hlanded

/-! ## Rules for the calls -/

theorem ends_read {f : σ → Except ε α}
    (h : ∀ w', Turned w w' → (∀ e, S.Fault e → Q w' (.error e) ∧ Q w'.look (.error e)) ∧
      Q w'.look (f w'.view)) : (read f).Ends w Q := ends_call h

/-- Any statement but the first one of a snapshot. -/
theorem ends_read_settled {f : σ → Except ε α} (hw : w.isolation ≠ .repeatableRead none) :
    (read f).Ends w fun w' r =>
      Turned w w' ∧ (r = f w'.view ∨ ∃ e, r = .error e ∧ S.Fault e) := by
  refine ends_read fun w' hw' => ?_
  rw [World.look_eq_self (hw'.isolation ▸ hw)]
  exact ⟨fun e he => ⟨⟨hw', .inr ⟨e, rfl, he⟩⟩, hw', .inr ⟨e, rfl, he⟩⟩, hw', .inl rfl⟩

theorem ends_write {f : σ → Except ε (α × (σ → σ))}
    (h : ∀ w', Turned w w' →
      match f w'.view with
      | .ok (a, g) => (∀ e, S.Fault e → Q w' (.error e) ∧
          Q { w'.look with own := g ∘ w'.own } (.error e)) ∧
        Q { w'.look with own := g ∘ w'.own } (.ok a)
      | .error e => (∀ e, S.Fault e → Q w' (.error e) ∧ Q w'.look (.error e)) ∧
        Q w'.look (.error e)) :
    (write f).Ends w Q := by
  refine ends_call fun w' hw' => ?_
  have hw := h w' hw'
  rcases hf : f w'.view with e | ⟨a, g⟩
  · rw [hf] at hw
    exact hw
  · rw [hf] at hw
    exact hw

theorem ends_commit {Q : World S ν → Except ε Unit → Prop}
    (h : ∀ w', Turned w w' → (∀ e, S.Fault e → Q w' (.error e) ∧
        Q { w' with committed := w'.own w'.committed }.idle (.error e)) ∧
      Q { w' with committed := w'.own w'.committed }.idle (.ok ())) : commit.Ends w Q := ends_call h

/-- In a loop: `I` of what has been gone over and of the variable of the loop. -/
theorem ends_foldlM {γ : Type} {f : β → γ → Session S ν β} {I : List γ → β → World S ν → Prop}
    {E : ε → World S ν → Prop} {l : List γ}
    (hstep : ∀ done a rest b w, done ++ a :: rest = l → I done b w → (f b a).Ends w fun w' r =>
      match r with
      | .ok b' => I (done ++ [a]) b' w'
      | .error e => E e w')
    {b : β} {w : World S ν} (h : I [] b w) :
    (l.foldlM f b).Ends w fun w' r =>
      match r with
      | .ok b' => I l b' w'
      | .error e => E e w' := by
  suffices hrest : ∀ rest done b w, done ++ rest = l → I done b w →
      (rest.foldlM f b).Ends w fun w' r =>
        match r with
        | .ok b' => I l b' w'
        | .error e => E e w' from hrest l [] b w rfl h
  intro rest
  induction rest with
  | nil =>
    intro done b w hl hI
    refine ends_pure ?_
    rwa [← hl, List.append_nil]
  | cons a rest ih =>
    intro done b w hl hI
    rw [List.foldlM_cons]
    refine ends_bind ((hstep done a rest b w hl hI).mono fun w' r hw' => ?_)
    cases r with
    | ok b' => exact ih (done ++ [a]) b' w' (by rw [List.append_assoc, ← hl]; rfl) hw'
    | error e => exact hw'

/-! ## Meanwhile -/

/-- Commits of the others, whatever the session holds. -/
def Meanwhile (S : Service κ σ ε) : σ → σ → Prop :=
  Relation.ReflTransGen fun s s' => ∃ held own, S.Step held own s s'

theorem meanwhile_of_others {held : κ} {own : σ → σ} {s s' : σ} (h : S.Others held own s s') :
    Meanwhile S s s' :=
  Relation.ReflTransGen.mono (fun _ _ hstep => ⟨_, _, hstep⟩) _ _ h

theorem Turned.meanwhile (h : Turned w w') : Meanwhile S w.committed w'.committed :=
  meanwhile_of_others h.others

/-- A rollback ends as it should, or fails. -/
theorem ends_rollback (w : World S ν) : (rollback : Session S ν Unit).Ends w fun w' r =>
    Meanwhile S w.committed w'.committed ∧ w'.vars = w.vars ∧
      (r = .ok () ∨ ∃ e, r = .error e ∧ S.Fault e) := by
  refine ends_call fun w' hw' => ?_
  exact ⟨fun e he => ⟨⟨hw'.meanwhile, hw'.vars, .inr ⟨e, rfl, he⟩⟩,
    hw'.meanwhile, hw'.vars, .inr ⟨e, rfl, he⟩⟩, hw'.meanwhile, hw'.vars, .inl rfl⟩

end Session

end Faults
