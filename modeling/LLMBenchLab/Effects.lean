import Mathlib.Tactic.Common

/-!
# Effects: calls to an environment that may raise

A computation talks to its environment by calls. It sees nothing but the answers,
and an answer may depend on everything that happened before; a call that fails
raises. `Act` computes the calls made and how the computation ends, for one
environment. `Emits` is the postcondition of both, with a rule for each way to put
computations together.
-/

namespace Effects

variable {ι ε α β : Type}

/-- From the history so far to the calls made and the result. -/
def Act (ι ε α : Type) : Type := List ι → List ι × Except ε α

namespace Act

instance : Monad (Act ι ε) where
  pure a := fun _ => ([], .ok a)
  bind m f := fun h =>
    match (m h).2 with
    | .error e => ((m h).1, .error e)
    | .ok a => ((m h).1 ++ (f a (h ++ (m h).1)).1, (f a (h ++ (m h).1)).2)

instance : MonadExceptOf ε (Act ι ε) where
  throw e := fun _ => ([], .error e)
  tryCatch m c := fun h =>
    match (m h).2 with
    | .ok a => ((m h).1, .ok a)
    | .error e => ((m h).1 ++ (c e (h ++ (m h).1)).1, (c e (h ++ (m h).1)).2)

/-- A call: the history gives the answer, and the call with its answer joins the
history. -/
def call (event : Except ε α → ι) (ask : List ι → Except ε α) : Act ι ε α :=
  fun h => ([event (ask h)], ask h)

/-- A call that leaves no trace. -/
def ask (answer : List ι → Except ε α) : Act ι ε α := fun h => ([], answer h)

/-- A result that is already there. -/
def lift (r : Except ε α) : Act ι ε α := fun _ => ([], r)

/-- Whatever the history, the calls made and the result satisfy `P`. -/
def Emits (m : Act ι ε α) (P : List ι → Except ε α → Prop) : Prop := ∀ h, P (m h).1 (m h).2

variable {P : List ι → Except ε β → Prop}

theorem emits_pure {b : β} (h : P [] (.ok b)) : Emits (pure b : Act ι ε β) P := fun _ => h

theorem emits_throw {e : ε} (h : P [] (.error e)) : Emits (throw e : Act ι ε β) P := fun _ => h

theorem emits_lift {r : Except ε β} (h : P [] r) : Emits (lift r : Act ι ε β) P := fun _ => h

theorem emits_call {event : Except ε β → ι} {ask : List ι → Except ε β}
    (h : ∀ r, P [event r] r) : (call event ask).Emits P := fun _ => h _

theorem emits_ask {answer : List ι → Except ε β} (h : ∀ r, P [] r) : (ask answer).Emits P :=
  fun _ => h _

/-- In sequence: a failure ends it, and what follows adds its calls. -/
theorem emits_bind {m : Act ι ε α} {f : α → Act ι ε β}
    (h : m.Emits fun t r =>
      match r with
      | .error e => P t (.error e)
      | .ok a => (f a).Emits fun t' r' => P (t ++ t') r') :
    (m >>= f).Emits P := by
  intro history
  have hm := h history
  simp only [bind]
  cases hr : (m history).2 with
  | error e =>
    rw [hr] at hm
    exact hm
  | ok a =>
    rw [hr] at hm
    exact hm _

/-- With a handler: a result passes, and a failure goes on with the handler. -/
theorem emits_catch {m : Act ι ε β} {c : ε → Act ι ε β}
    (h : m.Emits fun t r =>
      match r with
      | .ok b => P t (.ok b)
      | .error e => (c e).Emits fun t' r' => P (t ++ t') r') :
    (tryCatch m c).Emits P := by
  intro history
  have hm := h history
  simp only [tryCatch, tryCatchThe, MonadExceptOf.tryCatch]
  cases hr : (m history).2 with
  | ok b =>
    rw [hr] at hm
    exact hm
  | error e =>
    rw [hr] at hm
    exact hm _

theorem Emits.mono {m : Act ι ε β} {Q : List ι → Except ε β → Prop} (h : m.Emits P)
    (hPQ : ∀ t r, P t r → Q t r) : m.Emits Q := fun history => hPQ _ _ (h history)

end Act

end Effects
