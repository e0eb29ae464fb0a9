import Mathlib.Data.List.Basic
import Mathlib.Algebra.Group.Nat.Defs

/-!
# Codes that can be read back

A writer is a `PrefixCode` if what it has written can be cut off the front of a longer
text in one way only. Prefix codes compose: one behind the other, in a list that a
terminator closes, and in a list of pieces none of which is empty. Pieces of one length
are a prefix code as soon as they tell values apart; `places` writes a number in a fixed
number of digits and is the case that is used most.
-/

namespace Codes

variable {α β : Type} {P : α → Prop} {w : α → List β}

/-- Values with the property are read back from the front of a text. -/
def PrefixCode (P : α → Prop) (w : α → List β) : Prop :=
  ∀ ⦃a b : α⦄, P a → P b → ∀ ⦃x y : List β⦄, w a ++ x = w b ++ y → a = b ∧ x = y

namespace PrefixCode

theorem injOn (h : PrefixCode P w) {a b : α} (ha : P a) (hb : P b) (hw : w a = w b) : a = b :=
  (h ha hb (congrArg (· ++ []) hw)).1

/-- Pieces of one length. -/
theorem of_length {k : ℕ} (hlen : ∀ a, P a → (w a).length = k)
    (hinj : ∀ a b, P a → P b → w a = w b → a = b) : PrefixCode P w := by
  intro a b ha hb x y hw
  obtain ⟨hpiece, hrest⟩ := List.append_inj hw ((hlen a ha).trans (hlen b hb).symm)
  exact ⟨hinj a b ha hb hpiece, hrest⟩

/-- A list of values that a terminator closes, with which no value begins. -/
theorem terminated (h : PrefixCode P w) {stop : β}
    (hstop : ∀ a, P a → ∃ c s, w a = c :: s ∧ c ≠ stop) :
    PrefixCode (fun l : List α => ∀ a ∈ l, P a) fun l => l.flatMap w ++ [stop] := by
  intro l
  induction l with
  | nil =>
    intro l' _ hl' x y hw
    cases l' with
    | nil => exact ⟨rfl, (List.cons.inj hw).2⟩
    | cons b l' =>
      obtain ⟨c, s, hb, hc⟩ := hstop b (hl' b List.mem_cons_self)
      simp only [List.flatMap_nil, List.flatMap_cons, hb, List.nil_append, List.cons_append] at hw
      exact absurd (List.cons.inj hw).1.symm hc
  | cons a l ih =>
    intro l' hl hl' x y hw
    have ha := hl a List.mem_cons_self
    cases l' with
    | nil =>
      obtain ⟨c, s, hb, hc⟩ := hstop a ha
      simp only [List.flatMap_nil, List.flatMap_cons, hb, List.nil_append, List.cons_append] at hw
      exact absurd (List.cons.inj hw).1 hc
    | cons b l' =>
      simp only [List.flatMap_cons, List.append_assoc] at hw ih
      obtain ⟨rfl, hrest⟩ := h ha (hl' b List.mem_cons_self) hw
      obtain ⟨rfl, hxy⟩ := ih (fun c hc => hl c (List.mem_cons_of_mem _ hc))
        (fun c hc => hl' c (List.mem_cons_of_mem _ hc)) hrest
      exact ⟨rfl, hxy⟩

/-- A list of values that are not empty, up to the end of the text. -/
theorem flatMap_inj (h : PrefixCode P w) (hne : ∀ a, P a → w a ≠ []) :
    ∀ {l l' : List α}, (∀ a ∈ l, P a) → (∀ a ∈ l', P a) → l.flatMap w = l'.flatMap w → l = l' := by
  intro l
  induction l with
  | nil =>
    intro l' _ hl' hw
    cases l' with
    | nil => rfl
    | cons b l' =>
      rw [List.flatMap_nil, List.flatMap_cons] at hw
      exact absurd (List.append_eq_nil_iff.mp hw.symm).1 (hne b (hl' b List.mem_cons_self))
  | cons a l ih =>
    intro l' hl hl' hw
    cases l' with
    | nil =>
      rw [List.flatMap_nil, List.flatMap_cons] at hw
      exact absurd (List.append_eq_nil_iff.mp hw).1 (hne a (hl a List.mem_cons_self))
    | cons b l' =>
      rw [List.flatMap_cons, List.flatMap_cons] at hw
      obtain ⟨rfl, hrest⟩ := h (hl a List.mem_cons_self) (hl' b List.mem_cons_self) hw
      rw [ih (fun c hc => hl c (List.mem_cons_of_mem _ hc))
        (fun c hc => hl' c (List.mem_cons_of_mem _ hc)) hrest]

end PrefixCode

/-! ## Numbers in a fixed number of places -/

/-- The last `k` digits of `n` in base `b`. -/
def places (b : ℕ) : ℕ → ℕ → List ℕ
  | 0, _ => []
  | k + 1, n => places b k (n / b) ++ [n % b]

@[simp] theorem length_places (b k n : ℕ) : (places b k n).length = k := by
  induction k generalizing n with
  | zero => rfl
  | succ k ih => rw [places, List.length_append, ih, List.length_singleton]

theorem lt_of_mem_places {b k n d : ℕ} (hb : 0 < b) (h : d ∈ places b k n) : d < b := by
  induction k generalizing n with
  | zero => cases h
  | succ k ih =>
    rw [places, List.mem_append, List.mem_singleton] at h
    rcases h with h | rfl
    · exact ih h
    · exact Nat.mod_lt _ hb

/-- A number that has no more places is read from them, with `f` for the digits. -/
theorem places_inj {b k n m : ℕ} {f : ℕ → β} (hb : 0 < b)
    (hf : ∀ i j, i < b → j < b → f i = f j → i = j) (hn : n < b ^ k) (hm : m < b ^ k)
    (h : (places b k n).map f = (places b k m).map f) : n = m := by
  induction k generalizing n m with
  | zero =>
    rw [Nat.pow_zero] at hn hm
    omega
  | succ k ih =>
    rw [Nat.pow_succ] at hn hm
    rw [places, places, List.map_append, List.map_append] at h
    obtain ⟨hinit, hlast⟩ := List.append_inj' h rfl
    have hmod : n % b = m % b :=
      hf _ _ (Nat.mod_lt n hb) (Nat.mod_lt m hb) (List.cons.inj hlast).1
    have hdiv : n / b = m / b :=
      ih (Nat.div_lt_of_lt_mul (Nat.mul_comm _ b ▸ hn))
        (Nat.div_lt_of_lt_mul (Nat.mul_comm _ b ▸ hm)) hinit
    rw [← Nat.div_add_mod n b, hdiv, hmod, Nat.div_add_mod]

theorem prefixCode_places {b k : ℕ} {f : ℕ → β} (hb : 0 < b)
    (hf : ∀ i j, i < b → j < b → f i = f j → i = j) :
    PrefixCode (· < b ^ k) fun n => (places b k n).map f := by
  have hlen : ∀ n, n < b ^ k → ((places b k n).map f).length = k := by simp
  exact .of_length hlen fun n m hn hm h => places_inj hb hf hn hm h

end Codes
