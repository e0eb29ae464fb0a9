import Mathlib.Data.List.Basic

/-!
# Traces

A system that is a relation between states, with a label on every step. A `Trace` is a
run with the labels in the order of their steps. `Trace.kept_or_met` is the rule for what a
system owes: an obligation that each step either keeps open or meets is open at the end
of every trace, or one of its labels has met it.
-/

namespace Relational

variable {S L : Type} {step : S → L → S → Prop} {s t u : S} {ls ms : List L}

/-- The run from one state to another by steps with these labels. -/
inductive Trace (step : S → L → S → Prop) : S → List L → S → Prop where
  | nil (s : S) : Trace step s [] s
  | cons {s t u : S} {l : L} {ls : List L} :
      step s l t → Trace step t ls u → Trace step s (l :: ls) u

namespace Trace

theorem append (h : Trace step s ls t) (h' : Trace step t ms u) : Trace step s (ls ++ ms) u := by
  induction h with
  | nil s => exact h'
  | cons hl _ ih => exact .cons hl (ih h')

theorem snoc {l : L} (h : Trace step s ls t) (hl : step t l u) : Trace step s (ls ++ [l]) u :=
  h.append (.cons hl (.nil u))

/-- What every step keeps holds wherever a trace ends. -/
theorem invariant {I : S → Prop} (hstep : ∀ s l t, step s l t → I s → I t)
    (h : Trace step s ls t) (hs : I s) : I t := by
  induction h with
  | nil s => exact hs
  | cons hl _ ih => exact ih (hstep _ _ _ hl hs)

/-- An obligation that every step keeps open or meets. -/
theorem kept_or_met {K : S → Prop} {D : L → Prop} (hstep : ∀ s l t, step s l t → K s → K t ∨ D l)
    (h : Trace step s ls t) (hs : K s) : K t ∨ ∃ l ∈ ls, D l := by
  induction h with
  | nil s => exact Or.inl hs
  | cons hl _ ih =>
    rcases hstep _ _ _ hl hs with hk | hd
    · refine (ih hk).imp_right ?_
      rintro ⟨m, hm, hd⟩
      exact ⟨m, List.mem_cons_of_mem _ hm, hd⟩
    · exact Or.inr ⟨_, List.mem_cons_self, hd⟩

end Trace

end Relational
