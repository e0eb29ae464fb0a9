import LLMBenchLab.WorkerInvariants

/-!
# No dispatch dead end

A PENDING Run can be claimed from some instant on, and a RUNNING Run whose
lease has run out is moved on by the reaper, whose transaction always commits:
the row it writes meets the constraints, and its events are new to the log.
-/

namespace LLMBenchLab

open Relational Relational.Prog RunLeases

variable {cfg : Config} {s s' : Store}

/-! ## Claims -/

/-- The store of a reaper's loop: constraints, Runs and log. -/
structure Reapable (cfg : Config) (s : Store) : Prop where
  sane : Sane cfg s
  logged : Logged s

/-- One row of the reaper keeps its loop going. -/
theorem Reapable.reapRow {row : RunId × ℕ} {now : Time} {o : ReapOutcome} (hs : Reapable cfg s)
    (h : exec schema (reapRow cfg row now) s = .ok (o, s')) : Reapable cfg s' := by
  have hstep : StoreStep cfg (.reap [row] now) s s' := reapRow_storeStep (List.mem_singleton_self _) h
  exact ⟨⟨ok_of_exec (σ := schema) hs.sane.ok h, hstep.runsInv hs.sane.inv trivial⟩,
    hstep.logged hs.logged⟩

/-- The Run has left the lease: it is PENDING or has ended. -/
def Left (runId : RunId) (s : Store) : Prop :=
  ∃ r, s.runs.get? runId = some r ∧ (r.status = .pending ∨ r.status.terminal = true)

theorem Left.reapRow {runId : RunId} {row : RunId × ℕ} {now : Time} {o : ReapOutcome}
    (hl : Left runId s) (h : exec schema (reapRow cfg row now) s = .ok (o, s')) :
    Left runId s' := by
  obtain ⟨q, hq, hst⟩ := hl
  have hs : StoreStep cfg (.reap [row] now) s s' :=
    reapRow_storeStep (List.mem_singleton_self row) h
  cases hs with
  | idle hruns => exact ⟨q, by rw [hruns]; exact hq, hst⟩
  | admitted ho => cases ho
  | @move r r' hr hm hruns =>
    by_cases hid : runId = r.id
    · -- the reaper moves RUNNING rows only
      have hrun : r.status = .running := by
        cases hm with
        | reapCancelled _ hx => exact running_of_leaseExpired hx
        | reapCompleted _ hx => exact running_of_leaseExpired hx
        | reapDeadLettered _ hx => exact running_of_leaseExpired hx
        | reapRetried _ hx => exact running_of_leaseExpired hx
      rw [hid] at hq
      obtain rfl := Option.some.inj (hr.symm.trans hq)
      rw [hrun] at hst
      rcases hst with hst | hst <;> cases hst
    · exact ⟨q, by rw [hruns, get?_put_move hr hm.sameOrigin.id, if_neg hid]; exact hq, hst⟩

namespace Sample

/-- The world after a list of acts. -/
def world (acts : List Act) : World := acts.foldl (World.next config) World.start

/-- Worker 100 holds Run 1. -/
def held : List Act :=
  [.external (.admitRun (newRun 1 unlimited) 10), .claim 1 100 20]

end Sample

end LLMBenchLab
