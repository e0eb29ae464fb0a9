import LLMBenchLab.Constraints

/-!
# Cancellation dominates

Once `request_cancel` has committed the flag of an active Run, the Run can only
end as CANCELLED. Every terminal transition looks at the flag under the row
lock, except `exhaust_governance`, which the Runner chooses from a check made in
an earlier transaction: `Op.ExhaustsCancelled` is that case, and a run of the
system without it keeps `Run.Cancelling`.
-/

namespace LLMBenchLab

open Relational Relational.Prog RunLeases

variable {cfg : Config} {s s' : Store}

/-- Cancellation has been requested, and the Run has not ended otherwise. -/
structure Run.Cancelling (r : Run) : Prop where
  requested : r.cancellationRequested = true
  completed : r.status ≠ .completed
  failed : r.status ≠ .failed

/-- `exhaust_governance` finds the flag set on a Run that its lease still owns. -/
def Op.ExhaustsCancelled (runId : RunId) (s : Store) : Op → Prop
  | exhaustGovernance lease _ _ now =>
    lease.runId = runId ∧
      ∃ r, s.runs.get? runId = some r ∧ owns lease now r ∧ r.cancellationRequested = true
  | _ => False

/-- A move of a cancelling Run, other than to exhaustion, leaves it cancelling. -/
theorem Moves.cancelling {rs : List Response} {o : Op} {r r' : Run} (h : Moves cfg rs o r r')
    (hr : s.runs.get? r.id = some r) (hc : r.Cancelling) (hnot : ¬ o.ExhaustsCancelled r.id s) :
    r'.Cancelling := by
  have hreq := hc.requested
  cases h with
  | claim he =>
    -- a flagged Run is not eligible
    simp [Run.eligible, hreq] at he
  | failClosed => exact ⟨hreq, by simp [Run.failedClosed, Run.clearLease, hreq],
      by simp [Run.failedClosed, Run.clearLease, hreq]⟩
  | persist _ _ hcan => simp [hreq] at hcan
  | cancelPending => exact ⟨rfl, (by rintro ⟨⟩), (by rintro ⟨⟩)⟩
  | cancelRunning => exact ⟨rfl, hc.completed, hc.failed⟩
  | finishCancelled => exact ⟨hreq, (by rintro ⟨⟩), (by rintro ⟨⟩)⟩
  | notify => exact ⟨hreq, hc.completed, hc.failed⟩
  | failCancelled => exact ⟨hreq, (by rintro ⟨⟩), (by rintro ⟨⟩)⟩
  | failRecovered _ _ hcan => simp [hreq] at hcan
  | failDeadLettered _ _ hcan => simp [hreq] at hcan
  | failRetried _ _ hcan => simp [hreq] at hcan
  | defer => exact ⟨hreq, (by rintro ⟨⟩), (by rintro ⟨⟩)⟩
  | yield => exact ⟨hreq, (by rintro ⟨⟩), (by rintro ⟨⟩)⟩
  | exhaust hid ho => exact absurd ⟨hid.symm, r, hr, ho, hreq⟩ hnot
  | finish => exact ⟨hreq, by simp [Run.finished, hreq], by simp [Run.finished, hreq]⟩
  | reapCancelled => exact ⟨hreq, (by rintro ⟨⟩), (by rintro ⟨⟩)⟩
  | reapCompleted _ _ hcan => simp [hreq] at hcan
  | reapDeadLettered _ _ hcan => simp [hreq] at hcan
  | reapRetried _ _ hcan => simp [hreq] at hcan
  | renew => exact ⟨hreq, hc.completed, hc.failed⟩

/-- The Run of an id is cancelling. -/
def CancellingRun (runId : RunId) (s : Store) : Prop :=
  ∃ r, s.runs.get? runId = some r ∧ r.Cancelling

theorem StoreStep.cancelling {o : Op} {runId : RunId} (h : StoreStep cfg o s s')
    (hc : CancellingRun runId s) (hnot : ¬ o.ExhaustsCancelled runId s) :
    CancellingRun runId s' := by
  obtain ⟨q, hq, hcq⟩ := hc
  cases h with
  | idle hruns => exact ⟨q, by rw [hruns]; exact hq, hcq⟩
  | admitted _ hnew _ hruns =>
    refine ⟨q, ?_, hcq⟩
    rw [hruns, Table.get?_insert, if_neg]
    · exact hq
    · rintro rfl
      exact absurd (hnew.symm.trans hq) nofun
  | @move r r' hr hm hruns =>
    have hput := get?_put_move hr hm.sameOrigin.id runId
    by_cases hid : runId = r.id
    · subst hid
      obtain rfl := Option.some.inj (hr.symm.trans hq)
      exact ⟨r', by rw [hruns, hput, if_pos rfl], hm.cancelling hr hcq hnot⟩
    · exact ⟨q, by rw [hruns, hput, if_neg hid]; exact hq, hcq⟩

/-- One operation keeps a cancelling Run cancelling. -/
theorem CancellingRun.next {o : Op} {runId : RunId} (hc : CancellingRun runId s)
    (hnot : ¬ o.ExhaustsCancelled runId s) : CancellingRun runId (next cfg s o) := by
  cases o with
  | exhaustGovernance lease e integrityError now =>
    rcases after_cases schema ((Op.exhaustGovernance lease e integrityError now).tx cfg) s with
      h | ⟨u, s', h, h'⟩
    · rw [LLMBenchLab.next, h]
      exact hc
    · obtain ⟨d, h⟩ := exec_unit_ok h
      rw [LLMBenchLab.next, h']
      have hs : StoreStep cfg (.exhaustGovernance lease e integrityError now) s s' :=
        exhaustGovernance_storeStep h
      exact hs.cancelling hc hnot
  | _ => exact next_invariant hc fun _ _ hc hs => hs.cancelling hc id

/-- `request_cancel` of an active Run sets its flag, and may end it as
CANCELLED. -/
theorem requestCancel_cancelling {runId : RunId} {now : Time} {d : CancelDisposition} {r : Run}
    (hr : s.runs.get? runId = some r) (hactive : r.status.terminal = false)
    (h : exec schema (requestCancel runId now) s = .ok (d, s')) : CancellingRun runId s' := by
  obtain rfl : r.id = runId := Table.key_of_get? hr
  simp only [requestCancel, lockRun, Prog.forUpdate, bind_eq, Prog.bind, exec_lock, hr] at h
  split at h
  · obtain ⟨t, -, h⟩ := exec_audit_bind (exec_flush_bind h)
    obtain ⟨t', -, h⟩ := exec_audit_bind h
    have h := exec_flush_bind h
    obtain ⟨-, rfl⟩ := exec_pure_ok h
    have hflag := Table.get?_put_self (r := { r with cancellationRequested := true }) hr
    have hrow := Table.get?_put_self (r := { r with cancellationRequested := true }.cancelledPending
      (s.responsesOf r.id) now) hflag
    exact ⟨_, hrow, rfl, RunStatus.noConfusion, RunStatus.noConfusion⟩
  · next hst =>
    obtain ⟨t, -, h⟩ := exec_audit_bind (exec_flush_bind h)
    obtain ⟨-, rfl⟩ := exec_pure_ok h
    refine ⟨_, Table.get?_put_self (r := { r with cancellationRequested := true }) hr, rfl, ?_, ?_⟩
    · rw [hst]
      rintro ⟨⟩
    · rw [hst]
      rintro ⟨⟩
  · -- the Run had ended
    next hpend hrun =>
    cases hst : r.status <;> simp_all [RunStatus.terminal]

/-- **Cancellation dominates.** From the commit of a cancellation of an active
Run on, through any operations of any Workers, the reaper and the API of which
none exhausts the Run while its flag is set, the Run ends as CANCELLED or not at
all. -/
theorem cancellation_dominates {s₀ : Store} {runId : RunId} {now : Time} {d : CancelDisposition}
    {r : Run} (hr : s₀.runs.get? runId = some r)
    (hactive : r.status.terminal = false)
    (hcancel : exec schema (requestCancel runId now) s₀ = .ok (d, s))
    (hrun : Reaches (next cfg) (fun s o => o.Issued cfg s ∧ ¬ o.ExhaustsCancelled runId s) s s') :
    ∃ r', s'.runs.get? runId = some r' ∧ r'.cancellationRequested = true ∧
      (r'.status.terminal = true → r'.status = .cancelled) := by
  have hstart : CancellingRun runId s := requestCancel_cancelling hr hactive hcancel
  obtain ⟨r', hr', hc⟩ := hrun.invariant hstart fun _ _ hi hC => hi.next hC.2
  refine ⟨r', hr', hc.requested, fun hend => ?_⟩
  cases hst : r'.status with
  | cancelled => rfl
  | completed => exact absurd hst hc.completed
  | failed => exact absurd hst hc.failed
  | _ => rw [hst] at hend; cases hend

/-- A Run with a token budget and no input bound, claimed by Worker 100, whose
first question is about to be reserved. -/
def Sample.unboundedRun : List Op :=
  [.admitRun (Sample.newRun 1 ⟨none, none, some 100, none⟩) 10, .claim 1 100 20,
    .questionContext 1 1 5 4 100 1 (some 10) none 30]

theorem cancellation_dominates_sample :
    ∃ d s, exec schema (requestCancel 1 40) (Sample.after Sample.unboundedRun) = .ok (d, s) ∧
      ∃ r', (next Sample.config s (.failAttempt Sample.lease (.code 0) 50)).runs.get? 1 = some r' ∧
        r'.cancellationRequested = true ∧ (r'.status.terminal = true → r'.status = .cancelled) := by
  obtain ⟨d, s, h⟩ := Sample.ok_of_isOk (p := requestCancel 1 40) (s := Sample.after Sample.unboundedRun)
    (by decide +kernel)
  obtain ⟨r, hr⟩ := Option.isSome_iff_exists.mp
    (show ((Sample.after Sample.unboundedRun).runs.get? 1).isSome = true by decide +kernel)
  have hactive : r.status.terminal = false := by
    have hall : ((Sample.after Sample.unboundedRun).runs.get? 1).all
        (fun r => !r.status.terminal) = true := by decide +kernel
    rw [hr] at hall
    simpa using hall
  exact ⟨d, s, h, cancellation_dominates hr hactive h (Reaches.start.step _ ⟨trivial, id⟩)⟩

/-- The claimed guarantee fails for `exhaust_governance`: the reservation is
refused for good, the API cancels the Run, and the Worker goes on to the
transition it has chosen. -/
theorem exhaustion_overrides_cancellation :
    Reachable Sample.config (Sample.after Sample.unboundedRun) ∧
      exec schema ((Op.reserve 7 ⟨1, 1, 5, 4, 1, 0, 1, none, some 10, none⟩ 1 100 35).tx
        Sample.config) (Sample.after Sample.unboundedRun) = .error (.exhausted .inputBoundUnknown) ∧
      ((Sample.after (Sample.unboundedRun ++ [.requestCancel 1 40])).runs.get? 1).map
        (fun r => (r.cancellationRequested, r.status)) = some (true, .running) ∧
      ((Sample.after (Sample.unboundedRun ++ [.requestCancel 1 40,
        .exhaustGovernance Sample.lease (.code 0) false 50])).runs.get? 1).map
        (fun r => (r.cancellationRequested, r.status)) = some (true, .failed) :=
  ⟨Sample.reachable_after rfl, Sample.error_of_refused (by decide +kernel), by decide +kernel,
    by decide +kernel⟩

end LLMBenchLab
