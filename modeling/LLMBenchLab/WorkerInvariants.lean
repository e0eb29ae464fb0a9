import LLMBenchLab.Constraints
import LLMBenchLab.Workers

/-!
# What Workers know, and the Runs that wait

A Worker that holds a lease is the only one that answers questions under its
token, so the questions it has read as open and not answered stay open while
the token is the Run's (`WorkerInv`). A lease that goes back to PENDING before
the end (`defer_governance`, `cooperative_yield`) therefore leaves a question
open (`Waiting`). Neither method looks at the cancellation flag:
`Op.RequeuesCancelled` names the steps that meet it, and a run of the world
without them keeps `World.Inv`.
-/

namespace LLMBenchLab

open Relational Relational.Prog RunLeases

variable {cfg : Config} {s s' : Store}

/-! ## What a Worker knows -/

/-- The questions a Worker has read as open and not answered. -/
def Phase.unanswered : Phase → List QuestionId
  | evaluating p => p.unanswered
  | decided p _ => p.unanswered
  | _ => []

def Worker.unanswered (w : Worker) : List QuestionId := w.phase.unanswered

/-- The Run and the token of a Worker's lease. -/
def Worker.ticket (w : Worker) : RunId × ℕ := (w.lease.runId, w.lease.token)

/-- What holds of a Worker in a store. -/
structure WorkerInv (cfg : Config) (s : Store) (w : Worker) : Prop where
  token : TokenFrom w.lease.runId w.lease.token s
  nodup : w.unanswered.Nodup
  asked : ∀ r, s.runs.get? w.lease.runId = some r →
    ∀ q ∈ w.unanswered, q ∈ cfg.questions r.benchmarkId
  /-- while the token is the Run's, nobody else has answered -/
  unanswered : ∀ r, s.runs.get? w.lease.runId = some r → r.leaseToken = w.lease.token →
    ∀ q ∈ w.unanswered, ∀ x ∈ s.responsesOf w.lease.runId, x.questionId ≠ q

/-- A Worker that has fewer questions open knows as much about them. -/
theorem WorkerInv.mono {w : Worker} (h : WorkerInv cfg s w) (phase : Phase)
    (hsub : phase.unanswered.Subperm w.unanswered) : WorkerInv cfg s { w with phase } where
  token := h.token
  nodup := by
    obtain ⟨l, hperm, hl⟩ := hsub
    exact hperm.nodup_iff.mp (h.nodup.sublist hl)
  asked r hr q hq := h.asked r hr q (hsub.subset hq)
  unanswered r hr ht q hq := h.unanswered r hr ht q (hsub.subset hq)

/-- The operation answers no open question of the Worker under its own token. -/
def Op.Spares (w : Worker) : Op → Prop
  | persistResponse lease _ q _ _ =>
    lease.runId = w.lease.runId → lease.token = w.lease.token → q ∉ w.unanswered
  | _ => True

theorem owns_token {lease : RunLease} {now : Time} {r : Run} (h : owns lease now r) :
    r.leaseToken = lease.token := by
  simp only [owns, Bool.and_eq_true, decide_eq_true_eq] at h
  exact h.1.2

theorem StoreStep.workerInv {o : Op} {w : Worker} (h : StoreStep cfg o s s')
    (hw : WorkerInv cfg s w) (hsp : o.Spares w) : WorkerInv cfg s' w := by
  obtain ⟨q₀, hq₀, hle⟩ := hw.token
  refine ⟨h.tokenFrom hw.token, hw.nodup, fun r' hr' q hq => ?_, fun r' hr' ht q hq x hx => ?_⟩
  · -- the benchmark is frozen
    obtain ⟨r₁, hr₁, ho⟩ := h.sameOrigin hq₀
    obtain rfl := Option.some.inj (hr₁.symm.trans hr')
    rw [ho.benchmarkId]
    exact hw.asked q₀ hq₀ q hq
  · cases h with
    | idle hruns hresp =>
      rw [hruns] at hr'
      rw [responsesOf_congr hresp] at hx
      exact hw.unanswered r' hr' ht q hq x hx
    | admitted _ hnew _ hruns hresp =>
      rw [hruns, Table.get?_insert, if_neg] at hr'
      · rw [responsesOf_congr hresp] at hx
        exact hw.unanswered r' hr' ht q hq x hx
      · intro hid
        rw [hid] at hq₀
        exact absurd (hnew.symm.trans hq₀) nofun
    | @move r₁ r₁' hr₁ hm hruns hresp hfresh =>
      rw [responsesOf_evidence hfresh hresp, List.mem_append] at hx
      rw [hruns, get?_put_move hr₁ hm.sameOrigin.id] at hr'
      by_cases hid : w.lease.runId = r₁.id
      · rw [if_pos hid] at hr'
        obtain rfl := Option.some.inj hr'
        rw [← hid] at hr₁
        obtain rfl := Option.some.inj (hq₀.symm.trans hr₁)
        -- the token has not moved
        have htok : q₀.leaseToken = w.lease.token := by
          have := hm.token_le
          omega
        rcases hx with hx | hx
        · exact hw.unanswered q₀ hq₀ htok q hq x hx
        · obtain ⟨hx, -⟩ := List.mem_filter.mp hx
          cases o with
          | persistResponse lease id p outcome now =>
            obtain rfl : x = outcome.response id lease.runId p := by
              simpa [Op.answer] using hx
            have hp : (outcome.response id lease.runId p).questionId = p := by
              cases outcome <;> rfl
            rw [hp]
            cases hm with
            | persist hrun ho =>
              rintro rfl
              exact hsp (hrun.symm.trans hid.symm) ((owns_token ho).symm.trans htok) hq
          | _ => simp [Op.answer] at hx
      · rw [if_neg hid] at hr'
        rcases hx with hx | hx
        · exact hw.unanswered r' hr' ht q hq x hx
        · -- an answer belongs to the Run that moved
          obtain ⟨hx, hrun⟩ := List.mem_filter.mp hx
          have hxr : x.runId = r₁.id := hm.answer_run (Option.mem_toList.mp hx)
          rw [beq_iff_eq, hxr] at hrun
          exact absurd hrun.symm hid

theorem WorkerInv.next {o : Op} {w : Worker} (hw : WorkerInv cfg s w) (hsp : o.Spares w) :
    WorkerInv cfg (next cfg s o) w :=
  next_invariant hw fun _ _ hw hs => hs.workerInv hw hsp

/-! ## Runs that wait -/

/-- A PENDING Run with questions has one open, and no cancellation request. -/
def Waiting (s : Store) : Prop :=
  ∀ id r, s.runs.get? id = some r → r.status = .pending → 0 < r.totalQuestions →
    r.cancellationRequested = false ∧ (s.responsesOf id).length < r.totalQuestions

/-- The row a lease still owns. -/
def Owned (lease : RunLease) (now : Time) (s : Store) (r : Run) : Prop :=
  s.runs.get? lease.runId = some r ∧ owns lease now r

/-- `defer_governance` or `cooperative_yield` finds the flag set on a Run that its
lease still owns. -/
def Op.RequeuesCancelled (s : Store) : Op → Prop
  | deferGovernance lease _ _ now =>
    ∃ r, Owned lease now s r ∧ r.cancellationRequested = true
  | cooperativeYield lease _ now =>
    ∃ r, Owned lease now s r ∧ r.cancellationRequested = true
  | _ => False

/-- Where the operation gives a lease back, the Run has an open question and no
cancellation request. -/
def Op.RequeuesOpen (s : Store) : Op → Prop
  | deferGovernance lease _ _ now => ∀ r, Owned lease now s r →
    r.cancellationRequested = false ∧ (s.responsesOf r.id).length < r.totalQuestions
  | cooperativeYield lease _ now => ∀ r, Owned lease now s r →
    r.cancellationRequested = false ∧ (s.responsesOf r.id).length < r.totalQuestions
  | _ => True

/-- A move to PENDING leaves a Run that can be dispatched again. -/
theorem Moves.waiting {o : Op} {r r' : Run} (hi : RunsInv cfg s) (hr : s.runs.get? r.id = some r)
    (h : Moves cfg (s.responsesOf r.id) o r r') (hw : Waiting s) (hreq : o.RequeuesOpen s)
    (hst : r'.status = .pending) (hpos : 0 < r.totalQuestions) :
    r'.cancellationRequested = false ∧ (s.responsesOf r.id).length < r.totalQuestions ∧
      o.answer = none := by
  have hlen := hi.length_le hr
  have hrunning {lease : RunLease} {now : Time} (ho : owns lease now r) : r.status ≠ .pending := by
    rw [owns_running ho]
    nofun
  cases h with
  | claim => cases hst
  | failClosed =>
    have hend := terminal_failedClosed r (s.responsesOf r.id) ‹Time›
    rw [hst] at hend
    cases hend
  | persist _ ho => exact absurd hst (hrunning ho)
  | cancelPending => cases hst
  | cancelRunning hrun =>
    have hst : r.status = .pending := hst
    rw [hrun] at hst
    cases hst
  | finishCancelled => cases hst
  | notify hpend =>
    obtain ⟨hflag, hlt⟩ := hw r.id r hr hpend hpos
    exact ⟨hflag, hlt, rfl⟩
  | failCancelled => cases hst
  | failRecovered => cases hst
  | failDeadLettered => cases hst
  | failRetried _ _ hflag hne => exact ⟨hflag, by omega, rfl⟩
  | defer hid ho =>
    obtain ⟨hflag, hlt⟩ := hreq r ⟨by rw [← hid]; exact hr, ho⟩
    exact ⟨hflag, hlt, rfl⟩
  | yield hid ho =>
    obtain ⟨hflag, hlt⟩ := hreq r ⟨by rw [← hid]; exact hr, ho⟩
    exact ⟨hflag, hlt, rfl⟩
  | exhaust => cases hst
  | finish =>
    have hend := terminal_finished r (s.responsesOf r.id) ‹Bool› ‹Time›
    rw [hst] at hend
    cases hend
  | reapCancelled => cases hst
  | reapCompleted => cases hst
  | reapDeadLettered => cases hst
  | reapRetried _ _ hflag hne => exact ⟨hflag, by omega, rfl⟩
  | renew ho =>
    simp only [Governance.fenced, Bool.and_eq_true, decide_eq_true_eq] at ho
    have hst : r.status = .pending := hst
    rw [ho.1.1.1.1] at hst
    cases hst

theorem StoreStep.waiting {o : Op} (h : StoreStep cfg o s s') (hi : RunsInv cfg s) (hw : Waiting s)
    (hreq : o.RequeuesOpen s) : Waiting s' := by
  intro id q hq hst hpos
  cases h with
  | idle hruns hresp =>
    rw [hruns] at hq
    rw [responsesOf_congr hresp]
    exact hw id q hq hst hpos
  | @admitted n policy provider now _ hnew _ hruns hresp =>
    rw [hruns, Table.get?_insert] at hq
    rw [responsesOf_congr hresp]
    split at hq
    · next hid =>
      have hnew' : s.runs.get? (key (n.admitted cfg policy provider now)) = none := hnew
      rw [hnew'] at hq
      obtain rfl := Option.some.inj hq
      -- a Run that did not exist has no Responses
      have hnone : s.responsesOf id = [] := by
        refine List.eq_nil_iff_forall_not_mem.mpr fun x hx => ?_
        obtain ⟨hx, hxr⟩ := mem_responsesOf.mp hx
        obtain ⟨r, hr, -⟩ := hi.answers x hx
        rw [hxr, hid] at hr
        exact absurd (hnew'.symm.trans hr) (by rintro ⟨⟩)
      exact ⟨rfl, by rw [hnone]; exact hpos⟩
    · exact hw id q hq hst hpos
  | @move r r' hr hm hruns hresp hfresh =>
    have hof := responsesOf_evidence hfresh hresp id
    rw [hruns, get?_put_move hr hm.sameOrigin.id] at hq
    split at hq
    · next hid =>
      subst hid
      obtain rfl := Option.some.inj hq
      rw [hm.sameOrigin.totalQuestions] at hpos ⊢
      obtain ⟨hflag, hlt, hans⟩ := hm.waiting hi hr hw hreq hst hpos
      rw [hof, hans]
      exact ⟨hflag, by simpa using hlt⟩
    · next hid =>
      obtain ⟨hflag, hlt⟩ := hw id q hq hst hpos
      refine ⟨hflag, ?_⟩
      rw [hof, List.filter_eq_nil_iff.mpr, List.append_nil]
      · exact hlt
      · intro x hx
        have hxr : x.runId = r.id := hm.answer_run (Option.mem_toList.mp hx)
        simp [hxr, Ne.symm hid]

/-- One operation keeps waiting Runs dispatchable. -/
theorem Waiting.next {o : Op} (hi : RunsInv cfg s) (hiss : o.Issued cfg s) (hw : Waiting s)
    (hreq : o.RequeuesOpen s) : Waiting (next cfg s o) := by
  have hone {p : Tx Unit} (ho : o.tx cfg = p)
      (hstep : ∀ u s', exec schema p s = .ok (u, s') → StoreStep cfg o s s') :
      Waiting (LLMBenchLab.next cfg s o) := by
    rw [LLMBenchLab.next, ho]
    rcases after_cases schema p s with h | ⟨u, s', h, h'⟩
    · rw [h]
      exact hw
    · rw [h']
      exact (hstep u s' h).waiting hi hw hreq
  have hmany (hany : ∀ s, o.RequeuesOpen s) : Waiting (LLMBenchLab.next cfg s o) :=
    (next_invariant (I := fun s => Waiting s ∧ RunsInv cfg s ∧ o.Issued cfg s) ⟨hw, hi, hiss⟩
      fun s _ h hs =>
        ⟨hs.waiting h.2.1 h.1 (hany s), hs.runsInv h.2.1 h.2.2, h.2.2.step hs⟩).1
  cases o with
  | deferGovernance lease e notBefore now =>
    refine hone rfl fun u s' h => ?_
    obtain ⟨_, h⟩ := exec_unit_ok h
    exact deferGovernance_storeStep h
  | cooperativeYield lease n now =>
    refine hone rfl fun u s' h => ?_
    obtain ⟨_, h⟩ := exec_unit_ok h
    exact cooperativeYield_storeStep h
  | _ => exact hmany fun _ => trivial

/-! ## One act -/

section Progress

variable {p : Progress} {q : QuestionId}

theorem Progress.unanswered_takeQuestion (p : Progress) (cancelled : Bool) :
    (p.takeQuestion cancelled).unanswered.Subperm p.unanswered := by
  unfold Progress.takeQuestion
  split
  · exact List.Subperm.refl _
  · next q waiting hw =>
    split
    · refine List.Sublist.subperm ?_
      simp [Progress.unanswered, hw]
    · refine List.Perm.subperm ?_
      simp only [Progress.unanswered, hw, List.cons_append]
      exact List.perm_middle

theorem Progress.unanswered_erase (hq : q ∈ p.inFlight) :
    p.unanswered.Perm (q :: { p with inFlight := p.inFlight.erase q }.unanswered) := by
  have hmove : (p.inFlight ++ (p.signalled.map Prod.fst ++ p.rest)).Perm
      (q :: (p.inFlight.erase q ++ (p.signalled.map Prod.fst ++ p.rest))) :=
    (List.perm_cons_erase hq).append_right _
  exact (hmove.append_left _).trans List.perm_middle

theorem Progress.unanswered_signal (g : GovernanceSignal) (hq : q ∈ p.inFlight) :
    (p.signal q g).unanswered.Perm p.unanswered := by
  refine List.Perm.trans ?_ (p.unanswered_erase hq).symm
  -- the question goes from the consumers to the signals
  simp only [Progress.signal, Progress.unanswered, List.map_append, List.map_cons, List.map_nil,
    List.append_assoc, List.cons_append, List.nil_append]
  rw [← List.append_assoc, ← List.append_assoc]
  refine List.perm_middle.trans ?_
  simp only [List.append_assoc]
  exact List.Perm.refl _

theorem Progress.signalled_of_signal {g : GovernanceSignal} (h : p.governanceSignal = some g) :
    p.unanswered ≠ [] := by
  intro hnil
  have hsig : p.signalled = [] := by
    simp only [Progress.unanswered, List.append_eq_nil_iff, List.map_eq_nil_iff] at hnil
    exact hnil.2.2.1
  simp [Progress.governanceSignal, hsig] at h

end Progress

/-- The transition after the last check: an end, or a requeue with a question
left. -/
theorem Worker.transition_cases {w : Worker} {now finishedAt : Time} {o : Op}
    (h : w.transition now finishedAt = some o) :
    (∃ c, o = .finishRun w.lease c now finishedAt) ∨
      (∃ e i, o = .exhaustGovernance w.lease e i now) ∨
      ((∃ e t, o = .deferGovernance w.lease e t now) ∨ ∃ n, o = .cooperativeYield w.lease n now) ∧
        w.unanswered ≠ [] := by
  unfold Worker.transition at h
  split at h
  swap
  · cases h
  next p cancelled hphase =>
  have hun : w.unanswered = p.unanswered := by rw [Worker.unanswered, hphase]; rfl
  rw [hun]
  split at h
  · exact Or.inl ⟨_, (Option.some.inj h).symm⟩
  split at h
  · next hg =>
    exact Or.inr (Or.inr ⟨Or.inl ⟨_, _, (Option.some.inj h).symm⟩, p.signalled_of_signal hg⟩)
  · exact Or.inr (Or.inl ⟨_, _, (Option.some.inj h).symm⟩)
  · exact Or.inr (Or.inl ⟨_, _, (Option.some.inj h).symm⟩)
  · next hg =>
    exact Or.inr (Or.inr ⟨Or.inr ⟨_, (Option.some.inj h).symm⟩, p.signalled_of_signal hg⟩)
  · split at h
    · exact Or.inl ⟨_, (Option.some.inj h).symm⟩
    · next hrest =>
      refine Or.inr (Or.inr ⟨Or.inr ⟨_, (Option.some.inj h).symm⟩, fun hnil => hrest ?_⟩)
      simp only [Progress.unanswered, List.append_eq_nil_iff] at hnil
      simp [hnil.2.2.2]

/-- What holds of the store and its Workers after any acts. -/
structure World.Inv (cfg : Config) (W : World) : Prop where
  reach : Reachable cfg W.store
  tickets : (W.workers.map Worker.ticket).Nodup
  workers : ∀ w ∈ W.workers, WorkerInv cfg W.store w
  waiting : Waiting W.store

theorem World.Inv.start : World.start.Inv cfg where
  reach := .start
  tickets := List.nodup_nil
  workers _ hw := absurd hw List.not_mem_nil
  waiting _ _ hr := by cases hr

/-- A Worker that still owns its Run gives it back with a question open. -/
theorem WorkerInv.requeue {w : Worker} {now : Time} {r : Run} (hi : RunsInv cfg s)
    (hw : WorkerInv cfg s w) (hne : w.unanswered ≠ []) (hr : Owned w.lease now s r) :
    (s.responsesOf r.id).length < r.totalQuestions := by
  obtain ⟨q, hq⟩ := List.exists_mem_of_ne_nil _ hne
  have hid : r.id = w.lease.runId := Table.key_of_get? hr.1
  rw [hid]
  exact hi.length_lt hr.1 (hw.asked r hr.1 q hq) (hw.unanswered r hr.1 (owns_token hr.2) q hq)

/-- The transactions of an enabled act meet what the system asks of its
callers. -/
theorem Act.op_issued {W : World} {a : Act} {o : Op} (hW : W.Inv cfg) (hen : a.enabled W = true)
    (ho : a.op = some o) (hnot : ¬ o.RequeuesCancelled W.store) :
    o.Issued cfg W.store ∧ o.RequeuesOpen W.store := by
  cases a with
  | external o' =>
    obtain rfl := Option.some.inj ho
    cases o' with
    | persistResponse => cases hen
    | deferGovernance => cases hen
    | cooperativeYield => cases hen
    | _ => exact ⟨trivial, trivial⟩
  | persist w id q outcome now =>
    obtain rfl := Option.some.inj ho
    simp only [Act.enabled, Bool.and_eq_true, decide_eq_true_eq] at hen
    obtain ⟨hw, hen⟩ := hen
    split at hen
    · next p hphase =>
      have hq : q ∈ w.unanswered := by
        rw [Worker.unanswered, hphase]
        exact (p.unanswered_erase (of_decide_eq_true hen)).symm.subset List.mem_cons_self
      exact ⟨fun run hrun => (hW.workers w hw).asked run hrun q hq, trivial⟩
    · cases hen
  | transition w now finishedAt =>
    simp only [Act.enabled, Bool.and_eq_true, decide_eq_true_eq] at hen
    have hw := hW.workers w hen.1
    have hi := hW.reach.runsInv
    rcases Worker.transition_cases ho with ⟨c, rfl⟩ | ⟨e, i, rfl⟩ | ⟨⟨e, t, rfl⟩ | ⟨n, rfl⟩, hne⟩
    · exact ⟨trivial, trivial⟩
    · exact ⟨trivial, trivial⟩
    · refine ⟨trivial, fun r hr => ⟨?_, hw.requeue hi hne hr⟩⟩
      exact Bool.eq_false_iff.mpr fun hflag => hnot ⟨r, hr, hflag⟩
    · refine ⟨trivial, fun r hr => ⟨?_, hw.requeue hi hne hr⟩⟩
      exact Bool.eq_false_iff.mpr fun hflag => hnot ⟨r, hr, hflag⟩
  | loadSnapshots w => cases ho
  | takeQuestion w => cases ho
  | signal w q g => cases ho
  | check w => cases ho
  | _ =>
    obtain rfl := Option.some.inj ho
    exact ⟨trivial, trivial⟩

theorem Worker.unanswered_after {α : Type} (w : Worker) (x : Except Err (α × Store)) :
    (w.after x fun _ => Phase.ended).unanswered.Subperm w.unanswered := by
  rcases x with e | ⟨a, s⟩
  · exact List.Subperm.refl _
  · exact List.nil_subperm

/-- A Worker that has just read the questions knows that they are open. -/
theorem WorkerInv.loadSnapshots {w : Worker} (hw : WorkerInv cfg s w) :
    WorkerInv cfg s { w with phase := LLMBenchLab.loadSnapshots cfg s w.lease.runId } := by
  obtain ⟨run, hrun, -⟩ := hw.token
  have hopen : ∃ n, (LLMBenchLab.loadSnapshots cfg s w.lease.runId).unanswered =
      (openQuestions cfg s run).take n ++ (openQuestions cfg s run).drop n := by
    simp only [LLMBenchLab.loadSnapshots, hrun]
    exact ⟨_, rfl⟩
  obtain ⟨n, hopen⟩ := hopen
  rw [List.take_append_drop] at hopen
  have hid : run.id = w.lease.runId := Table.key_of_get? hrun
  refine ⟨hw.token, ?_, fun r hr q hq => ?_, fun r hr _ q hq x hx => ?_⟩
  · rw [Worker.unanswered, hopen]
    exact (cfg.questions_nodup _).filter _
  · obtain rfl := Option.some.inj (hrun.symm.trans hr)
    rw [Worker.unanswered, hopen] at hq
    exact List.mem_of_mem_filter hq
  · rw [Worker.unanswered, hopen, openQuestions, List.mem_filter, hid] at hq
    simp only [Bool.not_eq_true', List.any_eq_false, beq_iff_eq] at hq
    exact hq.2 x hx

/-- `persist_response` takes the question off the Worker's list, unless it
raises. -/
theorem WorkerInv.persist {w : Worker} {p : Progress} {q : QuestionId} {id : ResponseId}
    {outcome : QuestionOutcome} {now : Time} (hw : WorkerInv cfg s w)
    (hphase : w.phase = .evaluating p) (hq : q ∈ p.inFlight) :
    WorkerInv cfg (LLMBenchLab.next cfg s (.persistResponse w.lease id q outcome now))
      { w with phase := w.after (exec schema (persistResponse w.lease
        (outcome.response id w.lease.runId q) now) s) (p.persisted q) } := by
  have hperm := p.unanswered_erase hq
  have hun : w.unanswered = p.unanswered := by rw [Worker.unanswered, hphase]; rfl
  have hsub : { p with inFlight := p.inFlight.erase q }.unanswered.Subperm w.unanswered := by
    rw [hun]
    exact (List.sublist_cons_self q _).subperm.trans hperm.symm.subperm
  have hfresh : q ∉ { p with inFlight := p.inFlight.erase q }.unanswered :=
    (List.nodup_cons.mp (hperm.nodup_iff.mp (hun ▸ hw.nodup))).1
  -- the Worker that has already struck the question off
  have hw₁ : WorkerInv cfg s
      { w with phase := .evaluating { p with inFlight := p.inFlight.erase q } } := hw.mono _ hsub
  rcases hx : exec schema (persistResponse w.lease (outcome.response id w.lease.runId q) now) s with
    e | ⟨d, s'⟩
  · have hs : LLMBenchLab.next cfg s (.persistResponse w.lease id q outcome now) = s :=
      after_of_error (exec_bind_of_error hx)
    rw [hs]
    exact hw
  · have hw₂ := hw₁.next (o := .persistResponse w.lease id q outcome now) fun _ _ => hfresh
    cases d with
    | fenceLost => exact hw₂.mono .leaseLost List.nil_subperm
    | inserted => exact hw₂.mono (p.persisted q .inserted) (List.Subperm.refl _)
    | _ => exact hw₂

/-- The store after an act. -/
theorem World.store_next {W : World} {a : Act} {o : Op} (ho : a.op = some o) :
    (W.next cfg a).store = LLMBenchLab.next cfg W.store o := by
  simp only [World.next, ho]

/-- The Worker that takes its turn. -/
theorem Act.turn_inv {W : World} {a : Act} {w : Worker} {phase : Phase} (hW : W.Inv cfg)
    (hen : a.enabled W = true) (ht : a.turn cfg W.store = some (w, phase)) :
    w ∈ W.workers ∧ WorkerInv cfg (W.next cfg a).store { w with phase } := by
  cases a with
  | external => cases ht
  | claim => cases ht
  | failClosedTakeover w now =>
    obtain ⟨rfl, rfl⟩ := Prod.mk.inj (Option.some.inj ht)
    simp only [Act.enabled, Bool.and_eq_true, decide_eq_true_eq] at hen
    have hw := (hW.workers w hen.1).next (o := .failClosedTakeover w.lease now) trivial
    exact ⟨hen.1, hw.mono _ (w.unanswered_after _)⟩
  | loadSnapshots w =>
    obtain ⟨rfl, rfl⟩ := Prod.mk.inj (Option.some.inj ht)
    simp only [Act.enabled, Bool.and_eq_true, decide_eq_true_eq] at hen
    exact ⟨hen.1, (hW.workers w hen.1).loadSnapshots⟩
  | takeQuestion w =>
    obtain ⟨rfl, rfl⟩ := Prod.mk.inj (Option.some.inj ht)
    simp only [Act.enabled, Bool.and_eq_true, decide_eq_true_eq] at hen
    refine ⟨hen.1, (hW.workers w hen.1).mono _ ?_⟩
    split
    · next p hphase =>
      rw [Worker.unanswered, hphase]
      exact p.unanswered_takeQuestion _
    · exact List.Subperm.refl _
  | persist w id q outcome now =>
    obtain ⟨rfl, rfl⟩ := Prod.mk.inj (Option.some.inj ht)
    simp only [Act.enabled, Bool.and_eq_true, decide_eq_true_eq] at hen
    obtain ⟨hmem, hen⟩ := hen
    split at hen
    · next p hphase =>
      exact ⟨hmem, (hW.workers w hmem).persist hphase (of_decide_eq_true hen)⟩
    · cases hen
  | signal w q g =>
    obtain ⟨rfl, rfl⟩ := Prod.mk.inj (Option.some.inj ht)
    simp only [Act.enabled, Bool.and_eq_true, decide_eq_true_eq] at hen
    obtain ⟨hmem, hen⟩ := hen
    split at hen
    · next p hphase =>
      refine ⟨hmem, (hW.workers w hmem).mono _ ?_⟩
      rw [Worker.unanswered, hphase]
      exact (p.unanswered_signal g (of_decide_eq_true hen)).subperm
    · cases hen
  | check w =>
    obtain ⟨rfl, rfl⟩ := Prod.mk.inj (Option.some.inj ht)
    simp only [Act.enabled, Bool.and_eq_true, decide_eq_true_eq] at hen
    refine ⟨hen.1, (hW.workers w hen.1).mono _ ?_⟩
    split
    · next p hphase =>
      rw [Worker.unanswered, hphase]
      exact List.Subperm.refl _
    · exact List.Subperm.refl _
  | transition w now finishedAt =>
    obtain ⟨rfl, rfl⟩ := Prod.mk.inj (Option.some.inj ht)
    simp only [Act.enabled, Bool.and_eq_true, decide_eq_true_eq] at hen
    refine ⟨hen.1, ?_⟩
    have hw := hW.workers w hen.1
    rcases ho : w.transition now finishedAt with _ | o
    · simp only [World.next, Act.op, ho]
      exact hw
    · have hsp : o.Spares w := by
        rcases Worker.transition_cases ho with ⟨c, rfl⟩ | ⟨e, i, rfl⟩ | ⟨⟨e, t, rfl⟩ | ⟨n, rfl⟩, -⟩ <;>
          trivial
      rw [World.store_next (a := .transition w now finishedAt) ho]
      exact (hw.next hsp).mono _ (w.unanswered_after _)
  | fail w e now =>
    obtain ⟨rfl, rfl⟩ := Prod.mk.inj (Option.some.inj ht)
    simp only [Act.enabled, Bool.and_eq_true, decide_eq_true_eq] at hen
    have hw := (hW.workers w hen.1).next (o := .failAttempt w.lease e now) trivial
    exact ⟨hen.1, hw.mono _ (w.unanswered_after _)⟩
  | giveUp w now =>
    obtain ⟨rfl, rfl⟩ := Prod.mk.inj (Option.some.inj ht)
    simp only [Act.enabled, Bool.and_eq_true, decide_eq_true_eq] at hen
    have hw := (hW.workers w hen.1).next (o := .finishCancelled w.lease now) trivial
    exact ⟨hen.1, hw.mono _ (w.unanswered_after _)⟩

/-- The Worker that a claim starts. -/
theorem Act.started_inv {W : World} {a : Act} {w : Worker} (hW : W.Inv cfg)
    (hw : w ∈ a.started cfg W.store) :
    a.started cfg W.store = [w] ∧ a.turn cfg W.store = none ∧
      w.ticket ∉ W.workers.map Worker.ticket ∧ WorkerInv cfg (W.next cfg a).store w := by
  cases a with
  | claim runId owner now =>
    simp only [Act.started] at hw ⊢
    split at hw
    · next lease old s' hx =>
      obtain rfl := List.mem_singleton.mp hw
      obtain ⟨-, hnone⟩ | ⟨r, hr, rfl, -, ⟨l, hl, hlease⟩, t, -, hs⟩ := claim_step hx
      · cases hnone
      · obtain rfl := Option.some.inj hl
        have hlease : lease = ⟨r.id, owner, r.leaseToken + 1, r.attemptCount + 1,
          now + cfg.leaseFor⟩ := hlease
        have hstore : (W.next cfg (.claim r.id owner now)).store = s' :=
          (World.store_next (o := .claim r.id owner now) rfl).trans (after_of_exec hx)
        refine ⟨rfl, rfl, fun hmem => ?_, ?_⟩
        · -- its token is above that of every Worker
          obtain ⟨w', hw', he⟩ := List.mem_map.mp hmem
          obtain ⟨q, hq, hle⟩ := (hW.workers w' hw').token
          rw [Worker.ticket, Worker.ticket, hlease, Prod.mk.injEq] at he
          obtain ⟨hid, htok⟩ := he
          dsimp only at hid htok
          rw [hid] at hq
          obtain rfl := Option.some.inj (hr.symm.trans hq)
          omega
        · rw [hstore, hs]
          have hrow := Table.get?_put_self (r := r.claimed owner now (now + cfg.leaseFor)) hr
          refine ⟨⟨_, by rw [hlease]; exact hrow, by rw [hlease]; exact le_rfl⟩, List.nodup_nil,
            fun _ _ q hq => absurd hq List.not_mem_nil,
            fun _ _ _ q hq => absurd hq List.not_mem_nil⟩
    · cases hw
  | _ => cases hw

/-- The operation of an act spares every Worker but the one whose turn it is. -/
theorem Act.op_spares {W : World} {a : Act} {o : Op} {w : Worker} (hen : a.enabled W = true)
    (ho : a.op = some o)
    (hne : ∀ v phase, a.turn cfg W.store = some (v, phase) → v.ticket ≠ w.ticket) : o.Spares w := by
  cases a with
  | external o' =>
    obtain rfl := Option.some.inj ho
    cases o' with
    | persistResponse => cases hen
    | _ => trivial
  | persist v id q outcome now =>
    obtain rfl := Option.some.inj ho
    intro hid htok
    exact absurd (Prod.ext hid htok) (hne v _ rfl)
  | transition v now finishedAt =>
    rcases Worker.transition_cases ho with ⟨c, rfl⟩ | ⟨e, i, rfl⟩ | ⟨⟨e, t, rfl⟩ | ⟨n, rfl⟩, -⟩ <;>
      trivial
  | loadSnapshots v => cases ho
  | takeQuestion v => cases ho
  | signal v q g => cases ho
  | check v => cases ho
  | _ =>
    obtain rfl := Option.some.inj ho
    trivial

/-- The Workers that do not act. -/
theorem WorkerInv.act {W : World} {a : Act} {w : Worker} (hw : WorkerInv cfg W.store w)
    (hen : a.enabled W = true)
    (hne : ∀ v phase, a.turn cfg W.store = some (v, phase) → v.ticket ≠ w.ticket) :
    WorkerInv cfg (W.next cfg a).store w := by
  rcases ho : a.op with _ | o
  · simp only [World.next, ho]
    exact hw
  · rw [World.store_next ho]
    exact hw.next (Act.op_spares hen ho hne)

/-- One act keeps the invariant. -/
theorem World.Inv.next {W : World} {a : Act} (hW : W.Inv cfg) (hen : a.enabled W = true)
    (hnot : ∀ o, a.op = some o → ¬ o.RequeuesCancelled W.store) : (W.next cfg a).Inv cfg := by
  have hstore : Reachable cfg (W.next cfg a).store ∧ Waiting (W.next cfg a).store := by
    rcases ho : a.op with _ | o
    · simp only [World.next, ho]
      exact ⟨hW.reach, hW.waiting⟩
    · obtain ⟨hiss, hreq⟩ := Act.op_issued hW hen ho (hnot o ho)
      rw [World.store_next ho]
      exact ⟨hW.reach.step o hiss, hW.waiting.next hW.reach.runsInv hiss hreq⟩
  rcases ht : a.turn cfg W.store with _ | ⟨w, phase⟩
  · -- nobody's turn: the Workers stay, and a claim may start one more
    have hworkers : (W.next cfg a).workers = a.started cfg W.store ++ W.workers := by
      simp only [World.next, ht]
    have hold : ∀ v ∈ W.workers, WorkerInv cfg (W.next cfg a).store v := by
      intro v hv
      refine (hW.workers v hv).act hen fun u phase hu => ?_
      rw [ht] at hu
      cases hu
    rcases hs : a.started cfg W.store with _ | ⟨w, l⟩
    · rw [hs, List.nil_append] at hworkers
      exact ⟨hstore.1, by rw [hworkers]; exact hW.tickets, by rw [hworkers]; exact hold, hstore.2⟩
    · obtain ⟨hone, -, hfresh, hw⟩ := Act.started_inv hW (hs ▸ List.mem_cons_self : w ∈ _)
      rw [hone] at hworkers
      refine ⟨hstore.1, ?_, fun v hv => ?_, hstore.2⟩
      · rw [hworkers]
        exact List.nodup_cons.mpr ⟨hfresh, hW.tickets⟩
      · rw [hworkers] at hv
        rcases List.mem_cons.mp hv with rfl | hv
        · exact hw
        · exact hold v hv
  · obtain ⟨hmem, hw⟩ := Act.turn_inv hW hen ht
    have hstarted : a.started cfg W.store = [] := by
      refine List.eq_nil_iff_forall_not_mem.mpr fun v hv => ?_
      rw [(Act.started_inv hW hv).2.1] at ht
      cases ht
    have hworkers : (W.next cfg a).workers = { w with phase } :: W.workers.erase w := by
      simp only [World.next, ht, hstarted, List.nil_append]
    have hperm : (W.workers.map Worker.ticket).Perm
        (w.ticket :: (W.workers.erase w).map Worker.ticket) :=
      (List.perm_cons_erase hmem).map Worker.ticket
    have hnd := hperm.nodup_iff.mp hW.tickets
    refine ⟨hstore.1, by rw [hworkers]; exact hnd, fun v hv => ?_, hstore.2⟩
    rw [hworkers] at hv
    rcases List.mem_cons.mp hv with rfl | hv
    · exact hw
    · refine (hW.workers v (List.mem_of_mem_erase hv)).act hen fun u phase' hu => ?_
      rw [ht] at hu
      obtain ⟨rfl, -⟩ := Prod.mk.inj (Option.some.inj hu)
      intro he
      exact (List.nodup_cons.mp hnd).1 (he ▸ List.mem_map_of_mem hv)

/-- The act gives no Run back whose cancellation has been requested. -/
def Act.Keeps (W : World) (a : Act) : Prop :=
  ∀ o, a.op = some o → ¬ o.RequeuesCancelled W.store

end LLMBenchLab
