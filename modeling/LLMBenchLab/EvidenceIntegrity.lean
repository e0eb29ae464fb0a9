import LLMBenchLab.Materialization

/-!
# Evidence integrity

Responses are only ever appended, and the columns a Run keeps about them follow:
`Moves.recorded` goes once over every transition of a Run row. Eleven of them
end the Run, each after it has aggregated the Responses of the Run under the row
lock; and a Run that has ended takes no further Response.
-/

namespace LLMBenchLab

open Relational Relational.Prog RunLeases

variable {cfg : Config} {s s' : Store}

/-- The columns of a Run agree with its Responses `rs`. -/
structure Recorded (rs : List Response) (r : Run) : Prop where
  count : r.completedQuestions = rs.length
  complete : r.status = .completed → rs.length = r.totalQuestions
  /-- aggregating once more changes no column -/
  metrics : r.status.terminal = true → aggregateRunEvidence rs r = r

/-- A Run that goes on has its Responses counted and no more. -/
theorem Recorded.open {rs : List Response} {r : Run} (hst : r.status = .pending ∨ r.status = .running)
    (hc : r.completedQuestions = rs.length) : Recorded rs r := by
  refine ⟨hc, fun h => ?_, fun h => ?_⟩
  · rcases hst with hst | hst <;> exact absurd (hst.symm.trans h) nofun
  · rcases hst with hst | hst <;> rw [hst] at h <;> cases h

theorem owns_status {lease : RunLease} {now : Time} {r : Run} (h : owns lease now r) :
    r.status = .running := by
  simp only [owns, Bool.and_eq_true, decide_eq_true_eq] at h
  exact h.1.1.1

/-- The Responses of a Run after an operation that moves it. -/
def Op.answered (o : Op) (rs : List Response) : List Response := rs ++ o.answer.toList

/-- Every transition leaves the columns in agreement with the Responses. -/
theorem Moves.recorded {rs : List Response} {o : Op} {r r' : Run} (h : Moves cfg rs o r r')
    (hr : Recorded rs r) : Recorded (o.answered rs) r' := by
  have hsame : o.answer = none → o.answered rs = rs := fun ho => by
    simp [Op.answered, ho]
  cases h with
  | claim he =>
    rw [hsame rfl]
    exact .open (Or.inr rfl) hr.count
  | persist hid ho hcan hnew =>
    refine .open (Or.inr (owns_status ho)) ?_
    simp [Op.answered, Op.answer]
  | cancelRunning hst =>
    rw [hsame rfl]
    exact .open (Or.inr hst) hr.count
  | notify hst =>
    rw [hsame rfl]
    exact .open (Or.inl hst) hr.count
  | renew ho =>
    rw [hsame rfl]
    refine .open (Or.inr ?_) hr.count
    simp only [Governance.fenced, Bool.and_eq_true, decide_eq_true_eq] at ho
    exact ho.1.1.1.1
  -- back to PENDING, with the metrics so far
  | failRetried =>
    rw [hsame rfl]
    exact .open (Or.inl rfl) rfl
  | reapRetried =>
    rw [hsame rfl]
    exact .open (Or.inl rfl) rfl
  | defer =>
    rw [hsame rfl]
    exact .open (Or.inl rfl) hr.count
  | yield =>
    rw [hsame rfl]
    exact .open (Or.inl rfl) hr.count
  -- the ends: COMPLETED only over a full set of Responses
  | failClosed =>
    rw [hsame rfl]
    refine ⟨rfl, fun hc => ?_, fun _ => rfl⟩
    simp only [Run.failedClosed, Run.clearLease] at hc
    split at hc <;> cases hc
  | cancelPending =>
    rw [hsame rfl]
    exact ⟨rfl, (by rintro ⟨⟩), fun _ => rfl⟩
  | finishCancelled =>
    rw [hsame rfl]
    exact ⟨rfl, (by rintro ⟨⟩), fun _ => rfl⟩
  | failCancelled =>
    rw [hsame rfl]
    exact ⟨rfl, (by rintro ⟨⟩), fun _ => rfl⟩
  | failRecovered _ _ _ hall =>
    rw [hsame rfl]
    exact ⟨rfl, fun _ => hall, fun _ => rfl⟩
  | failDeadLettered =>
    rw [hsame rfl]
    exact ⟨rfl, (by rintro ⟨⟩), fun _ => rfl⟩
  | exhaust =>
    rw [hsame rfl]
    exact ⟨rfl, (by rintro ⟨⟩), fun _ => rfl⟩
  | @finish _ _ cancelled _ _ _ _ hall =>
    rw [hsame rfl]
    refine ⟨rfl, fun hc => ?_, fun _ => rfl⟩
    simp only [Run.finished] at hc
    split at hc
    · cases hc
    · next hno =>
      cases cancelled with
      | true => cases hc
      | false => exact hall rfl (by simpa using hno)
  | reapCancelled =>
    rw [hsame rfl]
    exact ⟨rfl, (by rintro ⟨⟩), fun _ => rfl⟩
  | reapCompleted _ _ _ hall =>
    rw [hsame rfl]
    exact ⟨rfl, fun _ => hall, fun _ => rfl⟩
  | reapDeadLettered =>
    rw [hsame rfl]
    exact ⟨rfl, (by rintro ⟨⟩), fun _ => rfl⟩

/-- The question of a new Response is an open one. -/
theorem Moves.answer_open {rs : List Response} {o : Op} {r r' : Run} (h : Moves cfg rs o r r')
    {x : Response} (hx : o.answer = some x) : ∀ y ∈ rs, y.questionId ≠ x.questionId := by
  cases o with
  | persistResponse lease id q outcome now =>
    obtain rfl := Option.some.inj hx
    cases h with
    | persist hid ho hcan hnew =>
      have hq : (outcome.response id lease.runId q).questionId = q := by cases outcome <;> rfl
      rw [hq]
      exact hnew
  | _ => cases hx

/-- The invariant of the evidence. -/
structure EvidenceInv (s : Store) : Prop where
  owned : ∀ x ∈ s.responses.rows, (s.runs.get? x.runId).isSome
  distinct : ∀ x ∈ s.responses.rows, ∀ y ∈ s.responses.rows,
    x.runId = y.runId → x.questionId = y.questionId → x = y
  run : ∀ id r, s.runs.get? id = some r → Recorded (s.responsesOf id) r

theorem EvidenceInv.empty : EvidenceInv Store.empty where
  owned _ h := absurd h List.not_mem_nil
  distinct _ h := absurd h List.not_mem_nil
  run _ _ h := by cases h

/-- A Run that is not there has no Responses. -/
theorem EvidenceInv.responsesOf_nil (hi : EvidenceInv s) {id : RunId} (h : s.runs.get? id = none) :
    s.responsesOf id = [] := by
  rw [List.eq_nil_iff_forall_not_mem]
  intro x hx
  obtain ⟨hmem, rfl⟩ := mem_responsesOf.mp hx
  have hsome := hi.owned x hmem
  rw [h] at hsome
  cases hsome

/-- The Run of every old Response is still there. -/
theorem EvidenceInv.owned_step {o : Op} (hi : EvidenceInv s) (h : StoreStep cfg o s s') :
    ∀ x ∈ s.responses.rows, (s'.runs.get? x.runId).isSome := by
  intro x hx
  obtain ⟨r, hr⟩ := Option.isSome_iff_exists.mp (hi.owned x hx)
  obtain ⟨r', hr', -⟩ := h.sameOrigin hr
  rw [hr']
  rfl

theorem StoreStep.evidenceInv {o : Op} (h : StoreStep cfg o s s') (hi : EvidenceInv s) :
    EvidenceInv s' := by
  have howned := hi.owned_step h
  cases h with
  | idle hruns hresp =>
    refine ⟨by rw [hresp]; exact howned, by rw [hresp]; exact hi.distinct, fun id r hr => ?_⟩
    rw [hruns] at hr
    rw [responsesOf_congr hresp]
    exact hi.run id r hr
  | @admitted n policy provider now ho hnew hpol hruns hresp =>
    refine ⟨by rw [hresp]; exact howned, by rw [hresp]; exact hi.distinct, fun id r hr => ?_⟩
    rw [responsesOf_congr hresp]
    rw [hruns, Table.get?_insert] at hr
    split at hr
    · next hid =>
      have hnew' : s.runs.get? (key (n.admitted cfg policy provider now)) = none := hnew
      rw [hnew'] at hr
      obtain rfl := Option.some.inj hr
      refine .open (Or.inl rfl) ?_
      rw [hi.responsesOf_nil (by rw [hid]; exact hnew')]
      rfl
    · exact hi.run id r hr
  | @move r r' hr hm hruns hresp hfresh _ =>
    have hrows := rows_evidence hfresh hresp
    have hof := responsesOf_evidence hfresh hresp
    have hr' : s'.runs.get? r.id = some r' := by
      rw [hruns, get?_put_move hr hm.sameOrigin.id, if_pos rfl]
    have hmem : ∀ {x : Response}, x ∈ s'.responses.rows →
        x ∈ s.responses.rows ∨ o.answer = some x := by
      intro x hx
      rw [hrows, List.mem_append, Option.mem_toList] at hx
      exact hx
    refine ⟨fun x hx => ?_, fun x hx y hy hrun hq => ?_, fun id q hq => ?_⟩
    · rcases hmem hx with hx | hx
      · exact howned x hx
      · rw [hm.answer_run hx, hr']
        rfl
    · -- a new Response answers a question its Run had not answered
      rcases hmem hx with hx | hx <;> rcases hmem hy with hy | hy
      · exact hi.distinct x hx y hy hrun hq
      · rw [hm.answer_run hy] at hrun
        exact absurd hq (hm.answer_open hy x (mem_responsesOf.mpr ⟨hx, hrun⟩))
      · rw [hm.answer_run hx] at hrun
        exact absurd hq.symm (hm.answer_open hx y (mem_responsesOf.mpr ⟨hy, hrun.symm⟩))
      · exact Option.some.inj (hx.symm.trans hy)
    · rw [hof]
      rw [hruns, get?_put_move hr hm.sameOrigin.id] at hq
      split at hq
      · next hid =>
        subst hid
        obtain rfl := Option.some.inj hq
        have hown : o.answer.toList.filter (fun x => x.runId == r.id) = o.answer.toList := by
          rw [List.filter_eq_self]
          intro x hx
          exact beq_iff_eq.mpr (hm.answer_run (Option.mem_toList.mp hx))
        rw [hown]
        exact hm.recorded (hi.run _ r hr)
      · next hne =>
        have hother : o.answer.toList.filter (fun x => x.runId == id) = [] := by
          rw [List.filter_eq_nil_iff]
          intro x hx he
          exact hne ((beq_iff_eq.mp he).symm.trans (hm.answer_run (Option.mem_toList.mp hx)))
        rw [hother, List.append_nil]
        exact hi.run id q hq

theorem Committed.evidenceInv (h : Committed cfg s) : EvidenceInv s :=
  Reaches.invariant h .empty fun _ _ hi _ =>
    next_invariant hi fun _ _ hi hs => hs.evidenceInv hi

/-! ## What stays -/

/-- Responses are neither changed nor removed. -/
theorem StoreStep.keeps {o : Op} (h : StoreStep cfg o s s') {id : ResponseId} {x : Response}
    (hx : s.responses.get? id = some x) : s'.responses.get? id = some x := by
  cases h with
  | idle _ hresp => rw [hresp]; exact hx
  | admitted _ _ _ _ hresp => rw [hresp]; exact hx
  | @move r r' hr hm hruns hresp hfresh _ =>
    rw [hresp, Op.evidence]
    rcases ha : o.answer with _ | y
    · exact hx
    · have hnone : s.responses.get? (key y) = none := hfresh y ha
      show (s.responses.insert y).get? id = some x
      rw [Table.get?_insert, if_neg, hx]
      rintro rfl
      exact absurd (hnone.symm.trans hx) (by rintro ⟨⟩)

/-- A Run that has ended stays as it is, with the Responses it has. -/
theorem StoreStep.ended {o : Op} (h : StoreStep cfg o s s') {id : RunId} {r : Run}
    (hr : s.runs.get? id = some r) (hend : r.status.terminal = true) :
    s'.runs.get? id = some r ∧ s'.responsesOf id = s.responsesOf id := by
  cases h with
  | idle hruns hresp => exact ⟨by rw [hruns]; exact hr, responsesOf_congr hresp id⟩
  | @admitted n policy provider now ho hnew hpol hruns hresp =>
    refine ⟨?_, responsesOf_congr hresp id⟩
    rw [hruns, Table.get?_insert, if_neg, hr]
    rintro rfl
    exact absurd (hnew.symm.trans hr) nofun
  | @move q q' hq hm hruns hresp hfresh _ =>
    have hne : id ≠ q.id := by
      rintro rfl
      obtain rfl := Option.some.inj (hq.symm.trans hr)
      rw [hm.not_terminal] at hend
      cases hend
    refine ⟨?_, ?_⟩
    · rw [hruns, get?_put_move hq hm.sameOrigin.id, if_neg hne]
      exact hr
    · rw [responsesOf_evidence hfresh hresp, List.filter_eq_nil_iff.mpr, List.append_nil]
      intro x hx he
      exact hne ((beq_iff_eq.mp he).symm.trans (hm.answer_run (Option.mem_toList.mp hx)))

/-- **Evidence integrity.** After any sequence of committed operations a Run has
at most one Response a question and counts all of them, a COMPLETED Run has one
for each of its questions, and no continuation changes or removes a Response.
The metrics of a Run that has ended are what aggregating its Responses gives, in
this state and in every later one. -/
theorem evidence_integrity (cfg : Config) (s : Store) (h : Committed cfg s) :
    (∀ id, ((s.responsesOf id).map Response.questionId).Nodup) ∧
      (∀ s', Reaches (next cfg) (fun _ _ => True) s s' → ∀ id x,
        s.responses.get? id = some x → s'.responses.get? id = some x) ∧
      ∀ id r, s.runs.get? id = some r →
        r.completedQuestions = (s.responsesOf id).length ∧
        (r.status = .completed → (s.responsesOf id).length = r.totalQuestions) ∧
        (r.status.terminal = true → ∀ s', Reaches (next cfg) (fun _ _ => True) s s' →
          s'.runs.get? id = some r ∧ aggregateRunEvidence (s'.responsesOf id) r = r) := by
  have hi := h.evidenceInv
  refine ⟨fun id => ?_, fun s' hreach id x hx => ?_, fun id r hr => ?_⟩
  · refine List.Nodup.map_on (fun x hx y hy he => ?_)
      ((List.Nodup.of_map _ s.responses.nodup).filter _)
    obtain ⟨hx, hxid⟩ := mem_responsesOf.mp hx
    obtain ⟨hy, hyid⟩ := mem_responsesOf.mp hy
    exact hi.distinct x hx y hy (hxid.trans hyid.symm) he
  · exact hreach.invariant (I := fun s => s.responses.get? id = some x) hx fun _ _ hx _ =>
      next_invariant hx fun _ _ hx hs => hs.keeps hx
  · have hrec := hi.run id r hr
    refine ⟨hrec.count, hrec.complete, fun hend s' hreach => ?_⟩
    obtain ⟨hr', hrs⟩ : s'.runs.get? id = some r ∧ s'.responsesOf id = s.responsesOf id := by
      refine hreach.invariant
        (I := fun s' => s'.runs.get? id = some r ∧ s'.responsesOf id = s.responsesOf id)
        ⟨hr, rfl⟩ fun s₁ o hs _ => ?_
      refine next_invariant
        (I := fun s' => s'.runs.get? id = some r ∧ s'.responsesOf id = s.responsesOf id) hs
        fun s₂ s₃ hs hstep => ?_
      obtain ⟨hr', hrs⟩ := hstep.ended hs.1 hend
      exact ⟨hr', hrs.trans hs.2⟩
    rw [hrs]
    exact ⟨hr', hrec.metrics hend⟩

/-- Run 1 answers two of its three questions and is cancelled. -/
def Sample.cancelledRun : List Op :=
  [.admitRun (Sample.newRun 1 Sample.unlimited) 10, .claim 1 100 20,
    .persistResponse Sample.lease 11 1 (Sample.answer 3 5) 30,
    .persistResponse Sample.lease 12 2 (.adapterError "http_error") 40,
    .requestCancel 1 50, .finishCancelled Sample.lease 60]

theorem evidence_integrity_sample :
    ∃ r, (Sample.after Sample.cancelledRun).runs.get? 1 = some r ∧ r.status = .cancelled ∧
      r.completedQuestions = 2 ∧
      aggregateRunEvidence ((Sample.after Sample.cancelledRun).responsesOf 1) r = r := by
  have hrun : ((Sample.after Sample.cancelledRun).runs.get? 1).map
      (fun r => (r.status, r.completedQuestions)) = some (.cancelled, 2) := by decide +kernel
  obtain ⟨r, hr, he⟩ := Option.map_eq_some_iff.mp hrun
  have hst : r.status = .cancelled := congrArg Prod.fst he
  obtain ⟨-, -, hall⟩ := evidence_integrity Sample.config _ (Sample.committed_after _)
  obtain ⟨-, -, hmetrics⟩ := hall 1 r hr
  exact ⟨r, hr, hst, congrArg Prod.snd he, (hmetrics (by rw [hst]; rfl) _ .start).2⟩

end LLMBenchLab
