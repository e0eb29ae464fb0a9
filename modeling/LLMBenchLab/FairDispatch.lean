import LLMBenchLab.Constraints

/-!
# Fair dispatch

`due_run_ids` (`runners/run_leases.py`) lists the Runs that can be claimed: expired
leases first, then the Run that was served longest ago, by its last dispatch or yield
and before the first one by its creation. A claim and a yield stamp the Run with their
clock reading and no transition takes a stamp back, so a Run that has been waiting since
before a claim of another is in front of that one (`fair_order`).

The scan and the claims that follow it are transactions of their own. A scan is
therefore fair to the Runs that wait at its instant, while a claim off an older scan
may serve one Run twice before another (`fair_dispatch`, `stale_scan_dispatches_twice`).
-/

namespace LLMBenchLab

open Relational Relational.Prog RunLeases

/-! ## The scan -/

namespace Run

/-- `expired_first` -/
def expiredFirst (r : Run) : ℕ := if r.status = .running then 0 else 1

/-- `coalesce(last_scheduled_at, created_at)` -/
def lastServed (r : Run) : Time := r.lastScheduledAt.getD r.createdAt

/-- The ORDER BY of `due_run_ids`. -/
def DueLe (a b : Run) : Prop :=
  a.expiredFirst < b.expiredFirst ∨ a.expiredFirst = b.expiredFirst ∧
    (a.lastServed < b.lastServed ∨ a.lastServed = b.lastServed ∧
      (a.createdAt < b.createdAt ∨ a.createdAt = b.createdAt ∧ a.id ≤ b.id))

instance : DecidableRel DueLe := fun _ _ => inferInstanceAs (Decidable (_ ∨ _))

instance : Std.Total DueLe where
  total a b := by
    simp only [DueLe, Time, RunId]
    omega

instance : IsTrans Run DueLe where
  trans a b c hab hbc := by
    simp only [DueLe, Time, RunId] at hab hbc ⊢
    omega

end Run

/-- The eligible Runs in the order of `due_run_ids`. -/
def dueRuns (now : Time) (s : Store) : List Run :=
  (s.runs.rows.filter fun r : Run =>
    r.eligible (s.responsesOf r.id).length now).insertionSort Run.DueLe

/-- `due_run_ids` -/
def dueRunIds (limit : ℤ) (now : Time) (s : Store) : List RunId :=
  if limit < 1 then [] else ((dueRuns now s).take limit.toNat).map fun r => r.id

/-! ## Histories -/

/-- The clock reading of a transaction. -/
def Op.clock : Op → Time
  | applyPolicy _ _ _ now => now
  | admitRun _ now => now
  | claim _ _ now => now
  | failClosedTakeover _ now => now
  | persistResponse _ _ _ _ now => now
  | requestCancel _ now => now
  | finishCancelled _ now => now
  | recordNotificationResult _ _ now => now
  | failAttempt _ _ now => now
  | deferGovernance _ _ _ now => now
  | cooperativeYield _ _ now => now
  | exhaustGovernance _ _ _ now => now
  | finishRun _ _ now _ => now
  | reap _ now => now
  | questionContext _ _ _ _ _ _ _ _ now => now
  | reserve _ _ _ _ now => now
  | markSendStarted _ _ now => now
  | finish _ _ now => now
  | reconcileRunLease _ _ now => now
  | renewRunLease _ _ _ now => now

/-- Operations whose clock readings increase. -/
structure History where
  ops : List Op
  clock : ops.Pairwise fun a b => a.clock < b.clock

namespace History

variable (cfg : Config) (H : History)

/-- The store that an operation at the instant `u` finds. -/
def before (u : Time) : Store :=
  (H.ops.takeWhile fun o => decide (o.clock < u)).foldl (next cfg) Store.empty

/-- The Run is PENDING and eligible at the instant `u`. -/
def Waiting (id : RunId) (u : Time) : Prop :=
  ∃ r, (H.before cfg u).runs.get? id = some r ∧ r.status = .pending ∧
    r.eligible ((H.before cfg u).responsesOf id).length u = true

/-- The Run is PENDING and eligible from `t` to `u` without interruption. -/
def WaitsThroughout (id : RunId) (t u : Time) : Prop :=
  ∀ v, t ≤ v → v ≤ u → H.Waiting cfg id v

/-- A claim of the Run at the instant `t` succeeds. -/
def Dispatches (id : RunId) (t : Time) : Prop :=
  ∃ owner claimed s', .claim id owner t ∈ H.ops ∧
    exec schema (claim cfg id owner t) (H.before cfg t) = .ok (some claimed, s')

/-- A claim of the Run at the instant `t` finds that it is not eligible. -/
def Refuses (id : RunId) (t : Time) : Prop :=
  ∃ owner s', .claim id owner t ∈ H.ops ∧
    exec schema (claim cfg id owner t) (H.before cfg t) = .ok (none, s')

/-- `claim_next`: a claim at the instant `t` off a scan at the instant `v`, after the
Runs in front of this one have refused. -/
structure DispatchesOff (limit : ℤ) (v : Time) (id : RunId) (t : Time) : Prop where
  later : v ≤ t
  listed : id ∈ dueRunIds limit v (H.before cfg v)
  tried : ∀ q, [q, id].Sublist (dueRunIds limit v (H.before cfg v)) →
    ∃ u, v ≤ u ∧ u < t ∧ H.Refuses cfg q u
  dispatches : H.Dispatches cfg id t

end History

/-! ## What the order says -/

section Order

variable {α : Type} {le : α → α → Prop} {xs ys : List α} {a b : α}

/-- In a prefix of a sorted list, what is strictly below an entry is in front of it. -/
theorem sublist_of_sorted [Std.Refl le] (hxs : xs.Pairwise le) (hys : ys <+: xs) (ha : a ∈ xs)
    (hb : b ∈ ys) (hlt : ¬ le b a) : [a, b].Sublist ys := by
  obtain ⟨l₁, l₂, rfl⟩ := List.append_of_mem hb
  obtain ⟨rest, rfl⟩ := hys
  rw [List.append_assoc, List.cons_append] at hxs ha
  have hafter := (List.pairwise_cons.mp (List.pairwise_append.mp hxs).2.1).1
  rcases List.mem_append.mp ha with ha | ha
  · exact (List.singleton_sublist.mpr ha).append (List.singleton_sublist.mpr List.mem_cons_self)
  · rcases List.mem_cons.mp ha with rfl | ha
    · exact absurd (refl_of le a) hlt
    · exact absurd (hafter a ha) hlt

end Order

variable {cfg : Config} {s s' : Store}

theorem mem_dueRuns {now : Time} {r : Run} : r ∈ dueRuns now s ↔
    r ∈ s.runs.rows ∧ r.eligible (s.responsesOf r.id).length now = true := by
  rw [dueRuns, List.mem_insertionSort, List.mem_filter]

theorem nodup_dueRuns (now : Time) (s : Store) : ((dueRuns now s).map fun r => r.id).Nodup := by
  have hsort : (dueRuns now s).Perm _ := List.perm_insertionSort _ _
  exact (hsort.map _).nodup_iff.mpr (s.runs.nodup.sublist (List.filter_sublist.map _))

/-- Of two PENDING Runs the one that was served before is in front of the other. -/
theorem dueRunIds_of_served {now : Time} {q r : Run} (hq : q ∈ dueRuns now s)
    (hr : r ∈ dueRuns now s) (hqst : q.status = .pending) (hrst : r.status = .pending)
    (hlt : q.lastServed < r.lastServed) :
    [q.id, r.id].Sublist ((dueRuns now s).map fun r => r.id) ∧
      ∀ limit, r.id ∈ dueRunIds limit now s → [q.id, r.id].Sublist (dueRunIds limit now s) := by
  have hsorted : (dueRuns now s).Pairwise Run.DueLe := List.pairwise_insertionSort _ _
  have hnot : ¬ r.DueLe q := by
    simp only [Run.DueLe, Run.expiredFirst, hqst, hrst, Time, RunId] at hlt ⊢
    omega
  have hrefl : Std.Refl Run.DueLe := ⟨fun x => (total_of Run.DueLe x x).elim id id⟩
  refine ⟨(sublist_of_sorted hsorted (List.prefix_refl _) hq hr hnot).map _, fun limit hmem => ?_⟩
  unfold dueRunIds at hmem ⊢
  split at hmem
  · cases hmem
  · next hlimit =>
    rw [if_neg hlimit]
    obtain ⟨r', hr', hid⟩ := List.mem_map.mp hmem
    obtain rfl : r' = r :=
      Table.eq_of_key (mem_dueRuns.mp (List.mem_of_mem_take hr')).1 (mem_dueRuns.mp hr).1 hid
    exact (sublist_of_sorted hsorted (List.take_prefix _ _) hq hr' hnot).map _

/-! ## What a step does to the stamps -/

/-- A Run after a step is as it was, or has moved. -/
theorem StoreStep.run_cases {o : Op} (h : StoreStep cfg o s s') {id : RunId} {r : Run}
    (hr : s.runs.get? id = some r) :
    s'.runs.get? id = some r ∨
      ∃ r', s'.runs.get? id = some r' ∧ Moves cfg (s.responsesOf id) o r r' := by
  cases h with
  | idle hruns => exact Or.inl (by rw [hruns]; exact hr)
  | admitted _ hnew _ hruns =>
    refine Or.inl ?_
    rw [hruns, Table.get?_insert, if_neg]
    · exact hr
    · rintro rfl
      cases hnew.symm.trans hr
  | move hm hmove hruns =>
    rw [hruns, get?_put_move hm hmove.sameOrigin.id]
    split
    · next h =>
      subst h
      obtain rfl := Option.some.inj (hm.symm.trans hr)
      exact Or.inr ⟨_, rfl, hmove⟩
    · exact Or.inl hr

/-- Claims and yields stamp a Run with their clock reading, other transitions keep its
stamps. -/
theorem Moves.stamps {rs : List Response} {o : Op} {r r' : Run} (h : Moves cfg rs o r r') :
    r'.createdAt = r.createdAt ∧
      (r'.lastScheduledAt = r.lastScheduledAt ∨ r'.lastScheduledAt = some o.clock) := by
  cases h with
  | claim => exact ⟨rfl, Or.inr rfl⟩
  | yield => exact ⟨rfl, Or.inr rfl⟩
  | _ => exact ⟨rfl, Or.inl rfl⟩

/-- The operations that end the wait of a PENDING Run. -/
def Op.EndsWait : Op → Prop
  | claim .. | requestCancel .. => True
  | _ => False

theorem Moves.of_pending {rs : List Response} {o : Op} {r r' : Run} (h : Moves cfg rs o r r')
    (hst : r.status = .pending) :
    (r'.status = .pending ∧ r'.lastServed = r.lastServed) ∨
      (o.EndsWait ∧ r'.status ≠ .pending) := by
  have howned {lease : RunLease} {now : Time} (ho : owns lease now r) : False := by
    cases hst.symm.trans (owns_running ho)
  have hexpired {now : Time} (hx : r.leaseExpired now) : False := by
    cases hst.symm.trans (running_of_leaseExpired hx)
  cases h with
  | claim => exact Or.inr ⟨trivial, by rintro ⟨⟩⟩
  | cancelPending => exact Or.inr ⟨trivial, by rintro ⟨⟩⟩
  | notify => exact Or.inl ⟨hst, rfl⟩
  | failClosed _ hrun => cases hst.symm.trans hrun
  | cancelRunning hrun => cases hst.symm.trans hrun
  | persist _ ho => exact (howned ho).elim
  | finishCancelled _ ho => exact (howned ho).elim
  | failCancelled _ ho => exact (howned ho).elim
  | failRecovered _ ho => exact (howned ho).elim
  | failDeadLettered _ ho => exact (howned ho).elim
  | failRetried _ ho => exact (howned ho).elim
  | defer _ ho => exact (howned ho).elim
  | yield _ ho => exact (howned ho).elim
  | exhaust _ ho => exact (howned ho).elim
  | finish _ ho => exact (howned ho).elim
  | reapCancelled _ hx => exact (hexpired hx).elim
  | reapCompleted _ hx => exact (hexpired hx).elim
  | reapDeadLettered _ hx => exact (hexpired hx).elim
  | reapRetried _ hx => exact (hexpired hx).elim
  | renew => exact Or.inl ⟨hst, rfl⟩

theorem Moves.not_pending {rs : List Response} {o : Op} {r r' : Run} (h : Moves cfg rs o r r')
    (ho : o.EndsWait) (hst : r.status ≠ .pending) : r'.status ≠ .pending := by
  cases h with
  | claim => rintro ⟨⟩
  | cancelPending hp => exact absurd hp hst
  | cancelRunning => exact hst
  | _ => exact ho.elim

/-- A Run that stays PENDING keeps its place. -/
theorem next_pending {o : Op} {id : RunId} {t : Time} {r : Run} (hr : s.runs.get? id = some r)
    (hst : r.status = .pending) (hlt : r.lastServed < t) :
    ∃ r', (next cfg s o).runs.get? id = some r' ∧ (r'.status = .pending → r'.lastServed < t) := by
  -- within one operation a wait that has ended does not begin again
  have hI : ∃ r', (next cfg s o).runs.get? id = some r' ∧
      ((r'.status = .pending ∧ r'.lastServed < t) ∨ (o.EndsWait ∧ r'.status ≠ .pending)) := by
    refine next_invariant (I := fun s => ∃ r', s.runs.get? id = some r' ∧
      ((r'.status = .pending ∧ r'.lastServed < t) ∨ (o.EndsWait ∧ r'.status ≠ .pending)))
      ⟨r, hr, Or.inl ⟨hst, hlt⟩⟩ ?_
    rintro s₁ s₂ ⟨r₁, hr₁, hcase⟩ hstep
    rcases hstep.run_cases hr₁ with hsame | ⟨r₂, hr₂, hmove⟩
    · exact ⟨r₁, hsame, hcase⟩
    · refine ⟨r₂, hr₂, ?_⟩
      rcases hcase with ⟨hp, hserved⟩ | ⟨ho, hne⟩
      · rcases hmove.of_pending hp with ⟨hp', heq⟩ | hended
        · exact Or.inl ⟨hp', heq ▸ hserved⟩
        · exact Or.inr hended
      · exact Or.inr ⟨ho, hmove.not_pending ho hne⟩
  obtain ⟨r', hr', hcase⟩ := hI
  refine ⟨r', hr', fun hp => ?_⟩
  rcases hcase with ⟨-, hserved⟩ | ⟨-, hne⟩
  · exact hserved
  · exact absurd hp hne

/-- The Run has been served at `t` or later. -/
def ServedSince (id : RunId) (t : Time) (s : Store) : Prop :=
  ∃ r, s.runs.get? id = some r ∧ ∃ u ∈ r.lastScheduledAt, t ≤ u

theorem ServedSince.next {o : Op} {id : RunId} {t : Time} (h : ServedSince id t s)
    (ho : t ≤ o.clock) : ServedSince id t (next cfg s o) := by
  refine next_invariant h ?_
  rintro s₁ s₂ ⟨r, hr, hserved⟩ hstep
  rcases hstep.run_cases hr with hsame | ⟨r', hr', hmove⟩
  · exact ⟨r, hsame, hserved⟩
  · refine ⟨r', hr', ?_⟩
    rcases hmove.stamps.2 with heq | heq
    · rw [heq]
      exact hserved
    · exact ⟨o.clock, heq, ho⟩

/-- All stamps are older than `t`. -/
def Stamped (t : Time) (s : Store) : Prop :=
  ∀ id r, s.runs.get? id = some r → r.createdAt < t ∧ ∀ u ∈ r.lastScheduledAt, u < t

theorem Stamped.next {o : Op} {t : Time} (h : Stamped t s) (ho : o.clock < t) :
    Stamped t (next cfg s o) := by
  refine next_invariant h fun s₁ s₂ hs hstep id r' hr' => ?_
  cases hstep with
  | idle hruns =>
    rw [hruns] at hr'
    exact hs id r' hr'
  | @admitted n policy provider now hadmit hnew _ hruns =>
    have hnone : s₁.runs.get? (key (n.admitted cfg policy provider now)) = none := hnew
    rw [hruns, Table.get?_insert, hnone] at hr'
    split at hr'
    · obtain rfl := Option.some.inj hr'
      subst hadmit
      exact ⟨ho, by rintro _ ⟨⟩⟩
    · exact hs id r' hr'
  | move hm hmove hruns =>
    rw [hruns, get?_put_move hm hmove.sameOrigin.id] at hr'
    split at hr'
    · obtain rfl := Option.some.inj hr'
      obtain ⟨hcreated, hserved⟩ := hs _ _ hm
      refine ⟨hmove.stamps.1 ▸ hcreated, fun u hu => ?_⟩
      rcases hmove.stamps.2 with heq | heq
      · exact hserved u (heq ▸ hu)
      · rw [heq] at hu
        obtain rfl := Option.some.inj hu
        exact ho
    · exact hs id r' hr'

theorem Stamped.lastServed {id : RunId} {t : Time} {r : Run} (h : Stamped t s)
    (hr : s.runs.get? id = some r) : r.lastServed < t := by
  obtain ⟨hcreated, hserved⟩ := h id r hr
  unfold Run.lastServed
  cases hlast : r.lastScheduledAt with
  | none => exact hcreated
  | some u => exact hserved u hlast

/-! ## Histories and their stores -/

namespace History

variable {H : History} {l₁ l₂ l : List Op} {t u : Time} {q r : RunId}

theorem before_eq (hops : H.ops = l₁ ++ l₂) (h₁ : ∀ o ∈ l₁, o.clock < t)
    (h₂ : ∀ o ∈ l₂, t ≤ o.clock) :
    H.before cfg t = l₁.foldl (next cfg) Store.empty := by
  have htake : l₂.takeWhile (fun o => decide (o.clock < t)) = [] := by
    cases l₂ with
    | nil => rfl
    | cons o l => exact List.takeWhile_cons_of_neg (by simpa using h₂ o List.mem_cons_self)
  have hall : ∀ o ∈ l₁, decide (o.clock < t) = true := fun o ho => decide_eq_true (h₁ o ho)
  rw [before, hops, List.takeWhile_append_of_pos hall, htake, List.append_nil]

/-- The operations in front of one have older readings, and those behind it later ones. -/
theorem clock_split {o : Op} (hops : H.ops = l₁ ++ o :: l₂) :
    (∀ x ∈ l₁, x.clock < o.clock) ∧ ∀ x ∈ l₂, o.clock < x.clock := by
  have h := H.clock
  rw [hops] at h
  obtain ⟨-, hcons, hcross⟩ := List.pairwise_append.mp h
  exact ⟨fun x hx => hcross x hx o List.mem_cons_self, (List.pairwise_cons.mp hcons).1⟩

theorem before_clock {o : Op} (hops : H.ops = l₁ ++ o :: l₂) :
    H.before cfg o.clock = l₁.foldl (next cfg) Store.empty := by
  obtain ⟨hl, hr⟩ := clock_split hops
  refine before_eq hops hl fun x hx => ?_
  rcases List.mem_cons.mp hx with rfl | hx
  · exact le_rfl
  · exact (hr x hx).le

/-- The store at a later instant, after the operations in between. -/
theorem before_later {o : Op} (hops : H.ops = l₁ ++ o :: l₂) (hlt : o.clock < u) :
    H.before cfg u =
      (l₁ ++ o :: l₂.takeWhile fun x => decide (x.clock < u)).foldl (next cfg) Store.empty := by
  have hall : ∀ x ∈ l₁, decide (x.clock < u) = true := fun x hx =>
    decide_eq_true (((clock_split hops).1 x hx).trans hlt)
  have hcons : (o :: l₂).takeWhile (fun x => decide (x.clock < u)) =
      o :: l₂.takeWhile fun x => decide (x.clock < u) :=
    List.takeWhile_cons_of_pos (decide_eq_true hlt)
  rw [before, hops, List.takeWhile_append_of_pos hall, hcons]

theorem stamped_foldl (h : ∀ o ∈ l, o.clock < t) :
    Stamped t (l.foldl (next cfg) Store.empty) := by
  induction l using List.reverseRecOn with
  | nil => exact fun id r hr => by cases hr
  | append_singleton l o ih =>
    rw [List.foldl_append]
    exact (ih fun x hx => h x (List.mem_append_left _ hx)).next
      (h o (List.mem_append_right _ List.mem_cons_self))

theorem servedSince_foldl (hl : ∀ o ∈ l, t ≤ o.clock) (hs : ServedSince r t s) :
    ServedSince r t (l.foldl (next cfg) s) := by
  induction l generalizing s with
  | nil => exact hs
  | cons o l ih =>
    exact ih (fun x hx => hl x (List.mem_cons_of_mem _ hx)) (hs.next (hl o List.mem_cons_self))

/-- A Run that waits from an instant on is PENDING after every operation since. -/
theorem WaitsThroughout.pending {o : Op} (hw : H.WaitsThroughout cfg q o.clock u)
    (hops : H.ops = l₁ ++ o :: l₂) (hlt : o.clock < u)
    (hl : l <+: o :: l₂.takeWhile fun x => decide (x.clock < u)) :
    ∃ r, ((l₁ ++ l).foldl (next cfg) Store.empty).runs.get? q = some r ∧ r.status = .pending := by
  obtain ⟨rest, hrest⟩ := hl
  cases rest with
  | nil =>
    rw [List.append_nil] at hrest
    subst hrest
    rw [← before_later hops hlt]
    obtain ⟨r, hr, hst, -⟩ := hw u hlt.le le_rfl
    exact ⟨r, hr, hst⟩
  | cons x rest =>
    -- the next operation finds the Run waiting
    have hx : x = o ∨ x ∈ l₂.takeWhile fun x => decide (x.clock < u) := by
      refine List.mem_cons.mp ?_
      rw [← hrest]
      exact List.mem_append_right _ List.mem_cons_self
    have hxclock : o.clock ≤ x.clock ∧ x.clock ≤ u := by
      rcases hx with rfl | hx
      · exact ⟨le_rfl, hlt.le⟩
      · have hxu : x.clock < u := of_decide_eq_true (List.all_eq_true.mp List.all_takeWhile x hx)
        exact ⟨((clock_split hops).2 x (List.takeWhile_subset _ hx)).le, hxu.le⟩
    have hsplit : H.ops = (l₁ ++ l) ++ x :: (rest ++ l₂.dropWhile fun x => decide (x.clock < u)) := by
      calc H.ops = l₁ ++ o :: (l₂.takeWhile (fun x => decide (x.clock < u)) ++
            l₂.dropWhile fun x => decide (x.clock < u)) := by rw [List.takeWhile_append_dropWhile, hops]
        _ = l₁ ++ ((l ++ x :: rest) ++ l₂.dropWhile fun x => decide (x.clock < u)) := by
            rw [hrest, List.cons_append]
        _ = _ := by simp
    obtain ⟨r, hr, hst, -⟩ := hw x.clock hxclock.1 hxclock.2
    rw [before_clock hsplit] at hr
    exact ⟨r, hr, hst⟩

/-- A Run that waits from an instant on was served before that instant. -/
theorem WaitsThroughout.served {o : Op} (hw : H.WaitsThroughout cfg q o.clock u)
    (hops : H.ops = l₁ ++ o :: l₂) (hlt : o.clock < u) :
    ∃ r, (H.before cfg u).runs.get? q = some r ∧ r.status = .pending ∧ r.lastServed < o.clock := by
  have hprefix : ∀ l, l <+: (o :: l₂.takeWhile fun x => decide (x.clock < u)) →
      ∃ r, ((l₁ ++ l).foldl (next cfg) Store.empty).runs.get? q = some r ∧ r.status = .pending ∧
        r.lastServed < o.clock := by
    intro l
    induction l using List.reverseRecOn with
    | nil =>
      intro hl
      obtain ⟨r, hr, hst⟩ := hw.pending hops hlt hl
      refine ⟨r, hr, hst, ?_⟩
      rw [List.append_nil] at hr
      exact (stamped_foldl (clock_split hops).1).lastServed hr
    | append_singleton l x ih =>
      intro hl
      obtain ⟨r, hr, hst, hserved⟩ := ih ((List.prefix_append _ _).trans hl)
      obtain ⟨r', hr', hst'⟩ := hw.pending hops hlt hl
      refine ⟨r', hr', hst', ?_⟩
      rw [← List.append_assoc, List.foldl_append] at hr'
      obtain ⟨r'', hr'', hserved'⟩ := next_pending (o := x) hr hst hserved
      obtain rfl := Option.some.inj (hr'.symm.trans hr'')
      exact hserved' hst'
  rw [before_later hops hlt]
  exact hprefix _ (List.prefix_refl _)

/-- A Run that has been claimed is served since. -/
theorem Dispatches.served (h : H.Dispatches cfg r t) (hlt : t < u) :
    ServedSince r t (H.before cfg u) := by
  obtain ⟨owner, claimed, s', hmem, hexec⟩ := h
  obtain ⟨l₁, l₂, hops⟩ := List.append_of_mem hmem
  have hbefore : H.before cfg t = l₁.foldl (next cfg) Store.empty := before_clock hops
  rw [hbefore] at hexec
  have hclaimed : ServedSince r t (next cfg (l₁.foldl (next cfg) Store.empty) (.claim r owner t)) := by
    have hafter : next cfg (l₁.foldl (next cfg) Store.empty) (.claim r owner t) = s' :=
      after_of_ok ((exec_bind_of_ok hexec).trans rfl)
    rw [hafter]
    obtain ⟨-, hnone⟩ | ⟨run, hrun, rfl, -, -, audit, -, rfl⟩ := claim_step hexec
    · cases hnone
    · exact ⟨_, Table.get?_put_self hrun, t, rfl, le_rfl⟩
  rw [before_later hops hlt, List.foldl_append, List.foldl_cons]
  refine servedSince_foldl (fun x hx => ?_) hclaimed
  exact ((clock_split hops).2 x (List.takeWhile_subset _ hx)).le

/-! ## Fairness -/

/-- A Run that waits since before a claim of another is in front of that one. -/
theorem fair_order (hd : H.Dispatches cfg r t) (hlt : t < u) (hq : H.WaitsThroughout cfg q t u)
    (hr : H.Waiting cfg r u) :
    [q, r].Sublist ((dueRuns u (H.before cfg u)).map fun r => r.id) ∧
      ∀ limit, r ∈ dueRunIds limit u (H.before cfg u) →
        [q, r].Sublist (dueRunIds limit u (H.before cfg u)) := by
  obtain ⟨rr, hrr, hrst, hrel⟩ := hr
  obtain ⟨rq, hrq, hqst, hqel⟩ := hq u hlt.le le_rfl
  have hqid : rq.id = q := Table.key_of_get? hrq
  have hrid : rr.id = r := Table.key_of_get? hrr
  have hserved : rq.lastServed < rr.lastServed := by
    obtain ⟨rr', hrr', v, hv, htv⟩ := hd.served hlt
    obtain rfl := Option.some.inj (hrr'.symm.trans hrr)
    obtain ⟨owner, claimed, s', hmem, -⟩ := hd
    obtain ⟨l₁, l₂, hops⟩ := List.append_of_mem hmem
    obtain ⟨rq', hrq', -, hbefore⟩ := WaitsThroughout.served (o := .claim r owner t) hq hops hlt
    obtain rfl := Option.some.inj (hrq'.symm.trans hrq)
    have hlast : rr'.lastServed = v := by
      rw [Run.lastServed, Option.mem_def.mp hv, Option.getD_some]
    rw [hlast]
    exact hbefore.trans_le htv
  subst hqid hrid
  exact dueRunIds_of_served (mem_dueRuns.mpr ⟨Table.mem_of_get? hrq, hqel⟩)
    (mem_dueRuns.mpr ⟨Table.mem_of_get? hrr, hrel⟩) hqst hrst hserved

/-- An eligible Run does not refuse a claim. -/
theorem Waiting.not_refuses (h : H.Waiting cfg q t) : ¬ H.Refuses cfg q t := by
  rintro ⟨owner, s', -, hexec⟩
  obtain ⟨run, hrun, -, hel⟩ := h
  unfold claim lockRun Prog.forUpdate at hexec
  simp only [bind_eq, Prog.bind, exec_lock, hrun, hel, if_true] at hexec
  have hexec := exec_flush_bind hexec
  split at hexec
  · obtain ⟨_, -, hexec⟩ := exec_audit_bind (exec_flush_bind hexec)
    cases (exec_pure_ok hexec).1
  · obtain ⟨_, -, hexec⟩ := exec_audit_bind hexec
    cases (exec_pure_ok hexec).1

end History

/-- The operations of a yield and of a defer: the transaction that gives the lease back
and the reconciliation of the ledger. -/
def Op.GivesBack : Op → Prop
  | deferGovernance .. | cooperativeYield .. | reconcileRunLease .. => True
  | _ => False

theorem failedAttemptCount_givesBack {o : Op} (ho : o.GivesBack) (s : Store) (id : RunId) :
    ((next cfg s o).runs.get? id).map Run.failedAttemptCount =
      (s.runs.get? id).map Run.failedAttemptCount := by
  refine next_invariant (I := fun s' => (s'.runs.get? id).map Run.failedAttemptCount =
    (s.runs.get? id).map Run.failedAttemptCount) rfl fun s₁ s₂ hs hstep => ?_
  rw [← hs]
  cases hstep with
  | idle hruns => rw [hruns]
  | admitted hadmit =>
    subst hadmit
    exact ho.elim
  | @move r r' hm hmove hruns =>
    have hsame : r'.failedAttemptCount = r.failedAttemptCount := by
      cases hmove with
      | defer => rfl
      | yield => rfl
      | _ => exact ho.elim
    rw [hruns, get?_put_move hm hmove.sameOrigin.id]
    split
    · next h => rw [h, hm, Option.map_some, Option.map_some, hsame]
    · rfl

/-- **Fair dispatch.** In a history whose clock readings increase:

* a Run that is PENDING and eligible since before a claim of another is in front of that
  one in `due_run_ids`, whenever the other is PENDING and eligible again;
* a Run that has been claimed, and was found PENDING by a scan since, is not claimed off
  that scan as long as a Run keeps waiting that waited at the first claim;
* yields and defers count no failure. -/
theorem fair_dispatch (cfg : Config) (H : History) :
    (∀ q r t u, H.Dispatches cfg r t → t < u → H.WaitsThroughout cfg q t u → H.Waiting cfg r u →
      [q, r].Sublist ((dueRuns u (H.before cfg u)).map fun r => r.id) ∧
        ∀ limit, r ∈ dueRunIds limit u (H.before cfg u) →
          [q, r].Sublist (dueRunIds limit u (H.before cfg u))) ∧
    (∀ q r t u limit v, H.Dispatches cfg r t → t < v → H.Waiting cfg r v →
      H.DispatchesOff cfg limit v r u → ¬ H.WaitsThroughout cfg q t u) ∧
    ∀ o : Op, o.GivesBack → ∀ s id, ((next cfg s o).runs.get? id).map Run.failedAttemptCount =
      (s.runs.get? id).map Run.failedAttemptCount := by
  refine ⟨fun q r t u => History.fair_order, ?_, fun o => failedAttemptCount_givesBack⟩
  intro q r t u limit v hd htv hr hoff hq
  have hqv : H.WaitsThroughout cfg q t v := fun w htw hwv => hq w htw (hwv.trans hoff.later)
  obtain ⟨w, hvw, hwu, hrefuses⟩ :=
    hoff.tried q ((History.fair_order hd htv hqv hr).2 limit hoff.listed)
  exact (hq w (htv.le.trans hvw) hwu.le).not_refuses hrefuses

/-! ### Two Workers and an old scan -/

namespace Sample

/-- Worker 100 claims and yields Run 1, then Worker 200 claims it; Run 2 waits. -/
def twoWorkers : History where
  ops := [.admitRun (newRun 1 unlimited) 10, .admitRun (newRun 2 unlimited) 12, .claim 1 100 20,
    .cooperativeYield lease 1 21, .claim 1 200 22]
  clock := by decide

/-- The Run is PENDING and eligible at the instant `u`. -/
def waits (id : RunId) (u : Time) : Bool :=
  ((twoWorkers.before config u).runs.get? id).any fun r => decide (r.status = .pending) &&
    r.eligible ((twoWorkers.before config u).responsesOf id).length u

theorem waiting_of_waits {id : RunId} {u : Time} (h : waits id u = true) :
    twoWorkers.Waiting config id u := by
  obtain ⟨r, hr, h⟩ := Option.any_eq_true _ _ |>.mp h
  rw [Bool.and_eq_true, decide_eq_true_eq] at h
  exact ⟨r, hr, h.1, h.2⟩

/-- A claim of Run 1 at the instant `u` succeeds. -/
def claims (owner : Owner) (u : Time) : Bool :=
  ((exec schema (claim config 1 owner u) (twoWorkers.before config u)).toOption.bind
    Prod.fst).isSome

theorem dispatches_of_claims (owner : Owner) {u : Time} (hmem : .claim 1 owner u ∈ twoWorkers.ops)
    (h : claims owner u = true) : twoWorkers.Dispatches config 1 u := by
  unfold claims at h
  rcases hexec : exec schema (claim config 1 owner u) (twoWorkers.before config u) with e | ⟨c, s'⟩
  · rw [hexec] at h
    cases h
  · rw [hexec] at h
    obtain ⟨claimed, rfl⟩ := Option.isSome_iff_exists.mp h
    exact ⟨owner, claimed, s', hmem, hexec⟩

theorem first_dispatch : twoWorkers.Dispatches config 1 20 :=
  dispatches_of_claims 100 (by simp [twoWorkers]) (by decide +kernel)

theorem run2_waits : twoWorkers.WaitsThroughout config 2 20 22 := by
  intro v hlo hhi
  obtain rfl | rfl | rfl : v = 20 ∨ v = 21 ∨ v = 22 := by
    unfold Time at *
    omega
  all_goals exact waiting_of_waits (by decide +kernel)

theorem run1_waits : twoWorkers.Waiting config 1 22 := waiting_of_waits (by decide +kernel)

end Sample

theorem fair_dispatch_sample :
    [2, 1].Sublist ((dueRuns 22 (Sample.twoWorkers.before Sample.config 22)).map fun r => r.id) :=
  ((fair_dispatch Sample.config Sample.twoWorkers).1 2 1 20 22 Sample.first_dispatch (by decide)
    Sample.run2_waits Sample.run1_waits).1

/-- Off a scan that is older than the first dispatch, Run 1 is dispatched twice while
Run 2 waits. -/
theorem stale_scan_dispatches_twice :
    ¬ ∀ q r t u limit v, Sample.twoWorkers.Dispatches Sample.config r t → t < u →
      Sample.twoWorkers.Waiting Sample.config r u →
      Sample.twoWorkers.DispatchesOff Sample.config limit v r u →
      ¬ Sample.twoWorkers.WaitsThroughout Sample.config q t u := by
  intro h
  have hscan : dueRunIds 1 15 (Sample.twoWorkers.before Sample.config 15) = [1] := by
    decide +kernel
  refine h 2 1 20 22 1 15 Sample.first_dispatch (by decide) Sample.run1_waits ?_ Sample.run2_waits
  refine ⟨by decide, by rw [hscan]; exact List.mem_singleton_self 1, fun q hq => ?_,
    Sample.dispatches_of_claims 200 (by simp [Sample.twoWorkers]) (by decide +kernel)⟩
  -- nothing is in front of the only Run of the scan
  rw [hscan] at hq
  exact absurd hq.length_le (by simp)

end LLMBenchLab
