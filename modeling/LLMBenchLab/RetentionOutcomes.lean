import LLMBenchLab.RetentionReads

/-!
# How a deletion or a restore ends

A deletion or a restore takes effect in one step or not at all, whatever fails and whatever
the others commit, and the way it ends says which (`delete_outcome`, `restore_outcome`): a
refusal has changed nothing, a report or a failed verification means that the step has been
made, and only an unconfirmed COMMIT leaves it open.
-/

namespace LLMBenchLab

namespace Audit

open Python Faults
open Text (Str)
open Archive (VerifiedAuditArchive verifyArchive ArchiveFile ValidEvent)

variable {M : Maintenance} {store store' : AuditStore} {row row' : AuditEvent} {d d' : Database}
  {held : Bool} {own : Database → Database} {w w' w'' : World M.service Bool}

/-! ## Mutations -/

/-- Some call may fail. -/
def Maintenance.Faulty (M : Maintenance) : Prop := ∃ e, M.service.Fault e

/-- How a mutation ends: `E n` of the database says that it has taken effect on `n` rows, `U`
that it has not, `R` why it was refused, and `late` that it may raise after COMMIT. -/
def Mutated (M : Maintenance) (E : ℕ → Database → Prop) (U : Database → Prop) (R late : Prop)
    (w : World M.service Bool) : Except Raised ℕ → Prop
  | .ok n => E n w.committed
  | .error (.retention _) => w.vars = false ∧ U w.committed ∧ R
  | .error .driver => w.vars = false ∧ U w.committed ∧ M.Faulty
  | .error (.commitOutcomeUnknown _ _ _) =>
    w.vars = false ∧ M.Faulty ∧ (U w.committed ∨ ∃ n, E n w.committed)
  | .error (.committedVerification _ _ _) => late ∧ ∃ n, E n w.committed
  | .error .integrity => False

section Mutation

variable {E : ℕ → Database → Prop} {U : Database → Prop} {R late : Prop}
  {archive : VerifiedAuditArchive} {body : Retention M ℕ}

/-- Rolled back, then refused: a failure on the way is a fault. -/
theorem ends_refuse {α : Type} {code : String} (E : ℕ → Database → Prop) (late : Prop)
    (hU : ∀ d d', Later M d d' → U d → U d') (hw : U w.committed) (hvars : w.vars = false)
    (hR : R) :
    (do
      Session.rollback
      throw (.retention code) : Retention M α).Ends w fun w' r =>
        ∃ e, r = .error e ∧ Mutated M E U R late w' (.error e) := by
  refine Session.ends_bind ((Session.ends_rollback w).mono fun w' r => ?_)
  rintro ⟨hlater, hvars', rfl | ⟨e, rfl, he⟩⟩
  · exact Session.ends_throw ⟨_, rfl, hvars'.trans hvars, hU _ _ hlater hw, hR⟩
  · refine ⟨e, rfl, ?_⟩
    obtain rfl := M.fault e he
    exact ⟨hvars'.trans hvars, hU _ _ hlater hw, .driver, he⟩

theorem ends_guardMutation {cleanupFailed precommitFailed : String}
    (hU : ∀ d d', Later M d d' → U d → U d') (hR : M.Faulty → R)
    (h : body.Ends w (Mutated M E U R False)) :
    (guardMutation M archive cleanupFailed precommitFailed body).Ends w
      (Mutated M E U R False) := by
  refine Session.ends_catch (h.mono fun w' r hr => ?_)
  cases r with
  | ok n => exact hr
  | error e =>
    cases e with
    | retention code => exact Session.ends_throw hr
    | commitOutcomeUnknown code count sha => exact Session.ends_throw hr
    | committedVerification code count sha => exact hr.1.elim
    | integrity => exact hr.elim
    | driver =>
      obtain ⟨hvars, hunchanged, hfaulty⟩ := hr
      refine Session.ends_bind (Session.ends_vars ?_)
      dsimp only
      rw [hvars]
      refine (ends_refuse E False hU hunchanged hvars (hR hfaulty)).mono ?_
      rintro w'' r ⟨e, rfl, hr⟩
      exact hr

theorem ends_mutationSession (hU : ∀ d d', Later M d d' → U d → U d')
    (hE : ∀ n d d', Later M d d' → E n d → E n d')
    (h : ∀ w', w'.committed = w.committed → w'.vars = false →
      body.Ends w' (Mutated M E U R False)) :
    (mutationSession M archive body).Ends w (Mutated M E U R M.Faulty) := by
  refine Session.ends_bind (Session.ends_assign ?_)
  refine Session.ends_bind (Session.ends_connect ?_)
  have hbody := h ({ w with vars := false } : World M.service Bool).idle rfl rfl
  refine Session.ends_finally (hbody.mono fun w' r hr => ?_)
  refine Session.ends_catch ((Session.ends_rollback w').mono fun w'' s => ?_)
  -- what has been said of the result stays true while the others go on
  have hkeep : ∀ w₁ : World M.service Bool, Later M w'.committed w₁.committed →
      w₁.vars = w'.vars → Mutated M E U R M.Faulty w₁ r := by
    intro w₁ hlater hvars
    cases r with
    | ok n => exact hE n _ _ hlater hr
    | error e =>
      cases e with
      | retention code => exact ⟨hvars.trans hr.1, hU _ _ hlater hr.2.1, hr.2.2⟩
      | driver => exact ⟨hvars.trans hr.1, hU _ _ hlater hr.2.1, hr.2.2⟩
      | commitOutcomeUnknown code count sha =>
        refine ⟨hvars.trans hr.1, hr.2.1, hr.2.2.imp (hU _ _ hlater) ?_⟩
        exact fun hdone => hdone.imp fun n => hE n _ _ hlater
      | committedVerification code count sha => exact hr.1.elim
      | integrity => exact hr.elim
  rintro ⟨hlater, hvars, rfl | ⟨e, rfl, he⟩⟩
  · exact hkeep w'' hlater hvars
  · refine Session.ends_bind (Session.ends_vars ?_)
    dsimp only
    cases hconfirmed : w''.vars with
    | false =>
      refine Session.ends_pure ?_
      exact hkeep w'' hlater hvars
    | true =>
      refine Session.ends_throw ?_
      -- only a commit that has been confirmed sets the variable
      cases r with
      | ok n => exact ⟨⟨e, he⟩, n, hE n _ _ hlater hr⟩
      | error e' =>
        have hfalse : w'.vars = true := hvars ▸ hconfirmed
        cases e' with
        | retention code => cases hr.1.symm.trans hfalse
        | driver => cases hr.1.symm.trans hfalse
        | commitOutcomeUnknown code count sha => cases hr.1.symm.trans hfalse
        | committedVerification code count sha => exact hr.1.elim
        | integrity => exact hr.elim

/-- COMMIT makes the pending writes last, unless it fails. -/
theorem ends_commitMutation {outcomeUnknown : String} (E : ℕ → Database → Prop) (R late : Prop)
    {n : ℕ} (hvars : w.vars = false)
    (hU : U w.committed) (hUlater : ∀ d d', Later M d d' → U d → U d')
    (hE : ∀ d, M.service.Others w.held w.own w.committed d → E n (w.own d)) :
    (commitMutation M archive outcomeUnknown).Ends w fun w' r =>
      match r with
      | .ok _ => E n w'.committed
      | .error e => Mutated M E U R late w' (.error e) := by
  refine Session.ends_bind (Session.ends_catch (Session.ends_commit fun w' hw' => ?_))
  have hdone : E n (w'.own w'.committed) := by
    rw [hw'.own]
    exact hE _ hw'.others
  have hundone : U w'.committed := hUlater _ _ hw'.meanwhile hU
  refine ⟨fun e he => ⟨?_, ?_⟩, ?_⟩
  · exact Session.ends_throw ⟨hw'.vars.trans hvars, ⟨e, he⟩, .inl hundone⟩
  · exact Session.ends_throw ⟨hw'.vars.trans hvars, ⟨e, he⟩, .inr ⟨n, hdone⟩⟩
  · exact Session.ends_assign hdone

end Mutation

/-! ## What has been verified -/

/-- The events of an archive are valid and distinct. -/
structure Archived (L : Stdlib) (archive : VerifiedAuditArchive) : Prop where
  valid : ∀ event ∈ archive.events, ValidEvent L event
  id : (archive.events.map AuditEventReadFacts.id).Nodup
  eventKey : (archive.events.map AuditEventReadFacts.eventKey).Nodup

theorem nodup_of_checkEvents {cutoff : Instant} {previous : Option (Instant × Str)}
    {ids keys : List Str} {events : List AuditEventReadFacts}
    (h : Archive.checkEvents cutoff previous ids keys events = .ok ()) :
    ((events.map AuditEventReadFacts.id).Nodup ∧ ∀ event ∈ events, event.id ∉ ids) ∧
      (events.map AuditEventReadFacts.eventKey).Nodup ∧
        ∀ event ∈ events, event.eventKey ∉ keys := by
  induction events generalizing previous ids keys with
  | nil =>
    exact ⟨⟨List.nodup_nil, fun _ h => absurd h List.not_mem_nil⟩, List.nodup_nil,
      fun _ h => absurd h List.not_mem_nil⟩
  | cons event events ih =>
    rw [Archive.checkEvents] at h
    split_ifs at h with horder hseen hcutoff
    rw [not_or] at hseen
    obtain ⟨⟨hnodup, hids⟩, hnodup', hkeys⟩ := ih h
    refine ⟨⟨?_, ?_⟩, ?_, ?_⟩
    · refine List.nodup_cons.mpr ⟨fun hmem => ?_, hnodup⟩
      obtain ⟨other, hother, heq⟩ := List.mem_map.mp hmem
      exact hids other hother (heq ▸ List.mem_cons_self)
    · refine List.forall_mem_cons.mpr ⟨hseen.1, fun other hother hmem => ?_⟩
      exact hids other hother (List.mem_cons_of_mem _ hmem)
    · refine List.nodup_cons.mpr ⟨fun hmem => ?_, hnodup'⟩
      obtain ⟨other, hother, heq⟩ := List.mem_map.mp hmem
      exact hkeys other hother (heq ▸ List.mem_cons_self)
    · refine List.forall_mem_cons.mpr ⟨hseen.2, fun other hother hmem => ?_⟩
      exact hkeys other hother (List.mem_cons_of_mem _ hmem)

theorem archived_of_verifyArchive {L : Stdlib} {file : ArchiveFile} {expected : Json}
    {archive : VerifiedAuditArchive} (h : verifyArchive L file expected = .ok archive) :
    Archived L archive := by
  obtain ⟨_, _, -, -, -, -, -, heligible, -⟩ := Archive.lines_of_verifyArchive h
  obtain ⟨⟨hid, -⟩, hkey, -⟩ := nodup_of_checkEvents heligible.ordered
  exact ⟨heligible.valid, hid, hkey⟩

/-! ## Deleting -/

section Delete

variable {archive : VerifiedAuditArchive} {events : List AuditEventReadFacts}

theorem isNone_eq_true {events : List AuditEventReadFacts} :
    isNone events row = true ↔ ∀ event ∈ events, event.id ≠ row.id := by
  rw [isNone, Bool.not_eq_true', List.any_eq_false]
  exact forall₂_congr fun _ _ => not_congr beq_iff_eq

theorem keep_keep (p q : AuditEvent → Bool) (d : Database) :
    (d.keep p).keep q = d.keep fun row => p row && q row := by
  simp only [Database.keep, List.filter_filter]
  congr 3
  funext row
  exact Bool.and_comm _ _

theorem keep_isNone_append (events more : List AuditEventReadFacts) :
    Database.keep (isNone more) ∘ Database.keep (isNone events) =
      Database.keep (isNone (events ++ more)) := by
  funext d
  rw [Function.comp_apply, keep_keep]
  congr 1
  funext row
  simp only [isNone, List.any_append, Bool.not_or]

theorem keep_of_absent (h : ∀ event ∈ events, Absent d event) :
    d.keep (isNone events) = d := by
  have hfilter : d.store.events.filter (isNone events) = d.store.events :=
    List.filter_eq_self.mpr fun row hrow =>
      isNone_eq_true.mpr fun event hevent => ((h event hevent row hrow).1).symm
  rw [Database.keep, hfilter]

/-- The rows of the events, by their ids. -/
theorem perm_ids {rows : List AuditEvent} (hrows : (rows.map AuditEvent.id).Nodup)
    (hevents : (events.map AuditEventReadFacts.id).Nodup)
    (hall : ∀ event ∈ events, ∃ row ∈ rows, row.id = event.id) :
    ((rows.filter fun row => !isNone events row).map AuditEvent.id).Perm
      (events.map AuditEventReadFacts.id) := by
  refine (List.perm_ext_iff_of_nodup (hrows.sublist (List.filter_sublist.map _)) hevents).mpr ?_
  intro id
  constructor
  · intro hid
    obtain ⟨row, hrow, rfl⟩ := List.mem_map.mp hid
    obtain ⟨-, hsome⟩ := List.mem_filter.mp hrow
    rw [isNone, Bool.not_not, List.any_eq_true] at hsome
    obtain ⟨event, hevent, heq⟩ := hsome
    exact List.mem_map.mpr ⟨event, hevent, beq_iff_eq.mp heq⟩
  · intro hid
    obtain ⟨event, hevent, rfl⟩ := List.mem_map.mp hid
    obtain ⟨row, hrow, heq⟩ := hall event hevent
    refine List.mem_map.mpr ⟨row, List.mem_filter.mpr ⟨hrow, ?_⟩, heq⟩
    rw [isNone, Bool.not_not, List.any_eq_true]
    exact ⟨event, hevent, beq_iff_eq.mpr heq.symm⟩

/-- As many rows as events, if each event has its row. -/
theorem countP_isNone {rows : List AuditEvent} (hrows : (rows.map AuditEvent.id).Nodup)
    (hevents : (events.map AuditEventReadFacts.id).Nodup)
    (hall : ∀ event ∈ events, ∃ row ∈ rows, row.id = event.id) :
    rows.countP (fun row => !isNone events row) = events.length := by
  rw [List.countP_eq_length_filter, ← List.length_map (f := AuditEvent.id),
    (perm_ids hrows hevents hall).length_eq, List.length_map]

/-- The deletion: at one instant, after a look at the clock, every event is there and all of
them go, or none is there and nothing happens. -/
inductive Deletes (M : Maintenance) (archive : VerifiedAuditArchive) (n : ℕ) (d d' : Database) :
    Prop where
  | intro {d₀ d₁ : Database} : Later M d d₀ → archive.cutoffAt ≤ d₀.now →
      (∀ event ∈ archive.events, event.expiresAt < d₀.now) → Later M d₀ d₁ →
      ((∀ event ∈ archive.events, Present M.library d₁ event) ∧ n = archive.events.length ∨
        (∀ event ∈ archive.events, Absent d₁ event) ∧ n = 0) →
      Later M (d₁.keep (isNone archive.events)) d' → Deletes M archive n d d'

theorem Deletes.later {n : ℕ} {d'' : Database} (h : Deletes M archive n d d')
    (h' : Later M d' d'') : Deletes M archive n d d'' := by
  obtain ⟨h₀, hcutoff, hexpired, h₁, hcontents, hrest⟩ := h
  exact ⟨h₀, hcutoff, hexpired, h₁, hcontents, hrest.trans h'⟩

/-- Why nothing is deleted. -/
inductive DeleteRefused (M : Maintenance) (archive : VerifiedAuditArchive) (d : Database) :
    Prop where
  | faulty : M.Faulty → DeleteRefused M archive d
  | dialect : M.dialect = .other → DeleteRefused M archive d
  | schema {d₁ : Database} : Later M d d₁ →
      (∀ head, currentHead M.expectedHeads d₁.heads ≠ .ok head) → DeleteRefused M archive d
  | clock {d₁ : Database} : Later M d d₁ →
      (d₁.now < archive.cutoffAt ∨ ∃ event ∈ archive.events, d₁.now ≤ event.expiresAt) →
      DeleteRefused M archive d
  /-- some event is not there as it was archived, and some event is not gone -/
  | contents {d₁ d₂ : Database} : Later M d d₁ → Later M d₁ d₂ →
      ¬ (∀ event ∈ archive.events, Present M.library d₁ event) →
      ¬ (∀ event ∈ archive.events, Absent d₂ event) → DeleteRefused M archive d

/-- A transaction that has the lock. -/
structure Locked (d : Database) (w : World M.service Bool) : Prop where
  later : Later M d w.committed
  held : w.held = true
  isolation : w.isolation = .readCommitted
  own : w.own = id
  vars : w.vars = false

theorem Locked.stable (h : Locked d w) : Stable w := .held h.held h.isolation

theorem Locked.view (h : Locked d w) : w.view = w.committed := by
  rw [view_of_readCommitted h.isolation, h.own]
  rfl

theorem Locked.steady (h : Locked d w) (h' : Steady w w') : Locked d w' :=
  ⟨h.later.trans h'.later, h'.held.trans h.held, h'.isolation.trans h.isolation,
    h'.own.trans h.own, h'.vars.trans h.vars⟩

theorem ends_configureMutationTransaction (hvars : w.vars = false) :
    (configureMutationTransaction M).Ends w fun w' r =>
      (Later M w.committed w'.committed ∧ w'.vars = false) ∧
        match r with
        | .ok _ => Locked w.committed w'
        | .error e => (∃ code, e = .retention code ∧ M.dialect = .other) ∨ M.service.Fault e := by
  refine Session.ends_bind (Session.ends_call fun w₁ hw₁ => ?_)
  have hvars₁ : w₁.vars = false := hw₁.vars.trans hvars
  refine ⟨fun e he => ⟨⟨⟨hw₁.meanwhile, hvars₁⟩, .inr he⟩, ⟨hw₁.meanwhile, hvars₁⟩, .inr he⟩, ?_⟩
  dsimp only
  have hacquire : (Session.acquire true : Retention M Unit).Ends
      ({ w₁.idle with isolation := .readCommitted } : World M.service Bool) fun w' r =>
      (Later M w.committed w'.committed ∧ w'.vars = false) ∧
        match r with
        | .ok _ => Locked w.committed w'
        | .error e => (∃ code, e = .retention code ∧ M.dialect = .other) ∨ M.service.Fault e := by
    refine Session.ends_call fun w₂ hw₂ => ?_
    have hlater : Later M w.committed w₂.committed := hw₁.meanwhile.trans hw₂.meanwhile
    have hvars₂ : w₂.vars = false := hw₂.vars.trans hvars₁
    exact ⟨fun e he => ⟨⟨⟨hlater, hvars₂⟩, .inr he⟩, ⟨hlater, hvars₂⟩, .inr he⟩,
      ⟨hlater, hvars₂⟩, hlater, rfl, hw₂.isolation, hw₂.own, hvars₂⟩
  split
  · exact hacquire
  · exact hacquire
  · next hother => exact Session.ends_throw ⟨⟨hw₁.meanwhile, hvars₁⟩, .inl ⟨_, rfl, hother⟩⟩

/-- Any statement of a locked transaction that reads. -/
theorem Locked.ends_read {α : Type} {f : Database → Except Raised α} (h : Locked d w) :
    (Session.read f : Retention M α).Ends w fun w' r =>
      (Steady w w' ∧ Locked d w') ∧
        (r = f w'.committed ∨ ∃ e, r = .error e ∧ M.service.Fault e) := by
  refine (ends_read_of_stable h.stable h.own).mono fun w' r => ?_
  rintro ⟨hsteady, hr⟩
  have hlocked := h.steady hsteady
  rw [hlocked.view] at hr
  exact ⟨⟨hsteady, hlocked⟩, hr⟩

theorem Locked.ends_reconcileInSession (h : Locked d w) (hkeyed : d.store.Keyed) :
    (reconcileInSession M archive).Ends w fun w' r => (Steady w w' ∧ Locked d w') ∧
      match r with
      | .ok report => ∃ rows, Loaded archive.events w.committed w'.committed rows ∧
          report = classify M.library archive.events rows
      | .error e => M.service.Fault e := by
  have hviews : ∀ w', Steady w w' → w'.view.store.Keyed := fun w' hw' => by
    rw [(h.steady hw').view]
    exact Later.keyed (h.later.trans hw'.later) hkeyed
  refine Session.ends_bind ((ends_loadCandidateRows h.stable h.own hviews).mono fun w' r => ?_)
  rintro ⟨hsteady, hr⟩
  cases r with
  | error e => exact ⟨⟨hsteady, h.steady hsteady⟩, hr⟩
  | ok rows =>
    refine Session.ends_pure ⟨⟨hsteady, h.steady hsteady⟩, rows, ?_, rfl⟩
    rwa [h.view, (h.steady hsteady).view] at hr

end Delete

section Delete

variable {archive : VerifiedAuditArchive} {events : List AuditEventReadFacts}

/-- A transaction that has deleted some of the events and not committed yet. -/
structure Deleting (events : List AuditEventReadFacts) (w₀ w : World M.service Bool) : Prop where
  later : Later M w₀.committed w.committed
  grows : Grows w₀.committed w.committed
  held : w.held = true
  isolation : w.isolation = .readCommitted
  own : w.own = Database.keep (isNone events)
  vars : w.vars = false

theorem keep_isNone_nil : Database.keep (isNone []) = id := by
  funext d
  exact keep_of_absent fun _ h => absurd h List.not_mem_nil

/-- Deleting a chunk finds as many rows as the chunk has events. -/
theorem countP_chunk {store : AuditStore} {done chunk : List AuditEventReadFacts}
    (hstore : store.Keyed) (hevents : ((done ++ chunk).map AuditEventReadFacts.id).Nodup)
    (hall : ∀ event ∈ chunk, ∃ row ∈ store.events, row.id = event.id) :
    (store.events.filter (isNone done)).countP (fun row => !isNone chunk row) = chunk.length := by
  rw [List.map_append, List.nodup_append] at hevents
  obtain ⟨-, hchunk, hapart⟩ := hevents
  rw [List.countP_filter, ← countP_isNone hstore.id hchunk hall]
  refine List.countP_congr fun row _ => ?_
  rw [Bool.and_eq_true, and_iff_left_iff_imp]
  -- a row of the chunk is none of those that are gone
  intro hrow
  rw [isNone, Bool.not_not, List.any_eq_true] at hrow
  obtain ⟨event, hevent, heq⟩ := hrow
  refine isNone_eq_true.mpr fun other hother hsame => ?_
  exact hapart other.id (List.mem_map_of_mem hother) event.id (List.mem_map_of_mem hevent)
    (hsame.trans (beq_iff_eq.mp heq).symm)

theorem ends_deleteExactEventIds (h : Locked d w) (hkeyed : d.store.Keyed)
    (hevents : (events.map AuditEventReadFacts.id).Nodup)
    (hall : ∀ event ∈ events, ∃ row ∈ w.committed.store.events, row.id = event.id) :
    (deleteExactEventIds M events).Ends w fun w' r =>
      match r with
      | .ok n => Deleting events w w' ∧ n = events.length
      | .error e => (Later M w.committed w'.committed ∧ w'.vars = false) ∧ M.service.Fault e := by
  let I : List (List AuditEventReadFacts) → ℕ → World M.service Bool → Prop :=
    fun done n w' => Deleting done.flatten w w' ∧ n = done.flatten.length
  let E : Raised → World M.service Bool → Prop := fun e w' =>
    (Later M w.committed w'.committed ∧ w'.vars = false) ∧ M.service.Fault e
  have hloop := Session.ends_foldlM (S := M.service)
    (f := fun deletedCount chunk => do
      let rowcount ← (Session.write fun d =>
        .ok (d.store.events.countP fun row => !isNone chunk row, Database.keep (isNone chunk)) :
          Retention M ℕ)
      return deletedCount + rowcount)
    (I := I) (E := E) (l := chunks events) (b := 0) (w := w) ?_ ?_
  · refine hloop.mono fun w' r hr => ?_
    cases r with
    | error e => exact hr
    | ok n =>
      have hdone : Deleting (chunks events).flatten w w' ∧ n = (chunks events).flatten.length := hr
      rwa [flatten_chunks] at hdone
  · rintro done chunk rest n w₁ hchunks ⟨hdeleting, rfl⟩
    refine Session.ends_bind (Session.ends_write fun w₂ hw₂ => ?_)
    have hlater : Later M w.committed w₂.committed := hdeleting.later.trans hw₂.meanwhile
    have hvars : w₂.vars = false := hw₂.vars.trans hdeleting.vars
    have hheld : w₂.held = true := hw₂.held.trans hdeleting.held
    have hiso : w₂.isolation = .readCommitted := hw₂.isolation.trans hdeleting.isolation
    have hown : w₂.own = Database.keep (isNone done.flatten) := hw₂.own.trans hdeleting.own
    have hgrows : Grows w.committed w₂.committed :=
      hdeleting.grows.trans (others_grows (hdeleting.held ▸ hw₂.others))
    have hlook : w₂.look = w₂ := World.look_eq_self (Stable.held hheld hiso).isolation
    dsimp only
    rw [hlook]
    refine ⟨fun e he => ⟨⟨⟨hlater, hvars⟩, he⟩, ⟨hlater, hvars⟩, he⟩, ?_⟩
    have hflatten : events = done.flatten ++ chunk ++ rest.flatten := by
      rw [← flatten_chunks events, ← hchunks]
      simp only [List.flatten_append, List.flatten_cons, List.append_assoc]
    have hcount : (w₂.view.store.events.countP fun row => !isNone chunk row) = chunk.length := by
      rw [view_of_readCommitted hiso, hown]
      refine countP_chunk (Later.keyed (h.later.trans hlater) hkeyed) ?_ fun event hevent => ?_
      · rw [hflatten, List.map_append] at hevents
        exact (List.nodup_append.mp hevents).1
      · have hmem : event ∈ events := by
          rw [hflatten]
          exact List.mem_append_left _ (List.mem_append_right _ hevent)
        obtain ⟨row, hrow, hid⟩ := hall event hmem
        exact ⟨row, hgrows.mem hrow, hid⟩
    have hnow : done.flatten ++ chunk = (done ++ [chunk]).flatten := by
      rw [List.flatten_append, List.flatten_singleton]
    refine Session.ends_pure ⟨⟨hlater, hgrows, hheld, hiso, ?_, hvars⟩, ?_⟩
    · dsimp only
      rw [hown, keep_isNone_append, hnow]
    · rw [hcount, ← hnow, List.length_append]
  · exact ⟨⟨.refl, .refl _, h.held, h.isolation, h.own.trans keep_isNone_nil.symm, h.vars⟩, rfl⟩

theorem Present.grows {L : Stdlib} {event : AuditEventReadFacts} (h : Present L d event)
    (h' : Grows d d') : Present L d' event := by
  obtain ⟨row, hrow, hid, hkey, hread⟩ := h
  exact ⟨row, h'.mem hrow, hid, hkey, hread⟩

/-- How the deletion ends, up to COMMIT and after it. -/
abbrev Deleted (M : Maintenance) (archive : VerifiedAuditArchive) (d : Database) (late : Prop) :
    World M.service Bool → Except Raised ℕ → Prop :=
  Mutated M (fun n => Deletes M archive n d) (Later M d) (DeleteRefused M archive d) late

theorem currentHead_error {expectedHeads heads : List Str} {e : Raised}
    (h : currentHead expectedHeads heads = .error e) : ∃ code, e = .retention code := by
  rw [currentHead] at h
  split_ifs at h
  · exact ⟨_, (Except.error.inj h).symm⟩
  · split at h
    · split_ifs at h
      exact ⟨_, (Except.error.inj h).symm⟩
    · exact ⟨_, (Except.error.inj h).symm⟩

/-- A statement of a locked transaction fails with a fault, and nothing has happened. -/
theorem Locked.faulty {E : ℕ → Database → Prop} {R late : Prop} {e : Raised} (h : Locked d w)
    (he : M.service.Fault e) : Mutated M E (Later M d) R late w (.error e) := by
  obtain rfl := M.fault e he
  exact ⟨h.vars, h.later, .driver, he⟩

/-- How a mutation begins: with the lock, on the right schema. -/
theorem ends_beginMutation {E : ℕ → Database → Prop} {R late : Prop} {k : Retention M ℕ}
    (hvars : w.vars = false) (hdialect : M.dialect = .other → R)
    (hschema : ∀ d₁, Later M w.committed d₁ →
      (∀ head, currentHead M.expectedHeads d₁.heads ≠ .ok head) → R)
    (hk : ∀ w', Locked w.committed w' → k.Ends w' (Mutated M E (Later M w.committed) R late)) :
    (do
      configureMutationTransaction M
      let _ ← requireCurrentHead M
      k : Retention M ℕ).Ends w (Mutated M E (Later M w.committed) R late) := by
  refine Session.ends_bind ((ends_configureMutationTransaction hvars).mono fun w₁ r => ?_)
  rintro ⟨⟨hlater₁, hvars₁⟩, hr⟩
  cases r with
  | error e =>
    rcases hr with ⟨code, rfl, hother⟩ | hfault
    · exact ⟨hvars₁, hlater₁, hdialect hother⟩
    · obtain rfl := M.fault e hfault
      exact ⟨hvars₁, hlater₁, .driver, hfault⟩
  | ok u =>
  have h₁ : Locked w.committed w₁ := hr
  refine Session.ends_bind (h₁.ends_read.mono fun w₂ r => ?_)
  rintro ⟨⟨-, h₂⟩, rfl | ⟨e, rfl, he⟩⟩
  · cases hhead : currentHead M.expectedHeads w₂.committed.heads with
    | ok head => exact hk w₂ h₂
    | error e =>
      obtain ⟨code, rfl⟩ := currentHead_error hhead
      refine ⟨h₂.vars, h₂.later, hschema _ h₂.later fun head hok => ?_⟩
      cases hhead.symm.trans hok
  · exact h₂.faulty he

/-- Everything is there: it is deleted, and COMMIT makes that last. -/
theorem ends_deleteAll {d₃ : Database} (harchive : Archived M.library archive)
    (h : Locked d w) (hkeyed : d.store.Keyed) (hlater₃ : Later M d d₃)
    (hnow : Later M d₃ w.committed) (hcutoff : archive.cutoffAt ≤ d₃.now)
    (hexpired : ∀ event ∈ archive.events, event.expiresAt < d₃.now)
    (hpresent : ∀ event ∈ archive.events, Present M.library w.committed event) :
    (do
      let actualDeletedCount ← tryCatch (deleteExactEventIds M archive.events) fun _ => do
        Session.rollback
        throw (.retention "audit_retention_delete_precommit_failed")
      if actualDeletedCount ≠ archive.events.length then
        Session.rollback
        throw (.retention "audit_retention_delete_count_mismatch")
      commitMutation M archive "audit_retention_delete_commit_outcome_unknown"
      return actualDeletedCount : Retention M ℕ).Ends w (Deleted M archive d False) := by
  have hundo : ∀ d₁ d₂ : Database, Later M d₁ d₂ → Later M d d₁ → Later M d d₂ :=
    fun _ _ h₁ h₂ => h₂.trans h₁
  have hrows : ∀ event ∈ archive.events, ∃ row ∈ w.committed.store.events, row.id = event.id := by
    intro event hevent
    obtain ⟨row, hrow, hid, -, -⟩ := hpresent event hevent
    exact ⟨row, hrow, hid⟩
  refine Session.ends_bind (Session.ends_catch
    ((ends_deleteExactEventIds h hkeyed harchive.id hrows).mono fun w₁ r hr => ?_))
  cases r with
  | error e =>
    obtain ⟨⟨hlater₁, hvars₁⟩, hfault⟩ := hr
    refine (ends_refuse (fun n => Deletes M archive n d) False hundo (h.later.trans hlater₁) hvars₁
      (.faulty ⟨e, hfault⟩ : DeleteRefused M archive d)).mono ?_
    rintro w₂ r ⟨e', rfl, hr⟩
    exact hr
  | ok n =>
  obtain ⟨hdeleting, rfl⟩ := hr
  dsimp only
  rw [if_neg (not_not.mpr rfl)]
  have hundone : Later M d w₁.committed := h.later.trans hdeleting.later
  refine Session.ends_bind ((ends_commitMutation (n := archive.events.length)
    (fun n => Deletes M archive n d) (DeleteRefused M archive d) False
    hdeleting.vars hundone hundo ?_).mono fun w₂ r hr => ?_)
  · intro d₁ hothers
    have hgrows : Grows w.committed d₁ :=
      hdeleting.grows.trans (others_grows (hdeleting.held ▸ hothers))
    have hlater₁ : Later M w₁.committed d₁ := Session.meanwhile_of_others hothers
    rw [hdeleting.own]
    refine .intro hlater₃ hcutoff hexpired ((hnow.trans hdeleting.later).trans hlater₁)
      (.inl ⟨fun event hevent => ?_, rfl⟩) .refl
    exact (hpresent event hevent).grows hgrows
  · cases r with
    | ok u => exact Session.ends_pure hr
    | error e => exact hr

theorem ends_deleteTransaction (harchive : Archived M.library archive) (hvars : w.vars = false)
    (hkeyed : w.committed.store.Keyed) :
    (deleteTransaction M archive).Ends w (Deleted M archive w.committed False) := by
  refine ends_beginMutation hvars .dialect (fun _ => .schema) fun w₂ h₂ => ?_
  refine Session.ends_bind (h₂.ends_read.mono fun w₃ r => ?_)
  rintro ⟨⟨-, h₃⟩, rfl | ⟨e, rfl, he⟩⟩
  swap
  · exact h₃.faulty he
  dsimp only
  by_cases hclock : w₃.committed.now < archive.cutoffAt ∨
      archive.events.any (w₃.committed.now ≤ ·.expiresAt) = true
  · rw [if_pos hclock]
    refine Session.ends_bind (Session.ends_throw
      ⟨h₃.vars, h₃.later, .clock h₃.later (hclock.imp_right fun h => ?_)⟩)
    obtain ⟨event, hevent, hle⟩ := List.any_eq_true.mp h
    exact ⟨event, hevent, of_decide_eq_true hle⟩
  rw [if_neg hclock]
  rw [not_or] at hclock
  have hcutoff : archive.cutoffAt ≤ w₃.committed.now := not_lt.mp hclock.1
  have hexpired : ∀ event ∈ archive.events, event.expiresAt < w₃.committed.now := by
    intro event hevent
    refine not_le.mp fun hle => hclock.2 (List.any_eq_true.mpr ⟨event, hevent, ?_⟩)
    exact decide_eq_true hle
  refine Session.ends_bind ((h₃.ends_reconcileInSession hkeyed).mono fun w₄ r => ?_)
  rintro ⟨⟨hsteady, h₄⟩, hr⟩
  cases r with
  | error e => exact h₄.faulty hr
  | ok report =>
  obtain ⟨rows, hloaded, rfl⟩ := hr
  have hkeyed₄ : w₄.committed.store.Keyed := Later.keyed h₄.later hkeyed
  have hstatus := classify_status M.library archive.events rows
  dsimp only
  by_cases hconflict : (classify M.library archive.events rows).status = .conflict ∨
      (classify M.library archive.events rows).status = .mixedExactAbsent
  · rw [if_pos hconflict]
    -- some event is not as it was archived, and some event is not absent
    have hnot : (∃ event ∈ archive.events, verdict M.library rows event ≠ .exact) ∧
        ∃ event ∈ archive.events, verdict M.library rows event ≠ .absent := by
      rcases hconflict with hconflict | hconflict
      · rw [hconflict] at hstatus
        obtain ⟨event, hevent, hverdict⟩ := hstatus
        exact ⟨⟨event, hevent, by rw [hverdict]; decide⟩, event, hevent, by rw [hverdict]; decide⟩
      · rw [hconflict] at hstatus
        exact hstatus.2
    obtain ⟨⟨event, hevent, hexact⟩, event', hevent', habsent⟩ := hnot
    refine Session.ends_bind (Session.ends_throw
      ⟨h₄.vars, h₄.later, .contents h₃.later hsteady.later ?_ ?_⟩)
    · exact fun hall => hexact (hloaded.exact_of_present hkeyed₄ hevent (hall event hevent))
    · exact fun hall => habsent (hloaded.absent_of_absent (hall event' hevent'))
  rw [if_neg hconflict]
  by_cases hexact : (classify M.library archive.events rows).status = .allExact
  · rw [if_pos hexact]
    rw [hexact] at hstatus
    exact ends_deleteAll harchive h₄ hkeyed h₃.later hsteady.later hcutoff hexpired
      fun event hevent => hloaded.present hkeyed₄ (harchive.valid event hevent)
        (hstatus.2 event hevent)
  · rw [if_neg hexact]
    have habsent : ∀ event ∈ archive.events, Absent w₃.committed event := by
      intro event hevent
      rw [not_or] at hconflict
      cases hs : (classify M.library archive.events rows).status with
      | allExact => exact absurd hs hexact
      | conflict => exact absurd hs hconflict.1
      | mixedExactAbsent => exact absurd hs hconflict.2
      | allAbsent =>
        rw [hs] at hstatus
        exact hloaded.absent hevent (hstatus.2 event hevent)
      | emptyArchive =>
        rw [hs] at hstatus
        rw [hstatus] at hevent
        exact absurd hevent List.not_mem_nil
    refine Session.ends_bind ((Session.ends_rollback w₄).mono fun w₅ r => ?_)
    rintro ⟨hlater₅, hvars₅, rfl | ⟨e, rfl, he⟩⟩
    · refine Session.ends_pure ?_
      refine .intro h₃.later hcutoff hexpired .refl (.inr ⟨habsent, rfl⟩) ?_
      rw [keep_of_absent habsent]
      exact hsteady.later.trans hlater₅
    · obtain rfl := M.fault e he
      exact ⟨hvars₅.trans h₄.vars, h₄.later.trans hlater₅, .driver, he⟩

end Delete

section Postcommit

variable {archive : VerifiedAuditArchive}

/-! ## After COMMIT -/

/-- How the check in a session of its own ends: with what one snapshot shows of the archive. -/
def Checked (M : Maintenance) (archive : VerifiedAuditArchive) (d : Database)
    (w : World M.service Bool) : Except Raised ReconcileReport → Prop
  | .ok report => ∃ d₁ rows, Later M d d₁ ∧ Later M d₁ w.committed ∧ d₁.store.Keyed ∧
      Loaded archive.events d₁ d₁ rows ∧ report = classify M.library archive.events rows
  | .error _ => Later M d w.committed ∧ (M.Faulty ∨ M.dialect = .other ∨
      ∃ d₁, Later M d d₁ ∧ Later M d₁ w.committed ∧
        ∀ head, currentHead M.expectedHeads d₁.heads ≠ .ok head)

theorem Checked.later {r : Except Raised ReconcileReport} (h : Checked M archive d w r)
    (h' : Later M w.committed w'.committed) : Checked M archive d w' r := by
  cases r with
  | ok report =>
    obtain ⟨d₁, rows, hlater, hnow, hkeyed, hloaded, hreport⟩ := h
    exact ⟨d₁, rows, hlater, hnow.trans h', hkeyed, hloaded, hreport⟩
  | error e =>
    obtain ⟨hlater, hwhy⟩ := h
    refine ⟨hlater.trans h', hwhy.imp_right (Or.imp_right ?_)⟩
    rintro ⟨d₁, hbefore, hnow, hschema⟩
    exact ⟨d₁, hbefore, hnow.trans h', hschema⟩

/-- A fault of a later statement. -/
theorem checked_of_fault {e : Raised} (h : Later M d w.committed) (he : M.service.Fault e) :
    Checked M archive d w (.error e) := ⟨h, .inl ⟨e, he⟩⟩

/-- The snapshot is given up, which may fail as well. -/
theorem Checked.ends_finally {m : Retention M ReconcileReport}
    (h : m.Ends w (Checked M archive d)) :
    (m.andFinally Session.rollback).Ends w (Checked M archive d) := by
  refine Session.ends_finally (h.mono fun w₁ r hr => ?_)
  refine (Session.ends_rollback w₁).mono fun w₂ s => ?_
  rintro ⟨hlater, -, rfl | ⟨e, rfl, he⟩⟩
  · exact hr.later hlater
  · refine checked_of_fault ?_ he
    cases r with
    | ok report =>
      obtain ⟨d₁, _, hbefore, hnow, -⟩ := hr
      exact (hbefore.trans hnow).trans hlater
    | error e' => exact hr.1.trans hlater

theorem ends_configureReadSnapshot :
    (configureReadSnapshot M).Ends w fun w' r => Later M w.committed w'.committed ∧
      match r with
      | .ok _ => w'.own = id ∧ w'.isolation = .repeatableRead none
      | .error e => (∃ code, e = .retention code ∧ M.dialect = .other) ∨ M.service.Fault e := by
  refine Session.ends_bind (Session.ends_call fun w₁ hw₁ => ?_)
  refine ⟨fun e he => ⟨⟨hw₁.meanwhile, .inr he⟩, hw₁.meanwhile, .inr he⟩, ?_⟩
  dsimp only
  have hbegin : (Session.begin (.repeatableRead none) : Retention M Unit).Ends
      ({ w₁.idle with isolation := .readCommitted } : World M.service Bool) fun w' r =>
      Later M w.committed w'.committed ∧
        match r with
        | .ok _ => w'.own = id ∧ w'.isolation = .repeatableRead none
        | .error e => (∃ code, e = .retention code ∧ M.dialect = .other) ∨ M.service.Fault e := by
    refine Session.ends_call fun w₂ hw₂ => ?_
    have hlater : Later M w.committed w₂.committed := hw₁.meanwhile.trans hw₂.meanwhile
    exact ⟨fun e he => ⟨⟨hlater, .inr he⟩, hlater, .inr he⟩, hlater, rfl, rfl⟩
  split
  · exact hbegin
  · exact hbegin
  · next hother => exact Session.ends_throw ⟨hw₁.meanwhile, .inl ⟨_, rfl, hother⟩⟩

/-- A transaction that sees what was committed at one instant. -/
structure Pinned (d : Database) (w : World M.service Bool) : Prop where
  later : Later M d w.committed
  isolation : w.isolation = .repeatableRead (some d)
  own : w.own = id

theorem Pinned.stable (h : Pinned d w) : Stable w := .snapshot d h.isolation

theorem Pinned.view (h : Pinned d w) : w.view = d := by
  rw [view_of_snapshot h.isolation, h.own]
  rfl

theorem Pinned.steady (h : Pinned d w) (h' : Steady w w') : Pinned d w' :=
  ⟨h.later.trans h'.later, h'.isolation.trans h.isolation, h'.own.trans h.own⟩

theorem Pinned.ends_read {α : Type} {f : Database → Except Raised α} (h : Pinned d w) :
    (Session.read f : Retention M α).Ends w fun w' r =>
      Pinned d w' ∧ (r = f d ∨ ∃ e, r = .error e ∧ M.service.Fault e) := by
  refine (ends_read_of_stable h.stable h.own).mono fun w' r => ?_
  rintro ⟨hsteady, hr⟩
  have hpinned := h.steady hsteady
  rw [hpinned.view] at hr
  exact ⟨hpinned, hr⟩

/-- How a snapshot begins: the statement that reads the schema takes it. -/
theorem ends_snapshot {α : Type} {k : Str → Retention M α}
    {Q : World M.service Bool → Except Raised α → Prop}
    (hfault : ∀ w' e, Later M w.committed w'.committed → M.service.Fault e → Q w' (.error e))
    (hdialect : M.dialect = .other → ∀ w' code, Later M w.committed w'.committed →
      Q w' (.error (.retention code)))
    (hschema : ∀ d₁ w' code, Later M w.committed d₁ → Later M d₁ w'.committed →
      (∀ head, currentHead M.expectedHeads d₁.heads ≠ .ok head) → Q w' (.error (.retention code)))
    (hk : ∀ d₁ w' head, Later M w.committed d₁ → Pinned d₁ w' →
      currentHead M.expectedHeads d₁.heads = .ok head → (k head).Ends w' Q) :
    (do
      configureReadSnapshot M
      let head ← requireCurrentHead M
      k head : Retention M α).Ends w Q := by
  refine Session.ends_bind (ends_configureReadSnapshot.mono fun w₁ r => ?_)
  rintro ⟨hlater₁, hr⟩
  cases r with
  | error e =>
    rcases hr with ⟨code, rfl, hother⟩ | he
    · exact hdialect hother w₁ code hlater₁
    · exact hfault w₁ e hlater₁ he
  | ok u =>
  obtain ⟨hown₁, hiso₁⟩ := hr
  refine Session.ends_bind (Session.ends_read fun w₂ hw₂ => ?_)
  have hlater₂ : Later M w.committed w₂.committed := hlater₁.trans hw₂.meanwhile
  have hiso₂ : w₂.isolation = .repeatableRead none := hw₂.isolation.trans hiso₁
  have hown₂ : w₂.own = id := hw₂.own.trans hown₁
  have hlook : w₂.look = { w₂ with isolation := .repeatableRead (some w₂.committed) } := by
    unfold World.look
    rw [hiso₂]
  have hview : w₂.view = w₂.committed := by
    unfold World.view
    rw [hiso₂, hown₂]
    rfl
  rw [hview, hlook]
  refine ⟨fun e he => ⟨hfault _ e hlater₂ he, hfault _ e hlater₂ he⟩, ?_⟩
  cases hhead : currentHead M.expectedHeads w₂.committed.heads with
  | error e =>
    obtain ⟨code, rfl⟩ := currentHead_error hhead
    refine hschema w₂.committed _ code hlater₂ .refl fun head hok => ?_
    cases hhead.symm.trans hok
  | ok head => exact hk w₂.committed _ head hlater₂ ⟨.refl, rfl, hown₂⟩ hhead

/-- The transaction of `reconcile_archive`. -/
theorem ends_reconcile (hkeyed : w.committed.store.Keyed) :
    (do
      configureReadSnapshot M
      let _ ← requireCurrentHead M
      reconcileInSession M archive : Retention M ReconcileReport).Ends w
        (Checked M archive w.committed) := by
  refine ends_snapshot (fun w' e hlater he => checked_of_fault hlater he)
    (fun hother w' code hlater => ⟨hlater, .inr (.inl hother)⟩)
    (fun d₁ w' code hbefore hnow hhead =>
      ⟨hbefore.trans hnow, .inr (.inr ⟨d₁, hbefore, hnow, hhead⟩)⟩)
    fun d₁ w₁ head hbefore hpinned hhead => ?_
  have hkeyed₁ : d₁.store.Keyed := Later.keyed hbefore hkeyed
  refine Session.ends_bind ((ends_loadCandidateRows hpinned.stable hpinned.own
    fun w' hw' => ?_).mono fun w₂ r => ?_)
  · rw [(hpinned.steady hw').view]
    exact hkeyed₁
  rintro ⟨hsteady, hr⟩
  have hpinned₂ := hpinned.steady hsteady
  cases r with
  | error e => exact checked_of_fault (hbefore.trans hpinned₂.later) hr
  | ok rows =>
    rw [hpinned.view, hpinned₂.view] at hr
    exact Session.ends_pure ⟨d₁, rows, hbefore, hpinned₂.later, hkeyed₁, hr, rfl⟩

theorem ends_reconcileArchive (hkeyed : w.committed.store.Keyed) :
    (reconcileArchive M archive).Ends w (Checked M archive w.committed) := by
  refine Session.ends_bind (Session.ends_connect ?_)
  refine Checked.ends_finally (Checked.ends_finally (Session.ends_catch ?_))
  refine (ends_reconcile (w := w.idle) hkeyed).mono fun w₁ r hr => ?_
  cases r with
  | ok report => exact hr
  | error e =>
    cases e with
    | retention code => exact Session.ends_throw hr
    | commitOutcomeUnknown code count sha => exact Session.ends_throw hr
    | committedVerification code count sha => exact Session.ends_throw hr
    | integrity => exact Session.ends_throw hr
    | driver => exact Session.ends_throw hr

theorem ends_postcommitReport (hkeyed : w.committed.store.Keyed) :
    (postcommitReport M archive).Ends w fun w' r => Checked M archive w.committed w' r ∧
      ∀ e, r = .error e → ∃ code count sha, e = .committedVerification code count sha := by
  refine Session.ends_catch ((ends_reconcileArchive hkeyed).mono fun w₁ r hr => ?_)
  cases r with
  | ok report => exact ⟨hr, fun e he => by cases he⟩
  | error e =>
    refine Session.ends_throw ⟨hr, fun e' he' => ?_⟩
    cases he'
    exact ⟨_, _, _, rfl⟩

end Postcommit

/-! ## The outcome -/

section Outcome

variable {archive : VerifiedAuditArchive}

/-- How a mutation of a database that was `d` ends. `E n` says of a database that the mutation
has been made, on `n` rows, `R` why it was refused, and `settled` what is to hold after it. -/
def Outcome (M : Maintenance) (archive : VerifiedAuditArchive) (E : ℕ → Database → Prop)
    (R : Prop) (settled : Database → Prop) (changed unchanged : String) (d : Database)
    (w : World M.service Bool) : Except Raised MutationReport → Prop
  | .ok report => ∃ n d₁, E n d₁ ∧ Later M d₁ w.committed ∧ settled d₁ ∧
      report = ⟨if n ≠ 0 then changed else unchanged, archive.events.length, n,
        archive.archiveSha256⟩
  | .error (.retention _) => Later M d w.committed ∧ R
  | .error .driver => Later M d w.committed ∧ M.Faulty
  | .error (.commitOutcomeUnknown _ _ _) =>
    M.Faulty ∧ (Later M d w.committed ∨ ∃ n, E n w.committed)
  | .error (.committedVerification _ _ _) => ∃ n d₁, E n d₁ ∧ Later M d₁ w.committed ∧
      (M.Faulty ∨ M.dialect = .other ∨
        (∀ head, currentHead M.expectedHeads d₁.heads ≠ .ok head) ∨ ¬ settled d₁)
  | .error .integrity => False

theorem ends_mutateArchive {E : ℕ → Database → Prop} {R : Prop} {settled : Database → Prop}
    {cleanupFailed precommitFailed mismatch changed unchanged : String}
    {accept : ReconcileStatus → Bool} {transaction : Retention M ℕ}
    (hE : ∀ n d₁ d₂, Later M d₁ d₂ → E n d₁ → E n d₂) (hR : M.Faulty → R)
    (hkeyed : ∀ n d₁, E n d₁ → d₁.store.Keyed)
    (hsettled : ∀ d₁ rows, d₁.store.Keyed → Loaded archive.events d₁ d₁ rows →
      (accept (classify M.library archive.events rows).status = true ↔ settled d₁))
    (htransaction : ∀ w', w'.committed = w.committed → w'.vars = false →
      transaction.Ends w' (Mutated M E (Later M w.committed) R False)) :
    (mutateArchive M archive cleanupFailed precommitFailed mismatch accept changed unchanged
      transaction).Ends w (Outcome M archive E R settled changed unchanged w.committed) := by
  have hundo : ∀ d₁ d₂ : Database, Later M d₁ d₂ → Later M w.committed d₁ →
      Later M w.committed d₂ := fun _ _ h₁ h₂ => h₂.trans h₁
  have hmutation : (mutationSession M archive
      (guardMutation M archive cleanupFailed precommitFailed transaction)).Ends w
      (Mutated M E (Later M w.committed) R M.Faulty) :=
    ends_mutationSession hundo hE fun w' hcommitted hvars =>
      ends_guardMutation hundo hR (htransaction w' hcommitted hvars)
  refine Session.ends_bind (hmutation.mono fun w₁ r hr => ?_)
  cases r with
  | error e =>
    cases e with
    | retention code => exact ⟨hr.2.1, hr.2.2⟩
    | driver => exact ⟨hr.2.1, hr.2.2⟩
    | commitOutcomeUnknown code count sha => exact hr.2
    | committedVerification code count sha =>
      obtain ⟨hfaulty, n, hdone⟩ := hr
      exact ⟨n, _, hdone, .refl, .inl hfaulty⟩
    | integrity => exact hr
  | ok n =>
  have hdone : E n w₁.committed := hr
  refine Session.ends_bind ((ends_postcommitReport (hkeyed n _ hdone)).mono fun w₂ r => ?_)
  rintro ⟨hchecked, hcodes⟩
  cases r with
  | error e =>
    obtain ⟨code, count, sha, rfl⟩ := hcodes e rfl
    obtain ⟨hlater, hfaulty | hother | ⟨d₁, hbefore, hnow, hschema⟩⟩ := hchecked
    · exact ⟨n, _, hdone, hlater, .inl hfaulty⟩
    · exact ⟨n, _, hdone, hlater, .inr (.inl hother)⟩
    · exact ⟨n, d₁, hE n _ _ hbefore hdone, hnow, .inr (.inr (.inl hschema))⟩
  | ok report =>
  obtain ⟨d₁, rows, hbefore, hnow, hkeyed₁, hloaded, rfl⟩ := hchecked
  have hdone₁ : E n d₁ := hE n _ _ hbefore hdone
  have haccept := hsettled d₁ rows hkeyed₁ hloaded
  dsimp only
  by_cases hgone : accept (classify M.library archive.events rows).status = true
  · rw [if_pos hgone]
    exact Session.ends_pure ⟨n, d₁, hdone₁, hnow, haccept.mp hgone, rfl⟩
  · rw [if_neg hgone]
    exact Session.ends_throw
      ⟨n, d₁, hdone₁, hnow, .inr (.inr (.inr fun h => hgone (haccept.mpr h)))⟩

/-- What a report of the check after COMMIT says of a deletion. -/
theorem Loaded.absent_iff {rows : List AuditEvent} (h : Loaded archive.events d d rows) :
    ((classify M.library archive.events rows).status = .allAbsent ∨
      (classify M.library archive.events rows).status = .emptyArchive) ↔
        ∀ event ∈ archive.events, Absent d event := by
  have hstatus := classify_status M.library archive.events rows
  have hverdict : ∀ event ∈ archive.events, Absent d event →
      verdict M.library rows event = .absent := fun event _ => h.absent_of_absent
  constructor
  · rintro (hs | hs)
    · rw [hs] at hstatus
      exact fun event hevent => h.absent hevent (hstatus.2 event hevent)
    · rw [hs] at hstatus
      exact fun event hevent => absurd (hstatus ▸ hevent) List.not_mem_nil
  · intro habsent
    cases hs : (classify M.library archive.events rows).status with
    | allAbsent => exact .inl rfl
    | emptyArchive => exact .inr rfl
    | allExact =>
      rw [hs] at hstatus
      obtain ⟨event, hevent⟩ := List.exists_mem_of_ne_nil _ hstatus.1
      cases (hstatus.2 event hevent).symm.trans (hverdict event hevent (habsent event hevent))
    | conflict =>
      rw [hs] at hstatus
      obtain ⟨event, hevent, hconflict⟩ := hstatus
      cases hconflict.symm.trans (hverdict event hevent (habsent event hevent))
    | mixedExactAbsent =>
      rw [hs] at hstatus
      obtain ⟨-, -, event, hevent, hne⟩ := hstatus
      exact absurd (hverdict event hevent (habsent event hevent)) hne

/-- What it says of a restore. -/
theorem Loaded.present_iff {rows : List AuditEvent} (harchive : Archived M.library archive)
    (hd : d.store.Keyed) (h : Loaded archive.events d d rows) :
    ((classify M.library archive.events rows).status = .allExact ∨
      (classify M.library archive.events rows).status = .emptyArchive) ↔
        ∀ event ∈ archive.events, Present M.library d event := by
  have hstatus := classify_status M.library archive.events rows
  have hverdict : ∀ event ∈ archive.events, Present M.library d event →
      verdict M.library rows event = .exact := fun event => h.exact_of_present hd
  constructor
  · rintro (hs | hs)
    · rw [hs] at hstatus
      exact fun event hevent => h.present hd (harchive.valid event hevent) (hstatus.2 event hevent)
    · rw [hs] at hstatus
      exact fun event hevent => absurd (hstatus ▸ hevent) List.not_mem_nil
  · intro hpresent
    cases hs : (classify M.library archive.events rows).status with
    | allExact => exact .inl rfl
    | emptyArchive => exact .inr rfl
    | allAbsent =>
      rw [hs] at hstatus
      obtain ⟨event, hevent⟩ := List.exists_mem_of_ne_nil _ hstatus.1
      cases (hstatus.2 event hevent).symm.trans (hverdict event hevent (hpresent event hevent))
    | conflict =>
      rw [hs] at hstatus
      obtain ⟨event, hevent, hconflict⟩ := hstatus
      cases hconflict.symm.trans (hverdict event hevent (hpresent event hevent))
    | mixedExactAbsent =>
      rw [hs] at hstatus
      obtain ⟨-, ⟨event, hevent, hne⟩, -⟩ := hstatus
      exact absurd (hverdict event hevent (hpresent event hevent)) hne

theorem Deletes.keyed {n : ℕ} (h : Deletes M archive n d d') (hd : d.store.Keyed) :
    d'.store.Keyed := by
  obtain ⟨h₀, -, -, h₁, -, hrest⟩ := h
  exact Later.keyed hrest ((Later.keyed (h₀.trans h₁) hd).filter _)

/-- Whatever fails and whatever the others commit, the events of a verified archive go in one
step or stay, and the result says which. -/
theorem delete_outcome {file : ArchiveFile} {expected : Json}
    (hverified : verifyArchive M.library file expected = .ok archive)
    (hkeyed : w.committed.store.Keyed) :
    (deleteArchiveEvents M archive).Ends w
      (Outcome M archive (Deletes M archive · w.committed) (DeleteRefused M archive w.committed)
        (fun d => ∀ event ∈ archive.events, Absent d event) "deleted" "already_absent"
        w.committed) := by
  refine ends_mutateArchive (fun _ _ _ h₁ h₂ => h₂.later h₁) .faulty (fun _ _ h => h.keyed hkeyed)
    (fun d₁ rows _ hloaded => ?_) fun w' hcommitted hvars => ?_
  · rw [decide_eq_true_iff]
    exact hloaded.absent_iff
  · rw [← hcommitted]
    exact ends_deleteTransaction (archived_of_verifyArchive hverified) hvars (hcommitted ▸ hkeyed)

end Outcome

/-! ## Restoring -/

/-- The row of a valid event reads back as the event. -/
theorem validateAuditEventForRead_row {L : Stdlib} {event : AuditEventReadFacts}
    (h : ValidEvent L event) : validateAuditEventForRead L event.row = .ok event := by
  have hcheck : checkEvent L livePayloadContract liveRetentionDays event.row.raw = some event :=
    (checkEvent_eq_some plain_archiveV1PayloadContract).mpr
      ⟨Archive.describes_rawEvent h.durationMs, h⟩
  rw [validateAuditEventForRead, validateAuditEventValuesForRead, hcheck]

theorem checks_row {L : Stdlib} {event : AuditEventReadFacts} (h : ValidEvent L event) :
    event.row.checks = true := by
  have hdays : 0 < days (archiveV1RetentionDays event.retentionClass) := by
    cases event.retentionClass <;> decide
  obtain ⟨t, -, hhash⟩ := h.payloadHash
  have hlength : event.payloadHash.length = 64 := by
    rw [hhash]
    exact beq_iff_eq.mp ((Bool.and_eq_true _ _).mp (safeHash_hexdigest _)).1
  have hall : ∀ {α : Type} {o : Option α} {p : α → Bool}, (∀ a ∈ o, p a = true) →
      o.all p = true := by
    intro α o p ho
    cases o with
    | none => rfl
    | some a => exact ho a rfl
  simp only [AuditEvent.checks, AuditEventReadFacts.row, hlength, beq_self_eq_true, Bool.true_and,
    Bool.and_eq_true]
  refine ⟨⟨⟨⟨hall fun n hn => ?_, hall fun n hn => ?_⟩, hall fun n hn => ?_⟩,
    hall fun x hx => ?_⟩, decide_eq_true ?_⟩
  · exact decide_eq_true (h.attempt n hn).1
  · exact decide_eq_true (h.providerAttempt n hn).1
  · exact decide_eq_true (h.leaseToken n hn).1
  · rw [(h.durationMs x hx).2.1]
    rfl
  · have hretention := h.retention
    change event.occurredAt.val < event.expiresAt.val
    omega

/-- What a flush needs. -/
structure Insertable (rows : List AuditEvent) (store : AuditStore) : Prop where
  checks : ∀ row ∈ rows, row.checks = true
  new : ∀ row ∈ rows, ∀ other ∈ store.events, other.id ≠ row.id ∧ other.eventKey ≠ row.eventKey
  reservation : ∀ row ∈ rows, ∀ r ∈ row.reservationId, r ∈ store.reservations
  id : (rows.map AuditEvent.id).Nodup
  eventKey : (rows.map AuditEvent.eventKey).Nodup

theorem Insertable.insertAll {rows : List AuditEvent} (h : Insertable rows store) :
    insertAll rows store = .ok { store with events := store.events ++ rows } := by
  induction rows generalizing store with
  | nil =>
    rw [List.append_nil]
    rfl
  | cons row rows ih =>
    obtain ⟨hchecks, hnew, hreservation, hid, hkey⟩ := h
    rw [List.forall_mem_cons] at hchecks hnew hreservation
    rw [List.map_cons, List.nodup_cons] at hid hkey
    have hinsert : store.insert row = .ok { store with events := store.events ++ [row] } :=
      insert_eq_ok.mpr ⟨⟨hchecks.1, hnew.1, hreservation.1⟩, rfl⟩
    have hrest : Insertable rows { store with events := store.events ++ [row] } := by
      refine ⟨hchecks.2, fun row' hrow' other hother => ?_, hreservation.2, hid.2, hkey.2⟩
      rcases List.mem_append.mp hother with hother | hother
      · exact hnew.2 row' hrow' other hother
      · obtain rfl := List.mem_singleton.mp hother
        refine ⟨fun heq => hid.1 ?_, fun heq => hkey.1 ?_⟩
        · exact heq ▸ List.mem_map_of_mem hrow'
        · exact heq ▸ List.mem_map_of_mem hrow'
    rw [Audit.insertAll, List.foldlM_cons, hinsert]
    have hall := ih hrest
    rw [List.append_assoc] at hall
    exact hall

section Restore

variable {archive : VerifiedAuditArchive} {events missing : List AuditEventReadFacts}

/-- The rows of events that nothing stands in the way of. -/
theorem insertable_of_absent (harchive : Archived M.library archive)
    (hmissing : missing.Sublist archive.events) (habsent : ∀ event ∈ missing, Absent d event)
    (hreservation : ∀ event ∈ missing, ∀ r ∈ event.reservationId, r ∈ d.store.reservations) :
    Insertable (missing.map (·.row)) d.store where
  checks := List.forall_mem_map.mpr fun event hevent =>
    checks_row (harchive.valid event (hmissing.subset hevent))
  new := List.forall_mem_map.mpr habsent
  reservation := List.forall_mem_map.mpr hreservation
  id := by
    rw [List.map_map]
    exact harchive.id.sublist (hmissing.map _)
  eventKey := by
    rw [List.map_map]
    exact harchive.eventKey.sublist (hmissing.map _)

/-- The restore: at one instant the events that are missing are added. An event that was absent
when it was looked for and is there by then is left as the others have written it. -/
inductive Restores (M : Maintenance) (archive : VerifiedAuditArchive) (n : ℕ) (d d' : Database) :
    Prop where
  | intro {d₁ d₂ : Database} {missing : List AuditEventReadFacts} : Later M d d₁ →
      Later M d₁ d₂ → missing.Sublist archive.events → missing.length = n →
      (∀ event ∈ missing, Absent d₂ event) →
      (∀ event ∈ archive.events, event ∉ missing → Present M.library d₂ event ∨
        Absent d₁ event ∧ ¬ Absent d₂ event) →
      Later M (d₂.append (missing.map (·.row))) d' → Restores M archive n d d'

theorem Restores.later {n : ℕ} {d'' : Database} (h : Restores M archive n d d')
    (h' : Later M d' d'') : Restores M archive n d d'' := by
  obtain ⟨h₁, h₂, hmissing, hn, habsent, hother, hrest⟩ := h
  exact ⟨h₁, h₂, hmissing, hn, habsent, hother, hrest.trans h'⟩

theorem AuditStore.Keyed.append {rows : List AuditEvent} (h : store.Keyed)
    (hrows : ∀ row ∈ rows, ∀ other ∈ store.events,
      other.id ≠ row.id ∧ other.eventKey ≠ row.eventKey)
    (hid : (rows.map AuditEvent.id).Nodup) (hkey : (rows.map AuditEvent.eventKey).Nodup) :
    AuditStore.Keyed { store with events := store.events ++ rows } := by
  constructor
  · rw [List.map_append, List.nodup_append]
    refine ⟨h.id, hid, fun i hi j hj heq => ?_⟩
    obtain ⟨other, hother, rfl⟩ := List.mem_map.mp hi
    obtain ⟨row, hrow, rfl⟩ := List.mem_map.mp hj
    exact (hrows row hrow other hother).1 heq
  · rw [List.map_append, List.nodup_append]
    refine ⟨h.eventKey, hkey, fun i hi j hj heq => ?_⟩
    obtain ⟨other, hother, rfl⟩ := List.mem_map.mp hi
    obtain ⟨row, hrow, rfl⟩ := List.mem_map.mp hj
    exact (hrows row hrow other hother).2 heq

theorem Restores.keyed {n : ℕ} (h : Restores M archive n d d') (hd : d.store.Keyed)
    (harchive : Archived M.library archive) : d'.store.Keyed := by
  obtain ⟨h₁, h₂, hmissing, -, habsent, -, hrest⟩ := h
  refine Later.keyed hrest ((Later.keyed (h₁.trans h₂) hd).append
    (List.forall_mem_map.mpr habsent) ?_ ?_)
  · rw [List.map_map]
    exact harchive.id.sublist (hmissing.map _)
  · rw [List.map_map]
    exact harchive.eventKey.sublist (hmissing.map _)

/-- Why nothing is restored. -/
inductive RestoreRefused (M : Maintenance) (archive : VerifiedAuditArchive) (d : Database) :
    Prop where
  | faulty : M.Faulty → RestoreRefused M archive d
  | dialect : M.dialect = .other → RestoreRefused M archive d
  | schema {d₁ : Database} : Later M d d₁ →
      (∀ head, currentHead M.expectedHeads d₁.heads ≠ .ok head) → RestoreRefused M archive d
  | reservation {d₁ : Database} {event : AuditEventReadFacts} {r : Str} : Later M d d₁ →
      event ∈ archive.events → r ∈ event.reservationId → r ∉ d₁.store.reservations →
      RestoreRefused M archive d
  /-- an event is there, but not as it was archived -/
  | contents {d₁ d₂ : Database} {event : AuditEventReadFacts} : Later M d d₁ → Later M d₁ d₂ →
      event ∈ archive.events → ¬ Present M.library d₁ event → ¬ Absent d₂ event →
      RestoreRefused M archive d

/-- The reservations that are not found were not there when they were looked for. -/
theorem ends_requireReservations (h : Locked d w) :
    (requireReservations M events).Ends w fun w' r => (Steady w w' ∧ Locked d w') ∧
      match r with
      | .ok _ => True
      | .error e => (∃ code, e = .retention code ∧ ∃ d₁ event r, Later M d d₁ ∧ event ∈ events ∧
          r ∈ event.reservationId ∧ r ∉ d₁.store.reservations) ∨ M.service.Fault e := by
  set ids := (events.filterMap (·.reservationId)).dedup.insertionSort (· ≤ ·) with hids
  -- after some chunks: an id of theirs has been found, or was missing
  let I : List (List Str) → List Str → World M.service Bool → Prop := fun done found w' =>
    (Steady w w' ∧ Locked d w') ∧
      ∀ id ∈ done.flatten, id ∈ found ∨ ∃ d₁, Later M d d₁ ∧ id ∉ d₁.store.reservations
  have hloop := Session.ends_foldlM (S := M.service)
    (f := fun found chunk => do
      let there ← (Session.read fun d => .ok (d.store.reservations.filter (chunk.contains ·)) :
        Retention M _)
      return found ++ there)
    (I := I) (E := fun e w' => (Steady w w' ∧ Locked d w') ∧ M.service.Fault e)
    (l := chunks ids) (b := []) (w := w) ?_ ?_
  · refine Session.ends_bind (hloop.mono fun w' r hr => ?_)
    cases r with
    | error e => exact ⟨hr.1, .inr hr.2⟩
    | ok found =>
    obtain ⟨hlocked, hfound⟩ := hr
    rw [flatten_chunks] at hfound
    dsimp only
    by_cases hall : ids.all (found.contains ·) = true
    · rw [if_pos hall]
      exact Session.ends_pure ⟨hlocked, trivial⟩
    · rw [if_neg hall]
      refine Session.ends_throw ⟨hlocked, .inl ⟨_, rfl, ?_⟩⟩
      rw [List.all_eq_true] at hall
      push Not at hall
      obtain ⟨id, hid, hmissing⟩ := hall
      obtain ⟨d₁, hlater, hnot⟩ := (hfound id hid).resolve_left fun hmem =>
        hmissing (List.contains_iff_mem.mpr hmem)
      rw [hids, List.mem_insertionSort, List.mem_dedup, List.mem_filterMap] at hid
      obtain ⟨event, hevent, hreservation⟩ := hid
      exact ⟨d₁, event, id, hlater, hevent, hreservation, hnot⟩
  · rintro done chunk rest found w₁ - ⟨⟨hsteady, hlocked⟩, hfound⟩
    refine Session.ends_bind (hlocked.ends_read.mono fun w₂ r => ?_)
    rintro ⟨⟨hsteady', hlocked'⟩, rfl | ⟨e, rfl, he⟩⟩
    · refine Session.ends_pure ⟨⟨hsteady.trans hsteady', hlocked'⟩, fun id hid => ?_⟩
      rw [List.flatten_append, List.flatten_singleton, List.mem_append] at hid
      rcases hid with hid | hid
      · exact (hfound id hid).imp_left (List.mem_append_left _)
      · by_cases hthere : id ∈ w₂.committed.store.reservations
        · refine .inl (List.mem_append_right _ (List.mem_filter.mpr ⟨hthere, ?_⟩))
          exact List.contains_iff_mem.mpr hid
        · exact .inr ⟨_, hlocked'.later, hthere⟩
    · exact ⟨⟨hsteady.trans hsteady', hlocked'⟩, he⟩
  · exact ⟨⟨.refl w, h⟩, fun id hid => absurd hid List.not_mem_nil⟩

end Restore

section Restore

variable {archive : VerifiedAuditArchive} {missing : List AuditEventReadFacts}

theorem Absent.of_grows {event : AuditEventReadFacts} (h : Absent d' event) (h' : Grows d d') :
    Absent d event := fun row hrow => h row (h'.mem hrow)

/-- The rows that are pending stay apart from what the others commit. -/
theorem others_apart {rows : List AuditEvent}
    (h : M.service.Others true (Database.append rows) d d')
    (hd : ∀ row ∈ rows, ∀ other ∈ d.store.events,
      other.id ≠ row.id ∧ other.eventKey ≠ row.eventKey) :
    ∀ row ∈ rows, ∀ other ∈ d'.store.events,
      other.id ≠ row.id ∧ other.eventKey ≠ row.eventKey := by
  induction h with
  | refl => exact hd
  | tail _ hstep ih =>
    exact fun row hrow => (M.commits _ _ _ _ hstep).apart hrow (ih row hrow) rfl

/-- How the restore ends, up to COMMIT and after it. -/
abbrev Restored (M : Maintenance) (archive : VerifiedAuditArchive) (d : Database) (late : Prop) :
    World M.service Bool → Except Raised ℕ → Prop :=
  Mutated M (fun n => Restores M archive n d) (Later M d) (RestoreRefused M archive d) late

/-- The flush inserts the missing events, or one of them is no longer missing. -/
theorem ends_flush {d₁ : Database} (harchive : Archived M.library archive) (h : Locked d w)
    (hmissing : missing.Sublist archive.events) (hlater : Later M d d₁)
    (hnow : Later M d₁ w.committed) (habsent : ∀ event ∈ missing, Absent d₁ event) :
    (flush M (missing.map (·.row))).Ends w fun w' r =>
      (Later M w.committed w'.committed ∧ w'.vars = false) ∧
        match r with
        | .ok _ => Grows w.committed w'.committed ∧ w'.held = true ∧
            w'.own = Database.append (missing.map (·.row)) ∧
            ∀ event ∈ missing, Absent w'.committed event
        | .error _ => RestoreRefused M archive d := by
  refine Session.ends_write fun w₁ hw₁ => ?_
  have hsteady : Steady w w₁ := .of_turned hw₁ h.stable h.own
  have h₁ : Locked d w₁ := h.steady hsteady
  have hgrows : Grows w.committed w₁.committed := others_grows (h.held ▸ hw₁.others)
  rw [h₁.view, World.look_eq_self h₁.stable.isolation]
  have hfaulty : ∀ e, M.service.Fault e → RestoreRefused M archive d :=
    fun e he => .faulty ⟨e, he⟩
  rcases hinsert : insertAll (missing.map (·.row)) w₁.committed.store with e | store'
  · rw [hinsert]
    refine ⟨fun e he => ⟨⟨⟨hsteady.later, h₁.vars⟩, hfaulty e he⟩,
      ⟨hsteady.later, h₁.vars⟩, hfaulty e he⟩, ⟨hsteady.later, h₁.vars⟩, ?_⟩
    -- one of the rows has met another, or has lost its reservation
    by_cases hreservation : ∀ event ∈ missing, ∀ r ∈ event.reservationId,
        r ∈ w₁.committed.store.reservations
    · have hmet : ¬ ∀ event ∈ missing, Absent w₁.committed event := fun habsent₁ => by
        have hok := (insertable_of_absent harchive hmissing habsent₁ hreservation).insertAll
        cases hok.symm.trans hinsert
      push Not at hmet
      obtain ⟨event, hevent, hmet⟩ := hmet
      refine .contents hlater (hnow.trans hsteady.later) (hmissing.subset hevent) ?_ hmet
      rintro ⟨row, hrow, hid, -⟩
      exact (habsent event hevent row hrow).1 hid
    · push Not at hreservation
      obtain ⟨event, hevent, r, hr, hnot⟩ := hreservation
      exact .reservation h₁.later (hmissing.subset hevent) hr hnot
  · have hnew := (insertAll_eq_ok hinsert).2
    rw [List.forall_mem_map] at hnew
    rw [hinsert]
    refine ⟨fun e he => ⟨⟨⟨hsteady.later, h₁.vars⟩, hfaulty e he⟩,
      ⟨hsteady.later, h₁.vars⟩, hfaulty e he⟩, ⟨hsteady.later, h₁.vars⟩, hgrows, h₁.held, ?_, hnew⟩
    dsimp only
    rw [h₁.own]
    rfl

/-- What was absent is added, and COMMIT makes that last. -/
theorem ends_restoreMissing {d₁ : Database} (harchive : Archived M.library archive)
    (h : Locked d w) (hkeyed : d.store.Keyed) (hlater : Later M d d₁)
    (hnow : Later M d₁ w.committed)
    (hfirst : ∀ event ∈ archive.events,
      Present M.library w.committed event ∨ Absent d₁ event) :
    (do
      let rows ← loadCandidateRows M archive.events
      let missing := archive.events.filter fun event =>
        !rows.any (·.id == event.id) && !rows.any (·.eventKey == event.eventKey)
      tryCatch (flush M (missing.map (·.row))) fun _ => do
        Session.rollback
        throw (.retention "audit_retention_restore_precommit_failed")
      commitMutation M archive "audit_retention_restore_commit_outcome_unknown"
      return missing.length : Retention M ℕ).Ends w (Restored M archive d False) := by
  have hundo : ∀ d₁ d₂ : Database, Later M d₁ d₂ → Later M d d₁ → Later M d d₂ :=
    fun _ _ h₁ h₂ => h₂.trans h₁
  have hviews : ∀ w', Steady w w' → w'.view.store.Keyed := fun w' hw' => by
    rw [(h.steady hw').view]
    exact Later.keyed (h.later.trans hw'.later) hkeyed
  refine Session.ends_bind ((ends_loadCandidateRows h.stable h.own hviews).mono fun w₁ r => ?_)
  rintro ⟨hsteady, hr⟩
  have h₁ := h.steady hsteady
  cases r with
  | error e => exact h₁.faulty hr
  | ok rows =>
  have hloaded : Loaded archive.events w.committed w₁.committed rows := by
    rwa [h.view, h₁.view] at hr
  have hgrows₁ : Grows w.committed w₁.committed := by
    have hgrows := hsteady.grows
    rwa [h.view, h₁.view] at hgrows
  dsimp only
  set missing := archive.events.filter fun event =>
    !rows.any (·.id == event.id) && !rows.any (·.eventKey == event.eventKey) with hmissing
  have hsublist : missing.Sublist archive.events := List.filter_sublist
  -- an event is missing if nothing that has been loaded stands in its way
  have hmem : ∀ event ∈ archive.events, event ∈ missing ↔
      ∀ row ∈ rows, row.id ≠ event.id ∧ row.eventKey ≠ event.eventKey := by
    intro event hevent
    simp only [hmissing, List.mem_filter, hevent, true_and, Bool.and_eq_true, Bool.not_eq_true',
      List.any_eq_false, beq_iff_eq, forall_and]
  have hother : ∀ event ∈ archive.events, event ∉ missing → ¬ Absent w₁.committed event := by
    intro event hevent hnot habsent
    exact hnot ((hmem event hevent).mpr fun row hrow => habsent row (hloaded.sound row hrow))
  have habsent : ∀ event ∈ missing, Absent w.committed event := by
    intro event hevent row hrow
    have hmem' := hsublist.subset hevent
    by_contra hclash
    rw [not_and_or, not_ne_iff, not_ne_iff] at hclash
    have hcandidate : row ∈ candidates archive.events w.committed.store :=
      mem_candidates.mpr ⟨hrow, event, hmem', hclash.imp Eq.symm Eq.symm⟩
    have hclear := (hmem event hmem').mp hevent row (hloaded.complete row hcandidate)
    exact hclash.elim hclear.1 hclear.2
  refine Session.ends_bind (Session.ends_catch
    ((ends_flush harchive h₁ hsublist h.later hsteady.later habsent).mono fun w₂ r => ?_))
  rintro ⟨⟨hlater₂, hvars₂⟩, hr⟩
  cases r with
  | error e =>
    refine (ends_refuse (fun n => Restores M archive n d) False hundo (h₁.later.trans hlater₂)
      hvars₂ hr).mono ?_
    rintro w₃ r ⟨e', rfl, hr⟩
    exact hr
  | ok u =>
  obtain ⟨hgrows₂, hheld₂, hown₂, habsent₂⟩ := hr
  refine Session.ends_bind ((ends_commitMutation (n := missing.length)
    (fun n => Restores M archive n d) (RestoreRefused M archive d) False hvars₂
    (h₁.later.trans hlater₂) hundo ?_).mono fun w₃ r hr => ?_)
  · intro d₂ hothers
    rw [hown₂]
    rw [hheld₂, hown₂] at hothers
    have hgrows : Grows w₁.committed d₂ := hgrows₂.trans (others_grows hothers)
    refine .intro hlater (((hnow.trans hsteady.later).trans hlater₂).trans (Session.meanwhile_of_others hothers))
      hsublist rfl ?_ (fun event hevent hnot => ?_) .refl
    · have hapart := others_apart hothers (List.forall_mem_map.mpr habsent₂)
      rwa [List.forall_mem_map] at hapart
    · refine (hfirst event hevent).imp (fun h => h.grows (hgrows₁.trans hgrows)) fun h => ⟨h, ?_⟩
      exact fun h' => hother event hevent hnot (h'.of_grows hgrows)
  · cases r with
    | ok u => exact Session.ends_pure hr
    | error e => exact hr

/-- Without a conflict every event is there as it was archived, or is not there. -/
theorem verdict_ne_conflict {L : Stdlib} {events : List AuditEventReadFacts}
    {rows : List AuditEvent} (h : (classify L events rows).status ≠ .conflict)
    {event : AuditEventReadFacts} (hevent : event ∈ events) :
    verdict L rows event ≠ .conflict := by
  have hstatus := classify_status L events rows
  cases hs : (classify L events rows).status with
  | conflict => exact absurd hs h
  | emptyArchive =>
    rw [hs] at hstatus
    exact absurd (hstatus ▸ hevent) List.not_mem_nil
  | allExact =>
    rw [hs] at hstatus
    rw [hstatus.2 event hevent]
    decide
  | allAbsent =>
    rw [hs] at hstatus
    rw [hstatus.2 event hevent]
    decide
  | mixedExactAbsent =>
    rw [hs] at hstatus
    exact hstatus.1 event hevent

theorem append_nil (d : Database) : d.append [] = d := by
  rw [Database.append, List.append_nil]

theorem ends_restoreTransaction (harchive : Archived M.library archive) (hvars : w.vars = false)
    (hkeyed : w.committed.store.Keyed) :
    (restoreTransaction M archive).Ends w (Restored M archive w.committed False) := by
  refine ends_beginMutation hvars .dialect (fun _ => .schema) fun w₂ h₂ => ?_
  refine Session.ends_bind ((ends_requireReservations h₂).mono fun w₃ r => ?_)
  rintro ⟨⟨-, h₃⟩, hr⟩
  cases r with
  | error e =>
    rcases hr with ⟨code, rfl, d₁, event, reservation, hlater, hevent, hmem, hnot⟩ | hfault
    · exact ⟨h₃.vars, h₃.later, .reservation hlater hevent hmem hnot⟩
    · exact h₃.faulty hfault
  | ok u =>
  refine Session.ends_bind ((h₃.ends_reconcileInSession hkeyed).mono fun w₄ r => ?_)
  rintro ⟨⟨hsteady, h₄⟩, hr⟩
  cases r with
  | error e => exact h₄.faulty hr
  | ok report =>
  obtain ⟨rows, hloaded, rfl⟩ := hr
  have hkeyed₄ : w₄.committed.store.Keyed := Later.keyed h₄.later hkeyed
  have hstatus := classify_status M.library archive.events rows
  dsimp only
  by_cases hconflict : (classify M.library archive.events rows).status = .conflict
  · rw [if_pos hconflict]
    rw [hconflict] at hstatus
    obtain ⟨event, hevent, hverdict⟩ := hstatus
    refine Session.ends_bind (Session.ends_throw
      ⟨h₄.vars, h₄.later, .contents h₃.later hsteady.later hevent ?_ ?_⟩)
    · intro hpresent
      cases hverdict.symm.trans (hloaded.exact_of_present hkeyed₄ hevent hpresent)
    · intro habsent
      cases hverdict.symm.trans (hloaded.absent_of_absent habsent)
  rw [if_neg hconflict]
  have hfirst : ∀ event ∈ archive.events,
      Present M.library w₄.committed event ∨ Absent w₃.committed event := by
    intro event hevent
    have hne := verdict_ne_conflict hconflict hevent
    cases hverdict : verdict M.library rows event with
    | absent => exact .inr (hloaded.absent hevent hverdict)
    | exact => exact .inl (hloaded.present hkeyed₄ (harchive.valid event hevent) hverdict)
    | conflict => exact absurd hverdict hne
  by_cases hsome : (classify M.library archive.events rows).status = .allAbsent ∨
      (classify M.library archive.events rows).status = .mixedExactAbsent
  · rw [if_pos hsome]
    exact ends_restoreMissing harchive h₄ hkeyed h₃.later hsteady.later hfirst
  · rw [if_neg hsome]
    have hpresent : ∀ event ∈ archive.events, Present M.library w₄.committed event := by
      intro event hevent
      rw [not_or] at hsome
      cases hs : (classify M.library archive.events rows).status with
      | allAbsent => exact absurd hs hsome.1
      | mixedExactAbsent => exact absurd hs hsome.2
      | conflict => exact absurd hs hconflict
      | emptyArchive =>
        rw [hs] at hstatus
        exact absurd (hstatus ▸ hevent) List.not_mem_nil
      | allExact =>
        rw [hs] at hstatus
        exact hloaded.present hkeyed₄ (harchive.valid event hevent) (hstatus.2 event hevent)
    refine Session.ends_bind ((Session.ends_rollback w₄).mono fun w₅ r => ?_)
    rintro ⟨hlater₅, hvars₅, rfl | ⟨e, rfl, he⟩⟩
    · refine Session.ends_pure ?_
      refine .intro h₃.later hsteady.later (List.nil_sublist _) rfl
        (fun event hevent => absurd hevent List.not_mem_nil)
        (fun event hevent _ => .inl (hpresent event hevent)) ?_
      rw [List.map_nil, append_nil]
      exact hlater₅
    · obtain rfl := M.fault e he
      exact ⟨hvars₅.trans h₄.vars, h₄.later.trans hlater₅, .driver, he⟩

/-- Whatever fails and whatever the others commit, the missing events of a verified archive come
back in one step or not at all, and the result says which. -/
theorem restore_outcome {file : ArchiveFile} {expected : Json}
    (hverified : verifyArchive M.library file expected = .ok archive)
    (hkeyed : w.committed.store.Keyed) :
    (restoreArchive M archive).Ends w
      (Outcome M archive (Restores M archive · w.committed)
        (RestoreRefused M archive w.committed)
        (fun d => ∀ event ∈ archive.events, Present M.library d event) "restored" "already_exact"
        w.committed) := by
  have harchive := archived_of_verifyArchive hverified
  refine ends_mutateArchive (fun _ _ _ h₁ h₂ => h₂.later h₁) .faulty
    (fun _ _ h => h.keyed hkeyed harchive) (fun d₁ rows hkeyed₁ hloaded => ?_)
    fun w' hcommitted hvars => ?_
  · rw [decide_eq_true_iff]
    exact hloaded.present_iff harchive hkeyed₁
  · rw [← hcommitted]
    exact ends_restoreTransaction harchive hvars (hcommitted ▸ hkeyed)

end Restore

/-! ## An answer that is lost -/

namespace Sample

/-- The archive of one event, as it is verified. -/
def archive : VerifiedAuditArchive :=
  ⟨Archive.Sample.cutoff, Archive.Sample.sourceHead, [Archive.Sample.claimed], false,
    Archive.Sample.contentSha,
    hexdigest (Archive.Sample.library.sha256 (Archive.Sample.file Archive.Sample.texts).content)⟩

theorem verify_texts : verifyArchive Archive.Sample.library
    (Archive.Sample.file Archive.Sample.texts) .null = .ok archive := by
  have hstamped : Archive.StampedEvents Archive.Sample.library [Archive.Sample.claimed] := by
    intro f hf
    obtain rfl := List.mem_singleton.mp hf
    exact ⟨Archive.Sample.stamped (by decide), Archive.Sample.stamped (by decide)⟩
  exact Archive.verifyArchive_of_lines ⟨rfl, rfl, rfl, Archive.Sample.length_texts⟩ rfl rfl
    Archive.Sample.archiveLines_texts (Archive.eq_int.mpr rfl) trivial
    Archive.Sample.eligible_claimed (Archive.Sample.stamped (by decide)) hstamped

/-- Others commit, and every call may fail. -/
def busy : Maintenance where
  library := Archive.Sample.library
  dialect := .postgresql
  expectedHeads := [Archive.Sample.sourceHead]
  service := ⟨false, Commits, (· = .driver)⟩
  free := rfl
  commits := fun _ _ _ _ h => h
  fault := fun _ h => h

def quiet : Fate busy.service where
  others := fun _ _ d => d
  allowed := fun _ _ _ => .refl
  raises := none
  fault := fun _ h => by cases h
  landed := true

/-- The call is carried out and its answer is lost. -/
def lost : Fate busy.service where
  others := fun _ _ d => d
  allowed := fun _ _ _ => .refl
  raises := some .driver
  fault := fun _ h => (Option.some.inj h).symm
  landed := true

/-- The seventh call, the COMMIT of a deletion, loses its answer. -/
def world (events : List AuditEvent) : World busy.service Bool where
  committed := ⟨⟨events, []⟩, [Archive.Sample.sourceHead], Archive.Sample.cutoff⟩
  own := id
  held := false
  isolation := .readCommitted
  vars := false
  fates := fun n => if n = 6 then lost else quiet

theorem verify_busy : verifyArchive busy.library (Archive.Sample.file Archive.Sample.texts) .null =
    .ok archive := verify_texts

theorem keyed_world_nil : (world []).committed.store.Keyed := ⟨List.nodup_nil, List.nodup_nil⟩

theorem keyed_world_singleton (row : AuditEvent) : (world [row]).committed.store.Keyed :=
  ⟨List.nodup_singleton row.id, List.nodup_singleton row.eventKey⟩

end Sample

theorem delete_outcome_lost :
    (deleteArchiveEvents Sample.busy Sample.archive).Ends
      (Sample.world [Archive.Sample.claimed.row])
      (Outcome Sample.busy Sample.archive
        (Deletes Sample.busy Sample.archive ·
          (Sample.world [Archive.Sample.claimed.row]).committed)
        (DeleteRefused Sample.busy Sample.archive
          (Sample.world [Archive.Sample.claimed.row]).committed)
        (fun d => ∀ event ∈ Sample.archive.events, Absent d event) "deleted" "already_absent"
        (Sample.world [Archive.Sample.claimed.row]).committed) :=
  delete_outcome (M := Sample.busy) Sample.verify_busy
    (Sample.keyed_world_singleton Archive.Sample.claimed.row)

theorem restore_outcome_lost :
    (restoreArchive Sample.busy Sample.archive).Ends (Sample.world [])
      (Outcome Sample.busy Sample.archive
        (Restores Sample.busy Sample.archive · (Sample.world []).committed)
        (RestoreRefused Sample.busy Sample.archive (Sample.world []).committed)
        (fun d => ∀ event ∈ Sample.archive.events, Present Sample.busy.library d event)
        "restored" "already_exact" (Sample.world []).committed) :=
  restore_outcome (M := Sample.busy) Sample.verify_busy Sample.keyed_world_nil

end Audit

end LLMBenchLab
