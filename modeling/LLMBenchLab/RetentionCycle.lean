import LLMBenchLab.Paging
import LLMBenchLab.RetentionOutcomes

/-!
# Archiving, deleting, restoring

What is archived is what one snapshot has selected (`archive_outcome`). On a database of its own
an archive takes the first expired events with it and nothing else (`archive_delete`), and what
is deleted and then restored reads as it did (`restore_delete`).
-/

namespace LLMBenchLab

namespace Audit

open Python Faults
open Text (Str)
open Archive (VerifiedAuditArchive verifyArchive ArchiveFile archiveEventLimit orderLe ValidEvent)

variable {M : Maintenance} {row row' : AuditEvent} {d d' : Database}
  {w w' : World M.service Bool}

/-! ## On a database of its own -/

/-- Nobody else commits, and no call fails. -/
structure Maintenance.Calm (M : Maintenance) : Prop where
  step : ∀ held own d d', ¬ M.service.Step held own d d'
  fault : ¬ M.Faulty

theorem Maintenance.Calm.eq_of_later (h : M.Calm) (hlater : Later M d d') : d' = d := by
  induction hlater with
  | refl => rfl
  | tail _ hstep _ =>
    obtain ⟨held, own, hstep⟩ := hstep
    exact absurd hstep (h.step held own _ _)

/-- The database is ready for maintenance. -/
structure Ready (M : Maintenance) (d : Database) : Prop where
  keyed : d.store.Keyed
  dialect : M.dialect ≠ .other
  head : ∃ head, currentHead M.expectedHeads d.heads = .ok head
  /-- the foreign key -/
  reservation : ∀ row ∈ d.store.events, ∀ r ∈ row.reservationId, r ∈ d.store.reservations

section Calm

variable {archive : VerifiedAuditArchive} {events : List AuditEventReadFacts}

theorem absent_keep (hkeyed : d.store.Keyed)
    (hpresent : ∀ event ∈ events, Present M.library d event) :
    ∀ event ∈ events, Absent (d.keep (isNone events)) event := by
  intro event hevent row hrow
  obtain ⟨hrow, hnone⟩ := List.mem_filter.mp hrow
  have hid := isNone_eq_true.mp hnone event hevent
  refine ⟨hid.symm, fun hkey => ?_⟩
  obtain ⟨row', hrow', hid', hkey', -⟩ := hpresent event hevent
  obtain rfl := hkeyed.eq_of_eventKey hrow hrow' (hkey.trans hkey'.symm)
  exact hid hid'.symm

theorem Ready.keep (h : Ready M d) (p : AuditEvent → Bool) : Ready M (d.keep p) where
  keyed := h.keyed.filter p
  dialect := h.dialect
  head := h.head
  reservation := fun row hrow => h.reservation row (List.mem_of_mem_filter hrow)

/-- A deletion with nothing in its way. -/
theorem delete_calm {file : ArchiveFile} {expected : Json}
    (hverified : verifyArchive M.library file expected = .ok archive) (hcalm : M.Calm)
    (hready : Ready M w.committed) (hcutoff : archive.cutoffAt ≤ w.committed.now)
    (hexpired : ∀ event ∈ archive.events, event.expiresAt < w.committed.now)
    (hpresent : ∀ event ∈ archive.events, Present M.library w.committed event) :
    (deleteArchiveEvents M archive).Ends w fun w' r =>
      w'.committed = w.committed.keep (isNone archive.events) ∧
        r = .ok ⟨if archive.events.length ≠ 0 then "deleted" else "already_absent",
          archive.events.length, archive.events.length, archive.archiveSha256⟩ := by
  have hmade : ∀ {n : ℕ} {d' : Database}, Deletes M archive n w.committed d' →
      d' = w.committed.keep (isNone archive.events) ∧ n = archive.events.length := by
    intro n d' h
    obtain ⟨h₀, -, -, h₁, hcontents, hrest⟩ := h
    obtain rfl := hcalm.eq_of_later h₀
    obtain rfl := hcalm.eq_of_later h₁
    refine ⟨hcalm.eq_of_later hrest, ?_⟩
    rcases hcontents with ⟨-, hn⟩ | ⟨habsent, hn⟩
    · exact hn
    · -- an event that is there is not absent
      rw [hn, eq_comm, List.length_eq_zero_iff, List.eq_nil_iff_forall_not_mem]
      intro event hevent
      obtain ⟨row, hrow, hid, -⟩ := hpresent event hevent
      exact (habsent event hevent row hrow).1 hid
  refine (delete_outcome hverified hready.keyed).mono fun w' r hr => ?_
  cases r with
  | ok report =>
    obtain ⟨n, d₁, hdone, hlater, -, rfl⟩ := hr
    obtain ⟨rfl, rfl⟩ := hmade hdone
    exact ⟨hcalm.eq_of_later hlater, rfl⟩
  | error e =>
    exfalso
    cases e with
    | retention code =>
      obtain ⟨-, hrefused⟩ := hr
      cases hrefused with
      | faulty h => exact hcalm.fault h
      | dialect h => exact hready.dialect h
      | schema h hschema =>
        obtain rfl := hcalm.eq_of_later h
        exact hready.head.elim hschema
      | clock h hclock =>
        obtain rfl := hcalm.eq_of_later h
        rcases hclock with hclock | ⟨event, hevent, hclock⟩
        · exact absurd hclock (not_lt.mpr hcutoff)
        · exact absurd (hexpired event hevent) (not_lt.mpr hclock)
      | contents h _ hnot _ =>
        obtain rfl := hcalm.eq_of_later h
        exact hnot hpresent
    | driver => exact hcalm.fault hr.2
    | commitOutcomeUnknown code count sha => exact hcalm.fault hr.1
    | committedVerification code count sha =>
      obtain ⟨n, d₁, hdone, -, hwhy⟩ := hr
      obtain ⟨rfl, -⟩ := hmade hdone
      rcases hwhy with h | h | h | h
      · exact hcalm.fault h
      · exact hready.dialect h
      · exact (hready.keep (isNone archive.events)).head.elim h
      · exact h (absent_keep hready.keyed hpresent)
    | integrity => exact hr

instance (d : Database) (event : AuditEventReadFacts) : Decidable (Absent d event) :=
  inferInstanceAs (Decidable (∀ row ∈ d.store.events, _ ∧ _))

theorem not_absent_of_present {event : AuditEventReadFacts} (h : Present M.library d event) :
    ¬ Absent d event := by
  obtain ⟨row, hrow, hid, -⟩ := h
  exact fun habsent => (habsent row hrow).1 hid

theorem eq_filter_of_sublist {α : Type} {l l' : List α} {p : α → Bool} (h : l'.Sublist l)
    (hl : l.Nodup) (hmem : ∀ a ∈ l, a ∈ l' ↔ p a = true) : l' = l.filter p := by
  induction h with
  | slnil => rfl
  | @cons l' l a h ih =>
    rw [List.nodup_cons] at hl
    rw [List.forall_mem_cons] at hmem
    have ha : ¬ p a = true := fun hp => hl.1 (h.subset (hmem.1.mpr hp))
    rw [List.filter_cons_of_neg ha, ← ih hl.2 hmem.2]
  | @cons_cons l' l a h ih =>
    rw [List.nodup_cons] at hl
    have ha : p a = true := (hmem a List.mem_cons_self).mp List.mem_cons_self
    rw [List.filter_cons_of_pos ha]
    refine congrArg (a :: ·) (ih hl.2 fun b hb => ?_)
    rw [← hmem b (List.mem_cons_of_mem _ hb), List.mem_cons]
    refine ⟨.inr, Or.rec (fun heq => ?_) id⟩
    exact absurd (heq ▸ hb) hl.1

theorem present_append (harchive : Archived M.library archive) {event : AuditEventReadFacts}
    {missing : List AuditEventReadFacts} (hmissing : missing.Sublist archive.events)
    (hevent : event ∈ missing) : Present M.library (d.append (missing.map (·.row))) event :=
  ⟨event.row, List.mem_append_right _ (List.mem_map_of_mem hevent), rfl, rfl,
    validateAuditEventForRead_row (harchive.valid event (hmissing.subset hevent))⟩

/-- A restore with nothing in its way. -/
theorem restore_calm {file : ArchiveFile} {expected : Json}
    (hverified : verifyArchive M.library file expected = .ok archive) (hcalm : M.Calm)
    (hready : Ready M w.committed)
    (hreservation : ∀ event ∈ archive.events, ∀ r ∈ event.reservationId,
      r ∈ w.committed.store.reservations)
    (hevents : ∀ event ∈ archive.events,
      Present M.library w.committed event ∨ Absent w.committed event) :
    (restoreArchive M archive).Ends w fun w' r =>
      let missing := archive.events.filter fun event => Absent w.committed event
      w'.committed = w.committed.append (missing.map (·.row)) ∧
        r = .ok ⟨if missing.length ≠ 0 then "restored" else "already_exact",
          archive.events.length, missing.length, archive.archiveSha256⟩ := by
  have harchive := archived_of_verifyArchive hverified
  have hmade : ∀ {n : ℕ} {d' : Database}, Restores M archive n w.committed d' →
      d' = w.committed.append ((archive.events.filter fun event => Absent w.committed event).map
        (·.row)) ∧ n = (archive.events.filter fun event => Absent w.committed event).length := by
    intro n d' h
    obtain ⟨h₁, h₂, hmissing, rfl, habsent, hother, hrest⟩ := h
    obtain rfl := hcalm.eq_of_later h₁
    obtain rfl := hcalm.eq_of_later h₂
    have hfilter := eq_filter_of_sublist (p := fun event => Absent w.committed event) hmissing
      harchive.id.of_map fun event hevent => by
        rw [decide_eq_true_iff]
        refine ⟨habsent event, fun h => ?_⟩
        by_contra hnot
        rcases hother event hevent hnot with hpresent | ⟨-, hnot⟩
        · exact not_absent_of_present hpresent h
        · exact hnot h
    rw [← hfilter]
    exact ⟨hcalm.eq_of_later hrest, rfl⟩
  have hpresent : ∀ event ∈ archive.events, Present M.library (w.committed.append
      ((archive.events.filter fun event => Absent w.committed event).map (·.row))) event := by
    intro event hevent
    rcases hevents event hevent with h | h
    · exact h.grows ⟨_, rfl⟩
    · exact present_append harchive List.filter_sublist
        (List.mem_filter.mpr ⟨hevent, decide_eq_true h⟩)
  refine (restore_outcome hverified hready.keyed).mono fun w' r hr => ?_
  cases r with
  | ok report =>
    obtain ⟨n, d₁, hdone, hlater, -, rfl⟩ := hr
    obtain ⟨rfl, rfl⟩ := hmade hdone
    exact ⟨hcalm.eq_of_later hlater, rfl⟩
  | error e =>
    exfalso
    cases e with
    | retention code =>
      obtain ⟨-, hrefused⟩ := hr
      cases hrefused with
      | faulty h => exact hcalm.fault h
      | dialect h => exact hready.dialect h
      | schema h hschema =>
        obtain rfl := hcalm.eq_of_later h
        exact hready.head.elim hschema
      | reservation h hevent hr hnot =>
        obtain rfl := hcalm.eq_of_later h
        exact hnot (hreservation _ hevent _ hr)
      | contents h h' hevent hpresent habsent =>
        obtain rfl := hcalm.eq_of_later h
        obtain rfl := hcalm.eq_of_later h'
        exact (hevents _ hevent).elim hpresent habsent
    | driver => exact hcalm.fault hr.2
    | commitOutcomeUnknown code count sha => exact hcalm.fault hr.1
    | committedVerification code count sha =>
      obtain ⟨n, d₁, hdone, -, hwhy⟩ := hr
      obtain ⟨rfl, -⟩ := hmade hdone
      rcases hwhy with h | h | h | h
      · exact hcalm.fault h
      · exact hready.dialect h
      · exact hready.head.elim h
      · exact h hpresent
    | integrity => exact hr

/-- What a reader finds in the table. -/
def Database.contents (L : Stdlib) (d : Database) : List (Except AuditError AuditEventReadFacts) :=
  d.store.events.map (validateAuditEventForRead L)

/-- The rows of events that are there read as the events. -/
theorem perm_contents {d : Database} (hkeyed : d.store.Keyed)
    (harchive : Archived M.library archive)
    (hpresent : ∀ event ∈ archive.events, Present M.library d event) :
    (((d.keep (isNone archive.events)).append (archive.events.map (·.row))).contents
      M.library).Perm (d.contents M.library) := by
  have hids : ∀ event ∈ archive.events, ∃ row ∈ d.store.events, row.id = event.id := by
    intro event hevent
    obtain ⟨row, hrow, hid, -⟩ := hpresent event hevent
    exact ⟨row, hrow, hid⟩
  have hperm := perm_ids hkeyed.id harchive.id hids
  -- by its id an event is known
  let found (id : Str) : Except AuditError AuditEventReadFacts :=
    (archive.events.find? (·.id == id)).elim (.error .jsonError) .ok
  have hfound : ∀ event ∈ archive.events, found event.id = .ok event := by
    intro event hevent
    have hfind : archive.events.find? (·.id == event.id) = some event := by
      rw [← List.reverse_reverse archive.events]
      refine (find?_reverse_eq_some fun a ha b hb hpa hpb => ?_).mpr
        ⟨List.mem_reverse.mpr hevent, beq_self_eq_true _⟩
      refine List.inj_on_of_nodup_map harchive.id (List.mem_reverse.mp ha)
        (List.mem_reverse.mp hb) ?_
      exact (beq_iff_eq.mp hpa).trans (beq_iff_eq.mp hpb).symm
    simp only [found, hfind, Option.elim_some]
  have hold : (d.store.events.filter fun row => !isNone archive.events row).map
      (validateAuditEventForRead M.library) =
      ((d.store.events.filter fun row => !isNone archive.events row).map AuditEvent.id).map
        found := by
    rw [List.map_map]
    refine List.map_congr_left fun row hrow => ?_
    obtain ⟨hrow, hsome⟩ := List.mem_filter.mp hrow
    rw [isNone, Bool.not_not, List.any_eq_true] at hsome
    obtain ⟨event, hevent, heq⟩ := hsome
    obtain ⟨row', hrow', hid, -, hread⟩ := hpresent event hevent
    have hsame : event.id = row.id := beq_iff_eq.mp heq
    obtain rfl := hkeyed.eq_of_id hrow' hrow (hid.trans hsame)
    rw [Function.comp_apply, ← hsame, hfound event hevent, hread]
  have hnew : (archive.events.map (·.row)).map (validateAuditEventForRead M.library) =
      (archive.events.map AuditEventReadFacts.id).map found := by
    rw [List.map_map, List.map_map]
    refine List.map_congr_left fun event hevent => ?_
    rw [Function.comp_apply, Function.comp_apply, hfound event hevent,
      validateAuditEventForRead_row (harchive.valid event hevent)]
  have hafter : (((d.keep (isNone archive.events)).append (archive.events.map (·.row))).contents
      M.library) = (d.store.events.filter (isNone archive.events)).map
        (validateAuditEventForRead M.library) ++
          (archive.events.map (·.row)).map (validateAuditEventForRead M.library) :=
    List.map_append
  rw [hafter, hnew]
  refine ((hperm.map found).symm.append_left _).trans ?_
  rw [← hold, ← List.map_append]
  exact (List.filter_append_perm _ _).map _

theorem reservationId_of_read {L : Stdlib} {event : AuditEventReadFacts}
    (h : validateAuditEventForRead L row = .ok event) :
    event.reservationId = row.reservationId := by
  have hdescribes := (validEvent_of_read h).1.reservationId
  change Json.ofStr row.reservationId = Json.ofStr event.reservationId at hdescribes
  generalize row.reservationId = a at hdescribes ⊢
  generalize event.reservationId = b at hdescribes ⊢
  cases a <;> cases b <;> cases hdescribes <;> rfl

/-- What is deleted and then restored reads as it did. -/
theorem restore_delete {file : ArchiveFile} {expected : Json}
    (hverified : verifyArchive M.library file expected = .ok archive) (hcalm : M.Calm)
    (hready : Ready M w.committed) (hcutoff : archive.cutoffAt ≤ w.committed.now)
    (hexpired : ∀ event ∈ archive.events, event.expiresAt < w.committed.now)
    (hpresent : ∀ event ∈ archive.events, Present M.library w.committed event) :
    (do
      let deleted ← deleteArchiveEvents M archive
      let restored ← restoreArchive M archive
      return (deleted.changedCount, restored.changedCount) : Retention M (ℕ × ℕ)).Ends w
      fun w' r => r = .ok (archive.events.length, archive.events.length) ∧
        (w'.committed.contents M.library).Perm (w.committed.contents M.library) := by
  have harchive := archived_of_verifyArchive hverified
  refine Session.ends_bind ((delete_calm hverified hcalm hready hcutoff hexpired hpresent).mono
    fun w₁ r => ?_)
  rintro ⟨hdeleted, rfl⟩
  have habsent : ∀ event ∈ archive.events, Absent w₁.committed event := by
    rw [hdeleted]
    exact absent_keep hready.keyed hpresent
  have hready₁ : Ready M w₁.committed := by
    rw [hdeleted]
    exact hready.keep _
  have hreservation : ∀ event ∈ archive.events, ∀ r ∈ event.reservationId,
      r ∈ w₁.committed.store.reservations := by
    intro event hevent r hr
    obtain ⟨row, hrow, -, -, hread⟩ := hpresent event hevent
    rw [hdeleted]
    exact hready.reservation row hrow r (reservationId_of_read hread ▸ hr)
  refine Session.ends_bind ((restore_calm hverified hcalm hready₁ hreservation
    fun event hevent => .inr (habsent event hevent)).mono fun w₂ r => ?_)
  rintro ⟨hrestored, rfl⟩
  have hall : (archive.events.filter fun event => Absent w₁.committed event) = archive.events :=
    List.filter_eq_self.mpr fun event hevent => decide_eq_true (habsent event hevent)
  rw [hall] at hrestored ⊢
  refine Session.ends_pure ⟨rfl, ?_⟩
  rw [hrestored, hdeleted]
  exact perm_contents hready.keyed harchive hpresent

end Calm

/-! ## Archiving -/

section Archiving

variable {archive : VerifiedAuditArchive}

/-- What the snapshot of `d` hands to the writer. -/
structure Selected (M : Maintenance) (d : Database) (input : ArchiveInput) : Prop where
  head : currentHead M.expectedHeads d.heads = .ok input.sourceAlembicHead
  cutoffAt : input.cutoffAt = d.now
  events : readEvents M.library ((expiredRows d.now d.store).take archiveEventLimit) =
    .ok input.events
  more : input.hasMoreEligible = decide (archiveEventLimit < (expiredRows d.now d.store).length)

/-- How `archive_expired_events` ends on a database that was `d`; `P` of the instant that it has
looked at and of the result. -/
def Archives {α : Type} (M : Maintenance) (P : Database → α → Prop) (d : Database)
    (w : World M.service Bool) : Except Raised α → Prop
  | .ok a => ∃ d₁, Later M d d₁ ∧ Later M d₁ w.committed ∧ P d₁ a
  | .error _ => Later M d w.committed ∧ (M.Faulty ∨ M.dialect = .other ∨
      ∃ d₁, Later M d d₁ ∧ Later M d₁ w.committed ∧
        ((∀ head, currentHead M.expectedHeads d₁.heads ≠ .ok head) ∨
          (∃ row ∈ (expiredRows d₁.now d₁.store).take archiveEventLimit,
            ∀ facts, validateAuditEventForRead M.library row ≠ .ok facts) ∨
          ∃ input, Selected M d₁ input ∧ ∃ e, writeArchive M.library input = .error e))

section Given

variable {α : Type} {P : Database → α → Prop}

theorem Archives.later {r : Except Raised α} (h : Archives M P d w r)
    (h' : Later M w.committed w'.committed) : Archives M P d w' r := by
  cases r with
  | ok input =>
    obtain ⟨d₁, hbefore, hnow, hselected⟩ := h
    exact ⟨d₁, hbefore, hnow.trans h', hselected⟩
  | error e =>
    obtain ⟨hlater, hwhy⟩ := h
    refine ⟨hlater.trans h', hwhy.imp_right (Or.imp_right ?_)⟩
    rintro ⟨d₁, hbefore, hnow, hwhy⟩
    exact ⟨d₁, hbefore, hnow.trans h', hwhy⟩

theorem Archives.ends_finally {m : Retention M α} (h : m.Ends w (Archives M P d)) :
    (m.andFinally Session.rollback).Ends w (Archives M P d) := by
  refine Session.ends_finally (h.mono fun w₁ r hr => ?_)
  refine (Session.ends_rollback w₁).mono fun w₂ s => ?_
  rintro ⟨hlater, -, rfl | ⟨e, rfl, he⟩⟩
  · exact hr.later hlater
  · refine ⟨?_, .inl ⟨e, he⟩⟩
    cases r with
    | ok input =>
      obtain ⟨d₁, hbefore, hnow, -⟩ := hr
      exact (hbefore.trans hnow).trans hlater
    | error e' => exact hr.1.trans hlater

end Given

theorem readEvents_error {L : Stdlib} {rows : List AuditEvent} {e : Raised}
    (h : readEvents L rows = .error e) : e = .integrity ∧
      ∃ row ∈ rows, ∀ facts, validateAuditEventForRead L row ≠ .ok facts := by
  induction rows with
  | nil => cases h
  | cons row rows ih =>
    rw [readEvents, List.mapM_cons] at h
    cases hread : validateAuditEventForRead L row with
    | error e' =>
      rw [hread] at h
      cases h
      refine ⟨rfl, row, List.mem_cons_self, fun facts hok => ?_⟩
      cases hread.symm.trans hok
    | ok facts =>
      rw [hread] at h
      cases hrest : readEvents L rows with
      | error e' =>
        rw [readEvents] at hrest
        rw [hrest] at h
        cases h
        obtain ⟨rfl, row', hrow', hbad⟩ := ih hrest
        exact ⟨rfl, row', List.mem_cons_of_mem _ hrow', hbad⟩
      | ok rest =>
        rw [readEvents] at hrest
        rw [hrest] at h
        cases h

theorem readEvents_eq_ok {L : Stdlib} {rows : List AuditEvent} {events : List AuditEventReadFacts} :
    readEvents L rows = .ok events ↔
      List.Forall₂ (fun row event => validateAuditEventForRead L row = .ok event) rows events := by
  rw [readEvents, mapM_eq_ok]
  constructor
  · refine fun h => h.imp fun row facts hrow => ?_
    cases hread : validateAuditEventForRead L row with
    | ok f =>
      rw [hread] at hrow
      exact congrArg _ (Except.ok.inj hrow)
    | error e =>
      rw [hread] at hrow
      cases hrow
  · refine fun h => h.imp fun row facts hrow => ?_
    rw [hrow]

theorem ends_selectExpiredEvents (w : World M.service Bool) :
    (selectExpiredEvents M).Ends w (Archives M (Selected M) w.committed) := by
  refine Session.ends_bind (Session.ends_connect ?_)
  refine Archives.ends_finally (Archives.ends_finally (Session.ends_catch ?_))
  have hsnapshot : (do
      configureReadSnapshot M
      let sourceHead ← requireCurrentHead M
      let cutoffAt ← databaseUtcNow M
      let rows ← Session.read fun d => .ok (expiredRows cutoffAt d.store)
      let events ← Session.lift (readEvents M.library (rows.take archiveEventLimit))
      return ⟨events, cutoffAt, sourceHead, archiveEventLimit < rows.length⟩ :
        Retention M ArchiveInput).Ends w.idle (Archives M (Selected M) w.committed) := by
    refine ends_snapshot (fun w' e hlater he => ⟨hlater, .inl ⟨e, he⟩⟩)
      (fun hother w' code hlater => ⟨hlater, .inr (.inl hother)⟩)
      (fun d₁ w' code hbefore hnow hhead =>
        ⟨hbefore.trans hnow, .inr (.inr ⟨d₁, hbefore, hnow, .inl hhead⟩)⟩)
      fun d₁ w₁ head hbefore hpinned hhead => ?_
    refine Session.ends_bind (hpinned.ends_read.mono fun w₂ r => ?_)
    rintro ⟨hpinned₂, rfl | ⟨e, rfl, he⟩⟩
    swap
    · exact ⟨hbefore.trans hpinned₂.later, .inl ⟨e, he⟩⟩
    refine Session.ends_bind (hpinned₂.ends_read.mono fun w₃ r => ?_)
    rintro ⟨hpinned₃, rfl | ⟨e, rfl, he⟩⟩
    swap
    · exact ⟨hbefore.trans hpinned₃.later, .inl ⟨e, he⟩⟩
    refine Session.ends_bind (Session.ends_lift ?_)
    cases hread : readEvents M.library ((expiredRows d₁.now d₁.store).take archiveEventLimit) with
    | error e =>
      obtain ⟨-, hunreadable⟩ := readEvents_error hread
      exact ⟨hbefore.trans hpinned₃.later,
        .inr (.inr ⟨d₁, hbefore, hpinned₃.later, .inr (.inl hunreadable)⟩)⟩
    | ok events =>
      exact Session.ends_pure ⟨d₁, hbefore, hpinned₃.later, hhead, rfl, hread, rfl⟩
  refine hsnapshot.mono fun w₁ r hr => ?_
  cases r with
  | ok input => exact hr
  | error e =>
    cases e with
    | retention code => exact Session.ends_throw hr
    | commitOutcomeUnknown code count sha => exact Session.ends_throw hr
    | committedVerification code count sha => exact Session.ends_throw hr
    | integrity => exact Session.ends_throw hr
    | driver => exact Session.ends_throw hr

/-- What is archived is what one snapshot has selected, and nothing is committed. -/
theorem archive_outcome (w : World M.service Bool) :
    (archiveExpiredEvents M).Ends w (Archives M (fun d written => ∃ input, Selected M d input ∧
      writeArchive M.library input = .ok written) w.committed) := by
  refine Session.ends_bind ((ends_selectExpiredEvents w).mono fun w₁ r hr => ?_)
  cases r with
  | error e => exact hr
  | ok input =>
  obtain ⟨d₁, hbefore, hnow, hselected⟩ := hr
  refine Session.ends_call fun w₂ hw₂ => ?_
  have hnow₂ : Later M d₁ w₂.committed := hnow.trans hw₂.meanwhile
  refine ⟨fun e he => ?_, ?_⟩
  · exact ⟨⟨hbefore.trans hnow₂, .inl ⟨e, he⟩⟩, hbefore.trans hnow₂, .inl ⟨e, he⟩⟩
  · dsimp only
    cases hwrite : writeArchive M.library input with
    | ok written => exact ⟨d₁, hbefore, hnow₂, input, hselected, hwrite⟩
    | error e =>
      exact ⟨hbefore.trans hnow₂,
        .inr (.inr ⟨d₁, hbefore, hnow₂, .inr (.inr ⟨input, hselected, e, hwrite⟩)⟩)⟩

/-! ## What has been selected -/

theorem orderLe_iff {a b : Instant × Str} :
    orderLe a b = true ↔ a.1.val < b.1.val ∨ a.1 = b.1 ∧ a.2 ≤ b.2 := by
  rw [orderLe, Bool.or_eq_true, Bool.and_eq_true, beq_iff_eq, decide_eq_true_iff,
    decide_eq_true_iff]
  rfl

theorem orderLe_total (a b : Instant × Str) : orderLe a b = true ∨ orderLe b a = true := by
  rw [orderLe_iff, orderLe_iff]
  rcases lt_trichotomy a.1.val b.1.val with h | h | h
  · exact .inl (.inl h)
  · exact (le_total a.2 b.2).imp (fun hle => .inr ⟨Subtype.ext h, hle⟩)
      fun hle => .inr ⟨Subtype.ext h.symm, hle⟩
  · exact .inr (.inl h)

theorem orderLe_trans {a b c : Instant × Str} (h : orderLe a b = true) (h' : orderLe b c = true) :
    orderLe a c = true := by
  rw [orderLe_iff] at h h' ⊢
  rcases h with h | ⟨h, hle⟩
  · rcases h' with h' | ⟨h', -⟩
    · exact .inl (h.trans h')
    · exact .inl (h' ▸ h)
  · rcases h' with h' | ⟨h', hle'⟩
    · exact .inl (h ▸ h')
    · exact .inr ⟨h.trans h', hle.trans hle'⟩

theorem orderLe_antisymm {a b : Instant × Str} (h : orderLe a b = true) (h' : orderLe b a = true) :
    a = b := by
  rw [orderLe_iff] at h h'
  rcases h with h | ⟨h, hle⟩
  · rcases h' with h' | ⟨h', -⟩
    · exact absurd h' h.asymm
    · exact absurd h (h' ▸ lt_irrefl _)
  · rcases h' with h' | ⟨-, hle'⟩
    · exact absurd h' (h ▸ lt_irrefl _)
    · exact Prod.ext h (le_antisymm hle hle')

/-- `ORDER BY expires_at, id` -/
def ExpiryLe (a b : AuditEvent) : Prop := orderLe (a.expiresAt, a.id) (b.expiresAt, b.id) = true

instance : DecidableRel ExpiryLe := fun _ _ => inferInstanceAs (Decidable (_ = true))

instance : Std.Total ExpiryLe := ⟨fun _ _ => orderLe_total _ _⟩

instance : IsTrans AuditEvent ExpiryLe := ⟨fun _ _ _ => orderLe_trans⟩

instance : Std.Refl ExpiryLe := ⟨fun _ => (orderLe_total _ _).elim id id⟩

/-- The expired rows, in any order. -/
def expired (d : Database) : List AuditEvent :=
  d.store.events.filter fun row => row.expiresAt < d.now

/-- The first rows of the snapshot of `d`. -/
def chosen (d : Database) : List AuditEvent := (expiredRows d.now d.store).take archiveEventLimit

theorem chosen_eq (d : Database) :
    chosen d = ((expired d).insertionSort ExpiryLe).take archiveEventLimit := by
  rw [chosen, expiredRows, List.take_take, Nat.min_eq_left (Nat.le_succ _)]
  rfl

theorem pairwise_chosen (d : Database) : (chosen d).Pairwise ExpiryLe := by
  rw [chosen_eq]
  exact (List.pairwise_insertionSort ExpiryLe _).sublist (List.take_sublist _ _)

theorem subperm_chosen (d : Database) : ∃ l, l.Perm (expired d) ∧ (chosen d).Sublist l := by
  rw [chosen_eq]
  exact ⟨_, List.perm_insertionSort _ _, List.take_sublist _ _⟩

theorem mem_chosen {d : Database} (h : row ∈ chosen d) :
    row ∈ d.store.events ∧ row.expiresAt < d.now := by
  obtain ⟨l, hperm, hsub⟩ := subperm_chosen d
  obtain ⟨hrow, hexpired⟩ := List.mem_filter.mp (hperm.mem_iff.mp (hsub.subset h))
  exact ⟨hrow, of_decide_eq_true hexpired⟩

theorem nodup_chosen {d : Database} (hd : d.store.Keyed) :
    ((chosen d).map AuditEvent.id).Nodup ∧ ((chosen d).map AuditEvent.eventKey).Nodup := by
  obtain ⟨l, hperm, hsub⟩ := subperm_chosen d
  have hkey : ∀ {f : AuditEvent → Str}, (d.store.events.map f).Nodup →
      ((chosen d).map f).Nodup := by
    intro f hf
    have hl : (l.map f).Nodup :=
      ((hperm.map f).nodup_iff).mpr (hf.sublist (List.filter_sublist.map f))
    exact hl.sublist (hsub.map f)
  exact ⟨hkey hd.id, hkey hd.eventKey⟩

/-- A row is chosen if it has expired and few of those that have come before it. -/
theorem mem_chosen_iff {d : Database} (hd : d.store.Keyed) : row ∈ chosen d ↔
    row ∈ expired d ∧ Paging.countBefore ExpiryLe (expired d) row < archiveEventLimit := by
  have hanswers : Paging.Answers ExpiryLe (expired d) ((expired d).insertionSort ExpiryLe) :=
    ⟨List.perm_insertionSort _ _, List.pairwise_insertionSort _ _⟩
  rw [chosen_eq]
  refine hanswers.mem_take (hd.id.of_map.filter _) fun a ha b hb hab hba => ?_
  have hsame := orderLe_antisymm hab hba
  exact hd.eq_of_id (List.mem_of_mem_filter ha) (List.mem_of_mem_filter hb)
    (congrArg Prod.snd hsame)

/-- What a row reads as has its columns. -/
theorem columns_of_read {L : Stdlib} {event : AuditEventReadFacts}
    (h : validateAuditEventForRead L row = .ok event) : event.id = row.id ∧
      event.eventKey = row.eventKey ∧ event.occurredAt = row.occurredAt ∧
        event.expiresAt = row.expiresAt := by
  have hdescribes := (validEvent_of_read h).1
  exact ⟨(Json.str.inj hdescribes.id).symm, (Json.str.inj hdescribes.eventKey).symm,
    (AuditEvent.eq_facts hdescribes).1, (AuditEvent.eq_facts hdescribes).2.1⟩

/-- Events in order, without duplicates and expired, pass the loop of the builder. -/
theorem checkEvents_eq_ok {cutoff : Instant} {previous : Option (Instant × Str)}
    {ids keys : List Str} {events : List AuditEventReadFacts}
    (hprevious : ∀ p ∈ previous, ∀ event ∈ events, ¬ orderLe (event.expiresAt, event.id) p = true)
    (horder : events.Pairwise fun a b => ¬ orderLe (b.expiresAt, b.id) (a.expiresAt, a.id) = true)
    (hids : (events.map AuditEventReadFacts.id).Nodup) (hid : ∀ event ∈ events, event.id ∉ ids)
    (hkeys : (events.map AuditEventReadFacts.eventKey).Nodup)
    (hkey : ∀ event ∈ events, event.eventKey ∉ keys)
    (hcutoff : ∀ event ∈ events, event.expiresAt < cutoff) :
    Archive.checkEvents cutoff previous ids keys events = .ok () := by
  induction events generalizing previous ids keys with
  | nil => rfl
  | cons event events ih =>
    rw [List.pairwise_cons] at horder
    rw [List.map_cons, List.nodup_cons] at hids hkeys
    rw [List.forall_mem_cons] at hid hkey hcutoff
    have hfirst : ¬ previous.any (orderLe (event.expiresAt, event.id)) = true := by
      cases previous with
      | none => exact Bool.false_ne_true
      | some p => exact hprevious p rfl event List.mem_cons_self
    rw [Archive.checkEvents, if_neg hfirst, if_neg (not_or.mpr ⟨hid.1, hkey.1⟩),
      if_neg (not_le.mpr hcutoff.1)]
    refine ih (fun p hp other hother => ?_) horder.2 hids.2 (fun other hother => ?_) hkeys.2
      (fun other hother => ?_) hcutoff.2
    · obtain rfl := Option.some.inj hp
      exact horder.1 other hother
    · rw [List.mem_cons, not_or]
      exact ⟨fun heq => hids.1 (heq ▸ List.mem_map_of_mem hother), hid.2 other hother⟩
    · rw [List.mem_cons, not_or]
      exact ⟨fun heq => hkeys.1 (heq ▸ List.mem_map_of_mem hother), hkey.2 other hother⟩

theorem compatible_of_currentHead {expectedHeads heads : List Str} {head : Str}
    (h : currentHead expectedHeads heads = .ok head) : Archive.Compatible head := by
  have hlist : ∀ head ∈ Archive.compatibleAlembicHeads,
      Archive.alembicRevision head = true := by decide
  rw [currentHead] at h
  split at h
  · cases h
  · split at h
    · split at h
      · next hmem =>
        cases h
        exact ⟨hlist _ hmem, hmem⟩
      · cases h
    · cases h

/-- What a snapshot selects passes the checks of the builder. -/
theorem Selected.eligible {input : ArchiveInput} (h : Selected M d input) (hd : d.store.Keyed) :
    Archive.Eligible M.library input.cutoffAt input.sourceAlembicHead input.events := by
  have hread := readEvents_eq_ok.mp h.events
  have hmap : ∀ {α : Type} {f : AuditEventReadFacts → α} {g : AuditEvent → α},
      (∀ row event, validateAuditEventForRead M.library row = .ok event → f event = g row) →
      input.events.map f = (chosen d).map g := by
    intro α f g hfg
    rw [← List.forall₂_eq_eq_eq, List.forall₂_map_left_iff, List.forall₂_map_right_iff]
    exact (hread.imp fun row event hrow => (hfg row event hrow)).flip
  have hids : input.events.map AuditEventReadFacts.id = (chosen d).map AuditEvent.id :=
    hmap fun row event hrow => (columns_of_read hrow).1
  have hkeys : input.events.map AuditEventReadFacts.eventKey = (chosen d).map AuditEvent.eventKey :=
    hmap fun row event hrow => (columns_of_read hrow).2.1
  have hplaces : input.events.map (fun event => (event.expiresAt, event.id)) =
      (chosen d).map fun row => (row.expiresAt, row.id) :=
    hmap fun row event hrow => Prod.ext (columns_of_read hrow).2.2.2 (columns_of_read hrow).1
  refine ⟨fun event hevent => ?_, compatible_of_currentHead h.head, ?_, ?_⟩
  · obtain ⟨row, -, hrow⟩ := exists_of_forall₂ hread hevent
    exact (validEvent_of_read hrow).2
  · rw [← hread.length_eq]
    exact List.length_take_le _ _
  · refine checkEvents_eq_ok (fun p hp => by cases hp) ?_ (hids ▸ (nodup_chosen hd).1)
      (fun _ _ => List.not_mem_nil) (hkeys ▸ (nodup_chosen hd).2) (fun _ _ => List.not_mem_nil) ?_
    · have hstrict : ((chosen d).map fun row => (row.expiresAt, row.id)).Pairwise
          fun a b => ¬ orderLe b a = true := by
        rw [List.pairwise_map]
        have hne := List.pairwise_map.mp (nodup_chosen hd).1
        refine (pairwise_chosen d).imp₂ (fun a b hle hid hge => ?_) hne
        exact hid (congrArg Prod.snd (orderLe_antisymm hle hge))
      rw [← hplaces, List.pairwise_map] at hstrict
      exact hstrict
    · intro event hevent
      obtain ⟨row, hmem, hrow⟩ := exists_of_forall₂ hread hevent
      rw [h.cutoffAt, (columns_of_read hrow).2.2.2]
      exact (mem_chosen hmem).2

theorem Selected.ids {input : ArchiveInput} (h : Selected M d input) :
    input.events.map AuditEventReadFacts.id = (chosen d).map AuditEvent.id := by
  rw [← List.forall₂_eq_eq_eq, List.forall₂_map_left_iff, List.forall₂_map_right_iff]
  exact ((readEvents_eq_ok.mp h.events).imp fun row event hrow => (columns_of_read hrow).1).flip

theorem Selected.mem {input : ArchiveInput} (h : Selected M d input) {event : AuditEventReadFacts}
    (hevent : event ∈ input.events) :
    ∃ row ∈ chosen d, validateAuditEventForRead M.library row = .ok event :=
  exists_of_forall₂ (readEvents_eq_ok.mp h.events) hevent

theorem Selected.valid {input : ArchiveInput} (h : Selected M d input) :
    ∀ event ∈ input.events, ValidEvent M.library event := by
  intro event hevent
  obtain ⟨row, -, hread⟩ := h.mem hevent
  exact (validEvent_of_read hread).2

theorem eq_of_describes {L : Stdlib} {events events' : List AuditEventReadFacts}
    (hvalid : ∀ event ∈ events, ValidEvent L event)
    (h : List.Forall₂ (fun event event' => (Archive.rawEvent event).Describes L event')
      events events') : events' = events := by
  induction h with
  | nil => rfl
  | cons hdescribes _ ih =>
    rw [List.forall_mem_cons] at hvalid
    have hself := Archive.describes_rawEvent (L := L) hvalid.1.durationMs
    rw [hdescribes.unique hself, ih hvalid.2]

/-- The archive that has been written is read back as what was selected. -/
theorem verifyArchive_writeArchive {input : ArchiveInput} {written : WrittenAuditArchive}
    (h : Selected M d input) (hwrite : writeArchive M.library input = .ok written)
    (hnow : FourDigitYear d.now)
    (hyears : ∀ row ∈ d.store.events, FourDigitYear row.occurredAt ∧ FourDigitYear row.expiresAt) :
    verifyArchive M.library written.file (.str written.archiveSha256) =
      .ok ⟨input.cutoffAt, input.sourceAlembicHead, input.events, input.hasMoreEligible,
        written.contentSha256, written.archiveSha256⟩ := by
  rw [writeArchive] at hwrite
  split at hwrite
  · next data contentSha256 hbuild =>
    obtain rfl := Except.ok.inj hwrite
    set file : ArchiveFile := ⟨true, true, 0o600, data⟩
    have hregular : file.regular = true := rfl
    have howned : file.owned = true := rfl
    have hmode : file.mode &&& 0o7177 = 0 := show 0o600 &&& 0o7177 = 0 by decide
    have hcontent : file.content = data := rfl
    obtain ⟨cutoff, head, more, events, hcutoff, hhead, hmore, hevents, hverify⟩ :=
      Archive.verifyArchive_buildArchiveBytes hbuild
        (fun t ht => by
          obtain rfl := Option.some.inj (ht.symm.trans (Instant.toUtc_toDateTime _))
          rw [h.cutoffAt]
          exact hnow)
        (fun raw hraw => by
          obtain ⟨event, hevent, rfl⟩ := List.mem_map.mp hraw
          obtain ⟨row, hrow, hread⟩ := h.mem hevent
          obtain ⟨-, -, hoccurred, hexpires⟩ := columns_of_read hread
          have hyear := hyears row (mem_chosen hrow).1
          refine ⟨fun t ht => ?_, fun t ht => ?_⟩
          · obtain rfl := Option.some.inj (ht.symm.trans (Instant.toUtc_toDateTime _))
            rw [hoccurred]
            exact hyear.1
          · obtain rfl := Option.some.inj (ht.symm.trans (Instant.toUtc_toDateTime _))
            rw [hexpires]
            exact hyear.2)
        hregular howned hmode hcontent (.inr rfl)
    obtain rfl := Option.some.inj (hcutoff.symm.trans (Instant.toUtc_toDateTime _))
    obtain rfl := Json.str.inj hhead
    obtain rfl := Json.bool.inj hmore
    obtain ⟨hdescribes, -⟩ := Archive.validatedFacts_mapM_eq_ok.mp hevents
    rw [List.forall₂_map_left_iff] at hdescribes
    rw [hverify, eq_of_describes h.valid hdescribes]
  · cases hwrite

/-- `verify_archive` of what has been written. -/
def verifyWritten (L : Stdlib) (written : WrittenAuditArchive) :
    Except Raised VerifiedAuditArchive :=
  match verifyArchive L written.file (.str written.archiveSha256) with
  | .ok archive => .ok archive
  | .error _ => .error .driver

/-- A row stays unless it has expired and few of those that have come before it. -/
def Stays (d : Database) (row : AuditEvent) : Prop :=
  row.expiresAt < d.now → archiveEventLimit ≤ Paging.countBefore ExpiryLe (expired d) row

instance (d : Database) : DecidablePred (Stays d) := fun _ => inferInstanceAs (Decidable (_ → _))

theorem isNone_iff_stays {input : ArchiveInput} (h : Selected M d input) (hd : d.store.Keyed)
    (hrow : row ∈ d.store.events) : isNone input.events row = true ↔ Stays d row := by
  have hchosen : row ∈ chosen d ↔ ∃ event ∈ input.events, event.id = row.id := by
    rw [← List.mem_map, h.ids]
    constructor
    · exact List.mem_map_of_mem
    · intro hid
      obtain ⟨row', hrow', heq⟩ := List.mem_map.mp hid
      rwa [hd.eq_of_id hrow (mem_chosen hrow').1 heq.symm]
  rw [isNone_eq_true, Stays, ← not_lt]
  have hexpired : row ∈ expired d ↔ row.expiresAt < d.now := by
    rw [expired, List.mem_filter, decide_eq_true_iff, and_iff_right hrow]
  rw [mem_chosen_iff hd, hexpired] at hchosen
  rw [← not_and, hchosen]
  push Not
  rfl

/-- On a database of its own: an archive that has been written and verified takes exactly the
first expired events with it. Otherwise one of them cannot be read, or the archive would be too
large, and nothing happens. -/
theorem archive_delete (hcalm : M.Calm) (hready : Ready M w.committed)
    (hnow : FourDigitYear w.committed.now)
    (hyears : ∀ row ∈ w.committed.store.events,
      FourDigitYear row.occurredAt ∧ FourDigitYear row.expiresAt) :
    (do
      let written ← archiveExpiredEvents M
      let archive ← Session.lift (verifyWritten M.library written)
      deleteArchiveEvents M archive : Retention M MutationReport).Ends w fun w' r =>
      match r with
      | .ok report => w'.committed = w.committed.keep (Stays w.committed) ∧
          report.changedCount = min archiveEventLimit (expired w.committed).length
      | .error _ => w'.committed = w.committed ∧
          ((∃ row ∈ chosen w.committed,
              ∀ facts, validateAuditEventForRead M.library row ≠ .ok facts) ∨
            ∃ input, Selected M w.committed input ∧
              ∃ e, writeArchive M.library input = .error e) := by
  refine Session.ends_bind ((archive_outcome w).mono fun w₁ r hr => ?_)
  cases r with
  | error e =>
    obtain ⟨hlater, hwhy⟩ := hr
    refine ⟨hcalm.eq_of_later hlater, ?_⟩
    rcases hwhy with h | h | ⟨d₁, hbefore, -, h⟩
    · exact absurd h hcalm.fault
    · exact absurd h hready.dialect
    · obtain rfl := hcalm.eq_of_later hbefore
      exact h.resolve_left fun hschema => hready.head.elim hschema
  | ok written =>
  obtain ⟨d₁, hbefore, hnow₁, input, hselected, hwrite⟩ := hr
  obtain rfl := hcalm.eq_of_later hbefore
  have hw₁ : w₁.committed = w.committed := hcalm.eq_of_later hnow₁
  have hverified := verifyArchive_writeArchive hselected hwrite hnow hyears
  refine Session.ends_bind (Session.ends_lift ?_)
  rw [verifyWritten, hverified]
  have hpresent : ∀ event ∈ input.events, Present M.library w₁.committed event := by
    intro event hevent
    obtain ⟨row, hrow, hread⟩ := hselected.mem hevent
    obtain ⟨hid, hkey, -⟩ := columns_of_read hread
    rw [hw₁]
    exact ⟨row, (mem_chosen hrow).1, hid.symm, hkey.symm, hread⟩
  have hexpired : ∀ event ∈ input.events, event.expiresAt < w₁.committed.now := by
    intro event hevent
    obtain ⟨row, hrow, hread⟩ := hselected.mem hevent
    rw [hw₁, (columns_of_read hread).2.2.2]
    exact (mem_chosen hrow).2
  have hcutoff : input.cutoffAt ≤ w₁.committed.now := by rw [hselected.cutoffAt, hw₁]
  refine (delete_calm hverified hcalm (hw₁.symm ▸ hready) hcutoff hexpired hpresent).mono
    fun w₂ r => ?_
  rintro ⟨hdeleted, rfl⟩
  rw [hw₁] at hdeleted
  refine ⟨hdeleted.trans ?_, ?_⟩
  · refine congrArg (fun events => { w.committed with store :=
      { w.committed.store with events } }) (List.filter_congr fun row hrow => ?_)
    rw [Bool.eq_iff_iff, decide_eq_true_iff]
    exact isNone_iff_stays hselected hready.keyed hrow
  · have hlength : input.events.length = (chosen w.committed).length := by
      rw [← List.length_map (f := AuditEventReadFacts.id), hselected.ids, List.length_map]
    rw [hlength, chosen_eq, List.length_take, List.length_insertionSort]

end Archiving

/-! ## One event -/

namespace Sample

/-- Nobody else is there, and nothing fails. -/
def alone : Maintenance where
  library := Archive.Sample.library
  dialect := .sqlite
  expectedHeads := [Archive.Sample.sourceHead]
  service := ⟨false, fun _ _ _ _ => False, fun _ => False⟩
  free := rfl
  commits := fun _ _ _ _ h => h.elim
  fault := fun _ h => h.elim

theorem calm_alone : alone.Calm where
  step := fun _ _ _ _ h => h
  fault := fun h => h.elim fun _ he => he

theorem verify_alone : verifyArchive alone.library
    (Archive.Sample.file Archive.Sample.texts) .null = .ok archive := verify_texts

def idle : Fate alone.service where
  others := fun _ _ d => d
  allowed := fun _ _ _ => .refl
  raises := none
  fault := fun _ h => by cases h
  landed := true

def still : World alone.service Bool where
  committed := ⟨⟨[Archive.Sample.claimed.row], []⟩, [Archive.Sample.sourceHead],
    Archive.Sample.cutoff⟩
  own := id
  held := false
  isolation := .readCommitted
  vars := false
  fates := fun _ => idle

theorem ready_still : Ready alone still.committed where
  keyed := ⟨List.nodup_singleton Archive.Sample.claimed.row.id,
    List.nodup_singleton Archive.Sample.claimed.row.eventKey⟩
  dialect := fun h => by cases h
  head := ⟨Archive.Sample.sourceHead, rfl⟩
  reservation := by
    intro row hrow r hr
    obtain rfl := List.mem_singleton.mp hrow
    cases hr

end Sample

theorem restore_delete_still :
    (do
      let deleted ← deleteArchiveEvents Sample.alone Sample.archive
      let restored ← restoreArchive Sample.alone Sample.archive
      return (deleted.changedCount, restored.changedCount) :
        Retention Sample.alone (ℕ × ℕ)).Ends Sample.still
      fun w' r => r = .ok (Sample.archive.events.length, Sample.archive.events.length) ∧
        (w'.committed.contents Sample.alone.library).Perm
          (Sample.still.committed.contents Sample.alone.library) := by
  refine restore_delete (M := Sample.alone) Sample.verify_alone Sample.calm_alone Sample.ready_still le_rfl ?_ ?_
  · intro event hevent
    obtain rfl := List.mem_singleton.mp hevent
    decide
  · intro event hevent
    obtain rfl := List.mem_singleton.mp hevent
    exact ⟨_, List.mem_singleton_self _, rfl, rfl,
      validateAuditEventForRead_row Archive.Sample.valid_claimed⟩

theorem archive_delete_still :
    (do
      let written ← archiveExpiredEvents Sample.alone
      let archive ← Session.lift (verifyWritten Sample.alone.library written)
      deleteArchiveEvents Sample.alone archive : Retention Sample.alone MutationReport).Ends
      Sample.still fun w' r =>
      match r with
      | .ok report => w'.committed = Sample.still.committed.keep (Stays Sample.still.committed) ∧
          report.changedCount = min archiveEventLimit (expired Sample.still.committed).length
      | .error _ => w'.committed = Sample.still.committed ∧
          ((∃ row ∈ chosen Sample.still.committed,
              ∀ facts, validateAuditEventForRead Sample.alone.library row ≠ .ok facts) ∨
            ∃ input, Selected Sample.alone Sample.still.committed input ∧
              ∃ e, writeArchive Sample.alone.library input = .error e) := by
  refine archive_delete (M := Sample.alone) Sample.calm_alone Sample.ready_still (by decide) ?_
  intro row hrow
  obtain rfl := List.mem_singleton.mp hrow
  decide

end Audit

end LLMBenchLab
