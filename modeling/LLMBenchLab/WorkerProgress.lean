import Mathlib.Logic.Function.Basic
import LLMBenchLab.Store
import LLMBenchLab.Traces

/-!
# The progress recorder of a Worker

`WorkerProgressRecorder` (`worker_progress.py`) collects what a Worker does as bits in
memory and writes them, several at once, to its row of `worker_processes`. Threads note
events at any time; a periodic task and explicit calls flush; `stop` writes what is left
together with `stopped_at`.

A task is where its coroutine stands (`Task`) and a `Step` is what one task or the world
does between two points of suspension. The state lock makes every read and write of the
flags one step, and the flush lock has at most one holder. Steps are finer than the event
loop's, so every order that the loop and the threads can produce is a trace.
-/

namespace LLMBenchLab

open Relational

/-! ## Pending events -/

inductive WorkerProgressEvent : Type where
  | scan | claim | progress | leaseHeartbeat
  deriving DecidableEq, Repr

/-- `_PendingEvent`, the flags of four events. -/
abbrev PendingEvent : Type := BitVec 4

namespace PendingEvent

def NONE : PendingEvent := 0#4

/-- `_EVENT_BITS` -/
def ofEvent : WorkerProgressEvent → PendingEvent
  | .scan => 1
  | .claim => 2
  | .progress => 4
  | .leaseHeartbeat => 8

/-- The bit of the event is set. -/
def Has (p : PendingEvent) (e : WorkerProgressEvent) : Prop := p &&& ofEvent e ≠ 0#4

instance (p : PendingEvent) (e : WorkerProgressEvent) : Decidable (p.Has e) :=
  inferInstanceAs (Decidable (_ ≠ _))

@[simp] theorem not_has_none (e : WorkerProgressEvent) : ¬ NONE.Has e := by
  simp [Has, NONE]

@[simp] theorem has_ofEvent (e : WorkerProgressEvent) : (ofEvent e).Has e := by
  cases e <;> decide

@[simp] theorem has_or {p q : PendingEvent} {e : WorkerProgressEvent} :
    (p ||| q : PendingEvent).Has e ↔ p.Has e ∨ q.Has e := by
  simp only [Has, ne_eq, BitVec.and_or_distrib_right, BitVec.or_eq_zero_iff]
  tauto

end PendingEvent

/-! ## The row -/

structure WorkerProcess where
  generationId : String
  workerId : String
  startedAt : Time
  lastSeenAt : Time
  lastScanAt : Option Time
  lastClaimAt : Option Time
  lastProgressAt : Option Time
  lastLeaseHeartbeatAt : Option Time
  stoppedAt : Option Time
  deriving DecidableEq, Repr

instance : Keyed WorkerProcess String := ⟨WorkerProcess.generationId⟩

/-- The column that records an event. -/
def WorkerProcess.lastAt (w : WorkerProcess) : WorkerProgressEvent → Option Time
  | .scan => w.lastScanAt
  | .claim => w.lastClaimAt
  | .progress => w.lastProgressAt
  | .leaseHeartbeat => w.lastLeaseHeartbeatAt

/-- `_event_values`, applied to the row. -/
def eventValues (pending : PendingEvent) (now : Time) (w : WorkerProcess) : WorkerProcess :=
  { w with
    lastScanAt := if pending.Has .scan then some now else w.lastScanAt
    lastClaimAt := if pending.Has .claim then some now else w.lastClaimAt
    lastProgressAt := if pending.Has .progress then some now else w.lastProgressAt
    lastLeaseHeartbeatAt :=
      if pending.Has .leaseHeartbeat then some now else w.lastLeaseHeartbeatAt }

theorem lastAt_eventValues {pending : PendingEvent} {now : Time} {w : WorkerProcess}
    {e : WorkerProgressEvent} (h : pending.Has e) :
    (eventValues pending now w).lastAt e = some now := by
  cases e <;> exact if_pos h

inductive WorkerProgressStateError : Type where
  | generationNotActive
  deriving DecidableEq, Repr

/-- The generation that a recorder writes for. -/
structure Generation where
  generationId : String
  workerId : String

namespace Generation

variable (g : Generation)

/-- The WHERE of `_flush` and `_stop`. -/
def active (rows : Table WorkerProcess) : Option WorkerProcess :=
  (rows.get? g.generationId).filter fun w => w.workerId = g.workerId ∧ w.stoppedAt = none

/-- `_register`; both identifiers are unique. -/
def register (now : Time) (rows : Table WorkerProcess) : Option (Table WorkerProcess) :=
  if (rows.get? g.generationId).isSome ∨ ∃ w ∈ rows.rows, w.workerId = g.workerId then none
  else some (rows.insert ⟨g.generationId, g.workerId, now, now, none, none, none, none, none⟩)

/-- `_flush` -/
def flush (pending : PendingEvent) (now : Time) (rows : Table WorkerProcess) :
    Except WorkerProgressStateError (Table WorkerProcess) :=
  match g.active rows with
  | none => .error .generationNotActive
  | some w => .ok (rows.put (eventValues pending now { w with lastSeenAt := now }))

/-- `_stop` -/
def stop (pending : PendingEvent) (now : Time) (rows : Table WorkerProcess) :
    Except WorkerProgressStateError (Table WorkerProcess) :=
  match g.active rows with
  | none => .error .generationNotActive
  | some w =>
    let stopped := { w with stoppedAt := some now }
    .ok (rows.put
      (if pending = .NONE then stopped
      else eventValues pending now { stopped with lastSeenAt := now }))

/-- The events are in the row, at this time. -/
def Recorded (pending : PendingEvent) (now : Time) (rows : Table WorkerProcess) : Prop :=
  ∃ w, rows.get? g.generationId = some w ∧ ∀ e, pending.Has e → w.lastAt e = some now

theorem get?_of_active {rows : Table WorkerProcess} {w : WorkerProcess}
    (h : g.active rows = some w) : rows.get? w.generationId = some w := by
  have hw := (Option.filter_eq_some_iff.mp h).1
  rwa [show w.generationId = g.generationId from Table.key_of_get? hw]

theorem generationId_of_active {rows : Table WorkerProcess} {w : WorkerProcess}
    (h : g.active rows = some w) : w.generationId = g.generationId :=
  Table.key_of_get? (Option.filter_eq_some_iff.mp h).1

/-- The row, rewritten under its key. -/
theorem recorded_put {rows : Table WorkerProcess} {w w' : WorkerProcess} {pending : PendingEvent}
    {now : Time} (h : g.active rows = some w) (hkey : w'.generationId = w.generationId)
    (he : ∀ e, pending.Has e → w'.lastAt e = some now) :
    g.Recorded pending now (rows.put w') := by
  refine ⟨w', ?_, he⟩
  have hput : (rows.put w').get? w'.generationId = some w' := by
    have hget : rows.get? w'.generationId = some w := by
      rw [hkey]
      exact g.get?_of_active h
    exact Table.get?_put_self hget
  rwa [hkey, g.generationId_of_active h] at hput

/-- A flush that succeeds has recorded its events. -/
theorem recorded_flush {pending : PendingEvent} {now : Time} {rows rows' : Table WorkerProcess}
    (h : g.flush pending now rows = .ok rows') : g.Recorded pending now rows' := by
  unfold flush at h
  split at h
  · cases h
  · next w hw =>
    obtain rfl := Except.ok.inj h
    refine g.recorded_put hw rfl ?_
    intro e he
    exact lastAt_eventValues he

/-- A stop that succeeds has recorded its events. -/
theorem recorded_stop {pending : PendingEvent} {now : Time} {rows rows' : Table WorkerProcess}
    (h : g.stop pending now rows = .ok rows') : g.Recorded pending now rows' := by
  unfold stop at h
  split at h
  · cases h
  · next w hw =>
    obtain rfl := Except.ok.inj h
    by_cases hp : pending = .NONE
    · rw [if_pos hp]
      refine g.recorded_put hw rfl ?_
      intro e he
      exact absurd (hp ▸ he) (PendingEvent.not_has_none e)
    · rw [if_neg hp]
      refine g.recorded_put hw rfl ?_
      intro e he
      exact lastAt_eventValues he

end Generation

/-! ## Tasks -/

/-- Where `flush_now` and `_flush_once` stand. -/
inductive FlushPoint : Type where
  /-- before the test of `_flush_lock` -/
  | entering
  /-- waits for the flush lock -/
  | acquiring
  /-- holds the flush lock -/
  | taking
  /-- in the thread that writes -/
  | writing (pending : PendingEvent)
  /-- the write has raised -/
  | restoring (pending : PendingEvent)
  /-- before the flush lock is let go -/
  | releasing (result : Bool)
  | returning (result : Bool)
  deriving DecidableEq, Repr

/-- Where `stop` stands. -/
inductive StopPoint : Type where
  | entering
  /-- before `flush_stop.set()` -/
  | signalling
  /-- waits for the periodic task -/
  | joining
  | acquiring
  | taking
  | writing (pending : PendingEvent)
  | restoring (pending : PendingEvent)
  /-- the write has succeeded -/
  | sealing
  | releasing (result : Bool)
  | returning (result : Bool)
  deriving DecidableEq, Repr

/-- Who has called `flush_now`. -/
inductive Caller : Type where
  | explicit | flushLoop
  deriving DecidableEq, Repr

inductive RecorderTask : Type where
  | flush (caller : Caller) (point : FlushPoint)
  | stop (point : StopPoint)
  /-- `_flush_loop`, at the head of its loop -/
  | loopHead
  /-- `_flush_loop`, waiting for the stop event or the timeout -/
  | loopWaiting
  deriving DecidableEq, Repr

/-- `_flush_lock` -/
inductive FlushLock (ι : Type) : Type where
  /-- `None` -/
  | absent
  | free
  | held (i : ι)
  deriving DecidableEq, Repr

/-- `_flush_task` -/
inductive FlushTask : Type where
  /-- `None` -/
  | absent
  | running
  | done
  deriving DecidableEq, Repr

/-- What the tasks of a recorder share, with the table that it writes to. -/
structure Recorder (ι : Type) where
  pending : PendingEvent
  registered : Bool
  stopping : Bool
  stopped : Bool
  flushStop : Bool
  flushLock : FlushLock ι
  flushTask : FlushTask
  rows : Table WorkerProcess

/-- What a step shows. -/
inductive RecorderAction (ι : Type) : Type where
  | note (event : WorkerProgressEvent)
  /-- the write of a task has succeeded -/
  | wrote (i : ι) (pending : PendingEvent) (now : Time)
  | flushReturned (i : ι) (result : Bool)
  | stopReturned (i : ι) (result : Bool)
  | internal
  deriving DecidableEq, Repr

namespace Recorder

variable {ι : Type}

/-- `__init__` -/
def init (rows : Table WorkerProcess) : Recorder ι :=
  ⟨.NONE, false, false, false, false, .absent, .absent, rows⟩

/-- `note` -/
def note (r : Recorder ι) (e : WorkerProgressEvent) : Recorder ι :=
  if r.registered && !r.stopping && !r.stopped then
    { r with pending := r.pending ||| .ofEvent e }
  else r

/-- `_flush_once` has something to write. -/
def flushable (r : Recorder ι) : Bool :=
  r.registered && !r.stopping && !r.stopped && r.pending != .NONE

/-- `stop` has something to stop. -/
def stoppable (r : Recorder ι) : Bool := r.registered && !r.stopped

end Recorder

/-- One step of the task `i`, which moves from one point to the next. `none` is a task
before its call and after its return. -/
inductive Move {ι : Type} (g : Generation) (i : ι) :
    Recorder ι → Option RecorderTask → RecorderAction ι → Recorder ι → Option RecorderTask →
    Prop where
  /-- `start`, from the registration on -/
  | start {r : Recorder ι} {now : Time} {rows : Table WorkerProcess} :
      r.registered = false → r.flushTask = .absent → g.register now r.rows = some rows →
      Move g i r none .internal
        { r with
          registered := true, flushStop := false, flushLock := .free, flushTask := .running,
          rows := rows }
        (some .loopHead)
  -- `flush_now` and `_flush_once`
  | callFlush {r : Recorder ι} :
      Move g i r none .internal r (some (.flush .explicit .entering))
  | flushWithoutLock {r : Recorder ι} {c : Caller} :
      r.flushLock = .absent →
      Move g i r (some (.flush c .entering)) .internal r (some (.flush c (.returning false)))
  | flushEnters {r : Recorder ι} {c : Caller} :
      r.flushLock ≠ .absent →
      Move g i r (some (.flush c .entering)) .internal r (some (.flush c .acquiring))
  | flushAcquires {r : Recorder ι} {c : Caller} :
      r.flushLock = .free →
      Move g i r (some (.flush c .acquiring)) .internal
        { r with flushLock := .held i } (some (.flush c .taking))
  | flushRefused {r : Recorder ι} {c : Caller} :
      r.flushable = false →
      Move g i r (some (.flush c .taking)) .internal r (some (.flush c (.releasing false)))
  | flushTakes {r : Recorder ι} {c : Caller} :
      r.flushable = true →
      Move g i r (some (.flush c .taking)) .internal
        { r with pending := .NONE } (some (.flush c (.writing r.pending)))
  | flushWrites {r : Recorder ι} {c : Caller} {p : PendingEvent} {now : Time}
      {rows : Table WorkerProcess} :
      g.flush p now r.rows = .ok rows →
      Move g i r (some (.flush c (.writing p))) (.wrote i p now)
        { r with rows := rows } (some (.flush c (.releasing true)))
  -- any exception, whatever the row
  | flushRaises {r : Recorder ι} {c : Caller} {p : PendingEvent} :
      Move g i r (some (.flush c (.writing p))) .internal r (some (.flush c (.restoring p)))
  | flushRestores {r : Recorder ι} {c : Caller} {p : PendingEvent} :
      Move g i r (some (.flush c (.restoring p))) .internal
        { r with pending := r.pending ||| p } (some (.flush c (.releasing false)))
  | flushReleases {r : Recorder ι} {c : Caller} {b : Bool} :
      Move g i r (some (.flush c (.releasing b))) .internal
        { r with flushLock := .free } (some (.flush c (.returning b)))
  | flushReturns {r : Recorder ι} {b : Bool} :
      Move g i r (some (.flush .explicit (.returning b))) (.flushReturned i b) r none
  -- `_flush_loop`
  | loopEnds {r : Recorder ι} :
      r.flushStop = true →
      Move g i r (some .loopHead) .internal { r with flushTask := .done } none
  | loopWaits {r : Recorder ι} :
      r.flushStop = false → Move g i r (some .loopHead) .internal r (some .loopWaiting)
  | loopWakes {r : Recorder ι} :
      r.flushStop = true → Move g i r (some .loopWaiting) .internal r (some .loopHead)
  | loopTimesOut {r : Recorder ι} :
      Move g i r (some .loopWaiting) .internal r (some (.flush .flushLoop .entering))
  | loopContinues {r : Recorder ι} {b : Bool} :
      Move g i r (some (.flush .flushLoop (.returning b))) .internal r (some .loopHead)
  -- `stop`
  | callStop {r : Recorder ι} : Move g i r none .internal r (some (.stop .entering))
  | stopRefused {r : Recorder ι} :
      r.stoppable = false →
      Move g i r (some (.stop .entering)) .internal r (some (.stop (.returning false)))
  | stopEnters {r : Recorder ι} :
      r.stoppable = true →
      Move g i r (some (.stop .entering)) .internal
        { r with stopping := true } (some (.stop .signalling))
  | stopSignals {r : Recorder ι} :
      Move g i r (some (.stop .signalling)) .internal
        { r with flushStop := true } (some (.stop .joining))
  | stopWithoutLock {r : Recorder ι} :
      r.flushTask ≠ .running → r.flushLock = .absent →
      Move g i r (some (.stop .joining)) .internal r (some (.stop (.returning false)))
  | stopJoins {r : Recorder ι} :
      r.flushTask ≠ .running → r.flushLock ≠ .absent →
      Move g i r (some (.stop .joining)) .internal r (some (.stop .acquiring))
  | stopAcquires {r : Recorder ι} :
      r.flushLock = .free →
      Move g i r (some (.stop .acquiring)) .internal
        { r with flushLock := .held i } (some (.stop .taking))
  | stopTooLate {r : Recorder ι} :
      r.stoppable = false →
      Move g i r (some (.stop .taking)) .internal r (some (.stop (.releasing false)))
  | stopTakes {r : Recorder ι} :
      r.stoppable = true →
      Move g i r (some (.stop .taking)) .internal
        { r with pending := .NONE } (some (.stop (.writing r.pending)))
  | stopWrites {r : Recorder ι} {p : PendingEvent} {now : Time} {rows : Table WorkerProcess} :
      g.stop p now r.rows = .ok rows →
      Move g i r (some (.stop (.writing p))) (.wrote i p now)
        { r with rows := rows } (some (.stop .sealing))
  -- any exception, whatever the row
  | stopRaises {r : Recorder ι} {p : PendingEvent} :
      Move g i r (some (.stop (.writing p))) .internal r (some (.stop (.restoring p)))
  | stopRestores {r : Recorder ι} {p : PendingEvent} :
      Move g i r (some (.stop (.restoring p))) .internal
        { r with pending := r.pending ||| p } (some (.stop (.releasing false)))
  | stopSeals {r : Recorder ι} :
      Move g i r (some (.stop .sealing)) .internal
        { r with stopped := true } (some (.stop (.releasing true)))
  | stopReleases {r : Recorder ι} {b : Bool} :
      Move g i r (some (.stop (.releasing b))) .internal
        { r with flushLock := .free } (some (.stop (.returning b)))
  | stopReturns {r : Recorder ι} {b : Bool} :
      Move g i r (some (.stop (.returning b))) (.stopReturned i b) r none

/-- A recorder and the points where its tasks stand. -/
structure Recording (ι : Type) where
  recorder : Recorder ι
  tasks : ι → Option RecorderTask

/-- One step: a thread notes an event, the table changes, or a task moves. -/
inductive Recording.Step {ι : Type} [DecidableEq ι] (g : Generation) :
    Recording ι → RecorderAction ι → Recording ι → Prop where
  | note {r : Recorder ι} {tasks : ι → Option RecorderTask} (e : WorkerProgressEvent) :
      Step g ⟨r, tasks⟩ (.note e) ⟨r.note e, tasks⟩
  -- also the commit of a write whose connection fails before the answer
  | elsewhere {r : Recorder ι} {tasks : ι → Option RecorderTask} (rows : Table WorkerProcess) :
      Step g ⟨r, tasks⟩ .internal ⟨{ r with rows := rows }, tasks⟩
  | move {r r' : Recorder ι} {tasks : ι → Option RecorderTask} {i : ι} {a : RecorderAction ι}
      {y : Option RecorderTask} :
      Move g i r (tasks i) a r' y →
      Step g ⟨r, tasks⟩ a ⟨r', Function.update tasks i y⟩

/-- A recorder that is not started. -/
def Recording.init {ι : Type} (rows : Table WorkerProcess) : Recording ι :=
  ⟨.init rows, fun _ => none⟩

variable {ι : Type} {g : Generation} {i j : ι} {r r' : Recorder ι} {a : RecorderAction ι}
  {x y z : Option RecorderTask} {e : WorkerProgressEvent}

/-! ## No event is lost -/

/-- What a task has taken out of the pending events and not written. -/
def carries : Option RecorderTask → PendingEvent
  | some (.flush _ (.writing p)) => p
  | some (.flush _ (.restoring p)) => p
  | some (.stop (.writing p)) => p
  | some (.stop (.restoring p)) => p
  | _ => .NONE

/-- A task hands an event back and forth between the pending events and what it carries,
until it has written it. -/
theorem Move.keeps (h : Move g i r x a r' y) (he : r.pending.Has e ∨ (carries x).Has e) :
    (r'.pending.Has e ∨ (carries y).Has e) ∨ ∃ p now, a = .wrote i p now ∧ p.Has e := by
  cases h with
  | flushTakes | stopTakes =>
    refine Or.inl (he.elim Or.inr ?_)
    simp [carries]
  | flushRestores | stopRestores => exact Or.inl (Or.inl (PendingEvent.has_or.mpr he))
  | flushWrites | stopWrites =>
    rcases he with hp | hc
    · exact Or.inl (Or.inl hp)
    · exact Or.inr ⟨_, _, rfl, hc⟩
  | _ => exact Or.inl he

theorem Recorder.has_note {e' : WorkerProgressEvent} (h : r.pending.Has e) :
    (r.note e').pending.Has e := by
  unfold Recorder.note
  split
  · exact PendingEvent.has_or.mpr (Or.inl h)
  · exact h

namespace Recording

variable {s t u : Recording ι} {as bs : List (RecorderAction ι)}

/-- A flush or a stop in progress carries the event. -/
def Carried (s : Recording ι) (e : WorkerProgressEvent) : Prop :=
  ∃ i, (carries (s.tasks i)).Has e

/-- The event is pending or carried. -/
def Kept (s : Recording ι) (e : WorkerProgressEvent) : Prop :=
  s.recorder.pending.Has e ∨ s.Carried e

theorem kept_of_task (i : ι) (h : s.recorder.pending.Has e ∨ (carries (s.tasks i)).Has e) :
    s.Kept e := by
  refine h.imp_right ?_
  intro hc
  exact ⟨i, hc⟩

variable [DecidableEq ι]

/-- A step keeps an event, or it is a write that has it. -/
theorem Step.kept (h : Step g s a t) (he : s.Kept e) :
    t.Kept e ∨ ∃ i p now, a = .wrote i p now ∧ p.Has e := by
  cases h with
  | note e' => exact Or.inl (he.imp_left Recorder.has_note)
  | elsewhere rows => exact Or.inl he
  | @move r r' tasks i a y hmove =>
    by_cases hown : r.pending.Has e ∨ (carries (tasks i)).Has e
    · rcases hmove.keeps hown with hkept | ⟨p, now, hwrote⟩
      · refine Or.inl (kept_of_task i ?_)
        simpa using hkept
      · exact Or.inr ⟨i, p, now, hwrote⟩
    · -- the event is with another task, which does not move
      obtain ⟨hpending, hi⟩ := not_or.mp hown
      obtain ⟨j, hj⟩ := he.resolve_left hpending
      have hji : j ≠ i := by
        rintro rfl
        exact hi hj
      refine Or.inl (kept_of_task j (Or.inr ?_))
      simpa [Function.update_of_ne hji] using hj

/-- A write that is shown as successful has recorded its events in the row. -/
theorem Step.recorded {p : PendingEvent} {now : Time} (h : Step g s (.wrote i p now) t) :
    g.Recorded p now t.recorder.rows := by
  cases h with
  | @move _ _ tasks i _ _ hmove =>
    generalize tasks i = x at hmove
    cases hmove with
    | flushWrites hrows => exact g.recorded_flush hrows
    | stopWrites hrows => exact g.recorded_stop hrows

end Recording

/-! ## After a stop -/

/-- What holds of the shared state while task `i` stands at a point. -/
def Recorder.At (r : Recorder ι) (i : ι) : Option RecorderTask → Prop
  | some (.flush _ .taking) => r.flushLock = .held i
  | some (.flush _ (.writing _)) => r.flushLock = .held i ∧ r.stopped = false
  | some (.flush _ (.restoring _)) => r.flushLock = .held i ∧ r.stopped = false
  | some (.flush _ (.releasing _)) => r.flushLock = .held i
  | some (.stop .signalling) => r.stopping = true
  | some (.stop .joining) => r.stopping = true
  | some (.stop .acquiring) => r.stopping = true
  | some (.stop .taking) => r.flushLock = .held i ∧ r.stopping = true
  | some (.stop (.writing _)) =>
    r.flushLock = .held i ∧ r.stopping = true ∧ r.stopped = false ∧ r.pending = .NONE
  | some (.stop (.restoring _)) =>
    r.flushLock = .held i ∧ r.stopping = true ∧ r.stopped = false ∧ r.pending = .NONE
  | some (.stop .sealing) =>
    r.flushLock = .held i ∧ r.stopping = true ∧ r.stopped = false ∧ r.pending = .NONE
  | some (.stop (.releasing b)) =>
    r.flushLock = .held i ∧ (b = true → r.stopped = true)
  | some (.stop (.returning b)) => b = true → r.stopped = true
  | _ => True

structure Recorder.Coherent (r : Recorder ι) : Prop where
  /-- the flush lock comes with the registration -/
  lock : r.registered = false → r.flushLock = .absent
  /-- a stopped recorder takes no note and has nothing pending -/
  sealed : r.stopped = true → r.stopping = true ∧ r.pending = .NONE

/-- What a change of the shared state must leave to a task that does not move. -/
structure Recorder.Leaves (r r' : Recorder ι) (j : ι) : Prop where
  stopping : r.stopping = true → r'.stopping = true
  stopped : r.stopped = true → r'.stopped = true
  holder : r.flushLock = .held j →
    r'.flushLock = .held j ∧ r'.stopped = r.stopped ∧
      (r.stopping = true → r.pending = .NONE → r'.pending = .NONE)

/-- A task that does not hold the flush lock relies on the flags only. -/
theorem Recorder.leaves_of_ne (hlock : r.flushLock ≠ .held j)
    (hstopping : r.stopping = true → r'.stopping = true)
    (hstopped : r.stopped = true → r'.stopped = true) : r.Leaves r' j :=
  ⟨hstopping, hstopped, fun hheld => absurd hheld hlock⟩

theorem Recorder.leaves_of_eq (hlock : r'.flushLock = r.flushLock)
    (hpending : r'.pending = r.pending) (hstopped : r'.stopped = r.stopped)
    (hstopping : r.stopping = true → r'.stopping = true) : r.Leaves r' j :=
  ⟨hstopping, hstopped.trans, fun hheld => ⟨hlock.trans hheld, hstopped, fun _ => hpending.trans⟩⟩

theorem Recorder.Leaves.at_of_at (h : r.Leaves r' j) (hz : r.At j z) : r'.At j z := by
  have hdraining : r.flushLock = .held j ∧ r.stopping = true ∧ r.stopped = false ∧
      r.pending = .NONE → r'.flushLock = .held j ∧ r'.stopping = true ∧ r'.stopped = false ∧
      r'.pending = .NONE := by
    rintro ⟨hheld, hstopping, hstopped, hpending⟩
    obtain ⟨hheld', heq, hnone⟩ := h.holder hheld
    exact ⟨hheld', h.stopping hstopping, heq.trans hstopped, hnone hstopping hpending⟩
  have hflushing : r.flushLock = .held j ∧ r.stopped = false →
      r'.flushLock = .held j ∧ r'.stopped = false := by
    rintro ⟨hheld, hstopped⟩
    exact ⟨(h.holder hheld).1, (h.holder hheld).2.1.trans hstopped⟩
  rcases z with _ | ⟨c, _ | _ | _ | p | p | b | b⟩ |
    ⟨_ | _ | _ | _ | _ | p | p | _ | b | b⟩ | _ | _
  case some.flush.taking => exact (h.holder hz).1
  case some.flush.writing => exact hflushing hz
  case some.flush.restoring => exact hflushing hz
  case some.flush.releasing => exact (h.holder hz).1
  case some.stop.signalling => exact h.stopping hz
  case some.stop.joining => exact h.stopping hz
  case some.stop.acquiring => exact h.stopping hz
  case some.stop.taking => exact ⟨(h.holder hz.1).1, h.stopping hz.2⟩
  case some.stop.writing => exact hdraining hz
  case some.stop.restoring => exact hdraining hz
  case some.stop.sealing => exact hdraining hz
  case some.stop.releasing => exact ⟨(h.holder hz.1).1, fun hb => h.stopped (hz.2 hb)⟩
  case some.stop.returning => exact fun hb => h.stopped (hz hb)
  all_goals exact trivial

/-- A step of one task leaves the others what they rely on: it changes the pending
events and `stopped` under the flush lock only. -/
theorem Move.leaves (h : Move g i r x a r' y) (hr : r.Coherent) (hx : r.At i x) (hji : j ≠ i) :
    r.Leaves r' j := by
  have hother : r.flushLock = .held i → r.flushLock ≠ .held j := by
    intro hi hj
    exact hji (FlushLock.held.inj (hj.symm.trans hi))
  have hfree : r.flushLock = .free → r.flushLock ≠ .held j := by
    intro hf hj
    cases hf.symm.trans hj
  cases h with
  | start hregistered _ _ =>
    refine Recorder.leaves_of_ne ?_ id id
    intro hj
    cases (hr.lock hregistered).symm.trans hj
  | flushAcquires hf => exact Recorder.leaves_of_ne (hfree hf) id id
  | stopAcquires hf => exact Recorder.leaves_of_ne (hfree hf) id id
  | flushTakes _ => exact Recorder.leaves_of_ne (hother hx) id id
  | flushRestores => exact Recorder.leaves_of_ne (hother hx.1) id id
  | flushReleases => exact Recorder.leaves_of_ne (hother hx) id id
  | stopTakes _ => exact Recorder.leaves_of_ne (hother hx.1) id id
  | stopRestores => exact Recorder.leaves_of_ne (hother hx.1) id id
  | stopSeals => exact Recorder.leaves_of_ne (hother hx.1) id fun _ => rfl
  | stopReleases => exact Recorder.leaves_of_ne (hother hx.1) id id
  | stopEnters _ => exact Recorder.leaves_of_eq rfl rfl rfl fun _ => rfl
  | _ => exact Recorder.leaves_of_eq rfl rfl rfl id

theorem Recorder.stopped_eq_false (h : r.stoppable = true) : r.stopped = false := by
  simpa using (Bool.and_eq_true_iff.mp h).2

theorem Recorder.stopped_eq_false_of_flushable (h : r.flushable = true) : r.stopped = false := by
  simpa using (Bool.and_eq_true_iff.mp (Bool.and_eq_true_iff.mp h).1).2

/-- Where a task arrives, the shared state lets it stand. -/
theorem Move.at_next (h : Move g i r x a r' y) (hx : r.At i x) : r'.At i y := by
  cases h with
  | flushAcquires _ => exact rfl
  | flushRefused _ => exact hx
  | flushTakes hflushable =>
    have hopen : r.stopped = false := Recorder.stopped_eq_false_of_flushable hflushable
    exact ⟨hx, hopen⟩
  | flushWrites _ => exact hx.1
  | flushRaises => exact hx
  | flushRestores => exact hx.1
  | stopRefused _ => exact fun hb => absurd hb Bool.false_ne_true
  | stopEnters _ => exact rfl
  | stopSignals => exact hx
  | stopWithoutLock _ _ => exact fun hb => absurd hb Bool.false_ne_true
  | stopJoins _ _ => exact hx
  | stopAcquires _ => exact ⟨rfl, hx⟩
  | stopTooLate _ => exact ⟨hx.1, fun hb => absurd hb Bool.false_ne_true⟩
  | stopTakes hstoppable =>
    have hopen : r.stopped = false := Recorder.stopped_eq_false hstoppable
    exact ⟨hx.1, hx.2, hopen, rfl⟩
  | stopWrites _ => exact hx
  | stopRaises => exact hx
  | stopRestores => exact ⟨hx.1, fun hb => absurd hb Bool.false_ne_true⟩
  | stopSeals => exact ⟨hx.1, fun _ => rfl⟩
  | stopReleases => exact hx.2
  | _ => exact trivial

theorem Move.coherent (h : Move g i r x a r' y) (hr : r.Coherent) (hx : r.At i x) :
    r'.Coherent := by
  obtain ⟨hlock, hsealed⟩ := hr
  have hregistered : r.flushLock ≠ .absent → r.registered ≠ false := by
    intro hne hreg
    exact hne (hlock hreg)
  cases h with
  | start _ _ _ =>
    refine ⟨fun hreg => ?_, hsealed⟩
    cases hreg
  | flushAcquires hfree =>
    refine ⟨fun hreg => absurd hreg (hregistered ?_), hsealed⟩
    rw [hfree]
    rintro ⟨⟩
  | stopAcquires hfree =>
    refine ⟨fun hreg => absurd hreg (hregistered ?_), hsealed⟩
    rw [hfree]
    rintro ⟨⟩
  | flushReleases =>
    refine ⟨fun hreg => absurd hreg (hregistered ?_), hsealed⟩
    rw [show r.flushLock = .held i from hx]
    rintro ⟨⟩
  | stopReleases =>
    refine ⟨fun hreg => absurd hreg (hregistered ?_), hsealed⟩
    rw [hx.1]
    rintro ⟨⟩
  | flushTakes _ => exact ⟨hlock, fun hstopped => ⟨(hsealed hstopped).1, rfl⟩⟩
  | stopTakes _ => exact ⟨hlock, fun hstopped => ⟨(hsealed hstopped).1, rfl⟩⟩
  | flushRestores =>
    exact ⟨hlock, fun hstopped => absurd (hx.2.symm.trans hstopped) Bool.false_ne_true⟩
  | stopRestores =>
    exact ⟨hlock, fun hstopped => absurd (hx.2.2.1.symm.trans hstopped) Bool.false_ne_true⟩
  | stopEnters _ => exact ⟨hlock, fun hstopped => ⟨rfl, (hsealed hstopped).2⟩⟩
  | stopSeals => exact ⟨hlock, fun _ => ⟨hx.2.1, hx.2.2.2⟩⟩
  | _ => exact ⟨hlock, hsealed⟩

theorem Recorder.note_leaves (e : WorkerProgressEvent) : r.Leaves (r.note e) j := by
  unfold Recorder.note
  split
  · next hnote =>
    refine ⟨id, id, fun hheld => ⟨hheld, rfl, fun hstopping => ?_⟩⟩
    simp [hstopping] at hnote
  · exact Recorder.leaves_of_eq rfl rfl rfl id

theorem Recorder.note_coherent (hr : r.Coherent) (e : WorkerProgressEvent) :
    (r.note e).Coherent := by
  unfold Recorder.note
  split
  · next hnote =>
    refine ⟨hr.lock, ?_⟩
    intro hstopped
    simp [show r.stopped = true from hstopped] at hnote
  · exact hr

namespace Recording

variable {s t u : Recording ι} {as bs : List (RecorderAction ι)}

/-- Every task stands where the shared state lets it stand. -/
structure Coherent (s : Recording ι) : Prop where
  recorder : s.recorder.Coherent
  tasks : ∀ i, s.recorder.At i (s.tasks i)

theorem coherent_init (rows : Table WorkerProcess) : (init rows : Recording ι).Coherent := by
  refine ⟨⟨fun _ => rfl, ?_⟩, fun i => trivial⟩
  intro hstopped
  cases hstopped

/-- After a successful stop nothing is pending and nothing is on its way. -/
theorem Coherent.drained (h : s.Coherent) (hs : s.recorder.stopped = true) :
    s.recorder.pending = .NONE ∧ ∀ e, ¬ s.Carried e := by
  refine ⟨(h.recorder.sealed hs).2, ?_⟩
  rintro e ⟨i, hi⟩
  have hat := h.tasks i
  unfold carries at hi
  split at hi
  · next hx =>
    rw [hx] at hat
    exact Bool.false_ne_true (hat.2.symm.trans hs)
  · next hx =>
    rw [hx] at hat
    exact Bool.false_ne_true (hat.2.symm.trans hs)
  · next hx =>
    rw [hx] at hat
    exact Bool.false_ne_true (hat.2.2.1.symm.trans hs)
  · next hx =>
    rw [hx] at hat
    exact Bool.false_ne_true (hat.2.2.1.symm.trans hs)
  · exact PendingEvent.not_has_none e hi

variable [DecidableEq ι]

theorem Step.coherent (h : Step g s a t) (hs : s.Coherent) : t.Coherent := by
  cases h with
  | note e =>
    exact ⟨Recorder.note_coherent hs.recorder e,
      fun i => (Recorder.note_leaves e).at_of_at (hs.tasks i)⟩
  | elsewhere rows =>
    refine ⟨⟨hs.recorder.lock, hs.recorder.sealed⟩, fun i => ?_⟩
    exact Recorder.Leaves.at_of_at (Recorder.leaves_of_eq rfl rfl rfl id) (hs.tasks i)
  | @move r r' tasks i a y hmove =>
    refine ⟨hmove.coherent hs.recorder (hs.tasks i), fun j => ?_⟩
    by_cases hji : j = i
    · subst hji
      simpa using hmove.at_next (hs.tasks j)
    · simpa [Function.update_of_ne hji] using
        (hmove.leaves hs.recorder (hs.tasks i) hji).at_of_at (hs.tasks j)

theorem Step.stopped (h : Step g s a t) (hs : s.recorder.stopped = true) :
    t.recorder.stopped = true := by
  cases h with
  | note e =>
    unfold Recorder.note
    split <;> exact hs
  | elsewhere rows => exact hs
  | @move _ _ tasks i _ _ hmove =>
    generalize tasks i = x at hmove
    cases hmove with
    | stopSeals => rfl
    | _ => exact hs

/-- A stop that returns true has stopped the recorder. -/
theorem Step.stopped_of_returned (h : Step g s (.stopReturned i true) t) (hs : s.Coherent) :
    t.recorder.stopped = true := by
  cases h with
  | @move r _ tasks k _ _ hmove =>
    have hat : r.At k (tasks k) := hs.tasks k
    generalize tasks k = x at hmove hat
    cases hmove with
    | stopReturns => exact hat rfl

theorem coherent_of_trace {rows : Table WorkerProcess} (h : Trace (Step g) (init rows) as s) :
    s.Coherent :=
  h.invariant (fun _ _ _ hstep hs => hstep.coherent hs) (coherent_init rows)

/-- A note that is taken makes its event pending. -/
theorem Step.noted (h : Step g s (.note e) t) (hs : s.Coherent)
    (hregistered : s.recorder.registered = true) (hstopping : s.recorder.stopping = false) :
    t.recorder.pending.Has e := by
  have hstopped : s.recorder.stopped = false := by
    by_contra hne
    rw [(hs.recorder.sealed (by simpa using hne)).1] at hstopping
    cases hstopping
  cases h with
  | note e =>
    simp only at hregistered hstopping hstopped
    simp [Recorder.note, hregistered, hstopping, hstopped]
  | @move _ _ tasks k _ _ hmove =>
    generalize tasks k = x at hmove
    cases hmove

/-- **The progress recorder loses no event.** An event noted while the recorder is
registered and not stopping is at every later time pending, carried by a flush or a stop
in progress, or in a write that has succeeded since. After a stop that returned true
nothing is pending, and nothing is carried. -/
theorem worker_progress_keeps_events (g : Generation) (rows : Table WorkerProcess) :
    (∀ {as bs : List (RecorderAction ι)} {s t u : Recording ι} {e : WorkerProgressEvent},
      Trace (Step g) (init rows) as s → s.recorder.registered = true →
      s.recorder.stopping = false → Step g s (.note e) t → Trace (Step g) t bs u →
      u.recorder.pending.Has e ∨ u.Carried e ∨ ∃ i p now, .wrote i p now ∈ bs ∧ p.Has e) ∧
    (∀ {as bs : List (RecorderAction ι)} {s t u : Recording ι} {i : ι},
      Trace (Step g) (init rows) as s → Step g s (.stopReturned i true) t →
      Trace (Step g) t bs u → u.recorder.pending = .NONE ∧ ∀ e, ¬ u.Carried e) := by
  refine ⟨?_, ?_⟩
  · intro as bs s t u e hs hregistered hstopping hnote hu
    have ht : t.Kept e := Or.inl (hnote.noted (coherent_of_trace hs) hregistered hstopping)
    rcases hu.kept_or_met (fun _ _ _ hstep hk => hstep.kept hk) ht with (hp | hc) | hwrote
    · exact Or.inl hp
    · exact Or.inr (Or.inl hc)
    · obtain ⟨_, hmem, i, p, now, rfl, hp⟩ := hwrote
      exact Or.inr (Or.inr ⟨i, p, now, hmem, hp⟩)
  · intro as bs s t u i hs hstop hu
    have ht := hstop.stopped_of_returned (coherent_of_trace hs)
    have hu' : u.recorder.stopped = true :=
      hu.invariant (I := fun v => v.recorder.stopped = true)
        (fun _ _ _ hstep hv => hstep.stopped hv) ht
    exact (coherent_of_trace ((hs.snoc hstop).append hu)).drained hu'

def sampleGeneration : Generation := ⟨"generation", "worker"⟩

def sampleRow : WorkerProcess := ⟨"generation", "worker", 5, 5, none, none, none, none, none⟩

/-- A recorder that is registered, and its periodic task. -/
def sampleStarted : Recording Bool :=
  ⟨⟨.NONE, true, false, false, false, .free, .running, Table.empty.insert sampleRow⟩,
    Function.update (fun _ => none) false (some .loopHead)⟩

theorem trace_sampleStarted :
    Trace (Step sampleGeneration) (init Table.empty) [.internal] sampleStarted :=
  .cons (.move (i := false)
    (.start rfl rfl (rfl : sampleGeneration.register 5 Table.empty = _))) (.nil _)

theorem worker_progress_keeps_events_sample :
    (∃ bs u, Trace (Step sampleGeneration) sampleStarted (.note .scan :: bs) u ∧
      ¬ u.recorder.pending.Has .scan ∧
      (u.recorder.pending.Has .scan ∨ u.Carried .scan ∨
        ∃ i p now, .wrote i p now ∈ bs ∧ p.Has .scan)) ∧
    ∃ as u, Trace (Step sampleGeneration) sampleStarted (as ++ [.stopReturned true true]) u ∧
      u.recorder.pending = .NONE ∧ ∀ e, ¬ u.Carried e := by
  refine ⟨?_, ?_⟩
  · -- the second event is noted while the first one is being written
    have hnote : Step sampleGeneration sampleStarted (.note .scan)
        ⟨sampleStarted.recorder.note .scan, sampleStarted.tasks⟩ := .note .scan
    have hflush : ∃ bs u, Trace (Step sampleGeneration)
        ⟨sampleStarted.recorder.note .scan, sampleStarted.tasks⟩ bs u ∧
        ¬ u.recorder.pending.Has .scan := by
      refine ⟨_, _, .cons (.move (i := true) .callFlush) <|
        .cons (.move (i := true) (.flushEnters ?_)) <|
        .cons (.move (i := true) (.flushAcquires rfl)) <|
        .cons (.move (i := true) (.flushTakes rfl)) <| .cons (.note .claim) <| .nil _, ?_⟩
      · rintro ⟨⟩
      · decide
    obtain ⟨bs, u, hu, hpending⟩ := hflush
    exact ⟨bs, u, .cons hnote hu, hpending,
      (worker_progress_keeps_events sampleGeneration Table.empty).1 trace_sampleStarted rfl rfl
        hnote hu⟩
  · have hstop : ∃ as t u, Trace (Step sampleGeneration) sampleStarted as t ∧
        Step sampleGeneration t (.stopReturned true true) u := by
      refine ⟨_, _, _, .cons (.move (i := true) .callStop) <|
        .cons (.move (i := true) (.stopEnters rfl)) <|
        .cons (.move (i := true) .stopSignals) <|
        .cons (.move (i := false) (.loopEnds rfl)) <|
        .cons (.move (i := true) (.stopJoins ?_ ?_)) <|
        .cons (.move (i := true) (.stopAcquires rfl)) <|
        .cons (.move (i := true) (.stopTakes rfl)) <|
        .cons (.move (i := true) (.stopWrites (rfl : sampleGeneration.stop .NONE 7 _ = _))) <|
        .cons (.move (i := true) .stopSeals) <|
        .cons (.move (i := true) .stopReleases) <| .nil _, .move (i := true) .stopReturns⟩
      · rintro ⟨⟩
      · rintro ⟨⟩
    obtain ⟨as, t, u, ht, hu⟩ := hstop
    exact ⟨as, u, ht.snoc hu, (worker_progress_keeps_events sampleGeneration Table.empty).2
      (trace_sampleStarted.append ht) hu (.nil u)⟩

end Recording

end LLMBenchLab
