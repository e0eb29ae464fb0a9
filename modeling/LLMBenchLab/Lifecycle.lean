import LLMBenchLab.Materialization

/-!
# The life of a reservation

Every action that edits a ledger row moves its state along one edge of the
state machine, or renews an active row (`Edge.of_edited`). A row of a run of
the system is therefore never deleted, never leaves a terminal state, and its
instants fit its state.
-/

namespace LLMBenchLab

open Relational Relational.Prog Governance

variable {cfg : Config} {s s' : Store}

/-! ## States -/

/-- The edges of the state machine. -/
inductive Edge : ReservationState → ReservationState → Prop where
  | send : Edge .reserved .sendStarted
  | release : Edge .reserved .releasedPreSend
  | settleActual : Edge .sendStarted .settledActual
  | settleConservative : Edge .sendStarted .settledConservative

/-- `state_timestamps_coherent`. -/
def Reservation.Coherent (r : Reservation) : Prop :=
  match r.state with
  | .reserved => r.sendStartedAt = none ∧ r.settledAt = none
  | .sendStarted => r.sendStartedAt.isSome ∧ r.settledAt = none
  | .releasedPreSend => r.sendStartedAt = none ∧ r.settledAt.isSome
  | .settledActual | .settledConservative => r.sendStartedAt.isSome ∧ r.settledAt.isSome

/-- An edit moves the row along an edge, or keeps its state and its instants;
either way the row was active. -/
theorem Edge.of_edited {X : Option RunId → Bool} {l : Ledger} {a : Action} {r r' : Reservation}
    (ha : l.Allows X a) (h : a.edited = some (r, r')) :
    r.state.active = true ∧ (Edge r.state r'.state ∨ r'.state = r.state) ∧
      (r.Coherent → r'.Coherent) := by
  cases a <;> simp only [Action.edited, Option.some.injEq, Prod.mk.injEq, reduceCtorEq] at h <;>
    obtain ⟨rfl, rfl⟩ := h
  · obtain ⟨-, hst, -⟩ := ha
    refine ⟨by rw [hst]; rfl, Or.inl (by rw [hst]; exact .send), fun hc => ?_⟩
    simp only [Reservation.Coherent, hst] at hc
    exact ⟨rfl, hc.2⟩
  · obtain ⟨-, hst⟩ := ha
    refine ⟨by rw [hst]; rfl, Or.inl (by rw [hst]; exact .release), fun hc => ?_⟩
    simp only [Reservation.Coherent, hst] at hc
    exact ⟨hc.1, rfl⟩
  · next v explicit now outcome conservative =>
    obtain ⟨-, hst, -⟩ := ha
    refine ⟨by rw [hst]; rfl, Or.inl ?_, fun hc => ?_⟩
    · rw [hst]
      cases conservative
      · exact .settleActual
      · exact .settleConservative
    · simp only [Reservation.Coherent, hst] at hc
      cases conservative
      · exact ⟨hc.1, rfl⟩
      · exact ⟨hc.1, rfl⟩
  · exact ⟨ha.2, Or.inr rfl, id⟩

/-! ## Rows along a run -/

/-- What has become of the row `r`. -/
structure Lives (r r' : Reservation) : Prop where
  state : Relation.ReflTransGen Edge r.state r'.state
  same : r.SameAttempt r'
  kept : r.state.active = false → r' = r

theorem Lives.refl (r : Reservation) : Lives r r := ⟨.refl, .refl r, fun _ => rfl⟩

theorem Lives.trans {a b c : Reservation} (h : Lives a b) (h' : Lives b c) : Lives a c where
  state := h.state.trans h'.state
  same := h.same.trans h'.same
  kept hact := by
    have hb := h.kept hact
    rw [h'.kept (by rw [hb]; exact hact), hb]

theorem Lives.play {X : Option RunId → Bool} {l : Ledger} {a : Action} (ha : l.Allows X a)
    {id : ReservationId} {r : Reservation} (hr : l.reservations.get? id = some r) :
    ∃ r', (l.play a).reservations.get? id = some r' ∧ Lives r r' := by
  rcases Ledger.get?_play ha hr with h | ⟨r', h, he⟩
  · exact ⟨r, h, .refl r⟩
  · obtain ⟨hactive, hedge, -⟩ := Edge.of_edited ha he
    refine ⟨r', h, ?_, Action.edited_same he, fun hn => ?_⟩
    · rcases hedge with hedge | hsame
      · exact .single hedge
      · rw [hsame]
    · rw [hactive] at hn
      cases hn

/-- Actions delete no row. -/
theorem Lives.playAll {X : Option RunId → Bool} {G : Ledger → Action → Prop} :
    ∀ {acts : List Action} {l : Ledger}, l.Plays X G acts → ∀ {id : ReservationId} {r : Reservation},
      l.reservations.get? id = some r →
      ∃ r', (l.playAll acts).reservations.get? id = some r' ∧ Lives r r' := by
  intro acts
  induction acts with
  | nil => exact fun _ _ r hr => ⟨r, hr, .refl r⟩
  | cons a acts ih =>
    intro l hp id r hr
    obtain ⟨r₁, hr₁, h₁⟩ := Lives.play hp.1.1 hr
    obtain ⟨r₂, hr₂, h₂⟩ := ih hp.2 hr₁
    exact ⟨r₂, hr₂, h₁.trans h₂⟩

/-- The row with this identifier has come from `r`. -/
def Descends (id : ReservationId) (r : Reservation) (s : Store) : Prop :=
  ∃ r', s.ledger.reservations.get? id = some r' ∧ Lives r r'

theorem Descends.step {o : Op} {u : Unit} {id : ReservationId} {r : Reservation}
    (hi : BooksInv s) (h : Descends id r s) (hx : exec schema (o.tx cfg) s = .ok (u, s')) :
    Descends id r s' := by
  obtain ⟨r₁, hr₁, h₁⟩ := h
  obtain ⟨acts, hp, hl, -⟩ := Account.of_exec hi hx
  obtain ⟨r₂, hr₂, h₂⟩ := Lives.playAll hp hr₁
  exact ⟨r₂, by rw [hl]; exact hr₂, h₁.trans h₂⟩

/-- Every row has instants that fit its state. -/
def CoherentRows (l : Ledger) : Prop := ∀ r ∈ l.reservations.rows, r.Coherent

theorem CoherentRows.play {X : Option RunId → Bool} {l : Ledger} {a : Action} (h : CoherentRows l)
    (ha : l.Allows X a) (hlic : Licence s l a) : CoherentRows (l.play a) := by
  refine Ledger.forall_play h ha ?_ fun r r' he hc => (Edge.of_edited ha he).2.2 hc
  rintro r rfl
  obtain ⟨run, policy, o, now, hl⟩ := hlic
  simp only [Reservation.Coherent, ha.2.1]
  exact hl.blank

theorem Committed.coherent (h : Committed cfg s) : CoherentRows s.ledger := by
  have hboth : BooksInv s ∧ CoherentRows s.ledger := by
    refine h.invariant (I := fun s => BooksInv s ∧ CoherentRows s.ledger)
      ⟨.empty, fun _ hr => absurd hr List.not_mem_nil⟩ ?_
    rintro s s' o u ⟨hi, hc⟩ hx
    obtain ⟨acts, hp, hl, -⟩ := Account.of_exec hi hx
    refine ⟨hi.step hx, ?_⟩
    rw [hl]
    exact hp.invariant hc fun _ _ hc ha hlic => hc.play ha hlic
  exact hboth.2

/-! ## Repeated calls -/

/-- No ledger row and no counter differs; buckets that were not there count
nothing. -/
structure SameCounters (l l' : Ledger) : Prop where
  reservations : l'.reservations = l.reservations
  scopes : l'.scopes = l.scopes
  kept : ∀ b ∈ l.buckets.rows, b ∈ l'.buckets.rows
  fresh : ∀ b ∈ l'.buckets.rows, b ∈ l.buckets.rows ∨ b = .zero b.key

theorem SameCounters.refl (l : Ledger) : SameCounters l l :=
  ⟨rfl, rfl, fun _ h => h, fun _ h => Or.inl h⟩

theorem SameCounters.openBuckets (keys : List BucketKey) :
    ∀ l : Ledger, SameCounters l (l.playAll (keys.map .openBucket)) := by
  induction keys with
  | nil => exact SameCounters.refl
  | cons k keys ih =>
    intro l
    obtain ⟨hr, hs, hkept, hfresh⟩ := ih (l.play (.openBucket k))
    refine ⟨hr, hs, fun b hb => hkept b (Table.mem_insert.mpr (Or.inl hb)), fun b hb => ?_⟩
    rcases hfresh b hb with hb | hb
    · rcases Table.mem_insert.mp hb with hb | ⟨-, rfl⟩
      · exact Or.inl hb
      · exact Or.inr rfl
    · exact Or.inr hb

/-- The first terminal outcome wins: `finish` on a row that has ended writes
nothing. -/
theorem finish_ended {permit : Permit} {f : FinishReport} {now : Time} {r : Reservation} {u : Unit}
    (hr : s.ledger.reservations.get? permit.reservationId = some r) (hend : r.state.active = false)
    (h : exec schema (finish permit f now) s = .ok (u, s')) : s' = s := by
  obtain ⟨i, -, h⟩ := exec_ofExcept_bind h
  obtain ⟨o, -, h⟩ := exec_ofExcept_bind h
  obtain ⟨m, -, h⟩ := exec_ofExcept_bind h
  obtain ⟨view, s₁, h₁, h⟩ := exec_bind_eq_ok h
  obtain rfl := (readOnly_loadReservation _).exec h₁
  obtain ⟨scopes, s₂, h₂, h⟩ := exec_bind_eq_ok h
  obtain rfl := (readOnly_lockScopesById _).exec h₂
  obtain ⟨bs, s₃, h₃, h⟩ := exec_bind_eq_ok h
  obtain rfl := (readOnly_lockExistingBuckets _ _).exec h₃
  obtain ⟨_, s₄, h₄, h⟩ := exec_bind_eq_ok h
  obtain rfl := (readOnly_validateScopes _).exec h₄
  obtain ⟨_, s₅, h₅, h⟩ := exec_bind_eq_ok h
  obtain rfl := (readOnly_validateBuckets _).exec h₅
  rw [bind_eq, lockReservation, Prog.forUpdate] at h
  simp only [Prog.bind, exec_lock, hr, finishLocked, hend] at h
  exact (exec_pure_ok h).2

/-- `mark_send_started` on a row that has been sent opens the buckets of the
current minute at most. -/
theorem markSendStarted_sent {permit : Permit} {owner : Owner} {now : Time} {r : Reservation}
    {u : Unit} (hr : s.ledger.reservations.get? permit.reservationId = some r)
    (hsent : r.state = .sendStarted)
    (h : exec schema (markSendStarted cfg permit owner now) s = .ok (u, s')) :
    SameCounters s.ledger s'.ledger := by
  obtain ⟨view, s₁, h₁, h⟩ := exec_bind_eq_ok h
  obtain rfl := (readOnly_loadReservation _).exec h₁
  obtain ⟨scopes, s₂, h₂, h⟩ := exec_bind_eq_ok h
  obtain rfl := (readOnly_lockScopesById _).exec h₂
  obtain ⟨old, s₃, h₃, h⟩ := exec_bind_eq_ok h
  obtain rfl := (readOnly_lockExistingBuckets _ _).exec h₃
  obtain ⟨-, h⟩ := exec_ensure_bind h
  obtain ⟨new, s₄, h₄, h⟩ := exec_bind_eq_ok h
  have hopen : SameCounters s.ledger s₄.ledger := by
    simp only [lockSendBuckets] at h₄
    split at h₄
    · obtain ⟨w, hw, rfl⟩ := runs_of_exec (w := id) h₄
      have hsees := (runs_lockBuckets (.start (l := s.ledger) fun d hd => by rw [hd]) hw).1
      rw [hsees.ledger s rfl]
      exact .openBuckets _ _
    · obtain ⟨-, rfl⟩ := exec_pure_ok h₄
      exact .refl _
  obtain ⟨_, s₅, h₅, h⟩ := exec_bind_eq_ok h
  obtain rfl := (readOnly_validateScopes _).exec h₅
  obtain ⟨_, s₆, h₆, h⟩ := exec_bind_eq_ok h
  obtain rfl := (readOnly_validateBuckets _).exec h₆
  rw [bind_eq, lockReservation, Prog.forUpdate] at h
  simp only [Prog.bind, exec_lock, hopen.reservations, hr] at h
  obtain ⟨-, h⟩ := exec_ensure_bind h
  simp only [Prog.read, bind_eq, Prog.bind, exec_query] at h
  split at h
  · cases h
  · obtain ⟨-, h⟩ := exec_ensure_bind h
    obtain ⟨run, s₇, h₇, h⟩ := exec_bind_eq_ok h
    obtain rfl := (readOnly_lockRunOf _ _).exec h₇
    obtain ⟨-, h⟩ := exec_ensure_bind h
    rw [if_pos hsent] at h
    obtain ⟨-, rfl⟩ := exec_pure_ok h
    exact hopen

/-- **The life of a reservation.** In every continuation of every run a ledger
row is still there, its state has moved along the edges of the state machine
only, its instants fit its state, and a row in a terminal state is what it was.
`finish` on a row that has ended changes nothing, and `mark_send_started` on a
row that has been sent changes no row and no counter. -/
theorem reservation_lifecycle (cfg : Config) (s s' : Store) (h : Committed cfg s)
    (hrun : Reaches (next cfg) (fun _ _ => True) s s') (id : ReservationId) (r : Reservation)
    (hr : s.ledger.reservations.get? id = some r) :
    (∃ r', s'.ledger.reservations.get? id = some r' ∧
        Relation.ReflTransGen Edge r.state r'.state ∧ r'.Coherent ∧
        (r.state.active = false → r' = r)) ∧
      (∀ permit f now, permit.reservationId = id → r.state.active = false →
        next cfg s (.finish permit f now) = s) ∧
      ∀ permit owner now, permit.reservationId = id → r.state = .sendStarted →
        SameCounters s.ledger (next cfg s (.markSendStarted permit owner now)).ledger := by
  refine ⟨?_, ?_, ?_⟩
  · have hboth : BooksInv s' ∧ Descends id r s' := by
      refine hrun.invariant (I := fun s => BooksInv s ∧ Descends id r s)
        ⟨h.booksInv, r, hr, .refl r⟩ ?_
      rintro s o ⟨hi, hd⟩ -
      rw [next]
      rcases after_cases schema (o.tx cfg) s with hx | ⟨u, s', hx, hx'⟩
      · rw [hx]
        exact ⟨hi, hd⟩
      · rw [hx']
        exact ⟨hi.step hx, hd.step hi hx⟩
    obtain ⟨r', hr', hl⟩ := hboth.2
    have hcoh : Committed cfg s' := Reaches.trans h hrun
    exact ⟨r', hr', hl.state, hcoh.coherent r' (Table.mem_of_get? hr'), hl.kept⟩
  · rintro permit f now rfl hend
    rw [next]
    rcases after_cases schema ((Op.finish permit f now).tx cfg) s with hx | ⟨u, s', hx, hx'⟩
    · exact hx
    · rw [hx']
      exact finish_ended hr hend hx
  · rintro permit owner now rfl hsent
    rw [next]
    rcases after_cases schema ((Op.markSendStarted permit owner now).tx cfg) s with
      hx | ⟨u, s', hx, hx'⟩
    · rw [hx]
      exact .refl _
    · rw [hx']
      exact markSendStarted_sent hr hsent hx

/-- The reservation of the sample run, from RESERVED to its settlement, and a
second `finish` that would release it. -/
theorem reservation_lifecycle_sample :
    ∃ r r', (Sample.after (Sample.sentRun.take 4)).ledger.reservations.get? 7 = some r ∧
      r.state = .reserved ∧ (Sample.after Sample.sentRun).ledger.reservations.get? 7 = some r' ∧
      Relation.ReflTransGen Edge r.state r'.state ∧
      next Sample.config (Sample.after Sample.sentRun)
        (.finish ⟨7, 1⟩ ⟨.releasedPreSend, .transportError, none, none, none⟩ 60000020) =
          Sample.after Sample.sentRun := by
  have hreserved : ((Sample.after (Sample.sentRun.take 4)).ledger.reservations.get? 7).map
      Reservation.state = some .reserved := by decide +kernel
  have hended : ((Sample.after Sample.sentRun).ledger.reservations.get? 7).map
      (fun r => r.state.active) = some false := by decide +kernel
  obtain ⟨r, hr, hst⟩ := Option.map_eq_some_iff.mp hreserved
  obtain ⟨q, hq, hend⟩ := Option.map_eq_some_iff.mp hended
  have hrun : Reaches (next Sample.config) (fun _ _ => True)
      (Sample.after (Sample.sentRun.take 4)) (Sample.after Sample.sentRun) :=
    Reaches.start.foldl (l := Sample.sentRun.drop 4) fun _ _ _ => trivial
  obtain ⟨⟨r', hr', hstate, -, -⟩, -, -⟩ := reservation_lifecycle Sample.config _ _
    (Sample.committed_after _) hrun 7 r hr
  obtain ⟨-, hfinish, -⟩ := reservation_lifecycle Sample.config _ _
    (Sample.committed_after _) .start 7 q hq
  exact ⟨r, r', hr, hst, hr', hstate, hfinish _ _ _ rfl hend⟩

end LLMBenchLab
