import LLMBenchLab.Generation

/-!
# The attempt protocol

The words of the protocol between an adapter and its attempt controller, and that
the calls of every `generate` form one of them: consecutive attempts, no request
before its send start is marked, one settlement for each attempt that may have
been sent, one release for each that was definitely not, and silence only where
that is unknown.
-/

namespace LLMBenchLab

open Effects (Act)

/-! ## The words -/

/-- The send start may have been recorded: reconciliation decides. -/
def Exn.SendUnknown (e : Exn) : Prop := e = .cancelled ∨ e = .providerAttemptStateUnknown

def Disposition.Settled (d : Disposition) : Prop := d = .settledActual ∨ d = .settledConservative

/-- The calls of the attempts from `n` on, of at most `last`, and how `generate`
ends with them. -/
inductive ProtocolWord (last : ℕ) :
    ℕ → CallHistory → Except Exn ModelGenerationResult → Prop where
  /-- The controller does not reserve the attempt. -/
  | refused {n : ℕ} (hn : n ≤ last) (e : Exn) :
      ProtocolWord last n [.reserve n (.error e)] (.error e)
  /-- Nobody knows whether the send was marked, so nothing is finished. -/
  | unknown {n : ℕ} (hn : n ≤ last) (p : Permit) {e : Exn} (he : e.SendUnknown) :
      ProtocolWord last n [.reserve n (.ok p), .markSendStarted p (.error e)] (.error e)
  /-- The send was not marked: the permit is released, once. -/
  | released {n : ℕ} (hn : n ≤ last) (p : Permit) {e : Exn} (he : ¬ e.SendUnknown)
      (outcome : Outcome) (answer : Except Exn Unit) (e' : Exn) :
      ProtocolWord last n
        [.reserve n (.ok p), .markSendStarted p (.error e),
          .finish p .releasedPreSend outcome answer] (.error e')
  /-- The last attempt: marked, requested, and settled once; a result is only
  returned after the settlement was acknowledged. -/
  | settled {n : ℕ} (hn : n ≤ last) (p : Permit) {d : Disposition} (hd : d.Settled)
      (outcome : Outcome) (answer : Except Exn Unit) (r : Except Exn ModelGenerationResult)
      (hr : ∀ g, r = .ok g → answer = .ok ()) :
      ProtocolWord last n
        [.reserve n (.ok p), .markSendStarted p (.ok ()), .request (some p),
          .finish p d outcome answer] r
  /-- Another attempt after one that was settled. -/
  | next {n : ℕ} (p : Permit) {d : Disposition} (hd : d.Settled) (outcome : Outcome)
      {rest : CallHistory} {r : Except Exn ModelGenerationResult}
      (h : ProtocolWord last (n + 1) rest r) :
      ProtocolWord last n
        (.reserve n (.ok p) :: .markSendStarted p (.ok ()) :: .request (some p) ::
          .finish p d outcome (.ok ()) :: rest) r

/-! ## The helpers -/

variable {σ : Type} {a : Adapter σ} {w : AttemptWorld σ} {c : Controller}

theorem reserve_emits (hw : w.controller = some c) (n : ℕ) :
    (reserveProviderAttempt w n).Emits fun t r =>
      (∃ e, t = [.reserve n (.error e)] ∧ r = .error e) ∨
        ∃ p, t = [.reserve n (.ok p)] ∧ r = .ok (some p) := by
  rw [reserveProviderAttempt, hw]
  refine Act.emits_bind (Act.emits_call fun r => ?_)
  cases r with
  | error e => exact Or.inl ⟨e, rfl, rfl⟩
  | ok p => exact Act.emits_pure (Or.inr ⟨p, rfl, rfl⟩)

theorem mark_emits (hw : w.controller = some c) (p : Permit) :
    (markProviderAttemptSendStarted w (some p)).Emits fun t r => t = [.markSendStarted p r] := by
  rw [markProviderAttemptSendStarted.eq_def, hw]
  exact Act.emits_call fun _ => rfl

theorem finish_emits (hw : w.controller = some c) (p : Permit) (d : Disposition) (o : Outcome)
    (i u : Option ℕ) :
    (finishProviderAttempt w (some p) d o i u).Emits fun t r => t = [.finish p d o r] := by
  rw [finishProviderAttempt.eq_def, hw]
  exact Act.emits_call fun _ => rfl

/-- The shielded finish is one finish, whatever comes of it. -/
theorem finishAfterCancellation_emits (hw : w.controller = some c) (p : Permit) (d : Disposition)
    (o : Outcome) :
    (finishProviderAttemptAfterCancellation w (some p) d o).Emits fun t r =>
      ∃ answer b, t = [.finish p d o answer] ∧ r = .ok b := by
  refine Act.emits_catch (Act.emits_bind ?_)
  refine (finish_emits hw p d o none none).mono ?_
  rintro t r rfl
  cases r with
  | error e => exact Act.emits_pure ⟨_, false, rfl, rfl⟩
  | ok u => exact Act.emits_pure ⟨_, true, rfl, rfl⟩

/-- The send start is marked, or left unknown, or the permit is released. -/
inductive MarkTrace (p : Permit) : CallHistory → Except Exn Unit → Prop where
  | marked : MarkTrace p [.markSendStarted p (.ok ())] (.ok ())
  | unknown {e : Exn} (he : e.SendUnknown) :
      MarkTrace p [.markSendStarted p (.error e)] (.error e)
  | released {e : Exn} (he : ¬ e.SendUnknown) (answer : Except Exn Unit) (e' : Exn) :
      MarkTrace p
        [.markSendStarted p (.error e), .finish p .releasedPreSend .markSendFailed answer]
        (.error e')

theorem markOrRelease_emits (hw : w.controller = some c) (p : Permit) :
    (markOrRelease w (some p)).Emits (MarkTrace p) := by
  refine Act.emits_catch ((mark_emits hw p).mono ?_)
  rintro t r rfl
  cases r with
  | ok u => exact .marked
  | error e =>
    have hrelease : ¬ e.SendUnknown →
        (do
          finishProviderAttempt w (some p) .releasedPreSend .markSendFailed none none
          throw e : Act AttemptCall Exn Unit).Emits fun t r =>
        MarkTrace p ([.markSendStarted p (.error e)] ++ t) r := by
      intro he
      refine Act.emits_bind ((finish_emits hw p _ _ none none).mono ?_)
      rintro t r rfl
      cases r with
      | error e' => exact .released he _ e'
      | ok u => exact Act.emits_throw (.released he _ e)
    cases e with
    | cancelled => exact Act.emits_throw (.unknown (Or.inl rfl))
    | providerAttemptStateUnknown => exact Act.emits_throw (.unknown (Or.inr rfl))
    | responseBodyTooLarge limit status => exact hrelease (by simp [Exn.SendUnknown])
    | transport failure message => exact hrelease (by simp [Exn.SendUnknown])
    | adapter e => exact hrelease (by simp [Exn.SendUnknown])
    | other name => exact hrelease (by simp [Exn.SendUnknown])

/-! ## The exchange -/

/-- A failed exchange is settled once, and only an acknowledged settlement within
the retry limit goes on. -/
inductive FailureTrace (max n : ℕ) (p : Permit) : CallHistory → Except Exn AttemptEnd → Prop where
  | raised {d : Disposition} (hd : d.Settled) (o : Outcome) (answer : Except Exn Unit) (e : Exn) :
      FailureTrace max n p [.finish p d o answer] (.error e)
  | terminal {d : Disposition} (hd : d.Settled) (o : Outcome) (e : AdapterError) :
      FailureTrace max n p [.finish p d o (.ok ())] (.ok (.terminal e))
  | retry {d : Disposition} (hd : d.Settled) (o : Outcome) (hn : n ≤ max) :
      FailureTrace max n p [.finish p d o (.ok ())] (.ok .retry)

/-- A handler that finishes the attempt first. -/
theorem settle_emits (hw : w.controller = some c) {max n : ℕ} {p : Permit} {o : Outcome}
    {rest : Act AttemptCall Exn AttemptEnd}
    (h : rest.Emits fun t r => t = [] ∧ FailureTrace max n p
      [.finish p .settledConservative o (.ok ())] r) :
    (finishProviderAttempt w (some p) .settledConservative o none none >>= fun _ => rest).Emits
      (FailureTrace max n p) := by
  refine Act.emits_bind ((finish_emits hw p _ _ none none).mono ?_)
  rintro t r rfl
  cases r with
  | error e => exact .raised (Or.inr rfl) o _ e
  | ok u =>
    refine h.mono ?_
    rintro t r ⟨rfl, hr⟩
    exact hr

/-- Backoff within the limit goes on, or is interrupted. -/
theorem backoff_emits {max n : ℕ} (p : Permit) (o : Outcome) (hn : n ≤ max) :
    (do
      backoff w
      pure .retry : Act AttemptCall Exn AttemptEnd).Emits fun t r =>
      t = [] ∧ FailureTrace max n p [.finish p .settledConservative o (.ok ())] r := by
  refine Act.emits_bind (Act.emits_ask fun r => ?_)
  cases r with
  | error e => exact ⟨rfl, .raised (Or.inr rfl) o _ e⟩
  | ok u => exact Act.emits_pure ⟨rfl, .retry (Or.inr rfl) o hn⟩

theorem handleFailure_emits (hw : w.controller = some c) (n : ℕ) (p : Permit) (e : Exn) :
    (handleFailure a w n (some p) e).Emits (FailureTrace a.maxRetries n p) := by
  have hraise : ∀ (o : Outcome) (e : Exn), (throw e : Act AttemptCall Exn AttemptEnd).Emits
      fun t r => t = [] ∧
        FailureTrace a.maxRetries n p [.finish p .settledConservative o (.ok ())] r :=
    fun o e => Act.emits_throw ⟨rfl, .raised (Or.inr rfl) o _ e⟩
  cases e with
  | cancelled =>
    refine Act.emits_bind ((finishAfterCancellation_emits hw p _ _).mono ?_)
    rintro t r ⟨answer, b, rfl, rfl⟩
    exact Act.emits_throw (.raised (Or.inr rfl) _ _ _)
  | responseBodyTooLarge limit status =>
    exact settle_emits hw (Act.emits_pure ⟨rfl, .terminal (Or.inr rfl) _ _⟩)
  | transport failure message =>
    refine settle_emits hw ?_
    split_ifs with hn
    · exact backoff_emits p _ hn
    · exact Act.emits_pure ⟨rfl, .terminal (Or.inr rfl) _ _⟩
  | adapter e =>
    refine settle_emits hw ?_
    by_cases hn : e.retryable ∧ n ≤ a.maxRetries
    · rw [if_pos hn]
      exact backoff_emits p _ hn.2
    · rw [if_neg hn]
      exact hraise _ _
  | providerAttemptStateUnknown => exact settle_emits hw (hraise _ _)
  | other name => exact settle_emits hw (hraise _ _)

/-- An exchange sends one request, and where it comes to no result the attempt is
settled. -/
inductive ExchangeTrace (max n : ℕ) (p : Permit) :
    CallHistory → Except Exn AttemptEnd → Prop where
  | result (g : ModelGenerationResult) :
      ExchangeTrace max n p [.request (some p)] (.ok (.result g))
  | failed {t : CallHistory} {r : Except Exn AttemptEnd} (h : FailureTrace max n p t r) :
      ExchangeTrace max n p (.request (some p) :: t) r

theorem exchange_emits (hw : w.controller = some c) (n : ℕ) (p : Permit) :
    (exchange a w n (some p)).Emits (ExchangeTrace a.maxRetries n p) := by
  have hfail : ∀ e, (handleFailure a w n (some p) e).Emits fun t r =>
      ExchangeTrace a.maxRetries n p ([.request (some p)] ++ t) r :=
    fun e => (handleFailure_emits hw n p e).mono fun _ _ h => .failed h
  refine Act.emits_catch (Act.emits_bind (Act.emits_call fun reply => ?_))
  cases reply with
  | error e => exact hfail e
  | ok reply =>
    refine Act.emits_bind (Act.emits_lift ?_)
    cases a.resultOf reply n with
    | error e => exact hfail e
    | ok g => exact Act.emits_pure (.result g)

/-! ## Attempts in a row -/

/-- One attempt: a whole word of the protocol, or a settled attempt before another
one within the retry limit. -/
inductive AttemptTrace (max n : ℕ) :
    CallHistory → Except Exn (Option ModelGenerationResult) → Prop where
  | last {t : CallHistory} {r : Except Exn ModelGenerationResult}
      (h : ∀ last, n ≤ last → ProtocolWord last n t r) : AttemptTrace max n t (r.map some)
  | retry (p : Permit) {d : Disposition} (hd : d.Settled) (o : Outcome) (hn : n ≤ max) :
      AttemptTrace max n
        [.reserve n (.ok p), .markSendStarted p (.ok ()), .request (some p),
          .finish p d o (.ok ())] (.ok none)

theorem attemptOnce_emits (hw : w.controller = some c) (n : ℕ) :
    (attemptOnce a w n).Emits (AttemptTrace a.maxRetries n) := by
  refine Act.emits_bind ((reserve_emits hw n).mono ?_)
  rintro t r (⟨e, rfl, rfl⟩ | ⟨p, rfl, rfl⟩)
  · exact .last (r := .error e) fun last hn => .refused hn e
  refine Act.emits_bind ((markOrRelease_emits hw p).mono ?_)
  rintro t r (⟨⟩ | he | ⟨he, answer, e'⟩)
  swap
  · exact .last (r := .error _) fun last hn => .unknown hn p he
  swap
  · exact .last (r := .error e') fun last hn => .released hn p he _ answer e'
  refine Act.emits_bind ((exchange_emits hw n p).mono ?_)
  rintro t r (g | ⟨⟨hd, o, answer, e⟩ | ⟨hd, o, e⟩ | ⟨hd, o, hn⟩⟩)
  · refine Act.emits_bind ((finish_emits hw p _ _ _ _).mono ?_)
    rintro t r rfl
    have hd : (if g.inputTokens.isSome ∧ g.outputTokens.isSome then Disposition.settledActual
        else .settledConservative).Settled := by
      split_ifs
      · exact Or.inl rfl
      · exact Or.inr rfl
    cases r with
    | error e =>
      exact .last (r := .error e) fun last hn =>
        .settled hn p hd _ _ _ fun g' hg' => absurd hg' (by simp)
    | ok u =>
      exact Act.emits_pure (.last (r := .ok g) fun last hn =>
        .settled hn p hd _ _ _ fun _ _ => rfl)
  · exact .last (r := .error e) fun last hn =>
      .settled hn p hd _ _ _ fun g hg => absurd hg (by simp)
  · exact Act.emits_throw (.last (r := .error (.adapter e)) fun last hn =>
      .settled hn p hd _ _ _ fun g hg => absurd hg (by simp))
  · exact Act.emits_pure (.retry p hd o hn)

/-- The loop from an attempt within the limit never runs out of attempts. -/
theorem attemptLoop_emits (hw : w.controller = some c) (k n : ℕ) (hk : n + k = a.maxRetries + 1) :
    (attemptLoop a w (List.range' n (k + 1))).Emits (ProtocolWord (a.maxRetries + 1) n) := by
  induction k generalizing n with
  | zero =>
    refine Act.emits_bind ((attemptOnce_emits hw n).mono ?_)
    rintro t r (⟨h⟩ | ⟨p, hd, o, hn⟩)
    · rename_i r
      cases r with
      | error e => exact h _ (by omega)
      | ok g => exact Act.emits_pure (by simpa using h (a.maxRetries + 1) (by omega))
    · omega
  | succ k ih =>
    refine Act.emits_bind ((attemptOnce_emits hw n).mono ?_)
    rintro t r (⟨h⟩ | ⟨p, hd, o, hn⟩)
    · rename_i r
      cases r with
      | error e => exact h _ (by omega)
      | ok g => exact Act.emits_pure (by simpa using h (a.maxRetries + 1) (by omega))
    · exact (ih (n + 1) (by omega)).mono fun t r h => .next p hd o h

theorem firstProviderAttempt_cases (hw : w.controller = some c)
    (context : Option AttemptContext) :
    (∃ e, firstProviderAttempt a w context = .error e) ∨
      ∃ ctx, context = some ctx ∧ 1 ≤ ctx.nextProviderAttempt ∧
        ctx.nextProviderAttempt ≤ a.maxRetries + 1 ∧
        firstProviderAttempt a w context = .ok ctx.nextProviderAttempt := by
  cases context with
  | none => exact Or.inl ⟨.other "ValueError", by simp only [firstProviderAttempt, hw]⟩
  | some ctx =>
    simp only [firstProviderAttempt, hw]
    split_ifs with hfirst
    · exact Or.inr ⟨ctx, rfl, hfirst.1, hfirst.2, rfl⟩
    · exact Or.inl ⟨_, rfl⟩

/-- `generate` before its loop: it raises without a call, or takes the context's
next attempt, which is within the limit. -/
theorem generate_emits (hw : w.controller = some c) (context : Option AttemptContext) :
    (generate a w context).Emits fun t r =>
      (t = [] ∧ ∃ e, r = .error e) ∨
      ∃ ctx, context = some ctx ∧ 1 ≤ ctx.nextProviderAttempt ∧
        ctx.nextProviderAttempt ≤ a.maxRetries + 1 ∧
        ProtocolWord (a.maxRetries + 1) ctx.nextProviderAttempt t r := by
  rw [generate]
  split_ifs
  · exact Act.emits_bind (Act.emits_throw (Or.inl ⟨rfl, _, rfl⟩))
  simp only
  cases a.buildPayload with
  | error e => exact Act.emits_bind (Act.emits_throw (Or.inl ⟨rfl, _, rfl⟩))
  | ok u =>
    refine Act.emits_bind (Act.emits_lift ?_)
    rcases firstProviderAttempt_cases hw context with ⟨e, he⟩ | ⟨ctx, rfl, hone, hle, hfirst⟩
    · rw [he]
      exact Or.inl ⟨rfl, e, rfl⟩
    · rw [hfirst]
      obtain ⟨k, hk⟩ := Nat.exists_eq_add_of_le hle
      have hrange : a.maxRetries + 2 - ctx.nextProviderAttempt = k + 1 := by omega
      simp only [hrange]
      exact (attemptLoop_emits hw k _ hk.symm).mono fun t r h => Or.inr ⟨ctx, rfl, hone, hle, h⟩

/-- **Attempt protocol.** Whatever the controller and the Provider do, a `generate`
with a controller raises without a call, or its calls are a word of the protocol
from the next attempt of its context on, up to one more than the retries. -/
theorem generate_follows_protocol (a : Adapter σ) (w : AttemptWorld σ)
    (hw : w.controller.isSome = true) (context : Option AttemptContext) (history : CallHistory) :
    ((generate a w context history).1 = [] ∧
      ∃ e, (generate a w context history).2 = .error e) ∨
    ∃ ctx, context = some ctx ∧ 1 ≤ ctx.nextProviderAttempt ∧
      ctx.nextProviderAttempt ≤ a.maxRetries + 1 ∧
      ProtocolWord (a.maxRetries + 1) ctx.nextProviderAttempt
        (generate a w context history).1 (generate a w context history).2 := by
  obtain ⟨c, hc⟩ := Option.isSome_iff_exists.mp hw
  exact generate_emits hc context history

namespace Sample

/-- An adapter with two retries. -/
def adapter : Adapter Unit where
  maxRetries := 2
  apiKey := [1]
  keySource := "stored API key"
  buildPayload := .ok ()
  transportErrorLabel := "OpenAI-compatible"
  statusErrorType := statusErrorType
  sanitize := id
  safeResponseError _ _ := []
  buildGenerationResult _ _ _ := .error (.other "TypeError")
  parseSuccessResponse _ _ _ := .error (.other "TypeError")

/-- A controller that grants everything, and a Provider whose requests time out. -/
def timeouts : AttemptWorld Unit where
  controller := some ⟨fun _ n => .ok ⟨0, n⟩, fun _ _ => .ok (), fun _ _ _ _ _ _ => .ok ()⟩
  stream _ := .error (.transport .readTimeout [])
  sleep _ := .ok ()

end Sample

/-- From the second attempt on, two attempts are made, and each is settled. -/
theorem generate_follows_protocol_sample :
    (generate Sample.adapter Sample.timeouts (some ⟨2⟩) []).1.length = 8 ∧
      ProtocolWord 3 2 (generate Sample.adapter Sample.timeouts (some ⟨2⟩) []).1
        (generate Sample.adapter Sample.timeouts (some ⟨2⟩) []).2 := by
  have hlen : (generate Sample.adapter Sample.timeouts (some ⟨2⟩) []).1.length = 8 := rfl
  refine ⟨hlen, ?_⟩
  rcases generate_follows_protocol Sample.adapter Sample.timeouts rfl (some ⟨2⟩) [] with
    ⟨hnil, -⟩ | ⟨ctx, hctx, -, -, hword⟩
  · rw [hnil] at hlen
    exact absurd hlen (by decide)
  · obtain rfl := Option.some.inj hctx
    exact hword

end LLMBenchLab
