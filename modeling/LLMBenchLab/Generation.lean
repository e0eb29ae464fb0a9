import LLMBenchLab.Attempts
import LLMBenchLab.Effects
import LLMBenchLab.Streams

/-!
# Generation: the attempts of one `generate`

`OpenAICompatibleAdapter.generate` with the attempt helpers of `base.py`. One call
makes attempts in a row: each is reserved with the controller, marked as sent,
carried out over HTTP and finished. The controller and the Provider are the
environment: each of their answers may be a result or any exception, and may
depend on everything that went before.

The three adapters share this loop. Where they differ (status classes, reading of
a stream, building of a result) the loop takes the adapter's own function.
-/

namespace LLMBenchLab

open Framing (Bytes)
open Effects (Act)

/-! ## Exceptions -/

/-- `httpx.TransportError` by the classes the adapter tells apart. -/
inductive TransportFailure where
  | connectTimeout | readTimeout | writeTimeout | poolTimeout | other
  deriving DecidableEq, Repr

/-- What an awaited call can raise, by the handlers of `generate`. -/
inductive Exn where
  | cancelled
  | providerAttemptStateUnknown
  | responseBodyTooLarge (limit statusCode : ℕ)
  | transport (failure : TransportFailure) (message : Text.Str)
  | adapter (e : AdapterError)
  /-- Any other exception, by the name of its class. -/
  | other (name : String)
  deriving DecidableEq, Repr

def StreamError.exn : StreamError → Exn
  | .responseBodyTooLarge limit statusCode => .responseBodyTooLarge limit statusCode
  | .adapter e => .adapter e

/-- `_transport_error_type`. -/
def TransportFailure.errorType : TransportFailure → ErrorType
  | .connectTimeout => .connectTimeout
  | .readTimeout => .readTimeout
  | .writeTimeout => .networkTimeout
  | .poolTimeout => .networkTimeout
  | .other => .networkError

/-- `RETRYABLE_PROVIDER_STATUS_CODES`. -/
def retryableProviderStatusCodes : List ℕ := [408, 429, 500, 502, 503, 504]

/-- `_status_error_type`, with whether the error may be retried. -/
def statusErrorType (statusCode : ℕ) : ErrorType × Bool :=
  if statusCode = 401 ∨ statusCode = 403 then (.authenticationError, false)
  else if statusCode = 429 then (.rateLimited, true)
  else if 500 ≤ statusCode ∧ statusCode ≤ 599 then
    (.provider5xx, statusCode ∈ retryableProviderStatusCodes)
  else if 400 ≤ statusCode ∧ statusCode ≤ 499 then
    (.provider4xx, statusCode ∈ retryableProviderStatusCodes)
  else (.providerHttpError, false)

/-- `_status_error_type` of the Messages adapter. -/
def messagesStatusErrorType (statusCode : ℕ) : ErrorType × Bool :=
  if statusCode = 529 then (.provider5xx, true) else statusErrorType statusCode

/-- `_HTTP_ADAPTER_ERROR_TYPES`. -/
def ErrorType.http : ErrorType → Bool
  | .authenticationError | .rateLimited | .provider5xx | .provider4xx | .providerHttpError => true
  | _ => false

/-! ## The adapter and its environment -/

/-- `ModelGenerationResult`. -/
structure ModelGenerationResult where
  text : Text.Str
  inputTokens : Option ℕ
  outputTokens : Option ℕ
  providerRequestId : Option Text.Str
  attempts : ℕ
  finishReason : Option Text.Str
  returnedModel : Option Text.Str
  systemFingerprint : Option Text.Str
  deriving DecidableEq, Repr

/-- A response whose head has arrived; reading its body can still fail. `σ` is what
the stream of the adapter comes to. -/
structure Reply (σ : Type) where
  statusCode : ℕ
  contentEncoding : Option String
  isEventStream : Bool
  readResponseBody : ℕ → Except Exn Bytes
  consumeSseResponse : ℕ → Except Exn σ
  /-- Leaving the response's context. -/
  close : Except Exn Unit

/-- An adapter: its retry limit, its key, and what its class has of its own. -/
structure Adapter (σ : Type) where
  maxRetries : ℕ
  apiKey : Text.Str
  /-- The name of the key's source in the error for a missing key. -/
  keySource : String
  buildPayload : Except AdapterError Unit
  transportErrorLabel : String
  statusErrorType : ℕ → ErrorType × Bool
  /-- `sanitize_error_message` with the adapter's key. -/
  sanitize : Text.Str → Text.Str
  safeResponseError : Reply σ → Bytes → Text.Str
  buildGenerationResult : Reply σ → σ → ℕ → Except Exn ModelGenerationResult
  parseSuccessResponse : Reply σ → Bytes → ℕ → Except Exn ModelGenerationResult

/-- One call of `generate` to its environment, with the answer. -/
inductive AttemptCall where
  | reserve (providerAttempt : ℕ) (answer : Except Exn Permit)
  | markSendStarted (permit : Permit) (answer : Except Exn Unit)
  /-- The HTTP request is started. -/
  | request (permit : Option Permit)
  | finish (permit : Permit) (disposition : Disposition) (outcome : Outcome)
      (answer : Except Exn Unit)

abbrev CallHistory := List AttemptCall

/-- `ProviderAttemptController`: any answers, from the history so far. -/
structure Controller where
  reserve : CallHistory → ℕ → Except Exn Permit
  markSendStarted : CallHistory → Permit → Except Exn Unit
  finish : CallHistory → Permit → Disposition → Outcome → Option ℕ → Option ℕ → Except Exn Unit

/-- Controller, Provider and clock. -/
structure AttemptWorld (σ : Type) where
  controller : Option Controller
  stream : CallHistory → Except Exn (Reply σ)
  sleep : CallHistory → Except Exn Unit

/-- The part of `ProviderAttemptContext` that `generate` itself reads. -/
structure AttemptContext where
  nextProviderAttempt : ℕ

variable {σ : Type} (a : Adapter σ) (w : AttemptWorld σ)

/-! ## The helpers of `base.py` -/

/-- `_reserve_provider_attempt`. -/
def reserveProviderAttempt (providerAttempt : ℕ) : Act AttemptCall Exn (Option Permit) :=
  match w.controller with
  | none => pure none
  | some c => do
    let permit ← Act.call (.reserve providerAttempt) fun h => c.reserve h providerAttempt
    pure (some permit)

/-- `_mark_provider_attempt_send_started`; `assert permit is not None` holds by the
type of `reserve`. -/
def markProviderAttemptSendStarted (permit : Option Permit) : Act AttemptCall Exn Unit :=
  match w.controller, permit with
  | some c, some p => Act.call (.markSendStarted p) fun h => c.markSendStarted h p
  | some _, none => throw (.other "AssertionError")
  | none, _ => pure ()

/-- `_finish_provider_attempt`. -/
def finishProviderAttempt (permit : Option Permit) (disposition : Disposition) (outcome : Outcome)
    (inputTokens outputTokens : Option ℕ) : Act AttemptCall Exn Unit :=
  match w.controller, permit with
  | some c, some p =>
    Act.call (.finish p disposition outcome) fun h =>
      c.finish h p disposition outcome inputTokens outputTokens
  | some _, none => throw (.other "AssertionError")
  | none, _ => pure ()

/-- `_finish_provider_attempt_after_cancellation`. The shielded task has made its
call by the time anything can wake the waiting coroutine, since the loop runs
its first step before any later callback; a failure, a second cancellation or
the timeout only makes the settlement unconfirmed. -/
def finishProviderAttemptAfterCancellation (permit : Option Permit) (disposition : Disposition)
    (outcome : Outcome) : Act AttemptCall Exn Bool :=
  try do
    finishProviderAttempt w permit disposition outcome none none
    pure true
  catch _ => pure false

/-! ## One attempt -/

/-- `not 200 <= status_code < 300`. -/
def Reply.failed (reply : Reply σ) : Bool := ¬ (200 ≤ reply.statusCode ∧ reply.statusCode < 300)

def Reply.identityEncoded (reply : Reply σ) : Bool :=
  let encoding := ((reply.contentEncoding.getD "identity").trimAscii.toString).toLower
  encoding = "" ∨ encoding = "identity"

def Adapter.error (errorType : ErrorType) (message : Text.Str) (statusCode attempt : ℕ)
    (retryable : Bool) : Exn :=
  .adapter {
    errorType
    errorMessage := message
    retryable
    statusCode := safeStatusCode statusCode a.apiKey
    attempts := attempt }

def maxChatErrorResponseBytes : ℕ := 64 * 1024

/-- The body of the response: the events of a stream, or bytes. -/
def Adapter.readReply (reply : Reply σ) (attempt : ℕ) : Except Exn (σ ⊕ Bytes) :=
  if ¬ reply.identityEncoded then
    .error (a.error .unsupportedProviderResponseEncoding
      (Text.ofString
        "Upstream returned a compressed response despite the identity-only request.")
      reply.statusCode attempt false)
  else if reply.failed then (reply.readResponseBody maxChatErrorResponseBytes).map .inr
  else if reply.isEventStream then (reply.consumeSseResponse attempt).map .inl
  else (reply.readResponseBody maxChatSuccessResponseBytes).map .inr

/-- The `try` block from the response's head on. -/
def Adapter.resultOf (reply : Reply σ) (attempt : ℕ) : Except Exn ModelGenerationResult := do
  let read := a.readReply reply attempt
  reply.close
  let content ← read
  match content with
  | .inr body =>
    if reply.failed then
      let status := a.statusErrorType reply.statusCode
      .error (a.error status.1
        (a.sanitize (Text.ofString "Upstream returned HTTP " ++
          Text.ofString (toString reply.statusCode) ++ Text.ofString ": " ++
          a.safeResponseError reply body)) reply.statusCode attempt status.2)
    else a.parseSuccessResponse reply body attempt
  | .inl stream => a.buildGenerationResult reply stream attempt

/-- How the `try` block of an attempt leaves it: with a result, with an error to be
raised below the handlers, or with `continue`. -/
inductive AttemptEnd where
  | result (r : ModelGenerationResult)
  | terminal (e : AdapterError)
  | retry

/-- `_backoff`; a delay of zero does not sleep, which only takes answers away. -/
def backoff : Act AttemptCall Exn Unit := Act.ask w.sleep

/-- `_mark_provider_attempt_send_started` with its handlers: an unknown or cancelled
send start is left to reconciliation, any other failure releases the permit. -/
def markOrRelease (permit : Option Permit) : Act AttemptCall Exn Unit :=
  try markProviderAttemptSendStarted w permit
  catch
    | .cancelled => throw .cancelled
    | .providerAttemptStateUnknown => throw .providerAttemptStateUnknown
    | e => do
      finishProviderAttempt w permit .releasedPreSend .markSendFailed none none
      throw e

/-- The handlers of the HTTP exchange, in the order of the source. -/
def handleFailure (attempt : ℕ) (permit : Option Permit) : Exn → Act AttemptCall Exn AttemptEnd
  | .cancelled => do
    let _ ← finishProviderAttemptAfterCancellation w permit .settledConservative .cancelled
    throw .cancelled
  | .responseBodyTooLarge limit statusCode => do
    finishProviderAttempt w permit .settledConservative .providerResponseError none none
    pure (.terminal {
      errorType := .providerResponseTooLarge
      errorMessage := a.sanitize (Text.ofString "Upstream response exceeded the " ++
        Text.ofString (toString limit) ++ Text.ofString "-byte safety limit.")
      statusCode := safeStatusCode statusCode a.apiKey
      attempts := attempt })
  | .transport failure message => do
    finishProviderAttempt w permit .settledConservative .transportError none none
    if attempt ≤ a.maxRetries then
      backoff w
      pure .retry
    else
      pure (.terminal {
        errorType := failure.errorType
        errorMessage := Text.ofString a.transportErrorLabel ++ Text.ofString " request failed: " ++
          a.sanitize message
        retryable := true
        attempts := attempt })
  | .adapter e => do
    finishProviderAttempt w permit .settledConservative
      (if e.errorType.http then .httpError else .providerResponseError) none none
    if e.retryable ∧ attempt ≤ a.maxRetries then
      backoff w
      pure .retry
    else throw (.adapter e)
  | e => do
    finishProviderAttempt w permit .settledConservative .unexpectedError none none
    throw e

/-- The HTTP exchange. -/
def exchange (attempt : ℕ) (permit : Option Permit) : Act AttemptCall Exn AttemptEnd :=
  try do
    let reply ← Act.call (fun _ => .request permit) w.stream
    let result ← Act.lift (a.resultOf reply attempt)
    pure (.result result)
  catch e => handleFailure a w attempt permit e

/-- The body of the loop; none is `continue`. -/
def attemptOnce (attempt : ℕ) : Act AttemptCall Exn (Option ModelGenerationResult) := do
  let permit ← reserveProviderAttempt w attempt
  markOrRelease w permit
  match ← exchange a w attempt permit with
  | .retry => pure none
  | .terminal e => throw (.adapter e)
  | .result result =>
    let usageComplete := result.inputTokens.isSome ∧ result.outputTokens.isSome
    finishProviderAttempt w permit
      (if usageComplete then .settledActual else .settledConservative)
      (if usageComplete then .succeeded else .usageIncomplete)
      result.inputTokens result.outputTokens
    pure (some result)

/-- `for attempt in range(first_attempt, max_retries + 2)`. -/
def attemptLoop : List ℕ → Act AttemptCall Exn ModelGenerationResult
  | [] => throw (.other "AssertionError")
  | attempt :: attempts => do
    match ← attemptOnce a w attempt with
    | some result => pure result
    | none => attemptLoop attempts

/-- `_first_provider_attempt`. -/
def firstProviderAttempt (context : Option AttemptContext) : Except Exn ℕ :=
  match w.controller, context with
  | none, none => .ok 1
  | none, some _ => .error (.other "ValueError")
  | some _, none => .error (.other "ValueError")
  | some _, some c =>
    if 1 ≤ c.nextProviderAttempt ∧ c.nextProviderAttempt ≤ a.maxRetries + 1 then
      .ok c.nextProviderAttempt
    else .error (.other "ValueError")

/-- `generate`. -/
def generate (context : Option AttemptContext) : Act AttemptCall Exn ModelGenerationResult := do
  if a.apiKey = [] then
    throw (.adapter {
      errorType := .missingApiKey
      errorMessage := Text.ofString a.keySource ++ Text.ofString " is not set." })
  match a.buildPayload with
  | .error e => throw (.adapter e)
  | .ok _ => pure ()
  let first ← Act.lift (firstProviderAttempt a w context)
  attemptLoop a w (List.range' first (a.maxRetries + 2 - first))

end LLMBenchLab
