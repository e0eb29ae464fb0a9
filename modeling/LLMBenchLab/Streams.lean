import LLMBenchLab.Framing
import LLMBenchLab.Text

/-!
# Server-sent events

`_consume_sse_response` and `_consume_typed_sse`: both read a response in chunks,
take its lines off a buffer and hand the data lines of each event to an
accumulator. The typed one also reads the event's name. The accumulator is any
state with `consume_event` and `done`; the Chat Completions one and the two typed
ones are cases of it.

The state keeps two histories that the code has no use for: the lines taken in,
and the events handed on.
-/

namespace LLMBenchLab

open Framing (Bytes Line splitLines)

/-! ## Errors and accumulators -/

/-- The error types of the adapters. -/
inductive ErrorType where
  | missingApiKey
  | invalidRequest
  | unsupportedProviderResponseEncoding
  | authenticationError
  | rateLimited
  | provider5xx
  | provider4xx
  | providerHttpError
  | connectTimeout
  | readTimeout
  | networkTimeout
  | networkError
  | providerResponseTooLarge
  | invalidProviderStream
  | incompleteProviderStream
  | providerStreamError
  | invalidProviderResponse
  | outputTruncated
  | emptyResponse
  deriving DecidableEq, Repr

/-- `AdapterError`. -/
structure AdapterError where
  errorType : ErrorType
  errorMessage : Text.Str
  retryable : Bool := false
  statusCode : Option ℕ := none
  attempts : ℕ := 1
  deriving DecidableEq, Repr

/-- `_safe_status_code`: an all-digit credential must not show in the status. -/
def safeStatusCode (statusCode : ℕ) (secret : Text.Str) : Option ℕ :=
  if secret ≠ [] ∧ secret <:+: Text.ofString (toString statusCode) then none else some statusCode

def maxChatSuccessResponseBytes : ℕ := 4 * 1024 * 1024

def maxChatStreamWireBytes : ℕ := 64 * 1024 * 1024

def maxChatStreamEventBytes : ℕ := 1024 * 1024

/-- What reading a response can raise: `_ResponseBodyTooLarge`, or an error for
the caller. -/
inductive StreamError where
  | responseBodyTooLarge (limit statusCode : ℕ)
  | adapter (e : AdapterError)
  deriving DecidableEq, Repr

/-- The request-local state of one response: `consume_event` and `done`. A new
one is not done. -/
structure Accumulator (α : Type) where
  new : α
  consumeEvent : α → Bytes → Option Text.Str → Except StreamError α
  done : α → Bool
  new_done : done new = false

/-- The two framings: the Chat Completions one has no event names. -/
structure Framed where
  named : Bool
  incompleteMessage : String
  deriving DecidableEq, Repr

/-- `_consume_sse_response` of the Chat Completions adapter. -/
def Framed.chat : Framed := ⟨false, "Upstream SSE response ended before the [DONE] marker."⟩

/-- `_consume_typed_sse`. -/
def Framed.typed (terminalEvent : String) : Framed :=
  ⟨true, "Upstream SSE response ended before the " ++ terminalEvent ++ " event."⟩

/-- What the readers use of a response and of the call. -/
structure Request where
  statusCode : ℕ
  attempts : ℕ
  apiKey : Text.Str
  /-- The `content-length` header, where `int` can read it. -/
  declaredLength : Option ℤ

def Request.error (q : Request) (errorType : ErrorType) (message : String) : StreamError :=
  .adapter {
    errorType
    errorMessage := Text.ofString message
    statusCode := safeStatusCode q.statusCode q.apiKey
    attempts := q.attempts }

/-- The body: buffered by the transport, or an iteration over raw chunks. -/
inductive Body where
  | buffered (content : Bytes)
  | streamed (chunks : List Bytes)

def Body.chunks : Body → List Bytes
  | .buffered content => [content]
  | .streamed chunks => chunks

def Body.bytes (body : Body) : Bytes := body.chunks.flatten

/-! ## One line -/

/-- A data event: the joined data lines, and the name where the framing has one. -/
structure Event where
  data : Bytes
  name : Option Text.Str
  deriving DecidableEq, Repr

structure Reading (α : Type) where
  accumulator : α
  dataLines : List Bytes
  eventName : Option Text.Str
  eventBytes : ℕ
  firstLine : Bool
  /-- History: the lines taken in so far. -/
  lines : List Bytes
  /-- History: the events handed to the accumulator so far. -/
  passed : List Event

/-- A failed reading: the error, with the lines taken in before it and the events
handed on. -/
structure Failure where
  error : StreamError
  lines : List Bytes
  passed : List Event
  deriving DecidableEq, Repr

/-- A reading that came to its end. -/
structure Decoded (α : Type) where
  accumulator : α
  lines : List Bytes
  passed : List Event

variable {α : Type}

def Reading.fail (s : Reading α) (error : StreamError) : Failure := ⟨error, s.lines, s.passed⟩

def Reading.start (accumulator : α) : Reading α where
  accumulator
  dataLines := []
  eventName := none
  eventBytes := 0
  firstLine := true
  lines := []
  passed := []

/-- `b"\n".join`. -/
def joinLines (lines : List Bytes) : Bytes := [Framing.LF].intercalate lines

/-- `line.partition(b":")`: the field, and the value where there is a separator,
less one leading blank. -/
def fieldOf (line : Bytes) : Bytes × Option Bytes :=
  match line.dropWhile (· ≠ 58) with
  | [] => (line, none)
  | _ :: value => (line.takeWhile (· ≠ 58), some (if value.head? = some 32 then value.tail else value))

def bom : Bytes := [0xef, 0xbb, 0xbf]

def stripBom (line : Bytes) : Bytes := if bom <+: line then line.drop 3 else line

def dataField : Bytes := [100, 97, 116, 97]

def eventField : Bytes := [101, 118, 101, 110, 116]

variable (f : Framed) (A : Accumulator α) (q : Request)

/-- `dispatch_event`: a block without data lines is no event. -/
def dispatchEvent (s : Reading α) : Except Failure (Reading α) :=
  if s.dataLines = [] then .ok { s with eventName := none }
  else
    let event : Event := ⟨joinLines s.dataLines, s.eventName⟩
    match A.consumeEvent s.accumulator event.data event.name with
    | .error e => .error ⟨e, s.lines, s.passed ++ [event]⟩
    | .ok accumulator =>
      .ok { s with accumulator, dataLines := [], eventName := none, passed := s.passed ++ [event] }

/-- The fields of a line that is no comment. -/
def processField (s : Reading α) (line : Bytes) : Except Failure (Reading α) :=
  let field := fieldOf line
  if field.1 = dataField then .ok { s with dataLines := s.dataLines ++ [field.2.getD []] }
  else if f.named ∧ field.1 = eventField then
    match Text.decodeUtf8 (field.2.getD []) with
    | none =>
      .error (s.fail (q.error .invalidProviderStream "Upstream SSE event name was not valid UTF-8."))
    | some name => .ok { s with eventName := if name = [] then none else some name }
  else .ok s

/-- `process_line` after the byte order mark of the first line is gone; `size` is
the length of the raw line. -/
def processText (s : Reading α) (size : ℕ) (line : Bytes) : Except Failure (Reading α) :=
  if line = [] then
    match dispatchEvent A s with
    | .error e => .error e
    | .ok s' => .ok { s' with eventBytes := 0 }
  else if s.eventBytes + (size + 1) > maxChatStreamEventBytes then
    .error (s.fail (.responseBodyTooLarge maxChatStreamEventBytes q.statusCode))
  else
    let s := { s with eventBytes := s.eventBytes + (size + 1) }
    if line.head? = some 58 then .ok s else processField f q s line

/-- The first line loses its byte order mark. -/
def Reading.textOf (s : Reading α) (raw : Bytes) : Bytes :=
  if s.firstLine then stripBom raw else raw

/-- `process_line`. -/
def processLine (s : Reading α) (raw : Bytes) : Except Failure (Reading α) :=
  match processText f A q { s with firstLine := false } raw.length (s.textOf raw) with
  | .error e => .error e
  | .ok s' => .ok { s' with lines := s'.lines ++ [s.textOf raw] }

/-! ## Chunks, and the whole response -/

/-- The end of a stream that is not done: what is left of the data is an event
too. -/
def endOfStream (s : Reading α) : Except Failure (Decoded α) :=
  match dispatchEvent A s with
  | .error e => .error e
  | .ok s' =>
    if A.done s'.accumulator then .ok ⟨s'.accumulator, s'.lines, s'.passed⟩
    else .error (s'.fail (q.error .incompleteProviderStream f.incompleteMessage))

/-- The line reader of a response. -/
def sink : Framing.Sink (Reading α) Failure (Decoded α) where
  limit := maxChatStreamEventBytes
  size s := s.eventBytes
  done s := A.done s.accumulator
  line := processLine f A q
  tooLarge s := s.fail (.responseBodyTooLarge maxChatStreamEventBytes q.statusCode)
  result s := ⟨s.accumulator, s.lines, s.passed⟩
  close := endOfStream f A q

/-- `process_chunk`: the wire limit, then the lines of the chunk. -/
def processChunk (wireBytes : ℕ) (s : Reading α) (buffer chunk : Bytes) :
    Except Failure (Reading α × Bytes) :=
  if wireBytes + chunk.length > maxChatStreamWireBytes then
    .error (s.fail (.responseBodyTooLarge maxChatStreamWireBytes q.statusCode))
  else (sink f A q).feed s buffer chunk

def consumeChunks (wireBytes : ℕ) (s : Reading α) (buffer : Bytes) :
    List Bytes → Except Failure (Decoded α)
  | [] => (sink f A q).finish s buffer
  | chunk :: chunks =>
    match processChunk f A q wireBytes s buffer chunk with
    | .error e => .error e
    | .ok (s', behind) =>
      if A.done s'.accumulator then .ok ⟨s'.accumulator, s'.lines, s'.passed⟩
      else consumeChunks (wireBytes + chunk.length) s' behind chunks

def Request.declaredTooLarge (q : Request) : Prop :=
  ∃ n ∈ q.declaredLength, n > maxChatStreamWireBytes

instance : Decidable q.declaredTooLarge :=
  inferInstanceAs (Decidable (∃ n ∈ q.declaredLength, n > (maxChatStreamWireBytes : ℤ)))

/-- `_consume_sse_response` and `_consume_typed_sse`. -/
def consumeSse (body : Body) : Except Failure (Decoded α) :=
  if q.declaredTooLarge then
    .error ⟨.responseBodyTooLarge maxChatStreamWireBytes q.statusCode, [], []⟩
  else consumeChunks f A q 0 (.start A.new) [] body.chunks

end LLMBenchLab
