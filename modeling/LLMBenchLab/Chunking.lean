import LLMBenchLab.Streams

/-!
# Chunking of event streams

What a response means without chunks: the lines of the reference split, the
events between its blank lines, and the reader over those lines. Whatever the
chunks, the reader takes in a first part of those lines and hands on a first
part of those events. It ends as the split does on every chunking, but for one
kind of stream: there a blank line that ends with CR comes right after an event
of exactly `maxChatStreamEventBytes`, and the CR that waits in the buffer for
the next byte is counted as a byte too many.
-/

namespace LLMBenchLab

open Framing (Bytes Line splitLines)

variable {α : Type}

/-! ## The reference -/

/-- The lines of the reference split, the byte order mark of the first dropped. -/
def referenceLines (stream : Bytes) : List Bytes :=
  match (splitLines stream).map Line.text with
  | [] => []
  | line :: lines => stripBom line :: lines

/-- The value of a data line. -/
def dataOf (line : Bytes) : Option Bytes :=
  if line.head? = some 58 then none
  else if (fieldOf line).1 = dataField then some ((fieldOf line).2.getD [])
  else none

/-- The event of the data lines of a block, if it has any. -/
def eventOf (dataLines : List Bytes) : List Bytes :=
  if dataLines = [] then [] else [joinLines dataLines]

/-- The events of a stream: one for each block between blank lines that has data
lines, the last one up to the end of the stream. -/
def referenceEvents (lines : List Bytes) : List Bytes :=
  (lines.splitOnP (· = [])).flatMap fun block => eventOf (block.filterMap dataOf)

variable (f : Framed) (A : Accumulator α) (q : Request)

/-- The reader over the lines of the split. -/
def referenceReading (stream : Bytes) : Except Failure (Decoded α) :=
  if q.declaredTooLarge then
    .error ⟨.responseBodyTooLarge maxChatStreamWireBytes q.statusCode, [], []⟩
  else (sink f A q).consume (.start A.new) (splitLines stream)

/-- The lines a reading took in. -/
def linesOf : Except Failure (Decoded α) → List Bytes
  | .error e => e.lines
  | .ok d => d.lines

/-- The data of the events a reading handed to the accumulator. -/
def eventsOf : Except Failure (Decoded α) → List Bytes
  | .error e => e.passed.map Event.data
  | .ok d => d.passed.map Event.data

/-- The response is read, and a blank line that ends with CR is reached right
after an event that takes up the whole of its limit. -/
def FullBeforeBlank (stream : Bytes) : Prop :=
  ¬ q.declaredTooLarge ∧ (sink f A q).Tight (.start A.new) (splitLines stream)

/-! ## One line -/

variable {f A q} {s s' : Reading α} {e : Failure} {raw : Bytes}

theorem dispatchEvent_ok (h : dispatchEvent A s = .ok s') :
    s'.lines = s.lines ∧ s'.dataLines = [] ∧ s'.eventBytes = s.eventBytes ∧
      s'.firstLine = s.firstLine ∧
      s'.passed.map Event.data = s.passed.map Event.data ++ eventOf s.dataLines := by
  unfold dispatchEvent at h
  split at h
  · rename_i hd
    obtain rfl : { s with eventName := none } = s' := by simpa using h
    exact ⟨rfl, hd, rfl, rfl, by simp [eventOf, hd]⟩
  · rename_i hd
    simp only at h
    split at h
    · exact absurd h (by simp)
    · rename_i accumulator _
      have h := Except.ok.inj h
      subst h
      exact ⟨rfl, rfl, rfl, rfl, by simp [eventOf, hd]⟩

/-- A failed dispatch has handed its event on. -/
theorem dispatchEvent_error (h : dispatchEvent A s = .error e) :
    e.lines = s.lines ∧ (∃ event, e.passed = s.passed ++ [event]) ∧
      e.passed.map Event.data = s.passed.map Event.data ++ eventOf s.dataLines := by
  unfold dispatchEvent at h
  split at h
  · exact absurd h (by simp)
  · rename_i hd
    simp only at h
    split at h
    · have h := Except.error.inj h
      subst h
      exact ⟨rfl, ⟨_, rfl⟩, by simp [eventOf, hd]⟩
    · exact absurd h (by simp)

theorem processField_ok {line : Bytes} (hhead : line.head? ≠ some 58)
    (h : processField f q s line = .ok s') :
    s'.lines = s.lines ∧ s'.dataLines = s.dataLines ++ (dataOf line).toList ∧
      s'.eventBytes = s.eventBytes ∧ s'.firstLine = s.firstLine ∧ s'.passed = s.passed := by
  unfold processField at h
  simp only at h
  split_ifs at h with hdata hname
  · have h := Except.ok.inj h
    subst h
    exact ⟨rfl, by simp [dataOf, hhead, hdata], rfl, rfl, rfl⟩
  · split at h
    · exact absurd h (by simp)
    · have h := Except.ok.inj h
      subst h
      exact ⟨rfl, by simp [dataOf, hhead, hdata], rfl, rfl, rfl⟩
  · have h := Except.ok.inj h
    subst h
    exact ⟨rfl, by simp [dataOf, hhead, hdata], rfl, rfl, rfl⟩

theorem processField_error {line : Bytes} (h : processField f q s line = .error e) :
    e.lines = s.lines ∧ e.passed = s.passed := by
  unfold processField at h
  simp only at h
  split_ifs at h with hdata hname
  split at h
  · have h := Except.error.inj h
    subst h
    exact ⟨rfl, rfl⟩
  · exact absurd h (by simp)

/-- The events still to come, with the data lines that wait for their blank line. -/
def eventsFrom (pending : List Bytes) : List Bytes → List Bytes
  | [] => eventOf pending
  | line :: lines =>
    if line = [] then eventOf pending ++ eventsFrom [] lines
    else eventsFrom (pending ++ (dataOf line).toList) lines

theorem eventsFrom_eq (pending lines : List Bytes) :
    ∃ block blocks, lines.splitOnP (· = []) = block :: blocks ∧
      eventsFrom pending lines = eventOf (pending ++ block.filterMap dataOf) ++
        blocks.flatMap fun block => eventOf (block.filterMap dataOf) := by
  induction lines generalizing pending with
  | nil => exact ⟨[], [], by simp, by simp [eventsFrom]⟩
  | cons line lines ih =>
    rw [List.splitOnP_cons_eq_if_modifyHead]
    by_cases hline : line = []
    · obtain ⟨block, blocks, hsplit, hev⟩ := ih []
      refine ⟨[], block :: blocks, by simp [hline, hsplit], ?_⟩
      rw [eventsFrom, if_pos hline, hev]
      simp
    · obtain ⟨block, blocks, hsplit, hev⟩ := ih (pending ++ (dataOf line).toList)
      refine ⟨line :: block, blocks, by simp [hline, hsplit], ?_⟩
      rw [eventsFrom, if_neg hline, hev]
      cases hd : dataOf line with
      | none => simp [hd]
      | some v => simp [hd]

theorem eventsFrom_nil (lines : List Bytes) : eventsFrom [] lines = referenceEvents lines := by
  obtain ⟨block, blocks, hsplit, hev⟩ := eventsFrom_eq [] lines
  rw [hev, referenceEvents, hsplit, List.flatMap_cons, List.nil_append]

/-- A line taken in: its text joins the history, and the events handed on with
those to come stay the same. -/
theorem processLine_ok (h : processLine f A q s raw = .ok s') :
    s'.lines = s.lines ++ [s.textOf raw] ∧ s'.firstLine = false ∧
      (s.eventBytes ≤ maxChatStreamEventBytes → s'.eventBytes ≤ maxChatStreamEventBytes) ∧
      ∀ more, s'.passed.map Event.data ++ eventsFrom s'.dataLines more =
        s.passed.map Event.data ++ eventsFrom s.dataLines (s.textOf raw :: more) := by
  unfold processLine at h
  split at h
  · exact absurd h (by simp)
  rename_i t ht
  have h := Except.ok.inj h
  subst h
  unfold processText at ht
  split at ht
  · rename_i hblank
    split at ht
    · exact absurd ht (by simp)
    · rename_i u hu
      have ht := Except.ok.inj ht
      subst ht
      obtain ⟨hl, hd, -, hf, hp⟩ := dispatchEvent_ok hu
      refine ⟨by simp [hl], hf, fun _ => Nat.zero_le _, fun more => ?_⟩
      simp only [hp, hd, hblank, eventsFrom, if_true, List.append_assoc]
  · rename_i hblank
    split_ifs at ht with hsize hhead
    · have ht := Except.ok.inj ht
      subst ht
      refine ⟨rfl, rfl, fun _ => by simpa using hsize, fun more => ?_⟩
      simp [eventsFrom, hblank, dataOf, hhead]
    · obtain ⟨hl, hd, hb, hf, hp⟩ := processField_ok hhead ht
      refine ⟨by simp [hl], hf, fun _ => by rw [hb]; simpa using hsize, fun more => ?_⟩
      simp only [hp, hd, eventsFrom, if_neg hblank]

/-- A line that fails is not taken in; an event it has handed on is one of those
to come. -/
theorem processLine_error (h : processLine f A q s raw = .error e) (more : List Bytes) :
    e.lines = s.lines ∧ e.passed.map Event.data <+:
      s.passed.map Event.data ++ eventsFrom s.dataLines (s.textOf raw :: more) := by
  unfold processLine at h
  split at h
  swap
  · exact absurd h (by simp)
  rename_i e' ht
  obtain rfl := Except.error.inj h
  unfold processText at ht
  split at ht
  · rename_i hblank
    split at ht
    · rename_i u hu
      obtain rfl := Except.error.inj ht
      obtain ⟨hl, -, hp⟩ := dispatchEvent_error hu
      refine ⟨hl, ?_⟩
      rw [hp, eventsFrom, if_pos hblank, ← List.append_assoc]
      exact List.prefix_append _ _
    · exact absurd ht (by simp)
  · split_ifs at ht with hsize hhead
    · obtain rfl := Except.error.inj ht
      exact ⟨rfl, List.prefix_append _ _⟩
    · obtain ⟨hl, hp⟩ := processField_error ht
      rw [hp]
      exact ⟨hl, List.prefix_append _ _⟩

/-- A blank line only ever fails with an event handed on. -/
theorem processLine_blank (s : Reading α) :
    processLine f A q s [] ≠
      .error (s.fail (.responseBodyTooLarge maxChatStreamEventBytes q.statusCode)) := by
  have htext : s.textOf [] = [] := by
    unfold Reading.textOf stripBom
    split_ifs <;> rfl
  intro h
  unfold processLine processText at h
  rw [htext, if_pos rfl] at h
  split at h
  · rename_i e' ht
    split at ht
    · rename_i u hu
      obtain ⟨-, ⟨event, hp⟩, -⟩ := dispatchEvent_error hu
      rw [Except.error.inj ht, Except.error.inj h] at hp
      have hlen := congrArg List.length hp
      simp [Reading.fail] at hlen
    · exact absurd ht (by simp)
  · exact absurd h (by simp)

/-- A line beyond the limit is refused before anything of it is read. -/
theorem processLine_overflow (hfirst : s.firstLine = true → s.eventBytes = 0) (hraw : raw ≠ [])
    (hsize : maxChatStreamEventBytes < s.eventBytes + raw.length + 1) :
    processLine f A q s raw =
      .error (s.fail (.responseBodyTooLarge maxChatStreamEventBytes q.statusCode)) := by
  have htext : s.textOf raw ≠ [] := by
    unfold Reading.textOf stripBom
    split_ifs with hf hbom
    · -- a first line beyond the limit is longer than its byte order mark
      rw [hfirst hf] at hsize
      intro hdrop
      have hlen := congrArg List.length hdrop
      rw [List.length_drop, List.length_nil] at hlen
      unfold maxChatStreamEventBytes at hsize
      omega
    · exact hraw
    · exact hraw
  unfold processLine processText
  rw [if_neg htext, if_pos (by omega)]
  rfl

/-- Nothing is counted before the first line, and never more than the limit. -/
structure Reading.Counted (s : Reading α) : Prop where
  le : s.eventBytes ≤ maxChatStreamEventBytes
  first : s.firstLine = true → s.eventBytes = 0

theorem Reading.counted_start (a : α) : (Reading.start a).Counted := ⟨Nat.zero_le _, fun _ => rfl⟩

/-- The readers are lawful: the bound on the rest of a chunk and the bound on a
line are the same one, but for blank lines. -/
theorem sink_lawful (f : Framed) (A : Accumulator α) (q : Request) :
    (sink f A q).Lawful Reading.Counted (fun s => s.lines.length) (fun e => e.lines.length) where
  step {s s' line} hI h := by
    obtain ⟨-, hf, hle, -⟩ := processLine_ok h
    exact ⟨hle hI.le, fun hf' => absurd (hf.symm.trans hf') (by decide)⟩
  size_le hI := hI.le
  overflow hI hline hsize := processLine_overflow hI.first hline hsize
  blank {s} := processLine_blank s
  read_line {s s' line} h := by
    rw [(processLine_ok h).1, List.length_append, List.length_singleton]
  failed_line {s line e} h := congrArg List.length (processLine_error h []).1
  failed_close {s e} h := by
    change endOfStream f A q s = .error e at h
    unfold endOfStream at h
    split at h
    · rename_i e' he
      obtain rfl := Except.error.inj h
      exact congrArg List.length (dispatchEvent_error he).1
    · rename_i t ht
      split_ifs at h
      obtain rfl := Except.error.inj h
      exact congrArg List.length (dispatchEvent_ok ht).1
  failed_tooLarge _ := rfl

/-! ## Lines and events of a reading -/

/-- The lines still to come, as they are taken in. -/
def Reading.textsOf (s : Reading α) (lines : List Line) : List Bytes :=
  match lines.map Line.text with
  | [] => []
  | line :: lines => s.textOf line :: lines

theorem Reading.textsOf_read (hs : s.firstLine = false) (lines : List Line) :
    s.textsOf lines = lines.map Line.text := by
  unfold Reading.textsOf Reading.textOf
  cases lines with
  | nil => rfl
  | cons line lines => simp [hs]

theorem Reading.textsOf_cons (line : Line) (lines : List Line) :
    s.textsOf (line :: lines) = s.textOf line.text :: lines.map Line.text := rfl

/-- Lines that were read are all in the history, and so are their events. -/
theorem reads_history {t : Reading α} {lines : List Line} (h : (sink f A q).Reads s lines t)
    (more : List Line) :
    t.lines ++ t.textsOf more = s.lines ++ s.textsOf (lines ++ more) ∧
      t.passed.map Event.data ++ eventsFrom t.dataLines (t.textsOf more) =
        s.passed.map Event.data ++ eventsFrom s.dataLines (s.textsOf (lines ++ more)) := by
  induction h with
  | refl s => exact ⟨rfl, rfl⟩
  | @cons s s' t line lines hline _ _ ih =>
    obtain ⟨hl, hf, -, he⟩ := processLine_ok hline
    obtain ⟨ihl, ihe⟩ := ih
    rw [ihl, ihe, Reading.textsOf_read hf, List.cons_append, Reading.textsOf_cons, hl]
    exact ⟨by simp, he _⟩

/-- A reading over the split takes in a first part of its lines and hands on a
first part of its events. -/
theorem consume_history (s : Reading α) (lines : List Line) :
    linesOf ((sink f A q).consume s lines) <+: s.lines ++ s.textsOf lines ∧
      eventsOf ((sink f A q).consume s lines) <+:
        s.passed.map Event.data ++ eventsFrom s.dataLines (s.textsOf lines) := by
  induction lines generalizing s with
  | nil =>
    change linesOf (endOfStream f A q s) <+: s.lines ++ [] ∧
      eventsOf (endOfStream f A q s) <+: s.passed.map Event.data ++ eventOf s.dataLines
    rw [List.append_nil]
    cases hd : dispatchEvent A s with
    | error e =>
      obtain ⟨hl, -, hp⟩ := dispatchEvent_error hd
      rw [← hp, ← hl, endOfStream, hd]
      exact ⟨List.prefix_rfl, List.prefix_rfl⟩
    | ok s' =>
      obtain ⟨hl, -, -, -, hp⟩ := dispatchEvent_ok hd
      rw [← hp, ← hl, endOfStream, hd]
      simp only
      split_ifs
      · exact ⟨List.prefix_rfl, List.prefix_rfl⟩
      · exact ⟨List.prefix_rfl, List.prefix_rfl⟩
  | cons line lines ih =>
    rw [Framing.Sink.consume, Reading.textsOf_cons]
    cases hline : (sink f A q).line s line.text with
    | error e =>
      obtain ⟨hl, hp⟩ := processLine_error hline (lines.map Line.text)
      exact ⟨hl ▸ List.prefix_append _ _, hp⟩
    | ok s' =>
      obtain ⟨hl, hf, -, he⟩ := processLine_ok hline
      have hlines : s.lines ++ s.textOf line.text :: lines.map Line.text =
          s'.lines ++ s'.textsOf lines := by
        rw [hl, Reading.textsOf_read hf, List.append_assoc, List.singleton_append]
      rw [hlines, ← he, ← Reading.textsOf_read hf]
      simp only
      split_ifs
      · exact ⟨List.prefix_append _ _, List.prefix_append _ _⟩
      · exact ih s'

/-! ## Every chunking -/

/-- Below the wire limit the chunks are only counted. -/
theorem consumeChunks_eq (wire : ℕ) (s : Reading α) (buffer : Bytes) (chunks : List Bytes)
    (hwire : wire + chunks.flatten.length ≤ maxChatStreamWireBytes) :
    consumeChunks f A q wire s buffer chunks = (sink f A q).decode s buffer chunks := by
  induction chunks generalizing wire s buffer with
  | nil => rfl
  | cons chunk chunks ih =>
    rw [List.flatten_cons, List.length_append] at hwire
    rw [consumeChunks, Framing.Sink.decode, processChunk, if_neg (by omega)]
    cases (sink f A q).feed s buffer chunk with
    | error e => rfl
    | ok r =>
      obtain ⟨s', behind⟩ := r
      simp only [ih (wire + chunk.length) s' behind (by omega)]
      rfl

/-- **Chunking of event streams.** On a stream within the wire limit, any two
bodies that carry it are read alike and as the reference split says, exactly
when no blank line that ends with CR is reached right after an event that takes
up the whole of its limit. In any case the lines taken in are a first part of
the reference lines, and the events handed on a first part of the joined data
lines between their blank lines. -/
theorem sse_reading_follows_split (f : Framed) (A : Accumulator α) (q : Request) (stream : Bytes)
    (hwire : stream.length ≤ maxChatStreamWireBytes) :
    ((∀ body body' : Body, body.bytes = stream → body'.bytes = stream →
        consumeSse f A q body = consumeSse f A q body' ∧
          consumeSse f A q body = referenceReading f A q stream) ↔
      ¬ FullBeforeBlank f A q stream) ∧
    ∀ body : Body, body.bytes = stream →
      linesOf (consumeSse f A q body) <+: referenceLines stream ∧
        eventsOf (consumeSse f A q body) <+: referenceEvents (referenceLines stream) := by
  have law := sink_lawful f A q
  have hI := Reading.counted_start A.new
  have hnew : (sink f A q).done (.start A.new) = false := A.new_done
  have hdecode : ∀ body : Body, body.bytes = stream → ¬ q.declaredTooLarge →
      consumeSse f A q body = (sink f A q).decode (.start A.new) [] body.chunks := by
    intro body hb hd
    rw [consumeSse, if_neg hd, consumeChunks_eq]
    change 0 + body.bytes.length ≤ _
    rw [hb]
    omega
  by_cases hd : q.declaredTooLarge
  · -- both the reader and the reference stop at the header
    have hc : ∀ body, consumeSse f A q body = referenceReading f A q stream := by
      intro body
      rw [consumeSse, if_pos hd, referenceReading, if_pos hd]
    refine ⟨⟨fun _ h => h.1 hd, fun _ body body' _ _ => ⟨(hc body).trans (hc body').symm, hc body⟩⟩,
      fun body _ => ?_⟩
    rw [consumeSse, if_pos hd]
    exact ⟨List.nil_prefix, List.nil_prefix⟩
  · have href : referenceReading f A q stream =
        (sink f A q).consume (.start A.new) (splitLines stream) := by
      rw [referenceReading, if_neg hd]
    have hiff := law.decode_eq_iff hI hnew stream
    refine ⟨⟨fun hall h => ?_, fun hfull body body' hb hb' => ?_⟩, fun body hb => ?_⟩
    · refine hiff.mp (fun chunks hchunks => ?_) h.2
      have hbody := (hall (.streamed chunks) (.streamed chunks) hchunks hchunks).2
      rw [hdecode (.streamed chunks) hchunks hd, href] at hbody
      exact hbody
    · have htight := hiff.mpr fun h => hfull ⟨hd, h⟩
      rw [hdecode body hb hd, hdecode body' hb' hd, href, htight _ hb, htight _ hb']
      exact ⟨rfl, rfl⟩
    · have hlines : referenceLines stream =
          (Reading.start A.new).lines ++ (Reading.start A.new).textsOf (splitLines stream) := rfl
      have hevents : referenceEvents (referenceLines stream) =
          (Reading.start A.new).passed.map Event.data ++ eventsFrom (Reading.start A.new).dataLines
            ((Reading.start A.new).textsOf (splitLines stream)) := (eventsFrom_nil _).symm
      rw [hdecode body hb hd, hevents, hlines]
      have hcases := law.decode_cases hI hnew body.chunks (b := [])
      rw [List.nil_append, show body.chunks.flatten = stream from hb] at hcases
      rcases hcases with hc | ⟨front, t, more, hsplit, hr, -, hc⟩
      · rw [hc]
        exact consume_history _ _
      · obtain ⟨hl, he⟩ := reads_history hr (⟨[], true⟩ :: more)
        rw [hc, hsplit, ← hl, ← he]
        exact ⟨List.prefix_append _ _, List.prefix_append _ _⟩

/-- An event of one data line, cut anywhere. -/
theorem sse_reading_follows_split_sample :
    ([100, 97, 116, 97, 58, 32, 120, 13, 10, 13, 10] : Bytes).length ≤ maxChatStreamWireBytes ∧
      ∀ body : Body, body.bytes = [100, 97, 116, 97, 58, 32, 120, 13, 10, 13, 10] →
        eventsOf (consumeSse .chat
          (⟨(), fun _ _ _ => .ok (), fun _ => false, rfl⟩ : Accumulator Unit)
          ⟨200, 1, [], none⟩ body) <+: [[120]] :=
  ⟨by decide, fun body hbody =>
    ((sse_reading_follows_split .chat ⟨(), fun _ _ _ => .ok (), fun _ => false, rfl⟩
      ⟨200, 1, [], none⟩ _ (by decide)).2 body hbody).2⟩

/-! ## A full event before a blank line -/

/-- A comment that with its line end takes up the whole of the event limit. -/
structure FullComment (text : Bytes) : Prop where
  colon : text.head? = some 58
  length : text.length + 1 = maxChatStreamEventBytes
  clean : ∀ c ∈ text, c ≠ Framing.LF ∧ c ≠ Framing.CR

theorem processLine_comment {text : Bytes} (htext : s.textOf text = text)
    (hcolon : text.head? = some 58)
    (hsize : s.eventBytes + (text.length + 1) ≤ maxChatStreamEventBytes) :
    processLine f A q s text = .ok
      { s with
        eventBytes := s.eventBytes + (text.length + 1), firstLine := false
        lines := s.lines ++ [text] } := by
  have hne : text ≠ [] := by
    rintro rfl
    exact absurd hcolon (by simp)
  unfold processLine processText
  rw [htext, if_neg hne, if_neg (by simpa using hsize)]
  simp only [hcolon, if_true]

/-- The state after a full comment: nothing but its bytes. -/
def afterComment (A : Accumulator α) (text : Bytes) : Reading α :=
  { Reading.start A.new with
    eventBytes := maxChatStreamEventBytes, firstLine := false, lines := [text] }

theorem FullComment.processLine {text : Bytes} (h : FullComment text) :
    processLine f A q (.start A.new) text = .ok (afterComment A text) := by
  have htext : (Reading.start A.new).textOf text = text := by
    change stripBom text = text
    refine if_neg ?_
    rintro ⟨more, hmore⟩
    have hcolon := h.colon
    rw [← hmore] at hcolon
    exact absurd (Option.some.inj hcolon) (by decide)
  have hsize : (Reading.start A.new).eventBytes + (text.length + 1) = maxChatStreamEventBytes := by
    rw [h.length]
    exact Nat.zero_add _
  rw [processLine_comment htext h.colon hsize.le, hsize]
  rfl

/-- The comment, then a blank line that ends with CR LF: cut between CR and LF
the stream is refused as too large. -/
theorem FullComment.cut {text : Bytes} (h : FullComment text) (f : Framed) (A : Accumulator α)
    {q : Request} (hq : ¬ q.declaredTooLarge) :
    consumeSse f A q (.streamed [text ++ [Framing.LF, Framing.CR], [Framing.LF]]) =
      .error ⟨.responseBodyTooLarge maxChatStreamEventBytes q.statusCode, [text], []⟩ := by
  have hlen := h.length
  have hdone : (sink f A q).done (afterComment A text) = false := A.new_done
  have hline : (sink f A q).line (.start A.new) text = .ok (afterComment A text) := h.processLine
  rw [consumeSse, if_neg hq, consumeChunks_eq]
  swap
  · simp only [Body.chunks, List.flatten_cons, List.flatten_nil, List.length_append,
      List.length_cons, List.length_nil]
    unfold maxChatStreamEventBytes at hlen
    unfold maxChatStreamWireBytes
    omega
  rw [Body.chunks, Framing.Sink.decode, Framing.Sink.feed, List.nil_append,
    Framing.Sink.drain_some (Framing.popLine_text false h.clean [Framing.CR]), hline]
  simp only [hdone, Bool.false_eq_true, if_false]
  rw [Framing.Sink.drain_none rfl]
  simp only [hdone, Bool.false_eq_true, if_false]
  have hsize : (sink f A q).size (afterComment A text) + [Framing.CR].length >
      (sink f A q).limit := Nat.lt_succ_self maxChatStreamEventBytes
  rw [if_pos hsize]
  rfl

/-- The same stream in one piece is only incomplete. -/
theorem FullComment.whole {text : Bytes} (h : FullComment text) (f : Framed) (A : Accumulator α)
    {q : Request} (hq : ¬ q.declaredTooLarge) :
    consumeSse f A q (.buffered (text ++ [Framing.LF, Framing.CR, Framing.LF])) =
      .error ⟨q.error .incompleteProviderStream f.incompleteMessage, [text, []], []⟩ := by
  have hlen := h.length
  have hdone : (sink f A q).done (afterComment A text) = false := A.new_done
  have hline : (sink f A q).line (.start A.new) text = .ok (afterComment A text) := h.processLine
  obtain ⟨t, ht, hlines, hpassed, hbytes, hdata, hacc⟩ :
      ∃ t, (sink f A q).line (afterComment A text) [] = .ok t ∧ t.lines = [text, []] ∧
        t.passed = [] ∧ t.eventBytes = 0 ∧ t.dataLines = [] ∧ t.accumulator = A.new :=
    ⟨_, rfl, rfl, rfl, rfl, rfl, rfl⟩
  have htdone : (sink f A q).done t = false := by
    change A.done t.accumulator = false
    rw [hacc, A.new_done]
  rw [consumeSse, if_neg hq, consumeChunks_eq]
  swap
  · simp only [Body.chunks, List.flatten_cons, List.flatten_nil, List.length_append,
      List.length_cons, List.length_nil]
    unfold maxChatStreamEventBytes at hlen
    unfold maxChatStreamWireBytes
    omega
  have hdrain : (sink f A q).drain false (.start A.new)
      (text ++ [Framing.LF, Framing.CR, Framing.LF]) = .ok (t, []) := by
    rw [Framing.Sink.drain_some (Framing.popLine_text false h.clean _), hline]
    simp only [hdone, Bool.false_eq_true, if_false]
    rw [Framing.Sink.drain_some (Framing.popLine_cr_cons false Framing.LF []), ht]
    simp only [htdone, Bool.false_eq_true, if_false, if_true]
    exact Framing.Sink.drain_none rfl
  have hsize : ¬ (sink f A q).size t + ([] : Bytes).length > (sink f A q).limit := by
    change ¬ t.eventBytes + 0 > maxChatStreamEventBytes
    rw [hbytes]
    exact Nat.not_lt_zero _
  rw [Body.chunks, Framing.Sink.decode, Framing.Sink.feed, List.nil_append, hdrain]
  simp only [htdone, Bool.false_eq_true, if_false, if_neg hsize]
  rw [Framing.Sink.decode, Framing.Sink.finish, Framing.Sink.drain_none rfl]
  simp only [htdone, Bool.false_eq_true, if_false]
  change endOfStream f A q t = _
  have hempty : dispatchEvent A t = .ok { t with eventName := none } := if_pos hdata
  unfold endOfStream
  rw [hempty]
  simp only [hacc, A.new_done, Bool.false_eq_true, if_false, Reading.fail, hlines, hpassed]

/-- The two readings of a full comment: the same bytes within the wire limit, and
different ends. -/
theorem FullComment.cut_ne_whole {text : Bytes} (h : FullComment text) :
    (Body.streamed [text ++ [Framing.LF, Framing.CR], [Framing.LF]]).bytes =
        (Body.buffered (text ++ [Framing.LF, Framing.CR, Framing.LF])).bytes ∧
      (text ++ [Framing.LF, Framing.CR, Framing.LF]).length ≤ maxChatStreamWireBytes ∧
      ∀ (f : Framed) (α : Type) (A : Accumulator α) (q : Request), ¬ q.declaredTooLarge →
        consumeSse f A q (.streamed [text ++ [Framing.LF, Framing.CR], [Framing.LF]]) ≠
          consumeSse f A q (.buffered (text ++ [Framing.LF, Framing.CR, Framing.LF])) := by
  refine ⟨?_, ?_, fun f α A q hq heq => ?_⟩
  · simp only [Body.bytes, Body.chunks, List.flatten_cons, List.flatten_nil, List.append_nil,
      List.append_assoc, List.cons_append, List.nil_append]
  · have hlen := h.length
    simp only [List.length_append, List.length_cons, List.length_nil]
    unfold maxChatStreamEventBytes at hlen
    unfold maxChatStreamWireBytes
    omega
  · rw [h.cut f A hq, h.whole f A hq] at heq
    have herror := congrArg Failure.error (Except.error.inj heq)
    exact absurd herror (by simp [Request.error])

/-- A colon and as many letters as the limit leaves room for. -/
def fullComment : Bytes := 58 :: List.replicate (maxChatStreamEventBytes - 2) 120

theorem fullComment_full : FullComment fullComment where
  colon := rfl
  length := by
    rw [fullComment, List.length_cons, List.length_replicate]
    rfl
  clean c hc := by
    rcases List.mem_cons.mp hc with rfl | hc
    · decide
    · obtain rfl := List.eq_of_mem_replicate hc
      decide

/-- **A cut that matters.** The comment and a blank line, in two pieces and in
one: whatever the framing and the accumulator, one reading is refused for a limit
that the other does not reach. -/
theorem sse_reading_depends_on_cut :
    (Body.streamed [fullComment ++ [Framing.LF, Framing.CR], [Framing.LF]]).bytes =
        (Body.buffered (fullComment ++ [Framing.LF, Framing.CR, Framing.LF])).bytes ∧
      (fullComment ++ [Framing.LF, Framing.CR, Framing.LF]).length ≤ maxChatStreamWireBytes ∧
      ∀ (f : Framed) (α : Type) (A : Accumulator α) (q : Request), ¬ q.declaredTooLarge →
        consumeSse f A q (.streamed [fullComment ++ [Framing.LF, Framing.CR], [Framing.LF]]) ≠
          consumeSse f A q (.buffered (fullComment ++ [Framing.LF, Framing.CR, Framing.LF])) :=
  fullComment_full.cut_ne_whole

end LLMBenchLab
