import LLMBenchLab.ArchiveRecords
import LLMBenchLab.AuditAppends

/-!
# The archive round trip

What is built is verified, and what is verified was built, unless the limit in
the header is written as a float.
-/

namespace LLMBenchLab

namespace Archive

open Python Audit
open Text (Str)
open Framing (Bytes)

variable {L : Stdlib}

/-! ## Lines of a file -/

section Files

variable {data : Bytes} {lines : List Bytes}

/-- Lines as they stand in a file: with something in each, and no newline in any. -/
def ProperLines (lines : List Bytes) : Prop := ∀ l ∈ lines, l ≠ [] ∧ newline ∉ l

theorem ProperLines.getLast_intercalate (h : ProperLines lines) (hne : lines ≠ []) :
    ∃ b, ([newline].intercalate lines).getLast? = some b ∧ b ≠ newline := by
  induction lines with
  | nil => exact absurd rfl hne
  | cons l rest ih =>
    obtain ⟨hl, hmem⟩ := h l List.mem_cons_self
    rcases eq_or_ne rest [] with rfl | hrest
    · rw [List.intercalate_singleton, List.getLast?_eq_some_getLast hl]
      exact ⟨_, rfl, fun heq => hmem (heq ▸ List.getLast_mem hl)⟩
    · obtain ⟨b, hb, hbne⟩ := ih (fun l' hl' => h l' (List.mem_cons_of_mem _ hl')) hrest
      refine ⟨b, ?_, hbne⟩
      rw [List.intercalate_cons_of_ne_nil hrest, List.getLast?_append, hb]
      rfl

theorem ProperLines.count_joinLines (h : ProperLines lines) (hne : lines ≠ []) :
    (joinLines lines).count newline = lines.length := by
  rw [joinLines, List.count_append]
  induction lines with
  | nil => exact absurd rfl hne
  | cons l rest ih =>
    have hcount : l.count newline = 0 := List.count_eq_zero.mpr (h l List.mem_cons_self).2
    rcases eq_or_ne rest [] with rfl | hrest
    · rw [List.intercalate_singleton, hcount]
      rfl
    · have := ih (fun l' hl' => h l' (List.mem_cons_of_mem _ hl')) hrest
      have hone : [newline].count newline = 1 := rfl
      rw [List.intercalate_cons_of_ne_nil hrest, List.count_append, List.count_append, hcount,
        List.length_cons]
      omega

theorem length_joinLines_le {n : ℕ} (h : ∀ l ∈ lines, l.length ≤ n) (hne : lines ≠ []) :
    (joinLines lines).length ≤ lines.length * (n + 1) := by
  rw [joinLines, List.length_append, List.length_singleton]
  induction lines with
  | nil => exact absurd rfl hne
  | cons l rest ih =>
    obtain ⟨hl, hrest⟩ := List.forall_mem_cons.mp h
    rw [List.length_cons, Nat.succ_mul]
    rcases eq_or_ne rest [] with rfl | hne
    · rw [List.intercalate_singleton]
      omega
    · have := ih hrest hne
      rw [List.intercalate_cons_of_ne_nil hne, List.length_append, List.length_append,
        List.length_singleton]
      omega

/-- The lines of a file are those it was joined of. -/
theorem ProperLines.splitLines_joinLines (h : ProperLines lines) (htwo : 2 ≤ lines.length)
    (hlimit : lines.length ≤ archiveEventLimit + 2) : splitLines (joinLines lines) = .ok lines := by
  have hne : lines ≠ [] := by
    rintro rfl
    cases htwo
  have hsplit : (joinLines lines).dropLast.splitOn newline = lines := by
    rw [joinLines, List.dropLast_concat]
    exact List.splitOn_intercalate newline (fun l hl => (h l hl).2) hne
  have hsuffix : ¬ [newline, newline] <:+ joinLines lines := by
    rintro ⟨t, ht⟩
    obtain ⟨b, hb, hbne⟩ := h.getLast_intercalate hne
    have heq : (t ++ [newline]) ++ [newline] = [newline].intercalate lines ++ [newline] := by
      rw [List.append_assoc]
      exact ht
    rw [← List.append_cancel_right heq, List.getLast?_concat] at hb
    exact hbne (Option.some.inj hb).symm
  refine bind_eq_ok.mpr ⟨(), ensure_eq_ok.mpr ⟨?_, ⟨_, rfl⟩, hsuffix⟩, ?_⟩
  · exact List.append_ne_nil_of_right_ne_nil _ (List.cons_ne_nil _ _)
  refine bind_eq_ok.mpr ⟨(), ensure_eq_ok.mpr ((h.count_joinLines hne).trans_le hlimit), ?_⟩
  rw [hsplit]
  exact bind_eq_ok.mpr ⟨(), ensure_eq_ok.mpr ⟨htwo, fun hmem => (h _ hmem).1 rfl⟩, rfl⟩

/-- A file is its lines joined. -/
theorem joinLines_of_splitLines (h : splitLines data = .ok lines) :
    data = joinLines lines ∧ 2 ≤ lines.length ∧ lines = data.dropLast.splitOn newline := by
  obtain ⟨_, hends, h⟩ := bind_eq_ok.mp h
  obtain ⟨_, -, h⟩ := bind_eq_ok.mp h
  obtain ⟨_, hlines, h⟩ := bind_eq_ok.mp h
  obtain ⟨-, ⟨t, ht⟩, -⟩ := ensure_eq_ok.mp hends
  cases h
  refine ⟨?_, (ensure_eq_ok.mp hlines).1, rfl⟩
  rw [joinLines, List.intercalate_splitOn, ← ht, List.dropLast_concat]

end Files

/-! ## Archives -/

section Archives

variable {cutoff : Instant} {head sha archiveSha : Str} {limit : Value}
  {events : List AuditEventReadFacts} {more : Bool} {lines : List Bytes} {data : Bytes}
  {raws : List RawEvent} {cutoffAt : DateTime} {file : ArchiveFile} {expected : Json}

/-- The line of an event. -/
def EventLine (L : Stdlib) (f : AuditEventReadFacts) (line : Bytes) : Prop :=
  canonicalJson L (.ofList (eventFields L f)) = .ok line

/-- The lines of an archive whose header has this limit. -/
inductive ArchiveLines (L : Stdlib) (cutoff : Instant) (head : Str) (limit : Value)
    (events : List AuditEventReadFacts) (more : Bool) : Str → List Bytes → Prop where
  | intro {first last : Bytes} {middle : List Bytes}
      (header : canonicalJson L (.ofList (headerFields L cutoff head limit)) = .ok first)
      (eventLines : List.Forall₂ (EventLine L) events middle)
      (manifest : canonicalJson L (.ofList (manifestFields L cutoff head events more
        (contentDigest L (first :: middle)))) = .ok last) :
      ArchiveLines L cutoff head limit events more (contentDigest L (first :: middle))
        (first :: middle ++ [last])

/-- What the builder and the verifier check of events, but for the years that are
read back as they were written. -/
structure Eligible (L : Stdlib) (cutoff : Instant) (head : Str)
    (events : List AuditEventReadFacts) : Prop where
  valid : ∀ f ∈ events, ValidEvent L f
  compatible : Compatible head
  count : events.length ≤ archiveEventLimit
  ordered : checkEvents cutoff none [] [] events = .ok ()

theorem ArchiveLines.proper (h : ArchiveLines L cutoff head limit events more sha lines) :
    ProperLines lines := by
  obtain ⟨header, eventLines, manifest⟩ := h
  intro l hl
  rcases List.mem_append.mp hl with hl | hl
  · rcases List.mem_cons.mp hl with rfl | hl
    · exact line_of_canonicalJson header
    · obtain ⟨f, -, hf⟩ := exists_of_forall₂ eventLines hl
      exact line_of_canonicalJson hf
  · rw [List.mem_singleton.mp hl]
    exact line_of_canonicalJson manifest

theorem ArchiveLines.length (h : ArchiveLines L cutoff head limit events more sha lines) :
    lines.length = events.length + 2 := by
  obtain ⟨-, eventLines, -⟩ := h
  rw [List.length_append, List.length_cons, eventLines.length_eq]
  rfl

theorem normalizeCutoff_eq_ok : normalizeCutoff L cutoffAt = .ok cutoff ↔
    ∃ t, cutoffAt.toUtc = some t ∧ L.strftime t = L.strftime cutoff ∧ Stamped L cutoff := by
  rw [normalizeCutoff]
  cases cutoffAt.toUtc with
  | none => exact ⟨(nomatch ·), fun ⟨_, h, _⟩ => nomatch h⟩
  | some t =>
    rw [parseTimestamp_eq_ok]
    constructor
    · rintro ⟨h, hstamped⟩
      exact ⟨t, rfl, Json.str.inj h, hstamped⟩
    · rintro ⟨t', ht, h, hstamped⟩
      obtain rfl := Option.some.inj ht
      exact ⟨congrArg Json.str h, hstamped⟩

theorem validatedFacts_mapM_eq_ok : raws.mapM (validatedFacts L) = .ok events ↔
    List.Forall₂ (RawEvent.Describes L) raws events ∧ ∀ f ∈ events, ValidEvent L f := by
  rw [mapM_eq_ok]
  constructor
  · intro h
    refine ⟨h.imp fun raw f hf => (validatedFacts_eq_ok.mp hf).1, fun f hf => ?_⟩
    obtain ⟨raw, -, hraw⟩ := exists_of_forall₂ h hf
    exact (validatedFacts_eq_ok.mp hraw).2
  · rintro ⟨h, hv⟩
    induction h with
    | nil => exact .nil
    | cons hd _ ih =>
      obtain ⟨hf, hv⟩ := List.forall_mem_cons.mp hv
      exact .cons (validatedFacts_eq_ok.mpr ⟨hd, hf⟩) (ih hv)

theorem eventLines_eq_ok (hv : ∀ f ∈ events, ValidEvent L f) {middle : List Bytes} :
    (events.mapM fun event => eventRecord L event >>= canonicalJson L) = .ok middle ↔
      List.Forall₂ (EventLine L) events middle := by
  rw [mapM_eq_ok, List.forall₂_iff_get, List.forall₂_iff_get]
  refine and_congr_right fun _ => forall_congr' fun i => forall₂_congr fun hi _ => ?_
  rw [eventRecord_eq_ok (hv _ (List.get_mem events ⟨i, hi⟩))]
  rfl

theorem contentLines_eq_ok (hv : ∀ f ∈ events, ValidEvent L f) {content : List Bytes} :
    contentLines L cutoff head events = .ok content ↔
      ∃ first middle, content = first :: middle ∧
        canonicalJson L (.ofList (headerFields L cutoff head (.int archiveEventLimit))) = .ok first ∧
        List.Forall₂ (EventLine L) events middle := by
  constructor
  · intro h
    obtain ⟨first, hfirst, h⟩ := bind_eq_ok.mp h
    obtain ⟨middle, hmiddle, h⟩ := bind_eq_ok.mp h
    cases h
    exact ⟨first, middle, rfl, hfirst, (eventLines_eq_ok hv).mp hmiddle⟩
  · rintro ⟨first, middle, rfl, hfirst, hmiddle⟩
    refine bind_eq_ok.mpr ⟨first, hfirst, ?_⟩
    exact bind_eq_ok.mpr ⟨middle, (eventLines_eq_ok hv).mpr hmiddle, rfl⟩

/-- What is built: the lines of the events that the arguments hold. -/
theorem buildArchiveBytes_eq_ok {headValue moreValue : Json} :
    buildArchiveBytes L raws cutoffAt headValue moreValue = .ok (data, sha) ↔
      ∃ cutoff head more events lines,
        headValue = .str head ∧ moreValue = .bool more ∧
        normalizeCutoff L cutoffAt = .ok cutoff ∧
        List.Forall₂ (RawEvent.Describes L) raws events ∧
        Eligible L cutoff head events ∧
        ArchiveLines L cutoff head (.int archiveEventLimit) events more sha lines ∧
        data = joinLines lines ∧ data.length ≤ archiveFileLimitBytes := by
  constructor
  · intro h
    obtain ⟨_, hcount, h⟩ := bind_eq_ok.mp h
    obtain ⟨more, hmore, h⟩ := bind_eq_ok.mp h
    obtain ⟨head, hhead, h⟩ := bind_eq_ok.mp h
    obtain ⟨cutoff, hcutoff, h⟩ := bind_eq_ok.mp h
    obtain ⟨events, hevents, h⟩ := bind_eq_ok.mp h
    obtain ⟨_, hordered, h⟩ := bind_eq_ok.mp h
    obtain ⟨content, hcontent, h⟩ := bind_eq_ok.mp h
    obtain ⟨last, hlast, h⟩ := bind_eq_ok.mp h
    obtain ⟨_, hsize, h⟩ := bind_eq_ok.mp h
    cases h
    obtain ⟨hdescribes, hv⟩ := validatedFacts_mapM_eq_ok.mp hevents
    obtain ⟨first, middle, rfl, hfirst, hmiddle⟩ := (contentLines_eq_ok hv).mp hcontent
    obtain ⟨hhead, hcompatible⟩ := validateSourceHead_eq_ok.mp hhead
    have hmore : moreValue = .bool more := by
      split at hmore
      · cases hmore
        rfl
      · cases hmore
    refine ⟨cutoff, head, more, events, _, hhead, hmore, hcutoff, hdescribes, ?_,
      ⟨hfirst, hmiddle, hlast⟩, rfl, ensure_eq_ok.mp hsize⟩
    exact {
      valid := hv
      compatible := hcompatible
      count := hdescribes.length_eq ▸ ensure_eq_ok.mp hcount
      ordered := hordered }
  · rintro ⟨cutoff, head, more, events, lines, rfl, rfl, hcutoff, hdescribes, heligible, hlines,
      rfl, hsize⟩
    obtain ⟨hfirst, hmiddle, hlast⟩ := hlines
    refine bind_eq_ok.mpr ⟨(), ensure_eq_ok.mpr (hdescribes.length_eq ▸ heligible.count), ?_⟩
    refine bind_eq_ok.mpr ⟨more, rfl, ?_⟩
    refine bind_eq_ok.mpr ⟨head, validateSourceHead_eq_ok.mpr ⟨rfl, heligible.compatible⟩, ?_⟩
    refine bind_eq_ok.mpr ⟨cutoff, hcutoff, ?_⟩
    refine bind_eq_ok.mpr
      ⟨events, validatedFacts_mapM_eq_ok.mpr ⟨hdescribes, heligible.valid⟩, ?_⟩
    refine bind_eq_ok.mpr ⟨(), heligible.ordered, ?_⟩
    refine bind_eq_ok.mpr
      ⟨_, (contentLines_eq_ok heligible.valid).mpr ⟨_, _, rfl, hfirst, hmiddle⟩, ?_⟩
    refine bind_eq_ok.mpr ⟨_, hlast, ?_⟩
    exact bind_eq_ok.mpr ⟨(), ensure_eq_ok.mpr hsize, rfl⟩

/-- A file that the verifier reads. -/
def ArchiveFile.Private (file : ArchiveFile) : Prop :=
  file.regular = true ∧ file.owned = true ∧ file.mode &&& 0o7177 = 0 ∧
    file.content.length ≤ archiveFileLimitBytes

theorem readOwnedPrivateFile_eq_ok :
    readOwnedPrivateFile file = .ok data ↔ file.Private ∧ data = file.content := by
  constructor
  · intro h
    obtain ⟨_, hregular, h⟩ := bind_eq_ok.mp h
    obtain ⟨_, howned, h⟩ := bind_eq_ok.mp h
    obtain ⟨_, hmode, h⟩ := bind_eq_ok.mp h
    obtain ⟨_, hsize, h⟩ := bind_eq_ok.mp h
    cases h
    exact ⟨⟨ensure_eq_ok.mp hregular, ensure_eq_ok.mp howned, ensure_eq_ok.mp hmode,
      ensure_eq_ok.mp hsize⟩, rfl⟩
  · rintro ⟨⟨hregular, howned, hmode, hsize⟩, rfl⟩
    refine bind_eq_ok.mpr ⟨(), ensure_eq_ok.mpr hregular, ?_⟩
    refine bind_eq_ok.mpr ⟨(), ensure_eq_ok.mpr howned, ?_⟩
    refine bind_eq_ok.mpr ⟨(), ensure_eq_ok.mpr hmode, ?_⟩
    exact bind_eq_ok.mpr ⟨(), ensure_eq_ok.mpr hsize, rfl⟩

theorem forall₂_concat {α β : Type} {r : α → β → Prop} {l : List α} {l' : List β} {a : α} {b : β} :
    List.Forall₂ r (l ++ [a]) (l' ++ [b]) ↔ List.Forall₂ r l l' ∧ r a b := by
  rw [← List.forall₂_reverse_iff, List.reverse_concat, List.reverse_concat, List.forall₂_cons,
    List.forall₂_reverse_iff]
  exact and_comm

/-- A line and its record. -/
abbrev Decodes (L : Stdlib) (line : Bytes) (record : Dict) : Prop := decodeLine L line = .ok record

/-- Two lines at least are a first one, a last one and those between them. -/
theorem ends_of_decodes {values : List Dict} (h : List.Forall₂ (Decodes L) lines values)
    (htwo : 2 ≤ lines.length) :
    ∃ first middle last, lines = first :: middle ++ [last] ∧
      Decodes L first (values.headD .empty) ∧
      List.Forall₂ (Decodes L) middle values.tail.dropLast ∧
      Decodes L last (values.getLastD .empty) := by
  cases h with
  | nil => cases htwo
  | @cons first header rest records hfirst hrest =>
    rcases List.eq_nil_or_concat' rest with rfl | ⟨middle, last, rfl⟩
    · exact absurd htwo (by simp)
    rcases List.eq_nil_or_concat' records with rfl | ⟨records, manifest, rfl⟩
    · exact absurd hrest.length_eq (by simp)
    obtain ⟨hmiddle, hlast⟩ := forall₂_concat.mp hrest
    refine ⟨first, middle, last, rfl, hfirst, ?_, ?_⟩
    · rwa [List.tail_cons, List.dropLast_concat]
    · rwa [List.getLastD_cons, List.getLastD_concat]

theorem eventLines_of_decodes {records : List Dict} {middle : List Bytes}
    (h : List.Forall₂ (Decodes L) middle records) (h' : List.Forall₂ (Recorded L) records events) :
    List.Forall₂ (EventLine L) events middle := by
  induction h generalizing events with
  | nil =>
    cases h'
    exact .nil
  | cons hline _ ih =>
    cases h' with
    | cons hrecord hrest =>
      refine .cons ?_ (ih hrest)
      rw [EventLine, ← hrecord.record]
      exact canonicalJson_of_decodeLine hline

theorem decodes_of_eventLines {middle : List Bytes} (hv : ∀ f ∈ events, ValidEvent L f)
    (h : List.Forall₂ (EventLine L) events middle) :
    List.Forall₂ (Decodes L) middle (events.map fun f => .ofList (eventFields L f)) := by
  induction h with
  | nil => exact .nil
  | cons hline _ ih =>
    obtain ⟨hf, hv⟩ := List.forall_mem_cons.mp hv
    exact .cons (decodeLine_of_canonicalJson (plain_eventRecord hf) hline) (ih hv)

/-- Events whose times are read back. -/
def StampedEvents (L : Stdlib) (events : List AuditEventReadFacts) : Prop :=
  ∀ f ∈ events, Stamped L f.occurredAt ∧ Stamped L f.expiresAt

/-- The limit in the header of a file. -/
def headerLimit (L : Stdlib) (data : Bytes) : Option Value := do
  let line ← (data.dropLast.splitOn newline).head?
  let header ← (decodeLine L line).toOption
  header.get? "event_limit"

/-- The lines of an archive are accepted, if the limit in its header is equal to the
limit there is. -/
theorem verifyArchive_of_lines (hfile : file.Private)
    (hexpected : checkExpected (hexdigest (L.sha256 file.content)) expected = .ok ())
    (hcontent : file.content = joinLines lines)
    (hlines : ArchiveLines L cutoff head limit events more sha lines)
    (hlimit : limit.val.eq (.int archiveEventLimit) = true) (hplain : limit.val.Plain 1)
    (heligible : Eligible L cutoff head events) (hcutoff : Stamped L cutoff)
    (hstamped : StampedEvents L events) :
    verifyArchive L file expected =
      .ok ⟨cutoff, head, events, more, sha, hexdigest (L.sha256 file.content)⟩ := by
  have hsplit : splitLines file.content = .ok lines := by
    rw [hcontent]
    refine hlines.proper.splitLines_joinLines ?_ ?_
    · exact hlines.length.symm ▸ Nat.le_add_left 2 _
    · exact hlines.length.trans_le (Nat.add_le_add_right heligible.count 2)
  obtain ⟨hfirst, hmiddle, hlast⟩ := hlines
  rename_i first last middle
  have hheader := decodeLine_of_canonicalJson (plain_header heligible.compatible hplain) hfirst
  have hmanifest := decodeLine_of_canonicalJson
    (plain_manifest heligible.compatible heligible.valid (plain_hexdigest _)) hlast
  have hrecords := decodes_of_eventLines heligible.valid hmiddle
  have hvalues := mapM_eq_ok.mpr (forall₂_concat.mpr ⟨.cons hheader hrecords, hmanifest⟩)
  refine bind_eq_ok.mpr ⟨_, readOwnedPrivateFile_eq_ok.mpr ⟨hfile, rfl⟩, ?_⟩
  refine bind_eq_ok.mpr ⟨(), hexpected, ?_⟩
  refine bind_eq_ok.mpr ⟨_, hsplit, ?_⟩
  refine bind_eq_ok.mpr ⟨_, hvalues, ?_⟩
  refine bind_eq_ok.mpr ⟨(cutoff, head, events, more, _), verifyRecords_eq_ok.mpr ?_, rfl⟩
  simp only [List.cons_append, List.headD_cons, List.tail_cons, List.dropLast_concat,
    List.getLastD_cons, List.getLastD_concat]
  have hfield : field (.ofList (headerFields L cutoff head limit)) "event_limit" = limit :=
    field_ofList nodup_headerFields (List.mem_of_getElem? (i := 4) rfl)
  exact {
    header := by rw [hfield]
    limit := by rw [hfield]; exact hlimit
    manifest := rfl
    recorded := by
      refine List.forall₂_map_left_iff.mpr (List.forall₂_same.mpr fun f hf => ?_)
      exact ⟨rfl, heligible.valid f hf, (hstamped f hf).1, (hstamped f hf).2⟩
    stamped := hcutoff
    compatible := heligible.compatible
    count := heligible.count
    ordered := heligible.ordered
    digest := by rw [← List.cons_append, List.dropLast_concat] }

/-- What is accepted stands in the lines of an archive, but for the limit in its
header. -/
theorem lines_of_verifyArchive {v : VerifiedAuditArchive} (h : verifyArchive L file expected = .ok v) :
    ∃ limit lines, headerLimit L file.content = some limit ∧
      limit.val.eq (.int archiveEventLimit) = true ∧
      file.Private ∧ file.content = joinLines lines ∧
      ArchiveLines L v.cutoffAt v.sourceAlembicHead limit v.events v.hasMoreEligible
        v.contentSha256 lines ∧
      Eligible L v.cutoffAt v.sourceAlembicHead v.events ∧
      Stamped L v.cutoffAt ∧ StampedEvents L v.events ∧
      v.archiveSha256 = hexdigest (L.sha256 file.content) := by
  obtain ⟨data, hread, h⟩ := bind_eq_ok.mp h
  obtain ⟨_, -, h⟩ := bind_eq_ok.mp h
  obtain ⟨lines, hsplit, h⟩ := bind_eq_ok.mp h
  obtain ⟨values, hvalues, h⟩ := bind_eq_ok.mp h
  obtain ⟨⟨cutoff, head, events, more, sha⟩, hrecords, h⟩ := bind_eq_ok.mp h
  cases h
  obtain ⟨hprivate, rfl⟩ := readOwnedPrivateFile_eq_ok.mp hread
  obtain ⟨hjoin, htwo, hlines⟩ := joinLines_of_splitLines hsplit
  obtain ⟨first, middle, last, rfl, hfirst, hmiddle, hlast⟩ :=
    ends_of_decodes (mapM_eq_ok.mp hvalues) htwo
  have hagree := verifyRecords_eq_ok.mp hrecords
  have hv : ∀ f ∈ events, Recorded L (.ofList (eventFields L f)) f := by
    intro f hf
    obtain ⟨record, -, hrecord⟩ := exists_of_forall₂ hagree.recorded hf
    exact hrecord.record ▸ hrecord
  have hdigest : contentDigest L (first :: middle) = sha := by
    have := hagree.digest
    rwa [List.dropLast_concat] at this
  obtain rfl := hdigest
  refine ⟨field (values.headD .empty) "event_limit", first :: middle ++ [last], ?_, hagree.limit,
    hprivate, hjoin, ⟨?_, eventLines_of_decodes hmiddle hagree.recorded, ?_⟩, ?_, hagree.stamped,
    fun f hf => ⟨(hv f hf).occurredAt, (hv f hf).expiresAt⟩, rfl⟩
  · have hget : (values.headD .empty).get? "event_limit" =
        some (field (values.headD .empty) "event_limit") := by
      conv_lhs => rw [hagree.header]
      rw [Dict.get?_ofList nodup_headerFields]
      exact lookup_of_mem nodup_headerFields (List.mem_of_getElem? (i := 4) rfl)
    rw [headerLimit, ← hlines]
    refine Option.bind_eq_some_iff.mpr ⟨first, rfl, ?_⟩
    exact Option.bind_eq_some_iff.mpr ⟨_, toOption_eq_some.mpr hfirst, hget⟩
  · rw [← hagree.header]
    exact canonicalJson_of_decodeLine hfirst
  · rw [← hagree.manifest]
    exact canonicalJson_of_decodeLine hlast
  · exact {
      valid := fun f hf => (hv f hf).valid
      compatible := hagree.compatible
      count := hagree.count
      ordered := hagree.ordered }

theorem checkExpected_eq_ok {u : Unit} : checkExpected archiveSha expected = .ok u ↔
    expected = .null ∨ expected = .str archiveSha ∧ safeHash archiveSha = true := by
  cases expected with
  | null => exact ⟨fun _ => .inl rfl, fun _ => rfl⟩
  | _ =>
    rw [checkExpected, bind_eq_ok]
    · constructor
      · rintro ⟨s, hs, h⟩
        rw [ensure_eq_ok] at h
        subst h
        exact .inr (validateDigest_eq_ok.mp hs)
      · rintro (h | h)
        · cases h
        · exact ⟨_, validateDigest_eq_ok.mpr h, ensure_eq_ok.mpr rfl⟩
    · exact (nomatch ·)

/-- The arguments of the reader for facts that have been read. -/
def rawEvent (f : AuditEventReadFacts) : RawEvent where
  id := .str f.id
  eventKey := .str f.eventKey
  eventType := .str f.eventType
  payloadHash := .str f.payloadHash
  payload := f.payload.toValue
  retentionClass := f.retentionClass
  occurredAt := f.occurredAt.toDateTime
  expiresAt := f.expiresAt.toDateTime
  correlationId := .ofStr f.correlationId
  runId := .ofStr f.runId
  modelId := .ofStr f.modelId
  questionId := .ofStr f.questionId
  workerId := .ofStr f.workerId
  reservationId := .ofStr f.reservationId
  attempt := .ofInt f.attempt
  providerAttempt := .ofInt f.providerAttempt
  leaseToken := .ofInt f.leaseToken
  durationMs := .ofFloat f.durationMs

theorem describes_rawEvent {f : AuditEventReadFacts} (hduration : ∀ x ∈ f.durationMs, Duration x) :
    RawEvent.Describes L (rawEvent f) f where
  id := rfl
  eventKey := rfl
  eventType := rfl
  payloadHash := rfl
  payload := rfl
  retentionClass := rfl
  occurredAt := Instant.toUtc_toDateTime _
  expiresAt := Instant.toUtc_toDateTime _
  attempt := rfl
  providerAttempt := rfl
  leaseToken := rfl
  durationMs := durationForRead_ofFloat hduration
  correlationId := rfl
  runId := rfl
  modelId := rfl
  questionId := rfl
  workerId := rfl
  reservationId := rfl

theorem ArchiveLines.headerLimit (h : ArchiveLines L cutoff head limit events more sha lines)
    (hcompatible : Compatible head) (hlimit : limit.val.Plain 1) :
    headerLimit L (joinLines lines) = some limit := by
  have hsplit : (joinLines lines).dropLast.splitOn newline = lines := by
    rw [joinLines, List.dropLast_concat]
    refine List.splitOn_intercalate newline (fun l hl => (h.proper l hl).2) fun hnil => ?_
    exact absurd h.length (by rw [hnil]; exact Nat.succ_ne_zero _ ∘ Eq.symm)
  rw [Archive.headerLimit, hsplit]
  obtain ⟨hfirst, -, -⟩ := h
  have hdecode := decodeLine_of_canonicalJson (plain_header hcompatible hlimit) hfirst
  refine Option.bind_eq_some_iff.mpr ⟨_, rfl, ?_⟩
  refine Option.bind_eq_some_iff.mpr ⟨_, toOption_eq_some.mpr hdecode, ?_⟩
  rw [Dict.get?_ofList nodup_headerFields]
  exact lookup_of_mem nodup_headerFields (List.mem_of_getElem? (i := 4) rfl)

theorem stamped_of_fourDigitYear {t : Instant} (h : FourDigitYear t) : Stamped L t :=
  L.strptime_strftime h

/-- Verifying what was built gives back what it was built from. -/
theorem verifyArchive_buildArchiveBytes {headValue moreValue : Json}
    (hbuild : buildArchiveBytes L raws cutoffAt headValue moreValue = .ok (data, sha))
    (hcutoff : ∀ t ∈ cutoffAt.toUtc, FourDigitYear t)
    (hraws : ∀ raw ∈ raws, (∀ t ∈ raw.occurredAt.toUtc, FourDigitYear t) ∧
      ∀ t ∈ raw.expiresAt.toUtc, FourDigitYear t)
    (hregular : file.regular = true) (howned : file.owned = true)
    (hmode : file.mode &&& 0o7177 = 0) (hcontent : file.content = data)
    (hexpected : expected = .null ∨ expected = .str (hexdigest (L.sha256 data))) :
    ∃ cutoff head more events,
      cutoffAt.toUtc = some cutoff ∧ headValue = .str head ∧ moreValue = .bool more ∧
      raws.mapM (validatedFacts L) = .ok events ∧
      verifyArchive L file expected = .ok {
        cutoffAt := cutoff
        sourceAlembicHead := head
        events := events
        hasMoreEligible := more
        contentSha256 := sha
        archiveSha256 := hexdigest (L.sha256 data) } := by
  obtain ⟨cutoff, head, more, events, lines, rfl, rfl, hnormal, hdescribes, heligible, hlines,
    rfl, hsize⟩ := buildArchiveBytes_eq_ok.mp hbuild
  obtain ⟨t, ht, hstrftime, hstamped⟩ := normalizeCutoff_eq_ok.mp hnormal
  have htstamped : Stamped L t := stamped_of_fourDigitYear (hcutoff t ht)
  obtain rfl : t = cutoff := by
    rw [Stamped, hstrftime, hstamped] at htstamped
    exact (Option.some.inj htstamped).symm
  have hevents : StampedEvents L events := by
    intro f hf
    obtain ⟨raw, hraw, hd⟩ := exists_of_forall₂ hdescribes hf
    exact ⟨stamped_of_fourDigitYear ((hraws raw hraw).1 _ hd.occurredAt),
      stamped_of_fourDigitYear ((hraws raw hraw).2 _ hd.expiresAt)⟩
  have hprivate : file.Private := ⟨hregular, howned, hmode, hcontent ▸ hsize⟩
  have hchecked : checkExpected (hexdigest (L.sha256 file.content)) expected = .ok () := by
    rw [hcontent]
    exact checkExpected_eq_ok.mpr (hexpected.imp_right fun h => ⟨h, safeHash_hexdigest _⟩)
  refine ⟨t, head, more, events, ht, rfl, rfl,
    validatedFacts_mapM_eq_ok.mpr ⟨hdescribes, heligible.valid⟩, ?_⟩
  have hverify :=
    verifyArchive_of_lines hprivate hchecked hcontent hlines (eq_int.mpr rfl) trivial heligible
      hstamped hevents
  rwa [hcontent] at hverify

theorem buildArchiveBytes_of_lines
    (hlines : ArchiveLines L cutoff head (.int archiveEventLimit) events more sha lines)
    (heligible : Eligible L cutoff head events) (hcutoff : Stamped L cutoff)
    (hsize : (joinLines lines).length ≤ archiveFileLimitBytes) :
    buildArchiveBytes L (events.map rawEvent) cutoff.toDateTime (.str head) (.bool more) =
      .ok (joinLines lines, sha) := by
  refine buildArchiveBytes_eq_ok.mpr ⟨cutoff, head, more, events, lines, rfl, rfl, ?_, ?_,
    heligible, hlines, rfl, hsize⟩
  · exact normalizeCutoff_eq_ok.mpr ⟨cutoff, Instant.toUtc_toDateTime _, rfl, hcutoff⟩
  · refine List.forall₂_map_left_iff.mpr (List.forall₂_same.mpr fun f hf => ?_)
    exact describes_rawEvent (heligible.valid f hf).durationMs

/-- A file that is accepted is what is built of the archive read from it, exactly if
its header writes the limit as an integer; two such files of the same archive are
the same. -/
theorem buildArchiveBytes_verifyArchive {v : VerifiedAuditArchive}
    (h : verifyArchive L file expected = .ok v) :
    (buildArchiveBytes L (v.events.map rawEvent) v.cutoffAt.toDateTime (.str v.sourceAlembicHead)
        (.bool v.hasMoreEligible) = .ok (file.content, v.contentSha256) ↔
      headerLimit L file.content = some (.int archiveEventLimit)) ∧
    (headerLimit L file.content = some (.int archiveEventLimit) →
      ∀ file' expected' v', verifyArchive L file' expected' = .ok v' →
        headerLimit L file'.content = some (.int archiveEventLimit) →
        v'.events = v.events → v'.cutoffAt = v.cutoffAt →
        v'.sourceAlembicHead = v.sourceAlembicHead → v'.hasMoreEligible = v.hasMoreEligible →
        file'.content = file.content) := by
  have hbuild : ∀ {file' expected' v'}, verifyArchive L file' expected' = .ok v' →
      headerLimit L file'.content = some (.int archiveEventLimit) →
      buildArchiveBytes L (v'.events.map rawEvent) v'.cutoffAt.toDateTime
        (.str v'.sourceAlembicHead) (.bool v'.hasMoreEligible) =
          .ok (file'.content, v'.contentSha256) := by
    intro file' expected' v' h' hheader
    obtain ⟨limit, lines, hlimit, -, hprivate, hcontent, hlines, heligible, hcutoff, -, -⟩ :=
      lines_of_verifyArchive h'
    obtain rfl := Option.some.inj (hlimit.symm.trans hheader)
    rw [hcontent]
    refine buildArchiveBytes_of_lines hlines heligible hcutoff ?_
    rw [← hcontent]
    exact hprivate.2.2.2
  refine ⟨⟨fun hbuilt => ?_, hbuild h⟩, ?_⟩
  · obtain ⟨cutoff, head, more, events, lines, -, -, -, -, heligible, hlines, hjoin, -⟩ :=
      buildArchiveBytes_eq_ok.mp hbuilt
    rw [hjoin]
    exact hlines.headerLimit heligible.compatible trivial
  · intro hheader file' expected' v' h' hheader' hevents hcutoff hhead hmore
    have hfirst := hbuild h hheader
    have hsecond := hbuild h' hheader'
    rw [hevents, hcutoff, hhead, hmore, hfirst] at hsecond
    exact (congrArg Prod.fst (Except.ok.inj hsecond)).symm

end Archives

/-! ## An archive of one event, and one of none -/

namespace Sample

def cutoff : Instant := ⟨63934358400000000, by decide⟩

def occurredAt : Instant := ⟨63904075200000000, Audit.Sample.noon_inRange⟩

def expiresAt : Instant := ⟨63911851200000000, by decide⟩

def cutoffText : Str := "2027-01-01T00:00:00.000000Z"

def occurredText : Str := "2026-01-15T12:00:00.000000Z"

def expiresText : Str := "2026-04-15T12:00:00.000000Z"

def sourceHead : Str := "20260828_0005"

/-- `10000.0` -/
def floatLimit : Double := .finite false 1036 993958511509504

/-- `1.5` -/
def duration : Double := .finite false 1023 2251799813685248

def header (limit : Value) : Json :=
  (Dict.ofList
    [("record_type", .str "header"),
      ("schema", .str archiveSchema),
      ("cutoff_at", .str cutoffText),
      ("source_alembic_head", .str sourceHead),
      ("event_limit", limit)]).toValue.val

def payload : Dict := .ofList [("dispatch_count", .int 1)]

/-- A run is claimed. -/
def event : Json :=
  (Dict.ofList
    [("record_type", .str "audit_event"),
      ("id", .str "4f0c6a52-9d1e-4b7a-8c33-0a1b2c3d4e5f"),
      ("event_key", .str "run:r1:claimed:1"),
      ("event_type", .str "run_claimed"),
      ("payload_hash", .str "0c8e5f83b25876f082871413887efce6f51996cfdf08dd60e7384784e394a0d8"),
      ("payload", payload.toValue),
      ("retention_class", .str "operational"),
      ("occurred_at", .str occurredText),
      ("expires_at", .str expiresText),
      ("correlation_id", .ofStr none),
      ("run_id", .str "r1"),
      ("model_id", .ofStr none),
      ("question_id", .ofStr none),
      ("worker_id", .str "worker-1"),
      ("reservation_id", .ofStr none),
      ("attempt", .ofInt none),
      ("provider_attempt", .ofInt none),
      ("lease_token", .int 1),
      ("duration_ms_hex", .str "0x1.8000000000000p+0")]).toValue.val

def manifest (count : ℤ) (types : Dict) (occurred expires : Option Str) (sha : Str) : Json :=
  (Dict.ofList
    [("record_type", .str "manifest"),
      ("schema", .str archiveSchema),
      ("cutoff_at", .str cutoffText),
      ("source_alembic_head", .str sourceHead),
      ("event_count", .int count),
      ("event_type_counts", types.toValue),
      ("retention_class_counts",
        (Dict.ofList [("operational", .int count), ("security", .int 0)]).toValue),
      ("occurred_at_min", .ofStr occurred),
      ("occurred_at_max", .ofStr occurred),
      ("expires_at_min", .ofStr expires),
      ("expires_at_max", .ofStr expires),
      ("has_more_eligible", .bool false),
      ("content_sha256", .str sha)]).toValue.val

def payloadText : String := "\x7b\"dispatch_count\":1\x7d"

def headerText : String :=
  "\x7b\"cutoff_at\":\"2027-01-01T00:00:00.000000Z\",\"event_limit\":10000,\"record_type\":\"header\",\"schema\":\"llmbenchlab-audit-archive-v1\",\"source_alembic_head\":\"20260828_0005\"\x7d"

def floatHeaderText : String :=
  "\x7b\"cutoff_at\":\"2027-01-01T00:00:00.000000Z\",\"event_limit\":10000.0,\"record_type\":\"header\",\"schema\":\"llmbenchlab-audit-archive-v1\",\"source_alembic_head\":\"20260828_0005\"\x7d"

def eventText : String :=
  "\x7b\"attempt\":null,\"correlation_id\":null,\"duration_ms_hex\":\"0x1.8000000000000p+0\",\"event_key\":\"run:r1:claimed:1\",\"event_type\":\"run_claimed\",\"expires_at\":\"2026-04-15T12:00:00.000000Z\",\"id\":\"4f0c6a52-9d1e-4b7a-8c33-0a1b2c3d4e5f\",\"lease_token\":1,\"model_id\":null,\"occurred_at\":\"2026-01-15T12:00:00.000000Z\",\"payload\":\x7b\"dispatch_count\":1\x7d,\"payload_hash\":\"0c8e5f83b25876f082871413887efce6f51996cfdf08dd60e7384784e394a0d8\",\"provider_attempt\":null,\"question_id\":null,\"record_type\":\"audit_event\",\"reservation_id\":null,\"retention_class\":\"operational\",\"run_id\":\"r1\",\"worker_id\":\"worker-1\"\x7d"

def manifestText : String :=
  "\x7b\"content_sha256\":\"47d60804c4a4ff00f5cd86cb327f056a1fdc9a95dde5a8432394281c0c9764b4\",\"cutoff_at\":\"2027-01-01T00:00:00.000000Z\",\"event_count\":1,\"event_type_counts\":\x7b\"run_claimed\":1\x7d,\"expires_at_max\":\"2026-04-15T12:00:00.000000Z\",\"expires_at_min\":\"2026-04-15T12:00:00.000000Z\",\"has_more_eligible\":false,\"occurred_at_max\":\"2026-01-15T12:00:00.000000Z\",\"occurred_at_min\":\"2026-01-15T12:00:00.000000Z\",\"record_type\":\"manifest\",\"retention_class_counts\":\x7b\"operational\":1,\"security\":0\x7d,\"schema\":\"llmbenchlab-audit-archive-v1\",\"source_alembic_head\":\"20260828_0005\"\x7d"

def emptyManifestText : String :=
  "\x7b\"content_sha256\":\"b4e65eca2ba5ab95ea51eae0c942fe81200802d42cf43bfae2164cab21c3ab7a\",\"cutoff_at\":\"2027-01-01T00:00:00.000000Z\",\"event_count\":0,\"event_type_counts\":\x7b\x7d,\"expires_at_max\":null,\"expires_at_min\":null,\"has_more_eligible\":false,\"occurred_at_max\":null,\"occurred_at_min\":null,\"record_type\":\"manifest\",\"retention_class_counts\":\x7b\"operational\":0,\"security\":0\x7d,\"schema\":\"llmbenchlab-audit-archive-v1\",\"source_alembic_head\":\"20260828_0005\"\x7d"

def contentSha : Str := "47d60804c4a4ff00f5cd86cb327f056a1fdc9a95dde5a8432394281c0c9764b4"

def emptyContentSha : Str := "b4e65eca2ba5ab95ea51eae0c942fe81200802d42cf43bfae2164cab21c3ab7a"

/-- The bytes that a content digest is made of. -/
def framed (texts : List String) : Bytes :=
  contentHashDomain ++ texts.flatMap fun text =>
    bigEndian (Py.encodeUtf8 text).length ++ Py.encodeUtf8 text

def file (texts : List String) : ArchiveFile where
  regular := true
  owned := true
  mode := 0o600
  content := joinLines (texts.map Py.encodeUtf8)

def texts : List String := [headerText, eventText, manifestText]

def floatTexts : List String := [floatHeaderText, emptyManifestText]

def jsonTable : List (Json × String) :=
  [(payload.toValue.val, payloadText),
    (header (.int 10000), headerText),
    (header ⟨.float floatLimit, trivial⟩, floatHeaderText),
    (event, eventText),
    (manifest 1 (.ofList [("run_claimed", .int 1)]) (some occurredText) (some expiresText)
      contentSha, manifestText),
    (manifest 0 .empty none none emptyContentSha, emptyManifestText)]

/-- What is checked of a text is checked of its characters. -/
theorem text_of_eq_ofList {t : String} {l : List Char} (h : t = String.ofList l)
    (hl : l ≠ [] ∧ l.length ≤ archiveLineLimitBytes ∧ (l.all fun c => ' ' ≤ c && c ≤ '~') = true) :
    t ≠ "" ∧ (∀ c ∈ t.toList, ' ' ≤ c ∧ c ≤ '~') ∧
      (Py.encodeUtf8 t).length ≤ archiveLineLimitBytes := by
  obtain ⟨hne, hlength, hall⟩ := hl
  have hchars : ∀ c ∈ l, ' ' ≤ c ∧ c ≤ '~' := fun c hc => by
    simpa using List.all_eq_true.mp hall c hc
  have htoList : t.toList = l := by rw [h, String.toList_ofList]
  refine ⟨?_, htoList ▸ hchars, ?_⟩
  · rintro rfl
    exact hne htoList.symm
  · rw [Py.length_encodeUtf8 fun c hc => (hchars c (htoList ▸ hc)).2, htoList]
    exact hlength

set_option maxRecDepth 20000 in
theorem jsonTable_texts : ∀ p ∈ jsonTable, p.2 ≠ "" ∧ (∀ c ∈ p.2.toList, ' ' ≤ c ∧ c ≤ '~') ∧
    (Py.encodeUtf8 p.2).length ≤ archiveLineLimitBytes := by
  simp only [jsonTable, List.forall_mem_cons]
  refine ⟨?_, ?_, ?_, ?_, ?_, ?_, fun _ h => nomatch h⟩
  all_goals exact text_of_eq_ofList rfl (by decide +kernel)

set_option maxRecDepth 20000 in
theorem jsonTable_inj : ∀ p ∈ jsonTable, ∀ q ∈ jsonTable, p.2 = q.2 → p = q := by
  have hmap : jsonTable.map Prod.snd = List.map String.ofList [_, _, _, _, _, _] := rfl
  have h : (jsonTable.map Prod.snd).Nodup := by
    rw [hmap]
    exact List.Nodup.map (fun _ _ => String.ofList_injective) (by decide +kernel)
  exact fun p hp q hq => List.inj_on_of_nodup_map h hp hq

theorem jsonTable_text : ∀ p ∈ jsonTable, p.2 ≠ "" ∧ ∀ c ∈ p.2.toList, ' ' ≤ c ∧ c ≤ '~' :=
  fun p hp => ⟨(jsonTable_texts p hp).1, (jsonTable_texts p hp).2.1⟩

def floats : List (Double × Str) := [(duration, "0x1.8000000000000p+0")]

def stamps : List (Instant × Str) :=
  [(cutoff, cutoffText), (occurredAt, occurredText), (expiresAt, expiresText)]

theorem tableTexts {α : Type} {table : List (α × Str)}
    (hplain : ((table.map Prod.snd).all fun k => k.all fun c => decide (PlainChar c)) = true)
    (hnd : (table.map Prod.snd).Nodup)
    (hunary : ((table.map Prod.snd).all fun k => !k.all (· == Text.ofChar 'x')) = true) :
    TableTexts table where
  plain p hp := plain_of_all hplain _ (List.mem_map_of_mem hp)
  inj p hp q hq := List.inj_on_of_nodup_map hnd hp hq
  unary p hp h := by
    have := List.all_eq_true.mp hunary _ (List.mem_map_of_mem hp)
    rw [h] at this
    cases this

def tables (digests : List (Bytes × BitVec 256)) : Tables where
  json := .ofTable jsonTable jsonTable_text jsonTable_inj
  digests := digests
  floats := floats
  isos := []
  stamps := stamps
  floats_texts := tableTexts (by decide +kernel) (by decide +kernel) (by decide +kernel)
  isos_texts := .nil
  stamps_texts := tableTexts (by decide +kernel) (by decide +kernel) (by decide +kernel)

theorem nodup_jsonTable : (jsonTable.map Prod.fst).Nodup := by decide +kernel

section Libraries

variable {digests : List (Bytes × BitVec 256)}

theorem line_of_mem {record : Dict} {t : String} (h : (record.toValue.val, t) ∈ jsonTable) :
    canonicalJson (.ofTables (tables digests)) record = .ok (Py.encodeUtf8 t) :=
  canonicalJson_eq_ok.mpr
    ⟨⟨t, Codec.ofTable_dumps jsonTable_text jsonTable_inj nodup_jsonTable h, rfl⟩, (jsonTable_texts _ h).2.2⟩

theorem strftime_cutoff : (Stdlib.ofTables (tables digests)).strftime cutoff = cutoffText := by
  have h : tableWrite stamps (fun t => t.val.toNat) cutoff = cutoffText := rfl
  exact h

theorem strftime_occurredAt :
    (Stdlib.ofTables (tables digests)).strftime occurredAt = occurredText := by
  have h : tableWrite stamps (fun t => t.val.toNat) occurredAt = occurredText := rfl
  exact h

theorem strftime_expiresAt : (Stdlib.ofTables (tables digests)).strftime expiresAt = expiresText := by
  have h : tableWrite stamps (fun t => t.val.toNat) expiresAt = expiresText := rfl
  exact h

theorem stamped {t : Instant} (h : FourDigitYear t) : Stamped (.ofTables (tables digests)) t :=
  stamped_of_fourDigitYear h

theorem compatible_sourceHead : Compatible sourceHead := by
  refine ⟨?_, List.mem_cons_self⟩
  decide

theorem header_line {limit : Value} {t : String} (h : (header limit, t) ∈ jsonTable) :
    canonicalJson (.ofTables (tables digests))
      (.ofList (headerFields (.ofTables (tables digests)) cutoff sourceHead limit)) =
        .ok (Py.encodeUtf8 t) := by
  refine line_of_mem ?_
  rw [headerFields, strftime_cutoff]
  exact h

/-- The library, with the digests of the archive of one event. -/
abbrev library : Stdlib := .ofTables (tables
  [(Py.encodeUtf8 payloadText, 0x0c8e5f83b25876f082871413887efce6f51996cfdf08dd60e7384784e394a0d8),
    (framed [headerText, eventText],
      0x47d60804c4a4ff00f5cd86cb327f056a1fdc9a95dde5a8432394281c0c9764b4),
    ((file texts).content, 0xa0d822454cf03a08c6baf730ac0ade8c6cff16ae6ac3829e1962d90c6251117a)])

/-- The library, with the digests of the archive without events. -/
abbrev floatLibrary : Stdlib := .ofTables (tables
  [(framed [floatHeaderText], 0xb4e65eca2ba5ab95ea51eae0c942fe81200802d42cf43bfae2164cab21c3ab7a),
    ((file floatTexts).content, 0xbba982a1b106c22b5ccc632d9aaf9a0659d76e4a102a1e19d8151861c46cee9c)])

def claimed : AuditEventReadFacts where
  id := "4f0c6a52-9d1e-4b7a-8c33-0a1b2c3d4e5f"
  eventKey := "run:r1:claimed:1"
  eventType := "run_claimed"
  payloadHash := "0c8e5f83b25876f082871413887efce6f51996cfdf08dd60e7384784e394a0d8"
  payload := payload
  retentionClass := .operational
  occurredAt := occurredAt
  expiresAt := expiresAt
  correlationId := none
  runId := some "r1"
  modelId := none
  questionId := none
  workerId := some "worker-1"
  reservationId := none
  attempt := none
  providerAttempt := none
  leaseToken := some 1
  durationMs := some duration

theorem valid_claimed : ValidEvent library claimed := by
  have hrun : (validatedFacts library (rawEvent claimed)).toBool = true := by decide +kernel
  obtain ⟨f, hf⟩ := exists_of_toBool hrun
  obtain ⟨hdescribes, hv⟩ := validatedFacts_eq_ok.mp hf
  have hduration : ∀ x ∈ claimed.durationMs, Duration x := by
    intro x hx
    cases hx
    refine ⟨?_, ?_, ?_⟩ <;> decide +kernel
  rwa [hdescribes.unique (describes_rawEvent hduration)] at hv

theorem contentDigest_map (L : Stdlib) (texts : List String) :
    contentDigest L (texts.map Py.encodeUtf8) = hexdigest (L.sha256 (framed texts)) := by
  rw [contentDigest, framed, List.flatMap_map]

theorem sha256_first {data : Bytes} {d : BitVec 256} :
    (Stdlib.ofTables (tables ((data, d) :: digests))).sha256 data = d :=
  congrArg (Option.getD · 0) List.lookup_cons_self

theorem sha256_second {data other : Bytes} {d d' : BitVec 256} (h : (data == other) = false) :
    (Stdlib.ofTables (tables ((other, d') :: (data, d) :: digests))).sha256 data = d := by
  have hlookup : ((other, d') :: (data, d) :: digests).lookup data = some d := by
    rw [List.lookup_cons, h]
    exact List.lookup_cons_self
  exact congrArg (Option.getD · 0) hlookup

theorem contentDigest_texts :
    contentDigest library ([headerText, eventText].map Py.encodeUtf8) = contentSha := by
  have hne : (framed [headerText, eventText] == Py.encodeUtf8 payloadText) = false := by
    decide +kernel
  rw [contentDigest_map, sha256_second hne]
  decide +kernel

theorem contentDigest_floatTexts :
    contentDigest floatLibrary ([floatHeaderText].map Py.encodeUtf8) = emptyContentSha := by
  rw [contentDigest_map, sha256_first]
  decide +kernel

theorem eventLine_claimed : EventLine library claimed (Py.encodeUtf8 eventText) := by
  have hhex : library.hex duration = ("0x1.8000000000000p+0" : Str) := rfl
  refine line_of_mem ?_
  simp only [eventFields, claimed, Option.map_some, hhex, strftime_occurredAt, strftime_expiresAt]
  exact List.mem_of_getElem? (i := 3) rfl

theorem manifest_line : canonicalJson library (.ofList
    (manifestFields library cutoff sourceHead [claimed] false contentSha)) =
      .ok (Py.encodeUtf8 manifestText) := by
  have hmin : ∀ a : Instant, [a].min? = some a := fun _ => rfl
  have hmax : ∀ a : Instant, [a].max? = some a := fun _ => rfl
  refine line_of_mem ?_
  simp only [manifestFields, claimed, extreme, List.map_cons, List.map_nil, hmin, hmax,
    Option.map_some, strftime_cutoff, strftime_occurredAt, strftime_expiresAt]
  exact List.mem_of_getElem? (i := 4) rfl

theorem floatManifest_line : canonicalJson floatLibrary (.ofList
    (manifestFields floatLibrary cutoff sourceHead [] false emptyContentSha)) =
      .ok (Py.encodeUtf8 emptyManifestText) := by
  refine line_of_mem ?_
  simp only [manifestFields, extreme, strftime_cutoff]
  exact List.mem_of_getElem? (i := 5) rfl

theorem archiveLines_texts : ArchiveLines library cutoff sourceHead (.int archiveEventLimit)
    [claimed] false contentSha (texts.map Py.encodeUtf8) := by
  have hheader : canonicalJson library (.ofList (headerFields library cutoff sourceHead
      (.int archiveEventLimit))) = .ok (Py.encodeUtf8 headerText) :=
    header_line (List.mem_of_getElem? (i := 1) rfl)
  have hmanifest := manifest_line
  rw [← contentDigest_texts] at hmanifest ⊢
  exact .intro hheader (.cons eventLine_claimed .nil) hmanifest

theorem archiveLines_floatTexts : ArchiveLines floatLibrary cutoff sourceHead
    ⟨.float floatLimit, trivial⟩ [] false emptyContentSha (floatTexts.map Py.encodeUtf8) := by
  have hheader : canonicalJson floatLibrary (.ofList (headerFields floatLibrary cutoff sourceHead
      ⟨.float floatLimit, trivial⟩)) = .ok (Py.encodeUtf8 floatHeaderText) :=
    header_line (List.mem_of_getElem? (i := 2) rfl)
  have hmanifest := floatManifest_line
  rw [← contentDigest_floatTexts] at hmanifest ⊢
  exact .intro hheader .nil hmanifest

theorem eligible_claimed : Eligible library cutoff sourceHead [claimed] where
  valid := fun _ hf => List.mem_singleton.mp hf ▸ valid_claimed
  compatible := compatible_sourceHead
  count := by decide
  ordered := by
    have h : ¬ cutoff ≤ claimed.expiresAt := by decide
    simp [checkEvents, h]

theorem eligible_nil : Eligible floatLibrary cutoff sourceHead [] where
  valid := fun _ hf => nomatch hf
  compatible := compatible_sourceHead
  count := by decide
  ordered := rfl

theorem length_file {texts : List String} (hne : texts ≠ [])
    (h : ∀ t ∈ texts, t ∈ jsonTable.map Prod.snd) :
    (file texts).content.length ≤ texts.length * (archiveLineLimitBytes + 1) := by
  have hlines : ∀ l ∈ texts.map Py.encodeUtf8, l.length ≤ archiveLineLimitBytes := by
    intro l hl
    obtain ⟨t, ht, rfl⟩ := List.mem_map.mp hl
    obtain ⟨p, hp, rfl⟩ := List.mem_map.mp (h t ht)
    exact (jsonTable_texts p hp).2.2
  have hlength := length_joinLines_le hlines (List.map_eq_nil_iff.not.mpr hne)
  rwa [List.length_map] at hlength

theorem length_texts : (file texts).content.length ≤ archiveFileLimitBytes := by
  refine (length_file (List.cons_ne_nil _ _) ?_).trans (by decide)
  simp [jsonTable]

theorem length_floatTexts : (file floatTexts).content.length ≤ archiveFileLimitBytes := by
  refine (length_file (List.cons_ne_nil _ _) ?_).trans (by decide)
  simp [jsonTable]

theorem build_texts : buildArchiveBytes library ([claimed].map rawEvent) cutoff.toDateTime
    (.str sourceHead) (.bool false) = .ok ((file texts).content, contentSha) :=
  buildArchiveBytes_of_lines archiveLines_texts eligible_claimed (stamped (by decide)) length_texts

theorem verify_floatTexts : verifyArchive floatLibrary (file floatTexts) .null =
    .ok ⟨cutoff, sourceHead, [], false, emptyContentSha,
      hexdigest (floatLibrary.sha256 (file floatTexts).content)⟩ := by
  have hlimit : (Json.float floatLimit).eq (.int archiveEventLimit) = true := by decide +kernel
  exact verifyArchive_of_lines ⟨rfl, rfl, rfl, length_floatTexts⟩ rfl rfl archiveLines_floatTexts
    hlimit rfl eligible_nil (stamped (by decide)) (fun _ hf => nomatch hf)

end Libraries

end Sample

/-- The archive of one event, verified. -/
theorem verifyArchive_claimed : ∃ v,
    verifyArchive Sample.library (Sample.file Sample.texts) .null = .ok v ∧
      v.cutoffAt = Sample.cutoff ∧ v.contentSha256 = Sample.contentSha := by
  have hyear : FourDigitYear Sample.cutoff ∧ FourDigitYear Sample.occurredAt ∧
      FourDigitYear Sample.expiresAt := by decide
  obtain ⟨cutoff, head, more, events, hcutoff, -, -, -, h⟩ := verifyArchive_buildArchiveBytes
    Sample.build_texts
    (fun t ht => by
      obtain rfl := Option.some.inj (ht.symm.trans (Instant.toUtc_toDateTime _))
      exact hyear.1)
    (fun raw hraw => by
      obtain rfl := List.mem_singleton.mp hraw
      refine ⟨fun t ht => ?_, fun t ht => ?_⟩
      · obtain rfl := Option.some.inj (ht.symm.trans (Instant.toUtc_toDateTime _))
        exact hyear.2.1
      · obtain rfl := Option.some.inj (ht.symm.trans (Instant.toUtc_toDateTime _))
        exact hyear.2.2)
    rfl rfl rfl rfl (.inl rfl)
  obtain rfl := Option.some.inj (hcutoff.symm.trans (Instant.toUtc_toDateTime _))
  exact ⟨_, h, rfl, rfl⟩

/-- The archive of one event is what is built of its events. -/
theorem buildArchiveBytes_claimed : ∃ v,
    verifyArchive Sample.library (Sample.file Sample.texts) .null = .ok v ∧
      buildArchiveBytes Sample.library (v.events.map rawEvent) v.cutoffAt.toDateTime
        (.str v.sourceAlembicHead) (.bool v.hasMoreEligible) =
          .ok ((Sample.file Sample.texts).content, v.contentSha256) := by
  have hstamped : StampedEvents Sample.library [Sample.claimed] := by
    intro f hf
    obtain rfl := List.mem_singleton.mp hf
    exact ⟨Sample.stamped (by decide), Sample.stamped (by decide)⟩
  have h : verifyArchive Sample.library (Sample.file Sample.texts) .null = .ok _ :=
    verifyArchive_of_lines ⟨rfl, rfl, rfl, Sample.length_texts⟩ rfl rfl Sample.archiveLines_texts
      (eq_int.mpr rfl) trivial Sample.eligible_claimed (Sample.stamped (by decide)) hstamped
  have hlimit := Sample.archiveLines_texts.headerLimit Sample.compatible_sourceHead trivial
  exact ⟨_, h, (buildArchiveBytes_verifyArchive h).1.mpr hlimit⟩

/-- A header that writes its limit as `10000.0` is accepted and is never built. -/
theorem buildArchiveBytes_ne_floatLimit :
    ¬ ∀ (L : Stdlib) (file : ArchiveFile) (expected : Json) (v : VerifiedAuditArchive),
      verifyArchive L file expected = .ok v →
        buildArchiveBytes L (v.events.map rawEvent) v.cutoffAt.toDateTime
          (.str v.sourceAlembicHead) (.bool v.hasMoreEligible) =
            .ok (file.content, v.contentSha256) := by
  intro h
  obtain ⟨cutoff, head, more, events, lines, -, -, -, -, heligible, hlines, hjoin, -⟩ :=
    buildArchiveBytes_eq_ok.mp (h _ _ _ _ Sample.verify_floatTexts)
  have hint := hlines.headerLimit heligible.compatible trivial
  have hfloat := Sample.archiveLines_floatTexts.headerLimit Sample.compatible_sourceHead rfl
  rw [← hjoin] at hint
  have heq := Option.some.inj (hfloat.symm.trans hint)
  exact nomatch congrArg Subtype.val heq

end Archive

end LLMBenchLab
