import LLMBenchLab.FormatStrings
import LLMBenchLab.Json
import LLMBenchLab.Numerals
import LLMBenchLab.Regex
import LLMBenchLab.Replacing

/-!
# Converters of the standard datasets

`standard_datasets/mmlu_pro.py` and `standard_datasets/gpqa.py` turn pinned source
rows into multiple-choice questions. The answer travels as an index on the MMLU-Pro
side and as a flag through a shuffle on the GPQA side; in the question it is a letter.
-/

namespace LLMBenchLab

namespace StandardDatasets

open Python
open Text (Str CodePoint ofString encodeUtf8 Scalar)

/-! ## What the converters share -/

/-- `StandardDatasetError` -/
structure StandardDatasetError where
  message : Str
  deriving DecidableEq

/-- A value as far as the converters ask for its class. -/
inductive Cell : Type where
  | null
  | bool (b : Bool)
  | integer (n : ℤ)
  | text (s : Str)
  | list (items : List Cell)
  | other

/-- A row with its fields by name; `row.get(field)` is none for a missing one too. -/
abbrev SourceRow := List (String × Cell)

def SourceRow.get (row : SourceRow) (field : String) : Cell := (row.lookup field).getD .null

/-- A text, if the cell is one. -/
def Cell.asText : Cell → Option Str
  | .text s => some s
  | _ => none

def fail {α : Type} (message : Str) : Except StandardDatasetError α := .error ⟨message⟩

/-- `raise StandardDatasetError(...)` about a row. -/
def rowError {α : Type} (dataset : String) (rowNumber : ℕ) (rest : String) :
    Except StandardDatasetError α :=
  fail (ofString dataset ++ ofString " row " ++ natText rowNumber ++ ofString " has " ++ ofString rest)

/-- `validate_limit` -/
def validateLimit : Cell → Except StandardDatasetError (Option ℕ)
  | .null => .ok none
  | .integer n => if n ≤ 0 then fail (ofString "limit must be a positive integer") else .ok (some n.toNat)
  | _ => fail (ofString "limit must be a positive integer")

/-- `texts` in the order of their case-folded forms. -/
def sortCasefold (u : Unicode) (texts : List Str) : List Str :=
  texts.mergeSort fun a b => u.casefold a ≤ u.casefold b

/-- `normalize_selection`: `available` in the order in which the set is walked, `repr`
that of a text. -/
def normalizeSelection (u : Unicode) (repr : Str → Str) (requested : Option (List Cell))
    (available : List Str) (label : String) : Except StandardDatasetError (Option (List Str)) :=
  match requested with
  | none => .ok none
  | some raw => do
    let known := available.reverse.map fun item => (u.casefold item, item)
    let choose (value : Cell) : Except StandardDatasetError Str :=
      match value with
      | .text s =>
        if strip s = [] then fail (ofString label ++ ofString " filters must be non-empty strings")
        else
          match known.lookup (u.casefold (strip s)) with
          | some item => .ok item
          | none =>
            fail (ofString "unknown " ++ ofString label ++ ofString " " ++ repr s ++
              ofString "; available values: " ++
              List.intercalate (ofString ", ") (sortCasefold u (known.map Prod.snd)))
      | _ => fail (ofString label ++ ofString " filters must be non-empty strings")
    let normalized ← raw.mapM choose
    if normalized = [] then
      fail (ofString "at least one " ++ ofString label ++ ofString " must be selected")
    else .ok (some (sortCasefold u normalized.dedup))

/-- The rows of a selection, by the field that it filters on. -/
def select {Row : Type} (field : Row → Str) (selection : Option (List Str)) (limit : Option ℕ)
    (rows : List Row) : List Row :=
  let selected := rows.filter fun row => selection.all fun names => names.contains (field row)
  limit.elim selected selected.take

theorem mem_of_mem_select {Row : Type} {field : Row → Str} {selection : Option (List Str)}
    {limit : Option ℕ} {rows : List Row} {row : Row} (h : row ∈ select field selection limit rows) :
    row ∈ rows := by
  rw [select] at h
  cases limit with
  | none => exact List.mem_of_mem_filter h
  | some n => exact List.mem_of_mem_filter (List.mem_of_mem_take h)

/-- A multiple-choice question with what a converter keeps of the source. -/
structure Question where
  id : Str
  prompt : Str
  choices : List (Str × Str)
  answer : Str
  metadata : List (String × Cell)

/-- The labels of the choices, one letter each. -/
def labels (letters : Str) : List Str := letters.map ([·])

theorem nodup_labels {letters : Str} (h : letters.Nodup) : (labels letters).Nodup :=
  h.map fun _ _ heq => (List.cons.inj heq).1

/-- The choice under the label of a position is the text at that position. -/
theorem lookup_zip {α β : Type} [BEq α] [LawfulBEq α] {keys : List α} (hkeys : keys.Nodup)
    (values : List β) {i : ℕ} {k : α} (hk : keys[i]? = some k) :
    (keys.zip values).lookup k = values[i]? := by
  induction keys generalizing i values with
  | nil => cases hk
  | cons key keys ih =>
    obtain ⟨hnotin, hkeys⟩ := List.nodup_cons.mp hkeys
    cases values with
    | nil => rfl
    | cons v values =>
      rw [List.zip_cons_cons]
      cases i with
      | zero =>
        obtain rfl : key = k := Option.some.inj hk
        rw [List.lookup_cons_self]
        rfl
      | succ i =>
        have hk' : keys[i]? = some k := hk
        have hne : (k == key) = false := by
          rw [beq_eq_false_iff_ne]
          rintro rfl
          exact hnotin (List.mem_of_getElem? hk')
        rw [List.lookup_cons, hne]
        exact ih hkeys values hk'

/-! ## MMLU-Pro -/

namespace MmluPro

/-- `_LETTERS` -/
def letters : Str := ofString "ABCDEFGHIJKLMNOPQRSTUVWXYZ"

theorem nodup_letters : letters.Nodup := by decide

/-- `_LETTERS[index]` -/
def letter (index : ℕ) : Option Str := (labels letters)[index]?

/-- What `_normalize_row` returns; the fields below the texts are what it checked. -/
structure NormalizedRow where
  questionId : Str
  question : Str
  options : List Str
  answer : Str
  answerIndex : ℕ
  category : Str
  src : Str
  cotContent : Str
  count : 2 ≤ options.length ∧ options.length ≤ 26
  inRange : answerIndex < options.length
  consistent : letter answerIndex = some answer

def notAvailable : Str := ofString "N/A"

/-- `option == "N/A"` -/
def isNotAvailable : Cell → Bool
  | .text s => s == notAvailable
  | _ => false

/-- `_require_text` -/
def requireText (row : SourceRow) (field : String) (rowNumber : ℕ) : Except StandardDatasetError Str :=
  match row.get field with
  | .text s => if strip s = [] then rowError "MMLU-Pro" rowNumber ("invalid " ++ field) else .ok (strip s)
  | _ => rowError "MMLU-Pro" rowNumber ("invalid " ++ field)

/-- The question id as a text. -/
def questionIdOf (row : SourceRow) (rowNumber : ℕ) : Except StandardDatasetError Str :=
  let checked (id : Str) : Except StandardDatasetError Str :=
    if strip id = [] then rowError "MMLU-Pro" rowNumber "empty question_id" else .ok (strip id)
  match row.get "question_id" with
  | .integer n => checked (intText n)
  | .text s => checked s
  | _ => rowError "MMLU-Pro" rowNumber "invalid question_id"

/-- An option that is not skipped. -/
def keptOption (rowNumber : ℕ) : Cell → Except StandardDatasetError Str
  | .text s => if strip s = [] then rowError "MMLU-Pro" rowNumber "an invalid option" else .ok (strip s)
  | _ => rowError "MMLU-Pro" rowNumber "an invalid option"

/-- The loop over the options of a row. -/
def collectOptions (rowNumber : ℕ) : List Cell → Except StandardDatasetError (List Str)
  | [] => .ok []
  | option :: rest =>
    if isNotAvailable option then collectOptions rowNumber rest
    else do
      let kept ← keptOption rowNumber option
      (collectOptions rowNumber rest).map (kept :: ·)

/-- The options of a row that are available, trimmed. -/
def optionsOf (row : SourceRow) (rowNumber : ℕ) : Except StandardDatasetError (List Str) :=
  match row.get "options" with
  | .list raw => collectOptions rowNumber raw
  | _ => rowError "MMLU-Pro" rowNumber "invalid options"

/-- The answer index of a row. -/
def answerIndexOf (row : SourceRow) (rowNumber : ℕ) : Except StandardDatasetError ℤ :=
  match row.get "answer_index" with
  | .integer n => .ok n
  | _ => rowError "MMLU-Pro" rowNumber "invalid answer_index"

/-- A text that may be missing. -/
def textOr (row : SourceRow) (field : String) (missing : Str) (rowNumber : ℕ) :
    Except StandardDatasetError Str :=
  match row.get field with
  | .null => .ok missing
  | .text s => .ok s
  | _ => rowError "MMLU-Pro" rowNumber ("invalid " ++ field)

/-- `_normalize_row` -/
def normalizeRow (u : Unicode) (row : SourceRow) (rowNumber : ℕ) :
    Except StandardDatasetError NormalizedRow := do
  let questionId ← questionIdOf row rowNumber
  let options ← optionsOf row rowNumber
  if hcount : 2 ≤ options.length ∧ options.length ≤ 26 then
    let answer := u.upper (← requireText row "answer" rowNumber)
    let index ← answerIndexOf row rowNumber
    if hindex : 0 ≤ index ∧ index.toNat < options.length ∧ letter index.toNat = some answer then
      let source ← textOr row "src" (ofString "unknown") rowNumber
      let cotContent ← textOr row "cot_content" [] rowNumber
      let question ← requireText row "question" rowNumber
      let category ← requireText row "category" rowNumber
      .ok {
        questionId, question, options, answer, category
        answerIndex := index.toNat
        src := if strip source = [] then ofString "unknown" else strip source
        cotContent := strip cotContent
        count := hcount
        inRange := hindex.2.1
        consistent := hindex.2.2 }
    else rowError "MMLU-Pro" rowNumber "inconsistent answer and answer_index"
  else rowError "MMLU-Pro" rowNumber "an unsupported option count"

/-- The choices of a question; there are no more options than letters. -/
def choices (row : NormalizedRow) : List (Str × Str) := (labels letters).zip row.options

/-- `_format_question` -/
def formatQuestion (row : NormalizedRow) : Str :=
  ofString "Question:\n" ++ row.question ++ ofString "\nOptions:\n" ++
    (choices row).flatMap fun c => c.1 ++ ofString ". " ++ c.2 ++ ofString "\n"

/-- `_direct_prompt` -/
def directPrompt (row : NormalizedRow) : Str :=
  ofString "Answer the following multiple choice question. Respond with only the correct option letter.\n\n" ++
    formatQuestion row ++ ofString "Answer:"

/-- `_format_official_example` -/
def formatOfficialExample (row : NormalizedRow) : Except StandardDatasetError Str :=
  if row.cotContent = [] then
    fail (ofString "MMLU-Pro validation example " ++ row.questionId ++ ofString " has empty cot_content")
  else
    .ok (formatQuestion row ++
      Text.replace (ofString "A: Let's think step by step.")
        (ofString "Answer: Let's think step by step.") row.cotContent ++
      ofString "\n\n")

def cotShots : ℕ := 5

/-- `_OFFICIAL_INITIAL_PROMPT` -/
def officialInitialPrompt : Str :=
  ofString "The following are multiple choice questions (with answers) about \x7bcategory\x7d. Think step by step and then finish your answer with \"the answer is (X)\" where X is the correct letter choice.\n"

/-- `_official_prompt`, `examples` being those of all categories in order. -/
def officialPrompt (repr : Str → Str) (row : NormalizedRow) (examples : List NormalizedRow) :
    Except StandardDatasetError Str := do
  let examples := examples.filter fun e => e.category = row.category
  if examples.length < cotShots then
    fail (ofString "MMLU-Pro category " ++ repr row.category ++ ofString " has fewer than " ++
      natText cotShots ++ ofString " validation examples")
  else
    let fewShot ← (examples.take cotShots).mapM formatOfficialExample
    .ok (FormatString.render (fun _ => row.category) (FormatString.parse officialInitialPrompt).1 ++
      fewShot.flatten ++ formatQuestion row ++ ofString "Answer: Let's think step by step.")

inductive Profile where
  | direct
  | officialCot
  deriving DecidableEq

def Profile.name : Profile → String
  | direct => "direct"
  | officialCot => "official_cot"

/-- `_normalize_rows`: every row is read before the ids are compared. -/
def normalizeRows (u : Unicode) (split : String) (rows : List SourceRow) :
    Except StandardDatasetError (List NormalizedRow) := do
  let normalized ← (rows.zipIdx 1).mapM fun (row, rowNumber) => normalizeRow u row rowNumber
  if (normalized.map NormalizedRow.questionId).Nodup then .ok normalized
  else fail (ofString "MMLU-Pro " ++ ofString split ++ ofString " contains duplicate question_id")

/-- One question of `prepare_mmlu_pro`. -/
def question (repr : Str → Str) (profile : Profile) (examples : List NormalizedRow)
    (row : NormalizedRow) : Except StandardDatasetError Question := do
  let prompt ←
    match profile with
    | .officialCot => officialPrompt repr row examples
    | .direct => .ok (directPrompt row)
  .ok {
    id := ofString "mmlu-pro-" ++ row.questionId
    prompt
    choices := choices row
    answer := row.answer
    metadata := [("category", .text row.category), ("profile", .text (ofString profile.name)),
      ("source", .text row.src)] }

/-- The questions of `prepare_mmlu_pro`. -/
def prepareMmluPro (u : Unicode) (repr : Str → Str) (profile : Profile)
    (categories : Option (List Cell)) (limit : Cell) (testRows validationRows : List SourceRow) :
    Except StandardDatasetError (List Question) := do
  let limit ← validateLimit limit
  let testRows ← normalizeRows u "test" testRows
  let validationRows ← normalizeRows u "validation" validationRows
  let available := (testRows.map NormalizedRow.category).dedup
  let selection ← normalizeSelection u repr categories available "category"
  let selected := select NormalizedRow.category selection limit testRows
  if selected = [] then fail (ofString "MMLU-Pro selection produced no test questions")
  else selected.mapM (question repr profile validationRows)

/-! ### Where the answer comes from -/

/-- An option that is kept. -/
def available (option : Cell) : Bool := !isNotAvailable option

/-- The trimmed text of an option. -/
def trimmed (option : Cell) : Option Str := option.asText.map strip

/-- `options[answer_index]` of the source row, trimmed. -/
def sourceOption (row : SourceRow) : Option Str :=
  match row.get "options", row.get "answer_index" with
  | .list raw, .integer index => raw[index.toNat]?.bind trimmed
  | _, _ => none

theorem keptOption_eq_ok {n : ℕ} {option : Cell} {s : Str} (h : keptOption n option = .ok s) :
    trimmed option = some s := by
  cases option with
  | text t =>
    rw [keptOption] at h
    split_ifs at h
    · cases h
    · exact congrArg some (Except.ok.inj h)
  | _ => cases h

theorem collectOptions_eq_ok {n : ℕ} {raw : List Cell} {options : List Str}
    (h : collectOptions n raw = .ok options) :
    (raw.filter available).map trimmed = options.map some := by
  induction raw generalizing options with
  | nil =>
    cases h
    rfl
  | cons option rest ih =>
    rw [collectOptions] at h
    split_ifs at h with hskip
    · rw [List.filter_cons_of_neg (by simp [available, hskip])]
      exact ih h
    · obtain ⟨kept, hkept, h⟩ := bind_eq_ok.mp h
      obtain ⟨options', hrest, rfl⟩ := map_eq_ok.mp h
      rw [List.filter_cons_of_pos (by simp [available, hskip]), List.map_cons, List.map_cons,
        keptOption_eq_ok hkept, ih hrest]

/-- What an accepted row was. -/
theorem normalizeRow_eq_ok {u : Unicode} {row : SourceRow} {n : ℕ} {r : NormalizedRow}
    (h : normalizeRow u row n = .ok r) :
    ∃ raw, row.get "options" = .list raw ∧ collectOptions n raw = .ok r.options ∧
      row.get "answer_index" = .integer r.answerIndex := by
  obtain ⟨questionId, -, h⟩ := bind_eq_ok.mp h
  obtain ⟨options, hoptions, h⟩ := bind_eq_ok.mp h
  split_ifs at h with hcount
  · obtain ⟨answer, -, h⟩ := bind_eq_ok.mp h
    obtain ⟨index, hindex, h⟩ := bind_eq_ok.mp h
    split_ifs at h with hinrange
    · obtain ⟨source, -, h⟩ := bind_eq_ok.mp h
      obtain ⟨cotContent, -, h⟩ := bind_eq_ok.mp h
      obtain ⟨text, -, h⟩ := bind_eq_ok.mp h
      obtain ⟨category, -, h⟩ := bind_eq_ok.mp h
      cases h
      rw [optionsOf] at hoptions
      rw [answerIndexOf] at hindex
      split at hoptions
      · next raw hraw =>
        refine ⟨raw, hraw, hoptions, ?_⟩
        split at hindex
        · next i hi =>
          cases hindex
          rw [hi, Int.toNat_of_nonneg hinrange.1]
        · cases hindex
      · cases hoptions
    · cases h
  · cases h

/-- `a` stands behind `before` and is the one of rank `i` among those that pass. -/
structure Ranked {α : Type} (p : α → Bool) (l : List α) (i : ℕ) (before : List α) (a : α) : Prop where
  here : before ++ [a] <+: l
  pass : p a = true
  rank : before.countP p = i

theorem Ranked.getElem?_filter {α : Type} {p : α → Bool} {l before : List α} {i : ℕ} {a : α}
    (h : Ranked p l i before a) : (l.filter p)[i]? = some a := by
  obtain ⟨after, rfl⟩ := h.here
  have hlen : (before.filter p).length = i := by
    rw [← List.countP_eq_length_filter, h.rank]
  rw [List.append_assoc, List.filter_append, ← hlen, List.getElem?_append_right (Nat.le_refl _),
    Nat.sub_self, List.singleton_append, List.filter_cons_of_pos h.pass]
  rfl

theorem exists_ranked {α : Type} {p : α → Bool} {l : List α} {i : ℕ} (h : i < (l.filter p).length) :
    ∃ before a, Ranked p l i before a := by
  induction l generalizing i with
  | nil => cases h
  | cons x l ih =>
    by_cases hx : p x = true
    · rw [List.filter_cons_of_pos hx, List.length_cons] at h
      cases i with
      | zero => exact ⟨[], x, ⟨l, rfl⟩, hx, rfl⟩
      | succ i =>
        obtain ⟨before, a, hhere, hpass, hrank⟩ := ih (Nat.lt_of_succ_lt_succ h)
        refine ⟨x :: before, a, List.cons_prefix_cons.mpr ⟨rfl, hhere⟩, hpass, ?_⟩
        rw [List.countP_cons_of_pos hx, hrank]
    · rw [List.filter_cons_of_neg hx] at h
      obtain ⟨before, a, hhere, hpass, hrank⟩ := ih h
      refine ⟨x :: before, a, List.cons_prefix_cons.mpr ⟨rfl, hhere⟩, hpass, ?_⟩
      rw [List.countP_cons_of_neg hx, hrank]

/-- No option up to the answer was dropped. -/
def Unshifted (raw : List Cell) (index : ℕ) : Prop :=
  ∀ option ∈ raw.take (index + 1), available option = true

instance (raw : List Cell) (index : ℕ) : Decidable (Unshifted raw index) :=
  inferInstanceAs (Decidable (∀ _ ∈ _, _))

/-- An option from further back took the place of the answer, with the same text. -/
def Repeated (raw : List Cell) (index : ℕ) : Prop :=
  ∃ before option, Ranked available raw index before option ∧ index < before.length ∧
    trimmed option = raw[index]?.bind trimmed

/-- The kept option of rank `index`. -/
theorem getElem?_of_ranked {n index : ℕ} {raw before : List Cell} {options : List Str} {option : Cell}
    (h : collectOptions n raw = .ok options) (hrank : Ranked available raw index before option) :
    options[index]? = trimmed option := by
  have hmap := congrArg (·[index]?) (collectOptions_eq_ok h)
  simp only [List.getElem?_map, hrank.getElem?_filter, Option.map_some] at hmap
  cases hget : options[index]? with
  | none =>
    rw [hget] at hmap
    cases hmap
  | some s =>
    rw [hget] at hmap
    exact (Option.some.inj hmap).symm

theorem Ranked.le_length {α : Type} {p : α → Bool} {l before : List α} {i : ℕ} {a : α}
    (h : Ranked p l i before a) : i ≤ before.length :=
  h.rank ▸ List.countP_le_length

/-- Where nothing in front was dropped, the option of a rank is the one at its place. -/
theorem Ranked.take_eq {α : Type} {p : α → Bool} {l before : List α} {i : ℕ} {a : α}
    (h : Ranked p l i before a) (hlen : before.length = i) :
    l.take (i + 1) = before ++ [a] ∧ ∀ x ∈ before ++ [a], p x = true := by
  refine ⟨?_, ?_⟩
  · rw [List.prefix_iff_eq_take.mp h.here, List.length_append, List.length_singleton, hlen]
  · intro x hx
    rcases List.mem_append.mp hx with hx | hx
    · exact List.countP_eq_length.mp (h.rank.trans hlen.symm) x hx
    · exact List.mem_singleton.mp hx ▸ h.pass

theorem kept_iff {n index : ℕ} {raw : List Cell} {options : List Str}
    (h : collectOptions n raw = .ok options) (hindex : index < options.length) :
    options[index]? = raw[index]?.bind trimmed ↔ Unshifted raw index ∨ Repeated raw index := by
  have hlength : (raw.filter available).length = options.length := by
    rw [← List.length_map (f := trimmed), collectOptions_eq_ok h, List.length_map]
  obtain ⟨before, option, hrank⟩ := exists_ranked (hlength.symm ▸ hindex)
  have hkept := getElem?_of_ranked h hrank
  rcases Nat.eq_or_lt_of_le hrank.le_length with heq | hlt
  · -- nothing in front of the option was dropped
    obtain ⟨htake, hall⟩ := hrank.take_eq heq.symm
    have hraw : raw[index]? = some option := by
      rw [← List.getElem?_take_of_lt (Nat.lt_succ_self index), htake, heq,
        List.getElem?_concat_length]
    refine iff_of_true ?_ (.inl ?_)
    · rw [hkept, hraw, Option.bind_some]
    · rw [Unshifted, htake]
      exact hall
  · -- the option comes from further back
    constructor
    · intro hsame
      exact .inr ⟨before, option, hrank, hlt, hkept.symm.trans hsame⟩
    · rintro (hall | ⟨before', option', hrank', -, hsame⟩)
      · have htake : raw.take (index + 1) <+: before := by
          refine List.prefix_of_prefix_length_le (List.take_prefix _ _)
            ((List.prefix_append before [option]).trans hrank.here) ?_
          exact (List.length_take_le _ _).trans hlt
        have hfull : (raw.take (index + 1)).length = index + 1 := by
          rw [List.length_take, Nat.min_eq_left]
          exact (Nat.succ_le_of_lt hlt).trans
            (((List.prefix_append before [option]).trans hrank.here).length_le)
        have hcount : (raw.take (index + 1)).countP available ≤ before.countP available :=
          htake.sublist.countP_le
        rw [List.countP_eq_length.mpr hall, hfull, hrank.rank] at hcount
        exact absurd hcount (Nat.not_succ_le_self index)
      · rw [getElem?_of_ranked h hrank', hsame]

/-- The choice under the letter of the answer. -/
theorem lookup_choices (r : NormalizedRow) : (choices r).lookup r.answer = r.options[r.answerIndex]? :=
  lookup_zip (nodup_labels nodup_letters) r.options r.consistent

end MmluPro

/-! ## GPQA -/

namespace Gpqa

/-- A row of the CSV file, decoded; a short line has nothing in its last columns. -/
abbrev CsvRow := List (String × Option String)

/-- `_LETTERS` -/
def letters : Str := ofString "ABCD"

theorem nodup_letters : letters.Nodup := by decide

structure NormalizedRow where
  recordId : Str
  question : Str
  correctAnswer : Str
  incorrectAnswers : List Str
  domain : Str
  subdomain : Str
  three : incorrectAnswers.length = 3
  decoded : Scalar recordId

theorem scalar_strip {s : Str} (h : Scalar s) : Scalar (strip s) := by
  apply h.of_subset
  intro c hc
  apply List.dropWhile_sublist isSpace |>.subset
  exact List.mem_reverse.mp ((List.dropWhile_sublist isSpace).subset (List.mem_reverse.mp hc))

/-- `_required_text` -/
def requiredText (row : CsvRow) (field : String) (rowNumber : ℕ) :
    Except StandardDatasetError { s : Str // Scalar s } :=
  match (row.lookup field).join with
  | some value =>
    if strip (ofString value) = [] then rowError "GPQA Diamond" rowNumber ("invalid " ++ field)
    else .ok ⟨strip (ofString value), scalar_strip (Text.scalar_ofString value)⟩
  | none => rowError "GPQA Diamond" rowNumber ("invalid " ++ field)

/-- A row after its record id. -/
def normalizeRow (recordId : { s : Str // Scalar s }) (row : CsvRow) (rowNumber : ℕ) :
    Except StandardDatasetError NormalizedRow := do
  let question ← requiredText row "Question" rowNumber
  let correctAnswer ← requiredText row "Correct Answer" rowNumber
  let first ← requiredText row "Incorrect Answer 1" rowNumber
  let second ← requiredText row "Incorrect Answer 2" rowNumber
  let third ← requiredText row "Incorrect Answer 3" rowNumber
  let domain ← requiredText row "High-level domain" rowNumber
  let subdomain ← requiredText row "Subdomain" rowNumber
  .ok {
    recordId := recordId.val
    question := question.val
    correctAnswer := correctAnswer.val
    incorrectAnswers := [first.val, second.val, third.val]
    domain := domain.val
    subdomain := subdomain.val
    three := rfl
    decoded := recordId.property }

/-- The loop of `_normalize_rows`, behind the record ids in `seen`. -/
def normalizeRowsFrom (seen : List Str) (rowNumber : ℕ) :
    List CsvRow → Except StandardDatasetError (List NormalizedRow)
  | [] => .ok []
  | row :: rows => do
    let recordId ← requiredText row "Record ID" rowNumber
    if recordId.val ∈ seen then fail (ofString "GPQA Diamond contains duplicate Record ID values")
    else
      let normalized ← normalizeRow recordId row rowNumber
      (normalizeRowsFrom (recordId.val :: seen) (rowNumber + 1) rows).map (normalized :: ·)

/-- `_normalize_rows` -/
def normalizeRows (rows : List CsvRow) : Except StandardDatasetError (List NormalizedRow) :=
  normalizeRowsFrom [] 1 rows

/-- What the place of an answer is hashed from. -/
def placeText (seed : ℤ) (recordId : Str) (index : ℕ) : Str :=
  intText seed ++ [0] ++ recordId ++ [0] ++ natText index

theorem scalar_natText (n : ℕ) : Scalar (natText n) := by
  intro c hc
  obtain ⟨d, hd, rfl⟩ := List.mem_map.mp hc
  have hlt := Decimal.lt_of_mem_digitsOf hd
  rw [Decimal.val_digitChar hlt]
  exact .inl (by omega)

theorem scalar_placeText (seed : ℤ) {recordId : Str} (h : Scalar recordId) (index : ℕ) :
    Scalar (placeText seed recordId index) := by
  have hzero : Scalar [0] := by
    intro c hc
    rw [List.mem_singleton.mp hc]
    decide
  have hseed : Scalar (intText seed) := by
    rw [intText]
    split_ifs
    · exact (Text.scalar_ofString "-").append (scalar_natText _)
    · exact scalar_natText _
  exact (((hseed.append hzero).append h).append hzero).append (scalar_natText index)

section

variable (sha256 : List UInt8 → BitVec 256)

/-- The key of an answer in the shuffle: the digest of its place, then the place. -/
def sortKey (seed : ℤ) (recordId : { s : Str // Scalar s }) (index : ℕ) : BitVec 256 × ℕ :=
  (sha256 ((encodeUtf8 (placeText seed recordId.val index)).get
    (scalar_placeText seed recordId.property index).encodeUtf8_isSome), index)

def keyLe (a b : BitVec 256 × ℕ) : Bool := a.1 < b.1 || a.1 == b.1 && a.2 ≤ b.2

def NormalizedRow.id (row : NormalizedRow) : { s : Str // Scalar s } := ⟨row.recordId, row.decoded⟩

/-- The answers of a row, the correct one first. -/
def NormalizedRow.answers (row : NormalizedRow) : List Str := row.correctAnswer :: row.incorrectAnswers

/-- The answers in the order of their keys, with whether they are correct. -/
def shuffled (row : NormalizedRow) (seed : ℤ) : List (Str × Bool) :=
  let options := (row.correctAnswer, true) :: row.incorrectAnswers.map (·, false)
  (options.zipIdx.mergeSort fun a b =>
    keyLe (sortKey sha256 seed row.id a.2) (sortKey sha256 seed row.id b.2)).map Prod.fst

/-- `_shuffled_choices`; `next` finds a letter, for one answer is the correct one. -/
def shuffledChoices (row : NormalizedRow) (seed : ℤ) : List (Str × Str) × Str :=
  let options := shuffled sha256 row seed
  ((labels letters).zip (options.map Prod.fst),
    (((labels letters).zip options).find? fun x => x.2.2).elim [] Prod.fst)

/-- `_validate_seed` -/
def validateSeed : Cell → Except StandardDatasetError ℤ
  | .integer n =>
    if -2 ^ 63 ≤ n ∧ n < 2 ^ 63 then .ok n
    else fail (ofString "seed must fit in a signed 64-bit integer")
  | _ => fail (ofString "seed must be an integer")

/-- One question of `prepare_gpqa_diamond`. -/
def question (seed : ℤ) (row : NormalizedRow) : Question where
  id := ofString "gpqa-" ++ row.recordId
  prompt := row.question
  choices := (shuffledChoices sha256 row seed).1
  answer := (shuffledChoices sha256 row seed).2
  metadata := [("domain", .text row.domain), ("subdomain", .text row.subdomain),
    ("shuffle_seed", .integer seed)]

/-- The questions of `prepare_gpqa_diamond`. -/
def prepareGpqaDiamond (u : Unicode) (repr : Str → Str) (seed : Cell) (domains : Option (List Cell))
    (limit : Cell) (rows : List CsvRow) : Except StandardDatasetError (List Question) := do
  let seed ← validateSeed seed
  let limit ← validateLimit limit
  let rows ← normalizeRows rows
  let available := (rows.map NormalizedRow.domain).dedup
  let selection ← normalizeSelection u repr domains available "domain"
  let selected := select NormalizedRow.domain selection limit rows
  if selected = [] then fail (ofString "GPQA-Diamond selection produced no questions")
  else .ok (selected.map (question sha256 seed))

/-! ### The shuffle -/

/-- The places of the four answers in the order of their keys: nothing of the row but
its id has a part in it. -/
def order (seed : ℤ) (recordId : { s : Str // Scalar s }) : List ℕ :=
  (List.range 4).mergeSort fun i j =>
    keyLe (sortKey sha256 seed recordId i) (sortKey sha256 seed recordId j)

theorem order_perm (seed : ℤ) (recordId : { s : Str // Scalar s }) :
    (order sha256 seed recordId).Perm (List.range 4) :=
  List.mergeSort_perm _ _

/-- The order by the text of a record id. -/
def orderOf (seed : ℤ) (recordId : Str) : List ℕ :=
  if h : Scalar recordId then order sha256 seed ⟨recordId, h⟩ else []

/-- An answer and whether it is the correct one, by its place. -/
def NormalizedRow.option (row : NormalizedRow) (i : ℕ) : Str × Bool := (row.answers.getD i [], i == 0)

theorem shuffled_eq (row : NormalizedRow) (seed : ℤ) :
    shuffled sha256 row seed = (order sha256 seed row.id).map row.option := by
  obtain ⟨a, b, c, habc⟩ := List.length_eq_three.mp row.three
  have hoptions : ((row.correctAnswer, true) :: row.incorrectAnswers.map (·, false)).zipIdx =
      (List.range 4).map fun i => (row.option i, i) := by
    simp only [NormalizedRow.option, NormalizedRow.answers, habc]
    rfl
  have hsort : ((List.range 4).map fun i => (row.option i, i)).mergeSort (fun a b =>
      keyLe (sortKey sha256 seed row.id a.2) (sortKey sha256 seed row.id b.2)) =
        (order sha256 seed row.id).map fun i => (row.option i, i) := by
    rw [order]
    symm
    apply List.map_mergeSort
    intro i _ j _
    rfl
  rw [shuffled, hoptions, hsort, List.map_map]
  rfl

end

/-- What goes on from the place of the correct answer. -/
theorem find?_zip {α β : Type} {p : β → Bool} {keys : List α} {before : List β} (after : List β)
    {b : β} (hbefore : ∀ x ∈ before, p x = false) (hb : p b = true) (hlen : before.length < keys.length) :
    ((keys.zip (before ++ b :: after)).find? fun x => p x.2) = (keys[before.length]?).map (·, b) := by
  induction before generalizing keys with
  | nil =>
    obtain ⟨k, ks, rfl⟩ := List.exists_cons_of_length_pos hlen
    exact List.find?_cons_of_pos hb
  | cons x before ih =>
    obtain ⟨k, ks, rfl⟩ := List.exists_cons_of_length_pos (Nat.zero_lt_of_lt hlen)
    have hx : ¬ p x = true := by simp [hbefore x]
    calc _ = (ks.zip (before ++ b :: after)).find? fun x => p x.2 := List.find?_cons_of_neg hx
      _ = _ := ih (fun y hy => hbefore y (List.mem_cons_of_mem x hy)) (Nat.lt_of_succ_lt_succ hlen)

/-- The answers of a row stand under the letters in a given order, and the letter of the
correct one is told. -/
structure Assigned (order : List ℕ) (row : NormalizedRow) (choices : List (Str × Str))
    (answer : Str) : Prop where
  perm : order.Perm (List.range 4)
  choices_eq : choices = (labels letters).zip (order.map fun i => row.answers.getD i [])
  answer_eq : (labels letters)[order.idxOf 0]? = some answer

theorem shuffledChoices_assigned (sha256 : List UInt8 → BitVec 256) (row : NormalizedRow) (seed : ℤ) :
    Assigned (order sha256 seed row.id) row (shuffledChoices sha256 row seed).1
      (shuffledChoices sha256 row seed).2 := by
  have hperm := order_perm sha256 seed row.id
  have hshuffled := shuffled_eq sha256 row seed
  revert hperm hshuffled
  generalize order sha256 seed row.id = places
  intro hperm hshuffled
  refine ⟨hperm, ?_, ?_⟩
  · rw [shuffledChoices, hshuffled, List.map_map]
    rfl
  · -- the correct answer stands first before the shuffle
    obtain ⟨before, after, hsplit, hnotin⟩ := List.eq_append_cons_of_mem
      (hperm.mem_iff.mpr (List.mem_range.mpr (by decide : 0 < 4)))
    have hlen : before.length < (labels letters).length := by
      have := hperm.length_eq
      rw [hsplit, List.length_append, List.length_cons, List.length_range] at this
      calc before.length < 4 := by omega
        _ = (labels letters).length := rfl
    have hbefore : ∀ x ∈ before.map row.option, x.2 = false := by
      intro x hx
      obtain ⟨i, hi, rfl⟩ := List.mem_map.mp hx
      exact beq_eq_false_iff_ne.mpr fun h => hnotin (h ▸ hi)
    have hfind := find?_zip (p := Prod.snd) (after.map row.option) hbefore
      (rfl : (row.option 0).2 = true) ((List.length_map _).trans_lt hlen)
    rw [List.length_map] at hfind
    have hidx : places.idxOf 0 = before.length := by
      rw [hsplit, List.idxOf_append_of_notMem hnotin, List.idxOf_cons_self, Nat.add_zero]
    rw [hidx, List.getElem?_eq_getElem hlen, shuffledChoices, hshuffled, hsplit, List.map_append,
      List.map_cons, hfind, List.getElem?_eq_getElem hlen]
    rfl

/-- No answer is lost or duplicated, and the letter is that of the correct one. -/
theorem Assigned.sound {order : List ℕ} {row : NormalizedRow} {choices : List (Str × Str)} {answer : Str}
    (h : Assigned order row choices answer) :
    choices.map Prod.fst = labels letters ∧ (choices.map Prod.snd).Perm row.answers ∧
      choices.lookup answer = some row.correctAnswer := by
  have hlength : order.length = (labels letters).length := h.perm.length_eq.trans rfl
  have hanswers : (List.range 4).map (fun i => row.answers.getD i []) = row.answers := by
    obtain ⟨a, b, c, habc⟩ := List.length_eq_three.mp row.three
    simp only [NormalizedRow.answers, habc]
    rfl
  refine ⟨?_, ?_, ?_⟩
  · rw [h.choices_eq, List.map_fst_zip]
    rw [List.length_map, hlength]
  · rw [h.choices_eq, List.map_snd_zip]
    · exact hanswers ▸ h.perm.map _
    · rw [List.length_map, hlength]
  · rw [h.choices_eq, lookup_zip (nodup_labels nodup_letters) _ h.answer_eq, List.getElem?_map]
    have hmem : 0 ∈ order := h.perm.mem_iff.mpr (List.mem_range.mpr (by decide))
    rw [List.getElem?_idxOf hmem]
    rfl

/-- The rows whose questions are prepared are normalized rows of the file. -/
theorem prepareGpqaDiamond_eq_ok {sha256 : List UInt8 → BitVec 256} {u : Unicode} {repr : Str → Str}
    {seed limit : Cell} {domains : Option (List Cell)} {rows : List CsvRow} {questions : List Question}
    (h : prepareGpqaDiamond sha256 u repr seed domains limit rows = .ok questions) :
    ∃ n normalized, seed = .integer n ∧ normalizeRows rows = .ok normalized ∧
      ∀ q ∈ questions, ∃ row ∈ normalized, q = question sha256 n row := by
  obtain ⟨n, hseed, h⟩ := bind_eq_ok.mp h
  obtain ⟨limit, -, h⟩ := bind_eq_ok.mp h
  obtain ⟨normalized, hnormalized, h⟩ := bind_eq_ok.mp h
  obtain ⟨selection, -, h⟩ := bind_eq_ok.mp h
  simp only at h
  split_ifs at h
  · cases h
  · cases h
    refine ⟨n, normalized, ?_, hnormalized, ?_⟩
    · cases seed with
      | integer m =>
        rw [validateSeed] at hseed
        split_ifs at hseed
        · exact congrArg Cell.integer (Except.ok.inj hseed)
        · cases hseed
      | _ => cases hseed
    · intro q hq
      obtain ⟨row, hrow, rfl⟩ := List.mem_map.mp hq
      exact ⟨row, mem_of_mem_select hrow, rfl⟩

end Gpqa

/-! ## The answer key -/

/-- **Answer keys.** An MMLU-Pro question keeps the answer of its row exactly where no
dropped option shifted it (or the option that took its place says the same); a GPQA
question keeps it always, and the order of its choices depends on the seed and the
record id alone. -/
theorem answer_key_preserved (u : Unicode) (repr : Str → Str) (sha256 : List UInt8 → BitVec 256) :
    (∀ row n r, MmluPro.normalizeRow u row n = .ok r →
      ∃ raw, row.get "options" = .list raw ∧
        (raw.filter MmluPro.available).map MmluPro.trimmed = r.options.map some ∧
        ((MmluPro.choices r).lookup r.answer = MmluPro.sourceOption row ↔
          MmluPro.Unshifted raw r.answerIndex ∨ MmluPro.Repeated raw r.answerIndex)) ∧
    ∀ seed : ℤ, ∃ order : Str → List ℕ, ∀ rows normalized, Gpqa.normalizeRows rows = .ok normalized →
      (∀ row ∈ normalized,
        let (choices, answer) := Gpqa.shuffledChoices sha256 row seed
        Gpqa.Assigned (order row.recordId) row choices answer ∧
          (choices.map Prod.snd).Perm row.answers ∧ choices.lookup answer = some row.correctAnswer) ∧
      ∀ domains limit questions,
        Gpqa.prepareGpqaDiamond sha256 u repr (.integer seed) domains limit rows = .ok questions →
        ∀ q ∈ questions, ∃ row ∈ normalized, q.id = ofString "gpqa-" ++ row.recordId ∧
          Gpqa.Assigned (order row.recordId) row q.choices q.answer := by
  refine ⟨?_, ?_⟩
  · intro row n r h
    obtain ⟨raw, hraw, hcollect, hindex⟩ := MmluPro.normalizeRow_eq_ok h
    refine ⟨raw, hraw, MmluPro.collectOptions_eq_ok hcollect, ?_⟩
    have hsource : MmluPro.sourceOption row = raw[r.answerIndex]?.bind MmluPro.trimmed := by
      rw [MmluPro.sourceOption, hraw, hindex]
      rfl
    rw [MmluPro.lookup_choices, hsource]
    exact MmluPro.kept_iff hcollect r.inRange
  · intro seed
    have horder : ∀ row : Gpqa.NormalizedRow, Gpqa.orderOf sha256 seed row.recordId =
        Gpqa.order sha256 seed row.id := fun row => dif_pos row.decoded
    refine ⟨Gpqa.orderOf sha256 seed, ?_⟩
    intro rows normalized hrows
    refine ⟨?_, ?_⟩
    · intro row _
      have hassigned := Gpqa.shuffledChoices_assigned sha256 row seed
      rw [horder]
      exact ⟨hassigned, hassigned.sound.2⟩
    · intro domains limit questions h q hq
      obtain ⟨n, normalized', hseed, hrows', hquestions⟩ := Gpqa.prepareGpqaDiamond_eq_ok h
      cases hseed
      obtain rfl : normalized' = normalized := Except.ok.inj (hrows'.symm.trans hrows)
      obtain ⟨row, hrow, rfl⟩ := hquestions q hq
      refine ⟨row, hrow, rfl, ?_⟩
      rw [horder]
      exact Gpqa.shuffledChoices_assigned sha256 row seed

/-- A row whose first option is not available. -/
def shiftedRow : SourceRow :=
  [("question_id", .integer 7), ("question", .text (ofString "Which one is prime?")),
    ("options", .list [.text (ofString "N/A"), .text (ofString "4"), .text (ofString "5")]),
    ("answer", .text (ofString "B")), ("answer_index", .integer 1), ("cot_content", .null),
    ("category", .text (ofString "math")), ("src", .null)]

/-- The answer key says `4`, and the question is graded by `5`. -/
theorem answer_key_shifted :
    ∃ r, MmluPro.normalizeRow .ascii shiftedRow 1 = .ok r ∧
      MmluPro.sourceOption shiftedRow = some (ofString "4") ∧
      (MmluPro.choices r).lookup r.answer = some (ofString "5") :=
  ⟨_, rfl, by decide, by decide⟩

/-- The same row without the option that is not available. -/
def plainRow : SourceRow :=
  [("question_id", .integer 7), ("question", .text (ofString "Which one is prime?")),
    ("options", .list [.text (ofString " 4 "), .text (ofString "5"), .text (ofString "N/A")]),
    ("answer", .text (ofString "b")), ("answer_index", .integer 1), ("cot_content", .null),
    ("category", .text (ofString "math")), ("src", .null)]

theorem answer_key_plain :
    ∃ r, MmluPro.normalizeRow .ascii plainRow 1 = .ok r ∧
      (MmluPro.choices r).lookup r.answer = MmluPro.sourceOption plainRow := by
  refine ⟨_, rfl, ?_⟩
  obtain ⟨raw, hraw, -, hiff⟩ := (answer_key_preserved .ascii id (fun _ => 0)).1 plainRow 1 _ rfl
  cases hraw
  exact hiff.mpr (.inl (by decide))

end StandardDatasets

end LLMBenchLab
