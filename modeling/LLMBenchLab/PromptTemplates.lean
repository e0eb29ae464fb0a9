import Mathlib.Algebra.Order.BigOperators.Group.List
import LLMBenchLab.FormatStrings
import LLMBenchLab.Json
import LLMBenchLab.Numerals
import LLMBenchLab.Replacing

/-!
# Prompt templates

`_validate_prompt_template` (`services/dataset_loader.py`) reads the user template
of a Benchmark as a format string; `_render_messages`
(`runners/evaluation_runner.py`) puts the prompt and the choices of a question in
with two replacements, one after the other.

The two agree on a template that is its pieces written back (`Plain`) as long as
the second replacement finds nothing but the fields of the template: the texts
between these fields, with the prompt put in, are the `chunks` of a rendering.
-/

namespace LLMBenchLab

namespace Prompts

open Python FormatString
open Text (Str CodePoint ofString replace Marked)

/-! ## Validation -/

/-- A validation issue of a manifest. -/
structure DatasetIssue where
  file : String
  code : String
  message : Str
  pointer : Str
  deriving DecidableEq

def manifestFilename : String := "manifest.json"

def manifestIssue (code : String) (message pointer : Str) : DatasetIssue :=
  ⟨manifestFilename, code, message, pointer⟩

/-- `_json_pointer` of one part. -/
def jsonPointer (part : Str) : Str :=
  ofString "/" ++ replace (ofString "/") (ofString "~1") (replace (ofString "~") (ofString "~0") part)

/-- `_add_required_and_extra_issues`, `repr` being that of a text. -/
def requiredAndExtraIssues (repr : Str → Str) (fields : List (Str × Json)) (names : List Str)
    (basePointer : Str) : List DatasetIssue :=
  (names.filter fun name => (fields.lookup name).isNone).map (fun name =>
      manifestIssue "required_field_missing"
        (ofString "Required field " ++ repr name ++ ofString " is missing")
        (basePointer ++ jsonPointer name)) ++
    (fields.filter fun f => f.1 ∉ names).map fun f =>
      manifestIssue "additional_field_not_allowed"
        (ofString "Field " ++ repr f.1 ++ ofString " is not allowed by dataset v1")
        (basePointer ++ jsonPointer f.1)

/-- `_validate_string` without a pattern. -/
def stringIssues (value : Json) (pointer : Str) (minimum maximum : ℕ) : List DatasetIssue :=
  match value with
  | .str s =>
    if s.length < minimum ∨ maximum < s.length then
      [manifestIssue "string_length_out_of_range"
        (ofString "String length must be between " ++ natText minimum ++ ofString " and " ++
          natText maximum) pointer]
    else []
  | _ => [manifestIssue "invalid_type" (ofString "Value must be a string") pointer]

def userPointer : Str := ofString "/prompt_template/user"

def promptName : Str := ofString "prompt"

def choicesName : Str := ofString "choices"

/-- A placeholder that the loader supports. -/
def supported (name : Str) : Prop := name = promptName ∨ name = choicesName

instance (name : Str) : Decidable (supported name) := inferInstanceAs (Decidable (_ ∨ _))

/-- The issues of one field. -/
def fieldIssues (f : Field) : List DatasetIssue :=
  if ¬ supported f.name then
    [manifestIssue "unsupported_prompt_placeholder"
      (ofString "Prompt template contains an unsupported placeholder") userPointer]
  else if f.spec ≠ [] ∨ f.conversion.isSome then
    [manifestIssue "unsupported_prompt_expression"
      (ofString "Prompt placeholders cannot use conversion or format expressions") userPointer]
  else []

/-- The issues of a user template of admissible length. -/
def placeholderIssues (user : Str) : List DatasetIssue :=
  let (markups, error) := parse user
  let fields := markups.filterMap Markup.field
  fields.flatMap fieldIssues ++
    match error with
    | some e =>
      [manifestIssue "invalid_prompt_template"
        (ofString ("Prompt template has unmatched braces: " ++ e)) userPointer]
    | none =>
      if fields.any fun f => f.name = promptName then []
      else
        [manifestIssue "required_prompt_placeholder_missing"
          (ofString "prompt_template.user must contain \x7bprompt\x7d") userPointer]

/-- The issues of a user template. -/
def userIssues (value : Json) : List DatasetIssue :=
  let issues := stringIssues value userPointer 1 12000
  match value with
  | .str user => if issues = [] then placeholderIssues user else issues
  | _ => issues

/-- `_validate_prompt_template`: what it adds to the collector. -/
def validatePromptTemplate (repr : Str → Str) : Json → List DatasetIssue
  | .object fields =>
    requiredAndExtraIssues repr fields [ofString "system", ofString "user"]
        (ofString "/prompt_template") ++
      ((fields.lookup (ofString "system")).elim [] fun value =>
        stringIssues value (ofString "/prompt_template/system") 0 4000) ++
      (fields.lookup (ofString "user")).elim [] userIssues
  | _ =>
    [manifestIssue "invalid_type" (ofString "prompt_template must be an object")
      (ofString "/prompt_template")]

/-! ## Rendering -/

/-- A question as the Runner renders it; a choice key is a capital letter. -/
structure Question where
  prompt : Str
  choices : List (Str × Str)
  capital : ∀ c ∈ choices, ∃ k : CodePoint, c.1 = [k] ∧ 0x41 ≤ k.val ∧ k.val ≤ 0x5a

/-- `separator.join(texts)` -/
def join (separator : Str) : List Str → Str
  | [] => []
  | [x] => x
  | x :: y :: rest => x ++ separator ++ join separator (y :: rest)

/-- The choices as they stand in a message. -/
def Question.formattedChoices (q : Question) : Str :=
  join (ofString "\n") ((q.choices.mergeSort fun a b => a.1 ≤ b.1).map fun c =>
    c.1 ++ ofString ". " ++ c.2)

structure PromptTemplate where
  system : Option Str
  user : Option Str

structure Message where
  role : String
  content : Str
  deriving DecidableEq

/-- The user message of `_render_messages`. -/
def userContent (q : Question) (t : PromptTemplate) : Str :=
  let userTemplate := t.user.getD (ofString "\x7bprompt\x7d\n\x7bchoices\x7d")
  strip (replace (plainField choicesName) q.formattedChoices
    (replace (plainField promptName) q.prompt userTemplate))

/-- `_render_messages` -/
def renderMessages (q : Question) (t : PromptTemplate) : List Message :=
  let system := t.system.getD (ofString "You are an objective benchmark participant.")
  let user : Message := ⟨"user", userContent q t⟩
  if strip system = [] then [user] else [⟨"system", system⟩, user]

/-- The text of a field. -/
def textField (fields : List (Str × Json)) (name : String) : Option Str :=
  match fields.lookup (ofString name) with
  | some (.str s) => some s
  | _ => none

/-- The template of a Run. -/
def templateOf : Json → PromptTemplate
  | .object fields => ⟨textField fields "system", textField fields "user"⟩
  | _ => ⟨none, none⟩

/-! ## What a template means -/

/-- The value of a placeholder. -/
def Question.value (q : Question) (name : Str) : Str :=
  if name = promptName then q.prompt else q.formattedChoices

/-- The user message by the grammar that the template was validated with. -/
def meaning (q : Question) (user : Str) : Str := strip (render q.value (parse user).1)

/-- Every brace of the template belongs to a plain `{prompt}` or `{choices}`. -/
def Plain (user : Str) : Prop := (parse user).1.flatMap Markup.plain = user

instance (user : Str) : Decidable (Plain user) := inferInstanceAs (Decidable (_ = _))

def prepend (x : Str) : List Str → List Str
  | [] => [x]
  | chunk :: rest => (x ++ chunk) :: rest

/-- The texts between the `{choices}` of a template, with the prompt put in. -/
def chunks (prompt : Str) : List Markup → List Str
  | [] => [[]]
  | m :: ms =>
    match m.field with
    | none => prepend m.literal (chunks prompt ms)
    | some f =>
      if f.name = promptName then prepend (m.literal ++ prompt) (chunks prompt ms)
      else m.literal :: chunks prompt ms

/-- The prompt completes or contains no `{choices}` of its own. -/
def Undisturbed (q : Question) (user : Str) : Prop :=
  ∀ chunk ∈ chunks q.prompt (parse user).1, ¬ plainField choicesName <:+: chunk

instance (q : Question) (user : Str) : Decidable (Undisturbed q user) :=
  inferInstanceAs (Decidable (∀ _ ∈ _, _))

/-! ## What is accepted -/

/-- A field of an accepted template. -/
structure Accepted (f : Field) : Prop where
  supported : supported f.name
  spec : f.spec = []
  conversion : f.conversion = none

theorem fieldIssues_eq_nil {f : Field} (h : fieldIssues f = []) : Accepted f := by
  rw [fieldIssues] at h
  split_ifs at h with hname hspec
  obtain ⟨hspec, hconversion⟩ := not_or.mp hspec
  exact ⟨hname, not_not.mp hspec, by simpa using hconversion⟩

theorem placeholderIssues_eq_nil {user : Str} (h : placeholderIssues user = []) :
    ∀ m ∈ (parse user).1, ∀ f ∈ m.field, Accepted f := by
  intro m hm f hf
  obtain ⟨hfields, -⟩ := List.append_eq_nil_iff.mp h
  exact fieldIssues_eq_nil (List.flatMap_eq_nil_iff.mp hfields f
    (List.mem_filterMap.mpr ⟨m, hm, hf⟩))

/-- The user template of an accepted manifest. -/
theorem validatePromptTemplate_eq_nil {repr : Str → Str} {template : Json}
    (h : validatePromptTemplate repr template = []) :
    ∃ user, (templateOf template).user = some user ∧ placeholderIssues user = [] := by
  cases template with
  | object fields =>
    obtain ⟨h, huser⟩ := List.append_eq_nil_iff.mp h
    obtain ⟨h, -⟩ := List.append_eq_nil_iff.mp h
    obtain ⟨hrequired, -⟩ := List.append_eq_nil_iff.mp h
    rw [List.map_eq_nil_iff, List.filter_eq_nil_iff] at hrequired
    have hsome := hrequired (ofString "user") (by simp)
    cases hlookup : fields.lookup (ofString "user") with
    | none =>
      rw [hlookup] at hsome
      exact absurd rfl hsome
    | some value =>
      rw [hlookup, Option.elim_some] at huser
      cases value with
      | str user =>
        simp only [userIssues] at huser
        split_ifs at huser with hissues
        · exact ⟨user, by simp only [templateOf, textField, hlookup], huser⟩
        · exact absurd huser hissues
      | _ => cases huser
  | _ => cases h

/-! ## The two replacements -/

theorem marked_plainField {name : Str} (h : openBrace ∉ name) : Marked (plainField name) := by
  refine ⟨openBrace, name ++ [closeBrace], rfl, ?_⟩
  rw [List.mem_append, List.mem_singleton]
  exact not_or.mpr ⟨h, by decide⟩

theorem marked_prompt : Marked (plainField promptName) := marked_plainField (by decide)

theorem marked_choices : Marked (plainField choicesName) := marked_plainField (by decide)

theorem join_cons {separator x : Str} {xs : List Str} (h : xs ≠ []) :
    join separator (x :: xs) = x ++ separator ++ join separator xs := by
  obtain ⟨y, ys, rfl⟩ := List.exists_cons_of_ne_nil h
  rfl

theorem join_prepend {separator x : Str} {xs : List Str} (h : xs ≠ []) :
    join separator (prepend x xs) = x ++ join separator xs := by
  obtain ⟨y, ys, rfl⟩ := List.exists_cons_of_ne_nil h
  cases ys with
  | nil => rfl
  | cons z zs => simp only [prepend, join, List.append_assoc]

theorem chunks_ne_nil (prompt : Str) (ms : List Markup) : chunks prompt ms ≠ [] := by
  have hprepend : ∀ {x : Str} {xs : List Str}, prepend x xs ≠ [] := by
    intro x xs
    cases xs <;> exact List.cons_ne_nil _ _
  cases ms with
  | nil => exact List.cons_ne_nil _ _
  | cons m ms =>
    rw [chunks]
    split
    · exact hprepend
    · split
      · exact hprepend
      · exact List.cons_ne_nil _ _

/-- Replacing goes chunk by chunk. -/
theorem replace_join {old new : Str} (h : Marked old) (xs : List Str) :
    replace old new (join old xs) = join new (xs.map (replace old new)) := by
  induction xs with
  | nil => rfl
  | cons x xs ih =>
    rcases eq_or_ne xs [] with rfl | hne
    · rfl
    · rw [join_cons hne, h.replace_append_old, ih, List.map_cons,
        join_cons (List.map_eq_nil_iff.not.mpr hne)]

/-- A literal text has no opening brace, and a field is one of the two placeholders. -/
def Tidy (ms : List Markup) : Prop :=
  ∀ m ∈ ms, openBrace ∉ m.literal ∧ ∀ f ∈ m.field, supported f.name

theorem replace_prompt_choices (prompt y : Str) :
    replace (plainField promptName) prompt (plainField choicesName ++ y) =
      plainField choicesName ++ replace (plainField promptName) prompt y := by
  have hother : ¬ plainField promptName <+: plainField choicesName ++ y := by
    intro hp
    exact absurd (List.cons_prefix_cons.mp (List.cons_prefix_cons.mp hp).2).1 (by decide)
  have hrest : openBrace ∉ choicesName ++ [closeBrace] := by decide
  calc replace (plainField promptName) prompt (plainField choicesName ++ y)
      = openBrace :: replace (plainField promptName) prompt ((choicesName ++ [closeBrace]) ++ y) :=
        Text.replace_cons hother
    _ = plainField choicesName ++ replace (plainField promptName) prompt y := by
        rw [plainField, Marked.replace_append hrest]
        rfl

/-- The first replacement puts the prompt in and leaves the chunks apart. -/
theorem replace_prompt {prompt : Str} {ms : List Markup} (h : Tidy ms) :
    replace (plainField promptName) prompt (ms.flatMap Markup.plain) =
      join (plainField choicesName) (chunks prompt ms) := by
  induction ms with
  | nil => rfl
  | cons m ms ih =>
    obtain ⟨hliteral, hfield⟩ := h m List.mem_cons_self
    have htail := ih fun x hx => h x (List.mem_cons_of_mem m hx)
    have hne := chunks_ne_nil prompt ms
    obtain ⟨literal, field⟩ := m
    simp only [List.flatMap_cons, Markup.plain, List.append_assoc]
    rw [plainField, Marked.replace_append hliteral, ← plainField]
    cases field with
    | none =>
      rw [Option.elim_none, List.nil_append, htail, chunks, join_prepend hne]
    | some f =>
      rw [Option.elim_some, chunks]
      simp only
      rcases hfield f rfl with hname | hname
      · rw [if_pos hname, hname, Text.replace_old_append marked_prompt.ne_nil, htail,
          join_prepend hne, List.append_assoc]
      · rw [if_neg (by rw [hname]; decide), hname, replace_prompt_choices, htail, join_cons hne,
          List.append_assoc]

/-- The meaning of a template, chunk by chunk. -/
theorem render_eq_join {q : Question} (ms : List Markup) :
    render q.value ms = join q.formattedChoices (chunks q.prompt ms) := by
  induction ms with
  | nil => rfl
  | cons m ms ih =>
    have hne := chunks_ne_nil q.prompt ms
    obtain ⟨literal, field⟩ := m
    rw [render, List.flatMap_cons, ← render, ih]
    cases field with
    | none => rw [Option.elim_none, List.append_nil, chunks, join_prepend hne]
    | some f =>
      rw [Option.elim_some, chunks, Question.value]
      simp only
      split_ifs
      · rw [join_prepend hne]
      · rw [join_cons hne]

/-! ## Where the two differ -/

/-- A replaced occurrence shows: from the first one on, one text goes on with the
replacement and the other with what was replaced. -/
theorem join_replace_split {old : Str} (h : Marked old) (new : Str) {xs : List Str}
    (hx : ∃ x ∈ xs, old <:+: x) :
    ∃ w v v', join new (xs.map (replace old new)) = w ++ new ++ v ∧ join new xs = w ++ old ++ v' := by
  induction xs with
  | nil =>
    obtain ⟨x, hx, -⟩ := hx
    cases hx
  | cons x xs ih =>
    have hjoin : ∀ (y : Str) (ys : List Str), ∃ t, join new (y :: ys) = y ++ t ∧
        (ys ≠ [] → t = new ++ join new ys) := by
      intro y ys
      cases ys with
      | nil => exact ⟨[], (List.append_nil y).symm, fun h => absurd rfl h⟩
      | cons z zs => exact ⟨new ++ join new (z :: zs), List.append_assoc .., fun _ => rfl⟩
    by_cases hocc : old <:+: x
    · obtain ⟨u, v, rfl, hu⟩ := h.exists_first hocc
      obtain ⟨t, ht, -⟩ := hjoin (replace old new (u ++ old ++ v)) (xs.map (replace old new))
      obtain ⟨t', ht', -⟩ := hjoin (u ++ old ++ v) xs
      refine ⟨u, replace old new v ++ t, v ++ t', ?_, ?_⟩
      · rw [List.map_cons, ht, h.replace_append_old, Text.replace_eq_self hu]
        simp only [List.append_assoc]
      · rw [ht']
        simp only [List.append_assoc]
    · have hx' : ∃ y ∈ xs, old <:+: y := by
        obtain ⟨y, hy, hoccy⟩ := hx
        rcases List.mem_cons.mp hy with rfl | hy
        · exact absurd hoccy hocc
        · exact ⟨y, hy, hoccy⟩
      have hne : xs ≠ [] := by
        rintro rfl
        obtain ⟨y, hy, -⟩ := hx'
        cases hy
      obtain ⟨w, v, v', hw, hw'⟩ := ih hx'
      refine ⟨x ++ new ++ w, v, v', ?_, ?_⟩
      · rw [List.map_cons, Text.replace_eq_self hocc, join_cons (List.map_eq_nil_iff.not.mpr hne), hw]
        simp only [List.append_assoc]
      · rw [join_cons hne, hw']
        simp only [List.append_assoc]

theorem strip_append_ne {a b : CodePoint} (hab : a ≠ b) (ha : isSpace a = false)
    (hb : isSpace b = false) (w r r' : Str) : strip (w ++ a :: r) ≠ strip (w ++ b :: r') := by
  rw [strip_append_cons ha, strip_append_cons hb, Ne, List.append_cancel_left_eq]
  exact fun h => hab (List.cons.inj h).1

theorem join_nil (xs : List Str) : join [] xs = xs.flatten := by
  induction xs with
  | nil => rfl
  | cons x xs ih =>
    rcases eq_or_ne xs [] with rfl | hne
    · exact (List.append_nil x).symm
    · rw [join_cons hne, List.append_nil, ih, List.flatten_cons]

/-- Without choices a replaced occurrence loses a brace. -/
theorem count_join_replace_lt {old : Str} (h : Marked old) {xs : List Str}
    (hx : ∃ x ∈ xs, old <:+: x) {b : CodePoint} (hb : b ∈ old) :
    (join [] (xs.map (replace old []))).count b < (join [] xs).count b := by
  rw [join_nil, join_nil, List.count_flatten, List.count_flatten, List.map_map]
  refine List.sum_lt_sum _ _ (fun x _ => Text.count_replaceFrom_le b 0 x) ?_
  obtain ⟨x, hx, hocc⟩ := hx
  exact ⟨x, hx, h.count_replace_lt hocc hb⟩

/-- The choices are none or start with a capital letter. -/
theorem Question.formattedChoices_head (q : Question) :
    q.formattedChoices = [] ∨ ∃ (k : CodePoint) (r : Str), q.formattedChoices = k :: r ∧
      0x41 ≤ k.val ∧ k.val ≤ 0x5a := by
  rw [formattedChoices]
  cases hsorted : q.choices.mergeSort fun a b => a.1 ≤ b.1 with
  | nil => exact .inl rfl
  | cons c rest =>
    have hc : c ∈ q.choices := by
      refine (List.mergeSort_perm q.choices fun a b => a.1 ≤ b.1).subset ?_
      rw [hsorted]
      exact List.mem_cons_self
    obtain ⟨k, hk, hbounds⟩ := q.capital c hc
    refine .inr ⟨k, ?_⟩
    cases rest with
    | nil =>
      refine ⟨ofString ". " ++ c.2, ?_, hbounds⟩
      rw [List.map_cons, List.map_nil, join, hk]
      rfl
    | cons d ds =>
      rw [List.map_cons, join_cons (by simp), hk]
      exact ⟨_, rfl, hbounds⟩

/-- Two renderings of the same chunks, one with its choices replaced once more. -/
theorem strip_join_eq_iff {q : Question} {xs : List Str} :
    strip (join q.formattedChoices (xs.map (replace (plainField choicesName) q.formattedChoices))) =
        strip (join q.formattedChoices xs) ↔
      ∀ x ∈ xs, ¬ plainField choicesName <:+: x := by
  constructor
  · intro heq
    by_contra hall
    have hx : ∃ x ∈ xs, plainField choicesName <:+: x := by simpa using hall
    have hbrace : isSpace openBrace = false := by decide
    rcases q.formattedChoices_head with hnone | ⟨k, r, hk, hlow, hhigh⟩
    · -- no choices: what is replaced is lost
      have hcount := congrArg (List.count openBrace) heq
      rw [hnone, count_strip hbrace, count_strip hbrace] at hcount
      exact absurd hcount
        (count_join_replace_lt marked_choices hx List.mem_cons_self).ne
    · -- choices: a capital letter stands where the brace was
      obtain ⟨w, v, v', hw, hw'⟩ := join_replace_split marked_choices q.formattedChoices hx
      have hspace : isSpace k = false := by
        simp only [isSpace, Bool.or_eq_false_iff, Bool.and_eq_false_iff, decide_eq_false_iff_not,
          beq_eq_false_iff_ne]
        omega
      have hne : k ≠ openBrace := by
        rintro rfl
        exact absurd hhigh (by decide)
      rw [hw, hw', hk, plainField] at heq
      simp only [List.append_assoc, List.cons_append] at heq
      exact strip_append_ne hne hspace hbrace _ _ _ heq
  · intro hall
    rw [List.map_congr_left fun x hx => Text.replace_eq_self (hall x hx), List.map_id']

/-! ## Templates and their meaning -/

/-- **Rendering.** A message rendered from an accepted template whose braces all
belong to a plain placeholder has the meaning of the template if and only if the
prompt completes or contains no `{choices}` of its own. -/
theorem userContent_eq_meaning_iff {repr : Str → Str} {template : Json} {user : Str}
    (haccepted : validatePromptTemplate repr template = [])
    (huser : (templateOf template).user = some user) (hplain : Plain user) (q : Question) :
    userContent q (templateOf template) = meaning q user ↔ Undisturbed q user := by
  obtain ⟨user', huser', hissues⟩ := validatePromptTemplate_eq_nil haccepted
  obtain rfl : user' = user := Option.some.inj (huser'.symm.trans huser)
  have htidy : Tidy (parse user').1 := by
    intro m hm
    refine ⟨fun hmem => ?_, fun f hf => (placeholderIssues_eq_nil hissues m hm f hf).supported⟩
    exact absurd (not_escaped_of_plain hplain m hm openBrace hmem) (by decide)
  have hfirst : replace (plainField promptName) q.prompt user' =
      join (plainField choicesName) (chunks q.prompt (parse user').1) := by
    rw [← replace_prompt htidy, hplain]
  rw [userContent, huser, Option.getD_some, hfirst, replace_join marked_choices, meaning,
    render_eq_join]
  exact strip_join_eq_iff

/-- A template of the two placeholders. -/
def sampleTemplate : Json :=
  .object [(ofString "system", .str []),
    (ofString "user", .str (ofString "\x7bprompt\x7d\n\x7bchoices\x7d"))]

def sampleUser : Str := ofString "\x7bprompt\x7d\n\x7bchoices\x7d"

/-- A question about sets, written with braces. -/
def setQuestion : Question where
  prompt := ofString "Is \x7b1, 2\x7d finite?"
  choices := [(ofString "B", ofString "No"), (ofString "A", ofString "Yes")]
  capital := by
    intro c hc
    simp only [List.mem_cons, List.not_mem_nil, or_false] at hc
    rcases hc with rfl | rfl
    · exact ⟨⟨0x42, by decide⟩, rfl, by decide, by decide⟩
    · exact ⟨⟨0x41, by decide⟩, rfl, by decide, by decide⟩

theorem userContent_eq_meaning_set :
    userContent setQuestion (templateOf sampleTemplate) = meaning setQuestion sampleUser :=
  have haccepted : validatePromptTemplate id sampleTemplate = [] := by decide
  (userContent_eq_meaning_iff haccepted rfl (by decide) setQuestion).mpr (by decide)

/-- A question about templates, without choices. -/
def templateQuestion : Question where
  prompt := ofString "Explain \x7bchoices\x7d"
  choices := []
  capital := fun _ h => nomatch h

/-- The runner loses a placeholder that the prompt itself mentions, keeps doubled braces
and leaves an empty format specification where it stands. -/
theorem userContent_ne_meaning :
    validatePromptTemplate id sampleTemplate = [] ∧
      userContent templateQuestion (templateOf sampleTemplate) ≠ meaning templateQuestion sampleUser := by
  have hnone : templateQuestion.formattedChoices = [] := by
    rw [Question.formattedChoices, templateQuestion, List.mergeSort_nil]
    rfl
  refine ⟨by decide, ?_⟩
  rw [userContent, meaning, render_eq_join, hnone]
  decide

end Prompts

end LLMBenchLab
