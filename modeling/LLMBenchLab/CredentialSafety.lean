import LLMBenchLab.Frames
import LLMBenchLab.ModelRequests
import LLMBenchLab.RunInvariants

/-!
# Stored credentials stay usable

A Model that names a stored credential has an envelope that opens for it at its
URL, any other Model has none, and the snapshot of a Run that has not ended is
still the one its Model would give (`Registry.Inv`). The locks of the handlers
are enough to keep this in every interleaving: whoever holds the row lock of a
Model is the only one to change the Model, its envelope, or to start a Run of
it (`Rely`).
-/

namespace LLMBenchLab

open Relational Relational.Prog ModelSchema ModelApi
open Credentials (Nonce EncryptedCredential Opens normalizeProviderOrigin)

variable {E : Services} {cfg : Config}

theorem require_ok {c : Bool} {loc msg : String} {u : Unit} (h : require c loc msg = .ok u) :
    c = true := by
  cases c with
  | false => cases h
  | true => rfl

/-! ## Validated documents -/

theorem validateApiKeyValue_ok {v w : Option String} (h : validateApiKeyValue v = .ok w) :
    w = v := by
  cases v with
  | none => exact (Except.ok.inj h).symm
  | some raw =>
    obtain ⟨_, -, h⟩ := except_bind_ok h
    obtain ⟨_, -, h⟩ := except_bind_ok h
    obtain ⟨_, -, h⟩ := except_bind_ok h
    obtain ⟨_, -, h⟩ := except_bind_ok h
    obtain ⟨_, -, h⟩ := except_bind_ok h
    exact (Except.ok.inj h).symm

theorem validateFields_apiKey {d : ModelDocument} {x : ModelCreate}
    (h : validateFields E d = .ok x) : x.apiKey = d.apiKey := by
  obtain ⟨_, -, h⟩ := except_bind_ok h
  obtain ⟨_, -, h⟩ := except_bind_ok h
  obtain ⟨_, -, h⟩ := except_bind_ok h
  obtain ⟨_, -, h⟩ := except_bind_ok h
  obtain ⟨_, -, h⟩ := except_bind_ok h
  obtain ⟨_, -, h⟩ := except_bind_ok h
  obtain ⟨key, hkey, h⟩ := except_bind_ok h
  obtain ⟨_, -, h⟩ := except_bind_ok h
  obtain ⟨_, -, h⟩ := except_bind_ok h
  obtain ⟨_, -, h⟩ := except_bind_ok h
  obtain ⟨_, -, h⟩ := except_bind_ok h
  obtain ⟨_, -, h⟩ := except_bind_ok h
  obtain rfl := Except.ok.inj h
  exact validateApiKeyValue_ok hkey

/-- What a validated document says about its key: a remote Model has a URL and
a name, and a key only without an environment name; a mock has none of these. -/
structure Validated (d : ModelDocument) (x : ModelCreate) : Prop where
  apiKey : x.apiKey = d.apiKey
  remote : x.providerType.remote = true →
    x.baseUrl.isSome ∧ x.remoteModelName.isSome ∧ (x.apiKey.isSome → x.apiKeyEnv = none)
  mock : x.providerType.remote = false → x.apiKey = none

theorem modelValidate_ok {d : ModelDocument} {x : ModelCreate} (h : modelValidate E d = .ok x) :
    Validated d x := by
  obtain ⟨y, hy, h⟩ := except_bind_ok h
  have hkey := validateFields_apiKey hy
  obtain ⟨_, -, h⟩ := except_bind_ok h
  split at h
  · next hremote =>
    obtain ⟨_, hr, h⟩ := except_bind_ok h
    obtain rfl := Except.ok.inj h
    obtain ⟨_, hsome, hr⟩ := except_bind_ok hr
    obtain ⟨_, hboth, -⟩ := except_bind_ok hr
    have hsome := require_ok hsome
    have hboth := require_ok hboth
    simp only [Bool.and_eq_true] at hsome
    refine ⟨hkey, fun _ => ⟨hsome.1.1, hsome.1.2, fun hk => ?_⟩, fun hmock => ?_⟩
    · simpa [hk] using hboth
    · rw [hremote] at hmock
      cases hmock
  · next hmock =>
    obtain ⟨_, hnone, h⟩ := except_bind_ok h
    obtain rfl := Except.ok.inj h
    have hnone := require_ok hnone
    simp only [Bool.and_eq_true, Option.isNone_iff_eq_none] at hnone
    exact ⟨hkey, fun hremote => absurd hremote hmock, fun _ => hnone.2⟩

theorem sourceFor_eq_stored {x : ModelCreate} :
    sourceFor x = .stored ↔ x.providerType.remote = true ∧ x.apiKey.isSome := by
  unfold sourceFor
  rcases x.providerType with _ | _ | _ | _ <;> rcases x.apiKey with _ | _ <;>
    simp [ProviderType.remote]

/-! ## Sealed Models -/

/-- The envelope fits the Model: one that opens for it at its URL, or none when
the Model does not use a stored credential. -/
structure Sealed (E : Services) (m : Model) (e : Option EncryptedCredential) : Prop where
  stored : m.credentialSource = .stored →
    m.providerType.remote = true ∧ m.remoteModelName.isSome ∧ m.apiKeyEnv = none ∧
      ∃ url c k, m.baseUrl = some url ∧ e = some c ∧ E.keyring = .ok k ∧
        Opens E.urls E.aead k c m.id url
  other : m.credentialSource ≠ .stored → e = none

theorem encryptApiKey_ok (hA : E.aead.Opens) {key : Option String} {id : ModelId} {url : String}
    {nonce : Nonce} {e : EncryptedCredential} (h : encryptApiKey E key id url nonce = .ok e) :
    ∃ k, E.keyring = .ok k ∧ Opens E.urls E.aead k e id url := by
  unfold encryptApiKey at h
  split at h
  · cases h
  · split at h
    · cases h
    · next k hk =>
      split at h
      · cases h
      · next e' he =>
        obtain rfl := Except.ok.inj h
        exact ⟨k, hk, Credentials.opens_encrypt hA he⟩

/-- A validated row with a key, sealed for it. -/
theorem Sealed.of_opens {d : ModelDocument} {x : ModelCreate} (hx : Validated d x)
    (hs : sourceFor x = .stored) {id : ModelId} {createdAt updatedAt : Time} {url : String}
    (hurl : x.baseUrl = some url) {e : EncryptedCredential} {k : Credentials.CredentialKeyring}
    (hk : E.keyring = .ok k) (he : Opens E.urls E.aead k e id url) :
    Sealed E (modelRow x id createdAt updatedAt) (some e) := by
  obtain ⟨hremote, hkey⟩ := sourceFor_eq_stored.mp hs
  obtain ⟨-, hname, henv⟩ := hx.remote hremote
  exact ⟨fun _ => ⟨hremote, hname, henv hkey, url, e, k, hurl, rfl, hk, he⟩,
    fun hne => absurd hs hne⟩

theorem Sealed.of_other {x : ModelCreate} (hs : sourceFor x ≠ .stored) {id : ModelId}
    {createdAt updatedAt : Time} : Sealed E (modelRow x id createdAt updatedAt) none :=
  ⟨fun h => absurd h hs, fun _ => rfl⟩

theorem sealCreated_ok (hA : E.aead.Opens) {d : ModelDocument} {x : ModelCreate}
    (hx : Validated d x) {id : ModelId} {now : Time} {nonce : Nonce}
    {e : Option EncryptedCredential} (h : sealCreated E x id now nonce = .ok e) :
    Sealed E (modelRow x id now now) e := by
  unfold sealCreated at h
  split at h
  · next hs =>
    split at h
    · cases h
    · cases h
    · next url secret hurl hkey =>
      obtain ⟨_, -, h⟩ := except_bind_ok h
      rcases he : encryptApiKey E (some secret) id url nonce with err | c
      · rw [he] at h
        cases h
      · rw [he] at h
        obtain rfl := Except.ok.inj h
        obtain ⟨k, hk, hopens⟩ := encryptApiKey_ok hA he
        exact .of_opens hx hs hurl hk hopens
  · next hs =>
    obtain rfl := Except.ok.inj h
    exact .of_other hs

/-- The envelope after an edit. -/
def EnvelopeEdit.apply (e : Option EncryptedCredential) : EnvelopeEdit → Option EncryptedCredential
  | .keep => e
  | .remove => none
  | .replace c => some c

theorem changes_apiKey (u : ModelUpdate) : (changes u).apiKey = u.apiKey := by
  simp only [changes, apply_ite ModelUpdate.apiKey, ite_self]

/-- A document merged without a new key names a stored credential only if the
Model did. -/
theorem merged_keeps {m : Model} {u : ModelUpdate} {x : ModelCreate}
    (hx : Validated (merged m u) x) (hs : sourceFor x = .stored) (hkey : newKey u = none) :
    m.credentialSource = .stored := by
  have hsome := (sourceFor_eq_stored.mp hs).2
  rw [hx.apiKey, merged, changes_apiKey] at hsome
  rcases hu : u.apiKey with _ | v
  · rw [hu, Option.getD_none, currentKey] at hsome
    split at hsome
    · cases hsome
    · split at hsome
      · cases hsome
      · split at hsome
        · next h => exact h
        · cases hsome
  · have hv : v = none := by simpa [newKey, hu] using hkey
    rw [hu, hv] at hsome
    cases hsome

/-- A merged document with a new key names a stored credential. -/
theorem merged_stores {m : Model} {u : ModelUpdate} {x : ModelCreate} {secret : String}
    (hx : Validated (merged m u) x) (hkey : newKey u = some secret) : sourceFor x = .stored := by
  have hu : u.apiKey = some (some secret) := by
    rcases hu : u.apiKey with _ | v
    · rw [newKey, hu] at hkey
      cases hkey
    · rw [newKey, hu] at hkey
      exact congrArg some hkey
  have hsome : x.apiKey = some secret := by
    rw [hx.apiKey, merged, changes_apiKey, hu]
    rfl
  rw [sourceFor_eq_stored]
  refine ⟨?_, by rw [hsome]; rfl⟩
  by_contra hmock
  rw [hx.mock (by simpa using hmock)] at hsome
  cases hsome

/-- Both origins are there, so they agree unless there is a new key. -/
theorem checkOrigin_ok {m : Model} {x : ModelCreate} {u : ModelUpdate} {v : Unit}
    (h : checkOrigin E m x u = .ok v) (hkey : newKey u = none) {url url' : String}
    (hm : m.providerType.remote = true) (hurl : m.baseUrl = some url)
    (hx : x.providerType.remote = true) (hurl' : x.baseUrl = some url') :
    normalizeProviderOrigin E.urls url' = normalizeProviderOrigin E.urls url := by
  obtain ⟨old, hold, h⟩ := except_bind_ok h
  obtain ⟨new, hnew, h⟩ := except_bind_ok h
  simp only [hurl, hurl', originOf, hm, hx, if_true] at hold hnew
  rcases ho : normalizeProviderOrigin E.urls url with err | a
  · rw [ho] at hold
    cases hold
  rcases hn : normalizeProviderOrigin E.urls url' with err | b
  · rw [hn] at hnew
    cases hnew
  rw [ho] at hold
  rw [hn] at hnew
  obtain rfl := Except.ok.inj hold
  obtain rfl := Except.ok.inj hnew
  split at h
  · cases h
  · next hne =>
    simp only [Option.isSome_some, hkey, Option.isNone_none, and_true, true_and, ne_eq,
      Decidable.not_not] at hne
    rw [Option.some.inj hne]

/-- The plan of an update leaves the Model sealed. -/
theorem planUpdate_sealed (hA : E.aead.Opens) {m : Model} {u : ModelUpdate} {x : ModelCreate}
    {e : Option EncryptedCredential} (hm : Sealed E m e) (hx : Validated (merged m u) x)
    {now : Time} {nonce : Nonce} {edit : EnvelopeEdit}
    (h : planUpdate E m e x u now nonce = .ok edit) :
    Sealed E (modelRow x m.id m.createdAt now) (EnvelopeEdit.apply e edit) := by
  obtain ⟨_, -, h⟩ := except_bind_ok h
  obtain ⟨_, horigin, h⟩ := except_bind_ok h
  unfold sealUpdated at h
  split at h
  · next hkey =>
    obtain rfl := Except.ok.inj h
    split
    · next hs =>
      -- the kept envelope still opens: the origin is the old one
      obtain ⟨hremote, -, -, url, c, k, hurl, he, hk, hopens⟩ := hm.stored (merged_keeps hx hs hkey)
      obtain ⟨hremote', -⟩ := sourceFor_eq_stored.mp hs
      obtain ⟨url', hurl'⟩ := Option.isSome_iff_exists.mp (hx.remote hremote').1
      have hsame := checkOrigin_ok horigin hkey hremote hurl hremote' hurl'
      rw [he]
      exact .of_opens hx hs hurl' hk (hopens.congr hsame)
    · next hs => exact .of_other hs
  · cases h
  · next secret url hkey hurl =>
    split at h
    · cases h
    · next c hc =>
      obtain rfl := Except.ok.inj h
      obtain ⟨k, hk, hopens⟩ := encryptApiKey_ok hA hc
      exact .of_opens hx (merged_stores hx hkey) hurl hk hopens

/-- An update that is not sensitive freezes nothing new. -/
theorem runSnapshotValues_modelRow {m : Model} {x : ModelCreate} {u : ModelUpdate}
    (h : sensitiveChange m x u = false) (now : Time) (runId : RunId) :
    (modelRow x m.id m.createdAt now).runSnapshotValues runId = m.runSnapshotValues runId := by
  simp only [sensitiveChange, Bool.or_eq_false_iff, decide_eq_false_iff_not, ne_eq,
    Decidable.not_not] at h
  obtain ⟨⟨⟨⟨⟨h₁, h₂⟩, h₃⟩, h₄⟩, h₅⟩, -⟩ := h
  simp only [Model.runSnapshotValues, modelRow, h₁, h₂, h₃, h₄, h₅]

/-! ## The invariant -/

/-- What holds of every committed registry. -/
structure Registry.Inv (E : Services) (s : Registry) : Prop where
  sealed : ∀ id m, s.models.get? id = some m → Sealed E m (envelopeOf s id)
  owned : ∀ id, s.models.get? id = none → s.credentials.get? id = none
  frozen : ∀ id run, s.store.runs.get? id = some run →
    ∃ x, s.snapshots.get? id = some x ∧ x.id = run.modelId ∧
      (run.status.terminal = false →
        ∃ m, s.models.get? run.modelId = some m ∧ x = m.runSnapshotValues id)
  known : ∀ id, s.store.runs.get? id = none → s.snapshots.get? id = none

theorem Registry.Inv.empty : Registry.empty.Inv E where
  sealed _ _ h := nomatch h
  owned _ _ := rfl
  frozen _ _ h := nomatch h
  known _ _ := rfl

/-- The Model, its envelope, and that no Run of it is active. -/
structure Kept (id : ModelId) (s t : Registry) : Prop where
  model : t.models.get? id = s.models.get? id
  credential : t.credentials.get? id = s.credentials.get? id
  runs : activeRunExists s id = false → activeRunExists t id = false

/-- What a handler counts on: the Models it has locked are kept by others. -/
def Rely (h : List RowLock) (s t : Registry) : Prop := ∀ id, RowLock.model id ∈ h → Kept id s t

/-- What a handler does at most: it keeps every Model it has not locked. -/
def Guar (h : List RowLock) (s t : Registry) : Prop := ∀ id, RowLock.model id ∉ h → Kept id s t

theorem Kept.refl (id : ModelId) (s : Registry) : Kept id s s := ⟨rfl, rfl, fun h => h⟩

theorem Kept.trans {id : ModelId} {s t u : Registry} (h : Kept id s t) (h' : Kept id t u) :
    Kept id s u :=
  ⟨h'.model.trans h.model, h'.credential.trans h.credential, fun hs => h'.runs (h.runs hs)⟩

theorem Rely.refl (h : List RowLock) (s : Registry) : Rely h s s := fun id _ => .refl id s

theorem Rely.trans (h : List RowLock) (s t u : Registry) (hst : Rely h s t) (htu : Rely h t u) :
    Rely h s u := fun id hid => (hst id hid).trans (htu id hid)

theorem Guar.rely (h h' : List RowLock) (s t : Registry) (hap : ∀ l ∈ h, l ∉ h')
    (hg : Guar h' s t) : Rely h s t := fun id hid => hg id (hap _ hid)

theorem envelopeOf_congr {id : ModelId} {s t : Registry} (h : Kept id s t) :
    envelopeOf t id = envelopeOf s id := by
  rw [envelopeOf, envelopeOf, h.credential]

theorem activeRunExists_eq_false {s : Registry} {id : ModelId} :
    activeRunExists s id = false ↔
      ∀ r ∈ s.store.runs.rows, r.modelId = id → r.status.terminal = true := by
  simp [activeRunExists]

/-! ## Commits -/

variable {s : Registry}

/-- An insert of a new Model with a fitting envelope. -/
theorem insertModel_inv {m : Model} {e : Option EncryptedCredential} (hs : s.Inv E)
    (hnew : s.models.get? m.id = none) (hm : Sealed E m e) : (insertModel m e s).Inv E := by
  have hmodels (id : ModelId) : (insertModel m e s).models.get? id =
      if id = m.id then some m else s.models.get? id := by
    show (s.models.insert m).get? id = _
    rw [Table.get?_insert, show key m = m.id from rfl, hnew]
    rfl
  have hcred (id : ModelId) : (insertModel m e s).credentials.get? id =
      if id = m.id then e.map fun c => ⟨m.id, c⟩ else s.credentials.get? id := by
    have hnone := hs.owned m.id hnew
    cases e with
    | none =>
      show s.credentials.get? id = _
      split
      · next h => rw [h, hnone]; rfl
      · rfl
    | some c =>
      show (s.credentials.insert ⟨m.id, c⟩).get? id = _
      rw [Table.get?_insert, show key (⟨m.id, c⟩ : ModelCredential) = m.id from rfl, hnone]
      rfl
  refine ⟨fun id m' hm' => ?_, fun id hid => ?_, fun id run hrun => ?_, hs.known⟩
  · rw [hmodels] at hm'
    rw [envelopeOf, hcred]
    split at hm'
    · next h =>
      obtain rfl := Option.some.inj hm'
      rw [if_pos h, Option.map_map]
      rcases e with _ | c
      · exact hm
      · exact hm
    · next h =>
      rw [if_neg h]
      exact hs.sealed id m' hm'
  · rw [hmodels] at hid
    split at hid
    · cases hid
    · next h =>
      rw [hcred, if_neg h]
      exact hs.owned id hid
  · obtain ⟨x, hx, hmodel, hactive⟩ := hs.frozen id run hrun
    refine ⟨x, hx, hmodel, fun ht => ?_⟩
    obtain ⟨m', hm', hsnap⟩ := hactive ht
    refine ⟨m', ?_, hsnap⟩
    rw [hmodels, if_neg]
    · exact hm'
    · intro h
      rw [h, hnew] at hm'
      cases hm'

theorem insertModel_guar {m : Model} {e : Option EncryptedCredential} {h : List RowLock}
    (hlock : RowLock.model m.id ∈ h) : Guar h s (insertModel m e s) := by
  intro id hid
  have hne : id ≠ m.id := by
    rintro rfl
    exact hid hlock
  refine ⟨(Table.get?_insert s.models m id).trans (if_neg hne), ?_, fun hs => hs⟩
  cases e with
  | none => rfl
  | some c => exact (Table.get?_insert s.credentials ⟨m.id, c⟩ id).trans (if_neg hne)

theorem get?_editEnvelope (id : ModelId) (t : Table ModelCredential) (edit : EnvelopeEdit)
    (k : ModelId) :
    ((editEnvelope id t edit).get? k).map ModelCredential.envelope =
      if k = id then EnvelopeEdit.apply ((t.get? k).map ModelCredential.envelope) edit
      else (t.get? k).map ModelCredential.envelope := by
  cases edit with
  | keep => simp [editEnvelope, EnvelopeEdit.apply]
  | remove =>
    rw [editEnvelope, Table.get?_erase]
    split <;> rfl
  | replace c =>
    rw [editEnvelope, Table.get?_insert, show key (⟨id, c⟩ : ModelCredential) = id from rfl,
      Table.get?_erase, if_pos rfl]
    split
    · rfl
    · next h => rw [Table.get?_erase, if_neg h]

/-- An update whose plan fits, and that freezes nothing new while a Run of the
Model is active. -/
theorem putModel_inv {m m' : Model} {edit : EnvelopeEdit} (hs : s.Inv E) (hid : m'.id = m.id)
    (hm : s.models.get? m.id = some m)
    (hsealed : Sealed E m' (EnvelopeEdit.apply (envelopeOf s m.id) edit))
    (hsnap : activeRunExists s m.id = false ∨
      ∀ runId, m'.runSnapshotValues runId = m.runSnapshotValues runId) :
    (putModel m' edit s).Inv E := by
  have hmodels (id : ModelId) : (putModel m' edit s).models.get? id =
      if id = m.id then some m' else s.models.get? id := by
    show (s.models.put m').get? id = _
    split
    · next h =>
      have hm' : s.models.get? (key m') = some m := (congrArg s.models.get? hid).trans hm
      rw [h, ← hid]
      exact Table.get?_put_self hm'
    · next h => exact Table.get?_put_ne (by rw [show key m' = m'.id from rfl, hid]; exact h)
  have henv (id : ModelId) : envelopeOf (putModel m' edit s) id =
      if id = m.id then EnvelopeEdit.apply (envelopeOf s id) edit else envelopeOf s id := by
    rw [← hid]
    exact get?_editEnvelope m'.id s.credentials edit id
  refine ⟨fun id x hx => ?_, fun id hnone => ?_, fun id run hrun => ?_, hs.known⟩
  · rw [hmodels] at hx
    rw [henv]
    split at hx
    · next h =>
      obtain rfl := Option.some.inj hx
      rw [if_pos h, h]
      exact hsealed
    · next h =>
      rw [if_neg h]
      exact hs.sealed id x hx
  · rw [hmodels] at hnone
    split at hnone
    · cases hnone
    · next h =>
      have hold := hs.owned id hnone
      have hnew := henv id
      rw [if_neg h, envelopeOf, envelopeOf, hold] at hnew
      exact Option.map_eq_none_iff.mp hnew
  · obtain ⟨x, hx, hmodel, hactive⟩ := hs.frozen id run hrun
    refine ⟨x, hx, hmodel, fun ht => ?_⟩
    obtain ⟨y, hy, hxy⟩ := hactive ht
    by_cases h : run.modelId = m.id
    · rw [h, hm] at hy
      obtain rfl := Option.some.inj hy
      refine ⟨m', by rw [hmodels, if_pos h], ?_⟩
      rcases hsnap with hidle | hsame
      · have hend := activeRunExists_eq_false.mp hidle run (Table.mem_of_get? hrun) h
        rw [ht] at hend
        cases hend
      · rw [hsame]
        exact hxy
    · exact ⟨y, by rw [hmodels, if_neg h]; exact hy, hxy⟩

theorem putModel_guar {m : Model} {edit : EnvelopeEdit} {h : List RowLock}
    (hlock : RowLock.model m.id ∈ h) : Guar h s (putModel m edit s) := by
  intro id hid
  have hne : id ≠ m.id := by
    rintro rfl
    exact hid hlock
  refine ⟨Table.get?_put_ne hne, ?_, fun hs => hs⟩
  show (editEnvelope m.id s.credentials edit).get? id = _
  cases edit with
  | keep => rfl
  | remove => rw [editEnvelope, Table.get?_erase, if_neg hne]
  | replace c =>
    have hinsert := Table.get?_insert (s.credentials.erase m.id) ⟨m.id, c⟩ id
    rw [editEnvelope, hinsert.trans (if_neg hne), Table.get?_erase, if_neg hne]

/-- A Model without active Runs can go. -/
theorem eraseModel_inv {id : ModelId} (hs : s.Inv E) (hidle : activeRunExists s id = false) :
    (eraseModel id s).Inv E := by
  have hmodels (k : ModelId) : (eraseModel id s).models.get? k =
      if k = id then none else s.models.get? k := Table.get?_erase s.models id k
  have hcred (k : ModelId) : (eraseModel id s).credentials.get? k =
      if k = id then none else s.credentials.get? k := Table.get?_erase s.credentials id k
  refine ⟨fun k m hm => ?_, fun k hnone => ?_, fun k run hrun => ?_, hs.known⟩
  · rw [hmodels] at hm
    split at hm
    · cases hm
    · next h =>
      rw [envelopeOf, hcred, if_neg h]
      exact hs.sealed k m hm
  · rw [hmodels] at hnone
    rw [hcred]
    split
    · rfl
    · next h =>
      rw [if_neg h] at hnone
      exact hs.owned k hnone
  · obtain ⟨x, hx, hmodel, hactive⟩ := hs.frozen k run hrun
    refine ⟨x, hx, hmodel, fun ht => ?_⟩
    obtain ⟨m, hm, hxm⟩ := hactive ht
    refine ⟨m, ?_, hxm⟩
    rw [hmodels, if_neg]
    · exact hm
    · intro h
      have hend := activeRunExists_eq_false.mp hidle run (Table.mem_of_get? hrun) h
      rw [ht] at hend
      cases hend

theorem eraseModel_guar {id : ModelId} {h : List RowLock} (hlock : RowLock.model id ∈ h) :
    Guar h s (eraseModel id s) := by
  intro k hk
  have hne : k ≠ id := by
    rintro rfl
    exact hk hlock
  exact ⟨(Table.get?_erase s.models id k).trans (if_neg hne),
    (Table.get?_erase s.credentials id k).trans (if_neg hne), fun hs => hs⟩

/-- What the Runs of `b` owe to those of `a` when no Run is created: each was
there, of the same Model, and has not come back from its end. -/
structure Transits (a b : Store) : Prop where
  kept : ∀ id, (a.runs.get? id).isSome → (b.runs.get? id).isSome
  origin : ∀ id run', b.runs.get? id = some run' →
    ∃ run, a.runs.get? id = some run ∧ run'.modelId = run.modelId ∧
      (run'.status.terminal = false → run.status.terminal = false)

theorem Transits.refl (a : Store) : Transits a a :=
  ⟨fun _ h => h, fun _ run h => ⟨run, h, rfl, fun ht => ht⟩⟩

theorem Transits.trans {a b c : Store} (h : Transits a b) (h' : Transits b c) : Transits a c := by
  refine ⟨fun id hid => h'.kept id (h.kept id hid), fun id run₂ h₂ => ?_⟩
  obtain ⟨run₁, h₁, hm₁, ht₁⟩ := h'.origin id run₂ h₂
  obtain ⟨run, h₀, hm₀, ht₀⟩ := h.origin id run₁ h₁
  exact ⟨run, h₀, hm₁.trans hm₀, fun ht => ht₀ (ht₁ ht)⟩

theorem StoreStep.transits {o : Op} {a b : Store} (ho : Op.transits o = true)
    (h : StoreStep cfg o a b) : Transits a b := by
  cases h with
  | idle hruns _ =>
    refine ⟨fun id hid => by rw [hruns]; exact hid, fun id run hrun => ?_⟩
    rw [hruns] at hrun
    exact ⟨run, hrun, rfl, fun ht => ht⟩
  | admitted ho' _ _ _ _ =>
    rw [ho'] at ho
    cases ho
  | @move r r' hr hmove hruns _ _ _ _ =>
    have hget (id : RunId) := get?_put_move hr hmove.sameOrigin.id id
    refine ⟨fun id hid => ?_, fun id run hrun => ?_⟩
    · rw [hruns, hget]
      split
      · rfl
      · exact hid
    · rw [hruns, hget] at hrun
      split at hrun
      · next h =>
        obtain rfl := Option.some.inj hrun
        exact ⟨r, by rw [h]; exact hr, hmove.sameOrigin.modelId, fun _ => hmove.not_terminal⟩
      · exact ⟨run, hrun, rfl, fun ht => ht⟩

theorem transits_next {o : Op} (ho : Op.transits o = true) (a : Store) :
    Transits a (next cfg a o) :=
  next_invariant (I := Transits a) (.refl a) fun _ _ hI hstep => hI.trans (hstep.transits ho)

theorem transition_inv {store : Store} (hs : s.Inv E) (h : Transits s.store store) :
    Registry.Inv E { s with store := store } := by
  refine ⟨hs.sealed, hs.owned, fun id run' hrun' => ?_, fun id hnone => ?_⟩
  · obtain ⟨run, hrun, hmodel, hterm⟩ := h.origin id run' hrun'
    obtain ⟨x, hx, hxm, hactive⟩ := hs.frozen id run hrun
    refine ⟨x, hx, hxm.trans hmodel.symm, fun ht => ?_⟩
    rw [hmodel]
    exact hactive (hterm ht)
  · apply hs.known
    rcases hrun : s.store.runs.get? id with _ | run
    · rfl
    · have hsome := h.kept id (by rw [hrun]; rfl)
      rw [show store.runs.get? id = none from hnone] at hsome
      cases hsome

theorem transition_guar {store : Store} (h : Transits s.store store) (hl : List RowLock) :
    Guar hl s { s with store := store } := by
  refine fun id _ => ⟨rfl, rfl, fun hidle => ?_⟩
  rw [activeRunExists_eq_false] at hidle ⊢
  intro run' hrun' hid
  obtain ⟨run, hrun, hmodel, hterm⟩ := h.origin run'.id run' (Table.get?_of_mem hrun')
  by_contra hactive
  have ht := hterm (by simpa using hactive)
  rw [hidle run (Table.mem_of_get? hrun) (hmodel.symm.trans hid)] at ht
  cases ht

/-- A Run is admitted with the snapshot of its Model. -/
theorem insertRun_commit {m : Model} {n : Governance.NewRun} {now : Time} {h : List RowLock}
    (hs : s.Inv E) (hm : s.models.get? n.modelId = some m)
    (hlock : RowLock.model n.modelId ∈ h) :
    (insertRun cfg m n now s).Inv E ∧ Guar h s (insertRun cfg m n now s) := by
  rcases hx : exec schema (Governance.admitRun cfg n now) s.store with err | ⟨r, store⟩
  · simp only [insertRun, hx]
    exact ⟨hs, fun id _ => .refl id s⟩
  obtain ⟨⟨policy, provider, hnew, -, hruns, -⟩, -⟩ := admitRun_inserts hx
  simp only [insertRun, hx]
  have hmid : m.id = n.modelId := Table.key_of_get? hm
  have hget (id : RunId) : store.runs.get? id =
      if id = n.id then some (n.admitted cfg policy provider now) else s.store.runs.get? id := by
    rw [hruns, Table.get?_insert, show key (n.admitted cfg policy provider now) = n.id from rfl,
      hnew]
    rfl
  have hsnap (id : RunId) : (s.snapshots.insert (m.runSnapshotValues n.id)).get? id =
      if id = n.id then some (m.runSnapshotValues n.id) else s.snapshots.get? id := by
    rw [Table.get?_insert, show key (m.runSnapshotValues n.id) = n.id from rfl,
      hs.known n.id hnew]
    rfl
  refine ⟨⟨hs.sealed, hs.owned, fun id run hrun => ?_, fun id hnone => ?_⟩, fun id hid => ?_⟩
  · rw [hget] at hrun
    rw [hsnap]
    split at hrun
    · next hid =>
      obtain rfl := Option.some.inj hrun
      rw [if_pos hid]
      exact ⟨_, rfl, hmid, fun _ => ⟨m, hm, by rw [hid]⟩⟩
    · next hid =>
      rw [if_neg hid]
      exact hs.frozen id run hrun
  · rw [hget] at hnone
    rw [hsnap]
    split at hnone
    · cases hnone
    · next hid =>
      rw [if_neg hid]
      exact hs.known id hnone
  · refine ⟨rfl, rfl, fun hidle => ?_⟩
    rw [activeRunExists_eq_false] at hidle ⊢
    intro run hrun hmodel
    have hrun := Table.get?_of_mem hrun
    rw [hget] at hrun
    split at hrun
    · obtain rfl := Option.some.inj hrun
      exact absurd (hmodel ▸ hlock) hid
    · exact hidle run (Table.mem_of_get? hrun) hmodel

/-! ## Handlers -/

/-- The transaction keeps the invariant in any interleaving. -/
abbrev Keeps (E : Services) (p : Handler Unit) (h : List RowLock) (s : Registry) : Prop :=
  Safe registrySchema (Registry.Inv E) Rely Guar p id h s

theorem safe_ofExcept {α : Type} {x : Except ApiError α} {g : α → Handler Unit} {h : List RowLock}
    (hg : ∀ a, x = .ok a → Keeps E (g a) h s) : Keeps E ((Handler.ofExcept x).bind g) h s := by
  cases x with
  | error e => exact trivial
  | ok a => exact hg a rfl

theorem createModel_keeps (hA : E.aead.Opens) (d : ModelDocument) (id : ModelId) (now : Time)
    (nonce : Nonce) : Keeps E (createModel E d id now nonce) [] s := by
  refine safe_ofExcept fun x hx => safe_ofExcept fun e he => ?_
  refine safe_forUpdate fun t _ _ => safe_ensure fun hnew => safe_ensure fun _ => ?_
  refine safe_flush Rely.trans fun u htu hu => ?_
  have hlock : RowLock.model id ∈ [RowLock.model id, RowLock.name x.name] := List.mem_cons_self
  have hnone : u.models.get? id = none := by
    rw [(htu id hlock).model]
    simpa using hnew
  exact ⟨insertModel_inv hu hnone (sealCreated_ok hA (modelValidate_ok hx) he),
    insertModel_guar hlock⟩

theorem finishUpdate_keeps (hA : E.aead.Opens) {m : Model} {u : ModelUpdate} {x : ModelCreate}
    (hx : Validated (merged m u) x) {now : Time} {nonce : Nonce} {h : List RowLock}
    (hlock : RowLock.model m.id ∈ h) (hm : s.models.get? m.id = some m)
    (hsnap : activeRunExists s m.id = false ∨ sensitiveChange m x u = false) :
    Keeps E (finishUpdate E m (envelopeOf s m.id) x u now nonce) h s := by
  refine safe_ofExcept fun edit hedit => safe_forUpdate fun t hst _ => safe_ensure fun _ => ?_
  refine safe_flush Rely.trans fun v htv hv => ?_
  have hkept := (hst m.id hlock).trans (htv m.id (List.mem_append_left _ hlock))
  have hmv : v.models.get? m.id = some m := hkept.model.trans hm
  rw [← envelopeOf_congr hkept] at hedit
  have hsealed := planUpdate_sealed hA (hv.sealed m.id m hmv) hx hedit
  refine ⟨putModel_inv (m := m) hv rfl hmv hsealed ?_, putModel_guar (List.mem_append_left _ hlock)⟩
  exact hsnap.imp hkept.runs fun hns => runSnapshotValues_modelRow hns now

theorem updateModel_keeps (hA : E.aead.Opens) (id : ModelId) (payload : ModelUpdate) (now : Time)
    (nonce : Nonce) : Keeps E (updateModel E id payload now nonce) [] s := by
  refine safe_ofExcept fun u _ => safe_forUpdate fun t _ _ => ?_
  rcases hm : t.models.get? id with _ | m
  · simp only [id_eq, hm]
    exact trivial
  simp only [id_eq, hm]
  obtain rfl : m.id = id := Table.key_of_get? hm
  have hlock : RowLock.model m.id ∈ [] ++ [RowLock.model m.id] := List.mem_cons_self
  refine safe_read fun t₁ h₁ _ => safe_ofExcept fun x hx => safe_ofExcept fun _ _ => ?_
  have hm₁ : t₁.models.get? m.id = some m := (h₁ m.id hlock).model.trans hm
  split
  · refine safe_read fun t₂ h₂ _ => safe_ensure fun hidle => ?_
    have hm₂ : t₂.models.get? m.id = some m := (h₂ m.id hlock).model.trans hm₁
    show Keeps E (finishUpdate E m (envelopeOf t₁ m.id) x u now nonce) _ t₂
    rw [← envelopeOf_congr (h₂ m.id hlock)]
    exact finishUpdate_keeps hA (modelValidate_ok hx) hlock hm₂ (Or.inl (by simpa using hidle))
  · next hns =>
    exact finishUpdate_keeps hA (modelValidate_ok hx) hlock hm₁ (Or.inr (by simpa using hns))

theorem deleteModel_keeps (id : ModelId) : Keeps E (deleteModel id) [] s := by
  refine safe_read fun t _ _ => ?_
  split
  · exact trivial
  refine safe_read fun t₁ _ _ => safe_ensure fun _ => safe_forUpdate fun t₂ _ _ =>
    safe_ensure fun hnone => safe_flush Rely.trans fun v htv hv => ?_
  have hlock : RowLock.model id ∈ [] ++ [RowLock.model id] := List.mem_cons_self
  have hidle : activeRunExists t₂ id = false := by
    rw [activeRunExists_eq_false]
    intro r hr hid
    simp only [runExists, id_eq, Bool.not_eq_eq_eq_not, Bool.not_true, List.any_eq_false,
      decide_eq_true_eq] at hnone
    exact absurd hid (hnone r hr)
  exact ⟨eraseModel_inv hv ((htv id hlock).runs hidle), eraseModel_guar hlock⟩

theorem createRun_keeps (n : Governance.NewRun) (now : Time) :
    Keeps E (createRun cfg n now) [] s := by
  refine safe_forUpdate fun t _ _ => safe_forUpdate fun t₁ _ _ => ?_
  rcases hm : t₁.models.get? n.modelId with _ | m
  · simp only [id_eq, hm]
    exact trivial
  simp only [id_eq, hm]
  refine safe_ensure fun _ => safe_read fun t₂ h₂ _ => ?_
  split
  · exact trivial
  refine safe_flush Rely.trans fun v htv hv => ?_
  have hlock : RowLock.model n.modelId ∈
      ([] ++ [RowLock.admission]) ++ [RowLock.model n.modelId] := by simp
  have hkept := (h₂ n.modelId hlock).trans (htv n.modelId hlock)
  exact insertRun_commit hv (hkept.model.trans hm) hlock

theorem transition_keeps {o : Op} (ho : Op.transits o = true) :
    Keeps E (transition cfg o) [] s :=
  safe_flush Rely.trans fun _ _ hu =>
    ⟨transition_inv hu (transits_next ho _), transition_guar (transits_next ho _) _⟩

theorem Issued.keeps (hA : E.aead.Opens) {p : Handler Unit} (hp : Issued E cfg p) (s : Registry) :
    Keeps E p [] s := by
  cases hp with
  | createModel d id now nonce => exact createModel_keeps hA d id now nonce
  | updateModel id u now nonce => exact updateModel_keeps hA id u now nonce
  | deleteModel id => exact deleteModel_keeps id
  | createRun n now => exact createRun_keeps n now
  | transition ho => exact transition_keeps ho

/-! ## Every interleaving -/

/-- The registry committed in some interleaving of requests and Run transitions
from an empty database, any number of transactions open. -/
def Registry.Committed (E : Services) (cfg : Config) (s : Registry) : Prop :=
  ∃ c : Interleaved ℕ Registry Unit RowLock ApiError Unit, c.committed = s ∧
    Relation.ReflTransGen (Interleaved.Step registrySchema (Issued E cfg)) (.quiet .empty) c

theorem Registry.Committed.inv (hA : E.aead.Opens) (h : s.Committed E cfg) : s.Inv E := by
  obtain ⟨c, rfl, hc⟩ := h
  exact Interleaved.invariant Rely.refl Rely.trans
    (fun h h' s t hap _ hg => Guar.rely h h' s t hap hg)
    (fun p hp s _ => Issued.keeps hA hp s) .empty hc

/-- The Runner finds the key of a Run whose Model is sealed. -/
theorem loadApiKey_of_sealed {m : Model} {run : Run} (hm : Sealed E m (envelopeOf s m.id))
    (hid : m.id = run.modelId) (hsource : m.credentialSource = .stored) :
    ∃ secret, loadApiKey E s run (m.runSnapshotValues run.id) = .ok (some secret) := by
  obtain ⟨hremote, hname, henv, url, c, k, hurl, hc, hk, secret, hopen⟩ := hm.stored hsource
  obtain ⟨name, hname⟩ := Option.isSome_iff_exists.mp hname
  obtain ⟨row, hrow, rfl⟩ := Option.map_eq_some_iff.mp hc
  rw [hid] at hrow hopen
  refine ⟨secret, ?_⟩
  simp [loadApiKey, Model.runSnapshotValues, hremote, hurl, hname, hsource, henv, hid, hrow, hk,
    hopen]

/-- **Active Runs keep a usable credential.** With one keyring and a cipher that
opens what it sealed, whatever create, update, delete and Run requests and Run
transitions are interleaved: every Run has its frozen Model snapshot, and while
it is PENDING or RUNNING the Runner loads the API key of a stored credential by
it; a Model with a stored credential has an envelope that opens for it at its
current URL, and any other Model has no envelope. -/
theorem active_runs_keep_credential (E : Services) (cfg : Config) (hA : E.aead.Opens)
    (s : Registry) (h : s.Committed E cfg) :
    (∀ run ∈ s.store.runs.rows, ∃ x, s.snapshots.get? run.id = some x ∧ x.id = run.modelId ∧
      (run.status.terminal = false → x.credentialSource = .stored →
        ∃ secret, loadApiKey E s run x = .ok (some secret))) ∧
    ∀ m ∈ s.models.rows,
      (m.credentialSource = .stored →
        ∃ url e k, m.baseUrl = some url ∧ s.credentials.get? m.id = some ⟨m.id, e⟩ ∧
          E.keyring = .ok k ∧ Opens E.urls E.aead k e m.id url) ∧
      (m.credentialSource ≠ .stored → s.credentials.get? m.id = none) := by
  have hs := h.inv hA
  constructor
  · intro run hrun
    obtain ⟨x, hx, hmodel, hactive⟩ := hs.frozen run.id run (Table.get?_of_mem hrun)
    refine ⟨x, hx, hmodel, fun ht hsource => ?_⟩
    obtain ⟨m, hm, rfl⟩ := hactive ht
    have hid : m.id = run.modelId := Table.key_of_get? hm
    have hsealed := hs.sealed run.modelId m hm
    rw [← hid] at hsealed
    exact loadApiKey_of_sealed hsealed hid hsource
  · intro m hm
    have hsealed := hs.sealed m.id m (Table.get?_of_mem hm)
    constructor
    · intro hsource
      obtain ⟨-, -, -, url, e, k, hurl, he, hk, hopens⟩ := hsealed.stored hsource
      obtain ⟨row, hrow, rfl⟩ := Option.map_eq_some_iff.mp he
      have hid : row.modelId = m.id := Table.key_of_get? hrow
      exact ⟨url, row.envelope, k, hurl, by rw [hrow, ← hid], hk, hopens⟩
    · intro hsource
      exact Option.map_eq_none_iff.mp (hsealed.other hsource)

namespace Sample

/-- The URL of the sample Model and what `urlsplit` makes of it. -/
def providerUrl : String := "https://api.example.com/v1"

def urls : UrlLibrary where
  urlsplit s :=
    if s = providerUrl then
      some ⟨"https", some "api.example.com", some none, none, none, "/v1", "", ""⟩
    else none
  ipAddress _ := none
  idna := some

/-- A tag of 16 bytes that depends on the origin. -/
def tag (aad : Credentials.AssociatedData) : Framing.Bytes :=
  (Py.encodeUtf8 aad.providerOrigin ++ List.replicate 16 0).take 16

/-- A cipher that hides nothing but checks its tag. -/
def aead : Credentials.Aead where
  encrypt _ _ text aad := text ++ tag aad
  decrypt _ _ ciphertext aad :=
    let n := ciphertext.length - 16
    if ciphertext.drop n = tag aad then some (ciphertext.take n) else none

theorem length_tag (aad : Credentials.AssociatedData) : (tag aad).length = 16 := by
  simp [tag]

theorem aead_opens : aead.Opens where
  decrypt_encrypt _ _ text aad := by
    have hn : (text ++ tag aad).length - 16 = text.length := by simp [length_tag]
    simp only [aead, hn, List.drop_left, List.take_left, if_true]
  length_encrypt _ _ text aad := by simp [aead, length_tag]

def services : Services where
  urls := urls
  aead := aead
  keyring := .ok ⟨"k1", [("k1", List.replicate 32 7)], List.replicate 32 7, rfl, by decide +kernel⟩
  publicValuesContainSecret x _ secret _ := x.name == secret

/-- A remote Model with an API key. -/
def remoteModel : ModelDocument :=
  ⟨some "gpt", some .openaiCompatible, some providerUrl, some "gpt-x", none, some "sk-12345678",
    some true, none, none, some []⟩

def registered : Registry :=
  Prog.after registrySchema
    (createModel services remoteModel 5 1 ⟨List.replicate 12 1, rfl⟩) .empty

def started : Registry :=
  Prog.after registrySchema (createRun config (newRun 1 unlimited) 10) registered

def claimed : Registry :=
  Prog.after registrySchema (transition config (.claim 1 100 20)) started

theorem claimed_committed : claimed.Committed services config := by
  have h₁ : (exec registrySchema (createModel services remoteModel 5 1
      ⟨List.replicate 12 1, rfl⟩) .empty).isOk = true := by decide +kernel
  have h₂ : (exec registrySchema (createRun config (newRun 1 unlimited) 10)
      registered).isOk = true := by decide +kernel
  have h₃ : (exec registrySchema (transition config (.claim 1 100 20)) started).isOk = true := by
    decide +kernel
  refine ⟨.quiet claimed, rfl, ?_⟩
  exact ((Interleaved.reaches_after 0 (.createModel _ _ _ _) h₁).trans
    (Interleaved.reaches_after 0 (.createRun _ _) h₂)).trans
    (Interleaved.reaches_after 0 (Issued.transition rfl) h₃)

end Sample

/-- A Model is registered with a key, a Run of it created and claimed: the
Runner finds the key. -/
theorem active_runs_keep_credential_sample :
    ∃ run x secret, Sample.claimed.store.runs.get? 1 = some run ∧ run.status = .running ∧
      Sample.claimed.snapshots.get? 1 = some x ∧ x.credentialSource = .stored ∧
      loadApiKey Sample.services Sample.claimed run x = .ok (some secret) := by
  obtain ⟨hload, -⟩ := active_runs_keep_credential Sample.services Sample.config Sample.aead_opens
    Sample.claimed Sample.claimed_committed
  have hrun : (Sample.claimed.store.runs.get? 1).map Run.status = some .running := by
    decide +kernel
  have hsnap : (Sample.claimed.snapshots.get? 1).map ModelSnapshot.credentialSource =
      some .stored := by decide +kernel
  obtain ⟨run, hrun, hst⟩ := Option.map_eq_some_iff.mp hrun
  obtain ⟨y, hy, hsource⟩ := Option.map_eq_some_iff.mp hsnap
  have hid : run.id = 1 := Table.key_of_get? hrun
  obtain ⟨x, hx, -, hkey⟩ := hload run (Table.mem_of_get? hrun)
  rw [hid] at hx
  obtain rfl := Option.some.inj (hx.symm.trans hy)
  obtain ⟨secret, hsecret⟩ := hkey (by rw [hst]; rfl) hsource
  exact ⟨run, x, secret, hrun, hst, hx, hsource, hsecret⟩

end LLMBenchLab
