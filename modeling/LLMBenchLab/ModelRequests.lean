import LLMBenchLab.ModelRegistry

/-!
# Requests on Models

The handlers of `api/v1/models.py` and the creation of a Run, one transaction a
request. What a handler computes between two statements is a pure function of
what it has read.
-/

namespace LLMBenchLab

open Relational ModelSchema
open Credentials (Nonce EncryptedCredential normalizeProviderOrigin)

/-- The rows and unique keys the handlers lock. -/
inductive RowLock : Type where
  /-- `lock_run_admission_scope` -/
  | admission
  | model (id : ModelId)
  /-- the entry of `uq_models_name` -/
  | name (n : String)
  deriving DecidableEq, Repr

/-- A transaction of a request handler. -/
abbrev Handler (α : Type) : Type := Prog Registry Unit RowLock ApiError α

def Handler.ofExcept {α : Type} : Except ApiError α → Handler α
  | .ok a => .ret a
  | .error e => .raise e

/-- `Model.__table_args__`. -/
def Model.checks (m : Model) : Bool :=
  (if m.providerType.remote then
    m.baseUrl.isSome && m.remoteModelName.isSome &&
      ((decide (m.credentialSource = .environment) && m.apiKeyEnv.isSome) ||
        (decide (m.credentialSource = .stored) && m.apiKeyEnv.isNone))
  else
    m.baseUrl.isNone && m.remoteModelName.isNone && m.apiKeyEnv.isNone &&
      decide (m.credentialSource = .none)) &&
  m.inputPrice.all (fun x => decide (0 ≤ x)) && m.outputPrice.all fun x => decide (0 ≤ x)

/-- The handlers turn every `IntegrityError` of a commit into a name conflict. -/
def registrySchema : Prog.Schema Registry ApiError :=
  ⟨fun s => s.models.rows.all Model.checks, .modelNameConflict⟩

namespace ModelApi

variable (E : Services)

/-! ## Keys -/

/-- `_source_for`. -/
def sourceFor (x : ModelCreate) : CredentialSource :=
  if x.providerType = .mock then .none
  else if x.apiKey.isSome then .stored
  else .environment

/-- The row a validated document becomes. -/
def modelRow (x : ModelCreate) (id : ModelId) (createdAt updatedAt : Time) : Model where
  id := id
  name := x.name
  providerType := x.providerType
  baseUrl := x.baseUrl
  remoteModelName := x.remoteModelName
  apiKeyEnv := x.apiKeyEnv
  credentialSource := sourceFor x
  enabled := x.enabled
  inputPrice := x.inputPrice
  outputPrice := x.outputPrice
  defaultParameters := x.defaultParameters
  createdAt := createdAt
  updatedAt := updatedAt

/-- `_reject_public_secret_copy`. -/
def rejectPublicSecretCopy (x : ModelCreate) (source : CredentialSource) (secret : String)
    (id : ModelId) (createdAt updatedAt : Time) : Except ApiError Unit :=
  if E.publicValuesContainSecret x source secret (some (id, createdAt, updatedAt)) then
    .error .apiKeyDuplicatedInPublicFields
  else .ok ()

/-- `_encrypt_api_key`, with the keyring `_load_keyring` loads. -/
def encryptApiKey (apiKey : Option String) (modelId : ModelId) (baseUrl : String) (nonce : Nonce) :
    Except ApiError EncryptedCredential :=
  match apiKey with
  | none => .error (.assertion "api_key is required")
  | some secret =>
    match E.keyring with
    | .error _ => .error .credentialStoreUnavailable
    | .ok k =>
      match Credentials.encrypt E.urls E.aead k secret modelId baseUrl nonce with
      | .error _ => .error .credentialStoreUnavailable
      | .ok e => .ok e

/-- `_decrypt_model_api_key`. -/
def decryptModelApiKey (m : Model) (credential : Option EncryptedCredential) :
    Except CryptoError String :=
  match m.baseUrl, credential with
  | some url, some e =>
    match E.keyring with
    | .error err => .error err
    | .ok k => Credentials.decrypt E.urls E.aead k e m.id url
  | _, _ => .error .envelope

/-- The envelope of a Model. -/
def envelopeOf (s : Registry) (id : ModelId) : Option EncryptedCredential :=
  (s.credentials.get? id).map ModelCredential.envelope

/-- `_active_run_exists`. -/
def activeRunExists (s : Registry) (id : ModelId) : Bool :=
  s.store.runs.rows.any fun r => decide (r.modelId = id) && !r.status.terminal

/-! ## Create -/

/-- What `create_model` seals before its insert. -/
def sealCreated (x : ModelCreate) (id : ModelId) (now : Time) (nonce : Nonce) :
    Except ApiError (Option EncryptedCredential) :=
  if sourceFor x = .stored then
    match x.baseUrl, x.apiKey with
    | none, _ => .error (.assertion "stored credentials require base_url")
    | _, none => .error (.assertion "stored credentials require api_key")
    | some url, some secret => do
      rejectPublicSecretCopy E x .stored secret id now now
      some <$> encryptApiKey E (some secret) id url nonce
  else .ok none

/-- The insert of a Model with its envelope. -/
def insertModel (m : Model) (e : Option EncryptedCredential) (s : Registry) : Registry :=
  { s with
    models := s.models.insert m
    credentials := match e with
      | none => s.credentials
      | some e => s.credentials.insert ⟨m.id, e⟩ }

/-- No other Model has the name. -/
def nameFree (s : Registry) (id : ModelId) (name : String) : Bool :=
  s.models.rows.all fun m => decide (m.id = id) || decide (m.name ≠ name)

/-- `create_model`; `id` is the identifier `uuid4` draws. -/
def createModel (d : ModelDocument) (id : ModelId) (now : Time) (nonce : Nonce) :
    Handler Unit := do
  let x ← Handler.ofExcept (modelValidate E d)
  let e ← Handler.ofExcept (sealCreated E x id now nonce)
  let s ← Prog.forUpdate fun _ => [RowLock.model id, RowLock.name x.name]
  Prog.ensure (s.models.get? id).isNone .modelNameConflict
  Prog.ensure (nameFree s id x.name) .modelNameConflict
  Prog.flush (insertModel (modelRow x id now now) e)

/-! ## Update -/

/-- `payload.api_key`. -/
def newKey (u : ModelUpdate) : Option String := u.apiKey.join

/-- `changes.get("provider_type") == ProviderType.MOCK`. -/
def toMock (u : ModelUpdate) : Bool := decide (u.providerType = some (some .mock))

/-- `changes`, after the two rules for the environment name and for mock. -/
def changes (u : ModelUpdate) : ModelUpdate :=
  let u := if (newKey u).isSome then { u with apiKeyEnv := some none } else u
  if toMock u then
    { u with baseUrl := some none, remoteModelName := some none, apiKeyEnv := some none }
  else u

/-- `current["api_key"]`: a marker for the sealed key, unless the update moves
away from it. -/
def currentKey (m : Model) (u : ModelUpdate) : Option String :=
  if (newKey u).isNone ∧ u.apiKeyEnv.join.isSome then none
  else if toMock u then none
  else if m.credentialSource = .stored then some "configured-stored-credential"
  else none

/-- `current | changes`. -/
def merged (m : Model) (u : ModelUpdate) : ModelDocument where
  name := (changes u).name.getD (some m.name)
  providerType := (changes u).providerType.getD (some m.providerType)
  baseUrl := (changes u).baseUrl.getD m.baseUrl
  remoteModelName := (changes u).remoteModelName.getD m.remoteModelName
  apiKeyEnv := (changes u).apiKeyEnv.getD m.apiKeyEnv
  apiKey := (changes u).apiKey.getD (currentKey m u)
  enabled := (changes u).enabled.getD (some m.enabled)
  inputPrice := (changes u).inputPrice.getD m.inputPrice
  outputPrice := (changes u).outputPrice.getD m.outputPrice
  defaultParameters := (changes u).defaultParameters.getD (some m.defaultParameters)

/-- `sensitive_change`. -/
def sensitiveChange (m : Model) (x : ModelCreate) (u : ModelUpdate) : Bool :=
  decide (x.providerType ≠ m.providerType) || decide (x.baseUrl ≠ m.baseUrl) ||
    decide (x.remoteModelName ≠ m.remoteModelName) || decide (x.apiKeyEnv ≠ m.apiKeyEnv) ||
    decide (sourceFor x ≠ m.credentialSource) || (newKey u).isSome

/-- `_unreadable_credential_recovery_is_isolated`. -/
def recoveryIsIsolated (m : Model) (x : ModelCreate) (source : CredentialSource) : Bool :=
  decide (x.name = m.name ∧ x.enabled = m.enabled ∧ x.defaultParameters = m.defaultParameters) &&
  match source with
  | .stored =>
    decide (x.providerType = m.providerType ∧ x.baseUrl = m.baseUrl ∧
      x.remoteModelName = m.remoteModelName ∧ x.apiKeyEnv = m.apiKeyEnv ∧
      x.inputPrice = m.inputPrice ∧ x.outputPrice = m.outputPrice)
  | .environment =>
    decide (x.providerType = m.providerType ∧ x.baseUrl = m.baseUrl ∧
      x.remoteModelName = m.remoteModelName ∧ x.inputPrice = m.inputPrice ∧
      x.outputPrice = m.outputPrice)
  | .none =>
    decide (x.providerType = .mock ∧ x.baseUrl = none ∧ x.remoteModelName = none ∧
      x.apiKeyEnv = none ∧ x.inputPrice = some 0 ∧ x.outputPrice = some 0)

/-- The new key must not stand in a public field. -/
def checkNewKey (m : Model) (x : ModelCreate) (u : ModelUpdate) (now : Time) :
    Except ApiError Unit :=
  match newKey u with
  | none => .ok ()
  | some secret => rejectPublicSecretCopy E x (sourceFor x) secret m.id m.createdAt now

/-- The existing key: it must not stand in a public field either, and when it
cannot be read the update has to replace or remove it and nothing else. -/
def checkExistingKey (m : Model) (credential : Option EncryptedCredential) (x : ModelCreate)
    (u : ModelUpdate) (now : Time) : Except ApiError Unit :=
  if m.credentialSource = .stored then
    match decryptModelApiKey E m credential with
    | .error _ =>
      if (newKey u).isNone ∧ sourceFor x = .stored then .error .credentialStoreUnavailable
      else if recoveryIsIsolated m x (sourceFor x) then .ok ()
      else .error .credentialRecoveryRequiresIsolatedUpdate
    | .ok existing => rejectPublicSecretCopy E x (sourceFor x) existing m.id m.createdAt now
  else .ok ()

/-- `old_origin` and `new_origin`. -/
def originOf (t : ProviderType) (baseUrl : Option String) : Except ApiError (Option String) :=
  match baseUrl with
  | none => .ok none
  | some url =>
    if t.remote then
      match normalizeProviderOrigin E.urls url with
      | .error e => .error (.uncaught e)
      | .ok origin => .ok (some origin)
    else .ok none

/-- A new origin needs a new key. -/
def checkOrigin (m : Model) (x : ModelCreate) (u : ModelUpdate) : Except ApiError Unit := do
  let old ← originOf E m.providerType m.baseUrl
  let new ← originOf E x.providerType x.baseUrl
  if old.isSome ∧ new.isSome ∧ new ≠ old ∧ (newKey u).isNone then
    .error .apiKeyRequiredForOriginChange
  else .ok ()

/-- What becomes of the envelope. -/
inductive EnvelopeEdit : Type where
  | keep
  | remove
  | replace (e : EncryptedCredential)

/-- The envelope of the updated Model. -/
def sealUpdated (m : Model) (x : ModelCreate) (u : ModelUpdate) (nonce : Nonce) :
    Except ApiError EnvelopeEdit :=
  match newKey u, x.baseUrl with
  | none, _ => .ok (if sourceFor x = .stored then .keep else .remove)
  | some _, none => .error (.assertion "stored credentials require base_url")
  | some secret, some url =>
    match encryptApiKey E (some secret) m.id url nonce with
    | .error err => .error err
    | .ok e => .ok (.replace e)

/-- The checks of `update_model` after the one for active Runs. -/
def planUpdate (m : Model) (credential : Option EncryptedCredential) (x : ModelCreate)
    (u : ModelUpdate) (now : Time) (nonce : Nonce) : Except ApiError EnvelopeEdit := do
  checkExistingKey E m credential x u now
  checkOrigin E m x u
  sealUpdated E m x u nonce

def editEnvelope (id : ModelId) (t : Table ModelCredential) : EnvelopeEdit → Table ModelCredential
  | .keep => t
  | .remove => t.erase id
  | .replace e => (t.erase id).insert ⟨id, e⟩

/-- The flush of an update. -/
def putModel (m : Model) (edit : EnvelopeEdit) (s : Registry) : Registry :=
  { s with models := s.models.put m, credentials := editEnvelope m.id s.credentials edit }

/-- `update_model` behind its check for active Runs. -/
def finishUpdate (m : Model) (credential : Option EncryptedCredential) (x : ModelCreate)
    (u : ModelUpdate) (now : Time) (nonce : Nonce) : Handler Unit := do
  let edit ← Handler.ofExcept (planUpdate E m credential x u now nonce)
  let s ← Prog.forUpdate fun _ => [RowLock.name x.name]
  Prog.ensure (nameFree s m.id x.name) .modelNameConflict
  Prog.flush (putModel (modelRow x m.id m.createdAt now) edit)

/-- `update_model` once the row is locked. -/
def updateLocked (m : Model) (u : ModelUpdate) (now : Time) (nonce : Nonce) : Handler Unit := do
  let s ← Prog.read
  let credential := envelopeOf s m.id
  let x ← Handler.ofExcept (modelValidate E (merged m u))
  Handler.ofExcept (checkNewKey E m x u now)
  if sensitiveChange m x u then
    let s ← Prog.read
    Prog.ensure (!activeRunExists s m.id) .modelHasActiveRuns
    finishUpdate E m credential x u now nonce
  else
    finishUpdate E m credential x u now nonce

/-- `update_model`. -/
def updateModel (id : ModelId) (payload : ModelUpdate) (now : Time) (nonce : Nonce) :
    Handler Unit := do
  let u ← Handler.ofExcept (updateValidate E payload)
  let s ← Prog.forUpdate fun _ => [RowLock.model id]
  match s.models.get? id with
  | none => Prog.raise .modelNotFound
  | some m => updateLocked E m u now nonce

/-! ## Delete -/

/-- Some Run refers to the Model. -/
def runExists (s : Registry) (id : ModelId) : Bool :=
  s.store.runs.rows.any fun r => decide (r.modelId = id)

def eraseModel (id : ModelId) (s : Registry) : Registry :=
  { s with models := s.models.erase id, credentials := s.credentials.erase id }

/-- `delete_model`. It takes no lock before its `DELETE`, which the foreign key
of the Runs checks once more. -/
def deleteModel (id : ModelId) : Handler Unit := do
  let s ← Prog.read
  match s.models.get? id with
  | none => Prog.raise .modelNotFound
  | some _ =>
    let s ← Prog.read
    Prog.ensure (!runExists s id) .modelHasRuns
    let s ← Prog.forUpdate fun _ => [RowLock.model id]
    Prog.ensure (!runExists s id) .modelDeleteConflict
    Prog.flush (eraseModel id)

/-! ## Runs -/

variable (cfg : Config)

/-- The admitted Run with its frozen Model snapshot. -/
def insertRun (m : Model) (n : Governance.NewRun) (now : Time) (s : Registry) : Registry :=
  match Prog.exec schema (Governance.admitRun cfg n now) s.store with
  | .error _ => s
  | .ok (_, store) =>
    { s with store := store, snapshots := s.snapshots.insert (m.runSnapshotValues n.id) }

/-- `create_run`. -/
def createRun (n : Governance.NewRun) (now : Time) : Handler Unit := do
  let _ ← Prog.forUpdate fun _ => [RowLock.admission]
  let s ← Prog.forUpdate fun _ => [RowLock.model n.modelId]
  match s.models.get? n.modelId with
  | none => Prog.raise .modelNotFound
  | some m => do
    Prog.ensure m.enabled .modelDisabled
    let s ← Prog.read
    match Prog.exec schema (Governance.admitRun cfg n now) s.store with
    | .error e => Prog.raise (.runNotAdmitted e)
    | .ok _ => Prog.flush (insertRun cfg m n now)

/-- A transaction of the governance store. -/
def transition (o : Op) : Handler Unit :=
  Prog.flush fun s => { s with store := next cfg s.store o }

/-- The operation does not create a Run. -/
def Op.transits : Op → Bool
  | .admitRun .. => false
  | _ => true

/-- The transactions of the system. -/
inductive Issued : Handler Unit → Prop where
  | createModel (d : ModelDocument) (id : ModelId) (now : Time) (nonce : Nonce) :
    Issued (createModel E d id now nonce)
  | updateModel (id : ModelId) (u : ModelUpdate) (now : Time) (nonce : Nonce) :
    Issued (updateModel E id u now nonce)
  | deleteModel (id : ModelId) : Issued (deleteModel id)
  | createRun (n : Governance.NewRun) (now : Time) : Issued (createRun cfg n now)
  | transition {o : Op} : Op.transits o = true → Issued (transition cfg o)

/-! ## What the Runner loads -/

/-- Exceptions of `_load_snapshots`. -/
inductive SnapshotError : Type where
  | runCredentialSnapshotInvalid | runModelSnapshotIncomplete | runStoredCredentialMissing
  | crypto (e : CryptoError)
  deriving DecidableEq, Repr

/-- The provider and credential part of `_load_snapshots`: the API key of a Run
with a stored credential, nothing for other sources. -/
def loadApiKey (s : Registry) (run : Run) (x : ModelSnapshot) :
    Except SnapshotError (Option String) :=
  if x.adapterType.remote then
    match x.baseUrl, x.remoteModelName with
    | some url, some _ =>
      match x.credentialSource with
      | .none => .error .runCredentialSnapshotInvalid
      | .environment =>
        if x.apiKeyEnv.getD "" = "" then .error .runCredentialSnapshotInvalid else .ok none
      | .stored =>
        if x.apiKeyEnv.isSome then .error .runCredentialSnapshotInvalid
        else if x.id ≠ run.modelId then .error .runModelSnapshotIncomplete
        else
          match s.credentials.get? run.modelId, E.keyring with
          | none, _ => .error .runStoredCredentialMissing
          | some _, .error err => .error (.crypto err)
          | some c, .ok k =>
            match Credentials.decrypt E.urls E.aead k c.envelope run.modelId url with
            | .error err => .error (.crypto err)
            | .ok secret => .ok (some secret)
    | _, _ => .error .runModelSnapshotIncomplete
  else if x.credentialSource ≠ .none ∨ x.baseUrl.isSome ∨ x.remoteModelName.isSome ∨
      x.apiKeyEnv.isSome then
    .error .runCredentialSnapshotInvalid
  else .ok none

end ModelApi

end LLMBenchLab
