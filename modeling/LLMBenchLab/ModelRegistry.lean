import LLMBenchLab.Credentials
import LLMBenchLab.Interleaving
import LLMBenchLab.System

/-!
# The Model registry: create, update, delete, and Run creation

`schemas/model.py`, `api/v1/models.py` and the part of `api/v1/runs.py` that
couples a Run to its Model. A PATCH is merged over the current row field by
field and the result is validated as if it were a new Model; what happens to
the sealed API key follows from the merged document.

Each request is one transaction, statement by statement, over the registry
tables and the governance store beside them. `lock_model_for_update` is the
row lock on the Model; an insert or an update of a name locks the name, as a
unique index does.

Refusals that depend on nothing modelled here (a missing benchmark, generation
parameters of a Run) are rollbacks, and a rollback is possible at any point of
an interleaving.
-/

namespace LLMBenchLab

open Relational

/-! ## Rows -/

inductive ProviderType : Type where
  | mock | openaiCompatible | openaiResponses | anthropicMessages
  deriving DecidableEq, Repr

/-- `REMOTE_PROVIDER_TYPES`. -/
def ProviderType.remote : ProviderType → Bool
  | mock => false
  | openaiCompatible | openaiResponses | anthropicMessages => true

inductive CredentialSource : Type where
  | none | environment | stored
  deriving DecidableEq, Repr

/-- A value in `default_parameters`; a float that is not finite has no
number. -/
inductive ParameterValue : Type where
  | null
  | bool (b : Bool)
  | int (n : ℤ)
  | float (x : Option ℚ)
  | other
  deriving DecidableEq, Repr

abbrev Parameters : Type := List (String × ParameterValue)

/-- A registered Model. -/
structure Model where
  id : ModelId
  name : String
  providerType : ProviderType
  baseUrl : Option String
  remoteModelName : Option String
  apiKeyEnv : Option String
  credentialSource : CredentialSource
  enabled : Bool
  inputPrice : Option ℚ
  outputPrice : Option ℚ
  defaultParameters : Parameters
  createdAt : Time
  updatedAt : Time
  deriving DecidableEq, Repr

instance : Keyed Model ModelId := ⟨Model.id⟩

/-- The sealed key of a Model. -/
structure ModelCredential where
  modelId : ModelId
  envelope : Credentials.EncryptedCredential
  deriving DecidableEq, Repr

instance : Keyed ModelCredential ModelId := ⟨ModelCredential.modelId⟩

/-- `model_parameters_snapshot["model"]` of a Run, as far as the Runner checks
it. -/
structure ModelSnapshot where
  runId : RunId
  id : ModelId
  adapterType : ProviderType
  baseUrl : Option String
  remoteModelName : Option String
  credentialSource : CredentialSource
  apiKeyEnv : Option String
  deriving DecidableEq, Repr

instance : Keyed ModelSnapshot RunId := ⟨ModelSnapshot.runId⟩

/-- `model_run_snapshot_values`. -/
def Model.runSnapshotValues (m : Model) (runId : RunId) : ModelSnapshot :=
  ⟨runId, m.id, m.providerType, m.baseUrl, m.remoteModelName, m.credentialSource, m.apiKeyEnv⟩

/-- The registry beside the governance store. -/
structure Registry where
  models : Table Model
  credentials : Table ModelCredential
  snapshots : Table ModelSnapshot
  store : Store

def Registry.empty : Registry := ⟨.empty, .empty, .empty, .empty⟩

/-! ## Requests -/

/-- A document for `ModelCreate.model_validate`; `none` is null. -/
structure ModelDocument where
  name : Option String
  providerType : Option ProviderType
  baseUrl : Option String
  remoteModelName : Option String
  apiKeyEnv : Option String
  apiKey : Option String
  enabled : Option Bool
  inputPrice : Option ℚ
  outputPrice : Option ℚ
  defaultParameters : Option Parameters

/-- A validated `ModelCreate`. -/
structure ModelCreate where
  name : String
  providerType : ProviderType
  baseUrl : Option String
  remoteModelName : Option String
  apiKeyEnv : Option String
  apiKey : Option String
  enabled : Bool
  inputPrice : Option ℚ
  outputPrice : Option ℚ
  defaultParameters : Parameters

/-- A PATCH: each field is unset, null or a value. -/
structure ModelUpdate where
  name : Option (Option String) := none
  providerType : Option (Option ProviderType) := none
  baseUrl : Option (Option String) := none
  remoteModelName : Option (Option String) := none
  apiKeyEnv : Option (Option String) := none
  apiKey : Option (Option String) := none
  enabled : Option (Option Bool) := none
  inputPrice : Option (Option ℚ) := none
  outputPrice : Option (Option ℚ) := none
  defaultParameters : Option (Option Parameters) := none

/-- What a request is refused with. -/
inductive ApiError : Type where
  /-- 422, the first offending field and its message -/
  | validation (loc msg : String)
  | modelNotFound
  | modelNameConflict
  | credentialStoreUnavailable
  | apiKeyDuplicatedInPublicFields
  | modelHasActiveRuns
  | credentialRecoveryRequiresIsolatedUpdate
  | apiKeyRequiredForOriginChange
  | modelHasRuns
  | modelDeleteConflict
  | modelDisabled
  | runNotAdmitted (e : Err)
  /-- an exception no handler catches -/
  | uncaught (e : CryptoError)
  | assertion (msg : String)
  deriving DecidableEq, Repr

/-- The API's surroundings: URL parsing, the cipher, what
`CredentialKeyring.from_file` returns, and `model_public_values_contain_secret`
on a document with its identifier and instants, where it has them. -/
structure Services where
  urls : UrlLibrary
  aead : Credentials.Aead
  keyring : Except CryptoError Credentials.CredentialKeyring
  publicValuesContainSecret :
    ModelCreate → CredentialSource → String → Option (ModelId × Time × Time) → Bool

namespace ModelSchema

/-! ## Field validators -/

def invalid {α : Type} (loc msg : String) : Except ApiError α := .error (.validation loc msg)

def require (c : Bool) (loc msg : String) : Except ApiError Unit :=
  if c then .ok () else invalid loc msg

/-- `Field(max_length=…)`. -/
def maxLength (loc : String) (n : ℕ) (v : Option String) : Except ApiError Unit :=
  require (v.all fun s => decide (s.length ≤ n)) loc "String should be shorter"

/-- `normalize_name`. -/
def normalizeName (value : String) : Except ApiError String := do
  require (decide (1 ≤ value.length ∧ value.length ≤ 160)) "name" "String length out of range"
  let normalized := Py.strip value
  require (decide (normalized ≠ "")) "name" "name must not be blank"
  return normalized

/-- `_normalize_optional_text`. -/
def normalizeOptionalText (value : Option String) : Option String :=
  (value.map Py.strip).filter fun s => decide (s ≠ "")

/-- `_is_loopback_host`. -/
def isLoopbackHost (U : UrlLibrary) (hostname : String) : Bool :=
  let normalized := (Py.rstrip '.' hostname).toLower
  decide (normalized = "localhost") || (U.ipAddress normalized).any IpAddress.isLoopback

/-- `_validate_base_url`. -/
def validateBaseUrl (U : UrlLibrary) (value : Option String) :
    Except ApiError (Option String) := do
  maxLength "base_url" 2048 value
  match normalizeOptionalText value with
  | none => return none
  | some normalized =>
    match U.urlsplit normalized with
    | none => invalid "base_url" "base_url must be an absolute HTTP(S) URL"
    | some parsed =>
      require parsed.port.isSome "base_url" "base_url must be an absolute HTTP(S) URL"
      match parsed.hostname.filter fun s => decide (s ≠ "") with
      | none => invalid "base_url" "base_url must be an absolute HTTP(S) URL"
      | some hostname =>
        require (decide (parsed.scheme = "http" ∨ parsed.scheme = "https")) "base_url"
          "base_url must be an absolute HTTP(S) URL"
        require (decide (parsed.username.getD "" = "" ∧ parsed.password.getD "" = "")) "base_url"
          "base_url must not contain embedded credentials"
        require (decide (parsed.fragment = "")) "base_url"
          "base_url must not contain a URL fragment"
        require (decide (parsed.query = "")) "base_url"
          "base_url must not contain query parameters"
        require (decide (parsed.scheme ≠ "http") || isLoopbackHost U hostname) "base_url"
          "plain HTTP base_url is allowed only for loopback hosts"
        return some (Py.rstrip '/' normalized)

/-- `ENV_VAR_PATTERN`. -/
def matchesEnvVar (s : String) : Bool :=
  match s.toList with
  | [] => false
  | c :: rest => (c.isAlpha || c == '_') && rest.all fun d => d.isAlphanum || d == '_'

/-- The validators of `api_key_env`. -/
def validateApiKeyEnv (value : Option String) : Except ApiError (Option String) := do
  maxLength "api_key_env" 128 value
  let normalized := normalizeOptionalText value
  require (normalized.all matchesEnvVar) "api_key_env"
    "api_key_env must be an environment variable name, not a key value"
  return normalized

/-- The validators of `remote_model_name`. -/
def validateRemoteModelName (value : Option String) : Except ApiError (Option String) := do
  maxLength "remote_model_name" 256 value
  return normalizeOptionalText value

/-- `_validate_api_key_value`; a visible ASCII character is one byte. -/
def validateApiKeyValue (value : Option String) : Except ApiError (Option String) :=
  match value with
  | none => .ok none
  | some raw => do
    require (decide (raw ≠ "")) "api_key" "api_key must not be blank"
    require (decide (raw = Py.strip raw)) "api_key"
      "api_key must not contain leading or trailing whitespace"
    require (raw.toList.all fun c => decide (0x21 ≤ c.toNat ∧ c.toNat ≤ 0x7e)) "api_key"
      "api_key must contain only visible ASCII characters"
    require (decide (8 ≤ raw.length)) "api_key" "api_key must contain at least 8 bytes"
    require (decide (raw.length ≤ 8192)) "api_key" "api_key must contain at most 8192 bytes"
    return some raw

/-- `Field(ge=0)` of a price. -/
def validatePrice (loc : String) (value : Option ℚ) : Except ApiError (Option ℚ) := do
  require (value.all fun x => decide (0 ≤ x)) loc "Input should be greater than or equal to 0"
  return value

/-- A number in `[low, high]`, `low` itself excluded when `strict`. -/
def inRange (strict : Bool) (high : ℚ) : ParameterValue → Bool
  | .int n => (if strict then decide (0 < (n : ℚ)) else decide (0 ≤ (n : ℚ))) && decide (n ≤ high)
  | .float (some x) => (if strict then decide (0 < x) else decide (0 ≤ x)) && decide (x ≤ high)
  | _ => false

/-- `int`, or a finite float. -/
def finiteNumber : ParameterValue → Bool
  | .int _ => true
  | .float x => x.isSome
  | _ => false

def intBetween (low high : ℤ) : ParameterValue → Bool
  | .int n => decide (low ≤ n ∧ n ≤ high)
  | _ => false

/-- `MAX_GENERATION_TOKENS`. -/
def maxGenerationTokens : ℤ := 131072

/-- The keys `_validate_default_parameters` knows. -/
def allowedDefaultParameters : List String := ["temperature", "top_p", "max_tokens", "seed"]

/-- `temperature` and `top_p` of `_validate_default_parameters`. -/
def validateNumber (value : Parameters) (key : String) (strict : Bool) (high : ℚ) (range : String) :
    Except ApiError Unit :=
  match value.lookup key with
  | none => .ok ()
  | some v => do
    require (decide (v ≠ .null)) "default_parameters"
      ("default_parameters." ++ key ++ " must not be null")
    require (finiteNumber v) "default_parameters"
      ("default_parameters." ++ key ++ " must be a finite number")
    require (inRange strict high v) "default_parameters"
      ("default_parameters." ++ key ++ " must be " ++ range)

/-- `max_tokens` and `seed` of `_validate_default_parameters`. -/
def validateInteger (value : Parameters) (key : String) (low high : ℤ) (msg : String) :
    Except ApiError Unit :=
  match value.lookup key with
  | none | some .null => .ok ()
  | some v => require (intBetween low high v) "default_parameters" msg

/-- `_validate_default_parameters`. -/
def validateDefaultParameters (value : Parameters) : Except ApiError Parameters := do
  require (value.all fun p => allowedDefaultParameters.contains p.1) "default_parameters"
    "default_parameters only supports temperature, top_p, max_tokens, and seed"
  validateNumber value "temperature" false 2 "between 0 and 2"
  validateNumber value "top_p" true 1 "greater than 0 and at most 1"
  validateInteger value "max_tokens" 1 maxGenerationTokens
    "default_parameters.max_tokens must be null or an integer from 1 to 131072"
  validateInteger value "seed" (-(2 ^ 31)) (2 ^ 31 - 1)
    "default_parameters.seed must be a signed 32-bit integer or null"
  return value

/-- `validate_provider_generation_parameters`. -/
def validateProviderGenerationParameters (t : ProviderType) (p : Parameters) :
    Except ApiError Unit := do
  require (!(decide (t = .mock ∨ t = .openaiCompatible) &&
      (p.lookup "temperature" == some .null || p.lookup "top_p" == some .null))) "parameters"
    "requires a non-null value"
  require (!(decide (t = .openaiResponses ∨ t = .anthropicMessages) &&
      (p.lookup "seed").any fun v => decide (v ≠ .null))) "parameters"
    "does not support a non-null seed"
  require (!(decide (t = .anthropicMessages) && p.lookup "max_tokens" == some .null)) "parameters"
    "anthropic_messages requires a finite max_tokens value"
  require (!(decide (t = .anthropicMessages) &&
      (p.lookup "temperature").any fun v => decide (v ≠ .null) && !inRange false 1 v))
    "parameters" "anthropic_messages temperature must be between 0 and 1"

/-- `_PROVIDER_ENDPOINT_SUFFIXES`. -/
def endpointSuffixes : List (ProviderType × String) :=
  [(.openaiCompatible, "/chat/completions"), (.openaiResponses, "/responses"),
    (.anthropicMessages, "/messages")]

/-- `_validate_provider_endpoint`. -/
def validateProviderEndpoint (U : UrlLibrary) (t : ProviderType) (baseUrl : Option String) :
    Except ApiError Unit :=
  match baseUrl with
  | none => .ok ()
  | some url =>
    match U.urlsplit url with
    | none => invalid "" "Invalid URL"
    | some parsed =>
      let path := Py.rstrip '/' parsed.path
      match endpointSuffixes.find? fun c => Py.endsWith path c.2 with
      | none => .ok ()
      | some (matching, _) =>
        require (decide (matching = t)) "" "requires a compatible root URL or its own endpoint"

/-! ## `ModelCreate` -/

variable (E : Services)

/-- The remote branch of `validate_provider_requirements`. -/
def validateRemote (x : ModelCreate) : Except ApiError Unit := do
  require (x.baseUrl.isSome && x.remoteModelName.isSome && (x.apiKey.isSome || x.apiKeyEnv.isSome))
    "" "requires base_url, remote_model_name and api_key or api_key_env"
  require (!(x.apiKey.isSome && x.apiKeyEnv.isSome)) ""
    "accepts api_key or api_key_env, not both"
  validateProviderEndpoint E.urls x.providerType x.baseUrl
  validateProviderGenerationParameters x.providerType x.defaultParameters

/-- `validate_provider_requirements`. -/
def validateProviderRequirements (x : ModelCreate) : Except ApiError ModelCreate := do
  require (x.apiKey.all fun secret => !E.publicValuesContainSecret x .stored secret none) ""
    "api_key must not be duplicated in public model fields"
  if x.providerType.remote then
    validateRemote E x
    return x
  else
    require (x.baseUrl.isNone && x.remoteModelName.isNone && x.apiKeyEnv.isNone && x.apiKey.isNone)
      "" "mock requires empty remote fields"
    return { x with
      inputPrice := some (x.inputPrice.getD 0), outputPrice := some (x.outputPrice.getD 0) }

/-- A field that must not be null. -/
def required {α : Type} (loc : String) : Option α → Except ApiError α
  | none => invalid loc "Field required"
  | some v => .ok v

/-- The fields of `ModelFields`, each by its own validators. -/
def validateFields (d : ModelDocument) : Except ApiError ModelCreate := do
  return {
    name := ← normalizeName (← required "name" d.name)
    providerType := ← required "provider_type" d.providerType
    baseUrl := ← validateBaseUrl E.urls d.baseUrl
    remoteModelName := ← validateRemoteModelName d.remoteModelName
    apiKeyEnv := ← validateApiKeyEnv d.apiKeyEnv
    apiKey := ← validateApiKeyValue d.apiKey
    enabled := ← required "enabled" d.enabled
    inputPrice := ← validatePrice "input_price_per_million" d.inputPrice
    outputPrice := ← validatePrice "output_price_per_million" d.outputPrice
    defaultParameters := ← validateDefaultParameters
      (← required "default_parameters" d.defaultParameters) }

/-- `ModelCreate.model_validate`. -/
def modelValidate (d : ModelDocument) : Except ApiError ModelCreate := do
  validateProviderRequirements E (← validateFields E d)

/-! ## `ModelUpdate` -/

/-- A validator on a field that may be unset. -/
def onSet {α : Type} (f : Option α → Except ApiError (Option α)) :
    Option (Option α) → Except ApiError (Option (Option α))
  | none => .ok none
  | some v => (f v).map some

/-- `ModelUpdate.model_validate`: the validators of the fields that are set. -/
def updateValidate (u : ModelUpdate) : Except ApiError ModelUpdate := do
  let name ← onSet (fun v => match v with
    | none => .ok none
    | some s => (normalizeName s).map some) u.name
  let baseUrl ← onSet (validateBaseUrl E.urls) u.baseUrl
  let remoteModelName ← onSet validateRemoteModelName u.remoteModelName
  let apiKeyEnv ← onSet validateApiKeyEnv u.apiKeyEnv
  let apiKey ← onSet validateApiKeyValue u.apiKey
  let inputPrice ← onSet (validatePrice "input_price_per_million") u.inputPrice
  let outputPrice ← onSet (validatePrice "output_price_per_million") u.outputPrice
  let defaultParameters ← onSet (fun v => match v with
    | none => .ok none
    | some p => (validateDefaultParameters p).map some) u.defaultParameters
  require (decide (apiKey ≠ some none)) "api_key"
    "api_key must be omitted to preserve an existing credential"
  return { u with name, baseUrl, remoteModelName, apiKeyEnv, apiKey, inputPrice, outputPrice,
                  defaultParameters }

end ModelSchema

end LLMBenchLab
