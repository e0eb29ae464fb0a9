import LLMBenchLab.Framing
import LLMBenchLab.Store

/-!
# Credentials: sealed API keys

`backend/app/security/credentials.py`. A stored API key is encrypted with the
active key of the keyring; the Model identifier and the origin of the Provider
URL are authenticated with it, so that the envelope opens for that Model at
that origin only.

URL parsing, IP addresses and the `idna` codec are `UrlLibrary`, AES-GCM is
`Aead`; what is proved of an envelope needs of the cipher only that it opens
what it has sealed (`Aead.Opens`).
-/

namespace LLMBenchLab

open Framing (Bytes)

/-! ## Strings -/

namespace Py

/-- `str.isspace` of a character. -/
def isSpace (c : Char) : Bool :=
  let n := c.toNat
  (0x09 ≤ n && n ≤ 0x0d) || (0x1c ≤ n && n ≤ 0x20) || n == 0x85 || n == 0xa0 || n == 0x1680 ||
    (0x2000 ≤ n && n ≤ 0x200a) || n == 0x2028 || n == 0x2029 || n == 0x202f || n == 0x205f ||
    n == 0x3000

/-- Characters taken off the end. -/
def rstripBy (p : Char → Bool) (s : String) : String :=
  .ofList (s.toList.reverse.dropWhile p).reverse

/-- `str.strip()`. -/
def strip (s : String) : String := rstripBy isSpace (.ofList (s.toList.dropWhile isSpace))

/-- `str.rstrip(c)` for one character. -/
def rstrip (c : Char) (s : String) : String := rstripBy (· == c) s

/-- `str.endswith`. -/
def endsWith (s suffix : String) : Bool := suffix.toList.isSuffixOf s.toList

/-- `str.encode("utf-8")`. -/
def encodeUtf8 (s : String) : Bytes := s.toUTF8.data.toList

/-- `bytes.decode("utf-8")`. -/
def decodeUtf8 (b : Bytes) : Option String := String.fromUTF8? ⟨b.toArray⟩

theorem decodeUtf8_encodeUtf8 (s : String) : decodeUtf8 (encodeUtf8 s) = some s := by
  simp only [decodeUtf8, encodeUtf8, Array.toArray_toList, String.fromUTF8?]
  exact dif_pos s.isValidUTF8

theorem encodeUtf8_eq (t : String) : encodeUtf8 t = t.toList.flatMap String.utf8EncodeChar := by
  rw [encodeUtf8, String.toUTF8, ← String.utf8Encode_toList, List.utf8Encode]
  simp

/-- The bytes of ASCII text are its characters. -/
theorem mem_encodeUtf8 {t : String} (h : ∀ c ∈ t.toList, c ≤ '~') {b : UInt8}
    (hb : b ∈ encodeUtf8 t) : ∃ c ∈ t.toList, b = c.val.toUInt8 := by
  rw [encodeUtf8_eq] at hb
  obtain ⟨c, hc, hb⟩ := List.mem_flatMap.mp hb
  have hle : c.val ≤ '~'.val := h c hc
  have hsize : c.utf8Size = 1 :=
    Char.utf8Size_eq_one_iff.mpr (UInt32.le_trans hle (by decide))
  rw [String.utf8EncodeChar_eq_singleton hsize] at hb
  exact ⟨c, hc, List.mem_singleton.mp hb⟩

theorem length_encodeUtf8 {t : String} (h : ∀ c ∈ t.toList, c ≤ '~') :
    (encodeUtf8 t).length = t.toList.length := by
  rw [encodeUtf8_eq, List.length_flatMap, List.map_congr_left (g := fun _ => 1)]
  · simp
  · intro c hc
    have hle : c.val ≤ '~'.val := h c hc
    have hsize : c.utf8Size = 1 :=
      Char.utf8Size_eq_one_iff.mpr (UInt32.le_trans hle (by decide))
    rw [String.utf8EncodeChar_eq_singleton hsize]
    rfl

theorem eq_empty_of_encodeUtf8 {t : String} (h : encodeUtf8 t = []) : t = "" := by
  have hdec := decodeUtf8_encodeUtf8 t
  rw [h] at hdec
  exact Option.some.inj (hdec.symm.trans (decodeUtf8_encodeUtf8 ""))

end Py

/-! ## Origins -/

/-- The parts of `urlsplit` the code looks at. -/
structure SplitResult where
  scheme : String
  hostname : Option String
  /-- `none` where the property raises -/
  port : Option (Option ℕ)
  username : Option String
  password : Option String
  path : String
  query : String
  fragment : String
  deriving DecidableEq, Repr

/-- An `ipaddress` object. -/
structure IpAddress where
  version : ℕ
  compressed : String
  isLoopback : Bool
  deriving DecidableEq, Repr

/-- `urllib.parse`, `ipaddress` and the `idna` codec; `none` is the exception
each of them raises. -/
structure UrlLibrary where
  urlsplit : String → Option SplitResult
  ipAddress : String → Option IpAddress
  idna : String → Option String

/-- `CredentialCryptoError` and its subclasses. -/
inductive CryptoError : Type where
  | keyringUnavailable | keyringInvalid | keyUnavailable | decryption | envelope | input
  deriving DecidableEq, Repr

namespace Credentials

/-- The canonical host of an origin. -/
def canonicalAuthority (U : UrlLibrary) (rawHost : String) : Except CryptoError String :=
  match U.ipAddress rawHost with
  | some ip =>
    let host := ip.compressed.toLower
    .ok (if ip.version = 6 then "[" ++ host ++ "]" else host)
  | none =>
    match (U.idna rawHost).map String.toLower with
    | none => .error .input
    | some host =>
      if host = "" ∨ host.toList.any Py.isSpace then .error .input else .ok host

/-- `normalize_provider_origin`. -/
def normalizeProviderOrigin (U : UrlLibrary) (baseUrl : String) : Except CryptoError String :=
  match U.urlsplit (Py.strip baseUrl) with
  | none => .error .input
  | some parsed =>
    match parsed.port, parsed.hostname with
    | some port, some hostname =>
      let scheme := parsed.scheme.toLower
      if (scheme ≠ "http" ∧ scheme ≠ "https") ∨ parsed.username.isSome ∨ parsed.password.isSome ∨
          parsed.query ≠ "" ∨ parsed.fragment ≠ "" then
        .error .input
      else
        let rawHost := Py.rstrip '.' hostname
        if rawHost = "" then .error .input
        else
          (canonicalAuthority U rawHost).map fun authority =>
            let defaultPort := if scheme = "http" then 80 else 443
            match port with
            | some p =>
              scheme ++ "://" ++ (if p ≠ defaultPort then authority ++ ":" ++ toString p
                else authority)
            | none => scheme ++ "://" ++ authority
    | _, _ => .error .input

/-! ## Envelopes -/

/-- `CREDENTIAL_ALGORITHM`. -/
def credentialAlgorithm : String := "aes-256-gcm-v1"

def apiKeyMaxBytes : ℕ := 8 * 1024

def nonceBytes : ℕ := 12

/-- What `_associated_data` serializes. -/
structure AssociatedData where
  algorithm : String
  modelId : ModelId
  providerOrigin : String
  deriving DecidableEq, Repr

/-- `_associated_data`; a Model identifier is a UUID and passes its check. -/
def associatedData (U : UrlLibrary) (modelId : ModelId) (providerBaseUrl : String) :
    Except CryptoError AssociatedData :=
  (normalizeProviderOrigin U providerBaseUrl).map fun origin =>
    ⟨credentialAlgorithm, modelId, origin⟩

/-- `AESGCM`: key, nonce, text, associated data. -/
structure Aead where
  encrypt : Bytes → Bytes → Bytes → AssociatedData → Bytes
  decrypt : Bytes → Bytes → Bytes → AssociatedData → Option Bytes

/-- The cipher opens what it has sealed under the same associated data, and
adds a tag of 16 bytes. -/
structure Aead.Opens (A : Aead) : Prop where
  decrypt_encrypt : ∀ key nonce text aad,
    A.decrypt key nonce (A.encrypt key nonce text aad) aad = some text
  length_encrypt : ∀ key nonce text aad, (A.encrypt key nonce text aad).length = text.length + 16

/-- `EncryptedCredential`. -/
structure EncryptedCredential where
  keyId : String
  algorithm : String
  nonce : Bytes
  ciphertext : Bytes
  deriving DecidableEq, Repr

/-- `_KEY_ID_RE`. -/
def matchesKeyId (s : String) : Bool :=
  match s.toList with
  | [] => false
  | c :: rest =>
    c.isAlphanum && decide (rest.length ≤ 63) &&
      rest.all fun d => d.isAlphanum || d == '.' || d == '_' || d == '-'

/-- A keyring that passed `_parse_keyring`. -/
structure CredentialKeyring where
  activeKeyId : String
  keys : List (String × Bytes)
  activeKey : Bytes
  active_mem : keys.lookup activeKeyId = some activeKey
  active_matches : matchesKeyId activeKeyId = true

/-- The bytes `os.urandom(NONCE_BYTES)` draws. -/
abbrev Nonce : Type := { b : Bytes // b.length = nonceBytes }

variable (U : UrlLibrary) (A : Aead)

/-- `CredentialKeyring.encrypt`. -/
def encrypt (k : CredentialKeyring) (secret : String) (modelId : ModelId)
    (providerBaseUrl : String) (nonce : Nonce) : Except CryptoError EncryptedCredential :=
  let plaintext := Py.encodeUtf8 secret
  if plaintext = [] ∨ apiKeyMaxBytes < plaintext.length then .error .input
  else
    (associatedData U modelId providerBaseUrl).map fun aad =>
      ⟨k.activeKeyId, credentialAlgorithm, nonce, A.encrypt k.activeKey nonce plaintext aad⟩

/-- `CredentialKeyring.decrypt`. -/
def decrypt (k : CredentialKeyring) (e : EncryptedCredential) (modelId : ModelId)
    (providerBaseUrl : String) : Except CryptoError String :=
  if matchesKeyId e.keyId = false ∨ e.algorithm ≠ credentialAlgorithm then .error .envelope
  else
    match k.keys.lookup e.keyId with
    | none => .error .keyUnavailable
    | some key =>
      if e.nonce.length ≠ nonceBytes ∨ e.ciphertext.length ≤ 16 ∨
          apiKeyMaxBytes + 16 < e.ciphertext.length then
        .error .envelope
      else
        match associatedData U modelId providerBaseUrl with
        | .error err => .error err
        | .ok aad =>
          match A.decrypt key e.nonce e.ciphertext aad with
          | none => .error .decryption
          | some plaintext =>
            match Py.decodeUtf8 plaintext with
            | none => .error .decryption
            | some value =>
              if value = "" ∨ apiKeyMaxBytes < plaintext.length then .error .decryption
              else .ok value

/-- The envelope opens for the Model at the URL. -/
def Opens (k : CredentialKeyring) (e : EncryptedCredential) (modelId : ModelId)
    (providerBaseUrl : String) : Prop :=
  ∃ secret, decrypt U A k e modelId providerBaseUrl = .ok secret

variable {U A} {k : CredentialKeyring} {modelId : ModelId} {url url' : String}

/-- URLs of one origin share their associated data. -/
theorem associatedData_congr
    (h : normalizeProviderOrigin U url' = normalizeProviderOrigin U url) (m : ModelId) :
    associatedData U m url' = associatedData U m url := by
  rw [associatedData, associatedData, h]

/-- An envelope that opens at a URL opens at every URL of the same origin. -/
theorem Opens.congr {e : EncryptedCredential} (he : Opens U A k e modelId url)
    (h : normalizeProviderOrigin U url' = normalizeProviderOrigin U url) :
    Opens U A k e modelId url' := by
  obtain ⟨secret, hs⟩ := he
  refine ⟨secret, ?_⟩
  rw [decrypt, associatedData_congr h]
  exact hs

theorem encodeUtf8_ne_nil {s : String} (h : Py.encodeUtf8 s ≠ []) : s ≠ "" := by
  rintro rfl
  exact h rfl

/-- What was sealed for a Model at a URL opens for it there. -/
theorem decrypt_encrypt (hA : A.Opens) {secret : String} {nonce : Nonce} {e : EncryptedCredential}
    (h : encrypt U A k secret modelId url nonce = .ok e) :
    decrypt U A k e modelId url = .ok secret := by
  simp only [encrypt] at h
  split at h
  · cases h
  next hlen =>
  obtain ⟨hne, hmax⟩ := not_or.mp hlen
  rcases haad : associatedData U modelId url with err | aad
  · rw [haad] at h
    cases h
  rw [haad] at h
  obtain rfl := Except.ok.inj h
  have hcipher := hA.length_encrypt k.activeKey nonce (Py.encodeUtf8 secret) aad
  have hpos : 0 < (Py.encodeUtf8 secret).length := List.length_pos_iff.mpr hne
  have henvelope : ¬ ((nonce : Bytes).length ≠ nonceBytes ∨
      (A.encrypt k.activeKey nonce (Py.encodeUtf8 secret) aad).length ≤ 16 ∨
      apiKeyMaxBytes + 16 < (A.encrypt k.activeKey nonce (Py.encodeUtf8 secret) aad).length) := by
    rw [hcipher, nonce.2]
    omega
  simp only [decrypt, k.active_matches, k.active_mem, haad, hA.decrypt_encrypt,
    Py.decodeUtf8_encodeUtf8, if_neg henvelope]
  simp [encodeUtf8_ne_nil hne, hmax]

theorem opens_encrypt (hA : A.Opens) {secret : String} {nonce : Nonce} {e : EncryptedCredential}
    (h : encrypt U A k secret modelId url nonce = .ok e) : Opens U A k e modelId url :=
  ⟨secret, decrypt_encrypt hA h⟩

end Credentials

end LLMBenchLab
