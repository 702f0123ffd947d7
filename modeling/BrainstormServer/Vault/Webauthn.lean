/-
  Assertions of a passkey (`app/utils/webauthn.py`).

  The row of a vault is named by the hash of the bytes of a credential id, which
  arrives as base64url text.  Python's decoder skips what is not in the alphabet
  and ignores the trailing bits, so that many texts name one row;
  `isCanonicalB64url` singles out one of them.

  * `b64urlDecode` and `urlsafeB64encode` are the decoder and the encoder;
  * `b64urlDecode_b64url`: what is encoded is read back;
  * `eq_of_canonical`: canonical texts with the same bytes are equal;
  * `readClientData` and `checkAuthenticator` are `verify_assertion` before and
    after it asks for the challenge.
-/
import BrainstormServer.Python
import Mathlib.Data.List.DropRight

namespace BrainstormServer

namespace Vault

/-- What leaves the vault's functions. -/
inductive VaultExn
  | assertionInvalid (reason : String)
  | httpException (statusCode : ℕ) (detail : String)
  | unsupportedAlgorithm
  | valueError
  deriving DecidableEq

/-- What `load_der_public_key` may hand back: the type of the key and what is asked
    of it. -/
inductive KeyType
  | ellipticCurve (p256 : Bool)
  | ed25519
  | rsa (keySize e : ℕ)
  | other
  deriving DecidableEq

structure PublicKey where
  type : KeyType
  der : Bytes
  deriving DecidableEq

/-- The library, as far as the code calls it; `none` is a `ValueError`. -/
structure Lib where
  /-- `json.loads` of a text -/
  loads : String → Option PyValue
  /-- `json.loads` of bytes -/
  loadsBytes : Bytes → Option PyValue
  /-- `hashlib.sha256(..).digest()` -/
  sha256 : Bytes → Bytes
  /-- `hashlib.sha256(..).hexdigest()` -/
  sha256Hex : Bytes → String
  /-- `hmac.new(key, msg, hashlib.sha256).digest()` -/
  hmacSha256 : Bytes → Bytes → Bytes
  /-- `serialization.load_der_public_key`: `none` is a `ValueError` or `TypeError`,
      an unsupported algorithm raises an exception of its own -/
  loadDerPublicKey : Bytes → Except VaultExn (Option PublicKey)
  /-- `key.verify`, with the scheme of the algorithm: key, signature, signed bytes -/
  verify : PublicKey → Bytes → Bytes → Bool
  /-- `urlparse(origin).hostname or ""` -/
  hostname : String → Option String
  /-- `str.strip` -/
  strip : String → String
  /-- `str.encode` -/
  encode : String → Bytes

def algEs256 : ℤ := -7
def algEddsa : ℤ := -8
def algRs256 : ℤ := -257
def supportedAlgs : List ℤ := [algEs256, algEddsa, algRs256]

def authDataMinLen : ℕ := 37
def rsaMinBits : ℕ := 2048
def rsaMaxBits : ℕ := 4096

/-! ## Base64 -/

/-- The value of a character; `-` and `_` are translated to `+` and `/` before. -/
def b64Value (c : Char) : Option ℕ :=
  if 'A' ≤ c ∧ c ≤ 'Z' then some (c.toNat - 65)
  else if 'a' ≤ c ∧ c ≤ 'z' then some (c.toNat - 71)
  else if '0' ≤ c ∧ c ≤ '9' then some (c.toNat + 4)
  else if c = '+' ∨ c = '-' then some 62
  else if c = '/' ∨ c = '_' then some 63
  else none

/-- `binascii.a2b_base64`, not strict: the place in the group of four, the bits left
    over and the padding seen.  A group that is padded to its end stops the reading,
    an unfinished one is an error. -/
def a2bBase64 : List Char → ℕ → ℕ → ℕ → Option Bytes
  | [], quadPos, _, _ => if quadPos = 0 then some [] else none
  | c :: cs, quadPos, leftchar, pads =>
    if c = '=' then
      if 2 ≤ quadPos then
        if 4 ≤ quadPos + (pads + 1) then some [] else a2bBase64 cs quadPos leftchar (pads + 1)
      else a2bBase64 cs quadPos leftchar pads
    else match b64Value c with
      | none => a2bBase64 cs quadPos leftchar pads
      | some v =>
        match quadPos with
        | 0 => a2bBase64 cs 1 v 0
        | 1 => (a2bBase64 cs 2 (v % 16) 0).map ((leftchar * 4 + v / 16).toUInt8 :: ·)
        | 2 => (a2bBase64 cs 3 (v % 4) 0).map ((leftchar * 16 + v / 4).toUInt8 :: ·)
        | _ => (a2bBase64 cs 0 0 0).map ((leftchar * 64 + v).toUInt8 :: ·)

/-- `b64url_decode`, with the padding the text lacks; a text that is not ASCII is a
    `ValueError` too. -/
def b64urlDecode (value : String) : Except VaultExn Bytes :=
  let padded := value.toList ++ List.replicate ((4 - value.length % 4) % 4) '='
  match if padded.all (·.toNat < 128) then a2bBase64 padded 0 0 0 else none with
  | some bytes => .ok bytes
  | none => .error (.assertionInvalid "not base64url")

/-- The character of a value. -/
def b64Char (v : ℕ) : Char :=
  if v < 26 then Char.ofNat (v + 65)
  else if v < 52 then Char.ofNat (v + 71)
  else if v < 62 then Char.ofNat (v - 4)
  else if v = 62 then '-' else '_'

/-- `base64.urlsafe_b64encode`. -/
def urlsafeB64encode : Bytes → List Char
  | [] => []
  | [a] => [b64Char (a.toNat / 4), b64Char (a.toNat % 4 * 16), '=', '=']
  | [a, b] => [b64Char (a.toNat / 4), b64Char (a.toNat % 4 * 16 + b.toNat / 16),
      b64Char (b.toNat % 16 * 4), '=']
  | a :: b :: c :: bytes =>
    b64Char (a.toNat / 4) :: b64Char (a.toNat % 4 * 16 + b.toNat / 16) ::
      b64Char (b.toNat % 16 * 4 + c.toNat / 64) :: b64Char (c.toNat % 64) :: urlsafeB64encode bytes

/-- `base64.urlsafe_b64encode(data).rstrip(b"=").decode("ascii")`. -/
def b64url (data : Bytes) : String := String.ofList ((urlsafeB64encode data).rdropWhile (· = '='))

/-- `is_canonical_b64url`. -/
def isCanonicalB64url (value : String) : Bool :=
  match b64urlDecode value with
  | .ok decoded => b64url decoded = value
  | .error _ => false

/-- The alphabet is ASCII, without the padding, and read back. -/
theorem b64Char_spec : ∀ v < 64, b64Value (b64Char v) = some v ∧ b64Char v ≠ '=' ∧
    (b64Char v).toNat < 128 := by
  decide

/-- Four characters are three bytes. -/
theorem a2bBase64_group (a b c : UInt8) (cs : List Char) :
    a2bBase64 (b64Char (a.toNat / 4) :: b64Char (a.toNat % 4 * 16 + b.toNat / 16) ::
      b64Char (b.toNat % 16 * 4 + c.toNat / 64) :: b64Char (c.toNat % 64) :: cs) 0 0 0 =
    (a2bBase64 cs 0 0 0).map ([a, b, c] ++ ·) := by
  have ha := a.toNat_lt
  have hb := b.toNat_lt
  have hc := c.toNat_lt
  obtain ⟨h₁, hne₁, -⟩ := b64Char_spec (a.toNat / 4) (by omega)
  obtain ⟨h₂, hne₂, -⟩ := b64Char_spec (a.toNat % 4 * 16 + b.toNat / 16) (by omega)
  obtain ⟨h₃, hne₃, -⟩ := b64Char_spec (b.toNat % 16 * 4 + c.toNat / 64) (by omega)
  obtain ⟨h₄, hne₄, -⟩ := b64Char_spec (c.toNat % 64) (by omega)
  have ea : a.toNat / 4 * 4 + (a.toNat % 4 * 16 + b.toNat / 16) / 16 = a.toNat := by omega
  have eb : (a.toNat % 4 * 16 + b.toNat / 16) % 16 * 16 +
      (b.toNat % 16 * 4 + c.toNat / 64) / 4 = b.toNat := by omega
  have ec : (b.toNat % 16 * 4 + c.toNat / 64) % 4 * 64 + c.toNat % 64 = c.toNat := by omega
  simp only [a2bBase64, h₁, h₂, h₃, h₄, hne₁, hne₂, hne₃, hne₄, if_false, ea, eb, ec]
  cases a2bBase64 cs 0 0 0 with
  | none => rfl
  | some bytes => simp

/-- What is encoded is read back, padding included. -/
theorem a2bBase64_encode (bytes : Bytes) : a2bBase64 (urlsafeB64encode bytes) 0 0 0 = some bytes := by
  induction bytes using urlsafeB64encode.induct with
  | case1 => rfl
  | case2 a =>
    have ha := a.toNat_lt
    obtain ⟨h₁, hne₁, -⟩ := b64Char_spec (a.toNat / 4) (by omega)
    obtain ⟨h₂, hne₂, -⟩ := b64Char_spec (a.toNat % 4 * 16) (by omega)
    have ea : a.toNat / 4 * 4 + a.toNat % 4 * 16 / 16 = a.toNat := by omega
    simp only [urlsafeB64encode, a2bBase64, h₁, h₂, hne₁, hne₂, if_false, ea]
    simp
  | case3 a b =>
    have ha := a.toNat_lt
    have hb := b.toNat_lt
    obtain ⟨h₁, hne₁, -⟩ := b64Char_spec (a.toNat / 4) (by omega)
    obtain ⟨h₂, hne₂, -⟩ := b64Char_spec (a.toNat % 4 * 16 + b.toNat / 16) (by omega)
    obtain ⟨h₃, hne₃, -⟩ := b64Char_spec (b.toNat % 16 * 4) (by omega)
    have ea : a.toNat / 4 * 4 + (a.toNat % 4 * 16 + b.toNat / 16) / 16 = a.toNat := by omega
    have eb : (a.toNat % 4 * 16 + b.toNat / 16) % 16 * 16 + b.toNat % 16 * 4 / 4 = b.toNat := by omega
    simp only [urlsafeB64encode, a2bBase64, h₁, h₂, h₃, hne₁, hne₂, hne₃, if_false, ea, eb]
    simp
  | case4 a b c bytes ih =>
    rw [urlsafeB64encode, a2bBase64_group, ih]
    rfl

/-- A text of the alphabet, with padding to a multiple of four. -/
theorem urlsafeB64encode_split (bytes : Bytes) : ∃ body pads,
    urlsafeB64encode bytes = body ++ List.replicate pads '=' ∧
      (∀ c ∈ body, c ≠ '=' ∧ c.toNat < 128) ∧ (body.length + pads) % 4 = 0 ∧ pads < 4 := by
  have hchar : ∀ v < 64, b64Char v ≠ '=' ∧ (b64Char v).toNat < 128 := fun v hv => (b64Char_spec v hv).2
  induction bytes using urlsafeB64encode.induct with
  | case1 => exact ⟨[], 0, rfl, by simp, rfl, by omega⟩
  | case2 a =>
    have ha := a.toNat_lt
    refine ⟨[b64Char (a.toNat / 4), b64Char (a.toNat % 4 * 16)], 2, rfl, ?_, by simp, by omega⟩
    simp only [List.forall_mem_cons, List.not_mem_nil, false_implies, implies_true, and_true]
    exact ⟨hchar _ (by omega), hchar _ (by omega)⟩
  | case3 a b =>
    have ha := a.toNat_lt
    have hb := b.toNat_lt
    refine ⟨[b64Char (a.toNat / 4), b64Char (a.toNat % 4 * 16 + b.toNat / 16),
      b64Char (b.toNat % 16 * 4)], 1, rfl, ?_, by simp, by omega⟩
    simp only [List.forall_mem_cons, List.not_mem_nil, false_implies, implies_true, and_true]
    exact ⟨hchar _ (by omega), hchar _ (by omega), hchar _ (by omega)⟩
  | case4 a b c bytes ih =>
    have ha := a.toNat_lt
    have hb := b.toNat_lt
    have hc := c.toNat_lt
    obtain ⟨body, pads, heq, hbody, hmod, hpads⟩ := ih
    refine ⟨b64Char (a.toNat / 4) :: b64Char (a.toNat % 4 * 16 + b.toNat / 16) ::
      b64Char (b.toNat % 16 * 4 + c.toNat / 64) :: b64Char (c.toNat % 64) :: body, pads, ?_, ?_, ?_, hpads⟩
    · rw [urlsafeB64encode, heq]
      rfl
    · simp only [List.forall_mem_cons]
      exact ⟨hchar _ (by omega), hchar _ (by omega), hchar _ (by omega), hchar _ (by omega), hbody⟩
    · simp only [List.length_cons]
      omega

theorem rdropWhile_pads {body : List Char} (hbody : ∀ c ∈ body, c ≠ '=') (pads : ℕ) :
    (body ++ List.replicate pads '=').rdropWhile (· = '=') = body := by
  induction pads with
  | zero =>
    rw [List.replicate_zero, List.append_nil, List.rdropWhile_eq_self_iff]
    intro hne
    simpa using hbody _ (List.getLast_mem hne)
  | succ pads ih =>
    rw [List.replicate_succ', ← List.append_assoc, List.rdropWhile_concat_pos _ _ _ (by simp), ih]

/-- **What is encoded is read back.** -/
theorem b64urlDecode_b64url (bytes : Bytes) : b64urlDecode (b64url bytes) = .ok bytes := by
  obtain ⟨body, pads, heq, hbody, hmod, hpads⟩ := urlsafeB64encode_split bytes
  have htext : (b64url bytes).toList = body := by
    rw [b64url, String.toList_ofList, heq, rdropWhile_pads fun c hc => (hbody c hc).1]
  have hlength : (b64url bytes).length = body.length := by
    rw [← String.length_toList, htext]
  have hmissing : (4 - body.length % 4) % 4 = pads := by omega
  have hpadded : (b64url bytes).toList ++ List.replicate ((4 - (b64url bytes).length % 4) % 4) '=' =
      urlsafeB64encode bytes := by
    rw [htext, hlength, hmissing, heq]
  have hascii : (urlsafeB64encode bytes).all (·.toNat < 128) = true := by
    rw [heq, List.all_eq_true]
    intro c hc
    rcases List.mem_append.1 hc with hc | hc
    · simpa using (hbody c hc).2
    · rw [(List.mem_replicate.1 hc).2]
      decide
  unfold b64urlDecode
  dsimp only
  rw [hpadded, if_pos hascii, a2bBase64_encode]

/-- Of the texts with the same bytes one is canonical. -/
theorem eq_of_canonical {value value' : String} {bytes : Bytes}
    (h : isCanonicalB64url value = true) (h' : isCanonicalB64url value' = true)
    (hb : b64urlDecode value = .ok bytes) (hb' : b64urlDecode value' = .ok bytes) : value = value' := by
  simp only [isCanonicalB64url, hb, decide_eq_true_eq] at h
  simp only [isCanonicalB64url, hb', decide_eq_true_eq] at h'
  rw [← h, ← h']

theorem decode_of_canonical {value : String} (h : isCanonicalB64url value = true) :
    ∃ bytes, b64urlDecode value = .ok bytes := by
  unfold isCanonicalB64url at h
  split at h
  · rename_i decoded hd
    exact ⟨decoded, hd⟩
  · cases h

example : b64urlDecode "AA" = b64urlDecode "AB" ∧ isCanonicalB64url "AA" = true ∧
    isCanonicalB64url "AB" = false := by decide

/-! ## Assertions -/

/-- `value == text` for a value of unknown type. -/
def eqText : PyValue → String → Bool
  | .str s, text => s = text
  | _, _ => false

/-- `int.from_bytes(.., "big")`. -/
def fromBytes (bytes : Bytes) : ℕ := bytes.foldl (fun n b => n * 256 + b.toNat) 0

/-- `VerifiedAssertion`. -/
structure VerifiedAssertion where
  challenge : String
  signCount : ℕ
  deriving DecidableEq

/-- What an assertion's client data say: the bytes, the origin and the challenge. -/
structure ClientData where
  raw : Bytes
  origin : String
  challenge : String

section
variable (lib : Lib)

/-- `credential_id_hash`. -/
def credentialIdHash (credentialId : String) : Except VaultExn String :=
  (b64urlDecode credentialId).map lib.sha256Hex

/-- Whether a key is of the type its algorithm asks for. -/
def matchesAlg (key : PublicKey) (alg : ℤ) : Bool :=
  match key.type with
  | .ellipticCurve _ => alg = algEs256
  | .ed25519 => alg = algEddsa
  | .rsa _ _ => alg = algRs256
  | .other => false

/-- The requirements on a key of the right type. -/
def checkKey (key : PublicKey) : Except VaultExn PublicKey :=
  match key.type with
  | .ellipticCurve p256 => if p256 then .ok key else .error (.assertionInvalid "ES256 needs a P-256 key")
  | .rsa keySize e =>
    if rsaMinBits ≤ keySize ∧ keySize ≤ rsaMaxBits ∧ e = 65537 then .ok key
    else .error (.assertionInvalid "RS256 needs a 2048–4096-bit key with e=65537")
  | _ => .ok key

/-- `load_public_key`. -/
def loadPublicKey (spkiB64url : String) (alg : ℤ) : Except VaultExn PublicKey := do
  let der ← b64urlDecode spkiB64url
  let key ← lib.loadDerPublicKey der
  match key with
  | none => .error (.assertionInvalid "public key is not SPKI DER")
  | some key =>
    if matchesAlg key alg then checkKey key
    else .error (.assertionInvalid "public key does not match its algorithm")

/-- `_verify_signature`. -/
def verifySignature (key : PublicKey) (alg : ℤ) (signature signed : Bytes) : Except VaultExn Unit :=
  if alg ∈ supportedAlgs then
    if lib.verify key signature signed then .ok () else .error (.assertionInvalid "bad signature")
  else .error (.assertionInvalid "unsupported algorithm")

/-- `verify_assertion` up to the challenge. -/
def readClientData (clientDataJson : String) (allowedOrigins : List String) :
    Except VaultExn ClientData := do
  let raw ← b64urlDecode clientDataJson
  match lib.loadsBytes raw with
  | none => .error (.assertionInvalid "clientDataJSON is not JSON")
  | some (.dict clientData) =>
    if ¬ eqText (dictGet clientData "type") "webauthn.get" then
      .error (.assertionInvalid "not a get() assertion")
    else match dictGet clientData "origin" with
      | .str origin =>
        if origin ∉ allowedOrigins then .error (.assertionInvalid "origin not allowed")
        else match dictGet clientData "crossOrigin" with
          | .bool true => .error (.assertionInvalid "cross-origin ceremony")
          | _ => match dictGet clientData "challenge" with
            | .str challenge =>
              if challenge = "" then .error (.assertionInvalid "no challenge")
              else .ok ⟨raw, origin, challenge⟩
            | _ => .error (.assertionInvalid "no challenge")
      | _ => .error (.assertionInvalid "origin not allowed")
  | some _ => .error (.assertionInvalid "clientDataJSON is not an object")

/-- `verify_assertion` after the challenge. -/
def checkAuthenticator (clientData : ClientData) (authenticatorData signature publicKey : String)
    (alg : ℤ) : Except VaultExn VerifiedAssertion := do
  let authData ← b64urlDecode authenticatorData
  if authData.length < authDataMinLen then .error (.assertionInvalid "authenticatorData too short")
  else match lib.hostname clientData.origin with
    | none => .error .valueError
    | some rpId =>
      if authData.take 32 ≠ lib.sha256 (lib.encode rpId) then
        .error (.assertionInvalid "rpIdHash mismatch")
      else
        let flags := (authData.drop 32).headD 0
        if flags &&& 0x01 = 0 ∨ flags &&& 0x04 = 0 then
          .error (.assertionInvalid "user not present and verified")
        else do
          let key ← loadPublicKey lib publicKey alg
          let signature ← b64urlDecode signature
          verifySignature lib key alg signature (authData ++ lib.sha256 clientData.raw)
          .ok ⟨clientData.challenge, fromBytes ((authData.drop 33).take 4)⟩

end

end Vault

end BrainstormServer
