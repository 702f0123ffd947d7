/-
  The passkey vault (`app/services/passkey_vault_service.py`,
  `app/repos/passkey_vault_repo.py`).

  A row holds a sealed copy of a key and the public key of the passkey that opens
  it.  Its owner stores and deletes it; it is opened by an assertion over one of our
  challenges, which is spent by a Redis key.

  Each statement is one command on the shared `Store`: the table, the spent markers
  and the time that has passed.  A replica's clock is read as a command, too, and
  answers what the outside says.  A call is a program over these commands, and calls
  run interleaved (`Conc.Config`), one for each session.
-/
import BrainstormServer.Conc.Expiring
import BrainstormServer.Conc.Prog
import BrainstormServer.Hex
import BrainstormServer.Nostr
import BrainstormServer.Vault.Webauthn
import Mathlib.Data.Rat.Floor

namespace BrainstormServer

namespace Vault

open Conc Prog

def challengeTtlSeconds : ℚ := 120
def clockSkewSeconds : ℚ := 5
def nonceBytes : ℕ := 16
def usedKeyPrefix : String := "passkey_challenge_used:"

/-! ## The store -/

/-- A row of `passkey_vault`; its key is `credential_id_hash`. -/
structure VaultRow where
  credentialId : String
  pubkey : Pubkey
  credentialPublicKey : String
  alg : ℤ
  blob : String
  label : Option String
  signCount : ℕ
  lastUsedAt : Option ℚ
  createdAt : ℚ
  updatedAt : ℚ
  deriving DecidableEq

/-- The values of `upsert_passkey_vault_on_db`. -/
structure VaultValues where
  credentialIdHash : String
  credentialId : String
  pubkey : Pubkey
  credentialPublicKey : String
  alg : ℤ
  blob : String
  label : Option String
  deriving DecidableEq

/-- The row it inserts. -/
def VaultValues.row (values : VaultValues) (now : ℚ) : VaultRow :=
  { credentialId := values.credentialId, pubkey := values.pubkey
    credentialPublicKey := values.credentialPublicKey, alg := values.alg, blob := values.blob
    label := values.label, signCount := 0, lastUsedAt := none, createdAt := now, updatedAt := now }

/-- What it does to a row of the same owner. -/
def VaultValues.overwrite (values : VaultValues) (now : ℚ) (row : VaultRow) : VaultRow :=
  { row with
    credentialPublicKey := values.credentialPublicKey, alg := values.alg, blob := values.blob
    label := values.label, signCount := 0, updatedAt := now }

/-- The condition of `mark_passkey_vault_used_on_db`. -/
def advances (signCount : ℕ) (row : VaultRow) : Bool :=
  if signCount = 0 then row.signCount = 0 else row.signCount < signCount

structure Store where
  row : String → Option VaultRow
  used : Expiring String String ℚ
  now : ℚ

/-- What the outside contributes to a command: the time, and the reading of the
    clock of the replica the call runs on. -/
structure Outside where
  now : ℚ
  clock : ℚ

inductive Cmd
  | selectByHash (credentialIdHash : String)
  | upsert (values : VaultValues)
  | markUsed (credentialIdHash : String) (signCount : ℕ)
  | delete (credentialIdHash : String) (pubkey : Pubkey)
  | time
  | setUsed (key : String)
  deriving DecidableEq

@[reducible] def Cmd.Ans : Cmd → Type
  | .selectByHash _ => Option VaultRow
  | .upsert _ => Option VaultRow
  | .markUsed _ _ => Bool
  | .delete _ _ => Unit
  | .time => ℚ
  | .setUsed _ => Bool

/-- Write or remove the row of a key. -/
def Store.setRow (st : Store) (hash : String) (row : Option VaultRow) : Store :=
  { st with row := Function.update st.row hash row }

/-- `INSERT .. ON CONFLICT DO UPDATE .. WHERE`: the row written, if any. -/
def Store.upserted (st : Store) (values : VaultValues) : Option VaultRow :=
  match st.row values.credentialIdHash with
  | none => some (values.row st.now)
  | some row => if row.pubkey = values.pubkey then some (values.overwrite st.now row) else none

/-- What a command answers and does, at the time of the store. -/
def answer (st : Store) (clock : ℚ) : (c : Cmd) → c.Ans × Store
  | .selectByHash hash => (st.row hash, st)
  | .upsert values =>
    match st.upserted values with
    | some row => (some row, st.setRow values.credentialIdHash (some row))
    | none => (none, st)
  | .markUsed hash signCount =>
    match (st.row hash).filter (advances signCount) with
    | some row => (true, st.setRow hash
        (some { row with signCount := signCount, lastUsedAt := some st.now, updatedAt := st.now }))
    | none => (false, st)
  | .delete hash pubkey =>
    match (st.row hash).filter (·.pubkey = pubkey) with
    | some _ => ((), st.setRow hash none)
    | none => ((), st)
  | .time => (clock, st)
  | .setUsed key =>
    match st.used.setNx st.now key "1" (challengeTtlSeconds + 60) with
    | (written, used) => (written, { st with used := used })

/-- **What a command does to a row**: nothing, or it is written by an upsert, marked
    as used, or deleted by its owner. -/
theorem answer_row (st : Store) (clock : ℚ) (c : Cmd) (hash : String) :
    (answer st clock c).2.row hash = st.row hash ∨
    (∃ values row, c = .upsert values ∧ values.credentialIdHash = hash ∧
      st.upserted values = some row ∧ (answer st clock c).2.row hash = some row) ∨
    (∃ signCount row, c = .markUsed hash signCount ∧ st.row hash = some row ∧
      advances signCount row = true ∧ (answer st clock c).2.row hash =
        some { row with signCount := signCount, lastUsedAt := some st.now, updatedAt := st.now }) ∨
    ∃ pubkey row, c = .delete hash pubkey ∧ st.row hash = some row ∧ row.pubkey = pubkey ∧
      (answer st clock c).2.row hash = none := by
  cases c with
  | selectByHash hash' => exact Or.inl rfl
  | time => exact Or.inl rfl
  | setUsed key => exact Or.inl rfl
  | upsert values =>
    cases hrow : st.upserted values with
    | none => exact Or.inl (by simp [answer, hrow])
    | some row =>
      by_cases hhash : hash = values.credentialIdHash
      · refine Or.inr (Or.inl ⟨values, row, rfl, hhash.symm, hrow, ?_⟩)
        simp [answer, hrow, Store.setRow, hhash]
      · exact Or.inl (by simp [answer, hrow, Store.setRow, Function.update_of_ne hhash])
  | markUsed hash' signCount =>
    cases hrow : (st.row hash').filter (advances signCount) with
    | none => exact Or.inl (by simp [answer, hrow])
    | some row =>
      obtain ⟨hat, hadv⟩ := Option.filter_eq_some_iff.1 hrow
      by_cases hhash : hash = hash'
      · subst hhash
        refine Or.inr (Or.inr (Or.inl ⟨signCount, row, rfl, hat, hadv, ?_⟩))
        simp [answer, hrow, Store.setRow]
      · exact Or.inl (by simp [answer, hrow, Store.setRow, Function.update_of_ne hhash])
  | delete hash' pubkey =>
    cases hrow : (st.row hash').filter (·.pubkey = pubkey) with
    | none => exact Or.inl (by simp [answer, hrow])
    | some row =>
      obtain ⟨hat, hown⟩ := Option.filter_eq_some_iff.1 hrow
      by_cases hhash : hash = hash'
      · subst hhash
        refine Or.inr (Or.inr (Or.inr ⟨pubkey, row, rfl, hat, of_decide_eq_true hown, ?_⟩))
        simp [answer, hrow, Store.setRow]
      · exact Or.inl (by simp [answer, hrow, Store.setRow, Function.update_of_ne hhash])

section
variable {S : Type}

/-- A command is executed at a time that is not before that of the store. -/
def exec (_ : S) (c : Cmd) (st : Store) (ω : Outside) : Option (c.Ans × Store) :=
  if st.now ≤ ω.now then some (answer { st with now := ω.now } ω.clock c) else none

theorem exec_eq_some {s : S} {c : Cmd} {st : Store} {ω : Outside} {r : c.Ans × Store}
    (h : exec s c st ω = some r) :
    st.now ≤ ω.now ∧ r = answer { st with now := ω.now } ω.clock c := by
  unfold exec at h
  split_ifs at h with hle
  exact ⟨hle, (Option.some.inj h).symm⟩

end

/-! ## The service -/

/-- A program of one call. -/
abbrev VaultProg (α : Type) := Prog Cmd.Ans VaultExn α

/-- Execute one command. -/
abbrev await (c : Cmd) : VaultProg c.Ans := Prog.call c

/-- A computation that needs no command. -/
def purely {α : Type} : Except VaultExn α → VaultProg α
  | .ok a => .ret a
  | .error e => .raise e

structure Settings where
  authSecretKey : String
  passkeyOrigins : String
  frontendUrl : String

/-- `rstrip("/")`. -/
def rstripSlash (s : String) : String := String.ofList (s.toList.rdropWhile (· = '/'))

/-- `n.to_bytes(8, "big")`. -/
def toBytes8 (n : ℕ) : Bytes :=
  [7, 6, 5, 4, 3, 2, 1, 0].map fun i => (n / 256 ^ i % 256).toUInt8

section
variable (lib : Lib) (settings : Settings)

/-- `allowed_origins`. -/
def allowedOrigins : List String :=
  let configured := (settings.passkeyOrigins.toList.splitOn ',').map fun o =>
    rstripSlash (lib.strip (String.ofList o))
  let origins := configured.filter (· ≠ "")
  if origins = [] then [rstripSlash settings.frontendUrl] else origins

/-- `_challenge_key`. -/
def challengeKey : Bytes :=
  lib.hmacSha256 (lib.encode settings.authSecretKey) (lib.encode "passkey-vault-challenge")

/-- `issue_challenge`, with the nonce it draws and the time it reads. -/
def issueChallenge (nonce : Bytes) (now : ℚ) : String :=
  let issued := toBytes8 ⌊now⌋.toNat
  b64url (nonce ++ issued ++ lib.hmacSha256 (challengeKey lib settings) (nonce ++ issued))

/-- The nonce and the time of a challenge that is ours. -/
def splitChallenge (challenge : String) : Except VaultExn (Bytes × ℕ) := do
  let raw ← b64urlDecode challenge
  if raw.length ≠ nonceBytes + 8 + 32 then .error (.assertionInvalid "challenge has the wrong shape")
  else
    let nonce := raw.take nonceBytes
    let issued := (raw.drop nonceBytes).take 8
    if raw.drop (nonceBytes + 8) ≠ lib.hmacSha256 (challengeKey lib settings) (nonce ++ issued) then
      .error (.assertionInvalid "challenge is not ours")
    else .ok (nonce, fromBytes issued)

/-- A challenge of this age is not expired. -/
def unexpired (age : ℚ) : Bool := -clockSkewSeconds ≤ age ∧ age ≤ challengeTtlSeconds

/-- `check_challenge`. -/
def checkChallenge (challenge : String) : VaultProg Bytes := do
  let (nonce, issued) ← purely (splitChallenge lib settings challenge)
  let now ← await .time
  if unexpired (now - issued) then pure nonce
  else .raise (.assertionInvalid "challenge expired")

/-- `spend_challenge`. -/
def spendChallenge (nonce : Bytes) : VaultProg Unit := do
  let spent ← await (.setUsed (usedKeyPrefix ++ hex nonce))
  if spent then pure () else .raise (.assertionInvalid "challenge already used")

/-- What an assertion is checked against and made of. -/
structure OpenArgs where
  pathHash : String
  credentialId : String
  clientDataJson : String
  authenticatorData : String
  signature : String

/-- `verify_assertion`, asked to check the challenge. -/
def verifyAssertion (args : OpenArgs) (publicKey : String) (alg : ℤ) : VaultProg VerifiedAssertion := do
  let clientData ← purely (readClientData lib args.clientDataJson (allowedOrigins lib settings))
  let _ ← checkChallenge lib settings clientData.challenge
  purely (checkAuthenticator lib clientData args.authenticatorData args.signature publicKey alg)

/-- The body of `open_vault`. -/
def tryOpen (args : OpenArgs) : VaultProg String := do
  let hash ← purely (credentialIdHash lib args.credentialId)
  if hash ≠ args.pathHash then .raise (.assertionInvalid "assertion addresses another row")
  else
    let row ← await (.selectByHash args.pathHash)
    match row with
    | none => .raise (.assertionInvalid "no such row")
    | some row => do
      let verified ← verifyAssertion lib settings args row.credentialPublicKey row.alg
      if (verified.signCount ≠ 0 ∨ row.signCount ≠ 0) ∧ verified.signCount ≤ row.signCount then
        .raise (.assertionInvalid "signature counter did not advance")
      else
        let nonce ← checkChallenge lib settings verified.challenge
        spendChallenge nonce
        let marked ← await (.markUsed args.pathHash verified.signCount)
        if marked then pure row.blob
        else .raise (.assertionInvalid "signature counter did not advance (raced)")

/-- Every refusal of an open looks alike. -/
def refused {α : Type} : VaultExn → VaultProg α
  | .assertionInvalid _ => .raise (.httpException 404 "Not found")
  | e => .raise e

/-- `open_vault`. -/
def openVault (args : OpenArgs) : VaultProg String := (tryOpen lib settings args).tryCatch refused

structure StoreArgs where
  callerPubkey : Pubkey
  pathHash : String
  credentialId : String
  publicKey : String
  alg : ℤ
  blob : String
  label : Option String

/-- `value == 1`: the number, in whatever type, or `True`. -/
def isOne : PyValue → Bool
  | .int n => n = 1
  | .bool b => b
  | .float x => x == 1
  | _ => false

/-- `_validate_blob`. -/
def validateBlob (blob pubkey credentialId : String) : Except VaultExn Unit :=
  match lib.loads blob with
  | none => .error (.httpException 422 "blob is not JSON")
  | some (.dict record) =>
    if ¬ isOne (dictGet record "v") then .error (.httpException 422 "unknown blob version")
    else if ¬ eqText (dictGet record "pubkey") pubkey ∨
        ¬ eqText (dictGet record "credentialId") credentialId then
      .error (.httpException 422 "blob does not match this passkey")
    else .ok ()
  | some _ => .error (.httpException 422 "unknown blob version")

/-- The checks of `store_vault` on the passkey. -/
def checkPasskey (args : StoreArgs) : Except VaultExn Unit :=
  if ¬ isCanonicalB64url args.credentialId then
    .error (.assertionInvalid "credentialId is not canonical base64url")
  else do
    let hash ← credentialIdHash lib args.credentialId
    if hash ≠ args.pathHash then .error (.assertionInvalid "credentialId does not match the path")
    else if args.alg ∉ supportedAlgs then .error (.assertionInvalid "unsupported alg")
    else do
      let _ ← loadPublicKey lib args.publicKey args.alg
      .ok ()

/-- An invalid passkey is unprocessable. -/
def unprocessable : VaultExn → VaultExn
  | .assertionInvalid reason => .httpException 422 reason
  | e => e

/-- The values `store_vault` writes. -/
def StoreArgs.values (args : StoreArgs) : VaultValues :=
  { credentialIdHash := args.pathHash, credentialId := args.credentialId
    pubkey := args.callerPubkey, credentialPublicKey := args.publicKey, alg := args.alg
    blob := args.blob, label := args.label }

/-- `store_vault`; the entry it returns shows part of the row. -/
def storeVault (args : StoreArgs) : VaultProg VaultRow := do
  purely ((checkPasskey lib args).mapError unprocessable)
  purely (validateBlob lib args.blob args.callerPubkey args.credentialId)
  let row ← await (.upsert args.values)
  match row with
  | none => .raise (.httpException 403 "This passkey belongs to another account")
  | some row => pure row

/-- `delete_vault`. -/
def deleteVault (callerPubkey : Pubkey) (pathHash : String) : VaultProg Unit :=
  await (.delete pathHash callerPubkey)

/-! ## The system -/

/-- A call, with its arguments and its caller, where it has one; a challenge is issued
    with the nonce that was drawn for it. -/
inductive Call
  | issueChallenge (nonce : Bytes)
  | storeVault (args : StoreArgs)
  | openVault (args : OpenArgs)
  | deleteVault (callerPubkey : Pubkey) (pathHash : String)

/-- What a call returns. -/
inductive Result
  | challenge (challenge : String)
  | entry (row : VaultRow)
  | blob (blob : String)
  | deleted
  deriving DecidableEq

def Call.prog : Call → VaultProg Result
  | .issueChallenge nonce => do
    let now ← await .time
    return .challenge (Vault.issueChallenge lib settings nonce now)
  | .storeVault args => do return .entry (← Vault.storeVault lib args)
  | .openVault args => do return .blob (← Vault.openVault lib settings args)
  | .deleteVault callerPubkey pathHash => do
    Vault.deleteVault callerPubkey pathHash
    return .deleted

/-- The authenticated caller: a challenge and an open take none. -/
def Call.caller : Call → Option Pubkey
  | .issueChallenge _ => none
  | .storeVault args => some args.callerPubkey
  | .openVault _ => none
  | .deleteVault callerPubkey _ => some callerPubkey

/-- The beginning: no row, no marker, every session with its call before it. -/
def initial {S : Type} (calls : S → Call) (now : ℚ) : Config Cmd.Ans VaultExn Result S Store where
  prog s := (calls s).prog lib settings
  state := ⟨fun _ => none, fun _ => none, now⟩
  log := []

end

end Vault

end BrainstormServer
