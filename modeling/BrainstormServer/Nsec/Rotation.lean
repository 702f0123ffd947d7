/-
  Keys at rest: start-up and rotation (`app/utils/encryption.py`,
  `app/services/nsec_encryption_service.py`).

  The state (`Server`) is the text of the key file, the two process globals
  `_keys` and `_mf`, and the table `brainstorm_nsec` with its transactions.
  Every access to one of them is a command (`Cmd`), and every command may go
  wrong: it raises before or after it has taken effect (`Fault`), so that a lost
  acknowledgement of a commit is an error after the effect.

  `Episode.run` starts `rotate_key` or a whole new process and lets it run for
  the commands it is granted.  A run that is not over by then is killed: its
  transaction is gone, and so are the globals.
-/
import BrainstormServer.Conc.Crash
import BrainstormServer.Conc.TxTable
import BrainstormServer.Nsec.KeyFile

namespace BrainstormServer

namespace Nsec

open Conc Prog

/-! ## State -/

abbrev Pubkey := String

/-- `brainstorm_nsec`, the columns that hold the secret. -/
structure Row where
  nsec : Text
  encryptedNsec : Option Text
  deriving DecidableEq

/-- The key file, `_keys`, `_mf` and the table; `pubkeys` is the order in which
    a scan meets its rows. -/
structure Server (S Key : Type) where
  file : Option Text
  keys : List Text
  mf : Option (MultiFernet Key)
  table : TxTable S Pubkey Row
  pubkeys : List Pubkey

inductive Exn
  | rotationFailed (message : String)
  | valueError
  | invalidToken
  | sqlAlchemyError
  | osError
  | cancelled
  deriving DecidableEq

/-- An outside failure: before or after the command has taken effect. -/
inductive Fault
  | before (e : Exn)
  | after (e : Exn)

/-- What a step gets from outside. -/
structure Outside {Key : Type} (F : Fernet Key) where
  fault : Option Fault
  key : GeneratedKey F
  salt : ℕ

/-! ## Commands -/

inductive Cmd (Key : Type)
  /-- the text of the key file -/
  | readText
  /-- `os.replace` of the key file by one with the given text -/
  | replaceFile (text : Text)
  | setKeys (keys : List Text)
  | setMf (mf : Option (MultiFernet Key))
  | currentKeys
  | generateKey
  /-- what `encrypt` draws -/
  | drawSalt
  /-- `pubkey, encrypted_nsec` where the latter is not null -/
  | selectEncrypted
  /-- `pubkey, nsec` where `encrypted_nsec` is null -/
  | selectPlaintext
  | countEncrypted
  | updateEncrypted (pubkey : Pubkey) (token : Text)
  | commit
  | rollback
  | close

variable {S Key : Type}

/-- What a command hands back when it does not raise. -/
@[reducible] def Cmd.Val : Cmd Key → Type
  | readText => Option Text
  | replaceFile _ => Unit
  | setKeys _ => Unit
  | setMf _ => Unit
  | currentKeys => List Text
  | generateKey => Text
  | drawSalt => ℕ
  | selectEncrypted => List (Pubkey × Text)
  | selectPlaintext => List (Pubkey × Text)
  | countEncrypted => ℕ
  | updateEncrypted _ _ => Unit
  | commit => Unit
  | rollback => Unit
  | close => Unit

@[reducible] def Cmd.Ans (c : Cmd Key) : Type := Except Exn c.Val

namespace Server

/-- The keys the file holds. -/
def fileKeys (st : Server S Key) : List Text := readKeys st.file

def rows (st : Server S Key) (s : S) : List (Pubkey × Row) :=
  st.pubkeys.filterMap fun p => (st.table.view s p).map (p, ·)

def encrypted (st : Server S Key) (s : S) : List (Pubkey × Text) :=
  (st.rows s).filterMap fun r => r.2.encryptedNsec.map (r.1, ·)

variable [DecidableEq S]

/-- The end of a transaction that was not committed. -/
def endTx (st : Server S Key) (s : S) : Server S Key := { st with table := st.table.rollback s }

def commitTx (st : Server S Key) (s : S) : Server S Key := { st with table := st.table.commit s }

/-- The end of the process. -/
def exit (st : Server S Key) (s : S) : Server S Key :=
  { st.endTx s with keys := [], mf := none }

end Server

section
variable [DecidableEq S] {F : Fernet Key}

/-- The effect of a command that goes well; `none` if the session has to wait. -/
def effect (s : S) : (c : Cmd Key) → Server S Key → Outside F → Option (c.Val × Server S Key)
  | .readText, st, _ => some (st.file, st)
  | .replaceFile text, st, _ => some ((), { st with file := some text })
  | .setKeys keys, st, _ => some ((), { st with keys := keys })
  | .setMf mf, st, _ => some ((), { st with mf := mf })
  | .currentKeys, st, _ => some (st.keys, st)
  | .generateKey, st, ω => some (ω.key.text, st)
  | .drawSalt, st, ω => some (ω.salt, st)
  | .selectEncrypted, st, _ => some (st.encrypted s, st)
  | .selectPlaintext, st, _ =>
    some (((st.rows s).filter (·.2.encryptedNsec.isNone)).map fun r => (r.1, r.2.nsec), st)
  | .countEncrypted, st, _ => some ((st.encrypted s).length, st)
  | .updateEncrypted p token, st, _ =>
    (st.table.modify s p fun row => { row with encryptedNsec := some token }).map
      fun t => ((), { st with table := t })
  | .commit, st, _ => some ((), st.commitTx s)
  | .rollback, st, _ => some ((), st.endTx s)
  | .close, st, _ => some ((), st.endTx s)

/-- A command, which may raise before or after it has taken effect. -/
def exec (s : S) (c : Cmd Key) (st : Server S Key) (ω : Outside F) :
    Option (c.Ans × Server S Key) :=
  match ω.fault with
  | none => (effect s c st ω).map fun r => (.ok r.1, r.2)
  | some (.before e) => some (.error e, st)
  | some (.after e) => (effect s c st ω).map fun r => (.error e, r.2)

end

/-! ## Programs -/

abbrev Act (Key α : Type) := Prog (C := Cmd Key) Cmd.Ans Exn α

/-- Execute a command; its exception is raised. -/
def await (c : Cmd Key) : Act Key c.Val := (call c).bind ofExcept

/-- `async with db_session() as db`. -/
def dbSession {α : Type} (body : Act Key α) : Act Key α :=
  let committing : Act Key α := do
    let a ← body
    await .commit
    return a
  let rollingBack : Act Key α := committing.tryCatch fun (e : Exn) =>
    if e = .sqlAlchemyError then (await .rollback).bind fun _ => raise e else raise e
  rollingBack.tryFinally (await .close)

/-- `write_keys_to_file`; what it does to the temporary file nobody else sees. -/
def writeKeysToFile (keys : List Text) : Act Key Unit := await (.replaceFile (joinKeys keys))

variable (F : Fernet Key)

/-- `MultiFernet([Fernet(k) for k in keys])`. -/
def makeMultiFernet (keys : List Text) : Act Key (MultiFernet Key) :=
  match F.multiFernet keys with
  | some mf => return mf
  | none => raise .valueError

/-- `load_keys_from_file`: a text that is no key raises after `_keys` is set. -/
def loadKeysFromFile : Act Key ℕ := do
  let keys := readKeys (← await .readText)
  await (.setKeys keys)
  if keys = [] then
    await (.setMf none)
  else
    let mf ← makeMultiFernet F keys
    await (.setMf (some mf))
  return keys.length

structure VerifyResult where
  ok : ℕ
  fail : ℕ

/-- `_verify_with`. -/
def verifyWith (mf : MultiFernet Key) : Act Key VerifyResult := do
  let rows ← dbSession (await .selectEncrypted)
  return ⟨rows.countP fun r => (F.decryptMulti mf r.2).isSome,
    rows.countP fun r => (F.decryptMulti mf r.2).isNone⟩

/-- The loop of `_reencrypt_all`. -/
def reencryptRows (mf : MultiFernet Key) : List (Pubkey × Text) → Act Key ℕ
  | [] => return 0
  | (pubkey, ciphertext) :: rows =>
    match F.decryptMulti mf ciphertext with
    | none => raise .invalidToken
    | some plaintext => do
      let r ← await .drawSalt
      await (.updateEncrypted pubkey (F.encryptMulti mf r plaintext))
      let updated ← reencryptRows mf rows
      return updated + 1

/-- `_reencrypt_all`. -/
def reencryptAll (mf : MultiFernet Key) : Act Key ℕ :=
  dbSession do
    let rows ← await .selectEncrypted
    reencryptRows F mf rows

/-- The loop of `encrypt_plaintext_rows`. -/
def encryptRows (mf : MultiFernet Key) : List (Pubkey × Text) → Act Key ℕ
  | [] => return 0
  | (pubkey, plaintext) :: rows => do
    let r ← await .drawSalt
    await (.updateEncrypted pubkey (F.encryptMulti mf r plaintext))
    let updated ← encryptRows mf rows
    return updated + 1

/-- `encrypt_plaintext_rows`. -/
def encryptPlaintextRows : Act Key ℕ := do
  let mf ← makeMultiFernet F (← await .currentKeys)
  dbSession do
    let rows ← await .selectPlaintext
    encryptRows F mf rows

/-- `bootstrap_keys` from the write of a first key on. -/
def mintKey (key : Text) : Act Key Unit := do
  writeKeysToFile [key]
  let _ ← loadKeysFromFile F
  let _ ← encryptPlaintextRows F
  return

/-- `bootstrap_keys`. -/
def bootstrapKeys : Act Key Unit := do
  let loaded ← loadKeysFromFile F
  if loaded > 0 then
    return
  let count ← dbSession (await .countEncrypted)
  if count > 0 then
    return
  let key ← await .generateKey
  mintKey F key

/-- `rotate_key` from the dual-key write on. -/
def replaceKey (old new : Text) : Act Key Unit := do
  writeKeysToFile [new, old]
  let _ ← loadKeysFromFile F
  let both ← makeMultiFernet F [new, old]
  let _ ← reencryptAll F both
  let newOnly ← makeMultiFernet F [new]
  let post ← verifyWith F newOnly
  if post.fail > 0 then
    raise (.rotationFailed (s!"post-rotate verify: {post.fail} rows do not decrypt with " ++
      "new key; key file left at [new, old] for investigation"))
  else
    writeKeysToFile [new]
    let _ ← loadKeysFromFile F
    return

/-- `rotate_key`, inside `_rotation_lock`. -/
def rotateKey : Act Key Unit := do
  match ← await .currentKeys with
  | [] => raise (.rotationFailed "no current key loaded; cannot rotate")
  | old :: others =>
    let currentMf ← makeMultiFernet F (old :: others)
    let pre ← verifyWith F currentMf
    if pre.fail > 0 then
      raise (.rotationFailed (s!"pre-flight: {pre.fail} of {pre.ok + pre.fail} rows do not " ++
        "decrypt with current keys; refusing to rotate"))
    else
      let new ← await .generateKey
      replaceKey F old new

/-! ## Runs of the server -/

/-- One `rotate_key`, or the start of a new process, and the commands it is
    granted before it is killed. -/
inductive Episode
  | rotate (ωs : List (Outside F))
  | boot (ωs : List (Outside F))

variable {F} [DecidableEq S] (s : S)

/-- A rotation that raised leaves the process up. -/
def Episode.run : Episode F → Server S Key → Server S Key
  | .rotate ωs, st =>
    match (rotateKey F).upTo exec s ωs st with
    | (.op _ _, st') => st'.exit s
    | (_, st') => st'.endTx s
  | .boot ωs, st =>
    match (bootstrapKeys F).upTo exec s ωs (st.exit s) with
    | (.ret _, st') => st'.endTx s
    | (_, st') => st'.exit s

/-- The server after a finite sequence of episodes. -/
def run : List (Episode F) → Server S Key → Server S Key
  | [], st => st
  | e :: es, st => run es (e.run s st)

/-- A stopped server with the given key file and table. -/
def Server.stopped (file : Option Text) (rows : List (Pubkey × Row)) : Server S Key where
  file := file
  keys := []
  mf := none
  table := .ofRows fun p => rows.lookup p
  pubkeys := rows.map (·.1)

end Nsec

end BrainstormServer
