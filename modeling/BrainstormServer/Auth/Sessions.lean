/-
  Session tokens (`app/services/session_service.py`, `app/repos/session_version_repo.py`).

  A token carries the version its user's sessions had when it was minted.  Revoking adds one to
  the version in the database and writes the new one to a cache of Redis; a token is checked
  against the cached version, and where nothing is cached, against the one in the database,
  which is cached then.

  * `Move`, `move_of_step`: what a command, a cut and the time do;
  * `Known`: no version that is cached or about to be used is ahead of the database;
  * `refused_only_if_revoked`: hence nobody is refused whose sessions were not revoked;
  * `revoked_for_good`: a revoked token is refused by whoever asks a minute after the calls of
    the time of the revocation have ended.
-/
import BrainstormServer.Conc.Expiring
import BrainstormServer.Conc.Machine
import BrainstormServer.Conc.Prog
import BrainstormServer.Conc.TxTable
import BrainstormServer.Nostr

namespace BrainstormServer

namespace Sessions

open Conc Prog

/-! ## The programs -/

/-- The commands: on the key `session_version:<pubkey>` of Redis, and on the user's row. -/
inductive Cmd
  | get (pubkey : Pubkey)
  /-- `SET key version EX 60` -/
  | set (pubkey : Pubkey) (version : ℕ)
  /-- `get_session_version_on_db` -/
  | getSessionVersion (pubkey : Pubkey)
  /-- `bump_session_version_on_db` -/
  | bumpSessionVersion (pubkey : Pubkey)
  | commit

/-- The answers; Redis may fail. -/
@[reducible] def Cmd.Ans : Cmd → Type
  | get _ => Except Unit (Option ℕ)
  | set _ _ => Except Unit Unit
  | getSessionVersion _ => ℕ
  | bumpSessionVersion _ => Option ℕ
  | commit => Unit

/-- How a call can end early: with a 401, or cut off. -/
inductive Ended
  | sessionRevoked
  | cutOff
  deriving DecidableEq

abbrev Act (α : Type) := Prog (C := Cmd) Cmd.Ans Ended α

/-- Execute a command. -/
def await (c : Cmd) : Act c.Ans := call c

/-- `cache_session_version`; a failure is logged. -/
def cacheSessionVersion (pubkey : Pubkey) (version : ℕ) : Act Unit := do
  let _ ← await (.set pubkey version)

/-- `read_session_version_on_db`. -/
def readSessionVersion (pubkey : Pubkey) : Act ℕ := do
  match ← await (.get pubkey) with
  | .ok (some version) => return version
  | _ =>
    let version ← await (.getSessionVersion pubkey)
    cacheSessionVersion pubkey version
    return version

/-- `revoke_sessions`. -/
def revokeSessions (pubkey : Pubkey) : Act (Option ℕ) := do
  match ← await (.bumpSessionVersion pubkey) with
  | none => return none
  | some version =>
    await .commit
    cacheSessionVersion pubkey version
    return some version

/-- What `verify_token` asks of a token that it could decode. -/
def verifyToken (pubkey : Pubkey) (sessionVersion : ℕ) : Act Unit := do
  let version ← readSessionVersion pubkey
  if sessionVersion < version then .raise .sessionRevoked

/-- The calls that are made; a login mints a token of the version that it reads. -/
inductive Request
  | verify (pubkey : Pubkey) (sessionVersion : ℕ)
  | login (pubkey : Pubkey)
  | revoke (pubkey : Pubkey)

/-- What a call answers. -/
inductive Answer
  | accepted
  | minted (sessionVersion : ℕ)
  | revoked (version : Option ℕ)

/-- The call of a request. -/
def Request.prog : Request → Act Answer
  | verify p v => do
    verifyToken p v
    return .accepted
  | login p => do return .minted (← readSessionVersion p)
  | revoke p => do return .revoked (← revokeSessions p)

/-! ## The system -/

/-- `SESSION_VERSION_CACHE_TTL_SECONDS`, in milliseconds. -/
def cacheTtlMs : ℕ := 60000

/-- The time in milliseconds, the cache, and the versions in the database. -/
structure World (S : Type) where
  now : ℕ
  cache : Expiring Pubkey ℕ ℕ
  db : TxTable S Pubkey ℕ

/-- A call: what was asked, and what is left to do. -/
structure Call where
  request : Request
  rest : Act Answer

/-- The world and the calls; every call is its own session. -/
structure System (S : Type) where
  world : World S
  calls : S → Option Call

/-- Nobody has called yet. -/
def System.initial {S : Type} (versions : Pubkey → Option ℕ) : System S :=
  ⟨⟨0, fun _ => none, .ofRows versions⟩, fun _ => none⟩

inductive Event (S : Type)
  | tick (ms : ℕ)
  /-- a user's row is created, with the version 0 -/
  | signUp (pubkey : Pubkey)
  | request (s : S) (r : Request)
  /-- the next command of a call; whether Redis is up -/
  | command (s : S) (redisUp : Bool)
  /-- the call is cut off, and its transaction rolled back -/
  | cut (s : S)

section
variable {S : Type} [DecidableEq S]

/-- The effect of a command; `none` if the session has to wait for the row. -/
def exec (s : S) (redisUp : Bool) : (c : Cmd) → World S → Option (c.Ans × World S)
  | .get p, w => some (if redisUp then .ok (w.cache.live w.now p) else .error (), w)
  | .set p version, w =>
    if redisUp then some (.ok (), { w with cache := w.cache.set w.now p version cacheTtlMs })
    else some (.error (), w)
  | .getSessionVersion p, w => some ((w.db.view s p).getD 0, w)
  | .bumpSessionVersion p, w =>
    (w.db.modify s p (· + 1)).map fun db => (db.view s p, { w with db := db })
  | .commit, w => some ((), { w with db := w.db.commit s })

/-- A call goes on with `rest`. -/
def System.goOn (st : System S) (s : S) (world : World S) (r : Request) (rest : Act Answer) : System S :=
  ⟨world, Function.update st.calls s (some ⟨r, rest⟩)⟩

/-- A call executes its next command. -/
def System.command (st : System S) (s : S) (redisUp : Bool) (c : Call) : Option (System S) :=
  match c.rest with
  | .op cmd k => (exec s redisUp cmd st.world).map fun r => st.goOn s r.2 c.request (k r.1)
  | _ => none

/-- The row of a new user. -/
def World.signUp (w : World S) (p : Pubkey) : World S :=
  if w.db.committed p = none then
    { w with db := { w.db with committed := Function.update w.db.committed p (some 0) } }
  else w

def step : Event S → System S → Option (System S)
  | .tick ms, st => some { st with world := { st.world with now := st.world.now + ms } }
  | .signUp p, st => some { st with world := st.world.signUp p }
  | .request s r, st => if (st.calls s).isSome then none else some (st.goOn s st.world r r.prog)
  | .command s redisUp, st => (st.calls s).bind (st.command s redisUp)
  | .cut s, st => (st.calls s).bind fun c => if c.rest.done then none else
    some (st.goOn s { st.world with db := st.world.db.rollback s } c.request (.raise .cutOff))

end

/-! ## What a step can do -/

/-- The user that a request is about. -/
def Request.pubkey : Request → Pubkey
  | verify p _ => p
  | login p => p
  | revoke p => p

/-- Whether a request reads the version, or writes it. -/
def Request.reads : Request → Bool
  | revoke _ => false
  | _ => true

/-- What is left when the version is known. -/
def Request.answer : Request → ℕ → Act Answer
  | verify _ v, version => if v < version then .raise .sessionRevoked else .ret .accepted
  | login _, version => .ret (.minted version)
  | revoke _, version => .ret (.revoked (some version))

section
variable {β : Type} (p : Pubkey) (k : ℕ → Act β)

def caching (version : ℕ) : Act β := .op (.set p version) fun _ => k version

def selecting : Act β := .op (.getSessionVersion p) fun version => caching p k version

/-- Read the version and go on with it. -/
def reading : Act β := .op (.get p) fun
  | .ok (some version) => k version
  | _ => selecting p k

def committing (version : ℕ) : Act β := .op .commit fun _ => caching p k version

end

def bumping (r : Request) : Act Answer := .op (.bumpSessionVersion r.pubkey) fun
  | none => .ret (.revoked none)
  | some version => committing r.pubkey r.answer version

theorem readSessionVersion_bind {β : Type} (p : Pubkey) (k : ℕ → Act β) :
    (readSessionVersion p).bind k = reading p k := by
  simp only [readSessionVersion, cacheSessionVersion, await, bind_eq, call_bind, Prog.bind, reading]
  congr 1
  funext a
  rcases a with e | (_ | version)
  · rfl
  · rfl
  · rfl

theorem prog_eq (r : Request) : r.prog = if r.reads then reading r.pubkey r.answer else bumping r := by
  cases r with
  | verify p v =>
    have hjudge : ∀ version, ((if v < version then .raise .sessionRevoked else pure () : Act Unit).bind
        fun _ => .ret .accepted) = (Request.verify p v).answer version := by
      intro version
      simp only [Request.answer]
      split_ifs
      · rfl
      · rfl
    refine (bind_assoc _ _ _).trans ((congrArg (readSessionVersion p).bind (funext hjudge)).trans ?_)
    exact readSessionVersion_bind p _
  | login p => exact readSessionVersion_bind p _
  | revoke p =>
    simp only [Request.prog, revokeSessions, cacheSessionVersion, await, bind_eq, call_bind, Prog.bind, Request.reads,
      Bool.false_eq_true, if_false, bumping]
    congr 1
    funext a
    rcases a with _ | version
    · rfl
    · rfl

theorem done_answer (r : Request) (version : ℕ) : (r.answer version).done = true := by
  cases r with
  | verify p v =>
    rw [Request.answer]
    split_ifs
    · rfl
    · rfl
  | login p => rfl
  | revoke p => rfl

/-- Where a call is.  The versions that it has written, that it is about to cache and that it
    has used are such as the predicates tell. -/
inductive At (r : Request) (written kept used : ℕ → Prop) : Act Answer → Prop
  | reading (h : r.reads = true) : At r written kept used (reading r.pubkey r.answer)
  | selecting (h : r.reads = true) : At r written kept used (selecting r.pubkey r.answer)
  | bumping (h : r.reads = false) : At r written kept used (bumping r)
  | committing (version : ℕ) (h : written version) : At r written kept used (committing r.pubkey r.answer version)
  | caching (version : ℕ) (h : kept version) : At r written kept used (caching r.pubkey r.answer version)
  | answered (version : ℕ) (h : used version) : At r written kept used (r.answer version)
  | noRow : At r written kept used (.ret (.revoked none))
  | cutOff : At r written kept used (.raise .cutOff)

theorem At.mono {r : Request} {written written' kept kept' used used' : ℕ → Prop} {rest : Act Answer}
    (h : At r written kept used rest) (hwritten : ∀ v, written v → written' v) (hkept : ∀ v, kept v → kept' v)
    (hused : ∀ v, used v → used' v) : At r written' kept' used' rest := by
  cases h with
  | reading h => exact .reading h
  | selecting h => exact .selecting h
  | bumping h => exact .bumping h
  | committing v h => exact .committing v (hwritten v h)
  | caching v h => exact .caching v (hkept v h)
  | answered v h => exact .answered v (hused v h)
  | noRow => exact .noRow
  | cutOff => exact .cutOff

/-- Of a call that is about to cache a version, this one is told. -/
theorem kept_of_caching {r : Request} {written kept used : ℕ → Prop} {version : ℕ}
    (h : At r written kept used (caching r.pubkey r.answer version)) : kept version := by
  generalize hrest : caching r.pubkey r.answer version = rest at h
  cases h with
  | reading h => cases hrest
  | selecting h => cases hrest
  | bumping h => cases hrest
  | committing v h => cases hrest
  | caching v h =>
    injection hrest with hcmd
    injection hcmd with _ hversion
    exact hversion ▸ h
  | answered v h =>
    have hdone := done_answer r v
    rw [← hrest] at hdone
    cases hdone
  | noRow => cases hrest
  | cutOff => cases hrest

/-- Of a call that is about to commit, the version that it has written is told. -/
theorem written_of_committing {r : Request} {written kept used : ℕ → Prop} {version : ℕ}
    (h : At r written kept used (committing r.pubkey r.answer version)) : written version := by
  generalize hrest : committing r.pubkey r.answer version = rest at h
  cases h with
  | reading h => cases hrest
  | selecting h => cases hrest
  | bumping h => cases hrest
  | committing v h =>
    injection hrest with _ hk
    injection congrFun hk () with hcmd
    injection hcmd with _ hversion
    exact hversion ▸ h
  | caching v h => cases hrest
  | answered v h =>
    have hdone := done_answer r v
    rw [← hrest] at hdone
    cases hdone
  | noRow => cases hrest
  | cutOff => cases hrest

theorem at_prog (r : Request) {written kept used : ℕ → Prop} : At r written kept used r.prog := by
  rw [prog_eq]
  cases h : r.reads with
  | false => exact .bumping h
  | true => exact .reading h

section
variable {S : Type} [DecidableEq S] {st st' : System S} {e : Event S}

/-- The moves of the system. -/
inductive Move (st : System S) : Event S → System S → Prop
  | tick (ms : ℕ) : Move st (.tick ms) { st with world := { st.world with now := st.world.now + ms } }
  | signUp (p : Pubkey) : Move st (.signUp p) { st with world := st.world.signUp p }
  | request (s : S) (r : Request) (hnew : st.calls s = none) : Move st (.request s r) (st.goOn s st.world r r.prog)
  /-- a version is cached -/
  | hit (s : S) (up : Bool) (r : Request) (version : ℕ) (hcall : st.calls s = some ⟨r, reading r.pubkey r.answer⟩)
      (hlive : st.world.cache.live st.world.now r.pubkey = some version) :
      Move st (.command s up) (st.goOn s st.world r (r.answer version))
  /-- none is, or Redis is down -/
  | miss (s : S) (up : Bool) (r : Request) (hcall : st.calls s = some ⟨r, reading r.pubkey r.answer⟩)
      (hreads : r.reads = true) : Move st (.command s up) (st.goOn s st.world r (selecting r.pubkey r.answer))
  | select (s : S) (up : Bool) (r : Request) (hcall : st.calls s = some ⟨r, selecting r.pubkey r.answer⟩) :
      Move st (.command s up)
        (st.goOn s st.world r (caching r.pubkey r.answer ((st.world.db.view s r.pubkey).getD 0)))
  | cache (s : S) (r : Request) (version : ℕ) (hcall : st.calls s = some ⟨r, caching r.pubkey r.answer version⟩) :
      Move st (.command s true) (st.goOn s
        { st.world with cache := st.world.cache.set st.world.now r.pubkey version cacheTtlMs } r (r.answer version))
  /-- Redis is down when the version is to be cached -/
  | cacheFails (s : S) (r : Request) (version : ℕ)
      (hcall : st.calls s = some ⟨r, caching r.pubkey r.answer version⟩) :
      Move st (.command s false) (st.goOn s st.world r (r.answer version))
  | noRow (s : S) (up : Bool) (r : Request) (hcall : st.calls s = some ⟨r, bumping r⟩) :
      Move st (.command s up) (st.goOn s st.world r (.ret (.revoked none)))
  | bump (s : S) (up : Bool) (r : Request) (row : ℕ) (hcall : st.calls s = some ⟨r, bumping r⟩)
      (hrow : st.world.db.view s r.pubkey = some row) (hfree : st.world.db.free s r.pubkey = true) :
      Move st (.command s up) (st.goOn s { st.world with db := st.world.db.write s r.pubkey (some (row + 1)) } r
        (committing r.pubkey r.answer (row + 1)))
  | commit (s : S) (up : Bool) (r : Request) (version : ℕ)
      (hcall : st.calls s = some ⟨r, committing r.pubkey r.answer version⟩) :
      Move st (.command s up) (st.goOn s { st.world with db := st.world.db.commit s } r
        (caching r.pubkey r.answer version))
  | cut (s : S) (c : Call) (hcall : st.calls s = some c) (hbusy : c.rest.done = false) :
      Move st (.cut s) (st.goOn s { st.world with db := st.world.db.rollback s } c.request (.raise .cutOff))

/-- The calls are somewhere in their programs. -/
def Formed (st : System S) : Prop :=
  ∀ s c, st.calls s = some c → At c.request (fun _ => True) (fun _ => True) (fun _ => True) c.rest

theorem move_of_command {s : S} {up : Bool} {r : Request} {rest : Act Answer} (hcall : st.calls s = some ⟨r, rest⟩)
    (hat : At r (fun _ => True) (fun _ => True) (fun _ => True) rest)
    (h : st.command s up ⟨r, rest⟩ = some st') : Move st (.command s up) st' := by
  cases hat with
  | reading hreads =>
    cases up with
    | false =>
      cases h
      exact .miss s false r hcall hreads
    | true =>
      cases hlive : st.world.cache.live st.world.now r.pubkey with
      | none =>
        simp only [System.command, reading, exec, if_true, hlive, Option.map_some, Option.some.injEq] at h
        rw [← h]
        exact .miss s true r hcall hreads
      | some version =>
        simp only [System.command, reading, exec, if_true, hlive, Option.map_some, Option.some.injEq] at h
        rw [← h]
        exact .hit s true r version hcall hlive
  | selecting hreads =>
    cases h
    exact .select s up r hcall
  | bumping hreads =>
    simp only [System.command, bumping, exec, Option.map_eq_some_iff] at h
    obtain ⟨a, ⟨db, hdb, rfl⟩, rfl⟩ := h
    rcases TxTable.modify_cases hdb with ⟨hview, rfl⟩ | ⟨row, hrow, hfree, rfl⟩
    · dsimp only
      rw [hview]
      exact .noRow s up r hcall
    · dsimp only
      rw [TxTable.view_write, Function.update_self]
      exact .bump s up r row hcall hrow hfree
  | committing version hwritten =>
    cases h
    exact .commit s up r version hcall
  | caching version hkept =>
    cases up with
    | false =>
      cases h
      exact .cacheFails s r version hcall
    | true =>
      cases h
      exact .cache s r version hcall
  | answered version hused =>
    have hdone := done_answer r version
    cases hanswer : r.answer version with
    | ret a => rw [hanswer] at h; cases h
    | raise e => rw [hanswer] at h; cases h
    | op c k => rw [hanswer] at hdone; cases hdone
  | noRow => cases h
  | cutOff => cases h

theorem move_of_step (hformed : Formed st) (h : step e st = some st') : Move st e st' := by
  cases e with
  | tick ms =>
    cases h
    exact .tick ms
  | signUp p =>
    cases h
    exact .signUp p
  | request s r =>
    simp only [step] at h
    split_ifs at h with hsome
    cases h
    exact .request s r (Option.not_isSome_iff_eq_none.1 hsome)
  | command s up =>
    obtain ⟨⟨r, rest⟩, hcall, h⟩ := Option.bind_eq_some_iff.1 h
    exact move_of_command hcall (hformed s _ hcall) h
  | cut s =>
    obtain ⟨c, hcall, h⟩ := Option.bind_eq_some_iff.1 h
    split_ifs at h with hdone
    cases h
    exact .cut s c hcall (Bool.eq_false_iff.2 hdone)

/-! ## What is known of a version -/

/-- The version in the database. -/
def World.version (w : World S) (p : Pubkey) : ℕ := (w.db.committed p).getD 0

/-- A version that is not committed is the next one, and none that is cached is ahead. -/
structure World.Sound (w : World S) : Prop where
  owned : w.db.Owned
  ahead : ∀ s p row, w.db.pending s p = some row → ∃ c, w.db.committed p = some c ∧ row = some (c + 1)
  dated : ∀ p version e, w.cache p = some (version, e) → e ≤ w.now + cacheTtlMs
  cached : ∀ p version e, w.cache p = some (version, e) → version ≤ w.version p

variable {w : World S} {s : S} {p : Pubkey}

omit [DecidableEq S] in
/-- Whoever has a row written holds it, so that nobody else has. -/
theorem World.Sound.pending_other (h : w.Sound) {s' : S} {row : Option ℕ} (hp : w.db.pending s p = some row)
    (hs : s' ≠ s) : w.db.pending s' p = none := by
  by_contra hother
  have hlock := h.owned s' p hother
  rw [h.owned s p (by rw [hp]; exact Option.some_ne_none row)] at hlock
  exact hs (Option.some.inj hlock).symm

omit [DecidableEq S] in
theorem World.Sound.tick (h : w.Sound) (ms : ℕ) : World.Sound { w with now := w.now + ms } where
  owned := h.owned
  ahead := h.ahead
  dated := fun p version e he =>
    (h.dated p version e he).trans (Nat.add_le_add_right (Nat.le_add_right _ _) _)
  cached := h.cached

omit [DecidableEq S] in
theorem version_signUp (w : World S) (p q : Pubkey) : (w.signUp p).version q = w.version q := by
  unfold World.signUp
  split_ifs with hnone
  · by_cases hq : q = p
    · subst hq
      simp [World.version, hnone]
    · simp [World.version, hq]
  · rfl

omit [DecidableEq S] in
theorem World.Sound.signUp (h : w.Sound) (p : Pubkey) : (w.signUp p).Sound := by
  have hversion := version_signUp w p
  unfold World.signUp at hversion ⊢
  split_ifs with hnone
  · rw [if_pos hnone] at hversion
    refine ⟨h.owned, fun s q row hq => ?_, h.dated, fun q version e he => ?_⟩
    · obtain ⟨c, hc, hrow⟩ := h.ahead s q row hq
      have hne : q ≠ p := by
        rintro rfl
        rw [hnone] at hc
        cases hc
      exact ⟨c, (Function.update_of_ne hne _ _).trans hc, hrow⟩
    · rw [hversion q]
      exact h.cached q version e he
  · exact h

omit [DecidableEq S] in
theorem World.Sound.set (h : w.Sound) {version : ℕ} (hle : version ≤ w.version p) :
    World.Sound { w with cache := w.cache.set w.now p version cacheTtlMs } where
  owned := h.owned
  ahead := h.ahead
  dated := fun q version' e he => by
    rcases Expiring.set_cases he with ⟨-, hnew⟩ | ⟨-, hold⟩
    · cases hnew
      exact le_rfl
    · exact h.dated q version' e hold
  cached := fun q version' e he => by
    rcases Expiring.set_cases he with ⟨rfl, hnew⟩ | ⟨-, hold⟩
    · cases hnew
      exact hle
    · exact h.cached q version' e hold

theorem World.Sound.write (h : w.Sound) {row : ℕ} (hrow : w.db.committed p = some row)
    (hfree : w.db.free s p = true) : World.Sound { w with db := w.db.write s p (some (row + 1)) } where
  owned := h.owned.write hfree _
  ahead := fun s' q row' hq => by
    by_cases hs : s' = s
    · subst hs
      by_cases hqp : q = p
      · subst hqp
        simp only [TxTable.write, Function.update_self, Option.some.injEq] at hq
        exact ⟨row, hrow, hq.symm⟩
      · simp only [TxTable.write, Function.update_self, Function.update_of_ne hqp] at hq
        exact h.ahead s' q row' hq
    · simp only [TxTable.write, Function.update_of_ne hs] at hq
      exact h.ahead s' q row' hq
  dated := h.dated
  cached := h.cached

/-- A commit takes no version back. -/
theorem World.Sound.version_commit (h : w.Sound) (s : S) (p : Pubkey) :
    w.version p ≤ ({ w with db := w.db.commit s } : World S).version p := by
  show w.version p ≤ (w.db.view s p).getD 0
  unfold TxTable.view World.version
  cases hpending : w.db.pending s p with
  | none => exact le_rfl
  | some row =>
    obtain ⟨c, hc, rfl⟩ := h.ahead s p row hpending
    rw [hc]
    exact Nat.le_succ c

theorem World.Sound.commit (h : w.Sound) (s : S) : World.Sound { w with db := w.db.commit s } where
  owned := h.owned.commit s
  ahead := fun s' q row hq => by
    by_cases hs : s' = s
    · subst hs
      simp [TxTable.commit] at hq
    · simp only [TxTable.commit, Function.update_of_ne hs] at hq
      have hview : (w.db.commit s).committed q = w.db.committed q :=
        TxTable.view_eq_committed (h.pending_other hq (Ne.symm hs))
      rw [hview]
      exact h.ahead s' q row hq
  dated := h.dated
  cached := fun q version e he => (h.cached q version e he).trans (h.version_commit s q)

theorem World.Sound.rollback (h : w.Sound) (s : S) : World.Sound { w with db := w.db.rollback s } where
  owned := h.owned.rollback s
  ahead := fun s' q row hq => by
    by_cases hs : s' = s
    · subst hs
      simp [TxTable.rollback] at hq
    · simp only [TxTable.rollback, Function.update_of_ne hs] at hq
      exact h.ahead s' q row hq
  dated := h.dated
  cached := h.cached

/-- The next command is the commit. -/
def commits : Act Answer → Bool
  | .op .commit _ => true
  | _ => false

/-- Only a call that is about to commit has a row written. -/
def Tidy (st : System S) : Prop := ∀ s, (∀ p, st.world.db.pending s p = none) ∨
  ∃ c, st.calls s = some c ∧ commits c.rest = true

/-- No version that a call is about to cache, or has used, is ahead of the database. -/
structure Known (st : System S) : Prop where
  sound : st.world.Sound
  tidy : Tidy st
  calls : ∀ s c, st.calls s = some c → At c.request (fun v => st.world.db.pending s c.request.pubkey = some (some v))
    (fun v => v ≤ st.world.version c.request.pubkey) (fun v => v ≤ st.world.version c.request.pubkey) c.rest

omit [DecidableEq S] in
theorem Tidy.clean (h : Tidy st) {r : Request} {rest : Act Answer} (hcall : st.calls s = some ⟨r, rest⟩)
    (hrest : commits rest = false) (p : Pubkey) : st.world.db.pending s p = none := by
  rcases h s with hclean | ⟨c, hc, hcommits⟩
  · exact hclean p
  · rw [hcall] at hc
    cases hc
    rw [hrest] at hcommits
    cases hcommits

omit [DecidableEq S] in
theorem Tidy.clean_of_new (h : Tidy st) (hnew : st.calls s = none) (p : Pubkey) : st.world.db.pending s p = none := by
  rcases h s with hclean | ⟨c, hc, -⟩
  · exact hclean p
  · rw [hnew] at hc
    cases hc

omit [DecidableEq S] in
theorem Known.formed (h : Known st) : Formed st := fun s c hc =>
  (h.calls s c hc).mono (fun _ _ => trivial) (fun _ _ => trivial) fun _ _ => trivial

omit [DecidableEq S] in
/-- The world changes, and nothing that the calls know. -/
theorem Known.world (h : Known st) {world : World S} (hsound : world.Sound)
    (hpending : world.db.pending = st.world.db.pending) (hversion : ∀ p, world.version p = st.world.version p) :
    Known { st with world := world } where
  sound := hsound
  tidy := fun s => (h.tidy s).imp (fun hclean p => (congrFun (congrFun hpending s) p).trans (hclean p)) id
  calls := fun s c hc => by
    refine (h.calls s c hc).mono (fun v hv => ?_) (fun v hv => ?_) fun v hv => ?_
    · exact (congrFun (congrFun hpending s) _).trans hv
    · exact hv.trans (hversion _).ge
    · exact hv.trans (hversion _).ge

/-- A call goes on, and takes nothing away from the others. -/
theorem Known.goOn (h : Known st) {world : World S} {r : Request} {rest : Act Answer} (hsound : world.Sound)
    (hother : ∀ s', s' ≠ s → world.db.pending s' = st.world.db.pending s')
    (hmono : ∀ p, st.world.version p ≤ world.version p)
    (htidy : (∀ p, world.db.pending s p = none) ∨ commits rest = true)
    (hat : At r (fun v => world.db.pending s r.pubkey = some (some v)) (fun v => v ≤ world.version r.pubkey)
      (fun v => v ≤ world.version r.pubkey) rest) : Known (st.goOn s world r rest) where
  sound := hsound
  tidy := by
    intro s'
    by_cases hs : s' = s
    · subst hs
      exact htidy.imp id fun hcommits => ⟨⟨r, rest⟩, Function.update_self .., hcommits⟩
    · refine (h.tidy s').imp (fun hclean p => ?_) fun ⟨c, hc, hcommits⟩ => ⟨c, ?_, hcommits⟩
      · exact (congrFun (hother s' hs) p).trans (hclean p)
      · exact (Function.update_of_ne hs _ _).trans hc
  calls := by
    intro s' c hc
    by_cases hs : s' = s
    · subst hs
      simp only [System.goOn, Function.update_self, Option.some.injEq] at hc
      subst hc
      exact hat
    · simp only [System.goOn, Function.update_of_ne hs] at hc
      refine (h.calls s' c hc).mono (fun v hv => ?_) (fun v hv => ?_) fun v hv => ?_
      · exact (congrFun (hother s' hs) _).trans hv
      · exact hv.trans (hmono _)
      · exact hv.trans (hmono _)

/-- A call goes on in the world as it is. -/
theorem Known.goOn_same (h : Known st) {r : Request} {rest : Act Answer}
    (hclean : ∀ p, st.world.db.pending s p = none)
    (hat : At r (fun v => st.world.db.pending s r.pubkey = some (some v)) (fun v => v ≤ st.world.version r.pubkey)
      (fun v => v ≤ st.world.version r.pubkey) rest) : Known (st.goOn s st.world r rest) :=
  h.goOn h.sound (fun _ _ => rfl) (fun _ => le_rfl) (Or.inl hclean) hat

omit [DecidableEq S] in
theorem Known.kept (h : Known st) {r : Request} {version : ℕ}
    (hcall : st.calls s = some ⟨r, caching r.pubkey r.answer version⟩) : version ≤ st.world.version r.pubkey := by
  have hkept := kept_of_caching (h.calls s _ hcall)
  exact hkept

/-- **Every move keeps to what is known.** -/
theorem Move.known (hmove : Move st e st') (h : Known st) : Known st' := by
  cases hmove with
  | tick ms => exact h.world (h.sound.tick ms) rfl fun _ => rfl
  | signUp p =>
    refine h.world (h.sound.signUp p) ?_ (version_signUp st.world p)
    unfold World.signUp
    split_ifs
    · rfl
    · rfl
  | request s r hnew => exact h.goOn_same (h.tidy.clean_of_new hnew) (at_prog r)
  | hit s up r version hcall hlive =>
    obtain ⟨e, he, -⟩ := Expiring.live_eq_some.1 hlive
    exact h.goOn_same (h.tidy.clean hcall rfl) (.answered version (h.sound.cached _ version e he))
  | miss s up r hcall hreads => exact h.goOn_same (h.tidy.clean hcall rfl) (.selecting hreads)
  | select s up r hcall =>
    have hclean := h.tidy.clean hcall rfl
    refine h.goOn_same hclean (.caching _ ?_)
    rw [TxTable.view_eq_committed (hclean r.pubkey)]
    exact le_rfl
  | cache s r version hcall =>
    have hle : version ≤ st.world.version r.pubkey := h.kept hcall
    exact h.goOn (h.sound.set hle) (fun _ _ => rfl) (fun _ => le_rfl) (Or.inl (h.tidy.clean hcall rfl))
      (.answered version hle)
  | cacheFails s r version hcall =>
    exact h.goOn_same (h.tidy.clean hcall rfl) (.answered version (h.kept hcall))
  | noRow s up r hcall => exact h.goOn_same (h.tidy.clean hcall rfl) .noRow
  | bump s up r row hcall hrow hfree =>
    rw [TxTable.view_eq_committed (h.tidy.clean hcall rfl r.pubkey)] at hrow
    refine h.goOn (h.sound.write hrow hfree) (fun s' hs => Function.update_of_ne hs _ _) (fun _ => le_rfl)
      (Or.inr rfl) (.committing _ ?_)
    simp [TxTable.write]
  | commit s up r version hcall =>
    have hpending := written_of_committing (h.calls s _ hcall)
    dsimp only at hpending
    have hversion : ({ st.world with db := st.world.db.commit s } : World S).version r.pubkey = version := by
      show (st.world.db.view s r.pubkey).getD 0 = version
      simp [TxTable.view, hpending]
    refine h.goOn (h.sound.commit s) (fun s' hs => Function.update_of_ne hs _ _) (h.sound.version_commit s)
      (Or.inl fun p => ?_) (.caching version hversion.ge)
    simp [TxTable.commit]
  | cut s c hcall hbusy =>
    refine h.goOn (h.sound.rollback s) (fun s' hs => Function.update_of_ne hs _ _) (fun _ => le_rfl)
      (Or.inl fun p => ?_) .cutOff
    simp [TxTable.rollback]

/-! ## Refused only if revoked -/

omit [DecidableEq S] in
theorem known_initial (versions : Pubkey → Option ℕ) : Known (System.initial versions : System S) where
  sound :=
    { owned := TxTable.owned_ofRows versions
      ahead := fun s p row h => by cases h
      dated := fun p version e h => by cases h
      cached := fun p version e h => by cases h }
  tidy := fun s => Or.inl fun p => rfl
  calls := fun s c h => by cases h

theorem Known.step (h : Known st) (hstep : step e st = some st') : Known st' :=
  (move_of_step h.formed hstep).known h

theorem Known.run (h : Known st) {es : List (Event S)} (hrun : Machine.run Sessions.step es st = some st') :
    Known st' :=
  Machine.run_inv (I := Known) (P := fun _ => True) (fun _ h hstep => h.step hstep) (fun _ _ => trivial) h hrun

/-- **Nobody is refused who was not revoked.**  Whatever Redis does and however the calls
    interleave, a token is refused only when the version in the database is past its own. -/
theorem refused_only_if_revoked {versions : Pubkey → Option ℕ} {es : List (Event S)} {v : ℕ}
    (hrun : Machine.run step es (System.initial versions) = some st)
    (hcall : st.calls s = some ⟨.verify p v, .raise .sessionRevoked⟩) : v < st.world.version p := by
  have hat := ((known_initial versions).run hrun).calls s _ hcall
  dsimp only at hat
  generalize hrest : (.raise .sessionRevoked : Act Answer) = rest at hat
  cases hat with
  | reading h => cases hrest
  | selecting h => cases hrest
  | bumping h => cases hrest
  | committing version h => cases hrest
  | caching version h => cases hrest
  | answered version h =>
    rw [Request.answer] at hrest
    split_ifs at hrest with hlt
    · exact hlt.trans_le h
  | noRow => cases hrest
  | cutOff => cases hrest

/-- A token of the version 0 is refused once the user's sessions were revoked. -/
theorem revoked_refused : ∃ st : System ℕ, Machine.run step
    [.request 0 (.revoke "alice"), .command 0 true, .command 0 true, .command 0 true,
      .request 1 (.verify "alice" 0), .command 1 true] (System.initial fun _ => some 0) = some st ∧
    st.calls 1 = some ⟨.verify "alice" 0, .raise .sessionRevoked⟩ ∧ 0 < st.world.version "alice" := by
  have hrun : ∃ st : System ℕ, Machine.run step
      [.request 0 (.revoke "alice"), .command 0 true, .command 0 true, .command 0 true,
        .request 1 (.verify "alice" 0), .command 1 true] (System.initial fun _ => some 0) = some st ∧
      st.calls 1 = some ⟨.verify "alice" 0, .raise .sessionRevoked⟩ := ⟨_, rfl, rfl⟩
  obtain ⟨st, hrun, hcall⟩ := hrun
  exact ⟨st, hrun, hcall, refused_only_if_revoked hrun hcall⟩

/-! ## Revoked for good -/

/-- The version of a user has come to `w`.  A call that is `sure` has read, or written, no
    lower one, and a call that is `fresh` was not given one by the cache either. -/
structure Held (p : Pubkey) (w : ℕ) (sure fresh : S → Prop) (st : System S) : Prop where
  version : w ≤ st.world.version p
  calls : ∀ s c, st.calls s = some c → c.request.pubkey = p → sure s →
    At c.request (w ≤ ·) (w ≤ ·) (fun v => fresh s → w ≤ v) c.rest

variable {sure fresh : S → Prop} {n : ℕ}

theorem Held.goOn (h : Held p n sure fresh st) {world : World S} {r : Request} {rest : Act Answer}
    (hmono : st.world.version p ≤ world.version p)
    (hat : r.pubkey = p → sure s → At r (n ≤ ·) (n ≤ ·) (fun v => fresh s → n ≤ v) rest) :
    Held p n sure fresh (st.goOn s world r rest) where
  version := h.version.trans hmono
  calls := by
    intro s' c hc hp hsure
    by_cases hs : s' = s
    · subst hs
      simp only [System.goOn, Function.update_self, Option.some.injEq] at hc
      subst hc
      exact hat hp hsure
    · simp only [System.goOn, Function.update_of_ne hs] at hc
      exact h.calls s' c hc hp hsure

/-- Every move keeps to it, if the cache gives no lower version once there are fresh calls. -/
theorem Move.held (hmove : Move st e st') (hknown : Known st) (h : Held p n sure fresh st)
    (hcache : ∀ s version, fresh s → st.world.cache.live st.world.now p = some version → n ≤ version) :
    Held p n sure fresh st' := by
  cases hmove with
  | tick ms => exact ⟨h.version, h.calls⟩
  | signUp q => exact ⟨h.version.trans (version_signUp st.world q p).ge, h.calls⟩
  | request s r hnew => exact h.goOn le_rfl fun _ _ => at_prog r
  | hit s up r version hcall hlive =>
    refine h.goOn le_rfl fun hp _ => .answered version fun hfresh => ?_
    rw [hp] at hlive
    exact hcache s version hfresh hlive
  | miss s up r hcall hreads => exact h.goOn le_rfl fun _ _ => .selecting hreads
  | select s up r hcall =>
    refine h.goOn le_rfl fun hp _ => .caching _ ?_
    rw [TxTable.view_eq_committed (hknown.tidy.clean hcall rfl r.pubkey), hp]
    exact h.version
  | cache s r version hcall =>
    refine h.goOn le_rfl fun hp hsure => .answered version fun _ => ?_
    have hkept := kept_of_caching (h.calls s _ hcall hp hsure)
    exact hkept
  | cacheFails s r version hcall =>
    refine h.goOn le_rfl fun hp hsure => .answered version fun _ => ?_
    have hkept := kept_of_caching (h.calls s _ hcall hp hsure)
    exact hkept
  | noRow s up r hcall => exact h.goOn le_rfl fun _ _ => .noRow
  | bump s up r row hcall hrow hfree =>
    refine h.goOn le_rfl fun hp _ => .committing _ ?_
    rw [TxTable.view_eq_committed (hknown.tidy.clean hcall rfl r.pubkey), hp] at hrow
    have hversion := h.version
    simp only [World.version, hrow, Option.getD_some] at hversion
    exact Nat.le_succ_of_le hversion
  | commit s up r version hcall =>
    refine h.goOn (hknown.sound.version_commit s p) fun hp hsure => .caching version ?_
    have hwritten := written_of_committing (h.calls s _ hcall hp hsure)
    exact hwritten
  | cut s c hcall hbusy => exact h.goOn le_rfl fun _ _ => .cutOff

/-- The calls that are not sure are over, and the lower versions in the cache have a time. -/
structure Faded (p : Pubkey) (w : ℕ) (sure : S → Prop) (bound : ℕ) (st : System S) : Prop where
  ended : ∀ s, sure s ∨ ∃ c, st.calls s = some c ∧ c.rest.done = true
  cache : ∀ version e, st.world.cache p = some (version, e) → w ≤ version ∨ e ≤ bound

variable {bound : ℕ}

omit [DecidableEq S] in
theorem Faded.busy (h : Faded p n sure bound st) {c : Call} (hcall : st.calls s = some c)
    (hbusy : c.rest.done = false) : sure s := by
  rcases h.ended s with hsure | ⟨c', hc', hdone⟩
  · exact hsure
  · rw [hcall] at hc'
    cases hc'
    rw [hbusy] at hdone
    cases hdone

theorem Faded.goOn (h : Faded p n sure bound st) {world : World S} {r : Request} {rest : Act Answer}
    (hsure : sure s)
    (hcache : ∀ version e, world.cache p = some (version, e) → n ≤ version ∨ e ≤ bound) :
    Faded p n sure bound (st.goOn s world r rest) where
  ended := by
    intro s'
    by_cases hs : s' = s
    · exact Or.inl (hs ▸ hsure)
    · refine (h.ended s').imp id fun ⟨c, hc, hdone⟩ => ⟨c, ?_, hdone⟩
      exact (Function.update_of_ne hs _ _).trans hc
  cache := hcache

theorem Move.faded (hmove : Move st e st') (hheld : Held p n sure fresh st) (h : Faded p n sure bound st) :
    Faded p n sure bound st' := by
  cases hmove with
  | tick ms => exact ⟨h.ended, h.cache⟩
  | signUp q =>
    refine ⟨h.ended, ?_⟩
    unfold World.signUp
    split_ifs
    · exact h.cache
    · exact h.cache
  | request s r hnew =>
    refine h.goOn ?_ h.cache
    rcases h.ended s with hsure | ⟨c, hc, -⟩
    · exact hsure
    · rw [hnew] at hc
      cases hc
  | hit s up r version hcall hlive => exact h.goOn (h.busy hcall rfl) h.cache
  | miss s up r hcall hreads => exact h.goOn (h.busy hcall rfl) h.cache
  | select s up r hcall => exact h.goOn (h.busy hcall rfl) h.cache
  | cache s r version hcall =>
    have hsure := h.busy hcall rfl
    refine h.goOn hsure fun version' e he => ?_
    rcases Expiring.set_cases he with ⟨hp, hnew⟩ | ⟨-, hold⟩
    · cases hnew
      have hkept := kept_of_caching (hheld.calls s _ hcall hp.symm hsure)
      exact Or.inl hkept
    · exact h.cache version' e hold
  | cacheFails s r version hcall => exact h.goOn (h.busy hcall rfl) h.cache
  | noRow s up r hcall => exact h.goOn (h.busy hcall rfl) h.cache
  | bump s up r row hcall hrow hfree => exact h.goOn (h.busy hcall rfl) h.cache
  | commit s up r version hcall => exact h.goOn (h.busy hcall rfl) h.cache
  | cut s c hcall hbusy => exact h.goOn (h.busy hcall hbusy) h.cache

theorem Move.now_le (hmove : Move st e st') : st.world.now ≤ st'.world.now := by
  cases hmove with
  | tick ms => exact Nat.le_add_right _ _
  | signUp q =>
    show st.world.now ≤ (st.world.signUp q).now
    unfold World.signUp
    split_ifs
    · exact le_rfl
    · exact le_rfl
  | _ => exact le_rfl

/-- While no call is fresh, the cache may give anything. -/
theorem Held.run (h : Held p n sure (fun _ => False) st) (hknown : Known st) {es : List (Event S)}
    (hrun : Machine.run Sessions.step es st = some st') : Held p n sure (fun _ => False) st' := by
  refine (Machine.run_inv (I := fun st => Known st ∧ Held p n sure (fun _ => False) st) (P := fun _ => True)
    (fun _ hI hstep => ?_) (fun _ _ => trivial) ⟨hknown, h⟩ hrun).2
  have hmove := move_of_step hI.1.formed hstep
  exact ⟨hmove.known hI.1, hmove.held hI.1 hI.2 fun _ _ hfresh => hfresh.elim⟩

theorem Faded.run (h : Faded p n sure bound st) (hknown : Known st) (hheld : Held p n sure fresh st)
    (hlate : ∀ s, fresh s → bound ≤ st.world.now) {es : List (Event S)}
    (hrun : Machine.run Sessions.step es st = some st') : Held p n sure fresh st' ∧ Faded p n sure bound st' := by
  refine (Machine.run_inv (P := fun _ => True) (I := fun st => Known st ∧
    (∀ s, fresh s → bound ≤ st.world.now) ∧ Held p n sure fresh st ∧ Faded p n sure bound st)
    (fun _ hI hstep => ?_) (fun _ _ => trivial) ⟨hknown, hlate, hheld, h⟩ hrun).2.2
  obtain ⟨hknown, hlate, hheld, hfaded⟩ := hI
  have hmove := move_of_step hknown.formed hstep
  refine ⟨hmove.known hknown, fun s hfresh => (hlate s hfresh).trans hmove.now_le, ?_, hmove.faded hheld hfaded⟩
  refine hmove.held hknown hheld fun s version hfresh hlive => ?_
  obtain ⟨e, he, hlt⟩ := Expiring.live_eq_some.1 hlive
  rcases hfaded.cache version e he with hle | hle
  · exact hle
  · exact absurd (hle.trans (hlate s hfresh)) (Nat.not_le.2 hlt)

/-- A version that a call has answered with. -/
theorem used_of_answered {r : Request} {written kept used : ℕ → Prop} {a : Answer}
    (h : At r written kept used (.ret a)) (ha : a ≠ .revoked none) :
    ∃ version, used version ∧ r.answer version = .ret a := by
  generalize hrest : (.ret a : Act Answer) = rest at h
  cases h with
  | reading h => cases hrest
  | selecting h => cases hrest
  | bumping h => cases hrest
  | committing version h => cases hrest
  | caching version h => cases hrest
  | answered version h => exact ⟨version, h, rfl⟩
  | noRow =>
    cases hrest
    exact absurd rfl ha
  | cutOff => cases hrest

/-- **What is revoked stays revoked.**  The version of a user has come to `w`, the calls of
    that time have ended, and then a minute has passed: whoever asks from then on is accepted,
    or is given a token, with no lower version, however the calls interleave and however Redis
    fails. -/
theorem revoked_for_good {versions : Pubkey → Option ℕ} {es₁ es₂ es₃ es₄ : List (Event S)}
    {st₁ st₂ st₃ st₄ : System S} {w : ℕ} (h₁ : Machine.run step es₁ (System.initial versions) = some st₁)
    (hrevoked : st₁.world.version p = w) (h₂ : Machine.run step es₂ st₁ = some st₂)
    (hover : ∀ s c, st₁.calls s = some c → ∃ c', st₂.calls s = some c' ∧ c'.rest.done = true)
    (h₃ : Machine.run step es₃ st₂ = some st₃) (hminute : st₂.world.now + cacheTtlMs ≤ st₃.world.now)
    (h₄ : Machine.run step es₄ st₃ = some st₄) (hnew : st₃.calls s = none) :
    (∀ v, st₄.calls s = some ⟨.verify p v, .ret .accepted⟩ → w ≤ v) ∧
    (∀ u, st₄.calls s = some ⟨.login p, .ret (.minted u)⟩ → w ≤ u) := by
  have hknown₁ := (known_initial versions).run h₁
  have hheld₁ : Held p w (st₁.calls · = none) (fun _ => False) st₁ := by
    refine ⟨hrevoked.ge, fun s c hc _ hnone => ?_⟩
    rw [hnone] at hc
    cases hc
  have hknown₂ := hknown₁.run h₂
  have hfaded₂ : Faded p w (st₁.calls · = none) (st₂.world.now + cacheTtlMs) st₂ := by
    refine ⟨fun s => ?_, fun version e he => Or.inr (hknown₂.sound.dated p version e he)⟩
    cases hc : st₁.calls s with
    | none => exact Or.inl rfl
    | some c => exact Or.inr (hover s c hc)
  obtain ⟨hheld₃, hfaded₃⟩ := hfaded₂.run hknown₂ (hheld₁.run hknown₁ h₂) (fun _ h => h.elim) h₃
  -- from here on the cache gives no lower version, and the calls that are new are fresh
  have hfresh₃ : Held p w (st₁.calls · = none) (st₃.calls · = none) st₃ := by
    refine ⟨hheld₃.version, fun s c hc hp hsure => (hheld₃.calls s c hc hp hsure).mono (fun _ h => h)
      (fun _ h => h) fun _ _ hnone => ?_⟩
    rw [hnone] at hc
    cases hc
  have hheld₄ := (hfaded₃.run (hknown₂.run h₃) hfresh₃ (fun _ _ => hminute) h₄).1
  have hsure : st₁.calls s = none := by
    rcases hfaded₃.ended s with hsure | ⟨c, hc, -⟩
    · exact hsure
    · rw [hnew] at hc
      cases hc
  constructor
  · intro v hc
    obtain ⟨version, hused, hanswer⟩ := used_of_answered (hheld₄.calls s _ hc rfl hsure) (fun h => by cases h)
    rw [Request.answer] at hanswer
    split_ifs at hanswer with hlt
    exact (hused hnew).trans (Nat.not_lt.1 hlt)
  · intro u hc
    obtain ⟨version, hused, hanswer⟩ := used_of_answered (hheld₄.calls s _ hc rfl hsure) (fun h => by cases h)
    cases hanswer
    exact hused hnew

/-- The sessions of a user are revoked while Redis is down. -/
def revokedBlindly : List (Event ℕ) := [.request 0 (.revoke "alice"), .command 0 true, .command 0 true]

/-- Someone asks with a token of the version 1. -/
def askedLater : List (Event ℕ) :=
  [.request 1 (.verify "alice" 1), .command 1 true, .command 1 true, .command 1 true]

/-- A minute after it was cached nowhere, a token of the new version is accepted. -/
theorem revoked_accepted : ∃ st₁ st₂ st₃ st₄ : System ℕ,
    Machine.run step revokedBlindly (System.initial fun _ => some 0) = some st₁ ∧
    Machine.run step [.command 0 false] st₁ = some st₂ ∧ Machine.run step [.tick 60000] st₂ = some st₃ ∧
    Machine.run step askedLater st₃ = some st₄ ∧ st₁.world.version "alice" ≤ 1 := by
  have hruns : ∃ st₁ st₂ st₃ st₄ : System ℕ,
      Machine.run step revokedBlindly (System.initial fun _ => some 0) = some st₁ ∧
      Machine.run step [.command 0 false] st₁ = some st₂ ∧ Machine.run step [.tick 60000] st₂ = some st₃ ∧
      Machine.run step askedLater st₃ = some st₄ ∧
      (∀ s c, st₁.calls s = some c → ∃ c', st₂.calls s = some c' ∧ c'.rest.done = true) ∧
      st₂.world.now + cacheTtlMs ≤ st₃.world.now ∧ st₃.calls 1 = none ∧
      st₄.calls 1 = some ⟨.verify "alice" 1, .ret .accepted⟩ := by
    refine ⟨_, _, _, _, rfl, rfl, rfl, rfl, fun s c hc => ?_, by decide, rfl, rfl⟩
    by_cases hs : s = 0
    · subst hs
      exact ⟨_, rfl, rfl⟩
    · simp [System.goOn, System.initial, hs] at hc
  obtain ⟨st₁, st₂, st₃, st₄, h₁, h₂, h₃, h₄, hover, hminute, hnew, hcall⟩ := hruns
  exact ⟨st₁, st₂, st₃, st₄, h₁, h₂, h₃, h₄, (revoked_for_good h₁ rfl h₂ hover h₃ hminute h₄ hnew).1 1 hcall⟩

end

end Sessions

end BrainstormServer
