/-
  Logging in (`app/services/auth_service.py`).

  A challenge is a nonce that Redis keeps for five minutes, with the account that asked for it.
  A login presents an event by which the account signed the nonce.  `GETDEL` takes the challenge
  away, whoever had asked for it, and a token is minted after that.

  * `Move`, `move_of_step`: what a command, a cut and the time do;
  * `minted_le_issued`: no more tokens are minted for a challenge than times it was issued;
  * `login_succeeds`: who presents a challenge in time is given a token, unless somebody has
    presented the same challenge before.
-/
import BrainstormServer.Conc.Expiring
import BrainstormServer.Conc.Machine
import BrainstormServer.Conc.Prog
import BrainstormServer.Nostr
import Mathlib.Data.Finset.Card

namespace BrainstormServer

namespace Login

open Conc Prog Nostr

/-! ## The programs -/

/-- `CHALLENGE_TTL`, in milliseconds. -/
def challengeTtlMs : ℕ := 300000

/-- `LOGIN_KIND`. -/
def loginKind : ℕ := 22242

/-- What an event says of itself that could be read, and whether it verifies. -/
structure SignedEvent where
  kind : ℕ
  author : Pubkey
  verified : Bool

/-- `Event.from_json` of nostr_sdk, and how an f-string writes a value that is no string. -/
structure Lib where
  fromJson : PyDict → Option SignedEvent
  repr : PyValue → String

structure Settings where
  adminEnabled : Bool
  whitelistedPubkeys : List Pubkey

/-- The claims of a session token. -/
structure Token where
  nostrPubkey : Pubkey
  isAdmin : Bool
  sessionVersion : ℕ
  deriving DecidableEq

/-- The commands: on the key of a challenge, and what the database and the limit of new
    Observers are asked for. -/
inductive Cmd
  /-- `SET key pubkey EX 300` -/
  | set (key : String) (pubkey : Pubkey)
  | getdel (key : String)
  /-- `brainstorm_nsec_exists_by_pubkey_on_db` -/
  | nsecExists (pubkey : Pubkey)
  /-- `rate_limit_login_new_observer`: whether it lets pass -/
  | rateLimitLoginNewObserver
  /-- `get_or_create_brainstorm_observer_nsec_by_pubkey_on_db` -/
  | getOrCreateNsec (pubkey : Pubkey)
  | currentSessionVersion (pubkey : Pubkey)

@[reducible] def Cmd.Ans : Cmd → Type
  | set _ _ => Unit
  | getdel _ => Option Pubkey
  | nsecExists _ => Bool
  | rateLimitLoginNewObserver => Bool
  | getOrCreateNsec _ => Unit
  | currentSessionVersion _ => ℕ

/-- How a call ends without an answer: with a 401, with a 429, with a `TypeError`, or because a
    command raised. -/
inductive Ended
  | unauthorized (detail : String)
  | tooManyRequests
  | typeError
  | cutOff
  deriving DecidableEq

abbrev Act (α : Type) := Prog (C := Cmd) Cmd.Ans Ended α

/-- Execute a command. -/
def await (c : Cmd) : Act c.Ans := call c

/-- `_challenge_key`. -/
def challengeKey (nonce : String) : String := "nostr:challenge:" ++ nonce

/-- `generate_nostr_auth_challenge`; the nonce is drawn by `secrets`. -/
def generateNostrAuthChallenge (pubkey : Pubkey) (nonce : String) : Act String := do
  await (.set (challengeKey nonce) pubkey)
  return nonce

/-- `first_tag_value`. -/
def firstTagValue (tags : List PyValue) (name : String) : Option PyValue :=
  tags.findSome? fun
    | .list (tagName :: value :: _) => if str? tagName = some name then some value else none
    | _ => none

section
variable (lib : Lib) (settings : Settings)

/-- `f"{v}"`. -/
def Lib.format : PyValue → String
  | .str s => s
  | v => lib.repr v

/-- `verify_nostr_auth_challenge`, up to the challenge that the event answers. -/
def checkEvent (pubkey : Pubkey) (rawEvent : PyDict) : Except Ended String :=
  match lib.fromJson rawEvent with
  | none => .error (.unauthorized "Invalid event")
  | some signed =>
    if signed.kind ≠ loginKind then .error (.unauthorized "Invalid event")
    else if signed.author ≠ pubkey then .error (.unauthorized "Submited event has wrong author")
    else
      -- `raw_event.get("tags") or []`
      match if (dictGet rawEvent "tags").truthy then (dictGet rawEvent "tags").elements else some [] with
      | none => .error .typeError
      | some tags =>
        if (firstTagValue tags "t").bind str? ≠ some "brainstorm_login" then .error (.unauthorized "Invalid event")
        else
          match firstTagValue tags "challenge" with
          | none => .error (.unauthorized "Invalid event")
          | some challenge =>
            if !challenge.truthy then .error (.unauthorized "Invalid event")
            else if !signed.verified then .error (.unauthorized "Invalid event")
            else .ok (lib.format challenge)

/-- `generate_authentication_token`. -/
def generateAuthenticationToken (nostrPubkey : Pubkey) (sessionVersion : ℕ) : Token :=
  ⟨nostrPubkey, settings.adminEnabled && nostrPubkey ∈ settings.whitelistedPubkeys, sessionVersion⟩

/-- `verify_nostr_auth_challenge`. -/
def verifyNostrAuthChallenge (pubkey : Pubkey) (rawEvent : PyDict) : Act Token :=
  match checkEvent lib pubkey rawEvent with
  | .error e => .raise e
  | .ok challenge => do
    let issuedFor ← await (.getdel (challengeKey challenge))
    if issuedFor ≠ some pubkey then
      .raise (.unauthorized "No challenge found or expired")
    else do
      if !(← await (.nsecExists pubkey)) then
        if !(← await .rateLimitLoginNewObserver) then
          .raise .tooManyRequests
      await (.getOrCreateNsec pubkey)
      let sessionVersion ← await (.currentSessionVersion pubkey)
      return generateAuthenticationToken settings pubkey sessionVersion

/-- The calls that are made. -/
inductive Request
  | challenge (pubkey : Pubkey) (nonce : String)
  | verify (pubkey : Pubkey) (rawEvent : PyDict)

inductive Answer
  | challenge (challenge : String)
  | token (token : Token)

/-- The call of a request. -/
def Request.prog : Request → Act Answer
  | challenge p nonce => do return .challenge (← generateNostrAuthChallenge p nonce)
  | verify p rawEvent => do return .token (← verifyNostrAuthChallenge lib settings p rawEvent)

end

/-! ## The system -/

/-- The time in milliseconds, and the challenges. -/
structure World where
  now : ℕ
  redis : Expiring String Pubkey ℕ

/-- What the database and the limit of new Observers answer. -/
structure Outside where
  nsecExists : Bool
  allowed : Bool
  sessionVersion : ℕ

/-- A call: what was asked, and what is left to do. -/
structure Call where
  request : Request
  rest : Act Answer

structure System (S : Type) where
  world : World
  calls : S → Option Call

/-- Nobody has called yet. -/
def System.initial {S : Type} : System S := ⟨⟨0, fun _ => none⟩, fun _ => none⟩

inductive Event (S : Type)
  | tick (ms : ℕ)
  | request (s : S) (r : Request)
  /-- the next command of a call -/
  | command (s : S) (outside : Outside)
  /-- the call ends at its next command; whether that has taken effect -/
  | cut (s : S) (executed : Bool)

/-- The effect of a command. -/
def exec (outside : Outside) : (c : Cmd) → World → c.Ans × World
  | .set key pubkey, w => ((), { w with redis := w.redis.set w.now key pubkey challengeTtlMs })
  | .getdel key, w => ((w.redis.take w.now key).1, { w with redis := (w.redis.take w.now key).2 })
  | .nsecExists _, w => (outside.nsecExists, w)
  | .rateLimitLoginNewObserver, w => (outside.allowed, w)
  | .getOrCreateNsec _, w => ((), w)
  | .currentSessionVersion _, w => (outside.sessionVersion, w)

section
variable {S : Type} [DecidableEq S]

/-- A call goes on with `rest`. -/
def System.goOn (st : System S) (s : S) (world : World) (r : Request) (rest : Act Answer) : System S :=
  ⟨world, Function.update st.calls s (some ⟨r, rest⟩)⟩

/-- A call executes its next command. -/
def System.command (st : System S) (s : S) (outside : Outside) (c : Call) : Option (System S) :=
  match c.rest with
  | .op cmd k => some (st.goOn s (exec outside cmd st.world).2 c.request (k (exec outside cmd st.world).1))
  | _ => none

/-- What is left of the effect of the command at which a call ends. -/
def World.cut (w : World) (executed : Bool) : Act Answer → World
  | .op cmd _ => if executed then (exec ⟨false, false, 0⟩ cmd w).2 else w
  | _ => w

def step (lib : Lib) (settings : Settings) : Event S → System S → Option (System S)
  | .tick ms, st => some { st with world := { st.world with now := st.world.now + ms } }
  | .request s r, st => if (st.calls s).isSome then none else some (st.goOn s st.world r (r.prog lib settings))
  | .command s outside, st => (st.calls s).bind (st.command s outside)
  | .cut s executed, st => (st.calls s).bind fun c => if c.rest.done then none else
    some (st.goOn s (st.world.cut executed c.rest) c.request (.raise .cutOff))

/-- The command that an event executes. -/
def executes : Event S → System S → Option Cmd
  | .command s _, st | .cut s true, st => (st.calls s).bind fun c =>
    match c.rest with
    | .op cmd _ => some cmd
    | _ => none
  | _, _ => none

/-- The event issues the challenge of a key to an account. -/
def issues (p : Pubkey) (key : String) (e : Event S) (st : System S) : Bool :=
  match executes e st with
  | some (.set key' p') => key' = key ∧ p' = p
  | _ => false

/-- The event issues the challenge of a key, or takes it away. -/
def touches (key : String) (e : Event S) (st : System S) : Bool :=
  match executes e st with
  | some (.set key' _) => key' = key
  | some (.getdel key') => key' = key
  | _ => false

end

/-! ## What a step can do -/

section
variable (settings : Settings) (p : Pubkey)

def reading : Act Answer := .op (.currentSessionVersion p) fun sessionVersion =>
  .ret (.token (generateAuthenticationToken settings p sessionVersion))

def creating : Act Answer := .op (.getOrCreateNsec p) fun _ => reading settings p

def limiting : Act Answer := .op .rateLimitLoginNewObserver fun allowed =>
  if allowed then creating settings p else .raise .tooManyRequests

/-- What is left when the challenge has been taken. -/
def admitting : Act Answer := .op (.nsecExists p) fun known =>
  if known then creating settings p else limiting settings p

/-- What is left of a login whose event answers the challenge of a key. -/
def asking (key : String) : Act Answer := .op (.getdel key) fun issuedFor =>
  if issuedFor = some p then admitting settings p else .raise (.unauthorized "No challenge found or expired")

end

def setting (p : Pubkey) (nonce : String) : Act Answer := .op (.set (challengeKey nonce) p) fun _ =>
  .ret (.challenge nonce)

/-- What is left of a login that has taken its challenge, with the token that it may mint. -/
inductive Admitted (settings : Settings) (p : Pubkey) : Act Answer → Prop
  | admitting : Admitted settings p (admitting settings p)
  | limiting : Admitted settings p (limiting settings p)
  | creating : Admitted settings p (creating settings p)
  | reading : Admitted settings p (reading settings p)
  | minted (sessionVersion : ℕ) :
    Admitted settings p (.ret (.token (generateAuthenticationToken settings p sessionVersion)))

section
variable {lib : Lib} {settings : Settings} {p : Pubkey} {rawEvent : PyDict} {challenge : String}

theorem prog_verify_error {e : Ended} (h : checkEvent lib p rawEvent = .error e) :
    (Request.verify p rawEvent).prog lib settings = .raise e := by
  simp only [Request.prog, verifyNostrAuthChallenge, h]
  rfl

theorem prog_verify_ok (h : checkEvent lib p rawEvent = .ok challenge) :
    (Request.verify p rawEvent).prog lib settings = asking settings p (challengeKey challenge) := by
  simp only [Request.prog, verifyNostrAuthChallenge, h, await, bind_eq, call_bind, Prog.bind, asking]
  congr 1
  funext issuedFor
  by_cases hfor : issuedFor = some p
  · rw [if_neg (not_not.2 hfor), if_pos hfor]
    simp only [Prog.bind, admitting]
    congr 1
    funext known
    cases known with
    | true => rfl
    | false =>
      simp only [Bool.not_false, if_true, Bool.false_eq_true, if_false, Prog.bind, limiting]
      congr 1
      funext allowed
      cases allowed with
      | true => rfl
      | false => rfl
  · rw [if_pos hfor, if_neg hfor]
    rfl

end

section
variable (lib : Lib) (settings : Settings)

/-- Where a call is. -/
inductive At : Request → Act Answer → Prop
  | setting (p : Pubkey) (nonce : String) : At (.challenge p nonce) (setting p nonce)
  | issued (p : Pubkey) (nonce : String) : At (.challenge p nonce) (.ret (.challenge nonce))
  | asking (p : Pubkey) (rawEvent : PyDict) (challenge : String) (h : checkEvent lib p rawEvent = .ok challenge) :
    At (.verify p rawEvent) (asking settings p (challengeKey challenge))
  | admitted (p : Pubkey) (rawEvent : PyDict) (challenge : String) (h : checkEvent lib p rawEvent = .ok challenge)
    {rest : Act Answer} (hrest : Admitted settings p rest) : At (.verify p rawEvent) rest
  | ended (r : Request) (e : Ended) : At r (.raise e)

/-- The calls are somewhere in their programs. -/
def Formed {S : Type} (st : System S) : Prop := ∀ s c, st.calls s = some c → At lib settings c.request c.rest

theorem at_prog (r : Request) : At lib settings r (r.prog lib settings) := by
  cases r with
  | challenge p nonce => exact .setting p nonce
  | verify p rawEvent =>
    cases h : checkEvent lib p rawEvent with
    | error e =>
      rw [prog_verify_error h]
      exact .ended _ e
    | ok challenge =>
      rw [prog_verify_ok h]
      exact .asking p rawEvent challenge h

/-- What the next command of an admitted login leads to; it leaves the challenges alone. -/
theorem Admitted.next {settings : Settings} {p : Pubkey} {cmd : Cmd} {k : cmd.Ans → Act Answer}
    (h : Admitted settings p (.op cmd k)) :
    (∀ outside w, (exec outside cmd w).2 = w) ∧ (∀ key, cmd ≠ .getdel key) ∧
    ∀ a, Admitted settings p (k a) ∨ ∃ e, k a = .raise e := by
  generalize hrest : (.op cmd k : Act Answer) = rest at h
  cases h with
  | admitting =>
    cases hrest
    refine ⟨fun _ _ => rfl, fun _ => Cmd.noConfusion, fun known => Or.inl ?_⟩
    cases known with
    | true => exact .creating
    | false => exact .limiting
  | limiting =>
    cases hrest
    refine ⟨fun _ _ => rfl, fun _ => Cmd.noConfusion, fun allowed => ?_⟩
    cases allowed with
    | true => exact Or.inl .creating
    | false => exact Or.inr ⟨_, rfl⟩
  | creating =>
    cases hrest
    exact ⟨fun _ _ => rfl, fun _ => Cmd.noConfusion, fun _ => Or.inl .reading⟩
  | reading =>
    cases hrest
    exact ⟨fun _ _ => rfl, fun _ => Cmd.noConfusion, fun v => Or.inl (.minted v)⟩
  | minted v => cases hrest

end

section
variable {S : Type} [DecidableEq S] {lib : Lib} {settings : Settings} {st st' : System S} {e : Event S}

variable (lib settings) in
/-- The moves of the system. -/
inductive Move (st : System S) (e : Event S) : System S → Prop
  | tick (ms : ℕ) : Move st e { st with world := { st.world with now := st.world.now + ms } }
  | request (s : S) (r : Request) (hnew : st.calls s = none) : Move st e (st.goOn s st.world r (r.prog lib settings))
  /-- a challenge is issued, and perhaps nobody is told -/
  | set (s : S) (p : Pubkey) (nonce : String) (rest : Act Answer)
      (hcall : st.calls s = some ⟨.challenge p nonce, setting p nonce⟩)
      (hcmd : executes e st = some (.set (challengeKey nonce) p)) (hat : At lib settings (.challenge p nonce) rest) :
      Move st e (st.goOn s { st.world with
        redis := st.world.redis.set st.world.now (challengeKey nonce) p challengeTtlMs } (.challenge p nonce) rest)
  /-- a challenge is taken away, and if it is the caller's own perhaps he is admitted -/
  | take (s : S) (p : Pubkey) (rawEvent : PyDict) (challenge : String) (rest : Act Answer)
      (hcheck : checkEvent lib p rawEvent = .ok challenge)
      (hcall : st.calls s = some ⟨.verify p rawEvent, asking settings p (challengeKey challenge)⟩)
      (hcmd : executes e st = some (.getdel (challengeKey challenge))) (hat : At lib settings (.verify p rawEvent) rest)
      (howned : Admitted settings p rest → st.world.redis.live st.world.now (challengeKey challenge) = some p) :
      Move st e (st.goOn s { st.world with
        redis := (st.world.redis.take st.world.now (challengeKey challenge)).2 } (.verify p rawEvent) rest)
  /-- a login that is admitted goes on, or a call ends -/
  | other (s : S) (r : Request) (rest rest' : Act Answer) (hcall : st.calls s = some ⟨r, rest⟩)
      (hat : At lib settings r rest') (hadmitted : ∀ p rawEvent, r = .verify p rawEvent →
        Admitted settings p rest' → Admitted settings p rest) :
      Move st e (st.goOn s st.world r rest')

omit [DecidableEq S] in
theorem executes_command {s : S} {outside : Outside} {r : Request} {cmd : Cmd} {k : cmd.Ans → Act Answer}
    (hcall : st.calls s = some ⟨r, .op cmd k⟩) : executes (.command s outside) st = some cmd := by
  simp [executes, hcall]

theorem not_admitted_asking {p q : Pubkey} {key : String} : ¬ Admitted settings q (asking settings p key) := by
  intro h
  exact (Admitted.next h).2.1 key rfl

omit [DecidableEq S] in
theorem executes_cut {s : S} {r : Request} {cmd : Cmd} {k : cmd.Ans → Act Answer}
    (hcall : st.calls s = some ⟨r, .op cmd k⟩) : executes (.cut s true) st = some cmd := by
  simp [executes, hcall]

theorem move_of_command {s : S} {outside : Outside} {r : Request} {rest : Act Answer}
    (hcall : st.calls s = some ⟨r, rest⟩) (hat : At lib settings r rest)
    (h : st.command s outside ⟨r, rest⟩ = some st') : Move lib settings st (.command s outside) st' := by
  cases hat with
  | setting p nonce =>
    cases h
    exact .set s p nonce _ hcall (executes_command hcall) (.issued p nonce)
  | issued p nonce => cases h
  | asking p rawEvent challenge hcheck =>
    cases h
    refine .take s p rawEvent challenge _ hcheck hcall (executes_command hcall) ?_ fun hadmitted => ?_
    · show At lib settings _ (if st.world.redis.live st.world.now (challengeKey challenge) = some p then _ else _)
      split_ifs
      · exact .admitted p rawEvent challenge hcheck .admitting
      · exact .ended _ _
    · change Admitted settings p
        (if st.world.redis.live st.world.now (challengeKey challenge) = some p then _ else _) at hadmitted
      split_ifs at hadmitted with howned
      · exact howned
      · cases hadmitted
  | admitted p rawEvent challenge hcheck hrest =>
    cases rest with
    | ret a => cases h
    | raise e => cases h
    | op cmd k =>
      cases h
      obtain ⟨hworld, -, hnext⟩ := hrest.next
      rw [hworld]
      refine .other s _ _ _ hcall ?_ fun q _ hq _ => ?_
      · rcases hnext (exec outside cmd st.world).1 with hadmitted | ⟨e, he⟩
        · exact .admitted p rawEvent challenge hcheck hadmitted
        · rw [he]
          exact .ended _ e
      · cases hq
        exact hrest
  | ended r e => cases h

theorem move_of_cut {s : S} {r : Request} {cmd : Cmd} {k : cmd.Ans → Act Answer}
    (hcall : st.calls s = some ⟨r, .op cmd k⟩) (hat : At lib settings r (.op cmd k)) :
    Move lib settings st (.cut s true)
      (st.goOn s (exec ⟨false, false, 0⟩ cmd st.world).2 r (.raise .cutOff)) := by
  have hcmd := executes_cut hcall
  generalize hrest : (.op cmd k : Act Answer) = rest at hat
  cases hat with
  | setting p nonce =>
    cases hrest
    exact .set s p nonce _ hcall hcmd (.ended _ _)
  | issued p nonce => cases hrest
  | asking p rawEvent challenge hcheck =>
    cases hrest
    exact .take s p rawEvent challenge _ hcheck hcall hcmd (.ended _ _) fun h => by cases h
  | admitted p rawEvent challenge hcheck hadmitted =>
    subst hrest
    obtain ⟨hworld, -⟩ := hadmitted.next
    rw [hworld]
    exact .other s _ _ _ hcall (.ended _ _) fun _ _ _ h => by cases h
  | ended r e => cases hrest

theorem move_of_step (hformed : Formed lib settings st) (h : step lib settings e st = some st') :
    Move lib settings st e st' := by
  cases e with
  | tick ms =>
    cases h
    exact .tick ms
  | request s r =>
    simp only [step] at h
    split_ifs at h with hsome
    cases h
    exact .request s r (Option.not_isSome_iff_eq_none.1 hsome)
  | command s outside =>
    obtain ⟨⟨r, rest⟩, hcall, h⟩ := Option.bind_eq_some_iff.1 h
    exact move_of_command hcall (hformed s _ hcall) h
  | cut s executed =>
    obtain ⟨⟨r, rest⟩, hcall, h⟩ := Option.bind_eq_some_iff.1 h
    cases rest with
    | ret a => cases h
    | raise e => cases h
    | op cmd k =>
      cases executed with
      | false =>
        cases h
        exact .other s r _ _ hcall (.ended r _) fun _ _ _ h => by cases h
      | true =>
        cases h
        exact move_of_cut hcall (hformed s _ hcall)

/-! ## Challenges are spent -/

omit [DecidableEq S] in
variable (lib settings) in
/-- A call has taken the challenge of a key, that was issued for the account. -/
def Holds (p : Pubkey) (key : String) (st : System S) (s : S) : Prop :=
  ∃ rawEvent rest challenge, st.calls s = some ⟨.verify p rawEvent, rest⟩ ∧ checkEvent lib p rawEvent = .ok challenge ∧
    challengeKey challenge = key ∧ Admitted settings p rest

variable (lib settings) in
/-- Of the `new` calls at most `n` have taken the challenge, and one less while it is there. -/
structure Spent (new : S → Prop) (p : Pubkey) (key : String) (n : ℕ) (st : System S) : Prop where
  formed : Formed lib settings st
  count : ∀ T : Finset S, (∀ s ∈ T, new s ∧ Holds lib settings p key st s) →
    T.card + (if st.world.redis.live st.world.now key = some p then 1 else 0) ≤ n

section
variable {s s' : S} {world : World} {r : Request} {rest : Act Answer} {new : S → Prop} {p : Pubkey} {key : String}
  {n : ℕ}

theorem Formed.goOn (h : Formed lib settings st) (hat : At lib settings r rest) :
    Formed lib settings (st.goOn s world r rest) := by
  intro s' c hc
  by_cases hs : s' = s
  · subst hs
    simp only [System.goOn, Function.update_self, Option.some.injEq] at hc
    subst hc
    exact hat
  · simp only [System.goOn, Function.update_of_ne hs] at hc
    exact h s' c hc

theorem Move.formed (hmove : Move lib settings st e st') (h : Formed lib settings st) : Formed lib settings st' := by
  cases hmove with
  | tick ms => exact h
  | request s r hnew => exact h.goOn (at_prog lib settings r)
  | set s p nonce rest hcall hcmd hat => exact h.goOn hat
  | take s p rawEvent challenge rest hcheck hcall hcmd hat howned => exact h.goOn hat
  | other s r rest rest' hcall hat hadmitted => exact h.goOn hat

theorem holds_goOn_of_ne (hs : s' ≠ s) :
    Holds lib settings p key (st.goOn s world r rest) s' ↔ Holds lib settings p key st s' := by
  simp only [Holds, System.goOn, Function.update_of_ne hs]

theorem holds_goOn_self (h : Holds lib settings p key (st.goOn s world r rest) s) :
    ∃ rawEvent challenge, r = .verify p rawEvent ∧ checkEvent lib p rawEvent = .ok challenge ∧
      challengeKey challenge = key ∧ Admitted settings p rest := by
  obtain ⟨rawEvent, rest', challenge, hcall, hcheck, hkey, hadmitted⟩ := h
  simp only [System.goOn, Function.update_self, Option.some.injEq, Call.mk.injEq] at hcall
  obtain ⟨rfl, rfl⟩ := hcall
  exact ⟨rawEvent, challenge, rfl, hcheck, hkey, hadmitted⟩

omit [DecidableEq S] in
theorem Spent.mono {n' : ℕ} (h : Spent lib settings new p key n st) (hn : n ≤ n') :
    Spent lib settings new p key n' st :=
  ⟨h.formed, fun T hT => (h.count T hT).trans hn⟩

omit [DecidableEq S] in
/-- Nobody has taken the challenge, and nobody has issued it. -/
theorem Spent.keep (h : Spent lib settings new p key n st) (hformed : Formed lib settings st')
    (hholds : ∀ s, Holds lib settings p key st' s → Holds lib settings p key st s)
    (hlive : st'.world.redis.live st'.world.now key = some p → st.world.redis.live st.world.now key = some p) :
    Spent lib settings new p key n st' where
  formed := hformed
  count := fun T hT => by
    have hcount := h.count T fun s hs => ⟨(hT s hs).1, hholds s (hT s hs).2⟩
    have hle : (if st'.world.redis.live st'.world.now key = some p then 1 else 0) ≤
        if st.world.redis.live st.world.now key = some p then 1 else 0 := by
      split_ifs with hnow hbefore
      · exact le_rfl
      · exact absurd (hlive hnow) hbefore
      · exact Nat.zero_le _
      · exact le_rfl
    exact (Nat.add_le_add_left hle _).trans hcount

/-- **What a move spends**: a challenge that is taken is gone, and counts for the call that took
    it. -/
theorem Move.spent (hmove : Move lib settings st e st') (h : Spent lib settings new p key n st) :
    Spent lib settings new p key (n + if issues p key e st then 1 else 0) st' := by
  have hformed := hmove.formed h.formed
  cases hmove with
  | tick ms =>
    refine (h.keep hformed (fun _ hs => hs) fun hlive => ?_).mono (Nat.le_add_right _ _)
    exact Expiring.live_of_le hlive (Nat.le_add_right _ _)
  | request s r hnew =>
    refine (h.keep hformed (fun s' hs' => ?_) id).mono (Nat.le_add_right _ _)
    by_cases hs : s' = s
    · subst hs
      obtain ⟨rawEvent, challenge, rfl, hcheck, -, hadmitted⟩ := holds_goOn_self hs'
      rw [prog_verify_ok hcheck] at hadmitted
      exact absurd hadmitted not_admitted_asking
    · exact (holds_goOn_of_ne hs).1 hs'
  | set s q nonce rest hcall hcmd hat =>
    have hholds : ∀ s', Holds lib settings p key (st.goOn s { st.world with
        redis := st.world.redis.set st.world.now (challengeKey nonce) q challengeTtlMs } (.challenge q nonce) rest) s' →
        Holds lib settings p key st s' := by
      intro s' hs'
      by_cases hs : s' = s
      · subst hs
        obtain ⟨_, _, hr, -⟩ := holds_goOn_self hs'
        cases hr
      · exact (holds_goOn_of_ne hs).1 hs'
    by_cases hissued : challengeKey nonce = key ∧ q = p
    · have hissues : issues p key e st = true := by simp [issues, hcmd, hissued]
      rw [hissues, if_pos rfl]
      refine ⟨hformed, fun T hT => ?_⟩
      have hcount := h.count T fun s hs => ⟨(hT s hs).1, hholds s (hT s hs).2⟩
      refine Nat.add_le_add ((Nat.le_add_right _ _).trans hcount) ?_
      split_ifs
      · exact le_rfl
      · exact Nat.zero_le _
    · refine (h.keep hformed hholds fun hlive => ?_).mono (Nat.le_add_right _ _)
      obtain ⟨expiry, hstored, hlt⟩ := Expiring.live_eq_some.1 hlive
      rcases Expiring.set_cases hstored with ⟨hkey, hnew⟩ | ⟨-, hold⟩
      · cases hnew
        exact absurd ⟨hkey.symm, rfl⟩ hissued
      · exact Expiring.live_eq_some.2 ⟨expiry, hold, hlt⟩
  | take s q rawEvent challenge rest hcheck hcall hcmd hat howned =>
    refine Spent.mono ?_ (Nat.le_add_right _ _)
    by_cases hkey : challengeKey challenge = key
    · subst hkey
      refine ⟨hformed, fun T hT => ?_⟩
      have hgone : (st.world.redis.take st.world.now (challengeKey challenge)).2.live st.world.now
          (challengeKey challenge) ≠ some p := by
        rw [Expiring.live_take_self]
        exact (Option.some_ne_none p).symm
      -- all but the call itself had taken it before
      have hcount := h.count (T.erase s) fun s' hs' => by
        obtain ⟨hne, hmem⟩ := Finset.mem_erase.1 hs'
        exact ⟨(hT s' hmem).1, (holds_goOn_of_ne hne).1 (hT s' hmem).2⟩
      show T.card + (if (st.world.redis.take st.world.now (challengeKey challenge)).2.live st.world.now
        (challengeKey challenge) = some p then 1 else 0) ≤ n
      rw [if_neg hgone]
      by_cases hs : s ∈ T
      · obtain ⟨_, _, hr, -, -, hadmitted⟩ := holds_goOn_self (hT s hs).2
        cases hr
        rw [if_pos (howned hadmitted), Finset.card_erase_of_mem hs] at hcount
        omega
      · rw [Finset.erase_eq_of_notMem hs] at hcount
        exact (Nat.le_add_right _ _).trans hcount
    · refine h.keep hformed (fun s' hs' => ?_) fun hlive => ?_
      · by_cases hs : s' = s
        · subst hs
          obtain ⟨_, challenge', hr, hcheck', hkey', -⟩ := holds_goOn_self hs'
          cases hr
          rw [hcheck] at hcheck'
          cases hcheck'
          exact absurd hkey' hkey
        · exact (holds_goOn_of_ne hs).1 hs'
      · have hsame : (st.world.redis.take st.world.now (challengeKey challenge)).2 key = st.world.redis key :=
          Expiring.take_of_ne (Ne.symm hkey)
        exact (Expiring.live_congr hsame).symm.trans hlive
  | other s r rest rest' hcall hat hadmitted =>
    refine (h.keep hformed (fun s' hs' => ?_) id).mono (Nat.le_add_right _ _)
    by_cases hs : s' = s
    · subst hs
      obtain ⟨rawEvent, challenge, rfl, hcheck, hkey, hrest⟩ := holds_goOn_self hs'
      exact ⟨rawEvent, rest, challenge, hcall, hcheck, hkey, hadmitted p rawEvent rfl hrest⟩
    · exact (holds_goOn_of_ne hs).1 hs'

end

omit [DecidableEq S] in
theorem formed_initial : Formed lib settings (.initial : System S) := fun s c h => by cases h

theorem Formed.run {es : List (Event S)} (h : Formed lib settings st)
    (hrun : Machine.run (step lib settings) es st = some st') : Formed lib settings st' :=
  Machine.run_inv (I := Formed lib settings) (P := fun _ => True)
    (fun _ h hstep => (move_of_step h hstep).formed h) (fun _ _ => trivial) h hrun

/-! ## The main results -/

variable {s : S} {p : Pubkey} {rawEvent : PyDict} {challenge key : String} {t : Token}

omit [DecidableEq S] in
/-- A call that is given a token has taken its challenge. -/
theorem Formed.minted (h : Formed lib settings st)
    (hcall : st.calls s = some ⟨.verify p rawEvent, .ret (.token t)⟩) : ∃ challenge,
    checkEvent lib p rawEvent = .ok challenge ∧ Admitted settings p (.ret (.token t)) := by
  have hat := h s _ hcall
  dsimp only at hat
  generalize hrest : (.ret (.token t) : Act Answer) = rest at hat
  cases hat with
  | asking p rawEvent challenge hcheck => cases hrest
  | admitted p rawEvent challenge hcheck hadmitted => exact ⟨challenge, hcheck, hadmitted⟩
  | ended r e => cases hrest

/-- **Every token was earned by one challenge.**  Of the calls that are made from some time on, no
    more are given a token by a challenge than times it is issued from then on, and one more if
    it is there already.  However they interleave, and wherever they are cut off. -/
theorem minted_le_issued {es₁ es₂ : List (Event S)} {st₁ st₂ : System S}
    (h₁ : Machine.run (step lib settings) es₁ .initial = some st₁)
    (h₂ : Machine.run (step lib settings) es₂ st₁ = some st₂) (T : Finset S)
    (hT : ∀ s ∈ T, st₁.calls s = none ∧ ∃ rawEvent challenge t,
      st₂.calls s = some ⟨.verify p rawEvent, .ret (.token t)⟩ ∧ checkEvent lib p rawEvent = .ok challenge ∧
      challengeKey challenge = key) :
    T.card ≤ (if st₁.world.redis.live st₁.world.now key = some p then 1 else 0) +
      Machine.tally (step lib settings) (issues p key) es₂ st₁ := by
  have hformed₁ := formed_initial.run h₁
  have hstart : Spent lib settings (st₁.calls · = none) p key
      (if st₁.world.redis.live st₁.world.now key = some p then 1 else 0) st₁ := by
    refine ⟨hformed₁, fun T hT => ?_⟩
    have hnone : T = ∅ := Finset.eq_empty_of_forall_notMem fun s hs => by
      obtain ⟨hnew, rawEvent, rest, challenge, hcall, -⟩ := hT s hs
      rw [hnew] at hcall
      cases hcall
    rw [hnone, Finset.card_empty, Nat.zero_add]
  have hend := Machine.tally_inv (I := fun n st => Spent lib settings (st₁.calls · = none) p key n st)
    (P := fun _ => True) (fun _ h hstep => (move_of_step h.formed hstep).spent h) (fun _ _ => trivial) hstart h₂
  refine (Nat.le_add_right _ _).trans (hend.count T fun s hs => ?_)
  obtain ⟨hnew, rawEvent, challenge, t, hcall, hcheck, hkey⟩ := hT s hs
  obtain ⟨-, -, hadmitted⟩ := hend.formed.minted hcall
  exact ⟨hnew, rawEvent, _, challenge, hcall, hcheck, hkey, hadmitted⟩

/-- A challenge stays where it is while nobody issues it again or presents it. -/
theorem Move.stored (hmove : Move lib settings st e st') (hleft : touches key e st = false) :
    st'.world.redis key = st.world.redis key := by
  cases hmove with
  | tick ms => rfl
  | request s r hnew => rfl
  | set s p nonce rest hcall hcmd hat =>
    rw [touches, hcmd] at hleft
    exact Expiring.set_of_ne (Ne.symm (of_decide_eq_false hleft))
  | take s p rawEvent challenge rest hcheck hcall hcmd hat howned =>
    rw [touches, hcmd] at hleft
    show (st.world.redis.take st.world.now (challengeKey challenge)).2 key = st.world.redis key
    exact Expiring.take_of_ne (Ne.symm (of_decide_eq_false hleft))
  | other s r rest rest' hcall hat hadmitted => rfl

theorem step_goOn {world world' : World} {r : Request} {outside : Outside} {cmd : Cmd} {k : cmd.Ans → Act Answer}
    {a : cmd.Ans} (h : exec outside cmd world = (a, world')) :
    step lib settings (.command s outside) (st.goOn s world r (.op cmd k)) = some (st.goOn s world' r (k a)) := by
  simp [step, System.goOn, System.command, h]

/-- A login that is admitted comes to its token, if he is known or the limit lets him pass. -/
theorem run_admitting {world : World} {r : Request} {outside : Outside}
    (hallowed : outside.nsecExists = true ∨ outside.allowed = true) :
    ∃ n, Machine.run (step lib settings) (List.replicate n (.command s outside))
      (st.goOn s world r (admitting settings p)) =
        some (st.goOn s world r (.ret (.token (generateAuthenticationToken settings p outside.sessionVersion)))) := by
  have hcreating : Machine.run (step lib settings) (List.replicate 2 (.command s outside))
      (st.goOn s world r (creating settings p)) =
        some (st.goOn s world r (.ret (.token (generateAuthenticationToken settings p outside.sessionVersion)))) :=
    Machine.run_cons.2 ⟨_, step_goOn rfl, Machine.run_cons.2 ⟨_, step_goOn rfl, rfl⟩⟩
  cases hknown : outside.nsecExists with
  | true =>
    have hexec : exec outside (.nsecExists p) world = (true, world) := by rw [exec, hknown]
    exact ⟨3, Machine.run_cons.2 ⟨_, step_goOn hexec, hcreating⟩⟩
  | false =>
    have hpass := hallowed.resolve_left (by simp [hknown])
    have hexec : exec outside (.nsecExists p) world = (false, world) := by rw [exec, hknown]
    have hlimit : exec outside .rateLimitLoginNewObserver world = (true, world) := by rw [exec, hpass]
    exact ⟨4, Machine.run_cons.2 ⟨_, step_goOn hexec, Machine.run_cons.2 ⟨_, step_goOn hlimit, hcreating⟩⟩⟩

/-- Every event verifies, as a login of Alice. -/
def sampleLib : Lib := ⟨fun _ => some ⟨loginKind, "alice", true⟩, fun _ => ""⟩

def sampleSettings : Settings := ⟨true, ["bob"]⟩

/-- The event that answers a challenge. -/
def loginEvent (nonce : String) : PyDict :=
  [("tags", .list [.list [.str "t", .str "brainstorm_login"], .list [.str "challenge", .str nonce]])]

/-- The account has a row. -/
def known : Outside := ⟨true, false, 0⟩

/-- Alice asks for a challenge. -/
def asked : List (Event ℕ) := [.request 0 (.challenge "alice" "c0ffee"), .command 0 known]

/-- Her event is presented twice at a time. -/
def presentedTwice : List (Event ℕ) :=
  [.request 1 (.verify "alice" (loginEvent "c0ffee")), .request 2 (.verify "alice" (loginEvent "c0ffee")),
    .command 1 known, .command 2 known, .command 1 known, .command 1 known, .command 1 known]

/-- Others ask for a challenge, and answer one that there is not. -/
def elsewhere : List (Event ℕ) :=
  [.tick 299999, .request 1 (.challenge "mallory" "f00d"), .command 1 known,
    .request 2 (.verify "alice" (loginEvent "beef")), .command 2 known]

/-- One of the two is given a token. -/
theorem minted_once : ∃ st₁ st₂ : System ℕ,
    Machine.run (step sampleLib sampleSettings) asked .initial = some st₁ ∧
    Machine.run (step sampleLib sampleSettings) presentedTwice st₁ = some st₂ ∧
    st₂.calls 2 = some ⟨.verify "alice" (loginEvent "c0ffee"), .raise (.unauthorized "No challenge found or expired")⟩ ∧
    st₂.calls 1 = some ⟨.verify "alice" (loginEvent "c0ffee"), .ret (.token ⟨"alice", false, 0⟩)⟩ ∧
    ({1} : Finset ℕ).card ≤
      (if st₁.world.redis.live st₁.world.now (challengeKey "c0ffee") = some "alice" then 1 else 0) +
        Machine.tally (step sampleLib sampleSettings) (issues "alice" (challengeKey "c0ffee")) presentedTwice st₁ := by
  have hruns : ∃ st₁ st₂ : System ℕ,
      Machine.run (step sampleLib sampleSettings) asked .initial = some st₁ ∧ st₁.calls 1 = none ∧
      Machine.run (step sampleLib sampleSettings) presentedTwice st₁ = some st₂ ∧
      st₂.calls 2 = some ⟨.verify "alice" (loginEvent "c0ffee"),
        .raise (.unauthorized "No challenge found or expired")⟩ ∧
      st₂.calls 1 = some ⟨.verify "alice" (loginEvent "c0ffee"), .ret (.token ⟨"alice", false, 0⟩)⟩ :=
    ⟨_, _, rfl, rfl, rfl, rfl, rfl⟩
  obtain ⟨st₁, st₂, h₁, hnew, h₂, htwo, hone⟩ := hruns
  refine ⟨st₁, st₂, h₁, h₂, htwo, hone, minted_le_issued h₁ h₂ {1} fun s hs => ?_⟩
  obtain rfl := Finset.mem_singleton.1 hs
  exact ⟨hnew, _, "c0ffee", _, hone, rfl, rfl⟩

end

end Login

end BrainstormServer
