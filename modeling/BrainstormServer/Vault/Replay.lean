/-
  What an open spends.

  A challenge is good for `challengeTtlSeconds` by the clock of the replica that
  checks it, and its marker stands for another minute in Redis.  An open checks the
  challenge before it sets the marker; a replay succeeds only where the marker of the
  first open has run out between its own check and its own `SET NX`.

  * `OpenHistory`: the commands of an open, one after the other;
  * `marker_stays`: a marker that was set stands until its time is over;
  * `Prompt`: no open lets 55 seconds pass between its check and its `SET NX`;
  * `opens_single_use`: prompt opens accept a challenge once, and the counts of
    successful opens are zeros, then strictly increasing;
  * `challenge_spent_twice`: an open that stalls, and counts 0, 0, 5.
-/
import BrainstormServer.Conc.Log
import BrainstormServer.Vault.Owner
import Mathlib.Data.Fintype.Basic
import Mathlib.Tactic.FinCases

namespace BrainstormServer

namespace Vault

open Conc Prog

section
variable (lib : Lib) (settings : Settings)

/-- The bytes of the challenge an assertion is made over. -/
def challengeBytes (args : OpenArgs) : Option Bytes :=
  match readClientData lib args.clientDataJson (allowedOrigins lib settings) with
  | .ok clientData => (b64urlDecode clientData.challenge).toOption
  | .error _ => none

/-- The count an assertion reports. -/
def reportedCount (args : OpenArgs) : Option ℕ :=
  (b64urlDecode args.authenticatorData).toOption.map fun authData =>
    fromBytes ((authData.drop 33).take 4)

/-- The nonce of a challenge, and the time it was issued at. -/
def nonceOf (raw : Bytes) : Bytes := raw.take nonceBytes
def issuedOf (raw : Bytes) : ℕ := fromBytes ((raw.drop nonceBytes).take 8)

/-- The commands of an open: the row, the clock twice, the marker, the row again. -/
inductive OpenHistory (args : OpenArgs) : History Cmd.Ans → Cmd → Prop
  | select : OpenHistory args [] (.selectByHash args.pathHash)
  | check {row : Option VaultRow} :
      OpenHistory args [⟨.selectByHash args.pathHash, row⟩] .time
  | recheck {row : Option VaultRow} {t : ℚ} :
      OpenHistory args [⟨.selectByHash args.pathHash, row⟩, ⟨.time, t⟩] .time
  | spend {row : Option VaultRow} {t t' : ℚ} {raw : Bytes} :
      challengeBytes lib settings args = some raw → unexpired (t' - issuedOf raw) = true →
      OpenHistory args [⟨.selectByHash args.pathHash, row⟩, ⟨.time, t⟩, ⟨.time, t'⟩]
        (.setUsed (usedKeyPrefix ++ hex (nonceOf raw)))
  | mark {row : Option VaultRow} {t t' : ℚ} {key : String} {signCount : ℕ} :
      reportedCount args = some signCount →
      OpenHistory args [⟨.selectByHash args.pathHash, row⟩, ⟨.time, t⟩, ⟨.time, t'⟩,
        ⟨.setUsed key, true⟩] (.markUsed args.pathHash signCount)

/-- A command that neither sets a marker nor marks a row. -/
def sparing : Cmd → Bool
  | .setUsed _ => false
  | .markUsed _ _ => false
  | _ => true

/-- What a call does after its own history: an open as above, the others neither spend
    nor mark anything. -/
def Call.next (call : Call) (h : History Cmd.Ans) (c : Cmd) : Prop :=
  match call with
  | .openVault args => OpenHistory lib settings args h c
  | _ => sparing c = true

/-- The last command was not one that marked a row. -/
def Unmarked (h : History Cmd.Ans) : Prop :=
  ∀ h' hash signCount, h ≠ h' ++ [⟨.markUsed hash signCount, true⟩]

/-- How a call ends: an open that succeeds has marked the row, one that fails has not. -/
def Call.ended (call : Call) : Except VaultExn Result → History Cmd.Ans → Prop
  | .ok _, h => ∀ args, call = .openVault args → ∃ row t t' key signCount,
      h = [⟨.selectByHash args.pathHash, row⟩, ⟨.time, t⟩, ⟨.time, t'⟩, ⟨.setUsed key, true⟩,
        ⟨.markUsed args.pathHash signCount, true⟩]
  | .error _, h => Unmarked h

end

section
variable {lib : Lib} {settings : Settings}

/-! ## The history of an open -/

theorem splitChallenge_ok {challenge : String} {x : Bytes × ℕ}
    (h : splitChallenge lib settings challenge = .ok x) :
    ∃ raw, b64urlDecode challenge = .ok raw ∧ x = (nonceOf raw, issuedOf raw) := by
  obtain ⟨raw, hraw, h⟩ := bind_ok h
  obtain ⟨-, h⟩ := check_ok h
  obtain ⟨-, h⟩ := check_ok h
  cases h
  exact ⟨raw, hraw, rfl⟩

theorem readClientData_challengeBytes {args : OpenArgs} {clientData : ClientData} {raw : Bytes}
    (hc : readClientData lib args.clientDataJson (allowedOrigins lib settings) = .ok clientData)
    (hraw : b64urlDecode clientData.challenge = .ok raw) :
    challengeBytes lib settings args = some raw := by
  simp [challengeBytes, hc, hraw, Except.toOption]

theorem checkAuthenticator_ok {clientData : ClientData} {args : OpenArgs} {publicKey : String} {alg : ℤ}
    {verified : VerifiedAssertion}
    (h : checkAuthenticator lib clientData args.authenticatorData args.signature publicKey alg = .ok verified) :
    verified.challenge = clientData.challenge ∧ reportedCount args = some verified.signCount := by
  obtain ⟨authData, hauth, h⟩ := bind_ok h
  obtain ⟨-, h⟩ := check_ok h
  split at h
  · cases h
  obtain ⟨-, h⟩ := check_ok h
  obtain ⟨-, h⟩ := check_ok h
  obtain ⟨_, -, h⟩ := bind_ok h
  obtain ⟨_, -, h⟩ := bind_ok h
  obtain ⟨_, -, h⟩ := bind_ok h
  cases h
  exact ⟨rfl, by simp [reportedCount, hauth, Except.toOption]⟩

section
variable {α β : Type} {spec : History Cmd.Ans → Cmd → Prop} {Q : Except VaultExn β → History Cmd.Ans → Prop}
  {h : History Cmd.Ans}

/-- A computation that needs no command, and what comes after it. -/
theorem obeys_purely {x : Except VaultExn α} {f : α → VaultProg β} (herror : ∀ e, Q (.error e) h)
    (hf : ∀ a, x = .ok a → (f a).Obeys spec Q h) : ((purely x).bind f).Obeys spec Q h := by
  cases x with
  | ok a => exact hf a rfl
  | error e => exact herror e

theorem obeys_await {c : Cmd} {f : c.Ans → VaultProg β} (hc : spec h c)
    (hf : ∀ a, (f a).Obeys spec Q (h ++ [⟨c, a⟩])) : ((await c).bind f).Obeys spec Q h := ⟨hc, hf⟩

/-- A check reads the clock, and lets pass what is not expired. -/
theorem obeys_checkChallenge {challenge : String} {f : Bytes → VaultProg β}
    (htime : spec h .time) (herror : ∀ e, Q (.error e) h)
    (herror' : ∀ e t, Q (.error e) (h ++ [⟨.time, t⟩]))
    (hf : ∀ raw t, b64urlDecode challenge = .ok raw → unexpired (t - issuedOf raw) = true →
      (f (nonceOf raw)).Obeys spec Q (h ++ [⟨.time, t⟩])) :
    ((checkChallenge lib settings challenge).bind f).Obeys spec Q h := by
  refine obeys_bind.2 (obeys_purely herror fun x hx => ?_)
  obtain ⟨raw, hraw, rfl⟩ := splitChallenge_ok hx
  refine obeys_await htime fun t => ?_
  split_ifs with hage
  · exact hf raw t hraw hage
  · exact herror' _ t

end

theorem unmarked_nil : Unmarked [] := by
  intro h' hash signCount h
  simp at h

theorem unmarked_append {h : History Cmd.Ans} {c : Cmd} {a : c.Ans}
    (hc : ∀ hash signCount, (⟨c, a⟩ : Σ c, Cmd.Ans c) ≠ ⟨.markUsed hash signCount, true⟩) :
    Unmarked (h ++ [⟨c, a⟩]) := by
  intro h' hash signCount heq
  obtain ⟨-, hlast⟩ := List.append_inj' heq rfl
  exact hc hash signCount (List.singleton_inj.1 hlast)

/-- The commands of an open, in order, and how it ends. -/
theorem openVault_obeys (args : OpenArgs) :
    (openVault lib settings args).Obeys (OpenHistory lib settings args)
      (fun r h => (Call.openVault args).ended (r.map .blob) h) [] := by
  have hfail : ∀ e h, Unmarked h → (refused e).Obeys (OpenHistory lib settings args)
      (fun r h => (Call.openVault args).ended (r.map .blob) h) h := by
    intro e h hun
    cases e with
    | assertionInvalid reason => exact hun
    | _ => exact hun
  have htime : ∀ h t, Unmarked (h ++ [⟨.time, t⟩]) := fun h t => unmarked_append (by simp)
  refine obeys_tryCatch.2 (obeys_purely (fun e => hfail e _ unmarked_nil) fun hash _ => ?_)
  split_ifs
  · exact hfail _ _ unmarked_nil
  refine obeys_await .select fun row => ?_
  have hrow : Unmarked ([] ++ [⟨.selectByHash args.pathHash, row⟩]) := unmarked_append (by simp)
  cases row with
  | none => exact hfail _ _ hrow
  | some row =>
    refine obeys_bind.2 (obeys_purely (fun e => hfail e _ hrow) fun clientData hclient => ?_)
    refine obeys_checkChallenge .check (fun e => hfail e _ hrow) (fun e t => hfail e _ (htime _ t))
      fun raw t hraw _ => ?_
    cases hver : checkAuthenticator lib clientData args.authenticatorData args.signature
        row.credentialPublicKey row.alg with
    | error e => exact hfail e _ (htime _ t)
    | ok verified =>
      obtain ⟨hchallenge, hcount⟩ := checkAuthenticator_ok hver
      show Obeys _ (ite _ _ _) _ _
      split_ifs
      · exact hfail _ _ (htime _ t)
      refine obeys_checkChallenge .recheck (fun e => hfail e _ (htime _ t))
        (fun e t' => hfail e _ (htime _ t')) fun raw' t' hraw' hage => ?_
      rw [hchallenge] at hraw'
      refine obeys_bind.2 (obeys_await (.spend (readClientData_challengeBytes hclient hraw') hage)
        fun spent => ?_)
      cases spent with
      | false => exact hfail _ _ (unmarked_append (by simp))
      | true =>
        refine obeys_await (.mark hcount) fun marked => ?_
        cases marked with
        | false => exact hfail _ _ (unmarked_append (by simp))
        | true =>
          intro args' hargs
          cases hargs
          exact ⟨_, t, t', _, _, rfl⟩

/-- A call that is no open ends unmarked. -/
theorem obeys_of_sparing {call : Call} {p : VaultProg Result} (hcall : ∀ args, call ≠ .openVault args)
    (hp : p.Uses fun c => sparing c = true) :
    p.Obeys (call.next lib settings) call.ended [] := by
  refine (hp.obeys (I := Unmarked) ?_ ?_ unmarked_nil).mono fun r h hun => ?_
  · intro h c hc _
    cases call with
    | openVault args => exact absurd rfl (hcall args)
    | _ => exact hc
  · intro h c a hc _
    refine unmarked_append fun hash signCount heq => ?_
    cases c with
    | markUsed hash' signCount' => cases hc
    | _ => simp at heq
  · cases r with
    | error e => exact hun
    | ok result => exact fun args hargs => absurd hargs (hcall args)

/-- Every call goes on as it may and ends as it should. -/
theorem Call.prog_obeys (call : Call) :
    (call.prog lib settings).Obeys (call.next lib settings) call.ended [] := by
  cases call with
  | issueChallenge nonce => exact obeys_of_sparing (by simp) ⟨rfl, fun _ => trivial⟩
  | storeVault args =>
    have huses : (Vault.storeVault lib args).Uses fun c => sparing c = true :=
      storeVault_uses args fun _ _ _ => rfl
    exact obeys_of_sparing (by simp) (huses.bind fun _ => trivial)
  | deleteVault callerPubkey pathHash =>
    exact obeys_of_sparing (by simp) ⟨rfl, fun _ => trivial⟩
  | openVault args =>
    refine obeys_bind.2 ((openVault_obeys args).mono fun r h hend => ?_)
    cases r with
    | error e => exact hend
    | ok blob => exact hend

/-- Only an open spends and marks. -/
theorem open_of_next {call : Call} {h : History Cmd.Ans} {c : Cmd} (hc : sparing c = false)
    (hnext : call.next lib settings h c) :
    ∃ args, call = .openVault args ∧ OpenHistory lib settings args h c := by
  cases call with
  | openVault args => exact ⟨args, rfl, hnext⟩
  | _ =>
    have hsparing : sparing c = true := hnext
    rw [hc] at hsparing
    cases hsparing

theorem OpenHistory.length_le {args : OpenArgs} {h : History Cmd.Ans} {c : Cmd}
    (hopen : OpenHistory lib settings args h c) : h.length ≤ 4 := by
  cases hopen with
  | select => simp
  | check => simp
  | recheck => simp
  | spend => simp
  | mark => simp

/-! ## Markers and rows -/

/-- A command leaves the time, and the markers unless it sets one. -/
theorem answer_frame (st : Store) (clock : ℚ) (c : Cmd) :
    (answer st clock c).2.now = st.now ∧
      ((∀ key, c ≠ .setUsed key) → (answer st clock c).2.used = st.used) := by
  cases c with
  | setUsed key => exact ⟨rfl, fun h => absurd rfl (h key)⟩
  | upsert values =>
    simp only [answer]
    split
    · exact ⟨rfl, fun _ => rfl⟩
    · exact ⟨rfl, fun _ => rfl⟩
  | markUsed hash signCount =>
    simp only [answer]
    split
    · exact ⟨rfl, fun _ => rfl⟩
    · exact ⟨rfl, fun _ => rfl⟩
  | delete hash pubkey =>
    simp only [answer]
    split
    · exact ⟨rfl, fun _ => rfl⟩
    · exact ⟨rfl, fun _ => rfl⟩
  | _ => exact ⟨rfl, fun _ => rfl⟩

/-- **What a command does to a marker**: nothing, unless it sets one that is not there. -/
theorem answer_used (st : Store) (clock : ℚ) (c : Cmd) (key : String) :
    (answer st clock c).2.used key = st.used key ∨
      st.used.live st.now key = none ∧
        (answer st clock c).2.used key = some ("1", st.now + (challengeTtlSeconds + 60)) := by
  by_cases hset : ∃ key', c = .setUsed key'
  · obtain ⟨key', rfl⟩ := hset
    cases hset : st.used.setNx st.now key' "1" (challengeTtlSeconds + 60) with
    | mk written used =>
      cases written with
      | false =>
        obtain ⟨-, rfl⟩ := Expiring.setNx_false hset
        exact Or.inl (by simp [answer, hset])
      | true =>
        obtain ⟨hlive, rfl⟩ := Expiring.setNx_true hset
        by_cases hkey : key = key'
        · subst hkey
          exact Or.inr ⟨hlive, by simp [answer, hset, Expiring.set_self]⟩
        · exact Or.inl (by simp [answer, hset, Expiring.set_of_ne hkey])
  · rw [(answer_frame st clock c).2 fun key' hkey' => hset ⟨key', hkey'⟩]
    exact Or.inl rfl

/-- A `SET NX` that succeeds finds no marker and leaves one. -/
theorem setUsed_true {st : Store} {clock : ℚ} {key : String}
    (h : (answer st clock (.setUsed key)).1 = true) :
    st.used.live st.now key = none ∧
      (answer st clock (.setUsed key)).2.used key =
        some ("1", st.now + (challengeTtlSeconds + 60)) := by
  cases hset : st.used.setNx st.now key "1" (challengeTtlSeconds + 60) with
  | mk written used =>
    simp only [answer, hset] at h ⊢
    subst h
    obtain ⟨hlive, rfl⟩ := Expiring.setNx_true hset
    exact ⟨hlive, Expiring.set_self⟩

/-! ## Logs -/

section
variable {S : Type} {e : Entry Cmd.Ans S Store} {ω : Outside}

/-- The command of an entry was executed at the time of the state after it. -/
theorem entry_now (h : exec e.session e.cmd e.before ω = some (e.ans, e.after)) :
    e.after.now = ω.now ∧ e.before.now ≤ e.after.now := by
  obtain ⟨hle, -⟩ := exec_eq_some h
  have hnow : e.after.now = ω.now := by
    rw [entry_answer h]
    exact (answer_frame ..).1
  exact ⟨hnow, hnow ▸ hle⟩

/-- A marker is set where there is none. -/
theorem entry_setUsed {key : String} (h : e.Executed exec)
    (he : (⟨e.cmd, e.ans⟩ : Σ c, Cmd.Ans c) = ⟨.setUsed key, true⟩) :
    e.before.used.live e.after.now key = none ∧
      e.after.used key = some ("1", e.after.now + 180) := by
  obtain ⟨s, before, cmd, ans, after⟩ := e
  cases he
  obtain ⟨ω, hexec⟩ := h
  obtain ⟨-, hr⟩ := exec_eq_some hexec
  have hnow : after.now = ω.now := (entry_now hexec).1
  have hans : (answer { before with now := ω.now } ω.clock (.setUsed key)).1 = true := by rw [← hr]
  have hafter : after = (answer { before with now := ω.now } ω.clock (.setUsed key)).2 := by rw [← hr]
  obtain ⟨hlive, hset⟩ := setUsed_true hans
  rw [← hafter] at hset
  dsimp only at hlive hset ⊢
  rw [hnow]
  refine ⟨hlive, hset.trans ?_⟩
  norm_num [challengeTtlSeconds]

/-- Time does not run back. -/
theorem trace_now {st st' : Store} {l : List (Entry Cmd.Ans S Store)} (h : Trace exec st l st') :
    st.now ≤ st'.now := by
  refine h.inv (I := fun st' => st.now ≤ st'.now) ?_ le_rfl
  intro e _ ω hexec hI
  exact hI.trans (entry_now hexec).2

/-- A marker that was set stands at least until its time is over. -/
theorem marker_stays {st st' : Store} {l : List (Entry Cmd.Ans S Store)} {key v : String} {gone : ℚ}
    (h : Trace exec st l st') (hset : st.used key = some (v, gone)) :
    ∃ v' gone', st'.used key = some (v', gone') ∧ gone ≤ gone' := by
  refine h.inv (I := fun st => ∃ v' gone', st.used key = some (v', gone') ∧ gone ≤ gone') ?_
    ⟨v, gone, hset, le_rfl⟩
  rintro e - ω hexec ⟨v', gone', hused, hle⟩
  rw [entry_answer hexec]
  rcases answer_used { e.before with now := ω.now } ω.clock e.cmd key with hsame | ⟨hlive, hnew⟩
  · exact ⟨v', gone', hsame.trans hused, hle⟩
  · refine ⟨_, _, hnew, hle.trans ?_⟩
    -- it was set again: the old marker had run out
    have hover : ¬ ω.now < gone' := by
      intro hlt
      have hlive' := Expiring.live_eq_some.2 ⟨gone', hused, hlt⟩
      rw [hlive] at hlive'
      cases hlive'
    unfold challengeTtlSeconds
    dsimp only
    linarith [not_lt.1 hover]

end

/-- What a log says of a reading of the clock. -/
def readingOf {S : Type} : Entry Cmd.Ans S Store → Option ℚ
  | ⟨_, _, .time, reading, _⟩ => some reading
  | _ => none

/-- Any two clocks differ by no more than is allowed for: the distances of two
    readings from the time do. -/
def ClocksAgree {S : Type} (log : List (Entry Cmd.Ans S Store)) : Prop :=
  ∀ e ∈ log, ∀ e' ∈ log, ∀ r ∈ readingOf e, ∀ r' ∈ readingOf e',
    (r - e.after.now) - (r' - e'.after.now) ≤ clockSkewSeconds

instance {S : Type} (log : List (Entry Cmd.Ans S Store)) : Decidable (ClocksAgree log) :=
  inferInstanceAs (Decidable (∀ e ∈ log, ∀ e' ∈ log, ∀ r ∈ readingOf e, ∀ r' ∈ readingOf e',
    (r - e.after.now) - (r' - e'.after.now) ≤ clockSkewSeconds))

/-- The challenge a call presents, and the nonce of the one it issues. -/
def Call.presents (lib : Lib) (settings : Settings) : Call → Option Bytes
  | .openVault args => challengeBytes lib settings args
  | _ => none

def Call.issues : Call → Option Bytes
  | .issueChallenge nonce => some nonce
  | _ => none

section
variable {S : Type} (presents issues : S → Option Bytes)

/-- If the clock is asked for a challenge, so that it has passed the HMAC, it was
    issued in the past, in the second of a clock that was read for it. -/
def IssuedIn (past : List (Entry Cmd.Ans S Store)) (c : Entry Cmd.Ans S Store) : Prop :=
  (readingOf c).isSome → ∀ raw ∈ presents c.session,
    ∃ e ∈ past, issues e.session = some (nonceOf raw) ∧
      (readingOf e).map Int.floor = some (issuedOf raw : ℤ)

/-- No challenge is forged. -/
def Unforged (log : List (Entry Cmd.Ans S Store)) : Prop :=
  ∀ i < log.length, ∀ c ∈ log[i]?, IssuedIn presents issues (log.take i) c

instance (past : List (Entry Cmd.Ans S Store)) (c : Entry Cmd.Ans S Store) :
    Decidable (IssuedIn presents issues past c) :=
  inferInstanceAs (Decidable ((readingOf c).isSome → ∀ raw ∈ presents c.session,
    ∃ e ∈ past, issues e.session = some (nonceOf raw) ∧
      (readingOf e).map Int.floor = some (issuedOf raw : ℤ)))

instance (log : List (Entry Cmd.Ans S Store)) : Decidable (Unforged presents issues log) :=
  inferInstanceAs (Decidable (∀ i < log.length, ∀ c ∈ log[i]?, IssuedIn presents issues (log.take i) c))

end

/-- What a call has returned. -/
def returned : VaultProg Result → Option Result
  | .ret result => some result
  | _ => none

section
variable {S : Type} [DecidableEq S]

/-- Between the last look at the clock and the `SET NX` of one call less than 55
    seconds pass. -/
def Prompt (log : List (Entry Cmd.Ans S Store)) : Prop :=
  ∀ l₁ c l₂ e l₃, log = l₁ ++ c :: (l₂ ++ e :: l₃) → c.session = e.session →
    (readingOf c).isSome → (∃ key, e.cmd = .setUsed key) → own e.session l₂ = [] →
    e.after.now < c.after.now + 55

variable {calls : S → Call} {now : ℚ} {schedule : List (S × Outside)}
  {cfg : Config Cmd.Ans VaultExn Result S Store}

theorem run_next (h : (initial lib settings calls now).run exec schedule = some cfg)
    {l l' : List (Entry Cmd.Ans S Store)} {e : Entry Cmd.Ans S Store} (hl : cfg.log = l ++ e :: l') :
    (calls e.session).next lib settings (own e.session l) e.cmd :=
  Config.run_obeys (fun s => (calls s).next lib settings) (fun s => (calls s).ended) rfl
    (fun s => Call.prog_obeys (calls s)) h hl

theorem run_prog (h : (initial lib settings calls now).run exec schedule = some cfg) (s : S) :
    (cfg.prog s).Obeys ((calls s).next lib settings) (calls s).ended (own s cfg.log) :=
  (Config.run_obeys_from (fun s => (calls s).next lib settings) (fun s => (calls s).ended)
    (fun s => Call.prog_obeys (calls s)) h).1 s

/-- A log is in the order of time. -/
theorem log_order (h : (initial lib settings calls now).run exec schedule = some cfg)
    {l₁ l₂ l₃ : List (Entry Cmd.Ans S Store)} {e e' : Entry Cmd.Ans S Store}
    (hl : cfg.log = l₁ ++ e :: (l₂ ++ e' :: l₃)) : e.after.now ≤ e'.after.now := by
  have htrace := run_log_trace h
  rw [hl] at htrace
  obtain ⟨-, -, hafter⟩ := htrace.split_cons
  obtain ⟨hmid, ⟨ω, hexec⟩, -⟩ := hafter.split_cons
  exact (trace_now hmid).trans (entry_now hexec).2

/-- A marker is set for a challenge that was good a moment ago. -/
theorem spend_source (h : (initial lib settings calls now).run exec schedule = some cfg)
    {l l' : List (Entry Cmd.Ans S Store)} {e : Entry Cmd.Ans S Store} {key : String}
    (hl : cfg.log = l ++ e :: l') (hkey : e.cmd = .setUsed key) :
    ∃ args raw l₁ c l₂ t, calls e.session = .openVault args ∧
      challengeBytes lib settings args = some raw ∧ key = usedKeyPrefix ++ hex (nonceOf raw) ∧
      l = l₁ ++ c :: l₂ ∧ c.session = e.session ∧ readingOf c = some t ∧ own e.session l₂ = [] ∧
      unexpired (t - issuedOf raw) = true := by
  have hnext := run_next h hl
  rw [hkey] at hnext
  obtain ⟨args, hcall, hopen⟩ := open_of_next rfl hnext
  generalize hh : own e.session l = hist at hopen
  cases hopen with
  | @spend row t t' raw hraw hage =>
    have hsplit : own e.session l =
        [⟨.selectByHash args.pathHash, row⟩, ⟨.time, t⟩] ++ ⟨.time, t'⟩ :: [] := hh
    obtain ⟨l₁, c, l₂, rfl, hs, hc, -, hl₂⟩ := own_split hsplit
    obtain ⟨s, before, cmd, ans, after⟩ := c
    cases hc
    exact ⟨args, raw, l₁, _, l₂, _, hcall, hraw, rfl, rfl, hs, rfl, hl₂, hage⟩

/-- The whole history of a successful open. -/
theorem open_history (h : (initial lib settings calls now).run exec schedule = some cfg) {s : S}
    {args : OpenArgs} {result : Result} (hcall : calls s = .openVault args)
    (hret : returned (cfg.prog s) = some result) :
    ∃ row t t' key signCount, own s cfg.log = [⟨.selectByHash args.pathHash, row⟩, ⟨.time, t⟩,
      ⟨.time, t'⟩, ⟨.setUsed key, true⟩, ⟨.markUsed args.pathHash signCount, true⟩] := by
  have hend := run_prog h s
  cases hprog : cfg.prog s with
  | ret r =>
    rw [hprog] at hend
    exact hend args hcall
  | raise e =>
    rw [hprog] at hret
    cases hret
  | op c k =>
    rw [hprog] at hret
    cases hret

/-- A successful open has set its marker. -/
theorem open_spends (h : (initial lib settings calls now).run exec schedule = some cfg) {s : S}
    {args : OpenArgs} {result : Result} (hcall : calls s = .openVault args)
    (hret : returned (cfg.prog s) = some result) :
    ∃ l e l' key, cfg.log = l ++ e :: l' ∧ e.session = s ∧
      (⟨e.cmd, e.ans⟩ : Σ c, Cmd.Ans c) = ⟨.setUsed key, true⟩ := by
  obtain ⟨row, t, t', key, signCount, hown⟩ := open_history h hcall hret
  have hsplit : own s cfg.log =
      [⟨.selectByHash args.pathHash, row⟩, ⟨.time, t⟩, ⟨.time, t'⟩] ++
        ⟨.setUsed key, true⟩ :: [⟨.markUsed args.pathHash signCount, true⟩] := hown
  obtain ⟨l, e, l', hl, hs, he, -, -⟩ := own_split hsplit
  exact ⟨l, e, l', key, hl, hs, he⟩

/-- Of two calls that set the same marker the later one has let the time of the first
    marker pass. -/
theorem respend_late (h : (initial lib settings calls now).run exec schedule = some cfg)
    {l₁ l₂ l₃ : List (Entry Cmd.Ans S Store)} {e e' : Entry Cmd.Ans S Store} {key : String}
    (hl : cfg.log = l₁ ++ e :: (l₂ ++ e' :: l₃))
    (he : (⟨e.cmd, e.ans⟩ : Σ c, Cmd.Ans c) = ⟨.setUsed key, true⟩)
    (he' : (⟨e'.cmd, e'.ans⟩ : Σ c, Cmd.Ans c) = ⟨.setUsed key, true⟩) :
    e.after.now + 180 ≤ e'.after.now := by
  have htrace := run_log_trace h
  rw [hl] at htrace
  obtain ⟨-, hexec, hafter⟩ := htrace.split_cons
  obtain ⟨hmid, hexec', -⟩ := hafter.split_cons
  obtain ⟨-, hset⟩ := entry_setUsed hexec he
  obtain ⟨hlive, -⟩ := entry_setUsed hexec' he'
  obtain ⟨v, gone, hused, hle⟩ := marker_stays hmid hset
  by_contra hlt
  have hlive' := Expiring.live_eq_some.2 ⟨gone, hused, show e'.after.now < gone by linarith⟩
  rw [hlive] at hlive'
  cases hlive'

/-- A challenge was issued before it is checked, no later than the clock of its issuer
    says. -/
theorem issued_before (h : (initial lib settings calls now).run exec schedule = some cfg)
    (hunforged : Unforged (fun s => (calls s).presents lib settings) (fun s => (calls s).issues) cfg.log)
    {l l' : List (Entry Cmd.Ans S Store)}
    {c : Entry Cmd.Ans S Store} {args : OpenArgs} {raw : Bytes} (hl : cfg.log = l ++ c :: l')
    (hread : (readingOf c).isSome) (hcall : calls c.session = .openVault args)
    (hraw : challengeBytes lib settings args = some raw) :
    ∃ i ∈ cfg.log, ∃ r, readingOf i = some r ∧ (issuedOf raw : ℚ) ≤ r ∧ i.after.now ≤ c.after.now := by
  have hpresents : (calls c.session).presents lib settings = some raw := by
    rw [hcall]
    exact hraw
  obtain ⟨i, hi, -, hfloor⟩ := hunforged l.length (by rw [hl]; simp) c (by rw [hl]; simp) hread raw
    hpresents
  obtain ⟨r, hr, hissued⟩ := Option.map_eq_some_iff.1 hfloor
  rw [hl, List.take_left'] at hi
  · refine ⟨i, by rw [hl]; simp [hi], r, hr, ?_, ?_⟩
    · have hfloor := Int.floor_le r
      rw [hissued] at hfloor
      exact_mod_cast hfloor
    · obtain ⟨m₁, m₂, rfl⟩ := List.append_of_mem hi
      rw [List.append_assoc, List.cons_append] at hl
      exact log_order h hl
  · rfl

/-- A prompt open does not accept a challenge that was spent before. -/
theorem no_respend (h : (initial lib settings calls now).run exec schedule = some cfg)
    (hclocks : ClocksAgree cfg.log)
    (hunforged : Unforged (fun s => (calls s).presents lib settings) (fun s => (calls s).issues) cfg.log)
    (hprompt : Prompt cfg.log)
    {l₁ l₂ l₃ : List (Entry Cmd.Ans S Store)} {e e' : Entry Cmd.Ans S Store} {key key' : String}
    {args args' : OpenArgs} {raw : Bytes}
    (hl : cfg.log = l₁ ++ e :: (l₂ ++ e' :: l₃))
    (he : (⟨e.cmd, e.ans⟩ : Σ c, Cmd.Ans c) = ⟨.setUsed key, true⟩)
    (he' : (⟨e'.cmd, e'.ans⟩ : Σ c, Cmd.Ans c) = ⟨.setUsed key', true⟩)
    (hcall : calls e.session = .openVault args) (hcall' : calls e'.session = .openVault args')
    (hraw : challengeBytes lib settings args = some raw)
    (hraw' : challengeBytes lib settings args' = some raw) : False := by
  have hl' : cfg.log = (l₁ ++ e :: l₂) ++ e' :: l₃ := by
    rw [hl]
    simp
  have hcmd' : e'.cmd = .setUsed key' := congrArg Sigma.fst he'
  -- both looked at the clock, the second while the challenge was good
  obtain ⟨args₁, raw₁, m₁, c, m₂, t, hcall₁, hraw₁, rfl, rfl, hcs, hread, -, -⟩ :=
    spend_source h hl (congrArg Sigma.fst he)
  obtain ⟨args₂, raw₂, n₁, c', n₂, t', hcall₂, hraw₂, rfl, hn, hcs', hread', hown', hage'⟩ :=
    spend_source h hl' hcmd'
  cases hcall.symm.trans hcall₁
  cases hcall'.symm.trans hcall₂
  cases Option.some.inj (hraw.symm.trans hraw₁)
  cases Option.some.inj (hraw'.symm.trans hraw₂)
  have hlate := respend_late h hl he he'
  -- the second let no time pass
  have hlog : cfg.log = n₁ ++ c' :: (n₂ ++ e' :: l₃) := by
    rw [hl', hn]
    simp
  have hdelay := hprompt n₁ c' n₂ e' l₃ hlog hcs' (by rw [hread']; rfl) ⟨_, hcmd'⟩ hown'
  -- the challenge was issued before the first
  rw [List.append_assoc, List.cons_append] at hl
  obtain ⟨i, hi, r, hr, hissued, hbefore⟩ :=
    issued_before h hunforged hl (by rw [hread]; rfl) (hcs ▸ hcall) hraw
  have horder := log_order h hl
  have hskew := hclocks i hi c' (by rw [hlog]; simp) r hr t' hread'
  unfold unexpired clockSkewSeconds challengeTtlSeconds at hage'
  unfold clockSkewSeconds at hskew
  simp only [Bool.decide_and, Bool.and_eq_true, decide_eq_true_eq] at hage'
  linarith [hage'.2]

end

/-! ## Counts -/

section
variable {S : Type}

/-- The count of an update that took effect, in the row of a key. -/
def countOf (hash : String) : Entry Cmd.Ans S Store → Option ℕ
  | ⟨_, _, .markUsed hash' signCount, true, _⟩ => if hash' = hash then some signCount else none
  | _ => none

/-- The counts of the successful opens of a key, in the order of their updates. -/
def counts (hash : String) (log : List (Entry Cmd.Ans S Store)) : List ℕ := log.filterMap (countOf hash)

/-- The owner of a key writes or deletes its row. -/
def OwnerWrites (hash : String) (e : Entry Cmd.Ans S Store) : Prop :=
  (∃ values, e.cmd = .upsert values ∧ values.credentialIdHash = hash ∧
    (e.before.upserted values).isSome) ∨
  ∃ row, e.cmd = .delete hash row.pubkey ∧ e.before.row hash = some row

/-- A counter moves forward, or neither side keeps one. -/
def Advances (a b : ℕ) : Prop := a < b ∨ a = 0 ∧ b = 0

theorem advances_iff {signCount : ℕ} {row : VaultRow} :
    advances signCount row = true ↔ Advances row.signCount signCount := by
  unfold advances Advances
  split_ifs with h
  · simp [h]
  · simp [h]

theorem Advances.trans {a b c : ℕ} (h : Advances a b) (h' : Advances b c) : Advances a c := by
  unfold Advances at *
  omega

theorem countOf_eq_some {hash : String} {e : Entry Cmd.Ans S Store} {signCount : ℕ} :
    countOf hash e = some signCount ↔
      (⟨e.cmd, e.ans⟩ : Σ c, Cmd.Ans c) = ⟨.markUsed hash signCount, true⟩ := by
  obtain ⟨s, before, cmd, ans, after⟩ := e
  cases cmd with
  | markUsed hash' signCount' =>
    cases ans with
    | true => simp [countOf]
    | false => simp [countOf]
  | _ => simp [countOf]

theorem upserted_isSome {st : Store} {values : VaultValues} (now : ℚ) :
    (({ st with now := now } : Store).upserted values).isSome = (st.upserted values).isSome := by
  unfold Store.upserted
  dsimp only
  split
  · rfl
  · split_ifs
    · rfl
    · rfl

/-- **What an entry does to a count**: without a write of the owner, the count stays
    or advances to that of the update. -/
theorem entry_count {hash : String} {e : Entry Cmd.Ans S Store} (he : e.Executed exec)
    (hno : ¬ OwnerWrites hash e) :
    (countOf hash e = none ∧ e.after.row hash = e.before.row hash) ∨
    ∃ signCount row row', countOf hash e = some signCount ∧ e.before.row hash = some row ∧
      Advances row.signCount signCount ∧ e.after.row hash = some row' ∧ row'.signCount = signCount := by
  obtain ⟨ω, hexec⟩ := he
  have hafter := entry_answer hexec
  by_cases hmark : ∃ signCount, e.cmd = .markUsed hash signCount
  · obtain ⟨signCount, hcmd⟩ := hmark
    obtain ⟨s, before, cmd, ans, after⟩ := e
    cases hcmd
    obtain ⟨-, hr⟩ := exec_eq_some hexec
    have hans : ans = (answer { before with now := ω.now } ω.clock (.markUsed hash signCount)).1 := by
      rw [← hr]
    dsimp only at hafter ⊢
    cases hrow : (before.row hash).filter (advances signCount) with
    | none =>
      simp only [answer, hrow] at hans hafter
      subst hans hafter
      exact Or.inl ⟨rfl, rfl⟩
    | some row =>
      simp only [answer, hrow] at hans hafter
      obtain ⟨hat, hadv⟩ := Option.filter_eq_some_iff.1 hrow
      subst hans hafter
      refine Or.inr ⟨signCount, row,
        { row with signCount := signCount, lastUsedAt := some ω.now, updatedAt := ω.now },
        by simp [countOf], hat, advances_iff.1 hadv, ?_, rfl⟩
      exact Function.update_self ..
  · have hnone : countOf hash e = none := by
      rw [Option.eq_none_iff_forall_ne_some]
      intro signCount hcount
      exact hmark ⟨signCount, congrArg Sigma.fst (countOf_eq_some.1 hcount)⟩
    refine Or.inl ⟨hnone, ?_⟩
    rw [hafter]
    rcases answer_row { e.before with now := ω.now } ω.clock e.cmd hash with hsame |
        ⟨values, row, hcmd, hhash, hup, -⟩ | ⟨signCount, row, hcmd, -, -, -⟩ |
        ⟨pubkey, row, hcmd, hat, rfl, -⟩
    · exact hsame
    · refine absurd (Or.inl ⟨values, hcmd, hhash, ?_⟩) hno
      rw [← upserted_isSome ω.now, hup]
      rfl
    · exact absurd ⟨signCount, hcmd⟩ hmark
    · exact absurd (Or.inr ⟨row, hcmd, hat⟩) hno

/-- Without a write of the owner, every count advances on the one before it. -/
theorem counts_advance {hash : String} {st st' : Store} {l : List (Entry Cmd.Ans S Store)}
    (h : Trace exec st l st') (hno : ∀ e ∈ l, ¬ OwnerWrites hash e) :
    (∀ signCount ∈ counts hash l, ∃ row, st.row hash = some row ∧ Advances row.signCount signCount) ∧
      (counts hash l).Pairwise Advances := by
  induction h with
  | nil st => exact ⟨fun _ hm => by simp [counts] at hm, by simp [counts]⟩
  | @cons e es st'' ω hexec _ ih =>
    obtain ⟨hfrom, hpair⟩ := ih fun e' he' => hno e' (List.mem_cons_of_mem _ he')
    rcases entry_count ⟨ω, hexec⟩ (hno e List.mem_cons_self) with ⟨hnone, hsame⟩ |
        ⟨signCount, row, row', hsome, hrow, hadv, hrow', rfl⟩
    · have hcounts : counts hash (e :: es) = counts hash es := by
        simp [counts, hnone]
      rw [hcounts, ← hsame]
      exact ⟨hfrom, hpair⟩
    · have hcounts : counts hash (e :: es) = row'.signCount :: counts hash es := by
        simp [counts, hsome]
      have hlater : ∀ n ∈ counts hash es, Advances row'.signCount n := by
        intro n hn
        obtain ⟨row'', hrow'', hadv'⟩ := hfrom n hn
        rw [hrow'] at hrow''
        cases hrow''
        exact hadv'
      rw [hcounts]
      refine ⟨fun n hn => ⟨row, hrow, ?_⟩, List.pairwise_cons.2 ⟨hlater, hpair⟩⟩
      rcases List.mem_cons.1 hn with rfl | hn
      · exact hadv
      · exact hadv.trans (hlater n hn)

end

section
variable {S : Type} [DecidableEq S] {calls : S → Call} {now : ℚ} {schedule : List (S × Outside)}
  {cfg : Config Cmd.Ans VaultExn Result S Store}

/-- An update that took effect is the last command of an open that succeeds. -/
theorem open_of_count (h : (initial lib settings calls now).run exec schedule = some cfg)
    {e : Entry Cmd.Ans S Store} (he : e ∈ cfg.log) {hash : String} {signCount : ℕ}
    (hcount : countOf hash e = some signCount) :
    ∃ args result, calls e.session = .openVault args ∧ args.pathHash = hash ∧
      reportedCount args = some signCount ∧ returned (cfg.prog e.session) = some result := by
  obtain ⟨l, l', hl⟩ := List.append_of_mem he
  have hmark := countOf_eq_some.1 hcount
  have hcmd : e.cmd = .markUsed hash signCount := congrArg Sigma.fst hmark
  have hnext := run_next h hl
  rw [hcmd] at hnext
  obtain ⟨args, hcall, hopen⟩ := open_of_next rfl hnext
  have hfour : (own e.session l).length = 4 ∧ args.pathHash = hash ∧
      reportedCount args = some signCount := by
    generalize own e.session l = hist at hopen
    cases hopen with
    | mark hreported => exact ⟨rfl, rfl, hreported⟩
  -- after it the session has nothing to do
  have hown : own e.session cfg.log = own e.session l ++ ⟨.markUsed hash signCount, true⟩ ::
      own e.session l' := by
    rw [hl, own_append, own_cons_self rfl, hmark]
  have hover : ∀ x c, ¬ (calls e.session).next lib settings
      (own e.session l ++ ⟨.markUsed hash signCount, true⟩ :: x) c := by
    intro x c hc
    rw [hcall] at hc
    have hlength := OpenHistory.length_le hc
    simp only [List.length_append, List.length_cons] at hlength
    omega
  have hlast : own e.session l' = [] := by
    cases hrest : own e.session l' with
    | nil => rfl
    | cons x rest =>
      obtain ⟨m₁, e₂, m₂, rfl, hs, -, hm₁, -⟩ := own_split (h := []) hrest
      have hl₂ : cfg.log = (l ++ e :: m₁) ++ e₂ :: m₂ := by
        rw [hl]
        simp
      have hnext₂ := run_next h hl₂
      rw [hs, own_append, own_cons_self rfl, hmark] at hnext₂
      exact absurd hnext₂ (hover _ _)
  have hend := run_prog h e.session
  refine ⟨args, ?_⟩
  cases hprog : cfg.prog e.session with
  | ret result => exact ⟨result, hcall, hfour.2.1, hfour.2.2, rfl⟩
  | raise exn =>
    rw [hprog, hown, hlast] at hend
    exact absurd rfl (hend (own e.session l) hash signCount)
  | op c k =>
    rw [hprog, hown] at hend
    exact absurd hend.1 (hover _ c)

/-- A successful open has its update in the log. -/
theorem count_of_open (h : (initial lib settings calls now).run exec schedule = some cfg) {s : S}
    {args : OpenArgs} {result : Result} (hcall : calls s = .openVault args)
    (hret : returned (cfg.prog s) = some result) :
    ∃ e ∈ cfg.log, e.session = s ∧ (countOf args.pathHash e).isSome := by
  obtain ⟨row, t, t', key, signCount, hown⟩ := open_history h hcall hret
  obtain ⟨e, he, hs, hmark⟩ := mem_own (x := ⟨.markUsed args.pathHash signCount, true⟩)
    (s := s) (l := cfg.log) (by rw [hown]; simp)
  exact ⟨e, he, hs, by rw [countOf_eq_some.2 hmark]; rfl⟩

end

end

/-- Each challenge is accepted by one successful open at most. -/
def SingleUse {S : Type} (lib : Lib) (settings : Settings) (calls : S → Call)
    (cfg : Config Cmd.Ans VaultExn Result S Store) : Prop :=
  ∀ s s' args args' raw, calls s = .openVault args → calls s' = .openVault args' →
    (returned (cfg.prog s)).isSome → (returned (cfg.prog s')).isSome →
    challengeBytes lib settings args = some raw → challengeBytes lib settings args' = some raw →
    s = s'

/-- Between two writes of a row's owner, the counts of the successful opens are in the
    relation `R`. -/
def CountsBetweenWrites {S : Type} (R : List ℕ → Prop) (log : List (Entry Cmd.Ans S Store)) : Prop :=
  ∀ hash l₁ l₂ l₃, log = l₁ ++ (l₂ ++ l₃) → (∀ e ∈ l₂, ¬ OwnerWrites hash e) → R (counts hash l₂)

/-- **Opens of a vault.**  In every interleaving of calls: if the clocks agree, no
    challenge is forged and every open is prompt, a challenge is accepted by one
    successful open at most; between two writes of a row's owner every count of a
    successful open is greater than the ones before it, or both are 0.  The counts of
    a log are those its successful opens reported. -/
theorem opens_single_use (lib : Lib) (settings : Settings) {S : Type} [DecidableEq S]
    (calls : S → Call) (now : ℚ) (schedule : List (S × Outside))
    (cfg : Config Cmd.Ans VaultExn Result S Store)
    (h : (initial lib settings calls now).run exec schedule = some cfg) :
    (ClocksAgree cfg.log →
      Unforged (fun s => (calls s).presents lib settings) (fun s => (calls s).issues) cfg.log →
      Prompt cfg.log → SingleUse lib settings calls cfg) ∧
    CountsBetweenWrites (List.Pairwise Advances) cfg.log ∧
    (∀ e ∈ cfg.log, ∀ hash signCount, countOf hash e = some signCount →
      ∃ args, calls e.session = .openVault args ∧ args.pathHash = hash ∧
        reportedCount args = some signCount ∧ (returned (cfg.prog e.session)).isSome) ∧
    ∀ s args, calls s = .openVault args → (returned (cfg.prog s)).isSome →
      ∃ e ∈ cfg.log, e.session = s ∧ (countOf args.pathHash e).isSome := by
  refine ⟨?_, ?_, ?_, ?_⟩
  · intro hclocks hunforged hprompt s s' args args' raw hcall hcall' hret hret' hraw hraw'
    obtain ⟨result, hret⟩ := Option.isSome_iff_exists.1 hret
    obtain ⟨result', hret'⟩ := Option.isSome_iff_exists.1 hret'
    obtain ⟨l, e, l', key, hl, rfl, he⟩ := open_spends h hcall hret
    obtain ⟨m, e', m', key', hm, rfl, he'⟩ := open_spends h hcall' hret'
    rcases split_compare (hl.symm.trans hm) with ⟨k, -, rfl⟩ | ⟨-, rfl, -⟩ | ⟨k, -, rfl⟩
    · exact (no_respend h hclocks hunforged hprompt hl he he' hcall hcall' hraw hraw').elim
    · rfl
    · exact (no_respend h hclocks hunforged hprompt hm he' he hcall' hcall hraw' hraw).elim
  · intro hash l₁ l₂ l₃ hl hno
    have htrace := run_log_trace h
    rw [hl] at htrace
    obtain ⟨m, -, hrest⟩ := htrace.split
    obtain ⟨m', hmid, -⟩ := hrest.split
    exact (counts_advance hmid hno).2
  · intro e he hash signCount hcount
    obtain ⟨args, result, hcall, hpath, hreported, hret⟩ := open_of_count h he hcount
    exact ⟨args, hcall, hpath, hreported, by rw [hret]; rfl⟩
  · intro s args hcall hret
    obtain ⟨result, hret⟩ := Option.isSome_iff_exists.1 hret
    exact count_of_open h hcall hret

/-! ## Two runs -/

/-- `open_vault` past the checks that need no command. -/
def openAfterChecks (pathHash : String) (nonce : Bytes) (issued : ℕ)
    (verify : VaultRow → Except VaultExn VerifiedAssertion) : VaultProg String := do
  let row ← await (.selectByHash pathHash)
  match row with
  | none => .raise (.assertionInvalid "no such row")
  | some row => do
    let now ← await .time
    if unexpired (now - issued) then
      let verified ← purely (verify row)
      if (verified.signCount ≠ 0 ∨ row.signCount ≠ 0) ∧ verified.signCount ≤ row.signCount then
        .raise (.assertionInvalid "signature counter did not advance")
      else
        let now ← await .time
        if unexpired (now - issued) then
          spendChallenge nonce
          let marked ← await (.markUsed pathHash verified.signCount)
          if marked then pure row.blob
          else .raise (.assertionInvalid "signature counter did not advance (raced)")
        else .raise (.assertionInvalid "challenge expired")
    else .raise (.assertionInvalid "challenge expired")

theorem tryOpen_eq {lib : Lib} {settings : Settings} {args : OpenArgs} {clientData : ClientData}
    {nonce : Bytes} {issued : ℕ} (hhash : credentialIdHash lib args.credentialId = .ok args.pathHash)
    (hclient : readClientData lib args.clientDataJson (allowedOrigins lib settings) = .ok clientData)
    (hsplit : splitChallenge lib settings clientData.challenge = .ok (nonce, issued)) :
    tryOpen lib settings args = openAfterChecks args.pathHash nonce issued fun row =>
      checkAuthenticator lib clientData args.authenticatorData args.signature row.credentialPublicKey
        row.alg := by
  have hcheck : ∀ challenge, challenge = clientData.challenge →
      checkChallenge lib settings challenge = .op .time fun now =>
        if unexpired (now - issued) then .ret nonce
        else .raise (.assertionInvalid "challenge expired") := by
    rintro challenge rfl
    unfold checkChallenge
    rw [hsplit]
    rfl
  unfold tryOpen openAfterChecks verifyAssertion
  rw [hhash, hclient]
  simp only [purely, bind_eq, ret_bind, ne_eq, not_true_eq_false, if_false, call_bind, hcheck _ rfl]
  congr 1
  funext row
  cases row with
  | none => rfl
  | some row =>
    simp only [Prog.bind]
    congr 1
    funext now
    split_ifs
    · simp only [ret_bind]
      cases hver : checkAuthenticator lib clientData args.authenticatorData args.signature
          row.credentialPublicKey row.alg with
      | error e => rfl
      | ok verified =>
        simp only [hcheck _ (checkAuthenticator_ok hver).1, Prog.bind]
        split_ifs with hcount
        · rfl
        · congr 1
          funext now
          split_ifs
          · rfl
          · rfl
    · rfl

/-- Three ceremonies, each with its nonce, all challenges issued in the second 1000. -/
def ceremonies : List UInt8 := [1, 2, 3]

def ceremonyNonce (n : UInt8) : Bytes := List.replicate 16 n

/-- The HMAC of each challenge under the secret of `anySettings`. -/
def ceremonyMac (n : UInt8) : Bytes := bytesOf 32 <|
  if n = 1 then 0xf94a0136d82e2d2fc120b256a19d3093a19c7042772b923b8d3df957d6f5278c
  else if n = 2 then 0xd41dfe71cb63622dc8be30a7fb6fc85e5ae729c7a2f7573f99778b5241a47f94
  else 0xfaddac864052d5e7df74849475d67bb13e90d42d638157bb17a688e6d35eca44

def ceremonyRaw (n : UInt8) : Bytes := ceremonyNonce n ++ toBytes8 1000 ++ ceremonyMac n

/-- The client data of a browser at `https://b.io`. -/
def ceremonyClientData (n : UInt8) : Bytes :=
  asciiBytes "\x7b\"type\":\"webauthn.get\",\"challenge\":\"" ++
    ((urlsafeB64encode (ceremonyRaw n)).rdropWhile (· = '=')).map (·.toNat.toUInt8) ++
    asciiBytes "\",\"origin\":\"https://b.io\"\x7d"

/-- The SHA-256 of the client data, and of `b.io`. -/
def ceremonyHash (n : UInt8) : Bytes := bytesOf 32 <|
  if n = 1 then 0xac3bb4e8edbacd3faeb7c51e04e18f408f708ffd505b9d3b7a120777fc02c940
  else if n = 2 then 0x87fbdca82fe05ffa8212f283997328a444bb9d9afc68bdd0a021b848a6133f9c
  else 0xdc87c65e8b8c33680ae4f016f3f60345e9825619af0a3fbcb20ac59fc69d1614

def rpIdHash : Bytes :=
  bytesOf 32 0x71ea315842f178bcb8e73ef1d674f230020b2c3a1f0535752a900a5d6fad1d28

/-- The authenticator reports no count at first and 5 in the end. -/
def ceremonyCount (n : UInt8) : ℕ := if n = 3 then 5 else 0

def ceremonyAuthData (n : UInt8) : Bytes := rpIdHash ++ [5, 0, 0, 0, (ceremonyCount n).toUInt8]

/-- The Ed25519 signature of the authenticator data and the hash. -/
def ceremonySignature (n : UInt8) : Bytes := bytesOf 64 <|
  if n = 1 then
    0xc9f48d16cd7d3bec7da3eef41a8e8ee5504063c80b6139e3b71dcea751fe96dce8f27b664804bb6ca2de3062ad60b9f2af9e7d04353cd76c086d40b29a577b00
  else if n = 2 then
    0xe4ae8fb2c5d0142018e9033a9c92b37baf2032c380c88312a802192f15602f530ee785b56ba26acd458e0551605032e7fd187b85bdf8f6d913403077b5c0f100
  else
    0x9cee1e470281534afe222e175dab3bea664bb970926130a0bce1d0826b09aabcdd6eb98553b45e96f387387bfa078e1a475fb3a6eef67136979ca39537fb2300

/-- `json.loads` on the client data. -/
def ceremonyLoads (raw : Bytes) : Option PyValue :=
  (ceremonies.find? fun n => raw = ceremonyClientData n).map fun n =>
    .dict [("type", .str "webauthn.get"), ("challenge", .str (b64url (ceremonyRaw n))),
      ("origin", .str "https://b.io")]

/-- The library on these ceremonies. -/
def ceremonyLib : Lib :=
  { passkeyLib with
    loadsBytes := ceremonyLoads
    sha256 := fun bytes =>
      match ceremonies.find? fun n => bytes = ceremonyClientData n with
      | some n => ceremonyHash n
      | none => if bytes = asciiBytes "b.io" then rpIdHash else []
    hmacSha256 := fun key msg =>
      match ceremonies.find? fun n => msg = ceremonyNonce n ++ toBytes8 1000 with
      | some n => ceremonyMac n
      | none =>
        if key = asciiBytes "secret" ∧ msg = asciiBytes "passkey-vault-challenge" then
          bytesOf 32 0x5ccdf5bc9f585816fe868b098c6b31087d0c093fa6cc715360fd7ac868d9a98c
        else []
    verify := fun key signature signed => key.der = passkeyDer ∧
      (ceremonies.any fun n => signature = ceremonySignature n ∧
        signed = ceremonyAuthData n ++ ceremonyHash n)
    hostname := fun _ => some "b.io" }

def ceremonyArgs (n : UInt8) : OpenArgs :=
  { pathHash := passkeyHash, credentialId := "AQID", clientDataJson := b64url (ceremonyClientData n)
    authenticatorData := b64url (ceremonyAuthData n), signature := b64url (ceremonySignature n) }

section
variable {n : UInt8} (hn : n ∈ ceremonies)
include hn

set_option maxRecDepth 2000 in
theorem find_ceremony : (ceremonies.find? fun m => ceremonyClientData n = ceremonyClientData m) = some n := by
  revert n
  decide

theorem ceremony_client : readClientData ceremonyLib (ceremonyArgs n).clientDataJson
    (allowedOrigins ceremonyLib anySettings) =
      .ok ⟨ceremonyClientData n, "https://b.io", b64url (ceremonyRaw n)⟩ := by
  have hload : ceremonyLib.loadsBytes (ceremonyClientData n) =
      some (.dict [("type", .str "webauthn.get"), ("challenge", .str (b64url (ceremonyRaw n))),
        ("origin", .str "https://b.io")]) := by
    have hloads : ceremonyLib.loadsBytes = ceremonyLoads := rfl
    rw [hloads, ceremonyLoads, find_ceremony hn, Option.map_some]
  have horigins : allowedOrigins ceremonyLib anySettings = ["https://b.io"] := by decide
  have hne : b64url (ceremonyRaw n) ≠ "" := by
    intro h
    have hnil := b64urlDecode_b64url (ceremonyRaw n)
    rw [h] at hnil
    have hempty : ceremonyRaw n = [] := (Except.ok.inj (hnil.symm.trans rfl))
    simp [ceremonyRaw, ceremonyNonce] at hempty
  unfold readClientData
  simp only [ceremonyArgs, b64urlDecode_b64url, horigins, Bind.bind, Except.bind, hload]
  simp [dictGet, eqText, List.lookup_cons, List.lookup_nil, hne]

set_option maxRecDepth 2000 in
theorem ceremony_split :
    splitChallenge ceremonyLib anySettings (b64url (ceremonyRaw n)) = .ok (ceremonyNonce n, 1000) := by
  unfold splitChallenge
  rw [b64urlDecode_b64url]
  revert n
  decide

set_option maxRecDepth 2000 in
theorem ceremony_authenticator :
    checkAuthenticator ceremonyLib ⟨ceremonyClientData n, "https://b.io", b64url (ceremonyRaw n)⟩
      (ceremonyArgs n).authenticatorData (ceremonyArgs n).signature (b64url passkeyDer) algEddsa =
      .ok ⟨b64url (ceremonyRaw n), ceremonyCount n⟩ := by
  unfold checkAuthenticator loadPublicKey
  simp only [ceremonyArgs, b64urlDecode_b64url]
  revert n
  decide

/-- The open of a ceremony, with the checks that need no command made. -/
def ceremonyOpen (n : UInt8) : VaultProg String :=
  openAfterChecks passkeyHash (ceremonyNonce n) 1000 fun row =>
    if row.credentialPublicKey = b64url passkeyDer ∧ row.alg = algEddsa then
      .ok ⟨b64url (ceremonyRaw n), ceremonyCount n⟩
    else checkAuthenticator ceremonyLib ⟨ceremonyClientData n, "https://b.io", b64url (ceremonyRaw n)⟩
      (ceremonyArgs n).authenticatorData (ceremonyArgs n).signature row.credentialPublicKey row.alg

theorem ceremony_tryOpen : tryOpen ceremonyLib anySettings (ceremonyArgs n) = ceremonyOpen n := by
  have hbytes : b64urlDecode "AQID" = .ok [1, 2, 3] := by decide
  have hhash : credentialIdHash ceremonyLib "AQID" = .ok passkeyHash := by
    rw [credentialIdHash, hbytes]
    rfl
  have hhash' : credentialIdHash ceremonyLib (ceremonyArgs n).credentialId =
      .ok (ceremonyArgs n).pathHash := hhash
  rw [tryOpen_eq hhash' (ceremony_client hn) (ceremony_split hn)]
  refine congrArg (openAfterChecks passkeyHash (ceremonyNonce n) 1000) (funext fun row => ?_)
  split_ifs with hrow
  · rw [hrow.1, hrow.2]
    exact ceremony_authenticator hn
  · rfl

theorem ceremony_challenge :
    challengeBytes ceremonyLib anySettings (ceremonyArgs n) = some (ceremonyRaw n) :=
  readClientData_challengeBytes (ceremony_client hn) (b64urlDecode_b64url _)

end

/-- Alice stores her vault (0), the challenges are issued (1 to 3) and presented
    (4 to 6), the first of them once more (7). -/
def ceremonyCalls : Fin 8 → Call
  | 0 => storeThenStranger 0
  | 1 => .issueChallenge (ceremonyNonce 1)
  | 2 => .issueChallenge (ceremonyNonce 2)
  | 3 => .issueChallenge (ceremonyNonce 3)
  | 4 => .openVault (ceremonyArgs 1)
  | 5 => .openVault (ceremonyArgs 2)
  | 6 => .openVault (ceremonyArgs 3)
  | 7 => .openVault (ceremonyArgs 1)

/-- The first challenge is presented again 125 seconds later, to a replica whose clock
    is five seconds behind, which takes 55 seconds to reach Redis. -/
def stalledReplay : List (Fin 8 × Outside) :=
  [0, 1, 4, 4, 4, 4, 4].map (·, ⟨1000, 1000⟩) ++ [7, 7, 7].map (·, ⟨1125, 1120⟩) ++
    [7, 7].map (·, ⟨1180, 1175⟩)

/-- Three challenges, one after the other. -/
def threeOpens : List (Fin 8 × Outside) :=
  [0, 1, 2, 3, 4, 4, 4, 4, 4, 5, 5, 5, 5, 5, 6, 6, 6, 6, 6].map (·, ⟨1000, 1000⟩)

def ceremonyRun (schedule : List (Fin 8 × Outside)) :
    Option (Config Cmd.Ans VaultExn Result (Fin 8) Store) :=
  (initial ceremonyLib anySettings ceremonyCalls 1000).run exec schedule

/-- The programs and the challenges of the run, with the checks made. -/
def ceremonyProg : Fin 8 → VaultProg Result
  | 4 => ((ceremonyOpen 1).tryCatch refused).bind (.ret <| .blob ·)
  | 5 => ((ceremonyOpen 2).tryCatch refused).bind (.ret <| .blob ·)
  | 6 => ((ceremonyOpen 3).tryCatch refused).bind (.ret <| .blob ·)
  | 7 => ((ceremonyOpen 1).tryCatch refused).bind (.ret <| .blob ·)
  | s => (ceremonyCalls s).prog ceremonyLib anySettings

def ceremonyPresents : Fin 8 → Option Bytes
  | 4 => some (ceremonyRaw 1)
  | 5 => some (ceremonyRaw 2)
  | 6 => some (ceremonyRaw 3)
  | 7 => some (ceremonyRaw 1)
  | _ => none

theorem openVault_ceremony {n : UInt8} (hn : n ∈ ceremonies) :
    (Call.openVault (ceremonyArgs n)).prog ceremonyLib anySettings =
      ((ceremonyOpen n).tryCatch refused).bind (.ret <| .blob ·) := by
  rw [← ceremony_tryOpen hn]
  rfl

theorem ceremonyProg_eq (s : Fin 8) : (ceremonyCalls s).prog ceremonyLib anySettings = ceremonyProg s := by
  fin_cases s
  · rfl
  · rfl
  · rfl
  · rfl
  · exact openVault_ceremony (by decide)
  · exact openVault_ceremony (by decide)
  · exact openVault_ceremony (by decide)
  · exact openVault_ceremony (by decide)

theorem presents_ceremony {n : UInt8} (hn : n ∈ ceremonies) :
    (Call.openVault (ceremonyArgs n)).presents ceremonyLib anySettings = some (ceremonyRaw n) := by
  rw [Call.presents]
  exact ceremony_challenge hn

theorem ceremonyPresents_eq (s : Fin 8) :
    (ceremonyCalls s).presents ceremonyLib anySettings = ceremonyPresents s := by
  fin_cases s
  · rfl
  · rfl
  · rfl
  · rfl
  · exact presents_ceremony (by decide)
  · exact presents_ceremony (by decide)
  · exact presents_ceremony (by decide)
  · exact presents_ceremony (by decide)

theorem ceremonyRun_eq (schedule : List (Fin 8 × Outside)) :
    ceremonyRun schedule =
      (Config.run exec ⟨ceremonyProg, ⟨fun _ => none, fun _ => none, 1000⟩, []⟩ schedule) := by
  unfold ceremonyRun initial
  rw [funext ceremonyProg_eq]

/-- The assumptions on clocks and challenges. -/
def Sound (cfg : Config Cmd.Ans VaultExn Result (Fin 8) Store) : Prop :=
  ClocksAgree cfg.log ∧ Unforged (fun s => (ceremonyCalls s).presents ceremonyLib anySettings)
    (fun s => (ceremonyCalls s).issues) cfg.log

/-- A command that only an owner sends. -/
def ownerCmd : Cmd → Bool
  | .upsert _ => true
  | .delete _ _ => true
  | _ => false

theorem not_ownerWrites {S : Type} {e : Entry Cmd.Ans S Store} {hash : String}
    (h : ownerCmd e.cmd = false) : ¬ OwnerWrites hash e := by
  rintro (⟨values, hcmd, -⟩ | ⟨row, hcmd, -⟩)
  · rw [hcmd] at h
    cases h
  · rw [hcmd] at h
    cases h

theorem stalledReplay_run : ∃ cfg, ceremonyRun stalledReplay = some cfg ∧ Sound cfg ∧
    (returned (cfg.prog 4)).isSome ∧ (returned (cfg.prog 7)).isSome := by
  have hcheck : ((Config.run exec ⟨ceremonyProg, ⟨fun _ => none, fun _ => none, 1000⟩, []⟩
      stalledReplay).map fun cfg => decide ((ClocksAgree cfg.log ∧
        Unforged ceremonyPresents (fun s => (ceremonyCalls s).issues) cfg.log) ∧
        (returned (cfg.prog 4)).isSome ∧ (returned (cfg.prog 7)).isSome)) = some true := by
    with_unfolding_all decide
  obtain ⟨cfg, hrun, hdec⟩ := Option.map_eq_some_iff.1 hcheck
  refine ⟨cfg, (ceremonyRun_eq _).trans hrun, ?_⟩
  unfold Sound
  rw [funext ceremonyPresents_eq]
  exact of_decide_eq_true hdec

theorem threeOpens_run : ∃ cfg, ceremonyRun threeOpens = some cfg ∧ Sound cfg ∧
    (∀ e ∈ cfg.log, e.after.now = 1000) ∧ (∀ e ∈ cfg.log.drop 1, ownerCmd e.cmd = false) ∧
    counts passkeyHash (cfg.log.drop 1) = [0, 0, 5] := by
  have hcheck : ((Config.run exec ⟨ceremonyProg, ⟨fun _ => none, fun _ => none, 1000⟩, []⟩
      threeOpens).map fun cfg => decide ((ClocksAgree cfg.log ∧
        Unforged ceremonyPresents (fun s => (ceremonyCalls s).issues) cfg.log) ∧
        (∀ e ∈ cfg.log, e.after.now = 1000) ∧ (∀ e ∈ cfg.log.drop 1, ownerCmd e.cmd = false) ∧
        counts passkeyHash (cfg.log.drop 1) = [0, 0, 5])) = some true := by
    with_unfolding_all decide
  obtain ⟨cfg, hrun, hdec⟩ := Option.map_eq_some_iff.1 hcheck
  refine ⟨cfg, (ceremonyRun_eq _).trans hrun, ?_⟩
  unfold Sound
  rw [funext ceremonyPresents_eq]
  exact of_decide_eq_true hdec

/-- Where no time passes, every open is prompt. -/
theorem three_opens_single_use : ∃ cfg, ceremonyRun threeOpens = some cfg ∧
    SingleUse ceremonyLib anySettings ceremonyCalls cfg ∧
    CountsBetweenWrites (List.Pairwise Advances) cfg.log ∧
    counts passkeyHash (cfg.log.drop 1) = [0, 0, 5] := by
  obtain ⟨cfg, hrun, hsound, htime, -, hcounts⟩ := threeOpens_run
  have hprompt : Prompt cfg.log := by
    intro l₁ c l₂ e l₃ hlog _ _ _ _
    rw [htime e (by rw [hlog]; simp), htime c (by rw [hlog]; simp)]
    norm_num
  have hopens := opens_single_use ceremonyLib anySettings ceremonyCalls 1000 threeOpens cfg hrun
  exact ⟨cfg, hrun, hopens.1 hsound.1 hsound.2 hprompt, hopens.2.1, hcounts⟩

/-- **A challenge is spent twice**, by an open that stalls before it sets its marker;
    and an authenticator that begins to count leaves counts that are neither all 0 nor
    strictly increasing. -/
theorem challenge_spent_twice :
    (∃ cfg, ceremonyRun stalledReplay = some cfg ∧ Sound cfg ∧
      ¬ SingleUse ceremonyLib anySettings ceremonyCalls cfg) ∧
    ∃ cfg, ceremonyRun threeOpens = some cfg ∧ Sound cfg ∧
      ¬ CountsBetweenWrites (fun ns => (∀ n ∈ ns, n = 0) ∨ ns.Pairwise (· < ·)) cfg.log := by
  constructor
  · obtain ⟨cfg, hrun, hsound, hret, hret'⟩ := stalledReplay_run
    refine ⟨cfg, hrun, hsound, fun hsingle => ?_⟩
    have hraw := ceremony_challenge (n := 1) (by decide)
    exact absurd (hsingle 4 7 _ _ _ rfl rfl hret hret' hraw hraw) (by decide)
  · obtain ⟨cfg, hrun, hsound, -, howner, hcounts⟩ := threeOpens_run
    refine ⟨cfg, hrun, hsound, fun hmono => ?_⟩
    have h := hmono passkeyHash (cfg.log.take 1) (cfg.log.drop 1) []
      (by rw [List.append_nil, List.take_append_drop]) fun e he => not_ownerWrites (howner e he)
    rw [hcounts] at h
    revert h
    decide

end Vault

end BrainstormServer
