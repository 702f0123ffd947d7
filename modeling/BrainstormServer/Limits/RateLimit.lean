/-
  The rate limiter (`app/utils/rate_limiting/rate_limiting.py`).

  The calls on a bucket share a counter of Redis.  A call adds one to it, and the call that
  reads 1 gives it a time to live in a second command.  It may be cut off in between.

  * `Move`, `move_of_step`: what a command, a cut and the time do to the bucket;
  * `Dated`, `Setting`, `Stuck`: the bucket will be gone, is about to be given its time, or is
    there for ever; `Move.dated`, `Move.setting`, `Move.stuck` say where each move leads;
  * `resets_iff`: while no call is in progress the count goes back to zero within the window if
    and only if no call has been cut off where it was about to set the time.
-/
import BrainstormServer.Conc.Counter
import BrainstormServer.Conc.Machine
import BrainstormServer.Conc.Prog
import Mathlib.Order.Nat

namespace BrainstormServer

namespace RateLimit

open Conc Prog

/-! ## The program -/

/-- `HTTPException`, with its header `Retry-After`. -/
structure HTTPException where
  statusCode : ℕ
  detail : String
  retryAfter : ℤ

/-- The commands, all on the key of the bucket. -/
inductive Cmd
  | incr
  /-- `EXPIRE key seconds` -/
  | expire (seconds : ℕ)
  | ttl

@[reducible] def Cmd.Ans : Cmd → Type
  | incr => ℕ
  | expire _ => Bool
  | ttl => ℤ

abbrev Act (α : Type) := Prog (C := Cmd) Cmd.Ans HTTPException α

/-- Execute a command. -/
def await (c : Cmd) : Act c.Ans := call c

/-- `_enforce_window`. -/
def enforceWindow (limit : ℤ) (windowSeconds : ℕ) : Act Unit := do
  let current ← await .incr
  if current = 1 then
    let _ ← await (.expire windowSeconds)
  if limit < current then
    let ttl ← await .ttl
    let retryAfter := if ttl < 1 then (windowSeconds : ℤ) else ttl
    .raise ⟨429, "Too many requests", retryAfter⟩

/-! ## The system -/

/-- Redis: the time, in milliseconds, and the key. -/
structure Redis where
  now : ℕ
  bucket : Option (Counter ℕ)

/-- The answer to `TTL`, in seconds. -/
def ttlAnswer (now : ℕ) : Option (Counter ℕ) → ℤ
  | none => -2
  | some ⟨_, none⟩ => -1
  | some ⟨_, some e⟩ => ((e - now + 500) / 1000 : ℕ)

/-- The effect of a command. -/
def exec : (c : Cmd) → Redis → c.Ans × Redis
  | .incr, r =>
    let added := Counter.incr r.now r.bucket
    (added.1, { r with bucket := added.2 })
  | .expire seconds, r =>
    let dated := Counter.expire r.now (1000 * seconds) r.bucket
    (dated.1, { r with bucket := dated.2 })
  | .ttl, r => (ttlAnswer r.now (Counter.live r.now r.bucket), r)

/-- Redis, and what each caller still has to do. -/
structure System (S : Type) where
  redis : Redis
  calls : S → Option (Act Unit)

/-- Nobody has called yet, and the key is not there. -/
def System.initial {S : Type} : System S := ⟨⟨0, none⟩, fun _ => none⟩

inductive Event (S : Type)
  | tick (ms : ℕ)
  /-- a call of `_enforce_window`, with the limit as it is by then -/
  | call (s : S) (limit : ℤ)
  | command (s : S)
  /-- the call is cut off -/
  | cut (s : S)

section
variable {S : Type}

/-- A call of `s` is in progress. -/
def System.busy (st : System S) (s : S) : Bool := (st.calls s).any fun p => !p.done

/-- The next command is the one that sets the time. -/
def setsTime : Act Unit → Bool
  | .op (.expire _) _ => true
  | _ => false

/-- The call of `s` has read 1, and has not set the time. -/
def System.expiring (st : System S) (s : S) : Bool := (st.calls s).any setsTime

/-- The count of the bucket. -/
def System.count (st : System S) : ℕ := Counter.count st.redis.now st.redis.bucket

/-- No call is in progress. -/
def System.Idle (st : System S) : Prop := ∀ s, st.busy s = false

variable [DecidableEq S]

/-- The call of `s` goes on with `p`, or is over. -/
def System.goOn (st : System S) (s : S) (redis : Redis) (p : Option (Act Unit)) : System S :=
  ⟨redis, Function.update st.calls s p⟩

/-- A call executes its next command. -/
def System.command (st : System S) (s : S) : Act Unit → Option (System S)
  | .op c k =>
    let r := exec c st.redis
    some (st.goOn s r.2 (some (k r.1)))
  | _ => none

/-- A caller calls again when its call is over. -/
def step (windowSeconds : ℕ) : Event S → System S → Option (System S)
  | .tick ms, st => some { st with redis := { st.redis with now := st.redis.now + ms } }
  | .call s limit, st =>
    if st.busy s then none else some (st.goOn s st.redis (some (enforceWindow limit windowSeconds)))
  | .command s, st => (st.calls s).bind (st.command s)
  | .cut s, st => if st.busy s then some (st.goOn s st.redis none) else none

/-! ## What is claimed -/

/-- A positive count has a time to live, and whatever happens then, the count has been zero by
    the time that the window is over. -/
def Resets (windowSeconds : ℕ) (st : System S) : Prop :=
  0 < st.count →
    (∃ counter e, Counter.live st.redis.now st.redis.bucket = some counter ∧ counter.deadline = some e) ∧
    ∀ es st', Machine.run (step windowSeconds) es st = some st' →
      st.redis.now + 1000 * windowSeconds ≤ st'.redis.now →
      ∃ es₁ es₂ st₁, es = es₁ ++ es₂ ∧ Machine.run (step windowSeconds) es₁ st = some st₁ ∧ st₁.count = 0

end

/-! ## What a step can do -/

/-- What is left of a refused call. -/
def refusing (windowSeconds : ℕ) : Act Unit :=
  .op .ttl fun ttl => .raise ⟨429, "Too many requests", if ttl < 1 then (windowSeconds : ℤ) else ttl⟩

/-- What is left when the time is set. -/
def judging (limit : ℤ) (windowSeconds current : ℕ) : Act Unit :=
  if limit < current then refusing windowSeconds else .ret ()

/-- What is left of the call that read 1. -/
def dating (limit : ℤ) (windowSeconds : ℕ) : Act Unit :=
  .op (.expire windowSeconds) fun _ => judging limit windowSeconds 1

theorem enforceWindow_eq (limit : ℤ) (windowSeconds : ℕ) : enforceWindow limit windowSeconds =
    .op .incr fun current =>
      if current = 1 then dating limit windowSeconds else judging limit windowSeconds current := by
  unfold enforceWindow
  simp only [await, bind_eq, call_bind]
  congr 1
  funext current
  by_cases hone : current = 1
  · rw [if_pos hone, if_pos hone, hone]
    rfl
  · rw [if_neg hone, if_neg hone]
    rfl

section
variable {S : Type} [DecidableEq S] {windowSeconds : ℕ} {st st' : System S} {e : Event S}

/-- A call is over, or is refused next. -/
def Ending (windowSeconds : ℕ) (p : Act Unit) : Prop := p.done = true ∨ p = refusing windowSeconds

theorem Ending.setsTime {p : Act Unit} (h : Ending windowSeconds p) : setsTime p = false := by
  rcases h with h | rfl
  · cases p with
    | ret a => rfl
    | raise e => rfl
    | op c k => cases h
  · rfl

theorem ending_judging (limit : ℤ) (current : ℕ) : Ending windowSeconds (judging limit windowSeconds current) := by
  unfold judging
  split_ifs
  · exact Or.inr rfl
  · exact Or.inl rfl

/-- A call is over, or at one of the three commands. -/
def Underway (windowSeconds : ℕ) (p : Act Unit) : Prop :=
  (∃ limit, p = enforceWindow limit windowSeconds) ∨ (∃ limit, p = dating limit windowSeconds) ∨
    Ending windowSeconds p

/-- The calls are well formed, and no counter is zero. -/
structure Formed (windowSeconds : ℕ) (st : System S) : Prop where
  calls : ∀ s p, st.calls s = some p → Underway windowSeconds p
  positive : ∀ counter, st.redis.bucket = some counter → 0 < counter.value

/-- The moves of the system. -/
inductive Move (windowSeconds : ℕ) (st : System S) : Event S → System S → Prop
  | tick (ms : ℕ) :
      Move windowSeconds st (.tick ms) { st with redis := { st.redis with now := st.redis.now + ms } }
  | call (s : S) (limit : ℤ) (hfree : st.busy s = false) :
      Move windowSeconds st (.call s limit) (st.goOn s st.redis (some (enforceWindow limit windowSeconds)))
  /-- the count starts, and its time is set next -/
  | first (s : S) (limit : ℤ) (hnone : Counter.live st.redis.now st.redis.bucket = none) :
      Move windowSeconds st (.command s)
        (st.goOn s ⟨st.redis.now, some ⟨1, none⟩⟩ (some (dating limit windowSeconds)))
  /-- the count goes on, and its time is left alone -/
  | count (s : S) (rest : Act Unit) (counter : Counter ℕ)
      (hlive : Counter.live st.redis.now st.redis.bucket = some counter)
      (hs : st.expiring s = false) (hrest : Ending windowSeconds rest) :
      Move windowSeconds st (.command s)
        (st.goOn s ⟨st.redis.now, some ⟨counter.value + 1, counter.deadline⟩⟩ (some rest))
  /-- the time is set -/
  | date (s : S) (rest : Act Unit) (hs : st.expiring s = true) (hrest : Ending windowSeconds rest) :
      Move windowSeconds st (.command s)
        (st.goOn s (exec (.expire windowSeconds) st.redis).2 (some rest))
  /-- the time is read, and the call is refused -/
  | refuse (s : S) (rest : Act Unit) (hs : st.expiring s = false) (hrest : Ending windowSeconds rest) :
      Move windowSeconds st (.command s) (st.goOn s st.redis (some rest))
  | cut (s : S) (hbusy : st.busy s = true) : Move windowSeconds st (.cut s) (st.goOn s st.redis none)

omit [DecidableEq S] in
theorem expiring_of_calls {s : S} {p : Act Unit} (h : st.calls s = some p) : st.expiring s = setsTime p := by
  rw [System.expiring, h]
  rfl

theorem move_of_step (hformed : Formed windowSeconds st) (h : step windowSeconds e st = some st') :
    Move windowSeconds st e st' := by
  cases e with
  | tick ms =>
    cases h
    exact .tick ms
  | call s limit =>
    simp only [step] at h
    split_ifs at h with hbusy
    cases h
    exact .call s limit (Bool.eq_false_iff.2 hbusy)
  | cut s =>
    simp only [step] at h
    split_ifs at h with hbusy
    cases h
    exact .cut s hbusy
  | command s =>
    simp only [step, Option.bind_eq_some_iff] at h
    obtain ⟨p, hp, h⟩ := h
    rcases hformed.calls s p hp with ⟨limit, rfl⟩ | ⟨limit, rfl⟩ | hdone | rfl
    · have hs : st.expiring s = false := by
        rw [expiring_of_calls hp, enforceWindow_eq]
        rfl
      rw [enforceWindow_eq] at h
      cases h
      cases hlive : Counter.live st.redis.now st.redis.bucket with
      | none =>
        simp only [exec, Counter.incr_of_none hlive, if_true]
        exact .first s limit hlive
      | some counter =>
        have hpositive := hformed.positive counter (Counter.live_eq_some.1 hlive).1
        have hne : counter.value + 1 ≠ 1 := by omega
        simp only [exec, Counter.incr_of_live hlive, if_neg hne]
        exact .count s _ counter hlive hs (ending_judging limit _)
    · cases h
      exact .date s _ (expiring_of_calls hp) (ending_judging limit 1)
    · -- a call that is over has no command
      cases p with
      | ret a => cases h
      | raise e => cases h
      | op c k => cases hdone
    · cases h
      exact .refuse s _ (expiring_of_calls hp) (Or.inl rfl)

/-! ## Invariants -/

theorem Formed.goOn (h : Formed windowSeconds st) {s : S} {redis : Redis} {p : Option (Act Unit)}
    (hp : ∀ rest, p = some rest → Underway windowSeconds rest)
    (hpositive : ∀ counter, redis.bucket = some counter → 0 < counter.value) :
    Formed windowSeconds (st.goOn s redis p) := by
  refine ⟨fun s' rest hrest => ?_, hpositive⟩
  simp only [System.goOn] at hrest
  by_cases hs : s' = s
  · subst hs
    rw [Function.update_self] at hrest
    exact hp rest hrest
  · rw [Function.update_of_ne hs] at hrest
    exact h.calls s' rest hrest

/-- Setting the time leaves the value alone. -/
theorem positive_expire {redis : Redis} (h : ∀ counter, redis.bucket = some counter → 0 < counter.value) :
    ∀ counter, (exec (.expire windowSeconds) redis).2.bucket = some counter → 0 < counter.value := by
  intro counter hcounter
  simp only [exec, Counter.expire] at hcounter
  cases hlive : Counter.live redis.now redis.bucket with
  | none =>
    rw [hlive] at hcounter
    exact h counter hcounter
  | some old =>
    rw [hlive] at hcounter
    cases hcounter
    exact h old (Counter.live_eq_some.1 hlive).1

theorem Move.formed (h : Move windowSeconds st e st') (hformed : Formed windowSeconds st) :
    Formed windowSeconds st' := by
  cases h with
  | tick ms => exact ⟨hformed.calls, hformed.positive⟩
  | call s limit hfree =>
    refine hformed.goOn (fun rest hrest => ?_) hformed.positive
    cases hrest
    exact Or.inl ⟨limit, rfl⟩
  | first s limit hnone =>
    refine hformed.goOn (fun rest hrest => ?_) (fun counter hcounter => ?_)
    · cases hrest
      exact Or.inr (Or.inl ⟨limit, rfl⟩)
    · cases hcounter
      exact Nat.one_pos
  | count s rest counter hlive hs hrest =>
    refine hformed.goOn (fun rest' hrest' => ?_) (fun counter' hcounter => ?_)
    · cases hrest'
      exact Or.inr (Or.inr hrest)
    · cases hcounter
      exact Nat.succ_pos _
  | date s rest hs hrest =>
    refine hformed.goOn (fun rest' hrest' => ?_) (positive_expire hformed.positive)
    cases hrest'
    exact Or.inr (Or.inr hrest)
  | refuse s rest hs hrest =>
    refine hformed.goOn (fun rest' hrest' => ?_) hformed.positive
    cases hrest'
    exact Or.inr (Or.inr hrest)
  | cut s hbusy => exact hformed.goOn (fun rest hrest => by cases hrest) hformed.positive

theorem expiring_goOn_self {s : S} {redis : Redis} {p : Option (Act Unit)} :
    (st.goOn s redis p).expiring s = p.any setsTime := by
  simp only [System.expiring, System.goOn, Function.update_self]

theorem expiring_goOn_of_ne {s s' : S} (h : s' ≠ s) {redis : Redis} {p : Option (Act Unit)} :
    (st.goOn s redis p).expiring s' = st.expiring s' := by
  simp only [System.expiring, System.goOn, Function.update_of_ne h]

/-- Nobody is about to set the time. -/
def Nobody (st : System S) : Prop := ∀ s, st.expiring s = false

theorem Nobody.goOn (h : Nobody st) {s : S} {redis : Redis} {p : Option (Act Unit)}
    (hp : p.any setsTime = false) : Nobody (st.goOn s redis p) := by
  intro s'
  by_cases hs : s' = s
  · rw [hs, expiring_goOn_self, hp]
  · rw [expiring_goOn_of_ne hs, h s']

/-- The bucket will be gone within a window. -/
structure Dated (windowSeconds : ℕ) (st : System S) : Prop where
  nobody : Nobody st
  deadline : ∀ counter, st.redis.bucket = some counter →
    ∃ e, counter.deadline = some e ∧ e ≤ st.redis.now + 1000 * windowSeconds

/-- The bucket has no time, and `s` alone is about to set it. -/
structure Setting (s : S) (st : System S) : Prop where
  only : ∀ s', st.expiring s' = true ↔ s' = s
  undated : ∃ n, st.redis.bucket = some ⟨n + 1, none⟩

/-- The bucket has no time, and nobody is about to set it; more than `n` calls are counted. -/
structure Stuck (n : ℕ) (st : System S) : Prop where
  nobody : Nobody st
  undated : ∃ m, n ≤ m ∧ st.redis.bucket = some ⟨m + 1, none⟩

theorem setsTime_enforceWindow (limit : ℤ) (windowSeconds : ℕ) :
    setsTime (enforceWindow limit windowSeconds) = false := by
  rw [enforceWindow_eq]
  rfl

omit [DecidableEq S] in
theorem busy_of_expiring {s : S} (h : st.expiring s = true) : st.busy s = true := by
  obtain ⟨p, hp, hsets⟩ := (Option.any_eq_true _ _).1 h
  rw [System.busy, hp]
  -- what is over has no next command
  cases p with
  | ret a => cases hsets
  | raise e => cases hsets
  | op c k => rfl

omit [DecidableEq S] in
/-- A bucket without a time is there. -/
theorem live_of_bucket {n : ℕ} (h : st.redis.bucket = some ⟨n, none⟩) :
    Counter.live st.redis.now st.redis.bucket = some ⟨n, none⟩ := by
  rw [h]
  exact Counter.live_of_undated

/-- **A bucket that is stuck stays so.** -/
theorem Move.stuck {n : ℕ} (h : Move windowSeconds st e st') (hstuck : Stuck n st) : Stuck n st' := by
  obtain ⟨hnobody, m, hle, hm⟩ := hstuck
  have hlive := live_of_bucket hm
  cases h with
  | tick ms => exact ⟨hnobody, m, hle, hm⟩
  | call s limit hfree => exact ⟨hnobody.goOn (setsTime_enforceWindow limit windowSeconds), m, hle, hm⟩
  | first s limit hnone =>
    rw [hlive] at hnone
    cases hnone
  | count s rest counter hlive' hs hrest =>
    rw [hlive] at hlive'
    cases hlive'
    exact ⟨hnobody.goOn hrest.setsTime, m + 1, hle.trans (Nat.le_succ m), rfl⟩
  | date s rest hs hrest =>
    rw [hnobody s] at hs
    cases hs
  | refuse s rest hs hrest => exact ⟨hnobody.goOn hrest.setsTime, m, hle, hm⟩
  | cut s hbusy => exact ⟨hnobody.goOn rfl, m, hle, hm⟩

/-- Another call goes on, and does not set the time next. -/
theorem Setting.goOn {s s' : S} (h : Setting s st) (hs : s' ≠ s) {redis : Redis} {p : Option (Act Unit)}
    (hp : p.any setsTime = false) (hb : ∃ n, redis.bucket = some ⟨n + 1, none⟩) : Setting s (st.goOn s' redis p) := by
  refine ⟨fun x => ?_, hb⟩
  by_cases hx : x = s'
  · rw [hx, expiring_goOn_self, hp]
    exact iff_of_false Bool.false_ne_true hs
  · rw [expiring_goOn_of_ne hx]
    exact h.only x

/-- Its own call goes on, and nobody is about to set the time any more. -/
theorem Setting.nobody {s : S} (h : Setting s st) {redis : Redis} {p : Option (Act Unit)}
    (hp : p.any setsTime = false) : Nobody (st.goOn s redis p) := by
  intro x
  by_cases hx : x = s
  · rw [hx, expiring_goOn_self, hp]
  · rw [expiring_goOn_of_ne hx, Bool.eq_false_iff]
    exact fun hexpiring => hx ((h.only x).1 hexpiring)

/-- **Where the time is about to be set**, it is set, or the call is cut off and the bucket is
    stuck. -/
theorem Move.setting {s : S} (h : Move windowSeconds st e st') (hset : Setting s st) :
    (e = .cut s ∧ Stuck 0 st') ∨ (e ≠ .cut s ∧ (Setting s st' ∨ Dated windowSeconds st')) := by
  obtain ⟨n, hn⟩ := hset.undated
  have hlive := live_of_bucket hn
  have hself : st.expiring s = true := (hset.only s).2 rfl
  have hother : ∀ s', st.expiring s' = false → s' ≠ s := by
    rintro s' hs' rfl
    rw [hself] at hs'
    cases hs'
  cases h with
  | tick ms => exact Or.inr ⟨nofun, Or.inl ⟨hset.only, n, hn⟩⟩
  | call s' limit hfree =>
    refine Or.inr ⟨nofun, Or.inl (hset.goOn ?_ (setsTime_enforceWindow limit windowSeconds) ⟨n, hn⟩)⟩
    rintro rfl
    rw [busy_of_expiring hself] at hfree
    cases hfree
  | first s' limit hnone =>
    rw [hlive] at hnone
    cases hnone
  | count s' rest counter hlive' hs' hrest =>
    rw [hlive] at hlive'
    cases hlive'
    exact Or.inr ⟨nofun, Or.inl (hset.goOn (hother s' hs') hrest.setsTime ⟨n + 1, rfl⟩)⟩
  | date s' rest hs' hrest =>
    obtain rfl := (hset.only s').1 hs'
    refine Or.inr ⟨nofun, Or.inr ⟨hset.nobody hrest.setsTime, fun counter hcounter => ?_⟩⟩
    simp only [System.goOn, exec, Counter.expire_of_live hlive] at hcounter ⊢
    cases hcounter
    exact ⟨_, rfl, Nat.le_refl _⟩
  | refuse s' rest hs' hrest =>
    exact Or.inr ⟨nofun, Or.inl (hset.goOn (hother s' hs') hrest.setsTime ⟨n, hn⟩)⟩
  | cut s' hbusy =>
    by_cases hs' : s' = s
    · subst hs'
      exact Or.inl ⟨rfl, hset.nobody rfl, n, Nat.zero_le n, hn⟩
    · refine Or.inr ⟨fun he => ?_, Or.inl (hset.goOn hs' rfl ⟨n, hn⟩)⟩
      cases he
      exact hs' rfl

/-- **A bucket with its time** keeps it, or is gone and the next call starts it anew. -/
theorem Move.dated (h : Move windowSeconds st e st') (hdated : Dated windowSeconds st) :
    Dated windowSeconds st' ∨ ∃ s, Setting s st' := by
  obtain ⟨hnobody, hdeadline⟩ := hdated
  cases h with
  | tick ms =>
    refine Or.inl ⟨hnobody, fun counter hcounter => ?_⟩
    obtain ⟨e, he, hle⟩ := hdeadline counter hcounter
    exact ⟨e, he, hle.trans (Nat.add_le_add_right (Nat.le_add_right _ _) _)⟩
  | call s limit hfree => exact Or.inl ⟨hnobody.goOn (setsTime_enforceWindow limit windowSeconds), hdeadline⟩
  | first s limit hnone =>
    refine Or.inr ⟨s, fun s' => ?_, 0, rfl⟩
    by_cases hs' : s' = s
    · subst hs'
      rw [expiring_goOn_self]
      exact iff_of_true rfl rfl
    · rw [expiring_goOn_of_ne hs', hnobody s']
      exact iff_of_false Bool.false_ne_true hs'
  | count s rest counter hlive hs hrest =>
    refine Or.inl ⟨hnobody.goOn hrest.setsTime, fun counter' hcounter => ?_⟩
    cases hcounter
    exact hdeadline counter (Counter.live_eq_some.1 hlive).1
  | date s rest hs hrest =>
    rw [hnobody s] at hs
    cases hs
  | refuse s rest hs hrest => exact Or.inl ⟨hnobody.goOn hrest.setsTime, hdeadline⟩
  | cut s hbusy => exact Or.inl ⟨hnobody.goOn rfl, hdeadline⟩

/-! ## Back to zero -/

/-- The bucket will be gone at `e`. -/
structure Lasting (e : ℕ) (st : System S) : Prop where
  nobody : Nobody st
  dated : ∃ counter, st.redis.bucket = some counter ∧ counter.deadline = some e
  later : st.redis.now < e

/-- Until then nothing changes its time. -/
theorem Move.lasting {deadline : ℕ} (h : Move windowSeconds st e st') (hlasting : Lasting deadline st) :
    Lasting deadline st' ∨ st'.count = 0 := by
  obtain ⟨hnobody, ⟨counter, hcounter, hdeadline⟩, hlater⟩ := hlasting
  have hlive : Counter.live st.redis.now st.redis.bucket = some counter := by
    refine Counter.live_eq_some.2 ⟨hcounter, fun e he => ?_⟩
    rw [hdeadline] at he
    cases he
    exact hlater
  cases h with
  | tick ms =>
    by_cases hms : st.redis.now + ms < deadline
    · exact Or.inl ⟨hnobody, ⟨counter, hcounter, hdeadline⟩, hms⟩
    · -- its time is over
      refine Or.inr (Counter.count_of_none ?_)
      rw [Option.eq_none_iff_forall_ne_some]
      intro other hother
      obtain ⟨hsame, hlater'⟩ := Counter.live_eq_some.1 hother
      rw [hcounter] at hsame
      cases hsame
      exact hms (hlater' deadline hdeadline)
  | call s limit hfree =>
    exact Or.inl ⟨hnobody.goOn (setsTime_enforceWindow limit windowSeconds), ⟨counter, hcounter, hdeadline⟩, hlater⟩
  | first s limit hnone =>
    rw [hlive] at hnone
    cases hnone
  | count s rest counter' hlive' hs hrest =>
    rw [hlive] at hlive'
    cases hlive'
    exact Or.inl ⟨hnobody.goOn hrest.setsTime, ⟨_, rfl, hdeadline⟩, hlater⟩
  | date s rest hs hrest =>
    rw [hnobody s] at hs
    cases hs
  | refuse s rest hs hrest => exact Or.inl ⟨hnobody.goOn hrest.setsTime, ⟨counter, hcounter, hdeadline⟩, hlater⟩
  | cut s hbusy => exact Or.inl ⟨hnobody.goOn rfl, ⟨counter, hcounter, hdeadline⟩, hlater⟩

/-- A bucket with its time goes back to zero. -/
theorem Dated.resets (hdated : Dated windowSeconds st) (hformed : Formed windowSeconds st) :
    Resets windowSeconds st := by
  intro hpos
  obtain ⟨counter, hlive⟩ := Counter.exists_live hpos
  obtain ⟨hcounter, hlater⟩ := Counter.live_eq_some.1 hlive
  obtain ⟨e, he, hle⟩ := hdated.deadline counter hcounter
  refine ⟨⟨counter, e, hlive, he⟩, fun es st' hrun hnow => ?_⟩
  have hstart : Formed windowSeconds st ∧ Lasting e st :=
    ⟨hformed, hdated.nobody, ⟨counter, hcounter, he⟩, hlater e he⟩
  have hstep : ∀ {ev : Event S} {s s' : System S}, Formed windowSeconds s ∧ Lasting e s →
      step windowSeconds ev s = some s' → (Formed windowSeconds s' ∧ Lasting e s') ∨ s'.count = 0 := by
    rintro ev s s' ⟨hformed, hlasting⟩ hs'
    have hmove := move_of_step hformed hs'
    rcases hmove.lasting hlasting with hlasting | hzero
    · exact Or.inl ⟨hmove.formed hformed, hlasting⟩
    · exact Or.inr hzero
  rcases Machine.run_until hstep hstart hrun with ⟨-, hlasting⟩ | hzero
  · exact absurd (hle.trans hnow) (Nat.not_le_of_lt hlasting.later)
  · exact hzero

omit [DecidableEq S] in
/-- A bucket that is stuck is counted on. -/
theorem Stuck.live {n : ℕ} (h : Stuck n st) : ∃ m, n ≤ m ∧
    Counter.live st.redis.now st.redis.bucket = some ⟨m + 1, none⟩ := by
  obtain ⟨m, hle, hm⟩ := h.undated
  exact ⟨m, hle, live_of_bucket hm⟩

theorem Stuck.not_resets {n : ℕ} (h : Stuck n st) : ¬ Resets windowSeconds st := by
  obtain ⟨m, -, hlive⟩ := h.live
  intro hresets
  have hpos : 0 < st.count := by
    rw [System.count, Counter.count_of_live hlive]
    exact Nat.succ_pos m
  obtain ⟨⟨counter, e, hcounter, he⟩, -⟩ := hresets hpos
  rw [hlive] at hcounter
  cases hcounter
  cases he

/-! ## Runs -/

variable {es : List (Event S)}

omit [DecidableEq S] in
theorem formed_initial : Formed windowSeconds (.initial : System S) where
  calls := by
    intro s p hp
    cases hp
  positive := by
    intro counter hcounter
    cases hcounter

omit [DecidableEq S] in
theorem dated_initial : Dated windowSeconds (.initial : System S) where
  nobody := fun _ => rfl
  deadline := by
    intro counter hcounter
    cases hcounter

theorem formed_of_run (h : Machine.run (step windowSeconds) es st = some st') (hformed : Formed windowSeconds st) :
    Formed windowSeconds st' :=
  Machine.run_inv (I := Formed windowSeconds) (P := fun _ => True)
    (fun _ hI hstep => (move_of_step hI hstep).formed hI) (fun _ _ => trivial) hformed h

theorem stuck_of_run {n : ℕ} (h : Machine.run (step windowSeconds) es st = some st')
    (hformed : Formed windowSeconds st) (hstuck : Stuck n st) : Stuck n st' := by
  refine (Machine.run_inv (I := fun st => Formed windowSeconds st ∧ Stuck n st) (P := fun _ => True)
    (fun _ hI hstep => ?_) (fun _ _ => trivial) ⟨hformed, hstuck⟩ h).2
  have hmove := move_of_step hI.1 hstep
  exact ⟨hmove.formed hI.1, hmove.stuck hI.2⟩

/-- **Locked out**: once a bucket is stuck at a limit, every call that counts on it reads more. -/
theorem locked_out {limit : ℕ} (hformed : Formed windowSeconds st) (hstuck : Stuck limit st)
    (h : Machine.run (step windowSeconds) es st = some st') : limit < (exec .incr st'.redis).1 := by
  obtain ⟨m, hle, hlive⟩ := (stuck_of_run h hformed hstuck).live
  simp only [exec, Counter.incr_of_live hlive]
  omega

/-- In every run the bucket is in one of its stages. -/
theorem stage_of_run (h : Machine.run (step windowSeconds) es .initial = some st) :
    Dated windowSeconds st ∨ (∃ s, Setting s st) ∨ Stuck 0 st := by
  refine (Machine.run_inv (I := fun st => Formed windowSeconds st ∧
      (Dated windowSeconds st ∨ (∃ s, Setting s st) ∨ Stuck 0 st)) (P := fun _ => True)
    (fun _ hI hstep => ?_) (fun _ _ => trivial) ⟨formed_initial, Or.inl dated_initial⟩ h).2
  have hmove := move_of_step hI.1 hstep
  refine ⟨hmove.formed hI.1, ?_⟩
  rcases hI.2 with hdated | ⟨s, hset⟩ | hstuck
  · rcases hmove.dated hdated with hdated | hset
    · exact Or.inl hdated
    · exact Or.inr (Or.inl hset)
  · rcases hmove.setting hset with ⟨-, hstuck⟩ | ⟨-, hset | hdated⟩
    · exact Or.inr (Or.inr hstuck)
    · exact Or.inr (Or.inl ⟨s, hset⟩)
    · exact Or.inl hdated
  · exact Or.inr (Or.inr (hmove.stuck hstuck))

end

/-- **No caller is locked out for ever** if and only if no call is cut off after it has read 1
    and before it has set the time: while no call is in progress a positive count has a time to
    live, and goes back to zero within the window. -/
theorem resets_iff {S : Type} [DecidableEq S] (windowSeconds : ℕ) (es : List (Event S)) (st : System S)
    (h : Machine.run (step windowSeconds) es .initial = some st) (hidle : st.Idle) :
    Resets windowSeconds st ↔
      ∀ es₁ s es₂ st₁, es = es₁ ++ .cut s :: es₂ → Machine.run (step windowSeconds) es₁ .initial = some st₁ →
        st₁.expiring s = false := by
  constructor
  · rintro hresets es₁ s es₂ st₁ rfl hst₁
    rw [Bool.eq_false_iff]
    intro hexpiring
    obtain ⟨st₁', hst₁', h⟩ := Machine.run_append.1 h
    rw [hst₁] at hst₁'
    cases hst₁'
    obtain ⟨st₂, hst₂, h⟩ := Machine.run_cons.1 h
    have hformed := formed_of_run hst₁ formed_initial
    have hmove := move_of_step hformed hst₂
    have hset : Setting s st₁ := by
      rcases stage_of_run hst₁ with hdated | ⟨s', hset⟩ | hstuck
      · rw [hdated.nobody s] at hexpiring
        cases hexpiring
      · obtain rfl := (hset.only s).1 hexpiring
        exact hset
      · rw [hstuck.nobody s] at hexpiring
        cases hexpiring
    rcases hmove.setting hset with ⟨-, hstuck⟩ | ⟨hne, -⟩
    · exact (stuck_of_run h (hmove.formed hformed) hstuck).not_resets hresets
    · exact hne rfl
  · intro hkeep
    have hsafe : Formed windowSeconds st ∧ (Dated windowSeconds st ∨ ∃ s, Setting s st) := by
      refine Machine.run_inv_along
        (I := fun st => Formed windowSeconds st ∧ (Dated windowSeconds st ∨ ∃ s, Setting s st)) ?_
        ⟨formed_initial, Or.inl dated_initial⟩ h
      rintro es₁ e es₂ s₁ s₂ hes hs₁ hs₂ ⟨hformed, hstage⟩
      have hmove := move_of_step hformed hs₂
      refine ⟨hmove.formed hformed, ?_⟩
      rcases hstage with hdated | ⟨s, hset⟩
      · exact hmove.dated hdated
      · rcases hmove.setting hset with ⟨rfl, -⟩ | ⟨-, hset | hdated⟩
        · have hnot := hkeep es₁ s es₂ s₁ hes hs₁
          rw [(hset.only s).2 rfl] at hnot
          cases hnot
        · exact Or.inr ⟨s, hset⟩
        · exact Or.inl hdated
    rcases hsafe.2 with hdated | ⟨s, hset⟩
    · exact hdated.resets hsafe.1
    · have hbusy := busy_of_expiring ((hset.only s).2 rfl)
      rw [hidle s] at hbusy
      cases hbusy

/-- A call that is cut off before it counts, one that is not cut off, and one that is when it
    has read 2 and is being refused. -/
def harmlessCuts : List (Event Unit) :=
  [.call () 3, .cut (), .call () 3, .command (), .command (), .call () 1, .command (), .cut ()]

/-- The count goes back to zero. -/
theorem harmlessCuts_resets : ∃ st, Machine.run (step 1800) harmlessCuts .initial = some st ∧ Resets 1800 st := by
  refine ⟨_, rfl, (resets_iff 1800 harmlessCuts _ rfl fun _ => rfl).2 ?_⟩
  intro es₁ s es₂ st₁ hes hst₁
  simp only [harmlessCuts, List.cons_eq_append_iff, List.cons.injEq, List.nil_eq, reduceCtorEq, false_and, and_false,
    or_false, false_or, List.append_eq_nil_iff, exists_const] at hes
  -- the two places where the list is cut
  obtain ⟨_, rfl, ⟨rfl, -⟩ | ⟨_, rfl, _, rfl, _, rfl, _, rfl, _, rfl, _, rfl, rfl, -⟩⟩ := hes
  · cases hst₁
    rfl
  · cases hst₁
    rfl

/-- A call that is cut off when it has read 1. -/
def cutOff : List (Event Unit) := [.call () 3, .command (), .cut ()]

/-- Its count is there for ever. -/
theorem cutOff_stuck : ∃ st, Machine.run (step 1800) cutOff .initial = some st ∧ st.Idle ∧ ¬ Resets 1800 st := by
  refine ⟨_, rfl, fun _ => rfl, ?_⟩
  exact Stuck.not_resets (n := 0) ⟨fun _ => rfl, 0, Nat.le_refl 0, rfl⟩

end RateLimit

end BrainstormServer
