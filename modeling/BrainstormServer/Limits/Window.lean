/-
  How many calls a rate limit lets through (`app/utils/rate_limiting/rate_limiting.py`).

  The window of a bucket starts with the first call that it counts, and not with the call that
  asks.  So what a bucket lets through within the length of a window can belong to two windows,
  one that ends and one that starts.

  * `letThrough`: the calls that the bucket counts and that are not refused;
  * `Count`: what was let through so far belongs to one window, or to two;
  * `letThrough_le`: hence less than twice the limit, within the length of a window.
-/
import BrainstormServer.Limits.RateLimit

namespace BrainstormServer

namespace RateLimit

open Conc Prog

/-! ## What is let through -/

/-- The next command counts the call. -/
def counts : Act Unit → Bool
  | .op .incr _ => true
  | _ => false

/-- The call is over and was not refused. -/
def passed : Act Unit → Bool
  | .ret () => true
  | _ => false

/-- The call will not be refused: at most its time is still to be set. -/
def passes : Act Unit → Bool
  | .op (.expire _) k => passed (k true)
  | p => passed p

section
variable {S : Type} [DecidableEq S]

/-- With this event a call is counted that is not refused. -/
def admits (windowSeconds : ℕ) : Event S → System S → Bool
  | .command s, st => (st.calls s).any counts &&
    (step windowSeconds (.command s) st).any fun st' => (st'.calls s).any passes
  | _, _ => false

/-- How many calls are let through in a run. -/
def letThrough (windowSeconds : ℕ) (es : List (Event S)) (st : System S) : ℕ :=
  Machine.tally (step windowSeconds) (admits windowSeconds) es st

/-- No call is made with a limit above `most`. -/
def Within (most : ℕ) (es : List (Event S)) : Prop := ∀ e ∈ es, ∀ s limit, e = .call s limit → limit ≤ (most : ℤ)

variable {windowSeconds most : ℕ} {st st' : System S} {e : Event S}

/-- A call that is still to be counted has a limit of at most `most`. -/
def Limited (windowSeconds most : ℕ) (st : System S) : Prop := ∀ s p, st.calls s = some p →
  (∃ limit : ℤ, limit ≤ most ∧ p = enforceWindow limit windowSeconds) ∨ counts p = false

/-- A call passes if what it reads is within its limit. -/
theorem le_of_passes {limit : ℤ} {current : ℕ} (h : passes (if current = 1 then dating limit windowSeconds else
    judging limit windowSeconds current) = true) : (current : ℤ) ≤ limit := by
  split_ifs at h with hone
  · have hpassed : passed (judging limit windowSeconds 1) = true := h
    unfold judging at hpassed
    split_ifs at hpassed with hlt
    · cases hpassed
    · rw [hone]
      exact Int.not_lt.1 hlt
  · unfold judging at h
    split_ifs at h with hlt
    · cases h
    · exact Int.not_lt.1 hlt

omit [DecidableEq S] in
theorem incr_fst : (exec .incr st.redis).1 = st.count + 1 := by
  simp only [exec]
  cases hlive : Counter.live st.redis.now st.redis.bucket with
  | none => rw [Counter.incr_of_none hlive, System.count, Counter.count_of_none hlive]
  | some counter => rw [Counter.incr_of_live hlive, System.count, Counter.count_of_live hlive]

/-- Whoever is let through is counted below the limit. -/
theorem incr_of_admits (hlimited : Limited windowSeconds most st) (h : step windowSeconds e st = some st')
    (hadmits : admits windowSeconds e st = true) : st'.redis = (exec .incr st.redis).2 ∧ st.count < most := by
  cases e with
  | tick ms => cases hadmits
  | call s limit => cases hadmits
  | cut s => cases hadmits
  | command s =>
    simp only [admits, h, Option.any_some, Bool.and_eq_true] at hadmits
    obtain ⟨hcounts, hpasses⟩ := hadmits
    obtain ⟨p, hp, hcounts⟩ := (Option.any_eq_true _ _).1 hcounts
    rcases hlimited s p hp with ⟨limit, hle, rfl⟩ | hother
    · rw [step, hp, Option.bind_some, enforceWindow_eq] at h
      cases h
      simp only [System.goOn, Function.update_self, Option.any_some] at hpasses
      have hread := (le_of_passes hpasses).trans hle
      rw [incr_fst] at hread
      exact ⟨rfl, by omega⟩
    · rw [hother] at hcounts
      cases hcounts

/-- What a move does to the bucket. -/
theorem Move.redis (h : Move windowSeconds st e st') : st'.redis = st.redis ∨
    (∃ ms, st'.redis = { st.redis with now := st.redis.now + ms }) ∨ st'.redis = (exec .incr st.redis).2 ∨
    st'.redis = (exec (.expire windowSeconds) st.redis).2 := by
  cases h with
  | tick ms => exact Or.inr (Or.inl ⟨ms, rfl⟩)
  | call s limit hfree => exact Or.inl rfl
  | first s limit hnone =>
    refine Or.inr (Or.inr (Or.inl ?_))
    simp only [System.goOn, exec, Counter.incr_of_none hnone]
  | count s rest counter hlive hs hrest =>
    refine Or.inr (Or.inr (Or.inl ?_))
    simp only [System.goOn, exec, Counter.incr_of_live hlive]
  | date s rest hs hrest => exact Or.inr (Or.inr (Or.inr rfl))
  | refuse s rest hs hrest => exact Or.inl rfl
  | cut s hbusy => exact Or.inl rfl

theorem counts_of_ending {p : Act Unit} (h : Ending windowSeconds p) : counts p = false := by
  rcases h with hdone | rfl
  · cases p with
    | ret a => rfl
    | raise e => rfl
    | op c k => cases hdone
  · rfl

theorem Limited.goOn (h : Limited windowSeconds most st) {s : S} {redis : Redis} {p : Option (Act Unit)}
    (hp : ∀ rest, p = some rest → (∃ limit : ℤ, limit ≤ most ∧ rest = enforceWindow limit windowSeconds) ∨
      counts rest = false) : Limited windowSeconds most (st.goOn s redis p) := by
  intro s' rest hrest
  by_cases hs : s' = s
  · subst hs
    simp only [System.goOn, Function.update_self] at hrest
    exact hp rest hrest
  · simp only [System.goOn, Function.update_of_ne hs] at hrest
    exact h s' rest hrest

theorem Move.limited (h : Move windowSeconds st e st') (hwithin : ∀ s limit, e = .call s limit → limit ≤ (most : ℤ))
    (hlimited : Limited windowSeconds most st) : Limited windowSeconds most st' := by
  cases h with
  | tick ms => exact hlimited
  | call s limit hfree =>
    refine hlimited.goOn fun rest hrest => ?_
    cases hrest
    exact Or.inl ⟨limit, hwithin s limit rfl, rfl⟩
  | first s limit hnone =>
    refine hlimited.goOn fun rest hrest => ?_
    cases hrest
    exact Or.inr rfl
  | count s rest counter hlive hs hrest =>
    refine hlimited.goOn fun rest' hrest' => ?_
    cases hrest'
    exact Or.inr (counts_of_ending hrest)
  | date s rest hs hrest =>
    refine hlimited.goOn fun rest' hrest' => ?_
    cases hrest'
    exact Or.inr (counts_of_ending hrest)
  | refuse s rest hs hrest =>
    refine hlimited.goOn fun rest' hrest' => ?_
    cases hrest'
    exact Or.inr (counts_of_ending hrest)
  | cut s hbusy => exact hlimited.goOn fun rest hrest => by cases hrest

/-! ## Two windows at most -/

/-- Of `n` calls that were let through since the time `start`, all were counted in the window that was
    open then, or the others in one that will be open until a window's length after `start`. -/
inductive Count (windowSeconds most start n : ℕ) (r : Redis) : Prop
  | one (hmost : n ≤ most - 1) (hlive : ∀ counter, Counter.live r.now r.bucket = some counter → n < counter.value)
  | two (counter : Counter ℕ) (hlive : Counter.live r.now r.bucket = some counter)
      (hdeadline : ∀ e, counter.deadline = some e → start + 1000 * windowSeconds ≤ e)
      (hmost : n ≤ most - 1 + min counter.value most)

variable {start n : ℕ} {r : Redis}

theorem Count.le (h : Count windowSeconds most start n r) : n ≤ 2 * most - 1 := by
  cases h with
  | one hmost hlive => omega
  | two counter hlive hdeadline hmost => omega

theorem Count.tick (h : Count windowSeconds most start n r) (ms : ℕ)
    (hbefore : r.now + ms < start + 1000 * windowSeconds) :
    Count windowSeconds most start n { r with now := r.now + ms } := by
  cases h with
  | one hmost hlive =>
    refine .one hmost fun counter hcounter => ?_
    obtain ⟨hbucket, hlater⟩ := Counter.live_eq_some.1 hcounter
    refine hlive counter (Counter.live_eq_some.2 ⟨hbucket, fun e he => ?_⟩)
    exact (Nat.le_add_right r.now ms).trans_lt (hlater e he)
  | two counter hlive hdeadline hmost =>
    refine .two counter (Counter.live_eq_some.2 ⟨(Counter.live_eq_some.1 hlive).1, fun e he => ?_⟩) hdeadline hmost
    exact hbefore.trans_le (hdeadline e he)

/-- A bucket is there with a value added. -/
theorem live_incr {counter : Counter ℕ} (h : Counter.live r.now r.bucket = some counter) :
    Counter.live (exec .incr r).2.now (exec .incr r).2.bucket = some ⟨counter.value + 1, counter.deadline⟩ := by
  simp only [exec, Counter.incr_of_live h]
  exact Counter.live_eq_some.2 ⟨rfl, (Counter.live_eq_some.1 h).2⟩

theorem live_incr_of_none (h : Counter.live r.now r.bucket = none) :
    Counter.live (exec .incr r).2.now (exec .incr r).2.bucket = some ⟨1, none⟩ := by
  simp only [exec, Counter.incr_of_none h]
  exact Counter.live_of_undated

theorem Count.incr (h : Count windowSeconds most start n r) :
    Count windowSeconds most start n (exec .incr r).2 := by
  cases h with
  | one hmost hlive =>
    cases hr : Counter.live r.now r.bucket with
    | none =>
      refine .two _ (live_incr_of_none hr) (fun e he => by cases he) ?_
      exact hmost.trans (Nat.le_add_right _ _)
    | some counter =>
      refine .one hmost fun counter' hcounter' => ?_
      rw [live_incr hr] at hcounter'
      cases hcounter'
      exact Nat.lt_succ_of_lt (hlive counter hr)
  | two counter hlive hdeadline hmost =>
    refine .two _ (live_incr hlive) hdeadline ?_
    dsimp only
    omega

/-- A call that is let through is one of the window that counts it. -/
theorem Count.admit (h : Count windowSeconds most start n r) (hcount : Counter.count r.now r.bucket < most) :
    Count windowSeconds most start (n + 1) (exec .incr r).2 := by
  cases h with
  | one hmost hlive =>
    cases hr : Counter.live r.now r.bucket with
    | none =>
      rw [Counter.count_of_none hr] at hcount
      refine .two _ (live_incr_of_none hr) (fun e he => by cases he) ?_
      rw [min_eq_left hcount]
      exact Nat.add_le_add_right hmost 1
    | some counter =>
      rw [Counter.count_of_live hr] at hcount
      have hn := hlive counter hr
      refine .one (Nat.le_sub_one_of_lt (Nat.lt_of_le_of_lt hn hcount)) fun counter' hcounter' => ?_
      rw [live_incr hr] at hcounter'
      cases hcounter'
      exact Nat.succ_lt_succ hn
  | two counter hlive hdeadline hmost =>
    rw [Counter.count_of_live hlive] at hcount
    refine .two _ (live_incr hlive) hdeadline ?_
    rw [min_eq_left hcount.le] at hmost
    rw [min_eq_left hcount]
    exact Nat.succ_le_succ hmost

theorem Count.expire (h : Count windowSeconds most start n r) (hstart : start ≤ r.now) (hwindow : 0 < windowSeconds) :
    Count windowSeconds most start n (exec (.expire windowSeconds) r).2 := by
  cases hr : Counter.live r.now r.bucket with
  | none =>
    have hsame : (exec (.expire windowSeconds) r).2 = r := by
      simp only [exec, Counter.expire, hr]
    rw [hsame]
    exact h
  | some counter =>
    have hlive' : Counter.live (exec (.expire windowSeconds) r).2.now (exec (.expire windowSeconds) r).2.bucket =
        some ⟨counter.value, some (r.now + 1000 * windowSeconds)⟩ := by
      simp only [exec, Counter.expire_of_live hr]
      refine Counter.live_eq_some.2 ⟨rfl, fun e he => ?_⟩
      cases he
      omega
    cases h with
    | one hmost hlive =>
      refine .one hmost fun counter' hcounter' => ?_
      rw [hlive'] at hcounter'
      cases hcounter'
      exact hlive counter hr
    | two counter' hlive hdeadline hmost =>
      rw [hr] at hlive
      cases hlive
      refine .two _ hlive' (fun e he => ?_) hmost
      cases he
      exact Nat.add_le_add_right hstart _

theorem Move.now_le (h : Move windowSeconds st e st') : st.redis.now ≤ st'.redis.now := by
  rcases h.redis with hsame | ⟨ms, htick⟩ | hincr | hexpire
  · exact (congrArg Redis.now hsame).ge
  · rw [htick]
    exact Nat.le_add_right _ _
  · exact (congrArg Redis.now hincr).ge
  · exact (congrArg Redis.now hexpire).ge

/-- What a run that started at `start` and let `n` calls through keeps to. -/
structure Counting (windowSeconds most start n : ℕ) (st : System S) : Prop where
  formed : Formed windowSeconds st
  limited : Limited windowSeconds most st
  started : start ≤ st.redis.now
  count : st.redis.now < start + 1000 * windowSeconds → Count windowSeconds most start n st.redis

/-- **Every step counts** whom it lets through. -/
theorem Counting.step (h : Counting windowSeconds most start n st)
    (hwithin : ∀ s limit, e = .call s limit → limit ≤ (most : ℤ)) (hstep : step windowSeconds e st = some st') :
    Counting windowSeconds most start (n + if admits windowSeconds e st then 1 else 0) st' := by
  have hmove := move_of_step h.formed hstep
  refine ⟨hmove.formed h.formed, hmove.limited hwithin h.limited, h.started.trans hmove.now_le, fun hbefore => ?_⟩
  have hcount := h.count (hmove.now_le.trans_lt hbefore)
  split_ifs with hadmits
  · obtain ⟨hredis, hlt⟩ := incr_of_admits h.limited hstep hadmits
    rw [hredis]
    exact hcount.admit hlt
  · rcases hmove.redis with hsame | ⟨ms, htick⟩ | hincr | hexpire
    · rwa [hsame]
    · rw [htick] at hbefore ⊢
      exact hcount.tick ms hbefore
    · rw [hincr]
      exact hcount.incr
    · rw [hexpire]
      refine hcount.expire h.started ?_
      have hnow := h.started.trans_lt (hmove.now_le.trans_lt hbefore)
      omega

/-- **A rate limit holds at any time.**  Whenever one begins to look, and whatever calls are cut
    off, within the length of a window less than twice the limit is let through. -/
theorem letThrough_le {es₁ es₂ : List (Event S)} {st₁ st₂ : System S}
    (h₁ : Machine.run (step windowSeconds) es₁ .initial = some st₁)
    (h₂ : Machine.run (step windowSeconds) es₂ st₁ = some st₂) (hwithin : Within most (es₁ ++ es₂))
    (hwindow : st₂.redis.now < st₁.redis.now + 1000 * windowSeconds) :
    letThrough windowSeconds es₂ st₁ ≤ 2 * most - 1 := by
  have hstart : Formed windowSeconds st₁ ∧ Limited windowSeconds most st₁ := by
    refine Machine.run_inv (I := fun st => Formed windowSeconds st ∧ Limited windowSeconds most st)
      (P := fun e => ∀ s limit, e = .call s limit → limit ≤ (most : ℤ)) (fun hwithin hI hstep => ?_)
      (fun e he => hwithin e (List.mem_append_left _ he)) ⟨formed_initial, fun s p hp => by cases hp⟩ h₁
    have hmove := move_of_step hI.1 hstep
    exact ⟨hmove.formed hI.1, hmove.limited hwithin hI.2⟩
  have hcounting : Counting windowSeconds most st₁.redis.now 0 st₁ :=
    ⟨hstart.1, hstart.2, le_rfl, fun _ => .one (Nat.zero_le _) fun counter hlive =>
      hstart.1.positive counter (Counter.live_eq_some.1 hlive).1⟩
  have hend := Machine.tally_inv (I := Counting windowSeconds most st₁.redis.now)
    (P := fun e => ∀ s limit, e = .call s limit → limit ≤ (most : ℤ))
    (fun hwithin hI hstep => hI.step hwithin hstep) (fun e he => hwithin e (List.mem_append_right _ he)) hcounting h₂
  rw [Nat.zero_add] at hend
  exact (hend.count hwindow).le

/-- Of three calls with a limit of 2, the first is made as a window begins. -/
def early : List (Event ℕ) := [.call 0 2, .command 0, .command 0, .tick 59900]

/-- The second is made as the window ends, and two more when it is over. -/
def late : List (Event ℕ) :=
  [.call 1 2, .command 1, .tick 100, .call 2 2, .command 2, .call 3 2, .command 2, .command 3]

/-- Within a tenth of a second three calls are let through, and no more could be. -/
theorem letThrough_late : ∃ st₁ st₂ : System ℕ, Machine.run (step 60) early .initial = some st₁ ∧
    Machine.run (step 60) late st₁ = some st₂ ∧ letThrough 60 late st₁ = 3 ∧ letThrough 60 late st₁ ≤ 2 * 2 - 1 := by
  have hruns : ∃ st₁ st₂ : System ℕ, Machine.run (step 60) early .initial = some st₁ ∧
      Machine.run (step 60) late st₁ = some st₂ ∧ letThrough 60 late st₁ = 3 ∧
      st₂.redis.now < st₁.redis.now + 1000 * 60 := ⟨_, _, rfl, rfl, rfl, by decide⟩
  obtain ⟨st₁, st₂, h₁, h₂, hthree, hwindow⟩ := hruns
  refine ⟨st₁, st₂, h₁, h₂, hthree, letThrough_le h₁ h₂ (fun e he s limit hcall => ?_) hwindow⟩
  subst hcall
  simp [early, late] at he
  omega

end

end RateLimit

end BrainstormServer
