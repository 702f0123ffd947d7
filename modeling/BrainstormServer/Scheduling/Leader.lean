/-
  The leader lock (`app/services/leader_lock.py`).

  An instance is the leader while a key of Redis holds its id.  `acquire_or_renew_leader`
  sets the key if it is not there; if it is there it reads it, and if it reads its own id
  it sets it again, in a third command.  The key may have run out and been taken by another
  instance in between.

  `exclusive_iff`: nobody else gets to be the leader within the time of a key exactly if no
  instance sets a key again that is by then another's.
-/
import BrainstormServer.Conc.Expiring
import BrainstormServer.Conc.Machine
import BrainstormServer.Conc.Prog
import Mathlib.Order.Nat

namespace BrainstormServer

namespace Leader

open Conc Prog

/-! ## The program -/

/-- The commands, all on the same key. -/
inductive Cmd
  /-- `SET key value NX PX ttl_ms` -/
  | setNx (value : String)
  | get
  /-- `SET key value XX PX ttl_ms` -/
  | setXx (value : String)

@[reducible] def Cmd.Ans : Cmd → Type
  | setNx _ => Bool
  | get => Option String
  | setXx _ => Bool

abbrev Act (α : Type) := Prog (C := Cmd) Cmd.Ans Empty α

/-- Execute a command. -/
def await (c : Cmd) : Act c.Ans := call c

/-- `acquire_or_renew_leader`. -/
def acquireOrRenewLeader (instanceId : String) : Act Bool := do
  if ← await (.setNx instanceId) then
    return true
  else if (← await .get) = some instanceId then
    let _ ← await (.setXx instanceId)
    return true
  else
    return false

/-! ## The system -/

/-- Redis: the time, in milliseconds, and the keys. -/
structure Redis where
  now : ℕ
  keys : Expiring String String ℕ

/-- A call that has not returned; when it set the key, if it did. -/
structure Call where
  rest : Act Bool
  setAt : Option ℕ

/-- A call that has returned. -/
structure Returned where
  instanceId : String
  result : Bool
  time : ℕ
  setAt : Option ℕ

structure System where
  redis : Redis
  calls : String → Option Call
  returned : List Returned

/-- Nobody has called yet, and the key is not there. -/
def System.initial : System := ⟨⟨0, fun _ => none⟩, fun _ => none, []⟩

inductive Event
  | tick (ms : ℕ)
  | call (instanceId : String)
  | command (instanceId : String)

section
variable (ttlMs : ℕ) (key : String)

/-- The effect of a command. -/
def exec : (c : Cmd) → Redis → c.Ans × Redis
  | .setNx value, r =>
    let set := r.keys.setNx r.now key value ttlMs
    (set.1, { r with keys := set.2 })
  | .get, r => (r.keys.live r.now key, r)
  | .setXx value, r =>
    let set := r.keys.setXx r.now key value ttlMs
    (set.1, { r with keys := set.2 })

/-- Whether a command set the key. -/
def sets : (c : Cmd) → c.Ans → Bool
  | .setNx _, ok => ok
  | .get, _ => false
  | .setXx _, ok => ok

/-- When a call set the key, after one more command. -/
def setTime (now : ℕ) (setAt : Option ℕ) : Bool → Option ℕ
  | true => some now
  | false => setAt

/-- A call of `i` goes on with `rest`, or returns. -/
def System.goOn (s : System) (i : String) (redis : Redis) (setAt : Option ℕ) : Act Bool → System
  | .ret result =>
    ⟨redis, Function.update s.calls i none, s.returned ++ [⟨i, result, redis.now, setAt⟩]⟩
  | rest => ⟨redis, Function.update s.calls i (some ⟨rest, setAt⟩), s.returned⟩

/-- A call executes its next command. -/
def System.command (s : System) (i : String) (c : Call) : Option System :=
  match c.rest with
  | .op cmd k =>
    let r := exec ttlMs key cmd s.redis
    some (s.goOn i r.2 (setTime s.redis.now c.setAt (sets cmd r.1)) (k r.1))
  | _ => none

/-- An instance calls again when its call has returned. -/
def step : Event → System → Option System
  | .tick ms, s => some { s with redis := { s.redis with now := s.redis.now + ms } }
  | .call i, s =>
    if (s.calls i).isSome then none
    else some { s with calls := Function.update s.calls i (some ⟨acquireOrRenewLeader i, none⟩) }
  | .command i, s => (s.calls i).bind (s.command ttlMs key i)

end

/-! ## What is claimed -/

/-- A call that returned true and set the key at `t` is followed by no other instance's
    before `t + ttl`. -/
def Exclusive (ttlMs : ℕ) (returned : List Returned) : Prop :=
  returned.Pairwise fun r r' => r.result = true → r'.result = true → r'.instanceId ≠ r.instanceId →
    ∀ t ∈ r.setAt, t + ttlMs ≤ r'.time

instance (ttlMs : ℕ) (returned : List Returned) : Decidable (Exclusive ttlMs returned) :=
  inferInstanceAs (Decidable (List.Pairwise _ _))

/-- Whether the next command is the third one. -/
def Call.renews (c : Call) : Bool :=
  match c.rest with
  | .op (.setXx _) _ => true
  | _ => false

/-- `i` is about to set the key again, and it is another's. -/
def System.Overwrites (key : String) (s : System) (i : String) : Prop :=
  (∃ c, s.calls i = some c ∧ c.renews = true) ∧
    ∃ holder, s.redis.keys.live s.redis.now key = some holder ∧ holder ≠ i

/-! ## What a step can do -/

/-- What is left after the key was found there. -/
def asked (i : String) : Act Bool :=
  .op .get fun value => if value = some i then .op (.setXx i) fun _ => .ret true else .ret false

/-- What is left after the own id was read. -/
def renewing (i : String) : Act Bool := .op (.setXx i) fun _ => .ret true

theorem acquireOrRenewLeader_eq (i : String) :
    acquireOrRenewLeader i = .op (.setNx i) fun ok => if ok = true then .ret true else asked i := rfl

/-- The calls are at one of the three commands, and have not set the key. -/
def Calling (calls : String → Option Call) : Prop :=
  ∀ i c, calls i = some c → c.setAt = none ∧
    (c.rest = acquireOrRenewLeader i ∨ c.rest = asked i ∨ c.rest = renewing i)

/-- The moves of the system. -/
inductive Move (ttlMs : ℕ) (key : String) (s : System) : Event → System → Prop
  | tick (ms : ℕ) : Move ttlMs key s (.tick ms) { s with redis := { s.redis with now := s.redis.now + ms } }
  | call (i : String) : Move ttlMs key s (.call i)
      { s with calls := Function.update s.calls i (some ⟨acquireOrRenewLeader i, none⟩) }
  /-- the key was not there -/
  | acquire (i : String) (hfree : s.redis.keys.live s.redis.now key = none) :
      Move ttlMs key s (.command i)
        ⟨⟨s.redis.now, s.redis.keys.set s.redis.now key i ttlMs⟩, Function.update s.calls i none,
          s.returned ++ [⟨i, true, s.redis.now, some s.redis.now⟩]⟩
  /-- the key was there, and is read next -/
  | ask (i : String) (rest : Act Bool) (hrest : rest = asked i ∨ rest = renewing i) :
      Move ttlMs key s (.command i) { s with calls := Function.update s.calls i (some ⟨rest, none⟩) }
  /-- the key was another's, or gone -/
  | giveUp (i : String) : Move ttlMs key s (.command i)
      ⟨s.redis, Function.update s.calls i none, s.returned ++ [⟨i, false, s.redis.now, none⟩]⟩
  /-- the key is set again -/
  | renew (i holder : String) (hcall : ∃ c, s.calls i = some c ∧ c.renews = true)
      (hholder : s.redis.keys.live s.redis.now key = some holder) :
      Move ttlMs key s (.command i)
        ⟨⟨s.redis.now, s.redis.keys.set s.redis.now key i ttlMs⟩, Function.update s.calls i none,
          s.returned ++ [⟨i, true, s.redis.now, some s.redis.now⟩]⟩
  /-- the key is gone, and the call returns true all the same -/
  | miss (i : String) (hfree : s.redis.keys.live s.redis.now key = none) :
      Move ttlMs key s (.command i)
        ⟨s.redis, Function.update s.calls i none, s.returned ++ [⟨i, true, s.redis.now, none⟩]⟩

section
variable {ttlMs : ℕ} {key : String} {s s' : System} {e : Event}

theorem command_of_exec {i : String} {cmd : Cmd} {k : cmd.Ans → Act Bool} {a : cmd.Ans} {redis : Redis}
    (h : exec ttlMs key cmd s.redis = (a, redis)) :
    s.command ttlMs key i ⟨.op cmd k, none⟩ = some (s.goOn i redis (setTime s.redis.now none (sets cmd a)) (k a)) := by
  simp only [System.command, h]

theorem move_of_step (hcalling : Calling s.calls) (h : step ttlMs key e s = some s') : Move ttlMs key s e s' := by
  cases e with
  | tick ms =>
    cases h
    exact .tick ms
  | call i =>
    simp only [step] at h
    split_ifs at h
    cases h
    exact .call i
  | command i =>
    simp only [step, Option.bind_eq_some_iff] at h
    obtain ⟨⟨rest, setAt⟩, hc, h⟩ := h
    obtain ⟨hset, hrest⟩ := hcalling i _ hc
    dsimp only at hset hrest
    subst hset
    rcases hrest with rfl | rfl | rfl
    · -- the first command
      rw [acquireOrRenewLeader_eq] at h
      cases hnx : s.redis.keys.setNx s.redis.now key i ttlMs with
      | mk ok keys =>
        have hexec : exec ttlMs key (.setNx i) s.redis = (ok, ⟨s.redis.now, keys⟩) := by simp [exec, hnx]
        rw [command_of_exec hexec] at h
        cases ok with
        | true =>
          obtain ⟨hfree, rfl⟩ := Expiring.setNx_true hnx
          cases h
          exact .acquire i hfree
        | false =>
          obtain ⟨-, rfl⟩ := Expiring.setNx_false hnx
          cases h
          exact .ask i (asked i) (Or.inl rfl)
    · -- the second
      have hexec : exec ttlMs key .get s.redis = (s.redis.keys.live s.redis.now key, s.redis) := rfl
      rw [asked, command_of_exec hexec] at h
      split_ifs at h
      · cases h
        exact .ask i (renewing i) (Or.inr rfl)
      · cases h
        exact .giveUp i
    · -- the third
      cases hxx : s.redis.keys.setXx s.redis.now key i ttlMs with
      | mk ok keys =>
        have hexec : exec ttlMs key (.setXx i) s.redis = (ok, ⟨s.redis.now, keys⟩) := by simp [exec, hxx]
        rw [renewing, command_of_exec hexec] at h
        cases ok with
        | true =>
          obtain ⟨hsome, rfl⟩ := Expiring.setXx_true hxx
          obtain ⟨holder, hholder⟩ := Option.isSome_iff_exists.1 hsome
          cases h
          exact .renew i holder ⟨_, hc, rfl⟩ hholder
        | false =>
          obtain ⟨hfree, rfl⟩ := Expiring.setXx_false hxx
          cases h
          exact .miss i hfree

/-! ## Invariants -/

theorem Calling.update {calls : String → Option Call} (h : Calling calls) {i : String} {c : Option Call}
    (hc : ∀ c', c = some c' → c'.setAt = none ∧
      (c'.rest = acquireOrRenewLeader i ∨ c'.rest = asked i ∨ c'.rest = renewing i)) :
    Calling (Function.update calls i c) := by
  intro j c' hj
  by_cases hij : j = i
  · subst hij
    rw [Function.update_self] at hj
    exact hc c' hj
  · rw [Function.update_of_ne hij] at hj
    exact h j c' hj

theorem Move.calling (h : Move ttlMs key s e s') (hcalling : Calling s.calls) : Calling s'.calls := by
  cases h with
  | tick ms => exact hcalling
  | call i =>
    refine hcalling.update fun c' hc' => ?_
    cases hc'
    exact ⟨rfl, Or.inl rfl⟩
  | ask i rest hrest =>
    refine hcalling.update fun c' hc' => ?_
    cases hc'
    exact ⟨rfl, Or.inr hrest⟩
  | acquire i hfree | giveUp i | renew i holder hcall hholder | miss i hfree =>
    refine hcalling.update fun c' hc' => ?_
    cases hc'

/-- The key comes from a call that returned true. -/
structure Traced (ttlMs : ℕ) (key : String) (s : System) : Prop where
  past : ∀ r ∈ s.returned, ∀ t, r.setAt = some t → t ≤ s.redis.now
  source : ∀ holder e, s.redis.keys key = some (holder, e) →
    ∃ r ∈ s.returned, r.result = true ∧ r.instanceId = holder ∧ ∃ t, r.setAt = some t ∧ e = t + ttlMs

/-- A call that sets the key and returns true. -/
theorem Traced.set (h : Traced ttlMs key s) (i : String) (calls : String → Option Call) :
    Traced ttlMs key ⟨⟨s.redis.now, s.redis.keys.set s.redis.now key i ttlMs⟩, calls,
      s.returned ++ [⟨i, true, s.redis.now, some s.redis.now⟩]⟩ where
  past := by
    intro r hr t ht
    rcases List.mem_append.1 hr with hr | hr
    · exact h.past r hr t ht
    · rw [List.mem_singleton.1 hr] at ht
      cases ht
      exact Nat.le_refl _
  source := by
    intro holder e he
    dsimp only at he
    rw [Expiring.set_self] at he
    cases he
    exact ⟨_, List.mem_append_right _ List.mem_cons_self, rfl, rfl, _, rfl, rfl⟩

/-- A call that returns without setting it. -/
theorem Traced.append (h : Traced ttlMs key s) {r : Returned} (hr : r.setAt = none)
    (calls : String → Option Call) : Traced ttlMs key ⟨s.redis, calls, s.returned ++ [r]⟩ where
  past := by
    intro r' hr' t ht
    rcases List.mem_append.1 hr' with hr' | hr'
    · exact h.past r' hr' t ht
    · rw [List.mem_singleton.1 hr', hr] at ht
      cases ht
  source := by
    intro holder e he
    obtain ⟨r', hr', hrest⟩ := h.source holder e he
    exact ⟨r', List.mem_append_left _ hr', hrest⟩

theorem Move.traced (h : Move ttlMs key s e s') (htraced : Traced ttlMs key s) : Traced ttlMs key s' := by
  cases h with
  | tick ms =>
    refine ⟨fun r hr t ht => ?_, htraced.source⟩
    exact Nat.le_trans (htraced.past r hr t ht) (Nat.le_add_right _ _)
  | call i => exact ⟨htraced.past, htraced.source⟩
  | ask i rest hrest => exact ⟨htraced.past, htraced.source⟩
  | acquire i hfree => exact htraced.set i _
  | renew i holder hcall hholder => exact htraced.set i _
  | giveUp i => exact htraced.append rfl _
  | miss i hfree => exact htraced.append rfl _

/-- Who set the key less than `ttl` ago and returned true still has it. -/
def Held (ttlMs : ℕ) (key : String) (s : System) : Prop :=
  ∀ r ∈ s.returned, r.result = true → ∀ t, r.setAt = some t → s.redis.now < t + ttlMs →
    ∃ e, s.redis.keys key = some (r.instanceId, e) ∧ t + ttlMs ≤ e

theorem Held.live (h : Held ttlMs key s) {r : Returned} (hr : r ∈ s.returned) (hresult : r.result = true)
    {t : ℕ} (ht : r.setAt = some t) (hnow : s.redis.now < t + ttlMs) :
    s.redis.keys.live s.redis.now key = some r.instanceId := by
  obtain ⟨e, he, hle⟩ := h r hr hresult t ht hnow
  exact Expiring.live_eq_some.2 ⟨e, he, Nat.lt_of_lt_of_le hnow hle⟩

/-- The key is set by one whom nobody else's key stands in the way of. -/
theorem Held.set (h : Held ttlMs key s) (htraced : Traced ttlMs key s) {i : String}
    (hmine : ∀ holder, s.redis.keys.live s.redis.now key = some holder → holder = i)
    (calls : String → Option Call) :
    Held ttlMs key ⟨⟨s.redis.now, s.redis.keys.set s.redis.now key i ttlMs⟩, calls,
      s.returned ++ [⟨i, true, s.redis.now, some s.redis.now⟩]⟩ := by
  intro r hr hresult t ht hnow
  refine ⟨s.redis.now + ttlMs, ?_⟩
  dsimp only at hr hnow ⊢
  rw [Expiring.set_self]
  rcases List.mem_append.1 hr with hr | hr
  · rw [hmine _ (h.live hr hresult ht hnow)]
    exact ⟨rfl, Nat.add_le_add_right (htraced.past r hr t ht) _⟩
  · rw [List.mem_singleton.1 hr] at ht ⊢
    cases ht
    exact ⟨rfl, Nat.le_refl _⟩

theorem Held.append (h : Held ttlMs key s) {r : Returned} (hr : r.setAt = none)
    (calls : String → Option Call) : Held ttlMs key ⟨s.redis, calls, s.returned ++ [r]⟩ := by
  intro r' hr' hresult t ht hnow
  rcases List.mem_append.1 hr' with hr' | hr'
  · exact h r' hr' hresult t ht hnow
  · rw [List.mem_singleton.1 hr', hr] at ht
    cases ht

/-- One more call that returned true, by one whom nobody else's key stands in the way of. -/
theorem Held.exclusive (h : Held ttlMs key s) (hexclusive : Exclusive ttlMs s.returned) {r : Returned}
    (htime : r.time = s.redis.now)
    (hmine : r.result = true → ∀ holder, s.redis.keys.live s.redis.now key = some holder → holder = r.instanceId) :
    Exclusive ttlMs (s.returned ++ [r]) := by
  refine List.pairwise_append.2 ⟨hexclusive, List.pairwise_singleton _ _, fun r₀ hr₀ r' hr' => ?_⟩
  rw [List.mem_singleton.1 hr']
  intro hresult₀ hresult hne t ht
  rw [htime]
  by_contra hlt
  have hlive := h.live hr₀ hresult₀ ht (Nat.lt_of_not_le hlt)
  exact hne (hmine hresult _ hlive).symm

/-- What holds as long as nobody sets another's key again. -/
structure Safe (ttlMs : ℕ) (key : String) (s : System) : Prop where
  calling : Calling s.calls
  traced : Traced ttlMs key s
  held : Held ttlMs key s
  exclusive : Exclusive ttlMs s.returned

theorem Move.safe (h : Move ttlMs key s e s') (hs : Safe ttlMs key s)
    (hkeep : ∀ i, e = .command i → ¬ s.Overwrites key i) : Safe ttlMs key s' := by
  suffices hboth : Held ttlMs key s' ∧ Exclusive ttlMs s'.returned from
    ⟨h.calling hs.calling, h.traced hs.traced, hboth.1, hboth.2⟩
  cases h with
  | tick ms =>
    refine ⟨fun r hr hresult t ht hnow => ?_, hs.exclusive⟩
    exact hs.held r hr hresult t ht (Nat.lt_of_le_of_lt (Nat.le_add_right _ _) hnow)
  | call i => exact ⟨hs.held, hs.exclusive⟩
  | ask i rest hrest => exact ⟨hs.held, hs.exclusive⟩
  | acquire i hfree =>
    have hmine : ∀ holder, s.redis.keys.live s.redis.now key = some holder → holder = i := by
      intro holder hholder
      rw [hfree] at hholder
      cases hholder
    exact ⟨hs.held.set hs.traced hmine _, hs.held.exclusive hs.exclusive rfl fun _ => hmine⟩
  | giveUp i => exact ⟨hs.held.append rfl _, hs.held.exclusive hs.exclusive rfl fun h => by cases h⟩
  | renew i holder hcall hholder =>
    have hmine : ∀ holder, s.redis.keys.live s.redis.now key = some holder → holder = i := by
      intro holder hholder
      by_contra hne
      exact hkeep i rfl ⟨hcall, holder, hholder, hne⟩
    exact ⟨hs.held.set hs.traced hmine _, hs.held.exclusive hs.exclusive rfl fun _ => hmine⟩
  | miss i hfree =>
    refine ⟨hs.held.append rfl _, hs.held.exclusive hs.exclusive rfl fun _ holder hholder => ?_⟩
    rw [hfree] at hholder
    cases hholder

/-- Setting another's key again breaks the other's tenure. -/
theorem not_exclusive_of_overwrites {i : String} (hcalling : Calling s.calls) (htraced : Traced ttlMs key s)
    (hover : s.Overwrites key i) (h : step ttlMs key (.command i) s = some s') :
    ¬ Exclusive ttlMs s'.returned := by
  obtain ⟨⟨⟨rest, setAt⟩, hc, hrenews⟩, holder, hholder, hne⟩ := hover
  have hrest : rest = renewing i := by
    rcases (hcalling i _ hc).2 with rfl | rfl | rfl
    · cases hrenews
    · cases hrenews
    · rfl
  obtain ⟨e, he, hlt⟩ := Expiring.live_eq_some.1 hholder
  obtain ⟨r, hr, hresult, rfl, t, ht, rfl⟩ := htraced.source holder e he
  have hreturned : ∃ r', s'.returned = s.returned ++ [r'] ∧ r'.result = true ∧ r'.instanceId = i ∧
      r'.time = s.redis.now := by
    simp only [step, hc, Option.bind_some, hrest, renewing, System.command, System.goOn, exec] at h
    cases h
    exact ⟨_, rfl, rfl, rfl, rfl⟩
  obtain ⟨r', hs', hresult', hinstance, htime⟩ := hreturned
  rw [hs', Exclusive, List.pairwise_append]
  rintro ⟨-, -, hall⟩
  have hle := hall r hr r' List.mem_cons_self hresult hresult' (by rw [hinstance]; exact Ne.symm hne) t ht
  rw [htime] at hle
  exact Nat.not_le_of_lt hlt hle

end

/-! ## Runs -/

section
variable {ttlMs : ℕ} {key : String} {es : List Event} {s s' : System}

theorem returned_prefix_of_run (h : Machine.run (step ttlMs key) es s = some s') (hcalling : Calling s.calls) :
    s.returned <+: s'.returned := by
  have hinv : Calling s'.calls ∧ s.returned <+: s'.returned := by
    refine Machine.run_inv (I := fun s' => Calling s'.calls ∧ s.returned <+: s'.returned) (P := fun _ => True)
      (fun _ hI hstep => ?_) (fun _ _ => trivial) ⟨hcalling, List.prefix_rfl⟩ h
    obtain ⟨hcalling, hle⟩ := hI
    have hmove := move_of_step hcalling hstep
    refine ⟨hmove.calling hcalling, hle.trans ?_⟩
    cases hmove with
    | tick | call | ask => exact List.prefix_rfl
    | acquire | giveUp | renew | miss => exact List.prefix_append _ _
  exact hinv.2

theorem safe_initial : Safe ttlMs key .initial where
  calling := by
    intro i c hc
    cases hc
  traced := ⟨by simp [System.initial], by simp [System.initial]⟩
  held := by simp [Held, System.initial]
  exclusive := List.Pairwise.nil

theorem traced_of_run (h : Machine.run (step ttlMs key) es .initial = some s) :
    Calling s.calls ∧ Traced ttlMs key s := by
  have hinitial : Safe ttlMs key .initial := safe_initial
  refine Machine.run_inv (I := fun s => Calling s.calls ∧ Traced ttlMs key s) (P := fun _ => True)
    (fun _ hI hstep => ?_) (fun _ _ => trivial) ⟨hinitial.calling, hinitial.traced⟩ h
  have hmove := move_of_step hI.1 hstep
  exact ⟨hmove.calling hI.1, hmove.traced hI.2⟩

end

/-- **Leadership is exclusive within a tenure** exactly if no instance sets the key again
    when it is another's by then. -/
theorem exclusive_iff (ttlMs : ℕ) (key : String) (es : List Event) (s : System)
    (h : Machine.run (step ttlMs key) es .initial = some s) :
    Exclusive ttlMs s.returned ↔
      ∀ es₁ i es₂ s₁, es = es₁ ++ .command i :: es₂ → Machine.run (step ttlMs key) es₁ .initial = some s₁ →
        ¬ s₁.Overwrites key i := by
  constructor
  · rintro hexclusive es₁ i es₂ s₁ rfl hs₁ hover
    obtain ⟨s₁', hs₁', h⟩ := Machine.run_append.1 h
    rw [hs₁] at hs₁'
    cases hs₁'
    obtain ⟨s₂, hs₂, h⟩ := Machine.run_cons.1 h
    obtain ⟨hcalling, htraced⟩ := traced_of_run hs₁
    have hcalling₂ := (move_of_step hcalling hs₂).calling hcalling
    have hprefix := returned_prefix_of_run h hcalling₂
    exact not_exclusive_of_overwrites hcalling htraced hover hs₂ (hexclusive.sublist hprefix.sublist)
  · intro hkeep
    refine (Machine.run_inv_along (I := Safe ttlMs key) ?_ safe_initial h).exclusive
    intro es₁ e es₂ s₁ s₂ hes hs₁ hs₂ hsafe
    refine (move_of_step hsafe.calling hs₂).safe hsafe fun i hi => ?_
    subst hi
    exact hkeep es₁ i es₂ s₁ hes hs₁

/-- `a` reads its own id, the key runs out, `b` takes it, and `a` sets it again. -/
def lateRenewal : List Event :=
  [.call "a", .command "a", .call "a", .command "a", .command "a", .tick 120000, .call "b", .command "b",
    .command "a"]

/-- Both are the leader at once. -/
theorem two_leaders : ∃ s, Machine.run (step 120000 "lock:scheduler:leader") lateRenewal .initial = some s ∧
    ¬ Exclusive 120000 s.returned := by
  refine ⟨_, rfl, ?_⟩
  decide

/-- It is the last command that sets another's key again. -/
theorem lateRenewal_overwrites : ∃ es₁ i es₂ s₁, lateRenewal = es₁ ++ .command i :: es₂ ∧
    Machine.run (step 120000 "lock:scheduler:leader") es₁ .initial = some s₁ ∧
    s₁.Overwrites "lock:scheduler:leader" i := by
  by_contra hnone
  have hexclusive := (exclusive_iff 120000 "lock:scheduler:leader" lateRenewal _ rfl).2
    fun es₁ i es₂ s₁ hes hs₁ hover => hnone ⟨es₁, i, es₂, s₁, hes, hs₁, hover⟩
  revert hexclusive
  decide

end Leader

end BrainstormServer
