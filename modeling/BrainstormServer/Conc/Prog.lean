/-
  Programs over atomic commands, run alone and interleaved.

  A program (`Prog`) is a tree of commands: `C` are the commands, `A c` the
  answers to the command `c`, `ε` the exceptions.  What a command does is not
  part of the program: `exec s c st ω` is the answer and the next state when
  session `s` executes `c` in the state `st` of a shared store, `ω` being what
  the outside world contributes to that step (a clock, a remote answer); it is
  `none` when the session has to wait.

  * `Prog.alone` runs one program with nobody else about, and `Prog.wp` is its
    total weakest precondition (`wp_alone`);
  * `Config.run` interleaves one program per session, command by command, in
    the order of a given schedule, and keeps the log of what was executed;
  * `Prog.Obeys` is a logic for the commands of one program relative to the
    program's own history, hence independent of the interference by others.
    `run_obeys` transports it to the log of every interleaving.
-/
import Mathlib.Logic.Function.Basic
import Mathlib.Tactic.Common

namespace Conc

/-- Programs over the commands `C` with answers `A`, exceptions `ε` and result `α`. -/
inductive Prog {C : Type} (A : C → Type) (ε α : Type) : Type
  | ret (a : α)
  | raise (e : ε)
  | op (c : C) (k : A c → Prog A ε α)

variable {C : Type} {A : C → Type} {ε α β : Type}

namespace Prog

/-- Sequential composition. -/
def bind : Prog A ε α → (α → Prog A ε β) → Prog A ε β
  | .ret a, f => f a
  | .raise e, _ => .raise e
  | .op c k, f => .op c fun a => (k a).bind f

/-- `try p catch e => h e`. -/
def tryCatch : Prog A ε α → (ε → Prog A ε α) → Prog A ε α
  | .ret a, _ => .ret a
  | .raise e, h => h e
  | .op c k, h => .op c fun a => (k a).tryCatch h

/-- The program of one command. -/
def call (c : C) : Prog A ε (A c) := .op c .ret

/-- Whether there is nothing left to do. -/
def done : Prog A ε α → Bool
  | .ret _ => true
  | .raise _ => true
  | .op _ _ => false

instance : Monad (Prog A ε) where
  pure := .ret
  bind := bind

@[simp] theorem pure_eq (a : α) : (pure a : Prog A ε α) = .ret a := rfl

@[simp] theorem bind_eq (p : Prog A ε α) (f : α → Prog A ε β) : p >>= f = p.bind f := rfl

@[simp] theorem ret_bind (a : α) (f : α → Prog A ε β) : (Prog.ret a).bind f = f a := rfl

@[simp] theorem raise_bind (e : ε) (f : α → Prog A ε β) :
    (Prog.raise e : Prog A ε α).bind f = .raise e := rfl

@[simp] theorem call_bind (c : C) (f : A c → Prog A ε β) : (call c).bind f = .op c f := rfl

theorem bind_assoc {γ : Type} (p : Prog A ε α) (f : α → Prog A ε β) (g : β → Prog A ε γ) :
    (p.bind f).bind g = p.bind fun a => (f a).bind g := by
  induction p with
  | ret a => rfl
  | raise e => rfl
  | op c k ih => exact congrArg (Prog.op c) (funext ih)

/-! ## Running alone -/

section
variable {S σ Ω : Type} (exec : S → (c : C) → σ → Ω → Option (A c × σ)) (s : S)

/-- Run a program with no other session about; the `n`-th command sees the
    world `ω n`.  `none` if the session would have to wait. -/
def alone : Prog A ε α → (ℕ → Ω) → σ → Option (Except ε α × σ)
  | .ret a, _, st => some (.ok a, st)
  | .raise e, _, st => some (.error e, st)
  | .op c k, ω, st => (exec s c st (ω 0)).bind fun r => (k r.1).alone (fun n => ω (n + 1)) r.2

variable (W : Ω → Prop)

/-- Weakest precondition: in worlds of `W` the program, run alone, never has to
    wait and ends with `Q`. -/
def wp : Prog A ε α → (Except ε α → σ → Prop) → σ → Prop
  | .ret a, Q, st => Q (.ok a) st
  | .raise e, Q, st => Q (.error e) st
  | .op c k, Q, st => ∀ ω, W ω → ∃ r, exec s c st ω = some r ∧ (k r.1).wp Q r.2

theorem wp_alone {p : Prog A ε α} {Q : Except ε α → σ → Prop} :
    ∀ {st : σ} (ω : ℕ → Ω), (∀ n, W (ω n)) → p.wp exec s W Q st →
      ∃ r st', p.alone exec s ω st = some (r, st') ∧ Q r st' := by
  induction p with
  | ret a => exact fun _ _ h => ⟨_, _, rfl, h⟩
  | raise e => exact fun _ _ h => ⟨_, _, rfl, h⟩
  | op c k ih =>
    intro st ω hω h
    obtain ⟨r, hr, hk⟩ := h (ω 0) (hω 0)
    obtain ⟨x, st', hx, hQ⟩ := ih r.1 (fun n => ω (n + 1)) (fun n => hω (n + 1)) hk
    exact ⟨x, st', by simp [alone, hr, hx], hQ⟩

theorem wp_mono {p : Prog A ε α} {Q Q' : Except ε α → σ → Prop} (hQ : ∀ r st, Q r st → Q' r st) :
    ∀ {st : σ}, p.wp exec s W Q st → p.wp exec s W Q' st := by
  induction p with
  | ret a => exact fun h => hQ _ _ h
  | raise e => exact fun h => hQ _ _ h
  | op c k ih =>
    intro st h ω hω
    obtain ⟨r, hr, hk⟩ := h ω hω
    exact ⟨r, hr, ih r.1 hk⟩

theorem wp_bind {p : Prog A ε α} {f : α → Prog A ε β} {Q : Except ε β → σ → Prop} :
    ∀ {st : σ}, (p.bind f).wp exec s W Q st ↔ p.wp exec s W
      (fun r st' => match r with
        | .ok a => (f a).wp exec s W Q st'
        | .error e => Q (.error e) st') st := by
  induction p with
  | ret a => exact Iff.rfl
  | raise e => exact Iff.rfl
  | op c k ih =>
    intro st
    simp only [bind, wp, ih]

theorem wp_tryCatch {p : Prog A ε α} {h : ε → Prog A ε α} {Q : Except ε α → σ → Prop} :
    ∀ {st : σ}, (p.tryCatch h).wp exec s W Q st ↔ p.wp exec s W
      (fun r st' => match r with
        | .ok a => Q (.ok a) st'
        | .error e => (h e).wp exec s W Q st') st := by
  induction p with
  | ret a => exact Iff.rfl
  | raise e => exact Iff.rfl
  | op c k ih =>
    intro st
    simp only [tryCatch, wp, ih]

end

/-! ## Own histories -/

/-- The commands a program has executed, each with its answer. -/
abbrev History (A : C → Type) := List (Σ c, A c)

/-- Executions that keep the history beside the state. -/
def logged {S σ Ω : Type} (exec : S → (c : C) → σ → Ω → Option (A c × σ)) (s : S) (c : C)
    (x : σ × History A) (ω : Ω) : Option (A c × σ × History A) :=
  (exec s c x.1 ω).map fun r => (r.1, r.2, x.2 ++ [⟨c, r.1⟩])

/-- The history does not change the run. -/
theorem alone_of_logged {S σ Ω : Type} {exec : S → (c : C) → σ → Ω → Option (A c × σ)} {s : S}
    {p : Prog A ε α} : ∀ {ω : ℕ → Ω} {x : σ × History A} {r : Except ε α} {x' : σ × History A},
      p.alone (logged exec) s ω x = some (r, x') → p.alone exec s ω x.1 = some (r, x'.1) := by
  induction p with
  | ret a =>
    intro ω x r x' h
    cases h
    rfl
  | raise e =>
    intro ω x r x' h
    cases h
    rfl
  | op c k ih =>
    intro ω x r x' h
    simp only [alone, logged, Option.bind_eq_some_iff, Option.map_eq_some_iff] at h ⊢
    obtain ⟨_, ⟨y, hy, rfl⟩, hk⟩ := h
    exact ⟨y, hy, ih y.1 hk⟩

/-- Every answer in the history was given in one of the worlds. -/
theorem answered_of_logged {S σ Ω : Type} {exec : S → (c : C) → σ → Ω → Option (A c × σ)} {s : S}
    {p : Prog A ε α} : ∀ {ω : ℕ → Ω} {x : σ × History A} {r : Except ε α} {x' : σ × History A},
      p.alone (logged exec) s ω x = some (r, x') → ∀ e ∈ x'.2, e ∈ x.2 ∨
        ∃ n st st', exec s e.1 st (ω n) = some (e.2, st') := by
  induction p with
  | ret a =>
    intro ω x r x' h e he
    cases h
    exact Or.inl he
  | raise a =>
    intro ω x r x' h e he
    cases h
    exact Or.inl he
  | op c k ih =>
    intro ω x r x' h e he
    simp only [alone, logged, Option.bind_eq_some_iff, Option.map_eq_some_iff] at h
    obtain ⟨_, ⟨y, hy, rfl⟩, hk⟩ := h
    rcases ih y.1 hk e he with he | ⟨n, st, st', hn⟩
    · rcases List.mem_append.1 he with he | he
      · exact Or.inl he
      · rw [List.mem_singleton.1 he]
        exact Or.inr ⟨0, x.1, y.2, hy⟩
    · exact Or.inr ⟨n + 1, st, st', hn⟩

/-- Every command of the program meets `spec`, given the history before it, and
    the program ends with `Q`. -/
def Obeys (spec : History A → C → Prop) :
    Prog A ε α → (Except ε α → History A → Prop) → History A → Prop
  | .ret a, Q, h => Q (.ok a) h
  | .raise e, Q, h => Q (.error e) h
  | .op c k, Q, h => spec h c ∧ ∀ a, (k a).Obeys spec Q (h ++ [⟨c, a⟩])

section
variable {spec : History A → C → Prop}

theorem Obeys.mono {p : Prog A ε α} {Q Q' : Except ε α → History A → Prop}
    (hQ : ∀ r h, Q r h → Q' r h) : ∀ {h}, p.Obeys spec Q h → p.Obeys spec Q' h := by
  induction p with
  | ret a => exact fun h => hQ _ _ h
  | raise e => exact fun h => hQ _ _ h
  | op c k ih => exact fun h => ⟨h.1, fun a => ih a (h.2 a)⟩

theorem Obeys.of_done {p : Prog A ε α} {Q : Except ε α → History A → Prop} {h : History A}
    (hp : p.Obeys spec Q h) (hd : p.done = true) : ∃ r, Q r h := by
  cases p with
  | ret a => exact ⟨_, hp⟩
  | raise e => exact ⟨_, hp⟩
  | op c k => cases hd

theorem obeys_bind {p : Prog A ε α} {f : α → Prog A ε β} {Q : Except ε β → History A → Prop} :
    ∀ {h}, (p.bind f).Obeys spec Q h ↔ p.Obeys spec
      (fun r h' => match r with
        | .ok a => (f a).Obeys spec Q h'
        | .error e => Q (.error e) h') h := by
  induction p with
  | ret a => exact Iff.rfl
  | raise e => exact Iff.rfl
  | op c k ih =>
    intro h
    simp only [bind, Obeys, ih]

theorem obeys_tryCatch {p : Prog A ε α} {hd : ε → Prog A ε α}
    {Q : Except ε α → History A → Prop} :
    ∀ {h}, (p.tryCatch hd).Obeys spec Q h ↔ p.Obeys spec
      (fun r h' => match r with
        | .ok a => Q (.ok a) h'
        | .error e => (hd e).Obeys spec Q h') h := by
  induction p with
  | ret a => exact Iff.rfl
  | raise e => exact Iff.rfl
  | op c k ih =>
    intro h
    simp only [tryCatch, Obeys, ih]

theorem Obeys.weaken {spec' : History A → C → Prop} (hs : ∀ h c, spec h c → spec' h c)
    {p : Prog A ε α} {Q : Except ε α → History A → Prop} :
    ∀ {h}, p.Obeys spec Q h → p.Obeys spec' Q h := by
  induction p with
  | ret a => exact fun h => h
  | raise e => exact fun h => h
  | op c k ih => exact fun h => ⟨hs _ _ h.1, fun a => ih a (h.2 a)⟩

/-- Every program meets a specification that asks nothing. -/
theorem obeys_of_forall (hs : ∀ h c, spec h c) (p : Prog A ε α) {Q : Except ε α → History A → Prop}
    (hQ : ∀ r h, Q r h) : ∀ h, p.Obeys spec Q h := by
  induction p with
  | ret a => exact fun h => hQ _ h
  | raise e => exact fun h => hQ _ h
  | op c k ih => exact fun h => ⟨hs h c, fun a => ih a _⟩

/-- Every command of the program is one of `P`. -/
def Uses (P : C → Prop) : Prog A ε α → Prop
  | .ret _ => True
  | .raise _ => True
  | .op c k => P c ∧ ∀ a, (k a).Uses P

theorem Uses.bind {P : C → Prop} {p : Prog A ε α} {f : α → Prog A ε β} (hp : p.Uses P)
    (hf : ∀ a, (f a).Uses P) : (p.bind f).Uses P := by
  induction p with
  | ret a => exact hf a
  | raise e => trivial
  | op c k ih => exact ⟨hp.1, fun a => ih a (hp.2 a)⟩

theorem Uses.tryCatch {P : C → Prop} {p : Prog A ε α} {hd : ε → Prog A ε α} (hp : p.Uses P)
    (hh : ∀ e, (hd e).Uses P) : (p.tryCatch hd).Uses P := by
  induction p with
  | ret a => trivial
  | raise e => exact hh e
  | op c k ih => exact ⟨hp.1, fun a => ih a (hp.2 a)⟩

/-- Commands that meet the specification wherever `I` holds of the history, and
    keep it. -/
theorem Uses.obeys {P : C → Prop} {I : History A → Prop} (hspec : ∀ h c, P c → I h → spec h c)
    (hkeep : ∀ h c a, P c → I h → I (h ++ [⟨c, a⟩])) {p : Prog A ε α} :
    ∀ {h}, p.Uses P → I h → p.Obeys spec (fun _ h => I h) h := by
  induction p with
  | ret a => exact fun _ h => h
  | raise e => exact fun _ h => h
  | op c k ih => exact fun hp h => ⟨hspec _ _ hp.1 h, fun a => ih a (hp.2 a) (hkeep _ _ a hp.1 h)⟩

/-- The program meets the specification whatever was executed before it. -/
def Always (spec : History A → C → Prop) (p : Prog A ε α) : Prop :=
  ∀ h, p.Obeys spec (fun _ _ => True) h

theorem always_ret (a : α) : (Prog.ret a : Prog A ε α).Always spec := fun _ => trivial

theorem always_raise (e : ε) : (Prog.raise e : Prog A ε α).Always spec := fun _ => trivial

theorem always_op {c : C} {k : A c → Prog A ε α} (hc : ∀ h, spec h c)
    (hk : ∀ a, (k a).Always spec) : (Prog.op c k).Always spec :=
  fun h => ⟨hc h, fun a => hk a _⟩

theorem Always.bind {p : Prog A ε α} {f : α → Prog A ε β} (hp : p.Always spec)
    (hf : ∀ a, (f a).Always spec) : (p.bind f).Always spec := by
  intro h
  refine obeys_bind.2 (Obeys.mono ?_ (hp h))
  rintro (e | a) h' -
  · trivial
  · exact hf a h'

theorem Always.tryCatch {p : Prog A ε α} {hd : ε → Prog A ε α} (hp : p.Always spec)
    (hh : ∀ e, (hd e).Always spec) : (p.tryCatch hd).Always spec := by
  intro h
  refine obeys_tryCatch.2 (Obeys.mono ?_ (hp h))
  rintro (e | a) h' -
  · exact hh e h'
  · trivial

theorem Uses.always {P : C → Prop} {p : Prog A ε α} (hp : p.Uses P)
    (hspec : ∀ h c, P c → spec h c) : p.Always spec :=
  fun _ => (hp.obeys (I := fun _ => True) (fun h c hc _ => hspec h c hc) (fun _ _ _ _ _ => trivial)
    trivial).mono fun _ _ _ => trivial

/-- Answered as in the history, the program ends with the result. -/
inductive Ends : Prog A ε α → History A → Except ε α → Prop
  | ret (a : α) : Ends (.ret a) [] (.ok a)
  | raise (e : ε) : Ends (.raise e) [] (.error e)
  | op {c : C} {k : A c → Prog A ε α} {a : A c} {h : History A} {r : Except ε α} :
      Ends (k a) h r → Ends (.op c k) (⟨c, a⟩ :: h) r

theorem Obeys.of_ends {p : Prog A ε α} {Q : Except ε α → History A → Prop} {h : History A}
    {r : Except ε α} (he : p.Ends h r) : ∀ {h₀}, p.Obeys spec Q h₀ → Q r (h₀ ++ h) := by
  induction he with
  | ret a => exact fun {h₀} hp => by rw [List.append_nil]; exact hp
  | raise e => exact fun {h₀} hp => by rw [List.append_nil]; exact hp
  | @op c k a h r _ ih =>
    intro h₀ hp
    rw [List.append_cons]
    exact ih (hp.2 a)

end

end Prog

/-! ## Interleaving -/

variable {S σ Ω : Type}

/-- One executed command: by whom, in which state, with which answer and effect. -/
structure Entry (A : C → Type) (S σ : Type) where
  session : S
  before : σ
  cmd : C
  ans : A cmd
  after : σ

/-- A configuration: what each session still has to do, the store, and the log. -/
structure Config (A : C → Type) (ε α S σ : Type) where
  prog : S → Prog A ε α
  state : σ
  log : List (Entry A S σ)

/-- The history of session `s` in a log. -/
def own [DecidableEq S] (s : S) (log : List (Entry A S σ)) : Prog.History A :=
  (log.filter fun e => e.session = s).map fun e => ⟨e.cmd, e.ans⟩

section
variable [DecidableEq S]

@[simp] theorem own_nil (s : S) : own s ([] : List (Entry A S σ)) = [] := rfl

@[simp] theorem own_append (s : S) (l l' : List (Entry A S σ)) :
    own s (l ++ l') = own s l ++ own s l' := by
  simp [own]

theorem own_cons_self {s : S} {e : Entry A S σ} (h : e.session = s) (l : List (Entry A S σ)) :
    own s (e :: l) = ⟨e.cmd, e.ans⟩ :: own s l := by
  simp [own, h]

theorem own_cons_ne {s : S} {e : Entry A S σ} (h : e.session ≠ s) (l : List (Entry A S σ)) :
    own s (e :: l) = own s l := by
  simp [own, h]

/-- A split of a session's history comes from a split of the log. -/
theorem own_split {s : S} {c : C} {a : A c} :
    ∀ {l : List (Entry A S σ)} {h h' : Prog.History A}, own s l = h ++ ⟨c, a⟩ :: h' →
      ∃ l₁ e l₂, l = l₁ ++ e :: l₂ ∧ e.session = s ∧ (⟨e.cmd, e.ans⟩ : Σ c, A c) = ⟨c, a⟩ ∧
        own s l₁ = h ∧ own s l₂ = h'
  | [], h, h', he => by simp at he
  | e :: l, h, h', he => by
    by_cases hs : e.session = s
    · rw [own_cons_self hs] at he
      cases h with
      | nil =>
        simp only [List.nil_append, List.cons.injEq] at he
        exact ⟨[], e, l, rfl, hs, he.1, rfl, he.2⟩
      | cons x h =>
        simp only [List.cons_append, List.cons.injEq] at he
        obtain ⟨l₁, e', l₂, rfl, h1, h2, h3, h4⟩ := own_split he.2
        exact ⟨e :: l₁, e', l₂, rfl, h1, h2, by rw [own_cons_self hs, h3, he.1], h4⟩
    · rw [own_cons_ne hs] at he
      obtain ⟨l₁, e', l₂, rfl, h1, h2, h3, h4⟩ := own_split he
      exact ⟨e :: l₁, e', l₂, rfl, h1, h2, by rw [own_cons_ne hs, h3], h4⟩

variable (exec : S → (c : C) → σ → Ω → Option (A c × σ))

/-- Session `s` executes its next command in the world `ω`, if it has one and
    need not wait. -/
def Config.step (cfg : Config A ε α S σ) (s : S) (ω : Ω) : Option (Config A ε α S σ) :=
  match cfg.prog s with
  | .ret _ => none
  | .raise _ => none
  | .op c k => (exec s c cfg.state ω).map fun r =>
    { prog := Function.update cfg.prog s (k r.1)
      state := r.2
      log := cfg.log ++ [⟨s, cfg.state, c, r.1, r.2⟩] }

/-- Run a schedule. -/
def Config.run : Config A ε α S σ → List (S × Ω) → Option (Config A ε α S σ)
  | cfg, [] => some cfg
  | cfg, x :: xs => (cfg.step exec x.1 x.2).bind fun cfg' => cfg'.run xs

/-- The log entries lead from `st` to `st'`, each an execution of its command. -/
inductive Trace : σ → List (Entry A S σ) → σ → Prop
  | nil (st : σ) : Trace st [] st
  | cons {e : Entry A S σ} {es : List (Entry A S σ)} {st : σ} (ω : Ω) :
      exec e.session e.cmd e.before ω = some (e.ans, e.after) → Trace e.after es st →
      Trace e.before (e :: es) st

variable {exec}

theorem Config.step_cases {cfg cfg' : Config A ε α S σ} {s : S} {ω : Ω}
    (h : cfg.step exec s ω = some cfg') :
    ∃ c k r, cfg.prog s = .op c k ∧ exec s c cfg.state ω = some r ∧
      cfg' = ⟨Function.update cfg.prog s (k r.1), r.2, cfg.log ++ [⟨s, cfg.state, c, r.1, r.2⟩]⟩ := by
  unfold Config.step at h
  cases hp : cfg.prog s with
  | ret a => simp [hp] at h
  | raise e => simp [hp] at h
  | op c k =>
    rw [hp] at h
    simp only [Option.map_eq_some_iff] at h
    obtain ⟨r, hr, rfl⟩ := h
    exact ⟨c, k, r, rfl, hr, rfl⟩

omit [DecidableEq S] in
theorem Trace.append {st m st' : σ} {l l' : List (Entry A S σ)} (h : Trace exec st l m)
    (h' : Trace exec m l' st') : Trace exec st (l ++ l') st' := by
  induction h with
  | nil => exact h'
  | cons ω he _ ih => exact .cons ω he (ih h')

omit [DecidableEq S] in
theorem Trace.split {st st' : σ} : ∀ {l l' : List (Entry A S σ)}, Trace exec st (l ++ l') st' →
    ∃ m, Trace exec st l m ∧ Trace exec m l' st'
  | [], _, h => ⟨st, .nil st, h⟩
  | _ :: _, _, .cons ω he h => by
    obtain ⟨m, h1, h2⟩ := h.split
    exact ⟨m, .cons ω he h1, h2⟩

omit [DecidableEq S] in
/-- The state an entry was executed in is the one its prefix of the log leads to. -/
theorem Trace.split_cons {st st' : σ} {l l' : List (Entry A S σ)} {e : Entry A S σ}
    (h : Trace exec st (l ++ e :: l') st') :
    Trace exec st l e.before ∧ (∃ ω, exec e.session e.cmd e.before ω = some (e.ans, e.after)) ∧
      Trace exec e.after l' st' := by
  obtain ⟨m, h1, h2⟩ := h.split
  cases h2 with
  | cons ω he h2 => exact ⟨h1, ⟨ω, he⟩, h2⟩

omit [DecidableEq S] in
/-- **Invariants over a log.**  A property of states that every execution keeps
    holds after the log if it holds before. -/
theorem Trace.inv {I : σ → Prop} {st st' : σ} {l : List (Entry A S σ)} (h : Trace exec st l st')
    (hI : ∀ e ∈ l, ∀ ω, exec e.session e.cmd e.before ω = some (e.ans, e.after) →
      I e.before → I e.after) (h0 : I st) : I st' := by
  induction h with
  | nil => exact h0
  | @cons e es _ ω he _ ih =>
    exact ih (fun e' he' => hI e' (List.mem_cons_of_mem _ he')) (hI e List.mem_cons_self ω he h0)

/-- The log of a run is a trace, and it extends the log before. -/
theorem Config.run_trace : ∀ {xs : List (S × Ω)} {cfg cfg' : Config A ε α S σ},
    cfg.run exec xs = some cfg' →
      ∃ es, cfg'.log = cfg.log ++ es ∧ Trace exec cfg.state es cfg'.state
  | [], cfg, cfg', h => by
    simp only [Config.run, Option.some.injEq] at h
    subst h
    exact ⟨[], by simp, .nil _⟩
  | x :: xs, cfg, cfg', h => by
    simp only [Config.run, Option.bind_eq_some_iff] at h
    obtain ⟨cfg₁, h1, h2⟩ := h
    obtain ⟨c, k, r, -, hr, rfl⟩ := Config.step_cases h1
    obtain ⟨es, he, ht⟩ := Config.run_trace h2
    refine ⟨⟨x.1, cfg.state, c, r.1, r.2⟩ :: es, by simpa using he, ?_⟩
    exact .cons (e := ⟨x.1, cfg.state, c, r.1, r.2⟩) x.2 hr ht

/-- What a run leaves a session to do still obeys the session's specification,
    and so did every command it executed. -/
theorem Config.run_obeys_from (spec : S → Prog.History A → C → Prop)
    (Q : S → Except ε α → Prog.History A → Prop) :
    ∀ {xs : List (S × Ω)} {cfg cfg' : Config A ε α S σ},
      (∀ s, (cfg.prog s).Obeys (spec s) (Q s) (own s cfg.log)) → cfg.run exec xs = some cfg' →
        (∀ s, (cfg'.prog s).Obeys (spec s) (Q s) (own s cfg'.log)) ∧
        ∀ l (e : Entry A S σ) l', cfg'.log = cfg.log ++ (l ++ e :: l') →
          spec e.session (own e.session (cfg.log ++ l)) e.cmd
  | [], cfg, cfg', hp, h => by
    simp only [Config.run, Option.some.injEq] at h
    subst h
    exact ⟨hp, fun l e l' he => by simp at he⟩
  | x :: xs, cfg, cfg', hp, h => by
    simp only [Config.run, Option.bind_eq_some_iff] at h
    obtain ⟨cfg₁, h1, h2⟩ := h
    obtain ⟨c, k, r, hc, hr, rfl⟩ := Config.step_cases h1
    have hx := hp x.1
    rw [hc] at hx
    have hp' : ∀ s, (Function.update cfg.prog x.1 (k r.1) s).Obeys (spec s) (Q s)
        (own s (cfg.log ++ [⟨x.1, cfg.state, c, r.1, r.2⟩])) := by
      intro s
      by_cases hs : s = x.1
      · subst hs
        rw [Function.update_self, own_append]
        simpa [own] using hx.2 r.1
      · rw [Function.update_of_ne hs, own_append, own_cons_ne (fun h => hs h.symm), own_nil,
          List.append_nil]
        exact hp s
    obtain ⟨hq, hlog⟩ := Config.run_obeys_from spec Q hp' h2
    obtain ⟨es, hes, -⟩ := Config.run_trace h2
    refine ⟨hq, fun l e l' he => ?_⟩
    rw [hes] at he
    simp only [List.append_assoc, List.cons_append, List.nil_append,
      List.append_cancel_left_eq] at he
    cases l with
    | nil =>
      -- the entry is the step just made
      simp only [List.nil_append, List.cons.injEq] at he
      rw [← he.1, List.append_nil]
      exact hx.1
    | cons y l =>
      simp only [List.cons_append, List.cons.injEq] at he
      have := hlog l e l' (by rw [hes, he.2])
      rw [he.1, List.append_assoc] at this
      exact this

/-- **Programs obey their specifications in every interleaving.**  `spec s` holds
    of each command session `s` executes, relative to the session's own part of
    the log before it. -/
theorem Config.run_obeys (spec : S → Prog.History A → C → Prop)
    (Q : S → Except ε α → Prog.History A → Prop) {xs : List (S × Ω)} {cfg cfg' : Config A ε α S σ}
    (h0 : cfg.log = []) (hp : ∀ s, (cfg.prog s).Obeys (spec s) (Q s) [])
    (h : cfg.run exec xs = some cfg') {l l' : List (Entry A S σ)} {e : Entry A S σ}
    (hl : cfg'.log = l ++ e :: l') : spec e.session (own e.session l) e.cmd := by
  have hp' : ∀ s, (cfg.prog s).Obeys (spec s) (Q s) (own s cfg.log) := by simpa [h0] using hp
  have := (Config.run_obeys_from spec Q hp' h).2 l e l' (by simpa [h0] using hl)
  simpa [h0] using this

/-- One session's program obeys its specification, whatever the others run. -/
theorem Config.run_obeys_one (v : S) (spec : Prog.History A → C → Prop)
    {Q : Except ε α → Prog.History A → Prop} {xs : List (S × Ω)} {cfg cfg' : Config A ε α S σ}
    (h0 : cfg.log = []) (hp : (cfg.prog v).Obeys spec Q []) (h : cfg.run exec xs = some cfg')
    {l l' : List (Entry A S σ)} {e : Entry A S σ} (hl : cfg'.log = l ++ e :: l')
    (hs : e.session = v) : spec (own v l) e.cmd := by
  have hall : ∀ s, (cfg.prog s).Obeys (fun h c => s = v → spec h c) (fun _ _ => True) [] := by
    intro s
    by_cases hs : s = v
    · rw [hs]
      exact (hp.weaken fun _ _ hc _ => hc).mono fun _ _ _ => trivial
    · exact Prog.obeys_of_forall (fun _ _ h => absurd h hs) _ (fun _ _ => trivial) _
  have := Config.run_obeys (fun s h c => s = v → spec h c) (fun _ _ _ => True) h0 hall h hl hs
  rwa [hs] at this

end

end Conc
