/-
  Programs that may be stopped at any command.

  `Prog.upTo` runs a program alone for as many commands as the outside world
  grants it.  What is left of the program is lost when the process dies there,
  so whoever finds the store afterwards sees one of these states.

  `Prog.Safe` is the logic that goes with it: wherever the program can be
  stopped the crash condition `I` holds, and its result and last state satisfy
  `Q` (`Safe.upTo`).  It says nothing about programs that wait for others.
  `Prog.Keeps` is the case in which an exception, too, only promises `I`.
-/
import BrainstormServer.Conc.Prog

namespace Conc

namespace Prog

variable {C : Type} {A : C → Type} {ε α β : Type}

/-- `try p finally f`; an exception of `f` takes the place of that of `p`. -/
def tryFinally (p : Prog A ε α) (f : Prog A ε Unit) : Prog A ε α :=
  (p.tryCatch fun e => f.bind fun _ => .raise e).bind fun a => f.bind fun _ => .ret a

/-- The program of a pure computation that may fail. -/
def ofExcept : Except ε α → Prog A ε α
  | .ok a => .ret a
  | .error e => .raise e

section
variable {S σ Ω : Type} (exec : S → (c : C) → σ → Ω → Option (A c × σ)) (s : S)

/-- Run a program for at most as many commands as there are worlds: what is
    left of it, and the state reached. -/
def upTo : Prog A ε α → List Ω → σ → Prog A ε α × σ
  | .ret a, _, st => (.ret a, st)
  | .raise e, _, st => (.raise e, st)
  | .op c k, [], st => (.op c k, st)
  | .op c k, ω :: ωs, st =>
    match exec s c st ω with
    | none => (.op c k, st)
    | some r => (k r.1).upTo ωs r.2

/-- Wherever the program can be stopped `I` holds, and `Q` at its end. -/
def Safe (I : σ → Prop) : Prog A ε α → (Except ε α → σ → Prop) → σ → Prop
  | .ret a, Q, st => Q (.ok a) st
  | .raise e, Q, st => Q (.error e) st
  | .op c k, Q, st => I st ∧ ∀ ω r, exec s c st ω = some r → (k r.1).Safe I Q r.2

/-- What `Safe` promises of a program stopped at `p`. -/
def Stopped (I : σ → Prop) (Q : Except ε α → σ → Prop) : Prog A ε α → σ → Prop
  | .ret a => Q (.ok a)
  | .raise e => Q (.error e)
  | .op _ _ => I

variable {exec s} {I : σ → Prop}

theorem Safe.upTo {p : Prog A ε α} {Q : Except ε α → σ → Prop} :
    ∀ {st : σ} (ωs : List Ω), p.Safe exec s I Q st →
      Stopped I Q (p.upTo exec s ωs st).1 (p.upTo exec s ωs st).2 := by
  induction p with
  | ret a => exact fun _ h => h
  | raise e => exact fun _ h => h
  | op c k ih =>
    intro st ωs h
    cases ωs with
    | nil => exact h.1
    | cons ω ωs =>
      unfold Prog.upTo
      cases hx : exec s c st ω with
      | none => exact h.1
      | some r => exact ih r.1 ωs (h.2 ω r hx)

/-- Where no command waits, what `Safe` promises of the end is also reached. -/
theorem Safe.wp {W : Ω → Prop} (htotal : ∀ c st ω, ∃ r, exec s c st ω = some r) {p : Prog A ε α}
    {Q : Except ε α → σ → Prop} : ∀ {st : σ}, p.Safe exec s I Q st → p.wp exec s W Q st := by
  induction p with
  | ret a => exact fun h => h
  | raise e => exact fun h => h
  | op c k ih =>
    intro st h ω _
    obtain ⟨r, hr⟩ := htotal c st ω
    exact ⟨r, hr, ih r.1 (h.2 ω r hr)⟩

/-- Whatever the outcome, `J` holds where the program was stopped. -/
theorem Stopped.elim {Q : Except ε α → σ → Prop} {J : σ → Prop} {p : Prog A ε α} {st : σ}
    (h : Stopped I Q p st) (hI : I st → J st) (hQ : ∀ r, Q r st → J st) : J st := by
  cases p with
  | ret a => exact hQ _ h
  | raise e => exact hQ _ h
  | op c k => exact hI h

theorem Safe.mono {p : Prog A ε α} {Q Q' : Except ε α → σ → Prop} (hQ : ∀ r st, Q r st → Q' r st) :
    ∀ {st : σ}, p.Safe exec s I Q st → p.Safe exec s I Q' st := by
  induction p with
  | ret a => exact fun h => hQ _ _ h
  | raise e => exact fun h => hQ _ _ h
  | op c k ih =>
    intro st h
    refine ⟨h.1, fun ω r hr => ?_⟩
    exact ih r.1 (h.2 ω r hr)

theorem safe_bind {p : Prog A ε α} {f : α → Prog A ε β} {Q : Except ε β → σ → Prop} :
    ∀ {st : σ}, (p.bind f).Safe exec s I Q st ↔ p.Safe exec s I
      (fun r st' => match r with
        | .ok a => (f a).Safe exec s I Q st'
        | .error e => Q (.error e) st') st := by
  induction p with
  | ret a => exact Iff.rfl
  | raise e => exact Iff.rfl
  | op c k ih =>
    intro st
    simp only [bind, Safe, ih]

/-- A program that returns, and then goes on. -/
theorem safe_then {p : Prog A ε α} {f : α → Prog A ε β} {P : α → σ → Prop} {Q : Except ε β → σ → Prop} {st : σ}
    (h : p.Safe exec s I (fun r st' => ∃ a, r = .ok a ∧ P a st') st)
    (hf : ∀ a st', P a st' → (f a).Safe exec s I Q st') : (p.bind f).Safe exec s I Q st := by
  refine safe_bind.2 (h.mono fun r st' hr => ?_)
  obtain ⟨a, rfl, ha⟩ := hr
  exact hf a st' ha

theorem safe_tryCatch {p : Prog A ε α} {h : ε → Prog A ε α} {Q : Except ε α → σ → Prop} :
    ∀ {st : σ}, (p.tryCatch h).Safe exec s I Q st ↔ p.Safe exec s I
      (fun r st' => match r with
        | .ok a => Q (.ok a) st'
        | .error e => (h e).Safe exec s I Q st') st := by
  induction p with
  | ret a => exact Iff.rfl
  | raise e => exact Iff.rfl
  | op c k ih =>
    intro st
    simp only [tryCatch, Safe, ih]

/-- The `finally` block runs after either outcome of `p`. -/
theorem safe_tryFinally {p : Prog A ε α} {f : Prog A ε Unit} {Q : Except ε α → σ → Prop} {st : σ} :
    (p.tryFinally f).Safe exec s I Q st ↔ p.Safe exec s I
      (fun r st' => f.Safe exec s I (fun r' st'' => match r' with
        | .ok _ => Q r st''
        | .error e => Q (.error e) st'') st') st := by
  unfold tryFinally
  rw [safe_bind, safe_tryCatch]
  constructor
  · refine Safe.mono fun r st' h => ?_
    cases r with
    | ok a => exact Safe.mono (fun r' _ h' => by cases r' <;> exact h') (safe_bind.1 h)
    | error e => exact Safe.mono (fun r' _ h' => by cases r' <;> exact h') (safe_bind.1 h)
  · refine Safe.mono fun r st' h => ?_
    cases r with
    | ok a => exact safe_bind.2 (Safe.mono (fun r' _ h' => by cases r' <;> exact h') h)
    | error e => exact safe_bind.2 (Safe.mono (fun r' _ h' => by cases r' <;> exact h') h)

/-! ## Exceptions that promise no more than a crash -/

variable (exec s I) in
/-- Wherever the program is stopped or raises `I` holds, and `Q` when it returns. -/
def Keeps (p : Prog A ε α) (Q : α → σ → Prop) (st : σ) : Prop :=
  p.Safe exec s I (fun r st' => match r with
    | .ok a => Q a st'
    | .error _ => I st') st

variable {Q Q' : α → σ → Prop} {st : σ}

theorem keeps_ret {a : α} (h : Q a st) : (ret a : Prog A ε α).Keeps exec s I Q st := h

theorem keeps_raise {e : ε} (h : I st) : (raise e : Prog A ε α).Keeps exec s I Q st := h

theorem Keeps.mono {p : Prog A ε α} (h : p.Keeps exec s I Q st) (hQ : ∀ a st, Q a st → Q' a st) :
    p.Keeps exec s I Q' st := by
  refine Safe.mono (fun r st' hr => ?_) h
  cases r with
  | ok a => exact hQ a st' hr
  | error e => exact hr

theorem keeps_bind {p : Prog A ε α} {f : α → Prog A ε β} {Q : β → σ → Prop}
    (h : p.Keeps exec s I (fun a st' => (f a).Keeps exec s I Q st') st) :
    (p.bind f).Keeps exec s I Q st := by
  refine safe_bind.2 (Safe.mono (fun r st' hr => ?_) h)
  cases r with
  | ok a => exact hr
  | error e => exact hr

theorem keeps_tryCatch {p : Prog A ε α} {hd : ε → Prog A ε α} (h : p.Keeps exec s I Q st)
    (hhd : ∀ e st', I st' → (hd e).Keeps exec s I Q st') : (p.tryCatch hd).Keeps exec s I Q st := by
  refine safe_tryCatch.2 (Safe.mono (fun r st' hr => ?_) h)
  cases r with
  | ok a => exact hr
  | error e => exact hhd e st' hr

theorem keeps_tryFinally {p : Prog A ε α} {f : Prog A ε Unit}
    (h : p.Keeps exec s I (fun a st' => f.Keeps exec s I (fun _ => Q a) st') st)
    (hf : ∀ st', I st' → f.Keeps exec s I (fun _ => I) st') :
    (p.tryFinally f).Keeps exec s I Q st := by
  refine safe_tryFinally.2 (Safe.mono (fun r st' hr => ?_) h)
  cases r with
  | ok a => exact Safe.mono (fun r' _ h' => by cases r' <;> exact h') hr
  | error e => exact Safe.mono (fun r' _ h' => by cases r' <;> exact h') (hf st' hr)

theorem keeps_op {c : C} {k : A c → Prog A ε α} (hI : I st)
    (h : ∀ ω r, exec s c st ω = some r → (k r.1).Keeps exec s I Q r.2) :
    (op c k).Keeps exec s I Q st := ⟨hI, h⟩

/-- What a program that keeps `I` leaves behind when it is stopped somewhere. -/
theorem Keeps.upTo {p : Prog A ε α} (h : p.Keeps exec s I Q st) (hQ : ∀ a st, Q a st → I st)
    (ωs : List Ω) : I (p.upTo exec s ωs st).2 :=
  (Safe.upTo ωs h).elim id fun r hr => by
    cases r with
    | ok a => exact hQ a _ hr
    | error e => exact hr

end

end Prog

end Conc
