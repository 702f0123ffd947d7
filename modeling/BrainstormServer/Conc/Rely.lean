/-
  Programs that run beside others.

  Between two commands of a program the others may take steps of theirs (`step`).
  `Prog.Relies` is the logic of one program under such steps: wherever it stands,
  and when it raises, `I` holds, and `Q` when it returns, however often the others
  come in between.

  What is used between two commands has to be `Stable` under the steps of the
  others; the rules ask for it where a command is sent or the program ends.
-/
import BrainstormServer.Conc.Crash
import Mathlib.Logic.Relation

namespace Conc

variable {σ : Type}

/-- The steps of the others keep `P`. -/
def Stable (step : σ → σ → Prop) (P : σ → Prop) : Prop := ∀ ⦃st st'⦄, P st → step st st' → P st'

namespace Stable

variable {step : σ → σ → Prop} {P P' : σ → Prop}

theorem star (h : Stable step P) {st st' : σ} (hP : P st) (hs : Relation.ReflTransGen step st st') :
    P st' := by
  induction hs with
  | refl => exact hP
  | tail _ hstep ih => exact h ih hstep

theorem and (h : Stable step P) (h' : Stable step P') : Stable step fun st => P st ∧ P' st :=
  fun _ _ hP hs => ⟨h hP.1 hs, h' hP.2 hs⟩

/-- A fact about values makes no difference. -/
theorem and_const {p : Prop} (h : Stable step P) : Stable step fun st => P st ∧ p :=
  fun _ _ hP hs => ⟨h hP.1 hs, hP.2⟩

theorem imp {p : Prop} (h : Stable step P) : Stable step fun st => p → P st :=
  fun _ _ hP hs hp => h (hP hp) hs

end Stable

namespace Prog

variable {C : Type} {A : C → Type} {ε α β : Type} {S Ω : Type}

section
variable (exec : S → (c : C) → σ → Ω → Option (A c × σ)) (s : S) (step : σ → σ → Prop)
  (I : σ → Prop)

/-- Wherever the program stands or raises `I` holds, and `Q` when it returns,
    whatever steps the others take. -/
def Relies : Prog A ε α → (α → σ → Prop) → σ → Prop
  | .ret a, Q, st => ∀ st', Relation.ReflTransGen step st st' → Q a st'
  | .raise _, _, st => ∀ st', Relation.ReflTransGen step st st' → I st'
  | .op c k, Q, st => ∀ st', Relation.ReflTransGen step st st' →
      I st' ∧ ∀ ω r, exec s c st' ω = some r → (k r.1).Relies Q r.2

end

variable {exec : S → (c : C) → σ → Ω → Option (A c × σ)} {s : S} {step : σ → σ → Prop}
  {I : σ → Prop} {Q Q' : α → σ → Prop} {st : σ}

/-- The others take a step. -/
theorem Relies.others {p : Prog A ε α} (h : p.Relies exec s step I Q st) {st' : σ}
    (hs : step st st') : p.Relies exec s step I Q st' := by
  have htail : ∀ {st''}, Relation.ReflTransGen step st' st'' → Relation.ReflTransGen step st st'' :=
    fun h' => .head hs h'
  cases p with
  | ret a => exact fun st'' h' => h st'' (htail h')
  | raise e => exact fun st'' h' => h st'' (htail h')
  | op c k => exact fun st'' h' => h st'' (htail h')

/-- The program takes a step. -/
theorem Relies.own {c : C} {k : A c → Prog A ε α} (h : (op c k).Relies exec s step I Q st) {ω : Ω}
    {r : A c × σ} (hr : exec s c st ω = some r) : (k r.1).Relies exec s step I Q r.2 :=
  (h st .refl).2 ω r hr

/-- What holds wherever the program stands. -/
theorem Relies.inv {p : Prog A ε α} (h : p.Relies exec s step I Q st) (hQ : ∀ a st, Q a st → I st) :
    I st := by
  cases p with
  | ret a => exact hQ a st (h st .refl)
  | raise e => exact h st .refl
  | op c k => exact (h st .refl).1

theorem Relies.mono {p : Prog A ε α} (hQ : ∀ a st, Q a st → Q' a st) :
    ∀ {st : σ}, p.Relies exec s step I Q st → p.Relies exec s step I Q' st := by
  induction p with
  | ret a => exact fun h st' hs => hQ a st' (h st' hs)
  | raise e => exact fun h => h
  | op c k ih => exact fun h st' hs => ⟨(h st' hs).1, fun ω r hr => ih r.1 ((h st' hs).2 ω r hr)⟩

theorem relies_ret {a : α} {P : σ → Prop} (hst : Stable step P) (hP : P st)
    (h : ∀ st', P st' → Q a st') : (ret a : Prog A ε α).Relies exec s step I Q st :=
  fun st' hs => h st' (hst.star hP hs)

theorem relies_raise {e : ε} {P : σ → Prop} (hst : Stable step P) (hP : P st)
    (h : ∀ st', P st' → I st') : (raise e : Prog A ε α).Relies exec s step I Q st :=
  fun st' hs => h st' (hst.star hP hs)

theorem relies_op {c : C} {k : A c → Prog A ε α} {P : σ → Prop} (hst : Stable step P) (hP : P st)
    (hI : ∀ st', P st' → I st')
    (h : ∀ st' ω r, P st' → exec s c st' ω = some r → (k r.1).Relies exec s step I Q r.2) :
    (op c k).Relies exec s step I Q st :=
  fun st' hs => ⟨hI st' (hst.star hP hs), fun ω r => h st' ω r (hst.star hP hs)⟩

theorem relies_bind {p : Prog A ε α} {f : α → Prog A ε β} {Q : β → σ → Prop} :
    ∀ {st : σ}, p.Relies exec s step I (fun a st' => (f a).Relies exec s step I Q st') st →
      (p.bind f).Relies exec s step I Q st := by
  induction p with
  | ret a => exact fun {st} h => h st .refl
  | raise e => exact fun h => h
  | op c k ih => exact fun h st' hs => ⟨(h st' hs).1, fun ω r hr => ih r.1 ((h st' hs).2 ω r hr)⟩

theorem relies_tryCatch {p : Prog A ε α} {hd : ε → Prog A ε α}
    (hhd : ∀ e st', I st' → (hd e).Relies exec s step I Q st') :
    ∀ {st : σ}, p.Relies exec s step I Q st → (p.tryCatch hd).Relies exec s step I Q st := by
  induction p with
  | ret a => exact fun h => h
  | raise e => exact fun {st} h => hhd e st (h st .refl)
  | op c k ih => exact fun h st' hs => ⟨(h st' hs).1, fun ω r hr => ih r.1 ((h st' hs).2 ω r hr)⟩

theorem relies_tryFinally {p : Prog A ε α} {f : Prog A ε Unit} (hI : Stable step I)
    (hQ : ∀ a, Stable step (Q a))
    (h : p.Relies exec s step I (fun a st' => f.Relies exec s step I (fun _ => Q a) st') st)
    (hf : ∀ st', I st' → f.Relies exec s step I (fun _ => I) st') :
    (p.tryFinally f).Relies exec s step I Q st := by
  refine relies_bind (relies_tryCatch (fun e st' hst => ?_) (h.mono fun a st' h' => ?_))
  · exact relies_bind ((hf st' hst).mono fun _ st'' h' => relies_raise hI h' fun _ h => h)
  · exact relies_bind (h'.mono fun _ st'' h'' => relies_ret (hQ a) h'' fun _ h => h)

end Prog

end Conc
