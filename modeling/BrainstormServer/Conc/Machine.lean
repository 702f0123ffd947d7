/-
  Machines that take one event after another.

  A machine is a step function that refuses the events it cannot take.
  `run` takes a list of events in order.

  * `run_inv`: what the start satisfies and every step keeps, as long as the
    events are admissible, every state of a run satisfies;
  * `run_inv_along`: the same for one run, whose steps may depend on the states they
    are taken in;
  * `run_until`: what every step keeps or ends, holds at the end of a run, or ended in it;
  * `along`: checks every event of a run in the state it is taken in;
  * `tally`, `tally_inv`: counts the events of a run that check, with an invariant of the state
    and the count.
-/
import Mathlib.Data.Nat.Notation
import Mathlib.Logic.Function.Basic

namespace Conc

namespace Machine

variable {σ ε : Type} (step : ε → σ → Option σ)

/-- Take the events in order. -/
def run : List ε → σ → Option σ
  | [], s => some s
  | e :: es, s => (step e s).bind (run es)

variable {step}

@[simp]
theorem run_nil {s : σ} : run step [] s = some s := rfl

theorem run_cons {e : ε} {es : List ε} {s s' : σ} :
    run step (e :: es) s = some s' ↔ ∃ t, step e s = some t ∧ run step es t = some s' :=
  Option.bind_eq_some_iff

theorem run_append {es es' : List ε} :
    ∀ {s s' : σ}, run step (es ++ es') s = some s' ↔
      ∃ t, run step es s = some t ∧ run step es' t = some s' := by
  induction es with
  | nil =>
    intro s s'
    exact ⟨fun h => ⟨s, rfl, h⟩, fun ⟨_, ht, h⟩ => Option.some.inj ht ▸ h⟩
  | cons e es ih =>
    intro s s'
    rw [List.cons_append, run_cons]
    constructor
    · rintro ⟨t, ht, h⟩
      obtain ⟨u, hu, h⟩ := ih.1 h
      exact ⟨u, run_cons.2 ⟨t, ht, hu⟩, h⟩
    · rintro ⟨u, hu, h⟩
      obtain ⟨t, ht, hu⟩ := run_cons.1 hu
      exact ⟨t, ht, ih.2 ⟨u, hu, h⟩⟩

/-- **Invariants.**  What every admissible step keeps holds at the end of a run. -/
theorem run_inv {I : σ → Prop} {P : ε → Prop}
    (hstep : ∀ {e s s'}, P e → I s → step e s = some s' → I s') :
    ∀ {es : List ε} {s s' : σ}, (∀ e ∈ es, P e) → I s → run step es s = some s' → I s' := by
  intro es
  induction es with
  | nil =>
    intro s s' _ hs h
    cases h
    exact hs
  | cons e es ih =>
    intro s s' hP hs h
    obtain ⟨t, ht, h⟩ := run_cons.1 h
    exact ih (fun e' he' => hP e' (List.mem_cons_of_mem _ he'))
      (hstep (hP e List.mem_cons_self) hs ht) h

/-- Invariants of one run: only the steps that it takes have to keep them. -/
theorem run_inv_along {I : σ → Prop} {es : List ε} {s s' : σ}
    (hstep : ∀ es₁ e es₂ s₁ s₂, es = es₁ ++ e :: es₂ → run step es₁ s = some s₁ → step e s₁ = some s₂ →
      I s₁ → I s₂)
    (hs : I s) (h : run step es s = some s') : I s' := by
  induction es generalizing s with
  | nil =>
    cases h
    exact hs
  | cons e es ih =>
    obtain ⟨t, ht, h⟩ := run_cons.1 h
    refine ih (fun es₁ e' es₂ s₁ s₂ hes hs₁ hs₂ hI => ?_) (hstep [] e es s t rfl rfl ht hs) h
    exact hstep (e :: es₁) e' es₂ s₁ s₂ (by rw [hes]; rfl) (run_cons.2 ⟨t, ht, hs₁⟩) hs₂ hI

/-- What every step either keeps or takes to `G` holds at the end of a run, if the run has not
    come to `G`. -/
theorem run_until {I G : σ → Prop} (hstep : ∀ {e s s'}, I s → step e s = some s' → I s' ∨ G s') :
    ∀ {es : List ε} {s s' : σ}, I s → run step es s = some s' →
      I s' ∨ ∃ es₁ es₂ t, es = es₁ ++ es₂ ∧ run step es₁ s = some t ∧ G t := by
  intro es
  induction es with
  | nil =>
    intro s s' hs h
    cases h
    exact Or.inl hs
  | cons e es ih =>
    intro s s' hs h
    obtain ⟨t, ht, h⟩ := run_cons.1 h
    rcases hstep hs ht with hI | hG
    · rcases ih hI h with hI | ⟨es₁, es₂, u, rfl, hu, hG⟩
      · exact Or.inl hI
      · exact Or.inr ⟨e :: es₁, es₂, u, rfl, run_cons.2 ⟨t, ht, hu⟩, hG⟩
    · exact Or.inr ⟨[e], es, t, rfl, run_cons.2 ⟨t, ht, rfl⟩, hG⟩

/-- Check each event in the state it is taken in. -/
def along (step : ε → σ → Option σ) (check : ε → σ → Bool) : List ε → σ → Bool
  | [], _ => true
  | e :: es, s => check e s && (step e s).all (along step check es)

theorem check_of_along {check : ε → σ → Bool} {es₁ es₂ : List ε} {e : ε} :
    ∀ {s t : σ}, along step check (es₁ ++ e :: es₂) s = true → run step es₁ s = some t → check e t = true := by
  induction es₁ with
  | nil =>
    intro s t h hrun
    cases hrun
    exact (Bool.and_eq_true_iff.1 h).1
  | cons e' es₁ ih =>
    intro s t h hrun
    obtain ⟨u, hu, hrun⟩ := run_cons.1 hrun
    have hrest := (Bool.and_eq_true_iff.1 h).2
    rw [hu] at hrest
    exact ih hrest hrun

/-- How many events of a run check in the state they are taken in. -/
def tally (step : ε → σ → Option σ) (check : ε → σ → Bool) : List ε → σ → ℕ
  | [], _ => 0
  | e :: es, s => (if check e s then 1 else 0) + (step e s).elim 0 (tally step check es)

/-- Invariants of a state and of what was counted on the way to it. -/
theorem tally_inv {check : ε → σ → Bool} {I : ℕ → σ → Prop} {P : ε → Prop}
    (hstep : ∀ {n e s s'}, P e → I n s → step e s = some s' → I (n + if check e s then 1 else 0) s') :
    ∀ {es : List ε} {n : ℕ} {s s' : σ}, (∀ e ∈ es, P e) → I n s → run step es s = some s' →
      I (n + tally step check es s) s' := by
  intro es
  induction es with
  | nil =>
    intro n s s' _ hs h
    cases h
    rw [tally, Nat.add_zero]
    exact hs
  | cons e es ih =>
    intro n s s' hP hs h
    obtain ⟨t, ht, h⟩ := run_cons.1 h
    rw [tally, ht, Option.elim_some, ← Nat.add_assoc]
    exact ih (fun e' he' => hP e' (List.mem_cons_of_mem _ he')) (hstep (hP e List.mem_cons_self) hs ht) h

end Machine

end Conc
