/-
  Programs run one after the other under one clock.

  `Prog.alone` counts the worlds from the beginning of a program.  Here the history is kept
  beside the state and goes on from one program to the next, so that its length dates a
  command: the `n`-th command of them all sees the world `ω n`.

  * `dated`: such executions;
  * `wp_dated`: the rule for a command, where the executions never wait;
  * `wp_dated_ends`: the history a program leaves continues the one it found, and is one
    the program can have.
-/
import BrainstormServer.Conc.Prog

namespace Conc

namespace Prog

variable {C : Type} {A : C → Type} {ε α S σ Ω : Type}

/-- Executions in which the command after a history of length `n` sees the world `ω n`. -/
def dated (exec : S → (c : C) → σ → Ω → Option (A c × σ)) (ω : ℕ → Ω) (s : S) (c : C)
    (x : σ × History A) (_ : Unit) : Option (A c × σ × History A) :=
  logged exec s c x (ω x.2.length)

variable {exec : S → (c : C) → σ → Ω → Option (A c × σ)} {ω : ℕ → Ω} {s : S} {W : Unit → Prop}

theorem wp_dated {c : C} {k : A c → Prog A ε α} {Q : Except ε α → σ × History A → Prop}
    {x : σ × History A} (htotal : ∃ r, exec s c x.1 (ω x.2.length) = some r)
    (hk : ∀ a st, exec s c x.1 (ω x.2.length) = some (a, st) →
      (k a).wp (dated exec ω) s W Q (st, x.2 ++ [⟨c, a⟩])) :
    (Prog.op c k).wp (dated exec ω) s W Q x := by
  intro _ _
  obtain ⟨⟨a, st⟩, hr⟩ := htotal
  refine ⟨(a, st, x.2 ++ [⟨c, a⟩]), ?_, hk a st hr⟩
  simp only [dated, logged, hr, Option.map_some]

/-- A program ends as its answers say, and what it executed comes after what was
    executed before. -/
theorem wp_dated_ends {p : Prog A ε α} : ∀ {Q : Except ε α → σ × History A → Prop}
    {x : σ × History A}, p.wp (dated exec ω) s W Q x →
      p.wp (dated exec ω) s W
        (fun r x' => Q r x' ∧ ∃ seg, x'.2 = x.2 ++ seg ∧ p.Ends seg r) x := by
  induction p with
  | ret a => exact fun h => ⟨h, [], (List.append_nil _).symm, .ret a⟩
  | raise e => exact fun h => ⟨h, [], (List.append_nil _).symm, .raise e⟩
  | op c k ih =>
    intro Q x h u hu
    obtain ⟨r, hr, hk⟩ := h u hu
    refine ⟨r, hr, wp_mono _ _ _ ?_ (ih r.1 hk)⟩
    rintro res x' ⟨hq, seg, hx, hends⟩
    obtain ⟨⟨a, st⟩, -, rfl⟩ := Option.map_eq_some_iff.1 hr
    refine ⟨hq, ⟨c, a⟩ :: seg, ?_, .op hends⟩
    rw [hx, List.append_assoc]
    rfl

end Prog

end Conc
