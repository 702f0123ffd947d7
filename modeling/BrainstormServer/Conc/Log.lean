/-
  Reasoning along the log of an interleaved run.

  * `Trace.sustained`: what one command of a session establishes, and every
    later command but certain ones of that session keeps, still holds;
  * `Trace.since`: conversely, what only a command of that session can
    establish was established by one, with none of the certain ones since;
  * `Trace.iff_since`: what some commands establish and others destroy holds if one
    of the former was executed since the last of the latter (`Since`);
  * `split_compare`: two entries of one log are in order, one way or the other.
-/
import Mathlib.Data.List.Induction
import BrainstormServer.Conc.Prog

namespace Conc

variable {C : Type} {A : C → Type} {S σ Ω : Type}

/-- Two positions in a list. -/
theorem split_compare {α : Type} : ∀ {l₁ l₂ m₁ m₂ : List α} {x y : α},
    l₁ ++ x :: l₂ = m₁ ++ y :: m₂ →
      (∃ m, m₁ = l₁ ++ x :: m ∧ l₂ = m ++ y :: m₂) ∨ (l₁ = m₁ ∧ x = y ∧ l₂ = m₂) ∨
        (∃ m, l₁ = m₁ ++ y :: m ∧ m₂ = m ++ x :: l₂)
  | [], l₂, [], m₂, x, y, h => by
    simp only [List.nil_append, List.cons.injEq] at h
    exact Or.inr (Or.inl ⟨rfl, h.1, h.2⟩)
  | [], l₂, z :: m₁, m₂, x, y, h => by
    simp only [List.nil_append, List.cons_append, List.cons.injEq] at h
    exact Or.inl ⟨m₁, by rw [h.1]; rfl, h.2⟩
  | z :: l₁, l₂, [], m₂, x, y, h => by
    simp only [List.nil_append, List.cons_append, List.cons.injEq] at h
    exact Or.inr (Or.inr ⟨l₁, by rw [h.1]; rfl, h.2.symm⟩)
  | z :: l₁, l₂, z' :: m₁, m₂, x, y, h => by
    simp only [List.cons_append, List.cons.injEq] at h
    obtain ⟨rfl, h⟩ := h
    rcases split_compare h with ⟨m, rfl, rfl⟩ | ⟨rfl, rfl, rfl⟩ | ⟨m, rfl, rfl⟩
    · exact Or.inl ⟨m, rfl, rfl⟩
    · exact Or.inr (Or.inl ⟨rfl, rfl, rfl⟩)
    · exact Or.inr (Or.inr ⟨m, rfl, rfl⟩)

/-- A position in a concatenation lies in one of the two parts. -/
theorem split_append {α : Type} : ∀ {l l' m₁ m₂ : List α} {x : α}, l ++ l' = m₁ ++ x :: m₂ →
    (∃ r, l = m₁ ++ x :: r ∧ m₂ = r ++ l') ∨ ∃ r, m₁ = l ++ r ∧ l' = r ++ x :: m₂
  | [], l', m₁, m₂, x, h => Or.inr ⟨m₁, rfl, h⟩
  | y :: l, l', [], m₂, x, h => by
    simp only [List.cons_append, List.nil_append, List.cons.injEq] at h
    exact Or.inl ⟨l, by rw [h.1]; rfl, h.2.symm⟩
  | y :: l, l', z :: m₁, m₂, x, h => by
    simp only [List.cons_append, List.cons.injEq] at h
    obtain ⟨rfl, h⟩ := h
    rcases split_append h with ⟨r, rfl, rfl⟩ | ⟨r, rfl, rfl⟩
    · exact Or.inl ⟨r, rfl, rfl⟩
    · exact Or.inr ⟨r, rfl, rfl⟩

/-- The execution an entry records. -/
def Entry.Executed (exec : S → (c : C) → σ → Ω → Option (A c × σ)) (e : Entry A S σ) : Prop :=
  ∃ ω, exec e.session e.cmd e.before ω = some (e.ans, e.after)

/-- The execution, in terms of who executed what. -/
theorem Entry.Executed.as {exec : S → (c : C) → σ → Ω → Option (A c × σ)} {e : Entry A S σ}
    (he : e.Executed exec) {s : S} (hs : e.session = s) {c : C} {a : A c}
    (hc : (⟨e.cmd, e.ans⟩ : Σ c, A c) = ⟨c, a⟩) : ∃ ω, exec s c e.before ω = some (a, e.after) := by
  obtain ⟨s', before, c', a', after⟩ := e
  cases hs
  cases hc
  exact he

section
variable [DecidableEq S] {exec : S → (c : C) → σ → Ω → Option (A c × σ)} {s : S}

omit [DecidableEq S] in
theorem Trace.nil_eq {st st' : σ} (h : Trace exec st ([] : List (Entry A S σ)) st') : st' = st := by
  cases h
  rfl

omit [DecidableEq S] in
theorem Trace.snoc {l : List (Entry A S σ)} {e : Entry A S σ} {st st' : σ}
    (h : Trace exec st (l ++ [e]) st') :
    Trace exec st l e.before ∧ e.Executed exec ∧ st' = e.after := by
  obtain ⟨h1, h2, h3⟩ := h.split_cons
  exact ⟨h1, h2, h3.nil_eq⟩

omit [DecidableEq S] in
/-- **Invariants over a log**, where a step may depend on what led to it. -/
theorem Trace.inv_split (I : σ → Prop) :
    ∀ (l : List (Entry A S σ)) {st st' : σ}, Trace exec st l st' →
      (∀ l₁ (e : Entry A S σ) l₂, l = l₁ ++ e :: l₂ → Trace exec st l₁ e.before → e.Executed exec →
        I e.before → I e.after) → I st → I st' := by
  intro l
  induction l using List.reverseRecOn with
  | nil =>
    intro st st' h _ h0
    rw [h.nil_eq]
    exact h0
  | append_singleton l e ih =>
    intro st st' h hI h0
    obtain ⟨h', he, rfl⟩ := h.snoc
    refine hI l e [] rfl h' he (ih h' (fun l₁ e' l₂ hl => ?_) h0)
    exact hI l₁ e' (l₂ ++ [e]) (by rw [hl]; simp)

theorem own_append_singleton (s : S) (l : List (Entry A S σ)) (e : Entry A S σ) :
    own s (l ++ [e]) = if e.session = s then own s l ++ [⟨e.cmd, e.ans⟩] else own s l := by
  rw [own_append]
  split_ifs with h
  · rw [own_cons_self h, own_nil]
  · rw [own_cons_ne h, own_nil, List.append_nil]

theorem mem_own {l : List (Entry A S σ)} {x : Σ c, A c} (h : x ∈ own s l) :
    ∃ e ∈ l, e.session = s ∧ (⟨e.cmd, e.ans⟩ : Σ c, A c) = x := by
  simp only [own, List.mem_map, List.mem_filter, decide_eq_true_eq] at h
  obtain ⟨e, ⟨he, hs⟩, hx⟩ := h
  exact ⟨e, he, hs, hx⟩

theorem own_of_mem {l : List (Entry A S σ)} {e : Entry A S σ} (h : e ∈ l) :
    (⟨e.cmd, e.ans⟩ : Σ c, A c) ∈ own e.session l := by
  simp only [own, List.mem_map, List.mem_filter, decide_eq_true_eq]
  exact ⟨e, ⟨h, rfl⟩, rfl⟩

/-- **Sustained.**  `P` holds once session `s` has executed the command, if the
    execution establishes it and every execution keeps it but those of `s` that
    are `done`. -/
theorem Trace.sustained (P : σ → Prop) (done : C → Prop) {c : C} {a : A c}
    (hset : ∀ e : Entry A S σ, e.Executed exec → e.session = s →
      (⟨e.cmd, e.ans⟩ : Σ c, A c) = ⟨c, a⟩ → P e.after)
    (hkeep : ∀ e : Entry A S σ, e.Executed exec → (e.session = s → ¬ done e.cmd) →
      P e.before → P e.after)
    {l : List (Entry A S σ)} {st st' : σ} (ht : Trace exec st l st') {h₁ h₂ : Prog.History A}
    (hl : own s l = h₁ ++ ⟨c, a⟩ :: h₂) (hd : ∀ x ∈ h₂, ¬ done x.1) : P st' := by
  obtain ⟨l₁, e, l₂, rfl, hs, hc, -, hl₂⟩ := own_split hl
  obtain ⟨-, he, ht₂⟩ := ht.split_cons
  refine ht₂.inv (fun e' he' ω hω hP => ?_) (hset e he hs hc)
  refine hkeep e' ⟨ω, hω⟩ (fun hs' => ?_) hP
  have hmem := own_of_mem he'
  rw [hs', hl₂] at hmem
  exact hd _ hmem

/-- **Since.**  What holds now and did not at the start was established by a
    command `w` of session `s`, and `s` has executed no `done` command since. -/
theorem Trace.since (P : σ → Prop) (w done : C → Prop)
    (hstep : ∀ e : Entry A S σ, e.Executed exec → P e.after →
      (e.session = s ∧ w e.cmd) ∨ (P e.before ∧ (e.session = s → ¬ done e.cmd))) :
    ∀ (l : List (Entry A S σ)) {st st' : σ}, Trace exec st l st' → ¬ P st → P st' →
      ∃ h₁ c a h₂, own s l = h₁ ++ ⟨c, a⟩ :: h₂ ∧ w c ∧ ∀ x ∈ h₂, ¬ done x.1 := by
  intro l
  -- from the last entry backwards
  induction l using List.reverseRecOn with
  | nil =>
    intro st st' ht h0 hP
    rw [ht.nil_eq] at hP
    exact absurd hP h0
  | append_singleton l e ih =>
    intro st st' ht h0 hP
    obtain ⟨ht', he, rfl⟩ := ht.snoc
    rw [own_append_singleton]
    rcases hstep e he hP with ⟨hs, hw⟩ | ⟨hP', hd⟩
    · rw [if_pos hs]
      exact ⟨own s l, e.cmd, e.ans, [], rfl, hw, by simp⟩
    · obtain ⟨h₁, c, a, h₂, hl, hw, hd₂⟩ := ih ht' h0 hP'
      by_cases hs : e.session = s
      · rw [if_pos hs, hl]
        refine ⟨h₁, c, a, h₂ ++ [⟨e.cmd, e.ans⟩], by simp, hw, ?_⟩
        intro x hx
        rcases List.mem_append.1 hx with hx | hx
        · exact hd₂ x hx
        · rw [List.mem_singleton.1 hx]
          exact hd hs
      · rw [if_neg hs]
        exact ⟨h₁, c, a, h₂, hl, hw, hd₂⟩

/-- One of `adds` was executed, and none of `clears` after it. -/
def Since (adds clears : C → Prop) (l : List (Entry A S σ)) : Prop :=
  ∃ l₁, ∃ e : Entry A S σ, ∃ l₂ : List (Entry A S σ), l = l₁ ++ e :: l₂ ∧ adds e.cmd ∧ ∀ e' ∈ l₂, ¬ clears e'.cmd

omit [DecidableEq S] in
theorem since_snoc {adds clears : C → Prop} {l : List (Entry A S σ)} {e : Entry A S σ} :
    Since adds clears (l ++ [e]) ↔ adds e.cmd ∨ (Since adds clears l ∧ ¬ clears e.cmd) := by
  constructor
  · rintro ⟨l₁, e', l₂, hl, hadds, hnot⟩
    rcases List.eq_nil_or_concat l₂ with rfl | ⟨l₃, e'', rfl⟩
    · obtain ⟨-, h⟩ := List.append_inj' hl rfl
      cases h
      exact .inl hadds
    · rw [List.concat_eq_append, ← List.cons_append, ← List.append_assoc] at hl
      obtain ⟨hfront, h⟩ := List.append_inj' hl rfl
      cases h
      refine .inr ⟨⟨l₁, e', l₃, hfront, hadds, fun e₁ he₁ => hnot e₁ (by simp [he₁])⟩, ?_⟩
      exact hnot e (by simp)
  · rintro (hadds | ⟨⟨l₁, e', l₂, rfl, hadds, hnot⟩, hclear⟩)
    · exact ⟨l, e, [], rfl, hadds, by simp⟩
    · refine ⟨l₁, e', l₂ ++ [e], by simp, hadds, fun e₁ he₁ => ?_⟩
      rcases List.mem_append.1 he₁ with he₁ | he₁
      · exact hnot e₁ he₁
      · rw [List.mem_singleton.1 he₁]
        exact hclear

omit [DecidableEq S] in
/-- **What is added and cleared.**  If `P` is established by the commands `adds`, destroyed
    by `clears` and kept by the others, then it holds at the end of a log just when it was
    added since it was last cleared, or held at the start and was never cleared. -/
theorem Trace.iff_since (P : σ → Prop) (adds clears : C → Prop) :
    ∀ (l : List (Entry A S σ)) {st st' : σ}, Trace exec st l st' →
      (∀ e ∈ l, e.Executed exec → (P e.after ↔ adds e.cmd ∨ (P e.before ∧ ¬ clears e.cmd))) →
      (P st' ↔ Since adds clears l ∨ (P st ∧ ∀ e ∈ l, ¬ clears e.cmd)) := by
  intro l
  induction l using List.reverseRecOn with
  | nil =>
    intro st st' ht _
    rw [ht.nil_eq]
    simp [Since]
  | append_singleton l e ih =>
    intro st st' ht hstep
    obtain ⟨ht', he, rfl⟩ := ht.snoc
    rw [hstep e (by simp) he, ih ht' fun e' he' => hstep e' (by simp [he']), since_snoc]
    simp only [List.mem_append, List.mem_singleton]
    constructor
    · rintro (hadds | ⟨hsince | ⟨hP, hnot⟩, hclear⟩)
      · exact .inl (.inl hadds)
      · exact .inl (.inr ⟨hsince, hclear⟩)
      · refine .inr ⟨hP, fun e' he' => ?_⟩
        rcases he' with he' | rfl
        · exact hnot e' he'
        · exact hclear
    · rintro ((hadds | ⟨hsince, hclear⟩) | ⟨hP, hnot⟩)
      · exact .inl hadds
      · exact .inr ⟨.inl hsince, hclear⟩
      · exact .inr ⟨.inr ⟨hP, fun e' he' => hnot e' (.inl he')⟩, hnot e (.inr rfl)⟩

end

end Conc
