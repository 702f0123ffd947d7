/-
  Serving a list of items in bounded rounds, the longest unserved first.

  In each round the items stand in the order of their stamps and the first `limit` are
  served; what is served gets a new stamp.  If every new stamp is above the ones the
  items began with, nobody unserved ever stands behind somebody served, so every round
  serves `limit` items it has not served before, as long as there are any.

  * `countP_left`: what a round leaves unserved, of a list in which those who wait come
    first;
  * `OldestFirst`: such a sequence of rounds, and `OldestFirst.waiting_first`: who waits
    comes first in it;
  * `OldestFirst.all_served`: enough rounds serve everybody.
-/
import Mathlib.Data.List.Count
import Mathlib.Data.List.Perm.Basic
import Mathlib.Order.Lattice
import Mathlib.Tactic.Common

namespace Conc

namespace Rounds

section
variable {α : Type} [DecidableEq α]

/-- **One round.**  Where the items with `P` come first, a round that takes `n` of the
    list leaves that many fewer with `P` outside. -/
theorem countP_left (P : α → Prop) [DecidablePred P] : ∀ (l : List α) (n : ℕ),
    l.Pairwise (fun a b => P b → P a) →
      l.countP (fun a => P a ∧ a ∉ l.take n) ≤ l.countP (fun a => P a) - n := by
  intro l
  induction l with
  | nil =>
    intro n _
    simp
  | cons a l ih =>
    intro n h
    obtain ⟨ha, hl⟩ := List.pairwise_cons.1 h
    cases n with
    | zero => simp
    | succ n =>
      by_cases hP : P a
      · -- the first one is taken
        have hrest : (a :: l).countP (fun b => P b ∧ b ∉ (a :: l).take (n + 1)) ≤
            l.countP (fun b => P b ∧ b ∉ l.take n) := by
          rw [List.countP_cons_of_neg (by simp)]
          refine List.countP_mono_left fun b _ hb => ?_
          simp only [List.take_succ_cons, List.mem_cons, decide_eq_true_eq] at hb ⊢
          exact ⟨hb.1, fun hmem => hb.2 (Or.inr hmem)⟩
        have hcount : (a :: l).countP (fun b => P b) = l.countP (fun b => P b) + 1 :=
          List.countP_cons_of_pos (by simpa using hP)
        have := ih n hl
        omega
      · -- and otherwise nobody has `P`
        have hnone : (a :: l).countP (fun b => P b ∧ b ∉ (a :: l).take (n + 1)) = 0 := by
          refine List.countP_eq_zero.2 fun b hb hPb => ?_
          simp only [decide_eq_true_eq] at hPb
          rcases List.mem_cons.1 hb with rfl | hb
          · exact hP hPb.1
          · exact hP (ha b hb hPb.1)
        omega

end

/-! ## Oldest first -/

section
variable {α κ : Type} [LinearOrder κ] (order : ℕ → List α) (limit : ℕ)

/-- The items the `i`-th round serves. -/
def served (i : ℕ) : List α := (order i).take limit

/-- The item has not been served before the `i`-th round. -/
def Waiting (i : ℕ) (a : α) : Prop := ∀ j < i, a ∉ served order limit j

instance [DecidableEq α] (i : ℕ) : DecidablePred (Waiting order limit i) := fun a =>
  inferInstanceAs (Decidable (∀ j < i, a ∉ served order limit j))

/-- In each of `k` rounds all of `items` stand in the order of their stamps, and who is
    served, and nobody else, gets a new stamp, above `bound`. -/
structure OldestFirst (stamp : ℕ → α → κ) (items : List α) (bound : κ) (k : ℕ) : Prop where
  perm : ∀ i < k, (order i).Perm items
  sorted : ∀ i < k, (order i).Pairwise fun a b => stamp i a ≤ stamp i b
  old : ∀ a ∈ items, stamp 0 a ≤ bound
  kept : ∀ i < k, ∀ a ∉ served order limit i, stamp (i + 1) a = stamp i a
  renewed : ∀ i < k, ∀ a ∈ served order limit i, bound < stamp (i + 1) a

variable {order limit} {stamp : ℕ → α → κ} {items : List α} {bound : κ} {k : ℕ}

theorem waiting_succ {i : ℕ} {a : α} :
    Waiting order limit (i + 1) a ↔ Waiting order limit i a ∧ a ∉ served order limit i := by
  constructor
  · intro h
    exact ⟨fun j hj => h j (by omega), h i (by omega)⟩
  · rintro ⟨h, hi⟩ j hj
    rcases Nat.lt_succ_iff_lt_or_eq.1 hj with hj | rfl
    · exact h j hj
    · exact hi

/-- Who waits has the stamp they began with, who was served has one above the bound. -/
theorem OldestFirst.stamps (h : OldestFirst order limit stamp items bound k) {a : α} :
    ∀ i ≤ k, (Waiting order limit i a → stamp i a = stamp 0 a) ∧
      (¬ Waiting order limit i a → bound < stamp i a) := by
  intro i
  induction i with
  | zero =>
    intro _
    exact ⟨fun _ => rfl, fun hw => absurd (fun j hj => absurd hj (Nat.not_lt_zero j)) hw⟩
  | succ i ih =>
    intro hi
    obtain ⟨hwait, hdone⟩ := ih (by omega)
    by_cases hs : a ∈ served order limit i
    · exact ⟨fun hw => absurd hs (waiting_succ.1 hw).2, fun _ => h.renewed i (by omega) a hs⟩
    · rw [h.kept i (by omega) a hs]
      refine ⟨fun hw => hwait (waiting_succ.1 hw).1, fun hw => hdone fun hw' => hw ?_⟩
      exact waiting_succ.2 ⟨hw', hs⟩

/-- **Who waits stands before who was served.** -/
theorem OldestFirst.waiting_first (h : OldestFirst order limit stamp items bound k) {i : ℕ}
    (hi : i < k) :
    (order i).Pairwise fun a b => Waiting order limit i b → Waiting order limit i a := by
  refine (h.sorted i hi).imp_of_mem fun {a b} _ hb hle hw => ?_
  by_contra ha
  have hbound := (h.stamps i (by omega)).2 ha
  have hold := h.old b ((h.perm i hi).mem_iff.1 hb)
  rw [← (h.stamps i (by omega)).1 hw] at hold
  exact absurd (hbound.trans_le hle) (not_lt_of_ge hold)

variable [DecidableEq α]

theorem OldestFirst.countP_waiting (h : OldestFirst order limit stamp items bound k) :
    ∀ i ≤ k, items.countP (fun a => Waiting order limit i a) ≤ items.length - i * limit := by
  intro i
  induction i with
  | zero =>
    intro _
    simpa using List.countP_le_length
  | succ i ih =>
    intro hi
    have hround := countP_left (Waiting order limit i) (order i) limit (h.waiting_first (by omega))
    rw [(h.perm i (by omega)).countP_eq, (h.perm i (by omega)).countP_eq] at hround
    have hsucc : items.countP (fun a => Waiting order limit (i + 1) a) =
        items.countP (fun a => Waiting order limit i a ∧ a ∉ (order i).take limit) := by
      refine List.countP_congr fun a _ => ?_
      rw [decide_eq_true_eq, decide_eq_true_eq]
      exact waiting_succ
    have := ih (by omega)
    rw [Nat.succ_mul]
    omega

/-- **Enough rounds serve everybody.** -/
theorem OldestFirst.all_served (h : OldestFirst order limit stamp items bound k)
    (hk : items.length ≤ k * limit) {a : α} (ha : a ∈ items) :
    ∃ i < k, a ∈ served order limit i := by
  have hzero : items.countP (fun a => Waiting order limit k a) = 0 := by
    have := h.countP_waiting k (Nat.le_refl k)
    omega
  have hwait := List.countP_eq_zero.1 hzero a ha
  rw [decide_eq_true_eq] at hwait
  by_contra hne
  exact hwait fun j hj hs => hne ⟨j, hj, hs⟩

end

end Rounds

end Conc
