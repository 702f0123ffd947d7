/-
  Handing out by weight.

  Units are handed out one at a time, each to a member that has not had more than its share
  of the units so far.  The lag of a member is how far it is behind its share; the lags sum to
  zero.

  * `lag_handOut`: a unit takes one from the lag of who gets it, and adds to each its part;
  * `Dealt.lag_ge`: no member is ever more than one unit ahead;
  * `Dealt.bounds`: so every member is within a constant of its share.
-/
import Mathlib.Algebra.BigOperators.Field
import Mathlib.Algebra.Order.BigOperators.Group.Finset
import Mathlib.Algebra.Order.Field.Basic
import Mathlib.Tactic.Linarith
import Mathlib.Tactic.Ring

namespace Conc

open Finset

section
variable {ι K : Type} [DecidableEq ι] [Field K]

/-- How far a member is behind its share of what was handed out. -/
def lag (s : Finset ι) (w : ι → K) (c : ι → ℕ) (i : ι) : K :=
  ((∑ j ∈ s, c j : ℕ) : K) * w i / (∑ j ∈ s, w j) - c i

/-- One more unit for `p`. -/
def handOut (c : ι → ℕ) (p : ι) : ι → ℕ := Function.update c p (c p + 1)

variable {s : Finset ι} {w : ι → K} {c : ι → ℕ} {p : ι}

theorem sum_handOut (hp : p ∈ s) : ∑ j ∈ s, handOut c p j = (∑ j ∈ s, c j) + 1 := by
  rw [handOut, sum_update_of_mem hp, ← add_sum_erase s c hp, sdiff_singleton_eq_erase]
  omega

omit [DecidableEq ι] in
/-- The lags sum to zero. -/
theorem sum_lag (hW : ∑ j ∈ s, w j ≠ 0) : ∑ i ∈ s, lag s w c i = 0 := by
  unfold lag
  rw [sum_sub_distrib, ← sum_div, ← mul_sum, mul_div_assoc, div_self hW, mul_one, Nat.cast_sum, sub_self]

/-- **A unit** adds to each lag the member's part of it, and takes one from who gets it. -/
theorem lag_handOut (hp : p ∈ s) (i : ι) : lag s w (handOut c p) i =
    lag s w c i + w i / (∑ j ∈ s, w j) - if i = p then 1 else 0 := by
  unfold lag
  rw [sum_handOut hp, handOut, Nat.cast_add, Nat.cast_one]
  by_cases hi : i = p
  · rw [if_pos hi, hi, Function.update_self, Nat.cast_add, Nat.cast_one]
    ring
  · rw [if_neg hi, Function.update_of_ne hi]
    ring

end

section
variable {ι K : Type} [DecidableEq ι] [Field K] [LinearOrder K] [IsStrictOrderedRing K]
  {s : Finset ι} {w : ι → K} {c : ι → ℕ} {p : ι} {n : ℕ}

omit [DecidableEq ι] in
/-- Whoever is furthest behind is not ahead. -/
theorem lag_nonneg_of_max (hW : ∑ j ∈ s, w j ≠ 0) (hp : p ∈ s) (hmax : ∀ i ∈ s, lag s w c i ≤ lag s w c p) :
    0 ≤ lag s w c p := by
  by_contra h
  have hneg : ∑ i ∈ s, lag s w c i < 0 :=
    sum_neg (fun i hi => lt_of_le_of_lt (hmax i hi) (not_le.1 h)) ⟨p, hp⟩
  exact hneg.ne (sum_lag hW)

/-- The counts after `n` units, each handed to a member that was not ahead of its share. -/
inductive Dealt (s : Finset ι) (w : ι → K) : ℕ → (ι → ℕ) → Prop
  | zero : Dealt s w 0 fun _ => 0
  | succ {n : ℕ} {c : ι → ℕ} {p : ι} (before : Dealt s w n c) (hp : p ∈ s) (hlag : 0 ≤ lag s w c p) :
      Dealt s w (n + 1) (handOut c p)

omit [IsStrictOrderedRing K] in
theorem Dealt.sum_eq (h : Dealt s w n c) : ∑ j ∈ s, c j = n := by
  induction h with
  | zero => exact sum_const_zero
  | succ _ hp _ ih => rw [sum_handOut hp, ih]

/-- **No member is more than one unit ahead.** -/
theorem Dealt.lag_ge (h : Dealt s w n c) (hw : ∀ i ∈ s, 0 ≤ w i) : ∀ i ∈ s, -1 ≤ lag s w c i := by
  have hW : 0 ≤ ∑ j ∈ s, w j := sum_nonneg hw
  induction h with
  | zero =>
    intro i _
    simp [lag]
  | succ _ hp hlag ih =>
    intro i hi
    have hpart : 0 ≤ w i / ∑ j ∈ s, w j := div_nonneg (hw i hi) hW
    rw [lag_handOut hp]
    split_ifs with hip
    · rw [hip] at hpart ⊢
      linarith
    · linarith [ih i hi]

/-- **Every member is within a constant of its share.** -/
theorem Dealt.bounds (h : Dealt s w n c) (hw : ∀ i ∈ s, 0 ≤ w i) (hW : ∑ j ∈ s, w j ≠ 0) : ∀ i ∈ s,
    (c i : K) ≤ n * w i / (∑ j ∈ s, w j) + 1 ∧ n * w i / (∑ j ∈ s, w j) - (s.card - 1) ≤ c i := by
  intro i hi
  have hge := h.lag_ge hw
  -- what one is behind, the others are ahead
  have hothers : lag s w c i = -∑ j ∈ s.erase i, lag s w c j := by
    rw [eq_neg_iff_add_eq_zero, add_sum_erase s _ hi, sum_lag hW]
  have hle : -(((s.erase i).card : K)) ≤ ∑ j ∈ s.erase i, lag s w c j := by
    have hsum := card_nsmul_le_sum (s.erase i) (lag s w c) (-1) fun j hj => hge j (mem_of_mem_erase hj)
    rwa [nsmul_eq_mul, mul_neg, mul_one] at hsum
  have hcard : ((s.erase i).card : K) = s.card - 1 := by
    rw [card_erase_of_mem hi, Nat.cast_sub (card_pos.2 ⟨i, hi⟩), Nat.cast_one]
  have hlag : lag s w c i = n * w i / (∑ j ∈ s, w j) - c i := by rw [lag, h.sum_eq]
  have hahead := hge i hi
  constructor
  · linarith
  · linarith

end

end Conc
