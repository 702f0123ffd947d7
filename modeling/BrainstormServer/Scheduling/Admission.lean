/-
  The lane of the next admission (`choose_admission_lane` of `app/services/scheduler.py`).

  The weight of a priority is one more than it is, and the lanes take turns by weight.

  * `chooseAdmissionLane_ok`, `chooseAdmissionLane_zero`: the lane that is furthest behind, if
    the weights do not sum to zero;
  * `admissions_within_share`: with the same lanes again and again, each gets its share.
-/
import BrainstormServer.Conc.Shares
import BrainstormServer.Conc.Tables
import Mathlib.Algebra.BigOperators.Group.Finset.Basic
import Mathlib.Algebra.Order.BigOperators.Group.List
import Mathlib.Data.Rat.Cast.Order
import Mathlib.Tactic.FieldSimp
import Mathlib.Tactic.Positivity

namespace BrainstormServer

namespace Admission

/-! ## Lanes -/

/-- Arithmetic of shares: exact, or on floats. -/
structure Arith (K : Type) where
  /-- `a / b` of two `int`s -/
  div : ℤ → ℤ → K
  sub : K → K → K
  /-- `0.0` -/
  zero : K

/-- What the choice of a lane raises. -/
inductive LaneError
  /-- `max()` of nothing -/
  | valueError
  | zeroDivisionError
  /-- `KeyError`, or `pop` from an empty list -/
  | lookupError
  deriving DecidableEq

/-- `dict[int, int]`. -/
abbrev Counts := List (ℤ × ℕ)

/-- `admitted_counts.get(p, 0)`. -/
def admitted (counts : Counts) (p : ℤ) : ℕ := (counts.lookup p).getD 0

/-- `total_weight`. -/
def totalWeight (activePriorities : List ℤ) : ℤ := (activePriorities.map (· + 1)).sum

/-- `total_admitted`. -/
def totalAdmitted (activePriorities : List ℤ) (counts : Counts) : ℕ := (activePriorities.map (admitted counts)).sum

section
variable {K : Type}

/-- `deficit`. -/
def deficit (A : Arith K) (activePriorities : List ℤ) (counts : Counts) (p : ℤ) : K :=
  let target := A.div (p + 1) (totalWeight activePriorities)
  let current := if totalAdmitted activePriorities counts ≠ 0 then
      A.div (admitted counts p) (totalAdmitted activePriorities counts)
    else A.zero
  A.sub target current

/-- `(deficit(p), p) < (deficit(q), q)` -/
def Behind [LinearOrder K] (A : Arith K) (activePriorities : List ℤ) (counts : Counts) (p q : ℤ) : Prop :=
  deficit A activePriorities counts p < deficit A activePriorities counts q ∨
    (deficit A activePriorities counts p = deficit A activePriorities counts q ∧ p < q)

instance [LinearOrder K] (A : Arith K) (activePriorities : List ℤ) (counts : Counts) :
    DecidableRel (Behind A activePriorities counts) := fun _ _ => inferInstanceAs (Decidable (_ ∨ _))

/-- `choose_admission_lane`. -/
def chooseAdmissionLane [LinearOrder K] (A : Arith K) (activePriorities : List ℤ) (counts : Counts) :
    Except LaneError ℤ :=
  if activePriorities ≠ [] ∧ totalWeight activePriorities = 0 then .error .zeroDivisionError
  else match Conc.greatest (Behind A activePriorities counts) activePriorities with
    | none => .error .valueError
    | some lane => .ok lane

variable [LinearOrder K] {A : Arith K} {active : List ℤ} {counts : Counts}

/-- Weights that sum to zero are divided by. -/
theorem chooseAdmissionLane_zero (hne : active ≠ []) (hzero : totalWeight active = 0) :
    chooseAdmissionLane A active counts = .error .zeroDivisionError :=
  if_pos ⟨hne, hzero⟩

/-- **Otherwise a lane is chosen**, and none is further behind. -/
theorem chooseAdmissionLane_ok (A : Arith K) (counts : Counts) (hne : active ≠ [])
    (hweight : totalWeight active ≠ 0) : ∃ lane ∈ active, chooseAdmissionLane A active counts = .ok lane ∧
      ∀ p ∈ active, deficit A active counts p ≤ deficit A active counts lane := by
  have hbehind : ∀ p q, Behind A active counts p q → deficit A active counts p ≤ deficit A active counts q :=
    fun p q h => h.elim le_of_lt fun h => h.1.le
  have hahead : ∀ p q, ¬ Behind A active counts p q → deficit A active counts q ≤ deficit A active counts p :=
    fun p q h => not_lt.1 fun hlt => h (Or.inl hlt)
  obtain ⟨lane, hlane⟩ := Conc.exists_greatest (r := Behind A active counts) hne
  refine ⟨lane, Conc.greatest_mem hlane, ?_, Conc.le_greatest hbehind hahead hlane⟩
  rw [chooseAdmissionLane, if_neg fun h => hweight h.2, hlane]

end

/-! ## Shares -/

/-- Exact rationals. -/
def exact : Arith ℚ := ⟨fun a b => a / b, fun x y => x - y, 0⟩

/-- The lane that is chosen gets one more. -/
def admitLane (active : List ℤ) (counts : Counts) : Except LaneError Counts := do
  let lane ← chooseAdmissionLane exact active counts
  return dictSet counts lane (admitted counts lane + 1)

/-- The counts after so many admissions, if the same lanes stay active. -/
def admissions (active : List ℤ) : ℕ → Except LaneError Counts
  | 0 => .ok []
  | n + 1 => do admitLane active (← admissions active n)

/-- The weight of a lane. -/
def weight (p : ℤ) : ℚ := p + 1

theorem admitted_dictSet (counts : Counts) (lane : ℤ) :
    admitted (dictSet counts lane (admitted counts lane + 1)) = Conc.handOut (admitted counts) lane := by
  funext p
  rw [admitted, lookup_dictSet, Conc.handOut]
  by_cases hp : p = lane
  · rw [if_pos hp, hp, Function.update_self, Option.getD_some]
  · rw [if_neg hp, Function.update_of_ne hp, admitted]

section
variable {active : List ℤ} {counts : Counts}

theorem sum_weight (hnodup : active.Nodup) : ∑ p ∈ active.toFinset, weight p = totalWeight active := by
  rw [List.sum_toFinset _ hnodup, totalWeight]
  push_cast [List.map_map]
  exact congrArg List.sum (List.map_congr_left fun p _ => by simp [weight])

theorem totalWeight_pos (hne : active ≠ []) (hpos : ∀ p ∈ active, 0 ≤ p) : 0 < totalWeight active := by
  refine List.sum_pos _ (fun x hx => ?_) (by simpa using hne)
  obtain ⟨p, hp, rfl⟩ := List.mem_map.1 hx
  exact Int.lt_add_one_of_le (hpos p hp)

/-- **The deficit is the lag**, for each unit that was admitted. -/
theorem lag_eq (hnodup : active.Nodup) (hsome : totalAdmitted active counts ≠ 0) (p : ℤ) :
    Conc.lag active.toFinset weight (admitted counts) p =
      totalAdmitted active counts * deficit exact active counts p := by
  have htotal : ∑ j ∈ active.toFinset, admitted counts j = totalAdmitted active counts := List.sum_toFinset _ hnodup
  have hne : (totalAdmitted active counts : ℚ) ≠ 0 := Nat.cast_ne_zero.2 hsome
  rw [Conc.lag, htotal, sum_weight hnodup, deficit, if_pos hsome]
  simp only [exact, weight]
  push_cast
  rw [mul_sub, mul_div_cancel₀ _ hne, mul_div_assoc]

/-- Who is chosen is not ahead of its share. -/
theorem lag_nonneg {lane : ℤ} (hnodup : active.Nodup) (hweight : totalWeight active ≠ 0) (hlane : lane ∈ active)
    (hmax : ∀ p ∈ active, deficit exact active counts p ≤ deficit exact active counts lane) :
    0 ≤ Conc.lag active.toFinset weight (admitted counts) lane := by
  have hW : ∑ p ∈ active.toFinset, weight p ≠ 0 := by
    rw [sum_weight hnodup]
    exact Int.cast_ne_zero.2 hweight
  refine Conc.lag_nonneg_of_max hW (List.mem_toFinset.2 hlane) fun p hp => ?_
  by_cases hsome : totalAdmitted active counts = 0
  · -- nobody has been admitted
    have hzero : ∀ q ∈ active, admitted counts q = 0 := by
      intro q hq
      exact List.sum_eq_zero_iff.1 hsome _ (List.mem_map_of_mem hq)
    have htotal : ∑ j ∈ active.toFinset, admitted counts j = 0 := (List.sum_toFinset _ hnodup).trans hsome
    rw [Conc.lag, Conc.lag, htotal, hzero p (List.mem_toFinset.1 hp), hzero lane hlane]
    simp
  · rw [lag_eq hnodup hsome, lag_eq hnodup hsome]
    exact mul_le_mul_of_nonneg_left (hmax p (List.mem_toFinset.1 hp)) (Nat.cast_nonneg _)

/-- Admissions hand out runs by weight. -/
theorem exists_admissions (hne : active ≠ []) (hnodup : active.Nodup) (hpos : ∀ p ∈ active, 0 ≤ p) (n : ℕ) :
    ∃ counts, admissions active n = .ok counts ∧ Conc.Dealt active.toFinset weight n (admitted counts) := by
  induction n with
  | zero => exact ⟨[], rfl, Conc.Dealt.zero⟩
  | succ n ih =>
    obtain ⟨counts, hcounts, hdealt⟩ := ih
    have hweight : totalWeight active ≠ 0 := (totalWeight_pos hne hpos).ne'
    obtain ⟨lane, hlane, hchosen, hmax⟩ := chooseAdmissionLane_ok exact counts hne hweight
    refine ⟨dictSet counts lane (admitted counts lane + 1), ?_, ?_⟩
    · rw [admissions, hcounts]
      show admitLane active counts = _
      rw [admitLane, hchosen]
      rfl
    · rw [admitted_dictSet]
      exact hdealt.succ (List.mem_toFinset.2 hlane) (lag_nonneg hnodup hweight hlane hmax)

end

/-- **Weighted admission stays within a constant of its share**, and no lane starves. -/
theorem admissions_within_share (active : List ℤ) (hne : active ≠ []) (hnodup : active.Nodup)
    (hpos : ∀ p ∈ active, 0 ≤ p) :
    (∀ n, ∃ counts, admissions active n = .ok counts ∧ ∀ p ∈ active,
      (admitted counts p : ℚ) ≤ n * (p + 1) / totalWeight active + 1 ∧
        (n * (p + 1) / totalWeight active - (active.length - 1) : ℚ) ≤ admitted counts p) ∧
    ∀ p ∈ active, ∀ m, ∃ n counts, admissions active n = .ok counts ∧ m ≤ admitted counts p := by
  have hW := totalWeight_pos hne hpos
  have hshare : ∀ n, ∃ counts, admissions active n = .ok counts ∧ ∀ p ∈ active,
      (admitted counts p : ℚ) ≤ n * (p + 1) / totalWeight active + 1 ∧
        (n * (p + 1) / totalWeight active - (active.length - 1) : ℚ) ≤ admitted counts p := by
    intro n
    obtain ⟨counts, hcounts, hdealt⟩ := exists_admissions hne hnodup hpos n
    have hnonneg : ∀ p ∈ active.toFinset, 0 ≤ weight p := fun p hp => by
      have h := hpos p (List.mem_toFinset.1 hp)
      rw [weight]
      exact_mod_cast Int.le_add_one h
    have hbounds := hdealt.bounds hnonneg (by rw [sum_weight hnodup]; exact_mod_cast hW.ne')
    rw [sum_weight hnodup, List.toFinset_card_of_nodup hnodup] at hbounds
    exact ⟨counts, hcounts, fun p hp => hbounds p (List.mem_toFinset.2 hp)⟩
  refine ⟨hshare, fun p hp m => ?_⟩
  -- after so many rounds of the total weight, the share alone is enough
  obtain ⟨counts, hcounts, hall⟩ := hshare ((totalWeight active).toNat * (m + active.length))
  refine ⟨_, counts, hcounts, ?_⟩
  have hlower := (hall p hp).2
  have hweight : (1 : ℚ) ≤ p + 1 := by exact_mod_cast Int.add_le_add_right (hpos p hp) 1
  have hrounds : (((totalWeight active).toNat * (m + active.length) : ℕ) : ℚ) * (p + 1) / totalWeight active =
      (m + active.length) * (p + 1) := by
    have hcast : ((totalWeight active).toNat : ℚ) = totalWeight active := by exact_mod_cast Int.toNat_of_nonneg hW.le
    have hne : (totalWeight active : ℚ) ≠ 0 := Int.cast_ne_zero.2 hW.ne'
    push_cast
    rw [hcast]
    field_simp
  have hmore : (m + active.length : ℚ) ≤ (m + active.length) * (p + 1) := le_mul_of_one_le_right (by positivity) hweight
  rw [hrounds] at hlower
  exact_mod_cast (by linarith : (m : ℚ) ≤ admitted counts p)

/-- Of the lanes 0, 1 and 2, the highest gets its half of six. -/
theorem threeLanes_within_share : ∃ counts, admissions [0, 1, 2] 6 = .ok counts ∧ 1 ≤ admitted counts 2 ∧
    admitted counts 2 ≤ 4 := by
  obtain ⟨counts, hcounts, hall⟩ := (admissions_within_share [0, 1, 2] (by decide) (by decide) (by decide)).1 6
  have htotal : totalWeight [0, 1, 2] = 6 := by decide
  have h := hall 2 (by decide)
  rw [htotal] at h
  norm_num at h
  refine ⟨counts, hcounts, ?_, ?_⟩
  · exact_mod_cast h.2
  · exact_mod_cast h.1

end Admission

end BrainstormServer
