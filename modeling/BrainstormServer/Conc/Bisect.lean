/-
  Intervals that are halved until their parts are small.

  * `isSome_bisect`: halving ends, if a point is small enough;
  * `parts_bisect`: the parts are small, and apart from each other;
  * `perm_bisect`: what lies in the interval lies in exactly one part.
-/
import Mathlib.Data.List.Perm.Basic
import Mathlib.Data.Int.Order.Basic

namespace Conc

section
variable (small : ℤ → ℤ → Bool)

/-- The parts of the interval from `a` to `b`, in order; nothing when the fuel is used up. -/
def bisect : ℕ → ℤ → ℤ → Option (List (ℤ × ℤ))
  | 0, _, _ => none
  | fuel + 1, a, b =>
    if small a b then some [(a, b)]
    else
      (bisect fuel a ((a + b) / 2)).bind fun left =>
        (bisect fuel ((a + b) / 2 + 1) b).map fun right => left ++ right

variable {small} {a b : ℤ} {parts : List (ℤ × ℤ)}

/-- What an interval is halved into, unless it is small. -/
theorem bisect_cases {fuel : ℕ} (h : bisect small (fuel + 1) a b = some parts) :
    (small a b = true ∧ parts = [(a, b)]) ∨
    (small a b ≠ true ∧ ∃ left right, bisect small fuel a ((a + b) / 2) = some left ∧
      bisect small fuel ((a + b) / 2 + 1) b = some right ∧ parts = left ++ right) := by
  rw [bisect] at h
  split_ifs at h with hsmall
  · exact Or.inl ⟨hsmall, (Option.some.inj h).symm⟩
  · obtain ⟨left, hleft, hright⟩ := Option.bind_eq_some_iff.1 h
    obtain ⟨right, hright, heq⟩ := Option.map_eq_some_iff.1 hright
    exact Or.inr ⟨hsmall, left, right, hleft, hright, heq.symm⟩

/-- More fuel does not change the parts. -/
theorem bisect_mono : ∀ {fuel fuel' : ℕ} {a b : ℤ} {parts : List (ℤ × ℤ)}, fuel ≤ fuel' →
    bisect small fuel a b = some parts → bisect small fuel' a b = some parts := by
  intro fuel
  induction fuel with
  | zero => exact fun _ h => by cases h
  | succ fuel ih =>
    intro fuel' a b parts hle h
    obtain ⟨fuel', rfl⟩ := Nat.exists_eq_add_of_lt hle
    rcases bisect_cases h with ⟨hsmall, rfl⟩ | ⟨hsmall, left, right, hl, hr, rfl⟩
    · rw [bisect, if_pos hsmall]
    · rw [bisect, if_neg hsmall, ih (by omega) hl, ih (by omega) hr]
      rfl

/-- Both halves of an interval that is no point are shorter. -/
theorem half_lt (hab : a < b) : a ≤ (a + b) / 2 ∧ (a + b) / 2 + 1 ≤ b := by omega

/-- **Halving ends**, if a point is small. -/
theorem isSome_bisect (hpoint : ∀ a, small a a = true) : ∀ {fuel : ℕ} {a b : ℤ}, a ≤ b ∨ small a b = true →
    (b - a).toNat < fuel → ∃ parts, bisect small fuel a b = some parts := by
  intro fuel
  induction fuel with
  | zero => exact fun _ h => absurd h (Nat.not_lt_zero _)
  | succ fuel ih =>
    intro a b hab hfuel
    by_cases hsmall : small a b = true
    · exact ⟨[(a, b)], by rw [bisect, if_pos hsmall]⟩
    · have hne : a ≠ b := fun h => hsmall (h ▸ hpoint a)
      have hlt : a < b := lt_of_le_of_ne (hab.resolve_right hsmall) hne
      obtain ⟨hleft, hright⟩ := half_lt hlt
      obtain ⟨left, hl⟩ := ih (Or.inl hleft) (by omega : ((a + b) / 2 - a).toNat < fuel)
      obtain ⟨right, hr⟩ := ih (Or.inl hright) (by omega : (b - ((a + b) / 2 + 1)).toNat < fuel)
      exact ⟨left ++ right, by rw [bisect, if_neg hsmall, hl, hr]; rfl⟩

/-- **The parts** are small, lie in the interval and stand apart from each other. -/
theorem parts_bisect (hpoint : ∀ a, small a a = true) : ∀ {fuel : ℕ} {a b : ℤ} {parts : List (ℤ × ℤ)},
    a ≤ b ∨ small a b = true → bisect small fuel a b = some parts →
      (∀ part ∈ parts, small part.1 part.2 = true ∧ a ≤ part.1 ∧ part.2 ≤ b) ∧
      parts.Pairwise fun part part' => part.2 < part'.1 := by
  intro fuel
  induction fuel with
  | zero => exact fun _ h => by cases h
  | succ fuel ih =>
    intro a b parts hab h
    rcases bisect_cases h with ⟨hsmall, rfl⟩ | ⟨hsmall, left, right, hl, hr, rfl⟩
    · refine ⟨fun part hpart => ?_, List.pairwise_singleton _ _⟩
      rw [List.mem_singleton.1 hpart]
      exact ⟨hsmall, le_rfl, le_rfl⟩
    · have hne : a ≠ b := fun h => hsmall (h ▸ hpoint a)
      obtain ⟨hleft, hright⟩ := half_lt (lt_of_le_of_ne (hab.resolve_right hsmall) hne)
      obtain ⟨hparts, hapart⟩ := ih (Or.inl hleft) hl
      obtain ⟨hparts', hapart'⟩ := ih (Or.inl hright) hr
      refine ⟨fun part hpart => ?_, List.pairwise_append.2 ⟨hapart, hapart', fun part hp part' hp' => ?_⟩⟩
      · rcases List.mem_append.1 hpart with hp | hp
        · obtain ⟨h1, h2, h3⟩ := hparts part hp
          exact ⟨h1, h2, by omega⟩
        · obtain ⟨h1, h2, h3⟩ := hparts' part hp
          exact ⟨h1, by omega, h3⟩
      · have h3 := (hparts part hp).2.2
        have h2 := (hparts' part' hp').2.1
        omega

section
variable {α : Type} (time : α → ℤ)

/-- What lies in the interval from `a` to `b`. -/
def within (a b : ℤ) (items : List α) : List α := items.filter fun x => a ≤ time x ∧ time x ≤ b

theorem perm_within {m : ℤ} (ha : a ≤ m) (hb : m ≤ b) (items : List α) :
    (within time a m items ++ within time (m + 1) b items).Perm (within time a b items) := by
  have hleft : (within time a b items).filter (fun x => time x ≤ m) = within time a m items := by
    rw [within, within, List.filter_filter]
    refine List.filter_congr fun x _ => ?_
    rw [← Bool.decide_and, decide_eq_decide]
    omega
  have hright : (within time a b items).filter (fun x => !decide (time x ≤ m)) = within time (m + 1) b items := by
    rw [within, within, List.filter_filter]
    refine List.filter_congr fun x _ => ?_
    rw [← decide_not, ← Bool.decide_and, decide_eq_decide]
    omega
  rw [← hleft, ← hright]
  exact List.filter_append_perm _ _

/-- **What lies in the interval lies in exactly one part.** -/
theorem perm_bisect (hpoint : ∀ a, small a a = true) (items : List α) : ∀ {fuel : ℕ} {a b : ℤ}
    {parts : List (ℤ × ℤ)}, a ≤ b ∨ small a b = true → bisect small fuel a b = some parts →
      (parts.flatMap fun part => within time part.1 part.2 items).Perm (within time a b items) := by
  intro fuel
  induction fuel with
  | zero => exact fun _ h => by cases h
  | succ fuel ih =>
    intro a b parts hab h
    rcases bisect_cases h with ⟨hsmall, rfl⟩ | ⟨hsmall, left, right, hl, hr, rfl⟩
    · rw [List.flatMap_singleton]
    · have hne : a ≠ b := fun h => hsmall (h ▸ hpoint a)
      obtain ⟨hleft, hright⟩ := half_lt (lt_of_le_of_ne (hab.resolve_right hsmall) hne)
      rw [List.flatMap_append]
      exact ((ih (Or.inl hleft) hl).append (ih (Or.inl hright) hr)).trans
        (perm_within time hleft (by omega) items)

end

end

end Conc
