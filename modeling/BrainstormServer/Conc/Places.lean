/-
  Things in places.

  `Scattered content all`: every thing of `all` is in exactly one place, once, and
  nothing else is anywhere.

  * `Scattered.insert`: a new thing is put somewhere;
  * `Scattered.move`: some things go from one place to another, in any order.
-/
import Mathlib.Data.List.Perm.Basic
import Mathlib.Data.List.Nodup

namespace Conc

variable {ι α : Type}

/-- Every thing of `all` is in exactly one place, once, and nothing else is anywhere. -/
structure Scattered (content : ι → List α) (all : List α) : Prop where
  mem : ∀ a, a ∈ all ↔ ∃ i, a ∈ content i
  nodup : ∀ i, (content i).Nodup
  disjoint : ∀ i j a, a ∈ content i → a ∈ content j → i = j

namespace Scattered

variable {content content' : ι → List α} {all : List α}

theorem nil (h : ∀ i, content i = []) : Scattered content [] where
  mem a := by simp [h]
  nodup i := by rw [h i]; exact List.nodup_nil
  disjoint i j a ha := by
    rw [h i] at ha
    exact absurd ha List.not_mem_nil

/-- A thing of `all` is in one place and no other. -/
theorem existsUnique (h : Scattered content all) {a : α} (ha : a ∈ all) : ∃! i, a ∈ content i := by
  obtain ⟨i, hi⟩ := (h.mem a).1 ha
  exact ⟨i, hi, fun j hj => h.disjoint j i a hj hi⟩

/-- The places may be rearranged inside. -/
theorem perm (h : Scattered content all) (hperm : ∀ i, (content' i).Perm (content i)) :
    Scattered content' all where
  mem a := (h.mem a).trans (exists_congr fun i => (hperm i).mem_iff.symm)
  nodup i := (hperm i).nodup_iff.2 (h.nodup i)
  disjoint i j a hi hj := h.disjoint i j a ((hperm i).mem_iff.1 hi) ((hperm j).mem_iff.1 hj)

/-- A new thing is put in the place `i`. -/
theorem insert (h : Scattered content all) {i : ι} {a : α} {all' : List α} (hnew : a ∉ all)
    (hall : ∀ b, b ∈ all' ↔ b = a ∨ b ∈ all) (hi : (content' i).Perm (a :: content i))
    (hother : ∀ j, j ≠ i → content' j = content j) : Scattered content' all' := by
  have hnone : ∀ j, a ∉ content j := fun j ha => hnew ((h.mem a).2 ⟨j, ha⟩)
  -- what is in a place after the insertion
  have hmem : ∀ j b, b ∈ content' j ↔ (j = i ∧ b = a) ∨ b ∈ content j := by
    intro j b
    by_cases hj : j = i
    · subst hj
      rw [hi.mem_iff, List.mem_cons]
      simp
    · rw [hother j hj]
      simp [hj]
  refine ⟨fun b => ?_, fun j => ?_, fun j k b hj hk => ?_⟩
  · rw [hall, h.mem]
    constructor
    · rintro (rfl | ⟨j, hj⟩)
      · exact ⟨i, (hmem i b).2 (Or.inl ⟨rfl, rfl⟩)⟩
      · exact ⟨j, (hmem j b).2 (Or.inr hj)⟩
    · rintro ⟨j, hj⟩
      rcases (hmem j b).1 hj with ⟨-, hb⟩ | hj
      · exact Or.inl hb
      · exact Or.inr ⟨j, hj⟩
  · by_cases hj : j = i
    · subst hj
      exact hi.nodup_iff.2 (List.nodup_cons.2 ⟨hnone j, h.nodup j⟩)
    · rw [hother j hj]
      exact h.nodup j
  · rcases (hmem j b).1 hj with ⟨rfl, rfl⟩ | hj
    · rcases (hmem k b).1 hk with ⟨rfl, -⟩ | hk
      · rfl
      · exact absurd hk (hnone k)
    · rcases (hmem k b).1 hk with ⟨rfl, rfl⟩ | hk
      · exact absurd hj (hnone j)
      · exact h.disjoint j k b hj hk

/-- Some things go from the place `i` to the place `j`. -/
theorem move (h : Scattered content all) {i j : ι} (hij : i ≠ j) (moved : List α)
    (hi : (content i).Perm (moved ++ content' i)) (hj : (content' j).Perm (moved ++ content j))
    (hother : ∀ k, k ≠ i → k ≠ j → content' k = content k) : Scattered content' all := by
  have hsplit : (moved ++ content' i).Nodup := hi.nodup_iff.1 (h.nodup i)
  have hmoved : ∀ a ∈ moved, a ∈ content i := fun a ha => hi.mem_iff.2 (List.mem_append_left _ ha)
  have hleft : ∀ a ∈ content' i, a ∈ content i :=
    fun a ha => hi.mem_iff.2 (List.mem_append_right _ ha)
  -- what is in a place after the move
  have hmem : ∀ k a, a ∈ content' k ↔
      (k = j ∧ a ∈ moved) ∨ (a ∈ content k ∧ (k = i → a ∉ moved)) := by
    intro k a
    by_cases hki : k = i
    · subst hki
      constructor
      · intro ha
        exact Or.inr ⟨hleft a ha, fun _ hm => (List.disjoint_of_nodup_append hsplit) hm ha⟩
      · rintro (⟨rfl, -⟩ | ⟨ha, hm⟩)
        · exact absurd rfl hij
        · exact (List.mem_append.1 (hi.mem_iff.1 ha)).resolve_left (hm rfl)
    · by_cases hkj : k = j
      · subst hkj
        rw [hj.mem_iff, List.mem_append]
        simp [hki]
      · rw [hother k hki hkj]
        simp [hki, hkj]
  have hnotin : ∀ a ∈ moved, a ∉ content j :=
    fun a ha hcj => hij (h.disjoint i j a (hmoved a ha) hcj)
  refine ⟨fun a => ?_, fun k => ?_, fun k l a hk hl => ?_⟩
  · rw [h.mem]
    constructor
    · rintro ⟨k, hk⟩
      by_cases hm : a ∈ moved
      · exact ⟨j, (hmem j a).2 (Or.inl ⟨rfl, hm⟩)⟩
      · exact ⟨k, (hmem k a).2 (Or.inr ⟨hk, fun _ => hm⟩)⟩
    · rintro ⟨k, hk⟩
      rcases (hmem k a).1 hk with ⟨-, hm⟩ | ⟨hk, -⟩
      · exact ⟨i, hmoved a hm⟩
      · exact ⟨k, hk⟩
  · by_cases hki : k = i
    · subst hki
      exact (List.nodup_append.1 hsplit).2.1
    · by_cases hkj : k = j
      · subst hkj
        refine hj.nodup_iff.2 (List.nodup_append.2 ⟨(List.nodup_append.1 hsplit).1, h.nodup k, ?_⟩)
        rintro a ha b hb rfl
        exact hnotin a ha hb
      · rw [hother k hki hkj]
        exact h.nodup k
  · rcases (hmem k a).1 hk with ⟨rfl, hm⟩ | ⟨hk, hkm⟩
    · rcases (hmem l a).1 hl with ⟨rfl, -⟩ | ⟨hl, hlm⟩
      · rfl
      · exact absurd hm (hlm (h.disjoint l i a hl (hmoved a hm)))
    · rcases (hmem l a).1 hl with ⟨rfl, hm⟩ | ⟨hl, -⟩
      · exact absurd hm (hkm (h.disjoint k i a hk (hmoved a hm)))
      · exact h.disjoint k l a hk hl

end Scattered

end Conc
