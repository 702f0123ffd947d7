/-
  Which of several keys wins (`compare_keys` and `winner_of` of
  `app/services/self_map_build.py`).

  `compareKeys` compares ranks, then slots, then segments one by one, where a missing
  segment counts as an empty one.  It is the order of a linear order: `specificity` takes
  a key to its place in it (`compareKeys_spec`).  So the winner is the
  first of the least candidates (`winnerOf_iff`).
-/
import BrainstormServer.SelfMap.Keys
import Mathlib.Data.Prod.Lex
import Mathlib.Data.String.Basic
import Mathlib.Order.PiLex
import Mathlib.Order.WithBot

namespace BrainstormServer

namespace SelfMap

/-! ## The order of keys -/

/-- The lexicographic order of sequences, at the first place. -/
theorem lex_lt_iff_head {α : Type} [LT α] (f g : ℕ → α) :
    toLex f < toLex g ↔
      f 0 < g 0 ∨ f 0 = g 0 ∧ toLex (fun i => f (i + 1)) < toLex fun i => g (i + 1) := by
  constructor
  · rintro ⟨i, hbefore, hi⟩
    cases i with
    | zero => exact Or.inl hi
    | succ i => exact Or.inr ⟨hbefore 0 (Nat.succ_pos i), i, fun j hj => hbefore (j + 1) (Nat.succ_lt_succ hj), hi⟩
  · rintro (h | ⟨h, i, hbefore, hi⟩)
    · exact ⟨0, fun j hj => absurd hj (Nat.not_lt_zero j), h⟩
    · refine ⟨i + 1, fun j hj => ?_, hi⟩
      cases j with
      | zero => exact h
      | succ j => exact hbefore j (Nat.lt_of_succ_lt_succ hj)

/-- A segment in the order: a value comes before an empty one. -/
def segPlace (s : String) : WithTop String := if s = "" then ⊤ else s

/-- The segments in the order, with an empty one for each that is missing. -/
def segPlaces (segs : List String) (i : ℕ) : WithTop String := segPlace (segs.getD i "")

/-- The place of a key in the order. -/
def specificity (k : Key) : ℕᵒᵈ ×ₗ String ×ₗ Lex (ℕ → WithTop String) :=
  toLex (OrderDual.toDual k.rank, toLex (k.slot, toLex (segPlaces k.segs)))

theorem segPlace_lt (va vb : String) :
    segPlace va < segPlace vb ↔ va ≠ "" ∧ (vb = "" ∨ va < vb) := by
  unfold segPlace
  by_cases ha : va = ""
  · simp [ha]
  · by_cases hb : vb = ""
    · simp [ha, hb]
    · simp [ha, hb]

theorem segPlace_injective : Function.Injective segPlace := by
  intro va vb h
  unfold segPlace at h
  split_ifs at h with ha hb hb
  · rw [ha, hb]
  · exact absurd h WithTop.top_ne_coe
  · exact absurd h WithTop.coe_ne_top
  · exact WithTop.coe_injective h

/-- The places of the later segments. -/
theorem segPlaces_succ (segs : List String) :
    (fun i => segPlaces segs (i + 1)) = segPlaces segs.tail := by
  funext i
  cases segs with
  | nil => rfl
  | cons s segs => rfl

/-- Where the first segments agree, the later ones decide. -/
theorem segPlaces_lt_of_head {as bs : List String} (h : as.getD 0 "" = bs.getD 0 "") :
    toLex (segPlaces as) < toLex (segPlaces bs) ↔
      toLex (segPlaces as.tail) < toLex (segPlaces bs.tail) := by
  have hplace : segPlaces as 0 = segPlaces bs 0 := congrArg segPlace h
  rw [lex_lt_iff_head, segPlaces_succ, segPlaces_succ, hplace]
  simp

theorem segPlaces_eq_of_head {as bs : List String} (h : as.getD 0 "" = bs.getD 0 "") :
    segPlaces as = segPlaces bs ↔ segPlaces as.tail = segPlaces bs.tail := by
  rw [← segPlaces_succ, ← segPlaces_succ]
  constructor
  · intro heq
    rw [heq]
  · intro heq
    funext i
    cases i with
    | zero => exact congrArg segPlace h
    | succ i => exact congrFun heq i

/-- Where the first segments differ, they decide. -/
theorem segPlaces_of_ne {as bs : List String} {sign : ℤ} (h : as.getD 0 "" ≠ bs.getD 0 "") (hzero : sign ≠ 0)
    (hsign : sign < 0 ↔ segPlace (as.getD 0 "") < segPlace (bs.getD 0 "")) :
    (sign < 0 ↔ toLex (segPlaces as) < toLex (segPlaces bs)) ∧ (sign = 0 ↔ segPlaces as = segPlaces bs) := by
  have hplace : segPlaces as 0 ≠ segPlaces bs 0 := fun heq => h (segPlace_injective heq)
  constructor
  · rw [hsign, lex_lt_iff_head]
    simp only [hplace, false_and, or_false]
    rfl
  · exact iff_of_false hzero fun heq => hplace (congrFun heq 0)

/-- `compareSegs` is the lexicographic order of the places. -/
theorem compareSegs_spec (as bs : List String) :
    (compareSegs as bs < 0 ↔ toLex (segPlaces as) < toLex (segPlaces bs)) ∧
      (compareSegs as bs = 0 ↔ segPlaces as = segPlaces bs) := by
  induction as, bs using compareSegs.induct with
  | case1 =>
    rw [compareSegs]
    exact ⟨iff_of_false (lt_irrefl 0) (lt_irrefl _), iff_of_true rfl rfl⟩
  | case2 va as hva =>
    rw [compareSegs, if_pos hva]
    exact segPlaces_of_ne (by simpa using hva) (by decide) (by simp [segPlace_lt, hva])
  | case3 va as hva ih =>
    have hhead : (va :: as).getD 0 "" = ([] : List String).getD 0 "" := by simpa using hva
    rw [segPlaces_lt_of_head hhead, segPlaces_eq_of_head hhead, compareSegs, if_neg hva]
    exact ih
  | case4 vb bs hvb =>
    rw [compareSegs, if_pos hvb]
    exact segPlaces_of_ne (by simpa using Ne.symm hvb) (by decide) (by simp [segPlace_lt])
  | case5 vb bs hvb ih =>
    have hhead : ([] : List String).getD 0 "" = (vb :: bs).getD 0 "" := by simpa using Eq.symm (not_not.1 hvb)
    rw [segPlaces_lt_of_head hhead, segPlaces_eq_of_head hhead, compareSegs, if_neg hvb]
    exact ih
  | case6 as va bs ih =>
    rw [segPlaces_lt_of_head (by simp), segPlaces_eq_of_head (by simp), compareSegs, if_pos rfl]
    exact ih
  | case7 va as vb bs hne hva =>
    rw [compareSegs, if_neg hne, if_pos hva]
    exact segPlaces_of_ne hne (by decide) (by simp [segPlace_lt, hva])
  | case8 va as vb bs hne hva hvb =>
    rw [compareSegs, if_neg hne, if_neg hva, if_pos hvb]
    exact segPlaces_of_ne hne (by decide) (by simp [segPlace_lt, hvb])
  | case9 va as vb bs hne hva hvb hless =>
    have hempty : va ≠ "" := fun h => hvb ⟨fun h' => hne (h.trans h'.symm), h⟩
    rw [compareSegs, if_neg hne, if_neg hva, if_neg hvb, if_pos hless]
    exact segPlaces_of_ne hne (by decide) (by simp [segPlace_lt, hless, hempty])
  | case10 va as vb bs hne hva hvb hless =>
    have hempty : vb ≠ "" := fun h => hva ⟨fun h' => hne (h'.trans h.symm), h⟩
    rw [compareSegs, if_neg hne, if_neg hva, if_neg hvb, if_neg hless]
    exact segPlaces_of_ne hne (by decide) (by simp [segPlace_lt, hless, hempty])

/-- **The order of keys**: `compare_keys` is the linear order of their places. -/
theorem compareKeys_spec (a b : Key) :
    (compareKeys a b < 0 ↔ specificity a < specificity b) ∧
      (compareKeys a b = 0 ↔ specificity a = specificity b) := by
  obtain ⟨hneg, hzero⟩ := compareSegs_spec a.segs b.segs
  unfold specificity compareKeys
  rw [Prod.Lex.toLex_lt_toLex, Prod.Lex.toLex_lt_toLex, OrderDual.toDual_lt_toDual]
  by_cases hrank : a.rank = b.rank
  · rw [if_neg (not_not.2 hrank)]
    by_cases hslot : a.slot = b.slot
    · rw [if_neg (not_not.2 hslot), hneg, hzero]
      simp [hrank, hslot]
    · rw [if_pos hslot]
      split_ifs with hless
      · simp [hrank, hslot, hless]
      · simp [hrank, hslot, hless]
  · have hsub : (b.rank : ℤ) - a.rank < 0 ↔ b.rank < a.rank := by omega
    have hne : (b.rank : ℤ) - a.rank ≠ 0 := by omega
    rw [if_pos hrank, hsub]
    simp [hrank, hne]

theorem compareKeys_pos (a b : Key) : 0 < compareKeys a b ↔ specificity b < specificity a := by
  obtain ⟨hneg, hzero⟩ := compareKeys_spec a b
  rw [← not_le, le_iff_lt_or_eq, hneg, hzero, ← le_iff_lt_or_eq, not_le]

theorem compareKeys_nonneg (a b : Key) : 0 ≤ compareKeys a b ↔ specificity b ≤ specificity a := by
  rw [← not_lt, (compareKeys_spec a b).1, not_lt]

/-! ## The most specific candidate -/

section
variable {T : Type} (keyOf : T → Key) (p : T → Bool)

/-- `c`, with `before` and `after` around it, is the most specific candidate with a
    property: those before it are less specific, and those after it are no more so. -/
structure Best (before : List T) (c : T) (after : List T) : Prop where
  has : p c = true
  less : ∀ b ∈ before, p b = true → 0 < compareKeys (keyOf b) (keyOf c)
  notMore : ∀ b ∈ after, p b = true → 0 ≤ compareKeys (keyOf b) (keyOf c)

variable {keyOf p} {l before after : List T} {c : T} {probe : Probe}

theorem mostSpecific_append_of_neg (hc : p c = false) :
    mostSpecific keyOf p (l ++ [c]) = mostSpecific keyOf p l := by
  simp [mostSpecific, List.foldl_append, hc]

theorem mostSpecific_append_of_pos (hc : p c = true) :
    mostSpecific keyOf p (l ++ [c]) = some (better keyOf c (mostSpecific keyOf p l)) := by
  simp only [mostSpecific, List.foldl_append, List.foldl_cons, List.foldl_nil, hc, if_true]

/-- One is chosen if there is one. -/
theorem mostSpecific_ne_none (hc : c ∈ l) (hp : p c = true) : mostSpecific keyOf p l ≠ none := by
  induction l using List.reverseRecOn with
  | nil => cases hc
  | append_singleton l b ih =>
    cases hb : p b with
    | false =>
      rw [mostSpecific_append_of_neg hb]
      rcases List.mem_append.1 hc with hc | hc
      · exact ih hc
      · rw [List.mem_singleton.1 hc, hb] at hp
        cases hp
    | true =>
      rw [mostSpecific_append_of_pos hb]
      exact Option.some_ne_none _

/-- What is chosen is the best. -/
theorem best_of_mostSpecific (h : mostSpecific keyOf p l = some c) :
    ∃ before after, l = before ++ c :: after ∧ Best keyOf p before c after := by
  induction l using List.reverseRecOn generalizing c with
  | nil => cases h
  | append_singleton l b ih =>
    cases hb : p b with
    | false =>
      rw [mostSpecific_append_of_neg hb] at h
      obtain ⟨before, after, rfl, hbest⟩ := ih h
      refine ⟨before, after ++ [b], by simp, hbest.has, hbest.less, fun x hx hpx => ?_⟩
      rcases List.mem_append.1 hx with hx | hx
      · exact hbest.notMore x hx hpx
      · rw [List.mem_singleton.1 hx, hb] at hpx
        cases hpx
    | true =>
      rw [mostSpecific_append_of_pos hb] at h
      cases hl : mostSpecific keyOf p l with
      | none =>
        rw [hl] at h
        cases h
        exact ⟨l, [], rfl, hb, fun x hx hpx => absurd hl (mostSpecific_ne_none hx hpx), by simp⟩
      | some old =>
        obtain ⟨before, after, rfl, hbest⟩ := ih hl
        rw [hl] at h
        simp only [better, Option.some.injEq] at h
        split_ifs at h with hmore
        · subst h
          -- every candidate so far is no more specific than the old best
          refine ⟨_, [], rfl, hb, fun x hx hpx => ?_, by simp⟩
          rw [compareKeys_pos]
          refine lt_of_lt_of_le ((compareKeys_spec _ _).1.1 hmore) ?_
          rcases List.mem_append.1 hx with hx | hx
          · exact ((compareKeys_pos _ _).1 (hbest.less x hx hpx)).le
          rcases List.mem_cons.1 hx with rfl | hx
          · exact le_refl _
          · exact (compareKeys_nonneg _ _).1 (hbest.notMore x hx hpx)
        · subst h
          refine ⟨before, after ++ [b], by simp, hbest.has, hbest.less, fun x hx hpx => ?_⟩
          rcases List.mem_append.1 hx with hx | hx
          · exact hbest.notMore x hx hpx
          · rw [List.mem_singleton.1 hx]
            exact not_lt.1 hmore

/-- The best is chosen. -/
theorem mostSpecific_of_best (hbest : Best keyOf p before c after) :
    mostSpecific keyOf p (before ++ c :: after) = some c := by
  induction after using List.reverseRecOn with
  | nil =>
    rw [mostSpecific_append_of_pos hbest.has]
    cases hbefore : mostSpecific keyOf p before with
    | none => rfl
    | some b =>
      obtain ⟨l₁, l₂, rfl, hb⟩ := best_of_mostSpecific hbefore
      have hless := hbest.less b (by simp) hb.has
      rw [compareKeys_pos, ← (compareKeys_spec _ _).1] at hless
      simp only [better, if_pos hless]
  | append_singleton after b ih =>
    have hold := ih ⟨hbest.has, hbest.less, fun x hx => hbest.notMore x (List.mem_append_left _ hx)⟩
    rw [← List.cons_append, ← List.append_assoc]
    cases hb : p b with
    | false => rw [mostSpecific_append_of_neg hb, hold]
    | true =>
      have hnot := hbest.notMore b (by simp) hb
      rw [mostSpecific_append_of_pos hb, hold]
      simp only [better, if_neg (not_lt.2 hnot)]

/-- What is chosen is a candidate with the property. -/
theorem mostSpecific_some (h : mostSpecific keyOf p l = some c) : c ∈ l ∧ p c = true := by
  obtain ⟨before, after, rfl, hbest⟩ := best_of_mostSpecific h
  exact ⟨by simp, hbest.has⟩

/-- **The winner** of a probe is the best of the candidates that match it, at its place. -/
theorem winnerOf_iff {i : ℕ} : winnerOf keyOf l probe = some (c, i) ↔
    ∃ before after, l = before ++ c :: after ∧ before.length = i ∧
      Best keyOf (fun b => matchesProbe (keyOf b) probe) before c after := by
  constructor
  · intro h
    obtain ⟨before, after, hl, hbest⟩ := best_of_mostSpecific h
    obtain ⟨l₁, l₂, rfl, rfl, hafter⟩ := List.zipIdx_eq_append_iff.1 hl
    obtain ⟨b, l₂, rfl, hc, rfl⟩ := List.zipIdx_eq_cons_iff.1 hafter.symm
    simp only [Prod.mk.injEq, zero_add] at hc
    obtain ⟨rfl, rfl⟩ := hc
    have hplace : ∀ (xs : List T) (k : ℕ), ∀ x ∈ xs, ∃ j, (x, j) ∈ xs.zipIdx k := by
      intro xs k x hx
      rw [← List.zipIdx_map_fst k xs] at hx
      obtain ⟨y, hy, rfl⟩ := List.mem_map.1 hx
      exact ⟨y.2, hy⟩
    refine ⟨l₁, l₂, rfl, rfl, hbest.has, fun x hx hpx => ?_, fun x hx hpx => ?_⟩
    · obtain ⟨j, hj⟩ := hplace _ _ x hx
      exact hbest.less (x, j) hj hpx
    · obtain ⟨j, hj⟩ := hplace _ _ x hx
      exact hbest.notMore (x, j) hj hpx
  · rintro ⟨before, after, rfl, rfl, hbest⟩
    unfold winnerOf
    rw [List.zipIdx_append, List.zipIdx_cons, zero_add]
    exact mostSpecific_of_best ⟨hbest.has, fun x hx => hbest.less x.1 (List.fst_mem_of_mem_zipIdx hx),
      fun x hx => hbest.notMore x.1 (List.fst_mem_of_mem_zipIdx hx)⟩

/-- The winner is a candidate that matches. -/
theorem winnerOf_some {i : ℕ} (h : winnerOf keyOf l probe = some (c, i)) :
    c ∈ l ∧ matchesProbe (keyOf c) probe = true := by
  obtain ⟨before, after, rfl, -, hbest⟩ := winnerOf_iff.1 h
  exact ⟨by simp, hbest.has⟩

theorem winnerOf_ne_none (hc : c ∈ l) (hmatch : matchesProbe (keyOf c) probe = true) :
    winnerOf keyOf l probe ≠ none := by
  obtain ⟨i, hi⟩ := List.mem_iff_getElem?.1 hc
  exact mostSpecific_ne_none (c := (c, i)) (List.mem_zipIdx_iff_getElem?.2 hi) hmatch

/-- A candidate that comes last and is the only one that matches wins. -/
theorem winnerOf_last (hnone : ∀ b ∈ l, matchesProbe (keyOf b) probe = false)
    (hc : matchesProbe (keyOf c) probe = true) : winnerOf keyOf (l ++ [c]) probe = some (c, l.length) := by
  refine winnerOf_iff.2 ⟨l, [], rfl, rfl, hc, fun b hb hmatch => ?_, by simp⟩
  rw [hnone b hb] at hmatch
  cases hmatch

end

end SelfMap

end BrainstormServer
