/-
  Replicas that keep the newest version.

  Every replica holds at most one version.  Versions are told by a `key`, and of two the one
  with the lesser key is the newer.  `spread` offers a version to some of the replicas.

  * `le_keepNewest`: what a replica keeps is no older than what it is offered, and than what it held;
  * `Leads.spread`: a replica that takes whatever is spread, and holds the newest of all, goes
    on so;
  * `Leads.argmin`: it is enough to read that one.
-/
import Mathlib.Data.List.MinMax

namespace Conc

namespace Newest

variable {ι V K : Type} [LinearOrder K] (key : V → K)

/-- A replica that is offered a version. -/
def keepNewest (v : V) : Option V → Option V
  | none => some v
  | some w => if key v < key w then some v else some w

/-- The version is offered to some of the replicas. -/
def spread (takes : ι → Bool) (v : V) (held : ι → Option V) (i : ι) : Option V :=
  if takes i then keepNewest key v (held i) else held i

/-- No replica holds a newer version than `r` does. -/
def Leads (r : ι) (held : ι → Option V) : Prop := ∀ i v, held i = some v → ∃ w, held r = some w ∧ key w ≤ key v

variable {key} {takes : ι → Bool} {v w : V} {held : ι → Option V} {r i : ι} {x : Option V}

theorem keepNewest_cases : keepNewest key v x = some v ∨ keepNewest key v x = x := by
  cases x with
  | none => exact Or.inl rfl
  | some w =>
    rw [keepNewest]
    split_ifs
    · exact Or.inl rfl
    · exact Or.inr rfl

variable (key v x) in
/-- What a replica keeps is no older than what it is offered, and no older than what it held. -/
theorem le_keepNewest : ∃ w, keepNewest key v x = some w ∧ key w ≤ key v ∧ ∀ u, x = some u → key w ≤ key u := by
  cases x with
  | none => exact ⟨v, rfl, le_rfl, fun u hu => by cases hu⟩
  | some w =>
    rw [keepNewest]
    split_ifs with hlt
    · refine ⟨v, rfl, le_rfl, fun u hu => ?_⟩
      cases hu
      exact hlt.le
    · refine ⟨w, rfl, not_lt.1 hlt, fun u hu => ?_⟩
      cases hu
      exact le_rfl

variable (key takes v held i) in
theorem spread_cases : spread key takes v held i = some v ∨ spread key takes v held i = held i := by
  unfold spread
  split_ifs
  · exact keepNewest_cases
  · exact Or.inr rfl

variable (key takes v) in
/-- No replica goes back. -/
theorem spread_le (h : held i = some w) : ∃ u, spread key takes v held i = some u ∧ key u ≤ key w := by
  unfold spread
  split_ifs
  · obtain ⟨u, hu, -, hle⟩ := le_keepNewest key v (held i)
    exact ⟨u, hu, hle w h⟩
  · exact ⟨w, h, le_rfl⟩

/-- **A replica that takes what is spread, or has it already, still holds the newest.** -/
theorem Leads.spread (h : Leads key r held) (hr : takes r = true ∨ ∃ w, held r = some w ∧ key w ≤ key v) :
    Leads key r (spread key takes v held) := by
  have hself : ∃ w, Newest.spread key takes v held r = some w ∧ key w ≤ key v ∧
      ∀ u, held r = some u → key w ≤ key u := by
    obtain hr | ⟨w, hw, hle⟩ := hr
    · rw [Newest.spread, if_pos hr]
      exact le_keepNewest key v (held r)
    · unfold Newest.spread
      split_ifs
      · exact le_keepNewest key v (held r)
      · refine ⟨w, hw, hle, fun u hu => ?_⟩
        cases hw.symm.trans hu
        exact le_rfl
  obtain ⟨w, hw, hle, hheld⟩ := hself
  intro i u hi
  refine ⟨w, hw, ?_⟩
  obtain hnew | hold := spread_cases key takes v held i
  · rw [hnew] at hi
    cases hi
    exact hle
  · rw [hold] at hi
    obtain ⟨w', hw', hle'⟩ := h i u hi
    exact (hheld w' hw').trans hle'

/-- The newest of some replicas, when one of them holds `v` or a newer version and none holds a
    newer one. -/
theorem argmin_of_le {is : List ι} (hi : ∃ i ∈ is, ∃ u, held i = some u ∧ key u ≤ key v)
    (hall : ∀ i ∈ is, ∀ u, held i = some u → key v ≤ key u) :
    ∃ i ∈ is, ∃ u, (is.filterMap held).argmin key = some u ∧ held i = some u ∧ key u = key v := by
  obtain ⟨i, hi, u, hu, hle⟩ := hi
  have hmem : u ∈ is.filterMap held := List.mem_filterMap.2 ⟨i, hi, hu⟩
  cases hmin : (is.filterMap held).argmin key with
  | none =>
    rw [List.argmin_eq_none.1 hmin] at hmem
    cases hmem
  | some m =>
    obtain ⟨j, hj, hm⟩ := List.mem_filterMap.1 (List.argmin_mem hmin)
    refine ⟨j, hj, m, rfl, hm, le_antisymm ?_ (hall j hj m hm)⟩
    exact (List.le_of_mem_argmin hmem hmin).trans hle

/-- **Of the versions of some replicas, one that leads among them, the newest is that one's.** -/
theorem Leads.argmin (h : Leads key r held) {is : List ι} :
    ((r :: is).filterMap held).argmin key = held r := by
  cases hr : held r with
  | none =>
    have hnone : ∀ i, held i = none := fun i => by
      cases hi : held i with
      | none => rfl
      | some v =>
        obtain ⟨w, hw, -⟩ := h i v hi
        cases hr.symm.trans hw
    have hnil : (r :: is).filterMap held = [] := List.filterMap_eq_nil_iff.2 fun i _ => hnone i
    rw [hnil]
    rfl
  | some w =>
    rw [List.filterMap_cons_some hr, List.argmin_cons]
    cases hmin : (is.filterMap held).argmin key with
    | none => rfl
    | some v =>
      obtain ⟨i, -, hi⟩ := List.mem_filterMap.1 (List.argmin_mem hmin)
      obtain ⟨w', hw', hle⟩ := h i v hi
      cases hr.symm.trans hw'
      exact if_neg (not_lt.2 hle)

end Newest

end Conc
