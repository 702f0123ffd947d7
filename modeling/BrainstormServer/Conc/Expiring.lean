/-
  Keys that expire.

  A store holds for each key a value and the time at which it is gone.  `setNx` writes a
  key only if it is not there and `setXx` only if it is; both start its time anew.

  * `live_eq_some`: what is there has its time still to run;
  * `set_cases`: what is stored after a write;
  * `take`: a key that is read and deleted in one;
  * `setNx_true`, `setNx_false`, `setXx_true`, `setXx_false`: what a write did, by its answer.
-/
import Mathlib.Logic.Function.Basic
import Mathlib.Order.Lattice

namespace Conc

/-- For each key its value and the end of its time. -/
abbrev Expiring (κ β T : Type) := κ → Option (β × T)

namespace Expiring

variable {κ β T : Type} [DecidableEq κ] [LinearOrder T] [Add T]

/-- What is there at a time. -/
def live (m : Expiring κ β T) (now : T) (k : κ) : Option β :=
  (m k).bind fun e => if now < e.2 then some e.1 else none

/-- Write a key, for a time. -/
def set (m : Expiring κ β T) (now : T) (k : κ) (v : β) (ttl : T) : Expiring κ β T :=
  Function.update m k (some (v, now + ttl))

/-- `SET NX`: whether the key was written, and the store. -/
def setNx (m : Expiring κ β T) (now : T) (k : κ) (v : β) (ttl : T) : Bool × Expiring κ β T :=
  if (m.live now k).isSome then (false, m) else (true, m.set now k v ttl)

/-- `SET XX`: whether the key was written, and the store. -/
def setXx (m : Expiring κ β T) (now : T) (k : κ) (v : β) (ttl : T) : Bool × Expiring κ β T :=
  if (m.live now k).isSome then (true, m.set now k v ttl) else (false, m)

/-- `GETDEL`: what is there, and the store without it. -/
def take (m : Expiring κ β T) (now : T) (k : κ) : Option β × Expiring κ β T :=
  (m.live now k, Function.update m k none)

variable {m m' : Expiring κ β T} {now now' ttl : T} {k k' : κ} {v : β}

omit [DecidableEq κ] [Add T] in
theorem live_eq_some : m.live now k = some v ↔ ∃ e, m k = some (v, e) ∧ now < e := by
  unfold live
  rw [Option.bind_eq_some_iff]
  constructor
  · rintro ⟨⟨w, e⟩, hm, h⟩
    dsimp only at h
    split_ifs at h with hlt
    cases h
    exact ⟨e, hm, hlt⟩
  · rintro ⟨e, hm, hlt⟩
    exact ⟨(v, e), hm, if_pos hlt⟩

omit [LinearOrder T] in
theorem set_self : (m.set now k v ttl) k = some (v, now + ttl) := Function.update_self ..

omit [LinearOrder T] in
theorem set_of_ne (h : k' ≠ k) : (m.set now k v ttl) k' = m k' := Function.update_of_ne h ..

omit [LinearOrder T] in
/-- What is stored after a write was written, or was there before. -/
theorem set_cases {e : β × T} (h : (m.set now k v ttl) k' = some e) :
    (k' = k ∧ e = (v, now + ttl)) ∨ (k' ≠ k ∧ m k' = some e) := by
  by_cases hk : k' = k
  · subst hk
    rw [set_self] at h
    cases h
    exact Or.inl ⟨rfl, rfl⟩
  · rw [set_of_ne hk] at h
    exact Or.inr ⟨hk, h⟩

omit [DecidableEq κ] [Add T] in
/-- What is there depends on the key's own entry only. -/
theorem live_congr (h : m k = m' k) : m.live now k = m'.live now k := by
  rw [live, live, h]

omit [DecidableEq κ] [Add T] in
/-- Time only takes away. -/
theorem live_of_le (h : m.live now' k = some v) (hle : now ≤ now') : m.live now k = some v := by
  obtain ⟨e, hm, hlt⟩ := live_eq_some.1 h
  exact live_eq_some.2 ⟨e, hm, hle.trans_lt hlt⟩

omit [Add T] in
theorem live_take_self : (m.take now k).2.live now' k = none := by
  simp [take, live]

omit [Add T] in
theorem take_of_ne (h : k' ≠ k) : (m.take now k).2 k' = m k' := Function.update_of_ne h ..

theorem setNx_true (h : m.setNx now k v ttl = (true, m')) :
    m.live now k = none ∧ m' = m.set now k v ttl := by
  unfold setNx at h
  split_ifs at h with hlive
  · cases h
  · rw [Prod.mk.injEq] at h
    exact ⟨Option.not_isSome_iff_eq_none.1 hlive, h.2.symm⟩

theorem setNx_false (h : m.setNx now k v ttl = (false, m')) : (m.live now k).isSome = true ∧ m' = m := by
  unfold setNx at h
  split_ifs at h with hlive
  · rw [Prod.mk.injEq] at h
    exact ⟨hlive, h.2.symm⟩
  · cases h

theorem setXx_true (h : m.setXx now k v ttl = (true, m')) :
    (m.live now k).isSome = true ∧ m' = m.set now k v ttl := by
  unfold setXx at h
  split_ifs at h with hlive
  · rw [Prod.mk.injEq] at h
    exact ⟨hlive, h.2.symm⟩
  · cases h

theorem setXx_false (h : m.setXx now k v ttl = (false, m')) : m.live now k = none ∧ m' = m := by
  unfold setXx at h
  split_ifs at h with hlive
  · cases h
  · rw [Prod.mk.injEq] at h
    exact ⟨Option.not_isSome_iff_eq_none.1 hlive, h.2.symm⟩

end Expiring

end Conc
