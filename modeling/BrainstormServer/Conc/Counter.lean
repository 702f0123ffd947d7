/-
  Counters that expire.

  A counter has a value and, if one was set, a time at which it is gone.  Adding to a counter
  that is not there starts a new one, without a time; adding to one that is there leaves its
  time alone.

  * `live_eq_some`: what is there;
  * `incr_of_none`, `incr_of_live`, `expire_of_live`: what the commands do;
  * `live_of_undated`: without a time a counter is there for ever.
-/
import Mathlib.Order.Lattice

namespace Conc

/-- A counter, with the end of its time. -/
structure Counter (T : Type) where
  value : ℕ
  deadline : Option T

namespace Counter

variable {T : Type} [LinearOrder T]

/-- What is there at a time. -/
def live (now : T) (c : Option (Counter T)) : Option (Counter T) :=
  c.filter fun counter => counter.deadline.all fun e => now < e

/-- The value at a time, which is zero if there is nothing. -/
def count (now : T) (c : Option (Counter T)) : ℕ := ((live now c).map value).getD 0

/-- `INCR`: the new value, and the counter. -/
def incr (now : T) (c : Option (Counter T)) : ℕ × Option (Counter T) :=
  match live now c with
  | none => (1, some ⟨1, none⟩)
  | some counter => (counter.value + 1, some ⟨counter.value + 1, counter.deadline⟩)

/-- `EXPIRE`: whether there was something, and the counter. -/
def expire [Add T] (now : T) (ttl : T) (c : Option (Counter T)) : Bool × Option (Counter T) :=
  match live now c with
  | none => (false, c)
  | some counter => (true, some ⟨counter.value, some (now + ttl)⟩)

variable {now : T} {c : Option (Counter T)} {counter : Counter T}

theorem live_eq_some : live now c = some counter ↔
    c = some counter ∧ ∀ e, counter.deadline = some e → now < e := by
  rw [live, Option.filter_eq_some_iff, Option.all_eq_true]
  simp only [decide_eq_true_eq]

/-- Without a time a counter is there for ever. -/
theorem live_of_undated {n : ℕ} : live now (some ⟨n, none⟩) = some ⟨n, none⟩ := by
  rw [live_eq_some]
  exact ⟨rfl, fun e he => by cases he⟩

theorem incr_of_none (h : live now c = none) : incr now c = (1, some ⟨1, none⟩) := by
  rw [incr, h]

theorem incr_of_live (h : live now c = some counter) :
    incr now c = (counter.value + 1, some ⟨counter.value + 1, counter.deadline⟩) := by
  rw [incr, h]

theorem expire_of_live [Add T] {ttl : T} (h : live now c = some counter) :
    expire now ttl c = (true, some ⟨counter.value, some (now + ttl)⟩) := by
  rw [expire, h]

theorem count_of_live (h : live now c = some counter) : count now c = counter.value := by
  rw [count, h]
  rfl

theorem count_of_none (h : live now c = none) : count now c = 0 := by
  rw [count, h]
  rfl

theorem exists_live (h : 0 < count now c) : ∃ counter, live now c = some counter := by
  cases hc : live now c with
  | none =>
    rw [count_of_none hc] at h
    cases h
  | some counter => exact ⟨counter, rfl⟩

end Counter

end Conc
