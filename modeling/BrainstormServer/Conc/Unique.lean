/-
  Tables with unique constraints.

  Two rows clash if a constraint forbids them to stand in the table together.  A row that is
  inserted is refused if it clashes with a row that is committed or is the session's own, and
  waits for the other sessions whose uncommitted rows it clashes with.

  * `insert_cases`: what an insert does;
  * `Apart`: no two rows clash, committed or not; every statement keeps it (`Apart.insert`,
    `Apart.commit`, `Apart.rollback`);
  * `Apart.eq_of_clash`: hence rows that clash are one row.
-/
import Mathlib.Data.List.Pairwise
import Mathlib.Data.List.Perm.Basic

namespace Conc

/-- The committed rows, and the uncommitted ones with their sessions. -/
structure UniqueTable (S ρ : Type) where
  committed : List ρ
  pending : List (S × ρ)

namespace UniqueTable

variable {S ρ : Type} [DecidableEq S]

/-- Nothing is in the table. -/
def empty : UniqueTable S ρ := ⟨[], []⟩

/-- All rows, committed or not. -/
def rows (t : UniqueTable S ρ) : List ρ := t.committed ++ t.pending.map Prod.snd

/-- The uncommitted rows of a session. -/
def own (t : UniqueTable S ρ) (s : S) : List ρ := (t.pending.filter (·.1 = s)).map Prod.snd

/-- What a session reads. -/
def visible (t : UniqueTable S ρ) (s : S) : List ρ := t.committed ++ t.own s

/-- Insert a row: whether it was taken, and the table; `none` if the session has to wait. -/
def insert (clash : ρ → ρ → Bool) (t : UniqueTable S ρ) (s : S) (row : ρ) : Option (Bool × UniqueTable S ρ) :=
  if (t.visible s).any (clash row) then some (false, t)
  else if t.pending.any fun p => clash row p.2 then none
  else some (true, { t with pending := (s, row) :: t.pending })

def commit (t : UniqueTable S ρ) (s : S) : UniqueTable S ρ where
  committed := t.visible s
  pending := t.pending.filter (·.1 ≠ s)

def rollback (t : UniqueTable S ρ) (s : S) : UniqueTable S ρ :=
  { t with pending := t.pending.filter (·.1 ≠ s) }

variable {clash : ρ → ρ → Bool} {t t' : UniqueTable S ρ} {s : S} {row : ρ}

/-- A row that is refused clashes with one that the session sees; one that is taken clashes
    with none. -/
theorem insert_cases {taken : Bool} (h : t.insert clash s row = some (taken, t')) :
    (taken = false ∧ t' = t ∧ ∃ other ∈ t.visible s, clash row other = true) ∨
    (taken = true ∧ t' = { t with pending := (s, row) :: t.pending } ∧
      ∀ other ∈ t.rows, clash row other = false) := by
  unfold insert at h
  split_ifs at h with hvisible hwait
  · cases h
    exact Or.inl ⟨rfl, rfl, List.any_eq_true.1 hvisible⟩
  · cases h
    refine Or.inr ⟨rfl, rfl, fun other hother => ?_⟩
    rw [Bool.eq_false_iff]
    intro hclash
    rcases List.mem_append.1 hother with hother | hother
    · exact hvisible (List.any_eq_true.2 ⟨other, List.mem_append_left _ hother, hclash⟩)
    · obtain ⟨p, hp, rfl⟩ := List.mem_map.1 hother
      exact hwait (List.any_eq_true.2 ⟨p, hp, hclash⟩)

theorem mem_own : row ∈ t.own s ↔ (s, row) ∈ t.pending := by
  constructor
  · intro h
    obtain ⟨⟨s', row'⟩, hp, rfl⟩ := List.mem_map.1 h
    obtain ⟨hmem, hs⟩ := List.mem_filter.1 hp
    obtain rfl : s' = s := of_decide_eq_true hs
    exact hmem
  · exact fun h => List.mem_map.2 ⟨(s, row), List.mem_filter.2 ⟨h, by simp⟩, rfl⟩

omit [DecidableEq S] in
theorem mem_rows : row ∈ t.rows ↔ row ∈ t.committed ∨ ∃ s, (s, row) ∈ t.pending := by
  rw [rows, List.mem_append, List.mem_map]
  constructor
  · rintro (h | ⟨⟨s, row'⟩, h, rfl⟩)
    · exact Or.inl h
    · exact Or.inr ⟨s, h⟩
  · rintro (h | ⟨s, h⟩)
    · exact Or.inl h
    · exact Or.inr ⟨(s, row), h, rfl⟩

theorem mem_commit : row ∈ (t.commit s).committed ↔ row ∈ t.committed ∨ (s, row) ∈ t.pending := by
  show row ∈ t.visible s ↔ _
  rw [visible, List.mem_append, mem_own]

/-- What a session of its own leaves pending is what it was. -/
theorem mem_pending_of_ne {s' : S} (h : s' ≠ s) :
    (s', row) ∈ t.pending.filter (·.1 ≠ s) ↔ (s', row) ∈ t.pending := by
  rw [List.mem_filter, decide_eq_true_eq]
  exact and_iff_left h

/-- The rows are the same before and after a commit. -/
theorem rows_commit (t : UniqueTable S ρ) (s : S) : (t.commit s).rows.Perm t.rows := by
  unfold rows commit visible own
  rw [List.append_assoc]
  refine List.Perm.append_left _ ?_
  rw [← List.map_append]
  refine List.Perm.map _ ?_
  have hsplit := List.filter_append_perm (fun p : S × ρ => decide (p.1 = s)) t.pending
  simpa only [ne_eq, decide_not] using hsplit

/-- No two rows clash. -/
def Apart (clash : ρ → ρ → Bool) (t : UniqueTable S ρ) : Prop :=
  t.rows.Pairwise fun row other => clash row other = false

omit [DecidableEq S] in
theorem apart_empty : (empty : UniqueTable S ρ).Apart clash := List.Pairwise.nil

section
variable (hsymm : ∀ row other, clash row other = clash other row)
include hsymm

theorem Apart.insert (h : t.Apart clash) {taken : Bool} (hinsert : t.insert clash s row = some (taken, t')) :
    t'.Apart clash := by
  rcases insert_cases hinsert with ⟨-, rfl, -⟩ | ⟨-, rfl, hfree⟩
  · exact h
  · have hrows : (row :: t.rows).Perm (t.committed ++ row :: t.pending.map Prod.snd) := List.perm_middle.symm
    refine (hrows.pairwise_iff fun {a b} hab => ?_).1 (List.Pairwise.cons hfree h)
    rw [hsymm]
    exact hab

theorem Apart.commit (h : t.Apart clash) (s : S) : (t.commit s).Apart clash := by
  refine ((rows_commit t s).pairwise_iff fun {a b} hab => ?_).2 h
  rw [hsymm]
  exact hab

omit [DecidableEq S] in
/-- Rows that clash are one row. -/
theorem Apart.eq_of_clash (h : t.Apart clash) {other : ρ} (hrow : row ∈ t.rows) (hother : other ∈ t.rows)
    (hclash : clash row other = true) : row = other := by
  have hflip : Std.Symm fun row other => clash row other = false := ⟨fun a b hab => (hsymm b a).trans hab⟩
  by_contra hne
  have hfalse := h.forall hrow hother hne
  rw [hclash] at hfalse
  cases hfalse

end

theorem Apart.rollback (h : t.Apart clash) (s : S) : (t.rollback s).Apart clash :=
  h.sublist (List.Sublist.append_left (List.filter_sublist.map _) _)

end UniqueTable

end Conc
