/-
  Tables in which the latest row wins.

  A row has a key and a clock of its own.  `Latest.upsert` puts a row in the place of
  the one with the same key if that one is older, and leaves the table alone
  otherwise.

  `mem_upsert`: if the clocks of all rows differ, the table that they leave behind, in
  whatever order they come, holds for each key the latest of them.
-/
import Mathlib.Data.Finset.Max

namespace Conc

namespace Latest

variable {α κ : Type} [DecidableEq α] [DecidableEq κ] (key : α → κ) (clock : α → ℤ)

/-- Insert a row, or replace the one with its key if that is older. -/
def upsert (rows : Finset α) (a : α) : Finset α :=
  if ∀ r ∈ rows, key r = key a → clock r < clock a then
    insert a (rows.filter fun r => key r ≠ key a)
  else rows

/-- A table has one row for each key. -/
def Keyed (rows : Finset α) : Prop := ∀ a ∈ rows, ∀ b ∈ rows, key a = key b → a = b

/-- The rows of `as` that are the latest with their key. -/
def IsLatest (as : List α) (a : α) : Prop := a ∈ as ∧ ∀ b ∈ as, key b = key a → clock b ≤ clock a

variable {key clock}

theorem upsert_keyed {rows : Finset α} {a : α} (h : Keyed key rows) :
    Keyed key (upsert key clock rows a) := by
  unfold upsert
  split_ifs
  · intro b hb c hc hk
    simp only [Finset.mem_insert, Finset.mem_filter] at hb hc
    rcases hb with rfl | ⟨hb, hbk⟩
    · rcases hc with rfl | ⟨-, hck⟩
      · rfl
      · exact absurd hk.symm hck
    · rcases hc with rfl | ⟨hc, -⟩
      · exact absurd hk hbk
      · exact h b hb c hc hk
  · exact h

/-- What does not touch keys and clocks may be done before or after. -/
theorem image_upsert {f : α → α} (hkey : ∀ a, key (f a) = key a) (hclock : ∀ a, clock (f a) = clock a)
    (rows : Finset α) (a : α) :
    (upsert key clock rows a).image f = upsert key clock (rows.image f) (f a) := by
  have hcond : (∀ r ∈ rows.image f, key r = key (f a) → clock r < clock (f a)) ↔
      ∀ r ∈ rows, key r = key a → clock r < clock a := by
    simp only [Finset.forall_mem_image, hkey, hclock]
  unfold upsert
  simp only [hcond]
  split_ifs
  · rw [Finset.image_insert, Finset.filter_image]
    simp only [hkey]
  · rfl

omit [DecidableEq α] [DecidableEq κ] in
/-- One more row. -/
theorem isLatest_append_singleton {as : List α} {a b : α} (hclock : ∀ c ∈ as, clock c ≠ clock b) :
    IsLatest key clock (as ++ [b]) a ↔
      (a = b ∧ ∀ c ∈ as, key c = key b → clock c < clock b) ∨
        (IsLatest key clock as a ∧ (key b = key a → clock b ≤ clock a)) := by
  unfold IsLatest
  simp only [List.mem_append, List.mem_singleton]
  constructor
  · rintro ⟨ha | rfl, hall⟩
    · exact Or.inr ⟨⟨ha, fun c hc => hall c (Or.inl hc)⟩, hall b (Or.inr rfl)⟩
    · refine Or.inl ⟨rfl, fun c hc hk => ?_⟩
      exact lt_of_le_of_ne (hall c (Or.inl hc) hk) (hclock c hc)
  · rintro (⟨rfl, hall⟩ | ⟨⟨ha, hall⟩, hb⟩)
    · refine ⟨Or.inr rfl, ?_⟩
      rintro c (hc | rfl) hk
      · exact (hall c hc hk).le
      · exact le_rfl
    · refine ⟨Or.inl ha, ?_⟩
      rintro c (hc | rfl) hk
      · exact hall c hc hk
      · exact hb hk

variable (key clock) in
/-- Every key that occurs has a latest row. -/
theorem exists_isLatest {as : List α} {a : α} (ha : a ∈ as) :
    ∃ b, IsLatest key clock as b ∧ key b = key a := by
  have hmem : ∀ {c}, c ∈ as.toFinset.filter (fun c => key c = key a) ↔ c ∈ as ∧ key c = key a := by
    intro c
    rw [Finset.mem_filter, List.mem_toFinset]
  obtain ⟨b, hb, hmax⟩ := Finset.exists_max_image (as.toFinset.filter fun c => key c = key a) clock
    ⟨a, hmem.2 ⟨ha, rfl⟩⟩
  obtain ⟨hb, hbk⟩ := hmem.1 hb
  exact ⟨b, ⟨hb, fun c hc hk => hmax c (hmem.2 ⟨hc, hk.trans hbk⟩)⟩, hbk⟩

/-- What a table shows after one more row, if it showed the latest ones before. -/
theorem mem_upsert {as : List α} {rows : Finset α} {b : α} (hrows : ∀ r, r ∈ rows ↔ IsLatest key clock as r)
    (hclock : ∀ c ∈ as, clock c ≠ clock b) (r : α) :
    r ∈ upsert key clock rows b ↔ IsLatest key clock (as ++ [b]) r := by
  have hcond : (∀ r ∈ rows, key r = key b → clock r < clock b) ↔
      ∀ c ∈ as, key c = key b → clock c < clock b := by
    constructor
    · intro h c hc hk
      obtain ⟨d, hd, hdk⟩ := exists_isLatest key clock hc
      exact (hd.2 c hc hdk.symm).trans_lt (h d ((hrows d).2 hd) (hdk.trans hk))
    · intro h r hr hk
      exact h r ((hrows r).1 hr).1 hk
  rw [isLatest_append_singleton hclock]
  unfold upsert
  split_ifs with h
  · rw [Finset.mem_insert, Finset.mem_filter, hrows]
    rw [hcond] at h
    constructor
    · rintro (rfl | ⟨hr, hk⟩)
      · exact Or.inl ⟨rfl, h⟩
      · exact Or.inr ⟨hr, fun hk' => absurd hk'.symm hk⟩
    · rintro (⟨rfl, -⟩ | ⟨hr, himp⟩)
      · exact Or.inl rfl
      · refine Or.inr ⟨hr, fun hk => ?_⟩
        exact absurd (h r hr.1 hk) (not_lt.2 (himp hk.symm))
  · rw [hrows]
    rw [hcond] at h
    constructor
    · intro hr
      refine Or.inr ⟨hr, fun hk => ?_⟩
      by_contra hlt
      refine h fun c hc hck => ?_
      exact (hr.2 c hc (hck.trans hk)).trans_lt (not_le.1 hlt)
    · rintro (⟨-, hall⟩ | ⟨hr, -⟩)
      · exact absurd hall h
      · exact hr

omit [DecidableEq α] [DecidableEq κ] in
/-- Two rows with one key cannot both be the latest. -/
theorem IsLatest.eq {as : List α} {a b : α} (ha : IsLatest key clock as a)
    (hb : IsLatest key clock as b) (hk : key a = key b)
    (hclock : ∀ c ∈ as, ∀ d ∈ as, clock c = clock d → c = d) : a = b :=
  hclock a ha.1 b hb.1 (le_antisymm (hb.2 a ha.1 hk) (ha.2 b hb.1 hk.symm))

end Latest

end Conc
