/-
  Pages of a sorted list.

  A page is asked for by the place that it starts after; it has at most so many rows, and if
  it is full it tells the place of its last row.  Whoever asks for the next page, and again
  for the next, has in the end all of the list, and each row of it once.

  * `KeyThen`: the order of a key, up or down, and then of a tie-break;
  * `after_iff`: a row comes after another's place if it stands behind it;
  * `filter_after`: what comes after the place of a row is what stands behind the row;
  * `follow_page`: the pages, one after the other, are the list.
-/
import BrainstormServer.Conc.Tables
import Mathlib.Order.OrderDual

namespace Conc

open BrainstormServer

/-! ## The order -/

section
variable {α κ π : Type} [LinearOrder κ] [LinearOrder π] (asc : Bool) (key : α → κ) (tie : α → π)

/-- In the order of the key, up or down, and then of the tie-break. -/
def KeyThen (a b : α) : Prop :=
  (if asc then key a < key b else key b < key a) ∨ (key a = key b ∧ tie a ≤ tie b)

instance : DecidableRel (KeyThen asc key tie) := fun _ _ => inferInstanceAs (Decidable (_ ∨ _))

instance total_keyThen : Std.Total (KeyThen asc key tie) := by
  cases asc with
  | false => exact total_descThen key tie
  | true => exact total_descThen (fun a => OrderDual.toDual (key a)) tie

instance trans_keyThen : IsTrans α (KeyThen asc key tie) := by
  cases asc with
  | false => exact trans_descThen key tie
  | true => exact trans_descThen (fun a => OrderDual.toDual (key a)) tie

/-- A place, with a row that comes after it. -/
def After (place : κ × π) (a : α) : Prop :=
  (if asc then place.1 < key a else key a < place.1) ∨ (key a = place.1 ∧ place.2 < tie a)

instance : DecidableRel (After asc key tie) := fun _ _ => inferInstanceAs (Decidable (_ ∨ _))

variable {asc key tie}

theorem KeyThen.antisymm {a b : α} (hab : KeyThen asc key tie a b) (hba : KeyThen asc key tie b a) :
    tie a = tie b := by
  cases asc with
  | false =>
    have hdesc : DescThen key tie a b := hab
    exact hdesc.antisymm hba
  | true =>
    have hasc : DescThen (fun a => OrderDual.toDual (key a)) tie a b := hab
    exact hasc.antisymm hba

/-- **A row comes after another's place** if it does not stand before it. -/
theorem after_iff {a b : α} : After asc key tie (key a, tie a) b ↔ ¬ KeyThen asc key tie b a := by
  rw [After, KeyThen]
  by_cases hkey : key a = key b
  · -- the tie-break decides
    cases asc with
    | false => simp [hkey]
    | true => simp [hkey]
  · cases asc with
    | false => simp [Ne.symm hkey, le_iff_lt_or_eq]
    | true => simp [Ne.symm hkey, hkey, le_iff_lt_or_eq]

/-- What comes after the place of a row is what stands behind the row. -/
theorem filter_after {before rest : List α} {a : α} (hl : (before ++ a :: rest).Pairwise (KeyThen asc key tie))
    (hnodup : ((before ++ a :: rest).map tie).Nodup) :
    (before ++ a :: rest).filter (fun b => After asc key tie (key a, tie a) b) = rest := by
  obtain ⟨-, hrest, hbefore⟩ := List.pairwise_append.1 hl
  rw [List.filter_append, List.filter_cons_of_neg]
  · have hnone : before.filter (fun b => decide (After asc key tie (key a, tie a) b)) = [] := by
      refine List.filter_eq_nil_iff.2 fun b hb => ?_
      rw [decide_eq_true_eq, after_iff, not_not]
      exact hbefore b hb a List.mem_cons_self
    rw [hnone, List.nil_append, List.filter_eq_self]
    intro b hb
    rw [decide_eq_true_eq, after_iff]
    intro hba
    have htie := (List.rel_of_pairwise_cons hrest hb).antisymm hba
    rw [List.map_append, List.map_cons] at hnodup
    exact (List.nodup_cons.1 (List.nodup_append.1 hnodup).2.1).1 (htie ▸ List.mem_map_of_mem hb)
  · rw [decide_eq_true_eq, after_iff, not_not]
    exact (Std.Total.total a a).elim id id

end

/-! ## Pages -/

/-- A page: its rows, and the place the next one starts after. -/
structure Page (α κ : Type) where
  rows : List α
  next : Option κ

/-- The page of the first `limit` rows; a full page tells the place of its last row. -/
def page {α κ : Type} (place : α → κ) (limit : ℕ) (l : List α) : Page α κ where
  rows := l.take limit
  next := if (l.take limit).length = limit then (l.take limit).getLast?.map place else none

/-- The pages that are got by asking for each page after the one before, until a page tells
    of no next one. -/
def follow {α κ : Type} (ask : Option κ → Option (Page α κ)) : ℕ → Option κ → Option (List (List α))
  | 0, _ => none
  | fuel + 1, cursor => (ask cursor).bind fun page =>
    match page.next with
    | none => some [page.rows]
    | some next => (follow ask fuel (some next)).map (page.rows :: ·)

section
variable {α κ : Type} {place : α → κ} {limit : ℕ} {ask : Option κ → Option (Page α κ)}

theorem follow_last {fuel : ℕ} {cursor : Option κ} {rows : List α} (h : ask cursor = some ⟨rows, none⟩) :
    follow ask (fuel + 1) cursor = some [rows] := by
  rw [follow, h]
  rfl

theorem follow_next {fuel : ℕ} {cursor : Option κ} {rows : List α} {next : κ}
    (h : ask cursor = some ⟨rows, some next⟩) :
    follow ask (fuel + 1) cursor = (follow ask fuel (some next)).map (rows :: ·) := by
  rw [follow, h]
  rfl

theorem page_map {β : Type} (f : β → α) (l : List β) :
    page place limit (l.map f) = ⟨(page (fun b => place (f b)) limit l).rows.map f,
      (page (fun b => place (f b)) limit l).next⟩ := by
  rw [page, page, ← List.map_take, List.length_map, List.getLast?_map, Option.map_map]
  rfl

theorem page_of_lt {l : List α} (h : l.length < limit) : page place limit l = ⟨l, none⟩ := by
  rw [page, List.take_of_length_le h.le, if_neg h.ne]

/-- What is left fits on one page. -/
theorem exists_last {cursor : Option κ} {rest : List α} (h : rest.length < limit)
    (hask : ask cursor = some (page place limit rest)) :
    ∃ pages, (∀ fuel, rest.length < fuel → follow ask fuel cursor = some pages) ∧ pages.flatten = rest ∧
      ∀ rows ∈ pages, rows.length ≤ limit := by
  rw [page_of_lt h] at hask
  refine ⟨[rest], fun fuel hfuel => ?_, List.flatten_singleton, by simpa using h.le⟩
  obtain ⟨fuel, rfl⟩ := Nat.exists_eq_succ_of_ne_zero (Nat.ne_zero_of_lt hfuel)
  exact follow_last hask

theorem page_of_le (place : α → κ) {l : List α} (hpos : 0 < limit) (h : limit ≤ l.length) : ∃ before a rest,
    l = before ++ a :: rest ∧ before.length + 1 = limit ∧
      page place limit l = ⟨before ++ [a], some (place a)⟩ := by
  have hlength : (l.take limit).length = limit := by rw [List.length_take, min_eq_left h]
  rcases List.eq_nil_or_concat' (l.take limit) with hnil | ⟨before, a, htake⟩
  · rw [hnil, List.length_nil] at hlength
    exact absurd hlength hpos.ne
  · have hl : l = before ++ a :: l.drop limit := by
      rw [← List.singleton_append, ← List.append_assoc, ← htake, List.take_append_drop]
    refine ⟨before, a, l.drop limit, hl, ?_, ?_⟩
    · rw [← hlength, htake, List.length_append, List.length_singleton]
    · rw [page, if_pos hlength, htake, List.getLast?_concat, Option.map_some]

/-- **The pages, one after the other, are the list.** -/
theorem follow_page (hpos : 0 < limit) {l : List α} (hstart : ask none = some (page place limit l))
    (hnext : ∀ before a rest, l = before ++ a :: rest → ask (some (place a)) = some (page place limit rest)) :
    ∃ pages, (∀ fuel, l.length < fuel → follow ask fuel none = some pages) ∧ pages.flatten = l ∧
      ∀ rows ∈ pages, rows.length ≤ limit := by
  -- from any place in the list, by what is left
  have hfrom : ∀ (n : ℕ) (cursor : Option κ) (seen rest : List α), l = seen ++ rest → rest.length ≤ n →
      ask cursor = some (page place limit rest) →
      ∃ pages, (∀ fuel, rest.length < fuel → follow ask fuel cursor = some pages) ∧ pages.flatten = rest ∧
        ∀ rows ∈ pages, rows.length ≤ limit := by
    intro n
    induction n with
    | zero =>
      intro cursor seen rest hl hn hask
      have hlt : rest.length < limit := lt_of_le_of_lt hn hpos
      exact exists_last hlt hask
    | succ n ih =>
      intro cursor seen rest hl hn hask
      rcases lt_or_ge rest.length limit with hlt | hle
      · exact exists_last hlt hask
      · obtain ⟨before, a, rest, rfl, hlength, hpage⟩ := page_of_le place hpos hle
        rw [hpage] at hask
        rw [List.length_append, List.length_cons] at hn
        obtain ⟨pages, hpages, hflat, hsmall⟩ := ih (some (place a)) (seen ++ before ++ [a]) rest (by simp [hl])
          (by omega) (hnext (seen ++ before) a rest (by simp [hl]))
        refine ⟨(before ++ [a]) :: pages, fun fuel hfuel => ?_, by simp [hflat], ?_⟩
        · obtain ⟨fuel, rfl⟩ := Nat.exists_eq_succ_of_ne_zero (Nat.ne_zero_of_lt hfuel)
          rw [List.length_append, List.length_cons] at hfuel
          rw [Nat.succ_eq_add_one, follow_next hask, hpages fuel (by omega)]
          rfl
        · rintro rows (_ | ⟨_, hrows⟩)
          · simpa using hlength.le
          · exact hsmall rows hrows
  exact hfrom l.length none [] l rfl le_rfl hstart

end

end Conc
