/-
  Lists that are sorted, and tables that are kept by key.

  * `sortBy_unique`: a list with these members, in this order, is the sorted one, whenever
    the order tells the members apart;
  * `sortBy_descThen`: the order of `(-key, tie)`;
  * `le_greatest`: the greatest of a list, where there is more than a key to compare by;
  * `mem_firsts`, `nodup_firsts`, `ordered_firsts`: what is kept of a list when each element
    is kept where it comes first;
  * `lookup_tabulate`: a table in which each row changes the entry of its key has, under a
    key, what the rows of that key make of the first value;
  * `lookup_group`: so a table of groups has the rows of each key.
-/
import BrainstormServer.Python
import Mathlib.Algebra.BigOperators.Group.List.Basic
import Mathlib.Algebra.GroupWithZero.Nat
import Mathlib.Data.List.Induction
import Mathlib.Data.List.Nodup
import Mathlib.Data.List.Perm.Basic
import Mathlib.Order.Lattice

namespace Conc

open BrainstormServer

/-! ## Sorted lists -/

section
variable {α : Type} {r : α → α → Prop} [DecidableRel r]

theorem mem_sortBy {l : List α} {a : α} : a ∈ sortBy r l ↔ a ∈ l := List.mem_insertionSort r

theorem perm_sortBy (l : List α) : (sortBy r l).Perm l := List.perm_insertionSort r l

theorem pairwise_sortBy [Std.Total r] [IsTrans α r] (l : List α) : (sortBy r l).Pairwise r :=
  List.pairwise_insertionSort r l

/-- **There is one way to sort** what the order tells apart. -/
theorem sortBy_unique [Std.Total r] [IsTrans α r] {l m : List α}
    (hanti : ∀ a ∈ l, ∀ b ∈ l, r a b → r b a → a = b) (hm : m.Pairwise r) (hperm : m.Perm l) : m = sortBy r l := by
  refine List.Perm.eq_of_pairwise (fun a b ha hb => ?_) hm (pairwise_sortBy l) (hperm.trans (perm_sortBy l).symm)
  exact hanti a (hperm.mem_iff.1 ha) b (mem_sortBy.1 hb)

/-- The order in which the elements come does not matter. -/
theorem sortBy_perm [Std.Total r] [IsTrans α r] {l l' : List α}
    (hanti : ∀ a ∈ l, ∀ b ∈ l, r a b → r b a → a = b) (hperm : l'.Perm l) : sortBy r l' = sortBy r l :=
  sortBy_unique hanti (pairwise_sortBy l') ((perm_sortBy l').trans hperm)

end

/-! ## Descending, ties ascending -/

section
variable {α κ π : Type} [LinearOrder κ] [LinearOrder π] (key : α → κ) (tie : α → π)

/-- In the order of `(-key, tie)`. -/
def DescThen (a b : α) : Prop := key b < key a ∨ (key a = key b ∧ tie a ≤ tie b)

instance : DecidableRel (DescThen key tie) := fun _ _ => inferInstanceAs (Decidable (_ ∨ _))

instance total_descThen : Std.Total (DescThen key tie) := by
  refine ⟨fun a b => ?_⟩
  rcases lt_trichotomy (key a) (key b) with h | h | h
  · exact Or.inr (Or.inl h)
  · exact (le_total (tie a) (tie b)).imp (fun ht => Or.inr ⟨h, ht⟩) fun ht => Or.inr ⟨h.symm, ht⟩
  · exact Or.inl (Or.inl h)

instance trans_descThen : IsTrans α (DescThen key tie) := by
  refine ⟨fun a b c hab hbc => ?_⟩
  rcases hab with hab | ⟨hab, hab'⟩ <;> rcases hbc with hbc | ⟨hbc, hbc'⟩
  · exact Or.inl (hbc.trans hab)
  · exact Or.inl (hbc ▸ hab)
  · exact Or.inl (hab ▸ hbc)
  · exact Or.inr ⟨hab.trans hbc, hab'.trans hbc'⟩

variable {key tie}

/-- What stands before each other has the same tie-break. -/
theorem DescThen.antisymm {a b : α} (hab : DescThen key tie a b) (hba : DescThen key tie b a) : tie a = tie b := by
  rcases hab with hab | ⟨hab, hab'⟩ <;> rcases hba with hba | ⟨hba, hba'⟩
  · exact absurd hab hba.not_gt
  · exact absurd hab hba.ge.not_gt
  · exact absurd hba hab.ge.not_gt
  · exact le_antisymm hab' hba'

/-- A list in which no tie-break comes twice is sorted in one way, whatever its order. -/
theorem sortBy_descThen {l l' : List α} (hnodup : (l.map tie).Nodup) (hperm : l'.Perm l) :
    sortBy (DescThen key tie) l' = sortBy (DescThen key tie) l :=
  sortBy_perm (fun _ ha _ hb hab hba => List.inj_on_of_nodup_map hnodup ha hb (hab.antisymm hba)) hperm

end

/-! ## The greatest -/

section
variable {α κ : Type} [LinearOrder κ] (r : α → α → Prop) [DecidableRel r]

/-- The first of the greatest, where `r a b` says that `b` is greater. -/
def greatest : List α → Option α
  | [] => none
  | a :: l => some (l.foldl (fun best b => if r best b then b else best) a)

variable {r}

theorem greatest_mem {l : List α} {a : α} (h : greatest r l = some a) : a ∈ l := by
  have hfold : ∀ (l : List α) (a : α), l.foldl (fun best b => if r best b then b else best) a ∈ a :: l := by
    intro l
    induction l with
    | nil => exact fun a => List.mem_cons_self
    | cons b l ih =>
      intro a
      rw [List.foldl_cons]
      split_ifs
      · exact List.mem_cons_of_mem a (ih b)
      · rcases List.mem_cons.1 (ih a) with h | h
        · rw [h]
          exact List.mem_cons_self
        · exact List.mem_cons_of_mem a (List.mem_cons_of_mem b h)
  cases l with
  | nil => cases h
  | cons b l => exact Option.some.inj h ▸ hfold l b

/-- **No key is greater than that of the greatest**, when who is greater has no smaller key. -/
theorem le_greatest {key : α → κ} (hgreater : ∀ a b, r a b → key a ≤ key b) (hnot : ∀ a b, ¬ r a b → key b ≤ key a)
    {l : List α} {a : α} (h : greatest r l = some a) : ∀ b ∈ l, key b ≤ key a := by
  have hfold : ∀ (l : List α) (a : α), ∀ b ∈ a :: l,
      key b ≤ key (l.foldl (fun best b => if r best b then b else best) a) := by
    intro l
    induction l with
    | nil =>
      intro a b hb
      rw [List.mem_singleton.1 hb]
      rfl
    | cons c l ih =>
      intro a b hb
      rw [List.foldl_cons]
      split_ifs with hc
      · rcases List.mem_cons.1 hb with rfl | hb
        · exact (hgreater b c hc).trans (ih c c List.mem_cons_self)
        · exact ih c b hb
      · rcases List.mem_cons.1 hb with rfl | hb
        · exact ih b b List.mem_cons_self
        · rcases List.mem_cons.1 hb with rfl | hb
          · exact (hnot a b hc).trans (ih a a List.mem_cons_self)
          · exact ih a b (List.mem_cons_of_mem a hb)
  cases l with
  | nil => cases h
  | cons c l => exact Option.some.inj h ▸ hfold l c

theorem exists_greatest {l : List α} (h : l ≠ []) : ∃ a, greatest r l = some a := by
  cases l with
  | nil => exact absurd rfl h
  | cons a l => exact ⟨_, rfl⟩

end

/-! ## What comes first -/

section
variable {α : Type} [DecidableEq α]

/-- An element that is not there yet goes to the end. -/
def addNew (seen : List α) (a : α) : List α := if a ∈ seen then seen else seen ++ [a]

/-- The elements of a list, each where it comes first. -/
def firsts (l : List α) : List α := l.foldl addNew []

theorem firsts_snoc (l : List α) (a : α) : firsts (l ++ [a]) = addNew (firsts l) a := by
  rw [firsts, List.foldl_append]
  rfl

theorem mem_firsts {l : List α} {x : α} : x ∈ firsts l ↔ x ∈ l := by
  induction l using List.reverseRecOn with
  | nil => rfl
  | append_singleton l a ih =>
    rw [firsts_snoc, addNew, List.mem_append, List.mem_singleton, ← ih]
    split_ifs with ha
    · exact ⟨Or.inl, fun h => h.elim id fun hx => hx ▸ ha⟩
    · rw [List.mem_append, List.mem_singleton]

theorem nodup_firsts (l : List α) : (firsts l).Nodup := by
  induction l using List.reverseRecOn with
  | nil => exact List.nodup_nil
  | append_singleton l a ih =>
    rw [firsts_snoc, addNew]
    split_ifs with ha
    · exact ih
    · refine List.nodup_append.2 ⟨ih, List.nodup_singleton a, fun x hx y hy hxy => ha ?_⟩
      rwa [← List.mem_singleton.1 hy, ← hxy]

/-- **In the order in which they came first**, in a list of which a part is kept. -/
theorem ordered_firsts (p : α → Bool) (l : List α) :
    (firsts (l.filter p)).Pairwise fun a b => l.idxOf a < l.idxOf b := by
  induction l using List.reverseRecOn with
  | nil => exact List.Pairwise.nil
  | append_singleton l a ih =>
    have hbefore : (firsts (l.filter p)).Pairwise fun x y => (l ++ [a]).idxOf x < (l ++ [a]).idxOf y := by
      refine ih.imp_of_mem fun hx hy h => ?_
      rwa [List.idxOf_append_of_mem (List.mem_of_mem_filter (mem_firsts.1 hx)),
        List.idxOf_append_of_mem (List.mem_of_mem_filter (mem_firsts.1 hy))]
    rw [List.filter_append]
    by_cases hp : p a = true
    · rw [List.filter_cons_of_pos hp, List.filter_nil, firsts_snoc, addNew]
      split_ifs with ha
      · exact hbefore
      · have hnot : a ∉ l := fun h => ha (mem_firsts.2 (List.mem_filter.2 ⟨h, hp⟩))
        refine List.pairwise_append.2 ⟨hbefore, List.pairwise_singleton _ a, fun x hx y hy => ?_⟩
        have hxl := List.mem_of_mem_filter (mem_firsts.1 hx)
        rw [List.mem_singleton.1 hy, List.idxOf_append_of_mem hxl, List.idxOf_append_of_notMem hnot]
        exact Nat.lt_add_right _ (List.idxOf_lt_length_of_mem hxl)
    · rw [List.filter_cons_of_neg hp, List.filter_nil, List.append_nil]
      exact hbefore

theorem sum_indicator (a : α) (keys : List α) :
    (keys.map fun key => if a == key then 1 else 0).sum = keys.count a := by
  induction keys with
  | nil => rfl
  | cons key keys ih =>
    rw [List.map_cons, List.sum_cons, ih, List.count_cons, Nat.add_comm, BEq.comm]

/-- Counted by keys among which each element comes once, a list is counted whole. -/
theorem sum_count {keys l : List α} (hone : ∀ a ∈ l, keys.count a = 1) :
    (keys.map fun key => l.count key).sum = l.length := by
  induction l with
  | nil => simp
  | cons a l ih =>
    simp only [List.count_cons]
    rw [List.sum_map_add, ih fun b hb => hone b (List.mem_cons_of_mem _ hb), sum_indicator,
      hone a List.mem_cons_self, List.length_cons]

theorem firsts_eq_eraseDups (l : List α) : firsts l = l.eraseDups := by
  induction l using List.reverseRecOn with
  | nil => rfl
  | append_singleton l a ih =>
    rw [firsts_snoc, addNew, List.eraseDups_append, ih]
    by_cases ha : a ∈ l
    · rw [if_pos (List.mem_eraseDups.2 ha)]
      simp [ha, List.removeAll]
    · rw [if_neg (mt List.mem_eraseDups.1 ha)]
      simp [ha, List.removeAll, List.eraseDups_cons]

end

/-! ## Tables -/

section
variable {α κ β : Type} [DecidableEq κ]

/-- The table in which each row changes the entry of its key. -/
def tabulate (key : α → κ) (first : β) (step : β → α → β) (d : List (κ × β)) (rows : List α) : List (κ × β) :=
  rows.foldl (fun d row => dictSet d (key row) (step ((d.lookup (key row)).getD first) row)) d

variable {key : α → κ} {first : β} {step : β → α → β}

variable (key first step) in
/-- **The entry of a key is what the rows of that key make of it.** -/
theorem lookup_tabulate (k : κ) : ∀ (rows : List α) (d : List (κ × β)),
    ((tabulate key first step d rows).lookup k).getD first =
      (rows.filter (key · = k)).foldl step ((d.lookup k).getD first) := by
  intro rows
  induction rows with
  | nil => exact fun d => rfl
  | cons row rows ih =>
    intro d
    have hd := ih (dictSet d (key row) (step ((d.lookup (key row)).getD first) row))
    rw [lookup_dictSet] at hd
    rw [tabulate, List.foldl_cons]
    refine hd.trans ?_
    by_cases hk : key row = k
    · rw [if_pos hk.symm, List.filter_cons_of_pos (by simpa using hk), List.foldl_cons, ← hk]
      rfl
    · rw [if_neg (Ne.symm hk), List.filter_cons_of_neg (by simpa using hk)]

/-- **The group of a key** has the values of its rows, in their order. -/
theorem lookup_group (key : α → κ) (value : α → β) (k : κ) (rows : List α) :
    ((tabulate key [] (fun group row => group ++ [value row]) [] rows).lookup k).getD [] =
      (rows.filter (key · = k)).map value := by
  have hfold : ∀ (l : List α) (group : List β),
      l.foldl (fun group row => group ++ [value row]) group = group ++ l.map value := by
    intro l
    induction l with
    | nil => simp
    | cons row l ih => simp [ih]
  rw [lookup_tabulate, hfold]
  rfl

/-- No key comes twice. -/
theorem nodup_keys_tabulate : ∀ {rows : List α} {d : List (κ × β)}, (d.map Prod.fst).Nodup →
    ((tabulate key first step d rows).map Prod.fst).Nodup := by
  intro rows
  induction rows with
  | nil => exact fun {d} h => h
  | cons row rows ih => exact fun {d} h => ih (nodup_keys_dictSet _ _ h)

/-- The keys of the rows are there. -/
theorem mem_keys_tabulate {k : κ} : ∀ {rows : List α} {d : List (κ × β)},
    k ∈ (tabulate key first step d rows).map Prod.fst ↔ k ∈ d.map Prod.fst ∨ k ∈ rows.map key := by
  intro rows
  induction rows with
  | nil => simp [tabulate]
  | cons row rows ih =>
    intro d
    rw [tabulate, List.foldl_cons]
    refine ih.trans ?_
    rw [keys_dictSet, List.map_cons, List.mem_cons]
    split_ifs with hmem
    · constructor
      · exact fun h => h.imp id Or.inr
      · rintro (h | rfl | h)
        · exact Or.inl h
        · exact Or.inl hmem
        · exact Or.inr h
    · rw [List.mem_append, List.mem_singleton, or_assoc]

/-- An entry of a table without repeated keys is the one that is looked up. -/
theorem lookup_of_mem {d : List (κ × β)} (h : (d.map Prod.fst).Nodup) {entry : κ × β} (hmem : entry ∈ d) :
    d.lookup entry.1 = some entry.2 := by
  induction d with
  | nil => cases hmem
  | cons e d ih =>
    obtain ⟨k', v'⟩ := e
    rw [List.map_cons, List.nodup_cons] at h
    rw [lookup_cons_eq]
    rcases List.mem_cons.1 hmem with rfl | hmem
    · rw [if_pos rfl]
    · have hne : entry.1 ≠ k' := fun he => h.1 (List.mem_map.2 ⟨entry, hmem, he⟩)
      rw [if_neg hne, ih h.2 hmem]

/-- The entries that are written, one value for each key. -/
theorem lookup_foldl_of_mem (key : α → κ) (value : α → β) : ∀ {rows : List α} {d : List (κ × β)},
    (∀ row ∈ rows, ∀ row' ∈ rows, key row = key row' → value row = value row') → ∀ row ∈ rows,
      (rows.foldl (fun d row => dictSet d (key row) (value row)) d).lookup (key row) = some (value row) := by
  intro rows
  induction rows using List.reverseRecOn with
  | nil => exact fun {d} _ row hrow => by cases hrow
  | append_singleton rows last ih =>
    intro d hvalue row hrow
    rw [List.foldl_append, List.foldl_cons, List.foldl_nil, lookup_dictSet]
    by_cases hlast : key row = key last
    · rw [if_pos hlast, hvalue row hrow last (by simp) hlast]
    · have hne : row ≠ last := fun h => hlast (h ▸ rfl)
      have hbefore : row ∈ rows := (List.mem_append.1 hrow).resolve_right fun h => hne (List.mem_singleton.1 h)
      rw [if_neg hlast, ih (fun x hx y hy => hvalue x (List.mem_append_left _ hx) y (List.mem_append_left _ hy)) row
        hbefore]

theorem lookup_foldl_of_not_mem (key : α → κ) (value : α → β) {k : κ} : ∀ {rows : List α} {d : List (κ × β)},
    k ∉ rows.map key →
      (rows.foldl (fun d row => dictSet d (key row) (value row)) d).lookup k = d.lookup k := by
  intro rows
  induction rows with
  | nil => exact fun {d} _ => rfl
  | cons row rows ih =>
    intro d hk
    rw [List.map_cons, List.mem_cons, not_or] at hk
    rw [List.foldl_cons, ih hk.2, lookup_dictSet, if_neg hk.1]

/-- A table that a function is read into. -/
theorem lookup_map_self {f : κ → β} {k : κ} {keys : List κ} (hk : k ∈ keys) :
    (keys.map fun k => (k, f k)).lookup k = some (f k) := by
  induction keys with
  | nil => cases hk
  | cons k' keys ih =>
    rw [List.map_cons, lookup_cons_eq]
    by_cases h : k = k'
    · rw [if_pos h, h]
    · rw [if_neg h, ih ((List.mem_cons.1 hk).resolve_left h)]

/-- What is looked up is an entry. -/
theorem mem_of_lookup {d : List (κ × β)} {k : κ} {v : β} (h : d.lookup k = some v) : (k, v) ∈ d := by
  induction d with
  | nil => cases h
  | cons e d ih =>
    obtain ⟨k', v'⟩ := e
    rw [lookup_cons_eq] at h
    split_ifs at h with hk
    · rw [hk, Option.some.inj h]
      exact List.mem_cons_self
    · exact List.mem_cons_of_mem _ (ih h)

end

end Conc
