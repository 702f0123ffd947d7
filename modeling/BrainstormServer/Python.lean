/-
  The part of Python the server's readers of foreign JSON use.

  * `PyValue`: a value as `json.loads` builds it, with its truth, its lookups and
    its elements; `JsonEnd`: what `json.loads` ends with;
  * `dictSet`: a dict that is written to, key by key;
  * `append_sep_inj`, `not_mem_of_mem_splitOn`: texts that are joined, and the pieces of
    `split`;
  * `sortBy`: `sorted`, which is stable (`filter_sortBy`: what is kept of a sorted
    list is what is kept, sorted);
  * `bind_ok`, `check_ok`, `mapM_ok`, `filter_mapM`: a computation that may raise.
-/
import Mathlib.Data.List.Sort
import Mathlib.Data.Int.Basic

namespace BrainstormServer

/-! ## Values -/

/-- A value as `json.loads` builds it. -/
inductive PyValue
  | none
  | bool (b : Bool)
  | int (n : ℤ)
  | float (x : Float)
  | str (s : String)
  | list (xs : List PyValue)
  | dict (entries : List (String × PyValue))

abbrev PyDict := List (String × PyValue)

/-- What `json.loads` ends with. -/
inductive JsonEnd
  | value (v : PyValue)
  | valueError
  /-- a text that is nested too deeply -/
  | recursionError

abbrev Bytes := List UInt8

/-- `d.get(key)`. -/
def dictGet (d : PyDict) (key : String) : PyValue := (d.lookup key).getD .none

/-- `bool(v)`. -/
def PyValue.truthy : PyValue → Bool
  | .none => false
  | .bool b => b
  | .int n => n ≠ 0
  | .float x => x != 0
  | .str s => s ≠ ""
  | .list xs => ¬ xs.isEmpty
  | .dict entries => ¬ entries.isEmpty

/-- `v is None`. -/
def PyValue.isNone : PyValue → Bool
  | .none => true
  | _ => false

/-- `v if isinstance(v, dict) else dict()`. -/
def PyValue.asDict : PyValue → PyDict
  | .dict entries => entries
  | _ => []

/-- `isinstance(v, dict)`, with the dict. -/
def PyValue.dict? : PyValue → Option PyDict
  | .dict entries => some entries
  | _ => Option.none

/-- What `for row in v` runs through; `none` is the `TypeError` of a value that is
    not iterable. -/
def PyValue.elements : PyValue → Option (List PyValue)
  | .list xs => some xs
  | .dict entries => some (entries.map fun entry => .str entry.1)
  | .str s => some (s.toList.map fun c => .str (String.singleton c))
  | _ => Option.none

/-! ## Dicts that are written to -/

section
variable {κ β : Type} [DecidableEq κ]

/-- `d[key] = value`: a key that is there keeps its place. -/
def dictSet : List (κ × β) → κ → β → List (κ × β)
  | [], key, value => [(key, value)]
  | (k, v) :: d, key, value =>
    if k = key then (key, value) :: d else (k, v) :: dictSet d key value

theorem lookup_cons_eq (d : List (κ × β)) (k' k : κ) (v' : β) :
    ((k', v') :: d).lookup k = if k = k' then some v' else d.lookup k := by
  by_cases hk : k = k'
  · rw [if_pos hk, hk, List.lookup_cons_self]
  · have hbeq : (k == k') = false := beq_false_of_ne hk
    simp [List.lookup_cons, hbeq, hk]

theorem lookup_dictSet (d : List (κ × β)) (key k : κ) (value : β) :
    (dictSet d key value).lookup k = if k = key then some value else d.lookup k := by
  induction d with
  | nil => rw [dictSet, lookup_cons_eq]
  | cons e d ih =>
    obtain ⟨k', v'⟩ := e
    rw [dictSet, lookup_cons_eq]
    by_cases hk' : k' = key
    · rw [if_pos hk', lookup_cons_eq, hk']
      split_ifs <;> rfl
    · rw [if_neg hk', lookup_cons_eq, ih]
      by_cases hk : k = k'
      · have hne : k ≠ key := by
          rw [hk]
          exact hk'
        rw [if_pos hk, if_neg hne, if_pos hk]
      · rw [if_neg hk, if_neg hk]

theorem mem_keys_iff {d : List (κ × β)} {k : κ} : k ∈ d.map Prod.fst ↔ (d.lookup k).isSome = true := by
  induction d with
  | nil => simp
  | cons e d ih =>
    obtain ⟨k', v'⟩ := e
    rw [List.map_cons, List.mem_cons, ih, lookup_cons_eq]
    by_cases hk : k = k'
    · simp [hk]
    · simp [hk]

theorem keys_dictSet (d : List (κ × β)) (key : κ) (value : β) :
    (dictSet d key value).map Prod.fst =
      if key ∈ d.map Prod.fst then d.map Prod.fst else d.map Prod.fst ++ [key] := by
  induction d with
  | nil => rfl
  | cons e d ih =>
    obtain ⟨k', v'⟩ := e
    rw [dictSet]
    by_cases hk' : k' = key
    · simp [hk']
    · rw [if_neg hk', List.map_cons, ih, List.map_cons]
      by_cases hmem : key ∈ d.map Prod.fst
      · rw [if_pos hmem, if_pos (List.mem_cons_of_mem _ hmem)]
      · rw [if_neg hmem, if_neg, List.cons_append]
        rw [List.mem_cons]
        exact fun h => h.elim (Ne.symm hk') hmem

/-- No key comes twice. -/
theorem nodup_keys_dictSet {d : List (κ × β)} (key : κ) (value : β) (h : (d.map Prod.fst).Nodup) :
    ((dictSet d key value).map Prod.fst).Nodup := by
  rw [keys_dictSet]
  split_ifs with hmem
  · exact h
  · exact List.nodup_append.2 ⟨h, List.nodup_singleton key, fun a ha b hb heq =>
      hmem (by rwa [← List.mem_singleton.1 hb, ← heq])⟩

end

/-! ## Splitting -/

/-- What stands before the first separator, and after it. -/
theorem append_sep_inj {α : Type} {sep : α} : ∀ {xs ys zs ws : List α}, sep ∉ xs → sep ∉ ys →
    xs ++ sep :: zs = ys ++ sep :: ws → xs = ys ∧ zs = ws := by
  intro xs
  induction xs with
  | nil =>
    intro ys zs ws _ hy h
    cases ys with
    | nil => exact ⟨rfl, by simpa using h⟩
    | cons y ys =>
      simp only [List.nil_append, List.cons_append, List.cons.injEq] at h
      exact absurd (h.1 ▸ List.mem_cons_self) hy
  | cons x xs ih =>
    intro ys zs ws hx hy h
    cases ys with
    | nil =>
      simp only [List.nil_append, List.cons_append, List.cons.injEq] at h
      exact absurd (h.1 ▸ List.mem_cons_self) hx
    | cons y ys =>
      simp only [List.cons_append, List.cons.injEq] at h
      obtain ⟨rfl, h⟩ := h
      obtain ⟨rfl, rfl⟩ := ih (fun hm => hx (List.mem_cons_of_mem _ hm))
        (fun hm => hy (List.mem_cons_of_mem _ hm)) h
      exact ⟨rfl, rfl⟩

/-- What stands before the last separator, and after it. -/
theorem append_sep_last_inj {α : Type} {sep : α} {xs ys zs ws : List α} (hz : sep ∉ zs) (hw : sep ∉ ws)
    (h : xs ++ sep :: zs = ys ++ sep :: ws) : xs = ys ∧ zs = ws := by
  have hrev := congrArg List.reverse h
  simp only [List.reverse_append, List.reverse_cons, List.append_assoc, List.cons_append,
    List.nil_append] at hrev
  obtain ⟨hzw, hxy⟩ := append_sep_inj (by simpa using hz) (by simpa using hw) hrev
  exact ⟨List.reverse_injective hxy, List.reverse_injective hzw⟩

/-- No piece of a text that is split contains what it is split at. -/
theorem not_mem_of_mem_splitOn {sep : Char} : ∀ {raw piece : List Char}, piece ∈ raw.splitOn sep →
    sep ∉ piece := by
  intro raw
  induction raw with
  | nil =>
    intro piece h
    simp only [List.splitOn_nil, List.mem_singleton] at h
    simp [h]
  | cons c raw ih =>
    intro piece h
    rw [List.splitOn_cons_eq_if_modifyHead] at h
    split_ifs at h with hc
    · rcases List.mem_cons.1 h with rfl | h
      · simp
      · exact ih h
    · obtain ⟨p, ps, hp⟩ := List.exists_cons_of_ne_nil (List.splitOn_ne_nil sep raw)
      rw [hp, List.modifyHead_cons, List.mem_cons] at h
      rcases h with rfl | h
      · have hsep : sep ≠ c := fun he => hc (by simp [← he])
        simp [hsep, ih (hp ▸ List.mem_cons_self)]
      · exact ih (hp ▸ List.mem_cons_of_mem _ h)

/-! ## Sorting -/

section
variable {α β : Type} (r : α → α → Prop) [DecidableRel r]

/-- `sorted`, by the order `r` of the keys. -/
def sortBy (l : List α) : List α := l.insertionSort r

variable {r}

theorem filter_orderedInsert [IsTrans α r] (p : α → Bool) (a : α) :
    ∀ {l : List α}, l.Pairwise r → (l.orderedInsert r a).filter p =
      if p a then (l.filter p).orderedInsert r a else l.filter p := by
  intro l hl
  induction l with
  | nil => by_cases ha : p a = true <;> simp [ha]
  | cons b l ih =>
    rw [List.pairwise_cons] at hl
    by_cases hab : r a b
    · rw [List.orderedInsert_cons_of_le _ _ hab]
      by_cases ha : p a = true
      · rw [List.filter_cons_of_pos ha, if_pos ha]
        -- every element that is kept stands behind `b`, so `a` goes to the front
        cases hf : (b :: l).filter p with
        | nil => rfl
        | cons c m =>
          rw [List.orderedInsert_cons_of_le]
          have hc : c ∈ (b :: l).filter p := by rw [hf]; exact List.mem_cons_self
          rcases List.mem_cons.1 (List.mem_of_mem_filter hc) with rfl | hc
          · exact hab
          · exact IsTrans.trans a b c hab (hl.1 c hc)
      · rw [List.filter_cons_of_neg ha, if_neg ha]
    · rw [List.orderedInsert_of_not_le _ _ hab]
      by_cases hb : p b = true
      · rw [List.filter_cons_of_pos hb, List.filter_cons_of_pos hb, ih hl.2]
        split_ifs
        · rw [List.orderedInsert_of_not_le _ _ hab]
        · rfl
      · rw [List.filter_cons_of_neg hb, List.filter_cons_of_neg hb, ih hl.2]

/-- **`sorted` is stable**: what is kept of a sorted list is what is kept, sorted. -/
theorem filter_sortBy [Std.Total r] [IsTrans α r] (p : α → Bool) (l : List α) :
    (sortBy r l).filter p = sortBy r (l.filter p) := by
  induction l with
  | nil => rfl
  | cons a l ih =>
    unfold sortBy at *
    rw [List.insertionSort_cons, filter_orderedInsert p a (List.pairwise_insertionSort r l), ih]
    by_cases ha : p a = true
    · rw [if_pos ha, List.filter_cons_of_pos ha, List.insertionSort_cons]
    · rw [if_neg ha, List.filter_cons_of_neg ha]

end

/-! ## Computations that may raise -/

section
variable {α β ε : Type} {f : α → Except ε β}

/-- A computation that ran through went through its first step. -/
theorem bind_ok {x : Except ε α} {b : β} (h : (x >>= f) = .ok b) : ∃ a, x = .ok a ∧ f a = .ok b := by
  cases x with
  | error e => cases h
  | ok a => exact ⟨a, rfl, h⟩

/-- A computation that ran through passed its check. -/
theorem check_ok {p : Prop} [Decidable p] {e : ε} {x : Except ε β} {b : β}
    (h : (if p then .error e else x) = .ok b) : ¬ p ∧ x = .ok b := by
  by_cases hp : p
  · rw [if_pos hp] at h
    cases h
  · rw [if_neg hp] at h
    exact ⟨hp, h⟩

/-- The elements, each through `f`. -/
theorem mapM_ok : ∀ {l : List α} {l' : List β}, l.mapM f = .ok l' ↔ l.map f = l'.map .ok := by
  intro l
  induction l with
  | nil =>
    intro l'
    cases l' with
    | nil => exact ⟨fun _ => rfl, fun _ => rfl⟩
    | cons b l' => exact ⟨fun h => (by cases h), fun h => (by cases h)⟩
  | cons a l ih =>
    intro l'
    rw [List.mapM_cons]
    cases ha : f a with
    | error e =>
      refine ⟨fun h => (by cases h), fun h => ?_⟩
      cases l' with
      | nil => cases h
      | cons b l' => simp [ha] at h
    | ok b =>
      cases hl : l.mapM f with
      | error e =>
        refine ⟨fun h => (by cases h), fun h => ?_⟩
        cases l' with
        | nil => cases h
        | cons b' l' =>
          simp only [List.map_cons, List.cons.injEq] at h
          rw [ih.2 h.2] at hl
          cases hl
      | ok m =>
        have hm := ih.1 hl
        constructor
        · intro h
          cases h
          simp [ha, hm]
        · intro h
          cases l' with
          | nil => cases h
          | cons b' l' =>
            simp only [List.map_cons, List.cons.injEq, ha, Except.ok.injEq] at h
            obtain ⟨rfl, h⟩ := h
            have : m = l' := List.map_injective_iff.2 (fun _ _ => Except.ok.inj) (hm.symm.trans h)
            subst this
            rfl

/-- The comprehension runs through unless one of its elements raises. -/
theorem mapM_isOk {l : List α} : (∃ l', l.mapM f = .ok l') ↔ ∀ a ∈ l, ∃ b, f a = .ok b := by
  constructor
  · rintro ⟨l', h⟩ a ha
    have hmem : f a ∈ l'.map .ok := by
      rw [← mapM_ok.1 h]
      exact List.mem_map_of_mem ha
    obtain ⟨b, -, hb⟩ := List.mem_map.1 hmem
    exact ⟨b, hb.symm⟩
  · intro h
    induction l with
    | nil => exact ⟨[], rfl⟩
    | cons a l ih =>
      obtain ⟨b, hb⟩ := h a List.mem_cons_self
      obtain ⟨l', hl'⟩ := ih fun a' ha' => h a' (List.mem_cons_of_mem _ ha')
      exact ⟨b :: l', mapM_ok.2 (by simp [hb, mapM_ok.1 hl'])⟩

/-- What is kept of the result comes from what is kept of the list. -/
theorem filter_mapM {p : β → Bool} {q : α → Bool} (hpq : ∀ {a b}, f a = .ok b → p b = q a) :
    ∀ {l : List α} {l' : List β}, l.mapM f = .ok l' → (l.filter q).mapM f = .ok (l'.filter p) := by
  intro l l' h
  rw [mapM_ok] at h ⊢
  induction l generalizing l' with
  | nil =>
    cases l' with
    | nil => rfl
    | cons b l' => cases h
  | cons a l ih =>
    cases l' with
    | nil => cases h
    | cons b l' =>
      simp only [List.map_cons, List.cons.injEq] at h
      have hb := hpq h.1
      cases hq : q a with
      | true => simp [hq, hb, h.1, ih h.2]
      | false => simp [hq, hb, ih h.2]

end

end BrainstormServer
