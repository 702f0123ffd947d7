/-
  The order of keys is total (`compare_keys`, `most_specific_first` and `winner_of` of
  `app/services/self_map_build.py`).

  * `norm_eq_of_specificity`: the slot and the segments of a key make up its one spelling, and
    its last segment is not empty, so that two keys of one place are one key;
  * `compareKeys_eq_zero_iff`: the comparison tells keys apart by their spelling;
  * `winner_eq_of_perm`, `sortBy_before_perm`: the order in which keys come decides nothing;
  * `compareKeys_total`: all of it.
-/
import BrainstormServer.Conc.Tables
import BrainstormServer.SelfMap.Covers
import Mathlib.Data.List.GetD

namespace BrainstormServer

namespace SelfMap

/-! ## Keys are told apart by their places -/

theorem Shape.norm_eq {k : Key} (h : Shape k) : k.norm = join (k.slot :: k.segs) := by
  cases h with
  | header => rfl
  | element => rfl
  | concept => rw [join_cons_cons, join_singleton]
  | plain => rfl

theorem Shape.last_ne {k : Key} (h : Shape k) (hne : k.segs ≠ []) : k.segs.getLast hne ≠ "" := by
  cases h with
  | header => exact absurd rfl hne
  | element => exact absurd rfl hne
  | concept hslot hd => exact hd
  | plain hkind hslot hlast => exact hlast hne

/-- Segments without a trailing empty one are as many as their places. -/
theorem length_le_of_places {as bs : List String} (hlast : ∀ hne : as ≠ [], as.getLast hne ≠ "")
    (h : segPlaces as = segPlaces bs) : as.length ≤ bs.length := by
  by_contra hlt
  have hne : as ≠ [] := by
    rintro rfl
    exact hlt (Nat.zero_le _)
  refine hlast hne ?_
  -- at the last place there is nothing on the other side
  have hplace := segPlace_injective (congrFun h (as.length - 1))
  rw [List.getD_eq_default bs "" (by omega)] at hplace
  rw [List.getLast_eq_getElem, ← hplace]
  exact (List.getD_eq_getElem as "" (by have := List.length_pos_iff.2 hne; omega)).symm

theorem segPlaces_inj {as bs : List String} (has : ∀ hne : as ≠ [], as.getLast hne ≠ "")
    (hbs : ∀ hne : bs ≠ [], bs.getLast hne ≠ "") (h : segPlaces as = segPlaces bs) : as = bs := by
  have hlength := Nat.le_antisymm (length_le_of_places has h) (length_le_of_places hbs h.symm)
  refine List.ext_getElem hlength fun i hi hi' => ?_
  have hplace := segPlace_injective (congrFun h i)
  rwa [List.getD_eq_getElem _ _ hi, List.getD_eq_getElem _ _ hi'] at hplace

/-- **No two keys are equally specific.** -/
theorem norm_eq_of_specificity {a b : Key} (ha : Shape a) (hb : Shape b) (h : specificity a = specificity b) :
    a.norm = b.norm := by
  simp only [specificity, EmbeddingLike.apply_eq_iff_eq, Prod.mk.injEq] at h
  obtain ⟨-, hslot, hsegs⟩ := h
  rw [ha.norm_eq, hb.norm_eq, hslot, segPlaces_inj ha.last_ne hb.last_ne hsegs]

/-! ## The comparison -/

/-- A key that `parse_key` accepts. -/
def Parsed (k : Key) : Prop := ∃ key, parseKey key = some k

theorem Parsed.shape {k : Key} (h : Parsed k) : Shape k := by
  obtain ⟨key, hkey⟩ := h
  exact shape_of_parse hkey

/-- Parsed keys of one spelling are the same. -/
theorem Parsed.eq {a b : Key} (ha : Parsed a) (hb : Parsed b) (h : a.norm = b.norm) : a = b := by
  obtain ⟨key, hkey⟩ := ha
  obtain ⟨key', hkey'⟩ := hb
  exact eq_of_norm_eq hkey hkey' h

theorem compareKeys_nonpos (a b : Key) : compareKeys a b ≤ 0 ↔ specificity a ≤ specificity b := by
  rw [← not_lt, compareKeys_pos, not_lt]

/-- The comparison the other way around has the other sign. -/
theorem sign_compareKeys_swap (a b : Key) : (compareKeys b a).sign = -(compareKeys a b).sign := by
  rcases lt_trichotomy (compareKeys a b) 0 with hneg | hzero | hpos
  · have hswap := (compareKeys_pos b a).2 ((compareKeys_spec a b).1.1 hneg)
    rw [Int.sign_eq_neg_one_of_neg hneg, Int.sign_eq_one_of_pos hswap]
    rfl
  · have hswap := (compareKeys_spec b a).2.2 ((compareKeys_spec a b).2.1 hzero).symm
    rw [hzero, hswap]
    rfl
  · have hswap := (compareKeys_spec b a).1.2 ((compareKeys_pos a b).1 hpos)
    rw [Int.sign_eq_one_of_pos hpos, Int.sign_eq_neg_one_of_neg hswap]

/-- **The comparison tells keys apart** by their spelling. -/
theorem compareKeys_eq_zero_iff {a b : Key} (ha : Parsed a) (hb : Parsed b) :
    compareKeys a b = 0 ↔ a.norm = b.norm := by
  rw [(compareKeys_spec a b).2]
  constructor
  · intro h
    exact norm_eq_of_specificity ha.shape hb.shape h
  · intro h
    rw [ha.eq hb h]

instance before_total : Std.Total Before := ⟨fun a b => by
  unfold Before
  rw [compareKeys_nonpos, compareKeys_nonpos]
  exact le_total _ _⟩

instance before_trans : IsTrans Key Before := ⟨fun a b c hab hbc => by
  unfold Before at hab hbc ⊢
  rw [compareKeys_nonpos] at hab hbc ⊢
  exact hab.trans hbc⟩

/-- Of two keys that come before each other there is one. -/
theorem before_antisymm {a b : Key} (ha : Parsed a) (hb : Parsed b) (hab : Before a b) (hba : Before b a) : a = b := by
  unfold Before at hab hba
  rw [compareKeys_nonpos] at hab hba
  exact ha.eq hb (norm_eq_of_specificity ha.shape hb.shape (le_antisymm hab hba))

/-- **The order in which keys come** does not change how they are sorted. -/
theorem sortBy_before_perm {keys keys' : List Key} (hperm : keys'.Perm keys) (hparsed : ∀ k ∈ keys, Parsed k) :
    sortBy Before keys' = sortBy Before keys :=
  Conc.sortBy_perm (fun a ha b hb => before_antisymm (hparsed a ha) (hparsed b hb)) hperm

/-! ## The winner -/

section
variable {T : Type} {keyOf : T → Key} {l l' : List T} {c c' : T} {i : ℕ} {probe : Probe}

/-- The winner is no less specific than any candidate that matches. -/
theorem specificity_le_of_winnerOf (h : winnerOf keyOf l probe = some (c, i)) {b : T} (hb : b ∈ l)
    (hmatch : matchesProbe (keyOf b) probe = true) : specificity (keyOf c) ≤ specificity (keyOf b) := by
  obtain ⟨before, after, rfl, -, hbest⟩ := winnerOf_iff.1 h
  rcases List.mem_append.1 hb with hb | hb
  · exact ((compareKeys_pos _ _).1 (hbest.less b hb hmatch)).le
  rcases List.mem_cons.1 hb with rfl | hb
  · exact le_refl _
  · exact (compareKeys_nonneg _ _).1 (hbest.notMore b hb hmatch)

/-- Among candidates that are told apart by their keys, the order is no matter. -/
theorem winnerOf_perm (hperm : l.Perm l')
    (hinj : ∀ a ∈ l, ∀ b ∈ l, specificity (keyOf a) = specificity (keyOf b) → a = b)
    (h : winnerOf keyOf l probe = some (c, i)) : ∃ j, winnerOf keyOf l' probe = some (c, j) := by
  obtain ⟨hc, hmatch⟩ := winnerOf_some h
  obtain ⟨⟨c', j⟩, h'⟩ := Option.ne_none_iff_exists'.1 (winnerOf_ne_none (hperm.mem_iff.1 hc) hmatch)
  obtain ⟨hc', hmatch'⟩ := winnerOf_some h'
  have hle := specificity_le_of_winnerOf h (hperm.mem_iff.2 hc') hmatch'
  have hle' := specificity_le_of_winnerOf h' (hperm.mem_iff.1 hc) hmatch
  rw [hinj c hc c' (hperm.mem_iff.2 hc') (le_antisymm hle hle')]
  exact ⟨j, h'⟩

/-- **The order in which candidates come** does not change the winner, where no two of them
    have one spelling. -/
theorem winner_eq_of_perm (hperm : l'.Perm l) (hparsed : ∀ c ∈ l, Parsed (keyOf c))
    (hnodup : (l.map fun c => (keyOf c).norm).Nodup) :
    (winnerOf keyOf l' probe).map Prod.fst = (winnerOf keyOf l probe).map Prod.fst := by
  cases hw : winnerOf keyOf l probe with
  | none =>
    cases hw' : winnerOf keyOf l' probe with
    | none => rfl
    | some w' =>
      obtain ⟨hmem, hmatch⟩ := winnerOf_some hw'
      exact absurd hw (winnerOf_ne_none (hperm.mem_iff.1 hmem) hmatch)
  | some w =>
    obtain ⟨j, hj⟩ := winnerOf_perm hperm.symm (fun a ha b hb hspec =>
      List.inj_on_of_nodup_map hnodup ha hb
        (norm_eq_of_specificity (hparsed a ha).shape (hparsed b hb).shape hspec)) hw
    rw [hj]
    rfl

end

/-- **The order of keys is total**: the comparison is antisymmetric and transitive, and zero
    for keys of one spelling alone; so the winner of keys of different spellings, and how keys
    are sorted, do not depend on the order in which they come. -/
theorem compareKeys_total :
    (∀ a b, Parsed a → Parsed b → (compareKeys b a).sign = -(compareKeys a b).sign) ∧
    (∀ a b c, Parsed a → Parsed b → Parsed c → compareKeys a b ≤ 0 → compareKeys b c ≤ 0 → compareKeys a c ≤ 0) ∧
    (∀ a b c, Parsed a → Parsed b → Parsed c → compareKeys a b < 0 → compareKeys b c < 0 → compareKeys a c < 0) ∧
    (∀ a b, Parsed a → Parsed b → (compareKeys a b = 0 ↔ a.norm = b.norm)) ∧
    (∀ (T : Type) (keyOf : T → Key) (candidates candidates' : List T) (probe : Probe),
      candidates'.Perm candidates → (∀ c ∈ candidates, Parsed (keyOf c)) →
      (candidates.map fun c => (keyOf c).norm).Nodup →
      (winnerOf keyOf candidates' probe).map Prod.fst = (winnerOf keyOf candidates probe).map Prod.fst) ∧
    ∀ keys keys' : List Key, keys'.Perm keys → (∀ k ∈ keys, Parsed k) →
      sortBy Before keys' = sortBy Before keys := by
  refine ⟨fun a b _ _ => sign_compareKeys_swap a b, ?_, ?_, fun a b ha hb => compareKeys_eq_zero_iff ha hb,
    fun T keyOf candidates candidates' probe hperm hparsed hnodup => winner_eq_of_perm hperm hparsed hnodup,
    fun keys keys' hperm hparsed => sortBy_before_perm hperm hparsed⟩
  · intro a b c _ _ _ hab hbc
    rw [compareKeys_nonpos] at hab hbc ⊢
    exact hab.trans hbc
  · intro a b c _ _ _ hab hbc
    rw [(compareKeys_spec _ _).1] at hab hbc ⊢
    exact hab.trans hbc

/-- Three keys, from the least specific to the most. -/
def threeKeys : List Key := ["*", "3038x:rank", "30382:rank"].filterMap parseKey

/-- In either order the same key wins, and they are sorted the same. -/
theorem threeKeys_either_way :
    (winnerOf id threeKeys.reverse ⟨30382, .metric "rank"⟩).map Prod.fst =
      (winnerOf id threeKeys ⟨30382, .metric "rank"⟩).map Prod.fst ∧
    sortBy Before threeKeys.reverse = sortBy Before threeKeys := by
  have hparsed : ∀ k ∈ threeKeys, Parsed k := by
    intro k hk
    obtain ⟨key, -, hkey⟩ := List.mem_filterMap.1 hk
    exact ⟨key, hkey⟩
  have hperm := List.reverse_perm threeKeys
  obtain ⟨-, -, -, -, hwinner, hsort⟩ := compareKeys_total
  exact ⟨hwinner Key id threeKeys threeKeys.reverse _ hperm hparsed (by decide), hsort threeKeys _ hperm hparsed⟩

end SelfMap

end BrainstormServer
