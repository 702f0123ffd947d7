/-
  What a key covers (`covers` of `app/services/self_map_build.py`).

  * `Shape`: every key that parses has one of four shapes (`shape_of_parse`), and its
    slot says its rank and its kinds (`Shape.reading`);
  * `covers_iff`: a row covers a key if and only if it matches every insight that the
    key matches;
  * `more_specific_of_covers`: of two keys, the one that is covered is the more specific.
-/
import BrainstormServer.SelfMap.Specific

namespace BrainstormServer

namespace SelfMap

/-! ## Shapes -/

/-- The keys that `parse_key` returns. -/
inductive Shape : Key → Prop
  /-- `39998` -/
  | header : Shape ⟨"39998", "39998", conceptKinds, [], 2, .all⟩
  /-- `39999` -/
  | element : Shape ⟨"39999", "39999", [39999], [], 3, .all⟩
  /-- `39998:<d>` or `39999:<d>` -/
  | concept {slot d : String} (hslot : slot = "39998" ∨ slot = "39999") (hd : d ≠ "") :
      Shape ⟨slot ++ ":" ++ d, slot, [slotValue slot], [d], 3, .d d⟩
  /-- any other slot, with the segments after it -/
  | plain {slot : String} {segs : List String} (hkind : isKindSlot slot = true)
      (hslot : ¬ (slot = "39998" ∨ slot = "39999")) (hlast : ∀ hne : segs ≠ [], segs.getLast hne ≠ "") :
      Shape ⟨join (slot :: segs), slot, (slotReading slot segs).1, segs, (slotReading slot segs).2,
        scopeOf (join (slot :: segs)) slot (slotReading slot segs).1 segs⟩

/-- A text is its slot, or its slot and the rest. -/
theorem eq_slotOf (key : String) : key = slotOf key ∨ key = slotOf key ++ ":" ++ restOf key := by
  have htake := List.takeWhile_append_dropWhile (p := fun c : Char => decide (c ≠ ':')) (l := key.toList)
  cases hdrop : key.toList.dropWhile (fun c => decide (c ≠ ':')) with
  | nil =>
    refine Or.inl (String.toList_injective ?_)
    rw [hdrop, List.append_nil] at htake
    rw [slotOf, String.toList_ofList, htake]
  | cons c rest =>
    refine Or.inr (String.toList_injective ?_)
    have hc : c = ':' := by
      have hhead := List.head?_dropWhile_not (fun c : Char => decide (c ≠ ':')) key.toList
      rw [hdrop] at hhead
      simpa using hhead
    rw [hdrop, hc] at htake
    simp only [String.toList_append, slotOf, restOf, String.toList_ofList, hdrop, List.drop_succ_cons,
      List.drop_zero, List.append_assoc]
    exact htake.symm

theorem drop_slot (slot rest : String) :
    String.ofList ((slot ++ ":" ++ rest).toList.drop (slot.toList.length + 1)) = rest := by
  refine String.toList_injective ?_
  rw [String.toList_ofList, String.toList_append, List.drop_left' (by simp [String.toList_append])]

/-- **Every key that parses has a shape.** -/
theorem shape_of_parse {text : String} {k : Key} (h : parseKey text = some k) : Shape k := by
  by_cases hslot : slotOf text = "39998" ∨ slotOf text = "39999"
  · simp only [parseKey] at h
    rw [if_pos hslot] at h
    split_ifs at h with hkind hname hbare
    · -- a bare slot
      cases h
      rw [hbare]
      rcases hslot with hslot | hslot
      · rw [hslot]
        exact .header
      · rw [hslot]
        exact .element
    · cases h
      have hnorm : normalizeKey text = text := by
        rw [normalizeKey, if_pos hslot] at hbare ⊢
        split_ifs at hbare ⊢ with hheader
        · exact absurd hheader.1.symm hbare
        · rfl
      rw [hnorm] at hname hbare ⊢
      -- the text goes on behind its slot
      have htext : text = slotOf text ++ ":" ++ restOf text := (eq_slotOf text).resolve_left hbare
      have hd : String.ofList (text.toList.drop ((slotOf text).toList.length + 1)) = restOf text := by
        rw [congrArg String.toList htext]
        exact drop_slot (slotOf text) (restOf text)
      have hrest : restOf text ≠ "" := by
        intro hempty
        rw [hempty] at htext
        refine hname ?_
        rw [htext]
        rcases hslot with hslot | hslot
        · rw [hslot]
          decide
        · rw [hslot]
          decide
      rw [hd]
      generalize slotOf text = slot at *
      generalize restOf text = d at *
      subst htext
      exact .concept hslot hrest
  · obtain ⟨hkind, rfl⟩ := parseKey_of_not_concept h hslot
    exact .plain hkind hslot (segmentsOf_trimmed text)

/-! ## Slots -/

/-- The value of a digit tells it. -/
theorem digit_inj {c c' : Char} (hc : isAsciiDigit c = true) (hc' : isAsciiDigit c' = true)
    (h : c.toNat - 48 = c'.toNat - 48) : c = c' := by
  simp only [isAsciiDigit, decide_eq_true_eq] at hc hc'
  exact Char.toNat_inj.1 (by omega)

/-- Texts of digits of one length are told apart by their values. -/
theorem digits_inj {l l' : List Char} (hlength : l.length = l'.length) (hl : l.all isAsciiDigit = true)
    (hl' : l'.all isAsciiDigit = true)
    (h : l.foldl (fun n c => 10 * n + (c.toNat - 48)) 0 = l'.foldl (fun n c => 10 * n + (c.toNat - 48)) 0) :
    l = l' := by
  induction l using List.reverseRecOn generalizing l' with
  | nil => exact (List.length_eq_zero_iff.1 hlength.symm).symm
  | append_singleton l c ih =>
    cases l' using List.reverseRecOn with
    | nil => simp at hlength
    | append_singleton l' c' =>
      simp only [List.length_append, List.length_singleton, Nat.add_right_cancel_iff] at hlength
      simp only [List.all_append, List.all_cons, List.all_nil, Bool.and_true, Bool.and_eq_true] at hl hl'
      simp only [List.foldl_append, List.foldl_cons, List.foldl_nil] at h
      have hc := hl.2
      have hc' := hl'.2
      simp only [isAsciiDigit, decide_eq_true_eq] at hc hc'
      rw [ih hlength hl.1 hl'.1 (by omega), digit_inj hl.2 hl'.2 (by omega)]

/-- A slot that is one kind. -/
def OneKind (slot : String) : Prop := slot.toList.length = 5 ∧ slot.toList.all isAsciiDigit = true

theorem oneKind_concept {slot : String} (h : slot = "39998" ∨ slot = "39999") : OneKind slot := by
  unfold OneKind
  rcases h with rfl | rfl
  · decide
  · decide

theorem slotValue_inj {slot slot' : String} (h : OneKind slot) (h' : OneKind slot')
    (hvalue : slotValue slot = slotValue slot') : slot = slot' :=
  String.toList_injective (digits_inj (h.1.trans h'.1.symm) h.2 h'.2 hvalue)

/-- What the slot of a key says: everything, a family, the bare `39998`, or one kind. -/
inductive Reading (k : Key) : Prop
  | everything (hslot : k.slot = "*") (hrank : k.rank = 0) (hkinds : scoreKinds ++ listKinds ⊆ k.kinds)
  | scores (hslot : k.slot = "3038x") (hrank : k.rank = 1) (hkinds : k.kinds = scoreKinds)
  | lists (hslot : k.slot = "3039x") (hrank : k.rank = 1) (hkinds : k.kinds = listKinds)
  | header (hslot : k.slot = "39998") (hrank : k.rank = 2) (hkinds : k.kinds = conceptKinds)
  | one (hslot : OneKind k.slot) (hrank : k.rank = 3) (hkinds : k.kinds = [slotValue k.slot])

theorem Shape.reading {k : Key} (h : Shape k) : Reading k := by
  cases h with
  | header => exact .header rfl rfl rfl
  | element => exact .one (oneKind_concept (Or.inr rfl)) rfl (by decide)
  | concept hslot hd => exact .one (oneKind_concept hslot) rfl rfl
  | @plain slot segs hkind hslot hlast =>
    by_cases hstar : slot = "*"
    · subst hstar
      exact .everything rfl rfl (List.subset_append_left _ _)
    by_cases hscores : slot = "3038x"
    · subst hscores
      exact .scores rfl rfl rfl
    by_cases hlists : slot = "3039x"
    · subst hlists
      exact .lists rfl rfl rfl
    · have hone : OneKind slot := by
        simp only [isKindSlot, hstar, hscores, hlists, or_false, decide_eq_true_eq] at hkind
        exact hkind
      have hreading : slotReading slot segs = ([slotValue slot], 3) := by
        rw [slotReading, if_neg hstar, if_neg hscores, if_neg hlists]
      exact .one hone (congrArg Prod.snd hreading) (congrArg Prod.fst hreading)

theorem Shape.kinds_ne_nil {k : Key} (h : Shape k) : ∃ kind, kind ∈ k.kinds := by
  cases h.reading with
  | everything _ _ hkinds => exact ⟨30380, hkinds (by decide)⟩
  | scores _ _ hkinds => exact ⟨30380, by rw [hkinds]; decide⟩
  | lists _ _ hkinds => exact ⟨30390, by rw [hkinds]; decide⟩
  | header _ _ hkinds => exact ⟨39998, by rw [hkinds]; decide⟩
  | one _ _ hkinds => exact ⟨slotValue k.slot, by rw [hkinds]; exact List.mem_singleton.2 rfl⟩

/-- **A slot within another is the same or beats it.** -/
theorem rank_lt_of_subset {row key : Key} (hrow : Shape row) (hkey : Shape key)
    (hsub : key.kinds ⊆ row.kinds) : row.rank < key.rank ∨ row.rank = key.rank ∧ row.slot = key.slot := by
  -- two kinds that the row has to have, one of which it has not
  have hboth : ∀ {kind kind' : ℕ} {kinds : List ℕ}, kind ∈ key.kinds → kind' ∈ key.kinds →
      row.kinds = kinds → ¬ (kind ∈ kinds ∧ kind' ∈ kinds) → False := by
    intro kind kind' kinds h h' hkinds hnot
    rw [← hkinds] at hnot
    exact hnot ⟨hsub h, hsub h'⟩
  have hone : ∀ {kind kind' v : ℕ}, kind ≠ kind' → ¬ (kind ∈ [v] ∧ kind' ∈ [v]) := by
    intro kind kind' v hne h
    exact hne ((List.mem_singleton.1 h.1).trans (List.mem_singleton.1 h.2).symm)
  cases hkey.reading with
  | everything hslot hrank hkinds =>
    have h := hkinds (show 30380 ∈ scoreKinds ++ listKinds by decide)
    have h' := hkinds (show 30390 ∈ scoreKinds ++ listKinds by decide)
    cases hrow.reading with
    | everything hslot' hrank' _ => exact Or.inr ⟨hrank'.trans hrank.symm, hslot'.trans hslot.symm⟩
    | scores _ _ hkinds' => exact (hboth h h' hkinds' (by decide)).elim
    | lists _ _ hkinds' => exact (hboth h h' hkinds' (by decide)).elim
    | header _ _ hkinds' => exact (hboth h h' hkinds' (by decide)).elim
    | one _ _ hkinds' => exact (hboth h h' hkinds' (hone (by decide))).elim
  | scores hslot hrank hkinds =>
    have h : 30380 ∈ key.kinds := by
      rw [hkinds]
      decide
    have h' : 30381 ∈ key.kinds := by
      rw [hkinds]
      decide
    cases hrow.reading with
    | everything _ hrank' _ => exact Or.inl (by omega)
    | scores hslot' hrank' _ => exact Or.inr ⟨hrank'.trans hrank.symm, hslot'.trans hslot.symm⟩
    | lists _ _ hkinds' => exact (hboth h h' hkinds' (by decide)).elim
    | header _ _ hkinds' => exact (hboth h h' hkinds' (by decide)).elim
    | one _ _ hkinds' => exact (hboth h h' hkinds' (hone (by decide))).elim
  | lists hslot hrank hkinds =>
    have h : 30390 ∈ key.kinds := by
      rw [hkinds]
      decide
    have h' : 30391 ∈ key.kinds := by
      rw [hkinds]
      decide
    cases hrow.reading with
    | everything _ hrank' _ => exact Or.inl (by omega)
    | scores _ _ hkinds' => exact (hboth h h' hkinds' (by decide)).elim
    | lists hslot' hrank' _ => exact Or.inr ⟨hrank'.trans hrank.symm, hslot'.trans hslot.symm⟩
    | header _ _ hkinds' => exact (hboth h h' hkinds' (by decide)).elim
    | one _ _ hkinds' => exact (hboth h h' hkinds' (hone (by decide))).elim
  | header hslot hrank hkinds =>
    have h : 39998 ∈ key.kinds := by
      rw [hkinds]
      decide
    have h' : 39999 ∈ key.kinds := by
      rw [hkinds]
      decide
    cases hrow.reading with
    | everything _ hrank' _ => exact Or.inl (by omega)
    | scores _ _ hkinds' => exact (hboth h h' hkinds' (by decide)).elim
    | lists _ _ hkinds' => exact (hboth h h' hkinds' (by decide)).elim
    | header hslot' hrank' _ => exact Or.inr ⟨hrank'.trans hrank.symm, hslot'.trans hslot.symm⟩
    | one _ _ hkinds' => exact (hboth h h' hkinds' (hone (by decide))).elim
  | one hslot hrank hkinds =>
    cases hrow.reading with
    | everything _ hrank' _ => exact Or.inl (by omega)
    | scores _ hrank' _ => exact Or.inl (by omega)
    | lists _ hrank' _ => exact Or.inl (by omega)
    | header _ hrank' _ => exact Or.inl (by omega)
    | one hslot' hrank' hkinds' =>
      refine Or.inr ⟨hrank'.trans hrank.symm, slotValue_inj hslot' hslot ?_⟩
      have hmem : slotValue key.slot ∈ row.kinds := hsub (by rw [hkinds]; exact List.mem_singleton.2 rfl)
      rw [hkinds'] at hmem
      exact (List.mem_singleton.1 hmem).symm

/-! ## Parts -/

/-- What part of its kinds a key stands for. -/
inductive Part (k : Key) : Prop
  | all (hscope : k.scope = .all) (hsegs : k.segs = []) (hnorm : k.norm = k.slot)
  | metric {v : String} (hscope : k.scope = .metric v) (hsegs : k.segs = [v]) (hv : v ≠ "")
      (hnorm : k.norm = k.slot ++ ":" ++ v) (hkinds : ∀ kind ∈ k.kinds, isScoreKind kind = true)
  | d {v : String} (hscope : k.scope = .d v) (hsegs : k.segs = [v]) (hv : v ≠ "")
      (hnorm : k.norm = k.slot ++ ":" ++ v) (hkinds : ∀ kind ∈ k.kinds, kind ∈ conceptKinds)
  | unchecked (hscope : k.scope = .unchecked k.norm) (hsegs : ∃ s ∈ k.segs, s ≠ "")

theorem Shape.part {k : Key} (h : Shape k) : Part k := by
  cases h with
  | header => exact .all rfl rfl rfl
  | element => exact .all rfl rfl rfl
  | concept hslot hd =>
    refine .d rfl rfl hd rfl fun kind hkind => ?_
    rw [List.mem_singleton.1 hkind]
    rcases hslot with rfl | rfl
    · decide
    · decide
  | @plain slot segs hkind hslot hlast =>
    cases segs with
    | nil => exact .all rfl rfl (join_singleton slot)
    | cons seg segs =>
      by_cases hmetric : slot ≠ "*" ∧ (slotReading slot (seg :: segs)).1.all isScoreKind ∧ segs = [] ∧
          seg ≠ "" ∧ seg ∉ systemWords
      · have hscope : scopeOf (join (slot :: seg :: segs)) slot (slotReading slot (seg :: segs)).1
            (seg :: segs) = .metric seg := if_pos hmetric
        obtain ⟨-, hkinds, rfl, hseg, -⟩ := hmetric
        refine .metric hscope rfl hseg ?_ (List.all_eq_true.1 hkinds)
        rw [join_cons_cons, join_singleton]
      · refine .unchecked (if_neg hmetric) ⟨(seg :: segs).getLast (List.cons_ne_nil _ _), ?_, hlast _⟩
        exact List.getLast_mem _

section
variable {k : Key} {probe : Probe} {kind : ℕ} {v : String}

theorem matchesProbe_all (h : k.scope = .all) : matchesProbe k probe = true ↔ probe.kind ∈ k.kinds := by
  simp [matchesProbe, h]

theorem matchesProbe_metric (h : k.scope = .metric v) :
    matchesProbe k probe = true ↔ probe.kind ∈ k.kinds ∧ probe.scope = .metric v := by
  simp [matchesProbe, h]

theorem matchesProbe_d (h : k.scope = .d v) :
    matchesProbe k probe = true ↔ probe.kind ∈ k.kinds ∧ probe.scope = .d v := by
  simp [matchesProbe, h]

theorem matchesProbe_unchecked (h : k.scope = .unchecked v) :
    matchesProbe k probe = true ↔ probe.kind ∈ k.kinds ∧ probe.scope = .unchecked k.norm := by
  simp [matchesProbe, h]

/-- A scope that no other part shares. -/
def ownScope (k : Key) : Scope :=
  match k.scope with
  | .all => .other
  | .metric v => .metric v
  | .d v => .d v
  | _ => .unchecked k.norm

/-- A key matches its own part of each of its kinds. -/
theorem matchesProbe_own (hkind : kind ∈ k.kinds) : matchesProbe k ⟨kind, ownScope k⟩ = true := by
  unfold matchesProbe ownScope
  cases k.scope <;> simp [hkind]

end

/-! ## Covering -/

section
variable {row key : Key}

theorem kinds_of_covers (h : covers row key = true) : key.kinds ⊆ row.kinds := by
  simp only [covers, Bool.and_eq_true, decide_eq_true_eq] at h
  exact h.1

/-- What is covered is matched. -/
theorem matches_of_covers (hrow : Part row) (hsame : row.norm = key.norm → row = key)
    (h : covers row key = true) {probe : Probe} (hmatch : matchesProbe key probe = true) :
    matchesProbe row probe = true := by
  have hkind : probe.kind ∈ row.kinds := by
    simp only [matchesProbe, Bool.and_eq_true, decide_eq_true_eq] at hmatch
    exact kinds_of_covers h hmatch.1
  simp only [covers, Bool.and_eq_true] at h
  obtain ⟨-, hscope⟩ := h
  cases hrow with
  | all hall => exact (matchesProbe_all hall).2 hkind
  | metric hmetric =>
    rw [hmetric] at hscope
    exact (matchesProbe_metric hmetric).2 ⟨hkind, ((matchesProbe_metric (of_decide_eq_true hscope)).1 hmatch).2⟩
  | d hd =>
    rw [hd] at hscope
    exact (matchesProbe_d hd).2 ⟨hkind, ((matchesProbe_d (of_decide_eq_true hscope)).1 hmatch).2⟩
  | unchecked hunchecked =>
    rw [hunchecked] at hscope
    rw [hsame (of_decide_eq_true hscope)]
    exact hmatch

/-- What is matched is covered: the key's own part of each of its kinds shows it. -/
theorem covers_of_matches (hrow : Part row) (hkey : Part key) (hne : ∃ kind, kind ∈ key.kinds)
    (h : ∀ probe, matchesProbe key probe = true → matchesProbe row probe = true) : covers row key = true := by
  have hown : ∀ kind ∈ key.kinds, matchesProbe row ⟨kind, ownScope key⟩ = true :=
    fun kind hkind => h _ (matchesProbe_own hkind)
  have hkinds : key.kinds ⊆ row.kinds := by
    intro kind hkind
    have hmatch := hown kind hkind
    simp only [matchesProbe, Bool.and_eq_true, decide_eq_true_eq] at hmatch
    exact hmatch.1
  obtain ⟨kind, hkind⟩ := hne
  have hmatch := hown kind hkind
  simp only [covers, hkinds, decide_true, Bool.true_and]
  cases hrow with
  | all hall => rw [hall]
  | metric hmetric =>
    have hscope := ((matchesProbe_metric hmetric).1 hmatch).2
    rw [hmetric]
    cases hkey with
    | all hall => simp [ownScope, hall] at hscope
    | metric hmetric' => simpa [ownScope, hmetric'] using hscope
    | d hd => simp [ownScope, hd] at hscope
    | unchecked hunchecked => simp [ownScope, hunchecked] at hscope
  | d hd =>
    have hscope := ((matchesProbe_d hd).1 hmatch).2
    rw [hd]
    cases hkey with
    | all hall => simp [ownScope, hall] at hscope
    | metric hmetric => simp [ownScope, hmetric] at hscope
    | d hd' => simpa [ownScope, hd'] using hscope
    | unchecked hunchecked => simp [ownScope, hunchecked] at hscope
  | unchecked hunchecked =>
    have hscope := ((matchesProbe_unchecked hunchecked).1 hmatch).2
    rw [hunchecked]
    cases hkey with
    | all hall => simp [ownScope, hall] at hscope
    | metric hmetric => simp [ownScope, hmetric] at hscope
    | d hd => simp [ownScope, hd] at hscope
    | unchecked hunchecked' => simpa [ownScope, hunchecked', eq_comm] using hscope

/-! ## The more specific key -/

/-- Segments with a value come before none. -/
theorem compareSegs_nil_neg : ∀ {segs : List String}, (∃ s ∈ segs, s ≠ "") → compareSegs segs [] < 0 := by
  intro segs
  induction segs with
  | nil => simp
  | cons seg segs ih =>
    rintro ⟨s, hs, hne⟩
    rw [compareSegs]
    split_ifs with hseg
    · decide
    · refine ih ⟨s, ?_, hne⟩
      rcases List.mem_cons.1 hs with rfl | hs
      · exact absurd hne hseg
      · exact hs

/-- A key that is not all of its kinds names a value. -/
theorem Part.named (h : Part key) (hall : key.norm ≠ key.slot) : ∃ s ∈ key.segs, s ≠ "" := by
  cases h with
  | all _ _ hnorm => exact absurd hnorm hall
  | metric _ hsegs hv => exact ⟨_, by rw [hsegs]; exact List.mem_singleton.2 rfl, hv⟩
  | d _ hsegs hv => exact ⟨_, by rw [hsegs]; exact List.mem_singleton.2 rfl, hv⟩
  | unchecked _ hsegs => exact hsegs

/-- **The key that is covered is the more specific.** -/
theorem more_specific_of_covers (hrow : Shape row) (hkey : Shape key) (h : covers row key = true)
    (hnorm : row.norm ≠ key.norm) : compareKeys key row < 0 := by
  rcases rank_lt_of_subset hrow hkey (kinds_of_covers h) with hrank | ⟨hrank, hslot⟩
  · rw [compareKeys, if_pos (Nat.ne_of_gt hrank)]
    omega
  · rw [compareKeys, if_neg (not_not.2 hrank.symm), if_neg (not_not.2 hslot.symm)]
    simp only [covers, Bool.and_eq_true] at h
    obtain ⟨-, hscope⟩ := h
    cases hrow.part with
    | all _ hsegs hrownorm =>
      rw [hsegs]
      refine compareSegs_nil_neg (hkey.part.named fun hkeynorm => hnorm ?_)
      rw [hrownorm, hkeynorm, hslot]
    | metric hmetric _ _ hrownorm =>
      -- a key of one slot and one metric is the same key
      rw [hmetric] at hscope
      have hscope' := of_decide_eq_true hscope
      cases hkey.part with
      | metric hmetric' _ _ hkeynorm =>
        rw [hmetric'] at hscope'
        cases hscope'
        exact absurd (by rw [hrownorm, hkeynorm, hslot]) hnorm
      | all hall => rw [hall] at hscope'; cases hscope'
      | d hd => rw [hd] at hscope'; cases hscope'
      | unchecked hunchecked => rw [hunchecked] at hscope'; cases hscope'
    | d hd _ _ hrownorm =>
      rw [hd] at hscope
      have hscope' := of_decide_eq_true hscope
      cases hkey.part with
      | d hd' _ _ hkeynorm =>
        rw [hd'] at hscope'
        cases hscope'
        exact absurd (by rw [hrownorm, hkeynorm, hslot]) hnorm
      | all hall => rw [hall] at hscope'; cases hscope'
      | metric hmetric => rw [hmetric] at hscope'; cases hscope'
      | unchecked hunchecked => rw [hunchecked] at hscope'; cases hscope'
    | unchecked hunchecked =>
      rw [hunchecked] at hscope
      exact absurd (of_decide_eq_true hscope) hnorm

end

/-- **Covering is inclusion, and inclusion is specificity.** -/
theorem covers_iff_includes {text text' : String} {row key : Key} (hrow : parseKey text = some row)
    (hkey : parseKey text' = some key) :
    (covers row key = true ↔
      ∀ probe, matchesProbe key probe = true → matchesProbe row probe = true) ∧
    (covers row key = true → row.norm ≠ key.norm → compareKeys key row < 0) := by
  have hr := shape_of_parse hrow
  have hk := shape_of_parse hkey
  refine ⟨⟨fun h probe => matches_of_covers hr.part (eq_of_norm_eq hrow hkey) h, ?_⟩, ?_⟩
  · exact covers_of_matches hr.part hk.part hk.kinds_ne_nil
  · exact more_specific_of_covers hr hk

/-- `*` covers the bare `39998`, which is the more specific. -/
theorem star_covers_concepts : compareKeys ⟨"39998", "39998", conceptKinds, [], 2, .all⟩ starKey < 0 ∧
    (∀ probe, matchesProbe ⟨"39998", "39998", conceptKinds, [], 2, .all⟩ probe = true →
      matchesProbe starKey probe = true) := by
  have hstar : parseKey "*" = some starKey := by decide
  have hheader : parseKey "39998" = some ⟨"39998", "39998", conceptKinds, [], 2, .all⟩ := by decide
  have hcovers : covers starKey ⟨"39998", "39998", conceptKinds, [], 2, .all⟩ = true := by decide
  obtain ⟨hincl, hmore⟩ := covers_iff_includes hstar hheader
  exact ⟨hmore hcovers (by decide), hincl.1 hcovers⟩

end SelfMap

end BrainstormServer
