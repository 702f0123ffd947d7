/-
  The keys of a Treasure Map (`app/services/self_map_build.py`).

  A key names a part of what an Assistant may publish: a kind slot, and after it, colon by
  colon, what part of the kinds.  A probe is one insight.  Of the keys that match a probe,
  the most specific one wins it.

  * `parseKey`: a key as the engine reads it; `parseKey_of_matches_metric` says which keys
    match a Score of kind 30382, and `parseKey_norm` that the one spelling of a key reads as
    the key;
  * `mostSpecific`: the choice among candidates, and `winnerOf`, the choice for a probe.
-/
import BrainstormServer.Python
import Mathlib.Data.List.DropRight

namespace BrainstormServer

namespace SelfMap

/-! ## Kinds -/

/-- `TA_METRIC_TAGS`. -/
def taMetricTags : List String := ["rank", "followers", "reporters", "muters", "hops"]

/-- `PUBLISHED_SCORE_METRICS`. -/
def publishedScoreMetrics : List String := taMetricTags

/-- `SCORE_KIND`. -/
def scoreKind : ℕ := 30382

/-- `SCORE_KINDS`. -/
def scoreKinds : List ℕ := List.range' 30380 10

/-- `LIST_KINDS`. -/
def listKinds : List ℕ := List.range' 30390 10

/-- `CONCEPT_KINDS`. -/
def conceptKinds : List ℕ := [39998, 39999]

/-- `SYSTEM_WORDS`. -/
def systemWords : List String := ["tag", "pin", "dlist", "contexts"]

/-- `NAMELESS_KEYS`. -/
def namelessKeys : List String := ["39998:", "39999:", "39999:dlist-header", "39999:duty-menu"]

/-- `is_score_kind`. -/
def isScoreKind (kind : ℕ) : Bool := 30380 ≤ kind ∧ kind ≤ 30389

/-- `is_list_kind`. -/
def isListKind (kind : ℕ) : Bool := 30390 ≤ kind ∧ kind ≤ 30399

/-- `is_concept_kind`. -/
def isConceptKind (kind : ℕ) : Bool := kind ∈ conceptKinds

/-! ## Keys and probes -/

/-- `Scope`. -/
inductive Scope
  | all
  | metric (value : String)
  | d (value : String)
  | unchecked (value : String)
  | other
  deriving DecidableEq

/-- `Key`. -/
structure Key where
  norm : String
  slot : String
  kinds : List ℕ
  segs : List String
  rank : ℕ
  scope : Scope
  deriving DecidableEq

/-- `Probe`. -/
structure Probe where
  kind : ℕ
  scope : Scope
  deriving DecidableEq

/-- `s.split(":")`. -/
def split (s : String) : List String := (s.toList.splitOn ':').map String.ofList

/-- `":".join(segs)`. -/
def join (segs : List String) : String := String.ofList ([':'].intercalate (segs.map String.toList))

/-- `key[:key.find(":")]`, or all of it. -/
def slotOf (key : String) : String := String.ofList (key.toList.takeWhile (· ≠ ':'))

/-- `key[key.find(":") + 1:]`, or nothing. -/
def restOf (key : String) : String := String.ofList ((key.toList.dropWhile (· ≠ ':')).drop 1)

/-- The segments of a key, trailing empty ones dropped. -/
def segmentsOf (key : String) : List String :=
  (if restOf key = "" then [] else split (restOf key)).rdropWhile (· = "")

/-- `normalize_key`. -/
def normalizeKey (key : String) : String :=
  if slotOf key = "39998" ∨ slotOf key = "39999" then
    if slotOf key = "39998" ∧ restOf key = "dlist-header" then "39998" else key
  else join (slotOf key :: segmentsOf key)

/-- An ASCII digit. -/
def isAsciiDigit (c : Char) : Bool := 48 ≤ c.toNat ∧ c.toNat ≤ 57

/-- `KIND_SLOT.fullmatch`. -/
def isKindSlot (slot : String) : Bool :=
  (slot.toList.length = 5 ∧ slot.toList.all isAsciiDigit) ∨ slot = "3038x" ∨ slot = "3039x" ∨ slot = "*"

/-- `int(slot)`, of ASCII digits. -/
def slotValue (slot : String) : ℕ := slot.toList.foldl (fun n c => 10 * n + (c.toNat - 48)) 0

/-- `_concept_reading`. -/
def conceptReading (slot : String) : List ℕ × ℕ :=
  if slot = "39998" then (conceptKinds, 2) else ([39999], 3)

/-- The kinds and the rank of a slot that is not a Concept's. -/
def slotReading (slot : String) (segs : List String) : List ℕ × ℕ :=
  if slot = "*" then (scoreKinds ++ listKinds ++ (if segs = [] then conceptKinds else []), 0)
  else if slot = "3038x" then (scoreKinds, 1)
  else if slot = "3039x" then (listKinds, 1)
  else ([slotValue slot], 3)

/-- The scope of a key that is not a Concept's. -/
def scopeOf (norm slot : String) (kinds : List ℕ) : List String → Scope
  | [] => .all
  | seg :: segs =>
    if slot ≠ "*" ∧ kinds.all isScoreKind ∧ segs = [] ∧ seg ≠ "" ∧ seg ∉ systemWords then .metric seg
    else .unchecked norm

/-- `parse_key`, of a string. -/
def parseKey (key : String) : Option Key :=
  let slot := slotOf key
  let norm := normalizeKey key
  if ¬ isKindSlot slot then none
  else if norm ∈ namelessKeys then none
  else if slot = "39998" ∨ slot = "39999" then
    if norm = slot then
      some ⟨norm, slot, (conceptReading slot).1, [], (conceptReading slot).2, .all⟩
    else
      let d := String.ofList (norm.toList.drop (slot.toList.length + 1))
      some ⟨norm, slot, [slotValue slot], [d], 3, .d d⟩
  else
    let segs := (split norm).tail
    let reading := slotReading slot segs
    some ⟨norm, slot, reading.1, segs, reading.2, scopeOf norm slot reading.1 segs⟩

/-- One segment of `compare_keys`; `0` goes on with the next. -/
def compareSegs : List String → List String → ℤ
  | [], [] => 0
  | va :: as, [] => if va ≠ "" then -1 else compareSegs as []
  | [], vb :: bs => if vb ≠ "" then 1 else compareSegs [] bs
  | va :: as, vb :: bs =>
    if va = vb then compareSegs as bs
    else if va ≠ "" ∧ vb = "" then -1
    else if vb ≠ "" ∧ va = "" then 1
    else if va < vb then -1 else 1

/-- `compare_keys`: negative if `a` is the more specific. -/
def compareKeys (a b : Key) : ℤ :=
  if a.rank ≠ b.rank then (b.rank : ℤ) - a.rank
  else if a.slot ≠ b.slot then if a.slot < b.slot then -1 else 1
  else compareSegs a.segs b.segs

/-- The order of `most_specific_first`. -/
def Before (a b : Key) : Prop := compareKeys a b ≤ 0

instance : DecidableRel Before := fun a b => inferInstanceAs (Decidable (compareKeys a b ≤ 0))

/-- `matches`. -/
def matchesProbe (key : Key) (probe : Probe) : Bool :=
  decide (probe.kind ∈ key.kinds) &&
    match key.scope with
    | .all => true
    | .metric v => probe.scope = .metric v
    | .d v => probe.scope = .d v
    | _ => probe.scope = .unchecked key.norm

/-- `covers`. -/
def covers (row key : Key) : Bool :=
  decide (key.kinds ⊆ row.kinds) &&
    match row.scope with
    | .all => true
    | .unchecked _ => row.norm = key.norm
    | _ => key.scope = row.scope

/-- `_meet_of`. -/
def meetOf (key : Key) (kind : ℕ) : Option Key := parseKey (join (toString kind :: key.segs))

section
variable {T : Type} (keyOf : T → Key)

/-- A candidate takes the place of the best so far if it is more specific. -/
def better (candidate : T) : Option T → T
  | none => candidate
  | some best => if compareKeys (keyOf candidate) (keyOf best) < 0 then candidate else best

/-- The most specific candidate with a property; of several, the first. -/
def mostSpecific (p : T → Bool) (candidates : List T) : Option T :=
  candidates.foldl (fun best candidate =>
    if p candidate then some (better keyOf candidate best) else best) none

/-- `winner_of`, with its place among the candidates, which tells equal ones apart. -/
def winnerOf (candidates : List T) (probe : Probe) : Option (T × ℕ) :=
  mostSpecific (fun c => keyOf c.1) (fun c => matchesProbe (keyOf c.1) probe) candidates.zipIdx

end

/-! ## Probes -/

/-- The value of a metric key. -/
def Scope.metric? : Scope → Option String
  | .metric v => some v
  | _ => none

/-- The value of a Concept key. -/
def Scope.d? : Scope → Option String
  | .d v => some v
  | _ => none

/-- The region of an unchecked key. -/
def Scope.unchecked? : Scope → Option String
  | .unchecked v => some v
  | _ => none

/-- The values that keys over a kind name. -/
def valuesFor (value? : Scope → Option String) (keys : List Key) (kind : ℕ) : List String :=
  (keys.filter fun k => kind ∈ k.kinds).filterMap fun k => value? k.scope

/-- The probes for one Score kind. -/
def scoreProbes (keys : List Key) (kind : ℕ) : List Probe :=
  ((if kind = scoreKind then publishedScoreMetrics else []) ++ valuesFor Scope.metric? keys kind).map
    (fun metric => ⟨kind, .metric metric⟩) ++ [⟨kind, .other⟩]

/-- The probes for one Concept kind. -/
def conceptProbes (keys : List Key) (kind : ℕ) : List Probe :=
  (valuesFor Scope.d? keys kind).map (fun d => ⟨kind, .d d⟩) ++ [⟨kind, .other⟩]

/-- The probes for one key: its own region if it is unchecked, and the kinds it names
    that are none of the above. -/
def keyProbes (k : Key) : List Probe :=
  (if k.scope.unchecked?.isSome then k.kinds.map fun kind => ⟨kind, .unchecked k.norm⟩ else []) ++
    (k.kinds.filter fun kind => !(isScoreKind kind || isListKind kind || isConceptKind kind)).map
      fun kind => ⟨kind, .other⟩

/-- `build_probes`; the keys of a dict come once, in the order they were first set. -/
def buildProbes (keys : List Key) : List Probe :=
  (scoreKinds.flatMap (scoreProbes keys) ++ listKinds.map (Probe.mk · .other) ++
    conceptKinds.flatMap (conceptProbes keys) ++ keys.flatMap keyProbes).eraseDups

/-! ## Splitting and joining -/

theorem split_join {segs : List String} (hcolon : ∀ s ∈ segs, ':' ∉ s.toList) (hne : segs ≠ []) :
    split (join segs) = segs := by
  have hparts : ∀ l ∈ segs.map String.toList, ':' ∉ l := by
    intro l hl
    obtain ⟨s, hs, rfl⟩ := List.mem_map.1 hl
    exact hcolon s hs
  unfold split join
  rw [String.toList_ofList, List.splitOn_intercalate ':' hparts (by simpa using hne), List.map_map]
  simp [Function.comp_def]

theorem colon_not_mem_slotOf (key : String) : ':' ∉ (slotOf key).toList := by
  intro h
  rw [slotOf, String.toList_ofList] at h
  have := List.mem_takeWhile_imp h
  simp at this

theorem colon_not_mem_segmentsOf {key s : String} (h : s ∈ segmentsOf key) : ':' ∉ s.toList := by
  have hmem := (List.rdropWhile_prefix _ _).subset h
  split_ifs at hmem
  · cases hmem
  · obtain ⟨piece, hpiece, rfl⟩ := List.mem_map.1 hmem
    rw [String.toList_ofList]
    exact not_mem_of_mem_splitOn hpiece

/-- The segments of a key can be read off its one spelling. -/
theorem split_normalizeKey {key : String} (hslot : ¬ (slotOf key = "39998" ∨ slotOf key = "39999")) :
    split (normalizeKey key) = slotOf key :: segmentsOf key := by
  rw [normalizeKey, if_neg hslot]
  refine split_join (fun s hs => ?_) (List.cons_ne_nil _ _)
  rcases List.mem_cons.1 hs with rfl | hs
  · exact colon_not_mem_slotOf key
  · exact colon_not_mem_segmentsOf hs

/-- What a key that is not a Concept's reads as. -/
theorem parseKey_of_not_concept {key : String} {k : Key} (h : parseKey key = some k)
    (hslot : ¬ (slotOf key = "39998" ∨ slotOf key = "39999")) :
    isKindSlot (slotOf key) = true ∧
    k = ⟨join (slotOf key :: segmentsOf key), slotOf key,
      (slotReading (slotOf key) (segmentsOf key)).1, segmentsOf key,
      (slotReading (slotOf key) (segmentsOf key)).2,
      scopeOf (join (slotOf key :: segmentsOf key)) (slotOf key)
        (slotReading (slotOf key) (segmentsOf key)).1 (segmentsOf key)⟩ := by
  have hnorm : normalizeKey key = join (slotOf key :: segmentsOf key) := by
    rw [normalizeKey, if_neg hslot]
  have hsplit := split_normalizeKey hslot
  simp only [parseKey] at h
  by_cases hkind : isKindSlot (slotOf key) = true
  · refine ⟨hkind, ?_⟩
    rw [if_neg (not_not.2 hkind)] at h
    split_ifs at h
    rw [hsplit, List.tail_cons, hnorm] at h
    exact (Option.some.inj h).symm
  · rw [if_pos hkind] at h
    cases h

theorem join_cons_cons (s t : String) (segs : List String) :
    join (s :: t :: segs) = s ++ ":" ++ join (t :: segs) := by
  refine String.toList_injective ?_
  simp [join, List.intercalate_cons_cons]

theorem join_singleton (s : String) : join [s] = s := by
  simp [join]

/-- The slot and the rest of what is joined. -/
theorem slotOf_restOf_join {slot : String} (hslot : ':' ∉ slot.toList) (segs : List String) :
    slotOf (join (slot :: segs)) = slot ∧ restOf (join (slot :: segs)) = join segs := by
  have hall : ∀ c ∈ slot.toList, decide (c ≠ ':') = true := by
    intro c hc
    rw [decide_eq_true_eq]
    rintro rfl
    exact hslot hc
  cases segs with
  | nil =>
    rw [join_singleton]
    unfold slotOf restOf
    rw [List.takeWhile_eq_self_iff.2 hall, List.dropWhile_eq_nil_iff.2 hall]
    simp [join]
  | cons t segs =>
    have hlist : (join (slot :: t :: segs)).toList = slot.toList ++ ':' :: (join (t :: segs)).toList := by
      rw [join_cons_cons]
      simp
    unfold slotOf restOf
    rw [hlist, List.takeWhile_append_of_pos hall, List.dropWhile_append_of_pos hall]
    simp

theorem segmentsOf_trimmed (key : String) (hne : segmentsOf key ≠ []) : (segmentsOf key).getLast hne ≠ "" := by
  intro hlast
  have h := List.rdropWhile_last_not (fun s : String => decide (s = "")) _ hne
  rw [decide_eq_true_eq] at h
  exact h hlast

/-- Segments without a trailing empty one are read back as they are. -/
theorem segmentsOf_join {slot : String} (hslot : ':' ∉ slot.toList) {segs : List String}
    (hcolon : ∀ s ∈ segs, ':' ∉ s.toList) (hlast : ∀ hne : segs ≠ [], segs.getLast hne ≠ "") :
    segmentsOf (join (slot :: segs)) = segs := by
  unfold segmentsOf
  rw [(slotOf_restOf_join hslot segs).2]
  have hself : segs.rdropWhile (· = "") = segs := by
    rw [List.rdropWhile_eq_self_iff]
    intro hne
    simpa using hlast hne
  by_cases hsegs : segs = []
  · simp [hsegs, join]
  · have hsplit := split_join hcolon hsegs
    have hne : join segs ≠ "" := by
      intro hempty
      rw [hempty] at hsplit
      -- the only segment would be empty
      have hone : segs = [""] := by rw [← hsplit]; rfl
      exact hlast hsegs (by simp [hone])
    rw [if_neg hne, hsplit, hself]

/-- **The one spelling of a key reads as the key.** -/
theorem parseKey_norm {key : String} {k : Key} (h : parseKey key = some k) : parseKey k.norm = some k := by
  have hsame : ∀ text, slotOf text = slotOf key → normalizeKey text = normalizeKey key →
      parseKey text = parseKey key := by
    intro text hslot hnorm
    simp only [parseKey, hslot, hnorm]
  have hk : k.norm = normalizeKey key := by
    simp only [parseKey] at h
    split_ifs at h
    all_goals
      cases h
      rfl
  rw [hk, ← h]
  by_cases hslot : slotOf key = "39998" ∨ slotOf key = "39999"
  · by_cases hheader : slotOf key = "39998" ∧ restOf key = "dlist-header"
    · have hnorm : normalizeKey key = "39998" := by rw [normalizeKey, if_pos hslot, if_pos hheader]
      rw [hnorm]
      refine hsame _ (by rw [hheader.1]; rfl) ?_
      rw [hnorm]
      rfl
    · have hnorm : normalizeKey key = key := by rw [normalizeKey, if_pos hslot, if_neg hheader]
      rw [hnorm]
  · have hnorm : normalizeKey key = join (slotOf key :: segmentsOf key) := by
      rw [normalizeKey, if_neg hslot]
    have hslot' := (slotOf_restOf_join (colon_not_mem_slotOf key) (segmentsOf key)).1
    rw [hnorm]
    refine hsame _ hslot' ?_
    rw [hnorm, normalizeKey, hslot', if_neg hslot, segmentsOf_join (colon_not_mem_slotOf key)
      (fun s hs => colon_not_mem_segmentsOf hs) (segmentsOf_trimmed key)]

/-- Keys with one spelling are the same. -/
theorem eq_of_norm_eq {key key' : String} {k k' : Key} (h : parseKey key = some k) (h' : parseKey key' = some k')
    (hnorm : k.norm = k'.norm) : k = k' := by
  have hk := parseKey_norm h
  rw [hnorm, parseKey_norm h'] at hk
  exact (Option.some.inj hk).symm

/-! ## Keys that match a Score -/

/-- The value of five digits. -/
theorem slotValue_eq_scoreKind {slot : String} (hlength : slot.toList.length = 5)
    (hdigits : slot.toList.all isAsciiDigit = true) (h : slotValue slot = scoreKind) : slot = "30382" := by
  unfold slotValue at h
  refine String.toList_injective ?_
  generalize slot.toList = l at hlength hdigits h
  rcases l with _ | ⟨a, _ | ⟨b, _ | ⟨c, _ | ⟨d, _ | ⟨e, _ | ⟨f, l⟩⟩⟩⟩⟩⟩
  · cases hlength
  · cases hlength
  · cases hlength
  · cases hlength
  · cases hlength
  · simp only [isAsciiDigit, List.all_cons, List.all_nil, Bool.and_true, Bool.and_eq_true,
      decide_eq_true_eq] at hdigits
    simp only [List.foldl_cons, List.foldl_nil, scoreKind] at h
    have ha : a = '3' := Char.toNat_inj.1 (show a.toNat = 51 by omega)
    have hb : b = '0' := Char.toNat_inj.1 (show b.toNat = 48 by omega)
    have hc : c = '3' := Char.toNat_inj.1 (show c.toNat = 51 by omega)
    have hd : d = '8' := Char.toNat_inj.1 (show d.toNat = 56 by omega)
    have he : e = '2' := Char.toNat_inj.1 (show e.toNat = 50 by omega)
    rw [ha, hb, hc, hd, he]
    rfl
  · simp at hlength

/-- `30382:<metric>`. -/
def metricKey (m : String) : Key := ⟨join ["30382", m], "30382", [scoreKind], [m], 3, .metric m⟩

/-- `3038x:<metric>`. -/
def familyMetricKey (m : String) : Key := ⟨join ["3038x", m], "3038x", scoreKinds, [m], 1, .metric m⟩

/-- `30382`. -/
def scoreKey : Key := ⟨join ["30382"], "30382", [scoreKind], [], 3, .all⟩

/-- `3038x`. -/
def familyKey : Key := ⟨join ["3038x"], "3038x", scoreKinds, [], 1, .all⟩

/-- `*`. -/
def starKey : Key := ⟨join ["*"], "*", scoreKinds ++ listKinds ++ conceptKinds, [], 0, .all⟩

/-- What a key that has the kind 30382 among its kinds has as its slot. -/
theorem slot_of_score {slot : String} {segs : List String} (hkind : isKindSlot slot = true)
    (h : scoreKind ∈ (slotReading slot segs).1) : slot = "*" ∨ slot = "3038x" ∨ slot = "30382" := by
  unfold slotReading at h
  by_cases hstar : slot = "*"
  · exact Or.inl hstar
  rw [if_neg hstar] at h
  by_cases hfamily : slot = "3038x"
  · exact Or.inr (Or.inl hfamily)
  rw [if_neg hfamily] at h
  by_cases hlist : slot = "3039x"
  · rw [if_pos hlist] at h
    exact absurd h (by decide)
  rw [if_neg hlist] at h
  simp only [isKindSlot, hstar, hfamily, hlist, or_false, decide_eq_true_eq] at hkind
  exact Or.inr (Or.inr (slotValue_eq_scoreKind hkind.1 hkind.2 (List.mem_singleton.1 h).symm))

/-- A Concept key has no Scores. -/
theorem not_score_of_concept {key : String} {k : Key} (h : parseKey key = some k)
    (hslot : slotOf key = "39998" ∨ slotOf key = "39999") : scoreKind ∉ k.kinds := by
  have hreading : ∀ slot, slot = "39998" ∨ slot = "39999" → scoreKind ∉ (conceptReading slot).1 ∧
      scoreKind ∉ [slotValue slot] := by
    rintro slot (rfl | rfl)
    · decide
    · decide
  simp only [parseKey] at h
  rw [if_pos hslot] at h
  split_ifs at h
  · cases h
    exact (hreading _ hslot).1
  · cases h
    exact (hreading _ hslot).2

/-- **The keys that match a Score** of kind 30382. -/
theorem parseKey_of_matches_metric {key m : String} {k : Key} (h : parseKey key = some k)
    (hmatch : matchesProbe k ⟨scoreKind, .metric m⟩ = true) :
    k = metricKey m ∨ k = familyMetricKey m ∨ k = scoreKey ∨ k = familyKey ∨ k = starKey := by
  simp only [matchesProbe, Bool.and_eq_true, decide_eq_true_eq] at hmatch
  obtain ⟨hmem, hscope⟩ := hmatch
  by_cases hslot : slotOf key = "39998" ∨ slotOf key = "39999"
  · exact absurd hmem (not_score_of_concept h hslot)
  · obtain ⟨hkind, rfl⟩ := parseKey_of_not_concept h hslot
    generalize slotOf key = slot at hkind hmem hscope
    cases hsegs : segmentsOf key with
    | nil =>
      rw [hsegs] at hmem
      rcases slot_of_score hkind hmem with rfl | rfl | rfl
      · exact Or.inr (Or.inr (Or.inr (Or.inr rfl)))
      · exact Or.inr (Or.inr (Or.inr (Or.inl rfl)))
      · exact Or.inr (Or.inr (Or.inl rfl))
    | cons seg segs =>
      rw [hsegs] at hmem hscope
      -- the scope is a metric, or the key is unchecked and does not match
      by_cases hmetric : slot ≠ "*" ∧ (slotReading slot (seg :: segs)).1.all isScoreKind ∧ segs = [] ∧
          seg ≠ "" ∧ seg ∉ systemWords
      · rw [scopeOf, if_pos hmetric] at hscope ⊢
        simp only [decide_eq_true_eq] at hscope
        obtain ⟨hstar, -, rfl, -⟩ := hmetric
        cases hscope
        rcases slot_of_score hkind hmem with rfl | rfl | rfl
        · exact absurd rfl hstar
        · exact Or.inr (Or.inl rfl)
        · exact Or.inl rfl
      · rw [scopeOf, if_neg hmetric] at hscope
        simp at hscope

end SelfMap

end BrainstormServer
