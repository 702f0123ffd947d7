/-
  The probes stand for all insights (`build_probes` of `app/services/self_map_build.py`).

  There are infinitely many insights, and a check looks at finitely many of them.  An
  insight that some key names is a probe itself (`mem_buildProbes_of_named`); any other one
  is matched by the keys over all of its kind alone, and so is the probe `other` of the
  kind.  `probes_adequate` puts the two together.
-/
import BrainstormServer.SelfMap.Covers
import BrainstormServer.SelfMap.ShouldSay

namespace BrainstormServer

namespace SelfMap

open Nostr

/-! ## Kinds -/

theorem mem_scoreKinds {kind : ℕ} : kind ∈ scoreKinds ↔ isScoreKind kind = true := by
  simp only [scoreKinds, List.mem_range'_1, isScoreKind, decide_eq_true_eq]
  omega

theorem mem_listKinds {kind : ℕ} : kind ∈ listKinds ↔ isListKind kind = true := by
  simp only [listKinds, List.mem_range'_1, isListKind, decide_eq_true_eq]
  omega

/-! ## The probes -/

section
variable {keys : List Key} {k : Key} {kind : ℕ} {v : String} {probe : Probe}

theorem mem_buildProbes : probe ∈ buildProbes keys ↔
    (∃ kind ∈ scoreKinds, probe ∈ scoreProbes keys kind) ∨ (∃ kind ∈ listKinds, ⟨kind, .other⟩ = probe) ∨
      (∃ kind ∈ conceptKinds, probe ∈ conceptProbes keys kind) ∨ ∃ k ∈ keys, probe ∈ keyProbes k := by
  unfold buildProbes
  rw [List.mem_eraseDups]
  simp only [List.mem_append, List.mem_flatMap, List.mem_map, or_assoc]

theorem mem_valuesFor {value? : Scope → Option String} (hk : k ∈ keys) (hkind : kind ∈ k.kinds)
    (hvalue : value? k.scope = some v) : v ∈ valuesFor value? keys kind :=
  List.mem_filterMap.2 ⟨k, List.mem_filter.2 ⟨hk, decide_eq_true hkind⟩, hvalue⟩

/-- Each kind of a key has a probe that no key names. -/
theorem other_mem_buildProbes (hk : k ∈ keys) (hkind : kind ∈ k.kinds) : ⟨kind, .other⟩ ∈ buildProbes keys := by
  rw [mem_buildProbes]
  by_cases hscore : isScoreKind kind = true
  · exact Or.inl ⟨kind, mem_scoreKinds.2 hscore, by simp [scoreProbes]⟩
  by_cases hlist : isListKind kind = true
  · exact Or.inr (Or.inl ⟨kind, mem_listKinds.2 hlist, rfl⟩)
  by_cases hconcept : isConceptKind kind = true
  · exact Or.inr (Or.inr (Or.inl ⟨kind, of_decide_eq_true hconcept, by simp [conceptProbes]⟩))
  · refine Or.inr (Or.inr (Or.inr ⟨k, hk, ?_⟩))
    unfold keyProbes
    refine List.mem_append_right _ (List.mem_map.2 ⟨kind, List.mem_filter.2 ⟨hkind, ?_⟩, rfl⟩)
    simp [hscore, hlist, hconcept]

/-- **What a key names is a probe.** -/
theorem mem_buildProbes_of_named (hk : k ∈ keys) (hpart : Part k) (hall : k.scope ≠ .all)
    (hmatch : matchesProbe k probe = true) : probe ∈ buildProbes keys := by
  obtain ⟨kind, scope⟩ := probe
  rw [mem_buildProbes]
  cases hpart with
  | all h => exact absurd h hall
  | @metric v hscope _ _ _ hkinds =>
    obtain ⟨hkind, rfl⟩ := (matchesProbe_metric hscope).1 hmatch
    refine Or.inl ⟨kind, mem_scoreKinds.2 (hkinds kind hkind), ?_⟩
    have hv : v ∈ valuesFor Scope.metric? keys kind := mem_valuesFor hk hkind (by rw [hscope]; rfl)
    simp [scoreProbes, hv]
  | @d v hscope _ _ _ hkinds =>
    obtain ⟨hkind, rfl⟩ := (matchesProbe_d hscope).1 hmatch
    refine Or.inr (Or.inr (Or.inl ⟨kind, hkinds kind hkind, ?_⟩))
    have hv : v ∈ valuesFor Scope.d? keys kind := mem_valuesFor hk hkind (by rw [hscope]; rfl)
    simp [conceptProbes, hv]
  | unchecked hscope =>
    obtain ⟨hkind, rfl⟩ := (matchesProbe_unchecked hscope).1 hmatch
    refine Or.inr (Or.inr (Or.inr ⟨k, hk, ?_⟩))
    simp [keyProbes, hscope, Scope.unchecked?, hkind]

theorem published_mem_buildProbes (hv : v ∈ taMetricTags) : ⟨scoreKind, .metric v⟩ ∈ buildProbes keys := by
  rw [mem_buildProbes]
  refine Or.inl ⟨scoreKind, by decide, ?_⟩
  have hpublished : v ∈ publishedScoreMetrics := hv
  simp [scoreProbes, hpublished]

/-- A key matches what it does not name only if it is over all of the kind. -/
theorem matchesProbe_other (hpart : Part k) :
    matchesProbe k ⟨kind, .other⟩ = true ↔ k.scope = .all ∧ kind ∈ k.kinds := by
  cases hpart with
  | all h => simp [matchesProbe_all h, h]
  | metric h => simp [matchesProbe_metric h, h]
  | d h => simp [matchesProbe_d h, h]
  | unchecked h => simp [matchesProbe_unchecked h, h]

/-- The probe `other` of a kind is matched like an insight that is not named. -/
theorem matches_other_iff (hpart : Part k) (hnamed : k.scope ≠ .all → matchesProbe k probe = false) :
    matchesProbe k ⟨probe.kind, .other⟩ = matchesProbe k probe := by
  rw [Bool.eq_iff_iff, matchesProbe_other hpart]
  by_cases hall : k.scope = .all
  · rw [matchesProbe_all hall]
    exact ⟨fun h => h.2, fun h => ⟨hall, h⟩⟩
  · rw [hnamed hall]
    exact ⟨fun h => absurd h.1 hall, fun h => (by cases h)⟩

end

/-! ## The offer -/

/-- A row that is offered is for a published metric, or over all of its kinds. -/
theorem parse_offerRows {settings : Settings} {assistant : Pubkey} {row : String × String}
    (h : row ∈ offerRows settings assistant) :
    ∃ k, parseKey row.1 = some k ∧ (k.scope = .all ∨ ∃ m ∈ taMetricTags, k = metricKey m) := by
  rcases mem_offerRows h with ⟨m, hm, rfl⟩ | hother
  · exact ⟨metricKey m, parseKey_metricKey hm, Or.inr ⟨m, hm, rfl⟩⟩
  · have hall : ∀ key ∈ trustedListKindRow :: dictionaryKindRows,
        ((parseKey key).any fun k => k.scope = .all) = true := by
      decide
    obtain ⟨k, hk, hscope⟩ := (Option.any_eq_true _ _).1 (hall row.1 (List.mem_cons.2 hother))
    exact ⟨k, hk, Or.inl (of_decide_eq_true hscope)⟩

theorem exists_offer (settings : Settings) (assistant : Pubkey) :
    ∃ offer, offerOf (offerRows settings assistant) = some offer ∧
      ∀ row ∈ offer.rows, Part row.key ∧ (row.key.scope = .all ∨ ∃ m ∈ taMetricTags, row.key = metricKey m) := by
  have hparse : ∀ row ∈ offerRows settings assistant, ∃ k, parseKey row.1 = some k :=
    fun row hrow => (parse_offerRows hrow).imp fun _ hk => hk.1
  obtain ⟨offer, hoffer, hrows⟩ := offerOf_of_parse hparse
  refine ⟨offer, hoffer, fun row hrow => ?_⟩
  obtain ⟨key, hmem, hkey⟩ := (hrows row).1 hrow
  obtain ⟨k, hk, hshape⟩ := parse_offerRows hmem
  rw [hkey, Option.some.injEq] at hk
  rw [hk]
  exact ⟨(shape_of_parse (hk ▸ hkey)).part, hshape⟩

/-- **The finitely many probes are enough**: for every insight that a key matches there is a
    probe that the same keys match, and the same rows of the offer. -/
theorem probes_adequate (settings : Settings) (assistant : Pubkey) (keys : List Key)
    (hkeys : ∀ k ∈ keys, ∃ text, parseKey text = some k) (insight : Probe)
    (hmatch : ∃ k ∈ keys, matchesProbe k insight = true) :
    ∃ offer, offerOf (offerRows settings assistant) = some offer ∧
      ∃ probe ∈ buildProbes keys, (∀ k ∈ keys, matchesProbe k probe = matchesProbe k insight) ∧
        ∀ row ∈ offer.rows, matchesProbe row.key probe = matchesProbe row.key insight := by
  obtain ⟨offer, hoffer, hrows⟩ := exists_offer settings assistant
  refine ⟨offer, hoffer, ?_⟩
  have hpart : ∀ k ∈ keys, Part k := by
    intro k hk
    obtain ⟨text, htext⟩ := hkeys k hk
    exact (shape_of_parse htext).part
  by_cases hprobe : insight ∈ buildProbes keys
  · exact ⟨insight, hprobe, fun _ _ => rfl, fun _ _ => rfl⟩
  · -- nobody names the insight, so the probe `other` of its kind stands for it
    obtain ⟨k, hk, hkmatch⟩ := hmatch
    have hkind : insight.kind ∈ k.kinds := by
      simp only [matchesProbe, Bool.and_eq_true, decide_eq_true_eq] at hkmatch
      exact hkmatch.1
    refine ⟨⟨insight.kind, .other⟩, other_mem_buildProbes hk hkind, fun k' hk' => ?_, fun row hrow => ?_⟩
    · refine matches_other_iff (hpart k' hk') fun hall => Bool.eq_false_iff.2 fun hnamed => ?_
      exact hprobe (mem_buildProbes_of_named hk' (hpart k' hk') hall hnamed)
    · obtain ⟨hrowpart, hscope⟩ := hrows row hrow
      refine matches_other_iff hrowpart fun hall => Bool.eq_false_iff.2 fun hnamed => ?_
      obtain ⟨m, hm, hkey⟩ := hscope.resolve_left hall
      rw [hkey, matchesProbe_metricKey] at hnamed
      exact hprobe (by rw [hnamed]; exact published_mem_buildProbes hm)

/-- `*` and one metric, and an insight that nobody names. -/
theorem unnamed_probed : ∃ offer, offerOf (offerRows sampleSettings "AA") = some offer ∧
    ∃ probe ∈ buildProbes [starKey, metricKey "rank"],
      (∀ k ∈ [starKey, metricKey "rank"], matchesProbe k probe = matchesProbe k ⟨30392, .d "x"⟩) ∧
        ∀ row ∈ offer.rows, matchesProbe row.key probe = matchesProbe row.key ⟨30392, .d "x"⟩ := by
  have hstar : parseKey "*" = some starKey := by decide
  have hmatch : matchesProbe starKey ⟨30392, .d "x"⟩ = true := by decide
  refine probes_adequate sampleSettings "AA" _ (fun k hk => ?_) _ ⟨starKey, List.mem_cons_self, hmatch⟩
  rcases List.mem_cons.1 hk with hk | hk
  · exact ⟨"*", by rw [hk, hstar]⟩
  · rw [List.mem_singleton.1 hk]
    exact ⟨_, parseKey_metricKey (show "rank" ∈ taMetricTags by decide)⟩

end SelfMap

end BrainstormServer
