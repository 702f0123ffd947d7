/-
  What the Assistant claims (`build_should_say` of `app/services/self_map_build.py`, on the
  offer of `offer_rows`).

  Only the five published metrics of kind 30382 are ever live, each on a row of its own
  at one relay.  So an entry that is chosen is such a metric (`tryKey_some`), and a metric
  that is a duty is chosen when the reader's key that wins it is reached, as it is, as a
  meet, or as a metric under a meet (`mem_trySelf`).  `should_say_exact` puts the two
  together: the entries are the live Score duties.
-/
import BrainstormServer.SelfMap.Check
import BrainstormServer.SelfMap.Specific

namespace BrainstormServer

namespace SelfMap

open Nostr

/-! ## Folds that only add -/

section
variable {A B : Type} {Good : List A → Prop} {step : List A → B → List A} {l : List B}

/-- A step keeps what is good and drops nothing. -/
def Grows (Good : List A → Prop) (f : List A → List A) : Prop :=
  ∀ chosen, Good chosen → Good (f chosen) ∧ chosen ⊆ f chosen

theorem Grows.foldl (h : ∀ b ∈ l, Grows Good (step · b)) : Grows Good fun chosen => l.foldl step chosen := by
  intro chosen hgood
  induction l generalizing chosen with
  | nil => exact ⟨hgood, List.Subset.refl _⟩
  | cons b l ih =>
    obtain ⟨hstep, hsub⟩ := h b List.mem_cons_self chosen hgood
    obtain ⟨hrest, hsub'⟩ := ih (fun x hx => h x (List.mem_cons_of_mem b hx)) (step chosen b) hstep
    exact ⟨hrest, List.Subset.trans hsub hsub'⟩

/-- What one step adds is there at the end. -/
theorem Grows.mem_foldl {a : A} {b : B} (h : ∀ b ∈ l, Grows Good (step · b)) (hb : b ∈ l)
    (hadd : ∀ chosen, Good chosen → a ∈ step chosen b) {chosen : List A} (hgood : Good chosen) :
    a ∈ l.foldl step chosen := by
  obtain ⟨l₁, l₂, rfl⟩ := List.append_of_mem hb
  have hbefore := (Grows.foldl (fun x hx => h x (List.mem_append_left _ hx)) chosen hgood).1
  have hstep := (h b hb _ hbefore).1
  have hafter : ∀ x ∈ l₂, Grows Good (step · x) := fun x hx => h x (by simp [hx])
  rw [List.foldl_append, List.foldl_cons]
  exact (Grows.foldl hafter _ hstep).2 (hadd _ hbefore)

end

/-! ## The offer -/

/-- An offer with one row for each metric, at a relay, and no other row for Scores of kind
    30382. -/
structure OffersScores (relay : String) (offer : Offer) : Prop where
  metric : ∀ m ∈ taMetricTags, ⟨metricKey m, relay⟩ ∈ offer.rows
  only : ∀ row ∈ offer.rows, scoreKind ∈ row.key.kinds → ∃ m ∈ taMetricTags, row = ⟨metricKey m, relay⟩

theorem metricKey_norm (m : String) : (metricKey m).norm = "30382:" ++ m := by
  show join ["30382", m] = _
  rw [join_cons_cons, join_singleton]
  rfl

theorem parseKey_metricKey {m : String} (hm : m ∈ taMetricTags) : parseKey ("30382:" ++ m) = some (metricKey m) := by
  revert m
  decide

/-- The rows of an offer whose keys parse. -/
theorem offerOf_of_parse {rows : List (String × String)} (h : ∀ row ∈ rows, ∃ k, parseKey row.1 = some k) :
    ∃ offer, offerOf rows = some offer ∧
      ∀ r, r ∈ offer.rows ↔ (∃ key, (key, r.relay) ∈ rows ∧ parseKey key = some r.key) := by
  induction rows with
  | nil => exact ⟨⟨[]⟩, rfl, by simp⟩
  | cons row rows ih =>
    obtain ⟨k, hk⟩ := h row List.mem_cons_self
    obtain ⟨offer, hoffer, hrows⟩ := ih fun r hr => h r (List.mem_cons_of_mem row hr)
    refine ⟨⟨⟨k, row.2⟩ :: offer.rows⟩, ?_, fun r => ?_⟩
    · obtain ⟨parsed, hparsed, rfl⟩ := Option.map_eq_some_iff.1 hoffer
      simp [offerOf, List.mapM_cons, hk, hparsed]
    · rw [List.mem_cons, hrows]
      constructor
      · rintro (rfl | ⟨key, hmem, hkey⟩)
        · exact ⟨row.1, List.mem_cons_self, hk⟩
        · exact ⟨key, List.mem_cons_of_mem row hmem, hkey⟩
      · rintro ⟨key, hmem, hkey⟩
        rcases List.mem_cons.1 hmem with rfl | hmem
        · rw [hkey] at hk
          cases hk
          exact Or.inl rfl
        · exact Or.inr ⟨key, hmem, hkey⟩

/-- The rows that are offered: the metrics at the relay, and rows for Lists and Concepts. -/
theorem mem_offerRows {settings : Settings} {assistant : Pubkey} {row : String × String}
    (h : row ∈ offerRows settings assistant) :
    (∃ m ∈ taMetricTags, row = ("30382:" ++ m, settings.nostrUploadTaEventsRelayPublicUrl)) ∨
      row.1 = trustedListKindRow ∨ row.1 ∈ dictionaryKindRows := by
  simp only [offerRows, designationRows, List.mem_map, List.mem_filter, List.mem_append] at h
  obtain ⟨full, ⟨(⟨m, hm, rfl⟩ | hlist) | hdictionary, -⟩, rfl⟩ := h
  · exact Or.inl ⟨m, hm, rfl⟩
  · rw [List.mem_singleton.1 hlist]
    exact Or.inr (Or.inl rfl)
  · split_ifs at hdictionary
    · obtain ⟨kind, hkind, rfl⟩ := List.mem_map.1 hdictionary
      exact Or.inr (Or.inr hkind)
    · cases hdictionary

theorem metric_mem_offerRows {settings : Settings} (assistant : Pubkey)
    (hrelay : settings.nostrUploadTaEventsRelayPublicUrl ≠ "") {m : String} (hm : m ∈ taMetricTags) :
    ("30382:" ++ m, settings.nostrUploadTaEventsRelayPublicUrl) ∈ offerRows settings assistant := by
  refine List.mem_map.2 ⟨("30382:" ++ m, assistant, settings.nostrUploadTaEventsRelayPublicUrl), ?_, rfl⟩
  rw [List.mem_filter]
  refine ⟨?_, by simpa using hrelay⟩
  simp only [designationRows, List.append_assoc, List.mem_append]
  exact Or.inl (List.mem_map.2 ⟨m, hm, rfl⟩)

/-- The keys of the other rows parse, and none is for Scores. -/
theorem parseKey_other {key : String} (h : key = trustedListKindRow ∨ key ∈ dictionaryKindRows) :
    ∃ k, parseKey key = some k ∧ scoreKind ∉ k.kinds := by
  have hkey : key ∈ trustedListKindRow :: dictionaryKindRows := List.mem_cons.2 h
  have hall : ∀ key ∈ trustedListKindRow :: dictionaryKindRows,
      ((parseKey key).any fun k => scoreKind ∉ k.kinds) = true := by
    decide
  obtain ⟨k, hk, hnot⟩ := (Option.any_eq_true _ _).1 (hall key hkey)
  exact ⟨k, hk, of_decide_eq_true hnot⟩

/-- **The offer of `offer_rows`** offers the Scores at the relay. -/
theorem offerOf_offerRows (settings : Settings) (assistant : Pubkey)
    (hrelay : settings.nostrUploadTaEventsRelayPublicUrl ≠ "") :
    ∃ offer, offerOf (offerRows settings assistant) = some offer ∧
      OffersScores settings.nostrUploadTaEventsRelayPublicUrl offer := by
  have hparse : ∀ row ∈ offerRows settings assistant, ∃ k, parseKey row.1 = some k := by
    intro row hrow
    rcases mem_offerRows hrow with ⟨m, hm, rfl⟩ | hother
    · exact ⟨metricKey m, parseKey_metricKey hm⟩
    · obtain ⟨k, hk, -⟩ := parseKey_other hother
      exact ⟨k, hk⟩
  obtain ⟨offer, hoffer, hrows⟩ := offerOf_of_parse hparse
  refine ⟨offer, hoffer, fun m hm => ?_, fun row hrow hscore => ?_⟩
  · exact (hrows _).2 ⟨_, metric_mem_offerRows assistant hrelay hm, parseKey_metricKey hm⟩
  · obtain ⟨key, hmem, hkey⟩ := (hrows row).1 hrow
    rcases mem_offerRows hmem with ⟨m, hm, heq⟩ | hother
    · rw [Prod.mk.injEq] at heq
      rw [heq.1, parseKey_metricKey hm, Option.some.injEq] at hkey
      refine ⟨m, hm, ?_⟩
      rw [hkey, ← heq.2]
    · obtain ⟨k, hk, hnot⟩ := parseKey_other hother
      rw [hkey] at hk
      cases hk
      exact absurd hscore hnot

/-! ## What is live -/

theorem matchesProbe_metricKey {m : String} {probe : Probe} :
    matchesProbe (metricKey m) probe = true ↔ probe = ⟨scoreKind, .metric m⟩ := by
  obtain ⟨kind, scope⟩ := probe
  simp [matchesProbe, metricKey]

/-- Each published metric is probed. -/
theorem metric_mem_probesOf (groups : List Group) {m : String} (hm : m ∈ taMetricTags) :
    ⟨scoreKind, .metric m⟩ ∈ probesOf groups := by
  have hprobe : ⟨scoreKind, .metric m⟩ ∈ scoreProbes (groups.map Group.key) scoreKind := by
    simp only [scoreProbes, if_true, List.mem_append, List.mem_map]
    exact Or.inl ⟨m, Or.inl hm, rfl⟩
  unfold probesOf buildProbes
  rw [List.mem_eraseDups]
  simp only [List.mem_append, List.mem_flatMap]
  exact Or.inl (Or.inl (Or.inl ⟨scoreKind, by decide, hprobe⟩))

section
variable {relay : String} {offer : Offer} (hoffer : OffersScores relay offer)
include hoffer

/-- A metric is answered by its own row. -/
theorem answer_metric {m : String} {row : OfferRow} {i : ℕ}
    (h : offer.answer ⟨scoreKind, .metric m⟩ = some (row, i)) : row = ⟨metricKey m, relay⟩ := by
  obtain ⟨hmem, hmatch⟩ := winnerOf_some h
  have hkind : scoreKind ∈ row.key.kinds := by
    simp only [matchesProbe, Bool.and_eq_true, decide_eq_true_eq] at hmatch
    exact hmatch.1
  obtain ⟨m', -, rfl⟩ := hoffer.only row hmem hkind
  have hm := matchesProbe_metricKey.1 hmatch
  cases hm
  rfl

theorem exists_answer_metric {m : String} (hm : m ∈ taMetricTags) :
    ∃ i, offer.answer ⟨scoreKind, .metric m⟩ = some (⟨metricKey m, relay⟩, i) := by
  have hne : offer.answer ⟨scoreKind, .metric m⟩ ≠ none :=
    winnerOf_ne_none (hoffer.metric m hm) (matchesProbe_metricKey.2 rfl)
  obtain ⟨⟨row, i⟩, h⟩ := Option.ne_none_iff_exists'.1 hne
  refine ⟨i, ?_⟩
  rw [h, answer_metric hoffer h]

theorem evaluateLive_metric {scores : ScoresUpkeep} {m : String} (hm : m ∈ taMetricTags)
    (hstatus : scores.status = .live) :
    evaluateLive ⟨scoreKind, .metric m⟩ offer scores = ⟨true, some relay, none, none⟩ := by
  obtain ⟨i, hrow⟩ := exists_answer_metric hoffer hm
  have hpublished : m ∈ publishedScoreMetrics := hm
  have hkind : isScoreKind scoreKind = true := by decide
  unfold evaluateLive
  rw [hrow]
  simp [Scope.unchecked?, Scope.metric?, hkind, hpublished, hstatus]

/-- A part that is live is a published metric. -/
theorem evaluateLive_live {scores : ScoresUpkeep} {probe : Probe} {r : String}
    (hlive : (evaluateLive probe offer scores).live = true)
    (hrelay : (evaluateLive probe offer scores).relay = some r) :
    scores.status = .live ∧ r = relay ∧ ∃ m ∈ taMetricTags, probe = ⟨scoreKind, .metric m⟩ := by
  obtain ⟨kind, scope⟩ := probe
  generalize hstate : evaluateLive ⟨kind, scope⟩ offer scores = state at hlive hrelay
  unfold evaluateLive at hstate
  cases hrow : offer.answer ⟨kind, scope⟩ with
  | none =>
    rw [hrow] at hstate
    subst hstate
    cases hlive
  | some found =>
    obtain ⟨row, i⟩ := found
    simp only [hrow] at hstate
    split_ifs at hstate with hunchecked hscore hmetric hstatus hlist
    all_goals subst hstate
    -- every branch but one says that the part is not live
    · cases hlive
    · cases hlive
    · rw [not_or, not_not, not_not] at hmetric
      obtain ⟨rfl, hany⟩ := hmetric
      cases scope with
      | metric m =>
        have hm : m ∈ taMetricTags := of_decide_eq_true hany
        cases hrelay
        rw [answer_metric hoffer hrow]
        exact ⟨hstatus, rfl, m, hm, rfl⟩
      | all | d | unchecked | other => cases hany
    · cases hlive
    · cases hlive
    · cases hlive

/-- **What is live**: the published metrics, at the relay, while the upkeep is live. -/
theorem liveAt_iff {groups : List Group} {scores : ScoresUpkeep} {r : String} {probe : Probe} :
    liveAt (liveOf groups offer scores) r probe = true ↔
      scores.status = .live ∧ r = relay ∧ ∃ m ∈ taMetricTags, probe = ⟨scoreKind, .metric m⟩ := by
  unfold liveAt liveOf
  constructor
  · intro h
    split_ifs at h
    · simp only [Option.any_some, Bool.and_eq_true, decide_eq_true_eq] at h
      exact evaluateLive_live hoffer h.1 h.2
    · cases h
  · rintro ⟨hstatus, rfl, m, hm, rfl⟩
    rw [if_pos (metric_mem_probesOf groups hm), evaluateLive_metric hoffer hm hstatus]
    simp

end

/-! ## Duties -/

/-- The Map's most specific key for a probe names `who`; of equal keys the first counts. -/
def MostSpecificNames (groups : List Group) (who : Pubkey) (probe : Probe) : Prop :=
  ∃ before g after, groups = before ++ g :: after ∧
    Best Group.key (fun b => matchesProbe b.key probe) before g after ∧ who ∈ g.providers

/-- The duties of a Map. -/
abbrev dutiesFor (groups : List Group) (assistant : Pubkey) : List Duty :=
  dutiesOf groups assistant (probesOf groups)

section
variable {groups : List Group} {assistant : Pubkey}

theorem mostSpecificNames_iff {who : Pubkey} {probe : Probe} : MostSpecificNames groups who probe ↔
    ∃ w, winnerOf Group.key groups probe = some w ∧ who ∈ w.1.providers := by
  constructor
  · rintro ⟨before, g, after, hgroups, hbest, hwho⟩
    exact ⟨(g, before.length), winnerOf_iff.2 ⟨before, after, hgroups, rfl, hbest⟩, hwho⟩
  · rintro ⟨⟨g, i⟩, hw, hwho⟩
    obtain ⟨before, after, hgroups, -, hbest⟩ := winnerOf_iff.1 hw
    exact ⟨before, g, after, hgroups, hbest, hwho⟩

/-- A published metric is a duty if the key that wins it names the Assistant. -/
theorem isDuty_metric {who : Pubkey} {m : String} (hm : m ∈ taMetricTags) {winner : Option (Group × ℕ)} :
    isDuty who ⟨scoreKind, .metric m⟩ winner = true ↔ ∃ w, winner = some w ∧ who ∈ w.1.providers := by
  have hsupported : inSupportedSets ⟨scoreKind, .metric m⟩ = true := by
    revert m
    decide
  unfold isDuty
  rw [Option.any_eq_true]
  simp [hsupported]

/-- The duty of a probe. -/
theorem mem_dutiesFor {d : Duty} (h : d ∈ dutiesFor groups assistant) :
    d.winner = winnerOf Group.key groups d.probe ∧
      d.duty = isDuty (lower assistant) d.probe (winnerOf Group.key groups d.probe) := by
  obtain ⟨probe, -, rfl⟩ := List.mem_map.1 h
  exact ⟨rfl, rfl⟩

theorem duty_metric_iff {d : Duty} (h : d ∈ dutiesFor groups assistant) {m : String} (hm : m ∈ taMetricTags)
    (hprobe : d.probe = ⟨scoreKind, .metric m⟩) :
    d.duty = true ↔ MostSpecificNames groups (lower assistant) ⟨scoreKind, .metric m⟩ := by
  rw [(mem_dutiesFor h).2, hprobe, isDuty_metric hm, mostSpecificNames_iff]

variable (assistant) in
/-- A probe is looked up. -/
theorem dutyFor_of_mem {probe : Probe} (h : probe ∈ probesOf groups) :
    ∃ d ∈ dutiesFor groups assistant, d.probe = probe ∧ dutyFor (dutiesFor groups assistant) probe = some d := by
  unfold dutyFor
  cases hfind : (dutiesFor groups assistant).find? (·.probe = probe) with
  | none =>
    have hnone := List.find?_eq_none.1 hfind _ (List.mem_map_of_mem h)
    simp at hnone
  | some d =>
    have hprobe := List.find?_some hfind
    exact ⟨d, List.mem_of_find?_eq_some hfind, of_decide_eq_true hprobe, rfl⟩

end

/-! ## Meets -/

/-- The meets so far are meets. -/
def AllMeets (k : Key) (meets : List Key) : Prop := ∀ meet ∈ meets, ∃ kind, meetOf k kind = some meet

theorem addMeet_grows (k : Key) (kind : ℕ) : Grows (AllMeets k) (addMeet k · kind) := by
  intro meets hgood
  beta_reduce
  unfold addMeet
  cases hmeet : meetOf k kind with
  | none => exact ⟨hgood, List.Subset.refl _⟩
  | some meet =>
    dsimp only
    split_ifs
    · refine ⟨fun b hb => ?_, List.subset_append_left _ _⟩
      rcases List.mem_append.1 hb with hb | hb
      · exact hgood b hb
      · rw [List.mem_singleton.1 hb]
        exact ⟨kind, hmeet⟩
    · exact ⟨hgood, List.Subset.refl _⟩

theorem mem_addMeet {k meet : Key} {kind : ℕ} (hmeet : meetOf k kind = some meet) {meets : List Key}
    (hgood : AllMeets k meets) : meet ∈ addMeet k meets kind := by
  unfold addMeet
  rw [hmeet]
  dsimp only
  split_ifs with hall
  · simp
  · simp only [List.all_eq_true, decide_eq_true_eq, not_forall, not_not] at hall
    obtain ⟨old, hold, hnorm⟩ := hall
    obtain ⟨kind', hkind'⟩ := hgood old hold
    rw [← eq_of_norm_eq hkind' hmeet hnorm]
    exact hold

/-- The meets of a key are meets with a kind. -/
theorem meet_of_mem {offer : Offer} {k meet : Key} (h : meet ∈ meetsOf offer k) :
    ∃ kind, meetOf k kind = some meet :=
  (Grows.foldl (fun kind _ => addMeet_grows k kind) [] (by simp [AllMeets])).1 meet h

/-- The meet with an offered kind is one of them. -/
theorem mem_meetsOf {offer : Offer} {k meet : Key} {kind : ℕ} (hkind : kind ∈ k.kinds)
    (hoffered : kind ∈ offer.kinds) (hmeet : meetOf k kind = some meet) : meet ∈ meetsOf offer k := by
  have hmem : kind ∈ k.kinds.filter (· ∈ offer.kinds) := List.mem_filter.2 ⟨hkind, by simpa using hoffered⟩
  exact Grows.mem_foldl (fun kind _ => addMeet_grows k kind) hmem (fun _ => mem_addMeet hmeet) (by simp [AllMeets])

/-! ## The entries -/

section
variable (groups : List Group) (relay : String) (assistant : Pubkey) (scores : ScoresUpkeep)

/-- A Score duty that is live, as an entry. -/
def IsLiveDuty (entry : Entry) : Prop :=
  scores.status = .live ∧ ∃ m ∈ taMetricTags, entry = (metricKey m, relay) ∧
    MostSpecificNames groups (lower assistant) ⟨scoreKind, .metric m⟩

/-- The entries chosen so far are live Score duties. -/
def AllLive (chosen : List Entry) : Prop := ∀ entry ∈ chosen, IsLiveDuty groups relay assistant scores entry

variable {groups relay assistant scores} {offer : Offer} {chosen : List Entry}
variable (hoffer : OffersScores relay offer)
include hoffer

/-- A row that covers a key with Scores of kind 30382 is a metric's, and the key too. -/
theorem covering_score {candidate : Key} {row : OfferRow} (hscore : scoreKind ∈ candidate.kinds)
    (h : offer.covering candidate = some row) :
    ∃ m ∈ taMetricTags, row = ⟨metricKey m, relay⟩ ∧ candidate.kinds ⊆ [scoreKind] ∧
      candidate.scope = .metric m := by
  obtain ⟨hmem, hcovers⟩ := mostSpecific_some h
  simp only [covers, Bool.and_eq_true, decide_eq_true_eq] at hcovers
  obtain ⟨hkinds, hscope⟩ := hcovers
  obtain ⟨m, hm, rfl⟩ := hoffer.only row hmem (hkinds hscore)
  exact ⟨m, hm, rfl, hkinds, of_decide_eq_true hscope⟩

/-- **What is chosen** is a published metric that is a live duty. -/
theorem tryKey_some {candidate : Key} {more : List Entry} (hparsed : ∃ text, parseKey text = some candidate)
    (h : tryKey (dutiesFor groups assistant) (liveOf groups offer scores) offer chosen (some candidate) = some more) :
    ∃ m, candidate = metricKey m ∧ more = chosen ++ [(metricKey m, relay)] ∧
      IsLiveDuty groups relay assistant scores (metricKey m, relay) := by
  simp only [tryKey, Option.bind_some] at h
  split_ifs at h
  obtain ⟨row, hrow, h⟩ := Option.bind_eq_some_iff.1 h
  split_ifs at h with hvalid
  cases h
  simp only [valid, Bool.and_eq_true, List.all_eq_true, List.any_eq_true, List.mem_filter, and_imp] at hvalid
  obtain ⟨hall, d, hd, hwin⟩ := hvalid
  obtain ⟨hstatus, hrelay, m, hm, hprobe⟩ := (liveAt_iff hoffer).1 (hall d hd hwin)
  simp only [wouldWin, Bool.and_eq_true] at hwin
  obtain ⟨⟨hduty, hmatch⟩, -⟩ := hwin
  rw [hprobe] at hmatch
  obtain ⟨text, htext⟩ := hparsed
  -- of the keys that match the metric, the offer covers one
  have hkey : candidate = metricKey m := by
    have hfive := parseKey_of_matches_metric htext hmatch
    have hscore : scoreKind ∈ candidate.kinds := by
      simp only [matchesProbe, Bool.and_eq_true, decide_eq_true_eq] at hmatch
      exact hmatch.1
    obtain ⟨m', -, -, hkinds, hscope⟩ := covering_score hoffer hscore hrow
    rcases hfive with rfl | rfl | rfl | rfl | rfl
    · rfl
    · have hfamily : ¬ scoreKinds ⊆ [scoreKind] := by decide
      exact absurd hkinds hfamily
    · cases hscope
    · cases hscope
    · cases hscope
  subst hkey
  rw [hrelay]
  exact ⟨m, rfl, rfl, hstatus, m, hm, rfl, (duty_metric_iff hd hm hprobe).1 hduty⟩

omit hoffer in
/-- An entry with the spelling of a key is the key's. -/
theorem mem_of_has {k : Key} (hparsed : ∃ text, parseKey text = some k)
    (hgood : AllLive groups relay assistant scores chosen) (h : has chosen k.norm = true) :
    (k, relay) ∈ chosen ∧ ∃ m, k = metricKey m := by
  obtain ⟨entry, hentry, hnorm⟩ := List.any_eq_true.1 h
  obtain ⟨-, m, hm, rfl, -⟩ := hgood entry hentry
  obtain ⟨text, htext⟩ := hparsed
  have hk : metricKey m = k := eq_of_norm_eq (parseKey_metricKey hm) htext (of_decide_eq_true hnorm)
  rw [← hk]
  exact ⟨hentry, m, rfl⟩

theorem covering_metric {m : String} (hm : m ∈ taMetricTags) :
    offer.covering (metricKey m) = some ⟨metricKey m, relay⟩ := by
  have hcovers : covers (metricKey m) (metricKey m) = true := by simp [covers, metricKey]
  have hne : offer.covering (metricKey m) ≠ none := mostSpecific_ne_none (hoffer.metric m hm) hcovers
  obtain ⟨row, hrow⟩ := Option.ne_none_iff_exists'.1 hne
  obtain ⟨m', -, rfl, -, hscope⟩ := covering_score hoffer (by simp [metricKey]) hrow
  cases hscope
  exact hrow

/-- **A live duty is chosen** when its metric is tried. -/
theorem mem_tryKey {m : String} (hm : m ∈ taMetricTags) (hstatus : scores.status = .live)
    (hnames : MostSpecificNames groups (lower assistant) ⟨scoreKind, .metric m⟩)
    (hgood : AllLive groups relay assistant scores chosen) :
    (metricKey m, relay) ∈
      (tryKey (dutiesFor groups assistant) (liveOf groups offer scores) offer chosen (some (metricKey m))).getD
        chosen := by
  by_cases hhas : has chosen (metricKey m).norm = true
  · simp only [tryKey, Option.bind_some, if_pos hhas, Option.getD_none]
    exact (mem_of_has ⟨_, parseKey_metricKey hm⟩ hgood hhas).1
  · -- no entry so far matches the metric, so the candidate would win its duty
    have hnone : ∀ b ∈ chosen.map Prod.fst, matchesProbe b ⟨scoreKind, .metric m⟩ = false := by
      intro b hb
      obtain ⟨entry, hentry, rfl⟩ := List.mem_map.1 hb
      obtain ⟨-, m', -, rfl, -⟩ := hgood entry hentry
      rw [Bool.eq_false_iff]
      intro hmatch
      cases matchesProbe_metricKey.1 hmatch
      exact hhas (List.any_eq_true.2 ⟨_, hentry, by simp⟩)
    have hvalid : valid (dutiesFor groups assistant) (liveOf groups offer scores) chosen (metricKey m) relay =
        true := by
      obtain ⟨d, hd, hprobe, -⟩ := dutyFor_of_mem assistant (metric_mem_probesOf groups hm)
      have hmatch := matchesProbe_metricKey.2 hprobe
      have hwinner : winnerOf id (chosen.map Prod.fst ++ [metricKey m]) ⟨scoreKind, .metric m⟩ =
          some (metricKey m, (chosen.map Prod.fst).length) :=
        winnerOf_last hnone (matchesProbe_metricKey.2 rfl)
      simp only [valid, Bool.and_eq_true, List.all_eq_true, List.any_eq_true, List.mem_filter, and_imp]
      refine ⟨fun d' hd' hwin => ?_, d, hd, ?_⟩
      · simp only [wouldWin, Bool.and_eq_true] at hwin
        exact (liveAt_iff hoffer).2 ⟨hstatus, rfl, m, hm, matchesProbe_metricKey.1 hwin.1.2⟩
      · simp only [wouldWin, Bool.and_eq_true]
        refine ⟨⟨(duty_metric_iff hd hm hprobe).2 hnames, hmatch⟩, ?_⟩
        rw [hprobe, hwinner]
        simp
    simp only [tryKey, Option.bind_some, if_neg hhas, covering_metric hoffer hm, if_pos hvalid]
    simp

/-! ## One key after the other -/

theorem allLive_of_tryKey {candidate : Key} {more : List Entry} (hparsed : ∃ text, parseKey text = some candidate)
    (hgood : AllLive groups relay assistant scores chosen)
    (h : tryKey (dutiesFor groups assistant) (liveOf groups offer scores) offer chosen (some candidate) = some more) :
    AllLive groups relay assistant scores more ∧ chosen ⊆ more := by
  obtain ⟨m, -, rfl, hlive⟩ := tryKey_some hoffer hparsed h
  refine ⟨fun entry hentry => ?_, List.subset_append_left _ _⟩
  rcases List.mem_append.1 hentry with hentry | hentry
  · exact hgood entry hentry
  · rw [List.mem_singleton.1 hentry]
    exact hlive

theorem tryMetric_grows (k : Key) (metric : String) :
    Grows (AllLive groups relay assistant scores)
      (tryMetric (dutiesFor groups assistant) (liveOf groups offer scores) offer k · metric) := by
  intro chosen hgood
  simp only [tryMetric]
  split_ifs
  · cases hparse : parseKey (toString scoreKind ++ ":" ++ metric) with
    | none => exact ⟨hgood, List.Subset.refl _⟩
    | some candidate =>
      cases h : tryKey (dutiesFor groups assistant) (liveOf groups offer scores) offer chosen (some candidate) with
      | none => exact ⟨hgood, List.Subset.refl _⟩
      | some more => exact allLive_of_tryKey hoffer ⟨_, hparse⟩ hgood h
  · exact ⟨hgood, List.Subset.refl _⟩

theorem tryMeet_grows {k meet : Key} (hparsed : ∃ text, parseKey text = some meet) :
    Grows (AllLive groups relay assistant scores)
      (tryMeet (dutiesFor groups assistant) (liveOf groups offer scores) offer k · meet) := by
  intro chosen hgood
  simp only [tryMeet]
  split
  · rename_i more hmore
    split_ifs at hmore
    exact allLive_of_tryKey hoffer hparsed hgood hmore
  · split_ifs
    · exact ⟨hgood, List.Subset.refl _⟩
    · exact Grows.foldl (fun metric _ => tryMetric_grows hoffer k metric) chosen hgood

theorem trySelf_grows {k : Key} (hparsed : ∃ text, parseKey text = some k) :
    Grows (AllLive groups relay assistant scores)
      (trySelf (dutiesFor groups assistant) (liveOf groups offer scores) offer · k) := by
  intro chosen hgood
  simp only [trySelf]
  split_ifs
  · exact ⟨hgood, List.Subset.refl _⟩
  · split
    · rename_i more hmore
      exact allLive_of_tryKey hoffer hparsed hgood hmore
    · refine Grows.foldl (fun meet hmeet => tryMeet_grows hoffer ?_) chosen hgood
      obtain ⟨kind, hmeet⟩ := meet_of_mem ((List.perm_insertionSort _ _).mem_iff.1 hmeet)
      exact ⟨_, hmeet⟩

/-- A metric under a key is chosen if the key wins it. -/
theorem mem_tryMetric {m : String} (hm : m ∈ taMetricTags) (hstatus : scores.status = .live) {g : Group} {i : ℕ}
    (hwinner : winnerOf Group.key groups ⟨scoreKind, .metric m⟩ = some (g, i))
    (hwho : lower assistant ∈ g.providers) (hgood : AllLive groups relay assistant scores chosen) :
    (metricKey m, relay) ∈
      tryMetric (dutiesFor groups assistant) (liveOf groups offer scores) offer g.key chosen m := by
  have hnames := mostSpecificNames_iff.2 ⟨(g, i), hwinner, hwho⟩
  obtain ⟨d, hd, hprobe, hdutyFor⟩ := dutyFor_of_mem assistant (metric_mem_probesOf groups hm)
  have hduty := (duty_metric_iff hd hm hprobe).2 hnames
  have hwon : d.winner = some (g, i) := by rw [(mem_dutiesFor hd).1, hprobe, hwinner]
  have hparse : parseKey (toString scoreKind ++ ":" ++ m) = some (metricKey m) := parseKey_metricKey hm
  simp only [tryMetric, hdutyFor, Option.any_some, hduty, hwon, decide_true, Bool.and_self, if_true, hparse]
  exact mem_tryKey hoffer hm hstatus hnames hgood

/-- The meet `30382:<metric>` of `3038x:<metric>` brings the metric in. -/
theorem mem_tryMeet_metric {m : String} (hm : m ∈ taMetricTags) (hstatus : scores.status = .live)
    (hnames : MostSpecificNames groups (lower assistant) ⟨scoreKind, .metric m⟩)
    (hgood : AllLive groups relay assistant scores chosen) :
    (metricKey m, relay) ∈ tryMeet (dutiesFor groups assistant) (liveOf groups offer scores) offer
      (familyMetricKey m) chosen (metricKey m) := by
  have hnorm : ∀ m ∈ taMetricTags, (metricKey m).norm ≠ (familyMetricKey m).norm := by decide
  have hscope : (metricKey m).kinds ≠ [scoreKind] ∨ (metricKey m).scope ≠ .all := Or.inr (by simp [metricKey])
  have htry := mem_tryKey hoffer hm hstatus hnames hgood
  simp only [tryMeet]
  rw [if_pos (hnorm m hm)]
  split
  · rename_i more hmore
    rw [hmore] at htry
    exact htry
  · rename_i hnone
    rw [hnone] at htry
    rw [if_pos hscope]
    exact htry

/-- The meet `30382` of a key brings in the metrics that the key wins. -/
theorem mem_tryMeet_score {m : String} (hm : m ∈ taMetricTags) (hstatus : scores.status = .live) {g : Group} {i : ℕ}
    (hwinner : winnerOf Group.key groups ⟨scoreKind, .metric m⟩ = some (g, i))
    (hwho : lower assistant ∈ g.providers) (hgood : AllLive groups relay assistant scores chosen) :
    (metricKey m, relay) ∈
      tryMeet (dutiesFor groups assistant) (liveOf groups offer scores) offer g.key chosen scoreKey := by
  have hscope : ¬ (scoreKey.kinds ≠ [scoreKind] ∨ scoreKey.scope ≠ .all) := by decide
  have hparsed : parseKey "30382" = some scoreKey := by decide
  simp only [tryMeet]
  split
  · rename_i more hmore
    split_ifs at hmore
    -- all Scores at once are never chosen
    obtain ⟨m', hkey, -⟩ := tryKey_some hoffer ⟨_, hparsed⟩ hmore
    cases congrArg Key.segs hkey
  · rw [if_neg hscope]
    exact Grows.mem_foldl (fun metric _ => tryMetric_grows hoffer g.key metric) hm
      (fun chosen hgood => mem_tryMetric hoffer hm hstatus hwinner hwho hgood) hgood

omit hoffer in
theorem meetOf_metric {m : String} (hm : m ∈ taMetricTags) :
    meetOf (familyMetricKey m) scoreKind = some (metricKey m) := by
  revert m
  decide

omit hoffer in
theorem meetOf_score {k : Key} (hsegs : k.segs = []) : meetOf k scoreKind = some scoreKey := by
  unfold meetOf
  rw [hsegs]
  decide

/-- **The key that wins a live Score duty** brings it in. -/
theorem mem_trySelf {m : String} (hm : m ∈ taMetricTags) (hstatus : scores.status = .live) {g : Group} {i : ℕ}
    (hwinner : winnerOf Group.key groups ⟨scoreKind, .metric m⟩ = some (g, i))
    (hwho : lower assistant ∈ g.providers) (hgood : AllLive groups relay assistant scores chosen) :
    (metricKey m, relay) ∈
      trySelf (dutiesFor groups assistant) (liveOf groups offer scores) offer chosen g.key := by
  have hnames := mostSpecificNames_iff.2 ⟨(g, i), hwinner, hwho⟩
  have hmatch := (winnerOf_some hwinner).2
  have hmetric : ∀ m', g.key = metricKey m' → m' = m := by
    intro m' hk
    rw [hk] at hmatch
    cases matchesProbe_metricKey.1 hmatch
    rfl
  have hoffered : scoreKind ∈ offer.kinds :=
    List.mem_flatMap.2 ⟨_, hoffer.metric m hm, List.mem_singleton.2 rfl⟩
  have hmeets : ∀ meet ∈ sortBy Before (meetsOf offer g.key), Grows (AllLive groups relay assistant scores)
      (tryMeet (dutiesFor groups assistant) (liveOf groups offer scores) offer g.key · meet) := by
    intro meet hmeet
    obtain ⟨kind, hmeet⟩ := meet_of_mem ((List.perm_insertionSort _ _).mem_iff.1 hmeet)
    exact tryMeet_grows hoffer ⟨_, hmeet⟩
  have hsorted : ∀ meet, scoreKind ∈ g.key.kinds → meetOf g.key scoreKind = some meet →
      meet ∈ sortBy Before (meetsOf offer g.key) := fun meet hkind hmeet =>
    (List.perm_insertionSort _ _).mem_iff.2 (mem_meetsOf hkind hoffered hmeet)
  simp only [trySelf]
  split_ifs with hhas
  · obtain ⟨hmem, m', hk⟩ := mem_of_has g.parsed hgood hhas
    rw [hk, hmetric m' hk] at hmem
    exact hmem
  · split
    · rename_i more hmore
      obtain ⟨m', hk, rfl, -⟩ := tryKey_some hoffer g.parsed hmore
      rw [hmetric m' hk]
      simp
    · rename_i hnone
      obtain ⟨text, htext⟩ := g.parsed
      have hscore : scoreKind ∈ g.key.kinds := by
        simp only [matchesProbe, Bool.and_eq_true, decide_eq_true_eq] at hmatch
        exact hmatch.1
      -- the key itself was not chosen: its meet with 30382 brings the metric in
      have hall : g.key.segs = [] → (metricKey m, relay) ∈ (sortBy Before (meetsOf offer g.key)).foldl
          (tryMeet (dutiesFor groups assistant) (liveOf groups offer scores) offer g.key) chosen := fun hsegs =>
        Grows.mem_foldl hmeets (hsorted scoreKey hscore (meetOf_score hsegs))
          (fun chosen hgood => mem_tryMeet_score hoffer hm hstatus hwinner hwho hgood) hgood
      rcases parseKey_of_matches_metric htext hmatch with hk | hk | hk | hk | hk
      · have htry := mem_tryKey hoffer hm hstatus hnames hgood
        rw [← hk, hnone] at htry
        exact (Grows.foldl hmeets chosen hgood).2 (hk ▸ htry)
      · have hmeet : meetOf g.key scoreKind = some (metricKey m) := by rw [hk, meetOf_metric hm]
        refine Grows.mem_foldl hmeets (hsorted _ hscore hmeet) (fun chosen hgood => ?_) hgood
        rw [hk]
        exact mem_tryMeet_metric hoffer hm hstatus hnames hgood
      · exact hall (by rw [hk]; rfl)
      · exact hall (by rw [hk]; rfl)
      · exact hall (by rw [hk]; rfl)

/-- The entries are the live Score duties. -/
theorem mem_shouldOf {entry : Entry} :
    entry ∈ shouldOf groups offer assistant scores ↔ IsLiveDuty groups relay assistant scores entry := by
  have hmine : ∀ k ∈ sortBy Before ((groups.filter fun g => lower assistant ∈ g.providers).map Group.key),
      Grows (AllLive groups relay assistant scores)
        (trySelf (dutiesFor groups assistant) (liveOf groups offer scores) offer · k) := by
    intro k hk
    obtain ⟨g, -, rfl⟩ := List.mem_map.1 ((List.perm_insertionSort _ _).mem_iff.1 hk)
    exact trySelf_grows hoffer g.parsed
  have hstart : AllLive groups relay assistant scores [] := by simp [AllLive]
  unfold shouldOf buildShouldSay
  rw [sortBy, (List.perm_insertionSort _ _).mem_iff]
  constructor
  · exact (Grows.foldl hmine [] hstart).1 entry
  · rintro ⟨hstatus, m, hm, rfl, hnames⟩
    obtain ⟨⟨g, i⟩, hwinner, hwho⟩ := mostSpecificNames_iff.1 hnames
    have hg : g.key ∈ sortBy Before ((groups.filter fun g => lower assistant ∈ g.providers).map Group.key) := by
      refine (List.perm_insertionSort _ _).mem_iff.2 (List.mem_map_of_mem (List.mem_filter.2 ⟨?_, ?_⟩))
      · exact (winnerOf_some hwinner).1
      · exact decide_eq_true hwho
    exact Grows.mem_foldl hmine hg (fun chosen hgood => mem_trySelf hoffer hm hstatus hwinner hwho hgood) hstart

end

/-- **The Assistant claims exactly its live Score duties**: nothing while the upkeep is not
    live, and else the published metrics, at the relay of the offer, for which the reader's
    most specific key names the Assistant. -/
theorem should_say_exact (groups : List Group) (assistant : Pubkey) (scores : ScoresUpkeep) (settings : Settings)
    (hrelay : settings.nostrUploadTaEventsRelayPublicUrl ≠ "") :
    ∃ check, evaluateSelfMap groups (offerRows settings assistant) assistant scores = some check ∧
      ∀ key relay, (key, relay) ∈ check.shouldSay ↔
        scores.status = .live ∧ ∃ m ∈ taMetricTags, key = "30382:" ++ m ∧
          relay = settings.nostrUploadTaEventsRelayPublicUrl ∧
          MostSpecificNames groups (lower assistant) ⟨scoreKind, .metric m⟩ := by
  obtain ⟨offer, hrows, hoffer⟩ := offerOf_offerRows settings assistant hrelay
  unfold evaluateSelfMap
  rw [hrows]
  refine ⟨_, rfl, fun key relay => ?_⟩
  rw [List.mem_map]
  constructor
  · rintro ⟨entry, hentry, heq⟩
    obtain ⟨hstatus, m, hm, rfl, hnames⟩ := (mem_shouldOf hoffer).1 hentry
    rw [Prod.mk.injEq, metricKey_norm] at heq
    exact ⟨hstatus, m, hm, heq.1.symm, heq.2.symm, hnames⟩
  · rintro ⟨hstatus, m, hm, rfl, rfl, hnames⟩
    refine ⟨_, (mem_shouldOf hoffer).2 ⟨hstatus, m, hm, rfl, hnames⟩, ?_⟩
    rw [metricKey_norm]

/-- A Map that gives everything to one Assistant, but the rank to another. -/
def sampleMap : List Group :=
  [⟨starKey, {"aa"}, "*", by decide +kernel⟩, ⟨metricKey "rank", {"bb"}, "30382:rank", by decide +kernel⟩]

def sampleSettings : Settings := ⟨"wss://scores", "", "wss://dictionary"⟩

/-- The first Assistant claims the hops and not the rank. -/
theorem sampleMap_claims : sampleSettings.nostrUploadTaEventsRelayPublicUrl ≠ "" ∧
    ∃ check, evaluateSelfMap sampleMap (offerRows sampleSettings "AA") "AA" ⟨.live, none⟩ = some check ∧
      ("30382:hops", "wss://scores") ∈ check.shouldSay ∧ ("30382:rank", "wss://scores") ∉ check.shouldSay := by
  have hrelay : sampleSettings.nostrUploadTaEventsRelayPublicUrl ≠ "" := by decide
  obtain ⟨check, hcheck, hiff⟩ := should_say_exact sampleMap "AA" ⟨.live, none⟩ sampleSettings hrelay
  refine ⟨hrelay, check, hcheck, ?_, ?_⟩
  · rw [hiff]
    refine ⟨rfl, "hops", by decide, rfl, rfl, [], _, _, rfl, ⟨?_, by simp, ?_⟩, ?_⟩
    · decide
    · decide
    · decide
  · rw [hiff]
    rintro ⟨-, m, -, hm, -, hnames⟩
    have hrank : "30382:" ++ "rank" = "30382:" ++ m := by rw [← hm]; rfl
    obtain rfl := (String.append_right_inj _).1 hrank
    obtain ⟨w, hw, hwho⟩ := mostSpecificNames_iff.1 hnames
    have hother : winnerOf Group.key sampleMap ⟨scoreKind, .metric "rank"⟩ = some (_, 1) :=
      winnerOf_iff.2 ⟨[_], [], rfl, rfl, by decide, by decide, by simp⟩
    rw [hother, Option.some.injEq] at hw
    subst hw
    revert hwho
    decide

end SelfMap

end BrainstormServer
