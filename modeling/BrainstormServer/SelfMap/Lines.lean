/-
  What the check tells of the Assistant's duties (`duty_lines` of
  `app/services/self_map_build.py`, on the offer of `offer_rows`).

  A line is about the part of an entry that one row of the offer answers.  It is live if
  all duties of the part are, and then it names the entries that list them.

  * `dutyLines_explained`: every line is a part's, or names no entries;
  * `partLine_mem`: every part that a row answers has its line;
  * `one_story`: the lines that are live and the list of what to say agree.
-/
import BrainstormServer.SelfMap.Greedy
import BrainstormServer.SelfMap.Probes

namespace BrainstormServer

namespace SelfMap

open Nostr

/-! ## The lines of a check -/

section
variable (live : Probe → Option Live) (should : List Entry) (who : Pubkey) (duties : List Duty) (offer : Offer)

/-- The probes that a group wins. -/
def wonBy (group : Group × ℕ) : List Duty := duties.filter fun d => d.winner.any (·.2 = group.2)

/-- What of it a row answers. -/
def partOf (group : Group × ℕ) (row : OfferRow × ℕ) : List Duty :=
  (wonBy duties group).filter fun d => (offer.answer d.probe).any (·.2 = row.2)

/-- A line is about a part, or it lists nothing and is not live. -/
def Explained (line : DutyLine) : Prop :=
  (line.status ≠ .live ∧ line.entries = []) ∨ ∃ group : Group × ℕ, ∃ row : OfferRow × ℕ,
    line = partLine live should group.1.key row.1 (partOf duties offer group row)

/-- The lines of a group's parts. -/
def partLines (group : Group × ℕ) : List DutyLine :=
  offer.rows.zipIdx.filterMap fun row =>
    if partOf duties offer group row = [] then none
    else some (partLine live should group.1.key row.1 (partOf duties offer group row))

/-- The line of what no row answers. -/
def missingLines (group : Group × ℕ) : List DutyLine :=
  if (wonBy duties group).any fun d => d.duty && (offer.answer d.probe).isNone then
    [{ key := group.1.key.norm, status := .notOffered }]
  else []

/-- The line of a group that takes a part, once. -/
def addElsewhere (lines : List DutyLine) (w : Group × ℕ) : List DutyLine :=
  let line : DutyLine := { key := w.1.key.norm, status := .elsewhere }
  if line ∈ lines then lines else lines ++ [line]

/-- All lines are explained. -/
def AllExplained (lines : List DutyLine) : Prop := ∀ line ∈ lines, Explained live should duties offer line

variable {live should who duties offer}

theorem groupLines_eq (lines : List DutyLine) {group : Group × ℕ} (hwho : who ∈ group.1.providers) :
    groupLines live should who duties offer lines group =
      (elsewhereOf who duties group).foldl addElsewhere
        (lines ++ partLines live should duties offer group ++ missingLines duties offer group) := by
  unfold groupLines
  rw [if_neg (not_not.2 hwho)]
  rfl

theorem addElsewhere_grows (w : Group × ℕ) :
    Grows (AllExplained live should duties offer) (addElsewhere · w) := by
  intro lines hgood
  simp only [addElsewhere]
  split_ifs
  · exact ⟨hgood, List.Subset.refl _⟩
  · refine ⟨fun line hline => ?_, List.subset_append_left _ _⟩
    rcases List.mem_append.1 hline with hline | hline
    · exact hgood line hline
    · rw [List.mem_singleton.1 hline]
      exact Or.inl ⟨by simp, rfl⟩

/-- The lines of a group before others are named. -/
theorem ownLines_explained {lines : List DutyLine} (hgood : AllExplained live should duties offer lines)
    (group : Group × ℕ) : AllExplained live should duties offer
      (lines ++ partLines live should duties offer group ++ missingLines duties offer group) := by
  intro line hline
  rcases List.mem_append.1 hline with hline | hline
  · rcases List.mem_append.1 hline with hline | hline
    · exact hgood line hline
    · obtain ⟨row, -, hrow⟩ := List.mem_filterMap.1 hline
      split_ifs at hrow
      cases hrow
      exact Or.inr ⟨group, row, rfl⟩
  · unfold missingLines at hline
    split_ifs at hline
    · rw [List.mem_singleton.1 hline]
      exact Or.inl ⟨by simp, rfl⟩
    · cases hline

theorem groupLines_grows (group : Group × ℕ) :
    Grows (AllExplained live should duties offer) (groupLines live should who duties offer · group) := by
  intro lines hgood
  by_cases hwho : who ∈ group.1.providers
  · obtain ⟨hall, hsub⟩ := Grows.foldl (l := elsewhereOf who duties group) (fun w _ => addElsewhere_grows w) _
      (ownLines_explained hgood group)
    beta_reduce
    rw [groupLines_eq lines hwho]
    refine ⟨hall, List.Subset.trans ?_ hsub⟩
    rw [List.append_assoc]
    exact List.subset_append_left _ _
  · simp only [groupLines, if_pos hwho]
    exact ⟨hgood, List.Subset.refl _⟩

/-- **Every line is explained.** -/
theorem dutyLines_explained {groups : List Group} {assistant : Pubkey} :
    ∀ line ∈ dutyLines live should groups assistant duties offer, Explained live should duties offer line :=
  (Grows.foldl (fun group _ => groupLines_grows group) [] (by simp [AllExplained])).1

/-- **Every part has its line.** -/
theorem partLine_mem {groups : List Group} {assistant : Pubkey} {group : Group × ℕ} {row : OfferRow × ℕ}
    (hgroup : group ∈ groups.zipIdx) (hwho : lower assistant ∈ group.1.providers) (hrow : row ∈ offer.rows.zipIdx)
    (hpart : partOf duties offer group row ≠ []) :
    partLine live should group.1.key row.1 (partOf duties offer group row) ∈
      dutyLines live should groups assistant duties offer := by
  have hline : partLine live should group.1.key row.1 (partOf duties offer group row) ∈
      partLines live should duties offer group :=
    List.mem_filterMap.2 ⟨row, hrow, if_neg hpart⟩
  refine Grows.mem_foldl (fun group _ => groupLines_grows group) hgroup (fun lines hgood => ?_)
    (show AllExplained live should duties offer [] by simp [AllExplained])
  rw [groupLines_eq lines hwho]
  refine (Grows.foldl (fun w _ => addElsewhere_grows w) _ (ownLines_explained hgood group)).2 ?_
  exact List.mem_append_left _ (List.mem_append_right _ hline)

end

/-! ## The line of a part -/

section
variable {live : Probe → Option Live} {should : List Entry} {key : Key} {row : OfferRow} {part : List Duty}

/-- The probes of a part that are duties. -/
def onDuty (part : List Duty) : List Probe := (part.filter (·.duty)).map (·.probe)

/-- All duties of the part are live, and there is one. -/
def AllUp (live : Probe → Option Live) (part : List Duty) : Prop :=
  onDuty part ≠ [] ∧ ∀ probe ∈ onDuty part, (stateOf live probe).live = true

theorem partLine_live (h : AllUp live part) : (partLine live should key row part).status = .live ∧
    (partLine live should key row part).entries = entriesFor live should (onDuty part) := by
  have hdown : (onDuty part).find? (fun probe => !(stateOf live probe).live) = none := by
    rw [List.find?_eq_none]
    intro probe hprobe
    simp [h.2 probe hprobe]
  have hnone := h.1
  unfold partLine
  unfold onDuty at hnone hdown ⊢
  simp [hnone, hdown]

/-- A part that is not all live lists nothing. -/
theorem partLine_down (h : ¬ AllUp live part) : (partLine live should key row part).status ≠ .live ∧
    (partLine live should key row part).entries = [] := by
  unfold partLine
  by_cases hnone : onDuty part = []
  · unfold onDuty at hnone
    simp [hnone]
  · cases hdown : (onDuty part).find? fun probe => !(stateOf live probe).live with
    | some probe =>
      unfold onDuty at hnone hdown
      simp [hnone, hdown]
    | none =>
      refine absurd ⟨hnone, fun probe hprobe => ?_⟩ h
      simpa using List.find?_eq_none.1 hdown probe hprobe

/-- What is listed for probes that all have an entry. -/
theorem entriesFor_eq {entryOf : Probe → String × String} : ∀ {probes : List Probe},
    (∀ probe ∈ probes, ∃ w, winnerOf Prod.fst should probe = some w ∧
      (stateOf live probe).relay = some w.1.2 ∧ entryOf probe = (w.1.1.norm, w.1.2)) →
    entriesFor live should probes = (probes.map entryOf).eraseDups := by
  intro probes h
  have hmap : (probes.mapM fun probe => (winnerOf Prod.fst should probe).bind fun w =>
      if (stateOf live probe).relay = some w.1.2 then some (w.1.1.norm, w.1.2) else none) =
        some (probes.map entryOf) := by
    induction probes with
    | nil => rfl
    | cons probe probes ih =>
      obtain ⟨w, hw, hrelay, hentry⟩ := h probe List.mem_cons_self
      rw [List.mapM_cons, ih fun p hp => h p (List.mem_cons_of_mem probe hp)]
      simp [hw, hrelay, hentry]
  unfold entriesFor
  rw [hmap]
  rfl

end

/-! ## One story -/

section
variable {groups : List Group} {relay : String} {assistant : Pubkey} {scores : ScoresUpkeep} {offer : Offer}

/-- Only a Score of kind 30382 that a row answers is live. -/
theorem row_of_live {probe : Probe} (h : (evaluateLive probe offer scores).live = true) :
    ∃ row ∈ offer.rows, scoreKind ∈ row.key.kinds ∧ (evaluateLive probe offer scores).relay = some row.relay := by
  cases hrow : offer.answer probe with
  | none => simp [evaluateLive, hrow] at h
  | some found =>
    obtain ⟨row, i⟩ := found
    obtain ⟨hmem, hmatch⟩ := winnerOf_some hrow
    simp only [matchesProbe, Bool.and_eq_true, decide_eq_true_eq] at hmatch
    refine ⟨row, hmem, ?_⟩
    unfold evaluateLive at h ⊢
    simp only [hrow] at h ⊢
    split_ifs at h with hunchecked hscore hmetric hstatus
    · rw [not_or, not_not] at hmetric
      rw [if_neg hunchecked, if_pos hscore, if_neg (not_or.2 ⟨not_not.2 hmetric.1, hmetric.2⟩), if_pos hstatus]
      exact ⟨hmetric.1 ▸ hmatch.1, rfl⟩

theorem stateOf_duty (offer : Offer) (scores : ScoresUpkeep) {d : Duty} (hd : d ∈ dutiesFor groups assistant) :
    stateOf (liveOf groups offer scores) d.probe = evaluateLive d.probe offer scores := by
  obtain ⟨probe, hprobe, rfl⟩ := List.mem_map.1 hd
  simp only [stateOf, liveOf, if_pos hprobe, Option.getD_some]

/-- The entry that lists a Score. -/
def scoreEntry (relay : String) (probe : Probe) : String × String :=
  ("30382:" ++ (probe.scope.metric?.getD ""), relay)

/-- The entry that lists a probe is that of its Score. -/
theorem winner_of_score (hoffer : OffersScores relay offer) {m : String}
    (hentry : (metricKey m, relay) ∈ shouldOf groups offer assistant scores) :
    ∃ w, winnerOf Prod.fst (shouldOf groups offer assistant scores) ⟨scoreKind, .metric m⟩ = some w ∧
      w.1 = (metricKey m, relay) := by
  have hne := @winnerOf_ne_none _ Prod.fst _ _ _ hentry (matchesProbe_metricKey.2 rfl)
  obtain ⟨⟨entry, i⟩, hw⟩ := Option.ne_none_iff_exists'.1 hne
  obtain ⟨hmem, hmatch⟩ := winnerOf_some hw
  obtain ⟨-, m', -, rfl, -⟩ := (mem_shouldOf hoffer).1 hmem
  cases matchesProbe_metricKey.1 hmatch
  exact ⟨_, hw, rfl⟩

/-- A duty that is live is listed. -/
theorem entry_of_live (hoffer : OffersScores relay offer) {d : Duty} (hd : d ∈ dutiesFor groups assistant)
    (hduty : d.duty = true) (hlive : (stateOf (liveOf groups offer scores) d.probe).live = true) :
    ∃ w, winnerOf Prod.fst (shouldOf groups offer assistant scores) d.probe = some w ∧
      (stateOf (liveOf groups offer scores) d.probe).relay = some w.1.2 ∧
      scoreEntry relay d.probe = (w.1.1.norm, w.1.2) ∧ w.1 ∈ shouldOf groups offer assistant scores := by
  rw [stateOf_duty offer scores hd] at hlive ⊢
  obtain ⟨row, -, -, hrow⟩ := row_of_live hlive
  obtain ⟨hstatus, hrelay, m, hm, hprobe⟩ := evaluateLive_live hoffer hlive hrow
  have hentry : (metricKey m, relay) ∈ shouldOf groups offer assistant scores :=
    (mem_shouldOf hoffer).2 ⟨hstatus, m, hm, rfl, (duty_metric_iff hd hm hprobe).1 hduty⟩
  obtain ⟨w, hw, heq⟩ := winner_of_score hoffer hentry
  refine ⟨w, hprobe ▸ hw, ?_, ?_, heq ▸ hentry⟩
  · rw [hrow, hrelay, heq]
  · rw [heq, hprobe, metricKey_norm]
    rfl

theorem mem_onDuty {part : List Duty} {probe : Probe} :
    probe ∈ onDuty part ↔ ∃ d ∈ part, d.duty = true ∧ d.probe = probe := by
  simp [onDuty, and_assoc]

/-- What a live part lists. -/
theorem entriesFor_live (hoffer : OffersScores relay offer) {part : List Duty}
    (hpart : ∀ d ∈ part, d ∈ dutiesFor groups assistant)
    (hlive : ∀ probe ∈ onDuty part, (stateOf (liveOf groups offer scores) probe).live = true) :
    entriesFor (liveOf groups offer scores) (shouldOf groups offer assistant scores) (onDuty part) =
      ((onDuty part).map (scoreEntry relay)).eraseDups := by
  refine entriesFor_eq fun probe hprobe => ?_
  have hprobe' := hlive probe hprobe
  obtain ⟨d, hd, hduty, rfl⟩ := mem_onDuty.1 hprobe
  obtain ⟨w, hw, hrelay, hentry, -⟩ := entry_of_live hoffer (hpart d hd) hduty hprobe'
  exact ⟨w, hw, hrelay, hentry⟩

theorem mem_partOf {duties : List Duty} {group : Group × ℕ} {row : OfferRow × ℕ} {d : Duty} :
    d ∈ partOf duties offer group row ↔ d ∈ duties ∧ (∃ w, d.winner = some w ∧ w.2 = group.2) ∧
      ∃ r, offer.answer d.probe = some r ∧ r.2 = row.2 := by
  simp only [partOf, wonBy, List.mem_filter, Option.any_eq_true, decide_eq_true_eq, and_assoc]

/-- The line of a Score that is listed. -/
theorem line_of_entry (hoffer : OffersScores relay offer) {entry : Entry}
    (hentry : entry ∈ shouldOf groups offer assistant scores) :
    ∃ line ∈ dutyLines (liveOf groups offer scores) (shouldOf groups offer assistant scores) groups assistant
      (dutiesFor groups assistant) offer, line.status = .live ∧ (entry.1.norm, entry.2) ∈ line.entries := by
  obtain ⟨hstatus, m, hm, rfl, hnames⟩ := (mem_shouldOf hoffer).1 hentry
  obtain ⟨group, hwinner, hwho⟩ := mostSpecificNames_iff.1 hnames
  obtain ⟨j, hanswer⟩ := exists_answer_metric hoffer hm
  obtain ⟨d, hd, hprobe, -⟩ := dutyFor_of_mem assistant (metric_mem_probesOf groups hm)
  have hgroup : group ∈ groups.zipIdx := (mostSpecific_some hwinner).1
  have hrow : (⟨metricKey m, relay⟩, j) ∈ offer.rows.zipIdx := (mostSpecific_some hanswer).1
  have hmem : d ∈ partOf (dutiesFor groups assistant) offer group (⟨metricKey m, relay⟩, j) :=
    mem_partOf.2 ⟨hd, ⟨group, by rw [(mem_dutiesFor hd).1, hprobe, hwinner], rfl⟩, _, by rw [hprobe, hanswer], rfl⟩
  -- the row answers nothing but the metric
  have honly : ∀ d' ∈ partOf (dutiesFor groups assistant) offer group (⟨metricKey m, relay⟩, j),
      d' ∈ dutiesFor groups assistant ∧ d'.probe = ⟨scoreKind, .metric m⟩ := by
    intro d' hd'
    obtain ⟨hduty, -, r, hanswered, hj⟩ := mem_partOf.1 hd'
    obtain ⟨hplace, hmatch⟩ := mostSpecific_some hanswered
    have hrowj := List.mem_zipIdx_iff_getElem?.1 hplace
    rw [hj, List.mem_zipIdx_iff_getElem?.1 hrow, Option.some.injEq] at hrowj
    rw [← hrowj, matchesProbe_metricKey] at hmatch
    exact ⟨hduty, hmatch⟩
  have hon : d.probe ∈ onDuty (partOf (dutiesFor groups assistant) offer group (⟨metricKey m, relay⟩, j)) :=
    mem_onDuty.2 ⟨d, hmem, (duty_metric_iff hd hm hprobe).2 hnames, rfl⟩
  have hup : AllUp (liveOf groups offer scores)
      (partOf (dutiesFor groups assistant) offer group (⟨metricKey m, relay⟩, j)) := by
    refine ⟨List.ne_nil_of_mem hon, fun probe hon' => ?_⟩
    obtain ⟨d', hd', -, rfl⟩ := mem_onDuty.1 hon'
    rw [stateOf_duty _ _ (honly d' hd').1, (honly d' hd').2, evaluateLive_metric hoffer hm hstatus]
  obtain ⟨hlive, hentries⟩ := partLine_live hup
  refine ⟨_, partLine_mem hgroup hwho hrow (List.ne_nil_of_mem hmem), hlive, ?_⟩
  rw [hentries, entriesFor_live hoffer (fun d' hd' => (honly d' hd').1) hup.2, List.mem_eraseDups, List.mem_map]
  refine ⟨d.probe, hon, ?_⟩
  rw [hprobe, metricKey_norm]
  rfl

/-- Without a row for Scores nothing is listed. -/
theorem shouldOf_nil (hnone : ∀ row ∈ offer.rows, scoreKind ∉ row.key.kinds) :
    shouldOf groups offer assistant scores = [] := by
  obtain ⟨-, hlive, hperm, hwon⟩ := should_say_sound groups assistant (dutiesFor groups assistant)
    (liveOf groups offer scores) offer
  rw [List.eq_nil_iff_forall_not_mem]
  intro entry hentry
  obtain ⟨before, after, hsplit⟩ := List.append_of_mem (hperm.mem_iff.1 hentry)
  obtain ⟨d, hd, hduty, hw⟩ := hwon before entry after hsplit
  -- the entry matches a duty, so some entry wins it, and it would be live
  have hne := @winnerOf_ne_none _ Prod.fst _ _ _ hentry (winnerOf_some hw).2
  obtain ⟨⟨best, i⟩, hbest⟩ := Option.ne_none_iff_exists'.1 hne
  obtain ⟨state, hstate, hup, -⟩ := hlive d hd hduty best i hbest
  have hsame := stateOf_duty offer scores hd
  rw [stateOf, hstate, Option.getD_some] at hsame
  obtain ⟨row, hrow, hscore, -⟩ := row_of_live (hsame ▸ hup)
  exact hnone row hrow hscore

/-- A line that is live is about a part that is. -/
theorem part_of_live {line : DutyLine} (hline : line ∈ dutyLines (liveOf groups offer scores)
      (shouldOf groups offer assistant scores) groups assistant (dutiesFor groups assistant) offer)
    (hlive : line.status = .live) :
    ∃ part : List Duty, (∀ d ∈ part, d ∈ dutiesFor groups assistant) ∧ AllUp (liveOf groups offer scores) part ∧
      line.entries =
        entriesFor (liveOf groups offer scores) (shouldOf groups offer assistant scores) (onDuty part) := by
  rcases dutyLines_explained line hline with ⟨hnot, -⟩ | ⟨group, row, rfl⟩
  · exact absurd hlive hnot
  · by_cases hup : AllUp (liveOf groups offer scores) (partOf (dutiesFor groups assistant) offer group row)
    · exact ⟨_, fun d hd => (mem_partOf.1 hd).1, hup, (partLine_live hup).2⟩
    · exact absurd hlive (partLine_down hup).1

/-- A line that is not live lists nothing. -/
theorem entries_nil {line : DutyLine} (hline : line ∈ dutyLines (liveOf groups offer scores)
      (shouldOf groups offer assistant scores) groups assistant (dutiesFor groups assistant) offer)
    (hnot : line.status ≠ .live) : line.entries = [] := by
  rcases dutyLines_explained line hline with ⟨-, hnil⟩ | ⟨group, row, rfl⟩
  · exact hnil
  · by_cases hup : AllUp (liveOf groups offer scores) (partOf (dutiesFor groups assistant) offer group row)
    · exact absurd (partLine_live hup).1 hnot
    · exact (partLine_down hup).2

/-- Without a row for Scores no line is live. -/
theorem nothing_live (hnone : ∀ row ∈ offer.rows, scoreKind ∉ row.key.kinds) {line : DutyLine}
    (hline : line ∈ dutyLines (liveOf groups offer scores) (shouldOf groups offer assistant scores) groups assistant
      (dutiesFor groups assistant) offer) : line.status ≠ .live := by
  intro hlive
  obtain ⟨part, hpart, hup, -⟩ := part_of_live hline hlive
  obtain ⟨probe, hprobe⟩ := List.exists_mem_of_ne_nil _ hup.1
  have hprobe' := hup.2 probe hprobe
  obtain ⟨d, hd, -, rfl⟩ := mem_onDuty.1 hprobe
  rw [stateOf_duty _ _ (hpart d hd)] at hprobe'
  obtain ⟨row, hrow, hscore, -⟩ := row_of_live hprobe'
  exact hnone row hrow hscore

/-- Without a relay for Scores no row is for them. -/
theorem offerOf_offerRows_empty (settings : Settings) (assistant : Pubkey)
    (hrelay : settings.nostrUploadTaEventsRelayPublicUrl = "") :
    ∃ offer, offerOf (offerRows settings assistant) = some offer ∧
      ∀ row ∈ offer.rows, scoreKind ∉ row.key.kinds := by
  have hother : ∀ row ∈ offerRows settings assistant,
      row.1 = trustedListKindRow ∨ row.1 ∈ dictionaryKindRows := by
    intro row hrow
    rcases mem_offerRows hrow with ⟨m, -, rfl⟩ | hother
    · -- such a row would name the empty relay
      obtain ⟨full, hfull, heq⟩ := List.mem_map.1 hrow
      have hne := (List.mem_filter.1 hfull).2
      rw [Prod.mk.injEq] at heq
      rw [heq.2, hrelay] at hne
      simp at hne
    · exact hother
  obtain ⟨offer, hoffer, hrows⟩ := offerOf_of_parse fun row hrow =>
    (parseKey_other (hother row hrow)).imp fun _ hk => hk.1
  refine ⟨offer, hoffer, fun row hrow => ?_⟩
  obtain ⟨key, hmem, hkey⟩ := (hrows row).1 hrow
  obtain ⟨k, hk, hnot⟩ := parseKey_other (hother _ hmem)
  rw [hkey] at hk
  cases hk
  exact hnot

end

/-- The lines that are live and the list of what to say agree. -/
structure OneStory (check : SelfMapCheck) : Prop where
  listed : ∀ line ∈ check.duties, line.status = .live → line.entries ≠ []
  said : ∀ line ∈ check.duties, ∀ entry ∈ line.entries, entry ∈ check.shouldSay
  told : ∀ entry ∈ check.shouldSay, ∃ line ∈ check.duties, line.status = .live ∧ entry ∈ line.entries

/-- **One story.**  Every line that is live lists an entry, every entry of a line is said,
    and everything said is an entry of a live line. -/
theorem one_story (groups : List Group) (assistant : Pubkey) (scores : ScoresUpkeep) (settings : Settings) :
    ∃ check, evaluateSelfMap groups (offerRows settings assistant) assistant scores = some check ∧
      OneStory check := by
  by_cases hrelay : settings.nostrUploadTaEventsRelayPublicUrl = ""
  · obtain ⟨offer, hrows, hnone⟩ := offerOf_offerRows_empty settings assistant hrelay
    unfold evaluateSelfMap
    rw [hrows]
    have hnil : shouldOf groups offer assistant scores = [] := shouldOf_nil hnone
    refine ⟨_, rfl, fun line hline hlive => ?_, fun line hline entry hentry => ?_, by simp [hnil]⟩
    · exact absurd hlive (nothing_live hnone hline)
    · rw [entries_nil hline (nothing_live hnone hline)] at hentry
      cases hentry
  · obtain ⟨offer, hrows, hoffer⟩ := offerOf_offerRows settings assistant hrelay
    unfold evaluateSelfMap
    rw [hrows]
    refine ⟨_, rfl, fun line hline hlive => ?_, fun line hline entry hentry => ?_, fun entry hentry => ?_⟩
    · obtain ⟨part, hpart, hup, hentries⟩ := part_of_live hline hlive
      obtain ⟨probe, hprobe⟩ := List.exists_mem_of_ne_nil _ hup.1
      rw [hentries, entriesFor_live hoffer hpart hup.2]
      exact List.ne_nil_of_mem (List.mem_eraseDups.2 (List.mem_map_of_mem hprobe))
    · have hlive : line.status = .live := by
        by_contra hnot
        rw [entries_nil hline hnot] at hentry
        cases hentry
      obtain ⟨part, hpart, hup, hentries⟩ := part_of_live hline hlive
      rw [hentries, entriesFor_live hoffer hpart hup.2, List.mem_eraseDups, List.mem_map] at hentry
      obtain ⟨probe, hprobe, rfl⟩ := hentry
      have hlive' := hup.2 probe hprobe
      obtain ⟨d, hd, hduty, rfl⟩ := mem_onDuty.1 hprobe
      obtain ⟨w, -, -, heq, hmem⟩ := entry_of_live hoffer (hpart d hd) hduty hlive'
      exact List.mem_map.2 ⟨w.1, hmem, heq.symm⟩
    · obtain ⟨said, hsaid, rfl⟩ := List.mem_map.1 hentry
      exact line_of_entry hoffer hsaid

end SelfMap

end BrainstormServer
