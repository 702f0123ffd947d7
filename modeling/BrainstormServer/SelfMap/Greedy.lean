/-
  The greedy choice is sound (`build_should_say` of `app/services/self_map_build.py`), for
  every offer and whatever is live.

  A candidate is checked against the entries chosen so far only, and a later one may take
  probes from an earlier one.  It may take only those that are live where it is listed,
  so what the entries win stays live (`Sound`, kept by `tryKey_sound`).  The entries are
  sorted at the end, which changes no winner, as no two keys are equally specific
  (`winnerOf_perm`).
-/
import BrainstormServer.SelfMap.ShouldSay
import BrainstormServer.SelfMap.Total

namespace BrainstormServer

namespace SelfMap

open Nostr

/-! ## Winners -/

section
variable {T : Type} {keyOf : T → Key} {l l' : List T} {c c' : T} {i : ℕ} {probe : Probe}

/-- A list with one more at its end, taken apart at an element. -/
theorem snoc_eq_append_cons {before after : List T} (h : l ++ [c] = before ++ c' :: after) :
    (c' = c ∧ before = l ∧ after = []) ∨ ∃ after', after = after' ++ [c] ∧ l = before ++ c' :: after' := by
  rcases List.eq_nil_or_concat after with rfl | ⟨after', x, rfl⟩
  · obtain ⟨hl, hc⟩ := List.append_inj' h rfl
    exact Or.inl ⟨(List.singleton_inj.1 hc).symm, hl.symm, rfl⟩
  · rw [List.concat_eq_append, ← List.cons_append, ← List.append_assoc] at h
    obtain ⟨hl, hx⟩ := List.append_inj' h rfl
    rw [List.concat_eq_append, List.singleton_inj.1 hx]
    exact Or.inr ⟨after', rfl, hl⟩

/-- A candidate that comes last wins, or changes nothing. -/
theorem winnerOf_append (h : winnerOf keyOf (l ++ [c]) probe = some (c', i)) :
    (c' = c ∧ i = l.length) ∨ winnerOf keyOf l probe = some (c', i) := by
  obtain ⟨before, after, hl, rfl, hbest⟩ := winnerOf_iff.1 h
  rcases snoc_eq_append_cons hl with ⟨rfl, rfl, -⟩ | ⟨after', rfl, rfl⟩
  · exact Or.inl ⟨rfl, rfl⟩
  · refine Or.inr (winnerOf_iff.2 ⟨before, after', rfl, rfl, hbest.has, hbest.less, fun b hb => ?_⟩)
    exact hbest.notMore b (List.mem_append_left _ hb)

/-- The winner among the keys. -/
theorem winnerOf_map (h : winnerOf keyOf l probe = some (c, i)) :
    winnerOf id (l.map keyOf) probe = some (keyOf c, i) := by
  obtain ⟨before, after, rfl, rfl, hbest⟩ := winnerOf_iff.1 h
  refine winnerOf_iff.2 ⟨before.map keyOf, after.map keyOf, by simp, by simp, hbest.has, ?_, ?_⟩
  · intro b hb hmatch
    obtain ⟨x, hx, rfl⟩ := List.mem_map.1 hb
    exact hbest.less x hx hmatch
  · intro b hb hmatch
    obtain ⟨x, hx, rfl⟩ := List.mem_map.1 hb
    exact hbest.notMore x hx hmatch

end

/-! ## What is chosen -/

section
variable (duties : List Duty) (live : Probe → Option Live)

/-- The entries chosen so far: no key comes twice, what they win is live where they are
    listed, and each won a duty when it was added. -/
structure Sound (chosen : List Entry) : Prop where
  parsed : ∀ entry ∈ chosen, Shape entry.1
  distinct : (chosen.map fun entry => entry.1.norm).Nodup
  live : ∀ d ∈ duties, d.duty = true → ∀ entry i, winnerOf Prod.fst chosen d.probe = some (entry, i) →
    liveAt live entry.2 d.probe = true
  won : ∀ before entry after, chosen = before ++ entry :: after →
    ∃ d ∈ duties, d.duty = true ∧
      winnerOf id ((before ++ [entry]).map Prod.fst) d.probe = some (entry.1, before.length)

variable {duties live} {offer : Offer} {chosen : List Entry}

theorem sound_nil : Sound duties live [] where
  parsed := by simp
  distinct := List.nodup_nil
  live := by
    intro d _ _ entry i h
    cases h
  won := by simp

/-- A duty that a candidate would win, it wins as the last one. -/
theorem wouldWin_iff {candidate : Key} (relay : String) {d : Duty} : wouldWin chosen candidate d = true ↔
    d.duty = true ∧ winnerOf id ((chosen ++ [(candidate, relay)]).map Prod.fst) d.probe =
      some (candidate, chosen.length) := by
  have hkeys : (chosen ++ [(candidate, relay)]).map Prod.fst = chosen.map Prod.fst ++ [candidate] := by simp
  simp only [wouldWin, Bool.and_eq_true, hkeys, Option.any_eq_true, decide_eq_true_eq]
  constructor
  · rintro ⟨⟨hduty, -⟩, ⟨k, i⟩, hwin, rfl⟩
    refine ⟨hduty, ?_⟩
    -- the one at the last place is the candidate
    obtain ⟨before, after, hl, hlength, -⟩ := winnerOf_iff.1 hwin
    rcases snoc_eq_append_cons hl with ⟨rfl, -, -⟩ | ⟨after', -, hl⟩
    · exact hwin
    · have := congrArg List.length hl
      simp only [List.length_map, List.length_append, List.length_cons] at this
      omega
  · rintro ⟨hduty, hwin⟩
    exact ⟨⟨hduty, (winnerOf_some hwin).2⟩, _, hwin, rfl⟩

/-- **A candidate that is valid keeps the entries sound.** -/
theorem Sound.add {candidate : Key} {relay : String} (hsound : Sound duties live chosen)
    (hparsed : Shape candidate) (hhas : has chosen candidate.norm = false)
    (hvalid : valid duties live chosen candidate relay = true) :
    Sound duties live (chosen ++ [(candidate, relay)]) := by
  simp only [valid, Bool.and_eq_true, List.all_eq_true, List.any_eq_true, List.mem_filter, and_imp] at hvalid
  obtain ⟨hall, d, hd, hwin⟩ := hvalid
  refine ⟨fun entry hentry => ?_, ?_, fun d hd hduty entry i hw => ?_, fun before entry after hl => ?_⟩
  · rcases List.mem_append.1 hentry with hentry | hentry
    · exact hsound.parsed entry hentry
    · rw [List.mem_singleton.1 hentry]
      exact hparsed
  · rw [List.map_append, List.nodup_append]
    refine ⟨hsound.distinct, List.nodup_singleton _, fun norm hnorm norm' hnorm' heq => ?_⟩
    obtain ⟨entry, hentry, rfl⟩ := List.mem_map.1 hnorm
    rw [List.map_singleton, List.mem_singleton] at hnorm'
    have hfound : has chosen candidate.norm = true :=
      List.any_eq_true.2 ⟨entry, hentry, decide_eq_true (heq.trans hnorm')⟩
    rw [hhas] at hfound
    cases hfound
  · rcases winnerOf_append hw with ⟨rfl, rfl⟩ | hold
    · -- the candidate takes the probe
      exact hall d hd ((wouldWin_iff relay).2 ⟨hduty, winnerOf_map hw⟩)
    · exact hsound.live d hd hduty entry i hold
  · rcases snoc_eq_append_cons hl with ⟨rfl, rfl, -⟩ | ⟨after', -, rfl⟩
    · exact ⟨d, hd, (wouldWin_iff relay).1 hwin⟩
    · exact hsound.won before entry after' rfl

theorem tryKey_sound {candidate : Key} {more : List Entry} (hparsed : Shape candidate)
    (hsound : Sound duties live chosen) (h : tryKey duties live offer chosen (some candidate) = some more) :
    Sound duties live more ∧ chosen ⊆ more := by
  simp only [tryKey, Option.bind_some] at h
  split_ifs at h with hhas
  obtain ⟨row, -, h⟩ := Option.bind_eq_some_iff.1 h
  split_ifs at h with hvalid
  cases h
  exact ⟨hsound.add hparsed (Bool.eq_false_iff.2 hhas) hvalid, List.subset_append_left _ _⟩

/-! ## One key after the other -/

theorem tryMetric_sound (k : Key) (metric : String) :
    Grows (Sound duties live) (tryMetric duties live offer k · metric) := by
  intro chosen hsound
  simp only [tryMetric]
  split_ifs
  · cases hparse : parseKey (toString scoreKind ++ ":" ++ metric) with
    | none => exact ⟨hsound, List.Subset.refl _⟩
    | some candidate =>
      cases h : tryKey duties live offer chosen (some candidate) with
      | none => exact ⟨hsound, List.Subset.refl _⟩
      | some more => exact tryKey_sound (shape_of_parse hparse) hsound h
  · exact ⟨hsound, List.Subset.refl _⟩

theorem tryMeet_sound {k meet : Key} (hparsed : Shape meet) :
    Grows (Sound duties live) (tryMeet duties live offer k · meet) := by
  intro chosen hsound
  simp only [tryMeet]
  split
  · rename_i more hmore
    split_ifs at hmore
    exact tryKey_sound hparsed hsound hmore
  · split_ifs
    · exact ⟨hsound, List.Subset.refl _⟩
    · exact Grows.foldl (fun metric _ => tryMetric_sound k metric) chosen hsound

theorem trySelf_sound {k : Key} (hparsed : Shape k) :
    Grows (Sound duties live) (trySelf duties live offer · k) := by
  intro chosen hsound
  simp only [trySelf]
  split_ifs
  · exact ⟨hsound, List.Subset.refl _⟩
  · split
    · rename_i more hmore
      exact tryKey_sound hparsed hsound hmore
    · refine Grows.foldl (fun meet hmeet => tryMeet_sound ?_) chosen hsound
      obtain ⟨kind, hmeet⟩ := meet_of_mem ((List.perm_insertionSort _ _).mem_iff.1 hmeet)
      exact shape_of_parse hmeet

variable (duties live offer) in
/-- The entries in the order they are chosen. -/
def chosenInOrder (groups : List Group) (assistant : Pubkey) : List Entry :=
  (sortBy Before ((groups.filter fun g => lower assistant ∈ g.providers).map Group.key)).foldl
    (trySelf duties live offer) []

variable (duties live offer) in
theorem chosenInOrder_sound (groups : List Group) (assistant : Pubkey) :
    Sound duties live (chosenInOrder duties live offer groups assistant) := by
  refine (Grows.foldl (fun k hk => ?_) [] sound_nil).1
  obtain ⟨g, -, rfl⟩ := List.mem_map.1 ((List.perm_insertionSort _ _).mem_iff.1 hk)
  obtain ⟨text, htext⟩ := g.parsed
  exact trySelf_sound (shape_of_parse htext)

variable (duties live offer) in
/-- They are returned in the offer's order. -/
theorem buildShouldSay_perm (groups : List Group) (assistant : Pubkey) :
    (buildShouldSay duties live offer groups assistant).Perm (chosenInOrder duties live offer groups assistant) :=
  List.perm_insertionSort _ _

/-- Entries of one key are the same entry. -/
theorem Sound.entry_eq (hsound : Sound duties live chosen) {entry entry' : Entry} (h : entry ∈ chosen)
    (h' : entry' ∈ chosen) (hspec : specificity entry.1 = specificity entry'.1) : entry = entry' :=
  List.inj_on_of_nodup_map hsound.distinct h h'
    (norm_eq_of_specificity (hsound.parsed entry h) (hsound.parsed entry' h') hspec)

end

/-- **The greedy choice is sound**, for every offer, whatever the duties are and whatever is
    live: no key is listed twice, every duty that an entry wins among them is live at its
    relay, and each entry won a duty when it was added. -/
theorem should_say_sound (groups : List Group) (assistant : Pubkey) (duties : List Duty)
    (live : Probe → Option Live) (offer : Offer) :
    ((buildShouldSay duties live offer groups assistant).map fun entry => entry.1.norm).Nodup ∧
    (∀ d ∈ duties, d.duty = true → ∀ entry i,
      winnerOf Prod.fst (buildShouldSay duties live offer groups assistant) d.probe = some (entry, i) →
        ∃ state, live d.probe = some state ∧ state.live = true ∧ state.relay = some entry.2) ∧
    (buildShouldSay duties live offer groups assistant).Perm (chosenInOrder duties live offer groups assistant) ∧
    ∀ before entry after, chosenInOrder duties live offer groups assistant = before ++ entry :: after →
      ∃ d ∈ duties, d.duty = true ∧
        winnerOf id ((before ++ [entry]).map Prod.fst) d.probe = some (entry.1, before.length) := by
  have hperm := buildShouldSay_perm duties live offer groups assistant
  have hsound := chosenInOrder_sound duties live offer groups assistant
  refine ⟨?_, fun d hd hduty entry i hw => ?_, hperm, hsound.won⟩
  · exact ((hperm.map fun entry => entry.1.norm).nodup_iff).2 hsound.distinct
  · obtain ⟨j, hj⟩ := winnerOf_perm hperm (fun a ha b hb hspec =>
      hsound.entry_eq (hperm.mem_iff.1 ha) (hperm.mem_iff.1 hb) hspec) hw
    have hlive := hsound.live d hd hduty entry j hj
    simpa only [liveAt, Option.any_eq_true, Bool.and_eq_true, decide_eq_true_eq] using hlive

end SelfMap

end BrainstormServer
