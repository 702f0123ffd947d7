/-
  When the follow count is not read (`asks_for_scores` of `app/services/self_map_build.py`, as
  `app/services/self_map_service.py` uses it).

  Whether the Scores are kept up to date costs a query, and it is asked for only if a key of
  the reader's Map names the Assistant and covers kind 30382.

  * `Alike`: two readings of what is live that differ on probes of kind 30382 only;
  * `buildShouldSay_congr`, `dutyLines_congr`: the entries and the lines look at no probe that
    the Assistant's keys do not win;
  * `upkeep_read_only_if_asked`: so for such a Map the answer would not change the check.
-/
import BrainstormServer.SelfMap.Lines
import Mathlib.Data.List.Find

namespace BrainstormServer

namespace SelfMap

open Nostr

/-- `asks_for_scores`. -/
def asksForScores (groups : List Group) (assistant : Pubkey) : Bool :=
  groups.any fun g => lower assistant ∈ g.providers ∧ scoreKind ∈ g.key.kinds

section
variable {live live' : Probe → Option Live} {duties part : List Duty} {offer : Offer} {should : List Entry}

/-! ## The entries -/

theorem valid_congr (h : ∀ d ∈ duties, d.duty = true → live d.probe = live' d.probe) (chosen : List Entry)
    (candidate : Key) (relay : String) :
    valid duties live chosen candidate relay = valid duties live' chosen candidate relay := by
  have hall : ∀ d ∈ duties.filter (wouldWin chosen candidate),
      liveAt live relay d.probe = liveAt live' relay d.probe := by
    intro d hd
    obtain ⟨hmem, hwin⟩ := List.mem_filter.1 hd
    simp only [wouldWin, Bool.and_eq_true] at hwin
    rw [liveAt, liveAt, h d hmem hwin.1.1]
  have heq : (duties.filter (wouldWin chosen candidate)).all (fun d => liveAt live relay d.probe) =
      (duties.filter (wouldWin chosen candidate)).all (fun d => liveAt live' relay d.probe) := by
    rw [Bool.eq_iff_iff, List.all_eq_true, List.all_eq_true]
    exact forall₂_congr fun d hd => by rw [hall d hd]
  rw [valid, valid, heq]

/-- The entries look at the Assistant's duties only. -/
theorem buildShouldSay_congr (h : ∀ d ∈ duties, d.duty = true → live d.probe = live' d.probe) (groups : List Group)
    (assistant : Pubkey) :
    buildShouldSay duties live offer groups assistant = buildShouldSay duties live' offer groups assistant := by
  have htry : tryKey duties live offer = tryKey duties live' offer := by
    funext chosen candidate
    simp only [tryKey, valid_congr h]
  have hmetric : tryMetric duties live offer = tryMetric duties live' offer := by
    funext k chosen metric
    simp only [tryMetric, htry]
  have hmeet : tryMeet duties live offer = tryMeet duties live' offer := by
    funext k chosen meet
    simp only [tryMeet, htry, hmetric]
  have hself : trySelf duties live offer = trySelf duties live' offer := by
    funext chosen k
    simp only [trySelf, htry, hmeet]
  rw [buildShouldSay, buildShouldSay, hself]

/-! ## The lines -/

theorem entriesFor_congr {onDuty : List Probe} (h : ∀ probe ∈ onDuty, stateOf live probe = stateOf live' probe) :
    entriesFor live should onDuty = entriesFor live' should onDuty := by
  have hmap : (onDuty.mapM fun probe => (winnerOf Prod.fst should probe).bind fun w =>
      if (stateOf live probe).relay = some w.1.2 then some (w.1.1.norm, w.1.2) else none) =
      onDuty.mapM fun probe => (winnerOf Prod.fst should probe).bind fun w =>
      if (stateOf live' probe).relay = some w.1.2 then some (w.1.1.norm, w.1.2) else none := by
    induction onDuty with
    | nil => rfl
    | cons probe onDuty ih =>
      rw [List.mapM_cons, List.mapM_cons, h probe List.mem_cons_self,
        ih fun p hp => h p (List.mem_cons_of_mem probe hp)]
  rw [entriesFor, entriesFor, hmap]

theorem partLine_congr (h : ∀ d ∈ part, live d.probe = live' d.probe) (key : Key) (row : OfferRow) :
    partLine live should key row part = partLine live' should key row part := by
  have hstate : ∀ d ∈ part, stateOf live d.probe = stateOf live' d.probe := fun d hd => by
    rw [stateOf, stateOf, h d hd]
  have hduty : ∀ probe ∈ (part.filter (·.duty)).map (·.probe), stateOf live probe = stateOf live' probe := by
    intro probe hprobe
    obtain ⟨d, hd, rfl⟩ := List.mem_map.1 hprobe
    exact hstate d (List.mem_filter.1 hd).1
  have hfirst : (part.head?.map fun d => stateOf live d.probe) = part.head?.map fun d => stateOf live' d.probe :=
    Option.map_congr fun d hd => hstate d (List.mem_of_mem_head? hd)
  have hfind : ((part.filter (·.duty)).map (·.probe)).find? (fun probe => !(stateOf live probe).live) =
      ((part.filter (·.duty)).map (·.probe)).find? (fun probe => !(stateOf live' probe).live) :=
    List.find?_congr fun probe hprobe => by rw [hduty probe hprobe]
  unfold partLine
  simp only [hfirst, hfind, entriesFor_congr hduty]
  split_ifs
  · rfl
  · rfl
  · split
    · rename_i probe hdown
      rw [hduty probe (List.mem_of_find?_eq_some hdown)]
    · rfl

/-- A group that wins a probe covers its kind. -/
theorem kind_of_won {groups : List Group} {assistant : Pubkey} {group : Group × ℕ} (hgroup : group ∈ groups.zipIdx)
    {d : Duty} (hd : d ∈ wonBy (dutiesFor groups assistant) group) : d.probe.kind ∈ group.1.key.kinds := by
  obtain ⟨hmem, hwon⟩ := List.mem_filter.1 hd
  obtain ⟨w, hw, hindex⟩ := (Option.any_eq_true _ _).1 hwon
  rw [(mem_dutiesFor hmem).1] at hw
  obtain ⟨before, after, hsplit, hlength, hbest⟩ := winnerOf_iff.1 hw
  have hplace : groups[group.2]? = some w.1 := by
    rw [← of_decide_eq_true hindex, ← hlength, hsplit, List.getElem?_append_right le_rfl, Nat.sub_self]
    rfl
  have hsame : group.1 = w.1 := Option.some.inj ((List.mem_zipIdx_iff_getElem?.1 hgroup).symm.trans hplace)
  have hmatch := hbest.has
  rw [matchesProbe, Bool.and_eq_true] at hmatch
  rw [hsame]
  exact of_decide_eq_true hmatch.1

/-- The lines look at what the Assistant's keys win. -/
theorem dutyLines_congr {groups : List Group} {assistant : Pubkey} (h : ∀ group ∈ groups.zipIdx,
    lower assistant ∈ group.1.providers → ∀ d ∈ wonBy duties group, live d.probe = live' d.probe) :
    dutyLines live should groups assistant duties offer = dutyLines live' should groups assistant duties offer := by
  refine List.foldl_ext _ _ _ fun lines group hgroup => ?_
  by_cases hwho : lower assistant ∈ group.1.providers
  · have hparts : partLines live should duties offer group = partLines live' should duties offer group := by
      refine List.filterMap_congr fun row _ => ?_
      have hpart : ∀ d ∈ partOf duties offer group row, live d.probe = live' d.probe :=
        fun d hd => h group hgroup hwho d (List.mem_filter.1 hd).1
      rw [partLine_congr hpart]
    rw [groupLines_eq lines hwho, groupLines_eq lines hwho, hparts]
  · rw [groupLines, groupLines, if_pos hwho, if_pos hwho]

end

/-! ## The check -/

theorem evaluateLive_congr {probe : Probe} (h : probe.kind ≠ scoreKind) (offer : Offer) (scores scores' : ScoresUpkeep) :
    evaluateLive probe offer scores = evaluateLive probe offer scores' := by
  unfold evaluateLive
  simp only [if_pos (Or.inl h)]

/-- **The upkeep is read only if it counts.**  Where no key that names the Assistant covers the
    kind of the Scores, the check is the same whatever the upkeep is. -/
theorem upkeep_read_only_if_asked (groups : List Group) (rows : List (String × String)) (assistant : Pubkey)
    (scores scores' : ScoresUpkeep) (h : asksForScores groups assistant = false) :
    evaluateSelfMap groups rows assistant scores = evaluateSelfMap groups rows assistant scores' := by
  have hnot : ∀ g ∈ groups, lower assistant ∈ g.providers → scoreKind ∉ g.key.kinds := by
    intro g hg hwho hkind
    have hasks := List.any_eq_false.1 h g hg
    exact hasks (decide_eq_true ⟨hwho, hkind⟩)
  have hlive : ∀ offer {probe : Probe}, probe.kind ≠ scoreKind →
      liveOf groups offer scores probe = liveOf groups offer scores' probe := fun offer probe hkind => by
    rw [liveOf, liveOf, evaluateLive_congr hkind offer scores scores']
  have hduty : ∀ offer, ∀ d ∈ dutiesFor groups assistant, d.duty = true →
      liveOf groups offer scores d.probe = liveOf groups offer scores' d.probe := by
    intro offer d hd hduty
    rw [(mem_dutiesFor hd).2, isDuty, Option.any_eq_true] at hduty
    obtain ⟨w, hw, hwho⟩ := hduty
    obtain ⟨hmem, hmatch⟩ := winnerOf_some hw
    rw [matchesProbe, Bool.and_eq_true] at hmatch
    refine hlive offer fun hkind => hnot w.1 hmem (of_decide_eq_true hwho).1 ?_
    exact hkind ▸ of_decide_eq_true hmatch.1
  have hline : ∀ offer, ∀ group ∈ groups.zipIdx, lower assistant ∈ group.1.providers →
      ∀ d ∈ wonBy (dutiesFor groups assistant) group,
        liveOf groups offer scores d.probe = liveOf groups offer scores' d.probe := by
    intro offer group hgroup hwho d hd
    refine hlive offer fun hkind => hnot group.1 (List.fst_mem_of_mem_zipIdx hgroup) hwho ?_
    exact hkind ▸ kind_of_won hgroup hd
  unfold evaluateSelfMap
  refine congrFun (congrArg Option.map (funext fun offer => ?_)) _
  have hshould : shouldOf groups offer assistant scores = shouldOf groups offer assistant scores' :=
    buildShouldSay_congr (hduty offer) groups assistant
  simp only [hshould, dutyLines_congr (hline offer)]

/-- A Map that designates the Assistant for Trusted Lists only. -/
def listMap : List Group := [⟨⟨"30392", "30392", [30392], [], 3, .all⟩, {"ab"}, "30392", by decide⟩]

theorem listMap_without_upkeep :
    evaluateSelfMap listMap (offerRows sampleSettings "ab") "ab" ⟨.live, none⟩ =
      evaluateSelfMap listMap (offerRows sampleSettings "ab") "ab" ⟨.upkeepStopped, some 7⟩ :=
  upkeep_read_only_if_asked _ _ _ _ _ (by decide)

end SelfMap

end BrainstormServer
