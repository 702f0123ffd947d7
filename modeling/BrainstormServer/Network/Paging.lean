/-
  Following the cursor (`get_user_connections` of `app/services/user_service.py`).

  A request is made page by page, each with the cursor that the page before told, and what is
  listed does not change in between.

  * `askPage_eq`: a page is a part of the query's answer, whatever the kind;
  * `pages_visit_all`: the pages, one after the other, have every match once, in order.
-/
import BrainstormServer.Network.Connections

namespace BrainstormServer

namespace Network

open Conc (Truth Cond KeyThen After Page)
open BrainstormServer.Graph (Rel)

section
variable {R : Type} [Field R] [LinearOrder R]

/-! ## Requests -/

section
variable (u : Users R) (pubkey : Pubkey) (cutoffs : VerifiedCutoffs R) (observer : Option String)
  (request : ConnectionsRequest)

/-- The parameters of a request. -/
def requestParams : Params R :=
  match request.kind with
  | .flagged => ⟨cutoffs.verifiedLine, cutoffs.verifiedLine⟩
  | .section kind => ⟨cutoffs.forKind kind, cutoffs.verifiedLine⟩

/-- Whom a request is about: everyone at the other end. -/
def requestConns : List (Conn R) :=
  let others := match request.kind with
    | .flagged => neighbours u pubkey
    | .section kind => scopedMatch u kind pubkey
  others.map (connOf u (influenceKeyOf observer pubkey) cutoffs.reporter)

/-- Who matches a request: who is flagged, or who is of the tier and verified where that is
    asked for. -/
def isMatch (other : Conn R) : Bool :=
  let tier := tierOf (requestParams cutoffs request) other
  match request.kind with
  | .flagged => tier = .flagged
  | .section _ =>
    (request.tier.all fun name => name ∉ tierPredicates.map (·.1.name) ∨ tier.name = name) &&
    (!request.verifiedOnly || other.influence.any ((requestParams cutoffs request).verifiedCutoff < ·))

/-- The query of a request. -/
def requestQuery (place : Option (R × Pubkey)) : Query R :=
  match request.kind with
  | .flagged => flaggedQuery request.limit.toNat (place.map Prod.fst) (place.map Prod.snd) cutoffs.verifiedLine
      request.order
  | .section kind => sectionQuery request.limit.toNat (place.map Prod.fst) (place.map Prod.snd) (cutoffs.forKind kind)
      cutoffs.verifiedLine request.order request.tier request.verifiedOnly

/-- The item of a match. -/
def itemOf (row : Conn R) : UserConnectionItem R :=
  rowToItem (some (tierOf (requestParams cutoffs request) row)) row

/-- The matches, in order. -/
def sortedMatches : List (Conn R) :=
  sortBy (orderBy request.order) ((requestConns u pubkey cutoffs observer request).filter (isMatch cutoffs request))

/-- Where the page after an item starts. -/
def placeOf (lib : CursorLib R) (item : UserConnectionItem R) : String :=
  encodeCursor lib (item.influence.getD (-1)) item.pubkey

/-- A page, as the client sees it. -/
def askPage (lib : CursorLib R) (cursor : Option String) : Option (Page (UserConnectionItem R) String) :=
  (getUserConnections lib u pubkey cutoffs observer request cursor).toOption.map fun page =>
    ⟨page.items, page.nextCursor⟩

end

/-! ## Cursors -/

/-- A cursor is read back, when `json` reads back what it writes. -/
theorem readCursor_encode {R : Type} {lib : CursorLib R} {x : R} {p : Pubkey}
    (hround : lib.loads (lib.dumps x p) = .ok (x, p)) (hsome : lib.dumps x p ≠ []) :
    readCursor lib (some (encodeCursor lib x p)) = .ok (some (x, p)) := by
  have hne : encodeCursor lib x p ≠ "" := by
    intro h
    have hnil : Vault.urlsafeB64encode (lib.dumps x p) = [] := by
      rw [← String.toList_ofList (l := Vault.urlsafeB64encode _)]
      exact congrArg String.toList h
    have hread := Vault.a2bBase64_encode (lib.dumps x p)
    rw [hnil] at hread
    exact hsome (Option.some.inj hread).symm
  have hdecode : decodeCursor lib (encodeCursor lib x p) = .ok (x, p) := by
    rw [decodeCursor, encodeCursor, String.toList_ofList, Vault.a2bBase64_encode]
    exact hround
  rw [readCursor, if_neg hne, hdecode]

/-- The pages of rows, as the client sees them. -/
theorem page_items (lib : CursorLib R) (limit : ℕ) (rows : List (Conn R)) :
    (⟨(rows.take limit).map (itemOf cutoffs request),
      (lastCursor limit (rows.take limit)).map fun last => encodeCursor lib last.1 last.2⟩ : Page _ _) =
      Conc.page (placeOf lib) limit (rows.map (itemOf cutoffs request)) := by
  rw [Conc.page_map, Conc.page, lastCursor]
  congr 1
  split_ifs
  · rw [Option.map_map]
    rfl
  · rfl

/-! ## Matches -/

section
variable [IsStrictOrderedRing R]

/-- A tier that is not known filters nothing. -/
theorem build_holds (params : Params R) (tier : Option String) (other : Conn R) :
    ((buildTierPredicate tier).all fun cond => cond.holds (env params other)) =
      tier.all fun name => name ∉ tierPredicates.map (·.1.name) ∨ (tierOf params other).name = name := by
  cases tier with
  | none => rfl
  | some name =>
    by_cases hknown : name ∈ tierPredicates.map (·.1.name)
    · obtain ⟨⟨tier, -⟩, -, rfl⟩ := List.mem_map.1 hknown
      obtain ⟨cond, hbuild, hmem⟩ := build_tier tier
      have hcond : cond.holds (env params other) = decide (tier = tierOf params other) := tierPredicate_holds _ hmem
      have hname : tier.name ∈ tierPredicates.map (·.1.name) := List.mem_map.2 ⟨_, hmem, rfl⟩
      rw [hbuild, Option.all_some, Option.all_some, hcond]
      simp only [hname, not_true, false_or, Tier.name_inj, eq_comm]
    · have hnone : buildTierPredicate (some name) = none := by
        have hfind : tierPredicates.find? (fun arm => arm.1.name = name) = none := by
          refine List.find?_eq_none.2 fun arm harm h => hknown (List.mem_map.2 ⟨arm, harm, of_decide_eq_true h⟩)
        rw [buildTierPredicate, Option.bind_some, hfind, Option.map_none]
      rw [hnone, Option.all_none, Option.all_some]
      simp [hknown]

variable (u : Users R) (pubkey : Pubkey) (cutoffs : VerifiedCutoffs R) (observer : Option String)
  (request : ConnectionsRequest)

/-- The filter keeps whoever matches. -/
theorem filterWhere_request (place : Option (R × Pubkey)) (other : Conn R) :
    ((requestQuery cutoffs request place).filterWhere other).holds = isMatch cutoffs request other := by
  have hall : ∀ q : Query R, (q.filterWhere other).holds =
      q.filterParts.all fun part => part.holds (env q.params other) := by
    intro q
    rw [Query.filterWhere, Truth.holds_conj, List.all_map]
    rfl
  rw [hall]
  obtain ⟨kind, limit, order, tier, verifiedOnly, withTotal⟩ := request
  cases kind with
  | flagged =>
    obtain ⟨cond, hcond⟩ : ∃ cond, tierPredicates.lookup Tier.flagged = some cond := ⟨_, rfl⟩
    let params : Params R := ⟨cutoffs.verifiedLine, cutoffs.verifiedLine⟩
    have hholds : cond.holds (env params other) = decide (Tier.flagged = tierOf params other) :=
      tierPredicate_holds _ (Conc.mem_of_lookup hcond)
    have hparts : (tierPredicates.lookup Tier.flagged).toList = [cond] := by rw [hcond]; rfl
    show (tierPredicates.lookup Tier.flagged).toList.all (fun part => part.holds (env params other)) =
      decide (tierOf params other = .flagged)
    rw [hparts, List.all_cons, List.all_nil, Bool.and_true, hholds]
    simp only [eq_comm]
  | «section» kind =>
    let params : Params R := ⟨cutoffs.forKind kind, cutoffs.verifiedLine⟩
    have hverified : (verified .verifiedCutoff).holds (env params other) =
        other.influence.any (cutoffs.forKind kind < ·) := verified_holds rfl
    show (filterParts tier verifiedOnly).all (fun part => part.holds (env params other)) =
      ((tier.all fun name => name ∉ tierPredicates.map (·.1.name) ∨ (tierOf params other).name = name) &&
        (!verifiedOnly || other.influence.any (cutoffs.forKind kind < ·)))
    rw [filterParts, List.all_append, ← build_holds]
    congr 1
    · cases buildTierPredicate tier <;> simp
    · cases verifiedOnly with
      | false => rfl
      | true => simpa using hverified

/-- The rows of a request are sorted, whatever the cursor. -/
theorem sorted_request (place : Option (R × Pubkey)) (others : List (Conn R)) :
    (requestQuery cutoffs request place).sorted others =
      sortBy (orderBy request.order) (others.filter (isMatch cutoffs request)) := by
  have horder : (requestQuery cutoffs request place).order = request.order := by
    unfold requestQuery
    cases request.kind <;> rfl
  rw [Query.sorted, horder]
  simp only [filterWhere_request]

theorem general_request (place : Option (R × Pubkey)) :
    ((requestQuery cutoffs request place).general (requestConns u pubkey cutoffs observer request)).1 =
      ((sortedMatches u pubkey cutoffs observer request).filter fun row => place.all fun place =>
        After (request.order = "asc") Conn.sortInf Conn.pubkey place row).take request.limit.toNat := by
  rw [general_eq, sorted_request]
  obtain ⟨kind, limit, order, tier, verifiedOnly, withTotal⟩ := request
  cases kind <;> simp only [requestQuery, flaggedQuery, sectionQuery, cursorParams_map] <;> rfl

omit [IsStrictOrderedRing R] in
/-- No two matches are of one pubkey. -/
theorem nodup_matches (hdistinct : ∀ kind, request.kind = .section kind → (scopedMatch u kind pubkey).Nodup) :
    ((sortedMatches u pubkey cutoffs observer request).map Conn.pubkey).Nodup := by
  have hconns : ((requestConns u pubkey cutoffs observer request).map Conn.pubkey).Nodup := by
    have hself : ∀ others : List Pubkey,
        (others.map (connOf u (influenceKeyOf observer pubkey) cutoffs.reporter)).map Conn.pubkey = others :=
      fun others => List.map_map.trans (List.map_id' others)
    rw [requestConns, hself]
    cases hkind : request.kind with
    | flagged => exact Conc.nodup_firsts _
    | «section» kind => exact hdistinct kind hkind
  exact ((Conc.perm_sortBy _).map _).nodup_iff.2 (hconns.sublist (List.filter_sublist.map _))

/-! ## Page by page -/

omit [IsStrictOrderedRing R] in
/-- A row of a request is of the tier that its item names. -/
theorem tier_flagged {request : ConnectionsRequest} {row : Conn R} (hkind : request.kind = .flagged)
    (h : isMatch cutoffs request row = true) : tierOf (requestParams cutoffs request) row = .flagged := by
  rw [isMatch] at h
  rw [hkind] at h
  exact of_decide_eq_true h

/-- The rows of the flagged list are its items, under their own tier. -/
theorem flagged_items (hkind : request.kind = .flagged) (place : Option (R × Pubkey)) :
    ((requestQuery cutoffs request place).general (requestConns u pubkey cutoffs observer request)).1.map
        (rowToItem (some .flagged)) =
      ((requestQuery cutoffs request place).general (requestConns u pubkey cutoffs observer request)).1.map
        (itemOf cutoffs request) := by
  refine List.map_congr_left fun row hrow => ?_
  have hmatch := (filterWhere_request cutoffs request place row).symm.trans (mem_general hrow).2
  rw [itemOf, tier_flagged cutoffs hkind hmatch]

/-- Either kind lists the matches, each under its tier. -/
theorem listKind_eq (place : Option (R × Pubkey)) :
    listKind u pubkey cutoffs (influenceKeyOf observer pubkey) request request.limit.toNat (place.map Prod.fst)
        (place.map Prod.snd) =
      let record := (requestQuery cutoffs request place).general (requestConns u pubkey cutoffs observer request)
      (record.1.map (itemOf cutoffs request), lastCursor request.limit.toNat record.1,
        if request.withTotal then some record.2 else none) := by
  obtain ⟨kind, limit, order, tier, verifiedOnly, withTotal⟩ := request
  cases kind with
  | flagged =>
    refine (flaggedConnections_eq ..).trans ?_
    have hitems := flagged_items u pubkey cutoffs observer
      ⟨.flagged, limit, order, tier, verifiedOnly, withTotal⟩ rfl place
    exact Prod.ext hitems rfl
  | «section» kind =>
    refine (sectionConnections_eq ..).trans ?_
    exact Prod.ext (List.map_congr_left fun row _ => by rw [tierCase_eq]; rfl) rfl

/-- **A page of a request**: the rows of its query, and the place of the last of them. -/
theorem askPage_eq {cursor : Option String} {place : Option (R × Pubkey)} (hcursor : readCursor lib cursor = .ok place)
    (hlimit : 1 ≤ request.limit ∧ request.limit ≤ maxPageSize) :
    askPage u pubkey cutoffs observer request lib cursor =
      let rows := ((requestQuery cutoffs request place).general
        (requestConns u pubkey cutoffs observer request)).1
      some ⟨rows.map (itemOf cutoffs request),
        (lastCursor request.limit.toNat rows).map fun last => encodeCursor lib last.1 last.2⟩ := by
  have hclamp : (max 1 (min request.limit maxPageSize)).toNat = request.limit.toNat := by
    rw [min_eq_left hlimit.2, max_eq_right hlimit.1]
  unfold askPage getUserConnections
  rw [hcursor, hclamp]
  simp only [bind, Except.bind, listKind_eq]
  generalize (requestQuery cutoffs request place).general (requestConns u pubkey cutoffs observer request) = record
  have hitems : (record.1.map (itemOf cutoffs request)).map
      (fun it => { it with influence := Finite.safeFloat it.influence }) = record.1.map (itemOf cutoffs request) :=
    List.map_map.trans rfl
  refine congrArg some ?_
  dsimp only
  rw [hitems]
  cases lastCursor request.limit.toNat record.1 <;> rfl

/-- **The pages have every match once, in order.**  The cursor of a page is followed until there
    is none; the floats and the pubkeys of the rows go through JSON and come back. -/
theorem pages_visit_all (lib : CursorLib R) (u : Users R) (pubkey : Pubkey) (cutoffs : VerifiedCutoffs R)
    (observer : Option String) (request : ConnectionsRequest)
    (hround : ∀ row ∈ requestConns u pubkey cutoffs observer request,
      lib.loads (lib.dumps row.sortInf row.pubkey) = .ok (row.sortInf, row.pubkey))
    (hsome : ∀ row ∈ requestConns u pubkey cutoffs observer request, lib.dumps row.sortInf row.pubkey ≠ [])
    (hlimit : 1 ≤ request.limit ∧ request.limit ≤ maxPageSize)
    (hdistinct : ∀ kind, request.kind = .section kind → (scopedMatch u kind pubkey).Nodup) :
    (∃ pages, (∀ fuel, (requestConns u pubkey cutoffs observer request).length < fuel →
        Conc.follow (askPage u pubkey cutoffs observer request lib) fuel none = some pages) ∧
      pages.flatten.Perm (((requestConns u pubkey cutoffs observer request).filter (isMatch cutoffs request)).map
        (itemOf cutoffs request)) ∧
      pages.flatten.Pairwise (fun a b => (if request.order = "asc" then a.influence.getD (-1) < b.influence.getD (-1)
          else b.influence.getD (-1) < a.influence.getD (-1)) ∨
        (a.influence.getD (-1) = b.influence.getD (-1) ∧ a.pubkey < b.pubkey)) ∧
      ∀ page ∈ pages, page.length ≤ request.limit) ∧
    ∀ (q : Query R) (others : List (Conn R)), q.singlePass others = q.general others := by
  refine ⟨?_, singlePass_eq⟩
  set matched := sortedMatches u pubkey cutoffs observer request with hmatched
  have hnodup : (matched.map Conn.pubkey).Nodup := nodup_matches u pubkey cutoffs observer request hdistinct
  have hsorted : matched.Pairwise (orderBy request.order) := Conc.pairwise_sortBy _
  have hpos : 0 < request.limit.toNat := by omega
  have hstart : askPage u pubkey cutoffs observer request lib none =
      some (Conc.page (placeOf lib) request.limit.toNat (matched.map (itemOf cutoffs request))) := by
    have hall : (matched.filter fun _ => true) = matched := List.filter_eq_self.2 fun _ _ => rfl
    rw [askPage_eq u pubkey cutoffs observer request (rfl : readCursor lib none = .ok none) hlimit, ← page_items]
    dsimp only
    rw [general_request, ← hmatched]
    simp only [Option.all_none, hall]
  have hnext : ∀ before a rest, matched.map (itemOf cutoffs request) = before ++ a :: rest →
      askPage u pubkey cutoffs observer request lib (some (placeOf lib a)) =
        some (Conc.page (placeOf lib) request.limit.toNat rest) := by
    intro before a rest hsplit
    obtain ⟨before, behind, hrows, rfl, hbehind⟩ := List.map_eq_append_iff.1 hsplit
    obtain ⟨a, rest, rfl, rfl, rfl⟩ := List.map_eq_cons_iff.1 hbehind
    have hafter := Conc.filter_after (hrows ▸ hsorted) (hrows ▸ hnodup)
    have hmem : a ∈ requestConns u pubkey cutoffs observer request :=
      List.mem_of_mem_filter (Conc.mem_sortBy.1 (hrows ▸ List.mem_append_right _ List.mem_cons_self))
    have hread : readCursor lib (some (placeOf lib (itemOf cutoffs request a))) = .ok (some (a.sortInf, a.pubkey)) :=
      readCursor_encode (hround a hmem) (hsome a hmem)
    rw [askPage_eq u pubkey cutoffs observer request hread hlimit, ← page_items]
    dsimp only
    rw [general_request, ← hmatched, hrows]
    simp only [Option.all_some]
    rw [hafter]
  obtain ⟨pages, hpages, hflat, hsmall⟩ := Conc.follow_page hpos hstart hnext
  refine ⟨pages, fun fuel hfuel => hpages fuel ?_, ?_, ?_, fun page hpage => ?_⟩
  · refine lt_of_le_of_lt ?_ hfuel
    rw [List.length_map, hmatched, sortedMatches, (Conc.perm_sortBy _).length_eq]
    exact List.length_filter_le _ _
  · rw [hflat]
    exact (Conc.perm_sortBy _).map _
  · rw [hflat, List.pairwise_map]
    have hother := List.pairwise_map.1 (List.nodup_iff_pairwise_ne.1 hnodup)
    refine (hsorted.and hother).imp ?_
    rintro a b ⟨h | ⟨hkey, htie⟩, hne⟩
    · simp only [decide_eq_true_eq] at h
      exact Or.inl h
    · exact Or.inr ⟨hkey, lt_of_le_of_ne htie hne⟩
  · have hlength := hsmall page hpage
    omega

end

end

/-- `b`, `c` and `a` follow `s`; to `s`, `b` has no influence. -/
def followedUsers : Users ℚ where
  nodes := [⟨"s", fun _ => none⟩, ⟨"a", fun _ => some (1 / 2)⟩, ⟨"b", fun _ => none⟩, ⟨"c", fun _ => some (1 / 2)⟩]
  edges r := match r with
    | .follows => [("b", "s"), ("c", "s"), ("a", "s")]
    | _ => []
  unique := by
    have hnodup : ["s", "a", "b", "c"].Nodup := by decide
    exact hnodup
  ends r e he := by
    cases r
    all_goals
      revert e
      simp

/-- The payloads of three cursors. -/
def jsonCursors : List (Bytes × ℚ × Pubkey) := [
  ("\x7b\"i\": 0.5, \"p\": \"a\"\x7d".toList.map (·.toNat.toUInt8), 1 / 2, "a"),
  ("\x7b\"i\": 0.5, \"p\": \"c\"\x7d".toList.map (·.toNat.toUInt8), 1 / 2, "c"),
  ("\x7b\"i\": -1.0, \"p\": \"b\"\x7d".toList.map (·.toNat.toUInt8), -1, "b")]

def jsonLib : CursorLib ℚ where
  dumps x p := ((jsonCursors.find? fun e => e.2 = (x, p)).map (·.1)).getD [0x7b]
  loads bytes := match jsonCursors.find? fun e => e.1 = bytes with
    | some e => .ok e.2
    | none => .error .invalid

/-- The same followers; `a` and `b` are reported by two, and `c` by nobody. -/
def reportedUsers : Users ℚ where
  nodes := ⟨"d", fun _ => some (1 / 2)⟩ :: followedUsers.nodes
  edges r := match r with
    | .follows => [("b", "s"), ("c", "s"), ("a", "s")]
    | .mutes => []
    | .reports => [("c", "a"), ("d", "a"), ("a", "b"), ("c", "b")]
  unique := by
    have hnodup : ["d", "s", "a", "b", "c"].Nodup := by decide
    exact hnodup
  ends r e he := by
    cases r
    all_goals
      revert e
      simp [followedUsers]

/-- Two by two, the three followers are all listed; and one by one the two of them that are
    flagged, below a line of three fifths. -/
theorem threeFollowers_visited : (∃ pages, Conc.follow (askPage followedUsers "s" ⟨0, 0, 0⟩ none
      ⟨.section .followedBy, 2, "desc", none, false, false⟩ jsonLib) 4 none = some pages ∧
    pages.flatten.length = 3) ∧
    ∃ pages, Conc.follow (askPage reportedUsers "s" ⟨3 / 5, 0, 0⟩ none
      ⟨.flagged, 1, "desc", none, false, false⟩ jsonLib) 4 none = some pages ∧ pages.flatten.length = 2 := by
  constructor
  · obtain ⟨⟨pages, hpages, hperm, -⟩, -⟩ := pages_visit_all jsonLib followedUsers "s" ⟨0, 0, 0⟩ none
      ⟨.section .followedBy, 2, "desc", none, false, false⟩ (by with_unfolding_all decide)
      (by with_unfolding_all decide) (by decide)
      (fun kind hkind => by cases hkind; decide)
    exact ⟨pages, hpages 4 (by decide), hperm.length_eq.trans (by decide)⟩
  · obtain ⟨⟨pages, hpages, hperm, -⟩, -⟩ := pages_visit_all jsonLib reportedUsers "s" ⟨3 / 5, 0, 0⟩ none
      ⟨.flagged, 1, "desc", none, false, false⟩ (by with_unfolding_all decide)
      (by with_unfolding_all decide) (by decide) (fun kind hkind => by cases hkind)
    exact ⟨pages, hpages 4 (by decide), hperm.length_eq.trans (by with_unfolding_all decide)⟩

end Network

end BrainstormServer
