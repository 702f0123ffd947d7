/-
  Lists of connections, page by page (`get_paginated_section_connections` and
  `get_paginated_flagged_connections` of `app/repos/user_repo.py`, `get_user_connections` of
  `app/services/user_service.py`).

  A page starts after the place of a row, and the place goes to the client and comes back
  encoded.  The flagged are few, so their query sorts them once and takes the page and the
  total from that list.

  * `singlePass_eq`: it answers what the other query answers;
  * `tiers_are_one`: the tier filter returns the rows that the statistics count.
-/
import BrainstormServer.Conc.Keyset
import BrainstormServer.Network.Tiers
import BrainstormServer.Vault.Webauthn
import Mathlib.Data.String.Basic

namespace BrainstormServer

namespace Network

open Conc (Truth Cond KeyThen After Page)
open BrainstormServer.Graph (Rel)

section
variable {R : Type} [Field R] [LinearOrder R]

/-! ## Queries -/

/-- `coalesce(other[$influence_key], -1.0)`. -/
def Conn.sortInf (other : Conn R) : R := other.influence.getD (-1)

/-- `_order_by`. -/
def orderBy (order : String) : Conn R → Conn R → Prop := KeyThen (order = "asc") Conn.sortInf Conn.pubkey

instance decidableOrderBy (order : String) : DecidableRel (orderBy (R := R) order) :=
  inferInstanceAs (DecidableRel (KeyThen _ _ _))

/-- `_after_cursor`; the cursor may be null. -/
def afterCursor (order : String) (cursor : Option (R × Pubkey)) (other : Conn R) : Truth :=
  let inf := some other.sortInf
  let cursorInf := cursor.map Prod.fst
  let cmp (x y : R) : Bool := if order = "asc" then y < x else x < y
  (Conc.compare cmp inf cursorInf).or
    ((Conc.compare (fun x y => x = y) inf cursorInf).and
      (Conc.compare (fun p q => q < p) (some other.pubkey) (cursor.map Prod.snd)))

/-- `_cursor_params`: both bound, or both null. -/
def cursorParams (cursorInf : Option R) (cursorPk : Option Pubkey) : Option (R × Pubkey) :=
  match cursorInf, cursorPk with
  | some cursorInf, some cursorPk => some (cursorInf, cursorPk)
  | _, _ => none

/-- `UserConnectionItem`. -/
structure UserConnectionItem (R : Type) where
  pubkey : Pubkey
  influence : Option R
  trustedReporters : ℕ
  tier : Option Tier
  deriving DecidableEq

/-- What a query is asked for. -/
structure Query (R : Type) where
  params : Params R
  /-- `filter_parts` -/
  filterParts : List (Cond Name)
  order : String
  limit : ℕ
  cursor : Option (R × Pubkey)

/-- The filter. -/
def Query.filterWhere (q : Query R) (other : Conn R) : Truth :=
  Truth.conj (q.filterParts.map fun part => part.eval (env q.params other))

/-- The filter, and the cursor if there is one. -/
def Query.pageWhere (q : Query R) (other : Conn R) : Truth :=
  Truth.conj (q.filterParts.map (fun part => part.eval (env q.params other)) ++
    if q.cursor.isSome then [afterCursor q.order q.cursor other] else [])

/-- The query of a section: the rows of the page, and the total. -/
def Query.general (q : Query R) (others : List (Conn R)) : List (Conn R) × ℕ :=
  ((sortBy (orderBy q.order) (others.filter fun other => (q.pageWhere other).holds)).take q.limit,
    (others.filter fun other => (q.filterWhere other).holds).length)

/-- `_flagged_single_pass_query`: the page and the total are taken from one sorted list. -/
def Query.singlePass (q : Query R) (others : List (Conn R)) : List (Conn R) × ℕ :=
  let flagged := sortBy (orderBy q.order) (others.filter fun other => (q.filterWhere other).holds)
  ((flagged.filter fun r => (Truth.or (some q.cursor.isNone) (afterCursor q.order q.cursor r)).holds).take q.limit,
    flagged.length)

/-- The place of the last row of a page that is full. -/
def lastCursor (limit : ℕ) (rows : List (Conn R)) : Option (R × Pubkey) :=
  if rows.length = limit then rows.getLast?.map fun last => (last.sortInf, last.pubkey) else none

/-- `_build_tier_predicate`: there is none for a tier that is not known. -/
def buildTierPredicate (tier : Option String) : Option (Cond Name) :=
  tier.bind fun tier => (tierPredicates.find? fun arm => arm.1.name = tier).map (·.2)

/-- The conditions of a section's filter. -/
def filterParts (tier : Option String) (verifiedOnly : Bool) : List (Cond Name) :=
  (buildTierPredicate tier).toList ++ if verifiedOnly then [verified .verifiedCutoff] else []

/-- `_row_to_item`. -/
def rowToItem (tier : Option Tier) (row : Conn R) : UserConnectionItem R :=
  ⟨row.pubkey, row.influence, row.trustedReporters, tier⟩

/-- The parameters and the filter of a section's query. -/
def sectionQuery (limit : ℕ) (cursorInf : Option R) (cursorPk : Option Pubkey) (verifiedCutoff verifiedLine : R)
    (order : String) (tier : Option String) (verifiedOnly : Bool) : Query R where
  params := ⟨verifiedCutoff, verifiedLine⟩
  filterParts := filterParts tier verifiedOnly
  order := order
  limit := limit
  cursor := cursorParams cursorInf cursorPk

/-- `get_paginated_section_connections`: without the user, there is no record. -/
def getPaginatedSectionConnections (u : Users R) (pubkey : Pubkey) (influenceKey : String) (kind : Kind) (limit : ℕ)
    (cursorInf : Option R) (cursorPk : Option Pubkey) (verifiedCutoff verifiedLine reporterCutoff : R)
    (order : String) (tier : Option String) (verifiedOnly withTotal : Bool) :
    List (UserConnectionItem R) × Option (R × Pubkey) × Option ℕ :=
  let q := sectionQuery limit cursorInf cursorPk verifiedCutoff verifiedLine order tier verifiedOnly
  let others := connections u influenceKey reporterCutoff kind pubkey
  let record := if pubkey ∈ u.pubkeys then
      if tier = some Tier.flagged.name then q.singlePass others else q.general others
    else ([], 0)
  (record.1.map fun row => rowToItem (tierCase q.params row) row, lastCursor limit record.1,
    if withTotal then some record.2 else none)

/-- `(other)-[:FOLLOWS|MUTES|REPORTS]-(user)`, each once. -/
def neighbours (u : Users R) (pubkey : Pubkey) : List Pubkey :=
  Conc.firsts ([Rel.follows, .mutes, .reports].flatMap fun r => u.sources r pubkey ++ u.targets r pubkey)

/-- The parameters and the filter of the flagged; `$verified_cutoff` is in none of its
    conditions. -/
def flaggedQuery (limit : ℕ) (cursorInf : Option R) (cursorPk : Option Pubkey) (verifiedLine : R) (order : String) :
    Query R where
  params := ⟨verifiedLine, verifiedLine⟩
  filterParts := (tierPredicates.lookup .flagged).toList
  order := order
  limit := limit
  cursor := cursorParams cursorInf cursorPk

/-- `get_paginated_flagged_connections`. -/
def getPaginatedFlaggedConnections (u : Users R) (pubkey : Pubkey) (influenceKey : String) (limit : ℕ)
    (cursorInf : Option R) (cursorPk : Option Pubkey) (verifiedLine reporterCutoff : R) (order : String)
    (withTotal : Bool) : List (UserConnectionItem R) × Option (R × Pubkey) × Option ℕ :=
  let q := flaggedQuery limit cursorInf cursorPk verifiedLine order
  let others := (neighbours u pubkey).map (connOf u influenceKey reporterCutoff)
  let record := if pubkey ∈ u.pubkeys then q.singlePass others else ([], 0)
  (record.1.map (rowToItem (some .flagged)), lastCursor limit record.1, if withTotal then some record.2 else none)

/-! ## The endpoint -/

/-- `_KIND_TO_CUTOFF`. -/
def VerifiedCutoffs.forKind (cutoffs : VerifiedCutoffs R) : Kind → R
  | .followedBy => cutoffs.follower
  | .following => cutoffs.follower
  | .mutedBy => cutoffs.muter
  | .muting => cutoffs.follower
  | .reportedBy => cutoffs.reporter
  | .reporting => cutoffs.follower

/-- Why a cursor is not read: by what `get_user_connections` catches, or by a number that no
    float can hold. -/
inductive CursorError
  | invalid
  | overflowError
  deriving DecidableEq

/-- `json`: a cursor's payload as bytes, and what `json.loads`, `float` and `str` make of
    bytes. -/
structure CursorLib (R : Type) where
  dumps : R → Pubkey → Bytes
  loads : Bytes → Except CursorError (R × Pubkey)

/-- `_encode_cursor`. -/
def encodeCursor (lib : CursorLib R) (sortInf : R) (pubkey : Pubkey) : String :=
  String.ofList (Vault.urlsafeB64encode (lib.dumps sortInf pubkey))

/-- `_decode_cursor`. -/
def decodeCursor (lib : CursorLib R) (cursor : String) : Except CursorError (R × Pubkey) :=
  match Vault.a2bBase64 cursor.toList 0 0 0 with
  | none => .error .invalid
  | some payload => lib.loads payload

/-- `ConnectionKind`. -/
inductive ConnectionKind
  | section (kind : Kind)
  | flagged
  deriving DecidableEq

/-- What a list is asked for; the cursor is asked for apart. -/
structure ConnectionsRequest where
  kind : ConnectionKind
  limit : ℤ
  order : String
  tier : Option String
  verifiedOnly : Bool
  withTotal : Bool

/-- `PaginatedUserConnections`. -/
structure PaginatedUserConnections (R : Type) where
  items : List (UserConnectionItem R)
  nextCursor : Option String
  total : Option ℕ

/-- What `get_user_connections` raises. -/
inductive ConnectionsError
  | httpException (statusCode : ℕ) (detail : String)
  | overflowError
  deriving DecidableEq

def maxPageSize : ℤ := 200

/-- `safe_float`, of numbers that are finite. -/
def Finite.safeFloat (value : Option R) : Option R := value

/-- `influence_key`: of the observer, or of the subject without one. -/
def influenceKeyOf (observer : Option String) (pubkey : Pubkey) : String :=
  match observer with
  | none => "influence_" ++ pubkey
  | some observer => if observer = "" then "influence_" ++ pubkey else "influence_" ++ observer

/-- The cursor of a request, if there is one. -/
def readCursor (lib : CursorLib R) (cursor : Option String) : Except ConnectionsError (Option (R × Pubkey)) :=
  match cursor with
  | none => .ok none
  | some cursor =>
    if cursor = "" then .ok none
    else match decodeCursor lib cursor with
      | .ok place => .ok (some place)
      | .error .invalid => .error (.httpException 400 "invalid cursor")
      | .error .overflowError => .error .overflowError

/-- The list of the kind that is asked for; the flagged have no other filter. -/
def listKind (u : Users R) (pubkey : Pubkey) (cutoffs : VerifiedCutoffs R) (influenceKey : String)
    (request : ConnectionsRequest) (limit : ℕ) (cursorInf : Option R) (cursorPk : Option Pubkey) :
    List (UserConnectionItem R) × Option (R × Pubkey) × Option ℕ :=
  match request.kind with
  | .flagged => getPaginatedFlaggedConnections u pubkey influenceKey limit cursorInf cursorPk cutoffs.verifiedLine
      cutoffs.reporter request.order request.withTotal
  | .section kind => getPaginatedSectionConnections u pubkey influenceKey kind limit cursorInf cursorPk
      (cutoffs.forKind kind) cutoffs.verifiedLine cutoffs.reporter request.order request.tier request.verifiedOnly
      request.withTotal

/-- `get_user_connections`. -/
def getUserConnections (lib : CursorLib R) (u : Users R) (pubkey : Pubkey) (cutoffs : VerifiedCutoffs R)
    (observer : Option String) (request : ConnectionsRequest) (cursor : Option String) :
    Except ConnectionsError (PaginatedUserConnections R) := do
  let limit := (max 1 (min request.limit maxPageSize)).toNat
  let influenceKey := influenceKeyOf observer pubkey
  let place ← readCursor lib cursor
  let (items, last, total) := listKind u pubkey cutoffs influenceKey request limit (place.map Prod.fst)
    (place.map Prod.snd)
  let items := items.map fun it => { it with influence := Finite.safeFloat it.influence }
  let nextCursor := last.bind fun last => (Finite.safeFloat (some last.1)).map fun inf => encodeCursor lib inf last.2
  return ⟨items, nextCursor, total⟩

/-! ## Two shapes, one answer -/

section
variable {q : Query R} {others : List (Conn R)}

instance total_orderBy (order : String) : Std.Total (orderBy (R := R) order) :=
  inferInstanceAs (Std.Total (KeyThen _ _ _))

instance trans_orderBy (order : String) : IsTrans (Conn R) (orderBy order) :=
  inferInstanceAs (IsTrans _ (KeyThen _ _ _))

/-- Whether a row is for the page: there is no cursor, or the row comes after it. -/
def Query.onPage (q : Query R) (other : Conn R) : Bool :=
  q.cursor.all fun place => After (q.order = "asc") Conn.sortInf Conn.pubkey place other

/-- The rows that match the filter, in order. -/
def Query.sorted (q : Query R) (others : List (Conn R)) : List (Conn R) :=
  sortBy (orderBy q.order) (others.filter fun other => (q.filterWhere other).holds)

/-- A cursor that is there leaves what comes after its place. -/
theorem afterCursor_holds (order : String) (place : R × Pubkey) (other : Conn R) :
    (afterCursor order (some place) other).holds =
      decide (After (order = "asc") Conn.sortInf Conn.pubkey place other) := by
  unfold afterCursor After
  by_cases horder : order = "asc"
  · simp [horder, Truth.holds_or, Truth.holds_and]
  · simp [horder, Truth.holds_or, Truth.holds_and]

theorem pageWhere_holds (q : Query R) (other : Conn R) :
    (q.pageWhere other).holds = ((q.filterWhere other).holds && q.onPage other) := by
  rw [Query.pageWhere, Truth.holds_conj, List.all_append, Query.filterWhere, Truth.holds_conj, Query.onPage]
  cases q.cursor with
  | none => rfl
  | some place => simp [afterCursor_holds]

/-- **The page is what the sorted matches have after the cursor.** -/
theorem general_eq (q : Query R) (others : List (Conn R)) :
    q.general others = (((q.sorted others).filter q.onPage).take q.limit, (q.sorted others).length) := by
  have hpage : sortBy (orderBy q.order) (others.filter fun other => (q.pageWhere other).holds) =
      (q.sorted others).filter q.onPage := by
    rw [Query.sorted, filter_sortBy, List.filter_filter]
    simp only [pageWhere_holds, Bool.and_comm]
  rw [Query.general, hpage, Query.sorted, (Conc.perm_sortBy _).length_eq]

theorem mem_general {q : Query R} {others : List (Conn R)} {row : Conn R} (h : row ∈ (q.general others).1) :
    row ∈ others ∧ (q.filterWhere row).holds = true := by
  rw [general_eq] at h
  exact List.mem_filter.1 (Conc.mem_sortBy.1 (List.mem_of_mem_filter (List.mem_of_mem_take h)))

/-- **The single pass answers what the other query answers.** -/
theorem singlePass_eq (q : Query R) (others : List (Conn R)) : q.singlePass others = q.general others := by
  have hpage : ∀ row, (Truth.or (some q.cursor.isNone) (afterCursor q.order q.cursor row)).holds = q.onPage row := by
    intro row
    rw [Truth.holds_or, Query.onPage]
    cases q.cursor with
    | none => rfl
    | some place => simp [afterCursor_holds]
  rw [general_eq, Query.singlePass]
  simp only [hpage]
  rfl

theorem cursorParams_map {α : Type} (place : Option (α × Pubkey)) :
    cursorParams (place.map Prod.fst) (place.map Prod.snd) = place := by
  cases place <;> rfl

end

/-! ## What is listed -/

section
variable {u : Users R} {pubkey : Pubkey} {influenceKey : String} {kind : Kind} {reporterCutoff : R}

omit [Field R] [LinearOrder R] in
/-- Who is not there has no connections. -/
theorem scopedMatch_nil (kind : Kind) (h : pubkey ∉ u.pubkeys) : scopedMatch u kind pubkey = [] := by
  rw [List.eq_nil_iff_forall_not_mem, scopedMatch]
  intro p hp
  split_ifs at hp
  · exact h (source_mem_pubkeys hp).2
  · exact h (target_mem_pubkeys hp).2

omit [Field R] [LinearOrder R] in
theorem neighbours_nil (h : pubkey ∉ u.pubkeys) : neighbours u pubkey = [] := by
  rw [List.eq_nil_iff_forall_not_mem, neighbours]
  intro p hp
  obtain ⟨r, -, hp⟩ := List.mem_flatMap.1 (Conc.mem_firsts.1 hp)
  rcases List.mem_append.1 hp with hp | hp
  · exact h (source_mem_pubkeys hp).2
  · exact h (target_mem_pubkeys hp).2

/-- Without the user there is no record, and nothing to list either. -/
theorem record_eq (q : Query R) {others : List (Conn R)} (h : pubkey ∉ u.pubkeys → others = []) :
    (if pubkey ∈ u.pubkeys then q.general others else ([], 0)) = q.general others := by
  by_cases hpubkey : pubkey ∈ u.pubkeys
  · rw [if_pos hpubkey]
  · rw [if_neg hpubkey, h hpubkey, general_eq]
    simp [Query.sorted, sortBy]

/-- A section lists its connections, whether the user is there or not, by either query. -/
theorem sectionConnections_eq (u : Users R) (pubkey : Pubkey) (influenceKey : String) (kind : Kind) (limit : ℕ)
    (cursorInf : Option R) (cursorPk : Option Pubkey) (verifiedCutoff verifiedLine reporterCutoff : R)
    (order : String) (tier : Option String) (verifiedOnly withTotal : Bool) :
    getPaginatedSectionConnections u pubkey influenceKey kind limit cursorInf cursorPk verifiedCutoff verifiedLine
        reporterCutoff order tier verifiedOnly withTotal =
      let q := sectionQuery limit cursorInf cursorPk verifiedCutoff verifiedLine order tier verifiedOnly
      let record := q.general (connections u influenceKey reporterCutoff kind pubkey)
      (record.1.map fun row => rowToItem (tierCase q.params row) row, lastCursor limit record.1,
        if withTotal then some record.2 else none) := by
  rw [getPaginatedSectionConnections]
  simp only [singlePass_eq, ite_self]
  rw [record_eq]
  intro h
  rw [connections, scopedMatch_nil kind h, List.map_nil]

theorem flaggedConnections_eq (u : Users R) (pubkey : Pubkey) (influenceKey : String) (limit : ℕ)
    (cursorInf : Option R) (cursorPk : Option Pubkey) (verifiedLine reporterCutoff : R) (order : String)
    (withTotal : Bool) :
    getPaginatedFlaggedConnections u pubkey influenceKey limit cursorInf cursorPk verifiedLine reporterCutoff order
        withTotal =
      let q := flaggedQuery limit cursorInf cursorPk verifiedLine order
      let record := q.general ((neighbours u pubkey).map (connOf u influenceKey reporterCutoff))
      (record.1.map (rowToItem (some .flagged)), lastCursor limit record.1,
        if withTotal then some record.2 else none) := by
  rw [getPaginatedFlaggedConnections]
  simp only [singlePass_eq]
  rw [record_eq]
  intro h
  rw [neighbours_nil h, List.map_nil]

end

/-! ## The tier filter -/

theorem build_tier (tier : Tier) :
    ∃ cond, buildTierPredicate (some tier.name) = some cond ∧ (tier, cond) ∈ tierPredicates := by
  cases tier <;> simp [buildTierPredicate, tierPredicates, Tier.name]

/-- The statistics are those of the connections, whether the user is there or not. -/
theorem allSectionStats_eq (u : Users R) (pubkey : Pubkey) (influenceKey : String) (cutoffs : Kind → R)
    (line reporterCutoff : R) :
    getAllSectionStats u pubkey influenceKey cutoffs line reporterCutoff = statsKinds.map fun kind =>
      (kind, sectionStats ⟨cutoffs kind, line⟩ (connections u influenceKey reporterCutoff kind pubkey)) := by
  refine List.map_congr_left fun kind _ => ?_
  by_cases h : pubkey ∈ u.pubkeys
  · rw [if_pos h]
  · rw [if_neg h, connections, scopedMatch_nil kind h]
    rfl

theorem mem_statsKinds (kind : Kind) : kind ∈ statsKinds := by
  cases kind <;> simp [statsKinds]

section
variable [IsStrictOrderedRing R]

/-- A section counts, under a tier, the rows that are classified there. -/
theorem lookup_tierCounts (params : Params R) (others : List (Conn R)) (tier : Tier) :
    (sectionStats params others).tierCounts.lookup tier =
      some (others.filter (tierOf params · = tier)).length := by
  obtain ⟨cond, -, hmem⟩ := build_tier tier
  have hnodup : ((sectionStats params others).tierCounts.map Prod.fst).Nodup := by
    rw [sectionStats, List.map_map]
    exact List.nodup_iff_count_le_one.2 fun t => (count_tier t).le
  have hentry := Conc.lookup_of_mem hnodup (List.mem_map_of_mem hmem)
  refine hentry.trans (congrArg some ?_)
  rw [countWhere_tier params others _ hmem, List.count_eq_countP, List.countP_map, List.countP_eq_length_filter]
  rfl

/-- The tier filter keeps the rows of the tier. -/
theorem sorted_tier {tier : Tier} {q : Query R} (hq : q.filterParts = filterParts (some tier.name) false)
    (others : List (Conn R)) :
    q.sorted others = sortBy (orderBy q.order) (others.filter (tierOf q.params · = tier)) := by
  obtain ⟨cond, hbuild, hmem⟩ := build_tier tier
  have hwhere : ∀ other, (q.filterWhere other).holds = decide (tierOf q.params other = tier) := by
    intro other
    have hparts : q.filterParts = [cond] := by simp [hq, filterParts, hbuild]
    have hcond : cond.holds (env q.params other) = decide (tier = tierOf q.params other) := tierPredicate_holds _ hmem
    rw [Query.filterWhere, hparts, Truth.holds_conj]
    rw [Cond.holds] at hcond
    simpa [eq_comm] using hcond
  simp only [Query.sorted, hwhere]

/-- **The classifier and the table are one.**  Of every connection, one condition is true, the
    one of the tier that the classifier names; the tier counts of a section sum to its total;
    and the tier filter returns the rows that are counted in the tier. -/
theorem tiers_are_one :
    (∀ (params : Params R) (other : Conn R), ∃ cond,
      tierPredicates.filter (fun arm => (arm.2.eval (env params other)).holds) =
        [(classifyTier other.influence other.trustedReporters params.verifiedLine, cond)]) ∧
    (∀ (params : Params R) (others : List (Conn R)),
      ((sectionStats params others).tierCounts.map (·.2)).sum = (sectionStats params others).total) ∧
    (∀ (u : Users R) (pubkey : Pubkey) (influenceKey : String) (cutoffs : Kind → R) (line reporterCutoff : R),
      ∀ stats ∈ getAllSectionStats u pubkey influenceKey cutoffs line reporterCutoff,
        (stats.2.tierCounts.map (·.2)).sum = stats.2.total) ∧
    ∀ (u : Users R) (pubkey : Pubkey) (influenceKey : String) (cutoffs : Kind → R) (line reporterCutoff : R)
      (kind : Kind) (tier : Tier) (limit : ℕ) (cursorInf : Option R) (cursorPk : Option Pubkey) (order : String)
      (withTotal : Bool),
      let bucket := (connections u influenceKey reporterCutoff kind pubkey).filter fun other =>
        classifyTier other.influence other.trustedReporters line = tier
      let rows := ((sortBy (orderBy order) bucket).filter fun other => (cursorParams cursorInf cursorPk).all
        fun place => After (order = "asc") Conn.sortInf Conn.pubkey place other).take limit
      (∃ stats, (kind, stats) ∈ getAllSectionStats u pubkey influenceKey cutoffs line reporterCutoff ∧
        stats.tierCounts.lookup tier = some bucket.length) ∧
      (cursorPk = none → bucket.length ≤ limit → rows.Perm bucket) ∧
      getPaginatedSectionConnections u pubkey influenceKey kind limit cursorInf cursorPk (cutoffs kind) line
          reporterCutoff order (some tier.name) false withTotal =
        (rows.map (rowToItem (some tier)), lastCursor limit rows, if withTotal then some bucket.length else none) := by
  refine ⟨fun params other => ?_, sum_tierCounts, fun u pubkey influenceKey cutoffs line reporterCutoff => ?_, ?_⟩
  · exact filter_tierPredicates params other
  · rw [allSectionStats_eq]
    rintro stats hmem
    obtain ⟨kind, -, rfl⟩ := List.mem_map.1 hmem
    exact sum_tierCounts _ _
  · intro u pubkey influenceKey cutoffs line reporterCutoff kind tier limit cursorInf cursorPk order withTotal
      bucket rows
    set q := sectionQuery limit cursorInf cursorPk (cutoffs kind) line order (some tier.name) false with hq
    have hsorted : q.sorted (connections u influenceKey reporterCutoff kind pubkey) = sortBy (orderBy order) bucket :=
      sorted_tier rfl _
    have hrows : q.general (connections u influenceKey reporterCutoff kind pubkey) = (rows, bucket.length) := by
      rw [general_eq, hsorted, (Conc.perm_sortBy _).length_eq]
      rfl
    refine ⟨⟨_, ?_, lookup_tierCounts ⟨cutoffs kind, line⟩ _ tier⟩, fun hcursor hlimit => ?_, ?_⟩
    · rw [allSectionStats_eq]
      exact List.mem_map_of_mem (mem_statsKinds kind)
    · have hall : ∀ other : Conn R, ((cursorParams cursorInf cursorPk).all fun place =>
          decide (After (order = "asc") Conn.sortInf Conn.pubkey place other)) = true := by
        intro other
        rw [hcursor]
        cases cursorInf <;> rfl
      have hsorted := Conc.perm_sortBy (r := orderBy order) bucket
      refine List.Perm.trans ?_ hsorted
      have hrows : rows = sortBy (orderBy order) bucket := by
        refine (congrArg (List.take limit) (List.filter_eq_self.2 fun other _ => hall other)).trans ?_
        exact List.take_of_length_le (hsorted.length_eq.trans_le hlimit)
      rw [hrows]
    · rw [sectionConnections_eq]
      dsimp only
      rw [← hq, hrows]
      -- every row is of the tier that it names
      have hnamed : ∀ row ∈ rows, rowToItem (tierCase q.params row) row = rowToItem (some tier) row := by
        intro row hrow
        have hbucket := Conc.mem_sortBy.1 (List.mem_of_mem_filter (List.mem_of_mem_take hrow))
        have htier : tierOf q.params row = tier := of_decide_eq_true (List.mem_filter.1 hbucket).2
        rw [tierCase_eq, htier]
      rw [List.map_congr_left hnamed]

end

end

/-- Under a line above the highest band, an influence in that band is not verified. -/
theorem unverifiedHigh_flagged : ∃ cond,
    tierPredicates.filter (fun arm => (arm.2.eval (env (⟨1, 3 / 5⟩ : Params ℚ) ⟨"a", some (11 / 20), 3⟩)).holds) =
      [(Tier.flagged, cond)] := by
  obtain ⟨cond, hcond⟩ := (tiers_are_one (R := ℚ)).1 ⟨1, 3 / 5⟩ ⟨"a", some (11 / 20), 3⟩
  have htier : classifyTier (some (11 / 20)) 3 (3 / 5 : ℚ) = .flagged := by norm_num [classifyTier]
  exact ⟨cond, htier ▸ hcond⟩

end Network

end BrainstormServer
