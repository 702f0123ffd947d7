/-
  Writing a run's scores to Neo4j (`app/message_queue_tasks/write_neo4j_results.py`,
  `set_observer_scores` and its siblings in `app/repos/user_repo.py`).

  An observer's scores are properties of the `NostrUser` nodes, named by the field
  and the observer.  A run merges the scorecards it is to write into their nodes,
  then removes the properties where the worker says so, then, on a forced run,
  where the observer has no scorecard any more.

  * `processNeo4jWriteMessage` is the run, batch by batch;
  * `node_after`: what it makes of one node;
  * `forced_write_repairs_iff`: a forced run leaves the scores of this run and
    nothing else exactly if the worker names the holders that fell to the floor.
-/
import BrainstormServer.Nostr
import BrainstormServer.Publish.Plan
import BrainstormServer.Queue.Pipeline

namespace BrainstormServer

namespace Scores

open Publish (ScoreCard chunks)
open Queue (RequestStatus)

/-! ## Nodes -/

/-- A property as Neo4j keeps it. -/
inductive Value (R : Type)
  | float (x : R)
  | int (n : ℤ)
  deriving DecidableEq

variable {R : Type}

/-- A `NostrUser` node; several may have one pubkey. -/
structure Node (R : Type) where
  pubkey : Pubkey
  props : String → Option (Value R)

/-- A map of properties, `none` for a null. -/
abbrev Props (R : Type) := List (String × Option (Value R))

/-- `SET n += props`. -/
def Node.merge (n : Node R) (props : Props R) : Node R :=
  { n with props := fun key => (props.lookup key).getD (n.props key) }

/-- `UNWIND $rows AS row MATCH (n:NostrUser {pubkey: row.pubkey}) SET n += row.props`,
    on one node. -/
def Node.mergeRows (n : Node R) (rows : List (Pubkey × Props R)) : Node R :=
  rows.foldl (fun n row => if n.pubkey = row.1 then n.merge row.2 else n) n

/-- `set_observer_scores`. -/
def setObserverScores (rows : List (Pubkey × Props R)) (nodes : List (Node R)) : List (Node R) :=
  nodes.map (·.mergeRows rows)

/-- `clear_observer_scores`. -/
def clearObserverScores (keys : List String) (pubkeys : List Pubkey) (nodes : List (Node R)) :
    List (Node R) :=
  nodes.map (·.mergeRows (pubkeys.map fun pubkey => (pubkey, keys.map fun key => (key, none))))

/-- `any(k IN $keys WHERE n[k] IS NOT NULL)`. -/
def Node.holdsAny (n : Node R) (keys : List String) : Bool := keys.any fun key => (n.props key).isSome

/-- `get_pubkeys_scored_by_observer`. -/
def getPubkeysScoredByObserver (keys : List String) (nodes : List (Node R)) : List Pubkey :=
  (nodes.filter (·.holdsAny keys)).map (·.pubkey)

/-! ## The run -/

/-- `PERSISTED_FIELDS`. -/
inductive Field
  | influence
  | hops
  | trustedFollowers
  deriving DecidableEq

def Field.name : Field → String
  | .influence => "influence"
  | .hops => "hops"
  | .trustedFollowers => "trusted_followers"

def persistedFields : List Field := [.influence, .hops, .trustedFollowers]

/-- A value of `_keys`. -/
def key (observer : Pubkey) (field : Field) : String := field.name ++ "_" ++ observer

/-- `_keys`, its values. -/
def keys (observer : Pubkey) : List String := persistedFields.map (key observer)

/-- The operations on floats that the run uses. -/
structure FloatOps (R : Type) where
  /-- `x > y` -/
  gt : R → R → Bool
  /-- `int(x)` -/
  int : R → ℤ

/-- `GrapeRankResult`, as far as the run reads it. -/
structure Result (R : Type) where
  success : Bool
  scorecards : Option (List (Pubkey × ScoreCard R))
  neo4jWritePubkeys : Option (List Pubkey)
  neo4jClearPubkeys : Option (List Pubkey)
  neo4jPersistFloor : Option R

structure Settings where
  neo4jFullWrite : Bool
  neo4jCleanupIntervalDays : ℤ

/-- The nodes, and the columns that the run reads and writes; times in microseconds. -/
structure Store (R : Type) where
  nodes : List (Node R)
  forceFullNeo4j : Option Bool
  statusInternalPublication : RequestStatus
  lastNeo4jCleanupAt : Option ℤ

/-- `BATCH_SIZE`. -/
def batchSize : ℕ := 5000

/-- `_write_batches`. -/
def writeBatches {α : Type} (work : List α → List (Node R) → List (Node R)) (items : List α)
    (nodes : List (Node R)) : List (Node R) :=
  (chunks batchSize items).foldl (fun nodes batch => work batch nodes) nodes

/-- `_clear_unreached`. -/
def clearUnreached (keys : List String) (scored : List Pubkey) (nodes : List (Node R)) :
    List (Node R) :=
  writeBatches (clearObserverScores keys)
    ((getPubkeysScoredByObserver keys nodes).filter (· ∉ scored)) nodes

/-- `cleanup_due`. -/
def cleanupDue (last : Option ℤ) (intervalDays now : ℤ) : Bool :=
  if intervalDays ≤ 0 then false
  else match last with
    | none => true
    | some last => now - last ≥ intervalDays * (24 * 60 * 60 * 1000000)

section
variable (Φ : FloatOps R)

/-- The value of a field of a scorecard, cast. -/
def fieldValue (card : ScoreCard R) : Field → Value R
  | .influence => .float card.influence
  | .hops => .int (Φ.int card.hops)
  | .trustedFollowers => .int ((card.trustedFollowers.map Φ.int).getD 0)

/-- `row`. -/
def row (observer : Pubkey) (card : ScoreCard R) : Pubkey × Props R :=
  (card.observee, persistedFields.map fun field => (key observer field, some (fieldValue Φ card field)))

/-- The scorecards that a run writes. -/
def cardsToWrite (result : Result R) (full : Bool) (cards : List (ScoreCard R)) :
    List (ScoreCard R) :=
  if !full then cards.filter (·.observee ∈ result.neo4jWritePubkeys.getD [])
  else match result.neo4jPersistFloor with
    | some floor => cards.filter fun card => Φ.gt card.influence floor
    | none => cards

/-- `process_neo4j_write_message`, when nothing raises. -/
def processNeo4jWriteMessage (settings : Settings) (now : ℤ) (result : Result R) (st : Store R) :
    Store R :=
  match result.scorecards with
  | none | some [] =>
    -- a failed calc closes this stage in its own consumer
    if result.success then { st with statusInternalPublication := .success } else st
  | some (item :: items) =>
    let observer := item.2.observer
    let scorecards := (item :: items).map (·.2)
    let forced := st.forceFullNeo4j = some true
    let clears := forced ∨ cleanupDue st.lastNeo4jCleanupAt settings.neo4jCleanupIntervalDays now
    let full := settings.neo4jFullWrite ∨ forced ∨ result.neo4jWritePubkeys = none
    let cards := cardsToWrite Φ result full scorecards
    let nodes := writeBatches setObserverScores (cards.map (row Φ observer)) st.nodes
    let nodes := writeBatches (clearObserverScores (keys observer))
      (result.neo4jClearPubkeys.getD []) nodes
    { st with
      nodes := if clears then clearUnreached (keys observer) (scorecards.map (·.observee)) nodes
        else nodes
      statusInternalPublication := .success
      lastNeo4jCleanupAt := if clears then some now else st.lastNeo4jCleanupAt }

end

/-! ## Batches -/

theorem flatten_chunks {α : Type} {n : ℕ} (hn : 0 < n) (xs : List α) : (chunks n xs).flatten = xs := by
  have htake : ∀ k, ((List.range k).map fun i => (xs.drop (i * n)).take n).flatten =
      xs.take (k * n) := by
    intro k
    induction k with
    | zero => simp
    | succ k ih =>
      rw [List.range_succ, List.map_append, List.flatten_append, ih, Nat.succ_mul, List.take_add]
      simp
  have hlen : xs.length ≤ (xs.length + n - 1) / n * n := by
    have hdiv := Nat.div_add_mod (xs.length + n - 1) n
    have hmod := Nat.mod_lt (xs.length + n - 1) hn
    rw [Nat.mul_comm]
    omega
  rw [chunks, htake, List.take_of_length_le hlen]

theorem mergeRows_append (n : Node R) (rows rows' : List (Pubkey × Props R)) :
    n.mergeRows (rows ++ rows') = (n.mergeRows rows).mergeRows rows' :=
  List.foldl_append

/-- Batches of rows, one after the other, are the rows at once. -/
theorem foldl_mergeRows (batches : List (List (Pubkey × Props R))) (nodes : List (Node R)) :
    batches.foldl (fun nodes batch => nodes.map (·.mergeRows batch)) nodes =
      nodes.map (·.mergeRows batches.flatten) := by
  induction batches generalizing nodes with
  | nil => simp [Node.mergeRows]
  | cons batch batches ih =>
    rw [List.foldl_cons, ih, List.map_map, List.flatten_cons]
    exact List.map_congr_left fun n _ => (mergeRows_append n _ _).symm

theorem writeBatches_set (rows : List (Pubkey × Props R)) (nodes : List (Node R)) :
    writeBatches setObserverScores rows nodes = nodes.map (·.mergeRows rows) := by
  rw [writeBatches]
  refine (foldl_mergeRows _ nodes).trans ?_
  rw [flatten_chunks (by decide)]

/-- The rows of `clear_observer_scores`. -/
def nullRows (keys : List String) (pubkeys : List Pubkey) : List (Pubkey × Props R) :=
  pubkeys.map fun pubkey => (pubkey, keys.map fun key => (key, none))

theorem writeBatches_clear (keys : List String) (pubkeys : List Pubkey) (nodes : List (Node R)) :
    writeBatches (clearObserverScores keys) pubkeys nodes =
      nodes.map (·.mergeRows (nullRows keys pubkeys)) := by
  have hmap : ∀ batches : List (List Pubkey),
      batches.foldl (fun nodes batch => clearObserverScores keys batch nodes) nodes =
        (batches.map (nullRows keys)).foldl (fun nodes batch => nodes.map (·.mergeRows batch))
          nodes := by
    intro batches
    rw [List.foldl_map]
    rfl
  have hflat : ∀ batches : List (List Pubkey),
      (batches.map (nullRows (R := R) keys)).flatten = nullRows keys batches.flatten := by
    intro batches
    rw [nullRows, List.map_flatten]
    rfl
  rw [writeBatches, hmap, foldl_mergeRows, hflat, flatten_chunks (by decide)]

/-! ## One node -/

@[simp]
theorem mergeRows_pubkey (n : Node R) (rows : List (Pubkey × Props R)) :
    (n.mergeRows rows).pubkey = n.pubkey := by
  induction rows generalizing n with
  | nil => rfl
  | cons row rows ih =>
    show (Node.mergeRows (if n.pubkey = row.1 then n.merge row.2 else n) rows).pubkey = _
    rw [ih]
    split_ifs <;> rfl

/-- Rows for other nodes. -/
theorem mergeRows_absent {n : Node R} {rows : List (Pubkey × Props R)}
    (h : ∀ row ∈ rows, row.1 ≠ n.pubkey) : n.mergeRows rows = n := by
  induction rows with
  | nil => rfl
  | cons row rows ih =>
    show Node.mergeRows (if n.pubkey = row.1 then n.merge row.2 else n) rows = n
    rw [if_neg (Ne.symm (h row List.mem_cons_self))]
    exact ih fun row' hrow => h row' (List.mem_cons_of_mem _ hrow)

theorem key_inj {observer : Pubkey} {field field' : Field} :
    key observer field = key observer field' ↔ field = field' := by
  constructor
  · intro h
    have hname : field.name = field'.name := by
      simpa [key] using h
    cases field <;> cases field' <;> first
      | rfl
      | exact absurd hname (by decide)
  · rintro rfl
    rfl

theorem mem_keys {observer : Pubkey} {field : Field} : key observer field ∈ keys observer := by
  cases field <;> simp [keys, persistedFields]

theorem lookup_nulls (keys : List String) (k : String) :
    (keys.map fun key => (key, (none : Option (Value R)))).lookup k =
      if k ∈ keys then some none else none := by
  induction keys with
  | nil => rfl
  | cons key keys ih =>
    rw [List.map_cons, List.lookup_cons, ih]
    by_cases hk : k = key
    · simp [hk]
    · simp [hk, beq_eq_false_iff_ne.2 hk]

/-- What removing the properties `keys` from the nodes of `pubkeys` leaves. -/
theorem mergeRows_nullRows (n : Node R) (keys : List String) (pubkeys : List Pubkey) (k : String) :
    (n.mergeRows (nullRows keys pubkeys)).props k =
      if n.pubkey ∈ pubkeys ∧ k ∈ keys then none else n.props k := by
  induction pubkeys generalizing n with
  | nil => simp [nullRows, Node.mergeRows]
  | cons pubkey pubkeys ih =>
    show (Node.mergeRows (if n.pubkey = pubkey then n.merge _ else n) (nullRows keys pubkeys)).props k = _
    rw [ih]
    by_cases hpk : n.pubkey = pubkey
    · rw [if_pos hpk]
      show (if n.pubkey ∈ pubkeys ∧ k ∈ keys then none
        else ((keys.map fun key => (key, none)).lookup k).getD (n.props k)) = _
      rw [lookup_nulls]
      by_cases hk : k ∈ keys
      · simp [hk, hpk]
      · simp [hk]
    · rw [if_neg hpk]
      simp [hpk]

section
variable {Φ : FloatOps R} {observer : Pubkey}

/-- The scorecard of a node is written as it is. -/
theorem merge_row (n : Node R) (card : ScoreCard R) (field : Field) :
    (n.merge (row Φ observer card).2).props (key observer field) =
      some (fieldValue Φ card field) := by
  have hlookup : (row Φ observer card).2.lookup (key observer field) =
      some (some (fieldValue Φ card field)) := by
    have hne : ∀ {f f' : Field}, f ≠ f' → (key observer f == key observer f') = false :=
      fun h => beq_eq_false_iff_ne.2 fun heq => h (key_inj.1 heq)
    cases field with
    | influence => simp [row, persistedFields]
    | hops =>
      simp [row, persistedFields, List.lookup_cons,
        hne (show Field.hops ≠ .influence by decide)]
    | trustedFollowers =>
      simp [row, persistedFields, List.lookup_cons,
        hne (show Field.trustedFollowers ≠ .influence by decide),
        hne (show Field.trustedFollowers ≠ .hops by decide)]
  show ((row Φ observer card).2.lookup _).getD _ = _
  rw [hlookup]
  rfl

/-- The node of an observee whose scorecard is written. -/
theorem mergeRows_card {cards : List (ScoreCard R)} (hnodup : (cards.map (·.observee)).Nodup)
    {n : Node R} {card : ScoreCard R} (hcard : card ∈ cards) (hpk : card.observee = n.pubkey)
    (field : Field) :
    (n.mergeRows (cards.map (row Φ observer))).props (key observer field) =
      some (fieldValue Φ card field) := by
  obtain ⟨before, after, rfl⟩ := List.append_of_mem hcard
  rw [List.map_append, mergeRows_append, List.map_cons]
  generalize hm : n.mergeRows (before.map (row Φ observer)) = m
  have hmpk : m.pubkey = n.pubkey := by rw [← hm, mergeRows_pubkey]
  show (Node.mergeRows (if m.pubkey = card.observee then m.merge (row Φ observer card).2 else m)
    (after.map (row Φ observer))).props _ = _
  rw [if_pos (hmpk.trans hpk.symm), mergeRows_absent]
  · exact merge_row m card field
  · -- no later row is for the same node
    intro row' hrow
    obtain ⟨card', hcard', rfl⟩ := List.mem_map.1 hrow
    show card'.observee ≠ m.pubkey
    rw [hmpk, ← hpk]
    intro heq
    rw [List.map_append, List.map_cons] at hnodup
    have htail := (List.nodup_cons.1 (List.nodup_append.1 hnodup).2.1).1
    exact htail (heq ▸ List.mem_map_of_mem hcard')

end

/-- A node with any of the observer's scores. -/
theorem holdsAny_keys {n : Node R} {observer : Pubkey} :
    n.holdsAny (keys observer) = true ↔ ∃ field, (n.props (key observer field)).isSome = true := by
  simp only [Node.holdsAny, keys, List.any_map, List.any_eq_true, Function.comp]
  constructor
  · rintro ⟨field, -, h⟩
    exact ⟨field, h⟩
  · rintro ⟨field, h⟩
    exact ⟨field, by cases field <;> simp [persistedFields], h⟩

/-- `_clear_unreached`, on one node. -/
theorem clearUnreached_node (observer : Pubkey) (scored : List Pubkey) {nodes : List (Node R)}
    {n : Node R} (hn : n ∈ nodes) (field : Field) :
    (n.mergeRows (nullRows (keys observer)
      ((getPubkeysScoredByObserver (keys observer) nodes).filter (· ∉ scored)))).props
        (key observer field) =
      if n.pubkey ∈ scored then n.props (key observer field) else none := by
  rw [mergeRows_nullRows]
  by_cases hs : n.pubkey ∈ scored
  · rw [if_pos hs, if_neg]
    rintro ⟨hmem, -⟩
    exact absurd hs (of_decide_eq_true (List.mem_filter.1 hmem).2)
  · rw [if_neg hs]
    by_cases hval : (n.props (key observer field)).isSome = true
    · -- a holder is found by the scan
      rw [if_pos]
      refine ⟨List.mem_filter.2 ⟨List.mem_map.2 ⟨n, List.mem_filter.2 ⟨hn, ?_⟩, rfl⟩, ?_⟩, mem_keys⟩
      · exact holdsAny_keys.2 ⟨field, hval⟩
      · exact decide_eq_true hs
    · split_ifs
      · rfl
      · simpa using hval

/-! ## Forced runs -/

/-- The nodes hold this run's scores above the floor, and no other of the observer. -/
structure Repaired (Φ : FloatOps R) (floor : R) (cards : List (ScoreCard R)) (observer : Pubkey)
    (before after : List (Node R)) : Prop where
  pubkeys : after.map (·.pubkey) = before.map (·.pubkey)
  holders : ∀ n ∈ after, n.holdsAny (keys observer) = true ↔
    ∃ card ∈ cards, card.observee = n.pubkey ∧ Φ.gt card.influence floor = true
  values : ∀ n ∈ after, ∀ card ∈ cards, card.observee = n.pubkey →
    Φ.gt card.influence floor = true → ∀ field,
      n.props (key observer field) = some (fieldValue Φ card field)

section
variable {Φ : FloatOps R} {floor : R} {cards : List (ScoreCard R)} {observer : Pubkey}
  {clear : List Pubkey} {nodes : List (Node R)}

/-- The cards above the floor. -/
def aboveFloor (Φ : FloatOps R) (floor : R) (cards : List (ScoreCard R)) : List (ScoreCard R) :=
  cards.filter fun card => Φ.gt card.influence floor

theorem mem_aboveFloor {card : ScoreCard R} :
    card ∈ aboveFloor Φ floor cards ↔ card ∈ cards ∧ Φ.gt card.influence floor = true :=
  List.mem_filter

/-- The three writes of a forced run, on one node. -/
def Node.afterForced (Φ : FloatOps R) (floor : R) (cards : List (ScoreCard R)) (observer : Pubkey)
    (clear stale : List Pubkey) (n : Node R) : Node R :=
  ((n.mergeRows ((aboveFloor Φ floor cards).map (row Φ observer))).mergeRows
    (nullRows (keys observer) clear)).mergeRows (nullRows (keys observer) stale)

/-- The first two of them. -/
def Node.afterClear (Φ : FloatOps R) (floor : R) (cards : List (ScoreCard R)) (observer : Pubkey)
    (clear : List Pubkey) (n : Node R) : Node R :=
  (n.mergeRows ((aboveFloor Φ floor cards).map (row Φ observer))).mergeRows
    (nullRows (keys observer) clear)

/-- The nodes that the scan finds and no scorecard explains. -/
def stalePubkeys (Φ : FloatOps R) (floor : R) (cards : List (ScoreCard R)) (observer : Pubkey)
    (clear : List Pubkey) (nodes : List (Node R)) : List Pubkey :=
  (getPubkeysScoredByObserver (keys observer)
    (nodes.map (·.afterClear Φ floor cards observer clear))).filter
      (· ∉ cards.map (·.observee))

/-- A forced run, node by node. -/
theorem forced_nodes {settings : Settings} {now : ℤ} {result : Result R} {st : Store R}
    {item : Pubkey × ScoreCard R} {items : List (Pubkey × ScoreCard R)}
    (hcards : result.scorecards = some (item :: items))
    (hfloor : result.neo4jPersistFloor = some floor) (hforced : st.forceFullNeo4j = some true) :
    (processNeo4jWriteMessage Φ settings now result st).nodes =
      st.nodes.map (·.afterForced Φ floor ((item :: items).map (·.2)) item.2.observer
        (result.neo4jClearPubkeys.getD [])
        (stalePubkeys Φ floor ((item :: items).map (·.2)) item.2.observer
          (result.neo4jClearPubkeys.getD []) st.nodes)) := by
  have hwrite : cardsToWrite Φ result true ((item :: items).map (·.2)) =
      aboveFloor Φ floor ((item :: items).map (·.2)) := by
    simp only [cardsToWrite, hfloor]
    rfl
  have hmid : (st.nodes.map (·.mergeRows ((aboveFloor Φ floor ((item :: items).map (·.2))).map
      (row Φ item.2.observer)))).map (·.mergeRows (nullRows (keys item.2.observer)
        (result.neo4jClearPubkeys.getD []))) =
      st.nodes.map (·.afterClear Φ floor ((item :: items).map (·.2)) item.2.observer
        (result.neo4jClearPubkeys.getD [])) := by
    rw [List.map_map]
    rfl
  simp only [processNeo4jWriteMessage, hcards, hforced, true_or, or_true, if_true, decide_true]
  rw [hwrite, writeBatches_set, writeBatches_clear, hmid, clearUnreached, writeBatches_clear,
    List.map_map]
  rfl

section
variable (hnodup : (cards.map (·.observee)).Nodup)
  (hclear : ∀ pk ∈ clear, ∀ card ∈ cards, card.observee = pk → Φ.gt card.influence floor = false)
include hnodup

/-- An observee has one scorecard. -/
theorem card_unique {card card' : ScoreCard R} (h : card ∈ cards) (h' : card' ∈ cards)
    (heq : card.observee = card'.observee) : card = card' :=
  List.inj_on_of_nodup_map hnodup h h' heq

include hclear

/-- A node whose observee is above the floor has this run's scores. -/
theorem afterForced_above {n : Node R} (hn : n ∈ nodes) {card : ScoreCard R} (hcard : card ∈ cards)
    (hpk : card.observee = n.pubkey) (habove : Φ.gt card.influence floor = true) (field : Field) :
    (n.afterForced Φ floor cards observer clear
      (stalePubkeys Φ floor cards observer clear nodes)).props (key observer field) =
        some (fieldValue Φ card field) := by
  have hscored : n.pubkey ∈ cards.map (·.observee) := hpk ▸ List.mem_map_of_mem hcard
  have hnot : n.pubkey ∉ clear := by
    intro hmem
    rw [hclear _ hmem card hcard hpk] at habove
    cases habove
  have hlast := clearUnreached_node observer (cards.map (·.observee))
    (List.mem_map_of_mem (f := fun n => n.afterClear Φ floor cards observer clear) hn) field
  have hsub : ((aboveFloor Φ floor cards).map (·.observee)).Nodup :=
    hnodup.sublist (List.filter_sublist.map _)
  refine hlast.trans ?_
  rw [if_pos (by simpa [Node.afterClear] using hscored), Node.afterClear, mergeRows_nullRows,
    if_neg (by simp [hnot])]
  exact mergeRows_card hsub (mem_aboveFloor.2 ⟨hcard, habove⟩) hpk field

omit hnodup hclear in
/-- Any other node keeps what it has if its observee has a scorecard and is not
    named by the worker, and nothing otherwise. -/
theorem afterForced_below (observer : Pubkey) (clear : List Pubkey) {n : Node R} (hn : n ∈ nodes)
    (hbelow : ∀ card ∈ cards, card.observee = n.pubkey → Φ.gt card.influence floor = false)
    (field : Field) :
    (n.afterForced Φ floor cards observer clear
      (stalePubkeys Φ floor cards observer clear nodes)).props (key observer field) =
        if n.pubkey ∈ cards.map (·.observee) ∧ n.pubkey ∉ clear
          then n.props (key observer field) else none := by
  have hlast := clearUnreached_node observer (cards.map (·.observee))
    (List.mem_map_of_mem (f := fun n => n.afterClear Φ floor cards observer clear) hn) field
  have hwrite : n.mergeRows ((aboveFloor Φ floor cards).map (row Φ observer)) = n := by
    refine mergeRows_absent fun row' hrow => ?_
    obtain ⟨card, hcard, rfl⟩ := List.mem_map.1 hrow
    obtain ⟨hmem, habove⟩ := mem_aboveFloor.1 hcard
    intro heq
    have hpk : card.observee = n.pubkey := heq
    rw [hbelow card hmem hpk] at habove
    cases habove
  refine hlast.trans ?_
  rw [Node.afterClear, mergeRows_pubkey, mergeRows_nullRows, hwrite]
  by_cases hs : n.pubkey ∈ cards.map (·.observee)
  · by_cases hc : n.pubkey ∈ clear
    · rw [if_pos hs, if_pos ⟨hc, mem_keys⟩, if_neg (fun h => h.2 hc)]
    · rw [if_pos hs, if_neg (fun h => hc h.1), if_pos ⟨hs, hc⟩]
  · rw [if_neg hs, if_neg (fun h => hs h.1)]

end

end

/-- **A forced full write repairs any drift** that the worker's list does not leave:
    the nodes hold exactly this run's scores above the floor if and only if the list
    names every holder whose scorecard is at or below it. -/
theorem forced_write_repairs_iff (Φ : FloatOps R) (settings : Settings) (now : ℤ)
    (result : Result R) (st : Store R) (item : Pubkey × ScoreCard R)
    (items : List (Pubkey × ScoreCard R)) (hcards : result.scorecards = some (item :: items))
    (hkeyed : (((item :: items).map (·.2)).map (·.observee)).Nodup) (floor : R)
    (hfloor : result.neo4jPersistFloor = some floor) (hforced : st.forceFullNeo4j = some true)
    (hclear : ∀ pk ∈ result.neo4jClearPubkeys.getD [], ∀ card ∈ (item :: items).map (·.2),
      card.observee = pk → Φ.gt card.influence floor = false) :
    Repaired Φ floor ((item :: items).map (·.2)) item.2.observer st.nodes
        (processNeo4jWriteMessage Φ settings now result st).nodes ↔
      ∀ n ∈ st.nodes, n.holdsAny (keys item.2.observer) = true →
        ∀ card ∈ (item :: items).map (·.2), card.observee = n.pubkey →
          Φ.gt card.influence floor = false → n.pubkey ∈ result.neo4jClearPubkeys.getD [] := by
  rw [forced_nodes hcards hfloor hforced]
  generalize (item :: items).map (·.2) = cards at hkeyed hclear ⊢
  generalize result.neo4jClearPubkeys.getD [] = clear at hclear ⊢
  generalize item.2.observer = observer
  have hpubkey : ∀ n : Node R, (n.afterForced Φ floor cards observer clear
      (stalePubkeys Φ floor cards observer clear st.nodes)).pubkey = n.pubkey := by
    intro n
    simp [Node.afterForced]
  constructor
  · intro hrep n hn hholds card hcard hpk hbelow
    by_contra hnot
    -- the node keeps its scores, which no scorecard above the floor explains
    have hall : ∀ card' ∈ cards, card'.observee = n.pubkey → Φ.gt card'.influence floor = false := by
      intro card' hcard' hpk'
      rw [card_unique hkeyed hcard' hcard (hpk'.trans hpk.symm)]
      exact hbelow
    obtain ⟨field, hfield⟩ := holdsAny_keys.1 hholds
    have hstill := afterForced_below observer clear hn hall field
    rw [if_pos ⟨hpk ▸ List.mem_map_of_mem hcard, hnot⟩] at hstill
    obtain ⟨card', hcard', hpk', habove⟩ := (hrep.holders _ (List.mem_map_of_mem hn)).1
      (holdsAny_keys.2 ⟨field, by rw [hstill]; exact hfield⟩)
    rw [hpubkey] at hpk'
    rw [hall card' hcard' hpk'] at habove
    cases habove
  · intro hlist
    refine ⟨?_, fun n' hn' => ?_, fun n' hn' card hcard hpk habove field => ?_⟩
    · rw [List.map_map]
      exact List.map_congr_left fun n _ => hpubkey n
    · obtain ⟨n, hn, rfl⟩ := List.mem_map.1 hn'
      rw [holdsAny_keys, hpubkey]
      constructor
      · rintro ⟨field, hfield⟩
        by_contra hnone
        have hbelow : ∀ card ∈ cards, card.observee = n.pubkey →
            Φ.gt card.influence floor = false := by
          intro card hcard hpk
          exact Bool.eq_false_iff.2 fun habove => hnone ⟨card, hcard, hpk, habove⟩
        rw [afterForced_below _ _ hn hbelow] at hfield
        split_ifs at hfield with hkept
        · -- a holder at or below the floor is named by the worker
          obtain ⟨card, hcard, hpk⟩ := List.mem_map.1 hkept.1
          exact hkept.2 (hlist n hn (holdsAny_keys.2 ⟨field, hfield⟩) card hcard hpk
            (hbelow card hcard hpk))
        · cases hfield
      · rintro ⟨card, hcard, hpk, habove⟩
        refine ⟨.influence, ?_⟩
        rw [afterForced_above hkeyed hclear hn hcard hpk habove]
        rfl
    · obtain ⟨n, hn, rfl⟩ := List.mem_map.1 hn'
      rw [hpubkey] at hpk
      exact afterForced_above hkeyed hclear hn hcard hpk habove field

/-- Scores as natural numbers. -/
def sampleOps : FloatOps ℕ where
  gt x y := y < x
  int x := x

/-- A node with an old influence. -/
def scoredNode (pubkey : Pubkey) : Node ℕ where
  pubkey := pubkey
  props k := if k = key "o" .influence then some (.float 7) else none

def sampleCard (observee : Pubkey) (influence : ℕ) : ScoreCard ℕ :=
  ⟨"o", observee, influence, 1, some 2, none, none⟩

/-- A result with floor 1. -/
def sampleResult (cards : List (ScoreCard ℕ)) (clear : List Pubkey) : Result ℕ :=
  ⟨true, some (cards.map fun card => (card.observee, card)), some [], some clear, some 1⟩

def sampleStore (pubkeys : List Pubkey) : Store ℕ :=
  ⟨pubkeys.map scoredNode, some true, .waiting, none⟩

theorem repaired_with_list :
    Repaired sampleOps 1 [sampleCard "a" 5, sampleCard "b" 0] "o"
      (sampleStore ["a", "b", "c"]).nodes
      (processNeo4jWriteMessage sampleOps ⟨false, 30⟩ 0
        (sampleResult [sampleCard "a" 5, sampleCard "b" 0] ["b"]) (sampleStore ["a", "b", "c"])).nodes := by
  refine (forced_write_repairs_iff sampleOps ⟨false, 30⟩ 0
    (sampleResult [sampleCard "a" 5, sampleCard "b" 0] ["b"]) (sampleStore ["a", "b", "c"])
    ("a", sampleCard "a" 5) [("b", sampleCard "b" 0)] rfl (by decide) 1 rfl rfl ?_).2 ?_
  · intro pk hpk card hcard hobs
    rw [List.mem_singleton.1 hpk] at hobs
    rcases List.mem_cons.1 hcard with rfl | hcard
    · exact absurd hobs (by decide)
    · rw [List.mem_singleton.1 hcard]
      rfl
  · intro n _ _ card hcard hobs hlow
    rcases List.mem_cons.1 hcard with rfl | hcard
    · cases hlow
    · rw [← hobs, List.mem_singleton.1 hcard]
      exact List.mem_singleton.2 rfl

/-- Old scores stay where the run has no scorecard at all to tell the observer from,
    and where a scorecard is at the floor and the worker does not name its node. -/
theorem old_scores_stay :
    ¬ Repaired sampleOps 1 [] "o" (sampleStore ["b"]).nodes
      (processNeo4jWriteMessage sampleOps ⟨false, 30⟩ 0 (sampleResult [] []) (sampleStore ["b"])).nodes ∧
    ¬ Repaired sampleOps 1 [sampleCard "b" 0] "o" (sampleStore ["b"]).nodes
      (processNeo4jWriteMessage sampleOps ⟨false, 30⟩ 0 (sampleResult [sampleCard "b" 0] [])
        (sampleStore ["b"])).nodes := by
  constructor
  · intro h
    obtain ⟨card, hmem, -⟩ := (h.holders (scoredNode "b") (List.mem_singleton.2 rfl)).1 rfl
    exact absurd hmem List.not_mem_nil
  · intro h
    obtain ⟨n, hn⟩ : ∃ n, (processNeo4jWriteMessage sampleOps ⟨false, 30⟩ 0
      (sampleResult [sampleCard "b" 0] []) (sampleStore ["b"])).nodes = [n] ∧
        n.holdsAny (keys "o") = true := ⟨_, rfl, rfl⟩
    obtain ⟨card, hmem, -, habove⟩ :=
      (h.holders n (by rw [hn.1]; exact List.mem_singleton.2 rfl)).1 hn.2
    rw [List.mem_singleton.1 hmem] at habove
    cases habove

end Scores

end BrainstormServer
