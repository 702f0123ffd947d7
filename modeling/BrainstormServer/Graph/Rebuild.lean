/-
  Rebuilding the sets of Redis from the graph
  (`app/message_queue_tasks/backfill_redis_relationships.py`).

  The sets say who follows, mutes and reports an account, and whom it designates.  They are
  rebuilt when the server starts and finds none of them, relationship by relationship and page
  by page, and a marker is set when all are there.  A start can be cut off anywhere, in the
  middle of a pipeline too.

  * `Built`: the sets hold nothing but the graph, and the marker stands for all of it;
  * `safe_writePage`, `safe_pages`: what a page and a relationship add;
  * `marked_is_complete`: after starts that were cut off anywhere, the marker is set only if
    nothing is missing;
  * `start_rebuilds`: a start that is not cut off sets it, unless the graph is not there yet or it
    finds sets without a marker, and then it changes nothing.
-/
import BrainstormServer.Conc.Crash
import BrainstormServer.Nostr
import Mathlib.Data.List.Induction
import Mathlib.Data.List.Sort
import Mathlib.Data.String.Basic

namespace BrainstormServer

namespace Rebuild

open Conc Prog

/-! ## The program -/

inductive Relationship
  | follows
  | mutes
  | reports
  | designates
  | zapsVia
  deriving DecidableEq

/-- The keys of `_RELATIONSHIP_TO_PREFIX`: a set is kept for each target. -/
def reverseRelationships : List Relationship := [.follows, .mutes, .reports]

/-- The keys of `_FORWARD_RELATIONSHIP_TO_PREFIX`: a set is kept for each source. -/
def forwardRelationships : List Relationship := [.designates, .zapsVia]

/-- The nodes of the graph in the order of their keys, which are unique, and their edges. -/
structure Graph where
  users : List Pubkey
  targets : Relationship → Pubkey → List Pubkey
  sorted : users.Pairwise (· < ·)

/-- A member of a set: the relationship of the key's prefix, the account of the key, the member. -/
structure Entry where
  relationship : Relationship
  owner : Pubkey
  member : Pubkey
  deriving DecidableEq

/-- `PAGE_SIZE`. -/
def pageSize : ℕ := 2000

/-- `PIPELINE_FLUSH_EVERY`. -/
def pipelineFlushEvery : ℕ := 5000

inductive Cmd
  | exists_
  | isGraphDbPopulated
  /-- `_redis_has_relationship_data` -/
  | hasRelationshipData
  | countNostrUsers
  /-- the query of a page -/
  | page (relationship : Relationship) (cursor : Pubkey)
  | sadd (entry : Entry)
  /-- the marker is set -/
  | set

@[reducible] def Cmd.Ans : Cmd → Type
  | exists_ => Bool
  | isGraphDbPopulated => Bool
  | hasRelationshipData => Bool
  | countNostrUsers => ℕ
  | page _ _ => List (Pubkey × List Pubkey)
  | sadd _ => Unit
  | set => Unit

/-- The loop of the pages was given too few turns. -/
inductive Failed
  | outOfFuel

abbrev Act (α : Type) := Prog (C := Cmd) Cmd.Ans Failed α

/-- Execute a command. -/
def await (c : Cmd) : Act c.Ans := call c

/-- The entry of an edge. -/
def entryOf (relationship : Relationship) (forward : Bool) (source target : Pubkey) : Entry :=
  if forward then ⟨relationship, source, target⟩ else ⟨relationship, target, source⟩

/-- Execute a pipeline; it is no transaction. -/
def execute : List Entry → Act Unit
  | [] => .ret ()
  | e :: pipe => (await (.sadd e)).bind fun _ => execute pipe

/-- Write the edges of a page, in pipelines. -/
def writePage : List Entry → List Entry → Act Unit
  | [], pipe => execute pipe
  | e :: edges, pipe =>
    if pipelineFlushEvery ≤ (pipe ++ [e]).length then (execute (pipe ++ [e])).bind fun _ => writePage edges []
    else writePage edges (pipe ++ [e])

/-- `page_max_cursor` after a record. -/
def later (cursor : Option Pubkey) (record : Pubkey × List Pubkey) : Option Pubkey :=
  if cursor.all (· < record.1) then some record.1 else cursor

/-- The loop of `_backfill_relationship`, of so many turns at most. -/
def pages (relationship : Relationship) (forward : Bool) : ℕ → Pubkey → Act Unit
  | 0, _ => .raise .outOfFuel
  | fuel + 1, cursor => do
    let records ← await (.page relationship cursor)
    writePage (records.flatMap fun record => record.2.map (entryOf relationship forward record.1)) []
    match records.foldl later none with
    | none => return ()
    | some cursor => pages relationship forward fuel cursor

/-- `_backfill_relationship`, for one relationship after the other. -/
def backfillRelationships (fuel : ℕ) (forward : Bool) : List Relationship → Act Unit
  | [] => .ret ()
  | relationship :: rest => (pages relationship forward fuel "").bind fun _ => backfillRelationships fuel forward rest

/-- `backfill_redis_relationships_if_needed`. -/
def backfillRedisRelationshipsIfNeeded (fuel : ℕ) : Act Unit := do
  let marked ← await .exists_
  if marked then return ()
  let populated ← await .isGraphDbPopulated
  if !populated then return ()
  let hasData ← await .hasRelationshipData
  if hasData then return ()
  let _ ← await .countNostrUsers
  backfillRelationships fuel false reverseRelationships
  backfillRelationships fuel true forwardRelationships
  await .set

/-! ## Redis -/

/-- The members of the sets, and whether the marker is set. -/
structure Redis where
  entries : List Entry
  marker : Bool

/-- There is a set of one of the reverse relationships. -/
def Redis.hasRelationshipData (r : Redis) : Bool := r.entries.any fun e => e.relationship ∈ reverseRelationships

section
variable (g : Graph) (populated : Bool)

/-- The effect of a command; the graph stays as it is while the server starts. -/
def exec (_ : Unit) : (c : Cmd) → Redis → Unit → Option (c.Ans × Redis)
  | .exists_, r, _ => some (r.marker, r)
  | .isGraphDbPopulated, r, _ => some (populated, r)
  | .hasRelationshipData, r, _ => some (r.hasRelationshipData, r)
  | .countNostrUsers, r, _ => some (g.users.length, r)
  | .page relationship cursor, r, _ =>
    some (((g.users.filter (cursor < ·)).take pageSize).map fun u => (u, g.targets relationship u), r)
  | .sadd e, r, _ => some ((), { r with entries := r.entries.insert e })
  | .set, r, _ => some ((), { r with marker := true })

/-- A start that is cut off after `n` commands, if it is not over by then. -/
def start (fuel : ℕ) (r : Redis) (n : ℕ) : Redis :=
  ((backfillRedisRelationshipsIfNeeded fuel).upTo (exec g populated) () (List.replicate n ()) r).2

/-- The relationships for which a set is kept for each source. -/
def Relationship.forward (relationship : Relationship) : Bool := relationship ∈ forwardRelationships

/-- The entries of a relationship of some nodes. -/
def entriesOf (relationship : Relationship) (sources : List Pubkey) : List Entry :=
  sources.flatMap fun source => (g.targets relationship source).map (entryOf relationship relationship.forward source)

/-- An entry is that of an edge. -/
def IsEdge (e : Entry) : Prop := ∃ relationship, e ∈ entriesOf g relationship g.users

/-- No edge of a node that has a key is missing. -/
def Complete (r : Redis) : Prop := ∀ relationship, ∀ source ∈ g.users, source ≠ "" →
  ∀ target ∈ g.targets relationship source, entryOf relationship relationship.forward source target ∈ r.entries

/-- What starts leave behind: the sets hold what they held and what the graph has, and all of
    it if the marker is set. -/
structure Built (before r : Redis) : Prop where
  sound : ∀ e ∈ r.entries, e ∈ before.entries ∨ IsEdge g e
  keeps : ∀ e ∈ before.entries, e ∈ r.entries
  complete : r.marker = true → Complete g r

/-! ## What the loops add -/

/-- The sets are being rebuilt: what was there is there, and so is what was added. -/
structure Building (before : Redis) (added : List Entry) (r : Redis) : Prop where
  sound : ∀ e ∈ r.entries, e ∈ before.entries ∨ IsEdge g e
  keeps : ∀ e ∈ before.entries, e ∈ r.entries
  marker : r.marker = false
  adds : ∀ e ∈ added, e ∈ r.entries

variable {g populated}
variable {before r r' : Redis} {added : List Entry} {fuel : ℕ} {relationship : Relationship}

theorem Building.built (h : Building g before added r) : Built g before r where
  sound := h.sound
  keeps := h.keeps
  complete := fun hmarker => by
    rw [h.marker] at hmarker
    cases hmarker

theorem Building.mono {fewer : List Entry} (h : Building g before added r) (hsub : fewer ⊆ added) :
    Building g before fewer r :=
  { h with adds := fun e he => h.adds e (hsub he) }

theorem Building.sadd {e : Entry} (h : Building g before added r) (he : IsEdge g e) :
    Building g before (added ++ [e]) { r with entries := r.entries.insert e } where
  sound := fun e' he' => (List.mem_insert_iff.1 he').elim (fun heq => Or.inr (heq ▸ he)) (h.sound e')
  keeps := fun e' he' => List.mem_insert_of_mem (h.keeps e' he')
  marker := h.marker
  adds := fun e' he' => (List.mem_append.1 he').elim (fun he' => List.mem_insert_of_mem (h.adds e' he'))
    fun he' => List.mem_singleton.1 he' ▸ List.mem_insert_self

/-- Of a pipeline that is cut off, a part is there. -/
theorem safe_execute {pipe : List Entry} : ∀ {added : List Entry} {r : Redis}, Building g before added r →
    (∀ e ∈ pipe, IsEdge g e) → (execute pipe).Safe (exec g populated) () (Built g before)
      (fun res r' => ∃ a, res = .ok a ∧ Building g before (added ++ pipe) r') r := by
  induction pipe with
  | nil =>
    intro added r h _
    exact ⟨(), rfl, by rwa [List.append_nil]⟩
  | cons e pipe ih =>
    intro added r h hedges
    refine ⟨h.built, fun ω res hres => ?_⟩
    cases hres
    have hnext := ih (h.sadd (hedges e List.mem_cons_self)) fun e' he' => hedges e' (List.mem_cons_of_mem e he')
    rw [List.append_assoc] at hnext
    exact hnext

theorem safe_writePage {edges : List Entry} : ∀ {added pipe : List Entry} {r : Redis}, Building g before added r →
    (∀ e ∈ pipe ++ edges, IsEdge g e) → (writePage edges pipe).Safe (exec g populated) () (Built g before)
      (fun res r' => ∃ a, res = .ok a ∧ Building g before (added ++ (pipe ++ edges)) r') r := by
  induction edges with
  | nil =>
    intro added pipe r h hedges
    rw [List.append_nil] at hedges ⊢
    exact safe_execute h hedges
  | cons e edges ih =>
    intro added pipe r h hedges
    have hsplit : pipe ++ e :: edges = (pipe ++ [e]) ++ edges := by simp
    rw [hsplit] at hedges ⊢
    unfold writePage
    split_ifs
    · refine safe_then (safe_execute h fun e' he' => hedges e' (List.mem_append_left _ he')) fun _ r' hr' => ?_
      have hnext := @ih _ [] _ hr' fun e' he' => hedges e' (List.mem_append_right _ he')
      rw [List.append_assoc] at hnext
      exact hnext
    · exact ih h hedges

/-- The cursor is a source of the page, if the page has one. -/
theorem later_foldl {records : List (Pubkey × List Pubkey)} : ∀ {cursor : Option Pubkey},
    (records.foldl later cursor = none → records = [] ∧ cursor = none) ∧
    ∀ {c : Pubkey}, records.foldl later cursor = some c → cursor = some c ∨ c ∈ records.map Prod.fst := by
  induction records with
  | nil => exact ⟨fun h => ⟨rfl, h⟩, fun h => Or.inl h⟩
  | cons record records ih =>
    intro cursor
    rw [List.foldl_cons]
    have hlater : later cursor record = cursor ∧ cursor ≠ none ∨ later cursor record = some record.1 := by
      unfold later
      split_ifs with hle
      · exact Or.inr rfl
      · refine Or.inl ⟨rfl, fun hnone => hle ?_⟩
        rw [hnone]
        rfl
    obtain ⟨heq, hsome⟩ | heq := hlater <;> rw [heq]
    · refine ⟨fun h => absurd (ih.1 h).2 hsome, fun h => (ih.2 h).imp_right fun h' => ?_⟩
      exact List.mem_cons_of_mem _ h'
    · refine ⟨fun h => absurd (ih.1 h).2 (by simp), fun h => Or.inr ?_⟩
      obtain h' | h' := ih.2 h
      · cases h'
        exact List.mem_cons_self
      · exact List.mem_cons_of_mem _ h'

theorem isEdge_of_mem {sources : List Pubkey} {e : Entry} (hsub : sources ⊆ g.users)
    (he : e ∈ entriesOf g relationship sources) : IsEdge g e := by
  obtain ⟨source, hsource, hmem⟩ := List.mem_flatMap.1 he
  exact ⟨relationship, List.mem_flatMap.2 ⟨source, hsub hsource, hmem⟩⟩

/-- The sources after the cursor are on the page or after the next cursor. -/
theorem mem_page_or_lt {cursor c source : Pubkey} (hc : c ∈ (g.users.filter (cursor < ·)).take pageSize)
    (hsource : source ∈ g.users.filter (cursor < ·)) :
    source ∈ (g.users.filter (cursor < ·)).take pageSize ∨ c < source := by
  rw [← List.take_append_drop pageSize (g.users.filter (cursor < ·))] at hsource
  refine (List.mem_append.1 hsource).imp_right fun hdrop => ?_
  have hpairs := g.sorted.filter (cursor < ·)
  rw [← List.take_append_drop pageSize (g.users.filter (cursor < ·))] at hpairs
  exact (List.pairwise_append.1 hpairs).2.2 c hc source hdrop

/-- Every page leaves fewer sources for the next. -/
theorem length_lt_of_mem {cursor c : Pubkey} (hc : c ∈ g.users.filter (cursor < ·)) :
    (g.users.filter (c < ·)).length < (g.users.filter (cursor < ·)).length := by
  obtain ⟨hmem, hlt⟩ := List.mem_filter.1 hc
  have hsub : g.users.filter (c < ·) = (g.users.filter (cursor < ·)).filter (c < ·) := by
    rw [List.filter_filter]
    refine List.filter_congr fun u _ => ?_
    have htrans : c < u → cursor < u := (of_decide_eq_true hlt).trans
    by_cases hcu : c < u <;> simp [hcu, htrans]
  rw [hsub]
  exact List.length_filter_lt_length_iff_exists.2 ⟨c, hc, by simp⟩

/-- With a turn for every source and one more the loop adds all of them. -/
theorem safe_pages : ∀ {fuel : ℕ} {cursor : Pubkey} {added : List Entry} {r : Redis}, Building g before added r →
    (g.users.filter (cursor < ·)).length < fuel →
    (pages relationship relationship.forward fuel cursor).Safe (exec g populated) () (Built g before)
      (fun res r' => ∃ a, res = .ok a ∧
        Building g before (added ++ entriesOf g relationship (g.users.filter (cursor < ·))) r') r := by
  intro fuel
  induction fuel with
  | zero => exact fun _ hfuel => absurd hfuel (Nat.not_lt_zero _)
  | succ fuel ih =>
    intro cursor added r h hfuel
    refine ⟨h.built, fun ω res hres => ?_⟩
    cases hres
    have hsub : (g.users.filter (cursor < ·)).take pageSize ⊆ g.users :=
      fun u hu => (List.mem_filter.1 (List.mem_of_mem_take hu)).1
    have hwrite : (writePage (entriesOf g relationship ((g.users.filter (cursor < ·)).take pageSize)) []).Safe
        (exec g populated) () (Built g before) (fun res r' => ∃ a, res = .ok a ∧ Building g before
          (added ++ ([] ++ entriesOf g relationship ((g.users.filter (cursor < ·)).take pageSize))) r') r :=
      safe_writePage h fun e he => isEdge_of_mem hsub he
    rw [List.nil_append] at hwrite
    simp only [bind_eq, ret_bind, List.flatMap_map]
    refine safe_then hwrite fun _ r' hr' => ?_
    have hcursor := @later_foldl (((g.users.filter (cursor < ·)).take pageSize).map fun u =>
      (u, g.targets relationship u)) none
    have hid : Prod.fst ∘ (fun u => (u, g.targets relationship u)) = id := rfl
    rw [List.map_map, hid, List.map_id] at hcursor
    split
    · -- the page was empty, and so no source is left
      rename_i hnone
      refine ⟨(), rfl, ?_⟩
      have hempty := List.map_eq_nil_iff.1 (hcursor.1 hnone).1
      have hall : g.users.filter (cursor < ·) = [] := by
        simpa [pageSize] using hempty
      rwa [hempty, ← hall] at hr'
    · rename_i c hc
      have hmem : c ∈ (g.users.filter (cursor < ·)).take pageSize := (hcursor.2 hc).resolve_left (by simp)
      have hless := length_lt_of_mem (List.mem_of_mem_take hmem)
      refine (ih hr' (by omega)).mono fun res r'' hres => ?_
      obtain ⟨a, rfl, hr''⟩ := hres
      refine ⟨a, rfl, hr''.mono fun e he => ?_⟩
      rw [List.append_assoc]
      refine (List.mem_append.1 he).elim (List.mem_append_left _) fun he => List.mem_append_right _ ?_
      obtain ⟨source, hsource, hedge⟩ := List.mem_flatMap.1 he
      refine List.mem_append.2 ((mem_page_or_lt hmem hsource).imp (fun hpage => ?_) fun hlt => ?_)
      · exact List.mem_flatMap.2 ⟨source, hpage, hedge⟩
      · have hmem' : source ∈ g.users.filter (c < ·) :=
          List.mem_filter.2 ⟨(List.mem_filter.1 hsource).1, decide_eq_true hlt⟩
        exact List.mem_flatMap.2 ⟨source, hmem', hedge⟩

theorem safe_backfillRelationships {forward : Bool} (hfuel : g.users.length < fuel)
    {relationships : List Relationship} : (∀ relationship ∈ relationships, relationship.forward = forward) →
    ∀ {added : List Entry} {r : Redis}, Building g before added r →
    (backfillRelationships fuel forward relationships).Safe (exec g populated) () (Built g before)
      (fun res r' => ∃ a, res = .ok a ∧ Building g before (added ++ relationships.flatMap fun relationship =>
        entriesOf g relationship (g.users.filter ("" < ·))) r') r := by
  induction relationships with
  | nil =>
    intro _ added r h
    exact ⟨(), rfl, by rwa [List.flatMap_nil, List.append_nil]⟩
  | cons relationship rest ih =>
    intro hforward added r h
    have hturns : (g.users.filter ("" < ·)).length < fuel := (List.length_filter_le _ _).trans_lt hfuel
    have hpages : (pages relationship relationship.forward fuel "").Safe (exec g populated) () (Built g before)
        (fun res r' => ∃ a, res = .ok a ∧
          Building g before (added ++ entriesOf g relationship (g.users.filter ("" < ·))) r') r :=
      safe_pages h hturns
    rw [hforward relationship List.mem_cons_self] at hpages
    refine safe_then hpages fun _ r' hr' => ?_
    have hnext := ih (fun relationship' hmem => hforward relationship' (List.mem_cons_of_mem _ hmem)) hr'
    rwa [List.append_assoc] at hnext

/-- All relationships, from a Redis that is not marked. -/
theorem Building.complete {r : Redis} (h : Building g before ((reverseRelationships ++ forwardRelationships).flatMap
    fun relationship => entriesOf g relationship (g.users.filter ("" < ·))) r) : Complete g r := by
  intro relationship source hsource hkey target htarget
  refine h.adds _ (List.mem_flatMap.2 ⟨relationship, by cases relationship <;> decide, ?_⟩)
  have hlt : "" < source := by
    rw [String.lt_iff_toList_lt]
    cases hchars : source.toList with
    | nil => exact absurd (String.toList_eq_nil_iff.1 hchars) hkey
    | cons c chars => exact List.nil_lt_cons c chars
  exact List.mem_flatMap.2 ⟨source, List.mem_filter.2 ⟨hsource, decide_eq_true hlt⟩, List.mem_map_of_mem htarget⟩

theorem safe_start (hfuel : g.users.length < fuel) (hr : r.marker = true → Complete g r) :
    (backfillRedisRelationshipsIfNeeded fuel).Safe (exec g populated) () (Built g r)
      (fun res r' => res = .ok () ∧ Built g r r' ∧
        if r.marker ∨ !populated ∨ r.hasRelationshipData then r' = r else r'.marker = true) r := by
  have hbefore : Built g r r := ⟨fun e he => Or.inl he, fun e he => he, hr⟩
  refine ⟨hbefore, fun _ res hres => ?_⟩
  cases hres
  simp only [ret_bind, bind_eq]
  by_cases hmarker : r.marker = true
  · rw [if_pos hmarker]
    exact ⟨rfl, hbefore, by simp [hmarker]⟩
  rw [if_neg hmarker]
  refine ⟨hbefore, fun _ res hres => ?_⟩
  cases hres
  simp only [ret_bind]
  by_cases hpopulated : populated = true
  swap
  · rw [if_pos (by simpa using hpopulated)]
    exact ⟨rfl, hbefore, by simp [hpopulated]⟩
  rw [if_neg (by simpa using hpopulated)]
  refine ⟨hbefore, fun _ res hres => ?_⟩
  cases hres
  simp only [ret_bind]
  by_cases hdata : r.hasRelationshipData = true
  · rw [if_pos hdata]
    exact ⟨rfl, hbefore, by simp [hdata]⟩
  rw [if_neg hdata]
  refine ⟨hbefore, fun _ res hres => ?_⟩
  cases hres
  simp only [ret_bind]
  have hstart : Building g r [] r :=
    ⟨hbefore.sound, hbefore.keeps, by simpa using hmarker, fun e he => absurd he List.not_mem_nil⟩
  refine safe_then (safe_backfillRelationships hfuel (by decide) hstart) fun _ r₁ hreverse => ?_
  refine safe_then (safe_backfillRelationships hfuel (by decide) hreverse) fun _ r₂ hforward => ?_
  refine ⟨hforward.built, fun _ res hres => ?_⟩
  cases hres
  rw [List.nil_append, ← List.flatMap_append] at hforward
  refine ⟨rfl, ⟨hforward.sound, hforward.keeps, fun _ => hforward.complete⟩, ?_⟩
  rw [if_neg (by simp [hmarker, hpopulated, hdata])]

/-! ## Starts -/

/-- `a` follows `b`, and `b` designates `a`. -/
def sampleGraph : Graph where
  users := ["a", "b"]
  targets := fun relationship source =>
    match relationship, source with
    | .follows, "a" => ["b"]
    | .designates, "b" => ["a"]
    | _, _ => []
  sorted := by decide

/-- After starts that were cut off anywhere, the sets hold what they held and what the graph
    has; where the marker is set nothing is missing. -/
theorem marked_is_complete (hfuel : g.users.length < fuel) (hr : r.marker = true → Complete g r)
    (starts : List (Bool × ℕ)) : Built g r (starts.foldl (fun r s => start g s.1 fuel r s.2) r) := by
  induction starts using List.reverseRecOn with
  | nil => exact ⟨fun e he => Or.inl he, fun e he => he, hr⟩
  | append_singleton starts s ih =>
    rw [List.foldl_append]
    have hsafe : (backfillRedisRelationshipsIfNeeded fuel).Safe (exec g s.1) () _ _ _ := safe_start hfuel ih.complete
    have hlast := (Safe.upTo (List.replicate s.2 ()) hsafe).elim id fun _ h => h.2.1
    refine ⟨fun e he => ?_, fun e he => hlast.keeps e (ih.keeps e he), hlast.complete⟩
    exact (hlast.sound e he).elim (ih.sound e) Or.inr

/-- The graph is not there yet, a start is cut off before it writes, and one goes through. -/
theorem marked_after_three :
    [(false, 9), (true, 5), (true, 40)].foldl (fun r s => start sampleGraph s.1 3 r s.2) ⟨[], false⟩ =
      ⟨[⟨.designates, "b", "a"⟩, ⟨.follows, "b", "a"⟩], true⟩ ∧
    Built sampleGraph ⟨[], false⟩
      ([(false, 9), (true, 5), (true, 40)].foldl (fun r s => start sampleGraph s.1 3 r s.2) ⟨[], false⟩) :=
  ⟨rfl, marked_is_complete (by decide) (fun h => by cases h) _⟩

/-- A start that is not cut off rebuilds all of it, if the graph is there and no set is; else it
    changes nothing and sets no marker, and so does every start after it. -/
theorem start_rebuilds (hfuel : g.users.length < fuel) (hmarker : r.marker = false) :
    ∃ r', (backfillRedisRelationshipsIfNeeded fuel).alone (exec g populated) () (fun _ => ()) r = some (.ok (), r') ∧
      if populated = true ∧ r.hasRelationshipData = false then r'.marker = true ∧ Built g r r' else r' = r := by
  have htotal : ∀ c r ω, ∃ res, exec g populated () c r ω = some res := fun c r ω => by
    cases c <;> exact ⟨_, rfl⟩
  have hsafe : (backfillRedisRelationshipsIfNeeded fuel).Safe (exec g populated) () _ _ _ :=
    safe_start hfuel fun h => absurd (hmarker.symm.trans h) Bool.false_ne_true
  obtain ⟨res, r', halone, rfl, hbuilt, hdone⟩ := wp_alone _ _ (fun _ => True) (fun _ => ())
    (fun _ => trivial) (hsafe.wp htotal)
  refine ⟨r', halone, ?_⟩
  split_ifs with hstart
  · obtain ⟨hpopulated, hdata⟩ := hstart
    rw [if_neg (by simp [hmarker, hpopulated, hdata])] at hdone
    exact ⟨hdone, hbuilt⟩
  · rwa [if_pos] at hdone
    rw [not_and, Bool.not_eq_false] at hstart
    cases populated with
    | false => exact Or.inr (Or.inl rfl)
    | true => exact Or.inr (Or.inr (hstart rfl))

/-- From nothing, after a start that was cut off when it had written, and before the graph is there. -/
theorem rebuilt_or_stranded :
    (∃ r', (backfillRedisRelationshipsIfNeeded 3).alone (exec sampleGraph true) () (fun _ => ()) ⟨[], false⟩ =
      some (.ok (), r') ∧ r'.marker = true ∧ Built sampleGraph ⟨[], false⟩ r') ∧
    (∃ r', (backfillRedisRelationshipsIfNeeded 3).alone (exec sampleGraph true) () (fun _ => ())
      (start sampleGraph true 3 ⟨[], false⟩ 6) = some (.ok (), r') ∧ r' = ⟨[⟨.follows, "b", "a"⟩], false⟩) ∧
    ∃ r', (backfillRedisRelationshipsIfNeeded 3).alone (exec sampleGraph false) () (fun _ => ()) ⟨[], false⟩ =
      some (.ok (), r') ∧ r' = ⟨[], false⟩ :=
  ⟨start_rebuilds (by decide) rfl, start_rebuilds (by decide) rfl, start_rebuilds (by decide) rfl⟩

end

end Rebuild

end BrainstormServer
