/-
  The users in Neo4j, as the readers of `app/repos/user_repo.py` see them.

  A user is told by its pubkey.  What an observer's run has found out about it are
  properties, named by the field and the observer; a property that is not there is null.
-/
import BrainstormServer.Graph.Handlers

namespace BrainstormServer

namespace Network

open BrainstormServer.Graph (Rel)

/-- A `NostrUser` node. -/
structure Node (V : Type) where
  pubkey : Pubkey
  props : String → Option V

/-- The nodes, no two of one pubkey, and the edges between them. -/
structure Users (V : Type) where
  nodes : List (Node V)
  edges : Rel → List (Pubkey × Pubkey)
  /-- `REQUIRE u.pubkey IS UNIQUE` -/
  unique : (nodes.map (·.pubkey)).Nodup
  /-- an edge has its two ends -/
  ends : ∀ r e, e ∈ edges r → e.1 ∈ nodes.map (·.pubkey) ∧ e.2 ∈ nodes.map (·.pubkey)

section
variable {V R : Type} (u : Users V)

/-- Whose nodes there are. -/
def Users.pubkeys : List Pubkey := u.nodes.map (·.pubkey)

/-- `n[key]` of the node of a pubkey. -/
def Users.prop (p : Pubkey) (key : String) : Option V := (u.nodes.find? (·.pubkey = p)).bind (·.props key)

/-- Who has an edge to `p`, once for each edge. -/
def Users.sources (r : Rel) (p : Pubkey) : List Pubkey := ((u.edges r).filter (·.2 = p)).map (·.1)

/-- Whom `p` has an edge to, once for each edge. -/
def Users.targets (r : Rel) (p : Pubkey) : List Pubkey := ((u.edges r).filter (·.1 = p)).map (·.2)

/-- The edges to `p` from those whose property is greater than the bound; a null is not. -/
def Users.countAbove (gt : V → R → Bool) (r : Rel) (key : String) (bound : R) (p : Pubkey) : ℕ :=
  (u.sources r p).countP fun source => (u.prop source key).any (gt · bound)

variable {u}

theorem source_mem_pubkeys {r : Rel} {p q : Pubkey} (h : q ∈ u.sources r p) : q ∈ u.pubkeys ∧ p ∈ u.pubkeys := by
  obtain ⟨e, he, rfl⟩ := List.mem_map.1 h
  obtain ⟨hmem, hto⟩ := List.mem_filter.1 he
  have hends := u.ends r e hmem
  rw [of_decide_eq_true hto] at hends
  exact hends

theorem target_mem_pubkeys {r : Rel} {p q : Pubkey} (h : q ∈ u.targets r p) : q ∈ u.pubkeys ∧ p ∈ u.pubkeys := by
  obtain ⟨e, he, rfl⟩ := List.mem_map.1 h
  obtain ⟨hmem, hfrom⟩ := List.mem_filter.1 he
  have hends := u.ends r e hmem
  rw [of_decide_eq_true hfrom] at hends
  exact hends.symm

/-- Whoever is counted to has an edge. -/
theorem exists_source_of_countAbove {gt : V → R → Bool} {r : Rel} {key : String} {bound : R} {p : Pubkey}
    (h : 0 < u.countAbove gt r key bound p) : ∃ q, (q, p) ∈ u.edges r := by
  obtain ⟨q, hq, -⟩ := List.countP_pos_iff.1 h
  obtain ⟨e, he, rfl⟩ := List.mem_map.1 hq
  obtain ⟨hmem, hto⟩ := List.mem_filter.1 he
  rw [decide_eq_true_eq] at hto
  exact ⟨e.1, hto ▸ hmem⟩

end

/-- `VerifiedCutoffs`. -/
structure VerifiedCutoffs (R : Type) where
  follower : R
  muter : R
  reporter : R

/-- `verified_line`. -/
def VerifiedCutoffs.verifiedLine {R : Type} (cutoffs : VerifiedCutoffs R) : R := cutoffs.follower

end Network

end BrainstormServer
