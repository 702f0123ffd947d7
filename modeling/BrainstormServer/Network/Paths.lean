/-
  The network of shortest paths (`app/services/graph_service.py`, on
  `get_all_shortest_follow_paths` of `app/repos/user_repo.py`).

  Between two accounts there may be many shortest paths of follows.  The answer does not list
  them: it lists the accounts at each hop, and which of them follow which at the next.

  * `mem_link_iff`: what the loop over the paths notes down;
  * `tied_pathNetwork`: so the links are those of the paths;
  * `network_exact`: reading the network from one end to the other gives back the shortest paths,
    each once, and nothing else.
-/
import BrainstormServer.Conc.Layered
import BrainstormServer.Nostr
import Mathlib.Data.List.Chain
import Mathlib.Data.List.Dedup
import Mathlib.Data.String.Basic

namespace BrainstormServer

namespace Paths

open Conc

/-! ## The network -/

/-- `sorted` of a set. -/
def sortedSet {α : Type} [LinearOrder α] (l : List α) : List α := sortBy (· ≤ ·) l.dedup

/-- `path[i]`. -/
def node (path : List Pubkey) (i : ℕ) : Pubkey := path.getD i ""

/-- The accounts at a hop. -/
def layer (paths : List (List Pubkey)) (i : ℕ) : List Pubkey := sortedSet (paths.map (node · i))

/-- Note down where a path leads from the layer `i`. -/
def addTarget (current next : List Pubkey) (i : ℕ) (targets : List (List ℕ)) (path : List Pubkey) : List (List ℕ) :=
  targets.modify (current.idxOf (node path (i + 1))) fun t => t.insert (next.idxOf (node path (i + 2)))

/-- The links from the layer `i` to the next. -/
def link (paths : List (List Pubkey)) (layers : List (List Pubkey)) (i : ℕ) : List (List ℕ) :=
  let current := layers.getD i []
  let next := layers.getD (i + 1) []
  (paths.foldl (addTarget current next i) (current.map fun _ => [])).map (sortBy (· ≤ ·))

/-- `_path_network`. -/
def pathNetwork (paths : List (List Pubkey)) (hops : ℕ) : Layered Pubkey :=
  let layers := (List.range' 1 (hops - 1)).map (layer paths)
  ⟨layers, (List.range (layers.length - 1)).map (link paths layers)⟩

/-- `ShortestPathData`. -/
structure ShortestPathData where
  fromPubkey : Pubkey
  toPubkey : Pubkey
  reachable : Bool
  hops : Option ℕ
  pathCount : Option ℕ
  layers : List (List Pubkey)
  links : List (List (List ℕ))
  maxHops : ℕ

/-- `_no_network`. -/
def noNetwork (fromHex toHex : Pubkey) (maxHops : ℕ) (hops pathCount : Option ℕ) : ShortestPathData :=
  ⟨fromHex, toHex, hops.isSome, hops, pathCount, [], [], maxHops⟩

/-- `get_shortest_follow_path`, given the two keys; `query` is the one of the repository, and
    `none` if it takes too long. -/
def getShortestFollowPath (query : Pubkey → Pubkey → ℕ → Option (List (List Pubkey))) (fromHex toHex : Pubkey)
    (maxHops : ℕ) : Except ℕ ShortestPathData :=
  if fromHex = toHex then .ok (noNetwork fromHex toHex maxHops (some 0) (some 1))
  else match query fromHex toHex maxHops with
    | none => .error 504
    | some [] => .ok (noNetwork fromHex toHex maxHops none (some 0))
    | some (path :: paths) =>
      let hops := path.length - 1
      let network := pathNetwork (path :: paths) hops
      .ok ⟨fromHex, toHex, true, some hops, some (path :: paths).length, network.layers, network.links, maxHops⟩

/-- The paths that an answer spells out. -/
def ShortestPathData.paths (r : ShortestPathData) : List (List Pubkey) :=
  match r.hops with
  | none => []
  | some 0 => [[r.fromPubkey]]
  | some _ => (Layered.spelled ⟨r.layers, r.links⟩).map fun inner => r.fromPubkey :: inner ++ [r.toPubkey]

/-! ## Paths of follows -/

section
variable (follows : Pubkey → Pubkey → Prop) (a b : Pubkey)

/-- A path, ends included. -/
structure IsPath (p : List Pubkey) : Prop where
  chain : p.IsChain follows
  head : p.head? = some a
  last : p.getLast? = some b

def Shortest (p : List Pubkey) : Prop := IsPath follows a b p ∧ ∀ q, IsPath follows a b q → p.length ≤ q.length

/-- What `allShortestPaths` promises: between two accounts it finds every shortest path of so many
    hops at most, and each once. -/
def FindsAll (query : Pubkey → Pubkey → ℕ → Option (List (List Pubkey))) : Prop :=
  ∀ a b maxHops paths, a ≠ b → query a b maxHops = some paths →
    paths.Nodup ∧ ∀ p, p ∈ paths ↔ Shortest follows a b p ∧ p.length ≤ maxHops + 1

end

/-! ## What the loop notes down -/

theorem mem_sortedSet {α : Type} [LinearOrder α] {l : List α} {x : α} : x ∈ sortedSet l ↔ x ∈ l := by
  rw [sortedSet, sortBy, List.mem_insertionSort, List.mem_dedup]

theorem nodup_sortedSet {α : Type} [LinearOrder α] (l : List α) : (sortedSet l).Nodup :=
  (List.perm_insertionSort _ _).nodup_iff.2 (List.nodup_dedup _)

theorem mem_layer_iff {paths : List (List Pubkey)} {i : ℕ} {x : Pubkey} :
    x ∈ layer paths i ↔ ∃ p ∈ paths, node p i = x := by
  rw [layer, mem_sortedSet, List.mem_map]

section
variable {current next : List Pubkey} {i : ℕ} {paths : List (List Pubkey)}

theorem getD_addTarget {targets : List (List ℕ)} {path : List Pubkey} {j : ℕ} (hj : j < targets.length) :
    (addTarget current next i targets path).getD j [] = if current.idxOf (node path (i + 1)) = j then
      (targets.getD j []).insert (next.idxOf (node path (i + 2))) else targets.getD j [] := by
  rw [addTarget, List.getD_eq_getElem?_getD, List.getElem?_modify, List.getD_eq_getElem?_getD,
    List.getElem?_eq_getElem hj]
  split_ifs
  · rfl
  · rfl

/-- After the loop a place leads to where the paths through it do. -/
theorem mem_foldl_addTarget : ∀ {targets : List (List ℕ)} {j k : ℕ}, j < targets.length →
    (k ∈ (paths.foldl (addTarget current next i) targets).getD j [] ↔ k ∈ targets.getD j [] ∨
      ∃ p ∈ paths, current.idxOf (node p (i + 1)) = j ∧ next.idxOf (node p (i + 2)) = k) := by
  induction paths with
  | nil => simp
  | cons path paths ih =>
    intro targets j k hj
    have hj' : j < (addTarget current next i targets path).length := by
      rwa [addTarget, List.length_modify]
    rw [List.foldl_cons, ih hj', getD_addTarget hj]
    simp only [List.mem_cons, or_and_right, exists_or, exists_eq_left]
    rw [← or_assoc]
    refine or_congr_left ?_
    split_ifs with hpath
    · rw [List.mem_insert_iff, or_comm, eq_comm (a := k)]
      simp only [hpath, true_and]
    · simp only [hpath, false_and, or_false]

theorem nodup_foldl_addTarget : ∀ {targets : List (List ℕ)} {j : ℕ}, j < targets.length →
    (targets.getD j []).Nodup → ((paths.foldl (addTarget current next i) targets).getD j []).Nodup := by
  induction paths with
  | nil => exact fun _ h => h
  | cons path paths ih =>
    intro targets j hj h
    refine ih (by rwa [addTarget, List.length_modify]) ?_
    rw [getD_addTarget hj]
    split_ifs
    · exact h.insert
    · exact h

end

/-- Two accounts come one after the other in a path. -/
def Follow (paths : List (List Pubkey)) (i : ℕ) (x y : Pubkey) : Prop :=
  ∃ p ∈ paths, node p (i + 1) = x ∧ node p (i + 2) = y

/-- **The links** from a layer to the next are those of the paths. -/
theorem leads_link {paths layers : List (List Pubkey)} {i : ℕ} (hcurrent : layers.getD i [] = layer paths (i + 1))
    (hnext : layers.getD (i + 1) [] = layer paths (i + 2)) :
    Layered.Leads (Follow paths) i (layer paths (i + 1)) (layer paths (i + 2)) (link paths layers i) := by
  intro x hx
  have hlt : (layer paths (i + 1)).idxOf x < ((layer paths (i + 1)).map fun _ => ([] : List ℕ)).length := by
    rw [List.length_map]
    exact List.idxOf_lt_length_iff.2 hx
  have hempty : ((layer paths (i + 1)).map fun _ => ([] : List ℕ)).getD ((layer paths (i + 1)).idxOf x) [] = [] := by
    rw [List.getD_eq_getElem _ _ hlt, List.getElem_map]
  have hlink : (link paths layers i).getD ((layer paths (i + 1)).idxOf x) [] = sortBy (· ≤ ·)
      ((paths.foldl (addTarget (layer paths (i + 1)) (layer paths (i + 2)) i)
        ((layer paths (i + 1)).map fun _ => [])).getD ((layer paths (i + 1)).idxOf x) []) := by
    rw [link, hcurrent, hnext]
    exact List.getD_map _ [] _
  rw [hlink]
  constructor
  · refine (List.perm_insertionSort _ _).nodup_iff.2 (nodup_foldl_addTarget hlt ?_)
    rw [hempty]
    exact List.nodup_nil
  · intro k
    rw [sortBy, List.mem_insertionSort, mem_foldl_addTarget hlt, hempty]
    simp only [List.not_mem_nil, false_or]
    constructor
    · rintro ⟨p, hp, hx', rfl⟩
      have hsame := (List.idxOf_inj (mem_layer_iff.2 ⟨p, hp, rfl⟩)).1 hx'
      exact ⟨_, mem_layer_iff.2 ⟨p, hp, rfl⟩, rfl, p, hp, hsame, rfl⟩
    · rintro ⟨y, -, rfl, p, hp, rfl, rfl⟩
      exact ⟨p, hp, rfl, rfl⟩

/-! ## Layer by layer -/

section
variable (paths : List (List Pubkey))

/-- The layers from the layer `i` on. -/
def layersFrom (i m : ℕ) : List (List Pubkey) := (List.range' (i + 1) m).map (layer paths)

theorem layersFrom_succ (i m : ℕ) : layersFrom paths i (m + 1) = layer paths (i + 1) :: layersFrom paths (i + 1) m := by
  rw [layersFrom, List.range'_succ, List.map_cons]
  rfl

variable {paths}

/-- The links of the network are those of the paths. -/
theorem tied_layersFrom {layers : List (List Pubkey)} :
    ∀ {m i : ℕ}, (∀ t ≤ m, layers.getD (i + t) [] = layer paths (i + t + 1)) →
      Layered.Tied (Follow paths) i (layersFrom paths i (m + 1)) ((List.range' i m).map (link paths layers)) := by
  intro m
  induction m with
  | zero =>
    intro i hlayers
    exact nodup_sortedSet _
  | succ m ih =>
    intro i hlayers
    rw [layersFrom_succ, layersFrom_succ, List.range'_succ, List.map_cons]
    refine ⟨nodup_sortedSet _, leads_link (hlayers 0 (Nat.zero_le _)) ?_, ?_⟩
    · exact hlayers 1 (Nat.succ_le_succ (Nat.zero_le _))
    · rw [← layersFrom_succ]
      refine ih fun t ht => ?_
      have h := hlayers (t + 1) (Nat.succ_le_succ ht)
      rwa [show i + (t + 1) = i + 1 + t by omega] at h

theorem drop_eq_cons {p : List Pubkey} {i : ℕ} (h : i < p.length) : p.drop i = node p i :: p.drop (i + 1) := by
  rw [List.drop_eq_getElem_cons h, node, List.getD_eq_getElem _ _ h]

/-- A path stands in the network. -/
theorem chain_of_mem {p : List Pubkey} (hp : p ∈ paths) : ∀ {m i : ℕ}, i + m + 1 < p.length →
    Layered.Chain (Follow paths) i (layersFrom paths i (m + 1)) ((p.drop (i + 1)).take (m + 1)) := by
  intro m
  induction m with
  | zero =>
    intro i hi
    rw [drop_eq_cons (show i + 1 < p.length by omega), List.take_succ_cons, List.take_zero]
    exact mem_layer_iff.2 ⟨p, hp, rfl⟩
  | succ m ih =>
    intro i hi
    have hrest := ih (i := i + 1) (by omega)
    rw [drop_eq_cons (show i + 1 + 1 < p.length by omega), List.take_succ_cons] at hrest
    rw [drop_eq_cons (show i + 1 < p.length by omega), List.take_succ_cons,
      drop_eq_cons (show i + 1 + 1 < p.length by omega), List.take_succ_cons, layersFrom_succ, layersFrom_succ]
    rw [layersFrom_succ] at hrest
    refine Layered.chain_cons_iff.2 ⟨_, mem_layer_iff.2 ⟨p, hp, rfl⟩, _, _, rfl, ⟨p, hp, rfl, rfl⟩, hrest⟩

/-- What stands in the network goes from hop to hop, and ends at the last one. -/
theorem follows_of_chain {follows : Pubkey → Pubkey → Prop} {n : ℕ}
    (hfollow : ∀ j < n, ∀ x y, Follow paths j x y → follows x y) :
    ∀ {m i : ℕ} {y : List Pubkey}, i + m ≤ n → Layered.Chain (Follow paths) i (layersFrom paths i (m + 1)) y →
      y.IsChain follows ∧ y.length = m + 1 ∧ ∃ x ∈ layer paths (i + m + 1), y.getLast? = some x := by
  intro m
  induction m with
  | zero =>
    intro i y _ h
    obtain ⟨x, hx, rfl⟩ := Layered.chain_singleton_iff.1 h
    exact ⟨.singleton x, rfl, x, hx, rfl⟩
  | succ m ih =>
    intro i y hi h
    rw [layersFrom_succ, layersFrom_succ] at h
    obtain ⟨x, -, z, rest, rfl, hE, hrest⟩ := Layered.chain_cons_iff.1 h
    rw [← layersFrom_succ] at hrest
    obtain ⟨hchain, hlength, last, hlast, hend⟩ := ih (by omega) hrest
    refine ⟨List.isChain_cons_cons.2 ⟨hfollow i (by omega) x z hE, hchain⟩, ?_, last, ?_, ?_⟩
    · rw [List.length_cons, hlength]
    · rwa [show i + (m + 1) + 1 = i + 1 + m + 1 by omega]
    · rwa [List.getLast?_cons_cons]

end

/-! ## Reading the network -/

section
variable {follows : Pubkey → Pubkey → Prop} {a b : Pubkey} {p : List Pubkey} {paths : List (List Pubkey)} {m : ℕ}

theorem IsPath.follows_node (h : IsPath follows a b p) {i : ℕ} (hi : i + 1 < p.length) :
    follows (node p i) (node p (i + 1)) := by
  rw [node, node, List.getD_eq_getElem _ _ hi, List.getD_eq_getElem _ _ (Nat.lt_of_succ_lt hi)]
  exact List.isChain_iff_getElem.1 h.chain i hi

theorem IsPath.node_zero (h : IsPath follows a b p) : node p 0 = a := by
  obtain ⟨rest, rfl⟩ := List.head?_eq_some_iff.1 h.head
  rfl

theorem IsPath.node_last (h : IsPath follows a b p) {d : ℕ} (hlength : p.length = d + 1) : node p d = b := by
  have hlast := h.last
  rw [List.getLast?_eq_getElem?, hlength, Nat.add_sub_cancel] at hlast
  rw [node, List.getD_eq_getElem?_getD, hlast]
  rfl

/-- A path of two hops or more, between its ends. -/
theorem IsPath.eq_inner (h : IsPath follows a b p) (hlength : p.length = m + 3) :
    p = a :: (p.drop 1).take (m + 1) ++ [b] := by
  obtain ⟨rest, rfl⟩ := List.head?_eq_some_iff.1 h.head
  have hrest : rest.length = m + 2 := by simpa using hlength
  have hlast : rest.drop (m + 1) = [b] := by
    rw [List.drop_eq_getElem_cons (by omega), List.drop_eq_nil_of_le (by omega)]
    have hb := h.node_last hlength
    rw [node, List.getD_eq_getElem _ _ (by simp; omega)] at hb
    exact congrArg (fun c => [c]) hb
  rw [List.drop_succ_cons, List.drop_zero, List.cons_append, ← hlast, List.take_append_drop]

/-- The paths of one length between two accounts. -/
def AllOf (follows : Pubkey → Pubkey → Prop) (a b : Pubkey) (d : ℕ) (paths : List (List Pubkey)) : Prop :=
  ∀ p, p ∈ paths ↔ IsPath follows a b p ∧ p.length = d + 1

theorem AllOf.follows_of_follow (h : AllOf follows a b (m + 2) paths) :
    ∀ j < m, ∀ x y, Follow paths j x y → follows x y := by
  rintro j hj x y ⟨p, hp, rfl, rfl⟩
  obtain ⟨hpath, hlength⟩ := (h p).1 hp
  exact hpath.follows_node (by omega)

/-- Whatever stands in the network is a path between its ends. -/
theorem AllOf.mem_of_chain (h : AllOf follows a b (m + 2) paths) {y : List Pubkey}
    (hy : Layered.Chain (Follow paths) 0 (layersFrom paths 0 (m + 1)) y) : a :: y ++ [b] ∈ paths := by
  obtain ⟨hchain, hlength, last, hlast, hend⟩ := follows_of_chain h.follows_of_follow (Nat.zero_add m).le hy
  obtain ⟨x, rest, rfl⟩ := hy.exists_head
  rw [layersFrom_succ] at hy
  obtain ⟨p, hp, hx⟩ := mem_layer_iff.1 hy.head_mem
  obtain ⟨q, hq, hlast⟩ := mem_layer_iff.1 hlast
  obtain ⟨hpath, hplength⟩ := (h p).1 hp
  obtain ⟨hqpath, hqlength⟩ := (h q).1 hq
  refine (h _).2 ⟨⟨?_, rfl, ?_⟩, ?_⟩
  · have hfirst : follows a x := by
      have hstep := hpath.follows_node (i := 0) (by omega)
      rwa [hpath.node_zero, hx] at hstep
    have hfinal : follows last b := by
      have hstep := hqpath.follows_node (i := m + 1) (by omega)
      rw [Nat.zero_add] at hlast
      rwa [hlast, hqpath.node_last hqlength] at hstep
    refine List.IsChain.append (List.isChain_cons_cons.2 ⟨hfirst, hchain⟩) (.singleton b) fun u hu v hv => ?_
    rw [List.getLast?_cons_cons, hend] at hu
    cases hu
    cases hv
    exact hfinal
  · rw [List.getLast?_append_of_ne_nil _ (List.cons_ne_nil b [])]
    rfl
  · rw [List.length_append, List.length_cons, hlength]
    rfl

theorem layers_pathNetwork (paths : List (List Pubkey)) (m : ℕ) :
    (pathNetwork paths (m + 2)).layers = layersFrom paths 0 (m + 1) := rfl

theorem tied_pathNetwork (paths : List (List Pubkey)) (m : ℕ) :
    Layered.Tied (Follow paths) 0 (layersFrom paths 0 (m + 1)) (pathNetwork paths (m + 2)).links := by
  have hlength : (layersFrom paths 0 (m + 1)).length - 1 = m := by
    rw [layersFrom, List.length_map, List.length_range', Nat.add_sub_cancel]
  have hlinks : (pathNetwork paths (m + 2)).links =
      (List.range' 0 m).map (link paths (layersFrom paths 0 (m + 1))) := by
    show (List.range ((layersFrom paths 0 (m + 1)).length - 1)).map _ = _
    rw [hlength, List.range_eq_range']
    rfl
  rw [hlinks]
  refine tied_layersFrom fun t ht => ?_
  rw [layersFrom, List.getD_eq_getElem _ _ (by simp; omega), List.getElem_map, List.getElem_range']
  congr 1
  omega

/-- **Two hops or more**: what the network spells out are the paths, each once. -/
theorem AllOf.spelled (h : AllOf follows a b (m + 2) paths) :
    ((pathNetwork paths (m + 2)).spelled.map fun inner => a :: inner ++ [b]).Nodup ∧
    ∀ p, p ∈ (pathNetwork paths (m + 2)).spelled.map (fun inner => a :: inner ++ [b]) ↔ p ∈ paths := by
  have hlayers := layers_pathNetwork paths m
  have htied := tied_pathNetwork paths m
  rw [layersFrom_succ] at hlayers htied
  constructor
  · refine (Layered.nodup_spelled hlayers htied).map fun inner inner' heq => ?_
    exact List.append_cancel_right (List.cons.inj heq).2
  · intro p
    rw [List.mem_map]
    constructor
    · rintro ⟨inner, hinner, rfl⟩
      have hchain := (Layered.mem_spelled_iff hlayers htied).1 hinner
      rw [← layersFrom_succ] at hchain
      exact h.mem_of_chain hchain
    · intro hp
      obtain ⟨hpath, hlength⟩ := (h p).1 hp
      have hchain := chain_of_mem hp (m := m) (i := 0) (by omega)
      rw [layersFrom_succ] at hchain
      exact ⟨_, (Layered.mem_spelled_iff hlayers htied).2 hchain, (hpath.eq_inner hlength).symm⟩

/-- **One hop**: there is one path, and the network is empty. -/
theorem AllOf.spelled_one (h : AllOf follows a b 1 paths) (hne : paths ≠ []) (p : List Pubkey) :
    p ∈ (pathNetwork paths 1).spelled.map (fun inner => a :: inner ++ [b]) ↔ p ∈ paths := by
  have hspelled : (pathNetwork paths 1).spelled.map (fun inner => a :: inner ++ [b]) = [[a, b]] := rfl
  have hpair : ∀ q ∈ paths, q = [a, b] := by
    intro q hq
    obtain ⟨hpath, hlength⟩ := (h q).1 hq
    obtain ⟨x, y, rfl⟩ := List.length_eq_two.1 hlength
    have hx := hpath.node_zero
    have hy := hpath.node_last hlength
    cases hx
    cases hy
    rfl
  rw [hspelled, List.mem_singleton]
  constructor
  · rintro rfl
    obtain ⟨q, hq⟩ := List.exists_mem_of_ne_nil paths hne
    exact hpair q hq ▸ hq
  · exact hpair p

theorem shortest_self_iff : Shortest follows a a p ↔ p = [a] := by
  have hself : IsPath follows a a [a] := ⟨.singleton a, rfl, rfl⟩
  constructor
  · intro h
    obtain ⟨rest, rfl⟩ := List.head?_eq_some_iff.1 h.1.head
    have hrest := h.2 [a] hself
    rw [List.length_cons, List.length_singleton] at hrest
    rw [List.length_eq_zero_iff.1 (Nat.le_zero.1 (Nat.le_of_succ_le_succ hrest))]
  · rintro rfl
    refine ⟨hself, fun q hq => ?_⟩
    obtain ⟨rest, rfl⟩ := List.head?_eq_some_iff.1 hq.head
    exact Nat.succ_le_succ (Nat.zero_le _)

/-- The shortest paths are the paths that are as long as one of them. -/
theorem allOf_of_shortest {maxHops : ℕ} {path : List Pubkey}
    (h : ∀ p, p ∈ paths ↔ Shortest follows a b p ∧ p.length ≤ maxHops + 1) (hpath : path ∈ paths) {d : ℕ}
    (hd : path.length = d + 1) : AllOf follows a b d paths := by
  obtain ⟨hshortest, hle⟩ := (h path).1 hpath
  intro p
  rw [h p]
  constructor
  · rintro ⟨hp, -⟩
    exact ⟨hp.1, (le_antisymm (hp.2 path hshortest.1) (hshortest.2 p hp.1)).trans hd⟩
  · rintro ⟨hp, hlength⟩
    rw [← hd] at hlength
    exact ⟨⟨hp, fun q hq => hlength.le.trans (hshortest.2 q hq)⟩, hlength.le.trans hle⟩

/-- Between two accounts there is a hop at least. -/
theorem IsPath.two_le (h : IsPath follows a b p) (hab : a ≠ b) : ∃ d, p.length = d + 1 + 1 := by
  obtain ⟨rest, rfl⟩ := List.head?_eq_some_iff.1 h.head
  cases rest with
  | nil =>
    have hlast := h.last
    cases hlast
    exact absurd rfl hab
  | cons x rest => exact ⟨rest.length, rfl⟩

/-- The paths of one length are spelled out, each once, if there are any. -/
theorem AllOf.spelled_all {d : ℕ} (h : AllOf follows a b (d + 1) paths) (hne : paths ≠ []) :
    ((pathNetwork paths (d + 1)).spelled.map fun inner => a :: inner ++ [b]).Nodup ∧
    ∀ p, p ∈ (pathNetwork paths (d + 1)).spelled.map (fun inner => a :: inner ++ [b]) ↔ p ∈ paths := by
  cases d with
  | zero => exact ⟨List.nodup_singleton _, h.spelled_one hne⟩
  | succ m => exact h.spelled

/-- **The answer is exact.**  For any two accounts, unless the query takes too long, reading the
    network from one end to the other gives back the shortest paths of so many hops at most, each
    once, and nothing else; `pathCount` is how many they are and `hops` how long. -/
theorem network_exact {query : Pubkey → Pubkey → ℕ → Option (List (List Pubkey))} (hquery : FindsAll follows query)
    {maxHops : ℕ} {r : ShortestPathData} (h : getShortestFollowPath query a b maxHops = .ok r) :
    r.paths.Nodup ∧ (∀ p, p ∈ r.paths ↔ Shortest follows a b p ∧ p.length ≤ maxHops + 1) ∧
    r.pathCount = some r.paths.length ∧ (r.reachable = true ↔ r.paths ≠ []) ∧
    ∀ d, r.hops = some d → ∀ p ∈ r.paths, p.length = d + 1 := by
  unfold getShortestFollowPath at h
  split_ifs at h with hab
  · subst hab
    cases h
    refine ⟨List.nodup_singleton _, fun p => ?_, rfl, iff_of_true rfl (List.cons_ne_nil _ _), ?_⟩
    · rw [shortest_self_iff]
      show p ∈ [[a]] ↔ _
      rw [List.mem_singleton]
      refine ⟨fun hp => ⟨hp, ?_⟩, And.left⟩
      rw [hp]
      exact Nat.succ_le_succ (Nat.zero_le _)
    · rintro d hd p hp
      cases hd
      rw [List.mem_singleton.1 hp]
      rfl
  · cases hfound : query a b maxHops with
    | none =>
      rw [hfound] at h
      cases h
    | some paths =>
      obtain ⟨hnodup, hmem⟩ := hquery a b maxHops paths hab hfound
      rw [hfound] at h
      cases paths with
      | nil =>
        cases h
        refine ⟨List.nodup_nil, hmem, rfl, iff_of_false Bool.false_ne_true (not_not_intro rfl), fun d hd => ?_⟩
        cases hd
      | cons path paths =>
        obtain ⟨hshortest, -⟩ := (hmem path).1 List.mem_cons_self
        obtain ⟨d, hd⟩ := hshortest.1.two_le hab
        have hall := allOf_of_shortest hmem List.mem_cons_self hd
        obtain ⟨hn, hspelled⟩ := hall.spelled_all (List.cons_ne_nil _ _)
        dsimp only at h
        rw [hd, Nat.add_sub_cancel] at h
        cases h
        refine ⟨hn, fun p => (hspelled p).trans (hmem p), ?_, iff_of_true rfl ?_, fun d' hd' p hp => ?_⟩
        · exact congrArg some ((List.perm_ext_iff_of_nodup hnodup hn).2 fun p => (hspelled p).symm).length_eq
        · exact List.ne_nil_of_mem ((hspelled path).2 List.mem_cons_self)
        · cases hd'
          exact ((hall p).1 ((hspelled p).1 hp)).2

/-- Alice follows Bob and Carol, and both follow Dave. -/
def diamond (x y : Pubkey) : Prop :=
  (x, y) ∈ [("alice", "bob"), ("alice", "carol"), ("bob", "dave"), ("carol", "dave")]

/-- It answers one question in time. -/
def diamondQuery (x y : Pubkey) (maxHops : ℕ) : Option (List (List Pubkey)) :=
  if x = "alice" ∧ y = "dave" ∧ maxHops = 30 then some [["alice", "carol", "dave"], ["alice", "bob", "dave"]] else none

theorem diamond_cases {x y : Pubkey} (h : diamond x y) :
    (x = "alice" ∧ (y = "bob" ∨ y = "carol")) ∨ ((x = "bob" ∨ x = "carol") ∧ y = "dave") := by
  simp only [diamond, List.mem_cons, Prod.mk.injEq, List.not_mem_nil, or_false] at h
  rcases h with ⟨rfl, rfl⟩ | ⟨rfl, rfl⟩ | ⟨rfl, rfl⟩ | ⟨rfl, rfl⟩
  · simp
  · simp
  · simp
  · simp

theorem isPath_diamond : IsPath diamond "alice" "dave" p ↔ p ∈ [["alice", "carol", "dave"], ["alice", "bob", "dave"]] := by
  constructor
  · rintro ⟨hchain, hhead, hlast⟩
    rcases p with _ | ⟨x, _ | ⟨y, _ | ⟨z, rest⟩⟩⟩
    · cases hhead
    · cases hhead
      simp at hlast
    · cases hhead
      have hfirst := diamond_cases (List.isChain_cons_cons.1 hchain).1
      simp at hlast hfirst
      simp [hlast] at hfirst
    · cases hhead
      obtain ⟨hfirst, hrest⟩ := List.isChain_cons_cons.1 hchain
      obtain ⟨hsecond, hrest⟩ := List.isChain_cons_cons.1 hrest
      have hy : y = "bob" ∨ y = "carol" := by simpa using diamond_cases hfirst
      have hz : z = "dave" := by
        rcases diamond_cases hsecond with ⟨hy', -⟩ | ⟨-, hz⟩
        · subst hy'
          simp at hy
        · exact hz
      -- whoever is reached in two hops follows nobody
      cases rest with
      | nil => rcases hy with rfl | rfl <;> simp [hz]
      | cons u rest =>
        have hthird := diamond_cases (List.isChain_cons_cons.1 hrest).1
        simp [hz] at hthird
  · intro h
    simp only [List.mem_cons, List.not_mem_nil, or_false] at h
    rcases h with rfl | rfl
    · exact ⟨by simp [diamond], rfl, rfl⟩
    · exact ⟨by simp [diamond], rfl, rfl⟩

theorem diamond_findsAll : FindsAll diamond diamondQuery := by
  intro a b maxHops paths _ hfound
  unfold diamondQuery at hfound
  split_ifs at hfound with h
  obtain ⟨rfl, rfl, rfl⟩ := h
  cases hfound
  refine ⟨by decide, fun p => ?_⟩
  have hlength : ∀ q ∈ [["alice", "carol", "dave"], ["alice", "bob", "dave"]], q.length = 3 := by decide
  rw [← isPath_diamond]
  constructor
  · intro hp
    have h3 := hlength p (isPath_diamond.1 hp)
    refine ⟨⟨hp, fun q hq => ?_⟩, ?_⟩
    · rw [h3, hlength q (isPath_diamond.1 hq)]
    · rw [h3]
      decide
  · exact fun h => h.1.1

/-- Its two paths are two walks through one layer. -/
theorem diamond_exact : ∃ r, getShortestFollowPath diamondQuery "alice" "dave" 30 = .ok r ∧
    r.layers = [["bob", "carol"]] ∧ r.pathCount = some r.paths.length := by
  have hanswer : ∃ r, getShortestFollowPath diamondQuery "alice" "dave" 30 = .ok r ∧ r.layers = [["bob", "carol"]] :=
    ⟨_, rfl, by decide⟩
  obtain ⟨r, hr, hlayers⟩ := hanswer
  exact ⟨r, hr, hlayers, (network_exact diamond_findsAll hr).2.2.1⟩

end

end Paths

end BrainstormServer
