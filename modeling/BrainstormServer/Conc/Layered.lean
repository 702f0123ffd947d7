/-
  Networks in layers.

  A network lists the places of each layer, and for each place of a layer the places of the next
  one that it leads to, by their numbers.  A walk goes through all layers from the first to the
  last.

  * `follow`, `walks`: the walks, by number; `spell` names their places;
  * `Tied`: the links of a network are those of a relation;
  * `mem_spelled_iff`, `nodup_spelled`: the walks spell out the chains of the relation, each once.
-/
import Mathlib.Data.List.GetD
import Mathlib.Data.List.Nodup
import Mathlib.Data.List.Perm.Basic

namespace Conc

/-- The places of each layer, and for each layer but the last where its places lead. -/
structure Layered (α : Type) where
  layers : List (List α)
  links : List (List (List ℕ))

namespace Layered

/-- The walks from the place `j` of the first layer. -/
def follow : List (List (List ℕ)) → ℕ → List (List ℕ)
  | [], j => [[j]]
  | link :: links, j => (link.getD j []).flatMap fun k => (follow links k).map (j :: ·)

variable {α : Type}

/-- All walks; through no layer there is one. -/
def walks (n : Layered α) : List (List ℕ) :=
  match n.layers with
  | [] => [[]]
  | layer :: _ => (List.range layer.length).flatMap (follow n.links)

variable [Inhabited α]

/-- The places of a walk. -/
def spell (layers : List (List α)) (walk : List ℕ) : List α :=
  List.zipWith (fun layer j => layer.getD j default) layers walk

/-- All walks, place by place. -/
def spelled (n : Layered α) : List (List α) := n.walks.map (spell n.layers)

section
variable [DecidableEq α] (E : ℕ → α → α → Prop)

/-- The links of a layer lead from each place to those of the next layer that `E` relates to it. -/
def Leads (i : ℕ) (layer next : List α) (link : List (List ℕ)) : Prop :=
  ∀ x ∈ layer, (link.getD (layer.idxOf x) []).Nodup ∧
    ∀ k, k ∈ link.getD (layer.idxOf x) [] ↔ ∃ y ∈ next, next.idxOf y = k ∧ E i x y

/-- From the layer `i` on, the links are those of `E`. -/
def Tied : ℕ → List (List α) → List (List (List ℕ)) → Prop
  | _, [layer], [] => layer.Nodup
  | i, layer :: next :: layers, link :: links =>
    layer.Nodup ∧ Leads E i layer next link ∧ Tied (i + 1) (next :: layers) links
  | _, _, _ => False

omit [Inhabited α] [DecidableEq α] in
/-- Places, one of each layer from the layer `i` on, that are related one by one. -/
def Chain : ℕ → List (List α) → List α → Prop
  | _, [layer], [x] => x ∈ layer
  | i, layer :: next :: layers, x :: y :: rest => x ∈ layer ∧ E i x y ∧ Chain (i + 1) (next :: layers) (y :: rest)
  | _, _, _ => False

variable {E}

omit [Inhabited α] in
theorem Tied.nodup {i : ℕ} {layer : List α} {layers : List (List α)} {links : List (List (List ℕ))}
    (h : Tied E i (layer :: layers) links) : layer.Nodup := by
  cases layers with
  | nil =>
    cases links with
    | nil => exact h
    | cons link links => exact h.elim
  | cons next layers =>
    cases links with
    | nil => exact h.elim
    | cons link links => exact h.1

omit [Inhabited α] [DecidableEq α] in
theorem Chain.head_mem {i : ℕ} {layer : List α} {layers : List (List α)} {x : α} {rest : List α}
    (h : Chain E i (layer :: layers) (x :: rest)) : x ∈ layer := by
  cases layers with
  | nil =>
    cases rest with
    | nil => exact h
    | cons y rest => exact h.elim
  | cons next layers =>
    cases rest with
    | nil => exact h.elim
    | cons y rest => exact h.1

omit [Inhabited α] [DecidableEq α] in
theorem chain_singleton_iff {i : ℕ} {layer y : List α} : Chain E i [layer] y ↔ ∃ x ∈ layer, y = [x] := by
  rcases y with _ | ⟨x, _ | ⟨z, rest⟩⟩
  · simp [Chain]
  · simp [Chain]
  · simp [Chain]

omit [Inhabited α] [DecidableEq α] in
theorem chain_cons_iff {i : ℕ} {layer next y : List α} {layers : List (List α)} :
    Chain E i (layer :: next :: layers) y ↔
      ∃ x ∈ layer, ∃ z rest, y = x :: z :: rest ∧ E i x z ∧ Chain E (i + 1) (next :: layers) (z :: rest) := by
  rcases y with _ | ⟨x, _ | ⟨z, rest⟩⟩
  · simp [Chain]
  · simp [Chain]
  · simp [Chain]

omit [Inhabited α] [DecidableEq α] in
theorem Chain.exists_head {i : ℕ} {layers : List (List α)} {y : List α} (h : Chain E i layers y) :
    ∃ x rest, y = x :: rest := by
  rcases layers with _ | ⟨layer, _ | ⟨next, layers⟩⟩
  · exact h.elim
  · obtain ⟨x, -, rfl⟩ := chain_singleton_iff.1 h
    exact ⟨x, [], rfl⟩
  · obtain ⟨x, -, z, rest, rfl, -⟩ := chain_cons_iff.1 h
    exact ⟨x, z :: rest, rfl⟩

/-- The name of a place that has a number. -/
theorem getD_idxOf {layer : List α} {x : α} (hx : x ∈ layer) : layer.getD (layer.idxOf x) default = x := by
  rw [List.getD_eq_getElem _ _ (List.idxOf_lt_length_iff.2 hx), List.getElem_idxOf]

theorem spell_cons {layer : List α} {layers : List (List α)} {x : α} (hx : x ∈ layer) (walk : List ℕ) :
    spell (layer :: layers) (layer.idxOf x :: walk) = x :: spell layers walk := by
  rw [spell, List.zipWith_cons_cons, getD_idxOf hx]
  rfl

/-- The walks from a place spell out the chains from it. -/
theorem mem_follow_iff {links : List (List (List ℕ))} : ∀ {i : ℕ} {layer : List α} {layers : List (List α)} {x : α},
    Tied E i (layer :: layers) links → x ∈ layer → ∀ {y : List α},
      (y ∈ (follow links (layer.idxOf x)).map (spell (layer :: layers)) ↔
        Chain E i (layer :: layers) y ∧ y.head? = some x) := by
  induction links with
  | nil =>
    intro i layer layers x h hx y
    cases layers with
    | cons next layers => exact h.elim
    | nil =>
      rw [follow, List.map_singleton, List.mem_singleton, spell_cons hx, chain_singleton_iff]
      constructor
      · rintro rfl
        exact ⟨⟨x, hx, rfl⟩, rfl⟩
      · rintro ⟨⟨x', -, rfl⟩, hhead⟩
        cases hhead
        rfl
  | cons link links ih =>
    intro i layer layers x h hx y
    cases layers with
    | nil => exact h.elim
    | cons next layers =>
      obtain ⟨-, hleads, htied⟩ := h
      have hrow := (hleads x hx).2
      rw [follow, List.map_flatMap, List.mem_flatMap]
      constructor
      · rintro ⟨k, hk, hy⟩
        obtain ⟨z, hz, rfl, hE⟩ := (hrow k).1 hk
        rw [List.map_map] at hy
        obtain ⟨walk, hwalk, rfl⟩ := List.mem_map.1 hy
        rw [Function.comp_apply, spell_cons hx]
        obtain ⟨hchain, hhead⟩ := (ih htied hz).1 (List.mem_map_of_mem hwalk)
        obtain ⟨rest, hrest⟩ := List.head?_eq_some_iff.1 hhead
        rw [hrest] at hchain ⊢
        exact ⟨chain_cons_iff.2 ⟨x, hx, z, rest, rfl, hE, hchain⟩, rfl⟩
      · rintro ⟨hchain, hhead⟩
        obtain ⟨x', hx', z, rest, rfl, hE, hrest⟩ := chain_cons_iff.1 hchain
        cases hhead
        have hz := hrest.head_mem
        refine ⟨next.idxOf z, (hrow _).2 ⟨z, hz, rfl, hE⟩, ?_⟩
        obtain ⟨walk, hwalk, hspell⟩ := List.mem_map.1 ((ih htied hz).2 ⟨hrest, rfl⟩)
        rw [List.map_map, List.mem_map]
        exact ⟨walk, hwalk, by rw [Function.comp_apply, spell_cons hx, hspell]⟩

/-- They spell out each of them once. -/
theorem nodup_follow {links : List (List (List ℕ))} : ∀ {i : ℕ} {layer : List α} {layers : List (List α)} {x : α},
    Tied E i (layer :: layers) links → x ∈ layer →
      ((follow links (layer.idxOf x)).map (spell (layer :: layers))).Nodup := by
  induction links with
  | nil =>
    intro i layer layers x h hx
    exact List.nodup_singleton _
  | cons link links ih =>
    intro i layer layers x h hx
    cases layers with
    | nil => exact h.elim
    | cons next layers =>
      obtain ⟨-, hleads, htied⟩ := h
      obtain ⟨hnodup, hrow⟩ := hleads x hx
      have hspell : ∀ k, ((follow links k).map (layer.idxOf x :: ·)).map (spell (layer :: next :: layers)) =
          ((follow links k).map (spell (next :: layers))).map (x :: ·) := by
        intro k
        rw [List.map_map, List.map_map]
        exact List.map_congr_left fun walk _ => spell_cons hx walk
      rw [follow, List.map_flatMap, List.nodup_flatMap]
      constructor
      · intro k hk
        obtain ⟨z, hz, rfl, -⟩ := (hrow k).1 hk
        rw [hspell]
        exact (ih htied hz).map fun _ _ h => (List.cons.inj h).2
      · -- what comes next tells the walks apart
        refine hnodup.pairwise_of_forall_ne fun k hk k' hk' hne => ?_
        obtain ⟨z, hz, rfl, -⟩ := (hrow k).1 hk
        obtain ⟨z', hz', rfl, -⟩ := (hrow k').1 hk'
        delta Function.onFun
        beta_reduce
        rw [hspell, hspell]
        intro y hy hy'
        obtain ⟨rest, hrest, rfl⟩ := List.mem_map.1 hy
        obtain ⟨rest', hrest', heq⟩ := List.mem_map.1 hy'
        obtain rfl := (List.cons.inj heq).2
        have hhead := ((mem_follow_iff htied hz).1 hrest).2
        rw [((mem_follow_iff htied hz').1 hrest').2] at hhead
        cases hhead
        exact hne rfl

omit [Inhabited α] in
/-- The places of a layer, by number. -/
theorem map_idxOf {layer : List α} (h : layer.Nodup) : layer.map layer.idxOf = List.range layer.length := by
  refine List.ext_getElem (by simp) fun j hj hj' => ?_
  rw [List.getElem_map, List.getElem_range]
  exact h.idxOf_getElem j _

/-- All walks, by the place that they start from. -/
theorem spelled_eq {n : Layered α} {layer : List α} {layers : List (List α)} (hn : n.layers = layer :: layers)
    (h : layer.Nodup) :
    n.spelled = layer.flatMap fun x => (follow n.links (layer.idxOf x)).map (spell (layer :: layers)) := by
  rw [spelled, walks, hn]
  dsimp only
  rw [← map_idxOf h, List.map_flatMap, List.flatMap_map]

/-- **The walks of a network** spell out the chains of its relation. -/
theorem mem_spelled_iff {n : Layered α} {layer : List α} {layers : List (List α)} (hn : n.layers = layer :: layers)
    (h : Tied E 0 (layer :: layers) n.links) {y : List α} : y ∈ n.spelled ↔ Chain E 0 (layer :: layers) y := by
  rw [spelled_eq hn h.nodup, List.mem_flatMap]
  constructor
  · rintro ⟨x, hx, hy⟩
    exact ((mem_follow_iff h hx).1 hy).1
  · intro hchain
    obtain ⟨x, rest, rfl⟩ := hchain.exists_head
    exact ⟨x, hchain.head_mem, (mem_follow_iff h hchain.head_mem).2 ⟨hchain, rfl⟩⟩

/-- Each chain is spelled out once. -/
theorem nodup_spelled {n : Layered α} {layer : List α} {layers : List (List α)} (hn : n.layers = layer :: layers)
    (h : Tied E 0 (layer :: layers) n.links) : n.spelled.Nodup := by
  rw [spelled_eq hn h.nodup, List.nodup_flatMap]
  refine ⟨fun x hx => nodup_follow h hx, h.nodup.pairwise_of_forall_ne fun x hx x' hx' hne => ?_⟩
  intro y hy hy'
  have hhead := ((mem_follow_iff h hx).1 hy).2
  rw [((mem_follow_iff h hx').1 hy').2] at hhead
  cases hhead
  exact hne rfl

end

end Layered

end Conc
