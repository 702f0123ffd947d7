/-
  Follow and mute lists (kinds 3 and 10000).

  The handler takes the author out of the sets of exactly those accounts to which the
  graph had an edge that it deleted.  So an account the author is counted for without
  an edge (`Stale`) stays so until a list names it:

  * `Replaced`: what a handler that ends leaves behind;
  * `reverse_sets_heal_iff`: the sets agree with the graph afterwards exactly if the
    list names every stale account, and there is none if no handler before it stopped
    after a deletion;
  * `unfollow_is_lost`: otherwise the author stays in the set.
-/
import BrainstormServer.Graph.Handlers

namespace BrainstormServer

namespace Graph

open Conc Prog Nostr

/-- The relation that a kind of list is about. -/
def listRel : ℕ → Option Rel
  | 3 => some .follows
  | 10000 => some .mutes
  | _ => none

/-- A handler that is granted some commands: what is left of it, and the store. -/
def processed (ωs : List Outside) (event : Event) (st : Store) : Act Unit × Store :=
  (processStrfryEvent event).upTo exec () ωs st

/-- The store after a sequence of events, each with the commands granted to it. -/
def replay : List (Event × List Outside) → Store → Store
  | [], st => st
  | (event, ωs) :: rest, st => replay rest (processed ωs event st).2

/-- The author is counted for `t` without an edge. -/
def Store.Stale (st : Store) (r : Rel) (author t : Pubkey) : Prop :=
  (t, author) ∈ st.sets r ∧ (author, t) ∉ st.edges r

/-- A handler that ends, or stops before it deletes, or has nothing to delete. -/
def Spares (r : Rel) (event : Event) (ωs : List Outside) (st : Store) : Prop :=
  (processed ωs event st).1.done = true ∨
    ωs.length ≤ (if pTagPubkeys event.tags = [] then 0 else 1) ∨
    ∀ t, (event.pubkey, t) ∈ st.edges r → t ∈ pTagPubkeys event.tags

/-- No handler of a list of this kind stops after a deletion. -/
def AllSpare (r : Rel) : List (Event × List Outside) → Store → Prop
  | [], _ => True
  | (event, ωs) :: rest, st =>
    (listRel event.kind = some r → Spares r event ωs st) ∧
      AllSpare r rest (processed ωs event st).2

/-! ## A handler that ends -/

section
variable {r r' : Rel} {event : Event} {st st' : Store} {author : Pubkey}

theorem processStrfryEvent_list (h : listRel event.kind = some r) :
    processStrfryEvent event = processList r event := by
  unfold listRel at h
  split at h
  · rename_i hk
    cases h
    simp [processStrfryEvent, hk, processEventKind3]
  · rename_i hk
    cases h
    simp [processStrfryEvent, hk, processEventKind10000]
  · cases h

/-- The list of the author has been replaced by `named`. -/
structure Replaced (r : Rel) (author : Pubkey) (named : List Pubkey) (st st' : Store) : Prop where
  edges : ∀ x t, (x, t) ∈ st'.edges r ↔ if x = author then t ∈ named else (x, t) ∈ st.edges r
  sets : ∀ x t, (t, x) ∈ st'.sets r ↔
    if x = author then t ∈ named ∨ st.Stale r author t else (t, x) ∈ st.sets r

/-- The end of a handler, from the deletion on; `st` is the store before the list was
    merged into it. -/
theorem safe_replace {named : List Pubkey}
    (hedges : ∀ x t, (x, t) ∈ st'.edges r ↔ (x, t) ∈ st.edges r ∨ (x = author ∧ t ∈ named))
    (hsets : st'.sets r = st.sets r) :
    ((await (.deleteOthers r author named)).bind fun removed =>
      updateReverseSets r author named removed).Safe exec () (fun _ => True)
        (fun _ st'' => Replaced r author named st st'') st' := by
  refine ⟨trivial, ?_⟩
  intro ω out hout
  cases hout
  refine safe_updateReverseSets (fun _ _ _ => trivial) ⟨fun x t => ?_, fun x t => ?_⟩
  · rw [setSets_edges, setEdges_edges, List.mem_filter, decide_eq_true_iff, hedges]
    split_ifs with hx
    · subst hx
      tauto
    · tauto
  · rw [setSets_sets, setEdges_sets, mem_updated, hsets, List.mem_filter, decide_eq_true_iff,
      mem_targets, hedges]
    unfold Store.Stale
    split_ifs with hx
    · subst hx
      tauto
    · tauto

theorem safe_processList :
    (processList r event).Safe exec () (fun _ => True)
      (fun _ st' => Replaced r event.pubkey (pTagPubkeys event.tags) st st') st := by
  unfold processList
  dsimp only
  split_ifs with hnil
  · rw [hnil]
    exact safe_replace (fun x t => by simp) rfl
  · refine ⟨trivial, ?_⟩
    intro ω out hout
    cases hout
    refine safe_replace (fun x t => ?_) rfl
    rw [setEdges_edges, mem_merge]

theorem replaced_of_done {ωs : List Outside} (hkind : listRel event.kind = some r)
    (hdone : (processed ωs event st).1.done = true) :
    Replaced r event.pubkey (pTagPubkeys event.tags) st (processed ωs event st).2 := by
  have hstop : Stopped _ _ (processed ωs event st).1 (processed ωs event st).2 :=
    Safe.upTo ωs (processStrfryEvent_list hkind ▸ safe_processList)
  cases hp : (processed ωs event st).1 with
  | ret a =>
    rw [hp] at hstop
    exact hstop
  | raise e => cases e
  | op c k =>
    rw [hp] at hdone
    cases hdone

/-- **What a handler heals.**  Whoever is counted without an edge and not named stays
    counted. -/
theorem Replaced.agree_iff {named : List Pubkey} (h : Replaced r author named st st') :
    (∀ t, (t, author) ∈ st'.sets r ↔ (author, t) ∈ st'.edges r) ↔
      ∀ t, st.Stale r author t → t ∈ named := by
  constructor
  · intro hagree t hstale
    have ht := (hagree t).1 ((h.sets author t).2 (by rw [if_pos rfl]; exact Or.inr hstale))
    rwa [h.edges, if_pos rfl] at ht
  · intro hnamed t
    rw [h.sets, h.edges, if_pos rfl, if_pos rfl]
    constructor
    · rintro (ht | ht)
      · exact ht
      · exact hnamed t ht
    · exact Or.inl

/-! ## A handler that stops -/

/-- Nobody counts the author without an edge. -/
def Fresh (r : Rel) (author : Pubkey) (st : Store) : Prop := ∀ t, ¬ st.Stale r author t

theorem Replaced.fresh {named : List Pubkey} (h : Replaced r author named st st')
    (hfresh : Fresh r author st) : Fresh r author st' := by
  rintro t ⟨hset, hedge⟩
  refine hedge ?_
  exact (h.agree_iff.2 fun t hstale => absurd hstale (hfresh t)) t |>.1 hset

theorem fresh_merge (hfresh : Fresh r author st) (targets : List Pubkey) :
    Fresh r author (st.setEdges r (st.edges r ++
      (targets.filter (· ∉ st.targets r author)).map (author, ·))) := by
  rintro t ⟨hset, hedge⟩
  refine hfresh t ⟨hset, fun he => hedge ?_⟩
  rw [setEdges_edges, mem_merge]
  exact Or.inl he

/-- A handler that has nothing to delete. -/
theorem keeps_replace {named : List Pubkey} (hfresh : Fresh r author st)
    (hall : ∀ t, (author, t) ∈ st.edges r ↔ t ∈ named) :
    ((await (.deleteOthers r author named)).bind fun removed =>
      updateReverseSets r author named removed).Safe exec () (Fresh r author)
        (fun _ => Fresh r author) st := by
  refine ⟨hfresh, ?_⟩
  intro ω out hout
  cases hout
  have hnone : (st.targets r author).filter (· ∉ named) = [] := by
    rw [List.filter_eq_nil_iff]
    intro t ht
    rw [decide_eq_true_iff, not_not]
    exact (hall t).1 (mem_targets.1 ht)
  have hkeep : ∀ cs₁ cs₂, named.map (SetCmd.sadd · author) = cs₁ ++ cs₂ →
      Fresh r author ((st.setEdges r ((st.edges r).filter fun e => e.1 ≠ author ∨ e.2 ∈ named)).setSets
        r (runAll cs₁ (st.sets r))) := by
    intro cs₁ cs₂ hcs t hstale
    obtain ⟨hset, hedge⟩ := hstale
    obtain ⟨added, rest, rfl, rfl, -⟩ := List.map_eq_append_iff.1 hcs
    rw [setSets_sets, mem_runAll_sadd] at hset
    have hedge' : (author, t) ∈ st.edges r := by
      rcases hset with ⟨-, ht⟩ | ht
      · exact (hall t).2 (List.mem_append_left _ ht)
      · by_contra he
        exact hfresh t ⟨ht, he⟩
    refine hedge ?_
    rw [setSets_edges, setEdges_edges, List.mem_filter, decide_eq_true_iff]
    exact ⟨hedge', Or.inr ((hall t).1 hedge')⟩
  rw [hnone]
  refine safe_updateReverseSets (fun cs₁ cs₂ hcs => ?_) ?_
  · rw [List.map_nil, List.append_nil] at hcs
    exact hkeep cs₁ cs₂ hcs
  · have hend := hkeep (named.map (SetCmd.sadd · author)) [] (List.append_nil _).symm
    rw [updated, List.map_nil, List.append_nil]
    exact hend

theorem keeps_processList (hfresh : Fresh r event.pubkey st)
    (hall : ∀ t, (event.pubkey, t) ∈ st.edges r → t ∈ pTagPubkeys event.tags) :
    (processList r event).Safe exec () (Fresh r event.pubkey) (fun _ => Fresh r event.pubkey) st := by
  unfold processList
  dsimp only
  split_ifs with hnil
  · rw [hnil] at hall
    refine keeps_replace hfresh fun t => ⟨hall t, ?_⟩
    intro ht
    cases ht
  · refine ⟨hfresh, ?_⟩
    intro ω out hout
    cases hout
    refine keeps_replace (fresh_merge hfresh _) fun t => ?_
    rw [setEdges_edges, mem_merge]
    constructor
    · rintro (he | ⟨-, ht⟩)
      · exact hall t he
      · exact ht
    · exact fun ht => Or.inr ⟨rfl, ht⟩

/-- The handler of one kind of list leaves the other kind alone. -/
theorem safe_processList_ne (hr : r' ≠ r) :
    (processList r event).Safe exec () (fun st' => st'.edges r' = st.edges r' ∧ st'.sets r' = st.sets r')
      (fun _ st' => st'.edges r' = st.edges r' ∧ st'.sets r' = st.sets r') st := by
  have hreplace : ∀ {st' : Store} {named : List Pubkey},
      st'.edges r' = st.edges r' ∧ st'.sets r' = st.sets r' →
      ((await (.deleteOthers r event.pubkey named)).bind fun removed =>
        updateReverseSets r event.pubkey named removed).Safe exec ()
          (fun st' => st'.edges r' = st.edges r' ∧ st'.sets r' = st.sets r')
          (fun _ st' => st'.edges r' = st.edges r' ∧ st'.sets r' = st.sets r') st' := by
    intro st' named h
    refine ⟨h, ?_⟩
    intro ω out hout
    cases hout
    have hsame : ∀ sets, ((st'.setEdges r ((st'.edges r).filter
        fun e => e.1 ≠ event.pubkey ∨ e.2 ∈ named)).setSets r sets).edges r' = st.edges r' ∧
        ((st'.setEdges r ((st'.edges r).filter
          fun e => e.1 ≠ event.pubkey ∨ e.2 ∈ named)).setSets r sets).sets r' = st.sets r' := by
      intro sets
      rw [setSets_edges, setEdges_edges_ne hr, setSets_sets_ne hr, setEdges_sets]
      exact h
    exact safe_updateReverseSets (fun _ _ _ => hsame _) (hsame _)
  unfold processList
  dsimp only
  split_ifs with hnil
  · exact hreplace ⟨rfl, rfl⟩
  · refine ⟨⟨rfl, rfl⟩, ?_⟩
    intro ω out hout
    cases hout
    refine hreplace ?_
    rw [setEdges_edges_ne hr, setEdges_sets]
    exact ⟨rfl, rfl⟩

/-- One handler, stopped anywhere, keeps the author out of sets without an edge. -/
theorem fresh_processed {ωs : List Outside} (hlist : event.kind = 3 ∨ event.kind = 10000)
    (hspares : listRel event.kind = some r → Spares r event ωs st)
    (hfresh : Fresh r event.pubkey st) : Fresh r event.pubkey (processed ωs event st).2 := by
  obtain ⟨q, hq⟩ : ∃ q, listRel event.kind = some q := by
    rcases hlist with hk | hk
    · exact ⟨.follows, by rw [hk]; rfl⟩
    · exact ⟨.mutes, by rw [hk]; rfl⟩
  by_cases hr : q = r
  · subst hr
    rcases hspares hq with hdone | hshort | hall
    · exact (replaced_of_done hq hdone).fresh hfresh
    · -- at most the merge has been executed
      unfold processed
      rw [processStrfryEvent_list hq]
      unfold processList
      dsimp only
      split_ifs at hshort ⊢ with hnil
      · obtain rfl := List.length_eq_zero_iff.1 (Nat.le_zero.1 hshort)
        exact hfresh
      · cases ωs with
        | nil => exact hfresh
        | cons ω ωs =>
          obtain rfl : ωs = [] := List.length_eq_zero_iff.1 (by simpa using hshort)
          exact fresh_merge hfresh _
    · have hstop := Safe.upTo ωs (keeps_processList hfresh hall)
      rw [← processStrfryEvent_list hq] at hstop
      exact hstop.elim id fun _ h => h
  · have hstop := Safe.upTo ωs (@safe_processList_ne q r event st (Ne.symm hr))
    rw [← processStrfryEvent_list hq] at hstop
    obtain ⟨hedges, hsets⟩ := hstop.elim
      (J := fun st' => st'.edges r = st.edges r ∧ st'.sets r = st.sets r) id fun _ h => h
    rintro t ⟨hset, hedge⟩
    refine hfresh t ⟨?_, ?_⟩
    · rwa [← hsets]
    · rwa [← hedges]

theorem fresh_replay : ∀ {history : List (Event × List Outside)} {st : Store},
    (∀ x ∈ history, x.1.pubkey = author ∧ (x.1.kind = 3 ∨ x.1.kind = 10000)) →
    AllSpare r history st → Fresh r author st → Fresh r author (replay history st) := by
  intro history
  induction history with
  | nil => exact fun _ _ h => h
  | cons x history ih =>
    intro st hlists hspare hfresh
    obtain ⟨event, ωs⟩ := x
    obtain ⟨rfl, hkind⟩ := hlists (event, ωs) List.mem_cons_self
    exact ih (fun y hy => hlists y (List.mem_cons_of_mem _ hy)) hspare.2
      (fresh_processed hkind hspare.1 hfresh)

/-- **Follower and mute sets, after a list that is processed completely**, agree with
    the graph exactly if the list names every account whose set the author stood in
    without an edge; and there is no such account if no handler of a list of this kind
    has stopped after its deletion. -/
theorem reverse_sets_heal_iff (r : Rel) (author : Pubkey) (history : List (Event × List Outside))
    (hhistory : ∀ x ∈ history, x.1.pubkey = author ∧ (x.1.kind = 3 ∨ x.1.kind = 10000))
    (event : Event) (hauthor : event.pubkey = author) (hkind : listRel event.kind = some r)
    (ωs : List Outside) (hdone : (processed ωs event (replay history .empty)).1.done = true) :
    ((∀ t, (t, author) ∈ (processed ωs event (replay history .empty)).2.sets r ↔
        (author, t) ∈ (processed ωs event (replay history .empty)).2.edges r) ↔
      ∀ t, (replay history .empty).Stale r author t → t ∈ pTagPubkeys event.tags) ∧
    (AllSpare r history .empty → ∀ t, ¬ (replay history .empty).Stale r author t) := by
  subst hauthor
  refine ⟨(replaced_of_done hkind hdone).agree_iff, fun hspare => ?_⟩
  refine fresh_replay hhistory hspare fun t hstale => ?_
  cases hstale.1

end

/-! ### Small runs -/

/-- A follow list of one author. -/
def sampleFollows (named : List Pubkey) : Event :=
  ⟨"", sampleKey 'a', 3, 0, named.map fun p => [.str "p", .str p], ""⟩

/-- Commands are granted, and the relay is not asked. -/
def granted (n : ℕ) : List Outside := List.replicate n fun _ => none

/-- The handler of the first list stops before it gets to the sets. -/
def stoppedFollow : List (Event × List Outside) := [(sampleFollows [sampleKey 'b'], granted 1)]

/-- The next list is processed completely. -/
def healed : Act Unit × Store :=
  processed (granted 3) (sampleFollows [sampleKey 'b']) (replay stoppedFollow .empty)

theorem healed_agrees : healed.1.done = true ∧
    ∀ t, (t, sampleKey 'a') ∈ healed.2.sets .follows ↔ (sampleKey 'a', t) ∈ healed.2.edges .follows := by
  have hdone : healed.1.done = true := by decide
  have hlists : ∀ x ∈ stoppedFollow, x.1.pubkey = sampleKey 'a' ∧ (x.1.kind = 3 ∨ x.1.kind = 10000) := by
    intro x hx
    obtain rfl := List.mem_singleton.1 hx
    exact ⟨rfl, Or.inl rfl⟩
  obtain ⟨hiff, hspare⟩ := reverse_sets_heal_iff .follows (sampleKey 'a') stoppedFollow hlists
    (sampleFollows [sampleKey 'b']) rfl rfl (granted 3) hdone
  refine ⟨hdone, hiff.2 fun t hstale => absurd hstale (hspare ?_ t)⟩
  exact ⟨fun _ => Or.inr (Or.inl (by decide)), trivial⟩

/-- The author follows `b`, and the handler of an empty list stops after its deletion. -/
def stoppedUnfollow : List (Event × List Outside) :=
  [(sampleFollows [sampleKey 'b'], granted 3), (sampleFollows [], granted 1)]

/-- The next list is processed completely, and empty as well. -/
def unhealed : Act Unit × Store :=
  processed (granted 1) (sampleFollows []) (replay stoppedUnfollow .empty)

/-- **A removal that was lost is not made up for**: the author is still in
    `followed_by:b`, without an edge to `b`. -/
theorem unfollow_is_lost : unhealed.1.done = true ∧
    (sampleKey 'b', sampleKey 'a') ∈ unhealed.2.sets .follows ∧
    (sampleKey 'a', sampleKey 'b') ∉ unhealed.2.edges .follows := by
  decide

end Graph

end BrainstormServer
