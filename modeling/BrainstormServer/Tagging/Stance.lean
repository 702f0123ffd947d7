/-
  One stance for each asserter, tag and target.

  The table has one row for each asserter and `d` tag, and the `d` tag is what the author
  says it is.  Keys are compared as they are written, in either case.  So a second row
  for a stance comes in with a tagging under another `d` tag, or with an element whose
  taggings are merged with those that refer to the one it replaces:

  * `one_stance_iff`: in every state of a run each stance has one row exactly if no event
    of the run does one of the two;
  * `stance_doubled`: two taggings that differ in their `d` tags.
-/
import BrainstormServer.Tagging.Order

namespace BrainstormServer

namespace Tagging

open Conc Nostr Latest

variable {R : Type}

/-- Who applies what to whom; accounts are written in either case. -/
def UserTagging.stance (u : UserTagging R) : Pubkey × String × Pubkey :=
  (lower u.asserterPubkey, u.tagEventId, lower u.targetPubkey)

/-- The accounts of a row that `compute_members` gets: who, and whom. -/
def accountsOf (row : Pubkey × R × Pubkey) : Pubkey × Pubkey := (lower row.2.2, lower row.1)

/-- For no tag does an asserter contribute two rows on one account. -/
def OneStance (st : TagStore R) : Prop :=
  ∀ tagEventId qualifyingAsserters,
    ((st.getTaggingsForTag tagEventId qualifyingAsserters).map accountsOf).Nodup

/-- Two elements at different coordinates do not have one event id, so the event is not
    refused. -/
def Accepts (st : TagStore R) (e : TagElement) : Prop :=
  ∀ r ∈ st.elements, r.eventId = e.eventId → r.coordinate = e.coordinate

/-- The event makes no second row for a stance. -/
structure Admits (lib : Lib R) (st : TagStore R) (ev : Event) : Prop where
  /-- an element that replaces `p` finds no rows of both that agree in their accounts -/
  merge : ∀ e p, elementRow lib ev = some e → Accepts st e → st.Replaces e p →
    ∀ u ∈ st.taggings, ∀ v ∈ st.taggings, u.tagEventId = p.eventId → v.tagEventId = e.eventId →
      lower u.asserterPubkey = lower v.asserterPubkey → lower u.targetPubkey ≠ lower v.targetPubkey
  /-- a tagging that takes effect finds its stance, if at all, under its own key -/
  key : ∀ y, taggingRow lib ev = some y →
    (∀ r ∈ st.taggings, r.key = y.key → r.createdAtUnix < y.createdAtUnix) →
      ∀ u ∈ st.taggings, u.stance = y.stance → u.key = y.key

section
variable {lib : Lib R} {st : TagStore R} {ev : Event} {e p : TagElement} {u v y : UserTagging R}

theorem stance_eq_iff : u.stance = v.stance ↔ lower u.asserterPubkey = lower v.asserterPubkey ∧
    u.tagEventId = v.tagEventId ∧ lower u.targetPubkey = lower v.targetPubkey := by
  simp only [UserTagging.stance, Prod.mk.injEq]

/-- The rows show one assertion for each stance exactly if the table has one. -/
theorem oneStance_iff : OneStance st ↔ Latest.Keyed UserTagging.stance st.taggings := by
  constructor
  · intro h u hu v hv hstance
    obtain ⟨hwho, htag, hwhom⟩ := stance_eq_iff.1 hstance
    have hnodup := h u.tagEventId [u.asserterPubkey, v.asserterPubkey]
    rw [TagStore.getTaggingsForTag, if_neg (List.cons_ne_nil _ _), Multiset.map_map] at hnodup
    refine Multiset.inj_on_of_nodup_map hnodup u ?_ v ?_ ?_
    · exact Finset.mem_filter.2 ⟨hu, rfl, List.mem_cons_self⟩
    · exact Finset.mem_filter.2 ⟨hv, htag.symm, List.mem_cons_of_mem _ List.mem_cons_self⟩
    · exact Prod.ext hwho hwhom
  · intro h tagEventId qualifyingAsserters
    unfold TagStore.getTaggingsForTag
    split_ifs
    · exact Multiset.nodup_zero
    · rw [Multiset.map_map]
      refine Multiset.Nodup.map_on ?_ (Finset.nodup _)
      intro u hu v hv haccounts
      obtain ⟨hu, hut, -⟩ := Finset.mem_filter.1 hu
      obtain ⟨hv, hvt, -⟩ := Finset.mem_filter.1 hv
      obtain ⟨hwho, hwhom⟩ := Prod.ext_iff.1 haccounts
      exact h u hu v hv (stance_eq_iff.2 ⟨hwho, hut.trans hvt.symm, hwhom⟩)

/-! ## One event -/

theorem oneStance_empty : OneStance (.empty : TagStore R) := by
  rw [oneStance_iff]
  intro u hu
  cases hu

/-- A row that refers to the element replaced is moved. -/
theorem repoint_of_replaces (hp : st.Replaces e p) (hu : u.tagEventId = p.eventId) :
    st.repoint e u = u.point e.eventId := by
  unfold TagStore.repoint
  rw [if_pos]
  exact ⟨p, hp.1, hp, hu⟩

/-- A row is left alone, or it refers to the element replaced. -/
theorem repoint_cases (st : TagStore R) (e : TagElement) (u : UserTagging R) : st.repoint e u = u ∨
    ∃ p, st.Replaces e p ∧ u.tagEventId = p.eventId ∧ st.repoint e u = u.point e.eventId := by
  by_cases h : ∃ p ∈ st.elements, st.Replaces e p ∧ u.tagEventId = p.eventId
  · obtain ⟨p, -, hp, hu⟩ := h
    exact Or.inr ⟨p, hp, hu, repoint_of_replaces hp hu⟩
  · left
    unfold TagStore.repoint
    rw [if_neg h]

/-- A row that already refers to the new element is left alone. -/
theorem repoint_of_eq (hu : u.tagEventId = e.eventId) : st.repoint e u = u := by
  rcases repoint_cases st e u with h | ⟨p, hp, hid, -⟩
  · exact h
  · exact absurd (hid.symm.trans hu) hp.2.2.1

variable [DecidableEq R]

/-- The taggings after an element. -/
theorem keyed_repoint_iff (h : Latest.Keyed UserTagging.stance st.taggings) :
    Latest.Keyed UserTagging.stance (st.taggings.image (st.repoint e)) ↔
      ∀ p, st.Replaces e p → ∀ u ∈ st.taggings, ∀ v ∈ st.taggings, u.tagEventId = p.eventId →
        v.tagEventId = e.eventId → lower u.asserterPubkey = lower v.asserterPubkey →
          lower u.targetPubkey ≠ lower v.targetPubkey := by
  constructor
  · intro hkeyed p hp u hu v hv hup hve hwho hwhom
    have hmoved := Finset.mem_image_of_mem (st.repoint e) hu
    have hstays := Finset.mem_image_of_mem (st.repoint e) hv
    rw [repoint_of_replaces hp hup] at hmoved
    rw [repoint_of_eq hve] at hstays
    have hrow : u.point e.eventId = v :=
      hkeyed _ hmoved _ hstays (stance_eq_iff.2 ⟨hwho, hve.symm, hwhom⟩)
    -- they were one row before, which refers to both elements
    have hkey : u.key = v.key := by
      rw [← hrow]
      rfl
    obtain rfl := st.keys u hu v hv hkey
    exact hp.2.2.1 (hup.symm.trans hve)
  · intro hmerge a ha b hb hstance
    obtain ⟨u, hu, rfl⟩ := Finset.mem_image.1 ha
    obtain ⟨v, hv, rfl⟩ := Finset.mem_image.1 hb
    rcases repoint_cases st e u with hu' | ⟨p, hp, hup, hu'⟩
    · rcases repoint_cases st e v with hv' | ⟨q, hq, hvq, hv'⟩
      · rw [hu', hv'] at hstance ⊢
        exact h u hu v hv hstance
      · rw [hu', hv'] at hstance
        obtain ⟨hwho, htag, hwhom⟩ := stance_eq_iff.1 hstance
        exact absurd hwhom.symm (hmerge q hq v hv u hu hvq htag hwho.symm)
    · rcases repoint_cases st e v with hv' | ⟨q, hq, hvq, hv'⟩
      · rw [hu', hv'] at hstance
        obtain ⟨hwho, htag, hwhom⟩ := stance_eq_iff.1 hstance
        exact absurd hwhom (hmerge p hp u hu v hv hup htag.symm hwho)
      · -- both referred to the one element at this coordinate
        obtain rfl := st.coordinates p hp.1 q hq.1 (hp.2.1.trans hq.2.1.symm)
        rw [hu', hv'] at hstance
        obtain ⟨hwho, -, hwhom⟩ := stance_eq_iff.1 hstance
        rw [h u hu v hv (stance_eq_iff.2 ⟨hwho, hup.trans hvq.symm, hwhom⟩)]

/-- The taggings after a tagging. -/
theorem keyed_upsert_iff (h : Latest.Keyed UserTagging.stance st.taggings) :
    Latest.Keyed UserTagging.stance (upsert UserTagging.key UserTagging.createdAtUnix st.taggings y) ↔
      ((∀ r ∈ st.taggings, r.key = y.key → r.createdAtUnix < y.createdAtUnix) →
        ∀ u ∈ st.taggings, u.stance = y.stance → u.key = y.key) := by
  unfold upsert
  split_ifs with heffect
  · constructor
    · intro hkeyed _ u hu hstance
      by_contra hkey
      refine hkey (congrArg _ (hkeyed u ?_ y (Finset.mem_insert_self _ _) hstance))
      exact Finset.mem_insert_of_mem (Finset.mem_filter.2 ⟨hu, hkey⟩)
    · intro hkey a ha b hb hstance
      rw [Finset.mem_insert, Finset.mem_filter] at ha hb
      rcases ha with rfl | ⟨ha, hak⟩
      · rcases hb with rfl | ⟨hb, hbk⟩
        · rfl
        · exact absurd (hkey heffect b hb hstance.symm) hbk
      · rcases hb with rfl | ⟨hb, -⟩
        · exact absurd (hkey heffect a ha hstance) hak
        · exact h a ha b hb hstance
  · exact ⟨fun _ heffect' => absurd heffect' heffect, fun _ => h⟩

/-- **One event** keeps the stances apart exactly if the tables admit it. -/
theorem process_oneStance_iff (h : OneStance st) : OneStance (st.process lib ev) ↔ Admits lib st ev := by
  rw [oneStance_iff] at h ⊢
  cases he : elementRow lib ev with
  | some e =>
    have hu := taggingRow_of_element he
    by_cases hrefused : ∃ r ∈ st.elements, r.eventId = e.eventId ∧ r.coordinate ≠ e.coordinate
    · have hprocess := st.process_refused he hrefused
      obtain ⟨r, hr, hid, hcoord⟩ := hrefused
      rw [hprocess]
      refine ⟨fun _ => ⟨fun e' p he' haccepts => ?_, fun y hy => ?_⟩, fun _ => h⟩
      · rw [he] at he'
        cases he'
        exact absurd (haccepts r hr hid) hcoord
      · rw [hu] at hy
        cases hy
    · have hprocess := (st.process_element he hrefused).2
      have haccepts : Accepts st e := by
        intro r hr hid
        by_contra hcoord
        exact hrefused ⟨r, hr, hid, hcoord⟩
      rw [hprocess, keyed_repoint_iff h]
      constructor
      · intro hmerge
        refine ⟨fun e' p he' _ => ?_, fun y hy => ?_⟩
        · rw [he] at he'
          cases he'
          exact hmerge p
        · rw [hu] at hy
          cases hy
      · intro hadmits p
        exact hadmits.merge e p he haccepts
  | none =>
    cases hu : taggingRow lib ev with
    | some y =>
      rw [(st.process_tagging hu).2, keyed_upsert_iff h]
      constructor
      · intro hkey
        refine ⟨fun e p he' => ?_, fun y' hy => ?_⟩
        · rw [he] at he'
          cases he'
        · rw [hu] at hy
          cases hy
          exact hkey
      · intro hadmits
        exact hadmits.key y hu
    | none =>
      rw [st.process_none he hu]
      refine ⟨fun _ => ⟨fun e p he' => ?_, fun y hy => ?_⟩, fun _ => h⟩
      · rw [he] at he'
        cases he'
      · rw [hu] at hy
        cases hy

/-- Two taggings of one account whose `d` tags differ. -/
theorem stance_doubled_of_ne {ev₁ ev₂ : Event} {u₁ u₂ : UserTagging R}
    (h₁ : taggingRow lib ev₁ = some u₁) (h₂ : taggingRow lib ev₂ = some u₂)
    (hstance : u₁.stance = u₂.stance) (hne : u₁.key ≠ u₂.key) :
    ¬ OneStance (TagStore.processAll lib [ev₁, ev₂] .empty) := by
  have hfirst : (TagStore.processAll lib [ev₁] .empty).taggings = {u₁} := by
    have hfirst := (TagStore.process_tagging TagStore.empty h₁).2
    rw [TagStore.processAll, List.foldl_cons, List.foldl_nil, hfirst]
    simp [TagStore.empty, upsert]
  have hone : OneStance (TagStore.processAll lib [ev₁] .empty) := by
    rw [oneStance_iff, hfirst]
    intro u hu v hv _
    rw [Finset.mem_singleton.1 hu, Finset.mem_singleton.1 hv]
  rw [show [ev₁, ev₂] = [ev₁] ++ [ev₂] from rfl, processAll_append_singleton,
    process_oneStance_iff hone]
  intro hadmits
  refine hne (hadmits.key u₂ h₂ ?_ u₁ ?_ hstance)
  · intro r hr hk
    rw [hfirst, Finset.mem_singleton] at hr
    rw [hr] at hk
    exact absurd hk hne
  · rw [hfirst]
    exact Finset.mem_singleton_self u₁

end

/-! ## A run -/

variable [DecidableEq R]

/-- **Each asserter has one stance in every state of a run exactly if every event of it is
    admitted.** -/
theorem one_stance_iff (lib : Lib R) (events : List Event) :
    (∀ es, es <+: events → OneStance (TagStore.processAll lib es .empty)) ↔
      ∀ es ev, es ++ [ev] <+: events → Admits lib (TagStore.processAll lib es .empty) ev := by
  constructor
  · intro h es ev hes
    have hbefore := h es ((List.prefix_append es [ev]).trans hes)
    have hafter := h (es ++ [ev]) hes
    rw [processAll_append_singleton] at hafter
    exact (process_oneStance_iff hbefore).1 hafter
  · intro h es
    induction es using List.reverseRecOn with
    | nil =>
      intro _
      exact oneStance_empty
    | append_singleton es ev ih =>
      intro hes
      rw [processAll_append_singleton]
      exact (process_oneStance_iff (ih ((List.prefix_append es [ev]).trans hes))).2 (h es ev hes)

/-- **Two `d` tags are two stances.**  The account `b` applies one tag to `c` twice, and
    both rows are counted. -/
theorem stance_doubled : ¬ OneStance (TagStore.processAll sampleLib
    [sampleTagging '3' 3 "d" '1', sampleTagging '4' 4 "d2" '1'] .empty) := by
  refine stance_doubled_of_ne (row_sampleTagging (by decide) (by decide) 3 rfl (by decide) rfl)
    (row_sampleTagging (by decide) (by decide) 4 rfl (by decide) rfl) rfl ?_
  intro hkey
  exact absurd (congrArg Prod.snd hkey) (by decide)

end Tagging

end BrainstormServer
