/-
  Whether the order of arrival matters.

  Elements do not depend on it (`mem_elements`), and taggings do not either, up to the
  event they refer to (`mem_bare`).  A reference is moved only at the moment an element
  is replaced, so one that arrives later, or whose element never was in the table,
  stays where it is:

  * `order_free_iff`: the tables and every dictionary are the same in all orders, and
    what refers to a replaced version counts, exactly if no tagging that stands refers to
    a version that is replaced, be it among all events or among those that have rows;
  * `late_reference_dangles`: otherwise they are not.
-/
import BrainstormServer.Tagging.Store
import Mathlib.Data.List.Perm.Basic

namespace BrainstormServer

namespace Tagging

open Conc Nostr Latest

variable {R : Type} [DecidableEq R]

section
variable (lib : Lib R)

/-- The elements among some events that their table holds. -/
def elementsOf (events : List Event) : List TagElement := events.filterMap (elementRow lib)

/-- The taggings among some events that their table holds. -/
def taggingsOf (events : List Event) : List (UserTagging R) := events.filterMap (taggingRow lib)

/-- All elements among some events. -/
def elementsSent (events : List Event) : List TagElement := events.filterMap (parseTagElement lib)

/-- All taggings among some events. -/
def taggingsSent (events : List Event) : List (UserTagging R) :=
  events.filterMap (parseUserTagging lib)

/-- Different events at different times. -/
structure Distinct (events : List Event) : Prop where
  ids : (events.map (·.id)).Nodup
  times : (events.map (·.createdAt)).Nodup

/-- The element is the last version at its coordinate. -/
def Current (events : List Event) (e : TagElement) : Prop :=
  IsLatest TagElement.coordinate TagElement.createdAtUnix (elementsOf lib events) e

/-- The tagging is the last one of its asserter with its `d` tag. -/
def Standing (events : List Event) (u : UserTagging R) : Prop :=
  IsLatest UserTagging.key UserTagging.createdAtUnix (taggingsOf lib events) u

/-- The same among all events, with or without a row. -/
def CurrentSent (events : List Event) (e : TagElement) : Prop :=
  IsLatest TagElement.coordinate TagElement.createdAtUnix (elementsSent lib events) e

def StandingSent (events : List Event) (u : UserTagging R) : Prop :=
  IsLatest UserTagging.key UserTagging.createdAtUnix (taggingsSent lib events) u

/-- No tagging that stands refers to a version that is replaced. -/
def RefersToCurrent (events : List Event) : Prop :=
  ∀ x, Standing lib events x → ∀ v ∈ elementsOf lib events, v.eventId = x.tagEventId →
    Current lib events v

/-- The same among all events, with or without a row. -/
def SentRefersToCurrent (events : List Event) : Prop :=
  ∀ x, StandingSent lib events x → ∀ v ∈ elementsSent lib events, v.eventId = x.tagEventId →
    CurrentSent lib events v

/-- The tables and the dictionaries are the same in every order, and a tagging that
    stands and refers to a version that is replaced counts for the last one. -/
structure OrderFree (events : List Event) : Prop where
  same : ∀ p q, p.Perm events → q.Perm events →
    (TagStore.processAll lib p .empty).elements = (TagStore.processAll lib q .empty).elements ∧
    (TagStore.processAll lib p .empty).taggings = (TagStore.processAll lib q .empty).taggings ∧
    ∀ qualifyingAsserters minUses,
      (TagStore.processAll lib p .empty).getDictionary lib qualifyingAsserters minUses =
        (TagStore.processAll lib q .empty).getDictionary lib qualifyingAsserters minUses
  counted : ∀ p, p.Perm events → ∀ x, StandingSent lib events x →
    ∀ v ∈ elementsSent lib events, v.eventId = x.tagEventId →
      ∀ w, CurrentSent lib events w → w.coordinate = v.coordinate → w ≠ v →
        w ∈ (TagStore.processAll lib p .empty).elements ∧
          x.point w.eventId ∈ (TagStore.processAll lib p .empty).taggings

end

section
variable {lib : Lib R} {events p es : List Event} {ev : Event} {st : TagStore R}

/-! ## Events and rows -/

omit [DecidableEq R] in
theorem elementRow_data {e : TagElement} (h : elementRow lib ev = some e) :
    zTagOf ev = some tagZTag ∧ e.eventId = ev.id ∧ e.createdAtUnix = ev.createdAt :=
  parseTagElement_data (elementRow_eq_some.1 h).1

omit [DecidableEq R] in
theorem taggingRow_data {u : UserTagging R} (h : taggingRow lib ev = some u) :
    zTagOf ev = some nostrUserTagZTag ∧ u.eventId = ev.id ∧ u.createdAtUnix = ev.createdAt :=
  parseUserTagging_data (taggingRow_eq_some.1 h).1

theorem Distinct.perm (h : Distinct events) (hp : p.Perm events) : Distinct p :=
  ⟨(hp.map _).nodup_iff.2 h.ids, (hp.map _).nodup_iff.2 h.times⟩

theorem Distinct.of_prefix (h : Distinct p) (hinit : es <+: p) : Distinct es :=
  ⟨h.ids.sublist (hinit.map _).sublist, h.times.sublist (hinit.map _).sublist⟩

theorem Distinct.init (h : Distinct (es ++ [ev])) : Distinct es :=
  h.of_prefix (List.prefix_append es [ev])

theorem Distinct.last (h : Distinct (es ++ [ev])) : ∀ f ∈ es, f.id ≠ ev.id ∧ f.createdAt ≠ ev.createdAt := by
  obtain ⟨hids, htimes⟩ := h
  rw [List.map_append, List.nodup_append] at hids htimes
  intro f hf
  exact ⟨hids.2.2 _ (List.mem_map_of_mem hf) _ List.mem_cons_self,
    htimes.2.2 _ (List.mem_map_of_mem hf) _ List.mem_cons_self⟩

omit [DecidableEq R] in
theorem mem_elementsOf {e : TagElement} :
    e ∈ elementsOf lib events ↔ ∃ f ∈ events, elementRow lib f = some e :=
  List.mem_filterMap

omit [DecidableEq R] in
theorem mem_taggingsOf {u : UserTagging R} :
    u ∈ taggingsOf lib events ↔ ∃ f ∈ events, taggingRow lib f = some u :=
  List.mem_filterMap

omit [DecidableEq R] in
theorem elementsOf_subset {e : TagElement} (h : e ∈ elementsOf lib events) :
    e ∈ elementsSent lib events := by
  obtain ⟨f, hf, hfe⟩ := mem_elementsOf.1 h
  exact List.mem_filterMap.2 ⟨f, hf, (elementRow_eq_some.1 hfe).1⟩

omit [DecidableEq R] in
theorem taggingsOf_subset {u : UserTagging R} (h : u ∈ taggingsOf lib events) :
    u ∈ taggingsSent lib events := by
  obtain ⟨f, hf, hfu⟩ := mem_taggingsOf.1 h
  exact List.mem_filterMap.2 ⟨f, hf, (taggingRow_eq_some.1 hfu).1⟩

omit [DecidableEq R] in
theorem elementsOf_eq_filter :
    elementsOf lib events = (elementsSent lib events).filter TagElement.fits :=
  (List.filter_filterMap ..).symm

omit [DecidableEq R] in
theorem taggingsOf_eq_filter :
    taggingsOf lib events = (taggingsSent lib events).filter UserTagging.fits :=
  (List.filter_filterMap ..).symm

omit [DecidableEq R] in
/-- Two elements with one event id are one. -/
theorem Distinct.element_eq (h : Distinct events) {a b : TagElement} (ha : a ∈ elementsSent lib events)
    (hb : b ∈ elementsSent lib events) (hid : a.eventId = b.eventId) : a = b := by
  obtain ⟨f, hf, hfa⟩ := List.mem_filterMap.1 ha
  obtain ⟨g, hg, hgb⟩ := List.mem_filterMap.1 hb
  rw [(parseTagElement_data hfa).2.1, (parseTagElement_data hgb).2.1] at hid
  obtain rfl := List.inj_on_of_nodup_map h.ids hf hg hid
  rw [hfa] at hgb
  exact Option.some.inj hgb

omit [DecidableEq R] in
/-- There is one last version at a coordinate. -/
theorem Distinct.latest_eq (h : Distinct events) {l : List TagElement}
    (hl : ∀ e ∈ l, e ∈ elementsSent lib events) {a b : TagElement}
    (ha : IsLatest TagElement.coordinate TagElement.createdAtUnix l a)
    (hb : IsLatest TagElement.coordinate TagElement.createdAtUnix l b)
    (hcoord : a.coordinate = b.coordinate) : a = b := by
  refine ha.eq hb hcoord fun c hc d hd htime => ?_
  obtain ⟨f, hf, hfc⟩ := List.mem_filterMap.1 (hl c hc)
  obtain ⟨g, hg, hgd⟩ := List.mem_filterMap.1 (hl d hd)
  rw [(parseTagElement_data hfc).2.2, (parseTagElement_data hgd).2.2] at htime
  obtain rfl := List.inj_on_of_nodup_map h.times hf hg htime
  rw [hfc] at hgd
  exact Option.some.inj hgd

omit [DecidableEq R] in
theorem Distinct.current_eq (h : Distinct events) {a b : TagElement} (ha : Current lib events a)
    (hb : Current lib events b) (hcoord : a.coordinate = b.coordinate) : a = b :=
  h.latest_eq (fun _ => elementsOf_subset) ha hb hcoord

omit [DecidableEq R] in
/-- Two taggings with one event id are one. -/
theorem Distinct.tagging_eq (h : Distinct events) {a b : UserTagging R}
    (ha : a ∈ taggingsSent lib events) (hb : b ∈ taggingsSent lib events)
    (hid : a.eventId = b.eventId) : a = b := by
  obtain ⟨f, hf, hfa⟩ := List.mem_filterMap.1 ha
  obtain ⟨g, hg, hgb⟩ := List.mem_filterMap.1 hb
  rw [(parseUserTagging_data hfa).2.1, (parseUserTagging_data hgb).2.1] at hid
  obtain rfl := List.inj_on_of_nodup_map h.ids hf hg hid
  rw [hfa] at hgb
  exact Option.some.inj hgb

omit [DecidableEq R] in
theorem elementsOf_append : elementsOf lib (es ++ p) = elementsOf lib es ++ elementsOf lib p :=
  List.filterMap_append

omit [DecidableEq R] in
theorem taggingsOf_append : taggingsOf lib (es ++ p) = taggingsOf lib es ++ taggingsOf lib p :=
  List.filterMap_append

omit [DecidableEq R] in
/-- Who is current does not depend on the order. -/
theorem current_perm (hp : p.Perm events) {e : TagElement} :
    Current lib p e ↔ Current lib events e := by
  have hmem : ∀ f, f ∈ elementsOf lib p ↔ f ∈ elementsOf lib events :=
    fun f => (hp.filterMap _).mem_iff
  simp only [Current, IsLatest, hmem]

omit [DecidableEq R] in
theorem standing_perm (hp : p.Perm events) {u : UserTagging R} :
    Standing lib p u ↔ Standing lib events u := by
  have hmem : ∀ f, f ∈ taggingsOf lib p ↔ f ∈ taggingsOf lib events :=
    fun f => (hp.filterMap _).mem_iff
  simp only [Standing, IsLatest, hmem]

theorem processAll_append_singleton :
    TagStore.processAll lib (es ++ [ev]) st = (TagStore.processAll lib es st).process lib ev := by
  simp [TagStore.processAll]

variable (lib) in
/-- What one event does. -/
theorem process_cases (hfresh : ∀ e, elementRow lib ev = some e → ∀ r ∈ st.elements,
      r.eventId ≠ e.eventId) :
    (∃ e, elementRow lib ev = some e ∧ taggingRow lib ev = none ∧
      (st.process lib ev).elements = upsert TagElement.coordinate TagElement.createdAtUnix st.elements e ∧
      (st.process lib ev).taggings = st.taggings.image (st.repoint e)) ∨
    (∃ u, taggingRow lib ev = some u ∧ elementRow lib ev = none ∧
      (st.process lib ev).elements = st.elements ∧
      (st.process lib ev).taggings = upsert UserTagging.key UserTagging.createdAtUnix st.taggings u) ∨
    (elementRow lib ev = none ∧ taggingRow lib ev = none ∧ st.process lib ev = st) := by
  cases he : elementRow lib ev with
  | some e =>
    left
    have hno : ¬ ∃ r ∈ st.elements, r.eventId = e.eventId ∧ r.coordinate ≠ e.coordinate := by
      rintro ⟨r, hr, hid, -⟩
      exact hfresh e he r hr hid
    exact ⟨e, rfl, taggingRow_of_element he, st.process_element he hno⟩
  | none =>
    right
    cases hu : taggingRow lib ev with
    | some u =>
      left
      exact ⟨u, rfl, rfl, st.process_tagging hu⟩
    | none =>
      right
      exact ⟨rfl, rfl, st.process_none he hu⟩

/-! ## What does not depend on the order -/

/-- **The elements** are the last versions. -/
theorem mem_elements (h : Distinct es) : ∀ e, e ∈ (TagStore.processAll lib es .empty).elements ↔
    Current lib es e := by
  induction es using List.reverseRecOn with
  | nil =>
    intro e
    constructor
    · intro he
      cases he
    · intro he
      cases he.1
  | append_singleton es ev ih =>
    have hrows := ih h.init
    intro e
    rw [processAll_append_singleton]
    have hmem : ∀ r ∈ (TagStore.processAll lib es .empty).elements, ∃ f ∈ es,
        elementRow lib f = some r := by
      intro r hr
      exact mem_elementsOf.1 ((hrows r).1 hr).1
    have hfresh : ∀ b, elementRow lib ev = some b →
        ∀ r ∈ (TagStore.processAll lib es .empty).elements, r.eventId ≠ b.eventId := by
      intro b hb r hr
      obtain ⟨f, hf, hfr⟩ := hmem r hr
      rw [(elementRow_data hfr).2.1, (elementRow_data hb).2.1]
      exact (h.last f hf).1
    rcases process_cases lib hfresh with ⟨b, hb, -, hel, -⟩ | ⟨u, -, hb, hel, -⟩ | ⟨hb, -, hst⟩
    · rw [hel, Current, elementsOf_append, show elementsOf lib [ev] = [b] by simp [elementsOf, hb]]
      refine mem_upsert hrows ?_ e
      intro c hc
      obtain ⟨f, hf, hfc⟩ := mem_elementsOf.1 hc
      rw [(elementRow_data hfc).2.2, (elementRow_data hb).2.2]
      exact (h.last f hf).2
    · rw [hel, Current, elementsOf_append, show elementsOf lib [ev] = [] by simp [elementsOf, hb],
        List.append_nil]
      exact hrows e
    · rw [hst, Current, elementsOf_append, show elementsOf lib [ev] = [] by simp [elementsOf, hb],
        List.append_nil]
      exact hrows e

variable (lib) in
/-- An element that comes in has no row yet. -/
theorem fresh_element (h : Distinct (es ++ [ev])) (e : TagElement)
    (he : elementRow lib ev = some e) :
    ∀ r ∈ (TagStore.processAll lib es .empty).elements, r.eventId ≠ e.eventId := by
  intro r hr
  obtain ⟨f, hf, hfr⟩ := mem_elementsOf.1 ((mem_elements h.init r).1 hr).1
  rw [(elementRow_data hfr).2.1, (elementRow_data he).2.1]
  exact (h.last f hf).1

/-- A tagging without its reference. -/
def bare (u : UserTagging R) : UserTagging R := u.point ""

omit [DecidableEq R] in
theorem bare_repoint (e : TagElement) (u : UserTagging R) : bare (st.repoint e u) = bare u := by
  unfold TagStore.repoint
  split_ifs <;> rfl

/-- **The taggings, up to their references**, are the ones that stand. -/
theorem mem_bare (h : Distinct es) : ∀ v, v ∈ (TagStore.processAll lib es .empty).taggings.image bare ↔
    IsLatest UserTagging.key UserTagging.createdAtUnix ((taggingsOf lib es).map bare) v := by
  induction es using List.reverseRecOn with
  | nil =>
    intro v
    constructor
    · intro hv
      simp [TagStore.processAll, TagStore.empty] at hv
    · intro hv
      cases hv.1
  | append_singleton es ev ih =>
    have hrows := ih h.init
    intro v
    rw [processAll_append_singleton, taggingsOf_append]
    rcases process_cases lib (fresh_element lib h) with ⟨e, -, hu, -, htag⟩ | ⟨u, hu, -, -, htag⟩ | ⟨-, hu, hst⟩
    · rw [htag, show taggingsOf lib [ev] = [] by simp [taggingsOf, hu], List.append_nil,
        Finset.image_image, ← hrows v]
      simp only [Function.comp_def, bare_repoint]
    · rw [htag, image_upsert (f := bare) (fun _ => rfl) (fun _ => rfl),
        show taggingsOf lib [ev] = [u] by simp [taggingsOf, hu], List.map_append]
      refine mem_upsert hrows ?_ v
      intro c hc
      obtain ⟨w, hw, rfl⟩ := List.mem_map.1 hc
      obtain ⟨f, hf, hfw⟩ := mem_taggingsOf.1 hw
      show w.createdAtUnix ≠ u.createdAtUnix
      rw [(taggingRow_data hfw).2.2, (taggingRow_data hu).2.2]
      exact (h.last f hf).2
    · rw [hst, show taggingsOf lib [ev] = [] by simp [taggingsOf, hu], List.append_nil]
      exact hrows v

omit [DecidableEq R] in
theorem standing_bare {x : UserTagging R} (hx : Standing lib es x) :
    IsLatest UserTagging.key UserTagging.createdAtUnix ((taggingsOf lib es).map bare) (bare x) := by
  refine ⟨List.mem_map_of_mem hx.1, fun b hb hk => ?_⟩
  obtain ⟨w, hw, rfl⟩ := List.mem_map.1 hb
  exact hx.2 w hw hk

/-- What a row comes from. -/
theorem exists_standing (h : Distinct es) {u : UserTagging R}
    (hu : u ∈ (TagStore.processAll lib es .empty).taggings) : ∃ x, Standing lib es x ∧ bare x = bare u := by
  obtain ⟨hmem, hlatest⟩ := (mem_bare h (bare u)).1 (Finset.mem_image_of_mem _ hu)
  obtain ⟨x, hx, hxu⟩ := List.mem_map.1 hmem
  refine ⟨x, ⟨hx, fun b hb hk => ?_⟩, hxu⟩
  have hkey : (bare b).key = (bare u).key := by
    rw [← hxu]
    exact hk
  have htime := hlatest (bare b) (List.mem_map_of_mem hb) hkey
  rw [← hxu] at htime
  exact htime

/-! ## References that are never moved -/

/-- If no tagging that stands refers to a version that is replaced, the row of such a
    tagging is the tagging itself, from its arrival on. -/
theorem row_eq (hdistinct : Distinct p) (href : RefersToCurrent lib p) (hinit : es <+: p) :
    ∀ u ∈ (TagStore.processAll lib es .empty).taggings, ∀ x, Standing lib p x → bare x = bare u →
      u = x := by
  induction es using List.reverseRecOn with
  | nil =>
    intro u hu
    cases hu
  | append_singleton es ev ih =>
    have hsub : es <+: p := (List.prefix_append es [ev]).trans hinit
    have hmem : ev ∈ p := hinit.subset (List.mem_append_right _ List.mem_cons_self)
    have hrows := ih hsub
    intro u hu x hx hbare
    rw [processAll_append_singleton] at hu
    rcases process_cases lib (fresh_element lib (hdistinct.of_prefix hinit)) with
      ⟨e, he, -, -, htag⟩ | ⟨y, hy, -, -, htag⟩ | ⟨-, -, hst⟩
    · rw [htag] at hu
      obtain ⟨w, hw, rfl⟩ := Finset.mem_image.1 hu
      rw [bare_repoint] at hbare
      obtain rfl := hrows w hw x hx hbare
      unfold TagStore.repoint
      rw [if_neg]
      rintro ⟨q, -, ⟨hq, hcoord, -, htime⟩, hid⟩
      -- the element it refers to would be replaced by `e`
      have hq' : q ∈ elementsOf lib p := by
        obtain ⟨f, hf, hfq⟩ := mem_elementsOf.1 ((mem_elements (hdistinct.of_prefix hsub) q).1 hq).1
        exact mem_elementsOf.2 ⟨f, hsub.subset hf, hfq⟩
      have hcurrent := href w hx q hq' hid.symm
      exact absurd (hcurrent.2 e (mem_elementsOf.2 ⟨ev, hmem, he⟩) hcoord.symm) (not_le.2 htime)
    · rw [htag] at hu
      unfold upsert at hu
      split_ifs at hu
      · rw [Finset.mem_insert, Finset.mem_filter] at hu
        rcases hu with rfl | ⟨hu, -⟩
        · refine hdistinct.tagging_eq (taggingsOf_subset (mem_taggingsOf.2 ⟨ev, hmem, hy⟩))
            (taggingsOf_subset hx.1) ?_
          exact (congrArg UserTagging.eventId hbare).symm
        · exact hrows u hu x hx hbare
      · exact hrows u hu x hx hbare
    · rw [hst] at hu
      exact hrows u hu x hx hbare

/-- Then the rows are the taggings that stand. -/
theorem mem_taggings (hdistinct : Distinct p) (href : RefersToCurrent lib p) (u : UserTagging R) :
    u ∈ (TagStore.processAll lib p .empty).taggings ↔ Standing lib p u := by
  have hrow := row_eq hdistinct href (List.prefix_refl p)
  constructor
  · intro hu
    obtain ⟨x, hx, hbare⟩ := exists_standing hdistinct hu
    rwa [hrow u hu x hx hbare]
  · intro hu
    obtain ⟨w, hw, hbare⟩ := Finset.mem_image.1 ((mem_bare hdistinct (bare u)).2 (standing_bare hu))
    rwa [← hrow w hw u hu hbare.symm]

/-! ## A reference that is moved, or not -/

/-- A tagging that comes last and stands has its row as it is. -/
theorem mem_taggings_last (h : Distinct (es ++ [ev])) {x : UserTagging R}
    (hx : taggingRow lib ev = some x) (hstanding : Standing lib (es ++ [ev]) x) :
    x ∈ (TagStore.processAll lib (es ++ [ev]) .empty).taggings := by
  rw [processAll_append_singleton]
  rcases process_cases lib (fresh_element lib h) with ⟨e, -, hu, -⟩ | ⟨y, hy, -, -, htag⟩ | ⟨-, hu, -⟩
  · rw [hu] at hx
    cases hx
  · rw [hy] at hx
    cases hx
    rw [htag]
    unfold upsert
    rw [if_pos]
    · exact Finset.mem_insert_self _ _
    · intro r hr hk
      obtain ⟨w, hw, hbare⟩ := exists_standing h.init hr
      have htime : (bare w).createdAtUnix = (bare r).createdAtUnix := by rw [hbare]
      have hkey : (bare w).key = (bare r).key := by rw [hbare]
      obtain ⟨f, hf, hfw⟩ := mem_taggingsOf.1 hw.1
      have hw' : w ∈ taggingsOf lib (es ++ [ev]) :=
        mem_taggingsOf.2 ⟨f, List.mem_append_left _ hf, hfw⟩
      have htime' : r.createdAtUnix = w.createdAtUnix := htime.symm
      rw [htime']
      refine lt_of_le_of_ne (hstanding.2 w hw' (hkey.trans hk)) ?_
      rw [(taggingRow_data hfw).2.2, (taggingRow_data hy).2.2]
      exact (h.last f hf).2
  · rw [hu] at hx
    cases hx

/-- A row that refers to the last version of its element stays, if its tagging stands. -/
theorem row_stays (hdistinct : Distinct p) {x : UserTagging R} {w : TagElement}
    (hx : Standing lib p x) (hw : Current lib p w) (hinit : es ++ [ev] <+: p)
    (hrow : x.point w.eventId ∈ (TagStore.processAll lib es .empty).taggings) :
    x.point w.eventId ∈ (TagStore.processAll lib (es ++ [ev]) .empty).taggings := by
  have hsub : es <+: p := (List.prefix_append es [ev]).trans hinit
  have hmem : ev ∈ p := hinit.subset (List.mem_append_right _ List.mem_cons_self)
  rw [processAll_append_singleton]
  rcases process_cases lib (fresh_element lib (hdistinct.of_prefix hinit)) with
    ⟨e, he, -, -, htag⟩ | ⟨y, hy, -, -, htag⟩ | ⟨-, -, hst⟩
  · rw [htag]
    refine Finset.mem_image.2 ⟨x.point w.eventId, hrow, ?_⟩
    unfold TagStore.repoint
    rw [if_neg]
    rintro ⟨q, -, ⟨hq, hcoord, -, htime⟩, hid⟩
    have hq' : q ∈ elementsOf lib p := by
      obtain ⟨f, hf, hfq⟩ := mem_elementsOf.1 ((mem_elements (hdistinct.of_prefix hsub) q).1 hq).1
      exact mem_elementsOf.2 ⟨f, hsub.subset hf, hfq⟩
    obtain rfl := hdistinct.element_eq (elementsOf_subset hw.1) (elementsOf_subset hq') hid
    exact absurd (hw.2 e (mem_elementsOf.2 ⟨ev, hmem, he⟩) hcoord.symm) (not_le.2 htime)
  · rw [htag]
    unfold upsert
    split_ifs with hcond
    · rw [Finset.mem_insert, Finset.mem_filter]
      by_cases hk : x.key = y.key
      · exact absurd (hcond _ hrow hk)
          (not_lt.2 (hx.2 y (mem_taggingsOf.2 ⟨ev, hmem, hy⟩) hk.symm))
      · exact Or.inr ⟨hrow, hk⟩
    · exact hrow
  · rw [hst]
    exact hrow

/-- A tagging that arrives between two versions is moved to the last one. -/
theorem row_moved {fv fx fw : Event} {rest : List Event} (hdistinct : Distinct (fv :: fx :: fw :: rest))
    {x : UserTagging R} {v w : TagElement} (hv : elementRow lib fv = some v)
    (hx : taggingRow lib fx = some x) (hw : elementRow lib fw = some w)
    (hstanding : Standing lib (fv :: fx :: fw :: rest) x)
    (hcurrent : Current lib (fv :: fx :: fw :: rest) w) (hid : v.eventId = x.tagEventId)
    (hcoord : v.coordinate = w.coordinate) :
    x.point w.eventId ∈ (TagStore.processAll lib (fv :: fx :: fw :: rest) .empty).taggings := by
  have hthree : [fv, fx, fw] <+: fv :: fx :: fw :: rest := ⟨rest, rfl⟩
  have htwo : [fv, fx] <+: fv :: fx :: fw :: rest := ⟨fw :: rest, rfl⟩
  suffices h : ∀ gs, [fv, fx, fw] ++ gs <+: fv :: fx :: fw :: rest →
      x.point w.eventId ∈ (TagStore.processAll lib ([fv, fx, fw] ++ gs) .empty).taggings from
    h rest (List.prefix_refl _)
  intro gs
  induction gs using List.reverseRecOn with
  | nil =>
    intro _
    have hxfv := elementRow_of_tagging hx
    have hrow : x ∈ (TagStore.processAll lib [fv, fx] .empty).taggings := by
      have hpart : Distinct ([fv] ++ [fx]) := hdistinct.of_prefix htwo
      refine mem_taggings_last hpart hx ⟨?_, fun b hb => hstanding.2 b ?_⟩
      · exact mem_taggingsOf.2 ⟨fx, by simp, hx⟩
      · obtain ⟨f, hf, hfb⟩ := mem_taggingsOf.1 hb
        exact mem_taggingsOf.2 ⟨f, htwo.subset hf, hfb⟩
    have helem : v ∈ (TagStore.processAll lib [fv, fx] .empty).elements := by
      rw [mem_elements (hdistinct.of_prefix htwo)]
      have hlist : elementsOf lib [fv, fx] = [v] := by simp [elementsOf, hv, hxfv]
      unfold Current
      rw [hlist]
      refine ⟨List.mem_cons_self, fun b hb _ => ?_⟩
      rw [List.mem_singleton.1 hb]
    have hpart : Distinct ([fv, fx] ++ [fw]) := hdistinct.of_prefix hthree
    have hlast := hpart.last fv List.mem_cons_self
    have hne : v.eventId ≠ w.eventId := by
      rw [(elementRow_data hv).2.1, (elementRow_data hw).2.1]
      exact hlast.1
    have htime : v.createdAtUnix < w.createdAtUnix := by
      refine lt_of_le_of_ne (hcurrent.2 v (mem_elementsOf.2 ⟨fv, List.mem_cons_self, hv⟩) hcoord) ?_
      rw [(elementRow_data hv).2.2, (elementRow_data hw).2.2]
      exact hlast.2
    rw [List.append_nil, show [fv, fx, fw] = [fv, fx] ++ [fw] from rfl, processAll_append_singleton]
    rcases process_cases lib (fresh_element lib hpart) with
      ⟨e, he, -, -, htag⟩ | ⟨y, -, he, -⟩ | ⟨he, -, -⟩
    · rw [hw] at he
      cases he
      rw [htag]
      refine Finset.mem_image.2 ⟨x, hrow, ?_⟩
      unfold TagStore.repoint
      rw [if_pos]
      exact ⟨v, helem, ⟨helem, hcoord, hne, htime⟩, hid.symm⟩
    · rw [hw] at he
      cases he
    · rw [hw] at he
      cases he
  | append_singleton gs ev ih =>
    intro hinit
    rw [← List.append_assoc] at hinit ⊢
    exact row_stays hdistinct hstanding hcurrent hinit
      (ih ((List.prefix_append _ [ev]).trans hinit))

/-! ## The equivalence -/

omit [DecidableEq R] in
theorem refersToCurrent_perm (hp : p.Perm events) (h : RefersToCurrent lib events) :
    RefersToCurrent lib p := by
  intro x hx v hv hid
  refine (current_perm hp).2 (h x ((standing_perm hp).1 hx) v ?_ hid)
  exact (hp.filterMap _).mem_iff.1 hv

theorem orderFree_of_refersToCurrent (hdistinct : Distinct events)
    (href : RefersToCurrent lib events) (hsent : SentRefersToCurrent lib events) :
    OrderFree lib events := by
  refine ⟨fun p q hp hq => ?_, fun p hp x hx v hv hid w hw hcoord hne => ?_⟩
  · have hel : (TagStore.processAll lib p .empty).elements = (TagStore.processAll lib q .empty).elements := by
      ext e
      rw [mem_elements (hdistinct.perm hp), mem_elements (hdistinct.perm hq), current_perm hp,
        current_perm hq]
    have htag : (TagStore.processAll lib p .empty).taggings = (TagStore.processAll lib q .empty).taggings := by
      ext u
      rw [mem_taggings (hdistinct.perm hp) (refersToCurrent_perm hp href),
        mem_taggings (hdistinct.perm hq) (refersToCurrent_perm hq href), standing_perm hp,
        standing_perm hq]
    refine ⟨hel, htag, fun qualifyingAsserters minUses => ?_⟩
    rw [TagStore.ext hel htag]
  · -- the version it refers to is the last one
    exact absurd (hdistinct.latest_eq (fun _ he => he) hw (hsent x hx v hv hid) hcoord) hne

theorem refersToCurrent_of_orderFree (hdistinct : Distinct events) (hfree : OrderFree lib events) :
    RefersToCurrent lib events := by
  intro x hx v hv hid
  obtain ⟨fx, hfx, hfx'⟩ := mem_taggingsOf.1 hx.1
  obtain ⟨fv, hfv, hfv'⟩ := mem_elementsOf.1 hv
  obtain ⟨w, hw, hcoord⟩ := exists_isLatest TagElement.coordinate TagElement.createdAtUnix hv
  by_contra hnot
  obtain ⟨fw, hfw, hfw'⟩ := mem_elementsOf.1 hw.1
  have hvw : fv ≠ fw := by
    rintro rfl
    rw [hfv'] at hfw'
    cases hfw'
    exact hnot hw
  have hvx : fv ≠ fx := by
    rintro rfl
    rw [taggingRow_of_element hfv'] at hfx'
    cases hfx'
  have hwx : fw ≠ fx := by
    rintro rfl
    rw [taggingRow_of_element hfw'] at hfx'
    cases hfx'
  -- the version, the tagging, the last version, then the rest
  obtain ⟨rest, hrest⟩ : ∃ rest, (fv :: fx :: fw :: rest).Perm events := by
    obtain ⟨l₁, hl₁⟩ : ∃ l₁, events.Perm (fv :: l₁) := by
      obtain ⟨s, t, rfl⟩ := List.append_of_mem hfv
      exact ⟨s ++ t, List.perm_middle⟩
    have hfx₁ := (List.mem_cons.1 (hl₁.mem_iff.1 hfx)).resolve_left (Ne.symm hvx)
    obtain ⟨l₂, hl₂⟩ : ∃ l₂, l₁.Perm (fx :: l₂) := by
      obtain ⟨s, t, rfl⟩ := List.append_of_mem hfx₁
      exact ⟨s ++ t, List.perm_middle⟩
    have hfw₁ := (List.mem_cons.1 (hl₁.mem_iff.1 hfw)).resolve_left (Ne.symm hvw)
    have hfw₂ := (List.mem_cons.1 (hl₂.mem_iff.1 hfw₁)).resolve_left hwx
    obtain ⟨l₃, hl₃⟩ : ∃ l₃, l₂.Perm (fw :: l₃) := by
      obtain ⟨s, t, rfl⟩ := List.append_of_mem hfw₂
      exact ⟨s ++ t, List.perm_middle⟩
    exact ⟨l₃, (hl₁.trans ((hl₂.trans (hl₃.cons fx)).cons fv)).symm⟩
  have hmoved := row_moved (hdistinct.perm hrest) hfv' hfx' hfw' ((standing_perm hrest).2 hx)
    ((current_perm hrest).2 hw) hid hcoord.symm
  -- the same with the tagging last
  have hlast : (fv :: fw :: rest ++ [fx]).Perm events := by
    refine List.Perm.trans ?_ hrest
    refine (List.perm_append_singleton fx _).trans ?_
    exact (List.Perm.swap fv fx (fw :: rest))
  have hstays := mem_taggings_last (hdistinct.perm hlast) hfx' ((standing_perm hlast).2 hx)
  rw [← (hfree.same _ _ hrest hlast).2.1] at hstays
  have heq : x.point w.eventId = x := TagStore.keys _ _ hmoved _ hstays rfl
  have hids : w.eventId = v.eventId := by
    rw [hid]
    exact congrArg UserTagging.tagEventId heq
  refine hvw (List.inj_on_of_nodup_map hdistinct.ids hfv hfw ?_)
  rw [← (elementRow_data hfv').2.1, ← (elementRow_data hfw').2.1, hids]

/-- What counts for another version than the one it refers to was moved there. -/
theorem sentRefersToCurrent_of_orderFree (hdistinct : Distinct events) (hfree : OrderFree lib events) :
    SentRefersToCurrent lib events := by
  intro x hx v hv hid
  obtain ⟨w, hw, hcoord⟩ := exists_isLatest TagElement.coordinate TagElement.createdAtUnix hv
  by_cases hwv : w = v
  · rwa [hwv] at hw
  obtain ⟨-, hrow⟩ := hfree.counted events (List.Perm.refl _) x hx v hv hid w hw hcoord hwv
  obtain ⟨y, hy, hbare⟩ := exists_standing hdistinct hrow
  have hids' : (bare y).eventId = (bare (x.point w.eventId)).eventId := by rw [hbare]
  obtain rfl : y = x := hdistinct.tagging_eq (taggingsOf_subset hy.1) hx.1 hids'
  -- but nothing is moved
  have hpoint := row_eq hdistinct (refersToCurrent_of_orderFree hdistinct hfree) (List.prefix_refl _)
    _ hrow y hy hbare
  have hids : w.eventId = v.eventId := by
    rw [hid]
    exact congrArg UserTagging.tagEventId hpoint
  exact absurd (hdistinct.element_eq hw.1 hv hids) hwv

/-- The rows that the two orders leave behind. -/
theorem reference_dangles {fv fx fw : Event} (hdistinct : Distinct [fv, fx, fw]) {x : UserTagging R}
    {v w : TagElement} (hv : elementRow lib fv = some v) (hx : taggingRow lib fx = some x)
    (hw : elementRow lib fw = some w) (hid : v.eventId = x.tagEventId)
    (hcoord : v.coordinate = w.coordinate) (htime : fv.createdAt < fw.createdAt) :
    x.point w.eventId ∈ (TagStore.processAll lib [fv, fx, fw] .empty).taggings ∧
    x ∈ (TagStore.processAll lib [fv, fw, fx] .empty).taggings ∧ ¬ OrderFree lib [fv, fx, fw] := by
  have helements : elementsOf lib [fv, fx, fw] = [v, w] := by
    simp [elementsOf, hv, hw, elementRow_of_tagging hx]
  have htaggings : taggingsOf lib [fv, fx, fw] = [x] := by
    simp [taggingsOf, hx, taggingRow_of_element hv, taggingRow_of_element hw]
  have hlt : v.createdAtUnix < w.createdAtUnix := by
    rwa [(elementRow_data hv).2.2, (elementRow_data hw).2.2]
  have hcurrent : Current lib [fv, fx, fw] w := by
    unfold Current
    rw [helements]
    refine ⟨by simp, fun b hb _ => ?_⟩
    rcases List.mem_cons.1 hb with rfl | hb
    · exact hlt.le
    · rw [List.mem_singleton.1 hb]
  have hstanding : Standing lib [fv, fx, fw] x := by
    unfold Standing
    rw [htaggings]
    refine ⟨List.mem_cons_self, fun b hb _ => ?_⟩
    rw [List.mem_singleton.1 hb]
  have hperm : ([fv, fw] ++ [fx]).Perm [fv, fx, fw] := (List.Perm.swap fx fw []).cons fv
  refine ⟨row_moved hdistinct hv hx hw hstanding hcurrent hid hcoord,
    mem_taggings_last (hdistinct.perm hperm) hx ((standing_perm hperm).2 hstanding), fun hfree => ?_⟩
  have hv' : v ∈ elementsOf lib [fv, fx, fw] := by
    rw [helements]
    exact List.mem_cons_self
  have hvw := hdistinct.current_eq (refersToCurrent_of_orderFree hdistinct hfree x hstanding v hv' hid)
    hcurrent hcoord
  rw [hvw] at hlt
  exact absurd hlt (lt_irrefl _)

end

/-- **The tables do not depend on the order of arrival, and what refers to a replaced
    version counts for the last one, exactly if no tagging that stands refers to a version
    of an element that is replaced: neither among all events, nor among those that the
    tables hold.** -/
theorem order_free_iff (lib : Lib R) (events : List Event) (hdistinct : Distinct events) :
    OrderFree lib events ↔ RefersToCurrent lib events ∧ SentRefersToCurrent lib events :=
  ⟨fun hfree => ⟨refersToCurrent_of_orderFree hdistinct hfree,
    sentRefersToCurrent_of_orderFree hdistinct hfree⟩,
    fun ⟨href, hsent⟩ => orderFree_of_refersToCurrent hdistinct href hsent⟩

/-! ### Small sets of events -/

/-- The content of an element with the slug `x`. -/
def sampleContent : String := "\x7b\"tag\":\x7b\"slug\":\"x\"\x7d\x7d"

/-- A library that can read this content; polarities are whole numbers. -/
def sampleLib : Lib ℤ where
  loads s := if s = sampleContent then some (.dict [("tag", .dict [("slug", .str "x")])]) else none
  float _ := none
  one := 1
  applied p := 1 ≤ p
  disputed p := p ≤ -1

/-- A version of the element `x` of `a`. -/
def sampleElement (id : Char) (createdAt : ℤ) : Event :=
  ⟨sampleKey id, sampleKey 'a', 39999, createdAt, [[.str "z", .str tagZTag]], sampleContent⟩

/-- `b` applies an element to `c`. -/
def sampleTagging (id : Char) (createdAt : ℤ) (d : String) (element : Char) : Event :=
  ⟨sampleKey id, sampleKey 'b', 39999, createdAt, [[.str "z", .str nostrUserTagZTag],
    [.str "p", .str (sampleKey 'c')], [.str "e", .str (sampleKey element)], [.str "d", .str d]], ""⟩

theorem isHex64_sampleKey {c : Char} (hc : isHexDigit c.toLower = true) :
    isHex64 (sampleKey c) = true := by
  simp [isHex64, sampleKey, lower, hc]

theorem sampleKey_ne_empty (c : Char) : sampleKey c ≠ "" := by
  intro h
  have hlist := congrArg String.toList h
  simp [sampleKey] at hlist

theorem sampleKey_injective : Function.Injective sampleKey := by
  intro c d h
  have hlist := congrArg String.toList h
  simpa [sampleKey] using hlist

theorem parse_sampleElement {id : Char} (hid : isHexDigit id.toLower = true) (createdAt : ℤ) :
    parseTagElement sampleLib (sampleElement id createdAt) =
      some ⟨sampleKey id, sampleKey 'a', "x", "x", "", createdAt⟩ := by
  have hz : zTagOf (sampleElement id createdAt) = some tagZTag := by
    simp [zTagOf, firstTagValue, tagValues, sampleElement, isNamed, value?, str?, tagZTag]
  have hjson : firstTagValue (sampleElement id createdAt) "json" = none := by
    simp [firstTagValue, tagValues, sampleElement, isNamed, str?]
  have ha : isHex64 (sampleKey 'a') = true := isHex64_sampleKey (by decide)
  have hslug : notBlank "x" = true := by decide
  unfold parseTagElement
  rw [hz, hjson]
  simp only [sampleElement, isHex64_sampleKey hid, ha, sampleLib, Option.getD_none, ne_eq,
    not_true_eq_false, if_false, if_true, Bool.not_true, Bool.or_self, Bool.false_eq_true]
  rfl

theorem parse_sampleTagging {id element : Char} (hid : isHexDigit id.toLower = true)
    (helement : isHexDigit element.toLower = true) (createdAt : ℤ) {d : String} (hd : d ≠ "") :
    parseUserTagging sampleLib (sampleTagging id createdAt d element) =
      some ⟨sampleKey id, sampleKey 'b', d, sampleKey 'c', sampleKey element, 1, createdAt⟩ := by
  have hz : zTagOf (sampleTagging id createdAt d element) = some nostrUserTagZTag := by
    simp [zTagOf, firstTagValue, tagValues, sampleTagging, isNamed, value?, str?, nostrUserTagZTag]
  have hp : firstTagValue (sampleTagging id createdAt d element) "p" = some (sampleKey 'c') := by
    simp [firstTagValue, tagValues, sampleTagging, isNamed, value?, str?, sampleKey_ne_empty]
  have he : firstTagValue (sampleTagging id createdAt d element) "e" = some (sampleKey element) := by
    simp [firstTagValue, tagValues, sampleTagging, isNamed, value?, str?, sampleKey_ne_empty]
  have hd' : firstTagValue (sampleTagging id createdAt d element) "d" = some d := by
    simp [firstTagValue, tagValues, sampleTagging, isNamed, value?, str?, hd]
  have hpol : firstTagValue (sampleTagging id createdAt d element) "polarity" = none := by
    simp [firstTagValue, tagValues, sampleTagging, isNamed, str?]
  have hb : isHex64 (sampleKey 'b') = true := isHex64_sampleKey (by decide)
  have hc : isHex64 (sampleKey 'c') = true := isHex64_sampleKey (by decide)
  unfold parseUserTagging readPolarity
  rw [hz, hp, he, hd', hpol]
  simp [sampleTagging, isHex64_sampleKey hid, isHex64_sampleKey helement, hb, hc, sampleLib]

theorem row_sampleElement {id : Char} (hid : isHexDigit id.toLower = true) (createdAt : ℤ)
    (hcreated : fitsInteger createdAt = true) : elementRow sampleLib (sampleElement id createdAt) =
      some ⟨sampleKey id, sampleKey 'a', "x", "x", "", createdAt⟩ := by
  have htexts : fitsText "x" = true ∧ fitsText "" = true := ⟨rfl, rfl⟩
  exact elementRow_eq_some.2 ⟨parse_sampleElement hid createdAt, by
    simp [TagElement.fits, htexts, hcreated]⟩

theorem row_sampleTagging {id element : Char} (hid : isHexDigit id.toLower = true)
    (helement : isHexDigit element.toLower = true) (createdAt : ℤ)
    (hcreated : fitsInteger createdAt = true) {d : String} (hd : d ≠ "") (hfits : fitsText d = true) :
    taggingRow sampleLib (sampleTagging id createdAt d element) =
      some ⟨sampleKey id, sampleKey 'b', d, sampleKey 'c', sampleKey element, 1, createdAt⟩ :=
  taggingRow_eq_some.2 ⟨parse_sampleTagging hid helement createdAt hd, by
    simp [UserTagging.fits, hfits, hcreated]⟩

/-- Two versions of an element, a tagging of the second, and one with a time that no row
    holds. -/
def sampleArrivals : List Event := [sampleElement '1' 1, sampleElement '2' 2,
  sampleTagging '3' 3 "d" '2', sampleTagging '4' 3000000000 "late" '2']

/-- A version of the element. -/
def sampleVersion (id : Char) (createdAt : ℤ) : TagElement :=
  ⟨sampleKey id, sampleKey 'a', "x", "x", "", createdAt⟩

/-- A tagging, as a row. -/
def sampleRow (id : Char) (createdAt : ℤ) (d : String) (element : Char) : UserTagging ℤ :=
  ⟨sampleKey id, sampleKey 'b', d, sampleKey 'c', sampleKey element, 1, createdAt⟩

/-- The version that the taggings refer to is the last one. -/
theorem sampleVersions_latest {v : TagElement} (hv : v ∈ [sampleVersion '1' 1, sampleVersion '2' 2])
    (hid : v.eventId = sampleKey '2') : IsLatest TagElement.coordinate TagElement.createdAtUnix
      [sampleVersion '1' 1, sampleVersion '2' 2] v := by
  rcases List.mem_cons.1 hv with rfl | hv
  · exact absurd (sampleKey_injective hid) (by decide)
  · obtain rfl := List.mem_singleton.1 hv
    refine ⟨by simp, fun b hb _ => ?_⟩
    rcases List.mem_cons.1 hb with rfl | hb
    · exact show (1 : ℤ) ≤ 2 by decide
    · rw [List.mem_singleton.1 hb]

/-- In every order one row is left. -/
theorem sampleArrivals_orderFree : Distinct sampleArrivals ∧ OrderFree sampleLib sampleArrivals ∧
    ∀ p, p.Perm sampleArrivals →
      (TagStore.processAll sampleLib p .empty).taggings = {sampleRow '3' 3 "d" '2'} := by
  have hne : ∀ {c d : Char}, c ≠ d → sampleKey c ≠ sampleKey d := fun h => sampleKey_injective.ne h
  have hdistinct : Distinct sampleArrivals := by
    refine ⟨?_, by simp [sampleArrivals, sampleElement, sampleTagging]⟩
    simp [sampleArrivals, sampleElement, sampleTagging, hne]
  have h₁ := parse_sampleElement (show isHexDigit ('1').toLower = true by decide) 1
  have h₂ := parse_sampleElement (show isHexDigit ('2').toLower = true by decide) 2
  have h₃ : parseUserTagging sampleLib (sampleTagging '3' 3 "d" '2') = some (sampleRow '3' 3 "d" '2') :=
    parse_sampleTagging (by decide) (by decide) 3 (by decide)
  have h₄ : parseUserTagging sampleLib (sampleTagging '4' 3000000000 "late" '2') =
      some (sampleRow '4' 3000000000 "late" '2') :=
    parse_sampleTagging (by decide) (by decide) 3000000000 (by decide)
  have helements : elementsSent sampleLib sampleArrivals = [sampleVersion '1' 1, sampleVersion '2' 2] := by
    simp [elementsSent, sampleArrivals, h₁, h₂, parseTagElement_of_tagging h₃,
      parseTagElement_of_tagging h₄, sampleVersion]
  have htaggings : taggingsSent sampleLib sampleArrivals =
      [sampleRow '3' 3 "d" '2', sampleRow '4' 3000000000 "late" '2'] := by
    simp [taggingsSent, sampleArrivals, h₃, h₄, parseUserTagging_of_element h₁,
      parseUserTagging_of_element h₂]
  have helements' : elementsOf sampleLib sampleArrivals = [sampleVersion '1' 1, sampleVersion '2' 2] := by
    rw [elementsOf_eq_filter, helements]
    rfl
  have htaggings' : taggingsOf sampleLib sampleArrivals = [sampleRow '3' 3 "d" '2'] := by
    rw [taggingsOf_eq_filter, htaggings]
    rfl
  have href : RefersToCurrent sampleLib sampleArrivals := by
    intro x hx v hv hid
    unfold Standing at hx
    rw [htaggings'] at hx
    unfold Current
    rw [helements'] at hv ⊢
    rw [List.mem_singleton.1 hx.1] at hid
    exact sampleVersions_latest hv hid
  have hsent : SentRefersToCurrent sampleLib sampleArrivals := by
    intro x hx v hv hid
    unfold StandingSent at hx
    rw [htaggings] at hx
    unfold CurrentSent
    rw [helements] at hv ⊢
    have hrefers : x.tagEventId = sampleKey '2' := by
      rcases List.mem_cons.1 hx.1 with rfl | hx'
      · rfl
      · rw [List.mem_singleton.1 hx']
        rfl
    exact sampleVersions_latest hv (hid.trans hrefers)
  refine ⟨hdistinct, (order_free_iff sampleLib sampleArrivals hdistinct).2 ⟨href, hsent⟩, fun p hp => ?_⟩
  ext u
  rw [mem_taggings (hdistinct.perm hp) (refersToCurrent_perm hp href), standing_perm hp, Standing,
    htaggings', Finset.mem_singleton]
  refine ⟨fun hu => List.mem_singleton.1 hu.1, ?_⟩
  rintro rfl
  refine ⟨List.mem_cons_self, fun b hb _ => ?_⟩
  rw [List.mem_singleton.1 hb]

/-- **A reference that arrives late dangles.**  A tagging of the first version of an
    element refers to the second one if it arrives between the two, and to the first one
    if it arrives after them. -/
theorem late_reference_dangles :
    Distinct [sampleElement '1' 1, sampleTagging '3' 3 "d" '1', sampleElement '2' 2] ∧
    sampleRow '3' 3 "d" '2' ∈ (TagStore.processAll sampleLib
      [sampleElement '1' 1, sampleTagging '3' 3 "d" '1', sampleElement '2' 2] .empty).taggings ∧
    sampleRow '3' 3 "d" '1' ∈ (TagStore.processAll sampleLib
      [sampleElement '1' 1, sampleElement '2' 2, sampleTagging '3' 3 "d" '1'] .empty).taggings ∧
    ¬ OrderFree sampleLib [sampleElement '1' 1, sampleTagging '3' 3 "d" '1', sampleElement '2' 2] := by
  have hdistinct : Distinct [sampleElement '1' 1, sampleTagging '3' 3 "d" '1', sampleElement '2' 2] := by
    have hne : ∀ {c d : Char}, c ≠ d → sampleKey c ≠ sampleKey d := fun h => sampleKey_injective.ne h
    refine ⟨?_, by simp [sampleElement, sampleTagging]⟩
    simp [sampleElement, sampleTagging, hne]
  have hrow : taggingRow sampleLib (sampleTagging '3' 3 "d" '1') = some (sampleRow '3' 3 "d" '1') :=
    row_sampleTagging (by decide) (by decide) 3 rfl (by decide) rfl
  have hdangles := reference_dangles hdistinct
    (row_sampleElement (show isHexDigit ('1').toLower = true by decide) 1 rfl) hrow
    (row_sampleElement (show isHexDigit ('2').toLower = true by decide) 2 rfl) rfl rfl (by decide)
  exact ⟨hdistinct, hdangles⟩

end Tagging

end BrainstormServer
