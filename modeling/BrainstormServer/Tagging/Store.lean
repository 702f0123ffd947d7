/-
  The tables of tag elements and taggings (`app/repos/tagging_repo.py`,
  `process_event_kind_39999`).

  Both are tables in which the latest row wins (`Latest.upsert`): elements by their
  coordinate, taggings by asserter and `d` tag.  An element that replaces an older one
  takes over the taggings that refer to it.  What the columns do not hold is refused, and
  leaves the tables as they are: `elementRow` and `taggingRow` are the rows of an event.
-/
import BrainstormServer.Conc.Latest
import BrainstormServer.Postgres
import BrainstormServer.Tagging.Parse
import Mathlib.Data.Finset.Sort
import Mathlib.Data.Prod.Lex
import Mathlib.Data.String.Basic

namespace BrainstormServer

namespace Tagging

open Conc Nostr

variable {R : Type}

/-- The addressable coordinate of an element. -/
def TagElement.coordinate (e : TagElement) : Pubkey × String := (e.authorPubkey, e.slug)

/-- The primary key of a tagging. -/
def UserTagging.key (u : UserTagging R) : Pubkey × String := (u.asserterPubkey, u.dTag)

/-- The columns hold the element; ids and keys are in hexadecimal digits. -/
def TagElement.fits (e : TagElement) : Bool :=
  fitsText e.slug && fitsText e.name && fitsText e.description && fitsInteger e.createdAtUnix

/-- The columns hold the tagging. -/
def UserTagging.fits (u : UserTagging R) : Bool := fitsText u.dTag && fitsInteger u.createdAtUnix

/-- The two tables with their constraints. -/
@[ext]
structure TagStore (R : Type) where
  elements : Finset TagElement
  taggings : Finset (UserTagging R)
  coordinates : Latest.Keyed TagElement.coordinate elements
  eventIds : Latest.Keyed TagElement.eventId elements
  keys : Latest.Keyed UserTagging.key taggings

/-- Nothing has been ingested. -/
def TagStore.empty : TagStore R where
  elements := ∅
  taggings := ∅
  coordinates a ha := by cases ha
  eventIds a ha := by cases ha
  keys a ha := by cases ha

/-- A tagging refers to another event. -/
def UserTagging.point (u : UserTagging R) (id : String) : UserTagging R := { u with tagEventId := id }

variable [DecidableEq R]

namespace TagStore

/-- An element of the table that the new one replaces. -/
def Replaces (st : TagStore R) (e p : TagElement) : Prop :=
  p ∈ st.elements ∧ p.coordinate = e.coordinate ∧ p.eventId ≠ e.eventId ∧
    p.createdAtUnix < e.createdAtUnix

instance (st : TagStore R) (e p : TagElement) : Decidable (st.Replaces e p) :=
  inferInstanceAs (Decidable (_ ∧ _))

/-- The taggings that refer to an element replaced by `e` now refer to `e`. -/
def repoint (st : TagStore R) (e : TagElement) (u : UserTagging R) : UserTagging R :=
  if ∃ p ∈ st.elements, st.Replaces e p ∧ u.tagEventId = p.eventId then u.point e.eventId else u

omit [DecidableEq R] in
theorem repoint_key (st : TagStore R) (e : TagElement) (u : UserTagging R) :
    (st.repoint e u).key = u.key := by
  unfold repoint
  split_ifs <;> rfl

/-- `upsert_tag_element_on_db`; `none` is the error of a value that its column does not
    hold, or the `IntegrityError` of an event id that another coordinate has. -/
def upsertTagElement (st : TagStore R) (e : TagElement) : Option (TagStore R) :=
  if e.fits = false then none
  else if h : ∃ r ∈ st.elements, r.eventId = e.eventId ∧ r.coordinate ≠ e.coordinate then none
  else some {
    elements := Latest.upsert TagElement.coordinate TagElement.createdAtUnix st.elements e
    taggings := st.taggings.image (st.repoint e)
    coordinates := Latest.upsert_keyed st.coordinates
    eventIds := by
      intro a ha b hb hid
      have hmem : ∀ {c}, c ∈ Latest.upsert TagElement.coordinate TagElement.createdAtUnix st.elements e →
          c ∈ st.elements ∨ c = e := by
        intro c hc
        unfold Latest.upsert at hc
        split_ifs at hc
        · rw [Finset.mem_insert, Finset.mem_filter] at hc
          exact hc.symm.imp_left (·.1)
        · exact Or.inl hc
      have hsame : ∀ {c}, c ∈ st.elements → c.eventId = e.eventId → c.coordinate = e.coordinate := by
        intro c hc hce
        by_contra hne
        exact h ⟨c, hc, hce, hne⟩
      rcases hmem ha with ha' | rfl
      · rcases hmem hb with hb' | rfl
        · exact st.eventIds a ha' b hb' hid
        · exact Latest.upsert_keyed st.coordinates a ha b hb (hsame ha' hid)
      · rcases hmem hb with hb' | rfl
        · exact Latest.upsert_keyed st.coordinates a ha b hb (hsame hb' hid.symm).symm
        · rfl
    keys := by
      intro a ha b hb hk
      obtain ⟨u, hu, rfl⟩ := Finset.mem_image.1 ha
      obtain ⟨v, hv, rfl⟩ := Finset.mem_image.1 hb
      rw [repoint_key, repoint_key] at hk
      rw [st.keys u hu v hv hk] }

/-- `upsert_user_tagging_on_db`; `none` is the error of a value that its column does not
    hold. -/
def upsertUserTagging (st : TagStore R) (u : UserTagging R) : Option (TagStore R) :=
  if u.fits then some { st with
    taggings := Latest.upsert UserTagging.key UserTagging.createdAtUnix st.taggings u
    keys := Latest.upsert_keyed st.keys }
  else none

/-- `process_event_kind_39999`; an exception leaves the tables as they are. -/
def process (lib : Lib R) (st : TagStore R) (event : Event) : TagStore R :=
  match parseTagElement lib event with
  | some element => (st.upsertTagElement element).getD st
  | none =>
    match parseUserTagging lib event with
    | some tagging => (st.upsertUserTagging tagging).getD st
    | none => st

/-- All events in the order they come. -/
def processAll (lib : Lib R) (events : List Event) (st : TagStore R) : TagStore R :=
  events.foldl (process lib) st

end TagStore

/-! ## The rows of an event -/

/-- The element of an event, if its table holds it. -/
def elementRow (lib : Lib R) (event : Event) : Option TagElement :=
  (parseTagElement lib event).filter TagElement.fits

/-- The tagging of an event, if its table holds it. -/
def taggingRow (lib : Lib R) (event : Event) : Option (UserTagging R) :=
  (parseUserTagging lib event).filter UserTagging.fits

section
variable {lib : Lib R} {event : Event} {e : TagElement} {u : UserTagging R}

omit [DecidableEq R] in
theorem elementRow_eq_some : elementRow lib event = some e ↔
    parseTagElement lib event = some e ∧ e.fits = true :=
  Option.filter_eq_some_iff

omit [DecidableEq R] in
theorem taggingRow_eq_some : taggingRow lib event = some u ↔
    parseUserTagging lib event = some u ∧ u.fits = true :=
  Option.filter_eq_some_iff

omit [DecidableEq R] in
/-- An event is not both. -/
theorem taggingRow_of_element (h : elementRow lib event = some e) : taggingRow lib event = none := by
  rw [taggingRow, parseUserTagging_of_element (elementRow_eq_some.1 h).1]
  rfl

omit [DecidableEq R] in
theorem elementRow_of_tagging (h : taggingRow lib event = some u) : elementRow lib event = none := by
  rw [elementRow, parseTagElement_of_tagging (taggingRow_eq_some.1 h).1]
  rfl

/-- An event with an element that no row of another coordinate refuses. -/
theorem TagStore.process_element (st : TagStore R) (h : elementRow lib event = some e)
    (haccepts : ¬ ∃ r ∈ st.elements, r.eventId = e.eventId ∧ r.coordinate ≠ e.coordinate) :
    (st.process lib event).elements =
        Latest.upsert TagElement.coordinate TagElement.createdAtUnix st.elements e ∧
      (st.process lib event).taggings = st.taggings.image (st.repoint e) := by
  obtain ⟨hparse, hfits⟩ := elementRow_eq_some.1 h
  simp [process, hparse, upsertTagElement, hfits, haccepts]

theorem TagStore.process_refused (st : TagStore R) (h : elementRow lib event = some e)
    (hrefused : ∃ r ∈ st.elements, r.eventId = e.eventId ∧ r.coordinate ≠ e.coordinate) :
    st.process lib event = st := by
  obtain ⟨hparse, hfits⟩ := elementRow_eq_some.1 h
  simp [process, hparse, upsertTagElement, hrefused]

/-- An event with a tagging. -/
theorem TagStore.process_tagging (st : TagStore R) (h : taggingRow lib event = some u) :
    (st.process lib event).elements = st.elements ∧ (st.process lib event).taggings =
      Latest.upsert UserTagging.key UserTagging.createdAtUnix st.taggings u := by
  obtain ⟨hparse, hfits⟩ := taggingRow_eq_some.1 h
  simp [process, parseTagElement_of_tagging hparse, hparse, upsertUserTagging, hfits]

/-- An event without a row. -/
theorem TagStore.process_none (st : TagStore R) (he : elementRow lib event = none)
    (hu : taggingRow lib event = none) : st.process lib event = st := by
  unfold process
  cases hparse : parseTagElement lib event with
  | some e =>
    have hfits : e.fits = false := by
      by_contra hfits
      rw [elementRow_eq_some.2 ⟨hparse, Bool.eq_true_of_not_eq_false hfits⟩] at he
      cases he
    simp [upsertTagElement, hfits]
  | none =>
    cases hparse' : parseUserTagging lib event with
    | none => rfl
    | some u =>
      have hfits : u.fits = false := by
        by_contra hfits
        rw [taggingRow_eq_some.2 ⟨hparse', Bool.eq_true_of_not_eq_false hfits⟩] at hu
        cases hu
      simp [upsertUserTagging, hfits]

end

/-! ## What is read -/

/-- `DictionaryEntry`. -/
structure DictionaryEntry where
  tagEventId : String
  tagAuthorPubkey : Pubkey
  slug : String
  name : String
  description : String
  uses : ℕ
  deriving DecidableEq

/-- `ORDER BY uses DESC, event_id ASC`; event ids differ, so the rest decides nothing. -/
def DictionaryEntry.sortKey (d : DictionaryEntry) :
    ℕᵒᵈ ×ₗ String ×ₗ Pubkey ×ₗ String ×ₗ String ×ₗ String :=
  toLex (OrderDual.toDual d.uses, toLex (d.tagEventId, toLex (d.tagAuthorPubkey,
    toLex (d.slug, toLex (d.name, d.description)))))

theorem DictionaryEntry.sortKey_injective : Function.Injective DictionaryEntry.sortKey := by
  intro a b h
  cases a
  cases b
  simpa [DictionaryEntry.sortKey, and_comm, and_assoc, and_left_comm] using h

instance : LinearOrder DictionaryEntry :=
  LinearOrder.lift' DictionaryEntry.sortKey DictionaryEntry.sortKey_injective

/-- The qualifying asserters that use an element, for or against. -/
def TagStore.users (lib : Lib R) (st : TagStore R) (qualifyingAsserters : List Pubkey)
    (e : TagElement) : Finset Pubkey :=
  (st.taggings.filter fun u => u.tagEventId = e.eventId ∧ u.asserterPubkey ∈ qualifyingAsserters ∧
    (lib.applied u.polarity = true ∨ lib.disputed u.polarity = true)).image (·.asserterPubkey)

/-- `get_dictionary_on_db`. -/
def TagStore.getDictionary (lib : Lib R) (st : TagStore R) (qualifyingAsserters : List Pubkey)
    (minUses : ℤ) : List DictionaryEntry :=
  if qualifyingAsserters = [] then []
  else (((st.elements.filter fun e => (st.users lib qualifyingAsserters e).Nonempty ∧
      minUses ≤ (st.users lib qualifyingAsserters e).card).image fun e =>
        (⟨e.eventId, e.authorPubkey, e.slug, e.name, e.description,
          (st.users lib qualifyingAsserters e).card⟩ : DictionaryEntry))).sort (· ≤ ·)

/-- `get_taggings_for_tag_on_db`: target, polarity and asserter, in no order. -/
def TagStore.getTaggingsForTag (st : TagStore R) (tagEventId : String)
    (qualifyingAsserters : List Pubkey) : Multiset (Pubkey × R × Pubkey) :=
  if qualifyingAsserters = [] then 0
  else (st.taggings.filter fun u => u.tagEventId = tagEventId ∧
    u.asserterPubkey ∈ qualifyingAsserters).val.map fun u =>
      (u.targetPubkey, u.polarity, u.asserterPubkey)

end Tagging

end BrainstormServer
