/-
  Tag elements and taggings, both of kind 39999 (`app/services/tagging_parse.py`).

  An element declares a tag at its coordinate (author and slug); a tagging applies the
  tag with a given event id to an account.  The first `z` tag says which of the two an
  event is.
-/
import BrainstormServer.Nostr
import BrainstormServer.Nsec.KeyFile

namespace BrainstormServer

namespace Tagging

open Nostr

/-- `LEGACY_Z_TAG_PUBKEY`. -/
def legacyZTagPubkey : String := "82b75e474dda005e912bcbb910391c60c2b89cc7faf5d3c30b7c59a324973833"

/-- `TAG_Z_TAG`. -/
def tagZTag : String := "39998:" ++ legacyZTagPubkey ++ ":tag"

/-- `NOSTR_USER_TAG_Z_TAG`. -/
def nostrUserTagZTag : String := "39998:" ++ legacyZTagPubkey ++ ":nostr-user-tag"

/-- What is used of the library; `R` are the floats. -/
structure Lib (R : Type) where
  /-- `json.loads`; `none` is a `ValueError` -/
  loads : String → Option PyValue
  /-- `float(s)`; `none` is a `ValueError` -/
  float : String → Option R
  /-- `1.0` -/
  one : R
  /-- `polarity >= APPLY_THRESHOLD` in SQL -/
  applied : R → Bool
  /-- `polarity <= DISPUTE_THRESHOLD` in SQL -/
  disputed : R → Bool

/-- `TagElement`. -/
structure TagElement where
  eventId : String
  authorPubkey : Pubkey
  slug : String
  name : String
  description : String
  createdAtUnix : ℤ
  deriving DecidableEq

/-- `UserTagging`. -/
structure UserTagging (R : Type) where
  eventId : String
  asserterPubkey : Pubkey
  dTag : String
  targetPubkey : Pubkey
  tagEventId : String
  polarity : R
  createdAtUnix : ℤ
  deriving DecidableEq

/-- `_is_hex64`; the value is taken as it is, upper case included. -/
def isHex64 (value : String) : Bool :=
  value.toList.length = 64 && (lower value).toList.all isHexDigit

/-- `_first_tag_value`. -/
def firstTagValue (event : Event) (key : String) : Option String :=
  (tagValues event.tags key).find? (· ≠ "")

/-- `z_tag_of`. -/
def zTagOf (event : Event) : Option String := firstTagValue event "z"

/-- A string with something other than space in it. -/
def notBlank (s : String) : Bool := Nsec.strip s.toList ≠ []

variable {R : Type} (lib : Lib R)

/-- `read_polarity`. -/
def readPolarity (event : Event) : R :=
  match firstTagValue event "polarity" with
  | none => lib.one
  | some raw => (lib.float raw).getD lib.one

/-- `parse_tag_element`. -/
def parseTagElement (event : Event) : Option TagElement :=
  if zTagOf event ≠ some tagZTag then none
  else if !isHex64 event.id || !isHex64 event.pubkey then none
  else
    (lib.loads ((firstTagValue event "json").getD event.content)).bind fun payload =>
    payload.dict?.bind fun payload =>
    (dictGet payload "tag").dict?.bind fun tag =>
    (str? (dictGet tag "slug")).bind fun slug =>
    if notBlank slug then some {
      eventId := event.id
      authorPubkey := event.pubkey
      slug := slug
      name := ((str? (dictGet tag "name")).filter notBlank).getD slug
      description := (str? (dictGet tag "description")).getD ""
      createdAtUnix := event.createdAt }
    else none

/-- `parse_user_tagging`. -/
def parseUserTagging (event : Event) : Option (UserTagging R) :=
  if zTagOf event ≠ some nostrUserTagZTag then none
  else if !isHex64 event.id || !isHex64 event.pubkey then none
  else
    (firstTagValue event "p").bind fun target =>
    (firstTagValue event "e").bind fun tagEventId =>
    if !isHex64 target || !isHex64 tagEventId then none
    else some {
      eventId := event.id
      asserterPubkey := event.pubkey
      dTag := (firstTagValue event "d").getD (target ++ ":" ++ tagEventId)
      targetPubkey := target
      tagEventId := tagEventId
      polarity := readPolarity lib event
      createdAtUnix := event.createdAt }

section
variable {lib} {event : Event}

theorem parseTagElement_data {element : TagElement} (h : parseTagElement lib event = some element) :
    zTagOf event = some tagZTag ∧ element.eventId = event.id ∧
      element.createdAtUnix = event.createdAt := by
  unfold parseTagElement at h
  split_ifs at h with hz hid
  simp only [Option.bind_eq_some_iff] at h
  obtain ⟨_, -, _, -, _, -, slug, -, h⟩ := h
  split_ifs at h
  cases h
  exact ⟨not_not.1 hz, rfl, rfl⟩

theorem parseUserTagging_data {tagging : UserTagging R} (h : parseUserTagging lib event = some tagging) :
    zTagOf event = some nostrUserTagZTag ∧ tagging.eventId = event.id ∧
      tagging.createdAtUnix = event.createdAt := by
  unfold parseUserTagging at h
  split_ifs at h with hz hid
  simp only [Option.bind_eq_some_iff] at h
  obtain ⟨target, -, tagEventId, -, h⟩ := h
  split_ifs at h
  cases h
  exact ⟨not_not.1 hz, rfl, rfl⟩

/-- An event is not both. -/
theorem parseUserTagging_of_element {element : TagElement}
    (h : parseTagElement lib event = some element) : parseUserTagging lib event = none := by
  cases ht : parseUserTagging lib event with
  | none => rfl
  | some tagging =>
    have hz := (parseTagElement_data h).1
    rw [(parseUserTagging_data ht).1] at hz
    simp [tagZTag, nostrUserTagZTag] at hz

theorem parseTagElement_of_tagging {tagging : UserTagging R}
    (h : parseUserTagging lib event = some tagging) : parseTagElement lib event = none := by
  cases he : parseTagElement lib event with
  | none => rfl
  | some element =>
    rw [parseUserTagging_of_element he] at h
    cases h

end

end Tagging

end BrainstormServer
