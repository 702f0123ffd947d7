/-
  A run of `generate_trusted_lists_for_observer` (`app/services/trusted_list_service.py`)
  and the slots it retracts.

  The lists of the dictionary are published first; each marks its slot as current, also
  if publishing it fails.  Then the slots of the signing key are asked for, and those of
  this observer that are not current and not retracted yet are overwritten by an empty
  list.  The author and the slug of such a list are read from the slot's own `d` tag.

  `retractions_exact`: of the events that are sent, those with the mark of a retraction have
  the `d` tags of the stale slots, each once; the others are the lists of the dictionary.
-/
import BrainstormServer.TrustedList.Build
import BrainstormServer.Tagging.Order
import Mathlib.Data.Rat.Floor

namespace BrainstormServer

namespace TrustedList

open Nostr Tagging

/-- `RETRACTION_SCAN_LIMIT`. -/
def retractionScanLimit : ℕ := 500

/-- `s.startswith(p)`. -/
def startsWith (s p : String) : Bool := p.toList.isPrefixOf s.toList

/-! ## What the relay holds -/

/-- The value of a `d` tag. -/
def dValue? (tag : List String) : Option String := if tag.head? = some "d" then tag[1]? else none

/-- The `d` tags of an event. -/
def dTags (tags : List (List String)) : List String := tags.filterMap dValue?

/-- A tag that says that the list is retracted. -/
def isRetractedMarker (tag : List String) : Bool :=
  tag.head? = some "status" ∧ tag[1]? = some "retracted"

/-- A live event of kind 30392, which has one `d` tag or none. -/
structure LiveEvent where
  tags : List (List String)
  one : (dTags tags).length ≤ 1

/-- The slot of a live event. -/
def LiveEvent.dTag (e : LiveEvent) : Option String := (dTags e.tags).head?

/-- The event is a retraction. -/
def LiveEvent.retracted (e : LiveEvent) : Bool := e.tags.any isRetractedMarker

/-- What `_fetch_published_tl_slots` has read of an event after one more tag. -/
def readTag (seen : Option String × Bool) (tag : List String) : Option String × Bool :=
  if tag.head? = some "d" ∧ 2 ≤ tag.length then (tag[1]?, seen.2)
  else if isRetractedMarker tag then (seen.1, true)
  else seen

/-- `d_tag and d_tag.startswith(…)`: a slot of this derivation. -/
def IsTl (d : String) : Prop := d ≠ "" ∧ startsWith d (dTagPrefix ++ "-") = true

instance (d : String) : Decidable (IsTl d) := inferInstanceAs (Decidable (_ ∧ _))

/-- One more event in the dict of `_fetch_published_tl_slots`. -/
def addSlot (slots : List (String × Bool)) (tags : List (List String)) : List (String × Bool) :=
  let seen := tags.foldl readTag (none, false)
  match seen.1 with
  | none => slots
  | some dTag =>
    if IsTl dTag then
      dictSet slots dTag ((slots.lookup dTag).getD true && seen.2)
    else slots

/-- `_fetch_published_tl_slots`, where the relay has the events `live` of the signing key;
    the filter's limit cuts them off. -/
def fetchPublishedTlSlots (live : List LiveEvent) : List (String × Bool) :=
  (live.take retractionScanLimit).foldl (fun slots e => addSlot slots e.tags) []

/-- What the slots of an observer begin with. -/
def ownStart (observer : Pubkey) : String := dTagPrefix ++ "-" ++ first8 observer ++ "-"

/-- `_parse_d_tag_slug`. -/
def parseDTagSlug (dTag : String) (observer : Pubkey) : Option (String × String) :=
  if ¬ startsWith dTag (ownStart observer) then none
  else
    let rest := dTag.toList.drop (ownStart observer).toList.length
    let author8 := rest.takeWhile (· ≠ '-')
    let slug := (rest.dropWhile (· ≠ '-')).drop 1
    if author8 = [] ∨ slug = [] then none else some (String.ofList author8, String.ofList slug)

/-! ## A run -/

/-- What a run meets. -/
structure World (R : Type) where
  lib : Lib R
  floats : Floats R
  /-- `json.dumps` -/
  dumps : PyValue → String
  /-- the tables as the n-th statement of the run reads them -/
  store : ℕ → TagStore R
  /-- the order in which rows come -/
  arrange : Multiset (Pubkey × R × Pubkey) → List (Pubkey × R × Pubkey)
  arrange_eq : ∀ rows, (arrange rows : Multiset (Pubkey × R × Pubkey)) = rows
  /-- `_resolve_rigor` -/
  rigor : R
  /-- `get_qualifying_asserters_for_observer`, with weights -/
  qualifying : Finset Pubkey → List (Pubkey × R)
  /-- the public key of the observer's assistant -/
  signingPubkey : Pubkey
  minTagUses : ℤ
  cutoff : ℤ
  minRank : ℤ
  /-- `_connect` does not raise -/
  connects : Bool
  /-- what the n-th `_publish` raises -/
  fails : ℕ → Option String
  /-- what the relay holds of the signing key when the run asks for it, or what is raised -/
  scan : Except String (List LiveEvent)

/-- `status` of a `TagResult`. -/
inductive Status | published | retracted | failed
  deriving DecidableEq

/-- `EMPTY_REASON_…`. -/
inductive EmptyReason | noTaggings | noQualifyingAsserters | noTagsMetThreshold
  deriving DecidableEq

/-- `TagResult`. -/
structure TagResult where
  slug : String
  dTag : String
  tagEventId : String
  status : Status
  taggingsConsidered : ℕ
  memberCount : ℕ
  error : Option String

/-- `TrustedListRunResult`. -/
structure TrustedListRunResult where
  observer : Pubkey
  signingPubkey : Option Pubkey := none
  taggingsInStore : ℕ := 0
  qualifyingAsserters : ℕ := 0
  dictionarySize : ℕ := 0
  published : ℕ := 0
  failed : ℕ := 0
  retracted : ℕ := 0
  emptyReason : Option EmptyReason := none
  tags : List TagResult := []

/-- An event given to `send_event`. -/
structure SentEvent where
  tags : List (List String)
  content : String

/-- The event says that the list is retracted. -/
def SentEvent.retracted (e : SentEvent) : Bool := e.tags.any isRetractedMarker

/-- The slots at which the event is published. -/
def SentEvent.slots (e : SentEvent) : List String := dTags e.tags

/-- What a run has done so far. -/
structure RunState where
  result : TrustedListRunResult
  currentDTags : Finset String := ∅
  /-- every event it has tried to send -/
  sent : List SentEvent := []

/-- The event `_publish` signs. -/
def signed (tags : List (List String)) (content : String) : SentEvent :=
  ⟨(tags.filter fun t => t.head? ≠ some "client") ++ [["client", "Brainstorm"]], content⟩

/-- `plan_retractions`. -/
def planRetractions (publishedDTags : List String) (currentDTags : Finset String) : List String :=
  publishedDTags.filter (· ∉ currentDTags)

/-- The asserters of a store. -/
def asserters {R : Type} (st : TagStore R) : Finset Pubkey := st.taggings.image (·.asserterPubkey)

section
variable {R : Type} (w : World R) (observer : Pubkey)

/-- The qualifying asserters of the run. -/
def qualifyingOf : List (Pubkey × R) := w.qualifying (asserters (w.store 1))

/-- The dictionary of the run. -/
def dictionaryOf : List DictionaryEntry :=
  (w.store 2).getDictionary w.lib ((qualifyingOf w).map Prod.fst) w.minTagUses

/-- `per_tag_taggings`. -/
def perTagTaggings : List (String × List (Pubkey × R × Pubkey)) :=
  (dictionaryOf w).zipIdx.foldl (fun d e => dictSet d e.1.tagEventId (w.arrange
    ((w.store (3 + e.2)).getTaggingsForTag e.1.tagEventId ((qualifyingOf w).map Prod.fst)))) []

/-- The slot of an entry. -/
def entryDTag (entry : DictionaryEntry) : String :=
  computeDTag observer entry.tagAuthorPubkey entry.slug

/-- One turn of the publishing loop. -/
def publishEntry (s : RunState) (entry : DictionaryEntry) : RunState :=
  let taggings := ((perTagTaggings w).lookup entry.tagEventId).getD []
  let weighted := taggings.map fun row =>
    (row.1, row.2.1, ((qualifyingOf w).lookup row.2.2).getD w.floats.zero)
  let members := computeMembers w.floats weighted w.cutoff w.rigor
  let event := signed (buildTrustedListTags w.floats observer entry.tagEventId entry.tagAuthorPubkey
    entry.slug entry.name entry.description members w.cutoff w.minRank w.rigor false)
    (w.dumps (buildTrustedListContent members))
  let error := w.fails s.sent.length
  { s with
    currentDTags := insert (entryDTag observer entry) s.currentDTags
    sent := s.sent ++ [event]
    result := { s.result with
      published := s.result.published + if error.isNone then 1 else 0
      failed := s.result.failed + if error.isNone then 0 else 1
      tags := s.result.tags ++ [{
        slug := entry.slug
        dTag := entryDTag observer entry
        tagEventId := entry.tagEventId
        status := if error.isNone then .published else .failed
        taggingsConsidered := taggings.length
        memberCount := members.length
        error := error }] } }

/-- The event that retracts a slot. -/
def retractionEvent (author8 slug : String) : SentEvent :=
  signed (buildTrustedListTags w.floats observer "" author8 slug slug "" [] w.cutoff w.minRank
    w.floats.defaultRigor true) ""

/-- One turn of the retraction loop. -/
def retractSlot (slots : List (String × Bool)) (s : RunState) (staleDTag : String) : RunState :=
  if slots.lookup staleDTag = some true then s
  else
    match parseDTagSlug staleDTag observer with
    | none => s
    | some (author8, slug) =>
      let event := retractionEvent w observer author8 slug
      { s with
        sent := s.sent ++ [event]
        result :=
          if (w.fails s.sent.length).isNone then
            { s.result with
              retracted := s.result.retracted + 1
              tags := s.result.tags ++ [⟨slug, staleDTag, "", .retracted, 0, 0, none⟩] }
          else s.result }

/-- The result when the run has read how many taggings there are. -/
def initialResult : TrustedListRunResult where
  observer := observer
  signingPubkey := some w.signingPubkey
  taggingsInStore := (w.store 0).taggings.card

/-- The state before the publishing loop. -/
def beforePublishing : RunState where
  result := { initialResult w observer with
    qualifyingAsserters := (qualifyingOf w).length
    dictionarySize := (dictionaryOf w).length
    emptyReason := if dictionaryOf w = [] then some .noTagsMetThreshold else none }

/-- The state after the publishing loop. -/
def afterPublishing : RunState :=
  (dictionaryOf w).foldl (publishEntry w observer) (beforePublishing w observer)

/-- The retraction pass. -/
def retractStale (live : List LiveEvent) (s : RunState) : RunState :=
  let publishedSlots := fetchPublishedTlSlots live
  (planRetractions (publishedSlots.map Prod.fst) s.currentDTags).foldl
    (retractSlot w observer publishedSlots) s

/-- `generate_trusted_lists_for_observer`; an error is what `_connect` raises. -/
def generateTrustedListsForObserver : Except String RunState :=
  if (w.store 0).taggings.card = 0 then
    .ok { result := { initialResult w observer with emptyReason := some .noTaggings } }
  else if qualifyingOf w = [] then
    .ok { result := { initialResult w observer with emptyReason := some .noQualifyingAsserters } }
  else if ¬ w.connects then .error "could not connect"
  else
    match w.scan with
    | .error _ => .ok (afterPublishing w observer)
    | .ok live => .ok (retractStale w observer live (afterPublishing w observer))

end

/-! ## Reading the slots back -/

/-- The events at a slot. -/
def copies (live : List LiveEvent) (d : String) : List LiveEvent := live.filter fun e => e.dTag = some d

theorem readTags_eq (tags : List (List String)) (seen : Option String × Bool) :
    tags.foldl readTag seen = ((dTags tags).getLast?.or seen.1, seen.2 || tags.any isRetractedMarker) := by
  induction tags generalizing seen with
  | nil => simp [dTags]
  | cons tag tags ih =>
    rw [List.foldl_cons, ih, List.any_cons]
    by_cases hd : tag.head? = some "d"
    · have hmarker : isRetractedMarker tag = false := by simp [isRetractedMarker, hd]
      by_cases hlen : 2 ≤ tag.length
      · obtain ⟨v, hv⟩ : ∃ v, tag[1]? = some v := ⟨_, List.getElem?_eq_getElem (by omega)⟩
        have hvalue : dTags (tag :: tags) = v :: dTags tags := by simp [dTags, dValue?, hd, hv]
        have hread : readTag seen tag = (some v, seen.2) := by simp [readTag, hd, hlen, hv]
        rw [hvalue, hread, hmarker, List.getLast?_cons]
        cases (dTags tags).getLast? <;> simp
      · have hv : tag[1]? = none := List.getElem?_eq_none (by omega)
        have hvalue : dTags (tag :: tags) = dTags tags := by simp [dTags, dValue?, hd, hv]
        have hread : readTag seen tag = seen := by simp [readTag, hlen, hmarker]
        rw [hvalue, hread, hmarker, Bool.false_or]
    · have hvalue : dTags (tag :: tags) = dTags tags := by simp [dTags, dValue?, hd]
      rw [hvalue]
      cases hmarker : isRetractedMarker tag with
      | true => simp [readTag, hd, hmarker]
      | false => simp [readTag, hd, hmarker]

/-- What is read of a live event. -/
theorem readTags_live (e : LiveEvent) : e.tags.foldl readTag (none, false) = (e.dTag, e.retracted) := by
  have hlast : (dTags e.tags).getLast? = (dTags e.tags).head? := by
    have hone := e.one
    cases hd : dTags e.tags with
    | nil => rfl
    | cons d ds =>
      rw [hd, List.length_cons] at hone
      have hnil : ds = [] := List.length_eq_zero_iff.1 (by omega)
      rw [hnil]
      rfl
  rw [readTags_eq, hlast, Option.or_none, Bool.false_or]
  rfl

theorem copies_append_of_eq (es : List LiveEvent) {e : LiveEvent} {d : String} (h : e.dTag = some d) :
    copies (es ++ [e]) d = copies es d ++ [e] := by
  simp [copies, h]

theorem copies_append_of_ne (es : List LiveEvent) {e : LiveEvent} {d : String} (h : e.dTag ≠ some d) :
    copies (es ++ [e]) d = copies es d := by
  simp [copies, h]

/-- **The dict of slots**: each slot of this derivation, with whether all of its events are
    retractions. -/
theorem slots_eq (es : List LiveEvent) :
    ((es.foldl (fun slots e => addSlot slots e.tags) []).map Prod.fst).Nodup ∧
    ∀ d, (es.foldl (fun slots e => addSlot slots e.tags) []).lookup d =
      if IsTl d ∧ copies es d ≠ [] then some ((copies es d).all (·.retracted)) else none := by
  induction es using List.reverseRecOn with
  | nil => exact ⟨List.nodup_nil, fun d => by simp [copies]⟩
  | append_singleton es e ih =>
    obtain ⟨hnodup, hlookup⟩ := ih
    rw [List.foldl_append, List.foldl_cons, List.foldl_nil]
    generalize hslots : es.foldl (fun slots e => addSlot slots e.tags) [] = slots at hnodup hlookup
    unfold addSlot
    rw [readTags_live]
    cases hd : e.dTag with
    | none =>
      refine ⟨hnodup, fun d => ?_⟩
      rw [copies_append_of_ne es (by simp [hd])]
      exact hlookup d
    | some k =>
      dsimp only
      by_cases htl : IsTl k
      · rw [if_pos htl]
        refine ⟨nodup_keys_dictSet k _ hnodup, fun d => ?_⟩
        rw [lookup_dictSet]
        by_cases hdk : d = k
        · subst hdk
          rw [if_pos rfl, copies_append_of_eq es hd, if_pos ⟨htl, by simp⟩, List.all_append, hlookup]
          by_cases hnone : copies es d = []
          · simp [hnone]
          · simp [htl, hnone]
        · rw [if_neg hdk, copies_append_of_ne es (by simp [hd, Ne.symm hdk])]
          exact hlookup d
      · rw [if_neg htl]
        refine ⟨hnodup, fun d => ?_⟩
        by_cases hdk : d = k
        · rw [hlookup, hdk, if_neg fun h => htl h.1, if_neg fun h => htl h.1]
        · rw [copies_append_of_ne es (by simp [hd, Ne.symm hdk])]
          exact hlookup d

/-- The slots that are found, if the limit cuts nothing off. -/
theorem mem_slots {live : List LiveEvent} (hlimit : live.length < retractionScanLimit) (d : String) :
    d ∈ (fetchPublishedTlSlots live).map Prod.fst ↔ IsTl d ∧ ∃ e ∈ live, e.dTag = some d := by
  unfold fetchPublishedTlSlots
  rw [List.take_of_length_le hlimit.le, mem_keys_iff, (slots_eq live).2]
  have hcopies : copies live d ≠ [] ↔ ∃ e ∈ live, e.dTag = some d := by
    simp [copies, List.filter_eq_nil_iff]
  rw [← hcopies]
  split_ifs with h
  · exact ⟨fun _ => h, fun _ => rfl⟩
  · exact ⟨fun hsome => (by cases hsome), fun h' => absurd h' h⟩

/-- Whether a slot that is found is retracted already. -/
theorem slot_retracted {live : List LiveEvent} (hlimit : live.length < retractionScanLimit) {d : String}
    (hmem : d ∈ (fetchPublishedTlSlots live).map Prod.fst) :
    (fetchPublishedTlSlots live).lookup d = some true ↔ ∀ e ∈ live, e.dTag = some d → e.retracted = true := by
  obtain ⟨htl, e, he, hd⟩ := (mem_slots hlimit d).1 hmem
  have hne : copies live d ≠ [] := by
    refine List.ne_nil_of_mem (a := e) (List.mem_filter.2 ⟨he, ?_⟩)
    exact decide_eq_true hd
  unfold fetchPublishedTlSlots
  rw [List.take_of_length_le hlimit.le, (slots_eq live).2, if_pos ⟨htl, hne⟩]
  simp [copies, imp_iff_not_or]

/-! ## Slots and their parts -/

/-- A slot of the observer, for the tag `slug` of `author`. -/
def IsOwn (observer : Pubkey) (d : String) : Prop :=
  ∃ author slug, isHex64 author = true ∧ slug ≠ "" ∧ d = computeDTag observer author slug

theorem startsWith_iff {s p : String} : startsWith s p = true ↔ ∃ r, s.toList = p.toList ++ r := by
  unfold startsWith
  rw [List.isPrefixOf_iff_prefix]
  exact ⟨fun ⟨r, h⟩ => ⟨r, h.symm⟩, fun ⟨r, h⟩ => ⟨r, h.symm⟩⟩

/-- A key has no dash. -/
theorem dash_not_mem {key : String} (h : isHex64 key = true) : '-' ∉ key.toList := by
  intro hmem
  simp only [isHex64, lower, Bool.and_eq_true, String.toList_ofList, List.all_eq_true] at h
  have hdash := h.2 _ (List.mem_map_of_mem hmem)
  exact absurd hdash (by decide)

theorem length_key {key : String} (h : isHex64 key = true) : key.toList.length = 64 := by
  simp only [isHex64, Bool.and_eq_true, decide_eq_true_eq] at h
  exact h.1

theorem takeWhile_dash {l : List Char} (h : '-' ∉ l) (r : List Char) :
    (l ++ '-' :: r).takeWhile (· ≠ '-') = l ∧ (l ++ '-' :: r).dropWhile (· ≠ '-') = '-' :: r := by
  induction l with
  | nil => simp
  | cons c l ih =>
    rw [List.mem_cons, not_or] at h
    have hc : c ≠ '-' := Ne.symm h.1
    obtain ⟨ht, hd⟩ := ih h.2
    rw [List.cons_append, List.takeWhile_cons_of_pos (by simpa using hc),
      List.dropWhile_cons_of_pos (by simpa using hc), ht, hd]
    exact ⟨rfl, rfl⟩

/-- **Reading a slot** gives the author, cut to eight characters, and the slug. -/
theorem parseDTagSlug_computeDTag (observer : Pubkey) {author slug : String} (ha : isHex64 author = true)
    (hs : slug ≠ "") : parseDTagSlug (computeDTag observer author slug) observer = some (first8 author, slug) := by
  have hlist : (computeDTag observer author slug).toList =
      (ownStart observer).toList ++ ((first8 author).toList ++ '-' :: slug.toList) := by
    rw [toList_computeDTag, List.append_assoc]
    rfl
  have hstart : startsWith (computeDTag observer author slug) (ownStart observer) = true :=
    startsWith_iff.2 ⟨_, hlist⟩
  have hdash : '-' ∉ (first8 author).toList := by
    intro hmem
    rw [first8, String.toList_ofList] at hmem
    exact dash_not_mem ha (List.mem_of_mem_take hmem)
  have hne : (first8 author).toList ≠ [] := by
    intro hnil
    have hlength := congrArg List.length hnil
    rw [first8, String.toList_ofList, List.length_take, length_key ha] at hlength
    simp at hlength
  have hslug : slug.toList ≠ [] := by
    intro hnil
    exact hs (String.toList_injective hnil)
  obtain ⟨htake, hdrop⟩ := takeWhile_dash hdash slug.toList
  unfold parseDTagSlug
  rw [if_neg (not_not.2 hstart), hlist, List.drop_left]
  dsimp only
  rw [htake, hdrop, if_neg]
  · simp
  · rintro (h | h)
    · exact hne h
    · exact hslug h

/-- What is read comes from a slot that begins like the observer's. -/
theorem startsWith_of_parse {d : String} {observer : Pubkey} {parts : String × String}
    (h : parseDTagSlug d observer = some parts) : startsWith d (ownStart observer) = true := by
  unfold parseDTagSlug at h
  split_ifs at h with hstart
  exact hstart

theorem startsWith_of_own {observer : Pubkey} {d : String} (h : IsOwn observer d) :
    startsWith d (ownStart observer) = true := by
  obtain ⟨author, slug, ha, hs, rfl⟩ := h
  exact startsWith_of_parse (parseDTagSlug_computeDTag observer ha hs)

theorem isTl_of_own {observer : Pubkey} {d : String} (h : IsOwn observer d) : IsTl d := by
  obtain ⟨author, slug, -, -, rfl⟩ := h
  constructor
  · intro hempty
    have hlist := congrArg String.toList hempty
    rw [toList_computeDTag] at hlist
    simp at hlist
  · rw [startsWith_iff]
    refine ⟨(first8 observer ++ "-").toList ++ (first8 author).toList ++ '-' :: slug.toList, ?_⟩
    rw [toList_computeDTag]
    simp

/-! ## The loops -/

section
variable {R : Type} (w : World R) (observer : Pubkey)

/-- What the retraction loop sends for a slot. -/
def retraction? (slots : List (String × Bool)) (d : String) : Option SentEvent :=
  if slots.lookup d = some true then none
  else (parseDTagSlug d observer).map fun parts => retractionEvent w observer parts.1 parts.2

theorem retractSlot_sent (slots : List (String × Bool)) (s : RunState) (d : String) :
    (retractSlot w observer slots s d).sent = s.sent ++ (retraction? w observer slots d).toList := by
  unfold retractSlot retraction?
  by_cases hslot : slots.lookup d = some true
  · rw [if_pos hslot, if_pos hslot]
    simp
  · rw [if_neg hslot, if_neg hslot]
    cases parseDTagSlug d observer with
    | none => simp
    | some parts => rfl

/-- A retraction leaves the counts of the publishing loop as they are. -/
theorem retractSlot_counts (slots : List (String × Bool)) (s : RunState) (d : String) :
    (retractSlot w observer slots s d).result.published = s.result.published ∧
      (retractSlot w observer slots s d).result.failed = s.result.failed := by
  unfold retractSlot
  by_cases hslot : slots.lookup d = some true
  · rw [if_pos hslot]
    exact ⟨rfl, rfl⟩
  · rw [if_neg hslot]
    cases parseDTagSlug d observer with
    | none => exact ⟨rfl, rfl⟩
    | some parts =>
      dsimp only
      split_ifs <;> exact ⟨rfl, rfl⟩

theorem retractStale_counts (live : List LiveEvent) (s : RunState) :
    (retractStale w observer live s).result.published = s.result.published ∧
      (retractStale w observer live s).result.failed = s.result.failed := by
  rw [retractStale]
  generalize planRetractions ((fetchPublishedTlSlots live).map Prod.fst) s.currentDTags = ds
  induction ds generalizing s with
  | nil => exact ⟨rfl, rfl⟩
  | cons d ds ih =>
    rw [List.foldl_cons, (ih _).1, (ih _).2]
    exact retractSlot_counts w observer _ s d

/-- The retraction loop. -/
theorem retractAll_sent (slots : List (String × Bool)) (ds : List String) (s : RunState) :
    (ds.foldl (retractSlot w observer slots) s).sent =
      s.sent ++ ds.filterMap (retraction? w observer slots) := by
  induction ds generalizing s with
  | nil => simp
  | cons d ds ih =>
    rw [List.foldl_cons, ih, retractSlot_sent, List.append_assoc, List.filterMap_cons]
    cases retraction? w observer slots d <;> rfl

/-- The publishing loop: every entry's slot is current, whether or not it was published. -/
theorem publishAll_current (entries : List DictionaryEntry) (s : RunState) (d : String) :
    d ∈ (entries.foldl (publishEntry w observer) s).currentDTags ↔
      d ∈ s.currentDTags ∨ d ∈ entries.map (entryDTag observer) := by
  induction entries generalizing s with
  | nil => simp
  | cons entry entries ih =>
    rw [List.foldl_cons, ih, publishEntry, Finset.mem_insert, List.map_cons, List.mem_cons]
    tauto

/-- A list is sent at the slot of its entry, and not as a retraction. -/
theorem publishEntry_sent (s : RunState) (entry : DictionaryEntry) :
    ∃ e, (publishEntry w observer s entry).sent = s.sent ++ [e] ∧
      e.slots = [entryDTag observer entry] ∧ e.retracted = false := by
  refine ⟨_, rfl, ?_, ?_⟩
  · simp [SentEvent.slots, signed, buildTrustedListTags, dTags, dValue?, entryDTag,
      List.filterMap_eq_nil_iff]
  · simp [SentEvent.retracted, signed, buildTrustedListTags, isRetractedMarker]

theorem publishAll_sent (entries : List DictionaryEntry) (s : RunState) :
    ∃ es, (entries.foldl (publishEntry w observer) s).sent = s.sent ++ es ∧
      es.map SentEvent.slots = entries.map (fun entry => [entryDTag observer entry]) ∧
      ∀ e ∈ es, e.retracted = false := by
  induction entries generalizing s with
  | nil => exact ⟨[], by simp⟩
  | cons entry entries ih =>
    obtain ⟨e, hsent, hslots, hmark⟩ := publishEntry_sent w observer s entry
    obtain ⟨es, hsents, hes, hmarks⟩ := ih (publishEntry w observer s entry)
    refine ⟨e :: es, ?_, ?_, ?_⟩
    · rw [List.foldl_cons, hsents, hsent, List.append_assoc]
      rfl
    · rw [List.map_cons, List.map_cons, hslots, hes]
    · rintro e' (_ | ⟨_, he'⟩)
      · exact hmark
      · exact hmarks e' he'

/-- A retraction is sent at the slot that its parts make, and says that it is one. -/
theorem retractionEvent_slots (author8 slug : String) :
    (retractionEvent w observer author8 slug).slots = [computeDTag observer author8 slug] ∧
    (retractionEvent w observer author8 slug).retracted = true := by
  simp [SentEvent.slots, SentEvent.retracted, retractionEvent, signed, buildTrustedListTags, dTags,
    dValue?, retractedMarker, isRetractedMarker]

variable {w observer} in
theorem retraction?_some {slots : List (String × Bool)} {d : String} {e : SentEvent}
    (h : retraction? w observer slots d = some e) :
    slots.lookup d ≠ some true ∧ startsWith d (ownStart observer) = true ∧ e.retracted = true := by
  unfold retraction? at h
  split_ifs at h with hslot
  obtain ⟨parts, hparts, rfl⟩ := Option.map_eq_some_iff.1 h
  exact ⟨hslot, startsWith_of_parse hparts, (retractionEvent_slots w observer _ _).2⟩

variable {observer} in
/-- A slot of the observer that is not retracted is overwritten at its own `d` tag. -/
theorem retraction?_of_own {slots : List (String × Bool)} {d : String} (hown : IsOwn observer d)
    (hslot : slots.lookup d ≠ some true) :
    ∃ e, retraction? w observer slots d = some e ∧ e.slots = [d] := by
  obtain ⟨author, slug, ha, hs, rfl⟩ := hown
  refine ⟨retractionEvent w observer (first8 author) slug, ?_, ?_⟩
  · rw [retraction?, if_neg hslot, parseDTagSlug_computeDTag observer ha hs]
    rfl
  · rw [(retractionEvent_slots w observer (first8 author) slug).1, computeDTag_first8]

/-- The retractions, where every slot that gets one is the observer's. -/
theorem retractions_slots (slots : List (String × Bool)) (ds : List String)
    (hown : ∀ d ∈ ds, (retraction? w observer slots d).isSome → IsOwn observer d) :
    (ds.filterMap (retraction? w observer slots)).map SentEvent.slots =
      (ds.filter fun d => (retraction? w observer slots d).isSome).map ([·]) := by
  induction ds with
  | nil => rfl
  | cons d ds ih =>
    have hds := ih fun d' hd' => hown d' (List.mem_cons_of_mem _ hd')
    cases hd : retraction? w observer slots d with
    | none => simpa [hd] using hds
    | some e =>
      have hmine : IsOwn observer d := hown d List.mem_cons_self (by rw [hd]; rfl)
      obtain ⟨e', he', hslots⟩ := retraction?_of_own w hmine (retraction?_some hd).1
      rw [hd] at he'
      cases he'
      simp [hd, hslots, hds]

/-- The slots that the retraction pass looks at. -/
theorem mem_stale {live : List LiveEvent} (hlimit : live.length < retractionScanLimit) (d : String) :
    d ∈ planRetractions ((fetchPublishedTlSlots live).map Prod.fst)
        (afterPublishing w observer).currentDTags ↔
      (IsTl d ∧ ∃ e ∈ live, e.dTag = some d) ∧ d ∉ (dictionaryOf w).map (entryDTag observer) := by
  have hcurrent := publishAll_current w observer (dictionaryOf w) (beforePublishing w observer) d
  rw [planRetractions, List.mem_filter, mem_slots hlimit, decide_eq_true_eq, afterPublishing, hcurrent]
  simp [beforePublishing]

/-- **What a run sends**: the lists of the dictionary, and then what the retraction loop
    sends for the slots it looks at. -/
theorem retractStale_sent (live : List LiveEvent) :
    ∃ es, (retractStale w observer live (afterPublishing w observer)).sent =
        es ++ (planRetractions ((fetchPublishedTlSlots live).map Prod.fst)
          (afterPublishing w observer).currentDTags).filterMap
            (retraction? w observer (fetchPublishedTlSlots live)) ∧
      es.map SentEvent.slots = (dictionaryOf w).map (fun entry => [entryDTag observer entry]) ∧
      ∀ e ∈ es, e.retracted = false := by
  obtain ⟨es, hsent, hslots, hmark⟩ :=
    publishAll_sent w observer (dictionaryOf w) (beforePublishing w observer)
  refine ⟨es, ?_, hslots, hmark⟩
  rw [retractStale, retractAll_sent, afterPublishing, hsent]
  rfl

end

/-- Where nothing ends it before, a run publishes the lists and then retracts. -/
theorem generate_eq {R : Type} (w : World R) (observer : Pubkey) {live : List LiveEvent}
    (hstore : (w.store 0).taggings.Nonempty) (hqualifying : qualifyingOf w ≠ [])
    (hconnects : w.connects = true) (hscan : w.scan = .ok live) :
    generateTrustedListsForObserver w observer =
      .ok (retractStale w observer live (afterPublishing w observer)) := by
  unfold generateTrustedListsForObserver
  rw [if_neg (Finset.card_ne_zero.2 hstore), if_neg hqualifying, if_neg (not_not.2 hconnects), hscan]

/-- **Retraction hits exactly the stale slots**, each once and at its own `d` tag, whatever
    fails: these are the slots of the events sent with the mark of a retraction.  All other
    events are the lists of the dictionary. -/
theorem retractions_exact {R : Type} (w : World R) (observer : Pubkey) (live : List LiveEvent)
    (hstore : (w.store 0).taggings.Nonempty) (hqualifying : qualifyingOf w ≠ [])
    (hconnects : w.connects = true) (hscan : w.scan = .ok live)
    (hlimit : live.length < retractionScanLimit)
    (hown : ∀ e ∈ live, ∀ d, e.dTag = some d → startsWith d (ownStart observer) = true →
      IsOwn observer d) :
    ∃ (s : RunState) (stale : List String), generateTrustedListsForObserver w observer = .ok s ∧
      (s.sent.filter (·.retracted)).map SentEvent.slots = stale.map ([·]) ∧
      (s.sent.filter fun e => !e.retracted).map SentEvent.slots =
        (dictionaryOf w).map (fun entry => [entryDTag observer entry]) ∧
      stale.Nodup ∧
      ∀ d, d ∈ stale ↔
        IsOwn observer d ∧ (∃ e ∈ live, e.dTag = some d ∧ e.retracted = false) ∧
          d ∉ (dictionaryOf w).map (entryDTag observer) := by
  have hrun := generate_eq w observer hstore hqualifying hconnects hscan
  obtain ⟨es, hsent, hslots, hlists⟩ := retractStale_sent w observer live
  have hstale := mem_stale w observer hlimit
  set looked := planRetractions ((fetchPublishedTlSlots live).map Prod.fst)
    (afterPublishing w observer).currentDTags
  set send := retraction? w observer (fetchPublishedTlSlots live)
  have howned : ∀ d ∈ looked, (send d).isSome → IsOwn observer d := by
    intro d hd hsome
    obtain ⟨r, hr⟩ := Option.isSome_iff_exists.1 hsome
    obtain ⟨⟨-, e, he, hde⟩, -⟩ := (hstale d).1 hd
    exact hown e he d hde (retraction?_some hr).2.1
  have hmarked : ∀ e ∈ looked.filterMap send, e.retracted = true := by
    intro e he
    obtain ⟨d, -, hd⟩ := List.mem_filterMap.1 he
    exact (retraction?_some hd).2.2
  refine ⟨_, looked.filter (fun d => (send d).isSome), hrun, ?_, ?_, ?_, fun d => ?_⟩
  · rw [hsent, List.filter_append, List.filter_eq_nil_iff.2 (by simpa using hlists),
      List.filter_eq_self.2 hmarked, List.nil_append]
    exact retractions_slots w observer _ looked howned
  · rw [hsent, List.filter_append, List.filter_eq_self.2 (by simpa using hlists),
      List.filter_eq_nil_iff.2 (by simpa using hmarked), List.append_nil, hslots]
  · exact (List.Nodup.filter _ (slots_eq _).1).filter _
  · rw [List.mem_filter]
    constructor
    · rintro ⟨hd, hsome⟩
      obtain ⟨r, hr⟩ := Option.isSome_iff_exists.1 hsome
      obtain ⟨⟨htl, hlive⟩, hnot⟩ := (hstale d).1 hd
      refine ⟨howned d hd hsome, ?_, hnot⟩
      by_contra hall
      refine (retraction?_some hr).1 ((slot_retracted hlimit ((mem_slots hlimit d).2 ⟨htl, hlive⟩)).2 ?_)
      intro e he hde
      by_contra hfalse
      exact hall ⟨e, he, hde, Bool.eq_false_iff.2 hfalse⟩
    · rintro ⟨hd, ⟨e, he, hde, hfalse⟩, hnot⟩
      have htl := isTl_of_own hd
      refine ⟨(hstale d).2 ⟨⟨htl, e, he, hde⟩, hnot⟩, ?_⟩
      have hslot : (fetchPublishedTlSlots live).lookup d ≠ some true := by
        intro htrue
        have hall := (slot_retracted hlimit ((mem_slots hlimit d).2 ⟨htl, e, he, hde⟩)).1 htrue
        rw [hall e he hde] at hfalse
        cases hfalse
      obtain ⟨e', hr, -⟩ := retraction?_of_own w hd hslot
      exact Option.isSome_iff_exists.2 ⟨e', hr⟩

/-! ### A small run -/

/-- Fractions, with powers for whole exponents. -/
def sampleFloats : Floats ℚ where
  zero := 0
  one := 1
  half := 1 / 2
  hundred := 100
  add := (· + ·)
  sub := (· - ·)
  mul := (· * ·)
  div := (· / ·)
  pow x y := x ^ y.num.toNat
  max := max
  isZero x := x = 0
  floor x := ⌊x⌋
  isApplied x := 1 / 2 ≤ x
  isDisputed x := x ≤ -1 / 2
  format6 _ := "0.500000"
  defaultRigor := 1 / 2

/-- A live event with a slot, retracted or not. -/
def sampleLive (d : String) (retracted : Bool) : LiveEvent where
  tags := ["d", d] :: if retracted then [retractedMarker] else []
  one := by cases retracted <;> simp [dTags, dValue?, retractedMarker]

/-- A tag of `a`. -/
def sampleElement (c : Char) (slug : String) : TagElement :=
  ⟨sampleKey c, sampleKey 'a', slug, slug, "", 1⟩

/-- `b` uses a tag for `c`. -/
def sampleTagging (c : Char) (d : String) : UserTagging ℚ :=
  ⟨sampleKey '3', sampleKey 'b', d, sampleKey 'c', sampleKey c, 1, 3⟩

/-- The slot of `0` for a tag of `a`. -/
def sampleSlot (slug : String) : String := computeDTag (sampleKey '0') (sampleKey 'a') slug

/-- What the relay holds: a list that is kept, one that cannot be sent again, one whose tag
    is gone, one that is retracted, one of another observer and one of another derivation. -/
def sampleScan : List LiveEvent :=
  [sampleLive (sampleSlot "kept") false, sampleLive (sampleSlot "unsent-again") false,
    sampleLive (sampleSlot "old-tag") false,
    sampleLive (computeDTag (sampleKey '0') (sampleKey 'b') "gone") true,
    sampleLive (computeDTag (sampleKey '1') (sampleKey 'a') "x") false,
    sampleLive "tl-pin-1" false]

/-- Two tags that are used; the second list cannot be sent. -/
noncomputable def sampleWorld : World ℚ where
  lib := ⟨fun _ => none, fun _ => none, 1, fun x => 1 / 2 ≤ x, fun x => x ≤ -1 / 2⟩
  floats := sampleFloats
  dumps _ := ""
  store _ := {
    elements := {sampleElement '1' "kept", sampleElement '2' "unsent-again"}
    taggings := {sampleTagging '1' "d", sampleTagging '2' "e"}
    coordinates := by unfold Conc.Latest.Keyed; decide +kernel
    eventIds := by unfold Conc.Latest.Keyed; decide +kernel
    keys := by unfold Conc.Latest.Keyed; decide +kernel }
  arrange := Multiset.toList
  arrange_eq := Multiset.coe_toList
  rigor := 1 / 2
  qualifying keys := if sampleKey 'b' ∈ keys then [(sampleKey 'b', 1)] else []
  signingPubkey := sampleKey 'e'
  minTagUses := 1
  cutoff := 1
  minRank := 3
  connects := true
  fails n := if n = 1 then some "refused" else none
  scan := .ok sampleScan

theorem sampleLive_dTag (d : String) (r : Bool) :
    (sampleLive d r).dTag = some d ∧ (sampleLive d r).retracted = r := by
  cases r <;>
    simp [sampleLive, LiveEvent.dTag, LiveEvent.retracted, dTags, dValue?, isRetractedMarker, retractedMarker]

theorem sampleSlot_own {slug : String} (hslug : slug ≠ "") : IsOwn (sampleKey '0') (sampleSlot slug) :=
  ⟨sampleKey 'a', slug, isHex64_sampleKey (by decide), hslug, rfl⟩

/-- The two slots that are not the observer's. -/
theorem sampleScan_others :
    startsWith (computeDTag (sampleKey '1') (sampleKey 'a') "x") (ownStart (sampleKey '0')) ≠ true ∧
      startsWith "tl-pin-1" (ownStart (sampleKey '0')) ≠ true := by
  simp only [startsWith, ownStart, computeDTag, first8, sampleKey, String.toList_append, String.toList_ofList,
    List.take_replicate]
  decide +kernel

theorem sampleScan_own : ∀ e ∈ sampleScan, ∀ d, e.dTag = some d →
    startsWith d (ownStart (sampleKey '0')) = true → IsOwn (sampleKey '0') d := by
  intro e he d hd hstart
  simp only [sampleScan, List.mem_cons, List.not_mem_nil, or_false] at he
  rcases he with rfl | rfl | rfl | rfl | rfl | rfl <;> rw [(sampleLive_dTag _ _).1] at hd <;> cases hd
  · exact sampleSlot_own (by decide)
  · exact sampleSlot_own (by decide)
  · exact sampleSlot_own (by decide)
  · exact ⟨sampleKey 'b', "gone", isHex64_sampleKey (by decide), by decide, rfl⟩
  · exact absurd hstart sampleScan_others.1
  · exact absurd hstart sampleScan_others.2

theorem sampleWorld_taggings : (sampleWorld.store 0).taggings.Nonempty :=
  ⟨sampleTagging '1' "d", Finset.mem_insert_self _ _⟩

theorem sampleWorld_qualifying : (qualifyingOf sampleWorld).map Prod.fst = [sampleKey 'b'] := by decide +kernel

theorem sampleWorld_weighs : qualifyingOf sampleWorld ≠ [] := fun h => by
  have hkeys := sampleWorld_qualifying
  rw [h] at hkeys
  cases hkeys

/-- The dictionary: the two tags, each with one use. -/
theorem sampleWorld_dictionary : dictionaryOf sampleWorld =
    [⟨sampleKey '1', sampleKey 'a', "kept", "kept", "", 1⟩,
      ⟨sampleKey '2', sampleKey 'a', "unsent-again", "unsent-again", "", 1⟩] := by
  have hsort : ∀ (a b : DictionaryEntry) (es : Finset DictionaryEntry), a ≤ b → a ≠ b →
      es = {a, b} → es.sort (· ≤ ·) = [a, b] := by
    rintro a b es hle hne rfl
    rw [Finset.sort_insert _ (by simpa using hle) (by simpa using hne), Finset.sort_singleton]
  rw [dictionaryOf, sampleWorld_qualifying, TagStore.getDictionary, if_neg (List.cons_ne_nil _ _)]
  exact hsort _ _ _ (by decide +kernel) (by decide +kernel) (by decide +kernel)

/-- One list is published, one fails, and only the list whose tag is gone is retracted. -/
theorem sampleWorld_retracts : ∃ s, generateTrustedListsForObserver sampleWorld (sampleKey '0') = .ok s ∧
    s.result.published = 1 ∧ s.result.failed = 1 ∧
    (s.sent.filter (·.retracted)).map SentEvent.slots = [[sampleSlot "old-tag"]] ∧
    (s.sent.filter fun e => !e.retracted).map SentEvent.slots =
      [[sampleSlot "kept"], [sampleSlot "unsent-again"]] := by
  obtain ⟨s, stale, hs, hmarked, hlists, hnodup, hstale⟩ :=
    retractions_exact sampleWorld (sampleKey '0') sampleScan sampleWorld_taggings sampleWorld_weighs
      rfl rfl (by decide) sampleScan_own
  rw [sampleWorld_dictionary] at hlists hstale
  have hcounts : s.result.published = 1 ∧ s.result.failed = 1 := by
    rw [generate_eq sampleWorld (sampleKey '0') sampleWorld_taggings sampleWorld_weighs rfl rfl] at hs
    cases hs
    rw [(retractStale_counts _ _ _ _).1, (retractStale_counts _ _ _ _).2, afterPublishing, sampleWorld_dictionary]
    exact ⟨rfl, rfl⟩
  have hold : ∀ d, d ∈ stale ↔ d = sampleSlot "old-tag" := by
    intro d
    rw [hstale]
    constructor
    · rintro ⟨hmine, ⟨e, he, hd, hlive⟩, hnot⟩
      have hstart := startsWith_of_own hmine
      simp only [sampleScan, List.mem_cons, List.not_mem_nil, or_false] at he
      rcases he with rfl | rfl | rfl | rfl | rfl | rfl <;>
        rw [(sampleLive_dTag _ _).1] at hd <;> rw [(sampleLive_dTag _ _).2] at hlive <;> cases hd
      · exact absurd List.mem_cons_self hnot
      · exact absurd (List.mem_cons_of_mem _ List.mem_cons_self) hnot
      · rfl
      · cases hlive
      · exact absurd hstart sampleScan_others.1
      · exact absurd hstart sampleScan_others.2
    · rintro rfl
      refine ⟨sampleSlot_own (by decide), ?_, by simp [entryDTag, sampleSlot, computeDTag]⟩
      exact ⟨sampleLive (sampleSlot "old-tag") false, by simp [sampleScan], sampleLive_dTag _ _⟩
  have honly : stale = [sampleSlot "old-tag"] := by
    refine List.perm_singleton.1 ((List.perm_ext_iff_of_nodup hnodup (List.nodup_singleton _)).2 ?_)
    simpa using hold
  rw [honly] at hmarked
  exact ⟨s, hs, hcounts.1, hcounts.2, hmarked, hlists⟩

end TrustedList

end BrainstormServer
