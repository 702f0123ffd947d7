/-
  The identity of a delivery (`build_dedupe_key`,
  `insert_flash_webhook_event_on_db`).

  The key of a body is made of its subscription, its event and the first of the
  event's discriminators the body carries.  The later ones are not part of it.

  * `dedupeKey_eq_iff`: two keys are equal exactly if these three are;
  * `dedupe_exact_iff`: the key tells two occurrences apart, and the insert drops
    only what was recorded before, exactly if no second discriminator is
    overshadowed by an equal first one;
  * `second_episode_dropped`: two dunning episodes of one subscription, of which
    the second is dropped.
-/
import BrainstormServer.Billing.Receive

namespace BrainstormServer

/-! ## What a key is made of -/

section
variable (py : PyLib)

/-- The subscription a body names: `str(data.get("subscriptionId") or "")`. -/
def subscriptionText (data : PyDict) : String :=
  if (dictGet data "subscriptionId").truthy then py.str (dictGet data "subscriptionId") else ""

/-- A field as text, if the body carries it. -/
def rendered (data : PyDict) (field : String) : Option String :=
  if (dictGet data field).isNone then none else some (py.str (dictGet data field))

/-- The first discriminator a body carries, with its value. -/
def distinguishing (event : String) (data : PyDict) : Option (String × String) :=
  (discriminators event).findSome? fun field => (rendered py data field).map (field, ·)

/-- The key `record_delivery` gives a body. -/
def dedupeKeyOf (rawBody : Bytes) : String :=
  buildDedupeKey py (readBody py rawBody).event (readBody py rawBody).data rawBody

/-- A body of a recognised event, with no colon in its subscription id and with at
    least one of its event's discriminators. -/
structure Keyed (rawBody : Bytes) (event : String) : Prop where
  reads : (readBody py rawBody).event = .str event
  recognised : event ∈ recognisedEvents
  colon : ':' ∉ (subscriptionText py (readBody py rawBody).data).toList
  carries : ∃ field ∈ discriminators event, (rendered py (readBody py rawBody).data field).isSome

/-- Two bodies report the same occurrence: their subscription, their event and every
    discriminator of it agree. -/
structure SameOccurrence (b b' : Bytes) : Prop where
  subscription : subscriptionText py (readBody py b).data = subscriptionText py (readBody py b').data
  event : (readBody py b).event = (readBody py b').event
  fields : ∀ event, (readBody py b).event = .str event → ∀ field ∈ discriminators event,
    rendered py (readBody py b).data field = rendered py (readBody py b').data field

/-- Two bodies of one subscription and one event that carry the same first
    discriminator and differ in the second. -/
def Overshadowed (b b' : Bytes) : Prop :=
  subscriptionText py (readBody py b).data = subscriptionText py (readBody py b').data ∧
  ∃ event first second, (readBody py b).event = .str event ∧ (readBody py b').event = .str event ∧
    discriminators event = [first, second] ∧
    (rendered py (readBody py b).data first).isSome ∧
    rendered py (readBody py b).data first = rendered py (readBody py b').data first ∧
    rendered py (readBody py b).data second ≠ rendered py (readBody py b').data second

end

section
variable {py : PyLib} {b b' : Bytes} {event event' : String}

/-- An event has one discriminator or two. -/
theorem discriminators_cases (h : event ∈ recognisedEvents) :
    (∃ first, discriminators event = [first] ∧ '=' ∉ first.toList) ∨
      ∃ first second, discriminators event = [first, second] ∧
        '=' ∉ first.toList ∧ '=' ∉ second.toList ∧ first ≠ second := by
  simp only [recognisedEvents, List.mem_cons, List.not_mem_nil, or_false] at h
  rcases h with rfl | rfl | rfl | rfl | rfl
  · exact Or.inl ⟨"activatedAt", by decide, by decide⟩
  · exact Or.inr ⟨"invoiceId", "periodNumber", by decide, by decide, by decide, by decide⟩
  · exact Or.inr ⟨"attemptNumber", "firstFailedAt", by decide, by decide, by decide, by decide⟩
  · exact Or.inl ⟨"canceledAt", by decide, by decide⟩
  · exact Or.inl ⟨"expiredAt", by decide, by decide⟩

theorem colon_not_mem_event (h : event ∈ recognisedEvents) : ':' ∉ event.toList := by
  simp only [recognisedEvents, List.mem_cons, List.not_mem_nil, or_false] at h
  rcases h with rfl | rfl | rfl | rfl | rfl
  · decide
  · decide
  · decide
  · decide
  · decide

/-- The loop over the discriminators stops at the first one the body carries. -/
theorem find_carried (data : PyDict) (fields : List String) :
    (fields.findSome? fun field => (rendered py data field).map (field, ·)) =
      (fields.find? fun field => ¬ (dictGet data field).isNone).map
        fun field => (field, py.str (dictGet data field)) := by
  induction fields with
  | nil => rfl
  | cons field fields ih =>
    rw [List.findSome?_cons, List.find?_cons]
    cases hn : (dictGet data field).isNone with
    | true => simpa [rendered, hn] using ih
    | false => simp [rendered, hn]

/-- The key of a body that carries a discriminator. -/
theorem dedupeKeyOf_eq (hstr : ∀ s, py.str (.str s) = s) (h : Keyed py b event) :
    ∃ field value, distinguishing py event (readBody py b).data = some (field, value) ∧
      '=' ∉ field.toList ∧
      (dedupeKeyOf py b).toList = (subscriptionText py (readBody py b).data).toList ++
        ':' :: (event.toList ++ ':' :: (field.toList ++ '=' :: value.toList)) := by
  obtain ⟨carried, hmem, hcarried⟩ := h.carries
  cases hd : distinguishing py event (readBody py b).data with
  | none =>
    have hnone := List.findSome?_eq_none_iff.1 hd carried hmem
    rw [Option.map_eq_none_iff] at hnone
    simp [hnone] at hcarried
  | some found =>
    obtain ⟨field, value⟩ := found
    refine ⟨field, value, rfl, ?_, ?_⟩
    · obtain ⟨field', hfield', hr⟩ := List.exists_of_findSome?_eq_some hd
      obtain ⟨_, -, heq⟩ := Option.map_eq_some_iff.1 hr
      cases heq
      rcases discriminators_cases h.recognised with ⟨first, hds, hfirst⟩ | ⟨first, second, hds, hfirst, hsecond, -⟩
      · rw [hds, List.mem_singleton] at hfield'
        exact hfield' ▸ hfirst
      · rw [hds, List.mem_cons, List.mem_singleton] at hfield'
        rcases hfield' with rfl | rfl
        · exact hfirst
        · exact hsecond
    · rw [distinguishing, find_carried, Option.map_eq_some_iff] at hd
      obtain ⟨field', hfind, heq⟩ := hd
      cases heq
      simp only [dedupeKeyOf, buildDedupeKey, h.reads, hfind, hstr]
      simp [subscriptionText, String.toList_append]

/-- Two keys are equal exactly if the subscription, the event and the first carried
    discriminator are. -/
theorem dedupeKey_eq_iff (hstr : ∀ s, py.str (.str s) = s) (h : Keyed py b event)
    (h' : Keyed py b' event') : dedupeKeyOf py b = dedupeKeyOf py b' ↔
      subscriptionText py (readBody py b).data = subscriptionText py (readBody py b').data ∧
      event = event' ∧
      distinguishing py event (readBody py b).data = distinguishing py event' (readBody py b').data := by
  obtain ⟨field, value, hd, hfield, hkey⟩ := dedupeKeyOf_eq hstr h
  obtain ⟨field', value', hd', hfield', hkey'⟩ := dedupeKeyOf_eq hstr h'
  rw [hd, hd', ← String.toList_inj, hkey, hkey']
  constructor
  · intro heq
    obtain ⟨hs, heq⟩ := append_sep_inj h.colon h'.colon heq
    obtain ⟨he, heq⟩ := append_sep_inj (colon_not_mem_event h.recognised)
      (colon_not_mem_event h'.recognised) heq
    obtain ⟨hf, hv⟩ := append_sep_inj hfield hfield' heq
    exact ⟨String.toList_inj.1 hs, String.toList_inj.1 he,
      by rw [String.toList_inj.1 hf, String.toList_inj.1 hv]⟩
  · rintro ⟨hs, rfl, hf⟩
    cases hf
    rw [hs]

/-- The discriminators agree, as far as the key is concerned, exactly if they all
    do or the first hides a difference in the second. -/
theorem distinguishing_eq_iff (h : Keyed py b event) (h' : Keyed py b' event) :
    distinguishing py event (readBody py b).data = distinguishing py event (readBody py b').data ↔
      (∀ field ∈ discriminators event,
        rendered py (readBody py b).data field = rendered py (readBody py b').data field) ∨
      ∃ first second, discriminators event = [first, second] ∧
        (rendered py (readBody py b).data first).isSome ∧
        rendered py (readBody py b).data first = rendered py (readBody py b').data first ∧
        rendered py (readBody py b).data second ≠ rendered py (readBody py b').data second := by
  obtain ⟨field, hmem, hsome⟩ := h.carries
  obtain ⟨field', hmem', hsome'⟩ := h'.carries
  rcases discriminators_cases h.recognised with
    ⟨first, hds, -⟩ | ⟨first, second, hds, -, -, hne⟩
  · rw [hds, List.mem_singleton] at hmem hmem'
    subst hmem hmem'
    obtain ⟨v, hv⟩ := Option.isSome_iff_exists.1 hsome
    obtain ⟨v', hv'⟩ := Option.isSome_iff_exists.1 hsome'
    simp [distinguishing, hds, hv, hv']
  · rw [hds, List.mem_cons, List.mem_singleton] at hmem hmem'
    cases hf : rendered py (readBody py b).data first with
    | none =>
      cases hf' : rendered py (readBody py b').data first with
      | none =>
        have hs : (rendered py (readBody py b).data second).isSome := by
          rcases hmem with rfl | rfl
          · simp [hf] at hsome
          · exact hsome
        have hs' : (rendered py (readBody py b').data second).isSome := by
          rcases hmem' with rfl | rfl
          · simp [hf'] at hsome'
          · exact hsome'
        obtain ⟨v, hv⟩ := Option.isSome_iff_exists.1 hs
        obtain ⟨v', hv'⟩ := Option.isSome_iff_exists.1 hs'
        simp [distinguishing, hds, hf, hf', hv, hv']
      | some v' =>
        have hdiff : distinguishing py event (readBody py b).data ≠
            distinguishing py event (readBody py b').data := by
          simp only [distinguishing, hds, List.findSome?_cons, hf, hf', Option.map_none,
            Option.map_some, List.findSome?_nil]
          cases rendered py (readBody py b).data second with
          | none => simp
          | some v => simp [hne.symm]
        simp [hdiff, hds, hf, hf']
    | some v =>
      cases hf' : rendered py (readBody py b').data first with
      | none =>
        have hdiff : distinguishing py event (readBody py b).data ≠
            distinguishing py event (readBody py b').data := by
          simp only [distinguishing, hds, List.findSome?_cons, hf, hf', Option.map_none,
            Option.map_some, List.findSome?_nil]
          cases rendered py (readBody py b').data second with
          | none => simp
          | some v => simp [hne]
        simp [hdiff, hds, hf, hf']
      | some v' =>
        by_cases hs : rendered py (readBody py b).data second = rendered py (readBody py b').data second
        · simp [distinguishing, hds, hf, hf', hs]
        · simp [distinguishing, hds, hf, hf', hs]

/-- Equal keys: the same occurrence, or one that is overshadowed. -/
theorem dedupeKey_eq_cases (hstr : ∀ s, py.str (.str s) = s) (h : Keyed py b event)
    (h' : Keyed py b' event') : dedupeKeyOf py b = dedupeKeyOf py b' ↔
      SameOccurrence py b b' ∨ Overshadowed py b b' := by
  rw [dedupeKey_eq_iff hstr h h']
  constructor
  · rintro ⟨hs, rfl, hd⟩
    rcases (distinguishing_eq_iff h h').1 hd with hall | ⟨first, second, hfs⟩
    · refine Or.inl ⟨hs, h.reads.trans h'.reads.symm, fun e he => ?_⟩
      rw [h.reads] at he
      cases he
      exact hall
    · exact Or.inr ⟨hs, event, first, second, h.reads, h'.reads, hfs⟩
  · rintro (hsame | ⟨hs, e, first, second, he, he', hfs⟩)
    · have heq := h.reads.symm.trans (hsame.event.trans h'.reads)
      cases heq
      exact ⟨hsame.subscription, rfl, (distinguishing_eq_iff h h').2 (Or.inl (hsame.fields _ h.reads))⟩
    · cases h.reads.symm.trans he
      cases h'.reads.symm.trans he'
      exact ⟨hs, rfl, (distinguishing_eq_iff h h').2 (Or.inr ⟨first, second, hfs⟩)⟩

theorem not_same_of_overshadowed (h : Overshadowed py b b') : ¬ SameOccurrence py b b' := by
  obtain ⟨-, event, first, second, he, -, hds, -, -, hne⟩ := h
  intro hsame
  exact hne (hsame.fields event he second (by simp [hds]))

end

/-! ## What the insert drops -/

section
variable {S : Type} [DecidableEq S] {s : S} {st st' : Store S}

/-- The rows a session sees were recorded from these bodies, each of them keyed. -/
def RecordedFrom (py : PyLib) (s : S) (st : Store S) (origin : ℕ → Bytes) : Prop :=
  ∀ row ∈ st.events s, row.2.dedupeKey = dedupeKeyOf py (origin row.1) ∧
    ∃ event, Keyed py (origin row.1) event

/-- The insert drops a delivery exactly if a row the session sees has its key. -/
theorem insert_dropped_iff {new : NewWebhookEvent} {ω : Outside} {a : Option ℕ}
    (h : exec s (.insertFlashWebhookEvent new) st ω = some (a, st')) :
    a = none ↔ ∃ row ∈ st.events s, row.2.dedupeKey = new.dedupeKey := by
  simp only [exec] at h
  split_ifs at h with hdup
  · cases h
    simpa [List.any_eq_true] using hdup
  · simp only [Option.map_eq_some_iff, Prod.mk.injEq] at h
    obtain ⟨t, -, rfl, -⟩ := h
    simpa [List.any_eq_true] using hdup

end

/-- **The key of a delivery.**  For two keyed bodies, the keys agree exactly on the
    same occurrence if and only if the first discriminator does not overshadow a
    difference in the second.  The insert drops a delivery only if its occurrence is
    recorded if and only if that is so, or no recorded delivery overshadows it. -/
theorem dedupe_exact_iff (py : PyLib) (hstr : ∀ s, py.str (.str s) = s) :
    (∀ {b b' : Bytes} {event event' : String}, Keyed py b event → Keyed py b' event' →
      ((dedupeKeyOf py b = dedupeKeyOf py b' ↔ SameOccurrence py b b') ↔ ¬ Overshadowed py b b')) ∧
    ∀ {S : Type} [DecidableEq S] {s : S} {st st' : Store S} {origin : ℕ → Bytes} {b : Bytes}
      {event : String} {new : NewWebhookEvent} {ω : Outside} {a : Option ℕ},
      RecordedFrom py s st origin → Keyed py b event → new.dedupeKey = dedupeKeyOf py b →
      exec s (.insertFlashWebhookEvent new) st ω = some (a, st') →
      ((a = none → ∃ row ∈ st.events s, SameOccurrence py (origin row.1) b) ↔
        (∃ row ∈ st.events s, SameOccurrence py (origin row.1) b) ∨
          ∀ row ∈ st.events s, ¬ Overshadowed py (origin row.1) b) := by
  constructor
  · intro b b' event event' h h'
    rw [dedupeKey_eq_cases hstr h h']
    constructor
    · intro hiff hover
      exact not_same_of_overshadowed hover (hiff.1 (Or.inr hover))
    · intro hno
      exact ⟨fun h => h.resolve_right hno, Or.inl⟩
  · intro S _ s st st' origin b event new ω a hrec h hnew hexec
    have hkeys : ∀ row ∈ st.events s, row.2.dedupeKey = new.dedupeKey ↔
        SameOccurrence py (origin row.1) b ∨ Overshadowed py (origin row.1) b := by
      intro row hrow
      obtain ⟨hkey, event', h'⟩ := hrec row hrow
      rw [hkey, hnew]
      exact dedupeKey_eq_cases hstr h' h
    rw [insert_dropped_iff hexec]
    constructor
    · intro hdrop
      by_cases hsome : ∃ row ∈ st.events s, Overshadowed py (origin row.1) b
      · obtain ⟨row, hrow, hover⟩ := hsome
        exact Or.inl (hdrop ⟨row, hrow, (hkeys row hrow).2 (Or.inr hover)⟩)
      · exact Or.inr fun row hrow hover => hsome ⟨row, hrow, hover⟩
    · rintro (hsame | hno) ⟨row, hrow, hkey⟩
      · exact hsame
      · exact ⟨row, hrow, ((hkeys row hrow).1 hkey).resolve_right (hno row hrow)⟩

/-! ## Two dunning episodes -/

/-- A failed charge, with its number within the episode and the episode's start. -/
def pastDueBody (attemptNumber : ℤ) (firstFailedAt : String) : Bytes := ascii <|
  "\x7b\"event\": \"subscription.past_due\", \"data\": \x7b\"subscriptionId\": \"sub_1\", \"attemptNumber\": "
    ++ toString attemptNumber ++ ", \"firstFailedAt\": \"" ++ firstFailedAt ++ "\"\x7d\x7d"

/-- The same as `json.loads` reads it. -/
def pastDuePayload (attemptNumber : ℤ) (firstFailedAt : String) : PyValue :=
  .dict [("event", .str "subscription.past_due"),
    ("data", .dict [("subscriptionId", .str "sub_1"), ("attemptNumber", .int attemptNumber),
      ("firstFailedAt", .str firstFailedAt)])]

def januaryFirst : Bytes := pastDueBody 1 "2025-01-01"
def januarySecond : Bytes := pastDueBody 2 "2025-01-01"
def marchFirst : Bytes := pastDueBody 1 "2025-03-01"

/-- The library on these bodies. -/
def dunningLib : PyLib where
  loads rawBody :=
    if rawBody = januaryFirst then some (pastDuePayload 1 "2025-01-01")
    else if rawBody = januarySecond then some (pastDuePayload 2 "2025-01-01")
    else if rawBody = marchFirst then some (pastDuePayload 1 "2025-03-01")
    else none
  decode _ := ""
  fromisoformat _ := none
  isDate _ := false
  str
    | .str s => s
    | .int n => toString n
    | _ => ""
  sha256 _ := ""

/-- The data of such a body. -/
def pastDueData (attemptNumber : ℤ) (firstFailedAt : String) : PyDict :=
  [("subscriptionId", .str "sub_1"), ("attemptNumber", .int attemptNumber),
    ("firstFailedAt", .str firstFailedAt)]

theorem readBody_pastDue {b : Bytes} {n : ℤ} {t : String}
    (h : dunningLib.loads b = some (pastDuePayload n t)) :
    (readBody dunningLib b).event = .str "subscription.past_due" ∧
      (readBody dunningLib b).data = pastDueData n t := by
  unfold readBody
  rw [h]
  exact ⟨rfl, rfl⟩

theorem keyed_pastDue {b : Bytes} {n : ℤ} {t : String}
    (h : dunningLib.loads b = some (pastDuePayload n t)) :
    Keyed dunningLib b "subscription.past_due" := by
  obtain ⟨he, hd⟩ := readBody_pastDue h
  refine ⟨he, by decide, ?_, "attemptNumber", by decide, ?_⟩
  · rw [hd]
    show ':' ∉ "sub_1".toList
    decide
  · rw [hd]
    rfl

/-- The key of such a body has nothing of the episode's start. -/
theorem dedupeKeyOf_pastDue {b : Bytes} {n : ℤ} {t : String}
    (h : dunningLib.loads b = some (pastDuePayload n t)) :
    dedupeKeyOf dunningLib b =
      "sub_1" ++ ":" ++ "subscription.past_due" ++ ":" ++ "attemptNumber" ++ "=" ++ toString n := by
  obtain ⟨he, hd⟩ := readBody_pastDue h
  have hfind : ((discriminators "subscription.past_due").find? fun field =>
      ¬ (dictGet (pastDueData n t) field).isNone) = some "attemptNumber" := rfl
  have hid : (dictGet (pastDueData n t) "subscriptionId").truthy = true := rfl
  unfold dedupeKeyOf buildDedupeKey
  rw [he, hd, if_pos hid]
  dsimp only
  rw [hfind]
  rfl

theorem ascii_append (s t : String) : ascii (s ++ t) = ascii s ++ ascii t := by
  simp [ascii, String.toList_append]

/-- Bodies with different numbers differ: the numbers come after the same text. -/
theorem pastDueBody_ne_of_number {t t' : String} : pastDueBody 2 t ≠ pastDueBody 1 t' := by
  intro h
  simp only [pastDueBody, ascii_append, List.append_assoc, List.append_cancel_left_eq] at h
  have hfirst := congrArg List.head? h
  revert hfirst
  rw [show ascii (toString (2 : ℤ)) = [50] by decide, show ascii (toString (1 : ℤ)) = [49] by decide]
  exact fun hfirst => absurd (Option.some.inj hfirst) (by decide)

/-- Bodies with the same number differ in the start of the episode. -/
theorem pastDueBody_inj {n : ℤ} {t t' : String} (h : pastDueBody n t = pastDueBody n t') :
    ascii t = ascii t' := by
  simpa only [pastDueBody, ascii_append, List.append_assoc, List.append_cancel_left_eq,
    List.append_cancel_right_eq] using h

theorem loads_januaryFirst : dunningLib.loads januaryFirst = some (pastDuePayload 1 "2025-01-01") := by
  dsimp only [dunningLib]
  rw [if_pos rfl]

theorem loads_januarySecond : dunningLib.loads januarySecond = some (pastDuePayload 2 "2025-01-01") := by
  have hfirst : januarySecond ≠ januaryFirst := pastDueBody_ne_of_number
  dsimp only [dunningLib]
  rw [if_neg hfirst, if_pos rfl]

theorem loads_marchFirst : dunningLib.loads marchFirst = some (pastDuePayload 1 "2025-03-01") := by
  have hfirst : marchFirst ≠ januaryFirst := fun h => absurd (pastDueBody_inj h) (by decide)
  have hsecond : marchFirst ≠ januarySecond := pastDueBody_ne_of_number.symm
  dsimp only [dunningLib]
  rw [if_neg hfirst, if_neg hsecond, if_pos rfl]

/-- The second attempt of an episode has a key of its own: the claim's two sides
    agree on the two attempts. -/
theorem second_attempt_told_apart :
    (∀ s, dunningLib.str (.str s) = s) ∧
      (dedupeKeyOf dunningLib januaryFirst = dedupeKeyOf dunningLib januarySecond ↔
        SameOccurrence dunningLib januaryFirst januarySecond) := by
  refine ⟨fun _ => rfl, ((dedupe_exact_iff dunningLib fun _ => rfl).1
    (keyed_pastDue loads_januaryFirst) (keyed_pastDue loads_januarySecond)).2 ?_⟩
  rintro ⟨-, event, first, second, he, -, hds, -, heq, -⟩
  obtain ⟨he', hd⟩ := readBody_pastDue loads_januaryFirst
  obtain ⟨-, hd'⟩ := readBody_pastDue loads_januarySecond
  cases he'.symm.trans he
  have hfirst : first = "attemptNumber" := by
    have hhead := congrArg List.head? hds
    exact (Option.some.inj hhead).symm
  rw [hfirst, hd, hd'] at heq
  revert heq
  decide

/-- **A new dunning episode is taken for the old one.**  The first failure of March
    has the key of the first failure of January, and is not the same occurrence. -/
theorem second_episode_dropped :
    Keyed dunningLib januaryFirst "subscription.past_due" ∧
      Keyed dunningLib marchFirst "subscription.past_due" ∧
      ¬ (dedupeKeyOf dunningLib januaryFirst = dedupeKeyOf dunningLib marchFirst ↔
        SameOccurrence dunningLib januaryFirst marchFirst) := by
  refine ⟨keyed_pastDue loads_januaryFirst, keyed_pastDue loads_marchFirst, fun h => ?_⟩
  obtain ⟨he, hd⟩ := readBody_pastDue loads_januaryFirst
  obtain ⟨-, hd'⟩ := readBody_pastDue loads_marchFirst
  have hkeys := (dedupeKeyOf_pastDue loads_januaryFirst).trans
    (dedupeKeyOf_pastDue loads_marchFirst).symm
  have hsame := h.1 hkeys
  have heq := hsame.fields _ he "firstFailedAt" (by decide)
  rw [hd, hd'] at heq
  revert heq
  decide

end BrainstormServer
