/-
  Receiving a delivery (`app/services/flash_webhook_service.py`,
  `parse_flash_timestamp` of `app/core/flash.py`).

  A body that passed verification is to be recorded whatever it holds.  Between
  the bytes and the insert stand `json.loads`, a few lookups without a type and
  the conversion of one timestamp; `PyLib` is the library behind them, whose
  exceptions are those the code expects.

  * `deliveryArgs` is `record_delivery` up to the insert: the column values, or
    the exception that left it;
  * `insert_reached_iff`: the insert is reached with well-typed values exactly if
    the event's time exists in UTC and the subscription id, where there is one,
    is a string;
  * `insertDelivery_records`: well-typed values end as a committed row.
-/
import BrainstormServer.Billing.Alone
import BrainstormServer.Python

namespace BrainstormServer

open Conc Prog

/-! ## Python -/

/-- `datetime.min` and `datetime.max`: the years 1 to 9999. -/
def minDateTime : ℤ := -62135596800 * 1000000
def maxDateTime : ℤ := 253402300800 * 1000000 - 1

def oneDay : ℤ := 86400 * 1000000

/-- A `datetime`: its wall clock, and its `utcoffset()` if it is aware. -/
structure PyDateTime where
  wall : ℤ
  offset : Option ℤ
  wall_ge : minDateTime ≤ wall
  wall_le : wall ≤ maxDateTime
  offset_lt : ∀ o ∈ offset, -oneDay < o ∧ o < oneDay

theorem naive_offset_lt : ∀ o ∈ (none : Option ℤ), -oneDay < o ∧ o < oneDay := nofun

inductive PyExn
  | overflowError
  deriving DecidableEq

/-- The library, as far as the code calls it; `none` is a `ValueError`. -/
structure PyLib where
  /-- `json.loads` -/
  loads : Bytes → Option PyValue
  /-- `bytes.decode(errors="replace")` -/
  decode : Bytes → String
  /-- `datetime.fromisoformat` -/
  fromisoformat : String → Option PyDateTime
  /-- whether `date.fromisoformat` takes the text -/
  isDate : String → Bool
  /-- `str` -/
  str : PyValue → String
  /-- `hashlib.sha256(..).hexdigest()` -/
  sha256 : Bytes → String

/-- `d.astimezone(timezone.utc)` of an aware `d`. -/
def PyDateTime.astimezoneUtc (d : PyDateTime) (offset : ℤ) : Except PyExn PyDateTime :=
  if h : minDateTime ≤ d.wall - offset ∧ d.wall - offset ≤ maxDateTime then
    .ok ⟨d.wall - offset, some 0, h.1, h.2, by decide⟩
  else .error .overflowError

/-- `if parsed.tzinfo is not None: parsed = parsed.astimezone(timezone.utc)`. -/
def inUtc (parsed : PyDateTime) : Except PyExn PyDateTime :=
  match parsed.offset with
  | some offset => parsed.astimezoneUtc offset
  | none => .ok parsed

/-- `d.replace(tzinfo=None)`. -/
def PyDateTime.naive (d : PyDateTime) : PyDateTime :=
  { d with offset := none, offset_lt := naive_offset_lt }

/-- `datetime.combine(d.date(), END_OF_DAY)`. -/
def PyDateTime.endOfDay (d : PyDateTime) : PyDateTime where
  wall := d.wall / oneDay * oneDay + (oneDay - 1)
  offset := none
  wall_ge := by
    have h := d.wall_ge
    unfold minDateTime at *
    unfold oneDay
    omega
  wall_le := by
    have h := d.wall_le
    unfold maxDateTime at *
    unfold oneDay
    omega
  offset_lt := naive_offset_lt

/-- `raw.replace("Z", "+00:00")`. -/
def spellOutZulu (raw : String) : String :=
  String.ofList (raw.toList.flatMap fun c => if c = 'Z' then ['+', '0', '0', ':', '0', '0'] else [c])

section
variable (py : PyLib)

/-- `parse_flash_timestamp`. -/
def parseFlashTimestamp (raw : PyValue) (deadline : Bool) : Except PyExn (Option PyDateTime) :=
  match raw with
  | .str raw =>
    match py.fromisoformat (spellOutZulu raw) with
    | none => .ok none
    | some parsed => do
      let parsed ← inUtc parsed
      let parsed := parsed.naive
      if deadline && py.isDate raw then .ok (some parsed.endOfDay) else .ok (some parsed)
  | _ => .ok none

/-! ## The body -/

/-- `MALFORMED_EVENT`. -/
def malformedEvent : String := "_malformed"

/-- `_DISCRIMINATORS`. -/
def discriminators (event : String) : List String :=
  if event = "subscription.activated" then ["activatedAt"]
  else if event = "subscription.renewed" then ["invoiceId", "periodNumber"]
  else if event = "subscription.past_due" then ["attemptNumber", "firstFailedAt"]
  else if event = "subscription.canceled" then ["canceledAt"]
  else if event = "subscription.expired" then ["expiredAt"]
  else []

/-- The event name of a body: a body without one is recorded as malformed. -/
def eventName (payload : PyDict) : PyValue :=
  match dictGet payload "event" with
  | .str event => if event ≠ "" then .str event else .str malformedEvent
  | _ => .str malformedEvent

/-- What `_read_body` returns. -/
structure Body where
  event : PyValue
  data : PyDict
  payload : PyDict

/-- `_read_body`. -/
def readBody (rawBody : Bytes) : Body :=
  match py.loads rawBody with
  | none => ⟨.str malformedEvent, [], [("_unparseable", .str (py.decode rawBody))]⟩
  | some (.dict payload) => ⟨eventName payload, (dictGet payload "data").asDict, payload⟩
  | some payload => ⟨.str malformedEvent, [], [("_unexpected", payload)]⟩

/-- `DeliveryTarget`, with whatever the payload holds. -/
structure DeliveryTarget where
  externalRef : PyValue
  subscriptionId : PyValue

/-- `delivery_target`. -/
def deliveryTarget (payload : PyDict) : DeliveryTarget :=
  let data := (dictGet payload "data").asDict
  ⟨dictGet data "externalRef", dictGet data "subscriptionId"⟩

/-- `build_dedupe_key`; the event is a string by then. -/
def buildDedupeKey (event : PyValue) (data : PyDict) (rawBody : Bytes) : String :=
  let subscriptionId :=
    if (dictGet data "subscriptionId").truthy then py.str (dictGet data "subscriptionId") else ""
  let key := subscriptionId ++ ":" ++ py.str event ++ ":"
  let fields := match event with
    | .str event => discriminators event
    | _ => []
  match fields.find? fun field => ¬ (dictGet data field).isNone with
  | some field => key ++ field ++ "=" ++ py.str (dictGet data field)
  | none => key ++ "sha256=" ++ py.sha256 rawBody

/-- What `record_delivery` hands to `insert_flash_webhook_event_on_db`. -/
structure DeliveryArgs where
  event : PyValue
  deliveryTimestamp : ℤ
  eventTimestamp : Option PyDateTime
  subscriptionId : PyValue
  payload : PyDict
  dedupeKey : String

/-- `record_delivery` up to the insert. -/
def deliveryArgs (rawBody : Bytes) (deliveryTimestamp : ℤ) : Except PyExn DeliveryArgs := do
  let body := readBody py rawBody
  let target := deliveryTarget body.payload
  let eventTimestamp ← parseFlashTimestamp py (dictGet body.payload "timestamp") false
  .ok ⟨body.event, deliveryTimestamp, eventTimestamp, target.subscriptionId, body.payload,
    buildDedupeKey py body.event body.data rawBody⟩

end

/-! ## Well-typed columns -/

/-- `None` or a string. -/
def PyValue.IsText (v : PyValue) : Prop := v = .none ∨ ∃ s, v = .str s

/-- The values fit the columns: `event` is a string, `event_timestamp` is `None` or
    naive, `subscription_id` is `None` or a string. -/
structure DeliveryArgs.WellTyped (args : DeliveryArgs) : Prop where
  event : ∃ s, args.event = .str s
  eventTimestamp : ∀ d ∈ args.eventTimestamp, d.offset = none
  subscriptionId : args.subscriptionId.IsText

/-- `raw` is a text that `fromisoformat` reads as `parsed`. -/
def ReadAs (py : PyLib) (raw : PyValue) (text : String) (parsed : PyDateTime) : Prop :=
  raw = .str text ∧ py.fromisoformat (spellOutZulu text) = some parsed

/-- The time a body gives its event, if it gives one that can be read, exists in
    UTC, and the subscription id it gives, if any, is a string. -/
structure Receivable (py : PyLib) (payload : PyDict) : Prop where
  timestamp : ∀ text parsed offset, ReadAs py (dictGet payload "timestamp") text parsed →
    parsed.offset = some offset →
      minDateTime ≤ parsed.wall - offset ∧ parsed.wall - offset ≤ maxDateTime
  subscriptionId : ∀ data, dictGet payload "data" = .dict data → (dictGet data "subscriptionId").IsText

section
variable {py : PyLib}

/-- The event of a body is a string, whatever the body holds. -/
theorem readBody_event (rawBody : Bytes) : ∃ s, (readBody py rawBody).event = .str s := by
  unfold readBody
  split
  · exact ⟨_, rfl⟩
  · unfold eventName
    split
    · split_ifs
      · exact ⟨_, rfl⟩
      · exact ⟨_, rfl⟩
    · exact ⟨_, rfl⟩
  · exact ⟨_, rfl⟩

/-- `astimezone` overflows at the ends of the calendar only. -/
theorem inUtc_isOk {d : PyDateTime} : (∃ d', inUtc d = .ok d') ↔
    ∀ offset, d.offset = some offset →
      minDateTime ≤ d.wall - offset ∧ d.wall - offset ≤ maxDateTime := by
  unfold inUtc
  split
  · rename_i offset ho
    unfold PyDateTime.astimezoneUtc
    split_ifs with h
    · refine ⟨fun _ offset' ho' => ?_, fun _ => ⟨_, rfl⟩⟩
      rw [ho] at ho'
      cases ho'
      exact h
    · exact ⟨by simp, fun h' => absurd (h' offset ho) h⟩
  · rename_i ho
    exact ⟨fun _ offset ho' => by simp [ho] at ho', fun _ => ⟨_, rfl⟩⟩

/-- A parsed timestamp goes to UTC and loses its offset. -/
theorem parseFlashTimestamp_str {text : String} {deadline : Bool} {parsed : PyDateTime}
    (h : py.fromisoformat (spellOutZulu text) = some parsed) :
    parseFlashTimestamp py (.str text) deadline = (inUtc parsed).map fun d =>
      some (if deadline && py.isDate text then d.naive.endOfDay else d.naive) := by
  unfold parseFlashTimestamp
  simp only [h]
  cases inUtc parsed with
  | error e => rfl
  | ok d =>
    show (if deadline && py.isDate text then _ else _) = _
    split_ifs
    · simp [Except.map]
    · simp [Except.map]

theorem parseFlashTimestamp_unread {raw : PyValue} {deadline : Bool}
    (h : ¬ ∃ text parsed, ReadAs py raw text parsed) :
    parseFlashTimestamp py raw deadline = .ok none := by
  cases raw with
  | str text =>
    cases hp : py.fromisoformat (spellOutZulu text) with
    | none => simp [parseFlashTimestamp, hp]
    | some parsed => exact absurd ⟨text, parsed, rfl, hp⟩ h
  | _ => rfl

/-- A timestamp is read unless its time does not exist in UTC. -/
theorem parseFlashTimestamp_isOk {raw : PyValue} {deadline : Bool} :
    (∃ r, parseFlashTimestamp py raw deadline = .ok r) ↔
      ∀ text parsed offset, ReadAs py raw text parsed → parsed.offset = some offset →
        minDateTime ≤ parsed.wall - offset ∧ parsed.wall - offset ≤ maxDateTime := by
  by_cases hread : ∃ text parsed, ReadAs py raw text parsed
  · obtain ⟨text, parsed, rfl, hp⟩ := hread
    rw [parseFlashTimestamp_str hp]
    constructor
    · rintro ⟨r, hr⟩ text' parsed' offset ⟨ht, hp'⟩ ho
      cases ht
      rw [hp] at hp'
      cases hp'
      refine inUtc_isOk.1 ?_ offset ho
      cases hu : inUtc parsed with
      | error e => simp [hu, Except.map] at hr
      | ok d => exact ⟨d, rfl⟩
    · intro hall
      obtain ⟨d, hd⟩ := inUtc_isOk.2 fun offset => hall text parsed offset ⟨rfl, hp⟩
      rw [hd]
      exact ⟨_, rfl⟩
  · exact ⟨fun _ text parsed _ hp => absurd ⟨text, parsed, hp⟩ hread,
      fun _ => ⟨none, parseFlashTimestamp_unread hread⟩⟩

/-- A timestamp that was read is naive. -/
theorem parseFlashTimestamp_naive {raw : PyValue} {deadline : Bool} {r : Option PyDateTime}
    (h : parseFlashTimestamp py raw deadline = .ok r) : ∀ d ∈ r, d.offset = none := by
  by_cases hread : ∃ text parsed, ReadAs py raw text parsed
  · obtain ⟨text, parsed, rfl, hp⟩ := hread
    rw [parseFlashTimestamp_str hp] at h
    cases hu : inUtc parsed with
    | error e => simp [hu, Except.map] at h
    | ok d =>
      simp only [hu, Except.map, Except.ok.injEq] at h
      subst h
      rintro _ ⟨⟩
      split_ifs
      · rfl
      · rfl
  · rw [parseFlashTimestamp_unread hread] at h
    cases h
    simp

/-- The values reach the insert unless the timestamp overflows, and then they are
    those of the body. -/
theorem deliveryArgs_eq (rawBody : Bytes) (t : ℤ) :
    deliveryArgs py rawBody t =
      (parseFlashTimestamp py (dictGet (readBody py rawBody).payload "timestamp") false).map
        fun eventTimestamp => ⟨(readBody py rawBody).event, t, eventTimestamp,
          (deliveryTarget (readBody py rawBody).payload).subscriptionId,
          (readBody py rawBody).payload,
          buildDedupeKey py (readBody py rawBody).event (readBody py rawBody).data rawBody⟩ := by
  unfold deliveryArgs
  dsimp only
  cases parseFlashTimestamp py (dictGet (readBody py rawBody).payload "timestamp") false with
  | error e => rfl
  | ok r => rfl

theorem asDict_subscriptionId {v : PyValue} :
    (dictGet v.asDict "subscriptionId").IsText ↔
      ∀ data, v = .dict data → (dictGet data "subscriptionId").IsText := by
  cases v with
  | dict entries =>
    refine ⟨fun h data hd => ?_, fun h => h entries rfl⟩
    cases hd
    exact h
  | _ => exact ⟨fun _ _ h => by simp at h, fun _ => Or.inl rfl⟩

/-- The insert is reached with well-typed values exactly if the payload that is
    stored is one that can be received. -/
theorem deliveryArgs_wellTyped (rawBody : Bytes) (t : ℤ) :
    (∃ args, deliveryArgs py rawBody t = .ok args ∧ args.WellTyped) ↔
      Receivable py (readBody py rawBody).payload := by
  rw [deliveryArgs_eq]
  constructor
  · rintro ⟨args, hargs, hw⟩
    cases hts : parseFlashTimestamp py (dictGet (readBody py rawBody).payload "timestamp") false with
    | error e => simp [hts, Except.map] at hargs
    | ok r =>
      simp only [hts, Except.map, Except.ok.injEq] at hargs
      subst hargs
      exact ⟨parseFlashTimestamp_isOk.1 ⟨r, hts⟩, asDict_subscriptionId.1 hw.subscriptionId⟩
  · intro h
    obtain ⟨r, hr⟩ := (@parseFlashTimestamp_isOk py _ false).2 h.timestamp
    rw [hr]
    exact ⟨_, rfl, readBody_event rawBody, parseFlashTimestamp_naive hr,
      asDict_subscriptionId.2 h.subscriptionId⟩

/-- What is stored in place of a body that is no object can be received. -/
theorem receivable_single {key : String} {v : PyValue} (ht : "timestamp" ≠ key)
    (hd : "data" ≠ key) : Receivable py [(key, v)] where
  timestamp text parsed offset h := by
    simp [ReadAs, dictGet, List.lookup_cons, List.lookup_nil, beq_false_of_ne ht] at h
  subscriptionId data h := by
    simp [dictGet, List.lookup_cons, List.lookup_nil, beq_false_of_ne hd] at h

/-- **What is received.**  For every body, the insert is reached, and with values
    that fit the columns, if and only if the body is no object, or an object whose
    event time, where it can be read, exists in UTC and whose subscription id,
    where it has one, is a string. -/
theorem insert_reached_iff (py : PyLib) (rawBody : Bytes) (t : ℤ) :
    (∃ args, deliveryArgs py rawBody t = .ok args ∧ args.WellTyped) ↔
      ∀ payload, py.loads rawBody = some (.dict payload) → Receivable py payload := by
  rw [deliveryArgs_wellTyped]
  unfold readBody
  split
  · rename_i hl
    refine ⟨fun _ payload hp => ?_, fun _ => receivable_single (by decide) (by decide)⟩
    rw [hl] at hp
    cases hp
  · rename_i payload hl
    refine ⟨fun h payload' hp => ?_, fun h => h payload hl⟩
    rw [hl] at hp
    cases hp
    exact h
  · rename_i v hv hl
    refine ⟨fun _ payload hp => ?_, fun _ => receivable_single (by decide) (by decide)⟩
    exact absurd (Option.some.inj (hl.symm.trans hp)) (hv payload)

end

/-! ## The row -/

/-- The values as columns of `flash_webhook_event`; the driver takes a string, or a
    naive time, and nothing else.  `data` is what the server will read of the
    stored payload. -/
def DeliveryArgs.columns (args : DeliveryArgs) (data : EventData) : Option NewWebhookEvent :=
  if args.eventTimestamp.all (·.offset.isNone) then
    let eventTimestamp := args.eventTimestamp.map (·.wall)
    match args.event, args.subscriptionId with
    | .str event, .none =>
      some ⟨event, args.deliveryTimestamp, eventTimestamp, none, data, args.dedupeKey, none⟩
    | .str event, .str subscriptionId =>
      some ⟨event, args.deliveryTimestamp, eventTimestamp, some subscriptionId, data,
        args.dedupeKey, none⟩
    | _, _ => none
  else none

theorem DeliveryArgs.WellTyped.columns {args : DeliveryArgs} (h : args.WellTyped) (data : EventData) :
    ∃ new, args.columns data = some new ∧ new.dedupeKey = args.dedupeKey := by
  obtain ⟨event, he⟩ := h.event
  have hts : args.eventTimestamp.all (·.offset.isNone) = true := by
    simpa [Option.all_eq_true] using h.eventTimestamp
  unfold DeliveryArgs.columns
  rw [if_pos hts, he]
  rcases h.subscriptionId with hs | ⟨subscriptionId, hs⟩
  · rw [hs]
    exact ⟨_, rfl, rfl⟩
  · rw [hs]
    exact ⟨_, rfl, rfl⟩

section
variable {S : Type} [DecidableEq S] {s : S} {W : Outside → Prop} {st st' : Store S}

/-- The store has a row of the delivery, as session `s` sees it. -/
def Store.HasDelivery (s : S) (dedupeKey : String) (st : Store S) : Prop :=
  ∃ id ev, st.event.view s id = some ev ∧ ev.dedupeKey = dedupeKey

/-- After the insert there is a row of the delivery, this one's or an earlier one's. -/
theorem exec_insertFlashWebhookEvent {new : NewWebhookEvent} {ω : Outside} {a : Option ℕ}
    (h : exec s (.insertFlashWebhookEvent new) st ω = some (a, st')) :
    st'.HasDelivery s new.dedupeKey := by
  simp only [exec] at h
  split_ifs at h with hdup
  · cases h
    obtain ⟨⟨id, ev⟩, hmem, hkey⟩ := List.any_eq_true.1 hdup
    simp only [Store.events, List.mem_filterMap, Option.map_eq_some_iff, Prod.mk.injEq] at hmem
    obtain ⟨i, -, row, hrow, rfl, rfl⟩ := hmem
    exact ⟨i, row, hrow, of_decide_eq_true hkey⟩
  · simp only [Option.map_eq_some_iff] at h
    obtain ⟨t, ht, h⟩ := h
    cases h
    obtain ⟨-, rfl⟩ := TxTable.update_eq_some.1 ht
    exact ⟨st.eventCount, new.row ω.now, by simp [TxTable.view, TxTable.write], rfl⟩

/-- **Recorded before acknowledged.**  What `record_delivery` is given as
    well-typed values ends as a committed row of that delivery. -/
theorem insertDelivery_records (hs : st.Solo s) {args : DeliveryArgs} (hw : args.WellTyped)
    (data : EventData) : ∃ new, args.columns data = some new ∧
      (insertDelivery new).wp exec s W (fun r st' => (∃ id, r = .ok id) ∧
        ∃ id ev, st'.event.committed id = some ev ∧ ev.dedupeKey = args.dedupeKey) st := by
  obtain ⟨new, hnew, hkey⟩ := hw.columns data
  refine ⟨new, hnew, ?_⟩
  unfold insertDelivery
  refine wp_read hs rfl fun ω now st₁ _ _ hs₁ _ => ?_
  refine wp_op hs₁ fun ω₂ a st₂ _ he₂ hs₂ => ?_
  refine wp_op hs₂ fun ω₃ _ st₃ _ he₃ _ => ⟨⟨a, rfl⟩, ?_⟩
  obtain ⟨id, ev, hview, hev⟩ := exec_insertFlashWebhookEvent he₂
  simp only [exec, Option.some.injEq, Prod.mk.injEq, true_and] at he₃
  subst he₃
  refine ⟨id, ev, ?_, hev.trans hkey⟩
  simpa [Store.commit, TxTable.commit, TxTable.view] using hview

end

/-! ## Two bodies that are not received -/

/-- A text as bytes. -/
def ascii (s : String) : Bytes := s.toList.map fun c => c.toNat.toUInt8

/-- An event dated to the first midnight there is, five hours east of Greenwich. -/
def earlyBody : Bytes := ascii <|
  "\x7b\"event\": \"subscription.activated\", \"timestamp\": \"0001-01-01T00:00:00+05:00\"\x7d"

/-- An event of a subscription whose id is a number. -/
def numberedBody : Bytes := ascii <|
  "\x7b\"event\": \"subscription.activated\", \"data\": \x7b\"subscriptionId\": 42\x7d\x7d"

/-- The library on these two bodies. -/
def sampleLib : PyLib where
  loads rawBody :=
    if rawBody = earlyBody then
      some (.dict [("event", .str "subscription.activated"),
        ("timestamp", .str "0001-01-01T00:00:00+05:00")])
    else if rawBody = numberedBody then
      some (.dict [("event", .str "subscription.activated"),
        ("data", .dict [("subscriptionId", .int 42)])])
    else none
  decode _ := ""
  fromisoformat text :=
    if text = "0001-01-01T00:00:00+05:00" then
      some ⟨minDateTime, some (5 * 3600 * 1000000), by decide, by decide, by decide⟩
    else none
  isDate _ := false
  str _ := "42"
  sha256 _ := ""

/-- **Two bodies Flash may send are not received**: the time of the first is before
    the year 1 in UTC, and the conversion raises; the id of the second reaches the
    insert as a number. -/
theorem unreceivable_bodies :
    deliveryArgs sampleLib earlyBody 0 = .error .overflowError ∧
      (deliveryArgs sampleLib numberedBody 0).isOk = true ∧
      ¬ ∃ args, deliveryArgs sampleLib numberedBody 0 = .ok args ∧ args.WellTyped := by
  refine ⟨by rfl, by rfl, ?_⟩
  rintro ⟨args, hargs, hw⟩
  have hid : Except.map DeliveryArgs.subscriptionId (deliveryArgs sampleLib numberedBody 0) =
      .ok (.int 42) := by rfl
  rw [hargs] at hid
  rcases hw.subscriptionId with h | ⟨text, h⟩
  · simp [Except.map, h] at hid
  · simp [Except.map, h] at hid

end BrainstormServer
