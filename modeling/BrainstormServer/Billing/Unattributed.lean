/-
  Who is unattributed, asked in SQL and in Python (`_unattributed` of
  `app/repos/flash_webhook_event_repo.py`, `delivery_target` of
  `app/services/flash_webhook_service.py`).

  The admin lists read the reference of a stored delivery with `jsonb`'s operators,
  the entitlement path reads it with Python's `get` and asks whether it is falsy.

  * `unattributed_eq`: the predicate is never null, and says that the reference is
    absent, null or the empty text;
  * `unattributed_agrees_iff`: it is what Python sees exactly if the reference is no
    other falsy value; either way the two lists share out the unapplied events.
-/
import BrainstormServer.Billing.Receive

namespace BrainstormServer

/-! ## `jsonb` -/

/-- `jsonb`'s output function, for what is neither null nor a text. -/
structure JsonbOut where
  text : PyValue → String
  text_ne : ∀ v, text v ≠ ""

/-- `column -> key`: null unless the column holds an object with the key. -/
def jsonbGet (column : Option PyValue) (key : String) : Option PyValue :=
  match column with
  | some (.dict entries) => entries.lookup key
  | _ => none

/-- A `jsonb` value as a text: null has none, and a text is not quoted. -/
def JsonbOut.astext (out : JsonbOut) : PyValue → Option String
  | .none => none
  | .str s => some s
  | v => some (out.text v)

/-- `column ->> key`. -/
def JsonbOut.getText (out : JsonbOut) (column : Option PyValue) (key : String) : Option String :=
  (jsonbGet column key).bind out.astext

/-- `OR` of SQL. -/
def sqlOr (x y : Option Bool) : Option Bool := sqlNot (sqlAnd (sqlNot x) (sqlNot y))

/-! ## The lists -/

/-- A stored delivery, as far as the lists read it. -/
structure InboxRow where
  id : ℕ
  event : String
  createdAt : DateTime
  processedAt : Option DateTime
  processError : Option String
  subscriptionId : Option String
  payload : Option PyDict

/-- The payload column; a row can predate it. -/
def InboxRow.payloadColumn (row : InboxRow) : Option PyValue := row.payload.map .dict

/-- The target of the delivery. -/
def InboxRow.target (row : InboxRow) : DeliveryTarget := deliveryTarget (row.payload.getD [])

/-- A row of `select_unresolved_signups_on_db`. -/
structure UnresolvedSignup where
  id : ℕ
  event : String
  createdAt : DateTime
  processError : Option String
  flashSubscriptionId : Option String
  deriving DecidableEq

/-- A row of `select_unmapped_plan_events_on_db`. -/
structure UnmappedPlanEvent extends UnresolvedSignup where
  externalRef : Option String
  flashServiceId : Option String
  flashPlanId : Option String
  deriving DecidableEq

/-- `ORDER BY created_at DESC LIMIT limit`. -/
def newestFirst (limit : ℕ) (rows : List InboxRow) : List InboxRow :=
  (rows.insertionSort fun row row' => row'.createdAt ≤ row.createdAt).take limit

/-- `_UNAPPLIED`. -/
def unapplied (row : InboxRow) : Option Bool :=
  sqlAnd (some row.processedAt.isNone) (some row.processError.isSome)

def InboxRow.signup (row : InboxRow) : UnresolvedSignup :=
  ⟨row.id, row.event, row.createdAt, row.processError, row.subscriptionId⟩

section
variable (out : JsonbOut)

/-- `_unattributed`. -/
def unattributedCondition (row : InboxRow) : Option Bool :=
  let ref := out.getText (jsonbGet row.payloadColumn "data") "externalRef"
  sqlOr (some ref.isNone) (sqlEq ref "")

/-- The `WHERE` of `select_unresolved_signups_on_db`. -/
def namesNobody (row : InboxRow) : Option Bool :=
  sqlAnd (unapplied row) (unattributedCondition out row)

/-- The `WHERE` of `select_unmapped_plan_events_on_db`. -/
def namesSomebody (row : InboxRow) : Option Bool :=
  sqlAnd (unapplied row) (sqlNot (unattributedCondition out row))

/-- `select_unresolved_signups_on_db`. -/
def selectUnresolvedSignups (limit : ℕ) (rows : List InboxRow) : List UnresolvedSignup :=
  (newestFirst limit (rows.filter (namesNobody out · = some true))).map InboxRow.signup

/-- `select_unmapped_plan_events_on_db`. -/
def selectUnmappedPlanEvents (limit : ℕ) (rows : List InboxRow) : List UnmappedPlanEvent :=
  (newestFirst limit (rows.filter (namesSomebody out · = some true))).map fun row =>
      let data := jsonbGet row.payloadColumn "data"
      { row.signup with
        externalRef := out.getText data "externalRef"
        flashServiceId := out.getText data "serviceId"
        flashPlanId := out.getText data "planId" }

end

/-! ## What the predicate says -/

/-- Absent, null or the empty text. -/
def PyValue.blank : PyValue → Bool
  | .none => true
  | .str s => s = ""
  | _ => false

section
variable {out : JsonbOut} {row : InboxRow}

theorem jsonbGet_bind (v : PyValue) (key : String) :
    (jsonbGet (some v) key).bind out.astext = out.astext (dictGet v.asDict key) := by
  cases v with
  | dict entries =>
    show (entries.lookup key).bind out.astext = out.astext ((entries.lookup key).getD .none)
    cases entries.lookup key <;> rfl
  | _ => rfl

/-- Both sides read the reference at the same place. -/
theorem getText_externalRef :
    out.getText (jsonbGet row.payloadColumn "data") "externalRef" = out.astext row.target.externalRef := by
  unfold JsonbOut.getText InboxRow.target deliveryTarget InboxRow.payloadColumn
  cases row.payload with
  | none => rfl
  | some payload =>
    show (jsonbGet (payload.lookup "data") "externalRef").bind out.astext =
      out.astext (dictGet ((payload.lookup "data").getD .none).asDict "externalRef")
    cases payload.lookup "data" with
    | none => rfl
    | some data => exact jsonbGet_bind data "externalRef"

/-- **The predicate is never null**, and true of what is blank. -/
theorem unattributed_eq : unattributedCondition out row = some row.target.externalRef.blank := by
  unfold unattributedCondition
  rw [getText_externalRef]
  cases row.target.externalRef with
  | none => rfl
  | str s => by_cases hs : s = "" <;> simp [JsonbOut.astext, PyValue.blank, sqlOr, sqlAnd, sqlNot, sqlEq, hs]
  | _ =>
    simp [JsonbOut.astext, PyValue.blank, sqlOr, sqlAnd, sqlNot, sqlEq, out.text_ne]

/-- On a delivery whose reference is a text, the predicate is the one of the typed store. -/
theorem unattributed_typed {ev : FlashWebhookEvent}
    (h : row.target.externalRef = (ev.payload.bind (·.externalRef)).elim .none .str) :
    unattributedCondition out row = some (unattributed ev) := by
  rw [unattributed_eq, h]
  unfold unattributed
  cases ev.payload.bind (·.externalRef) with
  | none => rfl
  | some ref => simp [PyValue.blank]

/-- What is blank is falsy; a falsy value that is not blank is no text. -/
theorem blank_iff_falsy {v : PyValue} :
    (v.blank = true ↔ v.truthy = false) ↔ (v.truthy = true ∨ v.blank = true) := by
  cases v with
  | none => simp [PyValue.blank, PyValue.truthy]
  | str s => by_cases hs : s = "" <;> simp [PyValue.blank, PyValue.truthy, hs]
  | _ => simp [PyValue.blank]

theorem newestFirst_perm {limit : ℕ} {rows : List InboxRow} (h : rows.length ≤ limit) :
    (newestFirst limit rows).Perm rows := by
  unfold newestFirst
  rw [List.take_of_length_le (by rw [List.length_insertionSort]; exact h)]
  exact List.perm_insertionSort _ rows

theorem unapplied_eq : unapplied row = some (row.processedAt.isNone && row.processError.isSome) := by
  unfold unapplied
  cases row.processedAt.isNone <;> cases row.processError.isSome <;> rfl

theorem namesNobody_iff :
    namesNobody out row = some true ↔ unapplied row = some true ∧ row.target.externalRef.blank = true := by
  unfold namesNobody
  rw [unattributed_eq, unapplied_eq]
  cases row.processedAt.isNone && row.processError.isSome <;> cases row.target.externalRef.blank <;>
    simp [sqlAnd]

theorem namesSomebody_iff :
    namesSomebody out row = some true ↔ unapplied row = some true ∧ row.target.externalRef.blank = false := by
  unfold namesSomebody
  rw [unattributed_eq, unapplied_eq]
  cases row.processedAt.isNone && row.processError.isSome <;> cases row.target.externalRef.blank <;>
    simp [sqlAnd, sqlNot]

/-- The two lists share out the unapplied events of a table. -/
structure Partitions (out : JsonbOut) (rows : List InboxRow) : Prop where
  either : ∀ row ∈ rows, unapplied row = some true ↔
    namesNobody out row = some true ∨ namesSomebody out row = some true
  notBoth : ∀ row ∈ rows, ¬ (namesNobody out row = some true ∧ namesSomebody out row = some true)
  /-- neither list cut off, they hold every unapplied event once -/
  lists : ∀ limit, rows.length ≤ limit →
    ((selectUnresolvedSignups out limit rows).map (·.id) ++
      (selectUnmappedPlanEvents out limit rows).map (·.id)).Perm
        ((rows.filter (unapplied · = some true)).map (·.id))

/-- A list without its limit. -/
theorem listed_perm {p : InboxRow → Bool} {limit : ℕ} {rows : List InboxRow} (h : rows.length ≤ limit) :
    ((newestFirst limit (rows.filter p)).map (·.id)).Perm ((rows.filter p).map (·.id)) :=
  (newestFirst_perm ((List.length_filter_le p rows).trans h)).map _

theorem partitions (out : JsonbOut) (rows : List InboxRow) : Partitions out rows where
  either row _ := by
    rw [namesNobody_iff, namesSomebody_iff]
    cases row.target.externalRef.blank <;> simp
  notBoth row _ := by
    rw [namesNobody_iff, namesSomebody_iff]
    rintro ⟨⟨-, hblank⟩, -, hnot⟩
    rw [hblank] at hnot
    cases hnot
  lists limit h := by
    have hids : (selectUnresolvedSignups out limit rows).map (·.id) ++
        (selectUnmappedPlanEvents out limit rows).map (·.id) =
          (newestFirst limit (rows.filter (namesNobody out · = some true))).map (·.id) ++
            (newestFirst limit (rows.filter (namesSomebody out · = some true))).map (·.id) := by
      simp only [selectUnresolvedSignups, selectUnmappedPlanEvents, List.map_map]
      rfl
    have hnobody : (rows.filter (namesNobody out · = some true)) =
        (rows.filter (unapplied · = some true)).filter (·.target.externalRef.blank) := by
      rw [List.filter_filter]
      refine List.filter_congr fun row _ => ?_
      rw [Bool.eq_iff_iff, decide_eq_true_iff, namesNobody_iff]
      simp [and_comm]
    have hsomebody : (rows.filter (namesSomebody out · = some true)) =
        (rows.filter (unapplied · = some true)).filter (!·.target.externalRef.blank) := by
      rw [List.filter_filter]
      refine List.filter_congr fun row _ => ?_
      rw [Bool.eq_iff_iff, decide_eq_true_iff, namesSomebody_iff]
      simp [and_comm]
    rw [hids]
    refine ((listed_perm h).append (listed_perm h)).trans ?_
    rw [hnobody, hsomebody, ← List.map_append]
    exact (List.filter_append_perm _ _).map _

/-- SQL and Python agree on a row, and the two lists share out the table. -/
structure Agrees (out : JsonbOut) (row : InboxRow) (rows : List InboxRow) : Prop where
  same : unattributedCondition out row = some true ↔ row.target.externalRef.truthy = false
  negation : (sqlNot (unattributedCondition out row)).isSome = true
  partition : Partitions out rows

end

/-- **SQL and Python agree exactly on references that are truthy, absent, null or a text**:
    `false`, zero, `[]` and the empty object are falsy and have a text. -/
theorem unattributed_agrees_iff (out : JsonbOut) (row : InboxRow) (rows : List InboxRow) :
    Agrees out row rows ↔
      row.target.externalRef.truthy = true ∨ row.target.externalRef.blank = true := by
  rw [← blank_iff_falsy]
  constructor
  · intro h
    have hsame := h.same
    rwa [unattributed_eq, Option.some.injEq] at hsame
  · intro h
    refine ⟨?_, ?_, partitions out rows⟩
    · rwa [unattributed_eq, Option.some.injEq]
    · rw [unattributed_eq]
      rfl

/-- What `jsonb` writes of the constants. -/
def sampleOut : JsonbOut where
  text
    | .bool true => "true"
    | .bool false => "false"
    | .list _ => "[]"
    | .dict _ => "\x7b\x7d"
    | .none => "null"
    | _ => "0"
  text_ne v := by
    cases v with
    | bool b => cases b <;> simp
    | _ => simp

/-- A delivery whose reference is `false`, after it was tried. -/
def falseRef : InboxRow where
  id := 1
  event := "subscription.activated"
  createdAt := 0
  processedAt := none
  processError := some "no_reference"
  subscriptionId := some "sub_1"
  payload := some [("data", .dict [("externalRef", .bool false)])]

/-- **A falsy reference that SQL calls a reference**: the entitlement path turns the delivery
    down for want of one, and it is listed among those that name somebody. -/
theorem false_reference_named : ¬ Agrees sampleOut falseRef [falseRef] ∧
    falseRef.target.externalRef.truthy = false ∧
    (selectUnmappedPlanEvents sampleOut 50 [falseRef]).map (·.externalRef) = [some "false"] ∧
    selectUnresolvedSignups sampleOut 50 [falseRef] = [] := by
  have hcond : unattributedCondition sampleOut falseRef = some false := by rfl
  refine ⟨fun h => ?_, rfl, rfl, rfl⟩
  have htrue := h.same.2 rfl
  rw [hcond] at htrue
  cases htrue

end BrainstormServer
