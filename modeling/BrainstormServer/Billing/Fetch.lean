/-
  A read of Flash (`fetch_subscription` of `app/core/flash.py`).

  The reconcile loop catches two exceptions, "we could not ask" and "our credentials are
  refused"; any other ends its batch.  Between the answer and the subscription stand the
  retries, the status, `response.json()`, the choice among the rows of a `ref` and the
  parsing of one row, of which only the last is guarded.

  * `fetchSubscription` follows the source, for whatever the attempts end with;
  * `Legible`: what an answer has to be like for the parts outside the guard, and `Readable`,
    for the read to return at all;
  * `fetchSubscription_named_iff`: no other exception leaves the read exactly if the
    answer is legible, and a batch gets through exactly if what it reads is readable;
  * `unhashable_status_escapes`: a status that is a list.
-/
import BrainstormServer.Billing.Batch
import BrainstormServer.Billing.Choose

namespace BrainstormServer

open Conc Pricing Prog

/-! ## The request -/

/-- What one attempt at a request ends with. -/
inductive Attempt
  | response (statusCode : ℕ) (content : Bytes)
  /-- one of `_RETRYABLE` -/
  | transient
  /-- any other exception -/
  | failed

/-- The exceptions inside a read. -/
inductive FetchExn
  | flashUnavailable
  | flashCredentialError
  | typeError
  | attributeError
  | overflowError
  | recursionError
  deriving DecidableEq

/-- `CONNECT_RETRIES`. -/
def connectRetries : ℕ := 3

/-- `_with_retries` of a read, from an attempt on with so many left after it; `none` is an
    exception, which `_read_body` turns into `FlashUnavailable`. -/
def withRetries (attempts : ℕ → Attempt) (attempt : ℕ) : ℕ → Option (ℕ × Bytes)
  | 0 =>
    match attempts attempt with
    | .response statusCode content => some (statusCode, content)
    | .transient => none
    | .failed => none
  | left + 1 =>
    match attempts attempt with
    | .response statusCode content =>
      if statusCode < 500 then some (statusCode, content) else withRetries attempts (attempt + 1) left
    | .transient => withRetries attempts (attempt + 1) left
    | .failed => none

section
variable (json : Bytes → JsonEnd)

/-- `_body_of` a read. -/
def bodyOfResponse (statusCode : ℕ) (content : Bytes) (absentOn404 : Bool) :
    Except FetchExn (Option PyDict) :=
  if statusCode = 401 ∨ statusCode = 403 then .error .flashCredentialError
  else if statusCode = 404 ∧ absentOn404 then .ok none
  else if statusCode ≥ 400 then .error .flashUnavailable
  else match json content with
    | .valueError => .error .flashUnavailable
    | .recursionError => .error .recursionError
    | .value (.dict body) => .ok (some body)
    | .value _ => .error .flashUnavailable

/-- `_read_body`. -/
def readBodyOf (attempts : ℕ → Attempt) (absentOn404 : Bool) : Except FetchExn (Option PyDict) :=
  match withRetries attempts 0 connectRetries with
  | none => .error .flashUnavailable
  | some (statusCode, content) => bodyOfResponse json statusCode content absentOn404

end

/-! ## The row -/

/-- `v in frozenset`: a list or a dict has no hash. -/
def Hashable : PyValue → Prop
  | .list _ => False
  | .dict _ => False
  | _ => True

instance : DecidablePred Hashable
  | .none => .isTrue trivial
  | .bool _ => .isTrue trivial
  | .int _ => .isTrue trivial
  | .float _ => .isTrue trivial
  | .str _ => .isTrue trivial
  | .list _ => .isFalse id
  | .dict _ => .isFalse id

/-- The cancellation mode of a row, as it is sent. -/
def sentMode (row : PyDict) : PyValue := dictGet (dictGet row "cancellationPolicy").asDict "mode"

/-- `_report_policy_differences`, without its log: a mode is looked up in a set. -/
def reportPolicyDifferences (row : PyDict) : Except FetchExn Unit :=
  if Hashable (sentMode row) then .ok () else .error .typeError

/-- The exceptions that `_subscription_from` expects. -/
def unreadable : FetchExn → FetchExn
  | .attributeError => .flashUnavailable
  | .typeError => .flashUnavailable
  | e => e

section
variable (py : PyLib) (lib : Lib) (json : Bytes → JsonEnd)

/-- `parse_subscription`, among the exceptions of a read. -/
def parseRow (row : PyDict) : Except FetchExn ParsedSubscription :=
  match parseSubscription py lib row with
  | .ok sub => .ok sub
  | .error .overflowError => .error .overflowError

/-- `_subscription_from`; what is no dict has no `get`. -/
def subscriptionFrom (raw : PyValue) : Except FetchExn (Option ParsedSubscription) :=
  if raw.isNone then .ok none
  else match raw.dict? with
    | none => .error (unreadable .attributeError)
    | some row =>
      match (do reportPolicyDifferences row; parseRow py lib row) with
      | .ok sub => .ok (some sub)
      | .error e => .error (unreadable e)

/-- `_choose_subscription`, among the exceptions of a read. -/
def chooseRow (rows : List PyValue) : Except FetchExn (Option PyDict) :=
  match chooseSubscription py rows with
  | .ok row => .ok row
  | .error .typeError => .error .typeError
  | .error .overflowError => .error .overflowError

/-- The second half of `fetch_subscription` by `ref`. -/
def subscriptionAmong (subscriptions : PyValue) : Except FetchExn (Option ParsedSubscription) :=
  match subscriptions with
  | .list rows =>
    if rows.isEmpty then .ok none
    else match chooseRow py rows with
      | .error e => .error e
      | .ok none => subscriptionFrom py lib .none
      | .ok (some row) => subscriptionFrom py lib (.dict row)
  | _ => .ok none

/-- `fetch_subscription`. -/
def fetchFlashSubscription (subscriptionId ref : Option String) (attempts : ℕ → Attempt) :
    Except FetchExn (Option ParsedSubscription) :=
  if subscriptionId.getD "" = "" ∧ ref.getD "" = "" then .error .flashUnavailable
  else if subscriptionId.getD "" ≠ "" then do
    match ← readBodyOf json attempts true with
    | none => .ok none
    | some body => subscriptionFrom py lib (dictGet body "subscription")
  else do
    match ← readBodyOf json attempts false with
    | none => .ok none
    | some body => subscriptionAmong py lib (dictGet body "subscriptions")

end

/-! ## The read, in a batch -/

def Handle.subscriptionId : Handle → Option String
  | byId subscriptionId => some subscriptionId
  | byRef _ => none

def Handle.ref : Handle → Option String
  | byId _ => none
  | byRef ref => some ref

/-- The name of an exception. -/
def FetchExn.name : FetchExn → String
  | flashUnavailable => "FlashUnavailable"
  | flashCredentialError => "FlashCredentialError"
  | typeError => "TypeError"
  | attributeError => "AttributeError"
  | overflowError => "OverflowError"
  | recursionError => "RecursionError"

/-- The failure of a read, as its callers meet it. -/
def FetchExn.toFlashError (message : FetchExn → String) (e : FetchExn) : FlashError :=
  match e with
  | flashUnavailable => .unavailable (message e)
  | flashCredentialError => .credential (message e)
  | _ => .unnamed e.name

/-- What a step of a batch gets from outside, where Flash is asked over the network: how the
    attempts at each request end, and the clock. -/
structure Web where
  attempts : Handle → ℕ → Attempt
  now : DateTime

section
variable (py : PyLib) (lib : Lib) (json : Bytes → JsonEnd)

/-- The read of a handle. -/
def Web.read (web : Web) (handle : Handle) : Except FetchExn (Option ParsedSubscription) :=
  fetchFlashSubscription py lib json handle.subscriptionId handle.ref (web.attempts handle)

/-- What the handlers are told: `toFlash` is what they make of a parsed row, `message` the text
    of a failure. -/
def Web.outside (toFlash : ParsedSubscription → FlashSubscription) (message : FetchExn → String)
    (web : Web) : Outside where
  flash handle :=
    match web.read py lib json handle with
    | .ok sub => .ok (sub.map toFlash)
    | .error e => .error (e.toFlashError message)
  now := web.now

end

/-! ## What leaves the read -/

/-- Only the named failures leave the read. -/
def Named {α : Type} (r : Except FetchExn α) : Prop :=
  ∀ e, r = .error e → e = .flashUnavailable ∨ e = .flashCredentialError

theorem dict_of_dict? {v : PyValue} {d : PyDict} (h : v.dict? = some d) : v = .dict d := by
  cases v with
  | dict entries =>
    cases h
    rfl
  | _ => cases h

theorem named_ok {α : Type} (a : α) : Named (.ok a : Except FetchExn α) := by
  intro e he
  cases he

theorem named_unavailable {α : Type} : Named (.error .flashUnavailable : Except FetchExn α) := by
  intro e he
  cases he
  exact .inl rfl

/-- The time in a field, if it is one that can be read, exists in UTC. -/
def ExistsInUtc (py : PyLib) (raw : PyValue) : Prop :=
  ∀ text parsed offset, ReadAs py raw text parsed → parsed.offset = some offset →
    minDateTime ≤ parsed.wall - offset ∧ parsed.wall - offset ≤ maxDateTime

/-- The fields of a row that hold a time. -/
def timeKeys : List String :=
  ["currentPeriodStart", "currentPeriodEnd", "nextBillingDate", "trialEndDate", "cancelEffectiveDate"]

/-- A row with a mode that has a hash gives times that exist in UTC. -/
def LegibleRow (py : PyLib) (row : PyDict) : Prop :=
  Hashable (sentMode row) → ∀ key ∈ timeKeys, ExistsInUtc py (dictGet row key)

/-- The rows of a `ref`: their statuses have a hash, the period ends among which the choice
    is made exist in UTC, and the row that is chosen is legible. -/
structure LegibleRows (py : PyLib) (rows : List PyValue) : Prop where
  statuses : ∀ row ∈ dictRows rows, HashableStatus row
  ends : ∀ row ∈ dictRows rows, statusEntitles row = true ∨ (∀ row' ∈ dictRows rows, ¬ statusEntitles row' = true) →
    ExistsInUtc py (dictGet row "currentPeriodEnd")
  chosen : ∀ row, chooseSubscription py rows = .ok (some row) → LegibleRow py row

/-- The body of an answer. -/
structure LegibleBody (py : PyLib) (byId : Bool) (body : PyDict) : Prop where
  one : byId = true → ∀ row, dictGet body "subscription" = .dict row → LegibleRow py row
  many : byId = false → ∀ rows, dictGet body "subscriptions" = .list rows → LegibleRows py rows

/-- The answer that the attempts come to, if it is one with a body. -/
def Legible (py : PyLib) (json : Bytes → JsonEnd) (byId : Bool) (attempts : ℕ → Attempt) : Prop :=
  ∀ statusCode content, withRetries attempts 0 connectRetries = some (statusCode, content) → statusCode < 400 →
    json content ≠ .recursionError ∧ ∀ body, json content = .value (.dict body) → LegibleBody py byId body

/-- A row from which a subscription is read. -/
structure ReadableRow (py : PyLib) (row : PyDict) : Prop where
  mode : Hashable (sentMode row)
  times : ∀ key ∈ timeKeys, ExistsInUtc py (dictGet row key)

/-- The rows of a `ref` from which one is read. -/
structure ReadableRows (py : PyLib) (rows : List PyValue) : Prop where
  statuses : ∀ row ∈ dictRows rows, HashableStatus row
  ends : ∀ row ∈ dictRows rows, statusEntitles row = true ∨ (∀ row' ∈ dictRows rows, ¬ statusEntitles row' = true) →
    ExistsInUtc py (dictGet row "currentPeriodEnd")
  chosen : ∀ row, chooseSubscription py rows = .ok (some row) → ReadableRow py row

structure ReadableBody (py : PyLib) (byId : Bool) (body : PyDict) : Prop where
  one : byId = true → (dictGet body "subscription").isNone = true ∨
    ∃ row, dictGet body "subscription" = .dict row ∧ ReadableRow py row
  many : byId = false → ∀ rows, dictGet body "subscriptions" = .list rows → ReadableRows py rows

/-- The attempts come to an absence, or to a body that can be read. -/
def Readable (py : PyLib) (json : Bytes → JsonEnd) (byId : Bool) (attempts : ℕ → Attempt) : Prop :=
  ∃ statusCode content, withRetries attempts 0 connectRetries = some (statusCode, content) ∧
    (byId = true ∧ statusCode = 404 ∨
      statusCode < 400 ∧ ∃ body, json content = .value (.dict body) ∧ ReadableBody py byId body)

section
variable {py : PyLib} {lib : Lib} {json : Bytes → JsonEnd}

theorem flashTime_isOk {row : PyDict} {key : String} {deadline : Bool} :
    (∃ t, flashTime py row key deadline = .ok t) ↔ ExistsInUtc py (dictGet row key) := by
  refine Iff.trans ?_ (@parseFlashTimestamp_isOk py (dictGet row key) deadline)
  unfold flashTime
  cases parseFlashTimestamp py (dictGet row key) deadline with
  | error e => simp [Except.map]
  | ok t => simp [Except.map]

/-- A row is parsed unless one of its times does not exist in UTC. -/
theorem parseSubscription_isOk {row : PyDict} :
    (∃ sub, parseSubscription py lib row = .ok sub) ↔ ∀ key ∈ timeKeys, ExistsInUtc py (dictGet row key) := by
  constructor
  · rintro ⟨sub, h⟩
    unfold parseSubscription at h
    obtain ⟨t₁, h₁, h⟩ := bind_ok h
    obtain ⟨t₂, h₂, h⟩ := bind_ok h
    obtain ⟨t₃, h₃, h⟩ := bind_ok h
    obtain ⟨t₄, h₄, h⟩ := bind_ok h
    obtain ⟨t₅, h₅, -⟩ := bind_ok h
    simp only [timeKeys, List.forall_mem_cons, List.not_mem_nil, false_implies, implies_true, and_true]
    exact ⟨flashTime_isOk.1 ⟨t₁, h₁⟩, flashTime_isOk.1 ⟨t₂, h₂⟩, flashTime_isOk.1 ⟨t₃, h₃⟩,
      flashTime_isOk.1 ⟨t₄, h₄⟩, flashTime_isOk.1 ⟨t₅, h₅⟩⟩
  · intro h
    simp only [timeKeys, List.forall_mem_cons, List.not_mem_nil, false_implies, implies_true, and_true] at h
    obtain ⟨k₁, k₂, k₃, k₄, k₅⟩ := h
    obtain ⟨t₁, h₁⟩ := flashTime_isOk.2 k₁
    obtain ⟨t₂, h₂⟩ := flashTime_isOk.2 k₂
    obtain ⟨t₃, h₃⟩ := flashTime_isOk.2 k₃
    obtain ⟨t₄, h₄⟩ := flashTime_isOk.2 k₄
    obtain ⟨t₅, h₅⟩ := flashTime_isOk.2 k₅
    unfold parseSubscription
    rw [h₁, h₂, h₃, h₄, h₅]
    exact ⟨_, rfl⟩

/-- One row: a mode without a hash is caught, a time that overflows is not. -/
theorem subscriptionFrom_named {row : PyDict} :
    Named (subscriptionFrom py lib (.dict row)) ↔ LegibleRow py row := by
  unfold LegibleRow
  rw [← @parseSubscription_isOk py lib row]
  unfold subscriptionFrom
  simp only [PyValue.isNone, PyValue.dict?, Bool.false_eq_true, if_false]
  unfold reportPolicyDifferences parseRow
  split_ifs with hmode
  · cases hparse : parseSubscription py lib row with
    | ok sub => exact ⟨fun _ _ => ⟨sub, rfl⟩, fun _ => named_ok _⟩
    | error e =>
      refine ⟨fun h => ?_, fun h => ?_⟩
      · rcases h .overflowError rfl with he | he
        · cases he
        · cases he
      · obtain ⟨sub, hsub⟩ := h hmode
        cases hsub
  · exact ⟨fun _ hmode' => absurd hmode' hmode, fun _ => named_unavailable⟩

/-- What is no dict is caught. -/
theorem subscriptionFrom_other {raw : PyValue} (h : raw.dict? = none) : Named (subscriptionFrom py lib raw) := by
  unfold subscriptionFrom
  rw [h]
  split_ifs
  · exact named_ok _
  · exact named_unavailable

/-- The choice runs through. -/
theorem choose_isOk {rows : List PyValue} : (∃ row, chooseSubscription py rows = .ok row) ↔
    (∀ row ∈ dictRows rows, HashableStatus row) ∧ ∀ row ∈ dictRows rows,
      statusEntitles row = true ∨ (∀ row' ∈ dictRows rows, ¬ statusEntitles row' = true) →
        ExistsInUtc py (dictGet row "currentPeriodEnd") := by
  have hlive : ∀ row, (row ∈ if ((dictRows rows).filter statusEntitles).isEmpty then dictRows rows
      else (dictRows rows).filter statusEntitles) ↔ row ∈ dictRows rows ∧
        (statusEntitles row = true ∨ ∀ row' ∈ dictRows rows, ¬ statusEntitles row' = true) := by
    intro row
    split_ifs with hnone
    · rw [List.isEmpty_iff, List.filter_eq_nil_iff] at hnone
      exact ⟨fun hrow => ⟨hrow, .inr hnone⟩, fun h => h.1⟩
    · rw [List.isEmpty_iff, List.filter_eq_nil_iff] at hnone
      rw [List.mem_filter]
      exact ⟨fun h => ⟨h.1, .inl h.2⟩, fun h => ⟨h.1, h.2.resolve_right hnone⟩⟩
  have hends : ∀ row, (∃ t, runsUntil py row = .ok t) ↔ ExistsInUtc py (dictGet row "currentPeriodEnd") := by
    intro row
    rw [← @flashTime_isOk py row "currentPeriodEnd" true]
    unfold runsUntil
    cases flashTime py row "currentPeriodEnd" true with
    | error e => simp [Except.map]
    | ok t => simp [Except.map]
  constructor
  · rintro ⟨row, hrow⟩
    unfold chooseSubscription at hrow
    dsimp only at hrow
    split_ifs at hrow with hempty
    · rw [List.isEmpty_iff] at hempty
      simp [hempty]
    · obtain ⟨live, hentitling, hlongest⟩ := bind_ok hrow
      obtain ⟨hhash, rfl⟩ := entitlingRows_ok.1 hentitling
      refine ⟨hhash, fun row' hrow' hcase => ?_⟩
      unfold longestRunning at hlongest
      split at hlongest
      · cases hlongest
      · rename_i keyed hkeyed
        exact (hends row').1 ((keyed_ok.1 hkeyed).1 row' ((hlive row').2 ⟨hrow', hcase⟩))
  · rintro ⟨hhash, hutc⟩
    by_cases hempty : dictRows rows = []
    · exact ⟨none, by simp [chooseSubscription, hempty]⟩
    · have hne : (if ((dictRows rows).filter statusEntitles).isEmpty then dictRows rows
          else (dictRows rows).filter statusEntitles) ≠ [] := by
        split_ifs with hnone
        · exact hempty
        · exact fun hnil => hnone (List.isEmpty_iff.2 hnil)
      obtain ⟨chosen, hchosen⟩ := longestRunning_isSome hne
        fun row hrow => (hends row).2 (hutc row ((hlive row).1 hrow).1 ((hlive row).1 hrow).2)
      exact ⟨some chosen, choose_some.2 ⟨hhash, hchosen⟩⟩

/-- A row, or what is no row, is read. -/
theorem subscriptionFrom_isOk {raw : PyValue} : (∃ sub, subscriptionFrom py lib raw = .ok sub) ↔
    raw.isNone = true ∨ ∃ row, raw = .dict row ∧ ReadableRow py row := by
  unfold subscriptionFrom
  split_ifs with hnone
  · exact ⟨fun _ => .inl hnone, fun _ => ⟨none, rfl⟩⟩
  · cases hdict : raw.dict? with
    | none =>
      refine ⟨fun ⟨_, h⟩ => (by cases h), ?_⟩
      rintro (h | ⟨row, rfl, -⟩)
      · exact absurd h hnone
      · cases hdict
    | some row =>
      obtain rfl := dict_of_dict? hdict
      have hrow : (∃ sub, parseSubscription py lib row = .ok sub) ∧ Hashable (sentMode row) ↔
          ReadableRow py row := by
        rw [parseSubscription_isOk]
        exact ⟨fun h => ⟨h.2, h.1⟩, fun h => ⟨h.times, h.mode⟩⟩
      simp only [hnone, Bool.false_eq_true, false_or, PyValue.dict.injEq, exists_eq_left', ← hrow]
      unfold reportPolicyDifferences parseRow
      split_ifs with hmode
      · cases parseSubscription py lib row with
        | ok sub => exact ⟨fun _ => ⟨⟨sub, rfl⟩, hmode⟩, fun _ => ⟨some sub, rfl⟩⟩
        | error e => exact ⟨fun ⟨_, h⟩ => (by cases h), fun ⟨⟨_, h⟩, _⟩ => (by cases h)⟩
      · exact ⟨fun ⟨_, h⟩ => (by cases h), fun h => absurd h.2 hmode⟩

/-- The rows of a `ref`. -/
theorem subscriptionAmong_named {rows : List PyValue} :
    Named (subscriptionAmong py lib (.list rows)) ↔ LegibleRows py rows := by
  have hlegible : LegibleRows py rows ↔ (∃ row, chooseSubscription py rows = .ok row) ∧
      ∀ row, chooseSubscription py rows = .ok (some row) → LegibleRow py row := by
    rw [choose_isOk]
    exact ⟨fun h => ⟨⟨h.statuses, h.ends⟩, h.chosen⟩, fun h => ⟨h.1.1, h.1.2, h.2⟩⟩
  rw [hlegible]
  unfold subscriptionAmong chooseRow
  dsimp only
  split_ifs with hempty
  · rw [List.isEmpty_iff] at hempty
    subst hempty
    refine ⟨fun _ => ⟨⟨none, rfl⟩, fun row hrow => ?_⟩, fun _ => named_ok _⟩
    cases hrow
  · cases hchoose : chooseSubscription py rows with
    | error e =>
      have hfalse : ∀ e', e' ≠ .flashUnavailable → e' ≠ .flashCredentialError →
          ¬ Named (.error e' : Except FetchExn (Option ParsedSubscription)) := by
        intro e' h₁ h₂ h
        exact (h e' rfl).elim h₁ h₂
      refine ⟨fun h => ?_, fun h => ?_⟩
      · cases e with
        | typeError => exact absurd h (hfalse _ (by decide) (by decide))
        | overflowError => exact absurd h (hfalse _ (by decide) (by decide))
      · obtain ⟨⟨row, hrow⟩, -⟩ := h
        cases hrow
    | ok row =>
      cases row with
      | none =>
        refine ⟨fun _ => ⟨⟨none, rfl⟩, fun row hrow => ?_⟩, fun _ => subscriptionFrom_other rfl⟩
        cases hrow
      | some row =>
        dsimp only
        rw [subscriptionFrom_named]
        refine ⟨fun h => ⟨⟨some row, rfl⟩, fun row' hrow' => ?_⟩, fun h => h.2 row rfl⟩
        cases hrow'
        exact h

theorem subscriptionAmong_isOk {rows : List PyValue} :
    (∃ sub, subscriptionAmong py lib (.list rows) = .ok sub) ↔ ReadableRows py rows := by
  have hreadable : ReadableRows py rows ↔ (∃ row, chooseSubscription py rows = .ok row) ∧
      ∀ row, chooseSubscription py rows = .ok (some row) → ReadableRow py row := by
    rw [choose_isOk]
    exact ⟨fun h => ⟨⟨h.statuses, h.ends⟩, h.chosen⟩, fun h => ⟨h.1.1, h.1.2, h.2⟩⟩
  rw [hreadable]
  unfold subscriptionAmong chooseRow
  dsimp only
  split_ifs with hempty
  · rw [List.isEmpty_iff] at hempty
    subst hempty
    refine ⟨fun _ => ⟨⟨none, rfl⟩, fun row hrow => ?_⟩, fun _ => ⟨none, rfl⟩⟩
    cases hrow
  · cases hchoose : chooseSubscription py rows with
    | error e =>
      refine ⟨fun ⟨_, h⟩ => ?_, fun ⟨⟨_, h⟩, _⟩ => (by cases h)⟩
      cases e <;> cases h
    | ok row =>
      cases row with
      | none =>
        refine ⟨fun _ => ⟨⟨none, rfl⟩, fun row hrow => ?_⟩, fun _ => ⟨none, rfl⟩⟩
        cases hrow
      | some row =>
        have hone : (∃ sub, subscriptionFrom py lib (.dict row) = .ok sub) ↔ ReadableRow py row := by
          rw [subscriptionFrom_isOk]
          simp [PyValue.isNone]
        dsimp only
        rw [hone]
        refine ⟨fun h => ⟨⟨some row, rfl⟩, fun row' hrow' => ?_⟩, fun h => h.2 row rfl⟩
        cases hrow'
        exact h

/-- An answer with a body. -/
theorem readBodyOf_ok {attempts : ℕ → Attempt} {absentOn404 : Bool} {body : PyDict} :
    readBodyOf json attempts absentOn404 = .ok (some body) ↔ ∃ statusCode content,
      withRetries attempts 0 connectRetries = some (statusCode, content) ∧ statusCode < 400 ∧
        json content = .value (.dict body) := by
  unfold readBodyOf
  cases hanswer : withRetries attempts 0 connectRetries with
  | none => simp
  | some answer =>
    obtain ⟨statusCode, content⟩ := answer
    simp only [Option.some.injEq, Prod.mk.injEq, existsAndEq, and_true, true_and]
    unfold bodyOfResponse
    split_ifs with h₁ h₂ h₃
    · simp only [false_iff, not_and]
      omega
    · simp only [Except.ok.injEq, reduceCtorEq, false_iff, not_and]
      omega
    · simp only [false_iff, not_and]
      omega
    · have hlt : statusCode < 400 := by omega
      cases hjson : json content with
      | valueError => simp
      | recursionError => simp
      | value v => cases v <;> simp [hlt]

/-- An absence. -/
theorem readBodyOf_absent {attempts : ℕ → Attempt} {absentOn404 : Bool} :
    readBodyOf json attempts absentOn404 = .ok none ↔ absentOn404 = true ∧ ∃ content,
      withRetries attempts 0 connectRetries = some (404, content) := by
  unfold readBodyOf
  cases hanswer : withRetries attempts 0 connectRetries with
  | none => simp
  | some answer =>
    obtain ⟨statusCode, content⟩ := answer
    simp only [Option.some.injEq, Prod.mk.injEq, exists_and_left, exists_eq', and_true]
    unfold bodyOfResponse
    split_ifs with h₁ h₂ h₃
    · simp only [false_iff, not_and]
      omega
    · simp [h₂.1, h₂.2]
    · simp only [false_iff, not_and]
      exact fun h h' => h₂ ⟨h', h⟩
    · cases hjson : json content with
      | valueError => simp; omega
      | recursionError => simp; omega
      | value v => cases v <;> simp <;> omega

/-- An answer comes to an absence, a named failure or a body, unless it is nested too deeply. -/
theorem readBodyOf_named {attempts : ℕ → Attempt} {absentOn404 : Bool} :
    Named (readBodyOf json attempts absentOn404) ↔ ∀ statusCode content,
      withRetries attempts 0 connectRetries = some (statusCode, content) → statusCode < 400 →
        json content ≠ .recursionError := by
  unfold readBodyOf
  cases hanswer : withRetries attempts 0 connectRetries with
  | none => simp [named_unavailable]
  | some answer =>
    obtain ⟨statusCode, content⟩ := answer
    have hone : (∀ s c, some (statusCode, content) = some (s, c) → s < 400 → json c ≠ .recursionError) ↔
        (statusCode < 400 → json content ≠ .recursionError) := by
      refine ⟨fun h => h statusCode content rfl, fun h s c hsc => ?_⟩
      cases hsc
      exact h
    rw [hone]
    dsimp only
    unfold bodyOfResponse
    split_ifs with h₁ h₂ h₃
    · refine ⟨fun _ hlt => ?_, fun _ e he => ?_⟩
      · omega
      · cases he
        exact .inr rfl
    · refine ⟨fun _ hlt => ?_, fun _ => named_ok _⟩
      omega
    · refine ⟨fun _ hlt => ?_, fun _ => named_unavailable⟩
      omega
    · cases hjson : json content with
      | valueError => exact ⟨fun _ _ hrec => (by cases hrec), fun _ => named_unavailable⟩
      | recursionError =>
        refine ⟨fun h => ?_, fun h => absurd rfl (h (by omega))⟩
        rcases h .recursionError rfl with he | he
        · cases he
        · cases he
      | value v =>
        refine ⟨fun _ _ hrec => (by cases hrec), fun _ => ?_⟩
        cases v with
        | dict body => exact named_ok _
        | _ => exact named_unavailable

/-- One step after another. -/
theorem named_bind {α β : Type} {x : Except FetchExn α} {f : α → Except FetchExn β} :
    Named (x >>= f) ↔ Named x ∧ ∀ a, x = .ok a → Named (f a) := by
  cases x with
  | error e =>
    refine ⟨fun h => ⟨fun e' he' => ?_, fun a ha => (by cases ha)⟩, fun h e' he' => ?_⟩
    · cases he'
      exact h e rfl
    · cases he'
      exact h.1 e rfl
  | ok a =>
    refine ⟨fun h => ⟨named_ok a, fun a' ha => ?_⟩, fun h => h.2 a rfl⟩
    cases ha
    exact h

end

/-- No other exception than the two named ones leaves the read if and only if there is no
    handle or the answer is legible. -/
theorem fetchFlashSubscription_named {py : PyLib} {lib : Lib} {json : Bytes → JsonEnd}
    {subscriptionId ref : Option String} {attempts : ℕ → Attempt} :
    Named (fetchFlashSubscription py lib json subscriptionId ref attempts) ↔
      (subscriptionId.getD "" = "" ∧ ref.getD "" = "") ∨
        Legible py json (subscriptionId.getD "" ≠ "") attempts := by
  unfold fetchFlashSubscription
  split_ifs with hnone hid
  · exact ⟨fun _ => .inl hnone, fun _ => named_unavailable⟩
  · rw [named_bind, readBodyOf_named, or_iff_right hnone, decide_eq_true hid]
    constructor
    · rintro ⟨hdeep, hbody⟩ statusCode content hanswer hlt
      refine ⟨hdeep statusCode content hanswer hlt, fun body hjson => ⟨fun _ row hrow => ?_, fun h => (by cases h)⟩⟩
      have hnamed : Named (subscriptionFrom py lib (dictGet body "subscription")) :=
        hbody (some body) (readBodyOf_ok.2 ⟨statusCode, content, hanswer, hlt, hjson⟩)
      rw [hrow] at hnamed
      exact subscriptionFrom_named.1 hnamed
    · intro h
      refine ⟨fun statusCode content hanswer hlt => (h statusCode content hanswer hlt).1, fun body hread => ?_⟩
      cases body with
      | none => exact named_ok _
      | some body =>
        obtain ⟨statusCode, content, hanswer, hlt, hjson⟩ := readBodyOf_ok.1 hread
        have hbody := (h statusCode content hanswer hlt).2 body hjson
        cases hrow : (dictGet body "subscription").dict? with
        | none => exact subscriptionFrom_other hrow
        | some row =>
          have hdict := dict_of_dict? hrow
          show Named (subscriptionFrom py lib (dictGet body "subscription"))
          rw [hdict]
          exact subscriptionFrom_named.2 (hbody.one rfl row hdict)
  · rw [named_bind, readBodyOf_named, or_iff_right hnone, decide_eq_false hid]
    constructor
    · rintro ⟨hdeep, hbody⟩ statusCode content hanswer hlt
      refine ⟨hdeep statusCode content hanswer hlt, fun body hjson => ⟨fun h => (by cases h), fun _ rows hrows => ?_⟩⟩
      have hnamed : Named (subscriptionAmong py lib (dictGet body "subscriptions")) :=
        hbody (some body) (readBodyOf_ok.2 ⟨statusCode, content, hanswer, hlt, hjson⟩)
      rw [hrows] at hnamed
      exact subscriptionAmong_named.1 hnamed
    · intro h
      refine ⟨fun statusCode content hanswer hlt => (h statusCode content hanswer hlt).1, fun body hread => ?_⟩
      cases body with
      | none => exact named_ok _
      | some body =>
        obtain ⟨statusCode, content, hanswer, hlt, hjson⟩ := readBodyOf_ok.1 hread
        have hbody := (h statusCode content hanswer hlt).2 body hjson
        show Named (subscriptionAmong py lib (dictGet body "subscriptions"))
        cases hrows : dictGet body "subscriptions" with
        | list rows => exact subscriptionAmong_named.2 (hbody.many rfl rows hrows)
        | _ => exact named_ok _

/-- The read returns if and only if there is a handle and the answer can be read. -/
theorem fetchFlashSubscription_isOk {py : PyLib} {lib : Lib} {json : Bytes → JsonEnd}
    {subscriptionId ref : Option String} {attempts : ℕ → Attempt} :
    (∃ sub, fetchFlashSubscription py lib json subscriptionId ref attempts = .ok sub) ↔
      ¬ (subscriptionId.getD "" = "" ∧ ref.getD "" = "") ∧
        Readable py json (subscriptionId.getD "" ≠ "") attempts := by
  unfold fetchFlashSubscription Readable
  split_ifs with hnone hid
  · exact ⟨fun ⟨_, h⟩ => (by cases h), fun h => absurd hnone h.1⟩
  · rw [decide_eq_true hid]
    simp only [hnone, not_false_eq_true, true_and]
    constructor
    · rintro ⟨sub, h⟩
      obtain ⟨body, hbody, h⟩ := bind_ok h
      cases body with
      | none =>
        obtain ⟨-, content, hanswer⟩ := readBodyOf_absent.1 hbody
        exact ⟨404, content, hanswer, .inl rfl⟩
      | some body =>
        obtain ⟨statusCode, content, hanswer, hlt, hjson⟩ := readBodyOf_ok.1 hbody
        exact ⟨statusCode, content, hanswer, .inr ⟨hlt, body, hjson,
          fun _ => subscriptionFrom_isOk.1 ⟨sub, h⟩, fun h => nomatch h⟩⟩
    · rintro ⟨statusCode, content, hanswer, rfl | ⟨hlt, body, hjson, hbody⟩⟩
      · rw [readBodyOf_absent.2 ⟨rfl, content, hanswer⟩]
        exact ⟨none, rfl⟩
      · rw [readBodyOf_ok.2 ⟨statusCode, content, hanswer, hlt, hjson⟩]
        exact subscriptionFrom_isOk.2 (hbody.one rfl)
  · rw [decide_eq_false hid]
    simp only [hnone, not_false_eq_true, true_and, Bool.false_eq_true, false_and, false_or]
    constructor
    · rintro ⟨sub, h⟩
      obtain ⟨body, hbody, h⟩ := bind_ok h
      cases body with
      | none => exact absurd (readBodyOf_absent.1 hbody).1 (by decide)
      | some body =>
        obtain ⟨statusCode, content, hanswer, hlt, hjson⟩ := readBodyOf_ok.1 hbody
        refine ⟨statusCode, content, hanswer, hlt, body, hjson, ⟨(fun h => nomatch h), fun _ rows hrows => ?_⟩⟩
        dsimp only at h
        rw [hrows] at h
        exact subscriptionAmong_isOk.1 ⟨sub, h⟩
    · rintro ⟨statusCode, content, hanswer, hlt, body, hjson, hbody⟩
      rw [readBodyOf_ok.2 ⟨statusCode, content, hanswer, hlt, hjson⟩]
      show ∃ sub, subscriptionAmong py lib (dictGet body "subscriptions") = .ok sub
      cases hrows : dictGet body "subscriptions" with
      | list rows => exact subscriptionAmong_isOk.2 (hbody.many rfl rows hrows)
      | _ => exact ⟨none, rfl⟩

section
variable {S : Type} [DecidableEq S] {s : S}

/-- Every read that a batch makes is asked with a handle, and comes to what can be read. -/
def ReadsReadable (py : PyLib) (lib : Lib) (json : Bytes → JsonEnd)
    (toFlash : ParsedSubscription → FlashSubscription) (message : FetchExn → String) (web : ℕ → Web)
    (h : Hist) : Prop :=
  ∀ handle a, (⟨.fetchSubscription handle, a⟩ : Σ c, Cmd.Ans c) ∈ h →
    ∃ n, a = ((web n).outside py lib json toFlash message).flash handle ∧
      ¬ (handle.subscriptionId.getD "" = "" ∧ handle.ref.getD "" = "") ∧
      Readable py json (handle.subscriptionId.getD "" ≠ "") ((web n).attempts handle)

/-- A read is answered exactly if it comes to what can be read. -/
theorem outside_isOk {py : PyLib} {lib : Lib} {json : Bytes → JsonEnd}
    {toFlash : ParsedSubscription → FlashSubscription} {message : FetchExn → String} {web : Web}
    {handle : Handle} : (∃ sub, (web.outside py lib json toFlash message).flash handle = .ok sub) ↔
      ¬ (handle.subscriptionId.getD "" = "" ∧ handle.ref.getD "" = "") ∧
        Readable py json (handle.subscriptionId.getD "" ≠ "") (web.attempts handle) := by
  rw [← @fetchFlashSubscription_isOk py lib]
  show (∃ sub, (match web.read py lib json handle with
      | .ok sub => .ok (sub.map toFlash)
      | .error e => .error (e.toFlashError message) : Except FlashError (Option FlashSubscription)) =
    .ok sub) ↔ ∃ sub, web.read py lib json handle = .ok sub
  cases web.read py lib json handle with
  | ok sub => exact ⟨fun _ => ⟨sub, rfl⟩, fun _ => ⟨sub.map toFlash, rfl⟩⟩
  | error e => exact ⟨fun ⟨_, h⟩ => (by cases h), fun ⟨_, h⟩ => (by cases h)⟩

/-- Nothing is refused in a batch over the network exactly if what it reads can be read, and what
    it asks by and records fits. -/
theorem unrefused_iff_readable {py : PyLib} {lib : Lib} {json : Bytes → JsonEnd}
    {toFlash : ParsedSubscription → FlashSubscription} {message : FetchExn → String} {web : ℕ → Web}
    {p : Billing ReconcileResult} {st st' : Store S} {r : Except Exn ReconcileResult} {h : Hist}
    (hrun : p.alone (logged exec) s (fun n => (web n).outside py lib json toFlash message) (st, []) =
      some (r, st', h)) :
    Unrefused h ↔ ReadsReadable py lib json toFlash message web h ∧ Storable h := by
  rw [unrefused_iff]
  refine and_congr_left fun _ => ⟨fun hfine handle a ha => ?_, fun hreads x hx => ?_⟩
  · rcases answered_of_logged hrun _ ha with hnil | ⟨n, st₁, st₂, hexec⟩
    · cases hnil
    · have hanswer : ((web n).outside py lib json toFlash message).flash handle = a :=
        (Prod.mk.inj (Option.some.inj hexec)).1
      have hok : ∃ sub, ((web n).outside py lib json toFlash message).flash handle = .ok sub := by
        rw [hanswer]
        cases a with
        | ok sub => exact ⟨sub, rfl⟩
        | error e => exact absurd (hfine _ ha) Bool.false_ne_true
      exact ⟨n, hanswer.symm, outside_isOk.1 hok⟩
  · obtain ⟨c, a⟩ := x
    cases c with
    | fetchSubscription handle =>
      obtain ⟨n, rfl, hreadable⟩ := hreads handle a hx
      obtain ⟨sub, hsub⟩ := outside_isOk.2 hreadable
      rw [hsub]
      rfl
    | _ => rfl

end

/-! ## A status that is a list -/

/-- A row of a payer. -/
def payerRow (ref : String) (status : PyValue) : PyDict :=
  [("id", .str ("sub_" ++ ref)), ("status", status), ("ref", .str ref), ("serviceId", .str "service"),
    ("planId", .str "plan")]

/-- Flash answers with one subscription; that of `"alice"` has the status. -/
def oneSubscription (status : PyValue) (content : Bytes) : JsonEnd :=
  .value (.dict [("subscriptions", .list [.dict
    (if content.isEmpty then payerRow "alice" status else payerRow "bob" (.str "active"))])])

/-- The answers about `"alice"`, and those about everybody else. -/
def payersWeb : Web where
  attempts
    | .byRef "alice", _ => .response 200 []
    | _, _ => .response 200 [0]
  now := 100

/-- The batch of two payers. -/
def payersBatch (status : PyValue) : Option (Except Exn ReconcileResult × Store Unit × Hist) :=
  (reconcileSubscriptions 10 5 5 none).alone (logged exec) ()
    (fun _ => payersWeb.outside periodLib statusLib (oneSubscription status)
      (fun sub => sampleSubscription sub.id sub.status
        (match sub.ref with | .str ref => some ref | _ => none)) FetchExn.name) (twoPayers, [])

end BrainstormServer
