/-
  What Flash did not say, or what could not be read (`parse_lifecycle_policy`,
  `parse_flash_timestamp` of `app/core/flash.py`, `decide_entitlement`).

  * `Blanked`: a body of which parts of the policies are gone or of the wrong type;
  * `unknown_never_revokes`: such a body is not revoked where the whole one is not, and the
    lapse sweep, which knows no policy, revokes only what the event path would;
  * `unreadable_end_iff`: a cancellation with an end date that cannot be read is not revoked
    exactly if the date that is left is still to come;
  * `unreadable_end_revoked`: where none is left, it is revoked at once.
-/
import BrainstormServer.Billing.Choose
import BrainstormServer.Billing.Service

namespace BrainstormServer

open Pricing

/-! ## Policies -/

/-- What is left of a policy of which some is forgotten. -/
structure FlashLifecyclePolicy.Forgets (policy policy' : FlashLifecyclePolicy) : Prop where
  mode : policy'.cancellationMode = policy.cancellationMode ∨ policy'.cancellationMode = none
  maxAttempts : policy'.dunningMaxAttempts = policy.dunningMaxAttempts ∨ policy'.dunningMaxAttempts = none
  attempts : policy'.dunningAttempts = policy.dunningAttempts ∨ policy'.dunningAttempts = none
  cancels : policy'.dunningCancelsAfterFinalFailure = policy.dunningCancelsAfterFinalFailure ∨
    policy'.dunningCancelsAfterFinalFailure = none

theorem forgets_unknown (policy : FlashLifecyclePolicy) : policy.Forgets unknownLifecyclePolicy :=
  ⟨.inr rfl, .inr rfl, .inr rfl, .inr rfl⟩

section
variable {policy policy' : FlashLifecyclePolicy}

/-- What `_decide_past_due` revokes on. -/
theorem decidePastDue_eq_revoke : decidePastDue policy = .revoke ↔
    policy.dunningCancelsAfterFinalFailure = some false ∧ ∃ made allowed,
      policy.dunningAttempts = some made ∧ policy.dunningMaxAttempts = some allowed ∧ allowed ≤ made := by
  unfold decidePastDue
  split_ifs with hcancels
  · simp [hcancels]
  · have hfalse : policy.dunningCancelsAfterFinalFailure = some false := by simpa using hcancels
    cases hmade : policy.dunningAttempts with
    | none => simp
    | some made =>
      cases hallowed : policy.dunningMaxAttempts with
      | none => simp
      | some allowed => simp [hfalse]

/-- What `_decide_cancelled` revokes on. -/
theorem decideCancelled_eq_revoke {ced cpe : Option DateTime} {now : DateTime} :
    decideCancelled policy ced cpe now = .revoke ↔ policy.cancellationMode = some cancellationImmediate ∨
      ∀ endsAt, ced.or cpe = some endsAt → endsAt ≤ now := by
  unfold decideCancelled
  split_ifs with hmode
  · simp [hmode]
  · cases hends : ced.or cpe with
    | none => simp
    | some endsAt => simp [hmode]

/-- The less is known, the less is revoked. -/
theorem FlashLifecyclePolicy.Forgets.revoke (h : policy.Forgets policy') {flashStatus : String}
    {ced cpe : Option DateTime} {now : DateTime}
    (hrevoke : decideEntitlement flashStatus ced cpe now policy' = .revoke) :
    decideEntitlement flashStatus ced cpe now policy = .revoke := by
  unfold decideEntitlement at hrevoke ⊢
  split_ifs at hrevoke ⊢ with hentitling hended hpastDue hcancelled
  · rfl
  · obtain ⟨hcancels, made, allowed, hmade, hallowed, hle⟩ := decidePastDue_eq_revoke.1 hrevoke
    refine decidePastDue_eq_revoke.2 ⟨?_, made, allowed, ?_, ?_, hle⟩
    · exact (h.cancels.resolve_right (by simp [hcancels])).symm.trans hcancels
    · exact (h.attempts.resolve_right (by simp [hmade])).symm.trans hmade
    · exact (h.maxAttempts.resolve_right (by simp [hallowed])).symm.trans hallowed
  · refine decideCancelled_eq_revoke.2 ((decideCancelled_eq_revoke.1 hrevoke).imp_left fun hmode => ?_)
    exact (h.mode.resolve_right (by simp [hmode])).symm.trans hmode

end

/-! ## Bodies -/

/-- A value is as it was, or it is gone or of the wrong type: `reads` does not take it. -/
def Blank (reads : PyValue → Bool) (v v' : PyValue) : Prop := v' = v ∨ reads v' = false

def isText (v : PyValue) : Bool := (Nostr.str? v).isSome

def isWholeNumber (v : PyValue) : Bool := (wholeNumber v).isSome

def isFlag (v : PyValue) : Bool := (flag v).isSome

/-- A policy is as it was, or it is gone or no object, or parts of it are gone or of the
    wrong type. -/
def BlankPolicy (parts : List (String × (PyValue → Bool))) (v v' : PyValue) : Prop :=
  v' = v ∨ v'.dict? = none ∨ ∃ d d', v = .dict d ∧ v' = .dict d' ∧
    ∀ part ∈ parts, Blank part.2 (dictGet d part.1) (dictGet d' part.1)

/-- The parts of `cancellationPolicy` and of `dunningPolicy`. -/
def cancellationParts : List (String × (PyValue → Bool)) := [("mode", isText)]
def dunningParts : List (String × (PyValue → Bool)) :=
  [("maxAttempts", isWholeNumber), ("cancelAfterFinalFailure", isFlag)]

/-- A body of which parts of the policies are gone or of the wrong type. -/
structure Blanked (raw raw' : PyDict) : Prop where
  others : ∀ key, key ∉ ["cancellationPolicy", "dunningPolicy", "dunningAttempts"] →
    dictGet raw' key = dictGet raw key
  cancellation : BlankPolicy cancellationParts (dictGet raw "cancellationPolicy") (dictGet raw' "cancellationPolicy")
  dunning : BlankPolicy dunningParts (dictGet raw "dunningPolicy") (dictGet raw' "dunningPolicy")
  attempts : Blank isWholeNumber (dictGet raw "dunningAttempts") (dictGet raw' "dunningAttempts")

section
variable {py : PyLib} {lib : Lib} {raw raw' : PyDict}

/-- What is read of a part. -/
theorem Blank.read {α : Type} {reads : PyValue → Bool} {f : PyValue → Option α} {v v' : PyValue}
    (h : Blank reads v v') (hf : ∀ v, reads v = false → f v = none) : f v' = f v ∨ f v' = none := by
  rcases h with h | h
  · exact .inl (by rw [h])
  · exact .inr (hf v' h)

/-- What is read of a part of a policy. -/
theorem BlankPolicy.read {α : Type} {parts : List (String × (PyValue → Bool))} {f : PyValue → Option α} {v v' : PyValue}
    (h : BlankPolicy parts v v') {part : String × (PyValue → Bool)} (hpart : part ∈ parts)
    (hf : ∀ v, part.2 v = false → f v = none) (hnone : f .none = none) :
    f (dictGet v'.asDict part.1) = f (dictGet v.asDict part.1) ∨ f (dictGet v'.asDict part.1) = none := by
  rcases h with h | h | ⟨d, d', rfl, rfl, hparts⟩
  · exact .inl (by rw [h])
  · have hempty : v'.asDict = [] := by
      cases v' with
      | dict d => cases h
      | _ => rfl
    rw [hempty]
    exact .inr hnone
  · exact (hparts part hpart).read hf

theorem text_of_not_isText (v : PyValue) (h : isText v = false) : text lib v = none := by
  cases v with
  | str s => simp [isText, Nostr.str?] at h
  | _ => rfl

/-- The policy of a body of which parts are gone. -/
theorem Blanked.forgets (h : Blanked raw raw') :
    (parseLifecyclePolicy lib raw).Forgets (parseLifecyclePolicy lib raw') := by
  have hnumber : ∀ v, isWholeNumber v = false → wholeNumber v = none := fun v hv => by
    simpa [isWholeNumber] using hv
  have hflag : ∀ v, isFlag v = false → flag v = none := fun v hv => by simpa [isFlag] using hv
  refine ⟨?_, ?_, h.attempts.read hnumber, ?_⟩
  · exact h.cancellation.read (show ("mode", isText) ∈ _ by simp [cancellationParts]) text_of_not_isText rfl
  · exact h.dunning.read (show ("maxAttempts", isWholeNumber) ∈ _ by simp [dunningParts]) hnumber rfl
  · exact h.dunning.read (show ("cancelAfterFinalFailure", isFlag) ∈ _ by simp [dunningParts]) hflag rfl

/-- The rest of the body is read as before. -/
theorem Blanked.parse (h : Blanked raw raw') {sub' : ParsedSubscription}
    (hparse : parseSubscription py lib raw' = .ok sub') :
    parseSubscription py lib raw = .ok { sub' with policy := parseLifecyclePolicy lib raw } := by
  have htime : ∀ key deadline, key ∉ ["cancellationPolicy", "dunningPolicy", "dunningAttempts"] →
      flashTime py raw key deadline = flashTime py raw' key deadline := by
    intro key deadline hkey
    rw [flashTime, flashTime, h.others key hkey]
  unfold parseSubscription at hparse ⊢
  obtain ⟨t₁, h₁, hparse⟩ := bind_ok hparse
  obtain ⟨t₂, h₂, hparse⟩ := bind_ok hparse
  obtain ⟨t₃, h₃, hparse⟩ := bind_ok hparse
  obtain ⟨t₄, h₄, hparse⟩ := bind_ok hparse
  obtain ⟨t₅, h₅, hparse⟩ := bind_ok hparse
  cases hparse
  rw [htime _ _ (by decide), h₁, htime _ _ (by decide), h₂, htime _ _ (by decide), h₃, htime _ _ (by decide), h₄,
    htime _ _ (by decide), h₅]
  simp only [h.others _ (show "id" ∉ _ by decide), h.others _ (show "status" ∉ _ by decide),
    h.others _ (show "ref" ∉ _ by decide), h.others _ (show "subscriberId" ∉ _ by decide),
    h.others _ (show "serviceId" ∉ _ by decide), h.others _ (show "planId" ∉ _ by decide),
    h.others _ (show "portalUrl" ∉ _ by decide), h.others _ (show "pricingSnapshot" ∉ _ by decide)]
  rfl

end

/-- **An unknown policy never revokes.**  A body that is granted or held is not revoked when
    parts of its policies are gone or of the wrong type; and what the lapse sweep revokes,
    from the row that was written from an answer, the event path would revoke on that answer. -/
theorem unknown_never_revokes (py : PyLib) (lib : Lib) (now : DateTime) :
    (∀ raw raw', Blanked raw raw' →
      decisionOn py lib now raw = some .grant ∨ decisionOn py lib now raw = some .hold →
        decisionOn py lib now raw' ≠ some .revoke) ∧
    ∀ sub billingPlanId granted writtenAt old,
      (recordSubscription sub billingPlanId granted writtenAt old).decide now = .revoke → sub.decide now = .revoke := by
  refine ⟨fun raw raw' h hkept hrevoke => ?_, fun sub billingPlanId granted writtenAt old hrevoke => ?_⟩
  · obtain ⟨sub', hparse, hdecide⟩ := decisionOn_eq_some hrevoke
    have hpolicy : sub'.policy = parseLifecyclePolicy lib raw' := by
      unfold parseSubscription at hparse
      obtain ⟨_, -, hparse⟩ := bind_ok hparse
      obtain ⟨_, -, hparse⟩ := bind_ok hparse
      obtain ⟨_, -, hparse⟩ := bind_ok hparse
      obtain ⟨_, -, hparse⟩ := bind_ok hparse
      obtain ⟨_, -, hparse⟩ := bind_ok hparse
      cases hparse
      rfl
    unfold ParsedSubscription.decide at hdecide
    rw [hpolicy] at hdecide
    have hwhole : decisionOn py lib now raw = some .revoke := by
      unfold decisionOn
      rw [h.parse hparse]
      exact congrArg some (h.forgets.revoke hdecide)
    rcases hkept with hgrant | hhold
    · rw [hwhole] at hgrant
      cases hgrant
    · rw [hwhole] at hhold
      cases hhold
  · exact (forgets_unknown sub.policy).revoke hrevoke

/-- A failed renewal of which three retries are allowed, and one has been made. -/
def retriedRow : PyDict :=
  [("status", .str "past_due"), ("dunningAttempts", .int 1),
    ("dunningPolicy", .dict [("maxAttempts", .int 3), ("cancelAfterFinalFailure", .bool false)])]

/-- The number of attempts is a text, and how many are allowed is not said. -/
def garbledRow : PyDict :=
  [("status", .str "past_due"), ("dunningAttempts", .str "three"),
    ("dunningPolicy", .dict [("cancelAfterFinalFailure", .bool false)])]

theorem blanked_garbledRow : Blanked retriedRow garbledRow where
  others key hkey := by
    simp only [List.mem_cons, List.not_mem_nil, or_false, not_or] at hkey
    obtain ⟨-, hdunning, hattempts⟩ := hkey
    unfold dictGet retriedRow garbledRow
    rw [lookup_cons_eq, lookup_cons_eq, lookup_cons_eq, lookup_cons_eq, lookup_cons_eq, lookup_cons_eq]
    simp [hdunning, hattempts]
  cancellation := .inl rfl
  dunning := by
    refine .inr (.inr ⟨_, _, rfl, rfl, fun part hpart => ?_⟩)
    simp only [dunningParts, List.mem_cons, List.not_mem_nil, or_false] at hpart
    rcases hpart with rfl | rfl
    · exact .inr rfl
    · exact .inl rfl
  attempts := .inr rfl

/-- What is recorded of the garbled row, with another status. -/
def garbledSubscription (status : String) : FlashSubscription :=
  ⟨"sub_1", status, none, none, "svc", "plan", none, none, none, none, none, none, none,
    parseLifecyclePolicy statusLib garbledRow⟩

/-- The garbled row is held as the whole one is, and so is the row of the table written from it;
    the row of a garbled one that has expired lapses, as it does when Flash reports it. -/
theorem garbledRow_held : decisionOn periodLib statusLib august retriedRow = some .hold ∧
    decisionOn periodLib statusLib august garbledRow ≠ some .revoke ∧
    (recordSubscription (garbledSubscription "past_due") 1 none august none).decide august ≠ .revoke ∧
    (garbledSubscription "expired").decide august = .revoke := by
  have hheld : decisionOn periodLib statusLib august retriedRow = some .hold := by rfl
  refine ⟨hheld, ?_, fun hrevoke => ?_, ?_⟩
  · exact (unknown_never_revokes periodLib statusLib august).1 retriedRow garbledRow blanked_garbledRow (.inr hheld)
  · have hhold : (garbledSubscription "past_due").decide august = .hold := by rfl
    have h := (unknown_never_revokes periodLib statusLib august).2 _ 1 none august none hrevoke
    rw [hhold] at h
    cases h
  · exact (unknown_never_revokes periodLib statusLib august).2 _ 1 none august none rfl

/-! ## End dates -/

/-- The two dates that may end a cancelled subscription. -/
def endKeys : List String := ["cancelEffectiveDate", "currentPeriodEnd"]

/-- Flash sent a date, and it cannot be read. -/
def Unreadable (py : PyLib) (raw : PyDict) (key : String) : Prop :=
  dictGet raw key ≠ .none ∧ flashTime py raw key true = .ok none

section
variable {py : PyLib} {lib : Lib} {raw : PyDict} {sub : ParsedSubscription}

/-- The end dates of a parsed row. -/
theorem parseSubscription_ends (h : parseSubscription py lib raw = .ok sub) :
    flashTime py raw "cancelEffectiveDate" true = .ok sub.cancelEffectiveDate ∧
      flashTime py raw "currentPeriodEnd" true = .ok sub.currentPeriodEnd := by
  unfold parseSubscription at h
  obtain ⟨_, -, h⟩ := bind_ok h
  obtain ⟨_, h₂, h⟩ := bind_ok h
  obtain ⟨_, -, h⟩ := bind_ok h
  obtain ⟨_, -, h⟩ := bind_ok h
  obtain ⟨_, h₅, h⟩ := bind_ok h
  cases h
  exact ⟨h₅, h₂⟩

end

/-- **A date that cannot be read.**  A cancellation whose mode is not `immediate` and of
    which one of the end dates cannot be read is not revoked if and only if the other one can
    be read and is still to come. -/
theorem unreadable_end_iff (py : PyLib) (lib : Lib) (raw : PyDict) (now : DateTime) (sub : ParsedSubscription)
    (hparse : parseSubscription py lib raw = .ok sub) (hstatus : sub.status = cancelledStatus)
    (hmode : sub.policy.cancellationMode ≠ some cancellationImmediate)
    (hsent : ∃ key ∈ endKeys, Unreadable py raw key) :
    sub.decide now ≠ .revoke ↔
      ∃ key ∈ endKeys, ∃ endsAt, flashTime py raw key true = .ok (some endsAt) ∧ now < endsAt := by
  obtain ⟨hced, hcpe⟩ := parseSubscription_ends hparse
  have hdecide : sub.decide now =
      decideCancelled sub.policy sub.cancelEffectiveDate sub.currentPeriodEnd now := by
    unfold ParsedSubscription.decide decideEntitlement
    rw [hstatus]
    rfl
  -- one of the dates is not read, so that the other one decides
  have hor : ∀ endsAt, sub.cancelEffectiveDate.or sub.currentPeriodEnd = some endsAt ↔
      sub.cancelEffectiveDate = some endsAt ∨ sub.currentPeriodEnd = some endsAt := by
    intro endsAt
    obtain ⟨key, hkey, -, hnone⟩ := hsent
    simp only [endKeys, List.mem_cons, List.not_mem_nil, or_false] at hkey
    rcases hkey with rfl | rfl
    · rw [hced, Except.ok.injEq] at hnone
      simp [hnone]
    · rw [hcpe, Except.ok.injEq] at hnone
      simp [hnone]
  rw [hdecide, Ne, decideCancelled_eq_revoke, or_iff_right hmode]
  simp only [endKeys, List.mem_cons, List.not_mem_nil, or_false, exists_eq_or_imp, exists_eq_left, hced, hcpe,
    Except.ok.injEq, hor]
  push Not
  constructor
  · rintro ⟨endsAt, hends | hends, hlt⟩
    · exact .inl ⟨endsAt, hends, hlt⟩
    · exact .inr ⟨endsAt, hends, hlt⟩
  · rintro (⟨endsAt, hends, hlt⟩ | ⟨endsAt, hends, hlt⟩)
    · exact ⟨endsAt, .inl hends, hlt⟩
    · exact ⟨endsAt, .inr hends, hlt⟩

/-- A cancellation at the end of the period, with a date that is no ISO text. -/
def secondsRow (currentPeriodEnd : String) : PyDict :=
  [("status", .str "canceled"), ("cancelEffectiveDate", .int 1759276800),
    ("currentPeriodEnd", .str currentPeriodEnd), ("cancellationPolicy", .dict [("mode", .str "end_of_period")])]

/-- The period end is left, and it is still to come. -/
theorem unreadable_end_held : ∃ sub, parseSubscription periodLib statusLib (secondsRow "2025-10-01") = .ok sub ∧
    sub.decide august ≠ .revoke := by
  refine ⟨_, rfl, ?_⟩
  refine (unreadable_end_iff periodLib statusLib (secondsRow "2025-10-01") august _ rfl rfl (by decide)
    ⟨"cancelEffectiveDate", by decide, fun h => (by cases h), rfl⟩).2 ?_
  exact ⟨"currentPeriodEnd", by decide, _, rfl, by decide⟩

/-- **Nothing is left**, and the tier is taken although Flash sent two end dates. -/
theorem unreadable_end_revoked : ∃ sub, parseSubscription periodLib statusLib (secondsRow "1 Oct 2025") = .ok sub ∧
    sub.status = cancelledStatus ∧ sub.policy.cancellationMode ≠ some cancellationImmediate ∧
    (∃ key ∈ endKeys, Unreadable periodLib (secondsRow "1 Oct 2025") key) ∧ ¬ sub.decide august ≠ .revoke := by
  refine ⟨_, rfl, rfl, by decide, ⟨"cancelEffectiveDate", by decide, fun h => (by cases h), rfl⟩,
    fun h => h rfl⟩

end BrainstormServer
