/-
  What a Flash subscription entitles to (`app/core/flash.py`,
  `app/services/billing_service.py`).

  * `FlashSubscription` is one subscriber on one plan, as Flash reports it;
    its status is carried verbatim, since Flash documents the set as open;
  * `decideEntitlement` says what a status means for the user's policy: grant,
    hold or revoke;
  * `resolveEntitlement` turns that decision into what is written, given the
    billing block and an admin's hold on the assignment.
-/
import BrainstormServer.Nostr
import BrainstormServer.Postgres
import Mathlib.Data.Int.Notation
import Mathlib.Data.Nat.Notation
import Mathlib.Tactic.Common

namespace BrainstormServer

/-- The primary key of a scheduling policy. -/
abbrev SchedulingId := ℕ

/-- A naive UTC `datetime`, in microseconds. -/
abbrev DateTime := ℤ

/-! ## Flash's records -/

structure FlashPricing where
  amountMinor : Option ℤ
  currency : Option String
  billingInterval : Option String
  deriving DecidableEq

/-- How Flash says a subscription ends; `none` is "Flash did not tell us". -/
structure FlashLifecyclePolicy where
  cancellationMode : Option String
  dunningMaxAttempts : Option ℤ
  dunningAttempts : Option ℤ
  dunningCancelsAfterFinalFailure : Option Bool
  deriving DecidableEq

def unknownLifecyclePolicy : FlashLifecyclePolicy := ⟨none, none, none, none⟩

/-- The `subscriberId` of a row, which is taken as it is. -/
inductive SubscriberId
  | text (s : String)
  /-- what is neither a text nor `null`, as JSON -/
  | other (json : String)
  deriving DecidableEq

def SubscriberId.text? : SubscriberId → Option String
  | text s => some s
  | other _ => none

structure FlashSubscription where
  id : String
  status : String
  ref : Option String
  subscriberId : Option SubscriberId
  serviceId : String
  planId : String
  currentPeriodStart : Option DateTime
  currentPeriodEnd : Option DateTime
  nextBillingDate : Option DateTime
  trialEndDate : Option DateTime
  cancelEffectiveDate : Option DateTime
  portalUrl : Option String
  pricing : Option FlashPricing
  policy : FlashLifecyclePolicy
  deriving DecidableEq

/-- Whether the columns of `user_subscription` hold what Flash reports: the price is not read
    with a bound, nor the subscriber's id as a text. -/
def FlashSubscription.recordable (sub : FlashSubscription) : Bool :=
  fitsText sub.id && fitsText sub.status && sub.portalUrl.all fitsText &&
    (sub.subscriberId.all fun id => id.text?.any fitsText) &&
    sub.pricing.all fun pricing => pricing.amountMinor.all fitsInteger &&
      pricing.currency.all fitsText && pricing.billingInterval.all fitsText

/-- Whether no statement that reads or writes what Flash reports is refused. -/
def FlashSubscription.fits (sub : FlashSubscription) : Bool :=
  fitsText sub.serviceId && fitsText sub.planId && sub.recordable

def cancellationImmediate : String := "immediate"
def entitlingStatuses : List String := ["active", "trial"]
def endedStatuses : List String := ["expired", "paused"]
def cancelledStatus : String := "canceled"
def pastDueStatus : String := "past_due"
def pendingStatus : String := "pending"

/-! ## The decision -/

inductive EntitlementDecision
  | grant
  | hold
  | revoke
  deriving DecidableEq

inductive EntitlementReason
  | granted
  | revoked
  | held
  | blocked
  | adminOverride
  | noReference
  | unknownUser
  | unknownPlan
  | unknownSubscription
  | referenceMismatch
  | busy
  | attributed
  | dismissed
  deriving DecidableEq

/-- The text of a reason, as recorded on an event or a sync failure. -/
def EntitlementReason.value : EntitlementReason → String
  | granted => "granted"
  | revoked => "revoked"
  | held => "held"
  | blocked => "blocked"
  | adminOverride => "admin_override"
  | noReference => "no_reference"
  | unknownUser => "unknown_user"
  | unknownPlan => "unknown_plan"
  | unknownSubscription => "unknown_subscription"
  | referenceMismatch => "reference_mismatch"
  | busy => "busy"
  | attributed => "attributed"
  | dismissed => "dismissed"

/-- The outcomes that decided something. -/
def settledReasons : List EntitlementReason :=
  [.granted, .revoked, .held, .blocked, .adminOverride, .attributed, .dismissed]

structure EntitlementOutcome where
  applied : Bool
  reason : EntitlementReason
  deriving DecidableEq

/-- `_decide_past_due`: holding rests on the retrying coming to an end. -/
def decidePastDue (policy : FlashLifecyclePolicy) : EntitlementDecision :=
  if policy.dunningCancelsAfterFinalFailure ≠ some false then .hold
  else match policy.dunningAttempts, policy.dunningMaxAttempts with
    | some made, some allowed => if made ≥ allowed then .revoke else .hold
    | _, _ => .hold

/-- `_decide_cancelled`: a future end date is what defers a cancellation. -/
def decideCancelled (policy : FlashLifecyclePolicy)
    (cancelEffectiveDate currentPeriodEnd : Option DateTime) (now : DateTime) :
    EntitlementDecision :=
  if policy.cancellationMode = some cancellationImmediate then .revoke
  else match cancelEffectiveDate.or currentPeriodEnd with
    | some endsAt => if now < endsAt then .hold else .revoke
    | none => .revoke

def decideEntitlement (flashStatus : String)
    (cancelEffectiveDate currentPeriodEnd : Option DateTime) (now : DateTime)
    (policy : FlashLifecyclePolicy) : EntitlementDecision :=
  if flashStatus ∈ entitlingStatuses then .grant
  else if flashStatus ∈ endedStatuses then .revoke
  else if flashStatus = pastDueStatus then decidePastDue policy
  else if flashStatus = cancelledStatus then
    decideCancelled policy cancelEffectiveDate currentPeriodEnd now
  else .hold

/-- The decision on a subscription as Flash reports it. -/
def FlashSubscription.decide (sub : FlashSubscription) (now : DateTime) : EntitlementDecision :=
  decideEntitlement sub.status sub.cancelEffectiveDate sub.currentPeriodEnd now sub.policy

theorem decidePastDue_ne_grant (policy : FlashLifecyclePolicy) :
    decidePastDue policy ≠ .grant := by
  unfold decidePastDue
  split_ifs
  · simp
  · split
    · split_ifs <;> simp
    · simp

theorem decideCancelled_ne_grant (policy : FlashLifecyclePolicy) (ced cpe : Option DateTime)
    (now : DateTime) : decideCancelled policy ced cpe now ≠ .grant := by
  unfold decideCancelled
  split_ifs
  · simp
  · split
    · split_ifs <;> simp
    · simp

/-- Only an entitling status grants, whatever the dates and the policy say. -/
theorem decideEntitlement_eq_grant {flashStatus : String} {ced cpe : Option DateTime}
    {now : DateTime} {policy : FlashLifecyclePolicy} :
    decideEntitlement flashStatus ced cpe now policy = .grant ↔ flashStatus ∈ entitlingStatuses := by
  unfold decideEntitlement
  split_ifs with h1 h2 h3 h4
  · simp [h1]
  · simp [h1]
  · simp [h1, decidePastDue_ne_grant]
  · simp [h1, decideCancelled_ne_grant]
  · simp [h1]

/-! ## The resolution -/

/-- `SchedulingSource`: who put a user on their scheduling policy. -/
inductive SchedulingSource
  | default
  | billing
  | admin
  deriving DecidableEq

/-- Everything decided, before anything is written. -/
structure Resolution where
  writePolicy : Bool
  schedulingId : Option SchedulingId
  source : Option SchedulingSource
  grantedSchedulingId : Option SchedulingId
  reason : EntitlementReason
  deriving DecidableEq

def resolveEntitlement (decision : EntitlementDecision) (blocked adminHeld : Bool)
    (planSchedulingId : SchedulingId) (existingGranted : Option SchedulingId) : Resolution :=
  match decision with
  | .grant =>
    if blocked then
      { writePolicy := false, schedulingId := none, source := none,
        grantedSchedulingId := existingGranted, reason := .blocked }
    else
      { writePolicy := true, schedulingId := some planSchedulingId,
        source := some (if adminHeld then .admin else .billing),
        grantedSchedulingId := some planSchedulingId, reason := .granted }
  | .revoke =>
    if adminHeld then
      { writePolicy := false, schedulingId := none, source := none,
        grantedSchedulingId := existingGranted, reason := .adminOverride }
    else
      { writePolicy := true, schedulingId := none, source := some .default,
        grantedSchedulingId := none, reason := .revoked }
  | .hold =>
    { writePolicy := false, schedulingId := none, source := none,
      grantedSchedulingId := existingGranted, reason := .held }

def isAdminHeld (source : SchedulingSource) : Bool := source = .admin

/-- The three shapes of a resolution: a grant, a revocation, or a decision that
    leaves the policy alone and carries the recorded grant forward. -/
theorem resolveEntitlement_cases (decision : EntitlementDecision) (blocked adminHeld : Bool)
    (planId : SchedulingId) (existing : Option SchedulingId) :
    (decision = .grant ∧ blocked = false ∧
      resolveEntitlement decision blocked adminHeld planId existing =
        ⟨true, some planId, some (if adminHeld then .admin else .billing), some planId, .granted⟩) ∨
    (decision = .revoke ∧ adminHeld = false ∧
      resolveEntitlement decision blocked adminHeld planId existing =
        ⟨true, none, some .default, none, .revoked⟩) ∨
    (∃ reason ∈ [EntitlementReason.held, .blocked, .adminOverride],
      resolveEntitlement decision blocked adminHeld planId existing =
        ⟨false, none, none, existing, reason⟩) := by
  cases decision <;> cases blocked <;> cases adminHeld <;> simp [resolveEntitlement]

end BrainstormServer
