/-
  The billing operations as programs over the store
  (`app/services/billing_service.py`, `app/services/billing_sync_service.py`,
  `app/services/flash_webhook_service.py`, `app/routers/admin/users/router.py`,
  `app/routers/user/router.py`).

  A program runs in one session.  `dbSession` is what surrounds it: the commit
  after a normal end, and the close of the session, which gives up whatever is
  uncommitted, after every end.

  Left out is what only logs (`_warn_if_policy_is_inert` among it) or only
  renders the answer to the client.
-/
import BrainstormServer.Billing.Store

namespace BrainstormServer

open Conc Prog

/-- The exceptions the modelled code raises or meets. -/
inductive Exn
  | flashUnavailable (message : String)
  | flashCredentialError (message : String)
  | httpException (statusCode : ℕ) (detail : String)
  /-- a row would break a unique constraint -/
  | integrityError (constraint : String)
  /-- an expired instance was read outside a statement -/
  | missingGreenlet
  /-- one that a read of Flash lets through -/
  | unnamed (description : String)
  deriving DecidableEq

/-- `type(e).__name__` and `str(e)`. -/
def Exn.describe : Exn → String
  | flashUnavailable m => "FlashUnavailable: " ++ m
  | flashCredentialError m => "FlashCredentialError: " ++ m
  | httpException code detail => "HTTPException: " ++ toString code ++ ": " ++ detail
  | integrityError constraint => "IntegrityError: " ++ constraint
  | missingGreenlet => "MissingGreenlet: greenlet_spawn has not been called"
  | unnamed description => description

/-- A program of one session. -/
abbrev Billing (α : Type) := Prog Cmd.Ans Exn α

/-- Execute one command. -/
abbrev await (c : Cmd) : Billing c.Ans := call c

/-- `db_session` and `get_db`. -/
def dbSession {α : Type} (p : Billing α) : Billing α :=
  (p.tryCatch fun e => do
    await .rollback
    .raise e).bind fun a => do
  await .commit
  await .rollback
  pure a

/-- What `execute_db_statement` raises for a statement that is refused; the `detail` is the
    `repr` of the driver's exception. -/
def databaseError : Exn := .httpException 500 "DBAPIError"

/-- `get_billing_plan_on_db`. -/
def getBillingPlan (flashServiceId flashPlanId : String) :
    Billing (Option (ℕ × BillingPlan)) := do
  let plan ← await (.getBillingPlan flashServiceId flashPlanId)
  if fitsText flashServiceId && fitsText flashPlanId then pure plan else .raise databaseError

/-- `upsert_user_subscription_on_db`. -/
def upsertUserSubscription (pubkey : Pubkey) (subscription : FlashSubscription) (billingPlanId : ℕ)
    (grantedSchedulingId : Option SchedulingId) : Billing Unit :=
  if subscription.recordable then
    await (.upsertUserSubscription pubkey subscription billingPlanId grantedSchedulingId)
  else .raise databaseError

/-- Run a program for its effect. -/
def discard {α : Type} (p : Billing α) : Billing Unit := p.bind fun _ => .ret ()

/-! ## Reading Flash -/

/-- A text that is there and not empty. -/
def given (x : Option String) : Option String := x.filter (· ≠ "")

/-- `fetch_subscription`: an id goes before a reference, one of the two is needed. -/
def fetchSubscription (subscriptionId ref : Option String) : Billing (Option FlashSubscription) :=
  match (given subscriptionId).map Handle.byId <|> (given ref).map Handle.byRef with
  | none => .raise (.flashUnavailable "A subscription lookup needs a subscriptionId or a ref")
  | some handle => .op (.fetchSubscription handle) fun
    | .ok subscription => .ret subscription
    | .error (.unavailable m) => .raise (.flashUnavailable m)
    | .error (.credential m) => .raise (.flashCredentialError m)
    | .error (.unnamed description) => .raise (.unnamed description)

/-- The reads of `apply_entitlement` up to the guards: by the handle given, and
    failing that, where Flash was asked by reference, by the id on file.  The
    second component is `allow_unreferenced` from here on. -/
def lookUpSubscription (pubkey : Pubkey) (subscriptionId : Option String)
    (allowUnreferenced : Bool) : Billing (Option FlashSubscription × Bool) := do
  let subscription ← fetchSubscription subscriptionId
    (if (given subscriptionId).isSome then none else some pubkey)
  if subscription = none ∧ given subscriptionId = none then
    match ← await (.getUserSubscription pubkey) with
    | none => pure (none, allowUnreferenced)
    | some stored =>
      let subscription ← fetchSubscription (some stored.flashSubscriptionId) none
      pure (subscription, true)
  else pure (subscription, allowUnreferenced)

/-- The guards of `apply_entitlement` on the subscription in hand. -/
def refuseReference (pubkey : Pubkey) (subscription : FlashSubscription)
    (allowUnreferenced : Bool) : Option EntitlementReason :=
  match given subscription.ref with
  | none => if allowUnreferenced then none else some .noReference
  | some ref => if ref ≠ pubkey then some .referenceMismatch else none

/-- `_names_another_subscription`. -/
def namesAnotherSubscription (existing : UserSubscription) (subscription : FlashSubscription) :
    Bool :=
  (given subscription.ref).isSome ∧ existing.flashSubscriptionId ≠ "" ∧
    existing.flashSubscriptionId ≠ subscription.id

/-- The subscription that decides: where the one in hand is not the one on
    file, whatever Flash has under the reference. -/
def currentSubscription (pubkey : Pubkey) (existing : Option UserSubscription)
    (subscription : FlashSubscription) : Billing FlashSubscription :=
  if existing.any (namesAnotherSubscription · subscription) then do
    let current ← fetchSubscription none (some pubkey)
    pure (current.getD subscription)
  else pure subscription

/-! ## Applying an entitlement -/

/-- The assignment a resolution asks for, where it asks for one. -/
def assignPolicy (pubkey : Pubkey) (resolution : Resolution) : Billing Unit :=
  match resolution.writePolicy, resolution.source with
  | true, some source => await (.setSchedulingForPubkey pubkey resolution.schedulingId source)
  | _, _ => pure ()

/-- `_grant_and_record`. -/
def grantAndRecord (pubkey : Pubkey) (subscription : FlashSubscription) (plan : ℕ × BillingPlan)
    (now : DateTime) (existing : Option UserSubscription) : Billing EntitlementOutcome := do
  let blocked ← await (.isBillingBlocked pubkey)
  let source ← await (.getSchedulingSource pubkey)
  let resolution := resolveEntitlement (subscription.decide now) blocked (isAdminHeld source)
    plan.2.schedulingId (existing.bind (·.grantedSchedulingId))
  assignPolicy pubkey resolution
  upsertUserSubscription pubkey subscription plan.1 resolution.grantedSchedulingId
  await .commit
  pure ⟨resolution.writePolicy, resolution.reason⟩

/-- The part of `apply_entitlement` after the guards. -/
def decideFrom (pubkey : Pubkey) (subscription : FlashSubscription) :
    Billing EntitlementOutcome := do
  let existing ← await (.getUserSubscription pubkey)
  let subscription ← currentSubscription pubkey existing subscription
  match ← getBillingPlan subscription.serviceId subscription.planId with
  | none => pure ⟨false, .unknownPlan⟩
  | some plan =>
    let now ← await .utcNow
    grantAndRecord pubkey subscription plan now existing

/-- The part of `apply_entitlement` under the lock. -/
def reconcileLocked (pubkey : Pubkey) (subscriptionId : Option String)
    (allowUnreferenced : Bool) : Billing EntitlementOutcome := do
  match ← lookUpSubscription pubkey subscriptionId allowUnreferenced with
  | (none, _) => pure ⟨false, .unknownSubscription⟩
  | (some subscription, allowed) =>
    match refuseReference pubkey subscription allowed with
    | some reason => pure ⟨false, reason⟩
    | none => decideFrom pubkey subscription

/-- `apply_entitlement`: the user is locked before Flash is read. -/
def applyEntitlement (externalRef subscriptionId : Option String)
    (yieldIfBusy allowUnreferenced : Bool) : Billing EntitlementOutcome :=
  match given externalRef with
  | none => pure ⟨false, .noReference⟩
  | some pubkey => do
    if ← await (.brainstormNsecExists pubkey) then
      if ← await (.lockUserForUpdate pubkey yieldIfBusy) then
        reconcileLocked pubkey subscriptionId allowUnreferenced
      else pure ⟨false, .busy⟩
    else pure ⟨false, .unknownUser⟩

/-! ## Admin operations -/

structure BlockOutcome where
  found : Bool
  blocked : Bool
  revoked : Bool
  deriving DecidableEq

/-- `set_billing_block`. -/
def setBillingBlock (pubkey : Pubkey) (blocked : Bool) : Billing BlockOutcome := do
  if ← await (.brainstormNsecExists pubkey) then
    let _ ← await (.lockUserForUpdate pubkey false)
    await (.setBillingBlocked pubkey blocked)
    let revoked ← (if blocked then do
      if (← await (.getSchedulingSource pubkey)) = .billing then
        await (.setSchedulingForPubkey pubkey none .default)
        await (.clearGrantedScheduling pubkey)
        pure true
      else pure false
    else pure false)
    await .commit
    pure ⟨true, blocked, revoked⟩
  else pure ⟨false, false, false⟩

/-- `_require_scheduling`. -/
def requireScheduling (schedulingId : SchedulingId) : Billing Unit := do
  if ← await (.schedulingExists schedulingId) then pure ()
  else .raise (.httpException 404 "No such scheduling policy")

/-- `_require_unused_flash_ids`. -/
def requireUnusedFlashIds (flashServiceId flashPlanId : String) : Billing Unit := do
  match ← getBillingPlan flashServiceId flashPlanId with
  | none => pure ()
  | some _ => .raise (.httpException 409 "Another plan mapping already uses those Flash ids")

/-- `create_billing_plan`. -/
def createBillingPlan (values : BillingPlan) : Billing ℕ := do
  requireScheduling values.schedulingId
  requireUnusedFlashIds values.flashServiceId values.flashPlanId
  match ← await (.insertBillingPlan values) with
  | none => .raise (.integrityError "uq_billing_plan_flash_ids")
  | some planId =>
    let _ ← await (.resetEventsAwaitingPlan values.flashServiceId values.flashPlanId
      EntitlementReason.unknownPlan.value)
    await .commit
    pure planId

/-- The check `update_billing_plan` makes before it changes a plan's Flash ids. -/
def requireReidentifiable (planId : ℕ) (serviceId planRef : String) : Billing Unit := do
  let subscribers ← await (.countSubscriptionsForPlan planId)
  if subscribers ≠ 0 then
    .raise (.httpException 409 (toString subscribers ++ " subscriber(s) bought this mapping, " ++
      "so its Flash ids are fixed. Create a new mapping with the right ids and deactivate " ++
      "this one."))
  else requireUnusedFlashIds serviceId planRef

/-- `update_billing_plan`. -/
def updateBillingPlan (planId : ℕ) (values : PlanValues) : Billing Unit := do
  let _ ← (match values.schedulingId with
    | some schedulingId => requireScheduling schedulingId
    | none => pure ())
  match ← await (.getBillingPlanById planId) with
  | none => .raise (.httpException 404 "No such plan")
  | some current =>
    let serviceId := values.flashServiceId.getD current.flashServiceId
    let planRef := values.flashPlanId.getD current.flashPlanId
    if (serviceId, planRef) ≠ (current.flashServiceId, current.flashPlanId) then
      requireReidentifiable planId serviceId planRef
      await (.updateBillingPlan planId values)
      let _ ← await (.resetEventsAwaitingPlan serviceId planRef EntitlementReason.unknownPlan.value)
      await .commit
    else
      await (.updateBillingPlan planId values)
      await .commit

/-- `set_user_scheduling_endpoint`. -/
def setUserSchedulingEndpoint (pubkey : Pubkey) (schedulingId : SchedulingId) : Billing Unit := do
  if ← await (.schedulingExists schedulingId) then
    await (.setSchedulingForPubkey pubkey (some schedulingId) .admin)
  else .raise (.httpException 422 ("Unknown scheduling policy id " ++ toString schedulingId))

/-- `refresh_subscription_endpoint`: an unreadable Flash leaves what we hold. -/
def refreshSubscriptionEndpoint (flashEnabled : Bool) (pubkey : Pubkey)
    (subscriptionId : Option String) : Billing Unit :=
  if flashEnabled then
    (discard (applyEntitlement (some pubkey) subscriptionId false false)).tryCatch fun
      | .flashUnavailable _ => pure ()
      | .flashCredentialError _ => pure ()
      | e => .raise e
  else pure ()

/-- `clear_user_scheduling_override_endpoint`; `flashEnabled` is the setting. -/
def clearUserSchedulingOverrideEndpoint (flashEnabled : Bool) (pubkey : Pubkey) :
    Billing Unit := do
  await (.setSchedulingForPubkey pubkey none .default)
  if flashEnabled then
    (do let _ ← applyEntitlement (some pubkey) none false false
        pure ()).tryCatch fun
      | .flashUnavailable _ => pure ()
      | .flashCredentialError _ => pure ()
      | e => .raise e
  else pure ()

/-! ## Unresolved signups -/

/-- `ResolutionOutcome`. -/
structure ResolutionOutcome where
  subscriptionId : String
  resolution : EntitlementReason
  pubkey : Option Pubkey
  applied : Bool
  eventsSettled : ℕ
  entitlementReason : Option EntitlementReason
  deriving DecidableEq

/-- `_ATTRIBUTION_REFUSALS`. -/
def attributionRefusals : EntitlementReason → Option (ℕ × String)
  | .unknownUser => some (404, "No such user. Check the pubkey.")
  | .unknownSubscription =>
    some (404, "Flash has no subscription with this id, so there is nothing to attribute.")
  | .referenceMismatch =>
    some (409, "Flash says this subscription already belongs to a different user.")
  | .unknownPlan => some (409, "This subscription is for a plan nothing maps yet. Map the plan " ++
      "first, then attribute it.")
  | .busy => some (409, "This user is being reconciled right now. Try again in a moment.")
  | .noReference => some (409, "No pubkey to attribute this to.")
  | _ => none

/-- The table has an entry for every outcome that settles nothing, and no other. -/
theorem attributionRefusals_isSome (reason : EntitlementReason) :
    (attributionRefusals reason).isSome = true ↔ reason ∉ settledReasons := by
  cases reason <;> decide

/-- The end of `attribute_unresolved_subscription`: the open events are settled. -/
def settleAttribution (subscriptionId : String) (pubkey actingPubkey : Pubkey) (applied : Bool)
    (reason : EntitlementReason) : Billing ResolutionOutcome := do
  let now ← await .utcNow
  let settled ← await (.settleUnresolvedEvents subscriptionId now
    EntitlementReason.attributed.value actingPubkey false)
  await .commit
  pure ⟨subscriptionId, .attributed, some pubkey, applied, settled, some reason⟩

/-- `attribute_unresolved_subscription`. -/
def attributeUnresolvedSubscription (subscriptionId : String) (pubkey actingPubkey : Pubkey) :
    Billing ResolutionOutcome := do
  match ← await (.getUserSubscriptionByFlashId subscriptionId) with
  | some holder =>
    if holder.1 ≠ pubkey then
      .raise (.httpException 409 "This subscription is already attributed to another user.")
    else settleAttribution subscriptionId pubkey actingPubkey false .attributed
  | none =>
    match ← await (.getUserSubscription pubkey) with
    | some existing => .raise (.httpException 409 ("This user already holds subscription " ++
        existing.flashSubscriptionId ++ ". Resolve that one first."))
    | none =>
      let outcome ← applyEntitlement (some pubkey) (some subscriptionId) false true
      if outcome.reason ∈ settledReasons then
        settleAttribution subscriptionId pubkey actingPubkey outcome.applied outcome.reason
      else match attributionRefusals outcome.reason with
        | some (code, detail) => .raise (.httpException code detail)
        | none => .raise (.httpException 500 "Internal Server Error")

/-! ## Without Flash -/

/-- `_FALLBACK_STATUS`: what an event implies when Flash cannot be asked. -/
def fallbackStatus (event : String) : Option String :=
  if event = "subscription.expired" then some "expired"
  else if event = "subscription.canceled" then some "canceled"
  else if event = "subscription.past_due" then some "past_due"
  else none

/-- The revocation of `apply_payload_fallback`. -/
def revokeExpired (pubkey : Pubkey) (existing : UserSubscription) : Billing Unit := do
  let source ← await (.getSchedulingSource pubkey)
  let resolution := resolveEntitlement .revoke false (isAdminHeld source)
    (existing.grantedSchedulingId.getD 0) existing.grantedSchedulingId
  match resolution.writePolicy, resolution.source with
  | true, some source =>
    await (.setSchedulingForPubkey pubkey resolution.schedulingId source)
    await (.clearGrantedScheduling pubkey)
  | _, _ => pure ()

/-- What `apply_payload_fallback` writes for a stored row. -/
def applyFallbackStatus (pubkey : Pubkey) (status : String) (existing : UserSubscription) :
    Billing Bool := do
  let _ ← (if status = "expired" then revokeExpired pubkey existing else pure ())
  await (.updateFlashStatus pubkey status
    (if status = "canceled" ∧ existing.cancelEffectiveDate = none then existing.currentPeriodEnd
      else none))
  await .commit
  pure true

/-- `apply_payload_fallback`. -/
def applyPayloadFallback (event : String) (externalRef : Option String) : Billing Bool :=
  match fallbackStatus event, given externalRef with
  | some status, some pubkey => do
    if ← await (.lockUserForUpdate pubkey true) then
      match ← await (.getUserSubscription pubkey) with
      | none => pure false
      | some existing => applyFallbackStatus pubkey status existing
    else pure false
  | _, _ => pure false

/-! ## The sweep -/

/-- What the lapse sweep decides about a stored row. -/
def UserSubscription.decide (row : UserSubscription) (at_ : DateTime) : EntitlementDecision :=
  decideEntitlement row.flashStatus row.cancelEffectiveDate row.currentPeriodEnd at_
    unknownLifecyclePolicy

/-- One turn of `revoke_lapsed_entitlements`: whether the row's policy was taken. -/
def revokeLapsed (at_ : DateTime) (pubkey : Pubkey) (row : UserSubscription) : Billing Bool :=
  match row.grantedSchedulingId with
  | none => pure false
  | some granted =>
    if row.decide at_ = .revoke then do
      let source ← await (.getSchedulingSource pubkey)
      let resolution := resolveEntitlement (row.decide at_) false (isAdminHeld source) granted
        (some granted)
      match resolution.writePolicy, resolution.source with
      | true, some source =>
        await (.setSchedulingForPubkey pubkey resolution.schedulingId source)
        await (.clearGrantedScheduling pubkey)
        await .commit
        pure true
      | _, _ => pure false
    else pure false

/-- The loop of `revoke_lapsed_entitlements`. -/
def revokeAll (at_ : DateTime) : List (Pubkey × UserSubscription) → ℕ → Billing ℕ
  | [], revoked => pure revoked
  | (pubkey, row) :: rows, revoked => do
    let taken ← revokeLapsed at_ pubkey row
    revokeAll at_ rows (if taken then revoked + 1 else revoked)

/-- `now or utc_now()`. -/
def resolveNow (now : Option DateTime) : Billing DateTime :=
  match now with
  | some t => pure t
  | none => await .utcNow

/-- `revoke_lapsed_entitlements`. -/
def revokeLapsedEntitlements (now : Option DateTime) : Billing ℕ := do
  let at_ ← resolveNow now
  let rows ← await .selectEntitlementCandidates
  revokeAll at_ rows 0

/-! ## The reconcile loop -/

/-- `_UNSETTLED_REASONS`. -/
def unsettledReasons : List EntitlementReason :=
  [.unknownUser, .unknownPlan, .unknownSubscription, .referenceMismatch, .noReference]

structure ReconcileResult where
  reconciled : ℕ
  failed : ℕ
  deriving DecidableEq

/-- `row.pubkey` of the instance of `pubkey`; an expired one would be refreshed,
    which an `AsyncSession` cannot do outside a statement. -/
def instancePubkey (pubkey : Pubkey) : Billing Pubkey := do
  if ← await (.readInstance pubkey) then pure pubkey else .raise .missingGreenlet

/-- Record a failed read and commit it. -/
def noteFailure (row : Pubkey) (reason : String) : Billing Unit := do
  let pubkey ← instancePubkey row
  await (.recordSyncFailure pubkey reason)
  await .commit

/-- How one turn of `reconcile_subscriptions` ends. -/
inductive Turn
  | reconciled
  | failed
  | abandon
  deriving DecidableEq

/-- One turn of `reconcile_subscriptions`. -/
def reconcileRow (row : Pubkey) : Billing Turn :=
  (do
    let pubkey ← instancePubkey row
    let outcome ← applyEntitlement (some pubkey) none false false
    if outcome.reason ∈ unsettledReasons then
      noteFailure row outcome.reason.value
      pure Turn.failed
    else pure Turn.reconciled).tryCatch fun
  | .flashCredentialError _ => do
    await .rollback
    noteFailure row "credentials refused"
    pure .abandon
  | .flashUnavailable m => do
    await .rollback
    noteFailure row m
    pure .failed
  | e => .raise e

/-- The loop of `reconcile_subscriptions`. -/
def reconcileAll : List Pubkey → ReconcileResult → Billing ReconcileResult
  | [], result => pure result
  | row :: rows, result => do
    match ← reconcileRow row with
    | .reconciled => reconcileAll rows { result with reconciled := result.reconciled + 1 }
    | .failed => reconcileAll rows { result with failed := result.failed + 1 }
    | .abandon => pure { result with failed := result.failed + 1 }

/-- `reconcile_subscriptions`. -/
def reconcileSubscriptions (limit : ℕ) (staleAfter abandonPendingAfter : ℤ)
    (now : Option DateTime) : Billing ReconcileResult := do
  let at_ ← resolveNow now
  let candidates ← await (.selectReconcileCandidates at_ staleAfter limit
    ⟨abandonPendingAfter, EntitlementReason.unknownSubscription.value⟩)
  reconcileAll (candidates.map (·.1)) ⟨0, 0⟩

/-! ## Deliveries -/

def recognisedEvents : List String :=
  ["subscription.activated", "subscription.renewed", "subscription.past_due",
    "subscription.canceled", "subscription.expired"]

/-- What `record_delivery` returns; a duplicate is one the insert gave no id. -/
structure RecordedDelivery where
  eventId : Option ℕ
  event : String
  subscriptionId : Option String
  externalRef : Option String
  duplicate : Bool
  eventTimestamp : Option DateTime
  duplicate_eq : duplicate = eventId.isNone
  deriving DecidableEq

/-- `needs_processing`. -/
def RecordedDelivery.needsProcessing (recorded : RecordedDelivery) : Bool :=
  ¬ recorded.duplicate ∧ recorded.eventId.isSome ∧ recorded.event ∈ recognisedEvents

/-- What `record_delivery` does with a delivery it has read: the row is claimed
    for the session that will process it. -/
def insertDelivery (new : NewWebhookEvent) : Billing (Option ℕ) := do
  let now ← await .utcNow
  let eventId ← await (.insertFlashWebhookEvent { new with claimedAt := some now })
  await .commit
  pure eventId

/-- `update_last_event_at_on_db`, which needs both the user and the time. -/
def updateLastEventAt (pubkey : Option Pubkey) (eventTimestamp : Option DateTime) :
    Billing Unit :=
  match given pubkey, eventTimestamp with
  | some pubkey, some t => await (.updateLastEventAt pubkey t)
  | _, _ => pure ()

/-- `_record_failure`. -/
def recordFailure (eventId : Option ℕ) (err : Exn) : Billing Unit :=
  match eventId with
  | none => pure ()
  | some eventId => do
    await .rollback
    await (.recordWebhookEventFailure eventId (String.ofList (err.describe.toList.take 500)))
    await .commit

/-- The entitlement part of `process_delivery`. -/
def settleDelivery (recorded : RecordedDelivery) : Billing Unit := do
  let outcome ← applyEntitlement recorded.externalRef recorded.subscriptionId false false
  match recorded.eventId with
  | none => pure ()
  | some eventId =>
    if outcome.reason ∈ settledReasons then
      let now ← await .utcNow
      await (.markWebhookEventProcessed eventId now)
      updateLastEventAt recorded.externalRef recorded.eventTimestamp
      await .commit
    else
      await (.recordWebhookEventFailure eventId outcome.reason.value)
      await .commit

/-- `process_delivery`. -/
def processDelivery (recorded : RecordedDelivery) : Billing Unit :=
  if recorded.needsProcessing then
    (settleDelivery recorded).tryCatch fun
    | .flashUnavailable m => do
      recordFailure recorded.eventId (.flashUnavailable m)
      let _ ← applyPayloadFallback recorded.event recorded.externalRef
      pure ()
    | e => recordFailure recorded.eventId e
  else pure ()

/-- `event.id` of the instance of the event `id`; see `instancePubkey`. -/
def instanceEventId (id : ℕ) : Billing ℕ := do
  if ← await (.readEventInstance id) then pure id else .raise .missingGreenlet

/-- Record why an event was not settled, and commit that. -/
def noteEventFailure (id : ℕ) (reason : String) : Billing Unit := do
  let eventId ← instanceEventId id
  await (.recordWebhookEventFailure eventId reason)
  await .commit

section
variable (pyRepr : Exn → String)

/-- The entitlement part of one turn of `replay_unprocessed_events`; `pyRepr` is
    Python's `repr`. -/
def replayClaimed (at_ : DateTime) (id : ℕ) (event : FlashWebhookEvent) (target : EventData) :
    Billing Bool :=
  (do
    let outcome ← applyEntitlement target.externalRef target.subscriptionId true false
    if outcome.reason ∈ settledReasons then
      let eventId ← instanceEventId id
      await (.markWebhookEventProcessed eventId at_)
      updateLastEventAt target.externalRef event.eventTimestamp
      await .commit
      pure true
    else
      noteEventFailure id outcome.reason.value
      pure false).tryCatch fun
  | .flashUnavailable m => do
    await .rollback
    noteEventFailure id m
    let _ ← applyPayloadFallback event.event target.externalRef
    pure false
  | e => do
    await .rollback
    noteEventFailure id (pyRepr e)
    pure false

/-- One turn of `replay_unprocessed_events`: whether the event was settled. -/
def replayEvent (at_ : DateTime) (staleAfter : ℤ) (id : ℕ) (event : FlashWebhookEvent) :
    Billing Bool := do
  let eventId ← instanceEventId id
  let claimed ← await (.claimWebhookEvent eventId at_ staleAfter)
  await .commit
  if claimed then
    match event.payload with
    | none =>
      noteEventFailure id "payload missing"
      pure false
    | some target => replayClaimed pyRepr at_ id event target
  else pure false

/-- The loop of `replay_unprocessed_events`.  What one event's entitlement
    loaded is gone before the next one's turn. -/
def replayAll (at_ : DateTime) (staleAfter : ℤ) : List (ℕ × FlashWebhookEvent) → ℕ → Billing ℕ
  | [], replayed => pure replayed
  | (id, event) :: events, replayed => do
    let settled ← replayEvent pyRepr at_ staleAfter id event
    await .dropInstances
    replayAll at_ staleAfter events (if settled then replayed + 1 else replayed)

/-- `replay_unprocessed_events`. -/
def replayUnprocessedEvents (limit : ℕ) (staleAfter : ℤ) (maxAttempts : ℕ) : Billing ℕ := do
  let at_ ← await .utcNow
  let events ← await (.selectAbandonedWebhookEvents at_ staleAfter maxAttempts limit
    recognisedEvents)
  replayAll pyRepr at_ staleAfter events 0

end

end BrainstormServer
