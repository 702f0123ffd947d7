/-
  The billing tables and the statements on them (`app/db_models`,
  `app/repos/user_subscription_repo.py`, `app/repos/brainstorm_nsec.py`,
  `app/repos/billing_plan_repo.py`, `app/repos/flash_webhook_event_repo.py`).

  Every repository function is one statement, hence one command (`Cmd`) with
  one answer (`Cmd.Ans`); `exec s c` is its effect in the session `s`.  Two
  things of the session are part of the store besides its uncommitted writes:
  the instances the ORM has loaded (`loaded`, `loadedEvent`).  A select of
  entities hands back the loaded instance where there is one, with the
  attribute values it was loaded with; only a rollback expires them, since the
  session factory sets `expire_on_commit=False`.

  An insert takes the next id of its table's sequence, which no rollback gives
  back.  A unique constraint is decided against the committed rows and the
  session's own; a session whose row would collide with an uncommitted one has
  to wait for that one's fate.

  Comparisons with a nullable column follow SQL's three-valued logic.
-/
import BrainstormServer.Billing.Decision
import BrainstormServer.Conc.Prog
import BrainstormServer.Conc.TxTable
import Mathlib.Data.List.Sort

namespace BrainstormServer

open Conc

/-! ## Rows -/

/-- `brainstorm_nsec`, the columns billing reads and writes. -/
structure BrainstormNsec where
  schedulingId : Option SchedulingId
  schedulingSource : SchedulingSource
  billingBlocked : Bool
  deriving DecidableEq

/-- The row `get_or_create_brainstorm_observer_nsec_by_pubkey_on_db` inserts. -/
def BrainstormNsec.created : BrainstormNsec := ⟨none, .default, false⟩

/-- `user_subscription`; the primary key, the user's public key, is the key of
    the row in the table, as for the tables below. -/
structure UserSubscription where
  flashSubscriptionId : String
  flashSubscriberId : Option String
  billingPlanId : ℕ
  grantedSchedulingId : Option SchedulingId
  flashStatus : String
  currentPeriodStart : Option DateTime
  currentPeriodEnd : Option DateTime
  nextBillingDate : Option DateTime
  trialEndDate : Option DateTime
  cancelEffectiveDate : Option DateTime
  portalUrl : Option String
  pricingAmountMinor : Option ℤ
  pricingCurrency : Option String
  pricingBillingInterval : Option String
  lastEventAt : Option DateTime
  lastSyncedAt : Option DateTime
  lastSyncError : Option String
  syncErrorSince : Option DateTime
  deriving DecidableEq

/-- `billing_plan`. -/
structure BillingPlan where
  flashServiceId : String
  flashPlanId : String
  schedulingId : SchedulingId
  isActive : Bool
  deriving DecidableEq

/-- `uq_billing_plan_flash_ids`: the pair that is unique. -/
def BillingPlan.sameFlashIds (plan plan' : BillingPlan) : Bool :=
  plan'.flashServiceId = plan.flashServiceId ∧ plan'.flashPlanId = plan.flashPlanId

/-- The fields of a delivery's `data` object that the server reads. -/
structure EventData where
  externalRef : Option String
  subscriptionId : Option String
  serviceId : Option String
  planId : Option String
  deriving DecidableEq

/-- `flash_webhook_event`. -/
structure FlashWebhookEvent where
  event : String
  eventTimestamp : Option DateTime
  deliveryTimestamp : ℤ
  subscriptionId : Option String
  payload : Option EventData
  createdAt : DateTime
  processingStartedAt : Option DateTime
  processedAt : Option DateTime
  attempts : ℕ
  processError : Option String
  resolvedBy : Option String
  resolution : Option String
  dedupeKey : String
  deriving DecidableEq

/-- The values of `insert_flash_webhook_event_on_db`. -/
structure NewWebhookEvent where
  event : String
  deliveryTimestamp : ℤ
  eventTimestamp : Option DateTime
  subscriptionId : Option String
  payload : EventData
  dedupeKey : String
  claimedAt : Option DateTime
  deriving DecidableEq

/-- The row it inserts: a claimed delivery counts as one attempt. -/
def NewWebhookEvent.row (new : NewWebhookEvent) (now : DateTime) : FlashWebhookEvent where
  event := new.event
  eventTimestamp := new.eventTimestamp
  deliveryTimestamp := new.deliveryTimestamp
  subscriptionId := new.subscriptionId
  payload := some new.payload
  createdAt := now
  processingStartedAt := new.claimedAt
  processedAt := none
  attempts := if new.claimedAt.isSome then 1 else 0
  processError := none
  resolvedBy := none
  resolution := none
  dedupeKey := new.dedupeKey

/-- The values `update_billing_plan_on_db` assigns; `none` is "not given". -/
structure PlanValues where
  flashServiceId : Option String
  flashPlanId : Option String
  schedulingId : Option SchedulingId
  isActive : Option Bool
  deriving DecidableEq

def PlanValues.apply (v : PlanValues) (plan : BillingPlan) : BillingPlan :=
  { plan with
    flashServiceId := v.flashServiceId.getD plan.flashServiceId
    flashPlanId := v.flashPlanId.getD plan.flashPlanId
    schedulingId := v.schedulingId.getD plan.schedulingId
    isActive := v.isActive.getD plan.isActive }

/-! ## Three-valued conditions -/

/-- `AND` of SQL; `none` is `NULL`. -/
def sqlAnd : Option Bool → Option Bool → Option Bool
  | some false, _ => some false
  | _, some false => some false
  | some true, some true => some true
  | _, _ => none

def sqlNot (b : Option Bool) : Option Bool := b.map (!·)

/-- `column = value`. -/
def sqlEq {α : Type} [DecidableEq α] (x : Option α) (y : α) : Option Bool :=
  x.map fun x => decide (x = y)

/-- `column <= value`. -/
def sqlLe (x : Option DateTime) (y : DateTime) : Option Bool := x.map fun x => decide (x ≤ y)

/-- The rule for a checkout nobody finished. -/
structure AbandonRule where
  after : ℤ
  error : String
  deriving DecidableEq

/-- `AbandonRule.condition`, as SQL evaluates it on a row. -/
def AbandonRule.condition (rule : AbandonRule) (row : UserSubscription) (now : DateTime) :
    Option Bool :=
  sqlAnd (some (row.flashStatus = "pending"))
    (sqlAnd (some row.grantedSchedulingId.isNone)
      (sqlAnd (sqlEq row.lastSyncError rule.error)
        (sqlAnd (some row.syncErrorSince.isSome) (sqlLe row.syncErrorSince (now - rule.after)))))

/-- `settled_condition`: expired, holding nothing, with no outstanding error. -/
def settledCondition (row : UserSubscription) : Bool :=
  row.flashStatus = "expired" ∧ row.grantedSchedulingId.isNone ∧ row.lastSyncError.isNone

/-- One hour, the lookahead of the renewal clause. -/
def oneHour : ℤ := 3600 * 1000000

/-- The `WHERE` of `select_reconcile_candidates_on_db`.  A clause on a null
    column is null, and `OR` drops it. -/
def reconcileCondition (row : UserSubscription) (now : DateTime) (staleAfter : ℤ)
    (abandoned : AbandonRule) : Bool :=
  (row.flashStatus ∈ [pastDueStatus, pendingStatus] ∨
    (row.flashStatus = "active" ∧ sqlLe row.currentPeriodEnd now = some true) ∨
    sqlLe row.nextBillingDate (now + oneHour) = some true ∨
    row.lastSyncedAt = none ∨
    sqlLe row.lastSyncedAt (now - staleAfter) = some true) ∧
  sqlNot (abandoned.condition row now) = some true ∧
  settledCondition row = false

/-- `ORDER BY last_synced_at ASC NULLS FIRST`. -/
def syncedBefore (r r' : UserSubscription) : Prop :=
  match r.lastSyncedAt, r'.lastSyncedAt with
  | none, _ => True
  | some _, none => False
  | some t, some t' => t ≤ t'

instance : DecidableRel syncedBefore := fun r r' => by
  unfold syncedBefore
  split <;> infer_instance

/-! ## What the statements write -/

/-- The row `upsert_user_subscription_on_db` leaves if the columns hold the values; those it
    does not name stay as they are on a row already there. -/
def recordSubscription (sub : FlashSubscription) (billingPlanId : ℕ)
    (granted : Option SchedulingId) (now : DateTime) (old : Option UserSubscription) :
    UserSubscription where
  flashSubscriptionId := sub.id
  flashSubscriberId := sub.subscriberId.bind (·.text?)
  billingPlanId := billingPlanId
  grantedSchedulingId := granted
  flashStatus := sub.status
  currentPeriodStart := sub.currentPeriodStart
  currentPeriodEnd := sub.currentPeriodEnd
  nextBillingDate := sub.nextBillingDate
  trialEndDate := sub.trialEndDate
  cancelEffectiveDate := sub.cancelEffectiveDate
  portalUrl := sub.portalUrl
  pricingAmountMinor := sub.pricing.bind (·.amountMinor)
  pricingCurrency := sub.pricing.bind (·.currency)
  pricingBillingInterval := sub.pricing.bind (·.billingInterval)
  lastEventAt := old.bind (·.lastEventAt)
  lastSyncedAt := some now
  lastSyncError := none
  syncErrorSince := none

/-- `clear_granted_scheduling_on_db`. -/
def clearGranted (row : UserSubscription) : UserSubscription :=
  { row with grantedSchedulingId := none }

/-- `update_flash_status_on_db`: the date is written only when given. -/
def setFlashStatus (status : String) (cancelEffectiveDate : Option DateTime)
    (row : UserSubscription) : UserSubscription :=
  { row with
    flashStatus := status
    cancelEffectiveDate := cancelEffectiveDate.or row.cancelEffectiveDate }

/-- `update_last_event_at_on_db`: never moves backwards. -/
def advanceLastEvent (eventTimestamp : DateTime) (row : UserSubscription) : UserSubscription :=
  match row.lastEventAt with
  | none => { row with lastEventAt := some eventTimestamp }
  | some t => if t < eventTimestamp then { row with lastEventAt := some eventTimestamp } else row

/-- `record_sync_failure_on_db`: only a change of reason restarts the clock. -/
def noteSyncFailure (reason : String) (now : DateTime) (row : UserSubscription) :
    UserSubscription :=
  { row with
    lastSyncError := some reason
    lastSyncedAt := some now
    syncErrorSince := if row.lastSyncError = some reason ∧ row.syncErrorSince.isSome
      then row.syncErrorSince else some now }

/-- The events `reset_events_awaiting_plan_on_db` makes replayable. -/
def awaitsPlan (serviceId planId error : String) (ev : FlashWebhookEvent) : Bool :=
  ev.processedAt = none ∧ ev.processError = some error ∧
    (ev.payload.bind (·.serviceId)) = some serviceId ∧ (ev.payload.bind (·.planId)) = some planId

/-- `_unattributed`: the payload names nobody. -/
def unattributed (ev : FlashWebhookEvent) : Bool :=
  (ev.payload.bind (·.externalRef)) = none ∨ (ev.payload.bind (·.externalRef)) = some ""

/-- The events `settle_unresolved_events_on_db` settles. -/
def settlesUnresolved (subscriptionId : String) (onlyUnattributed : Bool) (ev : FlashWebhookEvent) :
    Bool :=
  ev.subscriptionId = some subscriptionId ∧ ev.processedAt = none ∧
    (onlyUnattributed = true → unattributed ev = true)

/-- Whether an event is open and unclaimed, or its claim has gone stale. -/
def claimable (now : DateTime) (staleAfter : ℤ) (ev : FlashWebhookEvent) : Bool :=
  ev.processedAt = none ∧
    (ev.processingStartedAt = none ∨ sqlLe ev.processingStartedAt (now - staleAfter) = some true)

/-! ## Commands -/

/-- The two lookups Flash supports. -/
inductive Handle
  | byId (subscriptionId : String)
  | byRef (ref : String)
  deriving DecidableEq

/-- What a read of Flash fails with; the source names the first two. -/
inductive FlashError
  | unavailable (message : String)
  | credential (message : String)
  | unnamed (description : String)
  deriving DecidableEq

/-- What a step gets from outside: Flash's answers, and the clock. -/
structure Outside where
  flash : Handle → Except FlashError (Option FlashSubscription)
  now : DateTime

/-- The statements, the reads of Flash and the clock. -/
inductive Cmd
  | brainstormNsecExists (pubkey : Pubkey)
  | lockUserForUpdate (pubkey : Pubkey) (skipLocked : Bool)
  | isBillingBlocked (pubkey : Pubkey)
  | getSchedulingSource (pubkey : Pubkey)
  | setSchedulingForPubkey (pubkey : Pubkey) (schedulingId : Option SchedulingId)
      (source : SchedulingSource)
  | setBillingBlocked (pubkey : Pubkey) (blocked : Bool)
  | getUserSubscription (pubkey : Pubkey)
  | getUserSubscriptionByFlashId (flashSubscriptionId : String)
  | upsertUserSubscription (pubkey : Pubkey) (sub : FlashSubscription) (billingPlanId : ℕ)
      (granted : Option SchedulingId)
  | clearGrantedScheduling (pubkey : Pubkey)
  | updateFlashStatus (pubkey : Pubkey) (status : String) (cancelEffectiveDate : Option DateTime)
  | updateLastEventAt (pubkey : Pubkey) (eventTimestamp : DateTime)
  | recordSyncFailure (pubkey : Pubkey) (reason : String)
  | selectEntitlementCandidates
  | selectReconcileCandidates (now : DateTime) (staleAfter : ℤ) (limit : ℕ)
      (abandoned : AbandonRule)
  /-- an attribute of a loaded `UserSubscription` is read -/
  | readInstance (pubkey : Pubkey)
  /-- the code of the session gives up its references to loaded `UserSubscription`s -/
  | dropInstances
  | countSubscriptionsForPlan (planId : ℕ)
  | schedulingExists (schedulingId : SchedulingId)
  | getBillingPlan (flashServiceId flashPlanId : String)
  | getBillingPlanById (planId : ℕ)
  | insertBillingPlan (plan : BillingPlan)
  | updateBillingPlan (planId : ℕ) (values : PlanValues)
  | insertFlashWebhookEvent (new : NewWebhookEvent)
  | selectAbandonedWebhookEvents (now : DateTime) (staleAfter : ℤ) (maxAttempts limit : ℕ)
      (events : List String)
  | claimWebhookEvent (eventId : ℕ) (now : DateTime) (staleAfter : ℤ)
  | markWebhookEventProcessed (eventId : ℕ) (now : DateTime)
  | recordWebhookEventFailure (eventId : ℕ) (reason : String)
  | resetEventsAwaitingPlan (flashServiceId flashPlanId error : String)
  | settleUnresolvedEvents (subscriptionId : String) (now : DateTime)
      (resolution resolvedBy : String) (onlyUnattributed : Bool)
  /-- an attribute of a loaded `FlashWebhookEvent` is read -/
  | readEventInstance (eventId : ℕ)
  | fetchSubscription (handle : Handle)
  | utcNow
  | commit
  | rollback

/-- The answer to a command. -/
@[reducible] def Cmd.Ans : Cmd → Type
  | brainstormNsecExists _ => Bool
  | lockUserForUpdate _ _ => Bool
  | isBillingBlocked _ => Bool
  | getSchedulingSource _ => SchedulingSource
  | setSchedulingForPubkey _ _ _ => Unit
  | setBillingBlocked _ _ => Unit
  | getUserSubscription _ => Option UserSubscription
  | getUserSubscriptionByFlashId _ => Option (Pubkey × UserSubscription)
  | upsertUserSubscription _ _ _ _ => Unit
  | clearGrantedScheduling _ => Unit
  | updateFlashStatus _ _ _ => Unit
  | updateLastEventAt _ _ => Unit
  | recordSyncFailure _ _ => Unit
  | selectEntitlementCandidates => List (Pubkey × UserSubscription)
  | selectReconcileCandidates _ _ _ _ => List (Pubkey × UserSubscription)
  | readInstance _ => Bool
  | dropInstances => Unit
  | countSubscriptionsForPlan _ => ℕ
  | schedulingExists _ => Bool
  | getBillingPlan _ _ => Option (ℕ × BillingPlan)
  | getBillingPlanById _ => Option BillingPlan
  | insertBillingPlan _ => Option ℕ
  | updateBillingPlan _ _ => Unit
  | insertFlashWebhookEvent _ => Option ℕ
  | selectAbandonedWebhookEvents _ _ _ _ _ => List (ℕ × FlashWebhookEvent)
  | claimWebhookEvent _ _ _ => Bool
  | markWebhookEventProcessed _ _ => Unit
  | recordWebhookEventFailure _ _ => Unit
  | resetEventsAwaitingPlan _ _ _ => ℕ
  | settleUnresolvedEvents _ _ _ _ _ => ℕ
  | readEventInstance _ => Bool
  | fetchSubscription _ => Except FlashError (Option FlashSubscription)
  | utcNow => DateTime
  | commit => Unit
  | rollback => Unit

/-! ## The store -/

/-- The tables, what each session has loaded, and what the modelled code only
    reads: the scheduling policies, the keys of the subscribers in the order a
    scan meets them, and the ids the sequences have handed out. -/
structure Store (S : Type) where
  nsec : TxTable S Pubkey BrainstormNsec
  subscription : TxTable S Pubkey UserSubscription
  plan : TxTable S ℕ BillingPlan
  event : TxTable S ℕ FlashWebhookEvent
  loaded : S → Pubkey → Option UserSubscription
  loadedEvent : S → ℕ → Option FlashWebhookEvent
  pubkeys : List Pubkey
  planCount : ℕ
  eventCount : ℕ
  schedulings : List SchedulingId

namespace Store

variable {S : Type}

/-- The subscribers a scan of session `s` meets. -/
def subscriptions (st : Store S) (s : S) : List (Pubkey × UserSubscription) :=
  st.pubkeys.filterMap fun p => (st.subscription.view s p).map (p, ·)

def plans (st : Store S) (s : S) : List (ℕ × BillingPlan) :=
  (List.range st.planCount).filterMap fun i => (st.plan.view s i).map (i, ·)

def events (st : Store S) (s : S) : List (ℕ × FlashWebhookEvent) :=
  (List.range st.eventCount).filterMap fun i => (st.event.view s i).map (i, ·)

/-- The instance the ORM hands back for a selected row. -/
def entity (st : Store S) (s : S) (row : Pubkey × UserSubscription) : Pubkey × UserSubscription :=
  (row.1, (st.loaded s row.1).getD row.2)

def eventEntity (st : Store S) (s : S) (row : ℕ × FlashWebhookEvent) : ℕ × FlashWebhookEvent :=
  (row.1, (st.loadedEvent s row.1).getD row.2)

variable [DecidableEq S]

/-- The ORM keeps the instances of the selected rows. -/
def remember (st : Store S) (s : S) (ps : List Pubkey) : Store S :=
  { st with loaded := Function.update st.loaded s fun p =>
      (st.loaded s p).or (if p ∈ ps then st.subscription.view s p else none) }

def rememberEvents (st : Store S) (s : S) (is : List ℕ) : Store S :=
  { st with loadedEvent := Function.update st.loadedEvent s fun i =>
      (st.loadedEvent s i).or (if i ∈ is then st.event.view s i else none) }

/-- An ORM `UPDATE` of `user_subscription`; the loaded instance follows it. -/
def modifySubscription (st : Store S) (s : S) (pubkey : Pubkey)
    (f : UserSubscription → UserSubscription) : Option (Store S) :=
  (st.subscription.modify s pubkey f).map fun t =>
    { st with
      subscription := t
      loaded := Function.update st.loaded s
        (Function.update (st.loaded s) pubkey ((st.loaded s pubkey).map f)) }

def modifyEvent (st : Store S) (s : S) (eventId : ℕ) (f : FlashWebhookEvent → FlashWebhookEvent) :
    Option (Store S) :=
  (st.event.modify s eventId f).map fun t =>
    { st with
      event := t
      loadedEvent := Function.update st.loadedEvent s
        (Function.update (st.loadedEvent s) eventId ((st.loadedEvent s eventId).map f)) }

def commit (st : Store S) (s : S) : Store S :=
  { st with
    nsec := st.nsec.commit s
    subscription := st.subscription.commit s
    plan := st.plan.commit s
    event := st.event.commit s }

/-- A rollback also expires every instance the session has loaded. -/
def rollback (st : Store S) (s : S) : Store S :=
  { st with
    nsec := st.nsec.rollback s
    subscription := st.subscription.rollback s
    plan := st.plan.rollback s
    event := st.event.rollback s
    loaded := Function.update st.loaded s fun _ => none
    loadedEvent := Function.update st.loadedEvent s fun _ => none }

end Store

open Store in
/-- The effect of a command in session `s`; `none` if the session has to wait. -/
def exec {S : Type} [DecidableEq S] (s : S) :
    (c : Cmd) → Store S → Outside → Option (c.Ans × Store S)
  | .brainstormNsecExists p, st, _ => some ((st.nsec.view s p).isSome, st)
  | .lockUserForUpdate p skipLocked, st, _ =>
    if (st.nsec.view s p).isNone then some (false, st)
    else if st.nsec.free s p then some (true, { st with nsec := st.nsec.acquire s p })
    else if skipLocked then some (false, st) else none
  | .isBillingBlocked p, st, _ => some (((st.nsec.view s p).map (·.billingBlocked)).getD false, st)
  | .getSchedulingSource p, st, _ =>
    some (((st.nsec.view s p).map (·.schedulingSource)).getD .default, st)
  | .setSchedulingForPubkey p schedulingId source, st, _ =>
    (st.nsec.update s p fun row => some { row.getD .created with
      schedulingId := schedulingId, schedulingSource := source }).map
      fun t => ((), { st with nsec := t })
  | .setBillingBlocked p blocked, st, _ =>
    (st.nsec.modify s p fun row => { row with billingBlocked := blocked }).map
      fun t => ((), { st with nsec := t })
  | .getUserSubscription p, st, _ =>
    match st.subscription.view s p with
    | none => some (none, st)
    | some row => some (some (st.entity s (p, row)).2, st.remember s [p])
  | .getUserSubscriptionByFlashId flashSubscriptionId, st, _ =>
    match (st.subscriptions s).find? (·.2.flashSubscriptionId = flashSubscriptionId) with
    | none => some (none, st)
    | some row => some (some (st.entity s row), st.remember s [row.1])
  | .upsertUserSubscription p sub billingPlanId granted, st, ω =>
    (st.subscription.update s p fun old =>
      some (recordSubscription sub billingPlanId granted ω.now old)).map
      fun t => ((), { st with subscription := t, pubkeys := st.pubkeys.insert p })
  | .clearGrantedScheduling p, st, _ => (st.modifySubscription s p clearGranted).map (((), ·))
  | .updateFlashStatus p status cancelEffectiveDate, st, _ =>
    (st.modifySubscription s p (setFlashStatus status cancelEffectiveDate)).map (((), ·))
  | .updateLastEventAt p eventTimestamp, st, _ =>
    (st.modifySubscription s p (advanceLastEvent eventTimestamp)).map (((), ·))
  | .recordSyncFailure p reason, st, ω =>
    (st.modifySubscription s p (noteSyncFailure reason ω.now)).map (((), ·))
  | .selectEntitlementCandidates, st, _ =>
    let rows := (st.subscriptions s).filter (·.2.grantedSchedulingId.isSome)
    some (rows.map (st.entity s), st.remember s (rows.map (·.1)))
  | .selectReconcileCandidates now staleAfter limit abandoned, st, _ =>
    let rows := (((st.subscriptions s).filter (reconcileCondition ·.2 now staleAfter abandoned))
      |>.insertionSort fun row row' => syncedBefore row.2 row'.2).take limit
    some (rows.map (st.entity s), st.remember s (rows.map (·.1)))
  | .readInstance p, st, _ => some ((st.loaded s p).isSome, st)
  | .dropInstances, st, _ =>
    some ((), { st with loaded := Function.update st.loaded s fun _ => none })
  | .countSubscriptionsForPlan planId, st, _ =>
    some (((st.subscriptions s).filter (·.2.billingPlanId = planId)).length, st)
  | .schedulingExists schedulingId, st, _ => some (decide (schedulingId ∈ st.schedulings), st)
  | .getBillingPlan serviceId planId, st, _ =>
    some ((st.plans s).find? fun p => p.2.flashServiceId = serviceId ∧ p.2.flashPlanId = planId,
      st)
  | .getBillingPlanById planId, st, _ => some (st.plan.view s planId, st)
  | .insertBillingPlan plan, st, _ =>
    if (st.plans s).any (plan.sameFlashIds ·.2) then some (none, st)
    else if st.plan.contended s plan.sameFlashIds (List.range st.planCount) then none
    else (st.plan.update s st.planCount fun _ => some plan).map
      fun t => (some st.planCount, { st with plan := t, planCount := st.planCount + 1 })
  | .updateBillingPlan planId values, st, _ =>
    (st.plan.modify s planId values.apply).map fun t => ((), { st with plan := t })
  | .insertFlashWebhookEvent new, st, ω =>
    if (st.events s).any (·.2.dedupeKey = new.dedupeKey) then some (none, st)
    else if st.event.contended s (·.dedupeKey = new.dedupeKey) (List.range st.eventCount) then none
    else (st.event.update s st.eventCount fun _ => some (new.row ω.now)).map
      fun t => (some st.eventCount, { st with event := t, eventCount := st.eventCount + 1 })
  | .selectAbandonedWebhookEvents now staleAfter maxAttempts limit events, st, _ =>
    let rows := (((st.events s).filter fun ev => claimable now staleAfter ev.2 ∧
        ev.2.attempts < maxAttempts ∧ ev.2.event ∈ events)
      |>.insertionSort fun ev ev' => ev.2.createdAt ≤ ev'.2.createdAt).take limit
    some (rows.map (st.eventEntity s), st.rememberEvents s (rows.map (·.1)))
  | .claimWebhookEvent eventId now staleAfter, st, _ =>
    match (st.event.view s eventId).filter (claimable now staleAfter) with
    | none => some (false, st)
    | some _ => (st.modifyEvent s eventId fun ev =>
        { ev with processingStartedAt := some now, attempts := ev.attempts + 1 }).map ((true, ·))
  | .markWebhookEventProcessed eventId now, st, _ =>
    (st.modifyEvent s eventId fun ev =>
      { ev with processedAt := some now, processError := none }).map (((), ·))
  | .recordWebhookEventFailure eventId reason, st, _ =>
    (st.modifyEvent s eventId fun ev => { ev with processError := some reason }).map (((), ·))
  | .resetEventsAwaitingPlan serviceId planId error, st, _ =>
    let rows := (st.events s).filter (awaitsPlan serviceId planId error ·.2)
    (st.event.modifyAll s (fun ev => { ev with attempts := 0, processError := none })
      (rows.map (·.1))).map fun t => (rows.length, { st with event := t })
  | .settleUnresolvedEvents subscriptionId now resolution resolvedBy onlyUnattributed, st, _ =>
    let rows := (st.events s).filter (settlesUnresolved subscriptionId onlyUnattributed ·.2)
    (st.event.modifyAll s (fun ev => { ev with
        processedAt := some now, processError := none
        resolution := some resolution, resolvedBy := some resolvedBy })
      (rows.map (·.1))).map fun t => (rows.length, { st with event := t })
  | .readEventInstance eventId, st, _ => some ((st.loadedEvent s eventId).isSome, st)
  | .fetchSubscription handle, st, ω => some (ω.flash handle, st)
  | .utcNow, st, ω => some (ω.now, st)
  | .commit, st, _ => some ((), st.commit s)
  | .rollback, st, _ => some ((), st.rollback s)

theorem exec_commit {S : Type} [DecidableEq S] {s : S} {st : Store S} {ω : Outside} :
    exec s .commit st ω = some ((), st.commit s) := by
  simp only [exec]

theorem exec_rollback {S : Type} [DecidableEq S] {s : S} {st : Store S} {ω : Outside} :
    exec s .rollback st ω = some ((), st.rollback s) :=
  rfl

end BrainstormServer
