/-
  Who holds a Flash subscription
  (`attribute_unresolved_subscription` of `app/services/billing_service.py`,
  beside the webhook handling, the refreshes and the reconcile loop).

  `user_subscription` has one row per user and no constraint on
  `flash_subscription_id`; that no two users hold one subscription rests on the
  code.  A subscription with a reference is recorded for the user it names; one
  without is recorded for the user who has it on file already, or for the one an
  admin attributes it to, after a look at who holds it.

  * `Job.lawful`: whatever a session records, it has such a reason (`Rightful`);
  * `one_holder_of_undisputed`: in every run in which no attribution looks for
    the holder while a session has the subscription in hand for somebody else,
    no two users ever hold one subscription;
  * `attributed_twice`: two attributions that look before either has written.
-/
import BrainstormServer.Billing.Alone
import BrainstormServer.Billing.Commands

namespace BrainstormServer

open Conc Prog

/-! ## Jobs -/

/-- What a session does. -/
inductive Job
  | attribution (subscriptionId : String) (pubkey actingPubkey : Pubkey)
  | refresh (flashEnabled : Bool) (pubkey : Pubkey) (subscriptionId : Option String)
  /-- an operator's resync, or a payment handled without an inbox -/
  | entitle (externalRef subscriptionId : Option String) (yieldIfBusy : Bool)
  | deliver (recorded : RecordedDelivery)
  | replay (pyRepr : Exn → String) (limit : ℕ) (staleAfter : ℤ) (maxAttempts : ℕ)
  | reconcile (limit : ℕ) (staleAfter abandonPendingAfter : ℤ) (now : Option DateTime)

def Job.prog : Job → Billing Unit
  | attribution subscriptionId pubkey actingPubkey =>
    discard (dbSession (attributeUnresolvedSubscription subscriptionId pubkey actingPubkey))
  | refresh flashEnabled pubkey subscriptionId =>
    dbSession (refreshSubscriptionEndpoint flashEnabled pubkey subscriptionId)
  | entitle externalRef subscriptionId yieldIfBusy =>
    discard (dbSession (applyEntitlement externalRef subscriptionId yieldIfBusy false))
  | deliver recorded => dbSession (processDelivery recorded)
  | replay pyRepr limit staleAfter maxAttempts =>
    discard (dbSession (replayUnprocessedEvents pyRepr limit staleAfter maxAttempts))
  | reconcile limit staleAfter abandonPendingAfter now =>
    discard (dbSession (reconcileSubscriptions limit staleAfter abandonPendingAfter now))

/-- The subscription an attribution is about, and the user. -/
def Job.attributes : Job → Option (String × Pubkey)
  | attribution subscriptionId pubkey _ => some (subscriptionId, pubkey)
  | _ => none

/-! ## Reasons to record a subscription -/

/-- Nothing here ends the transaction or gives up what is loaded. -/
def Midway (t : Hist) : Prop := ∀ x ∈ t, x.1.endsTx = false ∧ x.1 ≠ .dropInstances

/-- The session found nobody to hold the subscription, in this transaction. -/
def Checked (id : String) (h : Hist) : Prop :=
  ∃ h₁ h₂, h = h₁ ++ ⟨.getUserSubscriptionByFlashId id, none⟩ :: h₂ ∧ Midway h₂

/-- The session found the subscription on the user's row, in this transaction. -/
def OnFile (p : Pubkey) (id : String) (h : Hist) : Prop :=
  ∃ h₁ row h₂, h = h₁ ++ ⟨.getUserSubscription p, some row⟩ :: h₂ ∧ row.flashSubscriptionId = id ∧
    Midway h₂

/-- Flash found `sub` by the handle. -/
def Answer (handle : Handle) (sub : FlashSubscription) (h : Hist) : Prop :=
  (⟨.fetchSubscription handle, .ok (some sub)⟩ : Σ c, Cmd.Ans c) ∈ h

/-- Why a session may record `sub` for the user `p`. -/
inductive Rightful (attributes : Option (String × Pubkey)) (p : Pubkey) (sub : FlashSubscription)
    (h : Hist) : Prop
  | reference (handle : Handle) (hans : Answer handle sub h)
      (href : handle = .byRef p ∨ given sub.ref = some p)
  | onFile (id : String) (hans : Answer (.byId id) sub h) (hnone : given sub.ref = none)
      (hfile : OnFile p id h)
  | attributed (id : String) (hans : Answer (.byId id) sub h) (hnone : given sub.ref = none)
      (hjob : attributes = some (id, p)) (hchecked : Checked id h)

/-- Every row recorded has its reason, and the holder is looked for before
    anything else. -/
structure Lawful (attributes : Option (String × Pubkey)) (h : Hist) (c : Cmd) : Prop where
  records : ∀ p sub plan granted, c = .upsertUserSubscription p sub plan granted →
    Rightful attributes p sub h
  first : ∀ id, c = .getUserSubscriptionByFlashId id → h = []

section
variable {att : Option (String × Pubkey)} {p : Pubkey} {sub : FlashSubscription} {h : Hist}

theorem Midway.append {t t' : Hist} (ht : Midway t) (ht' : Midway t') : Midway (t ++ t') := by
  intro x hx
  rcases List.mem_append.1 hx with hx | hx
  · exact ht x hx
  · exact ht' x hx

theorem Midway.singleton (c : Cmd) (a : c.Ans) (h1 : c.endsTx = false) (h2 : c ≠ .dropInstances) :
    Midway [⟨c, a⟩] := by
  intro x hx
  rw [List.mem_singleton.1 hx]
  exact ⟨h1, h2⟩

theorem Checked.append {id : String} (hc : Checked id h) {t : Hist} (ht : Midway t) :
    Checked id (h ++ t) := by
  obtain ⟨h₁, h₂, rfl, hm⟩ := hc
  exact ⟨h₁, h₂ ++ t, by simp, hm.append ht⟩

theorem OnFile.append {id : String} (hf : OnFile p id h) {t : Hist} (ht : Midway t) :
    OnFile p id (h ++ t) := by
  obtain ⟨h₁, row, h₂, rfl, hid, hm⟩ := hf
  exact ⟨h₁, row, h₂ ++ t, by simp, hid, hm.append ht⟩

theorem Answer.append {handle : Handle} (ha : Answer handle sub h) (t : Hist) :
    Answer handle sub (h ++ t) :=
  List.mem_append_left _ ha

theorem Rightful.append (hr : Rightful att p sub h) {t : Hist} (ht : Midway t) :
    Rightful att p sub (h ++ t) := by
  cases hr with
  | reference handle hans href => exact .reference handle (hans.append t) href
  | onFile id hans hnone hfile => exact .onFile id (hans.append t) hnone (hfile.append ht)
  | attributed id hans hnone hjob hchecked =>
    exact .attributed id (hans.append t) hnone hjob (hchecked.append ht)

theorem Rightful.snoc (hr : Rightful att p sub h) {c : Cmd} (a : c.Ans) (h1 : c.endsTx = false)
    (h2 : c ≠ .dropInstances) : Rightful att p sub (h ++ [⟨c, a⟩]) :=
  hr.append (.singleton c a h1 h2)

/-- The commands of which something is asked. -/
def Cmd.watched : Cmd → Bool
  | upsertUserSubscription _ _ _ _ => true
  | getUserSubscriptionByFlashId _ => true
  | _ => false

theorem lawful_of_not_watched {c : Cmd} (hc : c.watched = false) : Lawful att h c where
  records := by
    rintro p sub plan granted rfl
    cases hc
  first := by
    rintro id rfl
    cases hc

/-! ## A call of `apply_entitlement` -/

/-- What the guards let through may be recorded. -/
theorem rightful_of_guard {handle : Handle} {allowed : Bool} (hans : Answer handle sub h)
    (hguard : refuseReference p sub allowed = none)
    (hallowed : given sub.ref = none → allowed = true → Rightful att p sub h) :
    Rightful att p sub h := by
  unfold refuseReference at hguard
  cases href : given sub.ref with
  | none =>
    rw [href] at hguard
    cases allowed with
    | false => cases hguard
    | true => exact hallowed href rfl
  | some ref =>
    rw [href] at hguard
    simp only [ne_eq, ite_not, ite_eq_left_iff, reduceCtorEq, imp_false, not_not] at hguard
    exact .reference handle hans (Or.inr (by rw [href, hguard]))

/-- Only an attribution may take what names nobody, and only what it has checked. -/
def Permitted (att : Option (String × Pubkey)) (p : Pubkey) (subscriptionId : Option String)
    (allowUnreferenced : Bool) (h : Hist) : Prop :=
  allowUnreferenced = true →
    ∃ id, subscriptionId = some id ∧ att = some (id, p) ∧ Checked id h

theorem Permitted.append {subscriptionId : Option String} {allow : Bool}
    (hp : Permitted att p subscriptionId allow h) {t : Hist} (ht : Midway t) :
    Permitted att p subscriptionId allow (h ++ t) := by
  intro ha
  obtain ⟨id, hid, hatt, hc⟩ := hp ha
  exact ⟨id, hid, hatt, hc.append ht⟩

theorem lookUpSubscription_lawful {subscriptionId : Option String} {allow : Bool}
    (hp : Permitted att p subscriptionId allow h) :
    (lookUpSubscription p subscriptionId allow).Obeys (Lawful att)
      (fun r h' => ∀ sub allowed, r = .ok (some sub, allowed) →
        refuseReference p sub allowed = none → Rightful att p sub h') h := by
  unfold lookUpSubscription
  simp only [await, bind_eq, call_bind, pure_eq]
  refine obeys_bind.2 (fetchSubscription_obeys (fun _ => lawful_of_not_watched rfl) ?_ ?_)
  · intro e h' sub allowed hr
    cases hr
  intro handle r hhandle
  simp only
  split_ifs with hif
  · -- Flash has none under the reference: the id on file is next
    obtain ⟨rfl, -⟩ := hif
    refine ⟨lawful_of_not_watched rfl, fun stored => ?_⟩
    cases stored with
    | none =>
      intro sub allowed hr
      cases hr
    | some row =>
      refine obeys_bind.2 (fetchSubscription_obeys (fun _ => lawful_of_not_watched rfl) ?_ ?_)
      · intro e h' sub allowed hr
        cases hr
      · rintro handle' r' hhandle' sub allowed ⟨⟩ hguard
        obtain rfl := handle_byId hhandle'
        have hans : Answer (.byId row.flashSubscriptionId) sub
            ((h ++ [⟨.fetchSubscription handle, .ok none⟩] ++ [⟨.getUserSubscription p, some row⟩]) ++
              [⟨.fetchSubscription (.byId row.flashSubscriptionId), .ok (some sub)⟩]) := by
          unfold Answer
          simp
        refine rightful_of_guard hans hguard fun hnone _ => .onFile _ hans hnone ?_
        exact ⟨h ++ [⟨.fetchSubscription handle, .ok none⟩], row,
          [⟨.fetchSubscription (.byId row.flashSubscriptionId), .ok (some sub)⟩], by simp, rfl,
          .singleton _ _ rfl (by simp)⟩
  · rintro sub allowed ⟨⟩ hguard
    have hans : Answer handle sub (h ++ [⟨.fetchSubscription handle, .ok (some sub)⟩]) := by
      unfold Answer
      simp
    refine rightful_of_guard hans hguard fun hnone hallow => ?_
    obtain ⟨id, rfl, hatt, hchecked⟩ := hp hallow
    cases hgiven : given (some id) with
    | none =>
      rw [hgiven] at hhandle
      exact .reference handle hans (Or.inl (handle_byRef hhandle))
    | some id' =>
      rw [hgiven, Option.isSome_some, if_pos rfl, given_eq hgiven] at hhandle
      obtain rfl : Handle.byId id = handle := Option.some.inj hhandle
      exact .attributed id hans hnone hatt (hchecked.append (.singleton _ _ rfl (by simp)))

theorem currentSubscription_lawful (hr : Rightful att p sub h)
    (existing : Option UserSubscription) :
    (currentSubscription p existing sub).Obeys (Lawful att)
      (fun r h' => ∀ current, r = .ok current → Rightful att p current h') h := by
  unfold currentSubscription
  split_ifs
  · refine obeys_bind.2 (fetchSubscription_obeys (fun _ => lawful_of_not_watched rfl) ?_ ?_)
    · intro e h' current hr
      cases hr
    · rintro handle r hhandle current ⟨⟩
      obtain rfl := handle_byRef hhandle
      cases r with
      | none => exact hr.snoc _ rfl (by simp)
      | some current =>
        refine .reference (.byRef p) ?_ (Or.inl rfl)
        unfold Answer
        simp
  · rintro current ⟨⟩
    exact hr

theorem grantAndRecord_lawful (hr : Rightful att p sub h) (plan : ℕ × BillingPlan) (now : DateTime)
    (existing : Option UserSubscription) :
    (grantAndRecord p sub plan now existing).Obeys (Lawful att) (fun _ _ => True) h := by
  unfold grantAndRecord
  simp only [await, bind_eq, call_bind, pure_eq]
  refine ⟨lawful_of_not_watched rfl, fun blocked => ⟨lawful_of_not_watched rfl, fun source => ?_⟩⟩
  have hr₂ := (hr.snoc (c := .isBillingBlocked p) blocked rfl (by simp)).snoc
    (c := .getSchedulingSource p) source rfl (by simp)
  -- the row and the commit
  have hrecord : ∀ {h'} (g : Option SchedulingId) (out : EntitlementOutcome),
      Rightful att p sub h' →
      ((upsertUserSubscription p sub plan.1 g).bind fun _ =>
        Prog.op .commit fun _ => (.ret out : Billing EntitlementOutcome)).Obeys (Lawful att)
        (fun _ _ => True) h' := by
    intro h' g out hr'
    unfold upsertUserSubscription
    split_ifs
    · refine ⟨⟨?_, by simp⟩, fun _ => ⟨lawful_of_not_watched rfl, fun _ => trivial⟩⟩
      rintro q sub' plan' granted ⟨⟩
      exact hr'
    · trivial
  unfold assignPolicy
  beta_reduce
  split
  · refine ⟨lawful_of_not_watched rfl, fun _ => ?_⟩
    exact hrecord _ _ (hr₂.snoc _ rfl (by simp))
  · exact hrecord _ _ hr₂

theorem decideFrom_lawful (hr : Rightful att p sub h) :
    (decideFrom p sub).Obeys (Lawful att) (fun _ _ => True) h := by
  unfold decideFrom
  simp only [await, bind_eq, call_bind, pure_eq]
  refine ⟨lawful_of_not_watched rfl, fun existing => ?_⟩
  have hr₁ := hr.snoc (c := .getUserSubscription p) existing rfl (by simp)
  refine obeys_bind.2 (Obeys.mono ?_ (currentSubscription_lawful hr₁ existing))
  rintro (e | current) h' hcurrent
  · trivial
  · have hr₂ := hcurrent current rfl
    unfold getBillingPlan
    simp only [await, bind_eq, call_bind, pure_eq]
    refine ⟨lawful_of_not_watched rfl, fun plan => ?_⟩
    split_ifs
    · cases plan with
      | none => trivial
      | some plan =>
        refine ⟨lawful_of_not_watched rfl, fun now => ?_⟩
        have hr₃ := hr₂.snoc (c := .getBillingPlan current.serviceId current.planId) (some plan) rfl
          (by simp)
        exact grantAndRecord_lawful (hr₃.snoc (c := .utcNow) now rfl (by simp)) plan now existing
    · trivial

theorem reconcileLocked_lawful {subscriptionId : Option String} {allow : Bool}
    (hp : Permitted att p subscriptionId allow h) :
    (reconcileLocked p subscriptionId allow).Obeys (Lawful att) (fun _ _ => True) h := by
  unfold reconcileLocked
  simp only [bind_eq, pure_eq]
  refine obeys_bind.2 (Obeys.mono ?_ (lookUpSubscription_lawful hp))
  rintro (e | ⟨sub, allowed⟩) h' hfound
  · trivial
  · cases sub with
    | none => trivial
    | some sub =>
      show Prog.Obeys _ _ _ _
      dsimp only
      split
      · trivial
      · rename_i hguard
        exact decideFrom_lawful (hfound sub allowed rfl hguard)

/-- **What a call records, it may.** -/
theorem applyEntitlement_lawful {externalRef subscriptionId : Option String} {allow : Bool}
    (hp : ∀ p, given externalRef = some p → Permitted att p subscriptionId allow h)
    (yieldIfBusy : Bool) :
    (applyEntitlement externalRef subscriptionId yieldIfBusy allow).Obeys (Lawful att)
      (fun _ _ => True) h := by
  unfold applyEntitlement
  split
  · trivial
  · rename_i p href
    simp only [await, bind_eq, call_bind, pure_eq]
    refine ⟨lawful_of_not_watched rfl, fun found => ?_⟩
    cases found with
    | false => trivial
    | true =>
      refine ⟨lawful_of_not_watched rfl, fun locked => ?_⟩
      cases locked with
      | false => trivial
      | true =>
        refine reconcileLocked_lawful (((hp p href).append ?_).append ?_)
        · exact .singleton _ _ rfl (by simp)
        · exact .singleton _ _ rfl (by simp)

/-! ## The jobs -/

theorem applyEntitlement_always (externalRef subscriptionId : Option String) (yieldIfBusy : Bool) :
    (applyEntitlement externalRef subscriptionId yieldIfBusy false).Always (Lawful att) := by
  intro h
  refine applyEntitlement_lawful (fun p _ hallow => ?_) yieldIfBusy
  cases hallow

/-- A command that records nothing, before a lawful program. -/
theorem always_step {α : Type} {c : Cmd} {k : c.Ans → Billing α} (hc : c.watched = false)
    (hk : ∀ a, (k a).Always (Lawful att)) : (Prog.op c k).Always (Lawful att) :=
  always_op (fun _ => lawful_of_not_watched hc) hk

theorem always_dbSession {α : Type} {p : Billing α} (hp : p.Always (Lawful att)) :
    (dbSession p).Always (Lawful att) := by
  unfold dbSession
  refine (hp.tryCatch fun e => always_step rfl fun _ => always_raise e).bind fun a => ?_
  exact always_step rfl fun _ => always_step rfl fun _ => always_ret a

theorem always_discard {α : Type} {p : Billing α} (hp : p.Always (Lawful att)) :
    (discard p).Always (Lawful att) :=
  hp.bind fun _ => always_ret ()

theorem applyPayloadFallback_always (event : String) (externalRef : Option String) :
    (applyPayloadFallback event externalRef).Always (Lawful att) := by
  refine (applyPayloadFallback_uses (P := fun c => c.watched = false) (fun c hc => ?_) event
    externalRef).always fun _ _ => lawful_of_not_watched
  cases c <;> first | rfl | cases hc

theorem updateLastEventAt_always (p : Option Pubkey) (t : Option DateTime) :
    (updateLastEventAt p t).Always (Lawful att) := by
  unfold updateLastEventAt
  split
  · exact always_step rfl fun _ => always_ret ()
  · exact always_ret ()

theorem recordFailure_always (eventId : Option ℕ) (e : Exn) :
    (recordFailure eventId e).Always (Lawful att) := by
  unfold recordFailure
  split
  · exact always_ret ()
  · exact always_step rfl fun _ => always_step rfl fun _ => always_step rfl fun _ => always_ret ()

theorem processDelivery_always (recorded : RecordedDelivery) :
    (processDelivery recorded).Always (Lawful att) := by
  unfold processDelivery
  split_ifs
  · refine Always.tryCatch ?_ fun e => ?_
    · refine (applyEntitlement_always _ _ _).bind fun outcome => ?_
      cases recorded.eventId with
      | none => exact always_ret ()
      | some i =>
        dsimp only
        split_ifs
        · refine always_step rfl fun now => always_step rfl fun _ => ?_
          exact (updateLastEventAt_always _ _).bind fun _ => always_step rfl fun _ => always_ret ()
        · exact always_step rfl fun _ => always_step rfl fun _ => always_ret ()
    · cases e with
      | flashUnavailable m =>
        refine (recordFailure_always _ _).bind fun _ => ?_
        exact (applyPayloadFallback_always _ _).bind fun _ => always_ret ()
      | _ => exact recordFailure_always _ _
  · exact always_ret ()

theorem noteEventFailure_always (i : ℕ) (reason : String) :
    (noteEventFailure i reason).Always (Lawful att) := by
  refine always_step rfl fun found => ?_
  cases found with
  | false => exact always_raise _
  | true => exact always_step rfl fun _ => always_step rfl fun _ => always_ret ()

theorem replayClaimed_always (pyRepr : Exn → String) (at_ : DateTime) (i : ℕ)
    (event : FlashWebhookEvent) (target : EventData) :
    (replayClaimed pyRepr at_ i event target).Always (Lawful att) := by
  unfold replayClaimed
  refine Always.tryCatch ?_ fun e => ?_
  · refine (applyEntitlement_always _ _ _).bind fun outcome => ?_
    split_ifs
    · refine always_step rfl fun found => ?_
      cases found with
      | false => exact always_raise _
      | true =>
        refine always_step rfl fun _ => ?_
        exact (updateLastEventAt_always _ _).bind fun _ => always_step rfl fun _ => always_ret true
    · exact (noteEventFailure_always _ _).bind fun _ => always_ret false
  · cases e with
    | flashUnavailable m =>
      refine always_step rfl fun _ => (noteEventFailure_always _ _).bind fun _ => ?_
      exact (applyPayloadFallback_always _ _).bind fun _ => always_ret false
    | _ => exact always_step rfl fun _ => (noteEventFailure_always _ _).bind fun _ => always_ret false

theorem replayEvent_always (pyRepr : Exn → String) (at_ : DateTime) (staleAfter : ℤ) (i : ℕ)
    (event : FlashWebhookEvent) : (replayEvent pyRepr at_ staleAfter i event).Always (Lawful att) := by
  refine always_step rfl fun found => ?_
  cases found with
  | false => exact always_raise _
  | true =>
    refine always_step rfl fun claimed => always_step rfl fun _ => ?_
    cases claimed with
    | false => exact always_ret false
    | true =>
      simp only [if_true]
      cases event.payload with
      | none => exact (noteEventFailure_always _ _).bind fun _ => always_ret false
      | some target => exact replayClaimed_always _ _ _ _ _

theorem replayAll_always (pyRepr : Exn → String) (at_ : DateTime) (staleAfter : ℤ) :
    ∀ (events : List (ℕ × FlashWebhookEvent)) (n : ℕ),
      (replayAll pyRepr at_ staleAfter events n).Always (Lawful att) := by
  intro events
  induction events with
  | nil => exact fun n => always_ret n
  | cons event events ih =>
    intro n
    exact (replayEvent_always _ _ _ _ _).bind fun settled => always_step rfl fun _ => ih _

theorem noteFailure_always (p : Pubkey) (reason : String) :
    (noteFailure p reason).Always (Lawful att) := by
  refine always_step rfl fun found => ?_
  cases found with
  | false => exact always_raise _
  | true => exact always_step rfl fun _ => always_step rfl fun _ => always_ret ()

theorem reconcileRow_always (p : Pubkey) : (reconcileRow p).Always (Lawful att) := by
  unfold reconcileRow
  refine Always.tryCatch ?_ fun e => ?_
  · refine always_step rfl fun found => ?_
    cases found with
    | false => exact always_raise _
    | true =>
      refine (applyEntitlement_always _ _ _).bind fun outcome => ?_
      split_ifs
      · exact (noteFailure_always _ _).bind fun _ => always_ret _
      · exact always_ret _
  · cases e with
    | flashUnavailable m =>
      exact always_step rfl fun _ => (noteFailure_always _ _).bind fun _ => always_ret _
    | flashCredentialError m =>
      exact always_step rfl fun _ => (noteFailure_always _ _).bind fun _ => always_ret _
    | _ => exact always_raise _

theorem reconcileAll_always : ∀ (rows : List Pubkey) (result : ReconcileResult),
    (reconcileAll rows result).Always (Lawful att) := by
  intro rows
  induction rows with
  | nil => exact fun result => always_ret result
  | cons row rows ih =>
    intro result
    refine (reconcileRow_always row).bind fun turn => ?_
    cases turn with
    | reconciled => exact ih _
    | failed => exact ih _
    | abandon => exact always_ret _

theorem reconcileSubscriptions_always (limit : ℕ) (staleAfter abandonPendingAfter : ℤ)
    (now : Option DateTime) :
    (reconcileSubscriptions limit staleAfter abandonPendingAfter now).Always (Lawful att) := by
  unfold reconcileSubscriptions
  refine Always.bind ?_ fun at_ => always_step rfl fun candidates => reconcileAll_always _ _
  cases now with
  | none => exact always_step rfl fun t => always_ret t
  | some t => exact always_ret t

theorem refreshSubscriptionEndpoint_always (flashEnabled : Bool) (p : Pubkey)
    (subscriptionId : Option String) :
    (refreshSubscriptionEndpoint flashEnabled p subscriptionId).Always (Lawful att) := by
  unfold refreshSubscriptionEndpoint
  split_ifs
  · refine (always_discard (applyEntitlement_always _ _ _)).tryCatch fun e => ?_
    cases e with
    | flashUnavailable m => exact always_ret ()
    | flashCredentialError m => exact always_ret ()
    | _ => exact always_raise _
  · exact always_ret ()

theorem settleAttribution_always (id : String) (p acting : Pubkey) (applied : Bool)
    (reason : EntitlementReason) :
    (settleAttribution id p acting applied reason).Always (Lawful att) :=
  always_step rfl fun _ => always_step rfl fun _ => always_step rfl fun _ => always_ret _

/-- An attribution takes what names nobody after the check found no holder. -/
theorem attributeUnresolvedSubscription_lawful (id : String) (p acting : Pubkey) :
    (attributeUnresolvedSubscription id p acting).Obeys (Lawful (some (id, p)))
      (fun _ _ => True) [] := by
  unfold attributeUnresolvedSubscription
  simp only [await, bind_eq, call_bind]
  refine ⟨⟨by simp, fun _ _ => rfl⟩, fun holder => ?_⟩
  cases holder with
  | some holder =>
    dsimp only
    split_ifs
    · trivial
    · exact settleAttribution_always _ _ _ _ _ _
  | none =>
    refine ⟨lawful_of_not_watched rfl, fun existing => ?_⟩
    cases existing with
    | some existing => trivial
    | none =>
      refine obeys_bind.2 (Obeys.mono ?_ (applyEntitlement_lawful (fun q hq _ => ?_) false))
      · rintro (e | outcome) h' -
        · trivial
        · dsimp only
          split_ifs
          · exact settleAttribution_always _ _ _ _ _ _
          · split <;> trivial
      · rw [given_eq hq]
        exact ⟨id, rfl, rfl, [], [⟨.getUserSubscription p, none⟩], rfl,
          .singleton _ _ rfl (by simp)⟩

/-- **Every job is lawful.** -/
theorem Job.lawful (job : Job) :
    job.prog.Obeys (Lawful job.attributes) (fun _ _ => True) [] := by
  cases job with
  | attribution id p acting =>
    refine obeys_discard (obeys_dbSession (fun _ c hc => ?_)
      ((attributeUnresolvedSubscription_lawful id p acting).mono fun _ _ _ _ _ => trivial))
    rcases endsTx_cases hc with rfl | rfl
    · exact lawful_of_not_watched rfl
    · exact lawful_of_not_watched rfl
  | refresh flashEnabled p id =>
    exact always_dbSession (refreshSubscriptionEndpoint_always flashEnabled p id) _
  | entitle externalRef id yield =>
    exact always_discard (always_dbSession (applyEntitlement_always externalRef id yield)) _
  | deliver recorded => exact always_dbSession (processDelivery_always recorded) _
  | replay pyRepr limit staleAfter maxAttempts =>
    refine always_discard (always_dbSession ?_) _
    exact always_step rfl fun at_ => always_step rfl fun events => replayAll_always _ _ _ _ _
  | reconcile limit staleAfter abandonPendingAfter now =>
    exact always_discard (always_dbSession (reconcileSubscriptions_always _ _ _ _)) _

end

/-! ## Rows that name a subscription -/

/-- The row is there and names the subscription. -/
def Names (id : String) (row : Option UserSubscription) : Prop :=
  ∃ r ∈ row, r.flashSubscriptionId = id

/-- No row of the user names the subscription: not the committed one, not one
    written, not one loaded. -/
structure Absent {S : Type} (id : String) (p : Pubkey) (st : Store S) : Prop where
  committed : ¬ Names id (st.subscription.committed p)
  written : st.subscription.Everywhere p fun r => ¬ Names id r
  loaded : ∀ s, ¬ Names id (st.loaded s p)

/-- A scan meets every row there is. -/
def Store.Listed {S : Type} (st : Store S) : Prop :=
  ∀ p, p ∉ st.pubkeys → st.subscription.committed p = none ∧
    st.subscription.Everywhere p (· = none)

/-- An update of a subscriber's row leaves the subscription. -/
theorem subscriptionUpdate_id {c : Cmd} {ω : Outside} {f : UserSubscription → UserSubscription}
    (hf : c.subscriptionUpdate ω = some f) (row : UserSubscription) :
    (f row).flashSubscriptionId = row.flashSubscriptionId := by
  cases c <;> simp only [Cmd.subscriptionUpdate, Option.some.injEq, reduceCtorEq] at hf <;> subst hf
  case updateLastEventAt =>
    unfold advanceLastEvent
    split
    · rfl
    · split_ifs <;> rfl
  all_goals rfl

theorem names_map {c : Cmd} {ω : Outside} {f : UserSubscription → UserSubscription}
    (hf : c.subscriptionUpdate ω = some f) {id : String} {row : Option UserSubscription} :
    Names id (row.map f) ↔ Names id row := by
  cases row with
  | none => exact Iff.rfl
  | some r => simp [Names, subscriptionUpdate_id hf]

section
variable {S : Type} [DecidableEq S] {s : S} {c : Cmd} {st st' : Store S} {ω : Outside} {id : String}
  {p : Pubkey}

/-- What is loaded names the subscription only if it did, or the row seen does. -/
theorem exec_loaded_names {a : c.Ans} (h : exec s c st ω = some (a, st')) {s' : S}
    (hn : Names id (st'.loaded s' p)) :
    Names id (st.loaded s' p) ∨ Names id (st.subscription.view s p) := by
  by_cases hs : s' = s
  · subst hs
    rcases exec_loaded h with hsame | ⟨ps, rfl⟩ | ⟨q, f, -, hf, hm⟩ | rfl | rfl
    · rw [hsame] at hn
      exact Or.inl hn
    · obtain ⟨row, hrow, hid⟩ := hn
      rcases remember_loaded hrow with hl | hv
      · exact Or.inl ⟨row, hl, hid⟩
      · exact Or.inr ⟨row, hv, hid⟩
    · simp only [Store.modifySubscription, Option.map_eq_some_iff] at hm
      obtain ⟨t, -, rfl⟩ := hm
      simp only [Function.update_self] at hn
      by_cases hq : p = q
      · rw [hq, Function.update_self, names_map hf] at hn
        rw [hq]
        exact Or.inl hn
      · rw [Function.update_of_ne hq] at hn
        exact Or.inl hn
    · simp only [exec, Option.some.injEq, Prod.mk.injEq] at h
      rw [← h.2] at hn
      simp [Names] at hn
    · simp only [exec, Option.some.injEq, Prod.mk.injEq] at h
      rw [← h.2] at hn
      simp [Names, Store.rollback] at hn
  · have hother := (exec_other (e := ⟨s, st, c, a, st'⟩) ⟨ω, h⟩ (Ne.symm hs)).2.2
    rw [hother] at hn
    exact Or.inl hn

/-- What is loaded keeps its subscription until it is given up. -/
theorem exec_loaded_keeps {a : c.Ans} (h : exec s c st ω = some (a, st')) {s' : S}
    (hkeep : s = s' → ¬ (c = .rollback ∨ c = .dropInstances)) (hn : Names id (st.loaded s' p)) :
    Names id (st'.loaded s' p) := by
  by_cases hs : s = s'
  · subst hs
    rcases exec_loaded h with hsame | ⟨ps, rfl⟩ | ⟨q, f, -, hf, hm⟩ | hc | hc
    · rw [hsame]
      exact hn
    · obtain ⟨row, hrow, hid⟩ := hn
      exact ⟨row, by simp [Store.remember, Option.mem_def.1 hrow], hid⟩
    · simp only [Store.modifySubscription, Option.map_eq_some_iff] at hm
      obtain ⟨t, -, rfl⟩ := hm
      simp only [Function.update_self]
      by_cases hq : p = q
      · rw [hq, Function.update_self, names_map hf]
        rw [hq] at hn
        exact hn
      · rw [Function.update_of_ne hq]
        exact hn
    · exact absurd (Or.inr hc) (hkeep rfl)
    · exact absurd (Or.inl hc) (hkeep rfl)
  · rw [(exec_other (e := ⟨s, st, c, a, st'⟩) ⟨ω, h⟩ hs).2.2]
    exact hn

/-- A row read is the one loaded. -/
theorem exec_getUserSubscription_loads {row : UserSubscription}
    (h : exec s (.getUserSubscription p) st ω = some (some row, st')) :
    st'.loaded s p = some row := by
  simp only [exec] at h
  split at h
  · cases h
  · rename_i seen hseen
    cases h
    simp only [Store.remember, Function.update_self, List.mem_singleton, if_true, hseen,
      Store.entity]
    cases st.loaded s p <;> rfl

/-- A user without the subscription stays without it, unless it is recorded for
    them. -/
theorem exec_absent {a : c.Ans} (h : exec s c st ω = some (a, st')) (hp : Absent id p st)
    (hc : ∀ sub plan granted, c = .upsertUserSubscription p sub plan granted → sub.id ≠ id) :
    Absent id p st' := by
  have hwritten : st'.subscription.Everywhere p fun r => ¬ Names id r := by
    refine (exec_subscription h).everywhere hp.written ?_ ?_
    · rintro sub plan granted old hupsert ⟨r, ⟨⟩, hid⟩
      exact hc sub plan granted hupsert hid
    · intro f hf row hrow hn
      have hmap : Names id ((some row).map f) := hn
      exact hrow ((names_map hf).1 hmap)
  refine ⟨(hwritten s).committed, hwritten, fun s' hn => ?_⟩
  rcases exec_loaded_names h hn with hl | hv
  · exact hp.loaded s' hl
  · exact (hp.written s).view hv

theorem exec_listed {a : c.Ans} (h : exec s c st ω = some (a, st')) (hl : st.Listed) :
    st'.Listed := by
  intro p hp
  have hnone : st'.subscription.Everywhere p (· = none) := by
    cases exec_subscription h with
    | same hsub hkeys =>
      rw [hkeys] at hp
      rw [hsub]
      exact (hl p hp).2
    | record q sub plan granted _ hsub hkeys =>
      -- whoever gets a row is listed
      rw [hkeys, List.mem_insert_iff, not_or] at hp
      exact (hl p hp.2).2.update hsub fun hq => absurd hq.symm hp.1
    | update q f _ _ hsub hkeys =>
      rw [hkeys] at hp
      refine (hl p hp).2.modify hsub fun _ row hrow => ?_
      cases hrow
    | commit _ hst =>
      rw [hst] at hp ⊢
      exact (hl p hp).2.commit s
    | rollback _ hst =>
      rw [hst] at hp ⊢
      exact (hl p hp).2.rollback s
  exact ⟨(hnone s).committed, hnone⟩

end

/-! ## Flash -/

/-- What Flash answers, as far as the code relies on it: found by its id, a
    subscription has that id; found by a reference, it carries that reference;
    and the reference it carries, `owner`, is the one its checkout was given. -/
structure Faithful (owner : String → Option Pubkey) extends Outside where
  id_eq : ∀ {id sub}, flash (.byId id) = .ok (some sub) → sub.id = id
  ref_eq : ∀ {ref sub}, flash (.byRef ref) = .ok (some sub) → given sub.ref = some ref
  owner_eq : ∀ {handle sub}, flash handle = .ok (some sub) → sub.id ≠ "" →
    given sub.ref = owner sub.id

/-- The effect of a command beside such a Flash. -/
def execFaithful {S : Type} [DecidableEq S] (owner : String → Option Pubkey) (s : S) (c : Cmd)
    (st : Store S) (ω : Faithful owner) : Option (c.Ans × Store S) :=
  exec s c st ω.toOutside

section
variable {S : Type} [DecidableEq S] {owner : String → Option Pubkey} {s : S} {st st' : Store S}
  {l : List (LogEntry S)} {id : String} {p : Pubkey}

theorem trace_of_faithful (ht : Trace (execFaithful owner) st l st') : Trace exec st l st' := by
  induction ht with
  | nil => exact .nil _
  | cons ω he _ ih => exact .cons ω.toOutside he ih

/-- An answer in a session's past is Flash's. -/
theorem Answer.of_trace {handle : Handle} {sub : FlashSubscription}
    (ht : Trace (execFaithful owner) st l st') (ha : Answer handle sub (own s l)) :
    ∃ ω : Faithful owner, ω.flash handle = .ok (some sub) := by
  obtain ⟨e, he, hs, hx⟩ := mem_own ha
  obtain ⟨l₁, l₂, rfl⟩ := List.append_of_mem he
  obtain ⟨-, hexec, -⟩ := ht.split_cons
  obtain ⟨ω, hω⟩ := Entry.Executed.as hexec hs hx
  simp only [execFaithful, exec, Option.some.injEq, Prod.mk.injEq] at hω
  exact ⟨ω, hω.1⟩

/-- What a session found on file is still loaded. -/
theorem OnFile.loaded (ht : Trace (execFaithful owner) st l st') (hf : OnFile p id (own s l)) :
    Names id (st'.loaded s p) := by
  obtain ⟨h₁, row, h₂, hl, hid, hm⟩ := hf
  refine Trace.sustained (fun st => Names id (st.loaded s p))
    (fun c => c = .rollback ∨ c = .dropInstances) (c := .getUserSubscription p) (a := some row)
    ?_ ?_ (trace_of_faithful ht) hl ?_
  · intro e he hs hc
    obtain ⟨ω, hω⟩ := he.as hs hc
    exact ⟨row, exec_getUserSubscription_loads hω, hid⟩
  · intro e he hd hn
    obtain ⟨ω, hω⟩ := he
    exact exec_loaded_keeps hω hd hn
  · intro x hx
    obtain ⟨hend, hdrop⟩ := hm x hx
    rintro (hr | hd)
    · rw [hr] at hend
      cases hend
    · exact hdrop hd

end

/-! ## Runs -/

section
variable {S : Type} [DecidableEq S] (job : S → Job)

/-- Session `s` has the subscription in hand for the user `p`: it has written it
    to their row, it has their row loaded with it, or it attributes it to them
    and has found no holder. -/
inductive InHandFor (l : List (LogEntry S)) (st : Store S) (s : S) (id : String) (p : Pubkey) : Prop
  | written (r : Option UserSubscription) (hr : st.subscription.pending s p = some r)
      (hn : Names id r)
  | loaded (hn : Names id (st.loaded s p))
  | attributing (hjob : (job s).attributes = some (id, p)) (hchecked : Checked id (own s l))

/-- No attribution looks for the holder while a session has the subscription in
    hand for somebody else. -/
def Undisputed (log : List (LogEntry S)) : Prop :=
  ∀ l (e : LogEntry S) l' id p, log = l ++ e :: l' → e.cmd = .getUserSubscriptionByFlashId id →
    (job e.session).attributes = some (id, p) → ∀ s q, InHandFor job l e.before s id q → q = p

/-- The user has nothing to do with the subscription. -/
structure Off (l : List (LogEntry S)) (st : Store S) (id : String) (p : Pubkey) : Prop where
  absent : Absent id p st
  unchecked : ∀ s, (job s).attributes = some (id, p) → ¬ Checked id (own s l)

/-- The rows of a store at rest: a subscription that names somebody is theirs, any
    other is at most one user's, and a scan meets every row. -/
structure Store.Held (owner : String → Option Pubkey) (st : Store S) : Prop where
  named : ∀ id r p, id ≠ "" → owner id = some r → Names id (st.subscription.committed p) → p = r
  unnamed : ∀ id p q, id ≠ "" → owner id = none → Names id (st.subscription.committed p) →
    Names id (st.subscription.committed q) → p = q
  listed : ∀ p, p ∉ st.pubkeys → st.subscription.committed p = none

/-- The invariant: with what is under way counted in, a subscription that names
    somebody is theirs and any other is at most one user's. -/
structure OneHolder (owner : String → Option Pubkey) (l : List (LogEntry S)) (st : Store S) :
    Prop where
  named : ∀ id r p, id ≠ "" → owner id = some r → p ≠ r → Absent id p st
  unnamed : ∀ id p q, id ≠ "" → owner id = none → p ≠ q → Off job l st id p ∨ Off job l st id q
  listed : st.Listed

variable {job} {owner : String → Option Pubkey} {l : List (LogEntry S)} {st : Store S}
  {id : String} {p : Pubkey}

omit [DecidableEq S] in
theorem absent_of_quiet (hq : st.Quiet) (hp : ¬ Names id (st.subscription.committed p)) :
    Absent id p st where
  committed := hp
  written s := ⟨hp, fun r hr => by
    rw [hq.subscription_pending s p] at hr
    cases hr⟩
  loaded s hn := by
    obtain ⟨row, hrow, -⟩ := hn
    rw [hq.loaded] at hrow
    cases hrow

theorem not_checked_nil : ¬ Checked id [] := by
  rintro ⟨h₁, h₂, h, -⟩
  simp at h

theorem oneHolder_start (hq : st.Quiet) (hst : st.Held owner) : OneHolder job owner [] st where
  named id r p hid ho hp := absent_of_quiet hq fun hn => hp (hst.named id r p hid ho hn)
  unnamed id p q hid ho hp := by
    by_cases hn : Names id (st.subscription.committed p)
    · refine Or.inr ⟨absent_of_quiet hq fun hn' => hp (hst.unnamed id p q hid ho hn hn'), ?_⟩
      exact fun s _ => not_checked_nil
    · exact Or.inl ⟨absent_of_quiet hq hn, fun s _ => not_checked_nil⟩
  listed p hp := by
    have hnone := hst.listed p hp
    refine ⟨hnone, fun s => ⟨hnone, fun r hr => ?_⟩⟩
    rw [hq.subscription_pending s p] at hr
    cases hr

/-- A check passed is the one just made, or was passed before. -/
theorem checked_snoc {s : S} {e : LogEntry S} (h : Checked id (own s (l ++ [e]))) :
    Checked id (own s l) ∨
      e.session = s ∧ (⟨e.cmd, e.ans⟩ : Σ c, Cmd.Ans c) = ⟨.getUserSubscriptionByFlashId id, none⟩ := by
  rw [own_append_singleton] at h
  split_ifs at h with hs
  · obtain ⟨h₁, h₂, hsplit, hm⟩ := h
    rcases List.eq_nil_or_concat h₂ with rfl | ⟨h₂, x, rfl⟩
    · exact Or.inr ⟨hs, (List.append_inj' hsplit rfl).2 |> List.singleton_inj.1⟩
    · rw [List.concat_eq_append, ← List.cons_append, ← List.append_assoc] at hsplit
      refine Or.inl ⟨h₁, h₂, (List.append_inj' hsplit rfl).1, fun y hy => hm y ?_⟩
      simp [hy]
  · exact Or.inl h

/-- Recording a subscription for a user who has nothing to do with it is not lawful. -/
theorem Off.not_recorded {st₀ : Store S} {e : LogEntry S}
    (ht : Trace (execFaithful owner) st₀ l e.before) (hoff : Off job l e.before id p)
    (hid : id ≠ "") (ho : owner id = none) {sub : FlashSubscription}
    (hr : Rightful (job e.session).attributes p sub (own e.session l)) : sub.id ≠ id := by
  rintro rfl
  cases hr with
  | reference handle hans href =>
    obtain ⟨ω, hω⟩ := hans.of_trace ht
    have howner : given sub.ref = owner sub.id := ω.owner_eq hω hid
    rw [ho] at howner
    rcases href with rfl | href
    · rw [ω.ref_eq hω] at howner
      cases howner
    · rw [href] at howner
      cases howner
  | onFile i hans hnone hfile =>
    obtain ⟨ω, hω⟩ := hans.of_trace ht
    rw [← ω.id_eq hω] at hfile
    exact hoff.absent.loaded _ (hfile.loaded ht)
  | attributed i hans hnone hjob hchecked =>
    obtain ⟨ω, hω⟩ := hans.of_trace ht
    rw [← ω.id_eq hω] at hjob hchecked
    exact hoff.unchecked _ hjob hchecked

theorem off_step {st₀ : Store S} {e : LogEntry S}
    (ht : Trace (execFaithful owner) st₀ l e.before) (he : e.Executed (execFaithful owner))
    (hl : Lawful (job e.session).attributes (own e.session l) e.cmd) (hid : id ≠ "")
    (ho : owner id = none) (hoff : Off job l e.before id p)
    (hnot : (⟨e.cmd, e.ans⟩ : Σ c, Cmd.Ans c) = ⟨.getUserSubscriptionByFlashId id, none⟩ →
      (job e.session).attributes ≠ some (id, p)) : Off job (l ++ [e]) e.after id p where
  absent := by
    obtain ⟨ω, hω⟩ := he
    refine exec_absent hω hoff.absent fun sub plan granted hc => ?_
    exact hoff.not_recorded ht hid ho (hl.records p sub plan granted hc)
  unchecked s hs hchecked := by
    rcases checked_snoc hchecked with hc | ⟨rfl, hc⟩
    · exact hoff.unchecked s hs hc
    · exact hnot hc hs

/-- When an undisputed check finds no holder, nobody else has anything to do with
    the subscription. -/
theorem off_of_check {st₀ : Store S} {e : LogEntry S} (hq : st₀.Quiet)
    (ht : Trace (execFaithful owner) st₀ l e.before) (he : e.Executed (execFaithful owner))
    (hfirst : own e.session l = []) (hlisted : e.before.Listed)
    (hc : (⟨e.cmd, e.ans⟩ : Σ c, Cmd.Ans c) = ⟨.getUserSubscriptionByFlashId id, none⟩)
    (hund : ∀ s q, InHandFor job l e.before s id q → q = p) {q : Pubkey} (hqp : q ≠ p) :
    Off job l e.before id q := by
  have hpending : e.before.subscription.pending e.session q = none := by
    by_contra hne
    obtain ⟨h₁, c, a, h₂, hown, -⟩ := wrote_subscription (trace_of_faithful ht)
      (hq.subscription_pending e.session q) hne
    rw [hfirst] at hown
    simp at hown
  have hcommitted : ¬ Names id (e.before.subscription.committed q) := by
    rintro ⟨row, hrow, hname⟩
    obtain ⟨ω, hω⟩ := Entry.Executed.as he rfl hc
    have hmem : q ∈ e.before.pubkeys := by
      by_contra hn
      rw [(hlisted q hn).1] at hrow
      cases hrow
    have hview : (q, row) ∈ e.before.subscriptions e.session := by
      simp only [Store.subscriptions, List.mem_filterMap, Option.map_eq_some_iff, Prod.mk.injEq]
      exact ⟨q, hmem, row, by rw [TxTable.view_eq_committed hpending]; exact hrow, rfl, rfl⟩
    simp only [execFaithful, exec] at hω
    split at hω
    · rename_i hnone
      have := List.find?_eq_none.1 hnone (q, row) hview
      simp [hname] at this
    · cases hω
  refine ⟨⟨hcommitted, fun s => ⟨hcommitted, fun r hr hn => ?_⟩, fun s hn => ?_⟩, fun s hjob hch => ?_⟩
  · exact hqp (hund s q (.written r hr hn))
  · exact hqp (hund s q (.loaded hn))
  · exact hqp (hund s q (.attributing hjob hch))

/-- **The invariant holds along an undisputed run.** -/
theorem oneHolder_of_trace {st₀ : Store S} (hq : st₀.Quiet) (hst : st₀.Held owner) :
    ∀ (l : List (LogEntry S)) {st : Store S}, Trace (execFaithful owner) st₀ l st →
      (∀ l₁ (e : LogEntry S) l₂, l = l₁ ++ e :: l₂ →
        Lawful (job e.session).attributes (own e.session l₁) e.cmd) →
      Undisputed job l → OneHolder job owner l st := by
  intro l
  induction l using List.reverseRecOn with
  | nil =>
    intro st ht _ _
    rw [ht.nil_eq]
    exact oneHolder_start hq hst
  | append_singleton l e ih =>
    intro st ht hlawful hund
    obtain ⟨ht', he, rfl⟩ := ht.snoc
    have hl := hlawful l e [] rfl
    have hinv : OneHolder job owner l e.before := by
      refine ih ht' (fun l₁ e' l₂ hl => ?_) fun l₁ e' l₂ i p hl => ?_
      · exact hlawful l₁ e' (l₂ ++ [e]) (by rw [hl]; simp)
      · exact hund l₁ e' (l₂ ++ [e]) i p (by rw [hl]; simp)
    refine ⟨?_, ?_, ?_⟩
    · intro id r p hid ho hp
      obtain ⟨ω, hω⟩ := he
      refine exec_absent hω (hinv.named id r p hid ho hp) fun sub plan granted hc => ?_
      rintro rfl
      -- a subscription that names somebody is recorded for them
      cases hl.records p sub plan granted hc with
      | reference handle hans href =>
        obtain ⟨ω', hω'⟩ := hans.of_trace ht'
        have howner : given sub.ref = owner sub.id := ω'.owner_eq hω' hid
        rw [ho] at howner
        rcases href with rfl | href
        · rw [ω'.ref_eq hω'] at howner
          exact hp (Option.some.inj howner)
        · rw [href] at howner
          exact hp (Option.some.inj howner)
      | onFile i hans hnone hfile =>
        obtain ⟨ω', hω'⟩ := hans.of_trace ht'
        rw [ω'.owner_eq hω' hid, ho] at hnone
        cases hnone
      | attributed i hans hnone hjob hchecked =>
        obtain ⟨ω', hω'⟩ := hans.of_trace ht'
        rw [ω'.owner_eq hω' hid, ho] at hnone
        cases hnone
    · intro id p q hid ho hpq
      have hkeep : ∀ u, ((⟨e.cmd, e.ans⟩ : Σ c, Cmd.Ans c) =
          ⟨.getUserSubscriptionByFlashId id, none⟩ → (job e.session).attributes ≠ some (id, u)) →
          Off job l e.before id u → Off job (l ++ [e]) e.after id u :=
        fun u hnot hoff => off_step ht' he hl hid ho hoff hnot
      by_cases hcheck : ∃ r, (⟨e.cmd, e.ans⟩ : Σ c, Cmd.Ans c) =
          ⟨.getUserSubscriptionByFlashId id, none⟩ ∧ (job e.session).attributes = some (id, r)
      · -- the user attributed to is the only one left
        obtain ⟨r, hc, hjob⟩ := hcheck
        have hcmd : e.cmd = .getUserSubscriptionByFlashId id := congrArg Sigma.fst hc
        have hother : ∀ u, u ≠ r → Off job (l ++ [e]) e.after id u := by
          intro u hu
          refine hkeep u (fun _ hjob' => ?_) ?_
          · rw [hjob] at hjob'
            cases hjob'
            exact hu rfl
          · exact off_of_check hq ht' he (hl.first id hcmd) hinv.listed hc
              (hund l e [] id r rfl hcmd hjob) hu
        by_cases hpr : p = r
        · exact Or.inr (hother q fun hqr => hpq (hpr.trans hqr.symm))
        · exact Or.inl (hother p hpr)
      · have hnot : ∀ u, (⟨e.cmd, e.ans⟩ : Σ c, Cmd.Ans c) =
            ⟨.getUserSubscriptionByFlashId id, none⟩ → (job e.session).attributes ≠ some (id, u) :=
          fun u hc hjob => hcheck ⟨u, hc, hjob⟩
        exact (hinv.unnamed id p q hid ho hpq).imp (hkeep p (hnot p)) (hkeep q (hnot q))
    · obtain ⟨ω, hω⟩ := he
      exact exec_listed hω hinv.listed

variable (job) (owner) in
/-- **One holder per subscription, unless it is disputed.**  In every run of the
    jobs beside a faithful Flash in which no attribution looks for the holder while
    a session has the subscription in hand for somebody else, no two committed rows
    name one subscription. -/
theorem one_holder_of_undisputed (hq : st.Quiet) (hst : st.Held owner)
    {xs : List (S × Faithful owner)} {cfg : Config Cmd.Ans Exn Unit S (Store S)}
    (hrun : (start (fun s => (job s).prog) st).run (execFaithful owner) xs = some cfg)
    (hund : Undisputed job cfg.log) (hid : id ≠ "")
    (hp : Names id (cfg.state.subscription.committed p)) {q : Pubkey}
    (hp' : Names id (cfg.state.subscription.committed q)) : p = q := by
  obtain ⟨es, hes, ht⟩ := Config.run_trace hrun
  have hlog : cfg.log = es := hes
  have hlawful : ∀ l₁ (e : LogEntry S) l₂, cfg.log = l₁ ++ e :: l₂ →
      Lawful (job e.session).attributes (own e.session l₁) e.cmd := by
    intro l₁ e l₂ hl
    exact Config.run_obeys (fun s => Lawful (job s).attributes) (fun _ _ _ => True) rfl
      (fun s => (job s).lawful) hrun hl
  rw [← hlog] at ht
  have hinv := oneHolder_of_trace hq hst cfg.log ht hlawful hund
  by_contra hne
  cases ho : owner id with
  | some r =>
    by_cases hpr : p = r
    · exact (hinv.named id r q hid ho fun hqr => hne (hpr.trans hqr.symm)).committed hp'
    · exact (hinv.named id r p hid ho hpr).committed hp
  | none =>
    rcases hinv.unnamed id p q hid ho hne with hoff | hoff
    · exact hoff.absent.committed hp
    · exact hoff.absent.committed hp'

end

/-! ## Two attributions -/

/-- Flash knows one subscription, made through the plain link: it names nobody. -/
def plainLink : Faithful fun _ => none where
  flash handle := .ok (if handle = .byId "sub_1" then
    some (sampleSubscription "sub_1" "active" none) else none)
  now := 10
  id_eq {id sub} h := by
    simp only [Except.ok.injEq, Option.ite_none_right_eq_some, Handle.byId.injEq,
      Option.some.injEq] at h
    rw [← h.2, h.1]
    rfl
  ref_eq {ref sub} h := by
    simp at h
  owner_eq {handle sub} h _ := by
    simp only [Except.ok.injEq, Option.ite_none_right_eq_some, Option.some.injEq] at h
    rw [← h.2]
    rfl

/-- `"alice"` and `"bob"`, neither with a subscription. -/
def twoUsers {S : Type} : Store S :=
  sampleStore (fun p => if p ∈ ["alice", "bob"] then some .created else none) (fun _ => none) []

/-- Two admins attribute the subscription, to `"alice"` and to `"bob"`; both look
    for the holder before either records. -/
def attributedBoth : Option (Config Cmd.Ans Exn Unit Bool (Store Bool)) :=
  (start (fun s => (Job.attribution "sub_1" (if s then "alice" else "bob") "admin").prog)
    twoUsers).run (execFaithful fun _ => none)
    ([(true, plainLink), (false, plainLink)] ++ List.replicate 12 (true, plainLink) ++
      List.replicate 12 (false, plainLink))

/-- The subscriptions on the rows of `"alice"` and `"bob"`. -/
def heldBy {S : Type} (cfg : Config Cmd.Ans Exn Unit S (Store S)) : Option String × Option String :=
  ((cfg.state.subscription.committed "alice").map (·.flashSubscriptionId),
    (cfg.state.subscription.committed "bob").map (·.flashSubscriptionId))

theorem names_of_map {id : String} {row : Option UserSubscription}
    (h : row.map (·.flashSubscriptionId) = some id) : Names id row :=
  Option.map_eq_some_iff.1 h

/-- **One payment, two accounts.**  Both attributions find no holder, and both
    record the subscription. -/
theorem attributed_twice :
    ∃ cfg, attributedBoth = some cfg ∧ Names "sub_1" (cfg.state.subscription.committed "alice") ∧
      Names "sub_1" (cfg.state.subscription.committed "bob") := by
  have h : attributedBoth.map heldBy = some (some "sub_1", some "sub_1") := by
    decide
  obtain ⟨cfg, hcfg, hheld⟩ := Option.map_eq_some_iff.1 h
  obtain ⟨ha, hb⟩ := Prod.mk.inj hheld
  exact ⟨cfg, hcfg, names_of_map ha, names_of_map hb⟩

/-- A session that has done nothing yet, or has just rolled back, has nothing in hand. -/
theorem not_inHandFor {S : Type} [DecidableEq S] {owner : String → Option Pubkey} {job : S → Job}
    {st₀ st : Store S} {l : List (LogEntry S)} {s : S} {id : String} {q : Pubkey} (hq : st₀.Quiet)
    (ht : Trace (execFaithful owner) st₀ l st)
    (hrest : own s l = [] ∨ ∃ l₀, ∃ e₀ : LogEntry S, l = l₀ ++ [e₀] ∧ e₀.session = s ∧ e₀.cmd = .rollback) :
    ¬ InHandFor job l st s id q := by
  intro hhand
  rcases hrest with hnil | ⟨l₀, e₀, rfl, hs, hcmd⟩
  · obtain ⟨hloaded, hpending⟩ := untouched_of_utcNow (trace_of_faithful ht) (by rw [hq.loaded])
      (hq.subscription_pending s q) (by simp [hnil])
    cases hhand with
    | written r hr hn =>
      rw [hpending] at hr
      cases hr
    | loaded hn =>
      obtain ⟨row, hrow, -⟩ := hn
      rw [hloaded] at hrow
      cases hrow
    | attributing _ hchecked =>
      rw [hnil] at hchecked
      exact not_checked_nil hchecked
  · obtain ⟨-, ⟨ω, hω⟩, rfl⟩ := ht.snoc
    obtain ⟨s', before, c, a, after⟩ := e₀
    obtain rfl : c = .rollback := hcmd
    obtain rfl : s' = s := hs
    simp only [execFaithful, exec, Option.some.injEq, Prod.mk.injEq] at hω
    obtain ⟨-, rfl⟩ := hω
    cases hhand with
    | written r hr hn => simp [Store.rollback, TxTable.rollback] at hr
    | loaded hn =>
      obtain ⟨row, hrow, -⟩ := hn
      simp [Store.rollback] at hrow
    | attributing _ hchecked =>
      obtain ⟨h₁, h₂, hsplit, hm⟩ := hchecked
      rw [own_append_singleton, if_pos rfl] at hsplit
      rcases List.eq_nil_or_concat h₂ with rfl | ⟨h₂, x, rfl⟩
      · cases List.singleton_inj.1 (List.append_inj' hsplit rfl).2
      · rw [List.concat_eq_append, ← List.cons_append, ← List.append_assoc] at hsplit
        have hx := List.singleton_inj.1 (List.append_inj' hsplit rfl).2
        have hends := (hm x (by simp)).1
        rw [← hx] at hends
        cases hends

/-- The two attributions, of which the second begins when the first has ended. -/
def attributedInTurn : Option (Config Cmd.Ans Exn Unit Bool (Store Bool)) :=
  (start (fun s => (Job.attribution "sub_1" (if s then "alice" else "bob") "admin").prog)
    twoUsers).run (execFaithful fun _ => none)
    (List.replicate 18 (true, plainLink) ++ List.replicate 2 (false, plainLink))

/-- The session of an entry, and whether it rolls back. -/
def turnOf (e : LogEntry Bool) : Bool × Bool :=
  (e.session, match e.cmd with
    | .rollback => true
    | _ => false)

/-- The turns of a log. -/
def turnsOf (cfg : Config Cmd.Ans Exn Unit Bool (Store Bool)) : List (Bool × Bool) := cfg.log.map turnOf

/-- Where a session looks for the holder, the other has done nothing yet or has rolled back. -/
theorem atRest_of_turns {cfg : Config Cmd.Ans Exn Unit Bool (Store Bool)}
    (hturns : turnsOf cfg = List.replicate 17 (true, false) ++ [(true, true), (false, false), (false, true)])
    {l l' : List (LogEntry Bool)} {e : LogEntry Bool} (hl : cfg.log = l ++ e :: l')
    (hfirst : own e.session l = []) (s : Bool) :
    own s l = [] ∨ ∃ l₀, ∃ e₀ : LogEntry Bool, l = l₀ ++ [e₀] ∧ e₀.session = s ∧ e₀.cmd = .rollback := by
  have hnone : ∀ f ∈ l, f.session ≠ e.session := by
    intro f hf hs
    have hmem := own_of_mem hf
    rw [hs, hfirst] at hmem
    cases hmem
  cases hs : e.session with
  | true =>
    -- the first entry of the log is this session's
    cases l with
    | nil => exact Or.inl rfl
    | cons f l =>
      rw [turnsOf, hl, List.cons_append, List.map_cons] at hturns
      have hf : f.session = true := congrArg Prod.fst (List.cons.inj hturns).1
      exact absurd (hf.trans hs.symm) (hnone f List.mem_cons_self)
  | false =>
    rw [turnsOf, hl, List.map_append, List.map_cons] at hturns
    rcases split_compare hturns with ⟨m, hm, -⟩ | ⟨-, he, -⟩ | ⟨m, hm, hrest⟩
    · have he := List.eq_of_mem_replicate (hm ▸ List.mem_append_right _ List.mem_cons_self)
      have htrue : e.session = true := congrArg Prod.fst he
      rw [hs] at htrue
      cases htrue
    · have htrue : e.session = true := congrArg Prod.fst he
      rw [hs] at htrue
      cases htrue
    · cases m with
      | cons x m =>
        -- nothing of this session is before `e`
        have hx : x = (false, false) := (List.cons.inj hrest).1.symm
        have hmem : x ∈ l.map turnOf := by
          rw [hm]
          simp
        obtain ⟨f, hf, hfx⟩ := List.mem_map.1 hmem
        rw [hx] at hfx
        have hfalse : f.session = false := congrArg Prod.fst hfx
        exact absurd (hfalse.trans hs.symm) (hnone f hf)
      | nil =>
        obtain ⟨l₀, m₀, rfl, -, hlast⟩ := List.map_eq_append_iff.1 hm
        obtain ⟨e₀, m₁, rfl, he₀, hnil⟩ := List.map_eq_cons_iff.1 hlast
        obtain rfl := List.map_eq_nil_iff.1 hnil
        have hsession : e₀.session = true := congrArg Prod.fst he₀
        have hrollback : (match e₀.cmd with
          | .rollback => true
          | _ => false) = true := congrArg Prod.snd he₀
        cases s with
        | true =>
          refine Or.inr ⟨l₀, e₀, rfl, hsession, ?_⟩
          revert hrollback
          cases e₀.cmd <;> simp
        | false => exact Or.inl (by rw [← hs]; exact hfirst)

/-- What a session has ended with, if it has raised. -/
def raisedBy {S α : Type} (cfg : Config Cmd.Ans Exn α S (Store S)) (s : S) : Option Exn :=
  match cfg.prog s with
  | .raise e => some e
  | _ => none

/-- **The second attribution is refused**: it finds the holder, and there is no other. -/
theorem one_holder_of_undisputed_twice :
    ∃ cfg, attributedInTurn = some cfg ∧ raisedBy cfg false =
        some (.httpException 409 "This subscription is already attributed to another user.") ∧
      Names "sub_1" (cfg.state.subscription.committed "alice") ∧
      ¬ Names "sub_1" (cfg.state.subscription.committed "bob") := by
  have h : attributedInTurn.map (fun cfg => (turnsOf cfg, raisedBy cfg false,
      (cfg.state.subscription.committed "alice").map (·.flashSubscriptionId))) =
      some (List.replicate 17 (true, false) ++ [(true, true), (false, false), (false, true)],
        some (.httpException 409 "This subscription is already attributed to another user."),
        some "sub_1") := by
    decide
  obtain ⟨cfg, hcfg, hrun⟩ := Option.map_eq_some_iff.1 h
  obtain ⟨hturns, hlast⟩ := Prod.mk.inj hrun
  obtain ⟨hrefused, hheld⟩ := Prod.mk.inj hlast
  have hquiet : (twoUsers : Store Bool).Quiet := sampleStore_quiet _ _ _
  have hstart : (twoUsers : Store Bool).Held fun _ => none := by
    refine ⟨?_, ?_, fun _ _ => rfl⟩
    · rintro id r p - ⟨⟩
    · rintro id p q - - ⟨row, ⟨⟩, -⟩
  refine ⟨cfg, hcfg, hrefused, names_of_map hheld, fun hbob => ?_⟩
  have hne : "alice" ≠ "bob" := by decide
  refine hne (one_holder_of_undisputed
    (fun s : Bool => .attribution "sub_1" (if s then "alice" else "bob") "admin") (fun _ => none) hquiet
    hstart hcfg ?_ (by decide) (names_of_map hheld) hbob)
  intro l e l' id p hl hc hjob s q hhand
  have hspec : Lawful (some ("sub_1", if e.session then "alice" else "bob")) (own e.session l) e.cmd := by
    refine Config.run_obeys (fun s => Lawful (some ("sub_1", if s then "alice" else "bob")))
      (fun _ _ _ => True) rfl ?_ hcfg hl
    exact fun s => Job.lawful (.attribution "sub_1" (if s then "alice" else "bob") "admin")
  obtain ⟨es, hes, ht⟩ := Config.run_trace hcfg
  have hlog : cfg.log = es := hes
  rw [← hlog, hl] at ht
  exact absurd hhand (not_inHandFor hquiet ht.split_cons.1 (atRest_of_turns hturns hl (hspec.first id hc) s))

end BrainstormServer
