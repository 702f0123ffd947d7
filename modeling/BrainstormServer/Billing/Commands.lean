/-
  Which commands the operations are made of, and what a command does to the
  inbox of webhook events and to the table of subscribers.

  * `Cmd.entitles` are the commands of `apply_entitlement`, `Cmd.fallsBack` those
    of the fallback;
  * `exec_event` is the inversion of `exec` for the table of events: a command
    leaves it, rewrites some of its rows in one way (`Cmd.eventUpdate`), inserts
    a row, or ends the transaction;
  * `exec_subscription` is the same for the table of subscribers.
-/
import BrainstormServer.Billing.Interleaving

namespace BrainstormServer

open Conc Prog

/-! ## The commands of an operation -/

/-- The commands of `apply_entitlement`, and of the fallback. -/
def Cmd.entitles : Cmd → Bool
  | brainstormNsecExists _ => true
  | lockUserForUpdate _ _ => true
  | isBillingBlocked _ => true
  | getSchedulingSource _ => true
  | setSchedulingForPubkey _ _ _ => true
  | getUserSubscription _ => true
  | upsertUserSubscription _ _ _ _ => true
  | clearGrantedScheduling _ => true
  | updateFlashStatus _ _ _ => true
  | getBillingPlan _ _ => true
  | fetchSubscription _ => true
  | utcNow => true
  | commit => true
  | _ => false

/-- The commands of `apply_payload_fallback`. -/
def Cmd.fallsBack : Cmd → Bool
  | lockUserForUpdate _ _ => true
  | getSchedulingSource _ => true
  | setSchedulingForPubkey _ _ _ => true
  | getUserSubscription _ => true
  | clearGrantedScheduling _ => true
  | updateFlashStatus _ _ _ => true
  | commit => true
  | _ => false

theorem Cmd.entitles_of_fallsBack {c : Cmd} (h : c.fallsBack = true) : c.entitles = true := by
  cases c <;> first | rfl | cases h

section
variable {P : Cmd → Prop}

theorem fetchSubscription_uses (hP : ∀ c, c.entitles = true → P c) (i ref : Option String) :
    (fetchSubscription i ref).Uses P := by
  unfold fetchSubscription
  split
  · trivial
  · refine ⟨hP _ rfl, fun a => ?_⟩
    match a with
    | .ok _ => trivial
    | .error (.unavailable _) => trivial
    | .error (.credential _) => trivial
    | .error (.unnamed _) => trivial

theorem lookUpSubscription_uses (hP : ∀ c, c.entitles = true → P c) (p : Pubkey)
    (i : Option String) (allow : Bool) : (lookUpSubscription p i allow).Uses P := by
  unfold lookUpSubscription
  refine (fetchSubscription_uses hP _ _).bind fun sub => ?_
  split_ifs
  · refine ⟨hP _ rfl, fun stored => ?_⟩
    cases stored with
    | none => trivial
    | some row => exact (fetchSubscription_uses hP _ _).bind fun _ => trivial
  · trivial

theorem currentSubscription_uses (hP : ∀ c, c.entitles = true → P c) (p : Pubkey)
    (existing : Option UserSubscription) (sub : FlashSubscription) :
    (currentSubscription p existing sub).Uses P := by
  unfold currentSubscription
  split_ifs
  · exact (fetchSubscription_uses hP _ _).bind fun _ => trivial
  · trivial

theorem assignPolicy_uses (hP : ∀ c, c.entitles = true → P c) (p : Pubkey) (res : Resolution) :
    (assignPolicy p res).Uses P := by
  unfold assignPolicy
  split
  · exact ⟨hP _ rfl, fun _ => trivial⟩
  · trivial

theorem upsertUserSubscription_uses (hP : ∀ c, c.entitles = true → P c) (p : Pubkey)
    (sub : FlashSubscription) (plan : ℕ) (granted : Option SchedulingId) :
    (upsertUserSubscription p sub plan granted).Uses P := by
  unfold upsertUserSubscription
  split_ifs
  · exact ⟨hP _ rfl, fun _ => trivial⟩
  · trivial

theorem getBillingPlan_uses (hP : ∀ c, c.entitles = true → P c) (serviceId planId : String) :
    (getBillingPlan serviceId planId).Uses P := by
  unfold getBillingPlan
  simp only [await, bind_eq, call_bind, pure_eq]
  refine ⟨hP _ rfl, fun plan => ?_⟩
  split_ifs
  · trivial
  · trivial

theorem grantAndRecord_uses (hP : ∀ c, c.entitles = true → P c) (p : Pubkey)
    (sub : FlashSubscription) (plan : ℕ × BillingPlan) (now : DateTime)
    (existing : Option UserSubscription) : (grantAndRecord p sub plan now existing).Uses P := by
  refine ⟨hP _ rfl, fun blocked => ⟨hP _ rfl, fun source => ?_⟩⟩
  refine (assignPolicy_uses hP _ _).bind fun _ => ?_
  exact (upsertUserSubscription_uses hP _ _ _ _).bind fun _ => ⟨hP _ rfl, fun _ => trivial⟩

theorem decideFrom_uses (hP : ∀ c, c.entitles = true → P c) (p : Pubkey)
    (sub : FlashSubscription) : (decideFrom p sub).Uses P := by
  refine ⟨hP _ rfl, fun existing => (currentSubscription_uses hP _ _ _).bind fun sub' => ?_⟩
  refine (getBillingPlan_uses hP _ _).bind fun plan => ?_
  cases plan with
  | none => trivial
  | some plan => exact ⟨hP _ rfl, fun now => grantAndRecord_uses hP _ _ _ _ _⟩

theorem reconcileLocked_uses (hP : ∀ c, c.entitles = true → P c) (p : Pubkey)
    (i : Option String) (allow : Bool) : (reconcileLocked p i allow).Uses P := by
  refine (lookUpSubscription_uses hP p i allow).bind fun r => ?_
  obtain ⟨_ | sub, allowed⟩ := r
  · trivial
  · dsimp only
    split
    · trivial
    · exact decideFrom_uses hP p sub

/-- **`apply_entitlement`** is made of the commands `entitles`. -/
theorem applyEntitlement_uses (hP : ∀ c, c.entitles = true → P c) (ref i : Option String)
    (yield allow : Bool) : (applyEntitlement ref i yield allow).Uses P := by
  unfold applyEntitlement
  split
  · trivial
  · refine ⟨hP _ rfl, fun found => ?_⟩
    cases found with
    | false => trivial
    | true =>
      refine ⟨hP _ rfl, fun locked => ?_⟩
      cases locked with
      | false => trivial
      | true => exact reconcileLocked_uses hP _ i allow

theorem revokeExpired_uses (hP : ∀ c, c.fallsBack = true → P c) (p : Pubkey)
    (existing : UserSubscription) : (revokeExpired p existing).Uses P := by
  unfold revokeExpired
  simp only [await, bind_eq, call_bind, pure_eq]
  refine ⟨hP _ rfl, fun source => ?_⟩
  beta_reduce
  split
  · exact ⟨hP _ rfl, fun _ => ⟨hP _ rfl, fun _ => trivial⟩⟩
  · trivial

theorem applyFallbackStatus_uses (hP : ∀ c, c.fallsBack = true → P c) (p : Pubkey)
    (status : String) (existing : UserSubscription) :
    (applyFallbackStatus p status existing).Uses P := by
  refine Uses.bind ?_ fun _ => ⟨hP _ rfl, fun _ => ⟨hP _ rfl, fun _ => trivial⟩⟩
  split_ifs
  · exact revokeExpired_uses hP p existing
  · trivial

theorem applyPayloadFallback_uses (hP : ∀ c, c.fallsBack = true → P c) (event : String)
    (ref : Option String) : (applyPayloadFallback event ref).Uses P := by
  unfold applyPayloadFallback
  simp only [await, bind_eq, call_bind, pure_eq]
  split
  · refine ⟨hP _ rfl, fun locked => ?_⟩
    cases locked with
    | false => trivial
    | true =>
      refine ⟨hP _ rfl, fun stored => ?_⟩
      cases stored with
      | none => trivial
      | some existing => exact applyFallbackStatus_uses hP _ _ existing
  · trivial

end

/-! ## Lookups -/

theorem given_eq {x y : String} (h : given (some x) = some y) : y = x := by
  unfold given at h
  rw [Option.filter_some] at h
  split_ifs at h
  exact (Option.some.inj h).symm

/-- A lookup by an id. -/
theorem handle_byId {id : String} {handle : Handle}
    (h : ((given (some id)).map Handle.byId <|> (given none).map Handle.byRef) = some handle) :
    handle = .byId id := by
  cases hid : given (some id) with
  | none =>
    rw [hid] at h
    cases h
  | some x =>
    rw [hid] at h
    cases h
    rw [given_eq hid]

/-- A lookup by a reference. -/
theorem handle_byRef {ref : String} {handle : Handle}
    (h : ((given none).map Handle.byId <|> (given (some ref)).map Handle.byRef) = some handle) :
    handle = .byRef ref := by
  cases href : given (some ref) with
  | none =>
    rw [href] at h
    cases h
  | some x =>
    rw [href] at h
    cases h
    rw [given_eq href]

/-- The rule for `fetch_subscription`: what it found, it found by its handle. -/
theorem fetchSubscription_obeys {spec : Hist → Cmd → Prop} {h : Hist}
    {subscriptionId ref : Option String} {Q : Except Exn (Option FlashSubscription) → Hist → Prop}
    (hspec : ∀ handle, spec h (.fetchSubscription handle)) (herr : ∀ e h', Q (.error e) h')
    (hok : ∀ handle r, ((given subscriptionId).map Handle.byId <|> (given ref).map Handle.byRef) =
      some handle → Q (.ok r) (h ++ [⟨.fetchSubscription handle, .ok r⟩])) :
    (fetchSubscription subscriptionId ref).Obeys spec Q h := by
  unfold fetchSubscription
  split
  · exact herr _ _
  · rename_i handle hhandle
    refine ⟨hspec handle, fun a => ?_⟩
    rcases a with (m | m | m) | r
    · exact herr _ _
    · exact herr _ _
    · exact herr _ _
    · exact hok handle r hhandle

/-! ## The inbox -/

/-- How a command rewrites the events it updates. -/
def Cmd.eventUpdate : Cmd → Option (FlashWebhookEvent → FlashWebhookEvent)
  | claimWebhookEvent _ now _ =>
    some fun ev => { ev with processingStartedAt := some now, attempts := ev.attempts + 1 }
  | markWebhookEventProcessed _ now =>
    some fun ev => { ev with processedAt := some now, processError := none }
  | recordWebhookEventFailure _ reason => some fun ev => { ev with processError := some reason }
  | resetEventsAwaitingPlan _ _ _ => some fun ev => { ev with attempts := 0, processError := none }
  | settleUnresolvedEvents _ now resolution resolvedBy _ => some fun ev => { ev with
      processedAt := some now, processError := none
      resolution := some resolution, resolvedBy := some resolvedBy }
  | _ => none

/-- The command updates no event but `i`. -/
def Cmd.OnlyEvent (i : ℕ) : Cmd → Prop
  | claimWebhookEvent j _ _ => j = i
  | markWebhookEventProcessed j _ => j = i
  | recordWebhookEventFailure j _ => j = i
  | _ => True

section
variable {S : Type} [DecidableEq S] {s : S} {c : Cmd} {st st' : Store S} {ω : Outside}

/-- What a command can do to the table of events. -/
inductive EventStep (s : S) (c : Cmd) (ω : Outside) (st st' : Store S) : Prop
  | same (hevent : st'.event = st.event) (hcount : st'.eventCount = st.eventCount)
  | update (f : FlashWebhookEvent → FlashWebhookEvent) (is : List ℕ) (hc : c.eventUpdate = some f)
      (his : ∀ i ∈ is, c.OnlyEvent i) (hevent : st.event.modifyAll s f is = some st'.event)
      (hcount : st'.eventCount = st.eventCount)
  | insert (new : NewWebhookEvent) (hc : c = .insertFlashWebhookEvent new)
      (hevent : st.event.update s st.eventCount (fun _ => some (new.row ω.now)) = some st'.event)
      (hcount : st'.eventCount = st.eventCount + 1)
  | commit (hc : c = .commit) (hst : st' = st.commit s)
  | rollback (hc : c = .rollback) (hst : st' = st.rollback s)

theorem EventStep.of_modifyEvent {i : ℕ} {f : FlashWebhookEvent → FlashWebhookEvent}
    (h : st.modifyEvent s i f = some st') (hc : c.eventUpdate = some f) (hi : c.OnlyEvent i) :
    EventStep s c ω st st' := by
  simp only [Store.modifyEvent, Option.map_eq_some_iff] at h
  obtain ⟨t, ht, rfl⟩ := h
  refine .update f [i] hc (fun j hj => ?_) ?_ rfl
  · rw [List.mem_singleton.1 hj]
    exact hi
  · simp only [TxTable.modifyAll, ht, Option.bind_some]

/-- **The inversion of `exec` for the inbox.** -/
theorem exec_event {a : c.Ans} (h : exec s c st ω = some (a, st')) : EventStep s c ω st st' := by
  cases c with
  | commit => simp only [exec] at h; cases h; exact .commit rfl rfl
  | rollback => simp only [exec] at h; cases h; exact .rollback rfl rfl
  | lockUserForUpdate p skip =>
    simp only [exec] at h
    split_ifs at h <;> cases h <;> exact .same rfl rfl
  | getUserSubscription | getUserSubscriptionByFlashId =>
    simp only [exec] at h
    split at h <;> cases h <;> exact .same rfl rfl
  | setSchedulingForPubkey | setBillingBlocked | upsertUserSubscription | updateBillingPlan =>
    simp only [exec, Option.map_eq_some_iff] at h
    obtain ⟨t, -, h⟩ := h
    cases h
    exact .same rfl rfl
  | clearGrantedScheduling | updateFlashStatus | updateLastEventAt | recordSyncFailure =>
    simp only [exec, Option.map_eq_some_iff, Store.modifySubscription] at h
    obtain ⟨_, ⟨t, -, rfl⟩, h⟩ := h
    cases h
    exact .same rfl rfl
  | insertBillingPlan plan =>
    simp only [exec] at h
    split_ifs at h
    · cases h; exact .same rfl rfl
    · simp only [Option.map_eq_some_iff] at h
      obtain ⟨t, -, h⟩ := h
      cases h
      exact .same rfl rfl
  | insertFlashWebhookEvent new =>
    simp only [exec] at h
    split_ifs at h
    · cases h; exact .same rfl rfl
    · simp only [Option.map_eq_some_iff] at h
      obtain ⟨t, ht, h⟩ := h
      cases h
      exact .insert new rfl ht rfl
  | claimWebhookEvent i now stale =>
    simp only [exec] at h
    split at h
    · cases h; exact .same rfl rfl
    · simp only [Option.map_eq_some_iff] at h
      obtain ⟨t, ht, h⟩ := h
      cases h
      exact .of_modifyEvent ht rfl rfl
  | markWebhookEventProcessed | recordWebhookEventFailure =>
    simp only [exec, Option.map_eq_some_iff] at h
    obtain ⟨t, ht, h⟩ := h
    cases h
    exact .of_modifyEvent ht rfl rfl
  | resetEventsAwaitingPlan | settleUnresolvedEvents =>
    simp only [exec, Option.map_eq_some_iff] at h
    obtain ⟨t, ht, h⟩ := h
    cases h
    exact .update _ _ rfl (fun _ _ => trivial) ht rfl
  | _ => simp only [exec] at h; cases h; exact .same rfl rfl

/-- A property of one event is kept by a command that, as far as it updates or
    inserts the event, keeps it. -/
theorem EventStep.everywhere (h : EventStep s c ω st st') {k : ℕ}
    {R : Option FlashWebhookEvent → Prop} (hR : st.event.Everywhere k R)
    (hupdate : ∀ f, c.eventUpdate = some f → c.OnlyEvent k → ∀ ev, R (some ev) → R (some (f ev)))
    (hinsert : ∀ new, c = .insertFlashWebhookEvent new → k = st.eventCount →
      st'.eventCount = k + 1 → R (some (new.row ω.now))) : st'.event.Everywhere k R := by
  cases h with
  | same hevent _ =>
    rw [hevent]
    exact hR
  | update f is hc his hevent _ =>
    by_cases hk : k ∈ is
    · exact hR.modifyAll hevent (hupdate f hc (his k hk))
    · exact hR.modifyAll_of_notMem hevent hk
  | insert new hc hevent hcount =>
    exact hR.update hevent fun hk _ _ => hinsert new hc hk.symm (by omega)
  | commit _ hst =>
    rw [hst]
    exact hR.commit s
  | rollback _ hst =>
    rw [hst]
    exact hR.rollback s

/-! ## Ids -/

/-- No session has a row with an id the sequence has not handed out. -/
def Store.Sequenced (st : Store S) : Prop :=
  ∀ i, st.eventCount ≤ i → st.event.Everywhere i (· = none)

theorem EventStep.count (h : EventStep s c ω st st') : st.eventCount ≤ st'.eventCount := by
  cases h with
  | same _ hcount => omega
  | update f is _ _ _ hcount => omega
  | insert new _ _ hcount => omega
  | commit _ hst => rw [hst]; rfl
  | rollback _ hst => rw [hst]; rfl

theorem exec_sequenced {a : c.Ans} (h : exec s c st ω = some (a, st')) (hs : st.Sequenced) :
    st'.Sequenced := by
  have hstep := exec_event h
  intro i hi
  have hcount := hstep.count
  refine hstep.everywhere (hs i (by omega)) (fun f _ _ ev hev => nomatch hev) ?_
  -- an id just handed out is below the new count
  intro new _ _ hnew
  omega

end

/-! ## The subscribers -/

section
variable {S : Type} [DecidableEq S] {s : S} {c : Cmd} {st st' : Store S} {ω : Outside}

/-- What a command can do to the table of subscribers. -/
inductive SubscriptionStep (s : S) (c : Cmd) (ω : Outside) (st st' : Store S) : Prop
  | same (hsub : st'.subscription = st.subscription) (hkeys : st'.pubkeys = st.pubkeys)
  | record (p : Pubkey) (sub : FlashSubscription) (plan : ℕ) (granted : Option SchedulingId)
      (hc : c = .upsertUserSubscription p sub plan granted)
      (hsub : st.subscription.update s p
        (fun old => some (recordSubscription sub plan granted ω.now old)) = some st'.subscription)
      (hkeys : st'.pubkeys = st.pubkeys.insert p)
  | update (p : Pubkey) (f : UserSubscription → UserSubscription)
      (hc : c.subscriptionUpdate ω = some f) (hp : c.subscriptionKey = some p)
      (hsub : st.subscription.modify s p f = some st'.subscription)
      (hkeys : st'.pubkeys = st.pubkeys)
  | commit (hc : c = .commit) (hst : st' = st.commit s)
  | rollback (hc : c = .rollback) (hst : st' = st.rollback s)

theorem SubscriptionStep.of_modifySubscription {p : Pubkey}
    {f : UserSubscription → UserSubscription} (h : st.modifySubscription s p f = some st')
    (hc : c.subscriptionUpdate ω = some f) (hp : c.subscriptionKey = some p) :
    SubscriptionStep s c ω st st' := by
  simp only [Store.modifySubscription, Option.map_eq_some_iff] at h
  obtain ⟨t, ht, rfl⟩ := h
  exact .update p f hc hp ht rfl

/-- **The inversion of `exec` for the subscribers.** -/
theorem exec_subscription {a : c.Ans} (h : exec s c st ω = some (a, st')) :
    SubscriptionStep s c ω st st' := by
  cases c with
  | commit => simp only [exec] at h; cases h; exact .commit rfl rfl
  | rollback => simp only [exec] at h; cases h; exact .rollback rfl rfl
  | lockUserForUpdate p skip =>
    simp only [exec] at h
    split_ifs at h <;> cases h <;> exact .same rfl rfl
  | getUserSubscription | getUserSubscriptionByFlashId =>
    simp only [exec] at h
    split at h <;> cases h <;> exact .same rfl rfl
  | setSchedulingForPubkey | setBillingBlocked | updateBillingPlan =>
    simp only [exec, Option.map_eq_some_iff] at h
    obtain ⟨t, -, h⟩ := h
    cases h
    exact .same rfl rfl
  | upsertUserSubscription p sub plan granted =>
    simp only [exec, Option.map_eq_some_iff] at h
    obtain ⟨t, ht, h⟩ := h
    cases h
    exact .record p sub plan granted rfl ht rfl
  | clearGrantedScheduling | updateFlashStatus | updateLastEventAt | recordSyncFailure =>
    simp only [exec, Option.map_eq_some_iff] at h
    obtain ⟨t, ht, h⟩ := h
    cases h
    exact .of_modifySubscription ht rfl rfl
  | insertBillingPlan | insertFlashWebhookEvent =>
    simp only [exec] at h
    split_ifs at h
    · cases h; exact .same rfl rfl
    · simp only [Option.map_eq_some_iff] at h
      obtain ⟨t, -, h⟩ := h
      cases h
      exact .same rfl rfl
  | claimWebhookEvent i now stale =>
    simp only [exec] at h
    split at h
    · cases h; exact .same rfl rfl
    · simp only [Option.map_eq_some_iff, Store.modifyEvent] at h
      obtain ⟨_, ⟨t, -, rfl⟩, h⟩ := h
      cases h
      exact .same rfl rfl
  | markWebhookEventProcessed | recordWebhookEventFailure =>
    simp only [exec, Option.map_eq_some_iff, Store.modifyEvent] at h
    obtain ⟨_, ⟨t, -, rfl⟩, h⟩ := h
    cases h
    exact .same rfl rfl
  | resetEventsAwaitingPlan | settleUnresolvedEvents =>
    simp only [exec, Option.map_eq_some_iff] at h
    obtain ⟨t, -, h⟩ := h
    cases h
    exact .same rfl rfl
  | _ => simp only [exec] at h; cases h; exact .same rfl rfl

/-- A property of one subscriber's row is kept by a command that, as far as it
    records or updates the row, keeps it. -/
theorem SubscriptionStep.everywhere (h : SubscriptionStep s c ω st st') {p : Pubkey}
    {R : Option UserSubscription → Prop} (hR : st.subscription.Everywhere p R)
    (hrecord : ∀ sub plan granted old, c = .upsertUserSubscription p sub plan granted →
      R (some (recordSubscription sub plan granted ω.now old)))
    (hupdate : ∀ f, c.subscriptionUpdate ω = some f → ∀ row, R (some row) → R (some (f row))) :
    st'.subscription.Everywhere p R := by
  cases h with
  | same hsub _ =>
    rw [hsub]
    exact hR
  | record q sub plan granted hc hsub _ =>
    exact hR.update hsub fun hq old _ => hrecord sub plan granted old (hq ▸ hc)
  | update q f hc _ hsub _ => exact hR.modify hsub fun _ => hupdate f hc
  | commit _ hst =>
    rw [hst]
    exact hR.commit s
  | rollback _ hst =>
    rw [hst]
    exact hR.rollback s

end

end BrainstormServer
