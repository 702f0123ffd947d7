/-
  Deliveries while Flash cannot be reached.

  `process_delivery` then applies what the event's name implies
  (`apply_payload_fallback`).  An `expired` takes the policy back unless an admin
  holds it, whichever subscription the event names and however old it is:
  `stale_expired_kept_iff` says when a delivery that is not news leaves the user
  as they were.  The replay of recorded events never gets as far as the
  fallback: its handler reads the event's id after a rollback.
-/
import BrainstormServer.Billing.Release

namespace BrainstormServer

open Conc Prog

/-- Flash cannot be reached. -/
def Outage (ω : Outside) : Prop := ∀ handle, ∃ m, ω.flash handle = .error (.unavailable m)

section
variable {S : Type} [DecidableEq S] {s : S} {W : Outside → Prop} {p : Pubkey}

/-- A lookup in an outage. -/
theorem fetchSubscription_outage (hW : ∀ ω, W ω → Outage ω) {st : Store S} (hs : st.Solo s)
    (subscriptionId ref : Option String) :
    (fetchSubscription subscriptionId ref).wp exec s W (fun r st' =>
      (∃ m, r = .error (.flashUnavailable m)) ∧ st'.Solo s ∧ st.Kept s st') st := by
  unfold fetchSubscription
  split
  · exact ⟨⟨_, rfl⟩, hs, .refl st⟩
  · rename_i handle _
    refine wp_read hs rfl fun ω a st' hω he hs' hk => ?_
    obtain ⟨m, hm⟩ := hW ω hω handle
    simp only [exec, Option.some.injEq, Prod.mk.injEq, hm] at he
    rw [← he.1]
    exact ⟨⟨m, rfl⟩, hs', hk⟩

theorem reconcileLocked_outage (hW : ∀ ω, W ω → Outage ω) {st : Store S} (hs : st.Solo s)
    (subscriptionId : Option String) (allowUnreferenced : Bool) :
    (reconcileLocked p subscriptionId allowUnreferenced).wp exec s W
      (fun r st' => (∃ m, r = .error (.flashUnavailable m)) ∧ st'.Solo s ∧ st.Kept s st') st := by
  unfold reconcileLocked lookUpSubscription
  refine (wp_bind _ _ _).2 ((wp_bind _ _ _).2 (wp_mono _ _ _ ?_
    (fetchSubscription_outage hW hs _ _)))
  rintro _ st₁ ⟨⟨m, rfl⟩, hs₁, hk₁⟩
  exact ⟨⟨m, rfl⟩, hs₁, hk₁⟩

/-- The handler for a known user fails, having written nothing. -/
theorem applyEntitlement_outage (hW : ∀ ω, W ω → Outage ω) {st : Store S} (hs : st.Solo s)
    (hp : p ≠ "") {row : BrainstormNsec} (hrow : st.nsec.view s p = some row)
    (subscriptionId : Option String) (yieldIfBusy allowUnreferenced : Bool) :
    (applyEntitlement (some p) subscriptionId yieldIfBusy allowUnreferenced).wp exec s W
      (fun r st' => (∃ m, r = .error (.flashUnavailable m)) ∧ st'.Solo s ∧ st.Kept s st') st := by
  unfold applyEntitlement
  rw [given_some hp]
  simp only [await, bind_eq, call_bind, pure_eq]
  refine wp_read hs rfl fun ω₁ found st₁ _ he₁ hs₁ hk₁ => ?_
  simp only [exec, hrow, Option.some.injEq, Prod.mk.injEq] at he₁
  rw [← he₁.1]
  refine wp_read hs₁ rfl fun ω₂ locked st₂ _ he₂ hs₂ hk₂ => ?_
  have hlocked : locked = true := by
    simp only [exec, hk₁.nsec, hrow, hs₁.nsec.free p] at he₂
    simpa using (congrArg Prod.fst (Option.some.inj he₂)).symm
  rw [hlocked]
  refine wp_mono _ _ _ ?_ (reconcileLocked_outage hW hs₂ _ _)
  rintro _ st₃ ⟨⟨m, rfl⟩, hs₃, hk₃⟩
  exact ⟨⟨m, rfl⟩, hs₃, hk₁.trans (hk₂.trans hk₃)⟩

/-- For whomever the handler is called, it decides nothing. -/
theorem applyEntitlement_outage_unsettled (hW : ∀ ω, W ω → Outage ω) {st : Store S}
    (hs : st.Solo s) (externalRef subscriptionId : Option String)
    (yieldIfBusy allowUnreferenced : Bool) :
    (applyEntitlement externalRef subscriptionId yieldIfBusy allowUnreferenced).wp exec s W
      (fun r st' => (∀ outcome, r = .ok outcome → outcome.reason ∉ settledReasons) ∧
        st'.Solo s ∧ st.Kept s st') st := by
  have hun : ∀ reason, reason ∉ settledReasons → ∀ outcome : EntitlementOutcome,
      (.ok ⟨false, reason⟩ : Except Exn EntitlementOutcome) = .ok outcome →
        outcome.reason ∉ settledReasons := by
    rintro reason hr _ ⟨⟩
    exact hr
  unfold applyEntitlement
  split
  · exact ⟨hun _ (by decide), hs, .refl st⟩
  · simp only [await, bind_eq, call_bind, pure_eq]
    refine wp_read hs rfl fun ω₁ found st₁ _ _ hs₁ hk₁ => ?_
    cases found with
    | false => exact ⟨hun _ (by decide), hs₁, hk₁⟩
    | true =>
      refine wp_read hs₁ rfl fun ω₂ locked st₂ _ _ hs₂ hk₂ => ?_
      cases locked with
      | false => exact ⟨hun _ (by decide), hs₂, hk₁.trans hk₂⟩
      | true =>
        refine wp_mono _ _ _ ?_ (reconcileLocked_outage hW hs₂ _ _)
        rintro _ st₃ ⟨⟨m, rfl⟩, hs₃, hk₃⟩
        exact ⟨(fun _ h => nomatch h), hs₃, hk₁.trans (hk₂.trans hk₃)⟩

/-! ## The live delivery -/

/-- The user `p` stands as before, and nothing is left uncommitted. -/
structure Still (s : S) (p : Pubkey) (x : Standing) (st : Store S) : Prop where
  solo : st.Solo s
  clean : st.Clean s
  standing : st.standing p = x

/-- Where an `expired` leaves a user. -/
def Standing.expired (x : Standing) : Standing := if x.source = .admin then x else x.revoked

/-- Writing the status and committing leaves the user as the session sees them. -/
theorem flashStatus_commit {st : Store S} (hs : st.Solo s) {y : Standing} (hy : st.seen s p = y)
    (status : String) (d : Option DateTime) :
    (Prog.op (.updateFlashStatus p status d) fun _ => Prog.op .commit fun _ =>
      .ret true : Billing Bool).wp exec s W (fun _ st' => Still s p y st') st := by
  refine wp_op hs fun ω₁ _ st₁ _ he₁ hs₁ => wp_op hs₁ fun ω₂ _ st₂ _ he₂ hs₂ => ?_
  obtain ⟨hn, -, hsub⟩ := exec_updateFlashStatus he₁
  cases he₂
  refine ⟨hs₂, st₁.commit_clean, ?_⟩
  calc (st₁.commit s).standing p = st₁.seen s p := rfl
    _ = standingOf (st.nsec.view s p)
          ((st.subscription.view s p).map (setFlashStatus status d)) := by
        rw [Store.seen, hn, hsub, Function.update_self]
    _ = y := by rw [standingOf_setFlashStatus, ← hy, Store.seen]

theorem revokeExpired_seen {st : Store S} (hs : st.Solo s) (existing : UserSubscription) :
    (revokeExpired p existing).wp exec s W (fun r st' => r = .ok () ∧ st'.Solo s ∧
      st'.seen s p = (st.seen s p).expired) st := by
  unfold revokeExpired
  simp only [await, bind_eq, call_bind, pure_eq]
  refine wp_read hs rfl fun ω₁ source st₁ _ he₁ hs₁ hk₁ => ?_
  have hsrc := exec_getSchedulingSource he₁
  have hseen : st₁.seen s p = st.seen s p := by
    rw [Store.seen, hk₁.nsec, hk₁.subscription, ← Store.seen]
  cases ha : isAdminHeld source with
  | true =>
    have hadmin : (st.seen s p).source = .admin := by simpa [isAdminHeld, hsrc] using ha
    exact ⟨rfl, hs₁, by rw [Standing.expired, if_pos hadmin, hseen]⟩
  | false =>
    have hadmin : (st.seen s p).source ≠ .admin := by simpa [isAdminHeld, hsrc] using ha
    refine revoke_wp hs₁ fun st₂ hs₂ hn₂ hsub₂ => ⟨rfl, hs₂, ?_⟩
    rw [Standing.expired, if_neg hadmin, ← hseen, Store.seen, hn₂, hsub₂, Function.update_self,
      Function.update_self, standingOf_revoked, Store.seen]

theorem applyFallbackStatus_expired {st : Store S} (hs : st.Solo s) (existing : UserSubscription) :
    (applyFallbackStatus p "expired" existing).wp exec s W
      (fun _ st' => Still s p (st.seen s p).expired st') st := by
  unfold applyFallbackStatus
  simp only [await, bind_eq, call_bind, pure_eq, if_true]
  refine (wp_bind _ _ _).2 (wp_mono _ _ _ ?_ (revokeExpired_seen hs existing))
  rintro _ st₁ ⟨rfl, hs₁, hseen⟩
  exact flashStatus_commit hs₁ hseen _ _

/-- **The fallback for an `expired`** looks at the assignment, never at the event. -/
theorem applyPayloadFallback_expired {st : Store S} {x : Standing} (h : Still s p x st)
    (hf : st.Fresh s) (hp : p ≠ "") {row : BrainstormNsec}
    (hrow : st.nsec.committed p = some row) {stored : UserSubscription}
    (hsub : st.subscription.committed p = some stored) :
    (applyPayloadFallback "subscription.expired" (some p)).wp exec s W
      (fun _ st' => Still s p x.expired st') st := by
  have hseen : st.seen s p = x := by rw [← h.standing, Store.seen, h.clean.1, h.clean.2, Store.standing]
  unfold applyPayloadFallback
  rw [given_some hp]
  simp only [fallbackStatus, if_true, await, bind_eq, call_bind, pure_eq]
  refine wp_read h.solo rfl fun ω₁ locked st₁ _ he₁ hs₁ hk₁ => ?_
  have hlocked : locked = true := by
    simp only [exec, h.clean.1, hrow, h.solo.nsec.free p] at he₁
    simpa using (congrArg Prod.fst (Option.some.inj he₁)).symm
  rw [hlocked]
  refine wp_read hs₁ rfl fun ω₂ existing st₂ _ he₂ hs₂ hk₂ => ?_
  have hex := exec_getUserSubscription he₂ (hk₁.fresh hf _)
  rw [hk₁.subscription, h.clean.2, hsub] at hex
  subst hex
  have hk := hk₁.trans hk₂
  have hseen₂ : st₂.seen s p = x := by rw [Store.seen, hk.nsec, hk.subscription, ← Store.seen, hseen]
  rw [← hseen₂]
  exact applyFallbackStatus_expired hs₂ stored

/-- The committed rows of the two tables are those of `st₀`, and session `s` has
    nothing uncommitted and nothing stale loaded. -/
structure Same (s : S) (st₀ st : Store S) : Prop where
  solo : st.Solo s
  clean : st.Clean s
  fresh : st.Fresh s
  nsec : st.nsec.committed = st₀.nsec.committed
  subscription : st.subscription.committed = st₀.subscription.committed

omit [DecidableEq S] in
theorem Same.of_quiet {st : Store S} (hq : st.Quiet) (s : S) : Same s st st :=
  ⟨hq.solo s, ⟨hq.nsec_view s, hq.subscription_view s⟩, hq.fresh s, rfl, rfl⟩

omit [DecidableEq S] in
theorem Same.kept {st₀ st st' : Store S} (h : Same s st₀ st) (hs : st'.Solo s)
    (hk : st.Kept s st') : Same s st₀ st' :=
  ⟨hs, h.clean.of_kept hk, hk.fresh h.fresh, hk.nsec_committed.trans h.nsec,
    hk.subscription_committed.trans h.subscription⟩

theorem Same.rollback {st₀ st : Store S} (h : Same s st₀ st) : Same s st₀ (st.rollback s) where
  solo := h.solo.rollback.solo s
  clean := ⟨st.nsec.view_rollback_self s, st.subscription.view_rollback_self s⟩
  fresh := h.solo.rollback.fresh s
  nsec := h.nsec
  subscription := h.subscription

theorem Same.commit {st₀ st : Store S} (h : Same s st₀ st) : Same s st₀ (st.commit s) where
  solo := h.solo.commit
  clean := st.commit_clean
  fresh p row hl := by
    simpa [Store.commit] using h.fresh p row hl
  nsec := h.clean.1.trans h.nsec
  subscription := h.clean.2.trans h.subscription

/-- A write to an event touches neither table. -/
theorem Same.modifyEvent {st₀ st st' : Store S} (h : Same s st₀ st) {i : ℕ}
    {f : FlashWebhookEvent → FlashWebhookEvent} (he : st.modifyEvent s i f = some st')
    (hs : st'.Solo s) : Same s st₀ st' := by
  simp only [Store.modifyEvent, Option.map_eq_some_iff] at he
  obtain ⟨t, -, rfl⟩ := he
  exact ⟨hs, h.clean, h.fresh, h.nsec, h.subscription⟩

theorem Same.recordWebhookEventFailure {st₀ st st' : Store S} (h : Same s st₀ st) {i : ℕ}
    {reason : String} {ω : Outside} {a : Unit}
    (he : exec s (.recordWebhookEventFailure i reason) st ω = some (a, st')) (hs : st'.Solo s) :
    Same s st₀ st' := by
  simp only [exec, Option.map_eq_some_iff] at he
  obtain ⟨t, ht, he⟩ := he
  cases he
  exact h.modifyEvent ht hs

theorem recordFailure_wp {st₀ st : Store S} (h : Same s st₀ st) (eventId : Option ℕ) (err : Exn) :
    (recordFailure eventId err).wp exec s W (fun r st' => r = .ok () ∧ Same s st₀ st') st := by
  unfold recordFailure
  split
  · exact ⟨rfl, h⟩
  · simp only [await, bind_eq, call_bind]
    refine wp_op h.solo fun ω₁ _ st₁ _ he₁ hs₁ => ?_
    cases he₁
    refine wp_op hs₁ fun ω₂ _ st₂ _ he₂ hs₂ => ?_
    have h₂ := h.rollback.recordWebhookEventFailure he₂ hs₂
    refine wp_op hs₂ fun ω₃ _ st₃ _ he₃ hs₃ => ?_
    cases he₃
    exact ⟨rfl, h₂.commit⟩

/-- A delivery of an `expired` for a known subscriber, in an outage. -/
theorem processDelivery_outage (hW : ∀ ω, W ω → Outage ω) {st : Store S} (hq : st.Quiet)
    (hp : p ≠ "") {row : BrainstormNsec} (hrow : st.nsec.committed p = some row)
    {stored : UserSubscription} (hsub : st.subscription.committed p = some stored)
    {recorded : RecordedDelivery} (hev : recorded.event = "subscription.expired")
    (hdup : recorded.duplicate = false) (href : recorded.externalRef = some p) (s : S) :
    (processDelivery recorded).wp exec s W
      (fun _ st' => Still s p (st.standing p).expired st') st := by
  have hneeds : recorded.needsProcessing = true := by
    have hid : recorded.eventId.isSome = true := by
      have := recorded.duplicate_eq
      rw [hdup] at this
      simpa using this.symm
    simp [RecordedDelivery.needsProcessing, hdup, hid, hev, recognisedEvents]
  have h := Same.of_quiet hq s
  have hview : st.nsec.view s p = some row := by rw [h.clean.1, hrow]
  unfold processDelivery settleDelivery
  rw [if_pos hneeds, href]
  refine (wp_tryCatch _ _ _).2 ((wp_bind _ _ _).2 (wp_mono _ _ _ ?_
    (applyEntitlement_outage hW h.solo hp hview _ _ _)))
  rintro _ st₁ ⟨⟨m, rfl⟩, hs₁, hk₁⟩
  refine (wp_bind _ _ _).2 (wp_mono _ _ _ ?_ (recordFailure_wp (h.kept hs₁ hk₁) _ _))
  rintro _ st₂ ⟨rfl, h₂⟩
  have hstill : Still s p (st.standing p) st₂ :=
    ⟨h₂.solo, h₂.clean, by rw [Store.standing, h₂.nsec, h₂.subscription, ← Store.standing]⟩
  rw [hev]
  refine (wp_bind _ _ _).2 (wp_mono _ _ _ ?_ (applyPayloadFallback_expired hstill h₂.fresh hp
    (by rw [h₂.nsec, hrow]) (by rw [h₂.subscription, hsub])))
  rintro (e | a) st₃ h₃ <;> exact h₃

/-! ## The replay -/

theorem noteEventFailure_wp {st₀ st : Store S} (h : Same s st₀ st) (id : ℕ) (reason : String) :
    (noteEventFailure id reason).wp exec s W (fun r st' => Same s st₀ st' ∧
      (st.loadedEvent s id = none → ∃ e, r = .error e)) st := by
  unfold noteEventFailure instanceEventId
  simp only [await, bind_eq, call_bind, pure_eq]
  refine wp_op h.solo fun ω₁ found st₁ _ he₁ hs₁ => ?_
  simp only [exec, Option.some.injEq, Prod.mk.injEq] at he₁
  obtain ⟨hf, rfl⟩ := he₁
  cases found with
  | false => exact ⟨h, fun _ => ⟨_, rfl⟩⟩
  | true =>
    refine wp_op hs₁ fun ω₂ _ st₂ _ he₂ hs₂ => ?_
    have h₂ := h.recordWebhookEventFailure he₂ hs₂
    refine wp_op hs₂ fun ω₃ _ st₃ _ he₃ _ => ?_
    cases he₃
    exact ⟨h₂.commit, fun hn => by simp [hn] at hf⟩

/-- The replay's handler for a failed read never gets to what follows the
    recording of the failure: the rollback has expired the event. -/
theorem noteAfterRollback {α : Type} {st₀ st : Store S} (h : Same s st₀ st) (id : ℕ)
    (reason : String) (k : Unit → Billing α) :
    (Prog.op .rollback fun _ => (noteEventFailure id reason).bind k : Billing α).wp exec s W
      (fun _ st' => Same s st₀ st') st := by
  refine wp_op h.solo fun ω₁ _ st₁ _ he₁ _ => ?_
  cases he₁
  refine (wp_bind _ _ _).2 (wp_mono _ _ _ ?_ (noteEventFailure_wp h.rollback id reason))
  rintro r st₂ ⟨h₂, herr⟩
  obtain ⟨e, rfl⟩ := herr (by simp [Store.rollback])
  exact h₂

variable {pyRepr : Exn → String}

theorem replayClaimed_outage (hW : ∀ ω, W ω → Outage ω) {st₀ st : Store S} (h : Same s st₀ st)
    (at_ : DateTime) (id : ℕ) (event : FlashWebhookEvent) (target : EventData) :
    (replayClaimed pyRepr at_ id event target).wp exec s W (fun _ st' => Same s st₀ st') st := by
  unfold replayClaimed
  refine (wp_tryCatch _ _ _).2 ((wp_bind _ _ _).2 (wp_mono _ _ _ ?_
    (applyEntitlement_outage_unsettled hW h.solo _ _ _ _)))
  rintro (e | outcome) st₁ ⟨hun, hs₁, hk₁⟩
  · have h₁ := h.kept hs₁ hk₁
    rcases e with m | m | ⟨c, d⟩ | _ <;> exact noteAfterRollback h₁ id _ _
  · have h₁ := h.kept hs₁ hk₁
    simp only [if_neg (hun outcome rfl)]
    refine (wp_bind _ _ _).2 (wp_mono _ _ _ ?_ (noteEventFailure_wp h₁ id _))
    rintro (e | _) st₂ ⟨h₂, -⟩
    · rcases e with m | m | ⟨c, d⟩ | _ <;> exact noteAfterRollback h₂ id _ _
    · exact h₂

theorem replayEvent_outage (hW : ∀ ω, W ω → Outage ω) {st₀ st : Store S} (h : Same s st₀ st)
    (at_ : DateTime) (staleAfter : ℤ) (id : ℕ) (event : FlashWebhookEvent) :
    (replayEvent pyRepr at_ staleAfter id event).wp exec s W
      (fun _ st' => Same s st₀ st') st := by
  unfold replayEvent instanceEventId
  simp only [await, bind_eq, call_bind, pure_eq]
  refine wp_op h.solo fun ω₁ found st₁ _ he₁ hs₁ => ?_
  cases he₁
  cases hfound : (st.loadedEvent s id).isSome with
  | false => exact h
  | true =>
    refine wp_op hs₁ fun ω₂ claimed st₂ _ he₂ hs₂ => ?_
    have h₂ : Same s st₀ st₂ := by
      simp only [exec] at he₂
      split at he₂
      · cases he₂; exact h
      · simp only [Option.map_eq_some_iff] at he₂
        obtain ⟨t, ht, he₂⟩ := he₂
        cases he₂
        exact h.modifyEvent ht hs₂
    refine wp_op hs₂ fun ω₃ _ st₃ _ he₃ _ => ?_
    cases he₃
    cases claimed with
    | false => exact h₂.commit
    | true =>
      cases hpay : event.payload with
      | none =>
        refine (wp_bind _ _ _).2 (wp_mono _ _ _ ?_ (noteEventFailure_wp h₂.commit id _))
        rintro (e | _) st₄ ⟨h₄, -⟩ <;> exact h₄
      | some target => exact replayClaimed_outage hW h₂.commit at_ id event target

theorem replayAll_outage (hW : ∀ ω, W ω → Outage ω) {st₀ : Store S} (at_ : DateTime)
    (staleAfter : ℤ) : ∀ (events : List (ℕ × FlashWebhookEvent)) (n : ℕ) {st : Store S},
      Same s st₀ st → (replayAll pyRepr at_ staleAfter events n).wp exec s W
        (fun _ st' => Same s st₀ st') st
  | [], _, _, h => h
  | (id, event) :: events, n, st, h => by
    refine (wp_bind _ _ _).2 (wp_mono _ _ _ ?_ (replayEvent_outage hW h at_ staleAfter id event))
    rintro (e | settled) st₁ h₁
    · exact h₁
    refine wp_op h₁.solo fun ω₂ _ st₂ _ he₂ hs₂ => ?_
    refine replayAll_outage hW at_ staleAfter events _ ?_
    cases he₂
    exact ⟨hs₂, h₁.clean, fun p row hl => by simp at hl, h₁.nsec, h₁.subscription⟩

/-- **A replay in an outage** changes nobody's assignment or grant. -/
theorem replayUnprocessedEvents_outage (hW : ∀ ω, W ω → Outage ω) {st : Store S} (hq : st.Quiet)
    (limit : ℕ) (staleAfter : ℤ) (maxAttempts : ℕ) (s : S) :
    (replayUnprocessedEvents pyRepr limit staleAfter maxAttempts).wp exec s W
      (fun _ st' => Same s st st') st := by
  have h := Same.of_quiet hq s
  unfold replayUnprocessedEvents
  refine wp_op h.solo fun ω₁ at_ st₁ _ he₁ hs₁ => ?_
  cases he₁
  refine wp_op h.solo fun ω₂ events st₂ _ he₂ hs₂ => ?_
  refine replayAll_outage hW _ staleAfter events 0 ?_
  cases he₂
  exact ⟨hs₂, h.clean, h.fresh, h.nsec, h.subscription⟩

/-! ## Deliveries that are not news -/

/-- An event that names another subscription than the one on file, or is older
    than the newest event applied to it. -/
def StaleEvent (subscriptionId : Option String) (eventTimestamp : Option DateTime)
    (stored : UserSubscription) : Prop :=
  subscriptionId ≠ some stored.flashSubscriptionId ∨
    ∃ t t', eventTimestamp = some t ∧ stored.lastEventAt = some t' ∧ t < t'

/-- The assignment and the recorded grant are the same. -/
def Standing.Unchanged (x y : Standing) : Prop :=
  y.source = x.source ∧ y.schedulingId = x.schedulingId ∧ y.granted = x.granted

theorem unchanged_expired (x : Standing) : x.Unchanged x.expired ↔
    x.source = .admin ∨ (x.source = .default ∧ x.schedulingId = none ∧ x.granted = none) := by
  unfold Standing.expired
  split_ifs with h
  · simp [Standing.Unchanged, h]
  · simp only [Standing.Unchanged, Standing.revoked, h, false_or]
    constructor
    · rintro ⟨h1, h2, h3⟩
      exact ⟨h1.symm, h2.symm, h3.symm⟩
    · rintro ⟨h1, h2, h3⟩
      exact ⟨h1.symm, h2.symm, h3.symm⟩

/-- **When an `expired` that is not news leaves the user alone**, in an outage:
    delivered live, exactly if it is news after all, or an admin holds the
    assignment, or the user holds nothing that could be taken; replayed, always,
    since the replay does not get to the fallback. -/
theorem stale_expired_kept_iff (pyRepr : Exn → String) {st : Store S} (hq : st.Quiet) (hp : p ≠ "")
    {row : BrainstormNsec} (hrow : st.nsec.committed p = some row) {stored : UserSubscription}
    (hsub : st.subscription.committed p = some stored) (recorded : RecordedDelivery)
    (hev : recorded.event = "subscription.expired") (hdup : recorded.duplicate = false)
    (href : recorded.externalRef = some p) {ω : ℕ → Outside} (hω : ∀ n, Outage (ω n)) (s : S) :
    (∃ st', st.apply s (processDelivery recorded) ω = some st' ∧
      ((StaleEvent recorded.subscriptionId recorded.eventTimestamp stored →
          (st.standing p).Unchanged (st'.standing p)) ↔
        ¬ StaleEvent recorded.subscriptionId recorded.eventTimestamp stored ∨
          (st.standing p).source = .admin ∨ ((st.standing p).source = .default ∧
            (st.standing p).schedulingId = none ∧ (st.standing p).granted = none))) ∧
    ∀ limit staleAfter maxAttempts, ∃ st', st.apply s
        (discard (replayUnprocessedEvents pyRepr limit staleAfter maxAttempts)) ω = some st' ∧
      ∀ q, (st.standing q).Unchanged (st'.standing q) := by
  have hW : ∀ w, (∃ n, w = ω n) → Outage w := by
    rintro _ ⟨n, rfl⟩
    exact hω n
  have hclose : ∀ {st₁ : Store S} (q : Pubkey), st₁.Clean s →
      ((st₁.commit s).rollback s).standing q = st₁.standing q := by
    intro st₁ q hc
    simp [Store.standing, Store.rollback, Store.commit, hc.1, hc.2]
  constructor
  · have hbody : (processDelivery recorded).wp exec s (fun w => ∃ n, w = ω n)
        (fun r st' => st'.Solo s ∧
          AtClose s (fun _ st'' => st''.standing p = (st.standing p).expired) r st') st := by
      refine wp_mono _ _ _ ?_ (processDelivery_outage hW hq hp hrow hsub hev hdup href s)
      rintro (e | a) st₁ h₁
      · exact ⟨h₁.solo, h₁.standing⟩
      · exact ⟨h₁.solo, (hclose p h₁.clean).trans h₁.standing⟩
    obtain ⟨r, st', he, -, hst⟩ := wp_alone _ _ _ ω (fun n => ⟨n, rfl⟩) (wp_dbSession hbody)
    refine ⟨st', by simp [Store.apply, he], ?_⟩
    rw [hst, unchanged_expired, imp_iff_not_or]
  · intro limit staleAfter maxAttempts
    have hbody : (discard (replayUnprocessedEvents pyRepr limit staleAfter maxAttempts)).wp exec s
        (fun w => ∃ n, w = ω n) (fun r st' => st'.Solo s ∧
          AtClose s (fun _ st'' => ∀ q, st''.standing q = st.standing q) r st') st := by
      refine wp_mono _ _ _ ?_ (wp_discard
        (replayUnprocessedEvents_outage hW hq limit staleAfter maxAttempts s))
      intro r st₁ h₁
      have hsame : ∀ q, st₁.standing q = st.standing q := by
        intro q
        rw [Store.standing, h₁.nsec, h₁.subscription, ← Store.standing]
      rcases r with e | a
      · exact ⟨h₁.solo, hsame⟩
      · exact ⟨h₁.solo, fun q => (hclose q h₁.clean).trans (hsame q)⟩
    obtain ⟨r, st', he, -, hst⟩ := wp_alone _ _ _ ω (fun n => ⟨n, rfl⟩) (wp_dbSession hbody)
    refine ⟨st', by simp [Store.apply, he], fun q => ?_⟩
    rw [hst q]
    exact ⟨rfl, rfl, rfl⟩

end

/-- A payer on their second subscription, last heard of at time 100. -/
def resubscribedPayer : Store ℕ :=
  sampleStore (fun p => if p = "alice" then some ⟨some 7, .billing, false⟩ else none)
    (fun p => if p = "alice" then some
      { recordSubscription (sampleSubscription "sub_2" "active" (some "alice")) 0 (some 7) 10 none with
        lastEventAt := some 100 } else none) ["alice"]

/-- Flash is down. -/
def flashDown : Outside := ⟨fun _ => .error (.unavailable "Could not reach Flash"), 200⟩

/-- The `expired` of the first subscription, from time 50, arriving late. -/
def lateExpired : RecordedDelivery :=
  ⟨some 1, "subscription.expired", some "sub_1", some "alice", false, some 50, rfl⟩

/-- It takes the payer's policy and grant, though it is about a subscription they
    no longer have and older than the last event applied. -/
theorem late_expired_revokes_payer :
    resubscribedPayer.standing "alice" = ⟨.billing, some 7, false, some 7⟩ ∧
      (∀ row, resubscribedPayer.subscription.committed "alice" = some row →
        lateExpired.subscriptionId ≠ some row.flashSubscriptionId ∧
          lateExpired.eventTimestamp = some 50 ∧ row.lastEventAt = some 100) ∧
      (resubscribedPayer.apply 0 (processDelivery lateExpired) fun _ => flashDown).map
        (·.standing "alice") = some ⟨.default, none, false, none⟩ := by
  refine ⟨by decide, ?_, by decide⟩
  rintro row ⟨⟩
  decide

/-- The same event for a payer an admin holds. -/
theorem stale_expired_kept_iff_of_held :
    ∃ st', (sampleStore (fun p => if p = "alice" then some ⟨some 3, .admin, false⟩ else none)
        (fun p => if p = "alice" then some (recordSubscription
          (sampleSubscription "sub_2" "active" (some "alice")) 0 (some 7) 10 none) else none)
        []).apply 0 (processDelivery lateExpired) (fun _ => flashDown) = some st' ∧
      (st'.standing "alice").source = .admin := by
  obtain ⟨⟨st', h, hiff⟩, -⟩ := stale_expired_kept_iff Exn.describe
    (sampleStore_quiet (fun p => if p = "alice" then some ⟨some 3, .admin, false⟩ else none)
      (fun p => if p = "alice" then some (recordSubscription
        (sampleSubscription "sub_2" "active" (some "alice")) 0 (some 7) 10 none) else none) [])
    (p := "alice") (by decide) rfl rfl lateExpired rfl rfl rfl
    (ω := fun _ => flashDown) (fun _ _ => ⟨_, rfl⟩) 0
  exact ⟨st', h, (hiff.2 (Or.inr (Or.inl rfl)) (Or.inl (by decide))).1⟩

end BrainstormServer
