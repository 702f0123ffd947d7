/-
  The billing operations with nobody else about.

  * `Store.Quiet`: no transaction is open and nothing is loaded;
  * `Store.Solo s`: whatever is open belongs to session `s`.  Under it no
    command waits, and it is kept (`wp_op`);
  * `Store.Fresh s`: what `s` has loaded is what it sees;
  * one specification per operation, in terms of the rows `s` sees: the
    entitlement handler writes nothing, records one resolution (`Recorded`) or
    is refused (`Refused`, `applyEntitlement_wp`).
-/
import BrainstormServer.Billing.Frame

namespace BrainstormServer

open Conc Prog

variable {S : Type}

/-! ## Quiet and solo stores -/

/-- Whatever is open belongs to session `s`. -/
structure Store.Solo (s : S) (st : Store S) : Prop where
  owned : st.Owned
  nsec : st.nsec.Mine s
  subscription : st.subscription.Mine s
  plan : st.plan.Mine s
  event : st.event.Mine s
  loaded : ∀ {s'}, s' ≠ s → st.loaded s' = (fun _ => none) ∧ st.loadedEvent s' = fun _ => none

/-- No transaction is open, and no session has loaded anything. -/
structure Store.Quiet (st : Store S) : Prop where
  owned : st.Owned
  nsec : ∀ k, st.nsec.lock k = none
  subscription : ∀ k, st.subscription.lock k = none
  plan : ∀ k, st.plan.lock k = none
  event : ∀ k, st.event.lock k = none
  loaded : st.loaded = fun _ _ => none
  loadedEvent : st.loadedEvent = fun _ _ => none

/-- What session `s` has loaded is what it sees. -/
def Store.Fresh (s : S) (st : Store S) : Prop :=
  ∀ p row, st.loaded s p = some row → st.subscription.view s p = some row

theorem Store.Quiet.solo {st : Store S} (h : st.Quiet) (s : S) : st.Solo s where
  owned := h.owned
  nsec k := Or.inl (h.nsec k)
  subscription k := Or.inl (h.subscription k)
  plan k := Or.inl (h.plan k)
  event k := Or.inl (h.event k)
  loaded _ := by rw [h.loaded, h.loadedEvent]; exact ⟨rfl, rfl⟩

theorem Store.Quiet.fresh {st : Store S} (h : st.Quiet) (s : S) : st.Fresh s := by
  intro p row hl
  simp [h.loaded] at hl

theorem Store.Quiet.nsec_pending {st : Store S} (h : st.Quiet) (s : S) (p : Pubkey) :
    st.nsec.pending s p = none := by
  by_contra hp
  simpa [h.nsec p] using h.owned.nsec s p hp

theorem Store.Quiet.subscription_pending {st : Store S} (h : st.Quiet) (s : S) (p : Pubkey) :
    st.subscription.pending s p = none := by
  by_contra hp
  simpa [h.subscription p] using h.owned.subscription s p hp

theorem Store.Quiet.nsec_view {st : Store S} (h : st.Quiet) (s : S) :
    st.nsec.view s = st.nsec.committed := h.owned.nsec.view_of_unlocked h.nsec s

theorem Store.Quiet.subscription_view {st : Store S} (h : st.Quiet) (s : S) :
    st.subscription.view s = st.subscription.committed :=
  h.owned.subscription.view_of_unlocked h.subscription s

theorem Store.Quiet.plan_view {st : Store S} (h : st.Quiet) (s : S) :
    st.plan.view s = st.plan.committed := h.owned.plan.view_of_unlocked h.plan s

variable [DecidableEq S] {s : S}

/-- A session that closes leaves the store quiet. -/
theorem Store.Solo.rollback {st : Store S} (h : st.Solo s) : (st.rollback s).Quiet where
  owned := ⟨h.owned.nsec.rollback s, h.owned.subscription.rollback s, h.owned.plan.rollback s,
    h.owned.event.rollback s⟩
  nsec := h.nsec.lock_end
  subscription := h.subscription.lock_end
  plan := h.plan.lock_end
  event := h.event.lock_end
  loaded := by
    ext1 s'
    by_cases hs : s' = s
    · simp [Store.rollback, hs]
    · simp [Store.rollback, hs, (h.loaded hs).1]
  loadedEvent := by
    ext1 s'
    by_cases hs : s' = s
    · simp [Store.rollback, hs]
    · simp [Store.rollback, hs, (h.loaded hs).2]

theorem Store.Solo.commit {st : Store S} (h : st.Solo s) : (st.commit s).Solo s where
  owned := ⟨h.owned.nsec.commit s, h.owned.subscription.commit s, h.owned.plan.commit s,
    h.owned.event.commit s⟩
  nsec k := Or.inl (h.nsec.lock_end k)
  subscription k := Or.inl (h.subscription.lock_end k)
  plan k := Or.inl (h.plan.lock_end k)
  event k := Or.inl (h.event.lock_end k)
  loaded := h.loaded

theorem exec_solo {c : Cmd} {st st' : Store S} {ω : Outside} {a : c.Ans}
    (h : exec s c st ω = some (a, st')) (hs : st.Solo s) : st'.Solo s := by
  rcases exec_cases h with ⟨-, hx⟩ | ⟨-, rfl⟩ | ⟨-, rfl⟩
  · exact ⟨exec_owned h hs.owned, hx.nsec.mine hs.nsec, hx.subscription.mine hs.subscription,
      hx.plan.mine hs.plan, hx.event.mine hs.event, fun hne => by
        rw [(hx.loaded_other hne).1, (hx.loaded_other hne).2]; exact hs.loaded hne⟩
  · exact hs.commit
  · exact hs.rollback.solo s

theorem Store.Solo.modifySubscription {st : Store S} (h : st.Solo s) (p : Pubkey)
    (f : UserSubscription → UserSubscription) : ∃ st', st.modifySubscription s p f = some st' := by
  obtain ⟨t, ht⟩ := h.subscription.modify p f
  exact ⟨_, by simp only [Store.modifySubscription, ht, Option.map_some]; rfl⟩

theorem Store.Solo.modifyEvent {st : Store S} (h : st.Solo s) (i : ℕ)
    (f : FlashWebhookEvent → FlashWebhookEvent) : ∃ st', st.modifyEvent s i f = some st' := by
  obtain ⟨t, ht⟩ := h.event.modify i f
  exact ⟨_, by simp only [Store.modifyEvent, ht, Option.map_some]; rfl⟩

/-- With nobody else about, no command waits. -/
theorem exec_total (c : Cmd) {st : Store S} (h : st.Solo s) (ω : Outside) :
    ∃ r, exec s c st ω = some r := by
  cases c with
  | lockUserForUpdate p skip =>
    simp only [exec, h.nsec.free p]
    split_ifs <;> exact ⟨_, rfl⟩
  | setSchedulingForPubkey p i src =>
    simp only [exec, h.nsec.update]
    exact ⟨_, rfl⟩
  | setBillingBlocked p b =>
    obtain ⟨t, ht⟩ := h.nsec.modify p fun row => { row with billingBlocked := b }
    simp only [exec, ht]
    exact ⟨_, rfl⟩
  | getUserSubscription | getUserSubscriptionByFlashId =>
    simp only [exec]
    split <;> exact ⟨_, rfl⟩
  | insertBillingPlan plan =>
    simp only [exec, h.plan.contended, h.plan.update, Bool.false_eq_true, if_false]
    split_ifs <;> exact ⟨_, rfl⟩
  | insertFlashWebhookEvent new =>
    simp only [exec, h.event.contended, h.event.update, Bool.false_eq_true, if_false]
    split_ifs <;> exact ⟨_, rfl⟩
  | upsertUserSubscription p sub i g =>
    simp only [exec, h.subscription.update]
    exact ⟨_, rfl⟩
  | clearGrantedScheduling p =>
    obtain ⟨t, ht⟩ := h.modifySubscription p clearGranted
    simp only [exec, ht]
    exact ⟨_, rfl⟩
  | updateFlashStatus p status d =>
    obtain ⟨t, ht⟩ := h.modifySubscription p (setFlashStatus status d)
    simp only [exec, ht]
    exact ⟨_, rfl⟩
  | updateLastEventAt p t =>
    obtain ⟨t', ht⟩ := h.modifySubscription p (advanceLastEvent t)
    simp only [exec, ht]
    exact ⟨_, rfl⟩
  | recordSyncFailure p reason =>
    obtain ⟨t, ht⟩ := h.modifySubscription p (noteSyncFailure reason ω.now)
    simp only [exec, ht]
    exact ⟨_, rfl⟩
  | updateBillingPlan i v =>
    obtain ⟨t, ht⟩ := h.plan.modify i v.apply
    simp only [exec, ht]
    exact ⟨_, rfl⟩
  | claimWebhookEvent i now stale =>
    simp only [exec]
    split
    · exact ⟨_, rfl⟩
    · obtain ⟨t, ht⟩ := h.modifyEvent i fun ev =>
        { ev with processingStartedAt := some now, attempts := ev.attempts + 1 }
      simp only [ht]
      exact ⟨_, rfl⟩
  | markWebhookEventProcessed i now =>
    obtain ⟨t, ht⟩ := h.modifyEvent i fun ev =>
      { ev with processedAt := some now, processError := none }
    simp only [exec, ht]
    exact ⟨_, rfl⟩
  | recordWebhookEventFailure i reason =>
    obtain ⟨t, ht⟩ := h.modifyEvent i fun ev => { ev with processError := some reason }
    simp only [exec, ht]
    exact ⟨_, rfl⟩
  | resetEventsAwaitingPlan a b e =>
    obtain ⟨t, ht⟩ := h.event.modifyAll
      (fun ev : FlashWebhookEvent => { ev with attempts := 0, processError := none })
      (((st.events s).filter (awaitsPlan a b e ·.2)).map (·.1))
    simp only [exec, ht]
    exact ⟨_, rfl⟩
  | settleUnresolvedEvents i now resolution resolvedBy only =>
    obtain ⟨t, ht⟩ := h.event.modifyAll (fun ev : FlashWebhookEvent => { ev with
        processedAt := some now, processError := none
        resolution := some resolution, resolvedBy := some resolvedBy })
      (((st.events s).filter (settlesUnresolved i only ·.2)).map (·.1))
    simp only [exec, ht]
    exact ⟨_, rfl⟩
  | _ => exact ⟨_, rfl⟩

section
variable {W : Outside → Prop} {α : Type}

/-- The rule for a command, with nobody else about. -/
theorem wp_op {c : Cmd} {k : c.Ans → Billing α} {Q : Except Exn α → Store S → Prop} {st : Store S}
    (h : st.Solo s)
    (hk : ∀ ω a st', W ω → exec s c st ω = some (a, st') → st'.Solo s → (k a).wp exec s W Q st') :
    (Prog.op c k : Billing α).wp exec s W Q st := by
  intro ω hω
  obtain ⟨⟨a, st'⟩, hr⟩ := exec_total c h ω
  exact ⟨(a, st'), hr, hk ω a st' hω hr (exec_solo hr h)⟩

/-- `Q` holds once the session that ran a program is closed. -/
def AtClose (s : S) (Q : Except Exn α → Store S → Prop) (r : Except Exn α) (st : Store S) : Prop :=
  match r with
  | .ok a => Q (.ok a) ((st.commit s).rollback s)
  | .error e => Q (.error e) (st.rollback s)

/-- A session's frame: what its program commits stays, and the store is quiet
    afterwards. -/
theorem wp_dbSession {p : Billing α} {Q : Except Exn α → Store S → Prop} {st : Store S}
    (h : p.wp exec s W (fun r st' => st'.Solo s ∧ AtClose s Q r st') st) :
    (dbSession p).wp exec s W (fun r st' => st'.Quiet ∧ Q r st') st := by
  unfold dbSession
  rw [wp_bind, wp_tryCatch]
  refine wp_mono _ _ _ ?_ h
  rintro (e | a) st' ⟨hs, hq⟩
  · exact fun ω _ => ⟨_, rfl, hs.rollback, hq⟩
  · refine fun ω _ => ⟨_, rfl, fun ω _ => ⟨_, rfl, ?_, hq⟩⟩
    exact hs.commit.rollback

end

/-! ## Reading -/

/-- The commands that write no row. -/
def Cmd.isRead : Cmd → Bool
  | brainstormNsecExists _ => true
  | lockUserForUpdate _ _ => true
  | isBillingBlocked _ => true
  | getSchedulingSource _ => true
  | getUserSubscription _ => true
  | selectEntitlementCandidates => true
  | countSubscriptionsForPlan _ => true
  | schedulingExists _ => true
  | getBillingPlan _ _ => true
  | getBillingPlanById _ => true
  | fetchSubscription _ => true
  | utcNow => true
  | _ => false

/-- Session `s` sees the same rows, and the same rows are committed. -/
structure Store.Kept (s : S) (st st' : Store S) : Prop where
  nsec : st'.nsec.view s = st.nsec.view s
  nsec_committed : st'.nsec.committed = st.nsec.committed
  subscription : st'.subscription.view s = st.subscription.view s
  subscription_committed : st'.subscription.committed = st.subscription.committed
  plans : st'.plans s = st.plans s
  fresh : st.Fresh s → st'.Fresh s

omit [DecidableEq S] in
theorem Store.Kept.refl (st : Store S) : st.Kept s st := ⟨rfl, rfl, rfl, rfl, rfl, id⟩

omit [DecidableEq S] in
theorem Store.Kept.trans {st st' st'' : Store S} (h : st.Kept s st') (h' : st'.Kept s st'') :
    st.Kept s st'' where
  nsec := h'.nsec.trans h.nsec
  nsec_committed := h'.nsec_committed.trans h.nsec_committed
  subscription := h'.subscription.trans h.subscription
  subscription_committed := h'.subscription_committed.trans h.subscription_committed
  plans := h'.plans.trans h.plans
  fresh := h'.fresh ∘ h.fresh

/-- Loading rows the session sees keeps its instances fresh. -/
theorem Store.Kept.remember (st : Store S) (ps : List Pubkey) : st.Kept s (st.remember s ps) where
  nsec := rfl
  nsec_committed := rfl
  subscription := rfl
  subscription_committed := rfl
  plans := rfl
  fresh hf p row h := by
    rcases remember_loaded h with h | h
    · exact hf p row h
    · exact h

theorem exec_kept {c : Cmd} {st st' : Store S} {ω : Outside} {a : c.Ans}
    (h : exec s c st ω = some (a, st')) (hc : c.isRead = true) : st.Kept s st' := by
  cases c with
  | lockUserForUpdate p skip =>
    simp only [exec] at h
    split_ifs at h
    · cases h; exact .refl st
    · cases h; exact ⟨rfl, rfl, rfl, rfl, rfl, id⟩
    · cases h; exact .refl st
  | getUserSubscription p =>
    simp only [exec] at h
    split at h
    · cases h; exact .refl st
    · cases h; exact .remember st _
  | selectEntitlementCandidates => simp only [exec] at h; cases h; exact .remember st _
  | brainstormNsecExists | isBillingBlocked | getSchedulingSource | countSubscriptionsForPlan
  | schedulingExists | getBillingPlan | getBillingPlanById | fetchSubscription | utcNow =>
    simp only [exec] at h; cases h; exact .refl st
  | _ => simp [Cmd.isRead] at hc

/-- A session that has loaded nothing but the row it sees reads that row. -/
theorem exec_getUserSubscription {p : Pubkey} {st st' : Store S} {ω : Outside}
    {a : Option UserSubscription} (h : exec s (.getUserSubscription p) st ω = some (a, st'))
    (hf : ∀ row, st.loaded s p = some row → st.subscription.view s p = some row) :
    a = st.subscription.view s p := by
  simp only [exec] at h
  split at h
  · cases h; simp [*]
  · rename_i row hrow
    cases h
    rw [hrow]
    cases hl : st.loaded s p with
    | none => simp [Store.entity, hl]
    | some row' => simp [Store.entity, hl, ← hf row' hl, hrow]

section
variable {W : Outside → Prop} {α : Type}

/-- The rule for a command that writes nothing. -/
theorem wp_read {c : Cmd} {k : c.Ans → Billing α} {Q : Except Exn α → Store S → Prop}
    {st : Store S} (h : st.Solo s) (hc : c.isRead = true)
    (hk : ∀ ω a st', W ω → exec s c st ω = some (a, st') → st'.Solo s → st.Kept s st' →
      (k a).wp exec s W Q st') : (Prog.op c k : Billing α).wp exec s W Q st :=
  wp_op h fun ω a st' hω he hs => hk ω a st' hω he hs (exec_kept he hc)

/-- `sub` is an answer of Flash in the worlds `W`. -/
def Answered (W : Outside → Prop) (sub : FlashSubscription) : Prop :=
  ∃ ω handle, W ω ∧ ω.flash handle = .ok (some sub)

/-- The postcondition of the reads of Flash. -/
def Looked (W : Outside → Prop) (s : S) (st : Store S) (sub : α → Option FlashSubscription)
    (r : Except Exn α) (st' : Store S) : Prop :=
  st'.Solo s ∧ st.Kept s st' ∧ ∀ a, r = .ok a → ∀ x, sub a = some x → Answered W x

theorem fetchSubscription_wp {st : Store S} (hs : st.Solo s) (subscriptionId ref : Option String) :
    (fetchSubscription subscriptionId ref).wp exec s W (Looked W s st id) st := by
  unfold fetchSubscription
  split
  · exact ⟨hs, .refl st, fun a ha => nomatch ha⟩
  · rename_i handle _
    refine wp_read hs rfl fun ω a st' hω he hs' hk => ?_
    simp only [exec, Option.some.injEq, Prod.mk.injEq] at he
    obtain ⟨ha, -⟩ := he
    rcases a with (m | m | m) | sub
    · exact ⟨hs', hk, by simp⟩
    · exact ⟨hs', hk, by simp⟩
    · exact ⟨hs', hk, by simp⟩
    · refine ⟨hs', hk, ?_⟩
      rintro _ ⟨⟩ x rfl
      exact ⟨ω, handle, hω, ha⟩

theorem lookUpSubscription_wp {st : Store S} (hs : st.Solo s) (pubkey : Pubkey)
    (subscriptionId : Option String) (allowUnreferenced : Bool) :
    (lookUpSubscription pubkey subscriptionId allowUnreferenced).wp exec s W
      (Looked W s st (·.1)) st := by
  unfold lookUpSubscription
  simp only [await, bind_eq, call_bind, pure_eq]
  refine (wp_bind _ _ _).2 (wp_mono _ _ _ ?_ (fetchSubscription_wp hs _ _))
  rintro (e | sub) st₁ ⟨hs₁, hk₁, ha₁⟩
  · exact ⟨hs₁, hk₁, fun a ha => nomatch ha⟩
  · simp only
    split_ifs
    · refine wp_read hs₁ rfl fun ω stored st₂ _ _ hs₂ hk₂ => ?_
      cases stored with
      | none =>
        refine ⟨hs₂, hk₁.trans hk₂, ?_⟩
        rintro _ ⟨⟩ x hx
        cases hx
      | some row =>
        refine (wp_bind _ _ _).2 (wp_mono _ _ _ ?_ (fetchSubscription_wp hs₂ _ _))
        rintro (e | sub') st₃ ⟨hs₃, hk₃, ha₃⟩
        · exact ⟨hs₃, hk₁.trans (hk₂.trans hk₃), fun a ha => nomatch ha⟩
        · refine ⟨hs₃, hk₁.trans (hk₂.trans hk₃), ?_⟩
          rintro _ ⟨⟩ x hx
          exact ha₃ _ rfl x hx
    · refine ⟨hs₁, hk₁, ?_⟩
      rintro _ ⟨⟩ x hx
      exact ha₁ _ rfl x hx

theorem currentSubscription_wp {st : Store S} (hs : st.Solo s) (pubkey : Pubkey)
    (existing : Option UserSubscription) {sub : FlashSubscription} (hsub : Answered W sub) :
    (currentSubscription pubkey existing sub).wp exec s W (Looked W s st some) st := by
  unfold currentSubscription
  split_ifs
  · refine (wp_bind _ _ _).2 (wp_mono _ _ _ ?_ (fetchSubscription_wp hs _ _))
    rintro (e | current) st₁ ⟨hs₁, hk₁, ha₁⟩
    · exact ⟨hs₁, hk₁, fun a ha => nomatch ha⟩
    · refine ⟨hs₁, hk₁, ?_⟩
      rintro _ ⟨⟩ x hx
      cases current with
      | none => cases hx; exact hsub
      | some sub' => cases hx; exact ha₁ _ rfl _ rfl
  · refine ⟨hs, .refl st, ?_⟩
    rintro _ ⟨⟩ x hx
    cases hx
    exact hsub

/-! ## Recording a resolution -/

/-- The resolution for a user with the `brainstorm_nsec` row `row` and the
    subscription row `existing`, from the subscription and plan Flash reports. -/
def entitlementFor (row : BrainstormNsec) (existing : Option UserSubscription)
    (sub : FlashSubscription) (plan : BillingPlan) (now : DateTime) : Resolution :=
  resolveEntitlement (sub.decide now) row.billingBlocked (isAdminHeld row.schedulingSource)
    plan.schedulingId (existing.bind (·.grantedSchedulingId))

/-- The row after the assignment a resolution asks for. -/
def Resolution.assign (res : Resolution) (row : BrainstormNsec) : BrainstormNsec :=
  match res.writePolicy, res.source with
  | true, some source => { row with schedulingId := res.schedulingId, schedulingSource := source }
  | _, _ => row

/-- The resolution from `sub` and `plan` for `pubkey` is committed, beside
    whatever else the session had written. -/
structure Recorded (s : S) (pubkey : Pubkey) (sub : FlashSubscription) (plan : ℕ × BillingPlan)
    (now : DateTime) (row : BrainstormNsec) (st st' : Store S) : Prop where
  nsec : st'.nsec.committed = Function.update (st.nsec.view s) pubkey
    (some ((entitlementFor row (st.subscription.view s pubkey) sub plan.2 now).assign row))
  subscription : ∃ syncedAt, st'.subscription.committed = Function.update (st.subscription.view s)
    pubkey (some (recordSubscription sub plan.1
      (entitlementFor row (st.subscription.view s pubkey) sub plan.2 now).grantedSchedulingId
      syncedAt (st.subscription.view s pubkey)))
  nsec_view : st'.nsec.view s = st'.nsec.committed
  subscription_view : st'.subscription.view s = st'.subscription.committed

theorem assignPolicy_wp {st : Store S} (hs : st.Solo s) {pubkey : Pubkey} {row : BrainstormNsec}
    (hrow : st.nsec.view s pubkey = some row) (res : Resolution) :
    (assignPolicy pubkey res).wp exec s W (fun r st' => r = .ok () ∧ st'.Solo s ∧
      st'.nsec.view s = Function.update (st.nsec.view s) pubkey (some (res.assign row)) ∧
      st'.subscription = st.subscription) st := by
  unfold assignPolicy
  split
  · rename_i source hw hsrc
    refine wp_op hs fun ω a st' _ he hs' => ⟨rfl, hs', ?_⟩
    obtain ⟨-, rfl⟩ := exec_setSchedulingForPubkey he
    exact ⟨by simp [hrow, Resolution.assign, hw, hsrc], rfl⟩
  · rename_i hne
    have hkeep : res.assign row = row := by
      unfold Resolution.assign
      split
      · exact (hne _ ‹_› ‹_›).elim
      · rfl
    exact ⟨rfl, hs, by rw [hkeep, ← hrow, Function.update_eq_self], rfl⟩

/-- Nothing is committed; what the session has written is not. -/
structure Store.Unsaved (st st' : Store S) : Prop where
  nsec : st'.nsec.committed = st.nsec.committed
  subscription : st'.subscription.committed = st.subscription.committed

omit [DecidableEq S] in
theorem Store.Unsaved.of_kept {st st' st'' : Store S} (hk : st.Kept s st') (h : st'.Unsaved st'') :
    st.Unsaved st'' :=
  ⟨h.nsec.trans hk.nsec_committed, h.subscription.trans hk.subscription_committed⟩

/-- A statement of the session was refused. -/
def Refused {α : Type} (r : Except Exn α) (st st' : Store S) : Prop :=
  r = .error databaseError ∧ st.Unsaved st'

omit [DecidableEq S] in
theorem Refused.of_kept {α : Type} {r : Except Exn α} {st st' st'' : Store S} (hk : st.Kept s st')
    (h : Refused r st' st'') : Refused r st st'' :=
  ⟨h.1, h.2.of_kept hk⟩

/-- The assignment a resolution asks for is not committed before the record. -/
theorem assignPolicy_unsaved {st : Store S} (hs : st.Solo s) (pubkey : Pubkey) (res : Resolution) :
    (assignPolicy pubkey res).wp exec s W (fun r st' => r = .ok () ∧ st'.Solo s ∧ st.Unsaved st') st := by
  unfold assignPolicy
  split
  · refine wp_op hs fun ω a st' _ he hs' => ⟨rfl, hs', ?_⟩
    obtain ⟨-, rfl⟩ := exec_setSchedulingForPubkey he
    exact ⟨rfl, rfl⟩
  · exact ⟨rfl, hs, rfl, rfl⟩

theorem grantAndRecord_wp {st : Store S} (hs : st.Solo s) {pubkey : Pubkey} {row : BrainstormNsec}
    (hrow : st.nsec.view s pubkey = some row) (sub : FlashSubscription) (plan : ℕ × BillingPlan)
    (now : DateTime) :
    (grantAndRecord pubkey sub plan now (st.subscription.view s pubkey)).wp exec s W
      (fun r st' => st'.Solo s ∧
        if sub.recordable then (∃ outcome, r = .ok outcome) ∧ Recorded s pubkey sub plan now row st st'
        else Refused r st st') st := by
  unfold grantAndRecord
  simp only [await, bind_eq, call_bind, pure_eq]
  refine wp_read hs rfl fun ω₁ blocked st₁ _ he₁ hs₁ hk₁ => ?_
  refine wp_read hs₁ rfl fun ω₂ source st₂ _ he₂ hs₂ hk₂ => ?_
  have hb : blocked = row.billingBlocked := by
    simp only [exec, Option.some.injEq, Prod.mk.injEq] at he₁
    simp [← he₁.1, hrow]
  have hsrc : source = row.schedulingSource := by
    simp only [exec, Option.some.injEq, Prod.mk.injEq] at he₂
    simp [← he₂.1, hk₁.nsec, hrow]
  have hk := hk₁.trans hk₂
  rw [hb, hsrc]
  have hrow₂ : st₂.nsec.view s pubkey = some row := by rw [hk.nsec, hrow]
  unfold upsertUserSubscription
  cases hrec : sub.recordable with
  | false =>
    refine (wp_bind _ _ _).2 (wp_mono _ _ _ ?_ (assignPolicy_unsaved hs₂ pubkey _))
    rintro _ st₃ ⟨rfl, hs₃, hu₃⟩
    exact ⟨hs₃, rfl, hu₃.of_kept hk⟩
  | true =>
    refine (wp_bind _ _ _).2 (wp_mono _ _ _ ?_ (assignPolicy_wp hs₂ hrow₂ _))
    rintro _ st₃ ⟨rfl, hs₃, hn₃, hsub₃⟩
    refine wp_op hs₃ fun ω₄ _ st₄ _ he₄ hs₄ => ?_
    obtain ⟨-, rfl⟩ := exec_upsertUserSubscription he₄
    refine wp_op hs₄ fun ω₅ _ st₅ _ he₅ hs₅ => ?_
    cases he₅
    refine ⟨hs₅, ⟨_, rfl⟩, ?_, ⟨ω₄.now, ?_⟩, ?_, ?_⟩
    · simp only [Store.commit, TxTable.committed_commit, hn₃, hk.nsec]
      rfl
    · simp only [Store.commit, TxTable.committed_commit, TxTable.view_write, hsub₃, hk.subscription]
      rfl
    · simp [Store.commit]
    · simp [Store.commit]

/-- What an entitlement handler for `pubkey` did: nothing, or the recording of
    one resolution from an answer of Flash and a plan of ours; or it was refused. -/
def Handled {α : Type} (W : Outside → Prop) (s : S) (pubkey : Pubkey) (st : Store S) (r : Except Exn α)
    (st' : Store S) : Prop :=
  st.Kept s st' ∨ Refused r st st' ∨ ∃ sub plan now row, Answered W sub ∧ (∃ ω, W ω ∧ ω.now = now) ∧
    plan ∈ st.plans s ∧ plan.2.flashServiceId = sub.serviceId ∧ plan.2.flashPlanId = sub.planId ∧
    st.nsec.view s pubkey = some row ∧ Recorded s pubkey sub plan now row st st'

omit [DecidableEq S] in
theorem Recorded.of_kept {st st' st'' : Store S} {pubkey : Pubkey} {sub : FlashSubscription}
    {plan : ℕ × BillingPlan} {now : DateTime} {row : BrainstormNsec} (hk : st.Kept s st')
    (h : Recorded s pubkey sub plan now row st' st'') :
    Recorded s pubkey sub plan now row st st'' where
  nsec := by rw [h.nsec, hk.nsec, hk.subscription]
  subscription := by
    obtain ⟨t, ht⟩ := h.subscription
    exact ⟨t, by rw [ht, hk.subscription]⟩
  nsec_view := h.nsec_view
  subscription_view := h.subscription_view

omit [DecidableEq S] in
theorem Handled.of_kept {α : Type} {r : Except Exn α} {st st' st'' : Store S} {pubkey : Pubkey}
    (hk : st.Kept s st') (h : Handled W s pubkey st' r st'') : Handled W s pubkey st r st'' := by
  rcases h with h | h | ⟨sub, plan, now, row, h1, h2, h3, h4, h5, h6, h7⟩
  · exact Or.inl (hk.trans h)
  · exact Or.inr (Or.inl (h.of_kept hk))
  · rw [hk.plans] at h3
    rw [hk.nsec] at h6
    exact Or.inr (Or.inr ⟨sub, plan, now, row, h1, h2, h3, h4, h5, h6, h7.of_kept hk⟩)

theorem decideFrom_wp {st : Store S} (hs : st.Solo s) (hf : st.Fresh s) {pubkey : Pubkey}
    {row : BrainstormNsec} (hrow : st.nsec.view s pubkey = some row) {sub : FlashSubscription}
    (hsub : Answered W sub) :
    (decideFrom pubkey sub).wp exec s W
      (fun r st' => st'.Solo s ∧ Handled W s pubkey st r st') st := by
  unfold decideFrom
  simp only [await, bind_eq, call_bind, pure_eq]
  refine wp_read hs rfl fun ω₁ existing st₁ _ he₁ hs₁ hk₁ => ?_
  have hex := exec_getUserSubscription he₁ (hf _)
  refine (wp_bind _ _ _).2 (wp_mono _ _ _ ?_ (currentSubscription_wp hs₁ pubkey existing hsub))
  rintro (e | current) st₂ ⟨hs₂, hk₂, ha₂⟩
  · exact ⟨hs₂, Or.inl (hk₁.trans hk₂)⟩
  have hcur := ha₂ current rfl current rfl
  unfold getBillingPlan
  simp only [await, bind_eq, call_bind, pure_eq]
  refine wp_read hs₂ rfl fun ω₃ plan st₃ _ he₃ hs₃ hk₃ => ?_
  have hk : st.Kept s st₃ := hk₁.trans (hk₂.trans hk₃)
  split_ifs
  swap
  · exact ⟨hs₃, Or.inr (Or.inl ⟨rfl, hk.nsec_committed, hk.subscription_committed⟩)⟩
  cases plan with
  | none => exact ⟨hs₃, Or.inl hk⟩
  | some plan =>
    -- the plan found is one of ours, for the subscription's own ids
    simp only [exec, Option.some.injEq, Prod.mk.injEq] at he₃
    have hmem := List.mem_of_find?_eq_some he₃.1
    have hids := List.find?_some he₃.1
    simp only [decide_eq_true_eq] at hids
    rw [hk₂.plans, hk₁.plans] at hmem
    refine wp_read hs₃ rfl fun ω₄ now st₄ hω₄ he₄ hs₄ hk₄ => ?_
    simp only [exec, Option.some.injEq, Prod.mk.injEq] at he₄
    have hk' := hk.trans hk₄
    rw [hex, ← hk'.subscription]
    refine wp_mono _ _ _ ?_ (grantAndRecord_wp hs₄ (by rw [hk'.nsec]; exact hrow) current plan now)
    rintro r st₅ ⟨hs₅, hrec⟩
    split_ifs at hrec
    · exact ⟨hs₅, Or.inr (Or.inr ⟨current, plan, now, row, hcur, ⟨ω₄, hω₄, he₄.1⟩, hmem, hids.1, hids.2,
        hrow, hrec.2.of_kept hk'⟩)⟩
    · exact ⟨hs₅, Or.inr (Or.inl (hrec.of_kept hk'))⟩

theorem reconcileLocked_wp {st : Store S} (hs : st.Solo s) (hf : st.Fresh s) {pubkey : Pubkey}
    {row : BrainstormNsec} (hrow : st.nsec.view s pubkey = some row)
    (subscriptionId : Option String) (allowUnreferenced : Bool) :
    (reconcileLocked pubkey subscriptionId allowUnreferenced).wp exec s W
      (fun r st' => st'.Solo s ∧ Handled W s pubkey st r st') st := by
  unfold reconcileLocked
  refine (wp_bind _ _ _).2 (wp_mono _ _ _ ?_ (lookUpSubscription_wp hs _ _ _))
  rintro (e | ⟨sub, allowed⟩) st₁ ⟨hs₁, hk₁, ha₁⟩
  · exact ⟨hs₁, Or.inl hk₁⟩
  cases sub with
  | none => exact ⟨hs₁, Or.inl hk₁⟩
  | some sub =>
    simp only
    split
    · exact ⟨hs₁, Or.inl hk₁⟩
    · have hrow₁ : st₁.nsec.view s pubkey = some row := by rw [hk₁.nsec, hrow]
      refine wp_mono _ _ _ ?_
        (decideFrom_wp hs₁ (hk₁.fresh hf) hrow₁ (ha₁ _ rfl sub rfl))
      rintro r st₂ ⟨hs₂, hh⟩
      exact ⟨hs₂, hh.of_kept hk₁⟩

/-- **The entitlement handler, run alone**, writes nothing, records one resolution for
    the user it was called for, or is refused. -/
theorem applyEntitlement_wp {st : Store S} (hs : st.Solo s) (hf : st.Fresh s)
    (externalRef subscriptionId : Option String) (yieldIfBusy allowUnreferenced : Bool) :
    (applyEntitlement externalRef subscriptionId yieldIfBusy allowUnreferenced).wp exec s W
      (fun r st' => st'.Solo s ∧ (st.Kept s st' ∨
        ∃ pubkey, given externalRef = some pubkey ∧ Handled W s pubkey st r st')) st := by
  unfold applyEntitlement
  split
  · exact ⟨hs, Or.inl (.refl st)⟩
  · rename_i pubkey hp
    simp only [await, bind_eq, call_bind, pure_eq]
    refine wp_read hs rfl fun ω₁ found st₁ _ he₁ hs₁ hk₁ => ?_
    cases found with
    | false => exact ⟨hs₁, Or.inl hk₁⟩
    | true =>
      simp only [exec, Option.some.injEq, Prod.mk.injEq] at he₁
      obtain ⟨row, hrow⟩ := Option.isSome_iff_exists.1 he₁.1
      refine wp_read hs₁ rfl fun ω₂ locked st₂ _ _ hs₂ hk₂ => ?_
      have hk := hk₁.trans hk₂
      cases locked with
      | false => exact ⟨hs₂, Or.inl hk⟩
      | true =>
        refine wp_mono _ _ _ ?_
          (reconcileLocked_wp hs₂ (hk.fresh hf) (by rw [hk.nsec]; exact hrow) _ _)
        rintro r st₃ ⟨hs₃, hh⟩
        exact ⟨hs₃, Or.inr ⟨pubkey, hp, hh.of_kept hk⟩⟩

end

/-! ## Small stores -/

/-- A subscription as Flash may report it. -/
def sampleSubscription (id status : String) (ref : Option String) : FlashSubscription where
  id := id
  status := status
  ref := ref
  subscriberId := none
  serviceId := "service"
  planId := "plan"
  currentPeriodStart := none
  currentPeriodEnd := some 1000
  nextBillingDate := none
  trialEndDate := none
  cancelEffectiveDate := none
  portalUrl := none
  pricing := none
  policy := unknownLifecyclePolicy

/-- A store with one plan, which grants policy 7. -/
def sampleStore {S : Type} (nsec : Pubkey → Option BrainstormNsec)
    (subscription : Pubkey → Option UserSubscription) (pubkeys : List Pubkey) : Store S where
  nsec := .ofRows nsec
  subscription := .ofRows subscription
  plan := .ofRows fun i => if i = 0 then some ⟨"service", "plan", 7, true⟩ else none
  event := .ofRows fun _ => none
  loaded := fun _ _ => none
  loadedEvent := fun _ _ => none
  pubkeys := pubkeys
  planCount := 1
  eventCount := 0
  schedulings := [3, 7]

/-- An event that names `"alice"`. -/
def sampleEvent (createdAt : DateTime) : FlashWebhookEvent where
  event := "subscription.renewed"
  eventTimestamp := none
  deliveryTimestamp := createdAt
  subscriptionId := none
  payload := some ⟨some "alice", none, none, none⟩
  createdAt := createdAt
  processingStartedAt := none
  processedAt := none
  attempts := 0
  processError := none
  resolvedBy := none
  resolution := none
  dedupeKey := toString createdAt

theorem sampleStore_quiet {S : Type} (nsec : Pubkey → Option BrainstormNsec)
    (subscription : Pubkey → Option UserSubscription) (pubkeys : List Pubkey) :
    (sampleStore nsec subscription pubkeys : Store S).Quiet where
  owned := ⟨TxTable.owned_ofRows _, TxTable.owned_ofRows _, TxTable.owned_ofRows _,
    TxTable.owned_ofRows _⟩
  nsec _ := rfl
  subscription _ := rfl
  plan _ := rfl
  event _ := rfl
  loaded := rfl
  loadedEvent := rfl

/-- Flash answers every lookup with `sub`. -/
def flashReports (sub : FlashSubscription) (now : DateTime) : Outside where
  flash := fun _ => .ok (some sub)
  now := now

end BrainstormServer
