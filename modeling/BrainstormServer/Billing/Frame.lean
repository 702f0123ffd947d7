/-
  What a command leaves alone.

  * `exec_stmt`: a command other than `COMMIT` and `ROLLBACK` is a statement
    (`TxTable.Stmt`) on every table, touching at most the row it names;
  * `Store.Owned`: a session has written only rows it holds, in every table and
    in every reachable store (`exec_owned`);
  * `exec_committed_nsec`, `exec_committed_subscription`: a committed row
    changes only by the commit of a session that has written it.
-/
import BrainstormServer.Billing.Service

namespace BrainstormServer

open Conc

/-- The user a command locks, or whose `brainstorm_nsec` row it writes. -/
def Cmd.nsecKey : Cmd → Option Pubkey
  | lockUserForUpdate p _ => some p
  | setSchedulingForPubkey p _ _ => some p
  | setBillingBlocked p _ => some p
  | _ => none

/-- The user whose `user_subscription` row a command writes. -/
def Cmd.subscriptionKey : Cmd → Option Pubkey
  | upsertUserSubscription p _ _ _ => some p
  | clearGrantedScheduling p => some p
  | updateFlashStatus p _ _ => some p
  | updateLastEventAt p _ => some p
  | recordSyncFailure p _ => some p
  | _ => none

/-- How a command rewrites the subscriber's row it updates. -/
def Cmd.subscriptionUpdate (ω : Outside) : Cmd → Option (UserSubscription → UserSubscription)
  | clearGrantedScheduling _ => some clearGranted
  | updateFlashStatus _ status cancelEffectiveDate =>
    some (setFlashStatus status cancelEffectiveDate)
  | updateLastEventAt _ eventTimestamp => some (advanceLastEvent eventTimestamp)
  | recordSyncFailure _ reason => some (noteSyncFailure reason ω.now)
  | _ => none

/-- Whether a command ends the session's transaction. -/
def Cmd.endsTx : Cmd → Bool
  | commit => true
  | rollback => true
  | _ => false

section
variable {S : Type}

/-- The effect of a command that ends no transaction. -/
structure Store.Stmt (s : S) (c : Cmd) (st st' : Store S) : Prop where
  nsec : TxTable.Stmt s (fun p => c.nsecKey = some p) st.nsec st'.nsec
  subscription : TxTable.Stmt s (fun p => c.subscriptionKey = some p) st.subscription
    st'.subscription
  plan : TxTable.Stmt s (fun _ => True) st.plan st'.plan
  event : TxTable.Stmt s (fun _ => True) st.event st'.event
  loaded_other : ∀ {s'}, s' ≠ s →
    st'.loaded s' = st.loaded s' ∧ st'.loadedEvent s' = st.loadedEvent s'

/-- Every table's uncommitted writes are on rows their sessions hold. -/
structure Store.Owned (st : Store S) : Prop where
  nsec : st.nsec.Owned
  subscription : st.subscription.Owned
  plan : st.plan.Owned
  event : st.event.Owned

variable [DecidableEq S] {s : S} {c : Cmd} {st st' : Store S} {ω : Outside}

omit [DecidableEq S] in
theorem Store.Stmt.of_nsec {t : TxTable S Pubkey BrainstormNsec}
    (h : TxTable.Stmt s (fun p => c.nsecKey = some p) st.nsec t) :
    Store.Stmt s c st { st with nsec := t } :=
  ⟨h, .refl _ _ _, .refl _ _ _, .refl _ _ _, fun _ => ⟨rfl, rfl⟩⟩

theorem Store.Stmt.of_loaded (f : Pubkey → Option UserSubscription) :
    Store.Stmt s c st { st with loaded := Function.update st.loaded s f } :=
  ⟨.refl _ _ _, .refl _ _ _, .refl _ _ _, .refl _ _ _, fun hs => ⟨Function.update_of_ne hs _ _, rfl⟩⟩

omit [DecidableEq S] in
theorem Store.Stmt.refl : Store.Stmt s c st st :=
  ⟨.refl _ _ _, .refl _ _ _, .refl _ _ _, .refl _ _ _, fun _ => ⟨rfl, rfl⟩⟩

theorem Store.Stmt.modifySubscription {p : Pubkey} {f : UserSubscription → UserSubscription}
    (h : st.modifySubscription s p f = some st') (hc : c.subscriptionKey = some p) :
    Store.Stmt s c st st' := by
  simp only [Store.modifySubscription, Option.map_eq_some_iff] at h
  obtain ⟨t, ht, rfl⟩ := h
  exact ⟨.refl _ _ _, .modify ht hc, .refl _ _ _, .refl _ _ _,
    fun hs => ⟨Function.update_of_ne hs _ _, rfl⟩⟩

theorem Store.Stmt.modifyEvent {i : ℕ} {f : FlashWebhookEvent → FlashWebhookEvent}
    (h : st.modifyEvent s i f = some st') : Store.Stmt s c st st' := by
  simp only [Store.modifyEvent, Option.map_eq_some_iff] at h
  obtain ⟨t, ht, rfl⟩ := h
  exact ⟨.refl _ _ _, .refl _ _ _, .refl _ _ _, .modify ht trivial,
    fun hs => ⟨rfl, Function.update_of_ne hs _ _⟩⟩

/-- **What a command can do** short of ending the transaction. -/
theorem exec_stmt {a : c.Ans} (h : exec s c st ω = some (a, st')) (hc : c.endsTx = false) :
    Store.Stmt s c st st' := by
  cases c with
  | commit => simp [Cmd.endsTx] at hc
  | rollback => simp [Cmd.endsTx] at hc
  | lockUserForUpdate p skip =>
    simp only [exec] at h
    split_ifs at h with h1 h2
    · cases h; exact .refl
    · cases h; exact .of_nsec (.acquire h2 rfl)
    · cases h; exact .refl
  | setSchedulingForPubkey p i src =>
    simp only [exec, Option.map_eq_some_iff] at h
    obtain ⟨t, ht, h⟩ := h
    cases h
    exact .of_nsec (.update ht rfl)
  | setBillingBlocked p b =>
    simp only [exec, Option.map_eq_some_iff] at h
    obtain ⟨t, ht, h⟩ := h
    cases h
    exact .of_nsec (.modify ht rfl)
  | getUserSubscription p =>
    simp only [exec] at h
    split at h
    · cases h; exact .refl
    · cases h; exact .of_loaded _
  | getUserSubscriptionByFlashId i =>
    simp only [exec] at h
    split at h
    · cases h; exact .refl
    · cases h; exact .of_loaded _
  | insertBillingPlan plan =>
    simp only [exec] at h
    split_ifs at h
    · cases h; exact .refl
    · simp only [Option.map_eq_some_iff] at h
      obtain ⟨t, ht, h⟩ := h
      cases h
      exact ⟨.refl _ _ _, .refl _ _ _, .update ht trivial, .refl _ _ _, fun _ => ⟨rfl, rfl⟩⟩
  | insertFlashWebhookEvent new =>
    simp only [exec] at h
    split_ifs at h
    · cases h; exact .refl
    · simp only [Option.map_eq_some_iff] at h
      obtain ⟨t, ht, h⟩ := h
      cases h
      exact ⟨.refl _ _ _, .refl _ _ _, .refl _ _ _, .update ht trivial, fun _ => ⟨rfl, rfl⟩⟩
  | upsertUserSubscription p sub i g =>
    simp only [exec, Option.map_eq_some_iff] at h
    obtain ⟨t, ht, h⟩ := h
    cases h
    exact ⟨.refl _ _ _, .update ht rfl, .refl _ _ _, .refl _ _ _, fun _ => ⟨rfl, rfl⟩⟩
  | clearGrantedScheduling p =>
    simp only [exec, Option.map_eq_some_iff] at h
    obtain ⟨t, ht, h⟩ := h
    cases h
    exact .modifySubscription ht rfl
  | updateFlashStatus p status d =>
    simp only [exec, Option.map_eq_some_iff] at h
    obtain ⟨t, ht, h⟩ := h
    cases h
    exact .modifySubscription ht rfl
  | updateLastEventAt p t =>
    simp only [exec, Option.map_eq_some_iff] at h
    obtain ⟨t, ht, h⟩ := h
    cases h
    exact .modifySubscription ht rfl
  | recordSyncFailure p reason =>
    simp only [exec, Option.map_eq_some_iff] at h
    obtain ⟨t, ht, h⟩ := h
    cases h
    exact .modifySubscription ht rfl
  | selectEntitlementCandidates => simp only [exec] at h; cases h; exact .of_loaded _
  | selectReconcileCandidates now stale limit rule =>
    simp only [exec] at h; cases h; exact .of_loaded _
  | dropInstances => simp only [exec] at h; cases h; exact .of_loaded _
  | updateBillingPlan i v =>
    simp only [exec, Option.map_eq_some_iff] at h
    obtain ⟨t, ht, h⟩ := h
    cases h
    exact ⟨.refl _ _ _, .refl _ _ _, .modify ht trivial, .refl _ _ _, fun _ => ⟨rfl, rfl⟩⟩
  | selectAbandonedWebhookEvents now stale n limit evs =>
    simp only [exec] at h; cases h
    exact ⟨.refl _ _ _, .refl _ _ _, .refl _ _ _, .refl _ _ _,
      fun hs => ⟨rfl, Function.update_of_ne hs _ _⟩⟩
  | claimWebhookEvent i now stale =>
    simp only [exec] at h
    split at h
    · cases h; exact .refl
    · simp only [Option.map_eq_some_iff] at h
      obtain ⟨t, ht, h⟩ := h
      cases h
      exact .modifyEvent ht
  | markWebhookEventProcessed i now =>
    simp only [exec, Option.map_eq_some_iff] at h
    obtain ⟨t, ht, h⟩ := h
    cases h
    exact .modifyEvent ht
  | recordWebhookEventFailure i reason =>
    simp only [exec, Option.map_eq_some_iff] at h
    obtain ⟨t, ht, h⟩ := h
    cases h
    exact .modifyEvent ht
  | resetEventsAwaitingPlan | settleUnresolvedEvents =>
    simp only [exec, Option.map_eq_some_iff] at h
    obtain ⟨t, ht, h⟩ := h
    cases h
    exact ⟨.refl _ _ _, .refl _ _ _, .refl _ _ _, .modifyAll ht, fun _ => ⟨rfl, rfl⟩⟩
  | _ => simp only [exec] at h; cases h; exact .refl

theorem endsTx_cases (h : c.endsTx = true) : c = .commit ∨ c = .rollback := by
  cases c <;> simp_all [Cmd.endsTx]

/-- The inversion of `exec`: a statement, a commit or a rollback. -/
theorem exec_cases {a : c.Ans} (h : exec s c st ω = some (a, st')) :
    (c.endsTx = false ∧ Store.Stmt s c st st') ∨ (c = .commit ∧ st' = st.commit s) ∨
      (c = .rollback ∧ st' = st.rollback s) := by
  cases hc : c.endsTx with
  | false => exact Or.inl ⟨rfl, exec_stmt h hc⟩
  | true =>
    rcases endsTx_cases hc with rfl | rfl
    · rw [exec_commit] at h; cases h; exact Or.inr (Or.inl ⟨rfl, rfl⟩)
    · rw [exec_rollback] at h; cases h; exact Or.inr (Or.inr ⟨rfl, rfl⟩)

/-- What a command does to the loaded `UserSubscription`s. -/
theorem exec_loaded {a : c.Ans} (h : exec s c st ω = some (a, st')) :
    st'.loaded = st.loaded ∨ (∃ ps, st' = st.remember s ps) ∨
      (∃ q f, c.subscriptionKey = some q ∧ c.subscriptionUpdate ω = some f ∧
        st.modifySubscription s q f = some st') ∨
      c = .dropInstances ∨ c = .rollback := by
  have hmodify : ∀ {q f}, c.subscriptionKey = some q → c.subscriptionUpdate ω = some f →
      st.modifySubscription s q f = some st' →
      st'.loaded = st.loaded ∨ (∃ ps, st' = st.remember s ps) ∨
        (∃ q f, c.subscriptionKey = some q ∧ c.subscriptionUpdate ω = some f ∧
          st.modifySubscription s q f = some st') ∨
        c = .dropInstances ∨ c = .rollback :=
    fun hq hf hm => Or.inr (Or.inr (Or.inl ⟨_, _, hq, hf, hm⟩))
  cases c with
  | rollback => exact Or.inr (Or.inr (Or.inr (Or.inr rfl)))
  | dropInstances => exact Or.inr (Or.inr (Or.inr (Or.inl rfl)))
  | lockUserForUpdate p skip =>
    simp only [exec] at h
    split_ifs at h <;> cases h <;> exact Or.inl rfl
  | getUserSubscription | getUserSubscriptionByFlashId =>
    simp only [exec] at h
    split at h
    · cases h; exact Or.inl rfl
    · cases h; exact Or.inr (Or.inl ⟨_, rfl⟩)
  | selectEntitlementCandidates => simp only [exec] at h; cases h; exact Or.inr (Or.inl ⟨_, rfl⟩)
  | selectReconcileCandidates now stale limit rule =>
    simp only [exec] at h; cases h; exact Or.inr (Or.inl ⟨_, rfl⟩)
  | setSchedulingForPubkey p i src =>
    simp only [exec, Option.map_eq_some_iff] at h
    obtain ⟨t, -, h⟩ := h
    cases h
    exact Or.inl rfl
  | setBillingBlocked p b =>
    simp only [exec, Option.map_eq_some_iff] at h
    obtain ⟨t, -, h⟩ := h
    cases h
    exact Or.inl rfl
  | upsertUserSubscription p sub i g =>
    simp only [exec, Option.map_eq_some_iff] at h
    obtain ⟨t, -, h⟩ := h
    cases h
    exact Or.inl rfl
  | clearGrantedScheduling p =>
    simp only [exec, Option.map_eq_some_iff] at h
    obtain ⟨t, ht, h⟩ := h
    cases h
    exact hmodify rfl rfl ht
  | updateFlashStatus p status d =>
    simp only [exec, Option.map_eq_some_iff] at h
    obtain ⟨t, ht, h⟩ := h
    cases h
    exact hmodify rfl rfl ht
  | updateLastEventAt p t =>
    simp only [exec, Option.map_eq_some_iff] at h
    obtain ⟨t, ht, h⟩ := h
    cases h
    exact hmodify rfl rfl ht
  | recordSyncFailure p reason =>
    simp only [exec, Option.map_eq_some_iff] at h
    obtain ⟨t, ht, h⟩ := h
    cases h
    exact hmodify rfl rfl ht
  | updateBillingPlan i v =>
    simp only [exec, Option.map_eq_some_iff] at h
    obtain ⟨t, -, h⟩ := h
    cases h
    exact Or.inl rfl
  | claimWebhookEvent i now stale =>
    simp only [exec] at h
    split at h
    · cases h; exact Or.inl rfl
    · simp only [Option.map_eq_some_iff, Store.modifyEvent] at h
      obtain ⟨_, ⟨t, -, rfl⟩, h⟩ := h
      cases h
      exact Or.inl rfl
  | markWebhookEventProcessed i now =>
    simp only [exec, Option.map_eq_some_iff, Store.modifyEvent] at h
    obtain ⟨_, ⟨t, -, rfl⟩, h⟩ := h
    cases h
    exact Or.inl rfl
  | recordWebhookEventFailure i reason =>
    simp only [exec, Option.map_eq_some_iff, Store.modifyEvent] at h
    obtain ⟨_, ⟨t, -, rfl⟩, h⟩ := h
    cases h
    exact Or.inl rfl
  | resetEventsAwaitingPlan | settleUnresolvedEvents =>
    simp only [exec, Option.map_eq_some_iff] at h
    obtain ⟨t, -, h⟩ := h
    cases h
    exact Or.inl rfl
  | insertBillingPlan | insertFlashWebhookEvent =>
    simp only [exec] at h
    split_ifs at h
    · cases h; exact Or.inl rfl
    · simp only [Option.map_eq_some_iff] at h
      obtain ⟨t, -, h⟩ := h
      cases h
      exact Or.inl rfl
  | _ => simp only [exec] at h; cases h; exact Or.inl rfl

omit [DecidableEq S] in
theorem Store.mem_subscriptions {p : Pubkey} {row : UserSubscription}
    (h : (p, row) ∈ st.subscriptions s) : st.subscription.view s p = some row := by
  simp only [Store.subscriptions, List.mem_filterMap, Option.map_eq_some_iff, Prod.mk.injEq] at h
  obtain ⟨_, -, _, hview, rfl, rfl⟩ := h
  exact hview

theorem remember_loaded {ps : List Pubkey} {p : Pubkey} {row : UserSubscription}
    (h : (st.remember s ps).loaded s p = some row) :
    st.loaded s p = some row ∨ st.subscription.view s p = some row := by
  simp only [Store.remember, Function.update_self] at h
  rcases Option.or_eq_some_iff.1 h with h | ⟨-, h⟩
  · exact Or.inl h
  · split_ifs at h
    exact Or.inr h

theorem exec_owned {a : c.Ans} (h : exec s c st ω = some (a, st')) (ho : st.Owned) :
    st'.Owned := by
  rcases exec_cases h with ⟨-, hs⟩ | ⟨-, rfl⟩ | ⟨-, rfl⟩
  · exact ⟨hs.nsec.owned ho.nsec, hs.subscription.owned ho.subscription, hs.plan.owned ho.plan,
      hs.event.owned ho.event⟩
  · exact ⟨ho.nsec.commit s, ho.subscription.commit s, ho.plan.commit s, ho.event.commit s⟩
  · exact ⟨ho.nsec.rollback s, ho.subscription.rollback s, ho.plan.rollback s, ho.event.rollback s⟩

/-- A committed `brainstorm_nsec` row changes only by the commit of a session
    that has written it. -/
theorem exec_committed_nsec {a : c.Ans} (h : exec s c st ω = some (a, st')) {p : Pubkey}
    (hw : c = .commit → st.nsec.pending s p = none) :
    st'.nsec.committed p = st.nsec.committed p := by
  rcases exec_cases h with ⟨-, hs⟩ | ⟨rfl, rfl⟩ | ⟨-, rfl⟩
  · rw [hs.nsec.committed]
  · exact TxTable.view_eq_committed (hw rfl)
  · rfl

theorem exec_committed_subscription {a : c.Ans} (h : exec s c st ω = some (a, st')) {p : Pubkey}
    (hw : c = .commit → st.subscription.pending s p = none) :
    st'.subscription.committed p = st.subscription.committed p := by
  rcases exec_cases h with ⟨-, hs⟩ | ⟨rfl, rfl⟩ | ⟨-, rfl⟩
  · rw [hs.subscription.committed]
  · exact TxTable.view_eq_committed (hw rfl)
  · rfl

/-! ## The writing statements -/

theorem exec_setSchedulingForPubkey {p : Pubkey} {i : Option SchedulingId} {src : SchedulingSource}
    {a : Unit} (h : exec s (.setSchedulingForPubkey p i src) st ω = some (a, st')) :
    st.nsec.free s p = true ∧ st' = { st with
      nsec := st.nsec.write s p (some { Option.getD (st.nsec.view s p) .created with
        schedulingId := i, schedulingSource := src }) } := by
  simp only [exec, Option.map_eq_some_iff, TxTable.update_eq_some] at h
  obtain ⟨t, ⟨hf, rfl⟩, he⟩ := h
  cases he
  exact ⟨hf, rfl⟩

theorem exec_upsertUserSubscription {p : Pubkey} {sub : FlashSubscription} {i : ℕ}
    {g : Option SchedulingId} {a : Unit}
    (h : exec s (.upsertUserSubscription p sub i g) st ω = some (a, st')) :
    st.subscription.free s p = true ∧ st' = { st with
      subscription := st.subscription.write s p
        (some (recordSubscription sub i g ω.now (st.subscription.view s p)))
      pubkeys := st.pubkeys.insert p } := by
  simp only [exec, Option.map_eq_some_iff, TxTable.update_eq_some] at h
  obtain ⟨t, ⟨hf, rfl⟩, he⟩ := h
  cases he
  exact ⟨hf, rfl⟩

theorem modifySubscription_eq {p : Pubkey} {f : UserSubscription → UserSubscription}
    (h : st.modifySubscription s p f = some st') :
    st'.nsec = st.nsec ∧ st'.plan = st.plan ∧ st'.subscription.view s =
      Function.update (st.subscription.view s) p ((st.subscription.view s p).map f) := by
  simp only [Store.modifySubscription, Option.map_eq_some_iff] at h
  obtain ⟨t, ht, rfl⟩ := h
  exact ⟨rfl, rfl, TxTable.modify_view ht⟩

theorem exec_clearGrantedScheduling {p : Pubkey} {a : Unit}
    (h : exec s (.clearGrantedScheduling p) st ω = some (a, st')) :
    st'.nsec = st.nsec ∧ st'.plan = st.plan ∧ st'.subscription.view s =
      Function.update (st.subscription.view s) p ((st.subscription.view s p).map clearGranted) := by
  simp only [exec, Option.map_eq_some_iff] at h
  obtain ⟨t, ht, he⟩ := h
  cases he
  exact modifySubscription_eq ht

theorem exec_updateFlashStatus {p : Pubkey} {status : String} {d : Option DateTime} {a : Unit}
    (h : exec s (.updateFlashStatus p status d) st ω = some (a, st')) :
    st'.nsec = st.nsec ∧ st'.plan = st.plan ∧ st'.subscription.view s =
      Function.update (st.subscription.view s) p
        ((st.subscription.view s p).map (setFlashStatus status d)) := by
  simp only [exec, Option.map_eq_some_iff] at h
  obtain ⟨t, ht, he⟩ := h
  cases he
  exact modifySubscription_eq ht

theorem exec_setBillingBlocked {p : Pubkey} {b : Bool} {a : Unit}
    (h : exec s (.setBillingBlocked p b) st ω = some (a, st')) :
    st'.subscription = st.subscription ∧ st'.nsec.view s = Function.update (st.nsec.view s) p
      ((st.nsec.view s p).map fun row => { row with billingBlocked := b }) := by
  simp only [exec, Option.map_eq_some_iff] at h
  obtain ⟨t, ht, he⟩ := h
  cases he
  exact ⟨rfl, TxTable.modify_view ht⟩

end

end BrainstormServer
