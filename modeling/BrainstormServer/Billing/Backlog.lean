/-
  The reconcile loop works through its backlog.

  `select_reconcile_candidates_on_db` hands out the rows that were read longest ago, at
  most `limit` of them.  Whatever comes of an attempt, its row must get a new
  `last_synced_at`, or it stays at the head of the batch: a resolution sets it in the
  upsert, everything else in `record_sync_failure_on_db`.

  What ends a batch early, a handler that reads a row it has expired, is taken not to
  happen here: `execRefreshing` is `exec` with every attribute of a loaded row to be had.

  * `applyEntitlement_attempt`: an attempt records a resolution and the time, or changes
    no subscriber, and then it was for a reason that the loop records;
  * `reconcileCycle_sweeps`: a cycle attempts its batch, and afterwards the rows of the batch,
    and no others, show a time at which the cycle was under way;
  * `backlog_attempted`: so `k` cycles attempt `k * limit` rows that stay candidates.
-/
import BrainstormServer.Billing.Alone
import BrainstormServer.Billing.Commands
import BrainstormServer.Conc.Dated
import BrainstormServer.Conc.Rounds
import Mathlib

namespace BrainstormServer

open Conc Prog Rounds

variable {S : Type} [DecidableEq S]

/-! ## Executions -/

/-- `exec`, except that an attribute of an expired instance can be read: the instance is
    loaded again. -/
def execRefreshing (s : S) : (c : Cmd) → Store S → Outside → Option (c.Ans × Store S)
  | .readInstance p, st, _ => some (true, st.remember s [p])
  | c, st, ω => exec s c st ω

/-- Flash does not refuse the credentials, and a read of it fails in no other way than the
    source names. -/
def Credentialed (ω : ℕ → Outside) : Prop :=
  ∀ n handle e, (ω n).flash handle = .error e → ∃ m, e = .unavailable m

section
variable {s : S} {c : Cmd} {st st' : Store S} {o : Outside} {a : c.Ans}

theorem execRefreshing_cases (h : execRefreshing s c st o = some (a, st')) :
    (∃ p, c = .readInstance p ∧ st' = st.remember s [p]) ∨ exec s c st o = some (a, st') := by
  cases c with
  | readInstance p =>
    obtain ⟨-, rfl⟩ := Prod.mk.inj (Option.some.inj h)
    exact Or.inl ⟨p, rfl, rfl⟩
  | _ => exact Or.inr h

theorem execRefreshing_total (c : Cmd) (h : st.Solo s) (o : Outside) :
    ∃ r, execRefreshing s c st o = some r := by
  cases c with
  | readInstance p => exact ⟨_, rfl⟩
  | _ => exact exec_total _ h o

theorem Store.Solo.remember (h : st.Solo s) (ps : List Pubkey) : (st.remember s ps).Solo s where
  owned := ⟨h.owned.nsec, h.owned.subscription, h.owned.plan, h.owned.event⟩
  nsec := h.nsec
  subscription := h.subscription
  plan := h.plan
  event := h.event
  loaded hne := ⟨(Function.update_of_ne hne _ _).trans (h.loaded hne).1, (h.loaded hne).2⟩

theorem execRefreshing_solo (h : execRefreshing s c st o = some (a, st')) (hs : st.Solo s) :
    st'.Solo s := by
  rcases execRefreshing_cases h with ⟨p, -, rfl⟩ | he
  · exact hs.remember _
  · exact exec_solo he hs

/-- A command that neither writes a subscriber nor ends the transaction. -/
def Cmd.asks (c : Cmd) : Bool := c.subscriptionKey.isNone ∧ ¬ c.endsTx

theorem execRefreshing_asks (h : execRefreshing s c st o = some (a, st')) (hc : c.asks = true) :
    st'.subscription = st.subscription := by
  obtain ⟨hkey, hends⟩ := of_decide_eq_true hc
  rcases execRefreshing_cases h with ⟨p, -, rfl⟩ | he
  · rfl
  · cases exec_subscription he with
    | same hsub _ => exact hsub
    | record p sub plan granted hcmd =>
      rw [hcmd] at hkey
      cases hkey
    | update p f _ hp =>
      rw [hp] at hkey
      cases hkey
    | commit hcmd =>
      rw [hcmd] at hends
      exact absurd rfl hends
    | rollback hcmd =>
      rw [hcmd] at hends
      exact absurd rfl hends

end

section
variable {s : S} {ω : ℕ → Outside} {W : Unit → Prop} {α : Type}

/-- The rule for a command. -/
theorem wp_clocked {c : Cmd} {k : c.Ans → Billing α} {Q : Except Exn α → Store S × Hist → Prop}
    {x : Store S × Hist} (hs : x.1.Solo s)
    (hk : ∀ a st, execRefreshing s c x.1 (ω x.2.length) = some (a, st) → st.Solo s →
      (k a).wp (dated execRefreshing ω) s W Q (st, x.2 ++ [⟨c, a⟩])) :
    (Prog.op c k : Billing α).wp (dated execRefreshing ω) s W Q x :=
  wp_dated (execRefreshing_total c hs _) fun a st he => hk a st he (execRefreshing_solo he hs)

/-! ## Asking -/

/-- What was done from `x` on to `x'` changed no subscriber, and raised nothing but
    `FlashUnavailable`. -/
structure Asked (s : S) (x : Store S × Hist) (r : Except Exn α) (x' : Store S × Hist) : Prop where
  solo : x'.1.Solo s
  later : x.2.length ≤ x'.2.length
  subscription : x'.1.subscription = x.1.subscription
  unavailable : ∀ e, r = .error e → ∃ m, e = .flashUnavailable m

omit [DecidableEq S] in
theorem Asked.refl {x : Store S × Hist} (hs : x.1.Solo s) (a : α) : Asked s x (.ok a) x :=
  ⟨hs, le_rfl, rfl, fun _ h => nomatch h⟩

omit [DecidableEq S] in
theorem Asked.trans {β : Type} {x x₁ x₂ : Store S × Hist} {r : Except Exn α} {r' : Except Exn β}
    (h : Asked s x r x₁) (h' : Asked s x₁ r' x₂) : Asked s x r' x₂ :=
  ⟨h'.solo, h.later.trans h'.later, h'.subscription.trans h.subscription, h'.unavailable⟩

/-- The rule for a command that asks. -/
theorem wp_asks {c : Cmd} {k : c.Ans → Billing α} {Q : Except Exn α → Store S × Hist → Prop}
    {x : Store S × Hist} (hs : x.1.Solo s) (hc : c.asks = true)
    (hk : ∀ a st, execRefreshing s c x.1 (ω x.2.length) = some (a, st) →
      Asked s x (.ok () : Except Exn Unit) (st, x.2 ++ [⟨c, a⟩]) →
      (k a).wp (dated execRefreshing ω) s W Q (st, x.2 ++ [⟨c, a⟩])) :
    (Prog.op c k : Billing α).wp (dated execRefreshing ω) s W Q x :=
  wp_clocked hs fun a st he hs' => hk a st he
    ⟨hs', by simp, execRefreshing_asks he hc, fun _ h => nomatch h⟩

theorem fetchSubscription_asked {x : Store S × Hist} (hω : Credentialed ω) (hs : x.1.Solo s)
    (i ref : Option String) :
    (fetchSubscription i ref).wp (dated execRefreshing ω) s W (Asked s x) x := by
  unfold fetchSubscription
  split
  · refine ⟨hs, le_rfl, rfl, fun e he => ?_⟩
    cases he
    exact ⟨_, rfl⟩
  · rename_i handle _
    refine wp_asks hs rfl fun a st he hx => ?_
    have hflash : (ω x.2.length).flash handle = a := (Prod.mk.inj (Option.some.inj he)).1
    cases a with
    | ok sub => exact ⟨hx.solo, hx.later, hx.subscription, fun _ h => nomatch h⟩
    | error err =>
      obtain ⟨m, rfl⟩ := hω _ _ _ hflash
      refine ⟨hx.solo, hx.later, hx.subscription, fun e he => ?_⟩
      cases he
      exact ⟨m, rfl⟩

theorem lookUpSubscription_asked {x : Store S × Hist} (hω : Credentialed ω) (hs : x.1.Solo s)
    (p : Pubkey) (i : Option String) (allow : Bool) :
    (lookUpSubscription p i allow).wp (dated execRefreshing ω) s W (Asked s x) x := by
  unfold lookUpSubscription
  simp only [await, bind_eq, call_bind, pure_eq]
  refine (wp_bind _ _ _).2 (wp_mono _ _ _ ?_ (fetchSubscription_asked hω hs _ _))
  rintro (e | sub) x₁ hx₁
  · exact ⟨hx₁.solo, hx₁.later, hx₁.subscription, fun e' he => hx₁.unavailable e' (by cases he; rfl)⟩
  · dsimp only
    split_ifs
    · refine wp_asks hx₁.solo rfl fun stored st₂ _ hx₂ => ?_
      cases stored with
      | none => exact (hx₁.trans hx₂).trans (Asked.refl hx₂.solo _)
      | some row =>
        refine (wp_bind _ _ _).2 (wp_mono _ _ _ ?_ (fetchSubscription_asked hω hx₂.solo _ _))
        rintro (e | sub') x₃ hx₃
        · exact (hx₁.trans hx₂).trans ⟨hx₃.solo, hx₃.later, hx₃.subscription,
            fun e' he => hx₃.unavailable e' (by cases he; rfl)⟩
        · exact ((hx₁.trans hx₂).trans hx₃).trans (Asked.refl hx₃.solo _)
    · exact hx₁.trans (Asked.refl hx₁.solo _)

theorem currentSubscription_asked {x : Store S × Hist} (hω : Credentialed ω) (hs : x.1.Solo s)
    (p : Pubkey) (existing : Option UserSubscription) (sub : FlashSubscription) :
    (currentSubscription p existing sub).wp (dated execRefreshing ω) s W (Asked s x) x := by
  unfold currentSubscription
  split_ifs
  · refine (wp_bind _ _ _).2 (wp_mono _ _ _ ?_ (fetchSubscription_asked hω hs _ _))
    rintro (e | current) x₁ hx₁
    · exact ⟨hx₁.solo, hx₁.later, hx₁.subscription,
        fun e' he => hx₁.unavailable e' (by cases he; rfl)⟩
    · exact hx₁.trans (Asked.refl hx₁.solo _)
  · exact Asked.refl hs _

/-! ## One turn -/

/-- From `st` to `st'` every row of `rows` got a `last_synced_at` no older than the `n`-th
    command, no other subscriber changed, and all of it is committed. -/
structure Swept (ω : ℕ → Outside) (s : S) (n : ℕ) (rows : List Pubkey) (st st' : Store S) :
    Prop where
  solo : st'.Solo s
  clean : st'.subscription.view s = st'.subscription.committed
  synced : ∀ p ∈ rows, ∃ m ≥ n, ∃ row, st'.subscription.committed p = some row ∧
    row.lastSyncedAt = some (ω m).now
  others : ∀ p ∉ rows, st'.subscription.committed p = st.subscription.view s p

omit [DecidableEq S] in
theorem Swept.nil {n : ℕ} {st : Store S} (hs : st.Solo s)
    (hc : st.subscription.view s = st.subscription.committed) : Swept ω s n [] st st :=
  ⟨hs, hc, fun _ hp => absurd hp List.not_mem_nil, fun p _ => (congrFun hc p).symm⟩

omit [DecidableEq S] in
theorem Swept.cons {n n' : ℕ} {p : Pubkey} {rows : List Pubkey} {st st₁ st₂ : Store S}
    (h : Swept ω s n [p] st st₁) (hn : n ≤ n') (h' : Swept ω s n' rows st₁ st₂) :
    Swept ω s n (p :: rows) st st₂ where
  solo := h'.solo
  clean := h'.clean
  synced q hq := by
    by_cases hrows : q ∈ rows
    · obtain ⟨m, hm, hrow⟩ := h'.synced q hrows
      exact ⟨m, hn.trans hm, hrow⟩
    · -- it was swept first, and has been left alone since
      obtain rfl : q = p := (List.mem_cons.1 hq).resolve_right hrows
      rw [h'.others q hrows, h.clean]
      exact h.synced q List.mem_cons_self
  others q hq := by
    rw [List.mem_cons, not_or] at hq
    rw [h'.others q hq.2, h.clean, h.others q (by simpa using hq.1)]

omit [DecidableEq S] in
/-- What went before changed no subscriber. -/
theorem Swept.after {n n' : ℕ} {rows : List Pubkey} {st st₁ st' : Store S}
    (h : Swept ω s n' rows st₁ st') (hn : n ≤ n')
    (hview : st₁.subscription.view s = st.subscription.view s) : Swept ω s n rows st st' where
  solo := h.solo
  clean := h.clean
  synced p hp := by
    obtain ⟨m, hm, hrow⟩ := h.synced p hp
    exact ⟨m, hn.trans hm, hrow⟩
  others p hp := by rw [h.others p hp, hview]

/-- A row is written with the time and committed. -/
theorem Swept.of_commit {n m : ℕ} {p : Pubkey} {row : UserSubscription} {st st' : Store S}
    (hs : st'.Solo s)
    (hview : st'.subscription.view s = Function.update (st.subscription.view s) p (some row))
    (hrow : row.lastSyncedAt = some (ω m).now) (hm : n ≤ m) :
    Swept ω s n [p] st (st'.commit s) where
  solo := hs.commit
  clean := by simp [Store.commit]
  synced q hq := by
    obtain rfl := List.mem_singleton.1 hq
    refine ⟨m, hm, row, ?_, hrow⟩
    simp only [Store.commit, TxTable.committed_commit, hview, Function.update_self]
  others q hq := by
    simp only [Store.commit, TxTable.committed_commit, hview]
    exact Function.update_of_ne (by simpa using hq) _ _

/-- A statement was refused. -/
def Broken {β : Type} (s : S) (r : Except Exn β) (x' : Store S × Hist) : Prop :=
  r = .error databaseError ∧ x'.1.Solo s

/-- What an attempt for `p` comes to: a statement is refused, no subscriber changed, for a reason
    that the loop records, or the resolution and the time are recorded. -/
def Concluded (ω : ℕ → Outside) (s : S) (p : Pubkey) (x : Store S × Hist)
    (r : Except Exn EntitlementOutcome) (x' : Store S × Hist) : Prop :=
  Broken s r x' ∨ (Asked s x r x' ∧ ∀ outcome, r = .ok outcome → outcome.reason ∈ unsettledReasons) ∨
    ((∃ outcome, r = .ok outcome ∧ outcome.reason ∉ unsettledReasons) ∧
      Swept ω s x.2.length [p] x.1 x'.1)

omit [DecidableEq S] in
theorem Concluded.after {β : Type} {p : Pubkey} {x x₁ x₂ : Store S × Hist} {r : Except Exn β}
    {r' : Except Exn EntitlementOutcome} (h : Asked s x r x₁) (h' : Concluded ω s p x₁ r' x₂) :
    Concluded ω s p x r' x₂ := by
  rcases h' with hrefused | ⟨hasked, hreason⟩ | ⟨hok, hsweep⟩
  · exact Or.inl hrefused
  · exact Or.inr (Or.inl ⟨h.trans hasked, hreason⟩)
  · exact Or.inr (Or.inr ⟨hok, hsweep.after h.later (by rw [h.subscription])⟩)

omit [DecidableEq S] in
/-- An attempt that ends before anything is resolved. -/
theorem Concluded.unsettled {p : Pubkey} {x x' : Store S × Hist} {applied : Bool}
    {reason : EntitlementReason} (h : Asked s x (.ok () : Except Exn Unit) x')
    (hreason : reason ∈ unsettledReasons) : Concluded ω s p x (.ok ⟨applied, reason⟩) x' := by
  refine Or.inr (Or.inl ⟨h.trans (Asked.refl h.solo _), ?_⟩)
  rintro _ ⟨⟩
  exact hreason

omit [DecidableEq S] in
theorem Concluded.unavailable {β : Type} {p : Pubkey} {x x' : Store S × Hist} {e : Exn}
    (h : Asked s x (.error e : Except Exn β) x') : Concluded ω s p x (.error e) x' := by
  refine Or.inr (Or.inl ⟨⟨h.solo, h.later, h.subscription, fun e' he => h.unavailable e' ?_⟩, ?_⟩)
  · cases he
    rfl
  · rintro _ ⟨⟩

/-- A resolution is never one of the reasons that settle nothing. -/
theorem resolveEntitlement_settled (decision : EntitlementDecision) (blocked adminHeld : Bool)
    (planId : SchedulingId) (existing : Option SchedulingId) :
    (resolveEntitlement decision blocked adminHeld planId existing).reason ∉ unsettledReasons := by
  have hleft : ∀ reason ∈ [EntitlementReason.held, .blocked, .adminOverride],
      reason ∉ unsettledReasons := by decide
  obtain ⟨-, -, h⟩ | ⟨-, -, h⟩ | ⟨reason, hreason, h⟩ :=
    resolveEntitlement_cases decision blocked adminHeld planId existing
  · rw [h]
    simp [unsettledReasons]
  · rw [h]
    simp [unsettledReasons]
  · rw [h]
    exact hleft reason hreason

theorem assignPolicy_asked {x : Store S × Hist} (hs : x.1.Solo s) (p : Pubkey) (res : Resolution) :
    (assignPolicy p res).wp (dated execRefreshing ω) s W
      (fun r x' => r = .ok () ∧ Asked s x r x') x := by
  unfold assignPolicy
  split
  · exact wp_asks hs rfl fun _ _ _ hx => ⟨rfl, hx⟩
  · exact ⟨rfl, .refl hs ()⟩

theorem grantAndRecord_attempt {x : Store S × Hist} (hs : x.1.Solo s) (p : Pubkey)
    (sub : FlashSubscription) (plan : ℕ × BillingPlan) (now : DateTime)
    (existing : Option UserSubscription) :
    (grantAndRecord p sub plan now existing).wp (dated execRefreshing ω) s W
      (Concluded ω s p x) x := by
  unfold grantAndRecord
  simp only [await, bind_eq, call_bind, pure_eq]
  refine wp_asks hs rfl fun blocked st₁ _ hx₁ => ?_
  refine wp_asks hx₁.solo rfl fun source st₂ _ hx₂ => ?_
  refine (wp_bind _ _ _).2 (wp_mono _ _ _ ?_ (assignPolicy_asked hx₂.solo p _))
  rintro _ x₃ ⟨rfl, hx₃⟩
  dsimp only
  unfold upsertUserSubscription
  split_ifs
  swap
  · exact Or.inl ⟨rfl, hx₃.solo⟩
  refine wp_clocked hx₃.solo fun _ st₄ he₄ hs₄ => ?_
  refine wp_clocked hs₄ fun _ st₅ he₅ _ => ?_
  obtain ⟨-, rfl⟩ := exec_upsertUserSubscription he₄
  cases he₅
  refine Concluded.after ((hx₁.trans hx₂).trans hx₃) ?_
  refine Or.inr (Or.inr ⟨⟨_, rfl, resolveEntitlement_settled _ _ _ _ _⟩, ?_⟩)
  exact .of_commit hs₄ (by rw [TxTable.view_write]) rfl le_rfl

theorem decideFrom_attempt {x : Store S × Hist} (hω : Credentialed ω) (hs : x.1.Solo s) (p : Pubkey)
    (sub : FlashSubscription) :
    (decideFrom p sub).wp (dated execRefreshing ω) s W (Concluded ω s p x) x := by
  unfold decideFrom
  simp only [await, bind_eq, call_bind, pure_eq]
  refine wp_asks hs rfl fun existing st₁ _ hx₁ => ?_
  refine (wp_bind _ _ _).2 (wp_mono _ _ _ ?_
    (currentSubscription_asked hω hx₁.solo p existing sub))
  rintro (e | current) x₂ hx₂
  · exact .unavailable (hx₁.trans hx₂)
  · unfold getBillingPlan
    simp only [await, bind_eq, call_bind, pure_eq]
    refine wp_asks hx₂.solo rfl fun plan st₃ _ hx₃ => ?_
    have hx := (hx₁.trans hx₂).trans hx₃
    split_ifs
    swap
    · exact Or.inl ⟨rfl, hx₃.solo⟩
    cases plan with
    | none => exact .unsettled hx (by decide)
    | some plan =>
      refine wp_asks hx₃.solo rfl fun now st₄ _ hx₄ => ?_
      refine wp_mono _ _ _ ?_ (grantAndRecord_attempt hx₄.solo p current plan now existing)
      exact fun r x' h => .after (hx.trans hx₄) h

theorem reconcileLocked_attempt {x : Store S × Hist} (hω : Credentialed ω) (hs : x.1.Solo s)
    (p : Pubkey) (i : Option String) (allow : Bool) :
    (reconcileLocked p i allow).wp (dated execRefreshing ω) s W (Concluded ω s p x) x := by
  unfold reconcileLocked
  refine (wp_bind _ _ _).2 (wp_mono _ _ _ ?_ (lookUpSubscription_asked hω hs p i allow))
  rintro (e | ⟨_ | sub, allowed⟩) x₁ hx₁
  · exact .unavailable hx₁
  · exact .unsettled (hx₁.trans (Asked.refl hx₁.solo ())) (by decide)
  · dsimp only
    split
    · rename_i reason hrefuse
      refine .unsettled (hx₁.trans (Asked.refl hx₁.solo ())) ?_
      unfold refuseReference at hrefuse
      split at hrefuse
      · split_ifs at hrefuse
        rw [← Option.some.inj hrefuse]
        decide
      · split_ifs at hrefuse
        rw [← Option.some.inj hrefuse]
        decide
    · refine wp_mono _ _ _ ?_ (decideFrom_attempt hω hx₁.solo p sub)
      exact fun r x' h => .after hx₁ h

/-- **An attempt of the loop**, alone: the lock is never busy, so it ends in a resolution
    or in a reason that the loop records, unless a statement is refused. -/
theorem applyEntitlement_attempt {x : Store S × Hist} (hω : Credentialed ω) (hs : x.1.Solo s)
    (p : Pubkey) (i : Option String) (yield allow : Bool) :
    (applyEntitlement (some p) i yield allow).wp (dated execRefreshing ω) s W
      (Concluded ω s p x) x := by
  unfold applyEntitlement
  split
  · exact .unsettled (Asked.refl hs ()) (by decide)
  · rename_i p' hp
    obtain ⟨hp, -⟩ := Option.filter_eq_some_iff.1 hp
    obtain rfl := Option.some.inj hp
    simp only [await, bind_eq, call_bind, pure_eq]
    refine wp_asks hs rfl fun found st₁ he₁ hx₁ => ?_
    cases found with
    | false => exact .unsettled hx₁ (by decide)
    | true =>
      refine wp_asks hx₁.solo rfl fun locked st₂ he₂ hx₂ => ?_
      have hx := hx₁.trans hx₂
      cases locked with
      | false =>
        -- the user is there, and nobody else holds them
        obtain ⟨hfound, rfl⟩ := Prod.mk.inj (Option.some.inj he₁)
        have hbusy : exec s (.lockUserForUpdate p yield) x.1 (ω (x.2.length + 1)) =
            some (true, { x.1 with nsec := x.1.nsec.acquire s p }) := by
          simp [exec, ← Option.not_isSome, hfound, hs.nsec.free p]
        have hlocked := he₂.symm.trans hbusy
        cases hlocked
      | true =>
        refine wp_mono _ _ _ ?_ (reconcileLocked_attempt hω hx₂.solo p i allow)
        exact fun r x' h => .after hx h

/-- Recording a failure. -/
theorem noteFailure_sweeps {x : Store S × Hist} (hs : x.1.Solo s) {p : Pubkey}
    {row : UserSubscription} (hrow : x.1.subscription.view s p = some row) (reason : String) :
    (noteFailure p reason).wp (dated execRefreshing ω) s W
      (fun r x' => r = .ok () ∧ Swept ω s x.2.length [p] x.1 x'.1) x := by
  unfold noteFailure instancePubkey
  simp only [await, bind_eq, call_bind, pure_eq]
  refine wp_asks hs rfl fun found st₁ he₁ hx₁ => ?_
  obtain ⟨rfl, -⟩ := Prod.mk.inj (Option.some.inj he₁)
  refine wp_clocked hx₁.solo fun _ st₂ he₂ hs₂ => ?_
  refine wp_clocked hs₂ fun _ st₃ he₃ _ => ?_
  cases he₃
  obtain ⟨st', hmodify, he₂⟩ := Option.map_eq_some_iff.1 he₂
  cases he₂
  obtain ⟨t, ht, rfl⟩ := Option.map_eq_some_iff.1 hmodify
  have hview := TxTable.modify_view ht
  rw [hx₁.subscription, hrow] at hview
  exact ⟨rfl, .of_commit hs₂ hview rfl hx₁.later⟩

/-- The turn of `p` has come: its public key was read and `apply_entitlement` called with
    it, to its end. -/
def Attempted (p : Pubkey) (h : Hist) : Prop :=
  ∃ pre seg tail r, h = pre ++ ⟨.readInstance p, true⟩ :: (seg ++ tail) ∧
    (applyEntitlement (some p) none false false).Ends seg r

theorem Attempted.append {p : Pubkey} {h : Hist} (ha : Attempted p h) (t : Hist) :
    Attempted p (h ++ t) := by
  obtain ⟨pre, seg, tail, r, rfl, hends⟩ := ha
  exact ⟨pre, seg, tail ++ t, r, by simp, hends⟩

/-- **One turn**: whatever comes of it, short of a refused statement, the row of the turn has been
    attempted and shows the time. -/
theorem reconcileRow_sweeps {x : Store S × Hist} (hω : Credentialed ω) (hs : x.1.Solo s)
    (hc : x.1.subscription.view s = x.1.subscription.committed) {p : Pubkey}
    {row : UserSubscription} (hrow : x.1.subscription.view s p = some row) :
    (reconcileRow p).wp (dated execRefreshing ω) s W
      (fun r x' => Broken s r x' ∨ (r = .ok .reconciled ∨ r = .ok .failed) ∧
        Swept ω s x.2.length [p] x.1 x'.1 ∧ Attempted p x'.2) x := by
  unfold reconcileRow
  simp only [instancePubkey, await, bind_eq, call_bind, pure_eq]
  refine (wp_tryCatch _ _ _).2 (wp_asks hs rfl fun found st₁ he₁ hx₁ => ?_)
  obtain ⟨rfl, -⟩ := Prod.mk.inj (Option.some.inj he₁)
  show Prog.wp _ _ _ (Prog.bind (applyEntitlement (some p) none false false) _) _ _
  refine (wp_bind _ _ _).2 (wp_mono _ _ _ ?_
    (wp_dated_ends (applyEntitlement_attempt hω hx₁.solo p none false false)))
  rintro (e | outcome) x₂ ⟨hconcluded, seg, hseg, hends⟩
  · have hp : Attempted p x₂.2 := ⟨x.2, seg, [], _, by simp [hseg], hends⟩
    rcases hconcluded.after hx₁ with hrefused | ⟨hx₂, -⟩ | ⟨⟨_, ⟨⟩, -⟩, -⟩
    · obtain ⟨⟨⟩, hs₂⟩ := hrefused
      exact Or.inl ⟨rfl, hs₂⟩
    obtain ⟨m, rfl⟩ := hx₂.unavailable e rfl
    -- the rollback gives up nothing of the subscribers
    refine wp_clocked hx₂.solo fun _ st₃ he₃ hs₃ => ?_
    cases he₃
    have hview : (x₂.1.rollback s).subscription.view s = x.1.subscription.view s := by
      simp only [Store.rollback, TxTable.view_rollback_self, hx₂.subscription, hc]
    refine (wp_bind _ _ _).2 (wp_mono _ _ _ ?_ (wp_dated_ends
      (noteFailure_sweeps hs₃ (by rw [hview]; exact hrow) m)))
    rintro _ x₄ ⟨⟨rfl, hsweep⟩, t, ht, -⟩
    refine Or.inr ⟨Or.inr rfl, hsweep.after ?_ hview, ?_⟩
    · exact hx₂.later.trans (by simp)
    · rw [ht]
      exact (hp.append _).append t
  · have hp : Attempted p x₂.2 := ⟨x.2, seg, [], _, by simp [hseg], hends⟩
    dsimp only
    split_ifs with hunsettled
    · rcases hconcluded.after hx₁ with hrefused | ⟨hx₂, -⟩ | ⟨⟨_, ⟨⟩, hsettled⟩, -⟩
      · cases hrefused.1
      · have hview : x₂.1.subscription.view s = x.1.subscription.view s := by
          rw [hx₂.subscription]
        refine (wp_bind _ _ _).2 (wp_mono _ _ _ ?_ (wp_dated_ends
          (noteFailure_sweeps hx₂.solo (by rw [hview]; exact hrow) _)))
        rintro _ x₃ ⟨⟨rfl, hsweep⟩, t, ht, -⟩
        refine Or.inr ⟨Or.inr rfl, hsweep.after hx₂.later hview, ?_⟩
        rw [ht]
        exact hp.append t
      · exact absurd hunsettled hsettled
    · rcases hconcluded.after hx₁ with hrefused | ⟨-, hreason⟩ | ⟨-, hsweep⟩
      · cases hrefused.1
      · exact absurd (hreason outcome rfl) hunsettled
      · exact Or.inr ⟨Or.inl rfl, hsweep, hp⟩

/-! ## One cycle -/

theorem reconcileAll_sweeps (hω : Credentialed ω) : ∀ (rows : List Pubkey)
    (result : ReconcileResult) {x : Store S × Hist}, x.1.Solo s →
    x.1.subscription.view s = x.1.subscription.committed →
    (∀ p ∈ rows, ∃ row, x.1.subscription.view s p = some row) →
    (reconcileAll rows result).wp (dated execRefreshing ω) s W
      (fun r x' => Broken s r x' ∨ (∃ res, r = .ok res) ∧
        Swept ω s x.2.length rows x.1 x'.1 ∧ ∀ p ∈ rows, Attempted p x'.2) x := by
  intro rows
  induction rows with
  | nil =>
    exact fun result x hs hc _ => Or.inr ⟨⟨_, rfl⟩, .nil hs hc, fun _ hp => absurd hp List.not_mem_nil⟩
  | cons p rows ih =>
    intro result x hs hc hrows
    -- the rest of the batch, after the turn of `p`
    have hrest : ∀ {x₁ : Store S × Hist} (result' : ReconcileResult),
        Swept ω s x.2.length [p] x.1 x₁.1 → Attempted p x₁.2 → (∃ t, x₁.2 = x.2 ++ t) →
        (reconcileAll rows result').wp (dated execRefreshing ω) s W
          (fun r x' => Broken s r x' ∨ (∃ res, r = .ok res) ∧
            Swept ω s x.2.length (p :: rows) x.1 x'.1 ∧ ∀ q ∈ p :: rows, Attempted q x'.2) x₁ := by
      rintro x₁ result' hsweep hp ⟨t, ht⟩
      have hexist : ∀ q ∈ rows, ∃ row, x₁.1.subscription.view s q = some row := by
        intro q hq
        rw [hsweep.clean]
        by_cases hqp : q = p
        · obtain ⟨m, -, row, hrow, -⟩ := hsweep.synced q (List.mem_singleton.2 hqp)
          exact ⟨row, hrow⟩
        · rw [hsweep.others q (by simpa using hqp)]
          exact hrows q (List.mem_cons_of_mem _ hq)
      refine wp_mono _ _ _ ?_ (wp_dated_ends (ih result' hsweep.solo hsweep.clean hexist))
      rintro r x₂ ⟨hrefused | ⟨hok, hsweep', hall⟩, u, hu, -⟩
      · exact Or.inl hrefused
      refine Or.inr ⟨hok, hsweep.cons (by simp [ht]) hsweep', fun q hq => ?_⟩
      rcases List.mem_cons.1 hq with rfl | hq
      · rw [hu]
        exact hp.append u
      · exact hall q hq
    obtain ⟨row, hrow⟩ := hrows p List.mem_cons_self
    refine (wp_bind _ _ _).2 (wp_mono _ _ _ ?_ (wp_dated_ends (reconcileRow_sweeps hω hs hc hrow)))
    rintro r x₁ ⟨⟨rfl, hs₁⟩ | ⟨hr, hsweep, hp⟩, t, ht, -⟩
    · exact Or.inl ⟨rfl, hs₁⟩
    rcases hr with rfl | rfl
    · exact hrest _ hsweep hp ⟨t, ht⟩
    · exact hrest _ hsweep hp ⟨t, ht⟩

end

/-- The rows of the subscribers that a session sees with `select_reconcile_candidates_on_db`'s
    condition. -/
def Store.reconcileCandidates (st : Store S) (s : S) (now : DateTime) (staleAfter : ℤ)
    (abandoned : AbandonRule) : List (Pubkey × UserSubscription) :=
  (st.subscriptions s).filter (reconcileCondition ·.2 now staleAfter abandoned)

/-- These rows in the order of the statement. -/
def Store.reconcileOrder (st : Store S) (s : S) (now : DateTime) (staleAfter : ℤ)
    (abandoned : AbandonRule) : List (Pubkey × UserSubscription) :=
  (st.reconcileCandidates s now staleAfter abandoned).insertionSort
    fun row row' => syncedBefore row.2 row'.2

theorem exec_selectReconcile_order {s : S} {st st' : Store S} {o : Outside} {now : DateTime}
    {staleAfter : ℤ} {limit : ℕ} {abandoned : AbandonRule} {rows : List (Pubkey × UserSubscription)}
    (h : exec s (.selectReconcileCandidates now staleAfter limit abandoned) st o = some (rows, st')) :
    rows.map (·.1) = ((st.reconcileOrder s now staleAfter abandoned).map (·.1)).take limit := by
  obtain ⟨rfl, -⟩ := Prod.mk.inj (Option.some.inj h)
  rw [List.map_map, ← List.map_take]
  rfl

omit [DecidableEq S] in
theorem exists_of_mem_reconcileOrder {s : S} {st : Store S} {now : DateTime} {staleAfter : ℤ}
    {abandoned : AbandonRule} {row : Pubkey × UserSubscription}
    (h : row ∈ st.reconcileOrder s now staleAfter abandoned) :
    st.subscription.view s row.1 = some row.2 :=
  Store.mem_subscriptions (List.mem_filter.1 ((List.mem_insertionSort _).1 h)).1

/-- The rule `reconcile_subscriptions` gives up a checkout by. -/
def reconcileAbandoned (abandonPendingAfter : ℤ) : AbandonRule :=
  ⟨abandonPendingAfter, EntitlementReason.unknownSubscription.value⟩

section
variable {s : S} {ω : ℕ → Outside} {W : Unit → Prop}

theorem reconcileSubscriptions_sweeps {x : Store S × Hist} (hω : Credentialed ω) (hs : x.1.Solo s)
    (hc : x.1.subscription.view s = x.1.subscription.committed) (limit : ℕ)
    (staleAfter abandonPendingAfter : ℤ) (now : Option DateTime) {batch : List Pubkey}
    (hbatch : ((x.1.reconcileOrder s (now.getD (ω x.2.length).now) staleAfter
      (reconcileAbandoned abandonPendingAfter)).map (·.1)).take limit = batch) :
    (reconcileSubscriptions limit staleAfter abandonPendingAfter now).wp (dated execRefreshing ω) s W
      (fun r x' => Broken s r x' ∨ (∃ res, r = .ok res) ∧
        Swept ω s (x.2.length + 1) batch x.1 x'.1 ∧ ∀ p ∈ batch, Attempted p x'.2) x := by
  have hexist : ∀ p ∈ batch, ∃ row, x.1.subscription.view s p = some row := by
    intro p hp
    rw [← hbatch] at hp
    obtain ⟨row, hrow, rfl⟩ := List.mem_map.1 (List.mem_of_mem_take hp)
    exact ⟨row.2, exists_of_mem_reconcileOrder hrow⟩
  have hbody : ∀ {h : Hist}, x.2.length ≤ h.length →
      (Prog.op (.selectReconcileCandidates (now.getD (ω x.2.length).now) staleAfter limit
        (reconcileAbandoned abandonPendingAfter)) fun candidates : List (Pubkey × UserSubscription) =>
          reconcileAll (candidates.map (·.1)) ⟨0, 0⟩).wp (dated execRefreshing ω) s W
        (fun r x' => Broken s r x' ∨ (∃ res, r = .ok res) ∧
          Swept ω s (x.2.length + 1) batch x.1 x'.1 ∧ ∀ p ∈ batch, Attempted p x'.2) (x.1, h) := by
    intro h hh
    refine wp_asks hs rfl fun candidates st₁ he hx₁ => ?_
    rw [exec_selectReconcile_order (o := ω h.length) he, hbatch]
    have hview : st₁.subscription.view s = x.1.subscription.view s := by rw [hx₁.subscription]
    refine wp_mono _ _ _ ?_ (reconcileAll_sweeps hω batch ⟨0, 0⟩ hx₁.solo ?_ ?_)
    · rintro r x' (hrefused | ⟨hok, hsweep, hall⟩)
      · exact Or.inl hrefused
      · exact Or.inr ⟨hok, hsweep.after (by simpa using hh) hview, hall⟩
    · rw [hx₁.subscription]
      exact hc
    · intro p hp
      rw [hview]
      exact hexist p hp
  unfold reconcileSubscriptions resolveNow
  cases now with
  | some t => exact hbody le_rfl
  | none =>
    refine wp_asks hs rfl fun t st₁ he _ => ?_
    cases he
    exact hbody (by simp)

omit [DecidableEq S] in
/-- What is committed in between changes nothing more. -/
theorem Swept.committed {n : ℕ} {rows : List Pubkey} {st st' st'' : Store S}
    (h : Swept ω s n rows st st') (hq : st''.Quiet)
    (hc : st''.subscription.committed = st'.subscription.committed) :
    Swept ω s n rows st st'' where
  solo := hq.solo s
  clean := hq.subscription_view s
  synced p hp := by
    rw [hc]
    exact h.synced p hp
  others p hp := by
    rw [hc]
    exact h.others p hp

/-- A cycle: `reconcile_subscriptions` in a session of its own. -/
def reconcileCycle (limit : ℕ) (staleAfter abandonPendingAfter : ℤ) (now : Option DateTime) :
    Billing ReconcileResult :=
  dbSession (reconcileSubscriptions limit staleAfter abandonPendingAfter now)

/-- **One cycle** returns, its batch is attempted, and the rows of the batch, and no others,
    show a time since it began; unless a statement is refused. -/
theorem reconcileCycle_sweeps {x : Store S × Hist} (hω : Credentialed ω) (hx : x.1.Quiet) (limit : ℕ)
    (staleAfter abandonPendingAfter : ℤ) (now : Option DateTime) {batch : List Pubkey}
    (hbatch : ((x.1.reconcileOrder s (now.getD (ω x.2.length).now) staleAfter
      (reconcileAbandoned abandonPendingAfter)).map (·.1)).take limit = batch) :
    ∃ r x', (reconcileCycle limit staleAfter abandonPendingAfter now).alone
        (dated execRefreshing ω) s (fun _ => ()) x = some (r, x') ∧ x'.1.Quiet ∧
      (∃ t, x'.2 = x.2 ++ t) ∧ (r = .error databaseError ∨ (∃ res, r = .ok res) ∧
        Swept ω s (x.2.length + 1) batch x.1 x'.1 ∧ ∀ p ∈ batch, Attempted p x'.2) := by
  have hwp : (reconcileCycle limit staleAfter abandonPendingAfter now).wp (dated execRefreshing ω) s
      (fun _ => True) (fun r x' => x'.1.Quiet ∧ (r = .error databaseError ∨ (∃ res, r = .ok res) ∧
        Swept ω s (x.2.length + 1) batch x.1 x'.1 ∧ ∀ p ∈ batch, Attempted p x'.2)) x := by
    unfold reconcileCycle dbSession
    refine (wp_bind _ _ _).2 ((wp_tryCatch _ _ _).2 (wp_mono _ _ _ ?_
      (reconcileSubscriptions_sweeps hω (hx.solo s) (hx.subscription_view s) limit staleAfter
        abandonPendingAfter now hbatch)))
    rintro _ x₁ (⟨rfl, hs₁⟩ | ⟨⟨res, rfl⟩, hsweep, hall⟩)
    · refine wp_clocked hs₁ fun _ st₂ he₂ _ => ?_
      cases he₂
      exact ⟨hs₁.rollback, Or.inl rfl⟩
    refine wp_clocked hsweep.solo fun _ st₂ he₂ hs₂ => ?_
    refine wp_clocked hs₂ fun _ st₃ he₃ _ => ?_
    cases he₂
    cases he₃
    refine ⟨hsweep.solo.commit.rollback, Or.inr ⟨⟨res, rfl⟩,
      hsweep.committed hsweep.solo.commit.rollback ?_, fun p hp => ?_⟩⟩
    · exact hsweep.clean
    · exact ((hall p hp).append _).append _
  obtain ⟨r, x', hrun, ⟨hq, hended⟩, t, ht, -⟩ :=
    wp_alone _ _ _ (fun _ => ()) (fun _ => trivial) (wp_dated_ends hwp)
  exact ⟨r, x', hrun, hq, ⟨t, ht⟩, hended⟩

end

/-! ## The clock -/

/-- Whatever time a row shows has come by `t`. -/
def RowReadBy (t : DateTime) (row : Option UserSubscription) : Prop :=
  ∀ r ∈ row, ∀ u ∈ r.lastSyncedAt, u ≤ t

/-- Every row does, as committed and as written by any session. -/
def Store.ReadBy (t : DateTime) (st : Store S) : Prop :=
  ∀ p, st.subscription.Everywhere p (RowReadBy t)

/-! ## Cycle after cycle -/

section
variable (s : S) (ω : ℕ → Outside) (limit : ℕ) (staleAfter abandonPendingAfter : ℤ)
  (now : ℕ → Option DateTime)

/-- The first `k` cycles, one after the other: the store they leave and what was executed.
    `now i` is what the `i`-th cycle is called with. -/
def reconcileCycles : ℕ → Store S → Option (Store S × Hist)
  | 0, st => some (st, [])
  | k + 1, st => (reconcileCycles k st).bind fun x =>
    ((reconcileCycle limit staleAfter abandonPendingAfter (now k)).alone (dated execRefreshing ω) s
      (fun _ => ()) x).map (·.2)

/-- The candidates of the `i`-th cycle, which begins in `x`. -/
def cycleOrder (i : ℕ) (x : Store S × Hist) : List Pubkey :=
  (x.1.reconcileOrder s ((now i).getD (ω x.2.length).now) staleAfter
    (reconcileAbandoned abandonPendingAfter)).map (·.1)

end

/-- When a row was last read; `⊥` is `NULL`. -/
def UserSubscription.synced (row : UserSubscription) : WithBot DateTime :=
  row.lastSyncedAt.elim ⊥ (↑)

/-- When the row of `p` was last read, if there is one. -/
def Store.synced (st : Store S) (p : Pubkey) : WithBot DateTime :=
  (st.subscription.committed p).elim ⊥ (·.synced)

/-- `ORDER BY last_synced_at ASC NULLS FIRST` as an order. -/
theorem syncedBefore_iff {row row' : UserSubscription} :
    syncedBefore row row' ↔ row.synced ≤ row'.synced := by
  unfold syncedBefore UserSubscription.synced
  cases row.lastSyncedAt with
  | none => exact ⟨fun _ => bot_le, fun _ => trivial⟩
  | some t =>
    cases row'.lastSyncedAt with
    | none => exact ⟨fun h => h.elim, fun h => absurd h (WithBot.not_coe_le_bot t)⟩
    | some t' => exact WithBot.coe_le_coe.symm

instance : Std.Total fun row row' : Pubkey × UserSubscription => syncedBefore row.2 row'.2 :=
  ⟨fun row row' => by
    rw [syncedBefore_iff, syncedBefore_iff]
    exact le_total _ _⟩

instance : IsTrans (Pubkey × UserSubscription) fun row row' => syncedBefore row.2 row'.2 :=
  ⟨fun row row' row'' h h' => by
    rw [syncedBefore_iff] at h h' ⊢
    exact h.trans h'⟩

variable {s : S} {ω : ℕ → Outside} {limit : ℕ} {staleAfter abandonPendingAfter : ℤ}
  {now : ℕ → Option DateTime}

omit [DecidableEq S] in
theorem Store.ReadBy.synced_le {st : Store S} {t : DateTime} (h : st.ReadBy t) (s : S) (p : Pubkey) :
    st.synced p ≤ (t : WithBot DateTime) := by
  unfold Store.synced UserSubscription.synced
  cases hrow : st.subscription.committed p with
  | none => exact bot_le
  | some row =>
    cases ht : row.lastSyncedAt with
    | none => simp [ht]
    | some u => simpa [ht] using (h p s).committed row hrow u ht

omit [DecidableEq S] in
/-- Who is not in the batch keeps their time. -/
theorem Swept.synced_eq {n : ℕ} {batch : List Pubkey} {st st' : Store S} {p : Pubkey}
    (h : Swept ω s n batch st st') (hst : st.Quiet) (hp : p ∉ batch) : st'.synced p = st.synced p := by
  have hkept := h.others p hp
  rw [hst.subscription_view] at hkept
  rw [Store.synced, hkept]
  rfl

omit [DecidableEq S] in
/-- Who is in the batch gets one after the clock began. -/
theorem Swept.lt_synced {n : ℕ} {batch : List Pubkey} {st st' : Store S} {p : Pubkey}
    (h : Swept ω s (n + 1) batch st st') (hclock : StrictMono fun n => (ω n).now) (hp : p ∈ batch) :
    ((ω 0).now : WithBot DateTime) < st'.synced p := by
  obtain ⟨m, hm, row, hrow, ht⟩ := h.synced p hp
  rw [Store.synced, hrow]
  show _ < row.synced
  rw [UserSubscription.synced, ht]
  exact WithBot.coe_lt_coe.2 (hclock (by omega))

omit [DecidableEq S] in
/-- The candidates of a cycle stand oldest read first. -/
theorem cycleOrder_sorted {x : Store S × Hist} (hx : x.1.Quiet) (i : ℕ) :
    (cycleOrder s ω staleAfter abandonPendingAfter now i x).Pairwise
      fun p q => x.1.synced p ≤ x.1.synced q := by
  have hrow : ∀ row ∈ x.1.reconcileOrder s ((now i).getD (ω x.2.length).now) staleAfter
      (reconcileAbandoned abandonPendingAfter), x.1.synced row.1 = row.2.synced := by
    intro row hmem
    have hview := exists_of_mem_reconcileOrder hmem
    rw [hx.subscription_view] at hview
    rw [Store.synced, hview]
    rfl
  refine List.pairwise_map.2 ((List.pairwise_insertionSort _ _).imp_of_mem ?_)
  intro row row' hmem hmem' h
  rw [hrow row hmem, hrow row' hmem']
  exact syncedBefore_iff.1 h

/-- Each cycle finds a quiet store, leaves a quiet store and, unless a statement is refused,
    sweeps the first of its candidates. -/
theorem reconcileCycles_succ {st : Store S} (hω : Credentialed ω) {i : ℕ} {x : Store S × Hist}
    (hx : reconcileCycles s ω limit staleAfter abandonPendingAfter now i st = some x)
    (hq : x.1.Quiet) {batch : List Pubkey}
    (hbatch : (cycleOrder s ω staleAfter abandonPendingAfter now i x).take limit = batch) :
    ∃ x', reconcileCycles s ω limit staleAfter abandonPendingAfter now (i + 1) st = some x' ∧
      x'.1.Quiet ∧ (∃ t, x'.2 = x.2 ++ t) ∧ ((∀ x'', (reconcileCycle limit staleAfter abandonPendingAfter
          (now i)).alone (dated execRefreshing ω) s (fun _ => ()) x ≠ some (.error databaseError, x'')) →
        Swept ω s (x.2.length + 1) batch x.1 x'.1 ∧ ∀ p ∈ batch, Attempted p x'.2) := by
  obtain ⟨r, x', hrun, hq', hlater, hended⟩ := reconcileCycle_sweeps hω hq limit staleAfter
    abandonPendingAfter (now i) hbatch
  refine ⟨x', ?_, hq', hlater, fun hnot => ?_⟩
  · simp only [reconcileCycles, hx, Option.bind_some, hrun, Option.map_some]
  · rcases hended with rfl | ⟨-, hswept⟩
    · exact absurd hrun (hnot x')
    · exact hswept

theorem reconcileCycles_total {st : Store S} (hω : Credentialed ω) (hst : st.Quiet) (k : ℕ) :
    ∃ x, reconcileCycles s ω limit staleAfter abandonPendingAfter now k st = some x ∧
      x.1.Quiet := by
  induction k with
  | zero => exact ⟨(st, []), rfl, hst⟩
  | succ k ih =>
    obtain ⟨x, hx, hq⟩ := ih
    obtain ⟨x', hx', hq', -⟩ := reconcileCycles_succ hω hx hq rfl
    exact ⟨x', hx', hq'⟩

omit [DecidableEq S] in
/-- Quiet stores, each with its batch swept for the next, are rounds of the oldest first. -/
theorem oldestFirst_of_swept {x : ℕ → Store S × Hist} (hq : ∀ i, (x i).1.Quiet)
    (hclock : StrictMono fun n => (ω n).now) (hpast : (x 0).1.ReadBy (ω 0).now)
    {rows : List Pubkey} {k : ℕ} (hsweep : ∀ i < k, Swept ω s ((x i).2.length + 1)
      (served (fun i => cycleOrder s ω staleAfter abandonPendingAfter now i (x i)) limit i)
      (x i).1 (x (i + 1)).1)
    (hrows : ∀ i < k, (cycleOrder s ω staleAfter abandonPendingAfter now i (x i)).Perm rows) :
    OldestFirst (fun i => cycleOrder s ω staleAfter abandonPendingAfter now i (x i)) limit
      (fun i p => (x i).1.synced p) rows ((ω 0).now : WithBot DateTime) k where
  perm := hrows
  sorted i _ := cycleOrder_sorted (hq i) i
  old p _ := hpast.synced_le s p
  kept i hi _ hp := (hsweep i hi).synced_eq (hq i) hp
  renewed i hi _ hp := (hsweep i hi).lt_synced hclock hp

/-- **The batch starves nobody.**  With a clock that only goes forward, and whatever comes of the
    attempts short of refused credentials and refused statements: where the candidates are always
    the same `rows`, `k` cycles attempt every one of them once `k * limit` is as many as they are. -/
theorem backlog_attempted {st : Store S} (hst : st.Quiet) (hω : Credentialed ω)
    (hclock : StrictMono fun n => (ω n).now) (hpast : st.ReadBy (ω 0).now) {rows : List Pubkey} {k : ℕ}
    (hrows : ∀ i < k, ∀ x, reconcileCycles s ω limit staleAfter abandonPendingAfter now i st =
      some x → ((x.1.reconcileCandidates s ((now i).getD (ω x.2.length).now) staleAfter
        (reconcileAbandoned abandonPendingAfter)).map (·.1)).Perm rows)
    (haccepted : ∀ i < k, ∀ x, reconcileCycles s ω limit staleAfter abandonPendingAfter now i st = some x →
      ∀ x', (reconcileCycle limit staleAfter abandonPendingAfter (now i)).alone (dated execRefreshing ω) s
        (fun _ => ()) x ≠ some (.error databaseError, x'))
    (hk : rows.length ≤ k * limit) :
    ∃ x, reconcileCycles s ω limit staleAfter abandonPendingAfter now k st = some x ∧
      ∀ p ∈ rows, Attempted p x.2 := by
  have htotal : ∀ i, ∃ x, reconcileCycles s ω limit staleAfter abandonPendingAfter now i st = some x ∧
      x.1.Quiet := reconcileCycles_total hω hst
  choose x hx hq using htotal
  have hzero : (x 0).1 = st := congrArg Prod.fst (Option.some.inj (hx 0)).symm
  have hstep : ∀ i, (∃ t, (x (i + 1)).2 = (x i).2 ++ t) ∧ (i < k → Swept ω s ((x i).2.length + 1)
      (served (fun i => cycleOrder s ω staleAfter abandonPendingAfter now i (x i)) limit i)
      (x i).1 (x (i + 1)).1 ∧
      ∀ p ∈ served (fun i => cycleOrder s ω staleAfter abandonPendingAfter now i (x i)) limit i,
        Attempted p (x (i + 1)).2) := by
    intro i
    obtain ⟨x', hx', -, hlater, hswept⟩ := reconcileCycles_succ hω (hx i) (hq i) rfl
    obtain rfl : x' = x (i + 1) := Option.some.inj (hx'.symm.trans (hx (i + 1)))
    exact ⟨hlater, fun hi => hswept (haccepted i hi (x i) (hx i))⟩
  have holdest := oldestFirst_of_swept hq hclock (by rw [hzero]; exact hpast) (fun i hi => ((hstep i).2 hi).1)
    fun i hi => ((List.perm_insertionSort _ _).map _).trans (hrows i hi (x i) (hx i))
  refine ⟨x k, hx k, fun p hp => ?_⟩
  obtain ⟨i, hi, hserved⟩ := holdest.all_served hk hp
  -- what was attempted in a cycle stays in the history
  have hlater : ∀ j, i < j → Attempted p (x j).2 := by
    intro j hj
    induction j, hj using Nat.le_induction with
    | base => exact ((hstep i).2 hi).2 p hserved
    | succ j _ ih =>
      obtain ⟨t, ht⟩ := (hstep j).1
      rw [ht]
      exact ih.append t
  exact hlater k hi

/-- Three subscribers in dunning: `"alice"` was never read, `"bob"` and `"carol"` long ago. -/
def behind : Store Unit :=
  sampleStore (fun _ => some ⟨some 7, .billing, false⟩)
    (fun p => if p ∈ ["alice", "bob", "carol"] then some
      { recordSubscription (sampleSubscription p "past_due" (some p)) 0 (some 7) 0 none with
        lastSyncedAt := if p = "alice" then none else some 0 } else none) ["alice", "bob", "carol"]

/-- Flash has the subscription of `"alice"`, cannot be reached for `"bob"`, and has forgotten
    `"carol"`; a second passes from command to command. -/
def patchy (n : ℕ) : Outside where
  now := 1000000 * n
  flash
    | .byRef p => if p = "alice" then .ok (some (sampleSubscription p "past_due" (some p)))
        else if p = "bob" then .error (.unavailable "timed out") else .ok none
    | .byId _ => .ok none

theorem behind_quiet : behind.Quiet := sampleStore_quiet _ _ _

theorem behind_readBy : behind.ReadBy 0 := by
  intro p s
  refine ⟨fun r hr u hu => ?_, fun r hr => ?_⟩
  · simp only [behind, sampleStore, TxTable.ofRows] at hr
    split_ifs at hr
    · cases hr
      cases hu
    · cases hr
      dsimp only at hu
      cases hu
      exact le_rfl
    · cases hr
  · cases hr

theorem patchy_credentialed : Credentialed patchy := by
  intro n handle e h
  cases handle with
  | byId i => cases h
  | byRef p =>
    simp only [patchy] at h
    split_ifs at h
    cases h
    exact ⟨_, rfl⟩

/-- Batches of two reach all three in two cycles. -/
theorem backlog_attempted_behind :
    ∃ x, reconcileCycles () patchy 2 1000000 0 (fun _ => none) 2 behind = some x ∧
      ∀ p ∈ ["alice", "bob", "carol"], Attempted p x.2 := by
  have hcandidates : ∀ i < 2, (reconcileCycles () patchy 2 1000000 0 (fun _ => none) i behind).map
      (fun x => (x.1.reconcileCandidates () (patchy x.2.length).now 1000000
        (reconcileAbandoned 0)).map (·.1)) = some ["alice", "bob", "carol"] := by
    decide
  have hreturns : ∀ i < 2, ((reconcileCycles () patchy 2 1000000 0 (fun _ => none) i behind).bind fun x =>
      ((reconcileCycle 2 1000000 0 none).alone (dated execRefreshing patchy) () (fun _ => ()) x).map
        fun r => decide (r.1 = .error databaseError)) = some false := by
    decide
  refine backlog_attempted behind_quiet patchy_credentialed ?_ behind_readBy ?_ ?_ (by decide)
  · intro m n h
    show (1000000 * m : ℤ) < 1000000 * n
    omega
  · intro i hi x hx
    have h := hcandidates i hi
    rw [hx] at h
    exact .of_eq (Option.some.inj h)
  · intro i hi x hx x' hrun
    have h := hreturns i hi
    rw [hx, Option.bind_some, hrun] at h
    cases h

end BrainstormServer
