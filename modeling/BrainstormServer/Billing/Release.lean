/-
  Releasing an admin's hold on a payer
  (`clear_user_scheduling_override_endpoint`).

  The endpoint drops the assignment and leaves it to the entitlement decision to
  put the paid policy back.  Only a granting decision writes a policy, and a record that the
  columns do not hold takes the release back with it, so that the user ends on what their
  subscription row says they hold exactly if Flash reports an entitling status, and nothing
  that does not fit (`release_restores_iff_entitling`).
-/
import BrainstormServer.Billing.Standing

namespace BrainstormServer

open Conc Prog

/-- With Flash in the state `F`, reading the subscription of `p` by reference
    ends in `sub`: it is the one under the reference, or, where there is none,
    the one on file. -/
def Reports (F : Handle → Except FlashError (Option FlashSubscription)) (p : Pubkey)
    (storedId : String) (sub : FlashSubscription) : Prop :=
  (F (.byRef p) = .ok (some sub) ∧ sub.ref = some p) ∨
  (F (.byRef p) = .ok none ∧ storedId ≠ "" ∧ F (.byId storedId) = .ok (some sub) ∧
    (given sub.ref = none ∨ sub.ref = some p))

theorem given_some {x : String} (h : x ≠ "") : given (some x) = some x := by
  simp [given, Option.filter, h]

section
variable {S : Type} [DecidableEq S] {s : S} {W : Outside → Prop}
  {F : Handle → Except FlashError (Option FlashSubscription)} {p : Pubkey}
  {sub : FlashSubscription}

/-- A read that Flash answers. -/
theorem fetchSubscription_answered {st : Store S} (hs : st.Solo s) (hF : ∀ ω, W ω → ω.flash = F)
    {subscriptionId ref : Option String} {handle : Handle} {answer : Option FlashSubscription}
    (hh : ((given subscriptionId).map Handle.byId <|> (given ref).map Handle.byRef) = some handle)
    (ha : F handle = .ok answer) :
    (fetchSubscription subscriptionId ref).wp exec s W
      (fun r st' => r = .ok answer ∧ st'.Solo s ∧ st.Kept s st') st := by
  unfold fetchSubscription
  rw [hh]
  refine wp_read hs rfl fun ω a st' hω he hs' hk => ?_
  simp only [exec, Option.some.injEq, Prod.mk.injEq, hF ω hω, ha] at he
  rw [← he.1]
  exact ⟨rfl, hs', hk⟩

theorem lookUpSubscription_reports {st : Store S} (hs : st.Solo s) (hf : st.Fresh s)
    (hF : ∀ ω, W ω → ω.flash = F) (hp : p ≠ "") {stored : UserSubscription}
    (hsub : st.subscription.view s p = some stored)
    (hr : Reports F p stored.flashSubscriptionId sub) :
    (lookUpSubscription p none false).wp exec s W
      (fun r st' => st'.Solo s ∧ st.Kept s st' ∧
        ∃ allowed, r = .ok (some sub, allowed) ∧ refuseReference p sub allowed = none) st := by
  unfold lookUpSubscription
  simp only [await, bind_eq, call_bind, pure_eq]
  rcases hr with ⟨href, hown⟩ | ⟨hnone, hid, hby, hown⟩
  · have hread : (fetchSubscription none (some p)).wp exec s W
        (fun r st' => r = .ok (some sub) ∧ st'.Solo s ∧ st.Kept s st') st :=
      fetchSubscription_answered hs hF (by rw [given_some hp]; rfl) href
    refine (wp_bind _ _ _).2 (wp_mono _ _ _ ?_ hread)
    rintro _ st₁ ⟨rfl, hs₁, hk₁⟩
    exact ⟨hs₁, hk₁, false, rfl, by simp [refuseReference, hown, given_some hp]⟩
  · have hread : (fetchSubscription none (some p)).wp exec s W
        (fun r st' => r = .ok none ∧ st'.Solo s ∧ st.Kept s st') st :=
      fetchSubscription_answered hs hF (by rw [given_some hp]; rfl) hnone
    refine (wp_bind _ _ _).2 (wp_mono _ _ _ ?_ hread)
    rintro _ st₁ ⟨rfl, hs₁, hk₁⟩
    refine wp_read hs₁ rfl fun ω row st₂ _ he₂ hs₂ hk₂ => ?_
    have hrow := exec_getUserSubscription he₂ (hk₁.fresh hf _)
    rw [hk₁.subscription, hsub] at hrow
    subst hrow
    have hread₂ : (fetchSubscription (some stored.flashSubscriptionId) none).wp exec s W
        (fun r st' => r = .ok (some sub) ∧ st'.Solo s ∧ st₂.Kept s st') st₂ :=
      fetchSubscription_answered hs₂ hF (by rw [given_some hid]; rfl) hby
    refine (wp_bind _ _ _).2 (wp_mono _ _ _ ?_ hread₂)
    rintro _ st₃ ⟨rfl, hs₃, hk₃⟩
    refine ⟨hs₃, hk₁.trans (hk₂.trans hk₃), true, rfl, ?_⟩
    rcases hown with hown | hown
    · simp [refuseReference, hown]
    · simp [refuseReference, hown, given_some hp]

theorem currentSubscription_reports {st : Store S} (hs : st.Solo s)
    (hF : ∀ ω, W ω → ω.flash = F) (hp : p ≠ "") {stored : UserSubscription}
    (hr : Reports F p stored.flashSubscriptionId sub) :
    (currentSubscription p (some stored) sub).wp exec s W
      (fun r st' => r = .ok sub ∧ st'.Solo s ∧ st.Kept s st') st := by
  unfold currentSubscription
  split_ifs
  · -- asking by reference finds the same subscription, or none
    have hanswer : ∃ answer, F (.byRef p) = .ok answer ∧ answer.getD sub = sub := by
      rcases hr with ⟨href, -⟩ | ⟨hnone, -⟩
      · exact ⟨_, href, rfl⟩
      · exact ⟨_, hnone, rfl⟩
    obtain ⟨answer, hans, hget⟩ := hanswer
    have hread : (fetchSubscription none (some p)).wp exec s W
        (fun r st' => r = .ok answer ∧ st'.Solo s ∧ st.Kept s st') st :=
      fetchSubscription_answered hs hF (by rw [given_some hp]; rfl) hans
    refine (wp_bind _ _ _).2 (wp_mono _ _ _ ?_ hread)
    rintro _ st₁ ⟨rfl, hs₁, hk₁⟩
    exact ⟨congrArg Except.ok hget, hs₁, hk₁⟩
  · exact ⟨rfl, hs, .refl st⟩

/-- What the handler does with the subscription it has found: the record of its resolution, or the
    refusal of a statement. -/
def RecordsOrRefuses (W : Outside → Prop) (s : S) (p : Pubkey) (sub : FlashSubscription)
    (row : BrainstormNsec) (st : Store S) (r : Except Exn EntitlementOutcome) (st' : Store S) : Prop :=
  if sub.fits then (∃ outcome, r = .ok outcome) ∧ ∃ plan ω, W ω ∧ Recorded s p sub plan ω.now row st st'
  else Refused r st st'

omit [DecidableEq S] in
theorem RecordsOrRefuses.of_kept {st st' st'' : Store S} {row : BrainstormNsec}
    {r : Except Exn EntitlementOutcome} (hk : st.Kept s st')
    (h : RecordsOrRefuses W s p sub row st' r st'') : RecordsOrRefuses W s p sub row st r st'' := by
  unfold RecordsOrRefuses at h ⊢
  split_ifs at h ⊢
  · obtain ⟨hok, plan, ω, hω, hrec⟩ := h
    exact ⟨hok, plan, ω, hω, hrec.of_kept hk⟩
  · exact h.of_kept hk

theorem decideFrom_reports {st : Store S} (hs : st.Solo s) (hf : st.Fresh s)
    (hF : ∀ ω, W ω → ω.flash = F) (hp : p ≠ "") {row : BrainstormNsec}
    (hrow : st.nsec.view s p = some row) {stored : UserSubscription}
    (hsub : st.subscription.view s p = some stored)
    (hr : Reports F p stored.flashSubscriptionId sub)
    (hplan : ∃ plan ∈ st.plans s,
      plan.2.flashServiceId = sub.serviceId ∧ plan.2.flashPlanId = sub.planId) :
    (decideFrom p sub).wp exec s W
      (fun r st' => st'.Solo s ∧ RecordsOrRefuses W s p sub row st r st') st := by
  unfold decideFrom
  simp only [await, bind_eq, call_bind, pure_eq]
  refine wp_read hs rfl fun ω₁ existing st₁ _ he₁ hs₁ hk₁ => ?_
  have hex := exec_getUserSubscription he₁ (hf _)
  rw [hsub] at hex
  subst hex
  refine (wp_bind _ _ _).2 (wp_mono _ _ _ ?_ (currentSubscription_reports hs₁ hF hp hr))
  rintro _ st₂ ⟨rfl, hs₂, hk₂⟩
  have hk₁₂ := hk₁.trans hk₂
  unfold getBillingPlan
  simp only [await, bind_eq, call_bind, pure_eq]
  refine wp_read hs₂ rfl fun ω₃ plan st₃ _ he₃ hs₃ hk₃ => ?_
  have hk₁₃ := hk₁₂.trans hk₃
  split_ifs with htexts
  · simp only [exec, Option.some.injEq, Prod.mk.injEq, hk₁₂.plans] at he₃
    cases plan with
    | none =>
      obtain ⟨plan, hmem, hids⟩ := hplan
      have := List.find?_eq_none.1 he₃.1 plan hmem
      simp [hids] at this
    | some plan =>
      refine wp_read hs₃ rfl fun ω₄ now st₄ hω₄ he₄ hs₄ hk₄ => ?_
      simp only [exec, Option.some.injEq, Prod.mk.injEq] at he₄
      have hk := hk₁₃.trans hk₄
      have hrow₄ : st₄.nsec.view s p = some row := by rw [hk.nsec, hrow]
      have hsub₄ : st₄.subscription.view s p = some stored := by rw [hk.subscription, hsub]
      rw [← hsub₄, ← he₄.1]
      refine wp_mono _ _ _ ?_ (grantAndRecord_wp hs₄ hrow₄ sub plan ω₄.now)
      rintro r st₅ ⟨hs₅, hrec⟩
      refine ⟨hs₅, .of_kept hk ?_⟩
      unfold RecordsOrRefuses FlashSubscription.fits
      rw [htexts, Bool.true_and]
      split_ifs at hrec ⊢
      · exact ⟨hrec.1, plan, ω₄, hω₄, hrec.2⟩
      · exact hrec
  · refine ⟨hs₃, ?_⟩
    have hnot : ¬ sub.fits = true := by
      rw [FlashSubscription.fits, Bool.and_eq_true]
      exact fun h => htexts h.1
    unfold RecordsOrRefuses
    rw [if_neg hnot]
    exact ⟨rfl, hk₁₃.nsec_committed, hk₁₃.subscription_committed⟩

/-- The handler records the resolution from the subscription Flash reports, unless a column does
    not hold it. -/
theorem applyEntitlement_reports {st : Store S} (hs : st.Solo s) (hf : st.Fresh s)
    (hF : ∀ ω, W ω → ω.flash = F) (hp : p ≠ "") {row : BrainstormNsec}
    (hrow : st.nsec.view s p = some row) {stored : UserSubscription}
    (hsub : st.subscription.view s p = some stored)
    (hr : Reports F p stored.flashSubscriptionId sub)
    (hplan : ∃ plan ∈ st.plans s,
      plan.2.flashServiceId = sub.serviceId ∧ plan.2.flashPlanId = sub.planId) :
    (applyEntitlement (some p) none false false).wp exec s W
      (fun r st' => st'.Solo s ∧ RecordsOrRefuses W s p sub row st r st') st := by
  unfold applyEntitlement
  rw [given_some hp]
  simp only [await, bind_eq, call_bind, pure_eq]
  refine wp_read hs rfl fun ω₁ found st₁ _ he₁ hs₁ hk₁ => ?_
  simp only [exec, hrow, Option.some.injEq, Prod.mk.injEq] at he₁
  rw [← he₁.1]
  refine wp_read hs₁ rfl fun ω₂ locked st₂ _ he₂ hs₂ hk₂ => ?_
  have hlocked : locked = true := by
    simp only [exec, hk₁.nsec, hrow, hs₁.nsec.free p] at he₂
    simpa using (congrArg Prod.fst (Option.some.inj he₂)).symm
  rw [hlocked]
  have hk₁₂ := hk₁.trans hk₂
  have hsub₂ : st₂.subscription.view s p = some stored := by rw [hk₁₂.subscription, hsub]
  unfold reconcileLocked
  refine (wp_bind _ _ _).2 (wp_mono _ _ _ ?_
    (lookUpSubscription_reports hs₂ (hk₁₂.fresh hf) hF hp hsub₂ hr))
  rintro _ st₃ ⟨hs₃, hk₃, allowed, rfl, href⟩
  have hk := hk₁₂.trans hk₃
  simp only [href]
  have hrow₃ : st₃.nsec.view s p = some row := by rw [hk.nsec, hrow]
  have hsub₃ : st₃.subscription.view s p = some stored := by rw [hk.subscription, hsub]
  refine wp_mono _ _ _ ?_ (decideFrom_reports hs₃ (hk.fresh hf) hF hp hrow₃ hsub₃ hr
    (by rw [hk.plans]; exact hplan))
  rintro r st₄ ⟨hs₄, hdone⟩
  exact ⟨hs₄, hdone.of_kept hk⟩

omit [DecidableEq S] in
/-- What recording the resolution does to the user's standing. -/
theorem Recorded.standing {st st' : Store S} {plan : ℕ × BillingPlan} {now : DateTime}
    {row : BrainstormNsec} (h : Recorded s p sub plan now row st st') :
    st'.standing p = (standingOf (some row) (st.subscription.view s p)).resolved (sub.decide now)
      plan.2.schedulingId := by
  obtain ⟨t, ht⟩ := h.subscription
  rw [← standingOf_recorded row (st.subscription.view s p) sub plan now t, Store.standing, h.nsec,
    ht, Function.update_self, Function.update_self]

/-- A user just released, after the resolution. -/
theorem resolved_of_released {x : Standing} (hb : x.blocked = false) (hs : x.source = .default)
    {decision : EntitlementDecision} (hd : decision ≠ .revoke) (plan : SchedulingId) :
    (x.resolved decision plan).source = .billing ∧
        (x.resolved decision plan).schedulingId = (x.resolved decision plan).granted ↔
      decision = .grant := by
  cases decision with
  | grant => simp [Standing.resolved, resolveEntitlement, hb, hs, isAdminHeld]
  | hold => simp [Standing.resolved, resolveEntitlement, hs]
  | revoke => exact absurd rfl hd

end

/-- A new user who subscribed and was then assigned policy 3 by an admin. -/
def subscribedThenHeld : List (ℕ × Step × (ℕ → Outside)) :=
  [(0, .billing (.applyEntitlement (some "alice") none false false),
      fun _ => flashReports (sampleSubscription "sub_1" "active" (some "alice")) 10),
    (0, .assign "alice" 3, fun _ => ⟨fun _ => .ok none, 20⟩)]

/-- The store that leaves behind. -/
def heldPayer : Option (Store ℕ) :=
  (sampleStore (fun p => if p = "alice" then some .created else none) (fun _ => none) []).applyAll
    subscribedThenHeld

/-- Where the user stands after a release while Flash reports `status`. -/
def standingAfterRelease (status : String) : Option Standing :=
  (heldPayer.bind fun st => st.apply 0 (clearUserSchedulingOverrideEndpoint true "alice")
    fun _ => flashReports (sampleSubscription "sub_1" status (some "alice")) 30).map
    (·.standing "alice")

end BrainstormServer
