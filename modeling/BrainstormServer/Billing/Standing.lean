/-
  Where a user stands with billing, over whole sequences of operations.

  A user's `Standing` is who assigned their policy, which one, whether they are
  barred from paid entitlement, and what their subscription row says was
  granted.  `Move` lists what one billing operation can do to it; every
  operation, run by itself, makes only such moves (`BillingStep.moves`), for
  every user and on every path, the failing ones included.

  Hence, over every sequence of operations:

  * `grant_iff_billing_assignment`: the recorded grant and the assigned policy
    agree, unless an admin holds the assignment;
  * `admin_keeps_assignment`: an admin's hold survives all billing operations,
    which change its policy only to one Flash's answer pays for, and a barred
    user is never on a policy from billing.
-/
import Mathlib.Logic.Relation
import BrainstormServer.Billing.Alone

namespace BrainstormServer

open Conc Prog

/-! ## Standings -/

structure Standing where
  source : SchedulingSource
  schedulingId : Option SchedulingId
  blocked : Bool
  granted : Option SchedulingId
  deriving DecidableEq

/-- The standing two rows give a user; without a row it is that of a new user. -/
def standingOf (row : Option BrainstormNsec) (sub : Option UserSubscription) : Standing where
  source := (row.getD .created).schedulingSource
  schedulingId := (row.getD .created).schedulingId
  blocked := (row.getD .created).billingBlocked
  granted := sub.bind (·.grantedSchedulingId)

/-- Back on the default policy, with nothing granted. -/
def Standing.revoked (x : Standing) : Standing :=
  { x with source := .default, schedulingId := none, granted := none }

/-- The standing after a resolution is recorded. -/
def Standing.resolved (x : Standing) (decision : EntitlementDecision) (plan : SchedulingId) :
    Standing :=
  let res := resolveEntitlement decision x.blocked (isAdminHeld x.source) plan x.granted
  match res.writePolicy, res.source with
  | true, some source =>
    { x with source := source, schedulingId := res.schedulingId, granted := res.grantedSchedulingId }
  | _, _ => { x with granted := res.grantedSchedulingId }

/-- What one billing operation can do to a user's standing; `Pays` are the
    policies Flash's answers grant. -/
inductive Move (Pays : SchedulingId → Prop) : Standing → Standing → Prop
  | resolve {x : Standing} (decision : EntitlementDecision) (plan : SchedulingId) :
      (decision = .grant → Pays plan) → Move Pays x (x.resolved decision plan)
  | revoke {x : Standing} : x.source ≠ .admin → Move Pays x x.revoked
  | block {x : Standing} (b : Bool) : (b = true → x.source ≠ .billing) →
      Move Pays x { x with blocked := b }

/-- The recorded grant is the policy billing assigned. -/
def Standing.Agrees (x : Standing) : Prop :=
  x.source ≠ .admin → ∀ g, x.granted = some g ↔ x.source = .billing ∧ x.schedulingId = some g

/-- A barred user is not on a policy from billing. -/
def Standing.Barred (x : Standing) : Prop := x.blocked = true → x.source ≠ .billing

section
variable {Pays : SchedulingId → Prop} {x y : Standing}

theorem Standing.resolved_cases (x : Standing) (decision : EntitlementDecision)
    (plan : SchedulingId) :
    (decision = .grant ∧ x.blocked = false ∧ x.resolved decision plan =
      { x with source := if isAdminHeld x.source then .admin else .billing,
               schedulingId := some plan, granted := some plan }) ∨
    (x.source ≠ .admin ∧ x.resolved decision plan = x.revoked) ∨
    x.resolved decision plan = x := by
  rcases resolveEntitlement_cases decision x.blocked (isAdminHeld x.source) plan x.granted with
    ⟨hd, hb, hr⟩ | ⟨-, ha, hr⟩ | ⟨reason, -, hr⟩
  · exact Or.inl ⟨hd, hb, by simp only [Standing.resolved, hr]⟩
  · refine Or.inr (Or.inl ⟨?_, by simp only [Standing.resolved, hr, Standing.revoked]⟩)
    simpa [isAdminHeld] using ha
  · exact Or.inr (Or.inr (by simp only [Standing.resolved, hr]))

theorem Standing.revoked_agrees (x : Standing) : x.revoked.Agrees := by
  intro _ g
  simp [Standing.revoked]

theorem Move.agrees (h : Move Pays x y) (hx : x.Agrees) : y.Agrees := by
  cases h with
  | resolve decision plan hp =>
    rcases x.resolved_cases decision plan with ⟨-, -, he⟩ | ⟨-, he⟩ | he
    · rw [he]
      intro hs g
      by_cases ha : isAdminHeld x.source = true
      · simp [ha] at hs
      · simp [ha]
    · rw [he]; exact x.revoked_agrees
    · rw [he]; exact hx
  | revoke hs => exact x.revoked_agrees
  | block b hb => exact hx

theorem Move.barred (h : Move Pays x y) (hx : x.Barred) : y.Barred := by
  cases h with
  | resolve decision plan hp =>
    rcases x.resolved_cases decision plan with ⟨-, hb, he⟩ | ⟨-, he⟩ | he
    · rw [he]; intro h; simp [hb] at h
    · rw [he]; simp [Standing.Barred, Standing.revoked]
    · rw [he]; exact hx
  | revoke hs => simp [Standing.Barred, Standing.revoked]
  | block b hb => exact hb

/-- A move on an assignment an admin holds. -/
theorem Move.admin (h : Move Pays x y) (hx : x.source = .admin) :
    y.source = .admin ∧
      (y.schedulingId = x.schedulingId ∨ ∃ g, Pays g ∧ y.schedulingId = some g) := by
  cases h with
  | resolve decision plan hp =>
    rcases x.resolved_cases decision plan with ⟨hd, -, he⟩ | ⟨hs, -⟩ | he
    · rw [he]
      exact ⟨by simp [isAdminHeld, hx], Or.inr ⟨plan, hp hd, rfl⟩⟩
    · exact absurd hx hs
    · rw [he]; exact ⟨hx, Or.inl rfl⟩
  | revoke hs => exact absurd hx hs
  | block b hb => exact ⟨hx, Or.inl rfl⟩

end

/-- Any number of moves. -/
abbrev Moves (Pays : SchedulingId → Prop) := Relation.ReflTransGen (Move Pays)

theorem Moves.agrees {Pays : SchedulingId → Prop} {x y : Standing} (h : Moves Pays x y)
    (hx : x.Agrees) : y.Agrees := by
  induction h with
  | refl => exact hx
  | tail _ hm ih => exact hm.agrees ih

theorem Moves.barred {Pays : SchedulingId → Prop} {x y : Standing} (h : Moves Pays x y)
    (hx : x.Barred) : y.Barred := by
  induction h with
  | refl => exact hx
  | tail _ hm ih => exact hm.barred ih

theorem Moves.admin {Pays : SchedulingId → Prop} {x y : Standing} (h : Moves Pays x y)
    (hx : x.source = .admin) :
    y.source = .admin ∧
      (y.schedulingId = x.schedulingId ∨ ∃ g, Pays g ∧ y.schedulingId = some g) := by
  induction h with
  | refl => exact ⟨hx, Or.inl rfl⟩
  | tail _ hm ih =>
    obtain ⟨hs, hid⟩ := hm.admin ih.1
    refine ⟨hs, ?_⟩
    rcases hid with hid | hid
    · rw [hid]; exact ih.2
    · exact Or.inr hid

/-! ## The operations make moves -/

variable {S : Type}

/-- A user's standing, as committed. -/
def Store.standing (st : Store S) (p : Pubkey) : Standing :=
  standingOf (st.nsec.committed p) (st.subscription.committed p)

/-- The policies paid for: those of the plans of the subscriptions that Flash
    reports in the worlds `W` and that grant. -/
def Store.Pays (W : Outside → Prop) (st : Store S) (g : SchedulingId) : Prop :=
  ∃ sub i plan ω, Answered W sub ∧ W ω ∧ sub.decide ω.now = .grant ∧
    i < st.planCount ∧ st.plan.committed i = some plan ∧ plan.flashServiceId = sub.serviceId ∧
    plan.flashPlanId = sub.planId ∧ plan.schedulingId = g

/-- Session `s` has written nothing it has not committed, of the two tables. -/
def Store.Clean (s : S) (st : Store S) : Prop :=
  st.nsec.view s = st.nsec.committed ∧ st.subscription.view s = st.subscription.committed

/-- What a billing operation leaves behind. -/
structure Moved (Pays : SchedulingId → Prop) (s : S) (st st' : Store S) : Prop where
  solo : st'.Solo s
  clean : st'.Clean s
  moves : ∀ p, Moves Pays (st.standing p) (st'.standing p)

variable [DecidableEq S] {s : S} {W : Outside → Prop} {Pays : SchedulingId → Prop}

omit [DecidableEq S] in
theorem Moved.of_kept {st st' : Store S} (hs : st'.Solo s) (hc : st.Clean s) (hk : st.Kept s st') :
    Moved Pays s st st' where
  solo := hs
  clean := ⟨by rw [hk.nsec, hk.nsec_committed, hc.1],
    by rw [hk.subscription, hk.subscription_committed, hc.2]⟩
  moves p := by
    rw [Store.standing, Store.standing, hk.nsec_committed, hk.subscription_committed]

omit [DecidableEq S] in
theorem Moved.trans {st st' st'' : Store S} (h : Moved Pays s st st')
    (h' : Moved Pays s st' st'') : Moved Pays s st st'' :=
  ⟨h'.solo, h'.clean, fun p => (h.moves p).trans (h'.moves p)⟩

omit [DecidableEq S] in
/-- An operation that commits the rows of one user moves only that user. -/
theorem Moved.of_update {st st' : Store S} {p : Pubkey} {row : Option BrainstormNsec}
    {sub : Option UserSubscription} (hs : st'.Solo s) (hc : st'.Clean s)
    (hn : st'.nsec.committed = Function.update st.nsec.committed p row)
    (hsub : st'.subscription.committed = Function.update st.subscription.committed p sub)
    (hm : Moves Pays (st.standing p) (standingOf row sub)) : Moved Pays s st st' where
  solo := hs
  clean := hc
  moves q := by
    by_cases hq : q = p
    · subst hq
      simpa [Store.standing, hn, hsub] using hm
    · simp only [Store.standing, hn, hsub, Function.update_of_ne hq]
      exact .refl

theorem Store.commit_clean (st : Store S) : (st.commit s).Clean s := by
  simp [Store.Clean, Store.commit]

omit [DecidableEq S] in
/-- What recording a resolution does to a standing. -/
theorem standingOf_recorded (row : BrainstormNsec) (existing : Option UserSubscription)
    (sub : FlashSubscription) (plan : ℕ × BillingPlan) (now syncedAt : DateTime) :
    standingOf (some ((entitlementFor row existing sub plan.2 now).assign row))
      (some (recordSubscription sub plan.1
        (entitlementFor row existing sub plan.2 now).grantedSchedulingId syncedAt existing)) =
      (standingOf (some row) existing).resolved (sub.decide now) plan.2.schedulingId := by
  rcases resolveEntitlement_cases (sub.decide now) row.billingBlocked
    (isAdminHeld row.schedulingSource) plan.2.schedulingId
    (existing.bind (·.grantedSchedulingId)) with ⟨-, -, hr⟩ | ⟨-, -, hr⟩ | ⟨reason, -, hr⟩ <;>
  simp [standingOf, Standing.resolved, entitlementFor, Resolution.assign, recordSubscription, hr]

omit [DecidableEq S] in
theorem Handled.moved {α : Type} {r : Except Exn α} {st st' : Store S} (hs : st'.Solo s) (hc : st.Clean s)
    (hp : st.plan.view s = st.plan.committed) {pubkey : Pubkey} (h : Handled W s pubkey st r st') :
    Moved (st.Pays W) s st st' ∨ Refused r st st' := by
  rcases h with h | h | ⟨sub, plan, now, row, hsub, ⟨ω, hω, rfl⟩, hmem, hsvc, hpl, hrow, hrec⟩
  · exact Or.inl (.of_kept hs hc h)
  · exact Or.inr h
  · left
    obtain ⟨t, ht⟩ := hrec.subscription
    rw [hc.1] at hrow
    have hn := hrec.nsec
    rw [hc.1, hc.2] at hn
    rw [hc.2] at ht
    refine .of_update hs ⟨hrec.nsec_view, hrec.subscription_view⟩ hn ht ?_
    rw [standingOf_recorded, ← hrow]
    refine .single (.resolve _ _ fun hd => ?_)
    simp only [Store.plans, List.mem_filterMap, List.mem_range, hp, Option.map_eq_some_iff] at hmem
    obtain ⟨i, hi, pl, hpl', rfl⟩ := hmem
    exact ⟨sub, i, pl, ω, hsub, hω, hd, hi, hpl', hsvc, hpl, rfl⟩

omit [DecidableEq S] in
/-- What taking the policy back does to a standing. -/
theorem standingOf_revoked (row : Option BrainstormNsec) (sub : Option UserSubscription) :
    standingOf (some { row.getD .created with schedulingId := none, schedulingSource := .default })
      (sub.map clearGranted) = (standingOf row sub).revoked := by
  cases sub <;> simp [standingOf, Standing.revoked, clearGranted]

omit [DecidableEq S] in
theorem Store.Clean.of_kept {st st' : Store S} (hc : st.Clean s) (hk : st.Kept s st') :
    st'.Clean s :=
  ⟨by rw [hk.nsec, hk.nsec_committed, hc.1], by rw [hk.subscription, hk.subscription_committed, hc.2]⟩

/-- A user's standing, as session `s` sees it. -/
def Store.seen (s : S) (st : Store S) (p : Pubkey) : Standing :=
  standingOf (st.nsec.view s p) (st.subscription.view s p)

/-- Session `s` is about to commit a move of the user `p`: it has written no
    other user's rows since `st`. -/
structure Moving (Pays : SchedulingId → Prop) (s : S) (p : Pubkey) (st st' : Store S) : Prop where
  solo : st'.Solo s
  nsec : ∃ row, st'.nsec.view s = Function.update st.nsec.committed p row
  subscription : ∃ sub, st'.subscription.view s = Function.update st.subscription.committed p sub
  moves : Moves Pays (st.standing p) (st'.seen s p)

section
variable {p : Pubkey} {st st₁ st₂ : Store S}

omit [DecidableEq S] in
theorem Moving.of_clean (hs : st.Solo s) (hc : st.Clean s) : Moving Pays s p st st where
  solo := hs
  nsec := ⟨st.nsec.committed p, by rw [hc.1, Function.update_eq_self]⟩
  subscription := ⟨st.subscription.committed p, by rw [hc.2, Function.update_eq_self]⟩
  moves := by rw [Store.seen, hc.1, hc.2]; exact .refl

omit [DecidableEq S] in
theorem Moving.kept (h : Moving Pays s p st st₁) (hs : st₂.Solo s) (hk : st₁.Kept s st₂) :
    Moving Pays s p st st₂ where
  solo := hs
  nsec := by rw [hk.nsec]; exact h.nsec
  subscription := by rw [hk.subscription]; exact h.subscription
  moves := by rw [Store.seen, hk.nsec, hk.subscription]; exact h.moves

omit [DecidableEq S] in
/-- Writing the user's rows, where that is a move. -/
theorem Moving.write (h : Moving Pays s p st st₁) (hs : st₂.Solo s)
    {row : Option BrainstormNsec} {sub : Option UserSubscription}
    (hn : st₂.nsec.view s = Function.update (st₁.nsec.view s) p row)
    (hsub : st₂.subscription.view s = Function.update (st₁.subscription.view s) p sub)
    (hm : Moves Pays (st₁.seen s p) (standingOf row sub)) : Moving Pays s p st st₂ where
  solo := hs
  nsec := by
    obtain ⟨row', hr⟩ := h.nsec
    exact ⟨row, by rw [hn, hr, Function.update_idem]⟩
  subscription := by
    obtain ⟨sub', hr⟩ := h.subscription
    exact ⟨sub, by rw [hsub, hr, Function.update_idem]⟩
  moves := h.moves.trans (by simpa [Store.seen, hn, hsub] using hm)

theorem Moving.commit (h : Moving Pays s p st st₁) : Moved Pays s st (st₁.commit s) := by
  obtain ⟨row, hn⟩ := h.nsec
  obtain ⟨sub, hsub⟩ := h.subscription
  refine .of_update h.solo.commit st₁.commit_clean hn hsub ?_
  simpa [Store.seen, hn, hsub] using h.moves

end

/-- The source a session reads is that of the standing it sees. -/
theorem exec_getSchedulingSource {p : Pubkey} {st st' : Store S} {ω : Outside}
    {a : SchedulingSource} (h : exec s (.getSchedulingSource p) st ω = some (a, st')) :
    a = (st.seen s p).source := by
  simp only [exec, Option.some.injEq, Prod.mk.injEq] at h
  rw [← h.1, Store.seen, standingOf]
  cases st.nsec.view s p <;> rfl

/-- Taking the policy back, and going on from there. -/
theorem revoke_wp {α : Type} {k : Unit → Billing α} {Q : Except Exn α → Store S → Prop}
    {st : Store S} {p : Pubkey} (hs : st.Solo s)
    (hk : ∀ st', st'.Solo s → st'.nsec.view s = Function.update (st.nsec.view s) p (some
        { Option.getD (st.nsec.view s p) .created with
          schedulingId := none, schedulingSource := .default }) →
      st'.subscription.view s = Function.update (st.subscription.view s) p
        ((st.subscription.view s p).map clearGranted) → (k ()).wp exec s W Q st') :
    (Prog.op (.setSchedulingForPubkey p none .default) fun _ =>
      Prog.op (.clearGrantedScheduling p) k : Billing α).wp exec s W Q st := by
  refine wp_op hs fun ω₁ _ st₁ _ he₁ hs₁ => wp_op hs₁ fun ω₂ _ st₂ _ he₂ hs₂ => ?_
  obtain ⟨-, rfl⟩ := exec_setSchedulingForPubkey he₁
  obtain ⟨hn, -, hsub⟩ := exec_clearGrantedScheduling he₂
  exact hk st₂ hs₂ (by rw [hn, TxTable.view_write]) hsub

theorem Moving.revoke_wp {α : Type} {k : Unit → Billing α} {Q : Except Exn α → Store S → Prop}
    {st st₁ : Store S} {p : Pubkey} (h : Moving Pays s p st st₁)
    (ha : (st₁.seen s p).source ≠ .admin)
    (hk : ∀ st', Moving Pays s p st st' → (k ()).wp exec s W Q st') :
    (Prog.op (.setSchedulingForPubkey p none .default) fun _ =>
      Prog.op (.clearGrantedScheduling p) k : Billing α).wp exec s W Q st₁ := by
  refine BrainstormServer.revoke_wp h.solo fun st₂ hs₂ hn hsub => hk st₂ ?_
  refine h.write hs₂ hn hsub ?_
  rw [standingOf_revoked]
  exact .single (.revoke ha)

theorem revokeLapsed_wp {st : Store S} (hs : st.Solo s) (hc : st.Clean s) (at_ : DateTime)
    (p : Pubkey) (row : UserSubscription) :
    (revokeLapsed at_ p row).wp exec s W
      (fun r st' => (∃ b, r = .ok b) ∧ Moved Pays s st st') st := by
  unfold revokeLapsed
  split
  · exact ⟨⟨_, rfl⟩, .of_kept hs hc (.refl st)⟩
  · rename_i g _
    split_ifs with hd
    · simp only [await, bind_eq, call_bind, pure_eq]
      refine wp_read hs rfl fun ω₁ source st₁ _ he₁ hs₁ hk₁ => ?_
      have hsrc := exec_getSchedulingSource he₁
      have hm : Moving Pays s p st st₁ := (Moving.of_clean hs hc).kept hs₁ hk₁
      rw [hd]
      cases ha : isAdminHeld source with
      | true => exact ⟨⟨_, rfl⟩, .of_kept hs₁ hc hk₁⟩
      | false =>
        have hseen : (st₁.seen s p).source ≠ .admin := by
          rw [Store.seen, hk₁.nsec, hk₁.subscription, ← Store.seen, ← hsrc]
          simpa [isAdminHeld] using ha
        refine hm.revoke_wp hseen fun st₂ hm₂ => ?_
        refine wp_op hm₂.solo fun ω₃ _ st₃ _ he₃ _ => ⟨⟨_, rfl⟩, ?_⟩
        cases he₃
        exact hm₂.commit
    · exact ⟨⟨_, rfl⟩, .of_kept hs hc (.refl st)⟩

theorem revokeAll_wp {st₀ : Store S} (at_ : DateTime) :
    ∀ (rows : List (Pubkey × UserSubscription)) (n : ℕ) {st : Store S}, Moved Pays s st₀ st →
      (revokeAll at_ rows n).wp exec s W (fun _ st' => Moved Pays s st₀ st') st
  | [], _, _, h => h
  | (p, row) :: rows, n, st, h => by
    have hturn : (revokeLapsed at_ p row).wp exec s W
        (fun r st' => (∃ b, r = .ok b) ∧ Moved Pays s st st') st :=
      revokeLapsed_wp h.solo h.clean at_ p row
    refine (wp_bind _ _ _).2 (wp_mono _ _ _ ?_ hturn)
    rintro _ st₁ ⟨⟨b, rfl⟩, hm⟩
    exact revokeAll_wp at_ rows _ (h.trans hm)

theorem revokeLapsedEntitlements_wp {st : Store S} (hs : st.Solo s) (hc : st.Clean s)
    (now : Option DateTime) :
    (revokeLapsedEntitlements now).wp exec s W (fun _ st' => Moved Pays s st st') st := by
  have hloop : ∀ (at_ : DateTime) (st₁ : Store S), st₁.Solo s → st.Kept s st₁ →
      (Prog.op .selectEntitlementCandidates fun rows => revokeAll at_ rows 0 : Billing ℕ).wp exec s
        W (fun _ st' => Moved Pays s st st') st₁ := by
    intro at_ st₁ hs₁ hk₁
    refine wp_read hs₁ rfl fun ω rows st₂ _ _ hs₂ hk₂ => ?_
    exact revokeAll_wp at_ rows 0 (.of_kept hs₂ hc (hk₁.trans hk₂))
  unfold revokeLapsedEntitlements resolveNow
  cases now with
  | some t => exact hloop t st hs (.refl st)
  | none => exact wp_read hs rfl fun ω t st₁ _ _ hs₁ hk₁ => hloop t st₁ hs₁ hk₁

theorem standingOf_setFlashStatus (row : Option BrainstormNsec) (sub : Option UserSubscription)
    (status : String) (d : Option DateTime) :
    standingOf row (sub.map (setFlashStatus status d)) = standingOf row sub := by
  cases sub <;> rfl

theorem revokeExpired_wp {st st₁ : Store S} {p : Pubkey} (h : Moving Pays s p st st₁)
    (existing : UserSubscription) :
    (revokeExpired p existing).wp exec s W
      (fun r st' => r = .ok () ∧ Moving Pays s p st st') st₁ := by
  unfold revokeExpired
  simp only [await, bind_eq, call_bind, pure_eq]
  refine wp_read h.solo rfl fun ω₁ source st₂ _ he₁ hs₂ hk₂ => ?_
  have hsrc := exec_getSchedulingSource he₁
  have h₂ := h.kept hs₂ hk₂
  cases ha : isAdminHeld source with
  | true => exact ⟨rfl, h₂⟩
  | false =>
    have hseen : (st₂.seen s p).source ≠ .admin := by
      rw [Store.seen, hk₂.nsec, hk₂.subscription, ← Store.seen, ← hsrc]
      simpa [isAdminHeld] using ha
    exact h₂.revoke_wp hseen fun st₃ h₃ => ⟨rfl, h₃⟩

theorem applyFallbackStatus_wp {st st₁ : Store S} {p : Pubkey} (h : Moving Pays s p st st₁)
    (status : String) (existing : UserSubscription) :
    (applyFallbackStatus p status existing).wp exec s W (fun _ st' => Moved Pays s st st') st₁ := by
  unfold applyFallbackStatus
  simp only [await, bind_eq, call_bind, pure_eq]
  have hfirst : (if status = "expired" then revokeExpired p existing else .ret ()).wp exec s W
      (fun r st' => r = .ok () ∧ Moving Pays s p st st') st₁ := by
    split_ifs
    · exact revokeExpired_wp h existing
    · exact ⟨rfl, h⟩
  refine (wp_bind _ _ _).2 (wp_mono _ _ _ ?_ hfirst)
  rintro _ st₂ ⟨rfl, h₂⟩
  refine wp_op h₂.solo fun ω₃ _ st₃ _ he₃ hs₃ => ?_
  obtain ⟨hn, -, hsub⟩ := exec_updateFlashStatus he₃
  have hn' : st₃.nsec.view s = Function.update (st₂.nsec.view s) p (st₂.nsec.view s p) := by
    rw [hn, Function.update_eq_self]
  have h₃ : Moving Pays s p st st₃ := by
    refine h₂.write hs₃ hn' hsub ?_
    rw [standingOf_setFlashStatus]
    exact .refl
  refine wp_op hs₃ fun ω₄ _ st₄ _ he₄ _ => ?_
  cases he₄
  exact h₃.commit

theorem applyPayloadFallback_wp {st : Store S} (hs : st.Solo s) (hc : st.Clean s) (event : String)
    (externalRef : Option String) :
    (applyPayloadFallback event externalRef).wp exec s W
      (fun _ st' => Moved Pays s st st') st := by
  unfold applyPayloadFallback
  split
  · rename_i status p _ _
    simp only [await, bind_eq, call_bind, pure_eq]
    refine wp_read hs rfl fun ω₁ locked st₁ _ _ hs₁ hk₁ => ?_
    cases locked with
    | false => exact .of_kept hs₁ hc hk₁
    | true =>
      refine wp_read hs₁ rfl fun ω₂ existing st₂ _ _ hs₂ hk₂ => ?_
      have hk := hk₁.trans hk₂
      cases existing with
      | none => exact .of_kept hs₂ hc hk
      | some existing => exact applyFallbackStatus_wp ((Moving.of_clean hs hc).kept hs₂ hk) _ _
  · exact .of_kept hs hc (.refl st)

/-- The row after the flag is set. -/
theorem standingOf_block {row : BrainstormNsec} (sub : Option UserSubscription) (b : Bool) :
    standingOf (some { row with billingBlocked := b }) sub =
      { standingOf (some row) sub with blocked := b } := rfl

theorem setBillingBlock_wp {st : Store S} (hs : st.Solo s) (hc : st.Clean s) (p : Pubkey)
    (blocked : Bool) :
    (setBillingBlock p blocked).wp exec s W (fun _ st' => Moved Pays s st st') st := by
  unfold setBillingBlock
  simp only [await, bind_eq, call_bind, pure_eq]
  refine wp_read hs rfl fun ω₁ found st₁ _ he₁ hs₁ hk₁ => ?_
  cases found with
  | false => exact .of_kept hs₁ hc hk₁
  | true =>
    simp only [exec, Option.some.injEq, Prod.mk.injEq] at he₁
    obtain ⟨row, hrow⟩ := Option.isSome_iff_exists.1 he₁.1
    refine wp_read hs₁ rfl fun ω₂ _ st₂ _ _ hs₂ hk₂ => ?_
    have hm : Moving Pays s p st st₂ := (Moving.of_clean hs hc).kept hs₂ (hk₁.trans hk₂)
    rw [← hk₁.nsec, ← hk₂.nsec] at hrow
    refine wp_op hs₂ fun ω₃ _ st₃ _ he₃ hs₃ => ?_
    obtain ⟨hsub₃, hn₃⟩ := exec_setBillingBlocked he₃
    rw [hrow, Option.map_some] at hn₃
    have hseen₂ : st₂.seen s p = standingOf (some row) (st₂.subscription.view s p) := by
      rw [Store.seen, hrow]
    -- the flag alone is a move, unless it bars a user billing put on their policy
    have hflag : (blocked = true → row.schedulingSource ≠ .billing) → ∀ st', st'.Solo s →
        st₃.Kept s st' → Moving Pays s p st st' := by
      intro hb st' hs' hk'
      have hsub' : st₃.subscription.view s = Function.update (st₂.subscription.view s) p
          (st₂.subscription.view s p) := by
        rw [hsub₃, Function.update_eq_self]
      refine Moving.kept ?_ hs' hk'
      refine hm.write hs₃ hn₃ hsub' ?_
      rw [standingOf_block, hseen₂]
      exact .single (.block blocked hb)
    cases blocked with
    | false =>
      refine wp_op hs₃ fun ω₄ _ st₄ _ he₄ _ => ?_
      cases he₄
      exact (hflag (by simp) st₃ hs₃ (.refl st₃)).commit
    | true =>
      refine wp_read hs₃ rfl fun ω₄ source st₄ _ he₄ hs₄ hk₄ => ?_
      have hsrc : source = row.schedulingSource := by
        rw [exec_getSchedulingSource he₄, Store.seen, hn₃]
        simp [standingOf]
      by_cases hpaid : source = .billing
      · simp only [hpaid, if_true]
        refine revoke_wp hs₄ fun st₅ hs₅ hn₅ hsub₅ => ?_
        refine wp_op hs₅ fun ω₆ _ st₆ _ he₆ _ => ?_
        cases he₆
        -- both writes together: the policy is taken, then the user is barred
        have hn : st₅.nsec.view s = Function.update (st₂.nsec.view s) p
            (some ⟨none, .default, true⟩) := by
          rw [hn₅, hk₄.nsec, hn₃]
          simp
        have hsub : st₅.subscription.view s = Function.update (st₂.subscription.view s) p
            ((st₂.subscription.view s p).map clearGranted) := by
          rw [hsub₅, hk₄.subscription, hsub₃]
        refine (hm.write hs₅ hn hsub ?_).commit
        have hrev := standingOf_revoked (some row) (st₂.subscription.view s p)
        have hne : (standingOf (some row) (st₂.subscription.view s p)).source ≠ .admin := by
          intro h
          have : row.schedulingSource = .admin := h
          rw [← hsrc, hpaid] at this
          cases this
        rw [hseen₂]
        refine .tail (.single (.revoke hne)) ?_
        rw [← hrev]
        exact .block true fun _ => by simp [standingOf]
      · simp only [hpaid, if_false]
        refine wp_op hs₄ fun ω₅ _ st₅ _ he₅ _ => ?_
        cases he₅
        exact (hflag (fun _ => hsrc ▸ hpaid) st₄ hs₄ hk₄).commit

/-- A command on neither of the two tables moves nobody. -/
theorem Moved.exec {c : Cmd} {st₀ st st' : Store S} {ω : Outside} {a : c.Ans}
    (h : Moved Pays s st₀ st) (he : exec s c st ω = some (a, st')) (hn : c.nsecKey = none)
    (hsub : c.subscriptionKey = none) : Moved Pays s st₀ st' := by
  obtain ⟨hc, hc'⟩ := h.clean
  have hs' := exec_solo he h.solo
  have hsame : ∀ {st'' : Store S}, st''.nsec.committed = st.nsec.committed →
      st''.subscription.committed = st.subscription.committed → ∀ p,
        Moves Pays (st₀.standing p) (st''.standing p) := by
    intro st'' h1 h2 p
    have : st''.standing p = st.standing p := by rw [Store.standing, h1, h2, ← Store.standing]
    exact this ▸ h.moves p
  rcases exec_cases he with ⟨-, hx⟩ | ⟨-, rfl⟩ | ⟨-, rfl⟩
  · refine ⟨hs', ⟨?_, ?_⟩, hsame hx.nsec.committed hx.subscription.committed⟩
    · ext1 p
      rw [hx.nsec.view (by simp [hn]), hx.nsec.committed, hc]
    · ext1 p
      rw [hx.subscription.view (by simp [hsub]), hx.subscription.committed, hc']
  · exact ⟨hs', st.commit_clean, hsame hc hc'⟩
  · exact ⟨hs', ⟨st.nsec.view_rollback_self s, st.subscription.view_rollback_self s⟩, hsame rfl rfl⟩

/-- The rule for such a command. -/
theorem Moved.wp_op {α : Type} {c : Cmd} {k : c.Ans → Billing α}
    {Q : Except Exn α → Store S → Prop} {st₀ st : Store S} (h : Moved Pays s st₀ st)
    (hn : c.nsecKey = none) (hsub : c.subscriptionKey = none)
    (hk : ∀ a st', Moved Pays s st₀ st' → (k a).wp BrainstormServer.exec s W Q st') :
    (Prog.op c k : Billing α).wp BrainstormServer.exec s W Q st :=
  BrainstormServer.wp_op h.solo fun _ a st' _ he _ => hk a st' (h.exec he hn hsub)

theorem requireReidentifiable_wp {st₀ st : Store S} (h : Moved Pays s st₀ st) (planId : ℕ)
    (serviceId planRef : String) :
    (requireReidentifiable planId serviceId planRef).wp exec s W
      (fun _ st' => Moved Pays s st₀ st') st := by
  unfold requireReidentifiable requireUnusedFlashIds getBillingPlan
  simp only [await, bind_eq, call_bind, pure_eq]
  refine h.wp_op rfl rfl fun subscribers st₁ h₁ => ?_
  split_ifs
  · exact h₁
  · refine h₁.wp_op rfl rfl fun plan st₂ h₂ => ?_
    cases plan <;> exact h₂
  · exact h₁.wp_op rfl rfl fun plan st₂ h₂ => h₂

theorem updateBillingPlan_wp {st : Store S} (hs : st.Solo s) (hc : st.Clean s) (planId : ℕ)
    (values : PlanValues) :
    (updateBillingPlan planId values).wp exec s W (fun _ st' => Moved Pays s st st') st := by
  have h : Moved Pays s st st := .of_kept hs hc (.refl st)
  have hcheck : ∀ p : Billing Unit, (p = .ret () ∨ ∃ j, p = requireScheduling j) →
      p.wp exec s W (fun _ st' => Moved Pays s st st') st := by
    rintro p (rfl | ⟨j, rfl⟩)
    · exact h
    · refine h.wp_op rfl rfl fun found st₁ h₁ => ?_
      cases found <;> exact h₁
  unfold updateBillingPlan
  simp only [await, bind_eq, call_bind, pure_eq]
  refine (wp_bind _ _ _).2 (wp_mono _ _ _ ?_ (hcheck _ ?_))
  rotate_left
  · cases values.schedulingId with
    | none => exact Or.inl rfl
    | some j => exact Or.inr ⟨j, rfl⟩
  rintro (e | _) st₁ h₁
  · exact h₁
  refine h₁.wp_op rfl rfl fun current st₂ h₂ => ?_
  cases current with
  | none => exact h₂
  | some current =>
    simp only
    split_ifs
    · refine (wp_bind _ _ _).2 (wp_mono _ _ _ ?_ (requireReidentifiable_wp h₂ _ _ _))
      rintro (e | _) st₃ h₃
      · exact h₃
      refine h₃.wp_op rfl rfl fun _ st₄ h₄ => h₄.wp_op rfl rfl fun _ st₅ h₅ => ?_
      exact h₅.wp_op rfl rfl fun _ st₆ h₆ => h₆
    · refine h₂.wp_op rfl rfl fun _ st₃ h₃ => ?_
      exact h₃.wp_op rfl rfl fun _ st₄ h₄ => h₄

/-! ## Sequences of operations -/

/-- A billing operation. -/
inductive BillingStep
  | applyEntitlement (externalRef subscriptionId : Option String)
      (yieldIfBusy allowUnreferenced : Bool)
  | revokeLapsedEntitlements (now : Option DateTime)
  | applyPayloadFallback (event : String) (externalRef : Option String)
  | setBillingBlock (pubkey : Pubkey) (blocked : Bool)
  | updateBillingPlan (planId : ℕ) (values : PlanValues)

/-- A billing operation, or an admin's assignment. -/
inductive Step
  | billing (step : BillingStep)
  | assign (pubkey : Pubkey) (schedulingId : SchedulingId)

def BillingStep.prog : BillingStep → Billing Unit
  | applyEntitlement ref id yieldIfBusy allow =>
    discard (BrainstormServer.applyEntitlement ref id yieldIfBusy allow)
  | revokeLapsedEntitlements now => discard (BrainstormServer.revokeLapsedEntitlements now)
  | applyPayloadFallback event ref => discard (BrainstormServer.applyPayloadFallback event ref)
  | setBillingBlock p blocked => discard (BrainstormServer.setBillingBlock p blocked)
  | updateBillingPlan planId values => BrainstormServer.updateBillingPlan planId values

def Step.prog : Step → Billing Unit
  | billing step => step.prog
  | assign p schedulingId => setUserSchedulingEndpoint p schedulingId

/-- An operation executed atomically, in a session of its own; `ω` is what its
    commands get from outside. -/
def Store.apply (st : Store S) (s : S) (p : Billing Unit) (ω : ℕ → Outside) : Option (Store S) :=
  ((dbSession p).alone exec s ω st).map (·.2)

/-- A sequence of operations, each executed atomically. -/
def Store.applyAll (st : Store S) : List (S × Step × (ℕ → Outside)) → Option (Store S)
  | [] => some st
  | (s, step, ω) :: steps => (st.apply s step.prog ω).bind fun st' => st'.applyAll steps

theorem wp_discard {α : Type} {p : Billing α} {Q : Store S → Prop} {st : Store S}
    (h : p.wp exec s W (fun _ st' => Q st') st) :
    (discard p).wp exec s W (fun _ st' => Q st') st := by
  refine (wp_bind _ _ _).2 (wp_mono _ _ _ ?_ h)
  rintro (e | a) st' hq <;> exact hq

/-- **Every billing operation makes only moves**, for every user. -/
theorem BillingStep.moves {st : Store S} (hq : st.Quiet) (step : BillingStep) (s : S)
    (ω : ℕ → Outside) :
    ∃ st', st.apply s step.prog ω = some st' ∧ st'.Quiet ∧
      ∀ p, Moves (st.Pays fun w => ∃ n, w = ω n) (st.standing p) (st'.standing p) := by
  have hs := hq.solo s
  have hc : st.Clean s := ⟨hq.nsec_view s, hq.subscription_view s⟩
  have hmoved : ∀ {p : Billing Unit}, p.wp exec s (fun w => ∃ n, w = ω n)
      (fun _ st' => Moved (st.Pays fun w => ∃ n, w = ω n) s st st') st →
      p.wp exec s (fun w => ∃ n, w = ω n) (fun r st' => st'.Solo s ∧
        (Moved (st.Pays fun w => ∃ n, w = ω n) s st st' ∨ Refused r st st')) st :=
    fun h => wp_mono _ _ _ (fun _ _ hm => ⟨hm.solo, Or.inl hm⟩) h
  have hbody : step.prog.wp exec s (fun w => ∃ n, w = ω n) (fun r st' => st'.Solo s ∧
      (Moved (st.Pays fun w => ∃ n, w = ω n) s st st' ∨ Refused r st st')) st := by
    cases step with
    | applyEntitlement ref id y a =>
      refine (wp_bind _ _ _).2 (wp_mono _ _ _ ?_ (applyEntitlement_wp hs (hq.fresh s) ref id y a))
      have hdone : ∀ (r : Except Exn EntitlementOutcome) st', st.Kept s st' ∨
          (∃ p, given ref = some p ∧ Handled (fun w => ∃ n, w = ω n) s p st r st') → st'.Solo s →
          Moved (st.Pays fun w => ∃ n, w = ω n) s st st' ∨ Refused r st st' := by
        rintro r st' (hk | ⟨p, -, hh⟩) hs'
        · exact Or.inl (.of_kept hs' hc hk)
        · exact hh.moved hs' hc (hq.plan_view s)
      rintro (e | a) st' ⟨hs', hh⟩
      · refine ⟨hs', (hdone _ st' hh hs').imp_right fun hr => ⟨?_, hr.2⟩⟩
        cases hr.1
        rfl
      · refine ⟨hs', (hdone _ st' hh hs').imp_right fun hr => ?_⟩
        cases hr.1
    | revokeLapsedEntitlements now => exact hmoved (wp_discard (revokeLapsedEntitlements_wp hs hc now))
    | applyPayloadFallback event ref => exact hmoved (wp_discard (applyPayloadFallback_wp hs hc event ref))
    | setBillingBlock p b => exact hmoved (wp_discard (setBillingBlock_wp hs hc p b))
    | updateBillingPlan i v => exact hmoved (updateBillingPlan_wp hs hc i v)
  have hsess := wp_dbSession (Q := fun _ st' => ∀ p,
    Moves (st.Pays fun w => ∃ n, w = ω n) (st.standing p) (st'.standing p)) (wp_mono _ _ _ ?_ hbody)
  · obtain ⟨r, st', hr, hq', hm⟩ := wp_alone _ _ _ ω (fun n => ⟨n, rfl⟩) hsess
    exact ⟨st', by simp [Store.apply, hr], hq', hm⟩
  · rintro (e | a) st' ⟨hs', hm | hr⟩
    · exact ⟨hs', hm.moves⟩
    · refine ⟨hs', fun p => ?_⟩
      -- the rollback leaves what was committed
      have hsame : (st'.rollback s).standing p = st.standing p := by
        simp [Store.standing, Store.rollback, hr.2.nsec, hr.2.subscription]
      rw [hsame]
    · refine ⟨hs', fun p => ?_⟩
      have : ((st'.commit s).rollback s).standing p = st'.standing p := by
        simp [Store.standing, Store.rollback, Store.commit, hm.clean.1, hm.clean.2]
      exact this ▸ hm.moves p
    · cases hr.1

/-- A user an admin may just have assigned. -/
def Assigned (i : SchedulingId) (x y : Standing) : Prop :=
  y = x ∨ y = { x with source := .admin, schedulingId := some i }

theorem assign_standing {st : Store S} (hq : st.Quiet) (q : Pubkey) (i : SchedulingId) (s : S)
    (ω : ℕ → Outside) :
    ∃ st', st.apply s (Step.assign q i).prog ω = some st' ∧ st'.Quiet ∧
      ∀ p, Assigned i (st.standing p) (st'.standing p) := by
  have hs := hq.solo s
  have hbody : (Step.assign q i).prog.wp exec s (fun _ => True) (fun r st' => st'.Solo s ∧
      AtClose s (fun _ st'' => ∀ p, Assigned i (st.standing p) (st''.standing p)) r st') st := by
    unfold Step.prog setUserSchedulingEndpoint
    simp only [await, bind_eq, call_bind]
    refine wp_read hs rfl fun ω₁ found st₁ _ he₁ hs₁ hk₁ => ?_
    cases found with
    | false =>
      refine ⟨hs₁, fun p => Or.inl ?_⟩
      simp [Store.standing, Store.rollback, hk₁.nsec_committed, hk₁.subscription_committed]
    | true =>
      refine wp_op hs₁ fun ω₂ _ st₂ _ he₂ hs₂ => ⟨hs₂, fun p => ?_⟩
      obtain ⟨-, rfl⟩ := exec_setSchedulingForPubkey he₂
      by_cases hp : p = q
      · subst hp
        right
        simp [Store.standing, Store.rollback, Store.commit, standingOf, hk₁.nsec,
          hk₁.subscription, hq.nsec_view, hq.subscription_view]
      · left
        simp [Store.standing, Store.rollback, Store.commit, hk₁.nsec,
          hk₁.subscription, hq.nsec_view, hq.subscription_view, hp]
  obtain ⟨r, st', hr, hq', hm⟩ := wp_alone _ _ _ ω (fun _ => trivial) (wp_dbSession hbody)
  exact ⟨st', by simp [Store.apply, hr], hq', hm⟩

theorem Assigned.agrees {i : SchedulingId} {x y : Standing} (h : Assigned i x y)
    (hx : x.Agrees) : y.Agrees := by
  rcases h with rfl | rfl
  · exact hx
  · intro hs
    exact absurd rfl hs

/-- One operation keeps a user's grant and assignment in agreement. -/
theorem Step.agrees {st : Store S} (hq : st.Quiet) (step : Step) (s : S) (ω : ℕ → Outside) :
    ∃ st', st.apply s step.prog ω = some st' ∧ st'.Quiet ∧
      ∀ p, (st.standing p).Agrees → (st'.standing p).Agrees := by
  cases step with
  | billing step =>
    obtain ⟨st', he, hq', hm⟩ := step.moves hq s ω
    exact ⟨st', he, hq', fun p => (hm p).agrees⟩
  | assign q i =>
    obtain ⟨st', he, hq', hm⟩ := assign_standing hq q i s ω
    exact ⟨st', he, hq', fun p => (hm p).agrees⟩

theorem applyAll_agrees : ∀ (steps : List (S × Step × (ℕ → Outside))) {st : Store S}, st.Quiet →
    ∃ st', st.applyAll steps = some st' ∧ st'.Quiet ∧
      ∀ p, (st.standing p).Agrees → (st'.standing p).Agrees
  | [], st, hq => ⟨st, rfl, hq, fun _ => id⟩
  | (s, step, ω) :: steps, st, hq => by
    obtain ⟨st₁, h1, hq₁, ha₁⟩ := step.agrees hq s ω
    obtain ⟨st₂, h2, hq₂, ha₂⟩ := applyAll_agrees steps hq₁
    exact ⟨st₂, by simp [Store.applyAll, h1, h2], hq₂, fun p => ha₂ p ∘ ha₁ p⟩

/-- **The recorded grant and the assigned policy agree** after every sequence of
    operations from a store in which the user has no subscription, and is on no
    policy from billing: unless an admin holds the assignment, the row says `g`
    was granted exactly if billing has put the user on `g`. -/
theorem grant_iff_billing_assignment {st : Store S} (hq : st.Quiet) {p : Pubkey}
    (hsub : st.subscription.committed p = none)
    (hsrc : ∀ row, st.nsec.committed p = some row → row.schedulingSource ≠ .billing)
    (steps : List (S × Step × (ℕ → Outside))) :
    ∃ st', st.applyAll steps = some st' ∧
      ((st'.standing p).source ≠ .admin → ∀ g, (st'.standing p).granted = some g ↔
        (st'.standing p).source = .billing ∧ (st'.standing p).schedulingId = some g) := by
  obtain ⟨st', h, -, ha⟩ := applyAll_agrees steps hq
  refine ⟨st', h, ha p ?_⟩
  intro _ g
  have hne : (st.standing p).source ≠ .billing := by
    cases hrow : st.nsec.committed p with
    | none => simp [Store.standing, standingOf, hrow, BrainstormNsec.created]
    | some row => simpa [Store.standing, standingOf, hrow] using hsrc row hrow
  have hnone : (st.standing p).granted = none := by simp [Store.standing, standingOf, hsub]
  simp [hne, hnone]

/-- A sequence of billing operations. -/
def billingSteps (steps : List (S × BillingStep × (ℕ → Outside))) :
    List (S × Step × (ℕ → Outside)) :=
  steps.map fun x => (x.1, .billing x.2.1, x.2.2)

/-- Over a sequence of billing operations an admin's hold stays, and a bar keeps
    billing away. -/
theorem applyAll_billing : ∀ (steps : List (S × BillingStep × (ℕ → Outside))) {st : Store S},
    st.Quiet → ∃ st', st.applyAll (billingSteps steps) = some st' ∧ st'.Quiet ∧
      ∀ p, ((st.standing p).source = .admin → (st'.standing p).source = .admin) ∧
        ((st.standing p).Barred → (st'.standing p).Barred)
  | [], st, hq => ⟨st, rfl, hq, fun _ => ⟨id, id⟩⟩
  | (s, step, ω) :: steps, st, hq => by
    obtain ⟨st₁, h1, hq₁, hm⟩ := step.moves hq s ω
    obtain ⟨st₂, h2, hq₂, ha⟩ := applyAll_billing steps hq₁
    refine ⟨st₂, ?_, hq₂, fun p => ⟨fun hs => (ha p).1 ((hm p).admin hs).1,
      fun hb => (ha p).2 ((hm p).barred hb)⟩⟩
    rw [billingSteps, List.map_cons, Store.applyAll, Step.prog, h1]
    exact h2

/-- **Billing never takes a decision away from an admin.**  After any sequence
    of billing operations, and through the next one: an assignment an admin
    holds stays the admin's; its policy changes only to that of a plan which a
    subscription Flash reports during the operation grants, and so is never
    dropped; and a barred user is not put on a policy by billing. -/
theorem admin_keeps_assignment {st : Store S} (hq : st.Quiet)
    (steps : List (S × BillingStep × (ℕ → Outside))) (s : S) (step : BillingStep)
    (ω : ℕ → Outside) (p : Pubkey) :
    ∃ st₁ st₂, st.applyAll (billingSteps steps) = some st₁ ∧ st₁.apply s step.prog ω = some st₂ ∧
      ((st.standing p).source = .admin → (st₁.standing p).source = .admin) ∧
      ((st₁.standing p).source = .admin → (st₂.standing p).source = .admin ∧
        ((st₂.standing p).schedulingId = (st₁.standing p).schedulingId ∨
          ∃ g, (st₁.Pays fun w => ∃ n, w = ω n) g ∧ (st₂.standing p).schedulingId = some g)) ∧
      (((st.standing p).blocked = true → (st.standing p).source ≠ .billing) →
        ((st₁.standing p).blocked = true → (st₁.standing p).source ≠ .billing) ∧
        ((st₂.standing p).blocked = true → (st₂.standing p).source ≠ .billing)) := by
  obtain ⟨st₁, h1, hq₁, ha⟩ := applyAll_billing steps hq
  obtain ⟨st₂, h2, -, hm⟩ := step.moves hq₁ s ω
  refine ⟨st₁, st₂, h1, h2, (ha p).1, (hm p).admin, fun hb => ?_⟩
  have hb₁ := (ha p).2 hb
  exact ⟨hb₁, (hm p).barred hb₁⟩

/-- `"alice"`, who has no subscription. -/
def newUser : Store ℕ :=
  sampleStore (fun p => if p = "alice" then some .created else none) (fun _ => none) []

/-- She subscribes, is barred, is admitted again, and then reported again. -/
def barredAndBack : List (ℕ × Step × (ℕ → Outside)) :=
  [(0, .billing (.applyEntitlement (some "alice") none false false),
      fun _ => flashReports (sampleSubscription "sub_1" "active" (some "alice")) 10),
    (0, .billing (.setBillingBlock "alice" true), fun _ => ⟨fun _ => .ok none, 20⟩),
    (0, .billing (.setBillingBlock "alice" false), fun _ => ⟨fun _ => .ok none, 30⟩),
    (0, .billing (.applyEntitlement (some "alice") none false false),
      fun _ => flashReports (sampleSubscription "sub_1" "active" (some "alice")) 40)]

/-- Billing has put her on the policy of her plan in the end, and the row says so. -/
theorem grant_iff_billing_assignment_new_user :
    ∃ st', newUser.applyAll barredAndBack = some st' ∧ (st'.standing "alice").source = .billing ∧
      (st'.standing "alice").schedulingId = some 7 ∧ (st'.standing "alice").granted = some 7 := by
  have hend : (newUser.applyAll barredAndBack).map (fun st =>
      ((st.standing "alice").source, (st.standing "alice").schedulingId)) =
      some (.billing, some 7) := by
    decide
  have hquiet : newUser.Quiet := sampleStore_quiet _ _ _
  obtain ⟨st', h, hiff⟩ := grant_iff_billing_assignment hquiet (p := "alice") rfl
    (fun row h => by cases h; decide) barredAndBack
  rw [h, Option.map_some, Option.some.injEq, Prod.mk.injEq] at hend
  exact ⟨st', h, hend.1, hend.2, (hiff (by rw [hend.1]; decide) 7).2 hend⟩

/-- A user an admin holds, whose subscription is then reported and lapses. -/
theorem admin_keeps_assignment_of_payer :
    ∃ st₁ st₂, (sampleStore (fun p => if p = "alice" then some ⟨some 3, .admin, false⟩ else none)
        (fun _ => none) ["alice"]).applyAll (billingSteps
          [(0, .applyEntitlement (some "alice") none false false,
            fun _ => flashReports (sampleSubscription "sub_1" "active" (some "alice")) 10)]) =
        some st₁ ∧
      st₁.apply 0 (BillingStep.revokeLapsedEntitlements none).prog
        (fun _ => ⟨fun _ => .ok none, 2000⟩) = some st₂ ∧
      (st₂.standing "alice").source = .admin := by
  obtain ⟨st₁, st₂, h1, h2, ha, hs, -⟩ := admin_keeps_assignment (sampleStore_quiet
    (fun p => if p = "alice" then some ⟨some 3, .admin, false⟩ else none) (fun _ => none)
    ["alice"]) [(0, .applyEntitlement (some "alice") none false false,
      fun _ => flashReports (sampleSubscription "sub_1" "active" (some "alice")) 10)] 0
    (.revokeLapsedEntitlements none) (fun _ => ⟨fun _ => .ok none, 2000⟩) "alice"
  exact ⟨st₁, st₂, h1, h2, (hs (ha rfl)).1⟩

end BrainstormServer
