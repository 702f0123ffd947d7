/-
  Whom the reconcile loop still asks Flash about
  (`select_reconcile_candidates_on_db`, `settled_condition`, `AbandonRule` of
  `app/repos/user_subscription_repo.py`).

  A subscriber may be owed a policy that no delivery told us of; what finds them
  then is the loop, provided their row is a candidate.  Two kinds of row are left
  out on purpose: the settled ones and the abandoned ones.

  * `condition_eq_matches`: the abandon rule asked in SQL and the one asked in
    Python agree on every row whose error is dated (`UserSubscription.Dated`),
    and every row of every run is (`run_dated`);
  * `stranded_candidate_iff`: in every run, an owed subscriber not read for a
    while is a candidate exactly if their row is neither settled nor abandoned;
  * `owed_left_out`: both kinds of row can belong to somebody who pays.
-/
import BrainstormServer.Billing.Alone
import BrainstormServer.Billing.Commands

namespace BrainstormServer

open Conc Prog

/-! ## The two spellings of the abandon rule -/

/-- `AbandonRule.matches`: the rule on a row in hand. -/
def AbandonRule.matchesRow (rule : AbandonRule) (row : UserSubscription) (now : DateTime) : Bool :=
  row.flashStatus = "pending" ∧ row.grantedSchedulingId = none ∧
    row.lastSyncError = some rule.error ∧ ∃ since ∈ row.syncErrorSince, since ≤ now - rule.after

/-- An outstanding error has a beginning, and nothing else has. -/
def UserSubscription.Dated (row : UserSubscription) : Prop :=
  row.lastSyncError = none ↔ row.syncErrorSince = none

/-- **One rule.**  On a dated row, SQL and Python give the same answer; in
    particular SQL's is not `NULL`. -/
theorem condition_eq_matches {row : UserSubscription} (h : row.Dated) (rule : AbandonRule)
    (now : DateTime) : rule.condition row now = some (rule.matchesRow row now) := by
  unfold AbandonRule.condition AbandonRule.matchesRow
  cases hs : row.syncErrorSince with
  | none =>
    rw [h.2 hs]
    by_cases hst : row.flashStatus = "pending" <;> cases row.grantedSchedulingId <;>
      simp [sqlAnd, sqlEq, hst]
  | some since =>
    cases he : row.lastSyncError with
    | none =>
      rw [h.1 he] at hs
      cases hs
    | some error =>
      by_cases hst : row.flashStatus = "pending" <;> cases row.grantedSchedulingId <;>
        by_cases herr : error = rule.error <;> by_cases hle : since ≤ now - rule.after <;>
        simp [sqlAnd, sqlEq, sqlLe, hst, herr, hle]

/-! ## Every row is dated -/

/-- A row, if there is one, is dated. -/
def DatedRow (row : Option UserSubscription) : Prop := ∀ r ∈ row, r.Dated

/-- The rows of the store are dated, as committed and as written by any session. -/
def Store.DatedErrors {S : Type} (st : Store S) : Prop :=
  ∀ p, DatedRow (st.subscription.committed p) ∧ st.subscription.Everywhere p DatedRow

theorem subscriptionUpdate_dated {c : Cmd} {ω : Outside} {f : UserSubscription → UserSubscription}
    (hf : c.subscriptionUpdate ω = some f) {row : UserSubscription} (h : row.Dated) :
    (f row).Dated := by
  cases c <;> simp only [Cmd.subscriptionUpdate, Option.some.injEq, reduceCtorEq] at hf <;> subst hf
  case clearGrantedScheduling => exact h
  case updateFlashStatus => exact h
  case updateLastEventAt =>
    unfold advanceLastEvent
    split
    · exact h
    · split_ifs
      · exact h
      · exact h
  case recordSyncFailure p reason =>
    -- the failure is recorded together with the time it began
    unfold UserSubscription.Dated noteSyncFailure
    split_ifs with hsame
    · simp [← Option.not_isSome_iff_eq_none, hsame.2]
    · simp

section
variable {S : Type} [DecidableEq S]

theorem exec_dated {s : S} {c : Cmd} {st st' : Store S} {ω : Outside} {a : c.Ans}
    (h : exec s c st ω = some (a, st')) (hst : st.DatedErrors) : st'.DatedErrors := by
  intro p
  have hall : st'.subscription.Everywhere p DatedRow := by
    refine (exec_subscription h).everywhere (hst p).2 ?_ ?_
    · rintro sub plan granted old - r ⟨⟩
      exact ⟨fun _ => rfl, fun _ => rfl⟩
    · rintro f hf row hrow r ⟨⟩
      exact subscriptionUpdate_dated hf (hrow row rfl)
  exact ⟨(hall s).committed, hall⟩

/-- **Every row of every run is dated.** -/
theorem run_dated {α : Type} {prog : S → Billing α} {st : Store S} (hst : st.DatedErrors)
    {xs : List (S × Outside)} {cfg : Config Cmd.Ans Exn α S (Store S)}
    (hrun : (start prog st).run exec xs = some cfg) : cfg.state.DatedErrors := by
  obtain ⟨es, -, ht⟩ := Config.run_trace hrun
  exact ht.inv (I := Store.DatedErrors) (fun _ _ _ he hI => exec_dated he hI) hst

/-! ## Whom the loop finds -/

/-- The subscriber `p` with the committed row `row` is owed a policy: read by
    their reference, Flash would have a subscription that grants, to a mapped
    plan, and nothing is granted to them. -/
structure Owed (flash : Handle → Except FlashError (Option FlashSubscription)) (now : DateTime)
    (st : Store S) (p : Pubkey) (row : UserSubscription) : Prop where
  committed : st.subscription.committed p = some row
  nothing : row.grantedSchedulingId = none
  granting : ∃ sub, flash (.byRef p) = .ok (some sub) ∧ sub.decide now = .grant ∧
    ∃ i plan, st.plan.committed i = some plan ∧ plan.flashServiceId = sub.serviceId ∧
      plan.flashPlanId = sub.planId

/-- The row has not been read for `staleAfter`. -/
def UserSubscription.Stale (row : UserSubscription) (now : DateTime) (staleAfter : ℤ) : Prop :=
  ∃ t, row.lastSyncedAt = some t ∧ t ≤ now - staleAfter

/-- **Nobody owed is overlooked but the settled and the abandoned.**  Whatever
    the sessions do and Flash answers on the way, an owed subscriber whose row
    was not read for a while is a candidate unless the row says `expired` without
    an outstanding error, or `pending` with the rule's error outstanding for as
    long as the rule says. -/
theorem stranded_candidate_iff {α : Type} (prog : S → Billing α) {st : Store S}
    (hst : st.DatedErrors) {xs : List (S × Outside)} {cfg : Config Cmd.Ans Exn α S (Store S)}
    (hrun : (start prog st).run exec xs = some cfg)
    {flash : Handle → Except FlashError (Option FlashSubscription)} {now : DateTime} {p : Pubkey}
    {row : UserSubscription} (howed : Owed flash now cfg.state p row) {staleAfter : ℤ}
    (hstale : row.Stale now staleAfter) (rule : AbandonRule) :
    reconcileCondition row now staleAfter rule = true ↔
      ¬ (row.flashStatus = "expired" ∧ row.lastSyncError = none) ∧
      ¬ (row.flashStatus = "pending" ∧ row.lastSyncError = some rule.error ∧
        ∃ since ∈ row.syncErrorSince, since ≤ now - rule.after) := by
  obtain ⟨t, ht, hle⟩ := hstale
  have hdated : row.Dated := (run_dated hst hrun p).1 row howed.committed
  have hsync : sqlLe row.lastSyncedAt (now - staleAfter) = some true := by
    rw [ht]
    simp [sqlLe, hle]
  unfold reconcileCondition settledCondition
  rw [condition_eq_matches hdated, AbandonRule.matchesRow]
  simp only [hsync, howed.nothing, sqlNot, Option.isNone_none, true_and, or_true, Option.map_some,
    Option.some.injEq, Bool.not_eq_true', decide_eq_false_iff_not, decide_eq_true_eq,
    Option.isNone_iff_eq_none]
  exact and_comm

end

/-! ## Owed and left out -/

/-- `"alice"`, with no subscription yet. -/
def newcomer : Store Unit :=
  sampleStore (fun p => if p = "alice" then some .created else none) (fun _ => none) ["alice"]

theorem newcomer_dated : newcomer.DatedErrors := by
  intro p
  have hnone : DatedRow (newcomer.subscription.committed p) := by
    intro r hr
    cases hr
  refine ⟨hnone, fun s => ⟨hnone, fun r hr => ?_⟩⟩
  cases hr

/-- A refresh of `"alice"`. -/
def refreshAlice : Billing Unit :=
  discard (dbSession (applyEntitlement (some "alice") none false false))

/-- Her checkout is seen before the payment confirms. -/
def checkedOut : Option (Config Cmd.Ans Exn Unit Unit (Store Unit)) :=
  (start (fun _ => refreshAlice) newcomer).run exec
    (List.replicate 12 ((), flashReports (sampleSubscription "sub_1" "pending" (some "alice")) 10))

/-- She subscribes, and the subscription expires. -/
def churned : Option (Config Cmd.Ans Exn Unit Unit (Store Unit)) :=
  (start (fun _ => refreshAlice.bind fun _ => refreshAlice) newcomer).run exec
    (List.replicate 13 ((), flashReports (sampleSubscription "sub_1" "active" (some "alice")) 10) ++
      List.replicate 13
        ((), flashReports (sampleSubscription "sub_1" "expired" (some "alice")) 2000))

/-- She checks out and does not pay; when the loop asks, Flash has nothing. -/
def forgotten : Option (Config Cmd.Ans Exn Unit Unit (Store Unit)) :=
  (start (fun _ => refreshAlice.bind fun _ =>
    discard (dbSession (reconcileSubscriptions 10 100 100 none))) newcomer).run exec
    (List.replicate 12
        ((), flashReports (sampleSubscription "sub_1" "pending" (some "alice")) 10) ++
      List.replicate 13 ((), { flash := fun _ => .ok none, now := 2000 }))

/-- What Flash has after that: a new subscription under her reference, whose
    activation was not delivered. -/
def resubscribed : Handle → Except FlashError (Option FlashSubscription) :=
  fun _ => .ok (some (sampleSubscription "sub_2" "active" (some "alice")))

/-- The row of `"alice"`, and the plan the store maps. -/
def aliceRow (cfg : Config Cmd.Ans Exn Unit Unit (Store Unit)) :
    Option UserSubscription × Option BillingPlan :=
  (cfg.state.subscription.committed "alice", cfg.state.plan.committed 0)

theorem owed_of_aliceRow {cfg : Config Cmd.Ans Exn Unit Unit (Store Unit)} {row : UserSubscription}
    (h : aliceRow cfg = (some row, some ⟨"service", "plan", 7, true⟩))
    (hg : row.grantedSchedulingId = none) : Owed resubscribed 5000 cfg.state "alice" row := by
  obtain ⟨hrow, hplan⟩ := Prod.mk.inj h
  exact ⟨hrow, hg, _, rfl, by decide, 0, _, hplan, rfl, rfl⟩

/-- **Both kinds can be owed.**  Her activation lost, `"alice"` is owed a policy
    and is not a candidate: after an expired subscription her row is settled,
    after a forgotten checkout it is abandoned. -/
theorem owed_left_out :
    (∃ cfg row, churned = some cfg ∧ Owed resubscribed 5000 cfg.state "alice" row ∧
      row.Stale 5000 1000 ∧
      reconcileCondition row 5000 1000 ⟨1000, EntitlementReason.unknownSubscription.value⟩ = false) ∧
    ∃ cfg row, forgotten = some cfg ∧ Owed resubscribed 5000 cfg.state "alice" row ∧
      row.Stale 5000 1000 ∧
      reconcileCondition row 5000 1000 ⟨1000, EntitlementReason.unknownSubscription.value⟩ = false := by
  constructor
  · have h : churned.map aliceRow = some (some (recordSubscription
        (sampleSubscription "sub_1" "expired" (some "alice")) 0 none 2000 none),
        some ⟨"service", "plan", 7, true⟩) := by
      decide
    obtain ⟨cfg, hcfg, hrow⟩ := Option.map_eq_some_iff.1 h
    exact ⟨cfg, _, hcfg, owed_of_aliceRow hrow rfl, ⟨2000, rfl, by decide⟩, by decide⟩
  · have h : forgotten.map aliceRow = some (some (noteSyncFailure "unknown_subscription" 2000
        (recordSubscription (sampleSubscription "sub_1" "pending" (some "alice")) 0 none 10 none)),
        some ⟨"service", "plan", 7, true⟩) := by
      decide
    obtain ⟨cfg, hcfg, hrow⟩ := Option.map_eq_some_iff.1 h
    exact ⟨cfg, _, hcfg, owed_of_aliceRow hrow rfl, ⟨2000, rfl, by decide⟩, by decide⟩

/-- Where her checkout is merely unconfirmed, `"alice"` is a candidate. -/
theorem stranded_candidate_iff_checkedOut :
    ∃ cfg row, checkedOut = some cfg ∧ Owed resubscribed 5000 cfg.state "alice" row ∧
      row.Stale 5000 1000 ∧
      reconcileCondition row 5000 1000 ⟨1000, EntitlementReason.unknownSubscription.value⟩ = true := by
  have h : checkedOut.map aliceRow = some (some (recordSubscription
      (sampleSubscription "sub_1" "pending" (some "alice")) 0 none 10 none),
      some ⟨"service", "plan", 7, true⟩) := by
    decide
  obtain ⟨cfg, hcfg, hrow⟩ := Option.map_eq_some_iff.1 h
  have howed := owed_of_aliceRow hrow rfl
  have hstale : (recordSubscription (sampleSubscription "sub_1" "pending" (some "alice")) 0 none 10
      none).Stale 5000 1000 := ⟨10, rfl, by decide⟩
  refine ⟨cfg, _, hcfg, howed, hstale, ?_⟩
  refine (stranded_candidate_iff _ newcomer_dated hcfg howed hstale _).2 ⟨?_, ?_⟩
  · rintro ⟨hexpired, -⟩
    revert hexpired
    decide
  · rintro ⟨-, herror, -⟩
    cases herror

end BrainstormServer
