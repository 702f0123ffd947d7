/-
  The rows of `user_subscription` under their repository functions
  (`app/repos/user_subscription_repo.py`).

  The sweep asks in SQL whether a checkout is given up on, and the page of the subscriber asks
  in Python.  Both look at how long the failure has been the same one, which
  `record_sync_failure_on_db` dates by comparing with the reason that it overwrites.

  * `RowOp`: the four functions that write a row, with their clock;
  * `failures`: the current uninterrupted run of failures with a reason;
  * `abandon_rule_agrees`: on every row that can be reached the two forms agree, neither of
    them is null, and `sync_error_since` is the time of the first failure of the run.
-/
import BrainstormServer.Billing.Candidates
import Mathlib.Data.List.Induction

namespace BrainstormServer

/-! ## The functions -/

/-- A call that writes the row of one subscriber. -/
inductive RowOp
  /-- `upsert_user_subscription_on_db` -/
  | upsert (sub : FlashSubscription) (billingPlanId : ℕ) (granted : Option SchedulingId) (now : DateTime)
  /-- `record_sync_failure_on_db` -/
  | failure (reason : String) (now : DateTime)
  /-- `update_flash_status_on_db` -/
  | flashStatus (status : String) (cancelEffectiveDate : Option DateTime)
  /-- `clear_granted_scheduling_on_db` -/
  | clearGranted

/-- What a call leaves of the row; an update of no row leaves none. -/
def RowOp.apply : RowOp → Option UserSubscription → Option UserSubscription
  | .upsert sub billingPlanId granted now, old => some (recordSubscription sub billingPlanId granted now old)
  | .failure reason now, old => old.map (noteSyncFailure reason now)
  | .flashStatus status cancelEffectiveDate, old => old.map (setFlashStatus status cancelEffectiveDate)
  | .clearGranted, old => old.map BrainstormServer.clearGranted

/-- The row after some calls, the first of them on a table without the row. -/
def rowAfter (ops : List RowOp) : Option UserSubscription := ops.foldl (fun row op => op.apply row) none

/-! ## The current run of failures -/

/-- A call that does not interrupt the failures with a reason. -/
def RowOp.continues (reason : String) : RowOp → Bool
  | .upsert _ _ _ _ => false
  | .failure reason' _ => reason' = reason
  | _ => true

/-- When a call recorded a failure. -/
def RowOp.failureTime : RowOp → Option DateTime
  | .failure _ now => some now
  | _ => none

/-- The times of the current uninterrupted run of failures with a reason, oldest first. -/
def failures (reason : String) (ops : List RowOp) : List DateTime :=
  ((ops.reverse.takeWhile (·.continues reason)).filterMap RowOp.failureTime).reverse

theorem failures_snoc (reason : String) (ops : List RowOp) (op : RowOp) :
    failures reason (ops ++ [op]) =
      if op.continues reason then failures reason ops ++ op.failureTime.toList else [] := by
  unfold failures
  rw [List.reverse_append, List.reverse_singleton, List.singleton_append, List.takeWhile_cons]
  split_ifs with hop
  · cases htime : op.failureTime with
    | none => rw [List.filterMap_cons_none htime, Option.toList_none, List.append_nil]
    | some t => rw [List.filterMap_cons_some htime, List.reverse_cons, Option.toList_some]
  · rfl

theorem rowAfter_snoc (ops : List RowOp) (op : RowOp) : rowAfter (ops ++ [op]) = op.apply (rowAfter ops) := by
  unfold rowAfter
  rw [List.foldl_append]
  rfl

/-- What the error columns of a row say about the calls. -/
structure ErrorColumns (ops : List RowOp) (row : UserSubscription) : Prop where
  dated : row.Dated
  since : ∀ reason, (failures reason ops).head? =
    if row.lastSyncError = some reason then row.syncErrorSince else none

/-- A call that leaves the error columns and the run as they are. -/
theorem ErrorColumns.unchanged {ops : List RowOp} {op : RowOp} {row row' : UserSubscription}
    (h : ErrorColumns ops row) (hop : ∀ reason, op.continues reason = true) (htime : op.failureTime = none)
    (herror : row'.lastSyncError = row.lastSyncError) (hsince : row'.syncErrorSince = row.syncErrorSince) :
    ErrorColumns (ops ++ [op]) row' where
  dated := by
    unfold UserSubscription.Dated
    rw [herror, hsince]
    exact h.dated
  since reason := by
    rw [failures_snoc, hop, if_pos rfl, htime, Option.toList_none, List.append_nil, herror, hsince]
    exact h.since reason

/-- A failure is recorded: the run with its reason goes on or begins. -/
theorem ErrorColumns.failure {ops : List RowOp} {row : UserSubscription} (h : ErrorColumns ops row)
    (reason : String) (now : DateTime) :
    ErrorColumns (ops ++ [.failure reason now]) (noteSyncFailure reason now row) where
  dated := by
    unfold UserSubscription.Dated noteSyncFailure
    split_ifs with hsame
    · simp [← Option.not_isSome_iff_eq_none, hsame.2]
    · simp
  since reason' := by
    have hrun := h.since reason'
    rw [failures_snoc]
    by_cases hreason : reason = reason'
    · subst hreason
      simp only [RowOp.continues, RowOp.failureTime, noteSyncFailure, decide_true, if_true, Option.toList_some,
        List.head?_append, List.head?_cons, hrun]
      by_cases hsame : row.lastSyncError = some reason
      · cases hs : row.syncErrorSince with
        | none => simp [hsame]
        | some since => simp [hsame]
      · simp [hsame]
    · simp [RowOp.continues, noteSyncFailure, hreason]

/-- **The error columns of every row that can be reached.** -/
theorem errorColumns_rowAfter (ops : List RowOp) : ∀ row ∈ rowAfter ops, ErrorColumns ops row := by
  -- the last call first
  induction ops using List.reverseRecOn with
  | nil =>
    intro row hrow
    cases hrow
  | append_singleton ops op ih =>
    intro row hrow
    rw [rowAfter_snoc] at hrow
    cases op with
    | upsert sub billingPlanId granted now =>
      cases hrow
      refine ⟨⟨fun _ => rfl, fun _ => rfl⟩, fun reason => ?_⟩
      rw [failures_snoc]
      rfl
    | failure reason now =>
      obtain ⟨old, hold, rfl⟩ := Option.map_eq_some_iff.1 hrow
      exact (ih old hold).failure reason now
    | flashStatus status cancelEffectiveDate =>
      obtain ⟨old, hold, rfl⟩ := Option.map_eq_some_iff.1 hrow
      exact (ih old hold).unchanged (fun _ => rfl) rfl rfl rfl
    | clearGranted =>
      obtain ⟨old, hold, rfl⟩ := Option.map_eq_some_iff.1 hrow
      exact (ih old hold).unchanged (fun _ => rfl) rfl rfl rfl

/-- **The abandon rule in SQL and in Python.**  On every row that the four functions can
    leave, and at every time: the condition is true exactly if the row matches, and its
    negation is true exactly if it does not; an error is dated, nothing else is, and its date
    is that of the first failure of the current run with its reason. -/
theorem abandon_rule_agrees (ops : List RowOp) (row : UserSubscription) (hrow : rowAfter ops = some row) :
    (∀ (rule : AbandonRule) (now : DateTime),
      (rule.condition row now = some true ↔ rule.matchesRow row now = true) ∧
      (sqlNot (rule.condition row now) = some true ↔ ¬ rule.matchesRow row now = true) ∧
      rule.condition row now ≠ none ∧ sqlNot (rule.condition row now) ≠ none) ∧
    (∀ reason, row.lastSyncError = some reason → row.syncErrorSince = (failures reason ops).head?) ∧
    (row.syncErrorSince ≠ none ↔ row.lastSyncError ≠ none) := by
  have hcolumns := errorColumns_rowAfter ops row hrow
  refine ⟨fun rule now => ?_, fun reason hreason => ?_, not_congr hcolumns.dated.symm⟩
  · rw [condition_eq_matches hcolumns.dated]
    simp [sqlNot]
  · rw [hcolumns.since, if_pos hreason]

/-! ## A checkout that is given up on -/

/-- A checkout that is not confirmed. -/
def pendingCheckout : FlashSubscription :=
  ⟨"sub_1", "pending", some "alice", none, "svc", "plan", none, none, none, none, none, none, none,
    unknownLifecyclePolicy⟩

/-- Flash could not be asked, and then three times it had nothing. -/
def forgottenCheckout : List RowOp :=
  [.upsert pendingCheckout 1 none 100, .failure "timeout" 200, .failure "unknown_subscription" 300,
    .clearGranted, .failure "unknown_subscription" 400, .failure "unknown_subscription" 500]

/-- The failure began at 300. -/
theorem forgottenCheckout_abandoned : ∃ row, rowAfter forgottenCheckout = some row ∧
    row.syncErrorSince = some 300 ∧
    (AbandonRule.condition ⟨200, "unknown_subscription"⟩ row 500 = some true ↔
      AbandonRule.matchesRow ⟨200, "unknown_subscription"⟩ row 500 = true) := by
  refine ⟨_, rfl, ?_, ?_⟩
  · exact (abandon_rule_agrees forgottenCheckout _ rfl).2.1 "unknown_subscription" rfl
  · exact ((abandon_rule_agrees forgottenCheckout _ rfl).1 ⟨200, "unknown_subscription"⟩ 500).1

end BrainstormServer
