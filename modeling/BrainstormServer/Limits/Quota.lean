/-
  The manual quota (`app/services/manual_quota.py`).

  A policy bounds the manual runs of a user that were published in a rolling window.  The
  runs are counted from the start of the window on, the start included.  A refusal tells
  when the quota resets: a window after the oldest run that was counted.

  * `enforce_eq_ok_iff`, `enforce_mono`: who is let through, and later as well;
  * `allowed_after_reset_iff`: who is let through right after the time that a refusal tells;
  * `denied_at_reset`: at that time itself the same refusal is given once more.
-/
import BrainstormServer.Conc.Tables
import BrainstormServer.Queue.Pipeline
import BrainstormServer.Scheduling.Cycle
import Mathlib.Data.Int.Order.Basic

namespace BrainstormServer

namespace Quota

open Admission (Catalog User bounded)
open Policies (Scheduling)
open Queue (RequestStatus)

/-! ## Rows -/

/-- A naive `datetime`, in microseconds. -/
abbrev Datetime := ℤ

/-- `timedelta(seconds=seconds)`. -/
def timedelta (seconds : ℤ) : Datetime := 1000000 * seconds

/-- `TriggerSource`. -/
inductive TriggerSource
  | manual
  | scheduled
  | admin
  | periodic
  deriving DecidableEq

/-- The columns of a `BrainstormRequest` that the count reads. -/
structure BrainstormRequest where
  pubkey : Option String
  triggerSource : TriggerSource
  statusTaPublication : RequestStatus
  createdAt : Datetime

structure Db where
  catalog : Catalog
  users : List User
  requests : List BrainstormRequest

/-- `get_scheduling_for_pubkey_on_db`. -/
def getSchedulingForPubkey (db : Db) (pubkey : String) : Option Scheduling :=
  let schedulingId := (db.users.find? (·.pubkey = pubkey)).bind (·.schedulingId)
  (schedulingId.bind fun id => db.catalog.rows.lookup id).or db.catalog.default

/-- When the manual runs of a user that were published were created. -/
def manualRuns (db : Db) (pubkey : String) : List Datetime :=
  (db.requests.filter fun row =>
    row.pubkey = some pubkey && row.triggerSource = .manual && row.statusTaPublication = .success).map (·.createdAt)

/-- `created_at >= window_start`. -/
def since (windowStart : Datetime) (created : List Datetime) : List Datetime :=
  created.filter fun createdAt => windowStart ≤ createdAt

/-- `min(created_at)`. -/
def oldestOf (created : List Datetime) : Option Datetime := Conc.greatest (fun a b => b < a) created

/-- `count_successful_manual_runs_in_window_on_db`. -/
def countSuccessfulManualRunsInWindow (db : Db) (pubkey : String) (windowStart : Datetime) : ℕ × Option Datetime :=
  let created := since windowStart (manualRuns db pubkey)
  (created.length, oldestOf created)

/-! ## The quota -/

structure QuotaDecision where
  allowed : Bool
  resetAt : Option Datetime := none
  deriving DecidableEq

/-- `manual_quota_decision`. -/
def manualQuotaDecision (count : ℕ) (oldestInWindow : Option Datetime) (limit windowSeconds : ℤ) (now : Datetime) :
    QuotaDecision :=
  if count < limit then { allowed := true }
  else { allowed := false, resetAt := some (oldestInWindow.getD now + timedelta windowSeconds) }

/-- What `enforce_manual_quota` raises: a failed assertion, or a 429 with what its message is
    made of. -/
inductive QuotaError
  | assertionError
  | quotaExceeded (tierName : String) (limit windowSeconds : ℤ) (resetAt : Datetime)
  deriving DecidableEq

/-- What `enforce_manual_quota` makes of a decision. -/
def QuotaDecision.answer (policy : Scheduling) (decision : QuotaDecision) : Except QuotaError Unit :=
  if decision.allowed then .ok ()
  else match decision.resetAt with
    | none => .error .assertionError
    | some resetAt =>
      .error (.quotaExceeded policy.name policy.manualQuotaLimit policy.manualQuotaWindowSeconds resetAt)

/-- `enforce_manual_quota`, at a time. -/
def enforceManualQuota (db : Db) (pubkey : String) (now : Datetime) : Except QuotaError Unit :=
  match getSchedulingForPubkey db pubkey with
  | none => .ok ()
  | some policy =>
    let limit := policy.manualQuotaLimit
    let window := policy.manualQuotaWindowSeconds
    let windowStart := now - timedelta window
    let counted := countSuccessfulManualRunsInWindow db pubkey windowStart
    (manualQuotaDecision counted.1 counted.2 limit window now).answer policy

/-- How Python writes numbers of days, and times. -/
structure Texts where
  /-- `f"{window_seconds / 86400:g}"` -/
  days : ℤ → String
  /-- `reset_at.isoformat()` -/
  isoformat : Datetime → String

/-- `quota_exceeded_message`. -/
def quotaExceededMessage (texts : Texts) (tierName : String) (limit windowSeconds : ℤ) (resetAt : Datetime) : String :=
  -- the quotient is 1 for one number of seconds alone
  let window := texts.days windowSeconds ++ " day" ++ (if windowSeconds = 86400 then "" else "s")
  "Manual recalculation quota reached for tier '" ++ tierName ++ "': " ++ toString limit ++ " per " ++ window ++
    ". Resets at " ++ texts.isoformat resetAt ++ "."

/-- The `HTTPException` of a refusal: its status and its detail. -/
def QuotaError.response (texts : Texts) : QuotaError → Option (ℕ × String)
  | .assertionError => none
  | .quotaExceeded tierName limit window resetAt =>
    some (429, quotaExceededMessage texts tierName limit window resetAt)

/-! ## What is counted -/

theorem mem_since {start t : Datetime} {created : List Datetime} :
    t ∈ since start created ↔ t ∈ created ∧ start ≤ t := by
  rw [since, List.mem_filter, decide_eq_true_eq]

/-- A window that starts earlier holds more. -/
theorem length_since_anti {start start' : Datetime} (h : start ≤ start') (created : List Datetime) :
    (since start' created).length ≤ (since start created).length := by
  refine (List.monotone_filter_right created fun t ht => ?_).length_le
  rw [decide_eq_true_eq] at ht ⊢
  exact h.trans ht

theorem oldestOf_spec {created : List Datetime} {oldest : Datetime} (h : oldestOf created = some oldest) :
    oldest ∈ created ∧ ∀ t ∈ created, oldest ≤ t := by
  refine ⟨Conc.greatest_mem h, fun t ht => ?_⟩
  have hle : ∀ b ∈ created, -b ≤ -oldest :=
    Conc.le_greatest (fun a b hab => neg_le_neg hab.le) (fun a b hab => neg_le_neg (not_lt.1 hab)) h
  exact neg_le_neg_iff.1 (hle t ht)

/-- **Nothing leaves the window** when it is moved up to the oldest run in it. -/
theorem since_oldest {start oldest : Datetime} {created : List Datetime}
    (h : oldestOf (since start created) = some oldest) : since oldest created = since start created := by
  obtain ⟨hmem, hleast⟩ := oldestOf_spec h
  refine List.filter_congr fun t ht => ?_
  rw [decide_eq_decide]
  constructor
  · intro hle
    exact (mem_since.1 hmem).2.trans hle
  · intro hle
    exact hleast t (mem_since.2 ⟨ht, hle⟩)

section
variable {db : Db} {pubkey tierName : String} {now resetAt limit window : ℤ} {policy : Scheduling}

theorem manualQuotaDecision_of_lt {count : ℕ} {oldest : Option Datetime} (h : (count : ℤ) < limit) :
    manualQuotaDecision count oldest limit window now = ⟨true, none⟩ := if_pos h

theorem manualQuotaDecision_of_not_lt {count : ℕ} {oldest : Option Datetime} (h : ¬ (count : ℤ) < limit) :
    manualQuotaDecision count oldest limit window now = ⟨false, some (oldest.getD now + timedelta window)⟩ := if_neg h

/-- What the check answers under a policy. -/
theorem enforce_of_policy (h : getSchedulingForPubkey db pubkey = some policy) (now : Datetime) :
    enforceManualQuota db pubkey now =
      let created := since (now - timedelta policy.manualQuotaWindowSeconds) (manualRuns db pubkey)
      if created.length < policy.manualQuotaLimit then .ok ()
      else .error (.quotaExceeded policy.name policy.manualQuotaLimit policy.manualQuotaWindowSeconds
        ((oldestOf created).getD now + timedelta policy.manualQuotaWindowSeconds)) := by
  simp only [enforceManualQuota, h, countSuccessfulManualRunsInWindow]
  by_cases hless : (since (now - timedelta policy.manualQuotaWindowSeconds) (manualRuns db pubkey)).length <
      policy.manualQuotaLimit
  · rw [manualQuotaDecision_of_lt hless, if_pos hless]
    rfl
  · rw [manualQuotaDecision_of_not_lt hless, if_neg hless]
    rfl

/-- A policy in effect came through the API. -/
theorem bounded_of_policy (h : getSchedulingForPubkey db pubkey = some policy) : bounded policy = true := by
  rcases Option.or_eq_some_iff.1 h with h | ⟨-, h⟩
  · obtain ⟨id, -, hrow⟩ := Option.bind_eq_some_iff.1 h
    exact db.catalog.bounds (id, policy) (Conc.mem_of_lookup hrow)
  · obtain ⟨row, hrow, rfl⟩ := Option.map_eq_some_iff.1 h
    exact db.catalog.bounds row (List.mem_of_find?_eq_some hrow)

theorem limit_pos (h : getSchedulingForPubkey db pubkey = some policy) : 1 ≤ policy.manualQuotaLimit := by
  have hbounds := bounded_of_policy h
  simp only [bounded, Bool.and_eq_true, decide_eq_true_eq] at hbounds
  exact hbounds.1.2

/-- **Who is let through**: who has no policy, or fewer runs in the window than the limit. -/
theorem enforce_eq_ok_iff : enforceManualQuota db pubkey now = .ok () ↔
    ∀ policy, getSchedulingForPubkey db pubkey = some policy →
      (since (now - timedelta policy.manualQuotaWindowSeconds) (manualRuns db pubkey)).length <
        policy.manualQuotaLimit := by
  cases h : getSchedulingForPubkey db pubkey with
  | none => simp [enforceManualQuota, h]
  | some policy =>
    rw [enforce_of_policy h]
    dsimp only
    split_ifs with hless
    · simp [hless]
    · simp [hless]

/-- **A refusal**: as many runs as the limit or more, and the oldest of them gives the time. -/
theorem enforce_eq_error_iff {e : QuotaError} : enforceManualQuota db pubkey now = .error e ↔
    ∃ policy oldest, getSchedulingForPubkey db pubkey = some policy ∧
      policy.manualQuotaLimit ≤
        (since (now - timedelta policy.manualQuotaWindowSeconds) (manualRuns db pubkey)).length ∧
      oldestOf (since (now - timedelta policy.manualQuotaWindowSeconds) (manualRuns db pubkey)) = some oldest ∧
      e = .quotaExceeded policy.name policy.manualQuotaLimit policy.manualQuotaWindowSeconds
        (oldest + timedelta policy.manualQuotaWindowSeconds) := by
  cases h : getSchedulingForPubkey db pubkey with
  | none => simp [enforceManualQuota, h]
  | some policy =>
    rw [enforce_of_policy h]
    generalize hcreated : since (now - timedelta policy.manualQuotaWindowSeconds) (manualRuns db pubkey) = created
    dsimp only
    split_ifs with hless
    · refine iff_of_false (by simp) ?_
      rintro ⟨policy', oldest, hpolicy, hle, -⟩
      cases hpolicy
      rw [hcreated] at hle
      exact absurd hless (not_lt.2 hle)
    · -- the limit is positive, so that something was counted
      have hne : created ≠ [] := by
        rintro rfl
        exact hless (lt_of_lt_of_le (by simp) (limit_pos h))
      obtain ⟨oldest, holdest⟩ := Conc.exists_greatest (r := fun a b : Datetime => b < a) hne
      have hoption : oldestOf created = some oldest := holdest
      rw [hoption, Option.getD_some, Except.error.injEq]
      constructor
      · intro he
        exact ⟨policy, oldest, rfl, by rw [hcreated]; exact not_lt.1 hless, by rw [hcreated]; exact hoption, he.symm⟩
      · rintro ⟨policy', oldest', hpolicy, -, holdest', he⟩
        cases hpolicy
        rw [hcreated, hoption] at holdest'
        cases holdest'
        exact he.symm

/-- The assertion never fails: every refusal is a 429. -/
theorem exists_response (texts : Texts) {e : QuotaError} (h : enforceManualQuota db pubkey now = .error e) :
    ∃ detail, e.response texts = some (429, detail) := by
  obtain ⟨policy, oldest, -, -, -, rfl⟩ := enforce_eq_error_iff.1 h
  exact ⟨_, rfl⟩

/-- Who is let through is let through later as well. -/
theorem enforce_mono {later : Datetime} (hle : now ≤ later) (h : enforceManualQuota db pubkey now = .ok ()) :
    enforceManualQuota db pubkey later = .ok () := by
  rw [enforce_eq_ok_iff] at h ⊢
  intro policy hpolicy
  have hanti := length_since_anti (sub_le_sub_right hle (timedelta policy.manualQuotaWindowSeconds))
    (manualRuns db pubkey)
  exact lt_of_le_of_lt (Int.ofNat_le.2 hanti) (h policy hpolicy)

end

/-! ## The reset -/

section
variable {db : Db} {pubkey tierName : String} {now resetAt limit window : ℤ}

/-- At the time that a refusal tells the window starts with the oldest run and holds all that
    it held, so that the same refusal is given again. -/
theorem refused_again (h : enforceManualQuota db pubkey now = .error (.quotaExceeded tierName limit window resetAt)) :
    enforceManualQuota db pubkey resetAt = .error (.quotaExceeded tierName limit window resetAt) := by
  obtain ⟨policy, oldest, hpolicy, hle, holdest, he⟩ := enforce_eq_error_iff.1 h
  simp only [QuotaError.quotaExceeded.injEq] at he
  obtain ⟨rfl, rfl, rfl, rfl⟩ := he
  have hsame := since_oldest holdest
  refine enforce_eq_error_iff.2 ⟨policy, oldest, hpolicy, ?_, ?_, rfl⟩
  · rw [add_sub_cancel_right, hsame]
    exact hle
  · rw [add_sub_cancel_right, hsame]
    exact holdest

/-- **Right after the reset time** who was refused is let through if and only if fewer runs
    than the limit are left without those of the oldest time: a limit that was lowered, or
    several runs of one time, can keep the quota closed. -/
theorem allowed_after_reset_iff
    (h : enforceManualQuota db pubkey now = .error (.quotaExceeded tierName limit window resetAt)) :
    enforceManualQuota db pubkey (resetAt + 1) = .ok () ↔
      ((manualRuns db pubkey).filter fun t => resetAt - timedelta window < t).length < limit := by
  obtain ⟨policy, oldest, hpolicy, -, -, he⟩ := enforce_eq_error_iff.1 h
  simp only [QuotaError.quotaExceeded.injEq] at he
  obtain ⟨rfl, rfl, rfl, rfl⟩ := he
  have hlater : since (oldest + timedelta policy.manualQuotaWindowSeconds + 1 -
        timedelta policy.manualQuotaWindowSeconds) (manualRuns db pubkey) =
      (manualRuns db pubkey).filter fun t => oldest + timedelta policy.manualQuotaWindowSeconds -
        timedelta policy.manualQuotaWindowSeconds < t := by
    refine List.filter_congr fun t _ => ?_
    rw [decide_eq_decide, add_sub_right_comm, Int.add_one_le_iff]
  rw [enforce_eq_ok_iff]
  constructor
  · intro hall
    rw [← hlater]
    exact hall policy hpolicy
  · intro hless policy' hpolicy'
    rw [hpolicy] at hpolicy'
    cases hpolicy'
    rw [hlater]
    exact hless

end

/-- **The reset time is not kept**: at the time that a refusal tells, and at any time before,
    nobody is let through. -/
theorem denied_at_reset (db : Db) (pubkey : String) (now : Datetime) (tierName : String) (limit window : ℤ)
    (resetAt : Datetime)
    (h : enforceManualQuota db pubkey now = .error (.quotaExceeded tierName limit window resetAt)) :
    enforceManualQuota db pubkey resetAt = .error (.quotaExceeded tierName limit window resetAt) ∧
      ∀ t ≤ resetAt, enforceManualQuota db pubkey t ≠ .ok () := by
  have hagain := refused_again h
  refine ⟨hagain, fun t ht hok => ?_⟩
  rw [enforce_mono ht hok] at hagain
  cases hagain

/-- A policy of one run a week, as the default. -/
def weeklyCatalog : Catalog where
  rows := [(1, ⟨"Weekly", 604800, 0, true, true, false, false, 1, 604800⟩)]
  ids := by decide
  bounds := by decide

/-- One run, at the time 0. -/
def oneRun : Db := ⟨weeklyCatalog, [], [⟨some "alice", .manual, .success, 0⟩]⟩

/-- A day later there is a refusal until the week is over. -/
theorem oneRun_denied : enforceManualQuota oneRun "alice" 86400000000 =
    .error (.quotaExceeded "Weekly" 1 604800 604800000000) := by
  decide

/-- When the week is over it is given again. -/
theorem oneRun_denied_again : enforceManualQuota oneRun "alice" 604800000000 =
      .error (.quotaExceeded "Weekly" 1 604800 604800000000) ∧
    ∀ t ≤ 604800000000, enforceManualQuota oneRun "alice" t ≠ .ok () :=
  denied_at_reset oneRun "alice" 86400000000 "Weekly" 1 604800 604800000000 oneRun_denied

/-- A refusal whose time is not kept. -/
theorem oneRun_not_allowed : ¬ ∀ (db : Db) (pubkey : String) (now : Datetime) (tierName : String)
    (limit window : ℤ) (resetAt : Datetime), 1 ≤ limit → 0 < window →
    enforceManualQuota db pubkey now = .error (.quotaExceeded tierName limit window resetAt) →
    enforceManualQuota db pubkey resetAt = .ok () := by
  intro hkept
  have hok := hkept oneRun "alice" 86400000000 "Weekly" 1 604800 604800000000 (by decide) (by decide) (by decide)
  revert hok
  decide

end Quota

end BrainstormServer
