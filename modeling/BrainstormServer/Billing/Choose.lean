/-
  The row that decides (`_choose_subscription`, `_runs_until`,
  `parse_subscription` of `app/core/flash.py`).

  Several subscriptions may be held under one `ref`.  The choice prefers the rows
  whose status entitles and takes the one that runs longest; if no status
  entitles it takes the longest running row of all, ended or not.

  * `chooseSubscription` works on the rows as Flash sent them,
    `parseSubscription` reads one of them;
  * `argmax_eq_some`: `max` takes the first of the greatest;
  * `choose_hides_iff`: a live row is never hidden behind a revoked one exactly if
    a status entitles, or a row cannot be compared, or no row is held, or every
    revoked row is outlasted by one that is not.
-/
import BrainstormServer.Billing.Receive
import BrainstormServer.Conc.Log
import BrainstormServer.Pricing.Plans
import Mathlib.Data.List.MinMax

namespace BrainstormServer

open Conc Pricing

/-! ## The first of the greatest -/

/-- The times are compared as integers, whatever else orders these. -/
local instance preorderTimes : Preorder ℤ := Int.instLinearOrder.toPreorder

section
variable {α : Type} {f : α → ℤ}

/-- What `max(.., key=f)` takes: everything before it is less, nothing after it is
    greater. -/
theorem argmax_eq_some {l : List α} {a : α} (h : l.argmax f = some a) :
    ∃ before after, l = before ++ a :: after ∧
      (∀ b ∈ before, f b < f a) ∧ ∀ b ∈ after, f b ≤ f a := by
  induction l generalizing a with
  | nil => cases h
  | cons b l ih =>
    rw [List.argmax_cons] at h
    cases hl : l.argmax f with
    | none =>
      rw [hl] at h
      cases h
      rw [List.argmax_eq_none] at hl
      exact ⟨[], l, rfl, by simp, by simp [hl]⟩
    | some c =>
      rw [hl] at h
      dsimp only at h
      split_ifs at h with hlt
      · cases h
        obtain ⟨before, after, rfl, hbefore, hafter⟩ := ih hl
        refine ⟨b :: before, after, rfl, fun x hx => ?_, hafter⟩
        rcases List.mem_cons.1 hx with rfl | hx
        · exact hlt
        · exact hbefore x hx
      · cases h
        refine ⟨[], l, rfl, by simp, fun x hx => ?_⟩
        exact (List.le_of_mem_argmax hx hl).trans (not_lt.1 hlt)

end

/-! ## The rows -/

/-- The exceptions of the choice. -/
inductive ChooseExn
  | typeError
  | overflowError
  deriving DecidableEq

/-- What `parse_subscription` returns; `ref` and `subscriberId` are whatever the row
    holds. -/
structure ParsedSubscription where
  id : String
  status : String
  ref : PyValue
  subscriberId : PyValue
  serviceId : String
  planId : String
  currentPeriodStart : Option DateTime
  currentPeriodEnd : Option DateTime
  nextBillingDate : Option DateTime
  trialEndDate : Option DateTime
  cancelEffectiveDate : Option DateTime
  portalUrl : Option String
  pricing : Option FlashPricing
  policy : FlashLifecyclePolicy

/-- `decide_entitlement` on a parsed row. -/
def ParsedSubscription.decide (sub : ParsedSubscription) (now : DateTime) : EntitlementDecision :=
  decideEntitlement sub.status sub.cancelEffectiveDate sub.currentPeriodEnd now sub.policy

/-- `_whole_number`: a `bool` is not one. -/
def wholeNumber : PyValue → Option ℤ
  | .int n => some n
  | _ => none

/-- `_flag`. -/
def flag : PyValue → Option Bool
  | .bool b => some b
  | _ => none

section
variable (py : PyLib) (lib : Lib)

/-- `parse_pricing`. -/
def parsePricing : PyValue → Option FlashPricing
  | .dict raw => some
    { amountMinor := minorUnits lib (dictGet raw "amount")
      currency := text lib (dictGet raw "currency")
      billingInterval := text lib (dictGet raw "billingInterval") }
  | _ => none

/-- `parse_lifecycle_policy`. -/
def parseLifecyclePolicy (raw : PyDict) : FlashLifecyclePolicy :=
  let cancellation := (dictGet raw "cancellationPolicy").asDict
  let dunning := (dictGet raw "dunningPolicy").asDict
  { cancellationMode := text lib (dictGet cancellation "mode")
    dunningMaxAttempts := wholeNumber (dictGet dunning "maxAttempts")
    dunningAttempts := wholeNumber (dictGet raw "dunningAttempts")
    dunningCancelsAfterFinalFailure := flag (dictGet dunning "cancelAfterFinalFailure") }

/-- `parse_flash_timestamp(raw.get(key), deadline=..)`, as the moment it stands for. -/
def flashTime (raw : PyDict) (key : String) (deadline : Bool) : Except PyExn (Option DateTime) :=
  (parseFlashTimestamp py (dictGet raw key) deadline).map (·.map PyDateTime.wall)

/-- `parse_subscription`. -/
def parseSubscription (raw : PyDict) : Except PyExn ParsedSubscription := do
  let currentPeriodStart ← flashTime py raw "currentPeriodStart" false
  let currentPeriodEnd ← flashTime py raw "currentPeriodEnd" true
  let nextBillingDate ← flashTime py raw "nextBillingDate" false
  let trialEndDate ← flashTime py raw "trialEndDate" true
  let cancelEffectiveDate ← flashTime py raw "cancelEffectiveDate" true
  .ok
    { id := strOr lib (dictGet raw "id")
      status := strOr lib (dictGet raw "status")
      ref := dictGet raw "ref"
      subscriberId := dictGet raw "subscriberId"
      serviceId := strOr lib (dictGet raw "serviceId")
      planId := strOr lib (dictGet raw "planId")
      currentPeriodStart, currentPeriodEnd, nextBillingDate, trialEndDate, cancelEffectiveDate
      portalUrl := text lib (dictGet raw "portalUrl")
      pricing := parsePricing lib (dictGet raw "pricingSnapshot")
      policy := parseLifecyclePolicy lib raw }

/-- `_runs_until`. -/
def runsUntil (row : PyDict) : Except PyExn ℤ :=
  (flashTime py row "currentPeriodEnd" true).map (·.getD minDateTime)

/-- `status in ENTITLING_STATUSES`; a list or a dict has no hash. -/
def inEntitling : PyValue → Except ChooseExn Bool
  | .str s => .ok (s ∈ entitlingStatuses)
  | .list _ => .error .typeError
  | .dict _ => .error .typeError
  | _ => .ok false

/-- `[row for row in rows if row.get("status") in ENTITLING_STATUSES]`. -/
def entitlingRows : List PyDict → Except ChooseExn (List PyDict)
  | [] => .ok []
  | row :: rows => do
    let entitling ← inEntitling (dictGet row "status")
    let rows ← entitlingRows rows
    .ok (if entitling then row :: rows else rows)

/-- `max(live, key=_runs_until)`. -/
def longestRunning (live : List PyDict) : Except ChooseExn (Option PyDict) :=
  match live.mapM fun row => (runsUntil py row).map (row, ·) with
  | .error .overflowError => .error .overflowError
  | .ok keyed => .ok ((keyed.argmax Prod.snd).map Prod.fst)

/-- `[row for row in subscriptions if isinstance(row, dict)]`. -/
def dictRows (subscriptions : List PyValue) : List PyDict := subscriptions.filterMap PyValue.dict?

/-- `_choose_subscription`. -/
def chooseSubscription (subscriptions : List PyValue) : Except ChooseExn (Option PyDict) := do
  let rows := dictRows subscriptions
  if rows.isEmpty then .ok none
  else
    let live ← entitlingRows rows
    longestRunning py (if live.isEmpty then rows else live)

/-! ## What is chosen -/

/-- The status is one that entitles. -/
def statusEntitles (row : PyDict) : Bool :=
  match dictGet row "status" with
  | .str s => s ∈ entitlingStatuses
  | _ => false

/-- The status can be looked up in a set: it is neither a list nor an object. -/
def HashableStatus (row : PyDict) : Prop :=
  (∀ xs, dictGet row "status" ≠ .list xs) ∧ ∀ entries, dictGet row "status" ≠ .dict entries

/-- The choice can look at the row: its status has a hash and its period end, where
    it can be read, exists in UTC. -/
def Comparable (row : PyDict) : Prop := HashableStatus row ∧ ∃ t, runsUntil py row = .ok t

/-- The period end the choice goes by. -/
def periodEnd (row : PyDict) : ℤ :=
  match runsUntil py row with
  | .ok t => t
  | .error _ => minDateTime

/-- The decision on a row, if it can be parsed. -/
def decisionOn (now : DateTime) (row : PyDict) : Option EntitlementDecision :=
  match parseSubscription py lib row with
  | .ok sub => some (sub.decide now)
  | .error _ => none

end

section
variable {py : PyLib} {lib : Lib}

theorem inEntitling_ok {row : PyDict} {b : Bool} :
    inEntitling (dictGet row "status") = .ok b ↔ HashableStatus row ∧ b = statusEntitles row := by
  unfold HashableStatus statusEntitles
  cases dictGet row "status" with
  | str s => simp [inEntitling, eq_comm]
  | list xs => simp [inEntitling]
  | dict entries => simp [inEntitling]
  | _ => simp [inEntitling, eq_comm]

/-- The rows that entitle, unless a status has no hash. -/
theorem entitlingRows_ok {rows live : List PyDict} : entitlingRows rows = .ok live ↔
    (∀ row ∈ rows, HashableStatus row) ∧ live = rows.filter statusEntitles := by
  induction rows generalizing live with
  | nil => simp [entitlingRows, eq_comm]
  | cons row rows ih =>
    rw [entitlingRows]
    cases hrow : inEntitling (dictGet row "status") with
    | error e =>
      refine ⟨fun h => (by cases h), fun h => ?_⟩
      rw [inEntitling_ok.2 ⟨h.1 row List.mem_cons_self, rfl⟩] at hrow
      cases hrow
    | ok b =>
      obtain ⟨hhash, rfl⟩ := inEntitling_ok.1 hrow
      cases hrows : entitlingRows rows with
      | error e =>
        refine ⟨fun h => (by cases h), fun h => ?_⟩
        rw [ih.2 ⟨fun row' hrow' => h.1 row' (List.mem_cons_of_mem _ hrow'), rfl⟩] at hrows
        cases hrows
      | ok live' =>
        obtain ⟨hall, rfl⟩ := ih.1 hrows
        have hcons : ∀ row' ∈ row :: rows, HashableStatus row' := by
          simpa [hhash] using hall
        constructor
        · intro h
          cases h
          exact ⟨hcons, (List.filter_cons ..).symm⟩
        · rintro ⟨-, rfl⟩
          rw [List.filter_cons]
          rfl

theorem keyed_ok {live : List PyDict} {keyed : List (PyDict × ℤ)} :
    (live.mapM fun row => (runsUntil py row).map (row, ·)) = .ok keyed ↔
      (∀ row ∈ live, ∃ t, runsUntil py row = .ok t) ∧
        keyed = live.map fun row => (row, periodEnd py row) := by
  rw [mapM_ok]
  induction live generalizing keyed with
  | nil => simp [eq_comm]
  | cons row live ih =>
    cases keyed with
    | nil => simp
    | cons k keyed =>
      simp only [List.map_cons, List.cons.injEq, ih, List.forall_mem_cons]
      cases hr : runsUntil py row with
      | error e => simp [Except.map]
      | ok t =>
        simp only [Except.map, Except.ok.injEq, periodEnd, hr, exists_eq', true_and]
        constructor
        · rintro ⟨rfl, hall, rfl⟩
          exact ⟨hall, rfl, rfl⟩
        · rintro ⟨hall, rfl, rfl⟩
          exact ⟨rfl, hall, rfl⟩

/-- The longest running row is the first of those that end last. -/
theorem longestRunning_some {live : List PyDict} {row : PyDict}
    (h : longestRunning py live = .ok (some row)) :
    (∀ row' ∈ live, ∃ t, runsUntil py row' = .ok t) ∧
      ∃ before after, live = before ++ row :: after ∧
        (∀ row' ∈ before, periodEnd py row' < periodEnd py row) ∧
        ∀ row' ∈ after, periodEnd py row' ≤ periodEnd py row := by
  unfold longestRunning at h
  split at h
  · cases h
  · rename_i keyed hkeyed
    obtain ⟨hall, rfl⟩ := keyed_ok.1 hkeyed
    simp only [Except.ok.injEq, Option.map_eq_some_iff] at h
    obtain ⟨best, hbest, rfl⟩ := h
    obtain ⟨before, after, hsplit, hbefore, hafter⟩ := argmax_eq_some hbest
    obtain ⟨before, rest, rfl, rfl, hrest⟩ := List.map_eq_append_iff.1 hsplit
    obtain ⟨row, after, rfl, rfl, rfl⟩ := List.map_eq_cons_iff.1 hrest
    refine ⟨hall, before, after, rfl, fun row' hrow' => ?_, fun row' hrow' => ?_⟩
    · exact hbefore _ (List.mem_map_of_mem hrow')
    · exact hafter _ (List.mem_map_of_mem hrow')

theorem longestRunning_isSome {live : List PyDict} (hne : live ≠ [])
    (hall : ∀ row ∈ live, ∃ t, runsUntil py row = .ok t) :
    ∃ row, longestRunning py live = .ok (some row) := by
  unfold longestRunning
  rw [keyed_ok.2 ⟨hall, rfl⟩]
  cases hbest : (live.map fun row => (row, periodEnd py row)).argmax Prod.snd with
  | none =>
    rw [List.argmax_eq_none, List.map_eq_nil_iff] at hbest
    exact absurd hbest hne
  | some best =>
    refine ⟨best.1, ?_⟩
    dsimp only
    rw [hbest]
    rfl

/-- The choice: among the rows that entitle, or among all if there is none. -/
theorem choose_some {subscriptions : List PyValue} {chosen : PyDict} :
    chooseSubscription py subscriptions = .ok (some chosen) ↔
      (∀ row ∈ dictRows subscriptions, HashableStatus row) ∧
        longestRunning py (if ((dictRows subscriptions).filter statusEntitles).isEmpty
          then dictRows subscriptions
          else (dictRows subscriptions).filter statusEntitles) = .ok (some chosen) := by
  unfold chooseSubscription
  dsimp only
  cases hrows : dictRows subscriptions with
  | nil => simp [longestRunning, pure, Except.pure]
  | cons row rows =>
    rw [if_neg (by simp)]
    cases hlive : entitlingRows (row :: rows) with
    | error e =>
      refine ⟨fun h => (by cases h), fun h => ?_⟩
      rw [entitlingRows_ok.2 ⟨h.1, rfl⟩] at hlive
      cases hlive
    | ok live =>
      obtain ⟨hall, rfl⟩ := entitlingRows_ok.1 hlive
      exact ⟨fun h => ⟨hall, h⟩, fun h => h.2⟩

/-- What is chosen while a status entitles. -/
theorem choose_entitling {subscriptions : List PyValue} {chosen : PyDict}
    (h : chooseSubscription py subscriptions = .ok (some chosen))
    (hex : ∃ row ∈ dictRows subscriptions, statusEntitles row = true) :
    statusEntitles chosen = true := by
  obtain ⟨row, hrow, hentitles⟩ := hex
  have hne : ((dictRows subscriptions).filter statusEntitles).isEmpty = false := by
    rw [List.isEmpty_eq_false_iff]
    exact List.ne_nil_of_mem (List.mem_filter.2 ⟨hrow, hentitles⟩)
  obtain ⟨-, hlongest⟩ := choose_some.1 h
  rw [hne, if_neg Bool.false_ne_true] at hlongest
  obtain ⟨-, before, after, hsplit, -, -⟩ := longestRunning_some hlongest
  have hmem : chosen ∈ (dictRows subscriptions).filter statusEntitles := by
    rw [hsplit]
    simp
  exact (List.mem_filter.1 hmem).2

/-- What is chosen if no status entitles. -/
theorem choose_longest {subscriptions : List PyValue} {chosen : PyDict}
    (hno : ∀ row ∈ dictRows subscriptions, ¬ statusEntitles row = true) :
    chooseSubscription py subscriptions = .ok (some chosen) ↔
      (∀ row ∈ dictRows subscriptions, HashableStatus row) ∧
        longestRunning py (dictRows subscriptions) = .ok (some chosen) := by
  have hnil : (dictRows subscriptions).filter statusEntitles = [] := List.filter_eq_nil_iff.2 hno
  rw [choose_some, hnil]
  exact Iff.rfl

end

/-! ## What is hidden -/

/-- `str` of a string is that string, and `str` of anything else is no status that
    entitles. -/
structure StrOfJson (lib : Lib) : Prop where
  string : ∀ s, lib.str (.str s) = s
  other : ∀ v, (∀ s, v ≠ .str s) → lib.str v ∉ entitlingStatuses

/-- If a row of the list is granted or held, the chosen row is not revoked. -/
def NeverHides (py : PyLib) (lib : Lib) (subscriptions : List PyValue) (now : DateTime) : Prop :=
  (∃ row ∈ dictRows subscriptions,
    decisionOn py lib now row = some .grant ∨ decisionOn py lib now row = some .hold) →
  ∀ chosen, chooseSubscription py subscriptions = .ok (some chosen) →
    decisionOn py lib now chosen ≠ some .revoke

/-- The row at this place ends later than every row that is not revoked, where the
    earlier of two rows that end together counts as the later one. -/
def Outlasts (py : PyLib) (lib : Lib) (now : DateTime) (before : List PyDict) (row : PyDict)
    (after : List PyDict) : Prop :=
  (∀ row' ∈ before, decisionOn py lib now row' ≠ some .revoke → periodEnd py row' < periodEnd py row) ∧
    ∀ row' ∈ after, decisionOn py lib now row' ≠ some .revoke → periodEnd py row' ≤ periodEnd py row

section
variable {py : PyLib} {lib : Lib} {now : DateTime} {row : PyDict}

theorem parseSubscription_status {sub : ParsedSubscription}
    (h : parseSubscription py lib row = .ok sub) : sub.status = strOr lib (dictGet row "status") := by
  unfold parseSubscription at h
  obtain ⟨_, -, h⟩ := bind_ok h
  obtain ⟨_, -, h⟩ := bind_ok h
  obtain ⟨_, -, h⟩ := bind_ok h
  obtain ⟨_, -, h⟩ := bind_ok h
  obtain ⟨_, -, h⟩ := bind_ok h
  cases h
  rfl

/-- The choice and the decision agree on which statuses entitle. -/
theorem strOr_status_iff (hstr : StrOfJson lib) :
    strOr lib (dictGet row "status") ∈ entitlingStatuses ↔ statusEntitles row = true := by
  unfold strOr statusEntitles
  split_ifs with ht
  · split
    · rename_i s hs
      simp [hs, hstr.string]
    · rename_i hns
      simpa using hstr.other _ hns
  · split
    · rename_i s hs
      have hempty : s = "" := by simpa [hs, PyValue.truthy] using ht
      simp [hempty]
    · simp [entitlingStatuses]

theorem decisionOn_eq_some {d : EntitlementDecision} (h : decisionOn py lib now row = some d) :
    ∃ sub, parseSubscription py lib row = .ok sub ∧ sub.decide now = d := by
  unfold decisionOn at h
  split at h
  · rename_i sub hsub
    exact ⟨sub, hsub, Option.some.inj h⟩
  · cases h

theorem statusEntitles_of_grant (hstr : StrOfJson lib)
    (h : decisionOn py lib now row = some .grant) : statusEntitles row = true := by
  obtain ⟨sub, hsub, hd⟩ := decisionOn_eq_some h
  rw [← strOr_status_iff hstr, ← parseSubscription_status hsub]
  exact decideEntitlement_eq_grant.1 hd

theorem not_revoke_of_statusEntitles (hstr : StrOfJson lib) (h : statusEntitles row = true) :
    decisionOn py lib now row ≠ some .revoke := by
  intro hrevoke
  obtain ⟨sub, hsub, hd⟩ := decisionOn_eq_some hrevoke
  rw [← strOr_status_iff hstr, ← parseSubscription_status hsub] at h
  have hgrant : sub.decide now = .grant := decideEntitlement_eq_grant.2 h
  rw [hgrant] at hd
  cases hd

end

/-- **What the choice hides.**  For every list of rows and every time, a granted or
    held row is not hidden behind a revoked one if and only if a status entitles, or
    a row cannot be compared, or no row is held, or no revoked row outlasts the rows
    that are not revoked. -/
theorem choose_hides_iff (py : PyLib) {lib : Lib} (hstr : StrOfJson lib)
    (subscriptions : List PyValue) (now : DateTime) :
    NeverHides py lib subscriptions now ↔
      (∃ row ∈ dictRows subscriptions, statusEntitles row = true) ∨
      (∃ row ∈ dictRows subscriptions, ¬ Comparable py row) ∨
      (∀ row ∈ dictRows subscriptions, decisionOn py lib now row ≠ some .hold) ∨
      ∀ before row after, dictRows subscriptions = before ++ row :: after →
        decisionOn py lib now row = some .revoke → ¬ Outlasts py lib now before row after := by
  by_cases hent : ∃ row ∈ dictRows subscriptions, statusEntitles row = true
  · refine ⟨fun _ => Or.inl hent, fun _ _ chosen hchosen => ?_⟩
    exact not_revoke_of_statusEntitles hstr (choose_entitling hchosen hent)
  have hno : ∀ row ∈ dictRows subscriptions, ¬ statusEntitles row = true := fun row hrow h =>
    hent ⟨row, hrow, h⟩
  constructor
  · intro hnever
    by_contra hcond
    simp only [not_or, not_exists, not_and, not_forall, not_not] at hcond
    obtain ⟨-, hcomp, ⟨held, hheld, hhold⟩, before, row, after, hsplit, hrevoke, hout⟩ := hcond
    -- the choice runs through, and takes a row that is not revoked
    obtain ⟨chosen, hlongest⟩ := longestRunning_isSome (List.ne_nil_of_mem hheld)
      fun row hrow => (hcomp row hrow).2
    have hchosen := hnever ⟨held, hheld, Or.inr hhold⟩ chosen
      ((choose_longest hno).2 ⟨fun row hrow => (hcomp row hrow).1, hlongest⟩)
    obtain ⟨-, before', after', hsplit', hbefore', hafter'⟩ := longestRunning_some hlongest
    rcases split_compare (hsplit.symm.trans hsplit') with
      ⟨mid, rfl, rfl⟩ | ⟨-, rfl, -⟩ | ⟨mid, rfl, rfl⟩
    · have hout' := hout.2 chosen (by simp) hchosen
      exact absurd (hbefore' row (by simp)) (not_lt.2 hout')
    · exact hchosen hrevoke
    · have hout' := hout.1 chosen (by simp) hchosen
      exact absurd (hafter' row (by simp)) (not_le.2 hout')
  · rintro (hent' | ⟨row, hrow, hcomp⟩ | hnohold | hout) ⟨live, hlive, hd⟩ chosen hchosen hrevoke
    · exact absurd hent' hent
    · obtain ⟨hhash, hlongest⟩ := (choose_longest hno).1 hchosen
      exact hcomp ⟨hhash row hrow, (longestRunning_some hlongest).1 row hrow⟩
    · rcases hd with hgrant | hhold
      · exact hno live hlive (statusEntitles_of_grant hstr hgrant)
      · exact hnohold live hlive hhold
    · obtain ⟨-, before, after, hsplit, hbefore, hafter⟩ :=
        longestRunning_some ((choose_longest hno).1 hchosen).2
      exact hout before chosen after hsplit hrevoke
        ⟨fun row hrow _ => hbefore row hrow, fun row hrow _ => hafter row hrow⟩

/-! ## A held row behind a paused one -/

/-- A row with a status and the end of its period. -/
def rowOf (status currentPeriodEnd : String) : PyDict :=
  [("status", .str status), ("currentPeriodEnd", .str currentPeriodEnd)]

/-- The library on these rows. -/
def periodLib : PyLib where
  loads _ := none
  decode _ := ""
  fromisoformat text :=
    if text = "2025-09-01" then
      some ⟨20332 * oneDay, none, by decide, by decide, naive_offset_lt⟩
    else if text = "2025-10-01" then
      some ⟨20362 * oneDay, none, by decide, by decide, naive_offset_lt⟩
    else none
  isDate text := text = "2025-09-01" ∨ text = "2025-10-01"
  str _ := ""
  sha256 _ := ""

def statusLib : Lib where
  loads _ := .valueError
  dumps _ := ""
  str
    | .str s => s
    | .none => "None"
    | _ => ""
  int _ := none
  strip s := s
  urlsplit _ := none
  parseQsl _ := []
  urlencode _ := none
  urlunsplit _ := ""

theorem statusLib_str : StrOfJson statusLib where
  string _ := rfl
  other v hv := by
    cases v with
    | str s => exact absurd rfl (hv s)
    | none => decide
    | _ => exact (by decide : "" ∉ entitlingStatuses)

/-- The first of August 2025. -/
def august : DateTime := 20301 * oneDay

/-- **A held subscription is hidden**: the renewal that failed is still retried, the
    paused subscription ends a month later and is chosen, and it is revoked. -/
theorem heldRow_hidden :
    decisionOn periodLib statusLib august (rowOf "past_due" "2025-09-01") = some .hold ∧
      ¬ NeverHides periodLib statusLib
        [.dict (rowOf "past_due" "2025-09-01"), .dict (rowOf "paused" "2025-10-01")] august := by
  have hheld : decisionOn periodLib statusLib august (rowOf "past_due" "2025-09-01") = some .hold := by
    rfl
  refine ⟨hheld, fun h => ?_⟩
  exact h ⟨_, List.mem_cons_self, Or.inr hheld⟩ (rowOf "paused" "2025-10-01") rfl rfl

/-- If the failed renewal's period ends last, it is chosen. -/
theorem heldRow_shown :
    StrOfJson statusLib ∧ NeverHides periodLib statusLib
      [.dict (rowOf "paused" "2025-09-01"), .dict (rowOf "past_due" "2025-10-01")] august := by
  refine ⟨statusLib_str, (choose_hides_iff periodLib statusLib_str _ _).2 ?_⟩
  refine Or.inr (Or.inr (Or.inr ?_))
  intro before row after hsplit hrevoke hout
  have hrows : [rowOf "paused" "2025-09-01", rowOf "past_due" "2025-10-01"] =
      before ++ row :: after := hsplit
  have hheld : decisionOn periodLib statusLib august (rowOf "past_due" "2025-10-01") = some .hold := by
    rfl
  cases before with
  | nil =>
    simp only [List.nil_append, List.cons.injEq] at hrows
    obtain ⟨rfl, rfl⟩ := hrows
    have hends := hout.2 (rowOf "past_due" "2025-10-01") List.mem_cons_self (by simp [hheld])
    revert hends
    decide
  | cons row' before =>
    cases before with
    | nil =>
      simp only [List.cons_append, List.nil_append, List.cons.injEq] at hrows
      obtain ⟨-, rfl, -⟩ := hrows
      rw [hheld] at hrevoke
      cases hrevoke
    | cons row'' before => simp at hrows

end BrainstormServer
