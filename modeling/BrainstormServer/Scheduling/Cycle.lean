/-
  A cycle of the scheduler (`app/services/scheduler.py`, `app/repos/scheduler_repo.py`,
  `_run_cycle` of `app/cronjobs/scheduler.py`).

  Whoever is overdue waits in a lane, by the priority of its policy.  A pass of the cycle
  chooses a lane among those in which somebody waits, and the choice divides by their weights.

  * `active_initial`: the lanes are the priorities of those who are overdue;
  * `Lawful`, `lawful_pass`: a pass only empties lanes;
  * `never_divides_by_zero`: whatever is overdue, no choice divides by zero if and only if no
    set of enabled policies has weights that sum to zero.
-/
import BrainstormServer.Scheduling.Admission
import BrainstormServer.Scheduling.Default
import Mathlib.Algebra.Order.Ring.WithTop
import Mathlib.Logic.Denumerable

namespace BrainstormServer

namespace Admission

open Policies (Scheduling)

/-! ## Candidates -/

structure SchedulerCandidate where
  pubkey : String
  priority : ℤ
  intervalSeconds : ℤ
  lastPublished : Option ℚ
  lastFailedAt : Option ℚ
  enabled : Bool
  deriving DecidableEq

/-- `RETRY_BACKOFF_SECONDS`. -/
def retryBackoffSeconds : ℤ := 3600

/-- `admission_budget`. -/
def admissionBudget (target inflight : ℤ) (interactiveInFlight : Bool) : ℤ :=
  if interactiveInFlight then 0 else max 0 (target - inflight)

/-- `is_overdue`; times are in seconds. -/
def isOverdue (candidate : SchedulerCandidate) (now : ℚ) : Bool :=
  match candidate.lastPublished with
  | none => true
  | some lastPublished => (candidate.intervalSeconds : ℚ) ≤ now - lastPublished

/-- `_overdue_seconds`. -/
def overdueSeconds (candidate : SchedulerCandidate) (now : ℚ) : WithTop ℚ :=
  match candidate.lastPublished with
  | none => ⊤
  | some lastPublished => (now - lastPublished : ℚ)

/-- `_in_retry_backoff`. -/
def inRetryBackoff (candidate : SchedulerCandidate) (now : ℚ) (backoff : ℤ) : Bool :=
  match candidate.lastFailedAt with
  | none => false
  | some lastFailedAt => now - lastFailedAt < backoff

/-- The order of `sorted(…, key=(priority, _overdue_seconds), reverse=True)`. -/
def Outranks (now : ℚ) (a b : SchedulerCandidate) : Prop :=
  b.priority < a.priority ∨ (a.priority = b.priority ∧ overdueSeconds b now ≤ overdueSeconds a now)

instance (now : ℚ) : DecidableRel (Outranks now) := fun _ _ => inferInstanceAs (Decidable (_ ∨ _))

/-- `rank_overdue_candidates`. -/
def rankOverdueCandidates (candidates : List SchedulerCandidate) (now : ℚ) : List SchedulerCandidate :=
  sortBy (Outranks now) (candidates.filter fun c =>
    c.enabled && isOverdue c now && !inRetryBackoff c now retryBackoffSeconds)

/-! ## Policies and users -/

/-- What `CreateSchedulingBody` and `UpdateSchedulingBody` let through. -/
def bounded (row : Scheduling) : Bool :=
  1 ≤ row.name.length && 0 < row.scheduleIntervalSeconds && 1 ≤ row.manualQuotaLimit &&
    0 < row.manualQuotaWindowSeconds

/-- The rows of `scheduling`, under their ids. -/
structure Catalog where
  rows : List (ℕ × Scheduling)
  /-- the primary key -/
  ids : (rows.map Prod.fst).Nodup
  /-- every row came through the API -/
  bounds : ∀ row ∈ rows, bounded row.2 = true

/-- `get_default_scheduling_on_db`. -/
def Catalog.default (catalog : Catalog) : Option Scheduling := (catalog.rows.find? (·.2.isDefault)).map (·.2)

/-- A row of `brainstorm_nsec`, with what its requests tell. -/
structure User where
  pubkey : String
  schedulingId : Option ℕ
  lastTimePublishedGraperank : Option ℚ
  lastFailedAt : Option ℚ
  inFlight : Bool

/-- `load_scheduler_candidates_on_db`. -/
def loadSchedulerCandidates (catalog : Catalog) (users : List User) (platformPubkey : String)
    (default : Scheduling) : List SchedulerCandidate :=
  (users.filter fun user => user.pubkey ≠ platformPubkey && !user.inFlight).map fun user =>
    let policy := user.schedulingId.bind fun id => catalog.rows.lookup id
    { pubkey := user.pubkey
      priority := (policy.map (·.priority)).getD default.priority
      intervalSeconds := (policy.map (·.scheduleIntervalSeconds)).getD default.scheduleIntervalSeconds
      lastPublished := user.lastTimePublishedGraperank
      lastFailedAt := user.lastFailedAt
      enabled := (policy.map (·.enabled)).getD default.enabled }

/-! ## The cycle -/

/-- The queues, under their priorities. -/
abbrev Lanes := List (ℤ × List SchedulerCandidate)

/-- `lanes.setdefault(candidate.priority, []).append(candidate)`, for each. -/
def lanesOf (ranked : List SchedulerCandidate) : Lanes :=
  Conc.tabulate SchedulerCandidate.priority [] (fun queue candidate => queue ++ [candidate]) [] ranked

/-- The loop's variables. -/
structure State where
  lanes : Lanes
  /-- `_admitted_counts` -/
  counts : Counts
  enqueued : ℤ
  /-- for whom a run was requested -/
  requested : List String
  deriving DecidableEq

/-- `[p for p, queue in lanes.items() if queue]` -/
def State.active (st : State) : List ℤ := (st.lanes.filter (·.2 ≠ [])).map Prod.fst

/-- `enqueued < budget and any(lanes.values())` -/
def State.running (st : State) (budget : ℤ) : Bool := st.enqueued < budget && st.lanes.any (·.2 ≠ [])

section
variable {K : Type} [LinearOrder K] (A : Arith K) (fairness : Bool) (hasGrapevine : String → Bool)

/-- The lane of a pass. -/
def nextLane (st : State) : Except LaneError ℤ :=
  if fairness then chooseAdmissionLane A st.active st.counts
  else match Conc.greatest (fun p q => p < q) st.active with
    | none => .error .valueError
    | some lane => .ok lane

/-- A pass of the loop. -/
def pass (st : State) : Except LaneError State := do
  let lane ← nextLane A fairness st
  match st.lanes.lookup lane with
  | some (candidate :: queue) =>
    let lanes := dictSet st.lanes lane queue
    if hasGrapevine candidate.pubkey then
      return ⟨lanes, dictSet st.counts lane (admitted st.counts lane + 1), st.enqueued + 1,
        st.requested ++ [candidate.pubkey]⟩
    else return { st with lanes := lanes }
  | _ => .error .lookupError

/-- The loop; a pass takes somebody out of a lane, so there are no more than were in them. -/
def loop (budget : ℤ) : ℕ → State → Except LaneError State
  | 0, st => .ok st
  | fuel + 1, st => if st.running budget then do loop budget fuel (← pass A fairness hasGrapevine st) else .ok st

end

/-- What a cycle finds: the settings, the database, the clock and the counts so far. -/
structure Situation where
  target : ℤ
  fairness : Bool
  inflight : ℤ
  interactive : Bool
  users : List User
  /-- one row a user -/
  pubkeys : (users.map (·.pubkey)).Nodup
  platformPubkey : String
  now : ℚ
  counts : Counts
  hasGrapevine : String → Bool

def Situation.budget (sit : Situation) : ℤ := admissionBudget sit.target sit.inflight sit.interactive

/-- Who is overdue, in order. -/
def Situation.ranked (sit : Situation) (catalog : Catalog) (default : Scheduling) : List SchedulerCandidate :=
  rankOverdueCandidates (loadSchedulerCandidates catalog sit.users sit.platformPubkey default) sit.now

/-- Before the loop. -/
def Situation.initial (sit : Situation) (catalog : Catalog) (default : Scheduling) : State :=
  ⟨lanesOf (sit.ranked catalog default), sit.counts, 0, []⟩

section
variable {K : Type} [LinearOrder K] (A : Arith K) (catalog : Catalog) (sit : Situation)

/-- `_run_cycle`, with the loop's variables at its end. -/
def runCycle : Except LaneError State :=
  if sit.budget ≤ 0 then .ok ⟨[], sit.counts, 0, []⟩
  else match catalog.default with
    | none => .ok ⟨[], sit.counts, 0, []⟩
    | some default => loop A sit.fairness sit.hasGrapevine sit.budget (sit.ranked catalog default).length
        (sit.initial catalog default)

/-- The states of a cycle in which its loop goes on. -/
inductive Looping : State → Prop
  | start {default : Scheduling} (hdefault : catalog.default = some default)
      (hrun : (sit.initial catalog default).running sit.budget = true) : Looping (sit.initial catalog default)
  | pass {st st' : State} (before : Looping st) (hpass : pass A sit.fairness sit.hasGrapevine st = .ok st')
      (hrun : st'.running sit.budget = true) : Looping st'

end

/-! ## Lanes and queues -/

section
variable {st : State} {ranked : List SchedulerCandidate}

/-- How many wait. -/
def waiting (lanes : Lanes) : ℕ := (lanes.map fun lane => lane.2.length).sum

theorem waiting_dictSet (lanes : Lanes) (p : ℤ) (queue : List SchedulerCandidate) :
    waiting (dictSet lanes p queue) + ((lanes.lookup p).getD []).length = waiting lanes + queue.length := by
  induction lanes with
  | nil => simp [dictSet, waiting]
  | cons lane lanes ih =>
    obtain ⟨p', queue'⟩ := lane
    rw [dictSet, lookup_cons_eq]
    by_cases hp : p' = p
    · rw [if_pos hp, if_pos hp.symm]
      simp only [waiting, List.map_cons, List.sum_cons, Option.getD_some]
      omega
    · rw [if_neg hp, if_neg (Ne.symm hp)]
      simp only [waiting, List.map_cons, List.sum_cons] at ih ⊢
      omega

/-- Nobody who is overdue is left out of the lanes. -/
theorem waiting_lanesOf (ranked : List SchedulerCandidate) : waiting (lanesOf ranked) = ranked.length := by
  have hfold : ∀ (rows : List SchedulerCandidate) (lanes : Lanes),
      waiting (Conc.tabulate SchedulerCandidate.priority [] (fun queue candidate => queue ++ [candidate]) lanes rows) =
        waiting lanes + rows.length := by
    intro rows
    induction rows with
    | nil => exact fun lanes => rfl
    | cons row rows ih =>
      intro lanes
      have hrow := waiting_dictSet lanes row.priority ((lanes.lookup row.priority).getD [] ++ [row])
      rw [List.length_append, List.length_singleton] at hrow
      rw [Conc.tabulate, List.foldl_cons]
      refine (ih _).trans ?_
      rw [List.length_cons]
      omega
  exact (hfold ranked []).trans (Nat.zero_add _)

theorem mem_active {p : ℤ} : p ∈ st.active ↔ ∃ queue, (p, queue) ∈ st.lanes ∧ queue ≠ [] := by
  simp [State.active]

/-- The loop goes on while a lane is active. -/
theorem active_ne_nil {budget : ℤ} (h : st.running budget = true) : st.active ≠ [] := by
  obtain ⟨-, hany⟩ := Bool.and_eq_true_iff.1 h
  obtain ⟨⟨p, queue⟩, hmem, hne⟩ := List.any_eq_true.1 hany
  exact List.ne_nil_of_mem (mem_active.2 ⟨queue, hmem, of_decide_eq_true hne⟩)

theorem running_of_active {budget : ℤ} (hbudget : st.enqueued < budget) (h : st.active ≠ []) :
    st.running budget = true := by
  obtain ⟨p, hp⟩ := List.exists_mem_of_ne_nil _ h
  obtain ⟨queue, hmem, hne⟩ := mem_active.1 hp
  exact Bool.and_eq_true_iff.2 ⟨decide_eq_true hbudget, List.any_eq_true.2 ⟨_, hmem, decide_eq_true hne⟩⟩

theorem nodup_lanesOf (ranked : List SchedulerCandidate) : ((lanesOf ranked).map Prod.fst).Nodup :=
  Conc.nodup_keys_tabulate List.nodup_nil

theorem mem_keys_lanesOf {p : ℤ} : p ∈ (lanesOf ranked).map Prod.fst ↔ ∃ c ∈ ranked, c.priority = p := by
  rw [lanesOf, Conc.mem_keys_tabulate, List.mem_map]
  simp

/-- **At first the active lanes are the priorities of those who are overdue.** -/
theorem mem_active_initial {p : ℤ} {counts : Counts} :
    p ∈ (⟨lanesOf ranked, counts, 0, []⟩ : State).active ↔ ∃ c ∈ ranked, c.priority = p := by
  rw [← mem_keys_lanesOf, mem_active]
  constructor
  · rintro ⟨queue, hmem, -⟩
    exact List.mem_map_of_mem hmem
  · intro hp
    obtain ⟨⟨p, queue⟩, hmem, rfl⟩ := List.mem_map.1 hp
    obtain ⟨c, hc, hpriority⟩ := mem_keys_lanesOf.1 hp
    have hgroup := Conc.lookup_group SchedulerCandidate.priority (fun c => c) p ranked
    rw [List.map_id'] at hgroup
    have hqueue : queue = ranked.filter (·.priority = p) := by
      rw [← hgroup]
      exact (congrArg (fun q => q.getD []) (Conc.lookup_of_mem (nodup_lanesOf ranked) hmem)).symm
    refine ⟨queue, hmem, hqueue ▸ List.ne_nil_of_mem (List.mem_filter.2 ⟨hc, decide_eq_true hpriority⟩)⟩

end

/-! ## Passes -/

section
variable {K : Type} [LinearOrder K] {A : Arith K} {fairness : Bool} {hasGrapevine : String → Bool}
  {st st' : State}

/-- **A pass** takes somebody from a lane; a run is requested, or not. -/
theorem pass_cases (h : pass A fairness hasGrapevine st = .ok st') : ∃ lane candidate queue,
    st.lanes.lookup lane = some (candidate :: queue) ∧ st'.lanes = dictSet st.lanes lane queue := by
  unfold pass at h
  obtain ⟨lane, -, h⟩ := bind_ok h
  cases hqueue : st.lanes.lookup lane with
  | none => rw [hqueue] at h; cases h
  | some queue =>
    cases queue with
    | nil => rw [hqueue] at h; cases h
    | cons candidate queue =>
      rw [hqueue] at h
      refine ⟨lane, candidate, queue, hqueue, ?_⟩
      dsimp only at h
      split_ifs at h
      · cases h
        rfl
      · cases h
        rfl

theorem waiting_pass (h : pass A fairness hasGrapevine st = .ok st') :
    waiting st'.lanes + 1 = waiting st.lanes := by
  obtain ⟨lane, candidate, queue, hqueue, hlanes⟩ := pass_cases h
  have hwaiting := waiting_dictSet st.lanes lane queue
  rw [hqueue, Option.getD_some, List.length_cons] at hwaiting
  rw [hlanes]
  omega

/-- The lanes are those of the priorities `P`, each once. -/
structure Lawful (P : ℤ → Prop) (st : State) : Prop where
  nodup : (st.lanes.map Prod.fst).Nodup
  lane : ∀ p ∈ st.lanes.map Prod.fst, P p

theorem Lawful.active {P : ℤ → Prop} (h : Lawful P st) : st.active.Nodup ∧ ∀ p ∈ st.active, P p := by
  have hsub : st.active.Sublist (st.lanes.map Prod.fst) := List.filter_sublist.map _
  exact ⟨h.nodup.sublist hsub, fun p hp => h.lane p (hsub.subset hp)⟩

/-- **A pass opens no lane.** -/
theorem Lawful.pass {P : ℤ → Prop} (h : Lawful P st) (hpass : pass A fairness hasGrapevine st = .ok st') :
    Lawful P st' := by
  obtain ⟨lane, candidate, queue, hqueue, hlanes⟩ := pass_cases hpass
  have hkeys : st'.lanes.map Prod.fst = st.lanes.map Prod.fst := by
    rw [hlanes, keys_dictSet, if_pos (List.mem_map_of_mem (Conc.mem_of_lookup hqueue))]
  exact ⟨hkeys ▸ h.nodup, hkeys ▸ h.lane⟩

/-- A pass that finds a lane goes through. -/
theorem exists_pass {P : ℤ → Prop} {lane : ℤ} (h : Lawful P st) (hlane : nextLane A fairness st = .ok lane)
    (hactive : lane ∈ st.active) : ∃ st', pass A fairness hasGrapevine st = .ok st' := by
  obtain ⟨queue, hmem, hne⟩ := mem_active.1 hactive
  obtain ⟨candidate, queue, rfl⟩ := List.exists_cons_of_ne_nil hne
  have hlookup : st.lanes.lookup lane = some (candidate :: queue) := Conc.lookup_of_mem h.nodup hmem
  unfold pass
  simp only [hlane, bind, Except.bind, hlookup]
  split_ifs
  · exact ⟨_, rfl⟩
  · exact ⟨_, rfl⟩

/-- Without fairness, the highest lane. -/
theorem nextLane_strict (hne : st.active ≠ []) : ∃ lane ∈ st.active, nextLane A false st = .ok lane := by
  obtain ⟨lane, hlane⟩ := Conc.exists_greatest (r := fun p q : ℤ => p < q) hne
  refine ⟨lane, Conc.greatest_mem hlane, ?_⟩
  rw [nextLane, if_neg Bool.false_ne_true, hlane]

/-- **With enough passes the loop comes to its end**, when a lane is found each time. -/
theorem exists_loop {P : ℤ → Prop} {budget : ℤ}
    (hfound : ∀ st : State, Lawful P st → st.running budget = true →
      ∃ lane ∈ st.active, nextLane A fairness st = .ok lane) :
    ∀ (fuel : ℕ) (st : State), Lawful P st → waiting st.lanes ≤ fuel →
      ∃ final, loop A fairness hasGrapevine budget fuel st = .ok final ∧ final.running budget = false := by
  intro fuel
  induction fuel with
  | zero =>
    intro st hst hfuel
    refine ⟨st, rfl, Bool.eq_false_iff.2 fun hrun => ?_⟩
    obtain ⟨lane, hlane, hnext⟩ := hfound st hst hrun
    obtain ⟨st', hpass⟩ : ∃ st', pass A fairness hasGrapevine st = .ok st' := exists_pass hst hnext hlane
    have hwaiting := waiting_pass hpass
    omega
  | succ fuel ih =>
    intro st hst hfuel
    rw [loop]
    cases hrun : st.running budget with
    | false => exact ⟨st, if_neg Bool.false_ne_true, hrun⟩
    | true =>
      obtain ⟨lane, hlane, hnext⟩ := hfound st hst hrun
      obtain ⟨st', hpass⟩ : ∃ st', pass A fairness hasGrapevine st = .ok st' := exists_pass hst hnext hlane
      have hwaiting := waiting_pass hpass
      obtain ⟨final, hfinal, hend⟩ := ih st' (hst.pass hpass) (by omega)
      refine ⟨final, ?_, hend⟩
      rw [if_pos rfl, hpass]
      exact hfinal

end

/-! ## Every cycle -/

section
variable {K : Type} [LinearOrder K] {A : Arith K} {catalog : Catalog} {sit : Situation} {default : Scheduling}

/-- The priorities of the enabled policies. -/
def EnabledPriority (catalog : Catalog) (p : ℤ) : Prop :=
  ∃ row ∈ catalog.rows, row.2.enabled = true ∧ row.2.priority = p

/-- Whoever is overdue is on an enabled policy. -/
theorem enabled_of_ranked (hdefault : catalog.default = some default) {c : SchedulerCandidate}
    (hc : c ∈ sit.ranked catalog default) : EnabledPriority catalog c.priority := by
  obtain ⟨hmem, hkeep⟩ := List.mem_filter.1 (Conc.mem_sortBy.1 hc)
  obtain ⟨user, -, rfl⟩ := List.mem_map.1 hmem
  simp only [Bool.and_eq_true] at hkeep
  obtain ⟨⟨henabled, -⟩, -⟩ := hkeep
  dsimp only at henabled ⊢
  cases hpolicy : user.schedulingId.bind fun id => catalog.rows.lookup id with
  | none =>
    obtain ⟨row, hrow, rfl⟩ := Option.map_eq_some_iff.1 hdefault
    rw [hpolicy] at henabled
    exact ⟨row, List.mem_of_find?_eq_some hrow, henabled, rfl⟩
  | some policy =>
    obtain ⟨id, -, hlookup⟩ := Option.bind_eq_some_iff.1 hpolicy
    rw [hpolicy] at henabled
    exact ⟨(id, policy), Conc.mem_of_lookup hlookup, henabled, rfl⟩

theorem lawful_initial (hdefault : catalog.default = some default) :
    Lawful (EnabledPriority catalog) (sit.initial catalog default) := by
  refine ⟨nodup_lanesOf _, fun p hp => ?_⟩
  obtain ⟨c, hc, rfl⟩ := mem_keys_lanesOf.1 hp
  exact enabled_of_ranked hdefault hc

theorem Looping.lawful {st : State} (h : Looping A catalog sit st) : Lawful (EnabledPriority catalog) st := by
  induction h with
  | start hdefault _ => exact lawful_initial hdefault
  | pass _ hpass _ ih => exact ih.pass hpass

theorem Looping.running {st : State} (h : Looping A catalog sit st) : st.running sit.budget = true := by
  cases h with
  | start _ hrun => exact hrun
  | pass _ _ hrun => exact hrun

theorem Looping.exists_default {st : State} (h : Looping A catalog sit st) :
    ∃ default, catalog.default = some default := by
  induction h with
  | start hdefault _ => exact ⟨_, hdefault⟩
  | pass _ _ _ ih => exact ih

/-- No enabled policies have weights that sum to zero. -/
def NoZeroSum (catalog : Catalog) : Prop :=
  ∀ priorities : Finset ℤ, priorities.Nonempty → (∀ p ∈ priorities, EnabledPriority catalog p) →
    ∑ p ∈ priorities, (p + 1) ≠ 0

theorem totalWeight_eq {active : List ℤ} (hnodup : active.Nodup) :
    totalWeight active = ∑ p ∈ active.toFinset, (p + 1) :=
  (List.sum_toFinset _ hnodup).symm

/-- Where none have, a lane is chosen whenever somebody waits. -/
theorem chosen_of_noZeroSum (hsum : NoZeroSum catalog) {st : State} (hst : Lawful (EnabledPriority catalog) st)
    (hne : st.active ≠ []) : totalWeight st.active ≠ 0 ∧
      ∃ lane ∈ st.active, chooseAdmissionLane A st.active st.counts = .ok lane := by
  obtain ⟨hnodup, hlanes⟩ := hst.active
  have hweight : totalWeight st.active ≠ 0 := by
    rw [totalWeight_eq hnodup]
    exact hsum _ (List.toFinset_nonempty_iff _ |>.2 hne) fun p hp => hlanes p (List.mem_toFinset.1 hp)
  obtain ⟨lane, hlane, hchosen, -⟩ := chooseAdmissionLane_ok A st.counts hne hweight
  exact ⟨hweight, lane, hlane, hchosen⟩

/-- A user for each priority. -/
def userName (p : ℤ) : String := String.ofList (List.replicate (Encodable.encode p + 1) 'u')

theorem length_userName (p : ℤ) : (userName p).length = Encodable.encode p + 1 := by
  rw [userName, String.length_ofList, List.length_replicate]

theorem userName_injective : Function.Injective userName := by
  intro p q h
  have hlength := congrArg String.length h
  rw [length_userName, length_userName] at hlength
  exact Encodable.encode_injective (Nat.succ.inj hlength)

/-- **Any enabled policies can be those whose users are overdue**, one user each. -/
theorem exists_overdue (default : Scheduling) (priorities : Finset ℤ)
    (henabled : ∀ p ∈ priorities, EnabledPriority catalog p) : ∃ sit : Situation, sit.fairness = true ∧
      sit.budget = 1 ∧ ∀ p, (∃ c ∈ sit.ranked catalog default, c.priority = p) ↔ p ∈ priorities := by
  have hpolicy : ∀ p ∈ priorities, ∃ id policy, catalog.rows.lookup id = some policy ∧ policy.enabled = true ∧
      policy.priority = p := by
    intro p hp
    obtain ⟨row, hrow, hrowEnabled, hpriority⟩ := henabled p hp
    exact ⟨row.1, row.2, Conc.lookup_of_mem catalog.ids hrow, hrowEnabled, hpriority⟩
  have : Nonempty Scheduling := ⟨default⟩
  choose! id policy hlookup hon hpriority using hpolicy
  have hnames : ((priorities.toList.map fun p => (⟨userName p, some (id p), none, none, false⟩ : User)).map
      (·.pubkey)).Nodup := by
    rw [List.map_map]
    exact priorities.nodup_toList.map userName_injective
  refine ⟨⟨1, true, 0, false, _, hnames, "", 0, [], fun _ => true⟩, rfl, rfl, fun p => ?_⟩
  have hne : ∀ p, userName p ≠ "" := by
    intro p h
    have hlength := congrArg String.length h
    rw [length_userName] at hlength
    exact absurd hlength (Nat.succ_ne_zero _)
  constructor
  · rintro ⟨c, hc, rfl⟩
    obtain ⟨hmem, -⟩ := List.mem_filter.1 (Conc.mem_sortBy.1 hc)
    obtain ⟨user, huser, rfl⟩ := List.mem_map.1 hmem
    obtain ⟨p, hp, rfl⟩ := List.mem_map.1 (List.mem_of_mem_filter huser)
    rw [Finset.mem_toList] at hp
    simpa [hlookup p hp, hpriority p hp] using hp
  · intro hp
    refine ⟨⟨userName p, p, (policy p).scheduleIntervalSeconds, none, none, true⟩, ?_, rfl⟩
    refine Conc.mem_sortBy.2 (List.mem_filter.2 ⟨List.mem_map.2
      ⟨⟨userName p, some (id p), none, none, false⟩, List.mem_filter.2 ⟨?_, ?_⟩, ?_⟩, ?_⟩)
    · exact List.mem_map.2 ⟨p, Finset.mem_toList.2 hp, rfl⟩
    · simpa using hne p
    · simp [hlookup p hp, hpriority p hp, hon p hp]
    · simp [isOverdue, inRetryBackoff]

/-- **Admission never divides by zero** if and only if no enabled policies have weights that sum
    to zero: then whenever a lane is chosen, one of the active lanes is, and the cycle goes on
    until it has no budget left or nobody waits. -/
theorem never_divides_by_zero (A : Arith K) (catalog : Catalog) :
    ((∀ sit st, sit.fairness = true → Looping A catalog sit st →
        totalWeight st.active ≠ 0 ∧ ∃ lane ∈ st.active, chooseAdmissionLane A st.active st.counts = .ok lane) ∧
      ∀ sit, ∃ st, runCycle A catalog sit = .ok st ∧ st.running sit.budget = false) ↔
    (catalog.default = none ∨ ∀ priorities : Finset ℤ, priorities.Nonempty →
      (∀ p ∈ priorities, ∃ row ∈ catalog.rows, row.2.enabled = true ∧ row.2.priority = p) →
      ∑ p ∈ priorities, (p + 1) ≠ 0) := by
  constructor
  · rintro ⟨hchosen, -⟩
    cases hdefault : catalog.default with
    | none => exact Or.inl rfl
    | some default =>
      refine Or.inr fun priorities hne henabled hzero => ?_
      obtain ⟨sit, hfair, hbudget, hranked⟩ := exists_overdue default priorities henabled
      -- at the start these are the active lanes
      have hactive : ∀ p, p ∈ (sit.initial catalog default).active ↔ p ∈ priorities :=
        fun p => mem_active_initial.trans (hranked p)
      obtain ⟨p, hp⟩ := hne
      have hrun : (sit.initial catalog default).running sit.budget = true := by
        rw [hbudget]
        exact running_of_active (by decide : (0 : ℤ) < 1) (List.ne_nil_of_mem ((hactive p).2 hp))
      refine (hchosen sit _ hfair (.start hdefault hrun)).1 ?_
      rw [totalWeight_eq (lawful_initial hdefault).active.1, ← hzero]
      congr 1
      ext q
      rw [List.mem_toFinset, hactive]
  · intro hcondition
    have hsum : ∀ default, catalog.default = some default → NoZeroSum catalog := by
      intro default hdefault
      exact hcondition.resolve_left (by simp [hdefault])
    constructor
    · intro sit st _ hst
      obtain ⟨default, hdefault⟩ := hst.exists_default
      exact chosen_of_noZeroSum (hsum default hdefault) hst.lawful (active_ne_nil hst.running)
    · intro sit
      unfold runCycle
      split_ifs with hbudget
      · exact ⟨_, rfl, Bool.and_false _⟩
      · cases hdefault : catalog.default with
        | none => exact ⟨_, rfl, Bool.and_false _⟩
        | some default =>
          refine exists_loop (fun st hst hrun => ?_) _ _ (lawful_initial hdefault) (waiting_lanesOf _).le
          have hne := active_ne_nil hrun
          cases hfair : sit.fairness with
          | false => exact nextLane_strict hne
          | true => exact (chosen_of_noZeroSum (hsum default hdefault) hst hne).2

end

/-- The default policy, of priority -1. -/
def idlePolicy : Scheduling := ⟨"Idle", 3600, -1, true, true, false, false, 20, 604800⟩

def idleCatalog : Catalog where
  rows := [(1, idlePolicy)]
  ids := List.nodup_singleton 1
  bounds := by decide

/-- One user has never been published. -/
def idleSituation : Situation where
  target := 1
  fairness := true
  inflight := 0
  interactive := false
  users := [⟨"alice", none, none, none, false⟩]
  pubkeys := List.nodup_singleton "alice"
  platformPubkey := "platform"
  now := 0
  counts := []
  hasGrapevine _ := true

/-- Before its loop. -/
def idleStart : State := idleSituation.initial idleCatalog idlePolicy

/-- The weight of that policy is zero, and the cycle stops at it. -/
theorem idlePolicy_divides :
    Looping exact idleCatalog idleSituation idleStart ∧ totalWeight idleStart.active = 0 ∧
      chooseAdmissionLane exact idleStart.active idleStart.counts = .error .zeroDivisionError ∧
      runCycle exact idleCatalog idleSituation = .error .zeroDivisionError := by
  have hactive : idleStart.active = [-1] := by decide
  have hzero : totalWeight idleStart.active = 0 := by
    rw [hactive]
    decide
  have hchosen : chooseAdmissionLane exact idleStart.active idleStart.counts = .error .zeroDivisionError :=
    chooseAdmissionLane_zero (hactive ▸ List.cons_ne_nil _ _) hzero
  exact ⟨.start rfl (by decide), hzero, hchosen, rfl⟩

end Admission

end BrainstormServer
