/-
  For whom a cycle of the scheduler requests a run (`_run_cycle` of `app/cronjobs/scheduler.py`).

  A pass takes the first of a lane, and asks for a run if there is a grapevine to score.

  * `Popped`: who was taken out of the lanes so far, and what was done about it;
  * `Popped.pass`, `popped_loop`: a pass takes one more, and at the end no budget is left or
    nobody waits;
  * `Ahead`: without fairness, those who were taken are the first of all that are overdue;
  * `cycle_requests`: so a cycle requests as many runs as there is budget for, of each lane
    the most overdue, and without fairness of the highest lanes.
-/
import BrainstormServer.Scheduling.Cycle
import Mathlib.Data.List.Perm.Subperm

namespace BrainstormServer

namespace Admission

open Policies (Scheduling)

section
variable {K : Type} [LinearOrder K] {A : Arith K} {fairness : Bool} {hasGrapevine : String → Bool} {st st' : State}
  {ranked taken : List SchedulerCandidate} {counts : Counts} {budget : ℤ}

/-- Those of a lane. -/
abbrev ofLane (p : ℤ) (l : List SchedulerCandidate) : List SchedulerCandidate := l.filter (·.priority = p)

/-- Those who have somebody to score. -/
abbrev withGrapevine (hasGrapevine : String → Bool) (l : List SchedulerCandidate) : List SchedulerCandidate :=
  l.filter fun c => hasGrapevine c.pubkey

theorem ofLane_snoc (p : ℤ) (l : List SchedulerCandidate) (c : SchedulerCandidate) :
    ofLane p (l ++ [c]) = ofLane p l ++ if c.priority = p then [c] else [] := by
  simp [ofLane, List.filter_append, List.filter_singleton]

variable (hasGrapevine) in
theorem withGrapevine_snoc (l : List SchedulerCandidate) (c : SchedulerCandidate) :
    withGrapevine hasGrapevine (l ++ [c]) =
      withGrapevine hasGrapevine l ++ if hasGrapevine c.pubkey then [c] else [] := by
  simp [withGrapevine, List.filter_append, List.filter_singleton]

/-! ## Passes -/

/-- Those who were `taken` are missing from the front of their lanes, and a run was requested for
    each who has a grapevine. -/
structure Popped (hasGrapevine : String → Bool) (ranked : List SchedulerCandidate) (counts : Counts)
    (taken : List SchedulerCandidate) (st : State) : Prop where
  lane : ∀ p, ofLane p ranked = ofLane p taken ++ (st.lanes.lookup p).getD []
  requested : st.requested = (withGrapevine hasGrapevine taken).map (·.pubkey)
  enqueued : st.enqueued = (withGrapevine hasGrapevine taken).length
  counts : ∀ p, admitted st.counts p = admitted counts p + (ofLane p (withGrapevine hasGrapevine taken)).length

theorem popped_initial : Popped hasGrapevine ranked counts [] ⟨lanesOf ranked, counts, 0, []⟩ where
  lane := fun p => by
    have hgroup := Conc.lookup_group SchedulerCandidate.priority (fun c => c) p ranked
    rw [List.map_id'] at hgroup
    exact hgroup.symm
  requested := rfl
  enqueued := rfl
  counts := fun p => rfl

/-- **What a pass does**: it takes the first of the lane that comes next. -/
theorem pass_spec (h : pass A fairness hasGrapevine st = .ok st') : ∃ lane candidate queue,
    nextLane A fairness st = .ok lane ∧ st.lanes.lookup lane = some (candidate :: queue) ∧
    st'.lanes = dictSet st.lanes lane queue ∧
    if hasGrapevine candidate.pubkey then
      st'.counts = dictSet st.counts lane (admitted st.counts lane + 1) ∧ st'.enqueued = st.enqueued + 1 ∧
        st'.requested = st.requested ++ [candidate.pubkey]
    else st'.counts = st.counts ∧ st'.enqueued = st.enqueued ∧ st'.requested = st.requested := by
  unfold pass at h
  obtain ⟨lane, hlane, h⟩ := bind_ok h
  cases hqueue : st.lanes.lookup lane with
  | none => rw [hqueue] at h; cases h
  | some queue =>
    cases queue with
    | nil => rw [hqueue] at h; cases h
    | cons candidate queue =>
      rw [hqueue] at h
      refine ⟨lane, candidate, queue, hlane, hqueue, ?_⟩
      dsimp only at h
      split_ifs at h ⊢
      · cases h
        exact ⟨rfl, rfl, rfl, rfl⟩
      · cases h
        exact ⟨rfl, rfl, rfl, rfl⟩

/-- Whoever waits in a lane is of its priority. -/
theorem Popped.mem_lane (h : Popped hasGrapevine ranked counts taken st) {lane : ℤ} {c : SchedulerCandidate}
    {queue : List SchedulerCandidate} (hqueue : st.lanes.lookup lane = some queue) (hc : c ∈ queue) :
    c ∈ ranked ∧ c.priority = lane := by
  have hmem : c ∈ ofLane lane ranked := by
    rw [h.lane, hqueue]
    exact List.mem_append_right _ hc
  obtain ⟨hranked, hpriority⟩ := List.mem_filter.1 hmem
  exact ⟨hranked, of_decide_eq_true hpriority⟩

theorem Popped.pass (h : Popped hasGrapevine ranked counts taken st) (hpass : pass A fairness hasGrapevine st = .ok st') :
    ∃ lane candidate queue, nextLane A fairness st = .ok lane ∧ st.lanes.lookup lane = some (candidate :: queue) ∧
      Popped hasGrapevine ranked counts (taken ++ [candidate]) st' := by
  obtain ⟨lane, candidate, queue, hlane, hqueue, hlanes, hdone⟩ := pass_spec hpass
  obtain ⟨-, hpriority⟩ := h.mem_lane hqueue List.mem_cons_self
  have hlane' : ∀ p, ofLane p ranked = ofLane p (taken ++ [candidate]) ++ (st'.lanes.lookup p).getD [] := by
    intro p
    rw [h.lane, hlanes, lookup_dictSet, ofLane_snoc, hpriority, List.append_assoc]
    by_cases hp : lane = p
    · rw [if_pos hp, if_pos hp.symm, ← hp, hqueue]
      rfl
    · rw [if_neg hp, if_neg (Ne.symm hp), List.nil_append]
  refine ⟨lane, candidate, queue, hlane, hqueue, ?_⟩
  have hsnoc := withGrapevine_snoc hasGrapevine taken candidate
  split_ifs at hdone hsnoc with hgrapevine
  · obtain ⟨hcounts, henqueued, hrequested⟩ := hdone
    refine ⟨hlane', ?_, ?_, fun p => ?_⟩
    · rw [hrequested, h.requested, hsnoc, List.map_append]
      rfl
    · rw [henqueued, h.enqueued, hsnoc, List.length_append]
      rfl
    · rw [hcounts, admitted_dictSet, hsnoc, ofLane_snoc, List.length_append, hpriority]
      by_cases hp : lane = p
      · rw [if_pos hp, ← hp, Conc.handOut, Function.update_self, h.counts, List.length_singleton, Nat.add_assoc]
      · rw [if_neg hp, Conc.handOut, Function.update_of_ne (Ne.symm hp), h.counts, List.length_nil, Nat.add_zero]
  · obtain ⟨hcounts, henqueued, hrequested⟩ := hdone
    rw [List.append_nil] at hsnoc
    exact ⟨hlane', by rw [hrequested, h.requested, hsnoc], by rw [henqueued, h.enqueued, hsnoc],
      fun p => by rw [hcounts, h.counts, hsnoc]⟩

/-- Without fairness a pass takes the first of all that are left, as they are sorted by
    priority. -/
theorem Popped.first_of_strict (h : Popped hasGrapevine ranked counts taken st)
    (hsorted : ranked.Pairwise fun a b => b.priority ≤ a.priority) (hfirst : taken <+: ranked) {lane : ℤ}
    {candidate : SchedulerCandidate} {queue : List SchedulerCandidate} (hlane : nextLane A false st = .ok lane)
    (hqueue : st.lanes.lookup lane = some (candidate :: queue)) : taken ++ [candidate] <+: ranked := by
  obtain ⟨rest, hrest⟩ := hfirst
  have hleft : ∀ p, (st.lanes.lookup p).getD [] = ofLane p rest := by
    intro p
    have hp := h.lane p
    rw [← hrest, ofLane, List.filter_append] at hp
    exact (List.append_cancel_left hp).symm
  have hfirst := hleft lane
  rw [hqueue, Option.getD_some] at hfirst
  cases rest with
  | nil => cases hfirst
  | cons c rest =>
    have hmem : candidate ∈ ofLane lane (c :: rest) := hfirst ▸ List.mem_cons_self
    obtain ⟨hcandidate, hpriority⟩ := List.mem_filter.1 hmem
    -- the lane is the highest, and nobody after `c` is of a higher one
    have hle : lane ≤ c.priority := by
      rw [← of_decide_eq_true hpriority]
      rw [← hrest] at hsorted
      obtain rfl | hcandidate := List.mem_cons.1 hcandidate
      · exact le_rfl
      · exact (List.pairwise_cons.1 (List.pairwise_append.1 hsorted).2.1).1 candidate hcandidate
    have hge : c.priority ≤ lane := by
      have hc : c ∈ (st.lanes.lookup c.priority).getD [] := by
        rw [hleft]
        exact List.mem_filter.2 ⟨List.mem_cons_self, decide_eq_true rfl⟩
      cases hlookup : st.lanes.lookup c.priority with
      | none => rw [hlookup] at hc; cases hc
      | some waiters =>
        rw [hlookup, Option.getD_some] at hc
        have hactive : c.priority ∈ st.active :=
          mem_active.2 ⟨waiters, Conc.mem_of_lookup hlookup, List.ne_nil_of_mem hc⟩
        unfold nextLane at hlane
        rw [if_neg Bool.false_ne_true] at hlane
        cases hgreatest : Conc.greatest (fun p q : ℤ => p < q) st.active with
        | none => rw [hgreatest] at hlane; cases hlane
        | some top =>
          rw [hgreatest] at hlane
          cases hlane
          have hle : ∀ p ∈ st.active, id p ≤ id lane :=
            Conc.le_greatest (fun p q hpq => hpq.le) (fun p q hpq => not_lt.1 hpq) hgreatest
          exact hle _ hactive
    have heq : c.priority = lane := le_antisymm hge hle
    rw [ofLane, List.filter_cons, if_pos (decide_eq_true heq)] at hfirst
    obtain rfl := (List.cons.inj hfirst).1
    exact ⟨rest, by rw [← hrest, List.append_assoc]; rfl⟩

/-- Nobody waits. -/
theorem running_of_waiting {budget : ℤ} (h : waiting st.lanes = 0) : st.running budget = false := by
  refine Bool.eq_false_iff.2 fun hrun => ?_
  obtain ⟨p, hp⟩ := List.exists_mem_of_ne_nil _ (active_ne_nil hrun)
  obtain ⟨queue, hmem, hne⟩ := mem_active.1 hp
  have hlength := List.sum_eq_zero_iff.1 h _ (List.mem_map_of_mem (f := fun lane => lane.2.length) hmem)
  exact hne (List.length_eq_zero_iff.1 hlength)

/-- **At the end** nobody waits, or there is no budget left; without fairness those who were taken
    are the first. -/
theorem popped_loop {budget : ℤ} (hsorted : ranked.Pairwise fun a b => b.priority ≤ a.priority) :
    ∀ {fuel : ℕ} {taken : List SchedulerCandidate} {st : State},
    Popped hasGrapevine ranked counts taken st → (fairness = false → taken <+: ranked) → st.enqueued ≤ budget →
    waiting st.lanes ≤ fuel → loop A fairness hasGrapevine budget fuel st = .ok st' →
    ∃ taken', Popped hasGrapevine ranked counts taken' st' ∧ (fairness = false → taken' <+: ranked) ∧
      st'.enqueued ≤ budget ∧ st'.running budget = false := by
  intro fuel
  induction fuel with
  | zero =>
    intro taken st h hfirst hbudget hfuel hloop
    cases hloop
    exact ⟨taken, h, hfirst, hbudget, running_of_waiting (Nat.le_zero.1 hfuel)⟩
  | succ fuel ih =>
    intro taken st h hfirst hbudget hfuel hloop
    rw [loop] at hloop
    cases hrun : st.running budget with
    | false =>
      rw [if_neg (Bool.eq_false_iff.1 hrun)] at hloop
      cases hloop
      exact ⟨taken, h, hfirst, hbudget, hrun⟩
    | true =>
      rw [if_pos hrun] at hloop
      obtain ⟨st₁, hpass, hloop⟩ := bind_ok hloop
      obtain ⟨lane, candidate, queue, hlane, hqueue, hpopped⟩ := h.pass hpass
      have hwaiting := waiting_pass hpass
      refine ih hpopped (fun hfair => ?_) ?_ (by omega) hloop
      · rw [hfair] at hlane
        exact h.first_of_strict hsorted (hfirst hfair) hlane hqueue
      · have hlt : st.enqueued < budget := of_decide_eq_true (Bool.and_eq_true_iff.1 hrun).1
        have hone : (withGrapevine hasGrapevine (taken ++ [candidate])).length ≤
            (withGrapevine hasGrapevine taken).length + 1 := by
          rw [withGrapevine_snoc, List.length_append]
          split_ifs
          · exact le_rfl
          · exact Nat.le_succ _
        rw [h.enqueued] at hlt
        rw [hpopped.enqueued]
        omega

/-- Those who were taken are among those who are overdue, and all of them if nobody waits. -/
theorem Popped.subperm (h : Popped hasGrapevine ranked counts taken st) :
    taken.Subperm ranked ∧ (st.active = [] → taken.Perm ranked) := by
  have hcount : ∀ l : List SchedulerCandidate, ∀ c, l.count c = (ofLane c.priority l).count c :=
    fun l c => (List.count_filter (by simp)).symm
  constructor
  · refine List.subperm_iff_count.2 fun c => ?_
    rw [hcount taken, hcount ranked, h.lane, List.count_append]
    exact Nat.le_add_right _ _
  · intro hnone
    refine List.perm_iff_count.2 fun c => ?_
    have hempty : (st.lanes.lookup c.priority).getD [] = [] := by
      cases hlookup : st.lanes.lookup c.priority with
      | none => rfl
      | some queue =>
        by_contra hne
        have hactive : c.priority ∈ st.active := mem_active.2 ⟨queue, Conc.mem_of_lookup hlookup, hne⟩
        rw [hnone] at hactive
        cases hactive
    rw [hcount taken, hcount ranked, h.lane, hempty, List.append_nil]

end

/-! ## Every cycle -/

instance (now : ℚ) : IsTrans SchedulerCandidate (Outranks now) where
  trans a b c := by
    rintro (hab | ⟨hab, hab'⟩) (hbc | ⟨hbc, hbc'⟩)
    · exact Or.inl (hbc.trans hab)
    · exact Or.inl (hbc ▸ hab)
    · exact Or.inl (hab ▸ hbc)
    · exact Or.inr ⟨hab.trans hbc, hbc'.trans hab'⟩

instance (now : ℚ) : Std.Total (Outranks now) where
  total a b := by
    rcases lt_trichotomy a.priority b.priority with h | h | h
    · exact Or.inr (Or.inl h)
    · exact (le_total (overdueSeconds b now) (overdueSeconds a now)).imp (fun hle => Or.inr ⟨h, hle⟩)
        fun hle => Or.inr ⟨h.symm, hle⟩
    · exact Or.inl (Or.inl h)

section
variable {K : Type} [LinearOrder K] {A : Arith K} {catalog : Catalog} {sit : Situation} {default : Scheduling}
  {st : State}

/-- The highest lanes come first. -/
theorem ranked_sorted : (sit.ranked catalog default).Pairwise fun a b => b.priority ≤ a.priority :=
  (Conc.pairwise_sortBy _).imp fun hab => hab.elim (fun h => h.le) fun h => h.1.ge

/-- Nobody is there twice. -/
theorem ranked_nodup : ((sit.ranked catalog default).map (·.pubkey)).Nodup := by
  have hsub : ((loadSchedulerCandidates catalog sit.users sit.platformPubkey default).map (·.pubkey)).Sublist
      (sit.users.map (·.pubkey)) := by
    unfold loadSchedulerCandidates
    rw [List.map_map]
    exact List.filter_sublist.map _
  have hperm := (Conc.perm_sortBy (r := Outranks sit.now) ((loadSchedulerCandidates catalog sit.users
    sit.platformPubkey default).filter fun c =>
      c.enabled && isOverdue c sit.now && !inRetryBackoff c sit.now retryBackoffSeconds)).map (·.pubkey)
  exact hperm.nodup_iff.2 (sit.pubkeys.sublist ((List.filter_sublist.map _).trans hsub))

/-- Who is overdue and has somebody to score, in order. -/
def Situation.eligible (sit : Situation) (catalog : Catalog) (default : Scheduling) : List SchedulerCandidate :=
  withGrapevine sit.hasGrapevine (sit.ranked catalog default)

/-- **For whom a cycle requests a run.**  As many as there is budget for, nobody twice, of each lane
    the most overdue, and each is counted for its lane.  Without fairness they are the first of
    all, the highest lanes before the others. -/
theorem cycle_requests (hdefault : catalog.default = some default) (hbudget : 0 < sit.budget)
    (h : runCycle A catalog sit = .ok st) : ∃ chosen : List SchedulerCandidate,
    st.requested = chosen.map (·.pubkey) ∧ st.requested.Nodup ∧
    (chosen.length : ℤ) = min sit.budget (sit.eligible catalog default).length ∧
    (∀ p, ofLane p chosen <+: ofLane p (sit.eligible catalog default)) ∧
    (∀ p, admitted st.counts p = admitted sit.counts p + (ofLane p chosen).length) ∧
    (sit.fairness = false → chosen = (sit.eligible catalog default).take sit.budget.toNat) := by
  unfold runCycle at h
  rw [if_neg (not_le.2 hbudget), hdefault] at h
  have hstart : Popped sit.hasGrapevine (sit.ranked catalog default) sit.counts [] _ := popped_initial
  obtain ⟨taken, hpopped, hfirst, hle, hend⟩ := popped_loop ranked_sorted
    hstart (fun _ => List.nil_prefix) hbudget.le (waiting_lanesOf _).le h
  obtain ⟨hsub, hall⟩ := hpopped.subperm
  have hsub' : (withGrapevine sit.hasGrapevine taken).Subperm (sit.eligible catalog default) := hsub.filter _
  have hlength : ((withGrapevine sit.hasGrapevine taken).length : ℤ) =
      min sit.budget (sit.eligible catalog default).length := by
    have hle' := hsub'.length_le
    rw [hpopped.enqueued] at hle
    obtain hspent | hactive : sit.budget ≤ st.enqueued ∨ st.active = [] := by
      by_contra hnot
      rw [not_or, not_le] at hnot
      rw [running_of_active hnot.1 hnot.2] at hend
      cases hend
    · rw [hpopped.enqueued] at hspent
      omega
    · have hperm : (withGrapevine sit.hasGrapevine taken).length = (sit.eligible catalog default).length :=
        ((hall hactive).filter _).length_eq
      omega
  refine ⟨withGrapevine sit.hasGrapevine taken, hpopped.requested, ?_, hlength, fun p => ?_, hpopped.counts,
    fun hfair => ?_⟩
  · rw [hpopped.requested]
    obtain ⟨l, hperm, hsublist⟩ := hsub
    have htaken : (taken.map (·.pubkey)).Nodup :=
      (hperm.map _).nodup_iff.1 (ranked_nodup.sublist (hsublist.map _))
    exact htaken.sublist (List.filter_sublist.map _)
  · have hlane : ofLane p taken <+: ofLane p (sit.ranked catalog default) := ⟨_, (hpopped.lane p).symm⟩
    rw [Situation.eligible, withGrapevine, withGrapevine, ofLane, ofLane, List.filter_comm,
      List.filter_comm _ _ (sit.ranked catalog default)]
    exact hlane.filter _
  · have hfirst : withGrapevine sit.hasGrapevine taken <+: sit.eligible catalog default :=
      (hfirst hfair).filter _
    refine (List.prefix_iff_eq_take.1 hfirst).trans ?_
    rw [List.take_eq_take_iff]
    omega

def supporterPolicy : Scheduling := ⟨"Supporter", 3600, 5, true, false, false, true, 20, 604800⟩

def twoLanes : Catalog where
  rows := [(1, idlePolicy), (2, supporterPolicy)]
  ids := by decide
  bounds := by decide

/-- Alice waits in the lane of the default policy, and Bob in the higher one. -/
def aliceAndBob : Situation where
  target := 1
  fairness := false
  inflight := 0
  interactive := false
  users := [⟨"alice", none, none, none, false⟩, ⟨"bob", some 2, none, none, false⟩]
  pubkeys := by decide
  platformPubkey := "platform"
  now := 0
  counts := []
  hasGrapevine _ := true

theorem bob_first : ∃ st, runCycle exact twoLanes aliceAndBob = .ok st ∧ st.requested = ["bob"] ∧
    ∃ chosen : List SchedulerCandidate, st.requested = chosen.map (·.pubkey) ∧
      chosen = (aliceAndBob.eligible twoLanes idlePolicy).take 1 := by
  have hrun : ∃ st, runCycle exact twoLanes aliceAndBob = .ok st ∧ st.requested = ["bob"] :=
    ⟨⟨[(5, []), (-1, [⟨"alice", -1, 3600, none, none, true⟩])], [(5, 1)], 1, ["bob"]⟩, by rfl, rfl⟩
  obtain ⟨st, hrun, hbob⟩ := hrun
  obtain ⟨chosen, hrequested, -, -, -, -, hfirst⟩ := cycle_requests rfl (by decide) hrun
  exact ⟨st, hrun, hbob, chosen, hrequested, hfirst rfl⟩

end

end Admission

end BrainstormServer
