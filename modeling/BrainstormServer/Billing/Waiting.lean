/-
  Mapping a plan frees the events that waited for it.

  An event waits for the plan `(serviceId, planId)` if an attempt of it ended in
  `UNKNOWN_PLAN` because Flash reported that pair (`Waited`).  Creating the
  mapping, or moving one to these ids, resets the events whose last recorded
  error is `unknown_plan` and whose payload names the pair (`awaitsPlan`): the
  error may have been overwritten by a later attempt, and the payload may name
  another pair than Flash did.

  `Frees` is what a mapping should do, `Meets` the condition on the inbox before
  it; a run of operations frees at every mapping exactly if it meets the
  condition at every mapping (`mappings_free_iff`).
-/
import BrainstormServer.Billing.Batch
import BrainstormServer.Billing.Claims

namespace BrainstormServer

open Conc Prog

/-! ## Runs of operations -/

/-- The operations that map plans, and whatever else the server does: deliveries,
    their processing, replays. -/
inductive Operation
  | create (values : BillingPlan)
  | update (planId : ℕ) (values : PlanValues)
  | other (prog : Billing Unit)

def Operation.prog : Operation → Billing Unit
  | create values => discard (createBillingPlan values)
  | update planId values => updateBillingPlan planId values
  | other prog => prog

section
variable {S : Type} [DecidableEq S] (s : S)

/-- The operation in a session of its own, with the history so far. -/
def performs (o : Operation × (ℕ → Outside)) (x : Store S × Hist) :
    Option (Except Exn Unit × Store S × Hist) :=
  (dbSession o.1.prog).alone (logged exec) s o.2 x

/-- One operation after the other. -/
def performAll : List (Operation × (ℕ → Outside)) → Store S × Hist → Option (Store S × Hist)
  | [], x => some x
  | o :: os, x => (performs s o x).bind fun r => performAll os r.2

variable {s}

/-- Between operations nobody is at work, and ids come from the sequence. -/
structure Store.Rested (st : Store S) : Prop where
  quiet : st.Quiet
  sequenced : st.Sequenced

theorem wp_sequenced {W : Outside → Prop} {α : Type} (p : Billing α) : ∀ {st : Store S}, st.Solo s →
    st.Sequenced → p.wp exec s W (fun _ st' => st'.Solo s ∧ st'.Sequenced) st := by
  induction p with
  | ret a => exact fun hs hq => ⟨hs, hq⟩
  | raise e => exact fun hs hq => ⟨hs, hq⟩
  | op c k ih =>
    intro st hs hq
    exact wp_op hs fun ω a st' _ he hs' => ih a hs' (exec_sequenced he hq)

theorem Store.Sequenced.commit {st : Store S} (h : st.Sequenced) : (st.commit s).Sequenced :=
  fun i hi => (h i hi).commit s

theorem Store.Sequenced.rollback {st : Store S} (h : st.Sequenced) : (st.rollback s).Sequenced :=
  fun i hi => (h i hi).rollback s

/-- An operation leaves the store as it should be between operations, and its
    program's postcondition holds once the session is closed. -/
theorem performs_wp {o : Operation × (ℕ → Outside)} {x : Store S × Hist} {r : Except Exn Unit} {x' : Store S × Hist}
    (h : performs s o x = some (r, x')) {Q : Except Exn Unit → Store S → Prop}
    (hQ : o.1.prog.wp exec s (fun _ => True) (fun r st' => st'.Solo s ∧ AtClose s Q r st') x.1) :
    Q r x'.1 := by
  obtain ⟨r₁, st₁, hrun, -, hq⟩ := wp_alone exec s (fun _ => True) o.2 (fun _ => trivial)
    (wp_dbSession hQ)
  rw [alone_of_logged h] at hrun
  cases hrun
  exact hq

theorem performs_rested {o : Operation × (ℕ → Outside)} {x : Store S × Hist} {r : Except Exn Unit}
    {x' : Store S × Hist} (h : performs s o x = some (r, x')) (hx : x.1.Rested) : x'.1.Rested := by
  have hclose : o.1.prog.wp exec s (fun _ => True) (fun r st' => st'.Solo s ∧
      AtClose s (fun _ st' => st'.Sequenced) r st') x.1 := by
    refine wp_mono _ _ _ ?_ (wp_sequenced o.1.prog (hx.quiet.solo s) hx.sequenced)
    rintro (e | a) st' ⟨hs, hq⟩
    · exact ⟨hs, hq.rollback⟩
    · exact ⟨hs, hq.commit.rollback⟩
  obtain ⟨r₁, st₁, hrun, hquiet, hseq⟩ := wp_alone exec s (fun _ => True) o.2 (fun _ => trivial)
    (wp_dbSession hclose)
  rw [alone_of_logged h] at hrun
  cases hrun
  exact ⟨hquiet, hseq⟩

theorem performAll_rested : ∀ {os : List (Operation × (ℕ → Outside))} {x x' : Store S × Hist},
    performAll s os x = some x' → x.1.Rested → x'.1.Rested
  | [], x, x', h, hx => by
    cases h
    exact hx
  | o :: os, x, x', h, hx => by
    simp only [performAll, Option.bind_eq_some_iff] at h
    obtain ⟨⟨r, x₁⟩, h1, h2⟩ := h
    exact performAll_rested h2 (performs_rested h1 hx)

/-! ## What a mapping does -/

/-- The operation maps the pair: a new mapping, or one moved to these ids. -/
inductive Maps (st : Store S) (serviceId planId : String) : Operation → Prop
  | create {values : BillingPlan} (hs : values.flashServiceId = serviceId)
      (hp : values.flashPlanId = planId) : Maps st serviceId planId (.create values)
  | reidentify {i : ℕ} {values : PlanValues} {current : BillingPlan}
      (hcurrent : st.plan.committed i = some current)
      (hs : values.flashServiceId.getD current.flashServiceId = serviceId)
      (hp : values.flashPlanId.getD current.flashPlanId = planId)
      (hne : (serviceId, planId) ≠ (current.flashServiceId, current.flashPlanId)) :
      Maps st serviceId planId (.update i values)

/-- What becomes of an event when the pair is mapped. -/
def freed (serviceId planId : String) (ev : FlashWebhookEvent) : FlashWebhookEvent :=
  if awaitsPlan serviceId planId EntitlementReason.unknownPlan.value ev then
    { ev with attempts := 0, processError := none }
  else ev

omit [DecidableEq S] in
theorem events_nodup (st : Store S) (P : ℕ × FlashWebhookEvent → Bool) :
    (((st.events s).filter P).map (·.1)).Nodup := by
  have hids : ((st.events s).map (·.1)).Nodup := by
    have hsub : ((st.events s).map (·.1)).Sublist (List.range st.eventCount) := by
      unfold Store.events
      generalize List.range st.eventCount = l
      induction l with
      | nil => exact .slnil
      | cons i l ih =>
        cases hv : st.event.view s i with
        | none => simpa [hv] using ih.cons i
        | some ev => simpa [hv] using ih
    exact hsub.nodup List.nodup_range
  exact (List.filter_sublist.map _).nodup hids

theorem exec_reset {st st' : Store S} {ω : Outside} {serviceId planId : String} {n : ℕ}
    (h : exec s (.resetEventsAwaitingPlan serviceId planId EntitlementReason.unknownPlan.value) st ω =
      some (n, st')) (hseq : st.Sequenced) :
    st'.event.view s = fun i => (st.event.view s i).map (freed serviceId planId) := by
  simp only [exec, Option.map_eq_some_iff, Prod.mk.injEq] at h
  obtain ⟨t, ht, -, rfl⟩ := h
  show t.view s = _
  rw [TxTable.modifyAll_view (events_nodup st _) ht]
  ext1 i
  cases hv : st.event.view s i with
  | none => simp
  | some ev =>
    have hi : i < st.eventCount := by
      by_contra hcount
      have hnone : st.event.view s i = none := (hseq i (not_lt.1 hcount) s).view
      rw [hv] at hnone
      cases hnone
    have hmem : (i, ev) ∈ st.events s := by
      simp only [Store.events, List.mem_filterMap, List.mem_range]
      exact ⟨i, hi, by rw [hv]; rfl⟩
    have hiff : i ∈ ((st.events s).filter
        (awaitsPlan serviceId planId EntitlementReason.unknownPlan.value ·.2)).map (·.1) ↔
        awaitsPlan serviceId planId EntitlementReason.unknownPlan.value ev = true := by
      constructor
      · intro hin
        obtain ⟨⟨j, ev'⟩, hj, rfl⟩ := List.mem_map.1 hin
        obtain ⟨hj, hawaits⟩ := List.mem_filter.1 hj
        simp only [Store.events, List.mem_filterMap, Option.map_eq_some_iff, Prod.mk.injEq] at hj
        obtain ⟨_, -, _, hview, rfl, rfl⟩ := hj
        rw [hv] at hview
        cases hview
        exact hawaits
      · intro hawaits
        exact List.mem_map.2 ⟨(i, ev), List.mem_filter.2 ⟨hmem, hawaits⟩, rfl⟩
    unfold freed
    simp only [hiff, Option.map_some]
    split_ifs <;> rfl

/-- A command that is no statement on the inbox leaves it. -/
theorem exec_inbox {c : Cmd} {st st' : Store S} {ω : Outside} {a : c.Ans}
    (h : exec s c st ω = some (a, st')) (hu : c.eventUpdate = none) (he : c.endsTx = false)
    (hi : ∀ new, c ≠ .insertFlashWebhookEvent new) : st'.event = st.event := by
  cases exec_event h with
  | same hevent _ => exact hevent
  | update f is hc _ _ _ =>
    rw [hu] at hc
    cases hc
  | insert new hc _ _ => exact absurd hc (hi new)
  | commit hc _ =>
    rw [hc] at he
    cases he
  | rollback hc _ =>
    rw [hc] at he
    cases he

section
variable {W : Outside → Prop} {α : Type} {serviceId planId : String}

/-- The session alone is at work, and has not touched the inbox. -/
structure Untouched (s : S) (st₀ st : Store S) : Prop where
  solo : st.Solo s
  sequenced : st.Sequenced
  event : st.event = st₀.event

/-- What the operation should have done to the inbox, once its session is closed. -/
def InboxFreed (serviceId planId : String) (st₀ : Store S) (r : Except Exn α) (st : Store S) :
    Prop :=
  ∀ a, r = .ok a → st.event.committed = fun i => (st₀.event.committed i).map (freed serviceId planId)

theorem Untouched.step {c : Cmd} {st₀ st st' : Store S} {ω : Outside} {a : c.Ans}
    (h : Untouched s st₀ st) (he : exec s c st ω = some (a, st')) (hu : c.eventUpdate = none)
    (hends : c.endsTx = false) (hi : ∀ new, c ≠ .insertFlashWebhookEvent new) :
    Untouched s st₀ st' :=
  ⟨exec_solo he h.solo, exec_sequenced he h.sequenced, (exec_inbox he hu hends hi).trans h.event⟩

theorem Untouched.raise {st₀ st : Store S} (h : Untouched s st₀ st) (e : Exn) :
    (Prog.raise e : Billing α).wp exec s W (fun r st' => st'.Solo s ∧
      AtClose s (InboxFreed serviceId planId st₀) r st') st :=
  ⟨h.solo, fun _ hr => nomatch hr⟩

/-- The reset, the commit and the close. -/
theorem reset_wp {st₀ st : Store S} (hq : st₀.Quiet) (h : Untouched s st₀ st) (a : α) :
    (Prog.op (.resetEventsAwaitingPlan serviceId planId EntitlementReason.unknownPlan.value) fun _ =>
      Prog.op .commit fun _ => (.ret a : Billing α)).wp exec s W (fun r st' => st'.Solo s ∧
        AtClose s (InboxFreed serviceId planId st₀) r st') st := by
  refine wp_op h.solo fun ω₁ n st₁ _ he₁ hs₁ => wp_op hs₁ fun ω₂ _ st₂ _ he₂ hs₂ => ⟨hs₂, ?_⟩
  cases he₂
  intro _ _
  show (st₁.commit s).event.view s = _
  rw [show (st₁.commit s).event = st₁.event.commit s from rfl, TxTable.view_commit_self,
    exec_reset he₁ h.sequenced, h.event, hq.owned.event.view_of_unlocked hq.event s]

theorem requireScheduling_wp {st₀ st : Store S} (h : Untouched s st₀ st) (i : SchedulingId)
    {k : Unit → Billing α} (hk : ∀ st', Untouched s st₀ st' → st'.plan = st.plan →
      (k ()).wp exec s W (fun r st' => st'.Solo s ∧
        AtClose s (InboxFreed serviceId planId st₀) r st') st') :
    ((requireScheduling i).bind k).wp exec s W (fun r st' => st'.Solo s ∧
      AtClose s (InboxFreed serviceId planId st₀) r st') st := by
  refine wp_op h.solo fun ω found st₁ _ he _ => ?_
  have h₁ := h.step he rfl rfl (fun _ hc => nomatch hc)
  simp only [exec, Option.some.injEq, Prod.mk.injEq] at he
  cases found with
  | false => exact h₁.raise _
  | true => exact hk st₁ h₁ (by rw [he.2])

theorem requireUnusedFlashIds_wp {st₀ st : Store S} (h : Untouched s st₀ st) (i j : String)
    {k : Unit → Billing α} (hk : ∀ st', Untouched s st₀ st' →
      (k ()).wp exec s W (fun r st' => st'.Solo s ∧
        AtClose s (InboxFreed serviceId planId st₀) r st') st') :
    ((requireUnusedFlashIds i j).bind k).wp exec s W (fun r st' => st'.Solo s ∧
      AtClose s (InboxFreed serviceId planId st₀) r st') st := by
  unfold requireUnusedFlashIds getBillingPlan
  simp only [await, bind_eq, call_bind, pure_eq]
  refine wp_op h.solo fun ω found st₁ _ he _ => ?_
  have h₁ := h.step he rfl rfl (fun _ hc => nomatch hc)
  dsimp only
  split_ifs
  · cases found with
    | none => exact hk st₁ h₁
    | some plan => exact h₁.raise _
  · exact h₁.raise _

/-- What an operation returns does not matter. -/
theorem discard_freed {p : Billing α} {st₀ st : Store S}
    (h : p.wp exec s W (fun r st' => st'.Solo s ∧
      AtClose s (InboxFreed serviceId planId st₀) r st') st) :
    (discard p).wp exec s W (fun r st' => st'.Solo s ∧
      AtClose s (InboxFreed serviceId planId st₀) r st') st := by
  refine (wp_bind _ _ _).2 (wp_mono _ _ _ ?_ h)
  rintro (e | a) st' ⟨hs, hclose⟩
  · exact ⟨hs, fun _ hr => nomatch hr⟩
  · exact ⟨hs, fun _ _ => hclose a rfl⟩

theorem createBillingPlan_freed {st : Store S} (hx : st.Rested) (values : BillingPlan) :
    (createBillingPlan values).wp exec s W (fun r st' => st'.Solo s ∧
      AtClose s (InboxFreed values.flashServiceId values.flashPlanId st) r st') st := by
  have h₀ : Untouched s st st := ⟨hx.quiet.solo s, hx.sequenced, rfl⟩
  refine requireScheduling_wp h₀ _ fun st₁ h₁ _ => ?_
  refine requireUnusedFlashIds_wp h₁ _ _ fun st₂ h₂ => ?_
  refine wp_op h₂.solo fun ω inserted st₃ _ he _ => ?_
  have h₃ := h₂.step he rfl rfl (fun _ hc => nomatch hc)
  cases inserted with
  | none => exact h₃.raise _
  | some i => exact reset_wp hx.quiet h₃ i

theorem updateBillingPlan_freed {st : Store S} (hx : st.Rested) {i : ℕ} {values : PlanValues}
    {current : BillingPlan} (hcurrent : st.plan.committed i = some current)
    (hne : (values.flashServiceId.getD current.flashServiceId,
      values.flashPlanId.getD current.flashPlanId) ≠
        (current.flashServiceId, current.flashPlanId)) :
    (updateBillingPlan i values).wp exec s W (fun r st' => st'.Solo s ∧
      AtClose s (InboxFreed (values.flashServiceId.getD current.flashServiceId)
        (values.flashPlanId.getD current.flashPlanId) st) r st') st := by
  have h₀ : Untouched s st st := ⟨hx.quiet.solo s, hx.sequenced, rfl⟩
  unfold updateBillingPlan
  simp only [await, bind_eq, call_bind, pure_eq]
  have hcheck : ∀ p : Billing Unit, (p = .ret () ∨ ∃ j, p = requireScheduling j) →
      p.wp exec s W (fun _ st₁ => Untouched s st st₁ ∧ st₁.plan = st.plan) st := by
    rintro p (rfl | ⟨j, rfl⟩)
    · exact ⟨h₀, rfl⟩
    · refine wp_op h₀.solo fun ω found st₁ _ he _ => ?_
      have h₁ := h₀.step he rfl rfl (by simp)
      simp only [exec, Option.some.injEq, Prod.mk.injEq] at he
      cases found with
      | false => exact ⟨h₁, by rw [he.2]⟩
      | true => exact ⟨h₁, by rw [he.2]⟩
  refine (wp_bind _ _ _).2 (wp_mono _ _ _ ?_ (hcheck _ ?_))
  · rintro (e | _) st₁ ⟨h₁, hplan⟩
    · exact ⟨h₁.solo, fun _ hr => by cases hr⟩
    refine wp_op h₁.solo fun ω found st₂ _ he _ => ?_
    have h₂ := h₁.step he rfl rfl (by simp)
    simp only [exec, Option.some.injEq, Prod.mk.injEq] at he
    obtain ⟨hfound, -⟩ := he
    rw [hplan, hx.quiet.plan_view s, hcurrent] at hfound
    obtain rfl := hfound
    dsimp only
    rw [if_pos hne]
    unfold requireReidentifiable
    simp only [await, bind_eq, call_bind]
    refine wp_op h₂.solo fun ω n st₃ _ he₃ _ => ?_
    have h₃ := h₂.step he₃ rfl rfl (by simp)
    beta_reduce
    split_ifs
    · exact h₃.raise _
    · refine requireUnusedFlashIds_wp h₃ _ _ fun st₄ h₄ => ?_
      refine wp_op h₄.solo fun ω _ st₅ _ he₅ _ => ?_
      exact reset_wp hx.quiet (h₄.step he₅ rfl rfl (by simp)) ()
  · cases values.schedulingId with
    | none => exact Or.inl rfl
    | some j => exact Or.inr ⟨j, rfl⟩

end

/-- **What a mapping does to the inbox.** -/
theorem Maps.freed {serviceId planId : String} {o : Operation × (ℕ → Outside)} {x x' : Store S × Hist}
    (hm : Maps x.1 serviceId planId o.1) (hx : x.1.Rested)
    (h : performs s o x = some (.ok (), x')) :
    x'.1.event.committed = fun i => (x.1.event.committed i).map (freed serviceId planId) := by
  have hwp : o.1.prog.wp exec s (fun _ => True) (fun r st' => st'.Solo s ∧
      AtClose s (InboxFreed serviceId planId x.1) r st') x.1 := by
    obtain ⟨prog, ω⟩ := o
    cases hm with
    | create hs hp =>
      rw [← hs, ← hp]
      exact discard_freed (createBillingPlan_freed hx _)
    | reidentify hcurrent hs hp hne =>
      rw [← hs, ← hp] at hne ⊢
      exact updateBillingPlan_freed hx hcurrent hne
  exact performs_wp h hwp () rfl

end

/-! ## Who waited -/

/-- An attempt of the event ended in `UNKNOWN_PLAN` because Flash reported the
    pair: the pair was looked for, it was not mapped, and that was recorded. -/
def Waited (serviceId planId : String) (i : ℕ) (h : Hist) : Prop :=
  ∃ h₁ mid h₂, h = h₁ ++ ⟨.getBillingPlan serviceId planId, none⟩ :: mid ++
      ⟨.recordWebhookEventFailure i EntitlementReason.unknownPlan.value, ()⟩ :: h₂ ∧
    ∀ x ∈ mid, x.1 = Cmd.readEventInstance i

/-- The event is open, one to act on, and has waited for the pair. -/
structure Due (serviceId planId : String) (h : Hist) (i : ℕ) (ev : FlashWebhookEvent) : Prop where
  unprocessed : ev.processedAt = none
  recognised : ev.event ∈ recognisedEvents
  waited : Waited serviceId planId i h

/-- Everything that waited for the pair can be replayed, and nothing else changes. -/
def Frees {S : Type} (serviceId planId : String) (maxAttempts : ℕ) (h : Hist) (st st' : Store S) :
    Prop :=
  ∀ i ev, st.event.committed i = some ev →
    (Due serviceId planId h i ev → ∃ ev', st'.event.committed i = some ev' ∧
      ev'.attempts < maxAttempts) ∧
    (¬ Due serviceId planId h i ev → st'.event.committed i = some ev)

/-- What waited has attempts left, or still has the error and names the pair;
    nothing else has the error and names the pair. -/
def Meets {S : Type} (serviceId planId : String) (maxAttempts : ℕ) (h : Hist) (st : Store S) :
    Prop :=
  ∀ i ev, st.event.committed i = some ev →
    (Due serviceId planId h i ev → ev.attempts < maxAttempts ∨
      awaitsPlan serviceId planId EntitlementReason.unknownPlan.value ev = true) ∧
    (¬ Due serviceId planId h i ev →
      awaitsPlan serviceId planId EntitlementReason.unknownPlan.value ev = false)

theorem freed_attempts {serviceId planId : String} {ev : FlashWebhookEvent} {n : ℕ} (hn : 0 < n) :
    (freed serviceId planId ev).attempts < n ↔ ev.attempts < n ∨
      awaitsPlan serviceId planId EntitlementReason.unknownPlan.value ev = true := by
  unfold freed
  split_ifs with h
  · simp [h, hn]
  · simp [h]

theorem freed_eq_self {serviceId planId : String} {ev : FlashWebhookEvent} :
    freed serviceId planId ev = ev ↔
      awaitsPlan serviceId planId EntitlementReason.unknownPlan.value ev = false := by
  unfold freed
  split_ifs with h
  · -- the error was there, and is gone
    have herr : ev.processError = some EntitlementReason.unknownPlan.value := by
      simp only [awaitsPlan, decide_eq_true_eq] at h
      exact h.2.1
    constructor
    · intro he
      rw [← he] at herr
      cases herr
    · intro hf
      rw [hf] at h
      cases h
  · simp [h]

theorem frees_iff_meets {S : Type} {serviceId planId : String} {maxAttempts : ℕ}
    (hmax : 0 < maxAttempts) {h : Hist} {st st' : Store S}
    (hfreed : st'.event.committed = fun i => (st.event.committed i).map (freed serviceId planId)) :
    Frees serviceId planId maxAttempts h st st' ↔ Meets serviceId planId maxAttempts h st := by
  refine forall_congr' fun i => forall_congr' fun ev => forall_congr' fun hev => ?_
  have hev' : st'.event.committed i = some (freed serviceId planId ev) := by
    rw [hfreed]
    show (st.event.committed i).map _ = _
    rw [hev]
    rfl
  refine and_congr (forall_congr' fun _ => ?_) (forall_congr' fun _ => ?_)
  · rw [← freed_attempts hmax, hev']
    constructor
    · rintro ⟨ev', he, hlt⟩
      cases he
      exact hlt
    · exact fun hlt => ⟨_, rfl, hlt⟩
  · rw [← freed_eq_self, hev', Option.some.injEq]

/-- A property of every mapping a run of operations carries out: of the history
    and the store before it, and the store after it. -/
def AtMappings {S : Type} [DecidableEq S] (s : S) (P : String → String → Hist → Store S → Store S → Prop)
    (os : List (Operation × (ℕ → Outside))) (st : Store S) : Prop :=
  ∀ before o after x x' serviceId planId, os = before ++ o :: after →
    performAll s before (st, []) = some x → performs s o x = some (.ok (), x') →
    Maps x.1 serviceId planId o.1 → P serviceId planId x.2 x.1 x'.1

/-- **Mapping a plan frees what waited for it, at every mapping of a run, exactly
    if at every mapping** what waited has attempts left or still has the error
    and names the pair, and nothing else does. -/
theorem mappings_free_iff {S : Type} [DecidableEq S] (s : S) (maxAttempts : ℕ)
    (hmax : 0 < maxAttempts) (st : Store S) (hst : st.Rested) (os : List (Operation × (ℕ → Outside))) :
    AtMappings s (fun serviceId planId h st st' => Frees serviceId planId maxAttempts h st st') os st ↔
      AtMappings s (fun serviceId planId h st _ => Meets serviceId planId maxAttempts h st) os st := by
  refine forall_congr' fun before => forall_congr' fun o => forall_congr' fun after =>
    forall_congr' fun x => forall_congr' fun x' => forall_congr' fun serviceId =>
    forall_congr' fun planId => forall_congr' fun _ => forall_congr' fun hbefore =>
    forall_congr' fun ho => forall_congr' fun hm => ?_
  have hx : x.1.Rested := performAll_rested hbefore hst
  exact frees_iff_meets hmax (hm.freed hx ho)

/-! ## An event that waited -/

/-- The plan a command looked for in vain, or the failure it recorded. -/
inductive PlanTrail
  | missing (serviceId planId : String)
  | failure (event : ℕ) (reason : String)
  | other
  deriving DecidableEq

def planTrail : (Σ c, Cmd.Ans c) → PlanTrail
  | ⟨.getBillingPlan serviceId planId, none⟩ => .missing serviceId planId
  | ⟨.recordWebhookEventFailure i reason, _⟩ => .failure i reason
  | _ => .other

theorem waited_of_planTrail {serviceId planId : String} {i n : ℕ} {h : Hist}
    (ht : ((h.drop n).take 2).map planTrail = [.missing serviceId planId,
      .failure i EntitlementReason.unknownPlan.value]) : Waited serviceId planId i h := by
  obtain ⟨x, l, hl, hx, hrest⟩ := List.map_eq_cons_iff.1 ht
  obtain ⟨y, l', rfl, hy, hl'⟩ := List.map_eq_cons_iff.1 hrest
  obtain rfl := List.map_eq_nil_iff.1 hl'
  have hxc : x = ⟨.getBillingPlan serviceId planId, none⟩ := by
    unfold planTrail at hx
    split at hx <;> cases hx
    rfl
  have hyc : y = ⟨.recordWebhookEventFailure i EntitlementReason.unknownPlan.value, ()⟩ := by
    unfold planTrail at hy
    split at hy <;> cases hy
    rfl
  refine ⟨h.take n, [], (h.drop n).drop 2, ?_, fun _ hx => nomatch hx⟩
  rw [← hxc, ← hyc]
  calc h = h.take n ++ ((h.drop n).take 2 ++ (h.drop n).drop 2) := by
        rw [List.take_append_drop, List.take_append_drop]
    _ = _ := by
        rw [hl]
        simp

/-- Flash reports `"sub_1"` of `"alice"` on the plan `"gold"`, or nothing. -/
def reportsGold (known : Bool) (now : DateTime) : ℕ → Outside := fun _ => {
  now := now
  flash := fun _ => .ok (if known then
    some { sampleSubscription "sub_1" "active" (some "alice") with planId := "gold" } else none) }

/-- A signup for the plan `"gold"`: it is delivered, processed and, `100` later,
    replayed; `known` is whether Flash knows the subscription then. -/
def goldSignup (known : Bool) : List (Operation × (ℕ → Outside)) :=
  [(.other <| discard (insertDelivery ⟨"subscription.activated", 0, none, some "sub_1",
      ⟨some "alice", some "sub_1", some "service", some "gold"⟩, "sub_1", none⟩), reportsGold true 0),
    (.other <| processDelivery
      ⟨some 0, "subscription.activated", some "sub_1", some "alice", false, none, rfl⟩,
      reportsGold true 0),
    (.other <| discard (replayUnprocessedEvents (fun _ => "") 5 10 2), reportsGold known 100)]

/-- The mapping of the plan. -/
def mapGold : Operation × (ℕ → Outside) :=
  (.create ⟨"service", "gold", 7, true⟩, reportsGold true 200)

theorem emptyInbox_rested : (sampleInbox 0 : Store Unit).Rested where
  quiet := ⟨sampleInbox_owned 0, fun _ => rfl, fun _ => rfl, fun _ => rfl, fun _ => rfl, rfl, rfl⟩
  sequenced := sampleInbox_sequenced 0

/-- **An attempt in between hides the event.**  The signup waited for the plan and
    has used up its attempts; since the last one found no subscription, mapping
    the plan does not free it. -/
theorem overwritten_error_not_freed :
    ¬ AtMappings () (fun serviceId planId h st st' => Frees serviceId planId 2 h st st')
      (goldSignup false ++ [mapGold]) (sampleInbox 0) := by
  have h : (performAll () (goldSignup false) (sampleInbox 0, [])).map (fun x =>
      ((x.1.event.committed 0).map (fun ev => (ev.processedAt.isNone, ev.event)),
        ((x.2.drop 9).take 2).map planTrail, (performs () mapGold x).map fun r =>
          (r.1.toBool, (r.2.1.event.committed 0).map (·.attempts)))) =
      some (some (true, "subscription.activated"), [.missing "service" "gold",
        .failure 0 EntitlementReason.unknownPlan.value], some (true, some 2)) := by
    decide
  obtain ⟨x, hx, hsum⟩ := Option.map_eq_some_iff.1 h
  simp only [Prod.mk.injEq, Option.map_eq_some_iff] at hsum
  obtain ⟨⟨ev, hev, hopen, hname⟩, htrail, ⟨r, x'⟩, hperf, hok, ev', hev', hattempts⟩ := hsum
  cases r with
  | error e => cases hok
  | ok _ =>
    intro hall
    have hfrees := hall (goldSignup false) mapGold [] x x' "service" "gold" rfl hx hperf
      (.create rfl rfl) 0 ev hev
    have hdue : Due "service" "gold" x.2 0 ev :=
      ⟨Option.isNone_iff_eq_none.1 hopen, by rw [hname]; decide, waited_of_planTrail htrail⟩
    obtain ⟨ev'', hev'', hlt⟩ := hfrees.1 hdue
    rw [hev'] at hev''
    cases hev''
    omega

/-- Where the replay met the unmapped plan again, mapping it frees the signup. -/
theorem mappings_free_iff_gold :
    AtMappings () (fun serviceId planId h st st' => Frees serviceId planId 2 h st st')
      (goldSignup true ++ [mapGold]) (sampleInbox 0) := by
  refine (mappings_free_iff () 2 (by decide) _ emptyInbox_rested _).2 ?_
  intro before o after x x' serviceId planId hos hx hperf hmaps
  have hlast : before = goldSignup true ∧ o = mapGold := by
    rcases before with _ | ⟨o₁, _ | ⟨o₂, _ | ⟨o₃, _ | ⟨o₄, before⟩⟩⟩⟩
    all_goals
      simp only [goldSignup, List.cons_append, List.nil_append, List.cons.injEq] at hos
    · obtain ⟨rfl, -⟩ := hos
      cases hmaps
    · obtain ⟨-, rfl, -⟩ := hos
      cases hmaps
    · obtain ⟨-, -, rfl, -⟩ := hos
      cases hmaps
    · obtain ⟨rfl, rfl, rfl, rfl, -⟩ := hos
      exact ⟨rfl, rfl⟩
    · obtain ⟨-, -, -, -, hnil⟩ := hos
      simp at hnil
  obtain ⟨rfl, rfl⟩ := hlast
  obtain ⟨rfl, rfl⟩ : serviceId = "service" ∧ planId = "gold" := by
    cases hmaps with
    | create hs hp => exact ⟨hs.symm, hp.symm⟩
  have h : (performAll () (goldSignup true) (sampleInbox 0, [])).map (fun x => (x.1.eventCount,
      (x.1.event.committed 0).map (fun ev => (ev.processedAt.isNone, ev.event,
        awaitsPlan "service" "gold" EntitlementReason.unknownPlan.value ev)),
      ((x.2.drop 9).take 2).map planTrail)) =
      some (1, some (true, "subscription.activated", true), [.missing "service" "gold",
        .failure 0 EntitlementReason.unknownPlan.value]) := by
    decide
  rw [hx] at h
  simp only [Option.map_some, Option.some.injEq, Prod.mk.injEq, Option.map_eq_some_iff] at h
  obtain ⟨hcount, ⟨ev₀, hev₀, hopen, hname, hawaits⟩, htrail⟩ := h
  intro i ev hev
  have hi : i = 0 := by
    by_contra hi
    have hnone : x.1.event.committed i = none :=
      ((performAll_rested hx emptyInbox_rested).sequenced i (by omega) ()).committed
    rw [hev] at hnone
    cases hnone
  subst hi
  rw [hev₀] at hev
  cases hev
  refine ⟨fun _ => Or.inr hawaits, fun hnot => absurd ?_ hnot⟩
  exact ⟨Option.isNone_iff_eq_none.1 hopen, by rw [hname]; decide, waited_of_planTrail htrail⟩

end BrainstormServer
