/-
  What a call of `apply_entitlement` does, by its own history.

  Whatever the answers it gets, and hence whatever other sessions do meanwhile,
  a call that holds its user reads, and then either ends or records a resolution
  of what it has read (`Called`): the assignment if there is one, the
  subscription row, commit; or the columns do not hold what it would record.  `reconcileLocked_obeys` says so for every
  specification that admits such a history (`Admits`), after any history `u`.

  A call in a session of its own asks Flash, and writes, only while it holds its
  user, in its first transaction (`UnderLock`, `applyEntitlement_obeys`).
-/
import BrainstormServer.Billing.Alone
import BrainstormServer.Billing.Interleaving

namespace BrainstormServer

open Conc Prog

/-! ## Reads -/

/-- A read of Flash that found a subscription. -/
def answer (handle : Handle) (sub : FlashSubscription) : Σ c, Cmd.Ans c :=
  ⟨.fetchSubscription handle, .ok (some sub)⟩

def IsAnswer (x : Σ c, Cmd.Ans c) : Prop := ∃ handle sub, x = answer handle sub

/-- The subscription Flash has found, if the command asked for one. -/
def found : (Σ c, Cmd.Ans c) → Option (Handle × FlashSubscription)
  | ⟨.fetchSubscription handle, .ok (some sub)⟩ => some (handle, sub)
  | _ => none

theorem found_eq_some {x : Σ c, Cmd.Ans c} {handle : Handle} {sub : FlashSubscription} :
    found x = some (handle, sub) ↔ x = answer handle sub := by
  constructor
  · intro h
    unfold found at h
    split at h
    · cases h
      rfl
    · cases h
  · rintro rfl
    rfl

theorem isAnswer_iff {x : Σ c, Cmd.Ans c} : IsAnswer x ↔ (found x).isSome = true := by
  rw [Option.isSome_iff_exists]
  constructor
  · rintro ⟨handle, sub, h⟩
    exact ⟨(handle, sub), found_eq_some.2 h⟩
  · rintro ⟨⟨handle, sub⟩, h⟩
    exact ⟨handle, sub, found_eq_some.1 h⟩

instance (x : Σ c, Cmd.Ans c) : Decidable (IsAnswer x) := decidable_of_iff _ isAnswer_iff.symm

/-- Nothing but reads. -/
def Reads (t : Hist) : Prop := ∀ x ∈ t, x.1.isRead = true

theorem isRead_endsTx {c : Cmd} (h : c.isRead = true) : ¬ c.endsTx = true := by
  cases c <;> simp_all [Cmd.isRead, Cmd.endsTx]

theorem isRead_writes {c : Cmd} (h : c.isRead = true) :
    c.nsecWrite = none ∧ c.subscriptionKey = none := by
  cases c <;> simp_all [Cmd.isRead, Cmd.nsecWrite, Cmd.subscriptionKey]

/-- A read that a call makes before `_grant_and_record`. -/
def Cmd.looks : Cmd → Bool
  | isBillingBlocked _ => false
  | c => c.isRead

/-- Nothing but such reads. -/
def Looks (t : Hist) : Prop := ∀ x ∈ t, x.1.looks = true

theorem isRead_of_looks {c : Cmd} (h : c.looks = true) : c.isRead = true := by
  unfold Cmd.looks at h
  split at h
  · cases h
  · exact h

theorem Looks.reads {t : Hist} (h : Looks t) : Reads t := fun x hx => isRead_of_looks (h x hx)

theorem Looks.append {t t' : Hist} (h : Looks t) (h' : Looks t') : Looks (t ++ t') := by
  intro x hx
  rcases List.mem_append.1 hx with hx | hx
  · exact h x hx
  · exact h' x hx

theorem Looks.singleton (c : Cmd) (a : c.Ans) (h : c.looks = true) :
    Looks [(⟨c, a⟩ : Σ c, Cmd.Ans c)] := by
  intro x hx
  rw [List.mem_singleton.1 hx]
  exact h

theorem Reads.append {t t' : Hist} (h : Reads t) (h' : Reads t') : Reads (t ++ t') := by
  intro x hx
  rcases List.mem_append.1 hx with hx | hx
  · exact h x hx
  · exact h' x hx

theorem Reads.singleton (c : Cmd) (a : c.Ans) (h : c.isRead = true) :
    Reads [(⟨c, a⟩ : Σ c, Cmd.Ans c)] := by
  intro x hx
  rw [List.mem_singleton.1 hx]
  exact h

/-- `sub` is the last answer of Flash in `t`, with `t₂` after it. -/
def LastAnswer (t : Hist) (sub : FlashSubscription) (t₂ : Hist) : Prop :=
  ∃ t₁ handle, t = t₁ ++ answer handle sub :: t₂ ∧ ∀ x ∈ t₂, ¬ IsAnswer x

theorem LastAnswer.append {t t₂ t' : Hist} {sub : FlashSubscription} (h : LastAnswer t sub t₂)
    (ht' : ∀ x ∈ t', ¬ IsAnswer x) : LastAnswer (t ++ t') sub (t₂ ++ t') := by
  obtain ⟨t₁, handle, rfl, hn⟩ := h
  refine ⟨t₁, handle, by simp, fun x hx => ?_⟩
  rcases List.mem_append.1 hx with hx | hx
  · exact hn x hx
  · exact ht' x hx

theorem LastAnswer.prepend {t t₂ : Hist} {sub : FlashSubscription} (h : LastAnswer t sub t₂)
    (u : Hist) : LastAnswer (u ++ t) sub t₂ := by
  obtain ⟨t₁, handle, rfl, hn⟩ := h
  exact ⟨u ++ t₁, handle, by simp, hn⟩

/-- There is only one last answer. -/
theorem LastAnswer.unique {t t₂ t₂' : Hist} {sub sub' : FlashSubscription}
    (h : LastAnswer t sub t₂) (h' : LastAnswer t sub' t₂') : sub = sub' ∧ t₂ = t₂' := by
  obtain ⟨t₁, handle, he, hn⟩ := h
  obtain ⟨t₁', handle', he', hn'⟩ := h'
  rw [he] at he'
  rcases split_compare he' with ⟨m, -, hm⟩ | ⟨-, hx, ht⟩ | ⟨m, -, hm⟩
  · exact absurd ⟨handle', sub', rfl⟩ (hn _ (by rw [hm]; simp))
  · simp only [answer, Sigma.mk.injEq, Cmd.fetchSubscription.injEq] at hx
    obtain ⟨rfl, hx⟩ := hx
    simp only [heq_eq_eq, Except.ok.injEq, Option.some.injEq] at hx
    exact ⟨hx, ht⟩
  · exact absurd ⟨handle, sub, rfl⟩ (hn' _ (by rw [hm]; simp))

theorem not_isAnswer {c : Cmd} {a : c.Ans} (h : ∀ handle, c ≠ .fetchSubscription handle) :
    ¬ IsAnswer ⟨c, a⟩ := by
  rintro ⟨handle, sub, hx⟩
  exact h handle (congrArg Sigma.fst hx)

theorem LastAnswer.snoc {t t₂ : Hist} {sub : FlashSubscription} (h : LastAnswer t sub t₂) {c : Cmd}
    (a : c.Ans) (hc : ∀ handle, c ≠ .fetchSubscription handle) :
    LastAnswer (t ++ [⟨c, a⟩]) sub (t₂ ++ [⟨c, a⟩]) := by
  refine h.append fun x hx => ?_
  rw [List.mem_singleton.1 hx]
  exact not_isAnswer hc

/-! ## What can be recorded -/

/-- The subscription in hand after a command, with `sub` in hand before. -/
def handed (sub : Option FlashSubscription) : (Σ c, Cmd.Ans c) → Option FlashSubscription
  | ⟨.fetchSubscription _, .ok (some sub')⟩ => some sub'
  | _ => sub

/-- The subscription that Flash sent last. -/
def inHand (h : Hist) : Option FlashSubscription := h.foldl handed none

/-- A plan was found. -/
def planned : (Σ c, Cmd.Ans c) → Bool
  | ⟨.getBillingPlan _ _, some _⟩ => true
  | _ => false

/-- What Flash sends is held by the columns it is recorded in, wherever there is a plan for it. -/
def Recordable (h : Hist) : Prop :=
  ∀ i (hi : i < h.length), planned (h.get ⟨i, hi⟩) = true →
    (inHand (h.take i)).all FlashSubscription.recordable = true

instance (h : Hist) : Decidable (Recordable h) :=
  inferInstanceAs (Decidable (∀ i (hi : i < h.length), planned (h.get ⟨i, hi⟩) = true →
    (inHand (h.take i)).all FlashSubscription.recordable = true))

theorem inHand_concat (h : Hist) (x : Σ c, Cmd.Ans c) : inHand (h ++ [x]) = handed (inHand h) x :=
  List.foldl_concat ..

theorem handed_of_not_isAnswer {x : Σ c, Cmd.Ans c} (hx : ¬ IsAnswer x)
    (sub : Option FlashSubscription) : handed sub x = sub := by
  unfold handed
  split
  · rename_i handle sub'
    exact absurd ⟨handle, sub', rfl⟩ hx
  · rfl

theorem inHand_of_lastAnswer {t t₂ : Hist} {sub : FlashSubscription} (h : LastAnswer t sub t₂) :
    inHand t = some sub := by
  obtain ⟨t₁, handle, rfl, hn⟩ := h
  induction t₂ using List.reverseRecOn with
  | nil => exact inHand_concat _ _
  | append_singleton t₂ x ih =>
    rw [← List.cons_append, ← List.append_assoc, inHand_concat,
      handed_of_not_isAnswer (hn x (List.mem_append_right _ List.mem_cons_self))]
    exact ih fun y hy => hn y (List.mem_append_left _ hy)

theorem Recordable.of_append {h t : Hist} (ha : Recordable (h ++ t)) : Recordable h := by
  intro i hi hplan
  have hlt : i < (h ++ t).length := by
    rw [List.length_append]
    exact Nat.lt_add_right _ hi
  have hget : (h ++ t).get ⟨i, hlt⟩ = h.get ⟨i, hi⟩ := List.getElem_append_left hi
  have hrec := ha i hlt (by rw [hget]; exact hplan)
  rwa [List.take_append_of_le_length hi.le] at hrec

theorem Recordable.snoc {h : Hist} (ha : Recordable h) {x : Σ c, Cmd.Ans c}
    (hx : planned x = true → (inHand h).all FlashSubscription.recordable = true) :
    Recordable (h ++ [x]) := by
  intro i hi hplan
  rcases Nat.lt_or_ge i h.length with hlt | hge
  · have hget : (h ++ [x]).get ⟨i, hi⟩ = h.get ⟨i, hlt⟩ := List.getElem_append_left hlt
    rw [List.take_append_of_le_length hlt.le]
    exact ha i hlt (by rwa [hget] at hplan)
  · rw [List.length_append, List.length_singleton] at hi
    obtain rfl : i = h.length := by omega
    rw [List.take_append_of_le_length le_rfl, List.take_length]
    exact hx (by simpa using hplan)

/-- What has met a plan can be recorded. -/
theorem Recordable.of_planned {h t : Hist} {serviceId planId : String} {plan : ℕ × BillingPlan}
    {sub : FlashSubscription} (hsub : inHand h = some sub)
    (ha : Recordable (h ++ ⟨.getBillingPlan serviceId planId, some plan⟩ :: t)) :
    sub.recordable = true := by
  have hrec := ha h.length (by simp) (by simp [planned])
  rw [List.take_append_of_le_length le_rfl, List.take_length, hsub] at hrec
  exact hrec

/-! ## A call, once it holds the user -/

/-- The reads `t` a decision rests on: the row on file, and after the last
    answer of Flash the plan, the time and the user's flags. -/
structure Deliberated (p : Pubkey) (t : Hist) (existing : Option UserSubscription)
    (sub : FlashSubscription) (plan : ℕ × BillingPlan) (now : DateTime) (blocked : Bool)
    (source : SchedulingSource) : Prop where
  reads : Reads t
  existing : (⟨.getUserSubscription p, existing⟩ : Σ c, Cmd.Ans c) ∈ t
  since : ∃ t₂, LastAnswer t sub t₂ ∧
    (⟨.getBillingPlan sub.serviceId sub.planId, some plan⟩ : Σ c, Cmd.Ans c) ∈ t₂ ∧
    (⟨.utcNow, now⟩ : Σ c, Cmd.Ans c) ∈ t₂ ∧
    (⟨.isBillingBlocked p, blocked⟩ : Σ c, Cmd.Ans c) ∈ t₂
  source : (⟨.getSchedulingSource p, source⟩ : Σ c, Cmd.Ans c) ∈ t

theorem Deliberated.blocked {p : Pubkey} {t : Hist} {existing : Option UserSubscription}
    {sub : FlashSubscription} {plan : ℕ × BillingPlan} {now : DateTime} {blocked : Bool}
    {source : SchedulingSource} (hd : Deliberated p t existing sub plan now blocked source) :
    (⟨.isBillingBlocked p, blocked⟩ : Σ c, Cmd.Ans c) ∈ t := by
  obtain ⟨t₂, ⟨t₁, handle, rfl, -⟩, -, -, hblocked⟩ := hd.since
  exact List.mem_append_right _ (List.mem_cons_of_mem _ hblocked)

/-- The assignment a resolution asks for, in a history. -/
def assignment (p : Pubkey) (res : Resolution) : Hist :=
  match res.writePolicy, res.source with
  | true, some source => [⟨.setSchedulingForPubkey p res.schedulingId source, ()⟩]
  | _, _ => []

/-- A resolution writes an assignment and changes the row so, or neither. -/
theorem assignment_cases (p : Pubkey) (res : Resolution) :
    (∃ src, assignment p res = [⟨.setSchedulingForPubkey p res.schedulingId src, ()⟩] ∧
      ∀ row, res.assign row = { row with
        schedulingId := res.schedulingId
        schedulingSource := src }) ∨
      (assignment p res = [] ∧ ∀ row, res.assign row = row) := by
  unfold assignment Resolution.assign
  cases res.writePolicy with
  | false => exact Or.inr ⟨rfl, fun _ => rfl⟩
  | true =>
    cases res.source with
    | none => exact Or.inr ⟨rfl, fun _ => rfl⟩
    | some src => exact Or.inl ⟨src, rfl, fun _ => rfl⟩

/-- A call that reached `_grant_and_record`, after the history `u`. -/
def Written (p : Pubkey) (u h : Hist) : Prop :=
  ∃ t existing sub plan now blocked source,
    Deliberated p t existing sub plan now blocked source ∧
    ∃ res, res = resolveEntitlement (sub.decide now) blocked (isAdminHeld source)
      plan.2.schedulingId (existing.bind (·.grantedSchedulingId)) ∧
    h = u ++ (t ++ (assignment p res ++
      [⟨.upsertUserSubscription p sub plan.1 res.grantedSchedulingId, ()⟩, ⟨.commit, ()⟩]))

/-- A call that reached `_grant_and_record`, after the history `u`, with what the columns do not
    hold: the record is refused. -/
def WriteRefused (p : Pubkey) (u h : Hist) : Prop :=
  ∃ t existing sub plan now blocked source res,
    Deliberated p t existing sub plan now blocked source ∧ sub.recordable = false ∧
      h = u ++ (t ++ assignment p res)

/-- How a call ends: it recorded a resolution, its record was refused, or it did not come to
    one. -/
def Called (p : Pubkey) (u h : Hist) : Prop :=
  Written p u h ∨ WriteRefused p u h ∨ ∃ t, Looks t ∧ h = u ++ t

/-- The specification admits a call for `p` after the history `u`. -/
structure Admits (spec : Hist → Cmd → Prop) (p : Pubkey) (u : Hist) : Prop where
  read : ∀ {t c}, Reads t → c.isRead = true → spec (u ++ t) c
  assign : ∀ {t existing sub plan now blocked source},
    Deliberated p t existing sub plan now blocked source →
    ∀ i src, spec (u ++ t) (.setSchedulingForPubkey p i src)
  record : ∀ {t existing sub plan now blocked source},
    Deliberated p t existing sub plan now blocked source →
    ∀ res, res = resolveEntitlement (sub.decide now) blocked (isAdminHeld source)
      plan.2.schedulingId (existing.bind (·.grantedSchedulingId)) →
    spec (u ++ (t ++ assignment p res))
      (.upsertUserSubscription p sub plan.1 res.grantedSchedulingId)
  commit : ∀ h, spec h .commit

section
variable {spec : Hist → Cmd → Prop} {p : Pubkey} {u : Hist} {α : Type} (ha : Admits spec p u)
include ha

/-- The rule for a read. -/
theorem Admits.obeys_read {c : Cmd} {k : c.Ans → Billing α} {Q : Except Exn α → Hist → Prop}
    {t : Hist} (ht : Reads t) (hc : c.isRead = true)
    (hk : ∀ a, Reads (t ++ [⟨c, a⟩]) → (k a).Obeys spec Q (u ++ (t ++ [⟨c, a⟩]))) :
    (Prog.op c k : Billing α).Obeys spec Q (u ++ t) := by
  refine ⟨ha.read ht hc, fun a => ?_⟩
  rw [List.append_assoc]
  exact hk a (ht.append (.singleton c a hc))

theorem Admits.obeys_look {c : Cmd} {k : c.Ans → Billing α} {Q : Except Exn α → Hist → Prop}
    {t : Hist} (ht : Looks t) (hc : c.looks = true)
    (hk : ∀ a, Looks (t ++ [⟨c, a⟩]) → (k a).Obeys spec Q (u ++ (t ++ [⟨c, a⟩]))) :
    (Prog.op c k : Billing α).Obeys spec Q (u ++ t) :=
  ha.obeys_read ht.reads (isRead_of_looks hc) fun a _ => hk a (ht.append (.singleton c a hc))

/-- The postcondition of the reads of Flash: more reads, with the answer the last. -/
def LookedUp (u t : Hist) (sub : α → Option FlashSubscription) (r : Except Exn α) (h : Hist) :
    Prop :=
  ∃ t', h = u ++ (t ++ t') ∧ Looks (t ++ t') ∧
    ∀ a, r = .ok a → (∀ x, sub a = some x → ∃ t₂, LastAnswer (t ++ t') x t₂) ∧
      (sub a = none → ∀ x ∈ t', ¬ IsAnswer x)

theorem Admits.fetchSubscription_obeys {t : Hist} (ht : Looks t) (subscriptionId ref : Option String) :
    (fetchSubscription subscriptionId ref).Obeys spec (LookedUp u t id)
      (u ++ t) := by
  unfold fetchSubscription
  split
  · exact ⟨[], by simp, by simpa using ht, fun a ha => nomatch ha⟩
  · rename_i handle _
    refine ha.obeys_look ht rfl fun a ht' => ?_
    match a, ht' with
    | .ok (some sub), ht' =>
      refine ⟨_, rfl, ht', ?_⟩
      rintro _ ⟨⟩
      refine ⟨?_, fun h => nomatch h⟩
      rintro _ ⟨⟩
      exact ⟨[], t, handle, rfl, by simp⟩
    | .ok none, ht' =>
      refine ⟨_, rfl, ht', ?_⟩
      rintro _ ⟨⟩
      refine ⟨(fun x hx => nomatch hx), fun _ x hx => ?_⟩
      rw [List.mem_singleton.1 hx]
      rintro ⟨_, _, h⟩
      simp [answer] at h
    | .error (.unavailable m), ht' => exact ⟨_, rfl, ht', fun a ha => nomatch ha⟩
    | .error (.credential m), ht' => exact ⟨_, rfl, ht', fun a ha => nomatch ha⟩
    | .error (.unnamed m), ht' => exact ⟨_, rfl, ht', fun a ha => nomatch ha⟩

theorem Admits.lookUpSubscription_obeys {t : Hist} (ht : Looks t) (subscriptionId : Option String)
    (allowUnreferenced : Bool) :
    (lookUpSubscription p subscriptionId allowUnreferenced).Obeys spec
      (LookedUp u t (·.1)) (u ++ t) := by
  unfold lookUpSubscription
  simp only [await, bind_eq, call_bind, pure_eq]
  refine obeys_bind.2 (Obeys.mono ?_ (ha.fetchSubscription_obeys ht _ _))
  rintro (e | sub) h ⟨t', rfl, ht', hsub⟩
  · exact ⟨t', rfl, ht', fun a ha => nomatch ha⟩
  · obtain ⟨hsome, hnone⟩ := hsub sub rfl
    simp only
    split_ifs with hif
    · refine ha.obeys_look ht' rfl fun stored ht₂ => ?_
      have hmore : ∀ x ∈ t' ++ [(⟨.getUserSubscription p, stored⟩ : Σ c, Cmd.Ans c)],
          ¬ IsAnswer x := by
        intro x hx
        rcases List.mem_append.1 hx with hx | hx
        · exact hnone hif.1 x hx
        · rw [List.mem_singleton.1 hx]
          exact not_isAnswer (fun _ h => nomatch h)
      rw [List.append_assoc] at ht₂ ⊢
      cases stored with
      | none =>
        refine ⟨_, rfl, ht₂, ?_⟩
        rintro _ ⟨⟩
        exact ⟨(fun x hx => nomatch hx), fun _ => hmore⟩
      | some row =>
        refine obeys_bind.2 (Obeys.mono ?_ (ha.fetchSubscription_obeys ht₂ _ _))
        rintro (e | sub') h ⟨t₃, rfl, ht₃, hsub'⟩
        · rw [List.append_assoc] at ht₃ ⊢
          exact ⟨_, rfl, ht₃, fun a ha => nomatch ha⟩
        · obtain ⟨hsome', hnone'⟩ := hsub' sub' rfl
          rw [List.append_assoc] at ht₃ hsome' ⊢
          refine ⟨_, rfl, ht₃, ?_⟩
          rintro _ ⟨⟩
          refine ⟨hsome', fun hs x hx => ?_⟩
          rcases List.mem_append.1 hx with hx | hx
          · exact hmore x hx
          · exact hnone' hs x hx
    · refine ⟨t', rfl, ht', ?_⟩
      rintro _ ⟨⟩
      exact ⟨hsome, hnone⟩

theorem Admits.currentSubscription_obeys {t : Hist} (ht : Looks t) (existing : Option UserSubscription)
    {sub : FlashSubscription} (hsub : ∃ t₂, LastAnswer t sub t₂) :
    (currentSubscription p existing sub).Obeys spec (LookedUp u t some)
      (u ++ t) := by
  unfold currentSubscription
  split_ifs
  · refine obeys_bind.2 (Obeys.mono ?_ (ha.fetchSubscription_obeys ht _ _))
    rintro (e | current) h ⟨t', rfl, ht', hcur⟩
    · exact ⟨t', rfl, ht', fun a ha => nomatch ha⟩
    · obtain ⟨hsome, hnone⟩ := hcur current rfl
      refine ⟨t', rfl, ht', ?_⟩
      rintro _ ⟨⟩
      refine ⟨?_, fun h => nomatch h⟩
      rintro _ ⟨⟩
      cases current with
      | none =>
        obtain ⟨t₂, hlast⟩ := hsub
        exact ⟨_, hlast.append (hnone rfl)⟩
      | some sub' => exact hsome sub' rfl
  · refine ⟨[], by simp, by simpa using ht, ?_⟩
    rintro _ ⟨⟩
    refine ⟨?_, fun h => nomatch h⟩
    rintro _ ⟨⟩
    simpa using hsub

/-- From the resolution on: the assignment, the row, the commit. -/
theorem Admits.record_obeys {t : Hist} {existing : Option UserSubscription}
    {sub : FlashSubscription} {plan : ℕ × BillingPlan} {now : DateTime} {blocked : Bool}
    {source : SchedulingSource} (hd : Deliberated p t existing sub plan now blocked source)
    {res : Resolution} (hres : res = resolveEntitlement (sub.decide now) blocked
      (isAdminHeld source) plan.2.schedulingId (existing.bind (·.grantedSchedulingId)))
    (out : EntitlementOutcome) :
    ((assignPolicy p res).bind fun _ =>
      (upsertUserSubscription p sub plan.1 res.grantedSchedulingId).bind fun _ =>
      Prog.op .commit fun _ => (.ret out : Billing EntitlementOutcome)).Obeys spec
      (fun _ h => Called p u h) (u ++ t) := by
  -- the row and the commit, once the assignment is made
  have hrest : ((upsertUserSubscription p sub plan.1 res.grantedSchedulingId).bind fun _ =>
      Prog.op .commit fun _ => (.ret out : Billing EntitlementOutcome)).Obeys spec
      (fun _ h => Called p u h) (u ++ (t ++ assignment p res)) := by
    unfold upsertUserSubscription
    split_ifs with hrec
    · refine ⟨ha.record hd res hres, fun _ => ⟨ha.commit _, fun _ => ?_⟩⟩
      refine Or.inl ⟨t, existing, sub, plan, now, blocked, source, hd, res, hres, ?_⟩
      simp
    · exact Or.inr (Or.inl ⟨t, existing, sub, plan, now, blocked, source, res, hd,
        Bool.eq_false_iff.2 hrec, rfl⟩)
  unfold assignPolicy
  unfold assignment at hrest
  split
  · rename_i src hw hsrc
    rw [hw, hsrc, ← List.append_assoc] at hrest
    exact ⟨ha.assign hd _ _, fun _ => hrest⟩
  · rename_i hne
    have hnil : (match res.writePolicy, res.source with
        | true, some source => [⟨.setSchedulingForPubkey p res.schedulingId source, ()⟩]
        | _, _ => [] : Hist) = [] := by
      split
      · exact (hne _ ‹_› ‹_›).elim
      · rfl
    rw [hnil, List.append_nil] at hrest
    exact hrest

theorem Admits.grantAndRecord_obeys {t : Hist} {existing : Option UserSubscription}
    {sub : FlashSubscription} {plan : ℕ × BillingPlan} {now : DateTime} (ht : Looks t)
    (hex : (⟨.getUserSubscription p, existing⟩ : Σ c, Cmd.Ans c) ∈ t)
    (hsince : ∃ t₂, LastAnswer t sub t₂ ∧
      (⟨.getBillingPlan sub.serviceId sub.planId, some plan⟩ : Σ c, Cmd.Ans c) ∈ t₂ ∧
      (⟨.utcNow, now⟩ : Σ c, Cmd.Ans c) ∈ t₂) :
    (grantAndRecord p sub plan now existing).Obeys spec (fun _ h => Called p u h) (u ++ t) := by
  unfold grantAndRecord
  simp only [await, bind_eq, call_bind, pure_eq]
  refine ha.obeys_read ht.reads rfl fun blocked ht₁ => ha.obeys_read ht₁ rfl fun source ht₂ => ?_
  refine ha.record_obeys ⟨ht₂, by simp [hex], ?_, by simp⟩ rfl _
  obtain ⟨t₂, hlast, hplan, hnow⟩ := hsince
  exact ⟨_, (hlast.snoc blocked (fun _ h => nomatch h)).snoc source (fun _ h => nomatch h),
    by simp [hplan], by simp [hnow], by simp⟩

theorem Admits.decideFrom_obeys {t : Hist} {sub : FlashSubscription} (ht : Looks t)
    (hsub : ∃ t₂, LastAnswer t sub t₂) :
    (decideFrom p sub).Obeys spec (fun _ h => Called p u h) (u ++ t) := by
  unfold decideFrom
  simp only [await, bind_eq, call_bind, pure_eq]
  refine ha.obeys_look ht rfl fun existing ht₁ => ?_
  have hsub₁ : ∃ t₂, LastAnswer (t ++ [⟨.getUserSubscription p, existing⟩]) sub t₂ := by
    obtain ⟨t₂, hlast⟩ := hsub
    exact ⟨_, hlast.snoc existing (fun _ h => nomatch h)⟩
  refine obeys_bind.2 (Obeys.mono ?_ (ha.currentSubscription_obeys ht₁ existing hsub₁))
  rintro (e | current) h ⟨t', rfl, ht', hcur⟩
  · exact Or.inr (Or.inr ⟨_, ht', rfl⟩)
  · obtain ⟨t₂, hlast⟩ := (hcur current rfl).1 current rfl
    unfold getBillingPlan
    simp only [await, bind_eq, call_bind, pure_eq]
    refine ha.obeys_look ht' rfl fun plan ht₃ => ?_
    split_ifs
    · cases plan with
      | none => exact Or.inr (Or.inr ⟨_, ht₃, rfl⟩)
      | some plan =>
        refine ha.obeys_look ht₃ rfl fun now ht₄ => ha.grantAndRecord_obeys ht₄ (by simp) ?_
        have hplan := hlast.snoc (c := .getBillingPlan current.serviceId current.planId) (some plan)
          (fun _ h => nomatch h)
        exact ⟨_, hplan.snoc now (fun _ h => nomatch h), by simp, by simp⟩
    · exact Or.inr (Or.inr ⟨_, ht₃, rfl⟩)

/-- **What a call does** once it holds the user, whatever it is told. -/
theorem Admits.reconcileLocked_obeys (subscriptionId : Option String) (allowUnreferenced : Bool) :
    (reconcileLocked p subscriptionId allowUnreferenced).Obeys spec (fun _ h => Called p u h) u := by
  unfold reconcileLocked
  simp only [bind_eq, pure_eq]
  have hnil : Looks [] := fun x hx => nomatch hx
  have hlook := ha.lookUpSubscription_obeys hnil subscriptionId allowUnreferenced
  rw [List.append_nil] at hlook
  refine obeys_bind.2 (Obeys.mono ?_ hlook)
  rintro (e | ⟨sub, allowed⟩) h ⟨t', rfl, ht', hsub⟩
  · exact Or.inr (Or.inr ⟨_, ht', rfl⟩)
  · cases sub with
    | none => exact Or.inr (Or.inr ⟨_, ht', rfl⟩)
    | some sub =>
      show Prog.Obeys _ _ _ _
      dsimp only
      split
      · exact Or.inr (Or.inr ⟨_, ht', rfl⟩)
      · exact ha.decideFrom_obeys ht' ((hsub _ rfl).1 sub rfl)

end

/-! ## A call in a session of its own -/

/-- Flash is asked, and the two tables are written, only by a session that holds
    the user `p`, in its first transaction; and only `p`'s rows are written. -/
def UnderLock (p : Pubkey) (h : Hist) (c : Cmd) : Prop :=
  ((∃ handle, c = .fetchSubscription handle) ∨ c.nsecWrite.isSome ∨ c.subscriptionKey.isSome) →
    Holds p h ∧ (∀ x ∈ h, ¬ x.1.endsTx = true) ∧
      (∀ q, c.nsecWrite = some q → q = p) ∧ ∀ q, c.subscriptionKey = some q → q = p

/-- Nothing is asked of the other commands. -/
theorem underLock_of_idle {p : Pubkey} {h : Hist} {c : Cmd} (hf : ∀ handle, c ≠ .fetchSubscription handle)
    (hn : c.nsecWrite = none) (hs : c.subscriptionKey = none) : UnderLock p h c := by
  rintro (⟨handle, hc⟩ | hc | hc)
  · exact absurd hc (hf handle)
  · simp [hn] at hc
  · simp [hs] at hc

/-- The history so far: the user was found and locked, then only read. -/
def Locked₂ (p : Pubkey) (skip : Bool) (t : Hist) : Hist :=
  ⟨.brainstormNsecExists p, true⟩ :: ⟨.lockUserForUpdate p skip, true⟩ :: t

variable {p : Pubkey} {skip : Bool} {α : Type}

theorem holds_locked₂ {t : Hist} (ht : Reads t) : Holds p (Locked₂ p skip t) :=
  ⟨[⟨.brainstormNsecExists p, true⟩], skip, t, rfl, fun x hx => isRead_endsTx (ht x hx)⟩

theorem endsTx_locked₂ {t : Hist} (ht : Reads t) : ∀ x ∈ Locked₂ p skip t, ¬ x.1.endsTx = true := by
  intro x hx
  rcases List.mem_cons.1 hx with rfl | hx
  · simp [Cmd.endsTx]
  · rcases List.mem_cons.1 hx with rfl | hx
    · simp [Cmd.endsTx]
    · exact isRead_endsTx (ht x hx)

/-- The handler's specification admits a call once the user is locked. -/
theorem admits_underLock : Admits (UnderLock p) p (Locked₂ p skip []) where
  read := by
    intro t c ht hc _
    refine ⟨holds_locked₂ ht, endsTx_locked₂ ht, fun q hq => ?_, fun q hq => ?_⟩
    · rw [(isRead_writes hc).1] at hq
      cases hq
    · rw [(isRead_writes hc).2] at hq
      cases hq
  assign := by
    intro t _ _ _ _ _ _ hd i src _
    refine ⟨holds_locked₂ hd.reads, endsTx_locked₂ hd.reads, fun q hq => ?_, fun q hq => ?_⟩
    · cases hq
      rfl
    · cases hq
  record := by
    intro t _ _ _ _ _ _ hd res _ _
    have hassign : ∀ x ∈ assignment p res, ¬ x.1.endsTx = true := by
      intro x hx
      rcases assignment_cases p res with ⟨src, h, -⟩ | ⟨h, -⟩
      · rw [h, List.mem_singleton] at hx
        rw [hx]
        simp [Cmd.endsTx]
      · rw [h] at hx
        cases hx
    refine ⟨(holds_locked₂ hd.reads).append hassign, fun x hx => ?_, fun q hq => ?_,
      fun q hq => ?_⟩
    · rw [← List.append_assoc] at hx
      rcases List.mem_append.1 hx with hx | hx
      · exact endsTx_locked₂ hd.reads x hx
      · exact hassign x hx
    · cases hq
    · cases hq
      rfl
  commit _ := underLock_of_idle (by simp) rfl rfl

/-- How a call for `p` in a session of its own ends. -/
def Ended (p : Pubkey) (h : Hist) : Prop :=
  (∃ skip, Written p (Locked₂ p skip []) h) ∨ (∃ skip, WriteRefused p (Locked₂ p skip []) h) ∨
    Looks h

/-- **What a handler does**, whatever it is told. -/
theorem applyEntitlement_obeys (p : Pubkey) (subscriptionId : Option String)
    (yieldIfBusy allowUnreferenced : Bool) :
    (applyEntitlement (some p) subscriptionId yieldIfBusy allowUnreferenced).Obeys (UnderLock p)
      (fun _ h => Ended p h) [] := by
  unfold applyEntitlement
  by_cases hp : p = ""
  · rw [hp]
    exact Or.inr (Or.inr fun x hx => nomatch hx)
  simp only [given, Option.filter_some, hp, ne_eq, not_false_eq_true, decide_true, if_true, await,
    bind_eq, call_bind, pure_eq]
  refine ⟨underLock_of_idle (fun _ h => nomatch h) rfl rfl, fun found => ?_⟩
  cases found with
  | false => exact Or.inr (Or.inr (.singleton (.brainstormNsecExists p) false rfl))
  | true =>
    refine ⟨underLock_of_idle (fun _ h => nomatch h) rfl rfl, fun locked => ?_⟩
    have hfound := Looks.singleton (.brainstormNsecExists p) true rfl
    cases locked with
    | false =>
      exact Or.inr (Or.inr (hfound.append (.singleton (.lockUserForUpdate p yieldIfBusy) false rfl)))
    | true =>
      refine (admits_underLock.reconcileLocked_obeys subscriptionId allowUnreferenced).mono ?_
      rintro r h (hw | hw | ⟨t, ht, rfl⟩)
      · exact Or.inl ⟨yieldIfBusy, hw⟩
      · exact Or.inr (Or.inl ⟨yieldIfBusy, hw⟩)
      · exact Or.inr (Or.inr
          ((hfound.append (.singleton (.lockUserForUpdate p yieldIfBusy) true rfl)).append ht))

/-- The history of a finished session that made one call. -/
def Finished (p : Pubkey) (h : Hist) : Prop :=
  ∃ h₀ z, h = h₀ ++ z ∧ Ended p h₀ ∧ ∀ x ∈ z, x.1.endsTx = true

theorem dbSession_obeys {c : Billing α} (h : c.Obeys (UnderLock p) (fun _ h => Ended p h) []) :
    (dbSession c).Obeys (UnderLock p) (fun _ h => Finished p h) [] := by
  have hidle : ∀ h c, c.endsTx = true → UnderLock p h c := by
    intro h c hc
    rcases endsTx_cases hc with rfl | rfl
    · exact underLock_of_idle (fun _ h => nomatch h) rfl rfl
    · exact underLock_of_idle (fun _ h => nomatch h) rfl rfl
  exact obeys_dbSession hidle (Obeys.mono (fun _ h₀ hended z hz => ⟨h₀, z, rfl, hended, hz⟩) h)

end BrainstormServer
