/-
  A subscription handle is no authority over an account.

  A call of `apply_entitlement` decides from the subscription Flash has found
  last (`answers`).  It entitles to decide about `p` if it carries the reference
  `p`, or if it carries none and was reached by the id on the row of `p`
  (`Entitles`).

  The subscription found first is held to that by the guards.  Where it is not
  the one on file, a second lookup by reference takes its place, and nothing
  checks what that one found: a write of the call is authorised if and only if
  the second lookup, if there was one, found a subscription that carries the
  reference (`write_authorised_iff`).
-/
import BrainstormServer.Billing.Commands
import BrainstormServer.Billing.History

namespace BrainstormServer

open Conc Prog

/-! ## What a write rests on -/

/-- What Flash has found for a session, in order. -/
def answers (h : Hist) : List (Handle × FlashSubscription) := h.filterMap found

/-- The subscription carries the reference `p`, or it carries none and was
    reached by the id on the row of `p`. -/
def Entitles (p : Pubkey) (h : Hist) (handle : Handle) (sub : FlashSubscription) : Prop :=
  given sub.ref = some p ∨
    given sub.ref = none ∧ ∃ row, (⟨.getUserSubscription p, some row⟩ : Σ c, Cmd.Ans c) ∈ h ∧
      handle = .byId row.flashSubscriptionId

/-- The command writes what `sub` entitles to, or records `sub`. -/
def DecidedFrom (sub : FlashSubscription) : Cmd → Prop
  | .setSchedulingForPubkey _ schedulingId source =>
    ∃ now blocked adminHeld planSchedulingId existing res,
      res = resolveEntitlement (sub.decide now) blocked adminHeld planSchedulingId existing ∧
      res.writePolicy = true ∧ res.schedulingId = schedulingId ∧ res.source = some source
  | .upsertUserSubscription _ sub' _ _ => sub' = sub
  | _ => False

/-- The write rests on the subscription found last, and that one entitles. -/
def Authorised (p : Pubkey) (h : Hist) (c : Cmd) : Prop :=
  ∃ handle sub, (answers h).getLast? = some (handle, sub) ∧ DecidedFrom sub c ∧
    Entitles p h handle sub

/-- What a lookup by reference has found after another lookup carries the
    reference. -/
def Referenced (p : Pubkey) (h : Hist) : Prop :=
  ∀ sub, (Handle.byRef p, sub) ∈ (answers h).tail → given sub.ref = some p

/-- The command writes a row of `p`. -/
def Cmd.writesFor (p : Pubkey) (c : Cmd) : Prop :=
  c.nsecWrite = some p ∨ c.subscriptionKey = some p

@[simp] theorem answers_nil : answers [] = [] := rfl

@[simp] theorem answers_append (h h' : Hist) : answers (h ++ h') = answers h ++ answers h' :=
  List.filterMap_append

theorem answers_singleton_of_not {c : Cmd} (a : c.Ans) (hc : ∀ handle, c ≠ .fetchSubscription handle) :
    answers [⟨c, a⟩] = [] := by
  cases c with
  | fetchSubscription handle => exact absurd rfl (hc handle)
  | _ => rfl

theorem Entitles.mono {p : Pubkey} {h : Hist} {handle : Handle} {sub : FlashSubscription}
    (he : Entitles p h handle sub) (h' : Hist) : Entitles p (h ++ h') handle sub := by
  rcases he with href | ⟨hnone, row, hrow, hid⟩
  · exact Or.inl href
  · exact Or.inr ⟨hnone, row, List.mem_append_left _ hrow, hid⟩

/-- What was found before carried the reference if all of it does. -/
theorem Referenced.of_append {p : Pubkey} {h h' : Hist} (hr : Referenced p (h ++ h')) :
    Referenced p h := by
  intro sub hsub
  refine hr sub ?_
  rw [answers_append]
  cases hans : answers h with
  | nil =>
    rw [hans] at hsub
    cases hsub
  | cons x xs =>
    rw [hans] at hsub
    exact List.mem_append_left _ hsub

/-! ## A call -/

/-- The subscription in hand is the last one found, and it entitles unless a
    second lookup has found one without the reference. -/
structure InHand (p : Pubkey) (h : Hist) (handle : Handle) (sub : FlashSubscription) : Prop where
  last : (answers h).getLast? = some (handle, sub)
  cases : Entitles p h handle sub ∧ Referenced p h ∨
    handle = .byRef p ∧ given sub.ref ≠ some p ∧ ¬ Referenced p h

/-- The writes of a call. -/
def Vouched (p : Pubkey) (h : Hist) (c : Cmd) : Prop :=
  ∀ q, c.writesFor q → q = p ∧ (Authorised p h c ↔ Referenced p h)

section
variable {p : Pubkey} {h : Hist} {handle : Handle} {sub : FlashSubscription} {α : Type}

/-- Whatever else the session executes, as long as Flash finds nothing more. -/
theorem InHand.append (hi : InHand p h handle sub) {t : Hist} (ht : answers t = []) :
    InHand p (h ++ t) handle sub := by
  have hsame : answers (h ++ t) = answers h := by rw [answers_append, ht, List.append_nil]
  have href : Referenced p (h ++ t) ↔ Referenced p h := by
    unfold Referenced
    rw [hsame]
  refine ⟨by rw [hsame]; exact hi.last, ?_⟩
  rw [href]
  exact hi.cases.imp_left fun ⟨he, hr⟩ => ⟨he.mono t, hr⟩

theorem InHand.snoc (hi : InHand p h handle sub) {c : Cmd} (a : c.Ans)
    (hc : ∀ handle, c ≠ .fetchSubscription handle) : InHand p (h ++ [⟨c, a⟩]) handle sub :=
  hi.append (answers_singleton_of_not a hc)

/-- A write decided from the subscription in hand is authorised as it should be. -/
theorem InHand.vouched (hi : InHand p h handle sub) {c : Cmd} (hc : DecidedFrom sub c)
    (hp : ∀ q, c.writesFor q → q = p) : Vouched p h c := by
  intro q hq
  refine ⟨hp q hq, ?_⟩
  constructor
  · rintro ⟨handle', sub', hlast, -, he⟩
    obtain ⟨rfl, rfl⟩ := Prod.mk.inj (Option.some.inj (hlast.symm.trans hi.last))
    rcases hi.cases with ⟨-, hr⟩ | ⟨hby, hne, -⟩
    · exact hr
    · rcases he with href | ⟨-, row, -, hid⟩
      · exact absurd href hne
      · rw [hby] at hid
        cases hid
  · intro hr
    rcases hi.cases with ⟨he, -⟩ | ⟨-, -, hnr⟩
    · exact ⟨handle, sub, hi.last, hc, he⟩
    · exact absurd hr hnr

/-- Nothing is asked of a command that writes no row of a user. -/
theorem vouched_of_idle {c : Cmd} (hn : c.nsecWrite = none) (hs : c.subscriptionKey = none) :
    Vouched p h c := by
  rintro q (hq | hq)
  · rw [hn] at hq
    cases hq
  · rw [hs] at hq
    cases hq

/-- The subscription found first, before the guards. -/
structure First (p : Pubkey) (h : Hist) (sub : FlashSubscription) (allowed : Bool) : Prop where
  found : ∃ handle, answers h = [(handle, sub)] ∧
    (allowed = true → ∃ row, (⟨.getUserSubscription p, some row⟩ : Σ c, Cmd.Ans c) ∈ h ∧
      handle = .byId row.flashSubscriptionId)

theorem lookUpSubscription_vouched (hh : answers h = []) (subscriptionId : Option String) :
    (lookUpSubscription p subscriptionId false).Obeys (Vouched p)
      (fun r h' => ∀ sub allowed, r = .ok (some sub, allowed) → First p h' sub allowed) h := by
  unfold lookUpSubscription
  simp only [await, bind_eq, call_bind, pure_eq]
  refine obeys_bind.2 (fetchSubscription_obeys (fun _ => vouched_of_idle rfl rfl)
    (fun e h' sub allowed hr => nomatch hr) ?_)
  intro handle r _
  simp only
  split_ifs with hif
  · -- Flash has none under the reference: the id on file is next
    obtain ⟨rfl, -⟩ := hif
    refine ⟨vouched_of_idle rfl rfl, fun stored => ?_⟩
    cases stored with
    | none =>
      intro sub allowed hr
      cases hr
    | some row =>
      refine obeys_bind.2 (fetchSubscription_obeys (fun _ => vouched_of_idle rfl rfl)
        (fun e h' sub allowed hr => nomatch hr) ?_)
      rintro handle' r' hhandle sub allowed ⟨⟩
      refine ⟨handle', ?_, fun _ => ⟨row, by simp, handle_byId hhandle⟩⟩
      rw [answers_append, answers_append, answers_append, hh]
      rfl
  · intro sub allowed hr
    cases hr
    refine ⟨handle, ?_, fun ha => nomatch ha⟩
    rw [answers_append, hh]
    rfl

/-- The guards let only a subscription through that entitles. -/
theorem First.inHand {allowed : Bool} (hf : First p h sub allowed)
    (hguard : refuseReference p sub allowed = none) : ∃ handle, InHand p h handle sub := by
  obtain ⟨handle, hans, hstored⟩ := hf.found
  refine ⟨handle, by rw [hans]; rfl, Or.inl ⟨?_, ?_⟩⟩
  · unfold refuseReference at hguard
    cases href : given sub.ref with
    | none =>
      rw [href] at hguard
      cases allowed with
      | false => cases hguard
      | true => exact Or.inr ⟨href, hstored rfl⟩
    | some ref =>
      rw [href] at hguard
      simp only [ne_eq, ite_not, ite_eq_left_iff, reduceCtorEq, imp_false, not_not] at hguard
      exact Or.inl (by rw [href, hguard])
  · intro sub' hmem
    rw [hans] at hmem
    cases hmem

/-- Where the subscription in hand is not the one on file, the one found by the
    reference takes its place. -/
theorem currentSubscription_vouched (hf : ∃ handle', answers h = [(handle', sub)])
    (hi : InHand p h handle sub) (existing : Option UserSubscription) :
    (currentSubscription p existing sub).Obeys (Vouched p)
      (fun r h' => ∀ current, r = .ok current → ∃ handle, InHand p h' handle current) h := by
  obtain ⟨handle', hans⟩ := hf
  unfold currentSubscription
  split_ifs
  · refine obeys_bind.2 (fetchSubscription_obeys (fun _ => vouched_of_idle rfl rfl)
      (fun e h' current hr => nomatch hr) ?_)
    rintro second r hsecond current ⟨⟩
    cases r with
    | none =>
      -- nothing under the reference: the first one stays in hand
      exact ⟨handle, hi.append rfl⟩
    | some current =>
      have hby : second = .byRef p := handle_byRef hsecond
      have hboth : answers (h ++ [⟨.fetchSubscription second, .ok (some current)⟩]) =
          [(handle', sub), (.byRef p, current)] := by
        rw [answers_append, hans, hby]
        rfl
      refine ⟨.byRef p, by rw [hboth]; rfl, ?_⟩
      by_cases href : given current.ref = some p
      · refine Or.inl ⟨Or.inl href, fun sub' hmem => ?_⟩
        rw [hboth] at hmem
        simp only [List.tail_cons, List.mem_singleton, Prod.mk.injEq, true_and] at hmem
        rw [hmem]
        exact href
      · refine Or.inr ⟨rfl, href, fun hr => href (hr current ?_)⟩
        rw [hboth]
        simp
  · rintro current ⟨⟩
    exact ⟨handle, hi⟩

theorem grantAndRecord_vouched (hi : InHand p h handle sub) (plan : ℕ × BillingPlan)
    (now : DateTime) (existing : Option UserSubscription) :
    (grantAndRecord p sub plan now existing).Obeys (Vouched p) (fun _ _ => True) h := by
  unfold grantAndRecord
  simp only [await, bind_eq, call_bind, pure_eq]
  refine ⟨vouched_of_idle rfl rfl, fun blocked => ⟨vouched_of_idle rfl rfl, fun source => ?_⟩⟩
  have hi₂ := (hi.snoc (c := .isBillingBlocked p) blocked (fun _ h => nomatch h)).snoc
    (c := .getSchedulingSource p) source (fun _ h => nomatch h)
  -- the row and the commit
  have hrecord : ∀ {h'} (g : Option SchedulingId) (out : EntitlementOutcome), InHand p h' handle sub →
      ((upsertUserSubscription p sub plan.1 g).bind fun _ =>
        Prog.op .commit fun _ => (.ret out : Billing EntitlementOutcome)).Obeys (Vouched p)
        (fun _ _ => True) h' := by
    intro h' g out hi'
    unfold upsertUserSubscription
    split_ifs
    · refine ⟨hi'.vouched rfl ?_, fun _ => ⟨vouched_of_idle rfl rfl, fun _ => trivial⟩⟩
      rintro q (hq | hq)
      · cases hq
      · cases hq
        rfl
    · trivial
  unfold assignPolicy
  beta_reduce
  split
  · rename_i source' hwrite hsource
    refine ⟨hi₂.vouched ⟨now, blocked, isAdminHeld source, plan.2.schedulingId,
      existing.bind (·.grantedSchedulingId), _, rfl, hwrite, rfl, hsource⟩ ?_, fun _ => ?_⟩
    · rintro q (hq | hq)
      · cases hq
        rfl
      · cases hq
    · exact hrecord _ _ (hi₂.snoc _ (fun _ h => nomatch h))
  · exact hrecord _ _ hi₂

theorem decideFrom_vouched (hf : ∃ handle', answers h = [(handle', sub)])
    (hi : InHand p h handle sub) :
    (decideFrom p sub).Obeys (Vouched p) (fun _ _ => True) h := by
  unfold decideFrom
  simp only [await, bind_eq, call_bind, pure_eq]
  refine ⟨vouched_of_idle rfl rfl, fun existing => ?_⟩
  have hi₁ := hi.snoc (c := .getUserSubscription p) existing (fun _ h => nomatch h)
  have hf₁ : ∃ handle', answers (h ++ [⟨.getUserSubscription p, existing⟩]) = [(handle', sub)] := by
    obtain ⟨handle', hans⟩ := hf
    exact ⟨handle', by rw [answers_append, hans]; rfl⟩
  refine obeys_bind.2 (Obeys.mono ?_ (currentSubscription_vouched hf₁ hi₁ existing))
  rintro (e | current) h' hcurrent
  · trivial
  · obtain ⟨handle₂, hi₂⟩ := hcurrent current rfl
    unfold getBillingPlan
    simp only [await, bind_eq, call_bind, pure_eq]
    refine ⟨vouched_of_idle rfl rfl, fun plan => ?_⟩
    split_ifs
    · cases plan with
      | none => trivial
      | some plan =>
        refine ⟨vouched_of_idle rfl rfl, fun now => ?_⟩
        have hi₃ := hi₂.snoc (c := .getBillingPlan current.serviceId current.planId) (some plan)
          (fun _ h => nomatch h)
        exact grantAndRecord_vouched (hi₃.snoc (c := .utcNow) now (fun _ h => nomatch h)) plan now
          existing
    · trivial

theorem reconcileLocked_vouched (hh : answers h = []) (subscriptionId : Option String) :
    (reconcileLocked p subscriptionId false).Obeys (Vouched p) (fun _ _ => True) h := by
  unfold reconcileLocked
  simp only [bind_eq, pure_eq]
  refine obeys_bind.2 (Obeys.mono ?_ (lookUpSubscription_vouched hh subscriptionId))
  rintro (e | ⟨sub, allowed⟩) h' hfirst
  · trivial
  · cases sub with
    | none => trivial
    | some sub =>
      have hf := hfirst sub allowed rfl
      show Prog.Obeys _ _ _ _
      dsimp only
      split
      · trivial
      · rename_i hguard
        obtain ⟨handle, hi⟩ := hf.inHand hguard
        obtain ⟨handle', hans, -⟩ := hf.found
        exact decideFrom_vouched ⟨handle', hans⟩ hi

/-- **The writes of a call**, whatever it is told. -/
theorem applyEntitlement_vouched (p : Pubkey) (subscriptionId : Option String) (yieldIfBusy : Bool) :
    (applyEntitlement (some p) subscriptionId yieldIfBusy false).Obeys (Vouched p)
      (fun _ _ => True) [] := by
  unfold applyEntitlement
  by_cases hp : p = ""
  · rw [hp]
    trivial
  simp only [given, Option.filter_some, hp, ne_eq, not_false_eq_true, decide_true, if_true, await,
    bind_eq, call_bind, pure_eq]
  refine ⟨vouched_of_idle rfl rfl, fun exists_ => ?_⟩
  cases exists_ with
  | false => trivial
  | true =>
    refine ⟨vouched_of_idle rfl rfl, fun locked => ?_⟩
    cases locked with
    | false => trivial
    | true => exact reconcileLocked_vouched rfl subscriptionId

end

/-- **A call decides from somebody else's subscription exactly if a second lookup
    found one.**  Session `v` makes the call, the others do what they like. -/
theorem write_authorised_iff {S : Type} [DecidableEq S] (v : S) (p : Pubkey)
    (subscriptionId : Option String) (yieldIfBusy : Bool) (prog : S → Billing Unit)
    (hv : prog v = discard (dbSession (applyEntitlement (some p) subscriptionId yieldIfBusy false)))
    (st : Store S) (xs : List (S × Outside)) (cfg : Config Cmd.Ans Exn Unit S (Store S))
    (hrun : (start prog st).run exec xs = some cfg) :
    (∀ l (e : LogEntry S) l', cfg.log = l ++ e :: l' → e.session = v → e.cmd.writesFor p →
      Authorised p (own v l) e.cmd) ↔
    (∀ l (e : LogEntry S) l', cfg.log = l ++ e :: l' → e.session = v → e.cmd.writesFor p →
      Referenced p (own v l)) := by
  have hobeys : ((start prog st).prog v).Obeys (Vouched p) (fun _ _ => True) [] := by
    show (prog v).Obeys _ _ _
    rw [hv]
    refine obeys_discard (obeys_dbSession (fun h c hc => ?_)
      ((applyEntitlement_vouched p subscriptionId yieldIfBusy).mono fun _ _ _ _ _ => trivial))
    rcases endsTx_cases hc with rfl | rfl
    · exact vouched_of_idle rfl rfl
    · exact vouched_of_idle rfl rfl
  refine forall_congr' fun l => forall_congr' fun e => forall_congr' fun l' =>
    forall_congr' fun hl => forall_congr' fun hs => forall_congr' fun hw => ?_
  exact (Config.run_obeys_one v (Vouched p) rfl hobeys hrun hl hs p hw).2

/-- `"alice"` has `"sub_0"` on file and hands in `"sub_1"`, which is hers; asked by
    her reference, Flash answers with `second`.  The run up to the row recorded. -/
def handedIn (second : FlashSubscription) : Option (Config Cmd.Ans Exn Unit Unit (Store Unit)) :=
  (start (fun _ => discard (dbSession (applyEntitlement (some "alice") (some "sub_1") false false)))
    (sampleStore (fun p => if p = "alice" then some .created else none)
      (fun p => if p = "alice" then some (recordSubscription
        (sampleSubscription "sub_0" "expired" (some "alice")) 0 none 10 none) else none)
      ["alice"])).run exec
    (List.replicate 11 ((), { now := 20, flash := fun
      | .byId _ => .ok (some (sampleSubscription "sub_1" "active" (some "alice")))
      | .byRef _ => .ok (some second) }))

/-- What a log ends with: the subscription recorded, and what Flash found before. -/
def lastRecorded (cfg : Config Cmd.Ans Exn Unit Unit (Store Unit)) :
    Option (Option (Pubkey × FlashSubscription) × List (Handle × FlashSubscription)) :=
  cfg.log.getLast?.map fun e => (match e.cmd with
    | .upsertUserSubscription p sub _ _ => some (p, sub)
    | _ => none, answers (own () cfg.log.dropLast))

theorem upsert_of_lastRecorded {cfg : Config Cmd.Ans Exn Unit Unit (Store Unit)} {p : Pubkey}
    {sub : FlashSubscription} {found : List (Handle × FlashSubscription)}
    (h : lastRecorded cfg = some (some (p, sub), found)) :
    ∃ l, ∃ e : LogEntry Unit, ∃ i g, cfg.log = l ++ [e] ∧ e.cmd = .upsertUserSubscription p sub i g ∧
      answers (own () l) = found := by
  simp only [lastRecorded, Option.map_eq_some_iff, Prod.mk.injEq] at h
  obtain ⟨e, he, hc, hans⟩ := h
  obtain ⟨l, hl⟩ := List.getLast?_eq_some_iff.1 he
  rw [hl, List.dropLast_concat] at hans
  revert hc
  cases hcmd : e.cmd with
  | upsertUserSubscription q sub' i g =>
    intro hc
    simp only [Option.some.injEq, Prod.mk.injEq] at hc
    obtain ⟨rfl, rfl⟩ := hc
    exact ⟨l, e, i, g, hl, hcmd, hans⟩
  | _ =>
    intro hc
    cases hc

/-- **The second lookup decides unchecked.**  What Flash found by the reference
    of `"alice"` is the subscription of `"bob"`, and `"alice"` is granted and
    recorded from it. -/
theorem second_lookup_unchecked :
    ∃ cfg l, ∃ e : LogEntry Unit, ∃ i g, handedIn (sampleSubscription "sub_2" "active" (some "bob")) = some cfg ∧
      cfg.log = l ++ [e] ∧
      e.cmd = .upsertUserSubscription "alice" (sampleSubscription "sub_2" "active" (some "bob")) i g ∧
      ¬ Authorised "alice" (own () l) e.cmd := by
  have h : (handedIn (sampleSubscription "sub_2" "active" (some "bob"))).bind lastRecorded =
      some (some ("alice", sampleSubscription "sub_2" "active" (some "bob")),
        [(.byId "sub_1", sampleSubscription "sub_1" "active" (some "alice")),
          (.byRef "alice", sampleSubscription "sub_2" "active" (some "bob"))]) := by
    decide
  obtain ⟨cfg, hcfg, hlast⟩ := Option.bind_eq_some_iff.1 h
  obtain ⟨l, e, i, g, hl, hc, hans⟩ := upsert_of_lastRecorded hlast
  refine ⟨cfg, l, e, i, g, hcfg, hl, hc, ?_⟩
  rintro ⟨handle, sub, hlast, -, he⟩
  rw [hans] at hlast
  cases hlast
  rcases he with href | ⟨hnone, -⟩
  · revert href
    decide
  · revert hnone
    decide

/-- With her own subscription under the reference, the row is recorded from it. -/
theorem write_authorised_iff_own :
    ∃ cfg l, ∃ e : LogEntry Unit, ∃ i g, handedIn (sampleSubscription "sub_2" "active" (some "alice")) = some cfg ∧
      cfg.log = l ++ [e] ∧
      e.cmd = .upsertUserSubscription "alice" (sampleSubscription "sub_2" "active" (some "alice")) i g ∧
      Authorised "alice" (own () l) e.cmd := by
  have h : (handedIn (sampleSubscription "sub_2" "active" (some "alice"))).bind lastRecorded =
      some (some ("alice", sampleSubscription "sub_2" "active" (some "alice")),
        [(.byId "sub_1", sampleSubscription "sub_1" "active" (some "alice")),
          (.byRef "alice", sampleSubscription "sub_2" "active" (some "alice"))]) := by
    decide
  obtain ⟨cfg, hcfg, hlast⟩ := Option.bind_eq_some_iff.1 h
  obtain ⟨l, e, i, g, hl, hc, hans⟩ := upsert_of_lastRecorded hlast
  refine ⟨cfg, l, e, i, g, hcfg, hl, hc, ?_⟩
  have hall : Referenced "alice" (own () cfg.log) := by
    have hidle : answers [⟨e.cmd, e.ans⟩] = [] :=
      answers_singleton_of_not e.ans (by rw [hc]; exact fun _ h => nomatch h)
    intro sub hsub
    rw [hl, own_append_singleton, if_pos rfl, answers_append, hans, hidle] at hsub
    simp only [List.append_nil, List.tail_cons, List.mem_singleton, Prod.mk.injEq, true_and] at hsub
    rw [hsub]
    decide
  refine (write_authorised_iff () "alice" _ _ _ rfl _ _ _ hcfg).2 (fun l₁ e₁ l₂ hl₁ _ _ => ?_) l e
    [] hl rfl ?_
  · rw [hl₁, own_append] at hall
    exact hall.of_append
  · rw [hc]
    exact Or.inr rfl

end BrainstormServer
