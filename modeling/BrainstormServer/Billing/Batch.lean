/-
  What one unreachable subscriber does to a batch.

  `reconcile_subscriptions` and `replay_unprocessed_events` work through a list
  of instances loaded in the session that their handlers roll back.  A rollback
  expires the instances, and the handlers read the one in hand right after it:
  so a turn whose read of Flash fails ends the batch with `MissingGreenlet`,
  with nothing recorded.  A statement with a value that its column does not hold ends
  it too: the reconcile loop does not catch what that raises, and the replay
  loop rolls back.

  * `Unrefused h`: every read of Flash in the history was answered, none was
    refused for an empty id, and the columns hold what the statements carry;
  * a batch returns, with every turn made and every failure recorded, if and
    only if its history is `Unrefused` (`batches_survive_iff`).
-/
import BrainstormServer.Billing.Commands
import BrainstormServer.Billing.History
import Mathlib.Data.List.Chain

namespace BrainstormServer

open Conc Prog

/-! ## Reads of Flash -/

/-- The command is no read of Flash that failed. -/
def fine : (Σ c, Cmd.Ans c) → Bool
  | ⟨.fetchSubscription _, .error _⟩ => false
  | _ => true

/-- The command looks up no plan by a text that no column holds. -/
def lookupFits : (Σ c, Cmd.Ans c) → Bool
  | ⟨.getBillingPlan serviceId planId, _⟩ => fitsText serviceId && fitsText planId
  | _ => true

/-- Where Flash has nothing under a reference, the id on file is one to ask by. -/
def nextFine : (Σ c, Cmd.Ans c) → (Σ c, Cmd.Ans c) → Bool
  | ⟨.fetchSubscription _, .ok none⟩, ⟨.getUserSubscription _, some row⟩ =>
    row.flashSubscriptionId ≠ ""
  | _, _ => true

/-- The command reads neither Flash, nor the row of a subscriber, nor a plan. -/
def Cmd.plain : Cmd → Bool
  | fetchSubscription _ => false
  | getUserSubscription _ => false
  | getBillingPlan _ _ => false
  | _ => true

/-- What a history asks by can be asked by, and what it looks up and records is held by the
    columns. -/
structure Storable (h : Hist) : Prop where
  lookups : ∀ x ∈ h, lookupFits x = true
  next : h.IsChain fun x y => nextFine x y = true
  recordable : Recordable h

/-- No read of Flash failed, and no statement was refused for what Flash sent. -/
structure Unrefused (h : Hist) : Prop extends Storable h where
  each : ∀ x ∈ h, fine x = true

theorem unrefused_iff {h : Hist} : Unrefused h ↔ (∀ x ∈ h, fine x = true) ∧ Storable h :=
  ⟨fun ha => ⟨ha.each, ha.toStorable⟩, fun ha => ⟨ha.2, ha.1⟩⟩

instance (h : Hist) : Decidable (Storable h) :=
  decidable_of_iff ((∀ x ∈ h, lookupFits x = true) ∧
      (h.IsChain fun x y => nextFine x y = true) ∧ Recordable h)
    ⟨fun ⟨h₁, h₂, h₃⟩ => ⟨h₁, h₂, h₃⟩, fun h => ⟨h.lookups, h.next, h.recordable⟩⟩

instance (h : Hist) : Decidable (Unrefused h) := decidable_of_iff _ unrefused_iff.symm

/-- The last command is not a read of Flash that found nothing. -/
def Settled (h : Hist) : Prop :=
  ∀ handle, h.getLast? ≠ some ⟨.fetchSubscription handle, .ok none⟩

theorem nextFine_of_ne {x y : Σ c, Cmd.Ans c}
    (hy : ∀ p row, y ≠ ⟨.getUserSubscription p, some row⟩) : nextFine x y = true := by
  unfold nextFine
  split
  · exact absurd rfl (hy _ _)
  · rfl

theorem nextFine_of_found {x y : Σ c, Cmd.Ans c}
    (hx : ∀ handle, x ≠ ⟨.fetchSubscription handle, .ok none⟩) : nextFine x y = true := by
  unfold nextFine
  split
  · exact absurd rfl (hx _)
  · rfl

theorem Unrefused.nil : Unrefused [] :=
  ⟨⟨(fun _ hx => nomatch hx), .nil, fun _ hi => absurd hi (Nat.not_lt_zero _)⟩,
    fun _ hx => nomatch hx⟩

theorem settled_found {h : Hist} {handle : Handle} {sub : FlashSubscription} :
    Settled (h ++ [⟨.fetchSubscription handle, .ok (some sub)⟩]) := by
  intro handle' hlast
  rw [List.getLast?_concat] at hlast
  cases hlast

theorem Unrefused.of_append {h t : Hist} (ha : Unrefused (h ++ t)) : Unrefused h where
  each x hx := ha.each x (List.mem_append_left _ hx)
  lookups x hx := ha.lookups x (List.mem_append_left _ hx)
  next := (List.isChain_append.1 ha.next).1
  recordable := ha.recordable.of_append

theorem Unrefused.snoc {h : Hist} (ha : Unrefused h) {x : Σ c, Cmd.Ans c} (hx : fine x = true)
    (hlookup : lookupFits x = true) (hnext : ∀ y ∈ h.getLast?, nextFine y x = true)
    (hplan : planned x = true → (inHand h).all FlashSubscription.recordable = true) :
    Unrefused (h ++ [x]) := by
  refine ⟨⟨fun y hy => ?_, List.isChain_append.2 ⟨ha.next, .singleton _, ?_⟩,
    ha.recordable.snoc hplan⟩, fun y hy => ?_⟩
  · rcases List.mem_append.1 hy with hy | hy
    · exact ha.lookups y hy
    · rw [List.mem_singleton.1 hy]
      exact hlookup
  · intro y hy z hz
    obtain rfl := Option.some.inj hz
    exact hnext y hy
  · rcases List.mem_append.1 hy with hy | hy
    · exact ha.each y hy
    · rw [List.mem_singleton.1 hy]
      exact hx

theorem Unrefused.step {h : Hist} (ha : Unrefused h) {c : Cmd} (a : c.Ans)
    (hc : c.plain = true) : Unrefused (h ++ [⟨c, a⟩]) := by
  refine ha.snoc ?_ ?_ (fun y _ => nextFine_of_ne fun p row he => ?_) fun hplan => ?_
  · cases c with
    | fetchSubscription handle => cases hc
    | _ => rfl
  · cases c with
    | getBillingPlan s p => cases hc
    | _ => rfl
  · cases he
    cases hc
  · cases c with
    | getBillingPlan s p => cases hc
    | _ => cases hplan

/-- The row of a subscriber is read, and not because Flash had nothing. -/
theorem Unrefused.row {h : Hist} (ha : Unrefused h) (hs : Settled h) (p : Pubkey)
    (a : Option UserSubscription) : Unrefused (h ++ [⟨.getUserSubscription p, a⟩]) := by
  refine ha.snoc rfl rfl (fun y hy => nextFine_of_found fun handle he => ?_) fun hplan => (by cases hplan)
  rw [he] at hy
  exact hs handle hy

/-- A plan is looked up by texts that a column holds, for what it can record if it is found. -/
theorem Unrefused.plan {h : Hist} (ha : Unrefused h) {serviceId planId : String}
    (hfits : (fitsText serviceId && fitsText planId) = true) (a : Option (ℕ × BillingPlan))
    (hplan : a.isSome = true → (inHand h).all FlashSubscription.recordable = true) :
    Unrefused (h ++ [⟨.getBillingPlan serviceId planId, a⟩]) := by
  refine ha.snoc rfl hfits (fun y _ => nextFine_of_ne fun p row he => nomatch congrArg Sigma.fst he) fun hp => ?_
  cases a with
  | none => cases hp
  | some plan => exact hplan rfl

/-! ## One attempt -/

section
variable {p : Pubkey} {h : Hist} {α : Type}

/-- The attempt got through if and only if nothing was refused. -/
def Through (r : Except Exn α) (h : Hist) : Prop := (∃ a, r = .ok a) ↔ Unrefused h

theorem through_ok {a : α} (ha : Unrefused h) : Through (.ok a) h := ⟨fun _ => ha, fun _ => ⟨a, rfl⟩⟩

theorem through_error {e : Exn} (ha : ¬ Unrefused h) : Through (.error e : Except Exn α) h := by
  refine ⟨?_, fun h' => absurd h' ha⟩
  rintro ⟨a, hr⟩
  cases hr

theorem Through.unrefused {a : α} (h' : Through (.ok a : Except Exn α) h) : Unrefused h :=
  h'.1 ⟨a, rfl⟩

theorem Through.not_unrefused {e : Exn} (h' : Through (.error e : Except Exn α) h) :
    ¬ Unrefused h := by
  intro ha
  obtain ⟨a, hr⟩ := h'.2 ha
  cases hr

/-- The rule for `fetch_subscription`. -/
theorem fetchSubscription_through {i ref : Option String} (ha : Unrefused h)
    {Q : Except Exn (Option FlashSubscription) → Hist → Prop} {handle : Handle}
    (hhandle : ((given i).map Handle.byId <|> (given ref).map Handle.byRef) = some handle)
    (herr : ∀ e h', ¬ Unrefused h' → Q (.error e) h')
    (hok : ∀ sub, Unrefused (h ++ [⟨.fetchSubscription handle, .ok sub⟩]) →
      Q (.ok sub) (h ++ [⟨.fetchSubscription handle, .ok sub⟩])) :
    (fetchSubscription i ref).Obeys (fun _ _ => True) Q h := by
  have hbad : ∀ e, ¬ Unrefused (h ++ [⟨.fetchSubscription handle, .error e⟩]) :=
    fun e h' => Bool.false_ne_true (h'.each _ (List.mem_append_right _ List.mem_cons_self))
  have hgood : ∀ sub, Unrefused (h ++ [⟨.fetchSubscription handle, .ok sub⟩]) := by
    intro sub
    exact ha.snoc rfl rfl (fun y _ => nextFine_of_ne fun p row he => nomatch congrArg Sigma.fst he)
      fun hplan => (by cases hplan)
  unfold fetchSubscription
  rw [hhandle]
  refine ⟨trivial, fun a => ?_⟩
  match a with
  | .ok sub => exact hok sub (hgood sub)
  | .error (.unavailable m) => exact herr _ _ (hbad _)
  | .error (.credential m) => exact herr _ _ (hbad _)
  | .error (.unnamed m) => exact herr _ _ (hbad _)

theorem given_of_ne {x : String} (hx : x ≠ "") : given (some x) = some x := by
  simp [given, Option.filter_some, hx]

theorem lookUpSubscription_through (ha : Unrefused h) (hp : p ≠ "") (i : Option String)
    (allow : Bool) : (lookUpSubscription p i allow).Obeys (fun _ _ => True)
      (fun r h' => Through r h' ∧ ∀ sub allowed, r = .ok (some sub, allowed) →
        Settled h' ∧ inHand h' = some sub) h := by
  have herr : ∀ (e : Exn) (h' : Hist), ¬ Unrefused h' →
      Through (.error e : Except Exn (Option FlashSubscription × Bool)) h' ∧
        ∀ sub allowed, (.error e : Except Exn (Option FlashSubscription × Bool)) =
          .ok (some sub, allowed) → Settled h' ∧ inHand h' = some sub :=
    fun e h' hbad => ⟨through_error hbad, fun _ _ hr => nomatch hr⟩
  obtain ⟨handle, hhandle⟩ : ∃ handle, ((given i).map Handle.byId <|>
      (given (if (given i).isSome then none else some p)).map Handle.byRef) = some handle := by
    cases hi : given i with
    | none => exact ⟨.byRef p, by simp [given_of_ne hp]⟩
    | some x => exact ⟨.byId x, rfl⟩
  unfold lookUpSubscription
  simp only [await, bind_eq, call_bind, pure_eq]
  refine obeys_bind.2 (fetchSubscription_through ha hhandle herr fun sub hsub => ?_)
  simp only
  split_ifs with hnone
  · obtain ⟨rfl, -⟩ := hnone
    refine ⟨trivial, fun stored => ?_⟩
    cases stored with
    | none =>
      refine ⟨through_ok (hsub.snoc rfl rfl (fun y _ => nextFine_of_ne fun p row he => ?_)
        fun hplan => (by cases hplan)), fun _ _ hr => nomatch hr⟩
      cases he
    | some row =>
      by_cases hid : row.flashSubscriptionId = ""
      · -- there is nothing to ask by
        have hbad : ¬ Unrefused (h ++ [⟨.fetchSubscription handle, .ok none⟩] ++
            [⟨.getUserSubscription p, some row⟩]) := by
          intro h'
          have hnext := (List.isChain_append.1 h'.next).2.2 _ (List.getLast?_concat) _ rfl
          exact of_decide_eq_true hnext hid
        have hraise : fetchSubscription (some row.flashSubscriptionId) none = .raise
            (.flashUnavailable "A subscription lookup needs a subscriptionId or a ref") := by
          rw [hid]
          rfl
        show (Prog.bind (fetchSubscription (some row.flashSubscriptionId) none) _).Obeys _ _ _
        rw [hraise]
        exact herr _ _ hbad
      · have hrow : Unrefused (h ++ [⟨.fetchSubscription handle, .ok none⟩] ++
            [⟨.getUserSubscription p, some row⟩]) := by
          refine hsub.snoc rfl rfl (fun y hy => ?_) fun hplan => (by cases hplan)
          rw [List.getLast?_concat] at hy
          obtain rfl := Option.some.inj hy
          exact decide_eq_true hid
        refine obeys_bind.2 (fetchSubscription_through hrow (by rw [given_of_ne hid]; rfl) herr
          fun sub' hsub' => ⟨through_ok hsub', ?_⟩)
        rintro sub allowed ⟨⟩
        exact ⟨settled_found, inHand_concat _ _⟩
  · refine ⟨through_ok hsub, ?_⟩
    rintro sub' allowed ⟨⟩
    exact ⟨settled_found, inHand_concat _ _⟩

theorem currentSubscription_through (ha : Unrefused h) (hp : p ≠ "")
    (existing : Option UserSubscription) {sub : FlashSubscription} (hsub : inHand h = some sub) :
    (currentSubscription p existing sub).Obeys (fun _ _ => True)
      (fun r h' => Through r h' ∧ ∀ current, r = .ok current → inHand h' = some current) h := by
  unfold currentSubscription
  split_ifs
  · refine obeys_bind.2 (fetchSubscription_through ha (by rw [given_of_ne hp]; rfl)
      (fun e h' hbad => ⟨through_error hbad, fun _ hr => nomatch hr⟩)
      fun current hcurrent => ⟨through_ok hcurrent, ?_⟩)
    rintro _ ⟨⟩
    rw [inHand_concat]
    cases current with
    | none => exact hsub
    | some current => rfl
  · refine ⟨through_ok ha, ?_⟩
    rintro _ ⟨⟩
    exact hsub

/-- The record of a resolution is refused exactly if its columns do not hold it. -/
theorem upsertUserSubscription_through (sub : FlashSubscription) (plan : ℕ)
    (granted : Option SchedulingId) (outcome : EntitlementOutcome)
    (ha : Unrefused h ↔ sub.recordable = true) :
    ((upsertUserSubscription p sub plan granted).bind fun _ =>
      Prog.op .commit fun _ => (.ret outcome : Billing EntitlementOutcome)).Obeys (fun _ _ => True)
      Through h := by
  unfold upsertUserSubscription
  split_ifs with hrec
  · refine ⟨trivial, fun _ => ⟨trivial, fun _ => through_ok ?_⟩⟩
    exact ((ha.2 hrec).step _ rfl).step _ rfl
  · exact through_error fun h' => hrec (ha.1 h')

theorem grantAndRecord_through {sub : FlashSubscription} (ha : Unrefused h ↔ sub.recordable = true)
    (plan : ℕ × BillingPlan) (now : DateTime) (existing : Option UserSubscription) :
    (grantAndRecord p sub plan now existing).Obeys (fun _ _ => True) Through h := by
  have hstep : ∀ {h' : Hist} {c : Cmd} (a : c.Ans), c.plain = true →
      (Unrefused h' ↔ sub.recordable = true) → (Unrefused (h' ++ [⟨c, a⟩]) ↔ sub.recordable = true) :=
    fun a hc h' => ⟨fun h'' => h'.1 h''.of_append, fun hrec => (h'.2 hrec).step a hc⟩
  unfold grantAndRecord
  simp only [await, bind_eq, call_bind, pure_eq]
  refine ⟨trivial, fun blocked => ⟨trivial, fun source => ?_⟩⟩
  have ha₂ := hstep (c := .getSchedulingSource p) source rfl
    (hstep (c := .isBillingBlocked p) blocked rfl ha)
  unfold assignPolicy
  beta_reduce
  split
  · refine ⟨trivial, fun _ => ?_⟩
    exact upsertUserSubscription_through _ _ _ _ (hstep _ rfl ha₂)
  · exact upsertUserSubscription_through _ _ _ _ ha₂

theorem decideFrom_through (ha : Unrefused h) (hs : Settled h) (hp : p ≠ "")
    {sub : FlashSubscription} (hsub : inHand h = some sub) :
    (decideFrom p sub).Obeys (fun _ _ => True) Through h := by
  unfold decideFrom
  simp only [await, bind_eq, call_bind, pure_eq]
  refine ⟨trivial, fun existing => ?_⟩
  have hsub' : inHand (h ++ [⟨.getUserSubscription p, existing⟩]) = some sub := by
    rw [inHand_concat]
    exact hsub
  refine obeys_bind.2 (Obeys.mono ?_ (currentSubscription_through (ha.row hs p existing) hp existing
    hsub'))
  rintro (e | current) h' ⟨hthrough, hhand⟩
  · exact through_error hthrough.not_unrefused
  · have ha' := hthrough.unrefused
    have hcurrent := hhand current rfl
    unfold getBillingPlan
    simp only [await, bind_eq, call_bind, pure_eq]
    refine ⟨trivial, fun plan => ?_⟩
    dsimp only
    split_ifs with hfits
    · cases plan with
      | none => exact through_ok (ha'.plan hfits none fun h => (by cases h))
      | some plan =>
        refine ⟨trivial, fun now => grantAndRecord_through ?_ _ _ _⟩
        constructor
        · intro h''
          rw [List.append_assoc] at h''
          exact h''.recordable.of_planned hcurrent
        · intro hrec
          refine (ha'.plan hfits (some plan) fun _ => ?_).step _ rfl
          rw [hcurrent]
          exact hrec
    · refine through_error fun h'' => hfits ?_
      exact h''.lookups _ (List.mem_append_right _ List.mem_cons_self)

/-- **An attempt gets through if and only if nothing it asks for is refused.** -/
theorem applyEntitlement_through (ha : Unrefused h) (ref i : Option String)
    (yield allow : Bool) : (applyEntitlement ref i yield allow).Obeys (fun _ _ => True) Through h := by
  unfold applyEntitlement
  split
  · exact through_ok ha
  · rename_i p hp
    have hne : p ≠ "" := by
      intro he
      rw [he] at hp
      simp [given, Option.filter_eq_some_iff] at hp
    simp only [await, bind_eq, call_bind, pure_eq]
    refine ⟨trivial, fun found => ?_⟩
    have ha₁ := ha.step (c := .brainstormNsecExists p) found rfl
    cases found with
    | false => exact through_ok ha₁
    | true =>
      refine ⟨trivial, fun locked => ?_⟩
      have ha₂ := ha₁.step (c := .lockUserForUpdate p yield) locked rfl
      cases locked with
      | false => exact through_ok ha₂
      | true =>
        refine obeys_bind.2 (Obeys.mono ?_ (lookUpSubscription_through ha₂ hne i allow))
        rintro (e | ⟨_ | sub, allowed⟩) h' ⟨hthrough, hset⟩
        · exact through_error hthrough.not_unrefused
        · exact through_ok (hthrough.unrefused)
        · have ha' := hthrough.unrefused
          dsimp only
          split
          · exact through_ok ha'
          · exact decideFrom_through ha' (hset sub allowed rfl).1 hne (hset sub allowed rfl).2

end

/-! ## A session with its history -/

section
variable {S : Type} [DecidableEq S] {s : S} {W : Outside → Prop} {α : Type}

/-- The session alone is at work, and has kept the instances it had. -/
structure Goes (s : S) (st st' : Store S) : Prop where
  solo : st'.Solo s
  loaded : ∀ p, (st.loaded s p).isSome = true → (st'.loaded s p).isSome = true
  loadedEvent : ∀ i, (st.loadedEvent s i).isSome = true → (st'.loadedEvent s i).isSome = true

omit [DecidableEq S] in
theorem Goes.refl {st : Store S} (h : st.Solo s) : Goes s st st := ⟨h, fun _ => id, fun _ => id⟩

omit [DecidableEq S] in
theorem Goes.trans {st st' st'' : Store S} (h : Goes s st st') (h' : Goes s st' st'') :
    Goes s st st'' :=
  ⟨h'.solo, fun p hp => h'.loaded p (h.loaded p hp), fun i hi => h'.loadedEvent i (h.loadedEvent i hi)⟩

theorem exec_loadedEvent {c : Cmd} {st st' : Store S} {ω : Outside} {a : c.Ans}
    (h : exec s c st ω = some (a, st')) (hc : c ≠ .rollback) (i : ℕ)
    (hi : (st.loadedEvent s i).isSome = true) : (st'.loadedEvent s i).isSome = true := by
  have hmodify : ∀ {j f}, st.modifyEvent s j f = some st' → (st'.loadedEvent s i).isSome = true := by
    intro j f hm
    simp only [Store.modifyEvent, Option.map_eq_some_iff] at hm
    obtain ⟨t, -, rfl⟩ := hm
    by_cases hj : i = j
    · subst hj
      simpa using hi
    · simpa [hj] using hi
  cases c with
  | rollback => exact absurd rfl hc
  | selectAbandonedWebhookEvents now stale n limit evs =>
    simp only [exec] at h
    cases h
    simp only [Store.rememberEvents, Function.update_self, Option.isSome_or, hi, Bool.true_or]
  | claimWebhookEvent j now stale =>
    simp only [exec] at h
    split at h
    · cases h; exact hi
    · simp only [Option.map_eq_some_iff] at h
      obtain ⟨t, ht, h⟩ := h
      cases h
      exact hmodify ht
  | markWebhookEventProcessed | recordWebhookEventFailure =>
    simp only [exec, Option.map_eq_some_iff] at h
    obtain ⟨t, ht, h⟩ := h
    cases h
    exact hmodify ht
  | lockUserForUpdate p skip =>
    simp only [exec] at h
    split_ifs at h <;> cases h <;> exact hi
  | getUserSubscription | getUserSubscriptionByFlashId =>
    simp only [exec] at h
    split at h <;> cases h <;> exact hi
  | setSchedulingForPubkey | setBillingBlocked | upsertUserSubscription | updateBillingPlan
  | resetEventsAwaitingPlan | settleUnresolvedEvents =>
    simp only [exec, Option.map_eq_some_iff] at h
    obtain ⟨t, -, h⟩ := h
    cases h
    exact hi
  | clearGrantedScheduling | updateFlashStatus | updateLastEventAt | recordSyncFailure =>
    simp only [exec, Option.map_eq_some_iff, Store.modifySubscription] at h
    obtain ⟨_, ⟨t, -, rfl⟩, h⟩ := h
    cases h
    exact hi
  | insertBillingPlan | insertFlashWebhookEvent =>
    simp only [exec] at h
    split_ifs at h
    · cases h; exact hi
    · simp only [Option.map_eq_some_iff] at h
      obtain ⟨t, -, h⟩ := h
      cases h
      exact hi
  | _ => simp only [exec] at h; cases h; exact hi

theorem exec_goes {c : Cmd} {st st' : Store S} {ω : Outside} {a : c.Ans}
    (h : exec s c st ω = some (a, st')) (hs : st.Solo s) (hr : c ≠ .rollback)
    (hd : c ≠ .dropInstances) : Goes s st st' := by
  refine ⟨exec_solo h hs, fun p hp => ?_, exec_loadedEvent h hr⟩
  rcases exec_loaded h with he | ⟨ps, rfl⟩ | ⟨q, f, -, -, hm⟩ | hc | hc
  · rw [he]
    exact hp
  · simp only [Store.remember, Function.update_self, Option.isSome_or, hp, Bool.true_or]
  · simp only [Store.modifySubscription, Option.map_eq_some_iff] at hm
    obtain ⟨t, -, rfl⟩ := hm
    by_cases hq : p = q
    · subst hq
      simpa using hp
    · simpa [hq] using hp
  · exact absurd hc hd
  · exact absurd hc hr

/-- The rule for a command. -/
theorem wp_logged {c : Cmd} {k : c.Ans → Billing α} {Q : Except Exn α → Store S × Hist → Prop}
    {st : Store S} {h : Hist} (hs : st.Solo s)
    (hk : ∀ ω a st', W ω → exec s c st ω = some (a, st') → st'.Solo s →
      (k a).wp (logged exec) s W Q (st', h ++ [⟨c, a⟩])) :
    (Prog.op c k : Billing α).wp (logged exec) s W Q (st, h) := by
  intro ω hω
  obtain ⟨⟨a, st'⟩, hr⟩ := exec_total c hs ω
  refine ⟨(a, st', h ++ [⟨c, a⟩]), ?_, hk ω a st' hω hr (exec_solo hr hs)⟩
  simp only [logged, hr, Option.map_some]

/-- A program that expires nothing ends, as its answers say. -/
theorem wp_ends {p : Billing α} : ∀ {st : Store S} {h : Hist},
    p.Uses (fun c => c ≠ .rollback ∧ c ≠ .dropInstances) → st.Solo s →
      p.wp (logged exec) s W (fun r x => Goes s st x.1 ∧ ∃ seg, x.2 = h ++ seg ∧ p.Ends seg r)
        (st, h) := by
  induction p with
  | ret a => exact fun _ hs => ⟨.refl hs, [], (List.append_nil _).symm, .ret a⟩
  | raise e => exact fun _ hs => ⟨.refl hs, [], (List.append_nil _).symm, .raise e⟩
  | op c k ih =>
    intro st h hu hs
    refine wp_logged hs fun ω a st' _ he hs' => wp_mono _ _ _ ?_ (ih a (hu.2 a) hs')
    rintro r x ⟨hgoes, seg, hx, hends⟩
    refine ⟨(exec_goes he hs hu.1.1 hu.1.2).trans hgoes, ⟨c, a⟩ :: seg, ?_, .op hends⟩
    rw [hx, List.append_assoc]
    rfl

theorem expires_nothing {c : Cmd} (hc : c.entitles = true) : c ≠ .rollback ∧ c ≠ .dropInstances := by
  constructor <;> rintro rfl <;> cases hc

/-- **One attempt** in a session: it ends, and gets through if and only if nothing it
    asks for is refused. -/
theorem applyEntitlement_logged {st : Store S} {h : Hist} (hs : st.Solo s) (ha : Unrefused h)
    (ref i : Option String) (yield allow : Bool) :
    (applyEntitlement ref i yield allow).wp (logged exec) s W (fun r x => Goes s st x.1 ∧
      ∃ seg, x.2 = h ++ seg ∧ (applyEntitlement ref i yield allow).Ends seg r ∧ Through r x.2)
      (st, h) := by
  refine wp_mono _ _ _ ?_ (wp_ends (applyEntitlement_uses (fun _ => expires_nothing) ref i yield
    allow) hs)
  rintro r x ⟨hgoes, seg, hx, hends⟩
  refine ⟨hgoes, seg, hx, hends, ?_⟩
  rw [hx]
  exact (applyEntitlement_through ha ref i yield allow).of_ends hends

/-! ## The reconcile loop -/

/-- Why a turn of `reconcile_subscriptions` failed, if it did. -/
def failureReason : Except Exn EntitlementOutcome → Option String
  | .ok outcome => if outcome.reason ∈ unsettledReasons then some outcome.reason.value else none
  | .error (.flashUnavailable m) => some m
  | .error _ => none

/-- A turn in which the row was attempted and its failure, if it was one,
    recorded. -/
def ReconcileTurn (p : Pubkey) (turn : Hist) : Prop :=
  ∃ pre seg r tail, turn = pre ++ seg ++ tail ∧
    (applyEntitlement (some p) none false false).Ends seg r ∧
    ∀ reason, failureReason r = some reason →
      ∃ t, tail = t ++ [⟨.recordSyncFailure p reason, ()⟩, ⟨.commit, ()⟩]

/-- The batch returned, every candidate was attempted and every failure recorded. -/
def ReconcileSurvives (r : Except Exn ReconcileResult) (h : Hist) : Prop :=
  (∃ result, r = .ok result) ∧ ∃ pre now stale limit rule candidates turns,
    h = pre ++ ⟨.selectReconcileCandidates now stale limit rule, candidates⟩ :: turns.flatten ∧
      List.Forall₂ ReconcileTurn (candidates.map (·.1)) turns

theorem noteFailure_logged {st : Store S} {h : Hist} (hs : st.Solo s) {p : Pubkey}
    (hp : (st.loaded s p).isSome = true) (reason : String) :
    (noteFailure p reason).wp (logged exec) s W (fun r x => r = .ok () ∧ Goes s st x.1 ∧
      x.2 = h ++ [⟨.readInstance p, true⟩, ⟨.recordSyncFailure p reason, ()⟩, ⟨.commit, ()⟩])
      (st, h) := by
  unfold noteFailure instancePubkey
  simp only [await, bind_eq, call_bind, pure_eq]
  refine wp_logged hs fun ω₁ found st₁ _ he₁ hs₁ => ?_
  have hg₁ := exec_goes he₁ hs (by simp) (by simp)
  simp only [exec, Option.some.injEq, Prod.mk.injEq] at he₁
  obtain ⟨rfl, rfl⟩ := he₁
  rw [hp]
  refine wp_logged hs₁ fun ω₂ _ st₂ _ he₂ hs₂ => ?_
  have hg₂ := exec_goes he₂ hs₁ (by simp) (by simp)
  refine wp_logged hs₂ fun ω₃ _ st₃ _ he₃ hs₃ => ?_
  have hg₃ := exec_goes he₃ hs₂ (by simp) (by simp)
  exact ⟨rfl, hg₂.trans hg₃, by simp⟩

/-- After a rollback the handler cannot name the row. -/
theorem noteFailure_expired {st : Store S} {h : Hist} (hs : st.Solo s) (p : Pubkey)
    (reason : String) (k : Unit → Billing α) :
    (Prog.op .rollback fun _ => (noteFailure p reason).bind k : Billing α).wp (logged exec) s W
      (fun r x => (∃ e, r = .error e) ∧ ∃ t, x.2 = h ++ t) (st, h) := by
  refine wp_logged hs fun ω₁ _ st₁ _ he₁ hs₁ => ?_
  cases he₁
  refine wp_logged hs₁ fun ω₂ found st₂ _ he₂ hs₂ => ?_
  simp only [exec, Option.some.injEq, Prod.mk.injEq, Store.rollback, Function.update_self,
    Option.isSome_none] at he₂
  obtain ⟨rfl, -⟩ := he₂
  exact ⟨⟨_, rfl⟩, _, List.append_assoc _ _ _⟩

theorem reconcileRow_logged {st : Store S} {h : Hist} (hs : st.Solo s) (ha : Unrefused h)
    {p : Pubkey} (hp : (st.loaded s p).isSome = true) :
    (reconcileRow p).wp (logged exec) s W
      (fun r x => (Goes s st x.1 ∧ (r = .ok .reconciled ∨ r = .ok .failed) ∧ Unrefused x.2 ∧
          ∃ turn, x.2 = h ++ turn ∧ ReconcileTurn p turn) ∨
        ((∃ e, r = .error e) ∧ ¬ Unrefused x.2)) (st, h) := by
  -- a failed attempt ends the batch
  have hfailed : ∀ {x : Store S × Hist} (reason : String) (turn : Turn), Goes s st x.1 →
      ¬ Unrefused x.2 →
      (Prog.op .rollback fun _ => (noteFailure p reason).bind fun _ => (.ret turn : Billing Turn)).wp
        (logged exec) s W (fun r x => (Goes s st x.1 ∧ (r = .ok .reconciled ∨ r = .ok .failed) ∧
            Unrefused x.2 ∧ ∃ turn, x.2 = h ++ turn ∧ ReconcileTurn p turn) ∨
          ((∃ e, r = .error e) ∧ ¬ Unrefused x.2)) x := by
    rintro ⟨st', h'⟩ reason turn hg hbad
    refine wp_mono _ _ _ ?_ (noteFailure_expired hg.solo p reason _)
    rintro r x ⟨herr, t, hx⟩
    refine Or.inr ⟨herr, fun hans => hbad ?_⟩
    rw [hx] at hans
    exact hans.of_append
  unfold reconcileRow instancePubkey
  simp only [await, bind_eq, call_bind, pure_eq]
  refine (wp_tryCatch _ _ _).2 (wp_logged hs fun ω₁ found st₁ _ he₁ hs₁ => ?_)
  have hg₁ := exec_goes he₁ hs (fun h => nomatch h) (fun h => nomatch h)
  simp only [exec, Option.some.injEq, Prod.mk.injEq] at he₁
  obtain ⟨rfl, rfl⟩ := he₁
  rw [hp]
  have ha₁ : Unrefused (h ++ [⟨.readInstance p, true⟩]) := ha.step _ rfl
  show Prog.wp _ _ _ (Prog.bind (applyEntitlement (some p) none false false) _) _ _
  refine (wp_bind _ _ _).2 (wp_mono _ _ _ ?_ (applyEntitlement_logged hs₁ ha₁ _ _ _ _))
  rintro (e | outcome) ⟨st₂, h₂⟩ ⟨hg₂, seg, rfl, hends, hthrough⟩
  · cases e with
    | flashUnavailable m => exact hfailed m .failed hg₂ hthrough.not_unrefused
    | flashCredentialError m =>
      exact hfailed "credentials refused" .abandon hg₂ hthrough.not_unrefused
    | _ => exact Or.inr ⟨⟨_, rfl⟩, hthrough.not_unrefused⟩
  · have ha₂ := hthrough.unrefused
    dsimp only
    split_ifs with hunsettled
    · refine (wp_bind _ _ _).2 (wp_mono _ _ _ ?_ (noteFailure_logged hg₂.solo (hg₂.loaded p hp) _))
      rintro _ ⟨st₃, h₃⟩ ⟨rfl, hg₃, rfl⟩
      have ha₃ := ((ha₂.step (c := .readInstance p) true rfl).step
        (c := .recordSyncFailure p outcome.reason.value) () rfl).step (c := .commit) () rfl
      refine Or.inl ⟨hg₂.trans hg₃, Or.inr rfl, by simpa using ha₃,
        [⟨.readInstance p, true⟩] ++ seg ++ [⟨.readInstance p, true⟩,
          ⟨.recordSyncFailure p outcome.reason.value, ()⟩, ⟨.commit, ()⟩], by simp, ?_⟩
      refine ⟨_, seg, _, _, rfl, hends, fun reason hreason => ⟨[⟨.readInstance p, true⟩], ?_⟩⟩
      simp only [failureReason, hunsettled, if_true, Option.some.injEq] at hreason
      rw [hreason]
      rfl
    · refine Or.inl ⟨hg₂, Or.inl rfl, ha₂, [⟨.readInstance p, true⟩] ++ seg, by simp, ?_⟩
      refine ⟨_, seg, _, [], (List.append_nil _).symm, hends, fun reason hreason => ?_⟩
      simp [failureReason, hunsettled] at hreason

theorem reconcileAll_logged : ∀ (rows : List Pubkey) (result : ReconcileResult) {st : Store S}
    {h : Hist}, st.Solo s → Unrefused h → (∀ p ∈ rows, (st.loaded s p).isSome = true) →
    (reconcileAll rows result).wp (logged exec) s W
      (fun r x => ((∃ res, r = .ok res) ∧ Unrefused x.2 ∧
          ∃ turns, x.2 = h ++ turns.flatten ∧ List.Forall₂ ReconcileTurn rows turns) ∨
        ((∃ e, r = .error e) ∧ ¬ Unrefused x.2)) (st, h) := by
  intro rows
  induction rows with
  | nil => exact fun result st h hs ha _ => Or.inl ⟨⟨_, rfl⟩, ha, [], by simp, .nil⟩
  | cons p rows ih =>
    intro result st h hs ha hrows
    -- the rest of the batch, after a turn that went well
    have hrest : ∀ {x : Store S × Hist} {turn : Hist} (result' : ReconcileResult), Goes s st x.1 →
        Unrefused x.2 → x.2 = h ++ turn → ReconcileTurn p turn →
        (reconcileAll rows result').wp (logged exec) s W
          (fun r x => ((∃ res, r = .ok res) ∧ Unrefused x.2 ∧ ∃ turns,
              x.2 = h ++ turns.flatten ∧ List.Forall₂ ReconcileTurn (p :: rows) turns) ∨
            ((∃ e, r = .error e) ∧ ¬ Unrefused x.2)) x := by
      rintro ⟨st', h'⟩ turn result' hg ha' hx hturn
      refine wp_mono _ _ _ ?_ (ih result' hg.solo ha' fun q hq =>
        hg.loaded q (hrows q (List.mem_cons_of_mem _ hq)))
      rintro r ⟨st'', h''⟩ (⟨hok, hans, turns, hh, hall⟩ | herr)
      · refine Or.inl ⟨hok, hans, turn :: turns, ?_, .cons hturn hall⟩
        rw [List.flatten_cons, ← List.append_assoc, ← hx]
        exact hh
      · exact Or.inr herr
    refine (wp_bind _ _ _).2 (wp_mono _ _ _ ?_
      (reconcileRow_logged hs ha (hrows p List.mem_cons_self)))
    rintro r x (⟨hg, hr, ha', turn, hx, hturn⟩ | ⟨⟨e, rfl⟩, hbad⟩)
    · rcases hr with rfl | rfl
      · exact hrest _ hg ha' hx hturn
      · exact hrest _ hg ha' hx hturn
    · exact Or.inr ⟨⟨e, rfl⟩, hbad⟩

theorem remember_isSome {st : Store S} {ps : List Pubkey} {p : Pubkey} (hp : p ∈ ps)
    (hview : (st.subscription.view s p).isSome = true) :
    ((st.remember s ps).loaded s p).isSome = true := by
  simp only [Store.remember, Function.update_self, Option.isSome_or, Bool.or_eq_true, if_pos hp]
  exact Or.inr hview

/-- The candidates a batch starts with are loaded. -/
theorem exec_selectReconcile_loaded {st st' : Store S} {ω : Outside} {now : DateTime} {stale : ℤ}
    {limit : ℕ} {rule : AbandonRule} {rows : List (Pubkey × UserSubscription)}
    (h : exec s (.selectReconcileCandidates now stale limit rule) st ω = some (rows, st')) :
    ∀ p ∈ rows.map (·.1), (st'.loaded s p).isSome = true := by
  simp only [exec, Option.some.injEq, Prod.mk.injEq] at h
  obtain ⟨rfl, rfl⟩ := h
  intro p hp
  rw [List.map_map] at hp
  obtain ⟨row, hrow, rfl⟩ := List.mem_map.1 hp
  have hmem := (List.mem_insertionSort _).1 (List.mem_of_mem_take hrow)
  show ((st.remember s _).loaded s row.1).isSome = true
  refine remember_isSome (List.mem_map_of_mem hrow) ?_
  rw [Store.mem_subscriptions (List.mem_filter.1 hmem).1]
  rfl

theorem reconcileSubscriptions_logged {st : Store S} (hs : st.Solo s) (limit : ℕ)
    (staleAfter abandonPendingAfter : ℤ) (now : Option DateTime) :
    (reconcileSubscriptions limit staleAfter abandonPendingAfter now).wp (logged exec) s W
      (fun r x => ReconcileSurvives r x.2 ↔ Unrefused x.2) (st, []) := by
  have hbody : ∀ {at_ : DateTime} {st : Store S} {h : Hist}, st.Solo s → Unrefused h →
      (Prog.op (.selectReconcileCandidates at_ staleAfter limit
        ⟨abandonPendingAfter, EntitlementReason.unknownSubscription.value⟩)
        fun candidates : List (Pubkey × UserSubscription) =>
          reconcileAll (candidates.map (·.1)) ⟨0, 0⟩).wp (logged exec) s W
        (fun r x => ReconcileSurvives r x.2 ↔ Unrefused x.2) (st, h) := by
    intro at_ st h hs ha
    refine wp_logged hs fun ω rows st₁ _ he hs₁ => ?_
    refine wp_mono _ _ _ ?_ (reconcileAll_logged _ ⟨0, 0⟩ hs₁ (ha.step _ rfl)
      (exec_selectReconcile_loaded he))
    rintro r x (⟨hok, hans, turns, hx, hall⟩ | ⟨⟨e, rfl⟩, hbad⟩)
    · refine ⟨fun _ => hans, fun _ => ⟨hok, h, _, _, _, _, rows, turns, ?_, hall⟩⟩
      rw [hx, List.append_assoc]
      rfl
    · refine ⟨fun hsurvives => ?_, fun hans => absurd hans hbad⟩
      obtain ⟨⟨res, hres⟩, -⟩ := hsurvives
      cases hres
  unfold reconcileSubscriptions resolveNow
  cases now with
  | some t => exact hbody hs .nil
  | none =>
    refine wp_logged hs fun ω t st₁ _ _ hs₁ => ?_
    exact hbody hs₁ (Unrefused.nil.step (c := .utcNow) t rfl)

/-! ## The replay loop -/

section
variable (pyRepr : Exn → String)

/-- Why a turn of `replay_unprocessed_events` failed, if it did. -/
def replayFailure : Except Exn EntitlementOutcome → Option String
  | .ok outcome => if outcome.reason ∈ settledReasons then none else some outcome.reason.value
  | .error (.flashUnavailable m) => some m
  | .error e => some (pyRepr e)

/-- The event's failure was recorded and committed. -/
def Noted (i : ℕ) (reason : String) (l : Hist) : Prop :=
  ∃ t t', l = t ++ [⟨.recordWebhookEventFailure i reason, ()⟩, ⟨.commit, ()⟩] ++ t'

/-- What becomes of an event the pass has claimed. -/
def ClaimedTurn (i : ℕ) (event : FlashWebhookEvent) (l : Hist) : Prop :=
  match event.payload with
  | none => Noted i "payload missing" l
  | some target => ∃ pre seg r tail, l = pre ++ seg ++ tail ∧
      (applyEntitlement target.externalRef target.subscriptionId true false).Ends seg r ∧
      ∀ reason, replayFailure pyRepr r = some reason → Noted i reason tail

/-- A turn in which the event, once claimed, was attempted and its failure, if it
    was one, recorded. -/
def ReplayTurn (event : ℕ × FlashWebhookEvent) (turn : Hist) : Prop :=
  ∃ pre at_ stale claimed rest,
    turn = pre ++ ⟨.claimWebhookEvent event.1 at_ stale, claimed⟩ :: rest ∧
      (claimed = true → ClaimedTurn pyRepr event.1 event.2 rest)

/-- The pass returned, every event it claimed was attempted and every failure
    recorded. -/
def ReplaySurvives (r : Except Exn ℕ) (h : Hist) : Prop :=
  (∃ n, r = .ok n) ∧ ∃ pre now stale n limit names events turns,
    h = pre ++ ⟨.selectAbandonedWebhookEvents now stale n limit names, events⟩ :: turns.flatten ∧
      List.Forall₂ (ReplayTurn pyRepr) events turns

end

theorem Noted.within {i : ℕ} {reason : String} {l : Hist} (h : Noted i reason l) (t u : Hist) :
    Noted i reason (t ++ l ++ u) := by
  obtain ⟨t', u', rfl⟩ := h
  exact ⟨t ++ t', u' ++ u, by simp⟩

/-- The turn may contain more. -/
theorem ClaimedTurn.within {pyRepr : Exn → String} {i : ℕ} {event : FlashWebhookEvent} {l : Hist}
    (h : ClaimedTurn pyRepr i event l) (t u : Hist) : ClaimedTurn pyRepr i event (t ++ l ++ u) := by
  unfold ClaimedTurn at h ⊢
  split at h
  · exact h.within t u
  · obtain ⟨pre, seg, r, tail, rfl, hends, hnoted⟩ := h
    refine ⟨t ++ pre, seg, r, tail ++ u, by simp, hends, fun reason hr => ?_⟩
    simpa using (hnoted reason hr).within [] u

theorem noteEventFailure_logged {st : Store S} {h : Hist} (hs : st.Solo s) {i : ℕ}
    (hi : (st.loadedEvent s i).isSome = true) (reason : String) :
    (noteEventFailure i reason).wp (logged exec) s W (fun r x => r = .ok () ∧ Goes s st x.1 ∧
      x.2 = h ++ [⟨.readEventInstance i, true⟩, ⟨.recordWebhookEventFailure i reason, ()⟩,
        ⟨.commit, ()⟩]) (st, h) := by
  unfold noteEventFailure instanceEventId
  simp only [await, bind_eq, call_bind, pure_eq]
  refine wp_logged hs fun ω₁ found st₁ _ he₁ hs₁ => ?_
  simp only [exec, Option.some.injEq, Prod.mk.injEq] at he₁
  obtain ⟨rfl, rfl⟩ := he₁
  rw [hi]
  refine wp_logged hs₁ fun ω₂ _ st₂ _ he₂ hs₂ => ?_
  have hg₂ := exec_goes he₂ hs₁ (by simp) (by simp)
  refine wp_logged hs₂ fun ω₃ _ st₃ _ he₃ hs₃ => ?_
  have hg₃ := exec_goes he₃ hs₂ (by simp) (by simp)
  exact ⟨rfl, hg₂.trans hg₃, by simp⟩

/-- After a rollback the handler cannot name the event. -/
theorem noteEventFailure_expired {st : Store S} {h : Hist} (hs : st.Solo s) (i : ℕ)
    (reason : String) (k : Unit → Billing α) :
    (Prog.op .rollback fun _ => (noteEventFailure i reason).bind k : Billing α).wp (logged exec) s W
      (fun r x => (∃ e, r = .error e) ∧ ∃ t, x.2 = h ++ t) (st, h) := by
  refine wp_logged hs fun ω₁ _ st₁ _ he₁ hs₁ => ?_
  cases he₁
  refine wp_logged hs₁ fun ω₂ found st₂ _ he₂ hs₂ => ?_
  simp only [exec, Option.some.injEq, Prod.mk.injEq, Store.rollback, Function.update_self,
    Option.isSome_none] at he₂
  obtain ⟨rfl, -⟩ := he₂
  exact ⟨⟨_, rfl⟩, _, List.append_assoc _ _ _⟩

theorem updateLastEventAt_logged {st : Store S} {h : Hist} (hs : st.Solo s) (ha : Unrefused h)
    (ref : Option Pubkey) (t : Option DateTime) :
    (updateLastEventAt ref t).wp (logged exec) s W (fun r x => r = .ok () ∧ Goes s st x.1 ∧
      Unrefused x.2 ∧ ∃ u, x.2 = h ++ u) (st, h) := by
  unfold updateLastEventAt
  split
  · refine wp_logged hs fun ω a st₁ _ he _ => ?_
    exact ⟨rfl, exec_goes he hs (fun h => nomatch h) (fun h => nomatch h), ha.step _ rfl, _, rfl⟩
  · exact ⟨rfl, .refl hs, ha, [], (List.append_nil h).symm⟩

/-- A settled event is marked done. -/
theorem settleEvent_logged {st : Store S} {h : Hist} (hs : st.Solo s) (ha : Unrefused h) {i : ℕ}
    (hi : (st.loadedEvent s i).isSome = true) (at_ : DateTime) (ref : Option Pubkey)
    (t : Option DateTime) :
    ((instanceEventId i).bind fun eventId => Prog.op (.markWebhookEventProcessed eventId at_) fun _ =>
      (updateLastEventAt ref t).bind fun _ => Prog.op .commit fun _ => (.ret true : Billing Bool)).wp
      (logged exec) s W (fun r x => r = .ok true ∧ Goes s st x.1 ∧ Unrefused x.2 ∧
        ∃ u, x.2 = h ++ u) (st, h) := by
  unfold instanceEventId
  simp only [await, bind_eq, call_bind, pure_eq]
  refine wp_logged hs fun ω₁ found st₁ _ he₁ hs₁ => ?_
  simp only [exec, Option.some.injEq, Prod.mk.injEq] at he₁
  obtain ⟨rfl, rfl⟩ := he₁
  rw [hi]
  refine wp_logged hs₁ fun ω₂ _ st₂ _ he₂ hs₂ => ?_
  have hg₂ := exec_goes he₂ hs₁ (by simp) (by simp)
  have ha₂ := (ha.step (c := .readEventInstance i) true rfl).step
    (c := .markWebhookEventProcessed i at_) () rfl
  refine (wp_bind _ _ _).2 (wp_mono _ _ _ ?_ (updateLastEventAt_logged hs₂ ha₂ ref t))
  rintro _ ⟨st₃, h₃⟩ ⟨rfl, hg₃, ha₃, u, rfl⟩
  refine wp_logged hg₃.solo fun ω₄ _ st₄ _ he₄ hs₄ => ?_
  have hg₄ := exec_goes he₄ hg₃.solo (by simp) (by simp)
  exact ⟨rfl, hg₂.trans (hg₃.trans hg₄), ha₃.step _ rfl,
    ⟨.readEventInstance i, true⟩ :: ⟨.markWebhookEventProcessed i at_, ()⟩ :: u ++
      [⟨.commit, ()⟩], by simp⟩

section
variable (pyRepr : Exn → String)

theorem replayClaimed_logged {st : Store S} {h : Hist} (hs : st.Solo s) (ha : Unrefused h)
    {i : ℕ} (hi : (st.loadedEvent s i).isSome = true) (at_ : DateTime) {event : FlashWebhookEvent}
    {target : EventData} (htarget : event.payload = some target) :
    (replayClaimed pyRepr at_ i event target).wp (logged exec) s W
      (fun r x => (Goes s st x.1 ∧ (∃ b, r = .ok b) ∧ Unrefused x.2 ∧
          ∃ l, x.2 = h ++ l ∧ ClaimedTurn pyRepr i event l) ∨
        ((∃ e, r = .error e) ∧ ¬ Unrefused x.2)) (st, h) := by
  -- a failed attempt ends the pass
  have hfailed : ∀ {x : Store S × Hist} (reason : String) (k : Unit → Billing Bool), Goes s st x.1 →
      ¬ Unrefused x.2 →
      (Prog.op .rollback fun _ => (noteEventFailure i reason).bind k : Billing Bool).wp
        (logged exec) s W (fun r x => (Goes s st x.1 ∧ (∃ b, r = .ok b) ∧ Unrefused x.2 ∧
            ∃ l, x.2 = h ++ l ∧ ClaimedTurn pyRepr i event l) ∨
          ((∃ e, r = .error e) ∧ ¬ Unrefused x.2)) x := by
    rintro ⟨st', h'⟩ reason k hg hbad
    refine wp_mono _ _ _ ?_ (noteEventFailure_expired hg.solo i reason k)
    rintro r x ⟨herr, t, hx⟩
    refine Or.inr ⟨herr, fun hans => hbad ?_⟩
    rw [hx] at hans
    exact hans.of_append
  unfold replayClaimed
  refine (wp_tryCatch _ _ _).2 ((wp_bind _ _ _).2 (wp_mono _ _ _ ?_
    (applyEntitlement_logged hs ha _ _ _ _)))
  rintro (e | outcome) ⟨st₁, h₁⟩ ⟨hg₁, seg, rfl, hends, hthrough⟩
  · cases e with
    | flashUnavailable m => exact hfailed m _ hg₁ hthrough.not_unrefused
    | flashCredentialError m => exact hfailed _ _ hg₁ hthrough.not_unrefused
    | httpException c d => exact hfailed _ _ hg₁ hthrough.not_unrefused
    | integrityError c => exact hfailed _ _ hg₁ hthrough.not_unrefused
    | missingGreenlet => exact hfailed _ _ hg₁ hthrough.not_unrefused
    | unnamed d => exact hfailed _ _ hg₁ hthrough.not_unrefused
  · have ha₁ := hthrough.unrefused
    have hturn : ∀ {l : Hist}, (∀ reason, replayFailure pyRepr (.ok outcome) = some reason →
        Noted i reason l) → ClaimedTurn pyRepr i event (seg ++ l) := by
      intro l hl
      unfold ClaimedTurn
      rw [htarget]
      exact ⟨[], seg, _, l, rfl, hends, hl⟩
    dsimp only
    split_ifs with hsettled
    · refine wp_mono _ _ _ ?_ (settleEvent_logged hg₁.solo ha₁ (hg₁.loadedEvent i hi) at_ _ _)
      rintro _ ⟨st₂, h₂⟩ ⟨rfl, hg₂, ha₂, u, rfl⟩
      refine Or.inl ⟨hg₁.trans hg₂, ⟨true, rfl⟩, ha₂, seg ++ u, by simp, hturn fun reason hr => ?_⟩
      simp [replayFailure, hsettled] at hr
    · refine (wp_bind _ _ _).2 (wp_mono _ _ _ ?_
        (noteEventFailure_logged hg₁.solo (hg₁.loadedEvent i hi) outcome.reason.value))
      rintro _ ⟨st₂, h₂⟩ ⟨rfl, hg₂, rfl⟩
      have ha₂ := ((ha₁.step (c := .readEventInstance i) true rfl).step
        (c := .recordWebhookEventFailure i outcome.reason.value) () rfl).step (c := .commit) () rfl
      refine Or.inl ⟨hg₁.trans hg₂, ⟨false, rfl⟩, by simpa using ha₂, _, List.append_assoc _ _ _,
        hturn fun reason hr => ⟨[⟨.readEventInstance i, true⟩], [], ?_⟩⟩
      simp only [replayFailure, hsettled, if_false, Option.some.injEq] at hr
      rw [hr]
      rfl

theorem replayEvent_logged {st : Store S} {h : Hist} (hs : st.Solo s) (ha : Unrefused h) {i : ℕ}
    (hi : (st.loadedEvent s i).isSome = true) (at_ : DateTime) (stale : ℤ)
    (event : FlashWebhookEvent) :
    (replayEvent pyRepr at_ stale i event).wp (logged exec) s W
      (fun r x => (x.1.Solo s ∧ (∀ j, (st.loadedEvent s j).isSome = true →
            (x.1.loadedEvent s j).isSome = true) ∧ (∃ b, r = .ok b) ∧ Unrefused x.2 ∧
          ∃ turn, x.2 = h ++ turn ∧ ReplayTurn pyRepr (i, event) turn) ∨
        ((∃ e, r = .error e) ∧ ¬ Unrefused x.2)) (st, h) := by
  unfold replayEvent instanceEventId
  simp only [await, bind_eq, call_bind, pure_eq]
  refine wp_logged hs fun ω₁ found st₁ _ he₁ hs₁ => ?_
  simp only [exec, Option.some.injEq, Prod.mk.injEq] at he₁
  obtain ⟨rfl, rfl⟩ := he₁
  rw [hi]
  refine wp_logged hs₁ fun ω₂ claimed st₂ _ he₂ hs₂ => ?_
  have hg₂ := exec_goes he₂ hs₁ (by simp) (by simp)
  refine wp_logged hs₂ fun ω₃ _ st₃ _ he₃ hs₃ => ?_
  have hg₃ := hg₂.trans (exec_goes he₃ hs₂ (by simp) (by simp))
  have ha₃ := ((ha.step (c := .readEventInstance i) true rfl).step
    (c := .claimWebhookEvent i at_ stale) claimed rfl).step (c := .commit) () rfl
  -- what follows the commit of the claim
  have hturn : ∀ {l : Hist}, (claimed = true → ClaimedTurn pyRepr i event l) →
      ReplayTurn pyRepr (i, event) (⟨.readEventInstance i, true⟩ ::
        ⟨.claimWebhookEvent i at_ stale, claimed⟩ :: ⟨.commit, ()⟩ :: l) := by
    intro l hl
    refine ⟨[⟨.readEventInstance i, true⟩], at_, stale, claimed, ⟨.commit, ()⟩ :: l, rfl,
      fun hc => ?_⟩
    simpa using (hl hc).within [⟨.commit, ()⟩] []
  cases claimed with
  | false =>
    refine Or.inl ⟨hg₃.solo, hg₃.loadedEvent, ⟨false, rfl⟩, ha₃, _, ?_,
      hturn (l := []) (by simp)⟩
    simp
  | true =>
    simp only [if_true]
    cases hpayload : event.payload with
    | none =>
      refine (wp_bind _ _ _).2 (wp_mono _ _ _ ?_
        (noteEventFailure_logged hg₃.solo (hg₃.loadedEvent i hi) "payload missing"))
      rintro _ ⟨st₄, h₄⟩ ⟨rfl, hg₄, rfl⟩
      have ha₄ := ((ha₃.step (c := .readEventInstance i) true rfl).step
        (c := .recordWebhookEventFailure i "payload missing") () rfl).step (c := .commit) () rfl
      refine Or.inl ⟨hg₄.solo, fun j hj => hg₄.loadedEvent j (hg₃.loadedEvent j hj), ⟨false, rfl⟩,
        by simpa using ha₄, _, ?_, hturn (l := [⟨.readEventInstance i, true⟩,
          ⟨.recordWebhookEventFailure i "payload missing", ()⟩, ⟨.commit, ()⟩]) fun _ => ?_⟩
      · simp
      · unfold ClaimedTurn
        rw [hpayload]
        exact ⟨[⟨.readEventInstance i, true⟩], [], rfl⟩
    | some target =>
      refine wp_mono _ _ _ ?_ (replayClaimed_logged pyRepr hg₃.solo ha₃ (hg₃.loadedEvent i hi) at_
        hpayload)
      rintro r ⟨st₄, h₄⟩ (⟨hg₄, hok, ha₄, l, rfl, hl⟩ | herr)
      · refine Or.inl ⟨hg₄.solo, fun j hj => hg₄.loadedEvent j (hg₃.loadedEvent j hj), hok, ha₄, _, ?_,
          hturn fun _ => hl⟩
        simp
      · exact Or.inr herr

theorem replayAll_logged (at_ : DateTime) (stale : ℤ) :
    ∀ (events : List (ℕ × FlashWebhookEvent)) (n : ℕ) {st : Store S} {h : Hist}, st.Solo s →
      Unrefused h → (∀ e ∈ events, (st.loadedEvent s e.1).isSome = true) →
      (replayAll pyRepr at_ stale events n).wp (logged exec) s W
        (fun r x => ((∃ n, r = .ok n) ∧ Unrefused x.2 ∧
            ∃ turns, x.2 = h ++ turns.flatten ∧ List.Forall₂ (ReplayTurn pyRepr) events turns) ∨
          ((∃ e, r = .error e) ∧ ¬ Unrefused x.2)) (st, h) := by
  intro events
  induction events with
  | nil => exact fun n st h hs ha _ => Or.inl ⟨⟨_, rfl⟩, ha, [], by simp, .nil⟩
  | cons x events ih =>
    obtain ⟨i, event⟩ := x
    intro n st h hs ha hloaded
    refine (wp_bind _ _ _).2 (wp_mono _ _ _ ?_
      (replayEvent_logged pyRepr hs ha (hloaded (i, event) List.mem_cons_self) at_ stale event))
    rintro r ⟨st₁, h₁⟩ (⟨hs₁, hkeep, ⟨b, rfl⟩, ha₁, turn, rfl, hturn⟩ | ⟨⟨e, rfl⟩, hbad⟩)
    · refine wp_logged hs₁ fun ω _ st₂ _ he hs₂ => ?_
      have hkeep₂ := exec_loadedEvent he (fun h => nomatch h)
      refine wp_mono _ _ _ ?_ (ih _ hs₂ (ha₁.step _ rfl) fun e he' =>
        hkeep₂ _ (hkeep _ (hloaded e (List.mem_cons_of_mem _ he'))))
      rintro r ⟨st₃, h₃⟩ (⟨hok, ha₃, turns, hx, hall⟩ | herr)
      · -- the drop at the end of the turn belongs to it
        obtain ⟨pre, t, w, claimed, rest, rfl, hclaimed⟩ := hturn
        have hx : h₃ = _ := hx
        refine Or.inl ⟨hok, ha₃, (pre ++ ⟨.claimWebhookEvent i t w, claimed⟩ ::
          (rest ++ [⟨.dropInstances, ()⟩])) :: turns, by simp [hx], .cons ?_ hall⟩
        refine ⟨pre, t, w, claimed, rest ++ [⟨.dropInstances, ()⟩], rfl, fun hc => ?_⟩
        simpa using (hclaimed hc).within [] [⟨.dropInstances, ()⟩]
      · exact Or.inr herr
    · exact Or.inr ⟨⟨e, rfl⟩, hbad⟩

theorem rememberEvents_isSome {st : Store S} {is : List ℕ} {i : ℕ} (hi : i ∈ is)
    (hview : (st.event.view s i).isSome = true) :
    ((st.rememberEvents s is).loadedEvent s i).isSome = true := by
  simp only [Store.rememberEvents, Function.update_self, Option.isSome_or, Bool.or_eq_true,
    if_pos hi]
  exact Or.inr hview

/-- The events a pass starts with are loaded. -/
theorem exec_selectAbandoned_loaded {st st' : Store S} {ω : Outside} {now : DateTime} {stale : ℤ}
    {n limit : ℕ} {names : List String} {events : List (ℕ × FlashWebhookEvent)}
    (h : exec s (.selectAbandonedWebhookEvents now stale n limit names) st ω = some (events, st')) :
    ∀ e ∈ events, (st'.loadedEvent s e.1).isSome = true := by
  simp only [exec, Option.some.injEq, Prod.mk.injEq] at h
  obtain ⟨rfl, rfl⟩ := h
  intro e he
  obtain ⟨row, hrow, rfl⟩ := List.mem_map.1 he
  have hmem := (List.mem_filter.1 ((List.mem_insertionSort _).1 (List.mem_of_mem_take hrow))).1
  simp only [Store.events, List.mem_filterMap, Option.map_eq_some_iff] at hmem
  obtain ⟨i, -, ev, hview, rfl⟩ := hmem
  show ((st.rememberEvents s _).loadedEvent s i).isSome = true
  refine rememberEvents_isSome (List.mem_map_of_mem hrow) ?_
  rw [hview]
  rfl

theorem replayUnprocessedEvents_logged {st : Store S} (hs : st.Solo s) (limit : ℕ) (stale : ℤ)
    (maxAttempts : ℕ) :
    (replayUnprocessedEvents pyRepr limit stale maxAttempts).wp (logged exec) s W
      (fun r x => ReplaySurvives pyRepr r x.2 ↔ Unrefused x.2) (st, []) := by
  refine wp_logged hs fun ω₁ at_ st₁ _ _ hs₁ => ?_
  refine wp_logged hs₁ fun ω₂ events st₂ _ he hs₂ => ?_
  have ha := (Unrefused.nil.step (c := .utcNow) at_ rfl).step
    (c := .selectAbandonedWebhookEvents at_ stale maxAttempts limit recognisedEvents) events rfl
  refine wp_mono _ _ _ ?_ (replayAll_logged pyRepr at_ stale events 0 hs₂ ha
    (exec_selectAbandoned_loaded he))
  rintro r x (⟨hok, hans, turns, hx, hall⟩ | ⟨⟨e, rfl⟩, hbad⟩)
  · refine ⟨fun _ => hans, fun _ => ⟨hok, [⟨.utcNow, at_⟩], at_, stale, maxAttempts, limit,
      recognisedEvents, events, turns, ?_, hall⟩⟩
    rw [hx]
    rfl
  · refine ⟨fun hsurvives => ?_, fun hans => absurd hans hbad⟩
    obtain ⟨⟨n, hn⟩, -⟩ := hsurvives
    cases hn

end

end

/-! ## A batch of two -/

/-- Two payers, `"alice"` and `"bob"`, last read at `10`, and an event of each. -/
def twoPayers : Store Unit :=
  { sampleStore (fun p => if p = "alice" ∨ p = "bob" then some ⟨some 7, .billing, false⟩ else none)
      (fun p => if p = "alice" ∨ p = "bob" then some
        (recordSubscription (sampleSubscription p "active" (some p)) 0 (some 7) 10 none)
        else none) ["alice", "bob"] with
    event := .ofRows fun i =>
      if i = 0 then some { sampleEvent 0 with payload := some ⟨some "alice", none, none, none⟩ }
      else if i = 1 then some { sampleEvent 1 with payload := some ⟨some "bob", none, none, none⟩ }
      else none
    eventCount := 2 }

theorem twoPayers_solo : twoPayers.Solo () :=
  Store.Quiet.solo ⟨⟨TxTable.owned_ofRows _, TxTable.owned_ofRows _, TxTable.owned_ofRows _,
    TxTable.owned_ofRows _⟩, fun _ => rfl, fun _ => rfl, fun _ => rfl, fun _ => rfl, rfl, rfl⟩ ()

/-- Flash answers for everybody but those in `down`. -/
def reachableBut (down : List Pubkey) : Outside where
  now := 100
  flash
    | .byId _ => .ok none
    | .byRef p => if p ∈ down then .error (.unavailable "timed out")
        else .ok (some (sampleSubscription p "active" (some p)))

/-- The users whose entitlement was attempted. -/
def attempted (h : Hist) : List Pubkey :=
  h.filterMap fun
    | ⟨.brainstormNsecExists p, _⟩ => some p
    | _ => none

end BrainstormServer
