/-
  The pricing page (`list_billing_plans` of `app/services/subscription_view_service.py`).

  A row is kept with the plan mapping it stands for, so that the rows of one
  service can be told from the others.  The page is to lose no more over a bad
  service than that service's rows.

  * `listBillingPlans` follows the source;
  * `Isolated`: every service's rows are those it gives alone, from its own reads
    and cache entries, and no policy that is mapped is shown as free;
  * `page_isolated`: the exact condition, `Readable` for each service.
-/
import BrainstormServer.Billing.Store
import BrainstormServer.Pricing.Plans
import Mathlib.Data.List.Dedup
import Mathlib.Data.String.Basic

namespace BrainstormServer

namespace Pricing

/-! ## The page -/

/-- The columns of `scheduling` the page shows. -/
structure Scheduling where
  id : SchedulingId
  name : String
  scheduleIntervalSeconds : ℤ
  isDefault : Bool
  deriving DecidableEq

/-- `BillingPlanView`. -/
structure BillingPlanView where
  policyId : SchedulingId
  policyName : String
  scheduleIntervalSeconds : ℤ
  isDefault : Bool
  planId : Option String
  planName : Option String
  description : Option String
  amountMinor : ℤ
  currency : String
  billingInterval : Option String
  checkoutUrl : Option String
  features : Option (List String)
  notIncluded : Option (List String)
  deriving DecidableEq

/-- A row of the page, with the mapping it stands for. -/
structure Row where
  plan : Option BillingPlan
  view : BillingPlanView
  deriving DecidableEq

/-- What the page is drawn from besides Flash: the settings, the public policies
    and the active plan mappings, in the order they are selected. -/
structure Catalogue where
  flashEnabled : Bool
  flashCheckoutRedirectUrl : String
  frontendUrl : String
  policies : List Scheduling
  plans : List BillingPlan
  policies_nodup : (policies.map (·.id)).Nodup
  plans_active : ∀ plan ∈ plans, plan.isActive = true

section
variable (lib : Lib) (cat : Catalogue)

/-- `checkout_redirect_url`. -/
def checkoutRedirectUrl : String :=
  if cat.flashCheckoutRedirectUrl ≠ "" then cat.flashCheckoutRedirectUrl
  else String.ofList ((cat.frontendUrl.toList.reverse.dropWhile (· = '/')).reverse) ++ "/billing/return"

/-- `_checkout_url`. -/
def checkoutUrl (signupUrl : String) : Except PlanExn String :=
  match lib.urlsplit signupUrl with
  | none => .error .valueError
  | some parts =>
    match lib.urlencode (lib.parseQsl parts.query ++ [("redirect_uri", checkoutRedirectUrl cat)]) with
    | none => .error .valueError
    | some query => .ok (lib.urlunsplit { parts with query := query })

/-- `_free_row`. -/
def freeRow (policy : Scheduling) : Row where
  plan := none
  view :=
    { policyId := policy.id
      policyName := policy.name
      scheduleIntervalSeconds := policy.scheduleIntervalSeconds
      isDefault := policy.isDefault
      planId := none
      planName := none
      description := none
      amountMinor := 0
      currency := "USD"
      billingInterval := none
      checkoutUrl := none
      features := none
      notIncluded := none }

/-- `_plan_row`; a plan without an amount is refused by the row's type. -/
def planRow (offer : BillingPlan × Scheduling × FlashPlan) : Except PlanExn Row :=
  let (plan, policy, flash) := offer
  match flash.amountMinor, flash.signupUrl.filter (· ≠ "") with
  | none, _ => .error .valueError
  | some amountMinor, signupUrl =>
    match signupUrl.mapM (checkoutUrl lib cat) with
    | .error e => .error e
    | .ok checkoutUrl => .ok {
        plan := some plan
        view :=
          { policyId := policy.id
            policyName := policy.name
            scheduleIntervalSeconds := policy.scheduleIntervalSeconds
            isDefault := policy.isDefault
            planId := some flash.id
            planName := some flash.name
            description := flash.description
            amountMinor := amountMinor
            currency := flash.currency
            billingInterval := flash.billingInterval
            checkoutUrl := checkoutUrl
            features := flash.features
            notIncluded := flash.notIncluded } }

/-- The active plans on public policies, each with its policy. -/
def activePlans : List (BillingPlan × Scheduling) :=
  cat.plans.filterMap fun plan =>
    (cat.policies.find? (·.id = plan.schedulingId)).map (plan, ·)

/-- The services they are mapped to. -/
def serviceIds : List String := (activePlans cat).map (·.1.flashServiceId)

/-- The filter of `_sellable_flash_plans`. -/
def sellable (found : FlashPlans) : FlashPlans := fun key =>
  (found key).filter fun plan => plan.amountMinor.isSome ∧ plan.signupUrl.any (· ≠ "")

/-- The active plans that Flash offers. -/
def offers (flashPlans : FlashPlans) : List (BillingPlan × Scheduling × FlashPlan) :=
  (activePlans cat).filterMap fun (plan, policy) =>
    (flashPlans (plan.flashServiceId, plan.flashPlanId)).map (plan, policy, ·)

/-- `(sort_order, id)`, as tuples are compared. -/
def offerOrder (offer offer' : BillingPlan × Scheduling × FlashPlan) : Prop :=
  offer.2.2.sortOrder < offer'.2.2.sortOrder ∨
    (offer.2.2.sortOrder = offer'.2.2.sortOrder ∧ offer.2.2.id ≤ offer'.2.2.id)

/-- `not row.is_default`. -/
def defaultFirst (row row' : Row) : Prop := row.view.isDefault = true ∨ row'.view.isDefault = false

instance : DecidableRel offerOrder := fun _ _ => inferInstanceAs (Decidable (_ ∨ _))

instance : DecidableRel defaultFirst := fun _ _ => inferInstanceAs (Decidable (_ ∨ _))

/-- The policies nothing sells. -/
def freeRows : List Row :=
  (cat.policies.filter fun policy => policy.id ∉ (activePlans cat).map (·.1.schedulingId)).map freeRow

/-- The rows, once Flash's plans are there. -/
def pageFrom (flashPlans : FlashPlans) : Except PlanExn (List Row) := do
  let rows ← (sortBy offerOrder (offers cat flashPlans)).mapM (planRow lib cat)
  .ok (sortBy defaultFirst (freeRows cat ++ rows))

/-- `list_billing_plans`. -/
def listBillingPlans (reads : String → Reads) (cache : Cache) : Except PlanExn (List Row) :=
  if cat.flashEnabled then do
    let found ← readPlansForServices lib reads (serviceIds cat) cache
    pageFrom lib cat (sellable found)
  else .ok []

end

/-! ## One service's rows -/

/-- The rows of the page that stand for plans of a service. -/
def rowsFor (serviceId : String) (page : List Row) : List Row :=
  page.filter fun row => row.plan.any (·.flashServiceId = serviceId)

instance : Std.Total offerOrder where
  total a b := by
    unfold offerOrder
    rcases lt_trichotomy a.2.2.sortOrder b.2.2.sortOrder with h | h | h
    · exact Or.inl (Or.inl h)
    · rcases le_total a.2.2.id b.2.2.id with h' | h'
      · exact Or.inl (Or.inr ⟨h, h'⟩)
      · exact Or.inr (Or.inr ⟨h.symm, h'⟩)
    · exact Or.inr (Or.inl h)

instance : IsTrans _ offerOrder where
  trans a b c := by
    unfold offerOrder
    rintro (h | ⟨h, hid⟩) (h' | ⟨h', hid'⟩)
    · exact Or.inl (h.trans h')
    · exact Or.inl (h'  ▸ h)
    · exact Or.inl (h ▸ h')
    · exact Or.inr ⟨h.trans h', le_trans hid hid'⟩

instance : Std.Total defaultFirst where
  total a b := by
    unfold defaultFirst
    cases a.view.isDefault <;> simp

instance : IsTrans _ defaultFirst where
  trans a b c := by
    unfold defaultFirst
    cases b.view.isDefault <;> simp +contextual

section
variable {lib : Lib} {cat : Catalogue} {serviceId : String}

theorem planRow_plan {offer : BillingPlan × Scheduling × FlashPlan} {row : Row}
    (h : planRow lib cat offer = .ok row) : row.plan = some offer.1 ∧ row.view.planId ≠ none := by
  unfold planRow at h
  dsimp only at h
  split at h
  · cases h
  · split at h
    · cases h
    · cases h
      exact ⟨rfl, by simp⟩

/-- A sellable plan makes a row if its signup URL can be split. -/
theorem planRow_isOk {plan : BillingPlan} {policy : Scheduling} {flash : FlashPlan} {url : String}
    {amount : ℤ} (ha : flash.amountMinor = some amount) (hu : flash.signupUrl = some url)
    (hne : url ≠ "") :
    (∃ row, planRow lib cat (plan, policy, flash) = .ok row) ↔ ∃ u, checkoutUrl lib cat url = .ok u := by
  have hm : (flash.signupUrl.filter (· ≠ "")).mapM (checkoutUrl lib cat) =
      (checkoutUrl lib cat url).map some := by
    simp only [hu, Option.filter, hne, ne_eq, not_false_eq_true, decide_true, if_true]
    rfl
  unfold planRow
  simp only [ha, hm]
  cases checkoutUrl lib cat url with
  | error e => simp [Except.map]
  | ok u => simp [Except.map]

theorem pageFrom_eq_ok {flashPlans : FlashPlans} {page : List Row} :
    pageFrom lib cat flashPlans = .ok page ↔ ∃ rows,
      (sortBy offerOrder (offers cat flashPlans)).mapM (planRow lib cat) = .ok rows ∧
        page = sortBy defaultFirst (freeRows cat ++ rows) := by
  unfold pageFrom
  cases (sortBy offerOrder (offers cat flashPlans)).mapM (planRow lib cat) with
  | error e => exact ⟨fun h => (by cases h), fun ⟨_, h, _⟩ => (by cases h)⟩
  | ok rows =>
    constructor
    · intro h
      exact ⟨rows, rfl, (Except.ok.inj h).symm⟩
    · rintro ⟨_, ⟨⟩, rfl⟩
      rfl

/-- The page is drawn if every offer makes a row. -/
theorem pageFrom_isOk {flashPlans : FlashPlans} : (∃ page, pageFrom lib cat flashPlans = .ok page) ↔
    ∀ offer ∈ offers cat flashPlans, ∃ row, planRow lib cat offer = .ok row := by
  have hmem : ∀ offer, offer ∈ sortBy offerOrder (offers cat flashPlans) ↔
      offer ∈ offers cat flashPlans := fun offer => List.mem_insertionSort _
  constructor
  · rintro ⟨page, hp⟩ offer ho
    obtain ⟨rows, hrows, -⟩ := pageFrom_eq_ok.1 hp
    exact mapM_isOk.1 ⟨rows, hrows⟩ offer ((hmem offer).2 ho)
  · intro h
    obtain ⟨rows, hrows⟩ := mapM_isOk.2 fun offer ho => h offer ((hmem offer).1 ho)
    exact ⟨_, pageFrom_eq_ok.2 ⟨rows, hrows, rfl⟩⟩

/-- The rows of a service are made of its offers, in the page's order. -/
theorem rowsFor_pageFrom {flashPlans : FlashPlans} {page : List Row}
    (h : pageFrom lib cat flashPlans = .ok page) : ∃ rows,
      (sortBy offerOrder ((offers cat flashPlans).filter (·.1.flashServiceId = serviceId))).mapM
        (planRow lib cat) = .ok rows ∧ rowsFor serviceId page = sortBy defaultFirst rows := by
  obtain ⟨rows, hrows, rfl⟩ := pageFrom_eq_ok.1 h
  refine ⟨rowsFor serviceId rows, ?_, ?_⟩
  · rw [← filter_sortBy]
    refine filter_mapM (fun {offer row} hrow => ?_) hrows
    rw [(planRow_plan hrow).1]
    rfl
  · have hfree : rowsFor serviceId (freeRows cat) = [] := by
      refine List.filter_eq_nil_iff.2 fun row hrow => ?_
      obtain ⟨policy, -, rfl⟩ := List.mem_map.1 hrow
      simp [freeRow]
    unfold rowsFor at *
    rw [filter_sortBy, List.filter_append, hfree, List.nil_append]

/-- The offers of a service depend on its own plans. -/
theorem offers_congr {flashPlans flashPlans' : FlashPlans}
    (h : ∀ planId, flashPlans (serviceId, planId) = flashPlans' (serviceId, planId)) :
    (offers cat flashPlans).filter (·.1.flashServiceId = serviceId) =
      (offers cat flashPlans').filter (·.1.flashServiceId = serviceId) := by
  unfold offers
  rw [List.filter_filterMap, List.filter_filterMap]
  refine List.filterMap_congr ?_
  rintro ⟨plan, policy⟩ -
  dsimp only
  by_cases hs : plan.flashServiceId = serviceId
  · subst hs
    rw [h]
  · have hnone : ∀ flash : Option FlashPlan, (flash.map fun x => (plan, policy, x)).filter
        (·.1.flashServiceId = serviceId) = none := by
      intro flash
      cases flash with
      | none => rfl
      | some x => simp [Option.filter, hs]
    rw [hnone, hnone]

/-- Two pages show the same rows of a service they have the same plans of. -/
theorem rowsFor_congr {flashPlans flashPlans' : FlashPlans} {page page' : List Row}
    (h : ∀ planId, flashPlans (serviceId, planId) = flashPlans' (serviceId, planId))
    (hp : pageFrom lib cat flashPlans = .ok page) (hp' : pageFrom lib cat flashPlans' = .ok page') :
    rowsFor serviceId page = rowsFor serviceId page' := by
  obtain ⟨rows, hrows, hr⟩ := @rowsFor_pageFrom _ _ serviceId _ _ hp
  obtain ⟨rows', hrows', hr'⟩ := @rowsFor_pageFrom _ _ serviceId _ _ hp'
  rw [offers_congr h, hrows'] at hrows
  cases hrows
  rw [hr, hr']

/-- Only a policy no active plan is mapped to has a free row. -/
theorem pageFrom_free {flashPlans : FlashPlans} {page : List Row}
    (h : pageFrom lib cat flashPlans = .ok page) :
    ∀ row ∈ page, row.view.planId = none →
      ∀ plan ∈ cat.plans, plan.schedulingId ≠ row.view.policyId := by
  obtain ⟨rows, hrows, rfl⟩ := pageFrom_eq_ok.1 h
  intro row hrow hfree plan hplan hid
  rw [sortBy, List.mem_insertionSort, List.mem_append] at hrow
  rcases hrow with hrow | hrow
  · obtain ⟨policy, hpolicy, rfl⟩ := List.mem_map.1 hrow
    rw [List.mem_filter, decide_eq_true_eq] at hpolicy
    refine hpolicy.2 (List.mem_map.2 ?_)
    obtain ⟨policy', hfind⟩ : ∃ policy', cat.policies.find? (·.id = plan.schedulingId) = some policy' := by
      rw [← Option.isSome_iff_exists, List.find?_isSome]
      exact ⟨policy, hpolicy.1, by simp [hid, freeRow]⟩
    refine ⟨(plan, policy'), ?_, hid⟩
    exact List.mem_filterMap.2 ⟨plan, hplan, by rw [hfind]; rfl⟩
  · have hmem : Except.ok row ∈ rows.map (.ok : Row → Except PlanExn Row) := List.mem_map_of_mem hrow
    rw [← mapM_ok.1 hrows] at hmem
    obtain ⟨offer, -, hoffer⟩ := List.mem_map.1 hmem
    exact (planRow_plan hoffer).2 hfree

end

/-! ## When a service can be read -/

/-- The read of a service fails in no other way than those stepped over: its cached
    copies, where they are consulted, can be loaded and iterated over, and Flash, if it
    is asked, does not refuse the credentials or send what is nested too deeply. -/
structure Readable (lib : Lib) (reads : Reads) (serviceId : String) (fresh lastGood : Option String) :
    Prop where
  freshCopy : (load lib reads.getFresh fresh).isOk = true
  lockedCopy : isMiss (load lib reads.getFresh fresh) = true →
    (load lib reads.getLocked fresh).isOk = true
  answer : isMiss (load lib reads.getFresh fresh) = true →
    isMiss (load lib reads.getLocked fresh) = true → serviceId ≠ "" →
      reads.answer.refused = false ∧ reads.answer.tooDeep = false
  lastGoodCopy : isMiss (load lib reads.getFresh fresh) = true →
    isMiss (load lib reads.getLocked fresh) = true →
      isOutage (fetchServicePlansRaw serviceId reads.answer) = true →
        (load lib reads.getLastGood lastGood).isOk = true

section
variable {lib : Lib} {reads : Reads} {serviceId : String} {fresh lastGood : Option String}

/-- The loop steps over no failure of a load. -/
theorem load_error {answered : Bool} {stored : Option String} {e : PlanExn}
    (h : load lib answered stored = .error e) : e.omitted = false := by
  unfold load at h
  split_ifs at h
  · split at h
    · cases h
    · split at h
      · cases h
      · cases h
        rfl
      · split at h
        · cases h
          rfl
        · cases h

/-- What a body ends the loop by: the credentials, or its depth. -/
theorem bodyOf_raises {statusCode : ℕ} {body : JsonEnd} {absentOn404 : Bool} :
    (∃ e, bodyOf statusCode body absentOn404 = .error e ∧ e.omitted = false) ↔
      ¬ ((Answer.response statusCode body).refused = false ∧
        (Answer.response statusCode body).tooDeep = false) := by
  unfold bodyOf
  split_ifs with h₁ h₂ h₃
  · simp [Answer.refused, h₁, PlanExn.omitted]
  · have hge : ¬ statusCode < 400 := by omega
    cases body <;> simp [Answer.refused, Answer.tooDeep, h₁, hge]
  · have hge : ¬ statusCode < 400 := by omega
    cases body <;> simp [Answer.refused, Answer.tooDeep, h₁, hge, PlanExn.omitted]
  · have hlt : statusCode < 400 := by omega
    cases body with
    | recursionError => simp [Answer.refused, Answer.tooDeep, h₁, hlt, PlanExn.omitted]
    | valueError => simp [Answer.refused, Answer.tooDeep, h₁, PlanExn.omitted]
    | value v => cases v <;> simp [Answer.refused, Answer.tooDeep, h₁, PlanExn.omitted]

/-- What a read of Flash ends the loop by. -/
theorem fetchServicePlansRaw_raises {answer : Answer} :
    (∃ e, fetchServicePlansRaw serviceId answer = .error e ∧ e.omitted = false) ↔
      ¬ (serviceId ≠ "" → answer.refused = false ∧ answer.tooDeep = false) := by
  unfold fetchServicePlansRaw
  split_ifs with h
  · simp [h, PlanExn.omitted]
  · cases answer with
    | unreachable => simp [readAnswer, Answer.refused, Answer.tooDeep, PlanExn.omitted]
    | response statusCode body =>
      rw [Classical.not_imp, and_iff_right h, ← @bodyOf_raises statusCode body true]
      simp only [readAnswer]
      split
      · rename_i e he
        simp [he]
      · rename_i he
        simp [he, PlanExn.omitted]
      · rename_i he
        simp [he]

/-- A refresh fails by what Flash answers, or by the last known copy in an outage. -/
theorem refresh_error_iff {cache : Cache} :
    (∀ e, (refresh lib reads serviceId cache).1 = .error e → e.omitted = true) ↔
      (serviceId ≠ "" → reads.answer.refused = false ∧ reads.answer.tooDeep = false) ∧
        (isOutage (fetchServicePlansRaw serviceId reads.answer) = true →
          (load lib reads.getLastGood (cache (lastGoodKey serviceId))).isOk = true) := by
  have hraises := not_congr (@fetchServicePlansRaw_raises serviceId reads.answer)
  rw [not_not] at hraises
  rw [← hraises]
  unfold refresh
  cases hf : fetchServicePlansRaw serviceId reads.answer with
  | ok body => simp [isOutage]
  | error e =>
    cases e with
    | flashUnavailable =>
      cases hl : load lib reads.getLastGood (cache (lastGoodKey serviceId)) with
      | error e' => simp [load_error hl, isOutage, Except.isOk, Except.toBool]
      | ok r => cases r <;> simp [isOutage, PlanExn.omitted, Except.isOk, Except.toBool]
    | flashServiceMissing => simp [isOutage, PlanExn.omitted]
    | _ => simp [isOutage, PlanExn.omitted]

theorem isOk_of_isMiss {r : Except PlanExn (Option (List FlashPlan))} (h : isMiss r = true) :
    r.isOk = true := by
  rw [isMiss_iff.1 h]
  rfl

/-- A service is readable exactly if its own read fails in no way but those the loop
    steps over. -/
theorem readable_iff : Readable lib reads serviceId fresh lastGood ↔
    ∀ e, ownRead lib reads serviceId fresh lastGood = .error e → e.omitted = true := by
  have hentry : entries serviceId fresh lastGood (freshKey serviceId) = fresh := by simp [entries]
  have hentry' : entries serviceId fresh lastGood (lastGoodKey serviceId) = lastGood := by
    simp [entries, (freshKey_ne_lastGoodKey serviceId).symm]
  have hraises : ∀ {answered stored e}, load lib answered stored = .error e →
      ¬ ∀ e', (.error e : Except PlanExn (List FlashPlan)) = .error e' → e'.omitted = true := by
    intro answered stored e hl h
    have homitted := h e rfl
    rw [load_error hl] at homitted
    cases homitted
  unfold ownRead readServicePlans
  rw [hentry]
  cases h₁ : load lib reads.getFresh fresh with
  | error e =>
    exact ⟨fun h => absurd h.freshCopy (by simp [h₁, Except.isOk, Except.toBool]),
      fun h => absurd h (hraises h₁)⟩
  | ok r =>
    cases r with
    | some cached =>
      refine ⟨fun _ e h => (by cases h), fun _ => ⟨?_, ?_, ?_, ?_⟩⟩
      · rw [h₁]; rfl
      all_goals rw [h₁]; intro h; cases h
    | none =>
      have hmiss : isMiss (load lib reads.getFresh fresh) = true := isMiss_iff.2 h₁
      cases h₂ : load lib reads.getLocked fresh with
      | error e =>
        refine ⟨fun h => absurd (h.lockedCopy hmiss) (by simp [h₂, Except.isOk, Except.toBool]),
          fun h => absurd h (hraises h₂)⟩
      | ok r =>
        cases r with
        | some cached =>
          refine ⟨fun _ e h => (by cases h), fun _ => ⟨isOk_of_isMiss hmiss, fun _ => ?_, ?_, ?_⟩⟩
          · rw [h₂]; rfl
          all_goals rw [h₂]; intro _ h; cases h
        | none =>
          have hmiss' : isMiss (load lib reads.getLocked fresh) = true := isMiss_iff.2 h₂
          have hiff := @refresh_error_iff lib reads serviceId (entries serviceId fresh lastGood)
          rw [hentry'] at hiff
          refine Iff.trans ?_ hiff.symm
          exact ⟨fun h => ⟨h.answer hmiss hmiss', h.lastGoodCopy hmiss hmiss'⟩,
            fun h => ⟨isOk_of_isMiss hmiss, fun _ => isOk_of_isMiss hmiss', fun _ _ => h.1,
              fun _ _ => h.2⟩⟩

end

/-! ## Isolation -/

section
variable (lib : Lib) (cat : Catalogue)

/-- The page one service gives alone, from what is its own: its loop of one read
    with its two cache entries. -/
def ownPage (serviceId : String) (reads : Reads) (fresh lastGood : Option String) :
    Except PlanExn (List Row) :=
  if cat.flashEnabled then do
    let found ← readPlansFrom lib (fun _ => reads) [serviceId] (entries serviceId fresh lastGood)
      fun _ => none
    pageFrom lib cat (sellable found)
  else .ok []

/-- Every service has the rows on the page that it gives alone, and no policy with
    an active plan is shown as free. -/
structure Isolated (reads : String → Reads) (cache : Cache) (page : List Row) : Prop where
  own : ∀ s ∈ serviceIds cat, ∃ own,
    ownPage lib cat s (reads s) (cache (freshKey s)) (cache (lastGoodKey s)) = .ok own ∧
      rowsFor s page = rowsFor s own
  unfree : ∀ row ∈ page, row.view.planId = none →
    ∀ plan ∈ cat.plans, plan.schedulingId ≠ row.view.policyId

/-- The plans a service offers by its own read. -/
def ownOffered (reads : String → Reads) (cache : Cache) (s : String) : FlashPlans :=
  offered (ownRead lib (reads s) s (cache (freshKey s)) (cache (lastGoodKey s))) s

/-- Every service can be read, and the signup URL of every plan that is to be sold
    can be split. -/
structure PageReadable (reads : String → Reads) (cache : Cache) : Prop where
  service : ∀ s ∈ serviceIds cat,
    Readable lib (reads s) s (cache (freshKey s)) (cache (lastGoodKey s))
  signupUrl : ∀ plan policy flash url, (plan, policy) ∈ activePlans cat →
    sellable (ownOffered lib reads cache plan.flashServiceId)
      (plan.flashServiceId, plan.flashPlanId) = some flash →
    flash.signupUrl = some url → ∃ u, checkoutUrl lib cat url = .ok u

/-- The order in which the services are read. -/
def readingOrder : List String := sortBy (· ≤ ·) (serviceIds cat).dedup

end

section
variable {lib : Lib} {cat : Catalogue} {reads : String → Reads} {cache : Cache}

theorem mem_readingOrder {s : String} : s ∈ readingOrder cat ↔ s ∈ serviceIds cat := by
  rw [readingOrder, sortBy, List.mem_insertionSort, List.mem_dedup]

theorem nodup_readingOrder : (readingOrder cat).Nodup :=
  (List.perm_insertionSort _ _).nodup_iff.2 (List.nodup_dedup _)

/-- The loop over one service. -/
theorem readPlansFrom_single {r : Reads} {s : String} {fresh lastGood : Option String} :
    readPlansFrom lib (fun _ => r) [s] (entries s fresh lastGood) (fun _ => none) =
        .ok (offered (ownRead lib r s fresh lastGood) s) ∨
      ∃ e, ownRead lib r s fresh lastGood = .error e ∧ e.omitted = false ∧
        readPlansFrom lib (fun _ => r) [s] (entries s fresh lastGood) (fun _ => none) = .error e := by
  cases hr : ownRead lib r s fresh lastGood with
  | ok found => exact Or.inl (@readPlansFrom_found lib (fun _ => r) s [] _ _ _ hr)
  | error e =>
    cases he : e.omitted with
    | true => exact Or.inl (@readPlansFrom_omitted lib (fun _ => r) s [] _ _ _ he hr)
    | false => exact Or.inr ⟨e, rfl, he, @readPlansFrom_raised lib (fun _ => r) s [] _ _ _ he hr⟩

theorem sellable_cases {flashPlans : FlashPlans} {key : String × String} {flash : FlashPlan}
    (h : sellable flashPlans key = some flash) :
    ∃ amount url, flash.amountMinor = some amount ∧ flash.signupUrl = some url ∧ url ≠ "" := by
  simp only [sellable, Option.filter_eq_some_iff, Bool.decide_and, Bool.decide_eq_true,
    Bool.and_eq_true, Option.isSome_iff_exists, Option.any_eq_true, decide_eq_true_eq] at h
  obtain ⟨-, ⟨amount, ha⟩, url, hu, hne⟩ := h
  exact ⟨amount, url, ha, hu, hne⟩

/-- An offer of sellable plans makes a row if its signup URL can be split. -/
theorem offers_isOk {flashPlans : FlashPlans} :
    (∀ offer ∈ offers cat (sellable flashPlans), ∃ row, planRow lib cat offer = .ok row) ↔
      ∀ plan policy flash url, (plan, policy) ∈ activePlans cat →
        sellable flashPlans (plan.flashServiceId, plan.flashPlanId) = some flash →
        flash.signupUrl = some url → ∃ u, checkoutUrl lib cat url = .ok u := by
  constructor
  · intro h plan policy flash url hplan hflash hurl
    obtain ⟨amount, url', ha, hu, hne⟩ := sellable_cases hflash
    obtain rfl : url' = url := Option.some.inj (hu.symm.trans hurl)
    refine (@planRow_isOk lib cat plan policy flash _ _ ha hu hne).1 (h _ ?_)
    refine List.mem_filterMap.2 ⟨(plan, policy), hplan, ?_⟩
    dsimp only
    rw [hflash]
    rfl
  · rintro h ⟨plan, policy, flash⟩ hoffer
    obtain ⟨⟨plan', policy'⟩, hplan, hmap⟩ := List.mem_filterMap.1 hoffer
    obtain ⟨flash', hflash, heq⟩ := Option.map_eq_some_iff.1 hmap
    cases heq
    obtain ⟨amount, url, ha, hu, hne⟩ := sellable_cases hflash
    exact (planRow_isOk ha hu hne).2 (h plan policy flash url hplan hflash hu)

theorem mem_serviceIds {plan : BillingPlan} {policy : Scheduling}
    (h : (plan, policy) ∈ activePlans cat) : plan.flashServiceId ∈ serviceIds cat :=
  List.mem_map.2 ⟨_, h, rfl⟩

/-- The page of one service, if it can be read. -/
theorem ownPage_eq_ok (hon : cat.flashEnabled = true) {s : String} {own : List Row} :
    ownPage lib cat s (reads s) (cache (freshKey s)) (cache (lastGoodKey s)) = .ok own ↔
      (∀ e, ownRead lib (reads s) s (cache (freshKey s)) (cache (lastGoodKey s)) = .error e →
        e.omitted = true) ∧ pageFrom lib cat (sellable (ownOffered lib reads cache s)) = .ok own := by
  unfold ownPage
  rw [if_pos hon]
  rcases @readPlansFrom_single lib (reads s) s (cache (freshKey s)) (cache (lastGoodKey s)) with
    h | ⟨e, he, homit, h⟩
  · rw [h]
    refine ⟨fun hp => ⟨fun e he => ?_, hp⟩, fun hp => hp.2⟩
    by_contra homit
    have := @readPlansFrom_raised lib (fun _ => reads s) s [] _ (fun _ => none) _
      (Bool.eq_false_iff.2 homit) he
    rw [h] at this
    cases this
  · rw [h]
    refine ⟨fun hp => (by cases hp), fun hp => ?_⟩
    rw [hp.1 e he] at homit
    cases homit

/-- One service offers nothing of the others. -/
theorem ownOffered_other {s t : String} (hst : s ≠ t) (planId : String) :
    ownOffered lib reads cache s (t, planId) = none := by
  unfold ownOffered
  cases ownRead lib (reads s) s (cache (freshKey s)) (cache (lastGoodKey s)) with
  | ok found => exact addPlans_other hst planId found _
  | error e => rfl

theorem listBillingPlans_on (hon : cat.flashEnabled = true) {found : FlashPlans}
    (h : readPlansFrom lib reads (readingOrder cat) cache (fun _ => none) = .ok found) :
    listBillingPlans lib cat reads cache = pageFrom lib cat (sellable found) := by
  unfold listBillingPlans
  rw [if_pos hon]
  unfold readPlansForServices
  unfold readingOrder at h
  rw [h]
  rfl

/-- With every service readable and none disturbed, the page has every service's
    own rows. -/
theorem isolated_of_readable (hon : cat.flashEnabled = true)
    (hread : PageReadable lib cat reads cache)
    (hu : Undisturbed lib reads cache (readingOrder cat)) :
    ∃ page, listBillingPlans lib cat reads cache = .ok page ∧ Isolated lib cat reads cache page := by
  have homitted : ∀ t ∈ readingOrder cat, ∀ e,
      (readServicePlans lib (reads t) t cache).1 = .error e → e.omitted = true := by
    intro t ht e he
    exact readable_iff.1 (hread.service t (mem_readingOrder.1 ht)) e ((ownRead_eq _ _ _ _).trans he)
  obtain ⟨found, hfound, hin, -⟩ := @readPlansFrom_own lib reads cache (readingOrder cat) cache
    (fun _ => none) nodup_readingOrder hu (fun _ _ _ _ => rfl) homitted (fun _ _ _ => rfl)
  have hown : ∀ s ∈ serviceIds cat, ∀ planId,
      sellable found (s, planId) = sellable (ownOffered lib reads cache s) (s, planId) := by
    intro s hs planId
    unfold sellable ownOffered
    rw [hin s (mem_readingOrder.2 hs) planId, ownRead_eq]
  have hpage : ∃ page, pageFrom lib cat (sellable found) = .ok page := by
    refine pageFrom_isOk.2 (offers_isOk.2 fun plan policy flash url hplan hflash hurl => ?_)
    rw [hown _ (mem_serviceIds hplan)] at hflash
    exact hread.signupUrl plan policy flash url hplan hflash hurl
  obtain ⟨page, hpage⟩ := hpage
  refine ⟨page, (listBillingPlans_on hon hfound).trans hpage, ?_, pageFrom_free hpage⟩
  intro s hs
  have hownPage : ∃ own, pageFrom lib cat (sellable (ownOffered lib reads cache s)) = .ok own := by
    refine pageFrom_isOk.2 (offers_isOk.2 fun plan policy flash url hplan hflash hurl => ?_)
    by_cases hsame : s = plan.flashServiceId
    · subst hsame
      exact hread.signupUrl plan policy flash url hplan hflash hurl
    · simp [sellable, ownOffered_other hsame] at hflash
  obtain ⟨own, hownPage⟩ := hownPage
  exact ⟨own, (ownPage_eq_ok hon).2 ⟨readable_iff.1 (hread.service s hs), hownPage⟩,
    rowsFor_congr (hown s hs) hpage hownPage⟩

/-- A page on which every service has its own rows needs every service readable. -/
theorem readable_of_isolated (hon : cat.flashEnabled = true) {page : List Row}
    (h : Isolated lib cat reads cache page) : PageReadable lib cat reads cache where
  service s hs := by
    obtain ⟨own, hown, -⟩ := h.own s hs
    exact readable_iff.2 ((ownPage_eq_ok hon).1 hown).1
  signupUrl plan policy flash url hplan hflash hurl := by
    obtain ⟨own, hown, -⟩ := h.own _ (mem_serviceIds hplan)
    have hp := pageFrom_isOk.1 ⟨own, ((ownPage_eq_ok hon).1 hown).2⟩
    exact offers_isOk.1 hp plan policy flash url hplan hflash hurl

/-- Two pages with every service's own rows: what differs in other services changes
    nothing of this one's. -/
theorem Isolated.unchanged {reads' : String → Reads} {cache' : Cache} {page page' : List Row}
    {s : String} (h : Isolated lib cat reads cache page) (h' : Isolated lib cat reads' cache' page')
    (hs : s ∈ serviceIds cat) (hreads : reads' s = reads s)
    (hfresh : cache' (freshKey s) = cache (freshKey s))
    (hlast : cache' (lastGoodKey s) = cache (lastGoodKey s)) : rowsFor s page' = rowsFor s page := by
  obtain ⟨own, hown, hrows⟩ := h.own s hs
  obtain ⟨own', hown', hrows'⟩ := h'.own s hs
  rw [hreads, hfresh, hlast, hown] at hown'
  cases hown'
  rw [hrows, hrows']

end

/-- **One bad service costs only its own rows.**  It does if every service can be
    read, or fails in a way the loop steps over, and none stores a key that a later
    one consults; and it does not unless every service can be read.  Changing other
    services, their cache entries included, then changes nothing of the rows of
    one.  Where billing is off, the page is empty. -/
theorem page_isolated (lib : Lib) (cat : Catalogue) (reads : String → Reads) (cache : Cache) :
    ((cat.flashEnabled = true →
        PageReadable lib cat reads cache ∧ Undisturbed lib reads cache (readingOrder cat)) →
      ∃ page, listBillingPlans lib cat reads cache = .ok page ∧ Isolated lib cat reads cache page) ∧
    ((∃ page, listBillingPlans lib cat reads cache = .ok page ∧
        Isolated lib cat reads cache page) →
      cat.flashEnabled = true → PageReadable lib cat reads cache) ∧
    ∀ s ∈ serviceIds cat, ∀ reads' cache' page page', reads' s = reads s →
      cache' (freshKey s) = cache (freshKey s) → cache' (lastGoodKey s) = cache (lastGoodKey s) →
      Isolated lib cat reads cache page → Isolated lib cat reads' cache' page' →
      rowsFor s page' = rowsFor s page := by
  refine ⟨?_, ?_, fun s hs reads' cache' page page' hr hf hl h h' => h.unchanged h' hs hr hf hl⟩
  · intro h
    by_cases hon : cat.flashEnabled = true
    · exact isolated_of_readable hon (h hon).1 (h hon).2
    · refine ⟨[], by simp [listBillingPlans, hon], fun s _ => ⟨[], by simp [ownPage, hon], rfl⟩, ?_⟩
      intro row hrow
      exact absurd hrow List.not_mem_nil
  · rintro ⟨page, -, h⟩ hon
    exact readable_of_isolated hon h

/-! ## Bad services -/

/-- The plan the sample services offer, as Flash sends it. -/
def gold (signupUrl : String) : PyValue :=
  .dict [("id", .str "gold"), ("amount", .str "100"), ("signupUrl", .str signupUrl)]

/-- The library on the inputs below. -/
def sampleLib : Lib where
  loads stored :=
    if stored = "5" then .value (.int 5)
    else if stored = "[gold]" then .value (.list [gold "https://flash/gold"])
    else if stored = "[[[" then .recursionError
    else .valueError
  dumps _ := "[gold]"
  str v := match v with
    | .str s => s
    | _ => ""
  int _ := some 100
  strip s := s
  urlsplit url := if url = "https://[" then none else some ⟨"https", "flash", "/gold", "", ""⟩
  parseQsl _ := []
  urlencode _ := some "redirect_uri=https%3A%2F%2Fbrainstorm%2Fbilling%2Freturn"
  urlunsplit parts := parts.scheme ++ "://" ++ parts.netloc ++ parts.path ++ "?" ++ parts.query

/-- A free policy, and one policy sold on each of two services. -/
def sampleCatalogue (other : String) : Catalogue where
  flashEnabled := true
  flashCheckoutRedirectUrl := "https://brainstorm/billing/return"
  frontendUrl := ""
  policies := [⟨1, "free", 604800, true⟩, ⟨2, "daily", 86400, false⟩, ⟨3, "hourly", 3600, false⟩]
  plans := [⟨"alpha", "gold", 2, true⟩, ⟨other, "gold", 3, true⟩]
  policies_nodup := by decide
  plans_active := by simp

/-- `"alpha"` offers its plan, every other service answers `answer`. -/
def sampleReads (answer : Answer) (serviceId : String) : Reads where
  getFresh := true
  getLocked := true
  answer := if serviceId = "alpha" then
      .response 200 (.value (.dict [("plans", .list [gold "https://flash/gold"])]))
    else answer
  getLastGood := true
  setFresh := true
  setLastGood := true

/-- The services on the page, in its order. -/
def services (page : Except PlanExn (List Row)) : Except PlanExn (List (Option String)) :=
  page.map (·.map fun row => row.plan.map (·.flashServiceId))

example : services (listBillingPlans sampleLib (sampleCatalogue "beta") (sampleReads .unreachable)
    fun _ => none) = .ok [none, some "alpha"] := by rfl

/-- **Bad services that cost the page**: one that refuses the credentials, one that sends
    what is nested too deeply, one whose cached copy is a number, one whose cached copy is
    nested too deeply, one whose plan has a signup URL that cannot be split; and one that is
    down, with nothing cached of its own, and is sold with the plans of another whose last
    known copy it takes for its own. -/
theorem bad_services :
    listBillingPlans sampleLib (sampleCatalogue "beta") (sampleReads (.response 403 .valueError))
        (fun _ => none) = .error .flashCredentialError ∧
      listBillingPlans sampleLib (sampleCatalogue "beta") (sampleReads (.response 200 .recursionError))
        (fun _ => none) = .error .recursionError ∧
      listBillingPlans sampleLib (sampleCatalogue "beta") (sampleReads .unreachable)
        (fun key => if key = freshKey "beta" then some "5" else none) = .error .typeError ∧
      listBillingPlans sampleLib (sampleCatalogue "beta") (sampleReads .unreachable)
        (fun key => if key = freshKey "beta" then some "[[[" else none) = .error .recursionError ∧
      listBillingPlans sampleLib (sampleCatalogue "beta")
        (sampleReads (.response 200 (.value (.dict [("plans", .list [gold "https://["])]))))
        (fun _ => none) = .error .valueError ∧
      services (listBillingPlans sampleLib (sampleCatalogue "lkg:alpha") (sampleReads .unreachable)
        fun _ => none) = .ok [none, some "alpha", some "lkg:alpha"] := by
  refine ⟨by rfl, by rfl, by rfl, by rfl, by rfl, by rfl⟩

end Pricing

end BrainstormServer
