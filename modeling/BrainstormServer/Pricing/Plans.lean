/-
  Flash's plans, cached (`app/core/flash_plan_cache.py`, and the reading of a
  service in `app/core/flash.py`).

  Two cache entries per service: a short-lived copy of its plans, and the last
  known good one.  The cache is a function from keys to strings, as Redis is, so
  that two services may meet in one key.

  * `readServicePlans` and `readPlansForServices` follow the source; a service's
    own commands may fail or be answered in any way (`Reads`);
  * `consults` and `stores`: the keys a read looks up and those it writes;
    `readServicePlans_agree`: nothing else of the cache matters, and nothing else
    of it changes;
  * `collide`: two services meet in a key only if the id of one is `lkg:` and the
    id of the other.
-/
import BrainstormServer.Python

namespace BrainstormServer

namespace Pricing

/-! ## Plans -/

/-- `FlashPlan`. -/
structure FlashPlan where
  id : String
  serviceId : String
  name : String
  description : Option String
  amountMinor : Option ℤ
  currency : String
  billingInterval : Option String
  sortOrder : ℤ
  features : Option (List String)
  notIncluded : Option (List String)
  status : String
  signupUrl : Option String
  deriving DecidableEq

/-- What `urlsplit` returns. -/
structure SplitResult where
  scheme : String
  netloc : String
  path : String
  query : String
  fragment : String
  deriving DecidableEq

/-- The library, as far as the code calls it; `none` is a `ValueError`. -/
structure Lib where
  /-- `json.loads` -/
  loads : String → JsonEnd
  /-- `json.dumps` -/
  dumps : List PyDict → String
  /-- `str` -/
  str : PyValue → String
  /-- `int` of a text -/
  int : String → Option ℤ
  /-- `str.strip` -/
  strip : String → String
  urlsplit : String → Option SplitResult
  /-- `parse_qsl(.., keep_blank_values=True)` -/
  parseQsl : String → List (String × String)
  /-- `urlencode(.., quote_via=quote)` -/
  urlencode : List (String × String) → Option String
  urlunsplit : SplitResult → String

/-- The exceptions of the pricing page. -/
inductive PlanExn
  | flashUnavailable
  | flashServiceMissing (serviceId : String)
  | flashCredentialError
  | typeError
  | valueError
  | recursionError
  deriving DecidableEq

section
variable (lib : Lib)

/-- `str(v or "")`. -/
def strOr (v : PyValue) : String := if v.truthy then lib.str v else ""

/-- `_text`. -/
def text : PyValue → Option String
  | .str s => if lib.strip s = "" then none else some (lib.strip s)
  | _ => none

/-- `_minor_units`. -/
def minorUnits (v : PyValue) : Option ℤ := lib.int (lib.str v)

/-- `_lines`. -/
def lines : PyValue → Option (List String)
  | .list xs =>
    let lines := xs.filterMap (text lib)
    if lines = [] then none else some lines
  | _ => none

/-- `sort_order if isinstance(sort_order, int) else 0`; a `bool` is an `int`. -/
def sortOrderOf : PyValue → ℤ
  | .int n => n
  | .bool b => if b then 1 else 0
  | _ => 0

/-- `parse_plan`. -/
def parsePlan (raw : PyDict) : FlashPlan where
  id := strOr lib (dictGet raw "id")
  serviceId := strOr lib (dictGet raw "serviceId")
  name := strOr lib (dictGet raw "name")
  description := text lib (dictGet raw "description")
  amountMinor := minorUnits lib (dictGet raw "amount")
  currency := strOr lib (dictGet raw "currency")
  billingInterval := text lib (dictGet raw "billingInterval")
  sortOrder := sortOrderOf (dictGet raw "sortOrder")
  features := lines lib (dictGet raw "features")
  notIncluded := lines lib (dictGet raw "notIncluded")
  status := strOr lib (dictGet raw "status")
  signupUrl := text lib (dictGet raw "signupUrl")

end

/-! ## Flash -/

/-- What a request to Flash ends with, its retries included: no response, or a
    status and what `response.json()` ends with. -/
inductive Answer
  | unreachable
  | response (statusCode : ℕ) (body : JsonEnd)

/-- `_body_of` a read, `none` being an absence; a `RecursionError` is not caught. -/
def bodyOf (statusCode : ℕ) (body : JsonEnd) (absentOn404 : Bool) :
    Except PlanExn (Option PyDict) :=
  if statusCode = 401 ∨ statusCode = 403 then .error .flashCredentialError
  else if statusCode = 404 ∧ absentOn404 then .ok none
  else if statusCode ≥ 400 then .error .flashUnavailable
  else match body with
    | .value (.dict body) => .ok (some body)
    | .recursionError => .error .recursionError
    | _ => .error .flashUnavailable

/-- `_read_body`. -/
def readAnswer (answer : Answer) (absentOn404 : Bool) : Except PlanExn (Option PyDict) :=
  match answer with
  | .unreachable => .error .flashUnavailable
  | .response statusCode body => bodyOf statusCode body absentOn404

/-- `fetch_service_plans_raw`. -/
def fetchServicePlansRaw (serviceId : String) (answer : Answer) : Except PlanExn PyDict :=
  if serviceId = "" then .error .flashUnavailable
  else match readAnswer answer true with
    | .error e => .error e
    | .ok none => .error (.flashServiceMissing serviceId)
    | .ok (some body) => .ok body

/-- Flash refuses the credentials. -/
def Answer.refused : Answer → Bool
  | .unreachable => false
  | .response statusCode _ => statusCode = 401 ∨ statusCode = 403

/-- Flash sends a body that is nested too deeply to be read. -/
def Answer.tooDeep : Answer → Bool
  | .response statusCode .recursionError => statusCode < 400
  | _ => false

/-! ## The cache -/

abbrev Cache := String → Option String

/-- `fresh_key`. -/
def freshKey (serviceId : String) : String := "flash:plans:" ++ serviceId

/-- `last_good_key`. -/
def lastGoodKey (serviceId : String) : String := "flash:plans:" ++ ("lkg:" ++ serviceId)

/-- How the commands of one service's read go: which of its `GET`s and `SET`s
    Redis answers, and what Flash answers. -/
structure Reads where
  getFresh : Bool
  getLocked : Bool
  answer : Answer
  getLastGood : Bool
  setFresh : Bool
  setLastGood : Bool

section
variable (lib : Lib)

/-- `_load`: a cache that cannot be read is a miss, and so is what is not JSON. -/
def load (answered : Bool) (stored : Option String) : Except PlanExn (Option (List FlashPlan)) :=
  if answered then
    match stored.filter (· ≠ "") with
    | none => .ok none
    | some stored =>
      match lib.loads stored with
      | .valueError => .ok none
      | .recursionError => .error .recursionError
      | .value rows =>
        match rows.elements with
        | none => .error .typeError
        | some rows => .ok (some ((rows.filterMap PyValue.dict?).map (parsePlan lib)))
  else .ok none

/-- `_store`. -/
def store (reads : Reads) (serviceId : String) (plans : List PyDict) (cache : Cache) : Cache :=
  let payload := lib.dumps plans
  if reads.setFresh then
    let cache := Function.update cache (freshKey serviceId) (some payload)
    if reads.setLastGood then Function.update cache (lastGoodKey serviceId) (some payload) else cache
  else cache

/-- The plans of a body: `raw if isinstance(raw, list) else []`, the dicts of it. -/
def rawPlans (body : PyDict) : List PyDict :=
  match dictGet body "plans" with
  | .list raw => raw.filterMap PyValue.dict?
  | _ => []

/-- `_refresh`, with the cache it leaves. -/
def refresh (reads : Reads) (serviceId : String) (cache : Cache) :
    Except PlanExn (List FlashPlan) × Cache :=
  match fetchServicePlansRaw serviceId reads.answer with
  | .error .flashUnavailable =>
    match load lib reads.getLastGood (cache (lastGoodKey serviceId)) with
    | .error e => (.error e, cache)
    | .ok none => (.error .flashUnavailable, cache)
    | .ok (some lastGood) => (.ok lastGood, cache)
  | .error e => (.error e, cache)
  | .ok body =>
    (.ok ((rawPlans body).map (parsePlan lib)), store lib reads serviceId (rawPlans body) cache)

/-- `read_service_plans` of the public page: the short-lived copy, that copy once
    more under the lock, then Flash. -/
def readServicePlans (reads : Reads) (serviceId : String) (cache : Cache) :
    Except PlanExn (List FlashPlan) × Cache :=
  match load lib reads.getFresh (cache (freshKey serviceId)) with
  | .error e => (.error e, cache)
  | .ok (some cached) => (.ok cached, cache)
  | .ok none =>
    match load lib reads.getLocked (cache (freshKey serviceId)) with
    | .error e => (.error e, cache)
    | .ok (some cached) => (.ok cached, cache)
    | .ok none => refresh lib reads serviceId cache

/-- Plans as a mapping names them: by service and plan. -/
abbrev FlashPlans := String × String → Option FlashPlan

/-- `for plan in found: plans[(service_id, plan.id)] = plan`. -/
def addPlans (serviceId : String) (found : List FlashPlan) (plans : FlashPlans) : FlashPlans :=
  found.foldl (fun plans plan => Function.update plans (serviceId, plan.id) (some plan)) plans

/-- The loop of `read_plans_for_services`, over the ids left. -/
def readPlansFrom (reads : String → Reads) :
    List String → Cache → FlashPlans → Except PlanExn FlashPlans
  | [], _, plans => .ok plans
  | serviceId :: ids, cache, plans =>
    match readServicePlans lib (reads serviceId) serviceId cache with
    | (.error .flashUnavailable, cache) => readPlansFrom reads ids cache plans
    | (.error (.flashServiceMissing _), cache) => readPlansFrom reads ids cache plans
    | (.error e, _) => .error e
    | (.ok found, cache) => readPlansFrom reads ids cache (addPlans serviceId found plans)

/-- `read_plans_for_services`. -/
def readPlansForServices (reads : String → Reads) (serviceIds : List String) (cache : Cache) :
    Except PlanExn FlashPlans :=
  readPlansFrom lib reads (sortBy (· ≤ ·) serviceIds.dedup) cache fun _ => none

end

/-! ## What a read depends on -/

/-- A load that found nothing. -/
def isMiss : Except PlanExn (Option (List FlashPlan)) → Bool
  | .ok none => true
  | _ => false

/-- A read of Flash that brought a body. -/
def isBody : Except PlanExn PyDict → Bool
  | .ok _ => true
  | _ => false

/-- A read of Flash after which the last known plans are served. -/
def isOutage : Except PlanExn PyDict → Bool
  | .error .flashUnavailable => true
  | _ => false

section
variable (lib : Lib) (reads : Reads) (serviceId : String) (cache : Cache)

/-- The short-lived copy is of no use, so Flash is asked. -/
def asksFlash : Bool :=
  isMiss (load lib reads.getFresh (cache (freshKey serviceId))) &&
    isMiss (load lib reads.getLocked (cache (freshKey serviceId)))

/-- The keys the read of a service looks up. -/
def consults : List String :=
  freshKey serviceId ::
    if asksFlash lib reads serviceId cache ∧ isOutage (fetchServicePlansRaw serviceId reads.answer)
    then [lastGoodKey serviceId] else []

/-- The keys the read of a service writes. -/
def stores : List String :=
  if asksFlash lib reads serviceId cache ∧ isBody (fetchServicePlansRaw serviceId reads.answer) ∧
      reads.setFresh then
    freshKey serviceId :: if reads.setLastGood then [lastGoodKey serviceId] else []
  else []

end

section
variable {lib : Lib} {reads : Reads} {serviceId : String} {cache cache' : Cache}

theorem store_of_not_mem {plans : List PyDict} {k : String}
    (h : reads.setFresh = true →
      k ∉ freshKey serviceId :: if reads.setLastGood then [lastGoodKey serviceId] else []) :
    store lib reads serviceId plans cache k = cache k := by
  unfold store
  dsimp only
  split_ifs with hf hl
  · have hk := h hf
    simp only [hl, if_true, List.mem_cons, List.not_mem_nil, or_false, not_or] at hk
    rw [Function.update_of_ne hk.2, Function.update_of_ne hk.1]
  · have hk := h hf
    simp only [List.mem_cons, not_or] at hk
    rw [Function.update_of_ne hk.1]
  · rfl

/-- A refresh looks at the last known plans only in an outage. -/
theorem refresh_agree
    (h : isOutage (fetchServicePlansRaw serviceId reads.answer) = true →
      cache' (lastGoodKey serviceId) = cache (lastGoodKey serviceId)) :
    (refresh lib reads serviceId cache').1 = (refresh lib reads serviceId cache).1 := by
  unfold refresh
  cases hf : fetchServicePlansRaw serviceId reads.answer with
  | ok body => rfl
  | error e =>
    cases e with
    | flashUnavailable =>
      simp only [h (by rw [hf]; rfl)]
      split <;> rfl
    | _ => rfl

/-- A refresh writes only when Flash sent a body. -/
theorem refresh_frame {k : String}
    (h : isBody (fetchServicePlansRaw serviceId reads.answer) = true → reads.setFresh = true →
      k ∉ freshKey serviceId :: if reads.setLastGood then [lastGoodKey serviceId] else []) :
    (refresh lib reads serviceId cache).2 k = cache k := by
  unfold refresh
  cases hf : fetchServicePlansRaw serviceId reads.answer with
  | ok body => exact store_of_not_mem (h (by rw [hf]; rfl))
  | error e =>
    cases e with
    | flashUnavailable =>
      dsimp only
      split <;> rfl
    | _ => rfl

/-- A read is a load of the short-lived copy, unless Flash is asked. -/
theorem readServicePlans_hit (h : asksFlash lib reads serviceId cache = false) :
    ∃ r, readServicePlans lib reads serviceId cache = (r, cache) ∧
      ∀ cache' : Cache, cache' (freshKey serviceId) = cache (freshKey serviceId) →
        readServicePlans lib reads serviceId cache' = (r, cache') := by
  unfold asksFlash at h
  cases h₁ : load lib reads.getFresh (cache (freshKey serviceId)) with
  | error e =>
    refine ⟨.error e, by simp [readServicePlans, h₁], fun cache' hc => ?_⟩
    simp [readServicePlans, hc, h₁]
  | ok r =>
    cases r with
    | some cached =>
      refine ⟨.ok cached, by simp [readServicePlans, h₁], fun cache' hc => ?_⟩
      simp [readServicePlans, hc, h₁]
    | none =>
      cases h₂ : load lib reads.getLocked (cache (freshKey serviceId)) with
      | error e =>
        refine ⟨.error e, by simp [readServicePlans, h₁, h₂], fun cache' hc => ?_⟩
        simp [readServicePlans, hc, h₁, h₂]
      | ok r =>
        cases r with
        | some cached =>
          refine ⟨.ok cached, by simp [readServicePlans, h₁, h₂], fun cache' hc => ?_⟩
          simp [readServicePlans, hc, h₁, h₂]
        | none => simp [h₁, h₂, isMiss] at h

theorem isMiss_iff {r : Except PlanExn (Option (List FlashPlan))} :
    isMiss r = true ↔ r = .ok none := by
  cases r with
  | error e => simp [isMiss]
  | ok r => cases r <;> simp [isMiss]

theorem readServicePlans_asks (h : asksFlash lib reads serviceId cache = true) :
    readServicePlans lib reads serviceId cache = refresh lib reads serviceId cache := by
  simp only [asksFlash, Bool.and_eq_true, isMiss_iff] at h
  simp [readServicePlans, h.1, h.2]

/-- **What a read depends on.**  A cache that agrees on the keys the read consults
    gives the same plans, and is left alone outside the keys the read stores. -/
theorem readServicePlans_agree
    (h : ∀ k ∈ consults lib reads serviceId cache, cache' k = cache k) :
    (readServicePlans lib reads serviceId cache').1 =
        (readServicePlans lib reads serviceId cache).1 ∧
      ∀ k ∉ stores lib reads serviceId cache,
        (readServicePlans lib reads serviceId cache').2 k = cache' k := by
  have hfresh : cache' (freshKey serviceId) = cache (freshKey serviceId) :=
    h _ List.mem_cons_self
  cases ha : asksFlash lib reads serviceId cache with
  | false =>
    obtain ⟨r, hr, hr'⟩ := readServicePlans_hit ha
    rw [hr, hr' cache' hfresh]
    exact ⟨rfl, fun k _ => rfl⟩
  | true =>
    have ha' : asksFlash lib reads serviceId cache' = true := by
      rw [← ha]
      unfold asksFlash
      rw [hfresh]
    rw [readServicePlans_asks ha, readServicePlans_asks ha']
    refine ⟨refresh_agree fun ho => h _ ?_, fun k hk => refresh_frame fun hb hs => ?_⟩
    · simp [consults, ha, ho]
    · simpa [stores, ha, hb, hs] using hk

end

/-! ## Keys -/

theorem freshKey_inj {s t : String} : freshKey s = freshKey t ↔ s = t :=
  String.append_right_inj _

theorem lastGoodKey_inj {s t : String} : lastGoodKey s = lastGoodKey t ↔ s = t := by
  unfold lastGoodKey
  rw [String.append_right_inj, String.append_right_inj]

theorem freshKey_eq_lastGoodKey {s t : String} : freshKey s = lastGoodKey t ↔ s = "lkg:" ++ t :=
  String.append_right_inj _

theorem freshKey_ne_lastGoodKey (s : String) : freshKey s ≠ lastGoodKey s := by
  intro h
  have hlen := congrArg String.length (freshKey_eq_lastGoodKey.1 h)
  rw [String.length_append] at hlen
  have : "lkg:".length = 4 := rfl
  omega

theorem mem_stores {lib : Lib} {reads : Reads} {s k : String} {cache : Cache}
    (h : k ∈ stores lib reads s cache) : k = freshKey s ∨ k = lastGoodKey s := by
  unfold stores at h
  split_ifs at h
  · simpa using h
  · simp at h
    exact Or.inl h
  · simp at h

theorem mem_consults {lib : Lib} {reads : Reads} {s k : String} {cache : Cache}
    (h : k ∈ consults lib reads s cache) : k = freshKey s ∨ k = lastGoodKey s := by
  unfold consults at h
  split_ifs at h
  · simpa using h
  · simp at h
    exact Or.inl h

/-- Two services meet in a key only if the id of one is `lkg:` and the id of the
    other: the one's short-lived copy is then the other's last known one. -/
theorem collide {lib : Lib} {reads reads' : Reads} {s t k : String} {cache cache' : Cache}
    (hst : s ≠ t) (hs : k ∈ stores lib reads s cache) (ht : k ∈ consults lib reads' t cache') :
    t = "lkg:" ++ s ∨ s = "lkg:" ++ t := by
  rcases mem_stores hs with rfl | rfl
  · rcases mem_consults ht with h | h
    · exact absurd (freshKey_inj.1 h) hst
    · exact Or.inr (freshKey_eq_lastGoodKey.1 h)
  · rcases mem_consults ht with h | h
    · exact Or.inl (freshKey_eq_lastGoodKey.1 h.symm)
    · exact absurd (lastGoodKey_inj.1 h) hst

/-! ## A service's own read -/

/-- The cache with two entries. -/
def entries (serviceId : String) (fresh lastGood : Option String) : Cache := fun k =>
  if k = freshKey serviceId then fresh else if k = lastGoodKey serviceId then lastGood else none

/-- The read of a service, from what is its own: how its commands go, and its two
    cache entries. -/
def ownRead (lib : Lib) (reads : Reads) (serviceId : String) (fresh lastGood : Option String) :
    Except PlanExn (List FlashPlan) :=
  (readServicePlans lib reads serviceId (entries serviceId fresh lastGood)).1

theorem ownRead_eq (lib : Lib) (reads : Reads) (serviceId : String) (cache : Cache) :
    ownRead lib reads serviceId (cache (freshKey serviceId)) (cache (lastGoodKey serviceId)) =
      (readServicePlans lib reads serviceId cache).1 := by
  refine (readServicePlans_agree fun k hk => ?_).1
  rcases mem_consults hk with rfl | rfl
  · simp [entries]
  · simp [entries, (freshKey_ne_lastGoodKey serviceId).symm]

/-! ## The loop -/

/-- The failures the loop steps over. -/
def PlanExn.omitted : PlanExn → Bool
  | .flashUnavailable => true
  | .flashServiceMissing _ => true
  | _ => false

section
variable (lib : Lib) (reads : String → Reads)

/-- In the order of the reads, no service has stored a key that a later one consults. -/
def Undisturbed (cache : Cache) (ids : List String) : Prop :=
  ids.Pairwise fun s t => ∀ k ∈ stores lib (reads s) s cache, k ∉ consults lib (reads t) t cache

variable {lib reads}

section
variable {serviceId : String} {ids : List String} {cache : Cache} {plans : FlashPlans}

/-- A service that was read adds its plans. -/
theorem readPlansFrom_found {found : List FlashPlan}
    (h : (readServicePlans lib (reads serviceId) serviceId cache).1 = .ok found) :
    readPlansFrom lib reads (serviceId :: ids) cache plans =
      readPlansFrom lib reads ids (readServicePlans lib (reads serviceId) serviceId cache).2
        (addPlans serviceId found plans) := by
  rw [readPlansFrom]
  cases hr : readServicePlans lib (reads serviceId) serviceId cache with
  | mk r cache' =>
    rw [hr] at h
    subst h
    rfl

/-- A service that could not be read, or is not there, adds nothing. -/
theorem readPlansFrom_omitted {e : PlanExn} (he : e.omitted = true)
    (h : (readServicePlans lib (reads serviceId) serviceId cache).1 = .error e) :
    readPlansFrom lib reads (serviceId :: ids) cache plans =
      readPlansFrom lib reads ids (readServicePlans lib (reads serviceId) serviceId cache).2 plans := by
  rw [readPlansFrom]
  cases hr : readServicePlans lib (reads serviceId) serviceId cache with
  | mk r cache' =>
    rw [hr] at h
    subst h
    cases e with
    | flashUnavailable => rfl
    | flashServiceMissing => rfl
    | _ => cases he

/-- Any other failure of one service ends the loop. -/
theorem readPlansFrom_raised {e : PlanExn} (he : e.omitted = false)
    (h : (readServicePlans lib (reads serviceId) serviceId cache).1 = .error e) :
    readPlansFrom lib reads (serviceId :: ids) cache plans = .error e := by
  rw [readPlansFrom]
  cases hr : readServicePlans lib (reads serviceId) serviceId cache with
  | mk r cache' =>
    rw [hr] at h
    subst h
    cases e with
    | flashUnavailable => cases he
    | flashServiceMissing => cases he
    | _ => rfl

end

/-- The plans of a service, by their id; a later plan of an id replaces an earlier one. -/
def offered (r : Except PlanExn (List FlashPlan)) (serviceId : String) : FlashPlans :=
  match r with
  | .ok found => addPlans serviceId found fun _ => none
  | .error _ => fun _ => none

theorem addPlans_other {s t : String} (hst : s ≠ t) (planId : String) :
    ∀ (found : List FlashPlan) (plans : FlashPlans),
      addPlans s found plans (t, planId) = plans (t, planId) := by
  intro found
  induction found with
  | nil => exact fun _ => rfl
  | cons plan found ih =>
    intro plans
    show addPlans s found (Function.update plans (s, plan.id) (some plan)) (t, planId) = _
    rw [ih, Function.update_of_ne]
    intro h
    exact hst (Prod.mk.inj h).1.symm

theorem addPlans_congr {s planId : String} :
    ∀ (found : List FlashPlan) {plans plans' : FlashPlans},
      plans (s, planId) = plans' (s, planId) →
        addPlans s found plans (s, planId) = addPlans s found plans' (s, planId) := by
  intro found
  induction found with
  | nil => exact fun h => h
  | cons plan found ih =>
    intro plans plans' h
    show addPlans s found (Function.update plans (s, plan.id) (some plan)) (s, planId) =
      addPlans s found (Function.update plans' (s, plan.id) (some plan)) (s, planId)
    refine ih ?_
    by_cases hid : (s, planId) = (s, plan.id)
    · rw [hid, Function.update_self, Function.update_self]
    · rw [Function.update_of_ne hid, Function.update_of_ne hid, h]

/-- **The loop.**  If no service disturbs a later one, and none fails but in the
    ways that are stepped over, every service has its own plans in the end. -/
theorem readPlansFrom_own {cache₀ : Cache} :
    ∀ {ids : List String} {cache : Cache} {plans : FlashPlans}, ids.Nodup →
      Undisturbed lib reads cache₀ ids →
      (∀ t ∈ ids, ∀ k ∈ consults lib (reads t) t cache₀, cache k = cache₀ k) →
      (∀ t ∈ ids, ∀ e, (readServicePlans lib (reads t) t cache₀).1 = .error e → e.omitted = true) →
      (∀ t ∈ ids, ∀ planId, plans (t, planId) = none) →
      ∃ found, readPlansFrom lib reads ids cache plans = .ok found ∧
        (∀ t ∈ ids, ∀ planId, found (t, planId) =
          offered (readServicePlans lib (reads t) t cache₀).1 t (t, planId)) ∧
        ∀ t ∉ ids, ∀ planId, found (t, planId) = plans (t, planId) := by
  intro ids
  induction ids with
  | nil =>
    intro cache plans _ _ _ _ _
    exact ⟨plans, rfl, fun t ht => absurd ht List.not_mem_nil, fun _ _ _ => rfl⟩
  | cons s ids ih =>
    intro cache plans hnodup hu hagree hread hnone
    rw [List.nodup_cons] at hnodup
    rw [Undisturbed, List.pairwise_cons] at hu
    obtain ⟨hsame, hframe⟩ := readServicePlans_agree (hagree s List.mem_cons_self)
    -- what this service stores, no later one consults
    have hnext : ∀ t ∈ ids, ∀ k ∈ consults lib (reads t) t cache₀,
        (readServicePlans lib (reads s) s cache).2 k = cache₀ k := by
      intro t ht k hk
      rw [hframe k fun hks => hu.1 t ht k hks hk]
      exact hagree t (List.mem_cons_of_mem _ ht) k hk
    have hread' := fun t ht => hread t (List.mem_cons_of_mem s ht)
    have hne : ∀ t ∈ ids, s ≠ t := fun t ht hst => hnodup.1 (hst ▸ ht)
    cases hr : (readServicePlans lib (reads s) s cache₀).1 with
    | ok found =>
      rw [readPlansFrom_found (hsame.trans hr)]
      have hnone' : ∀ t ∈ ids, ∀ planId, addPlans s found plans (t, planId) = none := by
        intro t ht planId
        rw [addPlans_other (hne t ht)]
        exact hnone t (List.mem_cons_of_mem _ ht) planId
      obtain ⟨all, hall, hin, hout⟩ := ih hnodup.2 hu.2 hnext hread' hnone'
      refine ⟨all, hall, fun t ht planId => ?_, fun t ht planId => ?_⟩
      · rcases List.mem_cons.1 ht with rfl | ht
        · rw [hout t hnodup.1, hr]
          exact addPlans_congr found (hnone t List.mem_cons_self planId)
        · exact hin t ht planId
      · rw [List.mem_cons, not_or] at ht
        rw [hout t ht.2, addPlans_other (Ne.symm ht.1)]
    | error e =>
      rw [readPlansFrom_omitted (hread s List.mem_cons_self e hr) (hsame.trans hr)]
      obtain ⟨all, hall, hin, hout⟩ := ih hnodup.2 hu.2 hnext hread' (fun t ht planId =>
        hnone t (List.mem_cons_of_mem _ ht) planId)
      refine ⟨all, hall, fun t ht planId => ?_, fun t ht planId => ?_⟩
      · rcases List.mem_cons.1 ht with rfl | ht
        · rw [hout t hnodup.1, hr]
          exact hnone t List.mem_cons_self planId
        · exact hin t ht planId
      · rw [List.mem_cons, not_or] at ht
        exact hout t ht.2 planId

end

end Pricing

end BrainstormServer
