/-
  Network alerts (`app/services/network_alerts_service.py`, with the queries of
  `app/repos/user_repo.py` and the coercions of `app/utils/neo4j_values.py`).

  An account that an observer can reach alerts if its verified reporters are more than four
  and one for every 500 of its verified followers.  Accounts with fewer than five reporters
  are never looked at, and followers are counted no further than decides the matter, unless
  the number is stored.

  * `lookup_resolved`: what the counting, bucket by bucket, resolves;
  * `alerts_perm`: so the alerts are those that counting in full finds;
  * `capped_counting_exact`: and so is the answer, if no number that is stored is negative.
-/
import BrainstormServer.Conc.Tables
import BrainstormServer.Network.Users
import Mathlib.Data.String.Basic

namespace BrainstormServer

namespace Network

open BrainstormServer.Graph (Rel)

/-! ## Values -/

/-- The values of properties, and the floats that are made of them. -/
structure Numbers (V R : Type) where
  /-- `v > x` in Cypher; false where it is null -/
  gt : V → R → Bool
  /-- `float(value)`; `none` is a `TypeError` or a `ValueError` -/
  float : V → Option R
  isInf : R → Bool
  isNan : R → Bool
  /-- `int(f)` -/
  int : R → ℤ
  /-- `0.0` -/
  zero : R

section
variable {V R : Type} (N : Numbers V R)

/-- `safe_float`. -/
def safeFloat (value : Option V) : Option R :=
  (value.bind N.float).bind fun f => if N.isInf f || N.isNan f then none else some f

/-- `safe_int`. -/
def safeInt (value : Option V) : Option ℤ := (safeFloat N value).map N.int

end

/-! ## Thresholds -/

/-- `BASE_REPORTER_THRESHOLD`. -/
def baseReporterThreshold : ℤ := 4

/-- `FOLLOWERS_PER_EXTRA_REPORT`. -/
def followersPerExtraReport : ℤ := 500

/-- `MIN_ALERT_REPORTERS`. -/
def minAlertReporters : ℤ := baseReporterThreshold + 1

/-- `MAX_ALERT_CANDIDATES`. -/
def maxAlertCandidates : ℕ := 5000

/-- `reporter_threshold_for`. -/
def reporterThresholdFor (verifiedFollowers : ℤ) : ℤ :=
  baseReporterThreshold + verifiedFollowers / followersPerExtraReport

/-- `follower_count_cap_for`. -/
def followerCountCapFor (verifiedReporters : ℤ) : ℤ :=
  followersPerExtraReport * (verifiedReporters - baseReporterThreshold)

/-! ## Queries -/

/-- A row of the candidates query. -/
structure Candidate (V : Type) where
  pubkey : Pubkey
  verifiedReporters : ℕ
  storedFollowers : Option V
  influence : Option V
  hops : Option V
  isDirect : Bool

/-- The database: its users, and the order in which it returns rows. -/
structure Db (V : Type) where
  users : Users V
  order : List (Candidate V) → List (Candidate V)
  order_perm : ∀ rows, (order rows).Perm rows

section
variable {V R : Type} (N : Numbers V R) (db : Db V) (observer : Pubkey) (cutoffs : VerifiedCutoffs R)

/-- The property that holds a field of the observer's. -/
def keyOf (field : String) : String := field ++ "_" ++ observer

/-- The row of a pubkey. -/
def candidateOf (p : Pubkey) : Candidate V where
  pubkey := p
  verifiedReporters := db.users.countAbove N.gt .reports (keyOf observer "influence") cutoffs.reporter p
  storedFollowers := db.users.prop p (keyOf observer "trusted_followers")
  influence := db.users.prop p (keyOf observer "influence")
  hops := db.users.prop p (keyOf observer "hops")
  isDirect := p ∈ db.users.targets .follows observer

/-- `is_direct OR (influence IS NOT NULL AND influence > $cutoff)`. -/
def Candidate.reachable (row : Candidate V) : Bool := row.isDirect || row.influence.any (N.gt · cutoffs.verifiedLine)

/-- The rows that `_ALERT_CANDIDATES_QUERY` matches. -/
def alertCandidates : List (Candidate V) :=
  if observer ∈ db.users.pubkeys then
    (((((db.users.edges .reports).map (·.2)).eraseDups.filter (· ≠ observer)).map
      (candidateOf N db observer cutoffs)).filter fun row => minAlertReporters ≤ row.verifiedReporters).filter
      (Candidate.reachable N cutoffs)
  else []

/-- `get_network_alert_candidates`. -/
def getNetworkAlertCandidates : List (Candidate V) :=
  (db.order (alertCandidates N db observer cutoffs)).take maxAlertCandidates

/-- The verified followers of a pubkey, counted in full. -/
def exactFollowers (p : Pubkey) : ℕ :=
  db.users.countAbove N.gt .follows (keyOf observer "influence") cutoffs.verifiedLine p

/-- `count_above_cutoff_followers_capped`; a negative `LIMIT` is rejected. -/
def countAboveCutoffFollowersCapped (pubkeys : List Pubkey) (cap : ℤ) : Option (List (Pubkey × ℕ)) :=
  if cap < 0 then none
  else some ((pubkeys.filter (· ∈ db.users.pubkeys)).map fun p =>
    (p, min cap.toNat (exactFollowers N db observer cutoffs p)))

/-- `count_verified_muters`. -/
def countVerifiedMuters (pubkeys : List Pubkey) : List (Pubkey × ℕ) :=
  (pubkeys.filter (· ∈ db.users.pubkeys)).map fun p =>
    (p, db.users.countAbove N.gt .mutes (keyOf observer "influence") cutoffs.muter p)

/-! ## Resolving -/

/-- The numbers that are stored, and the buckets of the rows without one, by cap. -/
def bucketStep (state : List (Pubkey × ℤ) × List (ℤ × List Pubkey)) (row : Candidate V) :
    List (Pubkey × ℤ) × List (ℤ × List Pubkey) :=
  match safeInt N row.storedFollowers with
  | some stored => (dictSet state.1 row.pubkey stored, state.2)
  | none =>
    let cap := followerCountCapFor row.verifiedReporters
    (state.1, dictSet state.2 cap (((state.2.lookup cap).getD []) ++ [row.pubkey]))

/-- A bucket is counted, and what stays below the cap is kept. -/
def countBucket (resolved : List (Pubkey × ℤ)) (bucket : ℤ × List Pubkey) : Option (List (Pubkey × ℤ)) :=
  (countAboveCutoffFollowersCapped N db observer cutoffs bucket.2 bucket.1).map fun counts =>
    bucket.2.foldl (fun resolved pubkey =>
      match counts.lookup pubkey with
      | some count => if (count : ℤ) < bucket.1 then dictSet resolved pubkey count else resolved
      | none => resolved) resolved

/-- `_resolve_follower_counts`. -/
def resolveFollowerCounts (candidates : List (Candidate V)) : Option (List (Pubkey × ℤ)) :=
  let state := candidates.foldl (bucketStep N) ([], [])
  state.2.foldlM (countBucket N db observer cutoffs) state.1

/-! ## The answer -/

/-- `NetworkAlertItem`. -/
structure NetworkAlertItem (R : Type) where
  pubkey : Pubkey
  influence : Option R
  hops : Option ℤ
  verifiedFollowerCount : ℤ
  verifiedMuterCount : ℕ
  verifiedReporterCount : ℕ
  reporterThreshold : ℤ
  deriving DecidableEq

/-- `NetworkAlertsData`. -/
structure NetworkAlertsData (R : Type) where
  observerPubkey : Pubkey
  directFollows : List (NetworkAlertItem R)
  extendedNetwork : List (NetworkAlertItem R)
  directFollowsTruncated : Bool
  extendedNetworkTruncated : Bool
  deriving DecidableEq

/-- `_to_item`. -/
def toItem (row : Candidate V) (verifiedFollowers : ℤ) (verifiedMuters : ℕ) : NetworkAlertItem R where
  pubkey := row.pubkey
  influence := safeFloat N row.influence
  hops := safeInt N row.hops
  verifiedFollowerCount := verifiedFollowers
  verifiedMuterCount := verifiedMuters
  verifiedReporterCount := row.verifiedReporters
  reporterThreshold := reporterThresholdFor verifiedFollowers

/-- An alert: a row and its verified followers. -/
abbrev Alert (V : Type) := Candidate V × ℤ

variable [LinearOrder R]

/-- The sections, from the alerts. -/
def sectionsOf (limit : ℕ) (alerts : List (Alert V)) : NetworkAlertsData R :=
  let direct := sortBy (Conc.DescThen (fun a : Alert V => a.1.verifiedReporters) (fun a => a.1.pubkey))
    (alerts.filter fun a => a.1.isDirect)
  let extended := sortBy (Conc.DescThen (fun a : Alert V => (safeFloat N a.1.influence).getD N.zero)
    (fun a => a.1.pubkey)) (alerts.filter fun a => !a.1.isDirect)
  let muters := countVerifiedMuters N db observer cutoffs
    ((direct.take limit ++ extended.take limit).map fun a => a.1.pubkey)
  let item := fun a : Alert V => toItem N a.1 a.2 ((muters.lookup a.1.pubkey).getD 0)
  { observerPubkey := observer
    directFollows := (direct.take limit).map item
    extendedNetwork := (extended.take limit).map item
    directFollowsTruncated := limit < direct.length
    extendedNetworkTruncated := limit < extended.length }

/-- `get_network_alerts_for_observer`. -/
def getNetworkAlertsForObserver (limit : ℕ) : Option (NetworkAlertsData R) :=
  let candidates := getNetworkAlertCandidates N db observer cutoffs
  (resolveFollowerCounts N db observer cutoffs candidates).map fun followerCounts =>
    sectionsOf N db observer cutoffs limit (candidates.filterMap fun row =>
      (followerCounts.lookup row.pubkey).bind fun followers =>
        if reporterThresholdFor followers < row.verifiedReporters then some (row, followers) else none)

/-! ## Counting in full -/

omit [LinearOrder R] in
/-- Every account that the observer can reach, however many report it. -/
def reachableAccounts : List (Candidate V) :=
  if observer ∈ db.users.pubkeys then
    ((db.users.pubkeys.filter (· ≠ observer)).map (candidateOf N db observer cutoffs)).filter
      (Candidate.reachable N cutoffs)
  else []

/-- The verified followers of a row: the number that is stored, or all of them counted. -/
def followersInFull (row : Candidate V) : ℤ :=
  (safeInt N row.storedFollowers).getD (exactFollowers N db observer cutoffs row.pubkey)

/-- A row that alerts, with its followers. -/
def alertInFull (row : Candidate V) : Option (Alert V) :=
  if reporterThresholdFor (followersInFull N db observer cutoffs row) < row.verifiedReporters then
    some (row, followersInFull N db observer cutoffs row)
  else none

/-- The answer, if every account is looked at and counted in full. -/
def networkAlertsInFull (limit : ℕ) : NetworkAlertsData R :=
  sectionsOf N db observer cutoffs limit
    ((reachableAccounts N db observer cutoffs).filterMap (alertInFull N db observer cutoffs))

end

/-! ## Buckets -/

section
variable {V R : Type} {N : Numbers V R} {db : Db V} {observer : Pubkey} {cutoffs : VerifiedCutoffs R}

/-- Whether a number is stored. -/
def Candidate.isStored (N : Numbers V R) (row : Candidate V) : Bool := (safeInt N row.storedFollowers).isSome

/-- The cap of a row. -/
def Candidate.cap (row : Candidate V) : ℤ := followerCountCapFor row.verifiedReporters

/-- The rows without a number that is stored, by their caps. -/
def bucketsOf (N : Numbers V R) (rows : List (Candidate V)) (state : List (ℤ × List Pubkey)) :
    List (ℤ × List Pubkey) :=
  Conc.tabulate Candidate.cap [] (fun pubkeys row => pubkeys ++ [row.pubkey]) state
    (rows.filter fun row => !row.isStored N)

/-- **The buckets**: the numbers that are stored, and the other rows by their caps. -/
theorem bucket_eq : ∀ {rows : List (Candidate V)} {state : List (Pubkey × ℤ) × List (ℤ × List Pubkey)},
    rows.foldl (bucketStep N) state =
      ((rows.filter (Candidate.isStored N)).foldl (fun d row =>
          dictSet d row.pubkey ((safeInt N row.storedFollowers).getD 0)) state.1, bucketsOf N rows state.2) := by
  intro rows
  induction rows with
  | nil => exact fun {_} => rfl
  | cons row rows ih =>
    intro state
    rw [List.foldl_cons, ih]
    cases hstored : safeInt N row.storedFollowers with
    | some stored =>
      have hrow : row.isStored N = true := by rw [Candidate.isStored, hstored]; rfl
      rw [List.filter_cons_of_pos hrow, bucketsOf, bucketsOf, List.filter_cons_of_neg (by simp [hrow]), List.foldl_cons,
        bucketStep, hstored]
      rfl
    | none =>
      have hrow : row.isStored N = false := by rw [Candidate.isStored, hstored]; rfl
      rw [List.filter_cons_of_neg (by simp [hrow]), bucketsOf, bucketsOf, List.filter_cons_of_pos (by simp [hrow]),
        bucketStep, hstored]
      rfl

/-- A bucket is counted to the end where it stays below the cap. -/
theorem countBucket_eq {resolved : List (Pubkey × ℤ)} {bucket : ℤ × List Pubkey} (hcap : 0 ≤ bucket.1)
    (hnodes : ∀ p ∈ bucket.2, p ∈ db.users.pubkeys) :
    countBucket N db observer cutoffs resolved bucket =
      some ((bucket.2.filter fun p => (exactFollowers N db observer cutoffs p : ℤ) < bucket.1).foldl
        (fun d p => dictSet d p (exactFollowers N db observer cutoffs p : ℤ)) resolved) := by
  obtain ⟨cap, pubkeys⟩ := bucket
  dsimp only at hcap hnodes ⊢
  have hfilter : pubkeys.filter (· ∈ db.users.pubkeys) = pubkeys :=
    List.filter_eq_self.2 fun p hp => decide_eq_true (hnodes p hp)
  rw [countBucket, countAboveCutoffFollowersCapped, if_neg (not_lt.2 hcap), Option.map_some, Option.some.injEq,
    hfilter, List.foldl_filter]
  refine List.foldl_ext _ _ _ fun d p hp => ?_
  rw [Conc.lookup_map_self (f := fun p => min cap.toNat (exactFollowers N db observer cutoffs p)) hp]
  dsimp only
  by_cases hlt : (exactFollowers N db observer cutoffs p : ℤ) < cap
  · have hmin : min cap.toNat (exactFollowers N db observer cutoffs p) = exactFollowers N db observer cutoffs p := by
      omega
    rw [hmin, if_pos hlt, if_pos (decide_eq_true hlt)]
  · have hmin : ¬ ((min cap.toNat (exactFollowers N db observer cutoffs p) : ℕ) : ℤ) < cap := by omega
    rw [if_neg hmin, if_neg (by simpa using hlt)]

/-- The buckets, one after the other. -/
theorem foldlM_countBucket : ∀ {buckets : List (ℤ × List Pubkey)} {resolved : List (Pubkey × ℤ)},
    (∀ bucket ∈ buckets, 0 ≤ bucket.1 ∧ ∀ p ∈ bucket.2, p ∈ db.users.pubkeys) →
      buckets.foldlM (countBucket N db observer cutoffs) resolved =
        some ((buckets.flatMap fun bucket => bucket.2.filter fun p =>
          (exactFollowers N db observer cutoffs p : ℤ) < bucket.1).foldl
            (fun d p => dictSet d p (exactFollowers N db observer cutoffs p : ℤ)) resolved) := by
  intro buckets
  induction buckets with
  | nil => exact fun _ => rfl
  | cons bucket buckets ih =>
    intro resolved h
    obtain ⟨hcap, hnodes⟩ := h bucket List.mem_cons_self
    rw [List.foldlM_cons, countBucket_eq hcap hnodes, Option.bind_eq_bind, Option.bind_some,
      ih fun b hb => h b (List.mem_cons_of_mem bucket hb), List.flatMap_cons, List.foldl_append]

/-- What is in a bucket: the rows of its cap without a number that is stored. -/
theorem mem_bucket {rows : List (Candidate V)} {bucket : ℤ × List Pubkey}
    (h : bucket ∈ bucketsOf N rows []) :
    bucket.1 ∈ rows.map Candidate.cap ∧
    ∀ p, p ∈ bucket.2 ↔ ∃ row ∈ rows, row.cap = bucket.1 ∧ row.isStored N = false ∧ row.pubkey = p := by
  have hlookup := Conc.lookup_group Candidate.cap (fun row : Candidate V => row.pubkey) bucket.1
    (rows.filter fun row => !row.isStored N)
  have hnodup : ([] : List (ℤ × List Pubkey)).map Prod.fst = [] := rfl
  rw [Conc.lookup_of_mem (Conc.nodup_keys_tabulate (hnodup ▸ List.nodup_nil)) h, Option.getD_some] at hlookup
  constructor
  · have hkey := Conc.mem_keys_tabulate.1 (List.mem_map_of_mem h)
    obtain ⟨row, hrow, hcap⟩ := List.mem_map.1 (hkey.resolve_left (by simp))
    exact List.mem_map.2 ⟨row, List.mem_of_mem_filter hrow, hcap⟩
  · intro p
    rw [hlookup]
    simp [and_assoc]

variable (N observer cutoffs) in
/-- **What is resolved**: the number that is stored, or the followers where they decide. -/
theorem exists_resolved {rows : List (Candidate V)} (hnodup : (rows.map (·.pubkey)).Nodup)
    (hnodes : ∀ row ∈ rows, row.pubkey ∈ db.users.pubkeys)
    (hmin : ∀ row ∈ rows, minAlertReporters ≤ row.verifiedReporters) :
    ∃ resolved, resolveFollowerCounts N db observer cutoffs rows = some resolved ∧
      ∀ row ∈ rows, resolved.lookup row.pubkey =
        if (row.isStored N || (exactFollowers N db observer cutoffs row.pubkey : ℤ) < row.cap) = true then
          some (followersInFull N db observer cutoffs row) else none := by
  have hinj : ∀ row ∈ rows, ∀ row' ∈ rows, row.pubkey = row'.pubkey → row = row' := fun _ hrow _ hrow' h =>
    List.inj_on_of_nodup_map hnodup hrow hrow' h
  have hbuckets : ∀ bucket ∈ bucketsOf N rows [], 0 ≤ bucket.1 ∧ ∀ p ∈ bucket.2, p ∈ db.users.pubkeys := by
    intro bucket hbucket
    obtain ⟨hcap, hmem⟩ := mem_bucket hbucket
    constructor
    · obtain ⟨row, hrow, hcap⟩ := List.mem_map.1 hcap
      have hreporters := hmin row hrow
      rw [← hcap, Candidate.cap]
      unfold followerCountCapFor followersPerExtraReport baseReporterThreshold
      unfold minAlertReporters baseReporterThreshold at hreporters
      omega
    · intro p hp
      obtain ⟨row, hrow, -, -, rfl⟩ := (hmem p).1 hp
      exact hnodes row hrow
  rw [resolveFollowerCounts, bucket_eq]
  dsimp only
  rw [foldlM_countBucket hbuckets]
  refine ⟨_, rfl, fun row hrow => ?_⟩
  -- the row is counted to the end just if nothing is stored and the count stays below the cap
  have hcounted : row.pubkey ∈ (bucketsOf N rows []).flatMap (fun bucket => bucket.2.filter fun p =>
        (exactFollowers N db observer cutoffs p : ℤ) < bucket.1) ↔
      row.isStored N = false ∧ (exactFollowers N db observer cutoffs row.pubkey : ℤ) < row.cap := by
    rw [List.mem_flatMap]
    constructor
    · rintro ⟨bucket, hbucket, hp⟩
      obtain ⟨hp, hlt⟩ := List.mem_filter.1 hp
      obtain ⟨row', hrow', hcap, hmissing, hsame⟩ := ((mem_bucket hbucket).2 _).1 hp
      rw [hinj row' hrow' row hrow hsame] at hcap hmissing
      exact ⟨hmissing, hcap ▸ of_decide_eq_true hlt⟩
    · rintro ⟨hmissing, hlt⟩
      have hkey : row.cap ∈ (bucketsOf N rows []).map Prod.fst :=
        Conc.mem_keys_tabulate.2 (Or.inr (List.mem_map_of_mem (List.mem_filter.2 ⟨hrow, by simp [hmissing]⟩)))
      obtain ⟨bucket, hbucket, hcap⟩ := List.mem_map.1 hkey
      have hin := ((mem_bucket hbucket).2 _).2 ⟨row, hrow, hcap.symm, hmissing, rfl⟩
      refine ⟨bucket, hbucket, List.mem_filter.2 ⟨hin, ?_⟩⟩
      rw [hcap]
      exact decide_eq_true hlt
  by_cases hlate : row.isStored N = false ∧ (exactFollowers N db observer cutoffs row.pubkey : ℤ) < row.cap
  · have hfull : followersInFull N db observer cutoffs row = exactFollowers N db observer cutoffs row.pubkey := by
      have hnone : safeInt N row.storedFollowers = none := by simpa [Candidate.isStored] using hlate.1
      rw [followersInFull, hnone, Option.getD_none]
    rw [if_pos (by simp [hlate.2]), hfull]
    exact Conc.lookup_foldl_of_mem (fun p => p) (fun p => (exactFollowers N db observer cutoffs p : ℤ))
      (fun x _ y _ h => by rw [h]) row.pubkey (hcounted.2 hlate)
  · rw [Conc.lookup_foldl_of_not_mem (fun p => p) _ (by rw [List.map_id']; exact fun h => hlate (hcounted.1 h))]
    cases hstored : row.isStored N with
    | true =>
      obtain ⟨stored, hnumber⟩ := Option.isSome_iff_exists.1 hstored
      have hfull : followersInFull N db observer cutoffs row = (safeInt N row.storedFollowers).getD 0 := by
        rw [followersInFull, hnumber, Option.getD_some, Option.getD_some]
      rw [Bool.true_or, if_pos rfl, hfull]
      exact Conc.lookup_foldl_of_mem _ _ (fun x hx y hy h => by
        rw [hinj x (List.mem_of_mem_filter hx) y (List.mem_of_mem_filter hy) h]) row
        (List.mem_filter.2 ⟨hrow, hstored⟩)
    | false =>
      have hnot : ¬ (exactFollowers N db observer cutoffs row.pubkey : ℤ) < row.cap := fun h => hlate ⟨hstored, h⟩
      rw [Bool.false_or, if_neg (by simpa using hnot), Conc.lookup_foldl_of_not_mem]
      · rfl
      · intro hmem
        obtain ⟨row', hrow', hsame⟩ := List.mem_map.1 hmem
        obtain ⟨hrow', hstored'⟩ := List.mem_filter.1 hrow'
        rw [hinj row' hrow' row hrow hsame, hstored] at hstored'
        cases hstored'

/-! ## The alerts -/

/-- **A cap decides nothing**: a row whose followers reach it does not alert. -/
theorem lt_cap_of_alerts {followers : ℤ} {reporters : ℕ} (h : reporterThresholdFor followers < reporters) :
    followers < followerCountCapFor reporters := by
  unfold reporterThresholdFor followersPerExtraReport baseReporterThreshold at h
  unfold followerCountCapFor followersPerExtraReport baseReporterThreshold
  omega

/-- A row that alerts has the reporters that are asked for in advance, unless the number of
    its followers is negative. -/
theorem min_of_alerts {followers : ℤ} {reporters : ℕ} (hnonneg : 0 ≤ followers)
    (h : reporterThresholdFor followers < reporters) : minAlertReporters ≤ reporters := by
  unfold reporterThresholdFor followersPerExtraReport baseReporterThreshold at h
  unfold minAlertReporters baseReporterThreshold
  omega

/-- Every number that is stored is a count. -/
def CountsStored (N : Numbers V R) (db : Db V) (observer : Pubkey) : Prop :=
  ∀ p n, safeInt N (db.users.prop p (keyOf observer "trusted_followers")) = some n → 0 ≤ n

theorem followersInFull_nonneg (cutoffs : VerifiedCutoffs R) (h : CountsStored N db observer) (p : Pubkey) :
    0 ≤ followersInFull N db observer cutoffs (candidateOf N db observer cutoffs p) := by
  rw [followersInFull]
  cases hstored : safeInt N (candidateOf N db observer cutoffs p).storedFollowers with
  | none => exact Int.natCast_nonneg _
  | some n => exact h p n hstored

theorem nodup_pubkeys_map {l : List Pubkey} (h : l.Nodup) :
    ((l.map (candidateOf N db observer cutoffs)).map (·.pubkey)).Nodup := by
  rw [List.map_map]
  exact (List.map_id l).symm ▸ h

/-- A pubkey is in the rows once. -/
theorem nodup_alertCandidates : ((alertCandidates N db observer cutoffs).map (·.pubkey)).Nodup := by
  rw [alertCandidates]
  split_ifs
  · refine List.Nodup.sublist ((List.filter_sublist.trans List.filter_sublist).map _) (nodup_pubkeys_map ?_)
    rw [← Conc.firsts_eq_eraseDups]
    exact (Conc.nodup_firsts _).filter _
  · exact List.nodup_nil

theorem nodup_reachableAccounts : ((reachableAccounts N db observer cutoffs).map (·.pubkey)).Nodup := by
  rw [reachableAccounts]
  split_ifs
  · exact List.Nodup.sublist (List.filter_sublist.map _) (nodup_pubkeys_map (db.users.unique.filter _))
  · exact List.nodup_nil

/-- **The candidates** are the accounts with the reporters that are asked for. -/
theorem mem_alertCandidates {row : Candidate V} : row ∈ alertCandidates N db observer cutoffs ↔
    row ∈ reachableAccounts N db observer cutoffs ∧ minAlertReporters ≤ row.verifiedReporters := by
  rw [alertCandidates, reachableAccounts]
  split_ifs with hobserver
  · simp only [List.mem_filter, List.mem_map, List.mem_eraseDups, decide_eq_true_eq]
    constructor
    · rintro ⟨⟨⟨p, ⟨⟨e, he, rfl⟩, hne⟩, rfl⟩, hmin⟩, hreach⟩
      exact ⟨⟨⟨e.2, ⟨(db.users.ends _ e he).2, hne⟩, rfl⟩, hreach⟩, hmin⟩
    · rintro ⟨⟨⟨p, ⟨-, hne⟩, rfl⟩, hreach⟩, hmin⟩
      refine ⟨⟨⟨p, ⟨?_, hne⟩, rfl⟩, hmin⟩, hreach⟩
      -- somebody reports it
      have hpos : 0 < db.users.countAbove N.gt .reports (keyOf observer "influence") cutoffs.reporter p := by
        have hmin : minAlertReporters ≤ ((candidateOf N db observer cutoffs p).verifiedReporters : ℤ) := hmin
        unfold minAlertReporters baseReporterThreshold candidateOf at hmin
        dsimp only at hmin
        omega
      obtain ⟨q, hq⟩ := exists_source_of_countAbove hpos
      exact ⟨(q, p), hq, rfl⟩
  · simp

theorem exists_candidateOf {row : Candidate V} (h : row ∈ reachableAccounts N db observer cutoffs) :
    row.pubkey ∈ db.users.pubkeys ∧ candidateOf N db observer cutoffs row.pubkey = row := by
  rw [reachableAccounts] at h
  split_ifs at h
  · obtain ⟨p, hp, rfl⟩ := List.mem_map.1 (List.mem_of_mem_filter h)
    exact ⟨List.mem_of_mem_filter hp, rfl⟩
  · cases h

/-- **The alerts are those that counting in full finds.** -/
theorem alerts_perm (h : CountsStored N db observer) :
    ((alertCandidates N db observer cutoffs).filterMap (alertInFull N db observer cutoffs)).Perm
      ((reachableAccounts N db observer cutoffs).filterMap (alertInFull N db observer cutoffs)) := by
  have hskip : (reachableAccounts N db observer cutoffs).filterMap (alertInFull N db observer cutoffs) =
      ((reachableAccounts N db observer cutoffs).filter fun row => minAlertReporters ≤ row.verifiedReporters).filterMap
        (alertInFull N db observer cutoffs) := by
    rw [List.filterMap_filter]
    refine List.filterMap_congr fun row hrow => ?_
    split_ifs with hmin
    · rfl
    · rw [alertInFull, if_neg]
      have hnonneg := followersInFull_nonneg cutoffs h row.pubkey
      rw [(exists_candidateOf hrow).2] at hnonneg
      exact fun halert => hmin (decide_eq_true (min_of_alerts hnonneg halert))
  rw [hskip]
  refine List.Perm.filterMap _ ((List.perm_ext_iff_of_nodup nodup_alertCandidates.of_map
    (nodup_reachableAccounts.of_map.filter _)).2 fun row => ?_)
  rw [mem_alertCandidates, List.mem_filter, decide_eq_true_eq]

theorem alertInFull_eq_some {row : Candidate V} {a : Alert V} (h : alertInFull N db observer cutoffs row = some a) :
    a = (row, followersInFull N db observer cutoffs row) := by
  rw [alertInFull] at h
  split_ifs at h
  exact (Option.some.inj h).symm

theorem nodup_alerts {rows : List (Candidate V)} (h : (rows.map (·.pubkey)).Nodup) :
    ((rows.filterMap (alertInFull N db observer cutoffs)).map fun a => a.1.pubkey).Nodup := by
  rw [List.nodup_iff_pairwise_ne, List.pairwise_map] at h ⊢
  rw [List.pairwise_filterMap]
  refine h.imp fun hne a ha b hb => ?_
  rw [alertInFull_eq_some ha, alertInFull_eq_some hb]
  exact hne

/-- Of the rows that are looked at, those alert that do so when they are counted in full. -/
theorem filterMap_resolved {rows : List (Candidate V)} {resolved : List (Pubkey × ℤ)}
    (h : ∀ row ∈ rows, resolved.lookup row.pubkey =
      if (row.isStored N || (exactFollowers N db observer cutoffs row.pubkey : ℤ) < row.cap) = true then
        some (followersInFull N db observer cutoffs row) else none) :
    (rows.filterMap fun row => (resolved.lookup row.pubkey).bind fun followers =>
      if reporterThresholdFor followers < row.verifiedReporters then some (row, followers) else none) =
      rows.filterMap (alertInFull N db observer cutoffs) := by
  refine List.filterMap_congr fun row hrow => ?_
  rw [h row hrow]
  split_ifs with hknown
  · rfl
  · rw [Bool.not_eq_true, Bool.or_eq_false_iff] at hknown
    have hfull : followersInFull N db observer cutoffs row = exactFollowers N db observer cutoffs row.pubkey := by
      have hnone : safeInt N row.storedFollowers = none := by simpa [Candidate.isStored] using hknown.1
      rw [followersInFull, hnone, Option.getD_none]
    rw [Option.bind_none, alertInFull, if_neg]
    rw [hfull]
    exact fun halert => of_decide_eq_false hknown.2 (lt_cap_of_alerts halert)

variable [LinearOrder R]

/-- The answer does not depend on the order in which the alerts come. -/
theorem sectionsOf_perm {limit : ℕ} {alerts alerts' : List (Alert V)}
    (hnodup : (alerts.map fun a => a.1.pubkey).Nodup) (hperm : alerts'.Perm alerts) :
    sectionsOf N db observer cutoffs limit alerts' = sectionsOf N db observer cutoffs limit alerts := by
  have hpart : ∀ p : Alert V → Bool, ((alerts.filter p).map fun a => a.1.pubkey).Nodup :=
    fun p => hnodup.sublist (List.filter_sublist.map _)
  rw [sectionsOf, sectionsOf, Conc.sortBy_descThen (hpart _) (hperm.filter _),
    Conc.sortBy_descThen (hpart _) (hperm.filter _)]

/-- What an item of the answer says of the followers of its account. -/
theorem item_followers {limit : ℕ} {item : NetworkAlertItem R}
    (h : item ∈ (networkAlertsInFull N db observer cutoffs limit).directFollows ++
      (networkAlertsInFull N db observer cutoffs limit).extendedNetwork) :
    item.verifiedFollowerCount = (safeInt N (db.users.prop item.pubkey (keyOf observer "trusted_followers"))).getD
      (exactFollowers N db observer cutoffs item.pubkey) := by
  have halert : ∃ a ∈ (reachableAccounts N db observer cutoffs).filterMap (alertInFull N db observer cutoffs),
      item.pubkey = a.1.pubkey ∧ item.verifiedFollowerCount = a.2 := by
    rcases List.mem_append.1 h with h | h
    all_goals
      obtain ⟨a, ha, rfl⟩ := List.mem_map.1 h
      exact ⟨a, List.mem_of_mem_filter (Conc.mem_sortBy.1 (List.mem_of_mem_take ha)), rfl, rfl⟩
  obtain ⟨a, ha, hpubkey, hcount⟩ := halert
  obtain ⟨row, hrow, ha⟩ := List.mem_filterMap.1 ha
  rw [hpubkey, hcount, alertInFull_eq_some ha, ← (exists_candidateOf hrow).2]
  rfl

/-- **Capped counting changes nothing**, if no number that is stored is negative: the answer is
    the one that looks at every account and counts all followers, and what it says of an
    account's followers is the number that is stored or the exact one. -/
theorem capped_counting_exact (N : Numbers V R) (db : Db V) (observer : Pubkey) (cutoffs : VerifiedCutoffs R)
    (limit : ℕ) (hfew : (alertCandidates N db observer cutoffs).length < maxAlertCandidates)
    (hstored : CountsStored N db observer) :
    getNetworkAlertsForObserver N db observer cutoffs limit =
      some (networkAlertsInFull N db observer cutoffs limit) ∧
    ∀ item ∈ (networkAlertsInFull N db observer cutoffs limit).directFollows ++
        (networkAlertsInFull N db observer cutoffs limit).extendedNetwork,
      item.verifiedFollowerCount = (safeInt N (db.users.prop item.pubkey (keyOf observer "trusted_followers"))).getD
        (exactFollowers N db observer cutoffs item.pubkey) := by
  refine ⟨?_, fun item hitem => item_followers hitem⟩
  have horder := db.order_perm (alertCandidates N db observer cutoffs)
  have hall : getNetworkAlertCandidates N db observer cutoffs = db.order (alertCandidates N db observer cutoffs) :=
    List.take_of_length_le (horder.length_eq ▸ hfew.le)
  have hnodup : ((db.order (alertCandidates N db observer cutoffs)).map (·.pubkey)).Nodup :=
    (horder.map _).nodup_iff.2 nodup_alertCandidates
  obtain ⟨resolved, hresolved, hlookup⟩ := exists_resolved N observer cutoffs hnodup
    (fun row hrow => (exists_candidateOf (mem_alertCandidates.1 (horder.mem_iff.1 hrow)).1).1)
    (fun row hrow => (mem_alertCandidates.1 (horder.mem_iff.1 hrow)).2)
  rw [getNetworkAlertsForObserver, hall, hresolved, Option.map_some, filterMap_resolved hlookup, networkAlertsInFull]
  exact congrArg some (sectionsOf_perm (nodup_alerts nodup_reachableAccounts)
    ((horder.filterMap _).trans (alerts_perm hstored)))

end

/-- Whole numbers as values. -/
def wholeNumbers : Numbers ℤ ℤ where
  gt v x := x < v
  float := some
  isInf _ := false
  isNan _ := false
  int := id
  zero := 0

/-- `o` follows `b`, whom five report; `last` is the influence of the last of them. -/
def sampleUsers (stored last : ℤ) : Users ℤ where
  nodes := [⟨"o", fun _ => none⟩, ⟨"b", fun key => if key = "trusted_followers_o" then some stored else none⟩,
    ⟨"r1", fun _ => some 1⟩, ⟨"r2", fun _ => some 1⟩, ⟨"r3", fun _ => some 1⟩, ⟨"r4", fun _ => some 1⟩,
    ⟨"r5", fun _ => some last⟩]
  edges r := match r with
    | .follows => [("o", "b")]
    | .mutes => []
    | .reports => [("r1", "b"), ("r2", "b"), ("r3", "b"), ("r4", "b"), ("r5", "b")]
  unique := by
    have hnodup : ["o", "b", "r1", "r2", "r3", "r4", "r5"].Nodup := by decide
    exact hnodup
  ends r e he := by
    cases r
    all_goals
      revert e
      simp

/-- Rows in the order in which they are found. -/
def sampleDb (stored last : ℤ) : Db ℤ := ⟨sampleUsers stored last, id, fun rows => List.Perm.refl rows⟩

/-- With a number below zero stored, four reporters would do, and are not looked at. -/
theorem negative_count_lost :
    (alertCandidates wholeNumbers (sampleDb (-1) 0) "o" ⟨0, 0, 0⟩).length < maxAlertCandidates ∧
    getNetworkAlertsForObserver wholeNumbers (sampleDb (-1) 0) "o" ⟨0, 0, 0⟩ 10 ≠
      some (networkAlertsInFull wholeNumbers (sampleDb (-1) 0) "o" ⟨0, 0, 0⟩ 10) := by
  decide

/-- `o` also follows `c`, whom the same five report and two follow; no number is stored for `c`. -/
def countedUsers : Users ℤ where
  nodes := ⟨"c", fun _ => none⟩ :: (sampleUsers 7 1).nodes
  edges r := match r with
    | .follows => [("o", "b"), ("o", "c"), ("r1", "c"), ("r2", "c")]
    | .mutes => []
    | .reports => ["r1", "r2", "r3", "r4", "r5"].flatMap fun reporter => [(reporter, "b"), (reporter, "c")]
  unique := by
    have hnodup : ["c", "o", "b", "r1", "r2", "r3", "r4", "r5"].Nodup := by decide
    exact hnodup
  ends r e he := by
    cases r
    all_goals
      revert e
      simp [sampleUsers]

def countedDb : Db ℤ := ⟨countedUsers, id, fun rows => List.Perm.refl rows⟩

/-- With five reporters, and a number that is stored or has to be counted, the answer is the
    full one. -/
theorem fiveReporters_exact :
    getNetworkAlertsForObserver wholeNumbers countedDb "o" ⟨0, 0, 0⟩ 10 =
      some (networkAlertsInFull wholeNumbers countedDb "o" ⟨0, 0, 0⟩ 10) ∧
    ((networkAlertsInFull wholeNumbers countedDb "o" ⟨0, 0, 0⟩ 10).directFollows.map fun item =>
      (item.pubkey, item.verifiedFollowerCount)) = [("b", 7), ("c", 2)] := by
  have hcounts : ∀ node ∈ countedUsers.nodes, ∀ n ∈ node.props "trusted_followers_o", 0 ≤ n := by
    simp [countedUsers, sampleUsers]
  refine ⟨(capped_counting_exact wholeNumbers countedDb "o" ⟨0, 0, 0⟩ 10 (by decide) ?_).1, by decide⟩
  intro p n hn
  obtain ⟨f, hf, rfl⟩ := Option.map_eq_some_iff.1 hn
  obtain ⟨x, hx, hf⟩ := Option.bind_eq_some_iff.1 hf
  obtain ⟨v, hprop, hx⟩ := Option.bind_eq_some_iff.1 hx
  obtain ⟨node, hnode, hprop⟩ := Option.bind_eq_some_iff.1 hprop
  cases hf
  cases hx
  exact hcounts node (List.mem_of_find?_eq_some hnode) _ hprop

end Network

end BrainstormServer
