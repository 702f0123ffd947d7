/-
  Trust tiers (`app/core/tier_thresholds.py`, `_TIER_PREDICATES` and `get_all_section_stats`
  of `app/repos/user_repo.py`).

  The tier of a subject is told twice: by a function of its influence and its reporters, and
  by a table of conditions that the database evaluates, where an influence that is not there
  is null.  The bands apply above the verified line only, wherever that line is.

  * `tierPredicate_holds`: of the conditions, the one of the subject's tier is true;
  * `sum_tierCounts`: so the counts of the tiers sum to the total.
-/
import BrainstormServer.Conc.Cypher
import BrainstormServer.Conc.Tables
import BrainstormServer.Network.Users
import Mathlib.Algebra.Order.Field.Basic
import Mathlib.Data.List.Find
import Mathlib.Tactic.NormNum
import Mathlib.Tactic.Linarith

namespace BrainstormServer

namespace Network

open Conc (Cond)
open BrainstormServer.Graph (Rel)

/-! ## Tiers -/

/-- A tier, by its `count_values` key. -/
inductive Tier
  | high
  | mediumHigh
  | medium
  | mediumLow
  | low
  /-- `FLAGGED_TIER` -/
  | flagged
  deriving DecidableEq

/-- The keys. -/
def Tier.name : Tier → String
  | high => "high"
  | mediumHigh => "medium_high"
  | medium => "medium"
  | mediumLow => "medium_low"
  | low => "low"
  | flagged => "low_and_reported_by_2_or_more_trusted_pubkeys"

theorem Tier.name_inj {a b : Tier} : a.name = b.name ↔ a = b := by
  refine ⟨fun h => ?_, congrArg Tier.name⟩
  cases a <;> cases b <;> simp [Tier.name] at h <;> rfl

section
variable {R : Type} [Field R] [LinearOrder R]

/-- `TIER_HIGH`. -/
def tierHigh : R := 1 / (2 : ℕ)

/-- `TIER_MEDIUM_HIGH`. -/
def tierMediumHigh : R := 1 / (5 : ℕ)

/-- `TIER_MEDIUM`. -/
def tierMedium : R := (7 : ℕ) / (100 : ℕ)

/-- `classify_tier`. -/
def classifyTier (influence : Option R) (trustedReporters : ℕ) (verifiedLine : R) : Tier :=
  let fallthrough := if 2 ≤ trustedReporters then .flagged else .low
  match influence with
  | none => fallthrough
  | some influence =>
    if verifiedLine < influence then
      if tierHigh ≤ influence then .high
      else if tierMediumHigh ≤ influence then .mediumHigh
      else if tierMedium ≤ influence then .medium
      else .mediumLow
    else fallthrough

/-! ## The table -/

/-- What the conditions are about: `__INF__`, `__TR__`, a literal and the parameters. -/
inductive Name
  | influence
  | trustedReporters
  | two
  | verifiedCutoff
  | verifiedLine
  | tierHigh
  | tierMediumHigh
  | tierMedium

/-- `_verified`. -/
def verified (param : Name) : Cond Name := .and (.isNotNull .influence) (.cmp .gt .influence param)

/-- `_VERIFIED_LINE`. -/
def verifiedLine : Cond Name := verified .verifiedLine

/-- `_UNVERIFIED_LINE`. -/
def unverifiedLine : Cond Name := .or (.isNull .influence) (.cmp .le .influence .verifiedLine)

/-- `_TIER_PREDICATES`. -/
def tierPredicates : List (Tier × Cond Name) := [
  (.high, .and verifiedLine (.cmp .ge .influence .tierHigh)),
  (.mediumHigh, .and (.and verifiedLine (.cmp .ge .influence .tierMediumHigh)) (.cmp .lt .influence .tierHigh)),
  (.medium, .and (.and verifiedLine (.cmp .ge .influence .tierMedium)) (.cmp .lt .influence .tierMediumHigh)),
  (.mediumLow, .and verifiedLine (.cmp .lt .influence .tierMedium)),
  (.low, .and unverifiedLine (.cmp .lt .trustedReporters .two)),
  (.flagged, .and unverifiedLine (.cmp .ge .trustedReporters .two))]

/-- A connection: the user at the other end, seen by the observer. -/
structure Conn (R : Type) where
  pubkey : Pubkey
  /-- `other[$influence_key]` -/
  influence : Option R
  /-- `_live_reporters` -/
  trustedReporters : ℕ
  deriving DecidableEq

/-- The parameters of a query. -/
structure Params (R : Type) where
  verifiedCutoff : R
  verifiedLine : R

/-- The values, at a connection; the bounds of the bands are `_tier_band_params`. -/
def env (params : Params R) (other : Conn R) : Name → Option R
  | .influence => other.influence
  | .trustedReporters => some other.trustedReporters
  | .two => some (2 : ℕ)
  | .verifiedCutoff => some params.verifiedCutoff
  | .verifiedLine => some params.verifiedLine
  | .tierHigh => some tierHigh
  | .tierMediumHigh => some tierMediumHigh
  | .tierMedium => some tierMedium

/-- `_tier_case`. -/
def tierCase (params : Params R) (other : Conn R) : Option Tier :=
  (tierPredicates.find? fun arm => arm.2.holds (env params other)).map (·.1)

/-- The tier of a connection. -/
def tierOf (params : Params R) (other : Conn R) : Tier :=
  classifyTier other.influence other.trustedReporters params.verifiedLine

/-! ## Statistics -/

/-- `ConnectionStats`; the tier counts under their tiers. -/
structure ConnectionStats where
  total : ℕ
  verified : ℕ
  tierCounts : List (Tier × ℕ)

/-- A section of the statistics. -/
inductive Kind
  | followedBy
  | following
  | mutedBy
  | muting
  | reportedBy
  | reporting
  deriving DecidableEq

/-- `_STATS_KINDS`, in order. -/
def statsKinds : List Kind := [.followedBy, .following, .mutedBy, .muting, .reportedBy, .reporting]

/-- The relationship of a section, and whether its edges come in. -/
def Kind.rel : Kind → Rel × Bool
  | followedBy => (.follows, true)
  | following => (.follows, false)
  | mutedBy => (.mutes, true)
  | muting => (.mutes, false)
  | reportedBy => (.reports, true)
  | reporting => (.reports, false)

/-- `count(CASE WHEN … THEN 1 END)`. -/
def countWhere (params : Params R) (cond : Cond Name) (others : List (Conn R)) : ℕ :=
  others.countP fun other => cond.holds (env params other)

/-- The counts of one section. -/
def sectionStats (params : Params R) (others : List (Conn R)) : ConnectionStats where
  total := others.length
  verified := countWhere params (verified .verifiedCutoff) others
  tierCounts := tierPredicates.map fun arm => (arm.1, countWhere params arm.2 others)

/-- The user at the other end of an edge, as the observer sees it. -/
def connOf (u : Users R) (influenceKey : String) (reporterCutoff : R) (p : Pubkey) : Conn R where
  pubkey := p
  influence := u.prop p influenceKey
  trustedReporters := u.countAbove (fun x bound => decide (bound < x)) .reports influenceKey reporterCutoff p

/-- `_scoped_match_pattern`: the users at the other ends, once for each edge. -/
def scopedMatch (u : Users R) (kind : Kind) (pubkey : Pubkey) : List Pubkey :=
  if kind.rel.2 then u.sources kind.rel.1 pubkey else u.targets kind.rel.1 pubkey

/-- The connections of a section. -/
def connections (u : Users R) (influenceKey : String) (reporterCutoff : R) (kind : Kind) (pubkey : Pubkey) :
    List (Conn R) :=
  (scopedMatch u kind pubkey).map (connOf u influenceKey reporterCutoff)

/-- The statistics of a user who is not there. -/
def noStats : ConnectionStats := ⟨0, 0, tierPredicates.map fun arm => (arm.1, 0)⟩

/-- `get_all_section_stats`. -/
def getAllSectionStats (u : Users R) (pubkey : Pubkey) (influenceKey : String) (verifiedCutoffByKind : Kind → R)
    (verifiedLine reporterCutoff : R) : List (Kind × ConnectionStats) :=
  statsKinds.map fun kind =>
    (kind, if pubkey ∈ u.pubkeys then
        sectionStats ⟨verifiedCutoffByKind kind, verifiedLine⟩ (connections u influenceKey reporterCutoff kind pubkey)
      else noStats)

/-! ## One function -/

section
variable {params : Params R} {other : Conn R}

/-- Above a bound is who has an influence, and a greater one. -/
theorem verified_holds {param : Name} {bound : R} (h : env params other param = some bound) :
    (verified param).holds (env params other) = other.influence.any (bound < ·) := by
  rw [verified, Cond.holds_and, Cond.holds_isNotNull]
  cases hinf : other.influence with
  | none => simp [env, hinf]
  | some x =>
    have hx : env params other .influence = some x := hinf
    rw [Cond.holds_cmp .gt hx h, hx]
    rfl

/-- **Verified and unverified are exact complements.** -/
theorem unverifiedLine_holds :
    unverifiedLine.holds (env params other) = !other.influence.any (params.verifiedLine < ·) := by
  rw [unverifiedLine, Cond.holds_or, Cond.holds_isNull]
  cases hinf : other.influence with
  | none => simp [env, hinf]
  | some x =>
    have hx : env params other .influence = some x := hinf
    have hline : env params other .verifiedLine = some params.verifiedLine := rfl
    rw [Cond.holds_cmp .le hx hline, hx]
    simp [Conc.Op.rel, ← not_lt]

/-- The live count of reporters, compared with two. -/
theorem reporters_holds (op : Conc.Op) :
    (Cond.cmp op .trustedReporters .two).holds (env params other) = op.rel (other.trustedReporters : R) 2 :=
  Cond.holds_cmp op rfl rfl

theorem classifyTier_unverified {influence : Option R} {trustedReporters : ℕ} {line : R}
    (h : influence.any (line < ·) = false) :
    classifyTier influence trustedReporters line = if 2 ≤ trustedReporters then .flagged else .low := by
  cases influence with
  | none => rfl
  | some x => exact if_neg (by simpa using h)

theorem classifyTier_verified {x line : R} (trustedReporters : ℕ) (h : line < x) :
    classifyTier (some x) trustedReporters line =
      if tierHigh ≤ x then .high else if tierMediumHigh ≤ x then .mediumHigh
      else if tierMedium ≤ x then .medium else .mediumLow :=
  if_pos h

variable [IsStrictOrderedRing R]

theorem tierMedium_lt : (tierMedium : R) < tierMediumHigh := by
  unfold tierMedium tierMediumHigh
  norm_num

theorem tierMediumHigh_lt : (tierMediumHigh : R) < tierHigh := by
  unfold tierMediumHigh tierHigh
  norm_num

/-- **Of the conditions, the one of the subject's tier is true**, and no other is. -/
theorem tierPredicate_holds : ∀ arm ∈ tierPredicates, arm.2.holds (env params other) =
    decide (arm.1 = tierOf params other) := by
  have hline : verifiedLine.holds (env params other) = other.influence.any (params.verifiedLine < ·) :=
    verified_holds rfl
  unfold tierOf
  simp only [tierPredicates, List.forall_mem_cons, Cond.holds_and, hline, unverifiedLine_holds, reporters_holds]
  cases hverified : other.influence.any (params.verifiedLine < ·) with
  | false =>
    -- only the reporters count
    rw [classifyTier_unverified hverified]
    by_cases h : 2 ≤ other.trustedReporters
    · have hlt : ¬ other.trustedReporters < 2 := by omega
      simp [Conc.Op.rel, h, hlt]
    · have hlt : other.trustedReporters < 2 := by omega
      simp [Conc.Op.rel, h, hlt]
  | true =>
    -- the bands, from the top
    obtain ⟨x, hx, hlt⟩ := (Option.any_eq_true _ _).1 hverified
    have hinf : env params other .influence = some x := hx
    have hhigh : env params other .tierHigh = some tierHigh := rfl
    have hmediumHigh : env params other .tierMediumHigh = some tierMediumHigh := rfl
    have hmedium : env params other .tierMedium = some tierMedium := rfl
    rw [hx, classifyTier_verified _ (of_decide_eq_true hlt)]
    simp only [Cond.holds_cmp _ hinf hhigh, Cond.holds_cmp _ hinf hmediumHigh, Cond.holds_cmp _ hinf hmedium,
      Conc.Op.rel, ← not_le]
    have h₁ := tierMedium_lt (R := R)
    have h₂ := tierMediumHigh_lt (R := R)
    by_cases ha : tierHigh ≤ x
    · have hb : tierMediumHigh ≤ x := h₂.le.trans ha
      have hc : tierMedium ≤ x := h₁.le.trans hb
      simp [ha, hb, hc]
    · by_cases hb : tierMediumHigh ≤ x
      · have hc : tierMedium ≤ x := h₁.le.trans hb
        simp [ha, hb, hc]
      · by_cases hc : tierMedium ≤ x
        · simp [ha, hb, hc]
        · simp [ha, hb, hc]

/-- **One condition is true**, and it is the one of the tier. -/
theorem filter_tierPredicates (params : Params R) (other : Conn R) : ∃ cond,
    tierPredicates.filter (fun arm => arm.2.holds (env params other)) = [(tierOf params other, cond)] := by
  rw [List.filter_congr tierPredicate_holds]
  cases tierOf params other <;> exact ⟨_, rfl⟩

/-- The table has every tier, and every tier once. -/
theorem count_tier (tier : Tier) : (tierPredicates.map Prod.fst).count tier = 1 := by
  cases tier <;> rfl

/-- The row's tier is the one it is counted in. -/
theorem tierCase_eq : tierCase params other = some (tierOf params other) := by
  rw [tierCase, List.find?_congr tierPredicate_holds]
  cases tierOf params other <;> rfl

/-- A tier counts the connections that are classified there. -/
theorem countWhere_tier (params : Params R) (others : List (Conn R)) : ∀ arm ∈ tierPredicates,
    countWhere params arm.2 others = (others.map (tierOf params)).count arm.1 := by
  intro arm harm
  rw [countWhere, List.count_eq_countP, List.countP_map]
  refine List.countP_congr fun other _ => ?_
  rw [tierPredicate_holds arm harm, decide_eq_true_eq, Function.comp_apply, beq_iff_eq, eq_comm]

/-- **The counts of the tiers sum to the total.** -/
theorem sum_tierCounts (params : Params R) (others : List (Conn R)) :
    ((sectionStats params others).tierCounts.map (·.2)).sum = (sectionStats params others).total := by
  have hcounts : (sectionStats params others).tierCounts.map (·.2) =
      (tierPredicates.map Prod.fst).map fun tier => (others.map (tierOf params)).count tier := by
    rw [sectionStats, List.map_map, List.map_map]
    exact List.map_congr_left fun arm harm => countWhere_tier params others arm harm
  rw [hcounts, Conc.sum_count fun tier _ => count_tier tier, List.length_map]
  rfl

end

end

end Network

end BrainstormServer
