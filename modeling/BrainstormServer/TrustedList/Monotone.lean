/-
  Trusted Lists over exact reals (`app/services/trusted_list_build.py`).

  An account is on the list by the applications and the disputes it has and by its score,
  the average verdict times a certainty that grows with the trust behind it.

  * `certainty_share`: certainty grows more slowly than the trust;
  * `confidence_applied`, `confidence_disputed`: what one more verdict does to a score;
  * `tallyOf_insert`: what it does to the tally of its target, wherever it stands;
  * `members_monotone`: so membership is monotone.
-/
import BrainstormServer.Conc.Tables
import BrainstormServer.TrustedList.Build
import Mathlib.Analysis.Convex.SpecificFunctions.Basic

namespace BrainstormServer

namespace TrustedList

open Nostr

/-! ## Trust and certainty -/

section
variable {rigor x y sum weight : ℝ}

/-- **Certainty grows more slowly than the trust behind it.** -/
theorem certainty_share (h0 : 0 ≤ rigor) (hx : 0 < x) (hxy : x ≤ y) :
    (1 - rigor ^ y) / y ≤ (1 - rigor ^ x) / x := by
  have hy : 0 < y := hx.trans_le hxy
  have hpow : rigor ^ x = (rigor ^ y) ^ (x / y) := by
    rw [← Real.rpow_mul h0, mul_div_cancel₀ x hy.ne']
  -- Bernoulli's inequality, for an exponent below one
  have hle : (1 + (rigor ^ y - 1)) ^ (x / y) ≤ 1 + x / y * (rigor ^ y - 1) := by
    refine rpow_one_add_le_one_add_mul_self ?_ (div_nonneg hx.le hy.le) ((div_le_one hy).2 hxy)
    have hnonneg := Real.rpow_nonneg h0 y
    linarith
  rw [add_sub_cancel, ← hpow] at hle
  rw [div_le_div_iff₀ hy hx]
  have hmul := mul_le_mul_of_nonneg_right hle hy.le
  have hcancel : x / y * (rigor ^ y - 1) * y = x * (rigor ^ y - 1) := by
    field_simp
  nlinarith [hmul, hcancel]

theorem certainty_nonneg (h0 : 0 ≤ rigor) (h1 : rigor ≤ 1) (hx : 0 ≤ x) : 0 ≤ 1 - rigor ^ x :=
  sub_nonneg.2 (Real.rpow_le_one h0 h1 hx)

theorem certainty_mono (h0 : 0 ≤ rigor) (h1 : rigor ≤ 1) (hx : 0 ≤ x) (hxy : x ≤ y) :
    1 - rigor ^ x ≤ 1 - rigor ^ y :=
  sub_le_sub_left (Real.rpow_le_rpow_of_exponent_ge' h0 h1 hx hxy) 1

/-- What a score is rounded from. -/
noncomputable def confidence (rigor sum input : ℝ) : ℝ := max (sum / input * (1 - rigor ^ input)) 0

theorem confidence_nonpos (h0 : 0 ≤ rigor) (h1 : rigor ≤ 1) (hx : 0 ≤ x) (hsum : sum ≤ 0) :
    confidence rigor sum x = 0 :=
  max_eq_right (mul_nonpos_of_nonpos_of_nonneg (div_nonpos_of_nonpos_of_nonneg hsum hx) (certainty_nonneg h0 h1 hx))

theorem confidence_nonneg : 0 ≤ confidence rigor sum x := le_max_right _ _

theorem confidence_le_one (h0 : 0 ≤ rigor) (h1 : rigor ≤ 1) (hx : 0 ≤ x) (hsum : sum ≤ x) :
    confidence rigor sum x ≤ 1 := by
  have hcertain := Real.rpow_nonneg h0 x
  have hmul : sum / x * (1 - rigor ^ x) ≤ 1 * (1 - rigor ^ x) :=
    mul_le_mul_of_nonneg_right (div_le_one_of_le₀ hsum hx) (certainty_nonneg h0 h1 hx)
  exact max_le (by linarith) zero_le_one

/-- **One more application does not lower a score.** -/
theorem confidence_applied (h0 : 0 ≤ rigor) (h1 : rigor ≤ 1) (hx : 0 ≤ x) (hsum : sum ≤ x) (hw : 0 ≤ weight) :
    confidence rigor sum x ≤ confidence rigor (sum + weight) (x + weight) := by
  rcases le_or_gt sum 0 with hneg | hpos
  · rw [confidence_nonpos h0 h1 hx hneg]
    exact confidence_nonneg
  · have hx : 0 < x := hpos.trans_le hsum
    have haverage : sum / x ≤ (sum + weight) / (x + weight) := by
      rw [div_le_div_iff₀ hx (by linarith)]
      nlinarith
    refine max_le_max_right 0 (mul_le_mul haverage (certainty_mono h0 h1 hx.le (by linarith)) ?_ ?_)
    · exact certainty_nonneg h0 h1 hx.le
    · exact div_nonneg (by linarith) (by linarith)

/-- **One more dispute does not raise a score**: there is more certainty, of a lower average. -/
theorem confidence_disputed (h0 : 0 ≤ rigor) (h1 : rigor ≤ 1) (hx : 0 ≤ x) (hsum : sum ≤ x) (hw : 0 ≤ weight) :
    confidence rigor (sum - weight) (x + weight) ≤ confidence rigor sum x := by
  rcases le_or_gt (sum - weight) 0 with hneg | hpos
  · rw [confidence_nonpos h0 h1 (by linarith) hneg]
    exact confidence_nonneg
  · have hx : 0 < x := by linarith
    have hshare := certainty_share h0 hx (le_add_of_nonneg_right hw)
    have hnonneg : 0 ≤ (1 - rigor ^ (x + weight)) / (x + weight) :=
      div_nonneg (certainty_nonneg h0 h1 (by linarith)) (by linarith)
    refine max_le_max_right 0 ?_
    calc (sum - weight) / (x + weight) * (1 - rigor ^ (x + weight))
        = (sum - weight) * ((1 - rigor ^ (x + weight)) / (x + weight)) := by ring
      _ ≤ sum * ((1 - rigor ^ x) / x) := mul_le_mul (by linarith) hshare hnonneg (by linarith)
      _ = sum / x * (1 - rigor ^ x) := by ring

end

/-! ## Tallies -/

section
variable {R : Type} (f : Floats R)

/-- The tally before the first assertion. -/
def Tally.empty : Tally R := ⟨0, 0, f.zero, f.zero⟩

/-- The tally of an account, from its own taggings. -/
def tallyOf (taggings : List (Pubkey × R × R)) (target : Pubkey) : Tally R :=
  (taggings.filter (·.1 = target)).foldl (fun t row => t.count f row.2.1 row.2.2) (Tally.empty f)

/-- The member that an entry of the tallies makes, if it is one. -/
def memberOf (cutoff : ℤ) (rigor : R) (entry : Pubkey × Tally R) : Option Member :=
  let t := entry.2
  if ¬ (cutoff ≤ t.applications ∧ t.disputes < t.applications) then none
  else
    let score := computeScore f t.weightedSum t.weightedInput rigor
    if score < 1 then none else some ⟨entry.1, t.applications, t.disputes, score⟩

variable {f} {taggings : List (Pubkey × R × R)} {cutoff : ℤ} {rigor : R}

theorem memberOf_eq_some {entry : Pubkey × Tally R} {m : Member} : memberOf f cutoff rigor entry = some m ↔
    (cutoff ≤ entry.2.applications ∧ entry.2.disputes < entry.2.applications) ∧
    1 ≤ computeScore f entry.2.weightedSum entry.2.weightedInput rigor ∧
    m = ⟨entry.1, entry.2.applications, entry.2.disputes,
      computeScore f entry.2.weightedSum entry.2.weightedInput rigor⟩ := by
  simp only [memberOf]
  split_ifs with hcount hscore
  · exact ⟨fun h => (by cases h), fun h => absurd h.2.1 (by omega)⟩
  · rw [Option.some.injEq]
    exact ⟨fun h => ⟨hcount, by omega, h.symm⟩, fun h => h.2.2.symm⟩
  · exact ⟨fun h => (by cases h), fun h => absurd h.1 hcount⟩

theorem computeMembers_eq : computeMembers f taggings cutoff rigor =
    sortBy Member.Before ((tallies f taggings).filterMap (memberOf f cutoff rigor)) := rfl

theorem tallies_eq : tallies f taggings =
    Conc.tabulate Prod.fst (Tally.empty f) (fun t row => t.count f row.2.1 row.2.2) [] taggings := rfl

theorem nodup_tallies : ((tallies f taggings).map Prod.fst).Nodup :=
  tallies_eq ▸ Conc.nodup_keys_tabulate (by simp)

/-- **The list, account by account.** -/
theorem mem_computeMembers (hempty : computeScore f f.zero f.zero rigor < 1) {m : Member} :
    m ∈ computeMembers f taggings cutoff rigor ↔
      memberOf f cutoff rigor (m.pubkey, tallyOf f taggings m.pubkey) = some m := by
  have htally : ((tallies f taggings).lookup m.pubkey).getD (Tally.empty f) = tallyOf f taggings m.pubkey := by
    rw [tallies_eq, Conc.lookup_tabulate]
    rfl
  rw [computeMembers_eq, Conc.mem_sortBy, List.mem_filterMap]
  constructor
  · rintro ⟨entry, hentry, hm⟩
    have hpubkey : m.pubkey = entry.1 := by rw [(memberOf_eq_some.1 hm).2.2]
    rw [hpubkey, Conc.lookup_of_mem nodup_tallies hentry, Option.getD_some] at htally
    rw [hpubkey, ← htally]
    exact hm
  · intro hm
    cases hlookup : (tallies f taggings).lookup m.pubkey with
    | none =>
      -- an account nobody tagged scores nothing
      rw [hlookup, Option.getD_none] at htally
      rw [← htally] at hm
      exact absurd (memberOf_eq_some.1 hm).2.1 (by simpa [Tally.empty] using hempty)
    | some t =>
      rw [hlookup, Option.getD_some] at htally
      exact ⟨(m.pubkey, t), Conc.mem_of_lookup hlookup, htally ▸ hm⟩

end

/-! ## Exact reals -/

open Classical in
/-- The real numbers; how a rigor is written does not matter here. -/
noncomputable def reals (format6 : ℝ → String) : Floats ℝ where
  zero := 0
  one := 1
  half := 1 / 2
  hundred := 100
  add x y := x + y
  sub x y := x - y
  mul x y := x * y
  div x y := x / y
  pow x y := x ^ y
  max x y := max x y
  isZero x := x = 0
  floor x := ⌊x⌋
  isApplied x := 1 / 2 ≤ x
  isDisputed x := x ≤ -(1 / 2)
  format6 := format6
  defaultRigor := 1 / 2

section
variable {format6 : ℝ → String}

/-- A score is the confidence in per cent, rounded. -/
theorem computeScore_reals (sum input rigor : ℝ) :
    computeScore (reals format6) sum input rigor = ⌊confidence rigor sum input * 100 + 1 / 2⌋ := by
  by_cases hzero : input = 0
  · have hscore : ⌊confidence rigor sum input * 100 + 1 / 2⌋ = 0 := by
      rw [hzero, confidence, div_zero, zero_mul, max_self, Int.floor_eq_zero_iff]
      norm_num
    rw [hscore, computeScore, if_pos (by simpa [reals] using hzero)]
  · rw [computeScore, if_neg (by simpa [reals] using hzero)]
    rfl

theorem computeScore_empty (rigor : ℝ) : computeScore (reals format6) 0 0 rigor < 1 := by
  rw [computeScore_reals, confidence, div_zero, zero_mul, max_self, Int.floor_lt]
  norm_num

theorem computeScore_mono (format6 : ℝ → String) {rigor sum input sum' input' : ℝ}
    (h : confidence rigor sum input ≤ confidence rigor sum' input') :
    computeScore (reals format6) sum input rigor ≤ computeScore (reals format6) sum' input' rigor := by
  rw [computeScore_reals, computeScore_reals]
  exact Int.floor_le_floor (by linarith)

/-- A tally of weights: the trust behind the verdicts bounds their sum. -/
structure Tally.Sound (t : Tally ℝ) : Prop where
  nonneg : 0 ≤ t.weightedInput
  le : t.weightedSum ≤ t.weightedInput

theorem Tally.sound_empty : (Tally.empty (reals format6)).Sound := ⟨le_refl _, le_refl _⟩

theorem reals_isApplied {polarity : ℝ} : (reals format6).isApplied polarity = true ↔ 1 / 2 ≤ polarity :=
  decide_eq_true_iff

theorem reals_isDisputed {polarity : ℝ} : (reals format6).isDisputed polarity = true ↔ polarity ≤ -(1 / 2) :=
  decide_eq_true_iff

theorem Tally.count_applied {t : Tally ℝ} {polarity weight : ℝ} (h : 1 / 2 ≤ polarity) :
    t.count (reals format6) polarity weight =
      ⟨t.applications + 1, t.disputes, t.weightedInput + weight, t.weightedSum + weight⟩ := by
  rw [Tally.count, if_pos (reals_isApplied.2 h)]
  rfl

theorem Tally.count_disputed {t : Tally ℝ} {polarity weight : ℝ} (h : polarity ≤ -(1 / 2)) :
    t.count (reals format6) polarity weight =
      ⟨t.applications, t.disputes + 1, t.weightedInput + weight, t.weightedSum - weight⟩ := by
  have hnot : ¬ 1 / 2 ≤ polarity := by linarith
  rw [Tally.count, if_neg (mt reals_isApplied.1 hnot), if_pos (reals_isDisputed.2 h)]
  rfl

theorem Tally.count_neutral {t : Tally ℝ} {polarity weight : ℝ} (h : ¬ 1 / 2 ≤ polarity)
    (h' : ¬ polarity ≤ -(1 / 2)) : t.count (reals format6) polarity weight = t := by
  rw [Tally.count, if_neg (mt reals_isApplied.1 h), if_neg (mt reals_isDisputed.1 h')]

theorem Tally.Sound.count {t : Tally ℝ} (ht : t.Sound) {polarity weight : ℝ} (hw : 0 ≤ weight) :
    (t.count (reals format6) polarity weight).Sound := by
  have hnonneg := ht.nonneg
  have hle := ht.le
  by_cases happlied : 1 / 2 ≤ polarity
  · rw [Tally.count_applied happlied]
    exact ⟨by dsimp only; linarith, by dsimp only; linarith⟩
  · by_cases hdisputed : polarity ≤ -(1 / 2)
    · rw [Tally.count_disputed hdisputed]
      exact ⟨by dsimp only; linarith, by dsimp only; linarith⟩
    · rwa [Tally.count_neutral happlied hdisputed]

/-- A verdict adds to a tally what does not depend on the tally. -/
theorem Tally.count_eq (t : Tally ℝ) (polarity weight : ℝ) : t.count (reals format6) polarity weight =
    ⟨t.applications + (if 1 / 2 ≤ polarity then 1 else 0),
      t.disputes + (if polarity ≤ -(1 / 2) then 1 else 0),
      t.weightedInput + (if 1 / 2 ≤ polarity ∨ polarity ≤ -(1 / 2) then weight else 0),
      t.weightedSum + (if 1 / 2 ≤ polarity then weight else if polarity ≤ -(1 / 2) then -weight else 0)⟩ := by
  by_cases happlied : 1 / 2 ≤ polarity
  · have hnot : ¬ polarity ≤ -(1 / 2) := by linarith
    rw [Tally.count_applied happlied, if_pos happlied, if_neg hnot, if_pos (Or.inl happlied), if_pos happlied]
    rfl
  · by_cases hdisputed : polarity ≤ -(1 / 2)
    · rw [Tally.count_disputed hdisputed, if_neg happlied, if_pos hdisputed, if_pos (Or.inr hdisputed),
        if_neg happlied, if_pos hdisputed, sub_eq_add_neg]
      rfl
    · rw [Tally.count_neutral happlied hdisputed, if_neg happlied, if_neg hdisputed,
        if_neg (not_or.2 ⟨happlied, hdisputed⟩), if_neg happlied, if_neg hdisputed, add_zero, add_zero, add_zero,
        add_zero]

/-- Verdicts may be counted in any order. -/
theorem Tally.count_comm (t : Tally ℝ) (p w p' w' : ℝ) :
    (t.count (reals format6) p w).count (reals format6) p' w' =
      (t.count (reals format6) p' w').count (reals format6) p w := by
  simp only [Tally.count_eq, Tally.mk.injEq]
  exact ⟨add_right_comm _ _ _, add_right_comm _ _ _, add_right_comm _ _ _, add_right_comm _ _ _⟩

variable {taggings taggings' : List (Pubkey × ℝ × ℝ)} {cutoff : ℤ} {rigor : ℝ}

/-- The order of the taggings does not matter. -/
theorem tallyOf_perm (hperm : taggings'.Perm taggings) (target : Pubkey) :
    tallyOf (reals format6) taggings' target = tallyOf (reals format6) taggings target := by
  have : RightCommutative fun (t : Tally ℝ) (row : Pubkey × ℝ × ℝ) => t.count (reals format6) row.2.1 row.2.2 :=
    ⟨fun t row row' => Tally.count_comm t _ _ _ _⟩
  exact (hperm.filter _).foldl_eq _

/-- **One tagging more**, wherever it stands, is counted for its target and for nobody else. -/
theorem tallyOf_insert (before after : List (Pubkey × ℝ × ℝ)) (row : Pubkey × ℝ × ℝ) (target : Pubkey) :
    tallyOf (reals format6) (before ++ row :: after) target =
      if row.1 = target then (tallyOf (reals format6) (before ++ after) target).count (reals format6) row.2.1 row.2.2
      else tallyOf (reals format6) (before ++ after) target := by
  have hperm : (before ++ row :: after).Perm (before ++ after ++ [row]) := by
    rw [List.append_assoc]
    exact List.Perm.append_left before (List.perm_append_singleton row after).symm
  rw [tallyOf_perm hperm, tallyOf, List.filter_append, List.foldl_append]
  split_ifs with htarget
  · rw [List.filter_cons_of_pos (by simpa using htarget)]
    rfl
  · rw [List.filter_cons_of_neg (by simpa using htarget)]
    rfl

/-- The weights are trust, and so are the tallies. -/
theorem sound_tallyOf (format6 : ℝ → String) (hw : ∀ row ∈ taggings, 0 ≤ row.2.2) (target : Pubkey) :
    (tallyOf (reals format6) taggings target).Sound := by
  have hfold : ∀ (rows : List (Pubkey × ℝ × ℝ)) (t : Tally ℝ), t.Sound → (∀ row ∈ rows, 0 ≤ row.2.2) →
      (rows.foldl (fun t row => t.count (reals format6) row.2.1 row.2.2) t).Sound := by
    intro rows
    induction rows with
    | nil => exact fun t ht _ => ht
    | cons row rows ih =>
      intro t ht hrows
      exact ih _ (ht.count (hrows row List.mem_cons_self)) fun row' h => hrows row' (List.mem_cons_of_mem row h)
  exact hfold _ _ Tally.sound_empty fun row hrow => hw row (List.mem_of_mem_filter hrow)

/-! ## The list -/

theorem Member.before_total : Std.Total Member.Before := Conc.total_descThen Member.score Member.pubkey

theorem Member.before_trans : IsTrans Member Member.Before := Conc.trans_descThen Member.score Member.pubkey

attribute [local instance] Member.before_total Member.before_trans

theorem Member.before_antisymm {a b : Member} (hab : a.Before b) (hba : b.Before a) : a.pubkey = b.pubkey :=
  Conc.DescThen.antisymm hab hba

theorem mem_members {m : Member} : m ∈ computeMembers (reals format6) taggings cutoff rigor ↔
    memberOf (reals format6) cutoff rigor (m.pubkey, tallyOf (reals format6) taggings m.pubkey) = some m :=
  mem_computeMembers (computeScore_empty rigor)

/-- An account is on the list once. -/
theorem members_inj {m m' : Member} (hm : m ∈ computeMembers (reals format6) taggings cutoff rigor)
    (hm' : m' ∈ computeMembers (reals format6) taggings cutoff rigor) (h : m.pubkey = m'.pubkey) : m = m' := by
  rw [mem_members] at hm hm'
  rw [h, hm'] at hm
  exact (Option.some.inj hm).symm

theorem nodup_members : (computeMembers (reals format6) taggings cutoff rigor).Nodup := by
  have hkeys : (tallies (reals format6) taggings).Pairwise fun a b => a.1 ≠ b.1 :=
    List.pairwise_map.1 (List.nodup_iff_pairwise_ne.1 nodup_tallies)
  rw [computeMembers_eq, (Conc.perm_sortBy _).nodup_iff, List.nodup_iff_pairwise_ne, List.pairwise_filterMap]
  refine hkeys.imp fun {a b} hne m hm m' hm' heq => hne ?_
  have ha : m.pubkey = a.1 := by rw [(memberOf_eq_some.1 hm).2.2]
  have hb : m'.pubkey = b.1 := by rw [(memberOf_eq_some.1 hm').2.2]
  rw [← ha, ← hb, heq]

/-- **A list is known by its members**, and a part of it by those of the part. -/
theorem filter_members_eq {p : Member → Bool}
    (h : ∀ m, p m = true → (m ∈ computeMembers (reals format6) taggings' cutoff rigor ↔
      m ∈ computeMembers (reals format6) taggings cutoff rigor)) :
    (computeMembers (reals format6) taggings' cutoff rigor).filter p =
      (computeMembers (reals format6) taggings cutoff rigor).filter p := by
  have hsorted : ∀ l : List (Pubkey × ℝ × ℝ),
      ((computeMembers (reals format6) l cutoff rigor).filter p).Pairwise Member.Before := by
    intro l
    rw [computeMembers_eq]
    exact (Conc.pairwise_sortBy _).filter p
  have hperm : ((computeMembers (reals format6) taggings' cutoff rigor).filter p).Perm
      ((computeMembers (reals format6) taggings cutoff rigor).filter p) := by
    refine (List.perm_ext_iff_of_nodup (nodup_members.filter p) (nodup_members.filter p)).2 fun m => ?_
    rw [List.mem_filter, List.mem_filter]
    exact ⟨fun hm => ⟨(h m hm.2).1 hm.1, hm.2⟩, fun hm => ⟨(h m hm.2).2 hm.1, hm.2⟩⟩
  refine hperm.eq_of_pairwise (fun a b ha hb hab hba => ?_) (hsorted taggings') (hsorted taggings)
  exact members_inj (List.mem_of_mem_filter (hperm.mem_iff.1 ha)) (List.mem_of_mem_filter hb)
    (Member.before_antisymm hab hba)

theorem members_perm (hperm : taggings'.Perm taggings) :
    computeMembers (reals format6) taggings' cutoff rigor = computeMembers (reals format6) taggings cutoff rigor := by
  have hmem : ∀ m, true = true → (m ∈ computeMembers (reals format6) taggings' cutoff rigor ↔
      m ∈ computeMembers (reals format6) taggings cutoff rigor) :=
    fun m _ => by rw [mem_members, mem_members, tallyOf_perm hperm]
  have h := filter_members_eq hmem
  rwa [List.filter_true, List.filter_true] at h

/-- **Scores are from 1 to 100.** -/
theorem score_bounds (h0 : 0 ≤ rigor) (h1 : rigor < 1) (hw : ∀ row ∈ taggings, 0 ≤ row.2.2) {m : Member}
    (hm : m ∈ computeMembers (reals format6) taggings cutoff rigor) : 1 ≤ m.score ∧ m.score ≤ 100 := by
  have hsound := sound_tallyOf format6 hw m.pubkey
  obtain ⟨-, hscore, heq⟩ := memberOf_eq_some.1 (mem_members.1 hm)
  rw [heq]
  refine ⟨hscore, ?_⟩
  have hle := confidence_le_one h0 h1.le hsound.nonneg hsound.le
  rw [computeScore_reals, ← Int.lt_add_one_iff, Int.floor_lt]
  push_cast
  linarith

/-- Other accounts do not notice a tagging. -/
theorem members_insert_other (before after : List (Pubkey × ℝ × ℝ)) (row : Pubkey × ℝ × ℝ) :
    (computeMembers (reals format6) (before ++ row :: after) cutoff rigor).filter (·.pubkey ≠ row.1) =
      (computeMembers (reals format6) (before ++ after) cutoff rigor).filter (·.pubkey ≠ row.1) := by
  refine filter_members_eq fun m hm => ?_
  have hne : row.1 ≠ m.pubkey := Ne.symm (by simpa using hm)
  rw [mem_members, mem_members, tallyOf_insert, if_neg hne]

/-- **An application keeps its target on the list**, with no lower score. -/
theorem members_applied (h0 : 0 ≤ rigor) (h1 : rigor < 1) {before after : List (Pubkey × ℝ × ℝ)}
    (hw : ∀ row ∈ before ++ after, 0 ≤ row.2.2) {polarity weight : ℝ} (happlied : 1 / 2 ≤ polarity)
    (hweight : 0 ≤ weight) {m : Member} (hm : m ∈ computeMembers (reals format6) (before ++ after) cutoff rigor) :
    ∃ m' ∈ computeMembers (reals format6) (before ++ (m.pubkey, polarity, weight) :: after) cutoff rigor,
      m'.pubkey = m.pubkey ∧ m.score ≤ m'.score := by
  have hsound := sound_tallyOf format6 hw m.pubkey
  obtain ⟨⟨hcutoff, hmore⟩, hscore, heq⟩ := memberOf_eq_some.1 (mem_members.1 hm)
  dsimp only at hcutoff hmore hscore
  set t := tallyOf (reals format6) (before ++ after) m.pubkey with ht
  have hmono := computeScore_mono format6 (confidence_applied h0 h1.le hsound.nonneg hsound.le hweight)
  refine ⟨⟨m.pubkey, t.applications + 1, t.disputes, computeScore (reals format6) (t.weightedSum + weight)
    (t.weightedInput + weight) rigor⟩, mem_members.2 ?_, rfl, ?_⟩
  · rw [tallyOf_insert, if_pos rfl, ← ht, Tally.count_applied happlied, memberOf_eq_some]
    exact ⟨⟨by dsimp only; omega, by dsimp only; omega⟩, hscore.trans hmono, rfl⟩
  · rw [heq]
    exact hmono

/-- **A dispute puts nobody on the list** and raises no score. -/
theorem members_disputed (h0 : 0 ≤ rigor) (h1 : rigor < 1) {before after : List (Pubkey × ℝ × ℝ)}
    (hw : ∀ row ∈ before ++ after, 0 ≤ row.2.2) {polarity weight : ℝ} (hdisputed : polarity ≤ -(1 / 2))
    (hweight : 0 ≤ weight) {m : Member}
    (hm : m ∈ computeMembers (reals format6) (before ++ (m.pubkey, polarity, weight) :: after) cutoff rigor) :
    ∃ m' ∈ computeMembers (reals format6) (before ++ after) cutoff rigor,
      m'.pubkey = m.pubkey ∧ m.score ≤ m'.score := by
  have hsound := sound_tallyOf format6 hw m.pubkey
  rw [mem_members, tallyOf_insert, if_pos rfl, Tally.count_disputed hdisputed, memberOf_eq_some] at hm
  obtain ⟨⟨hcutoff, hmore⟩, hscore, heq⟩ := hm
  dsimp only at hcutoff hmore hscore heq
  set t := tallyOf (reals format6) (before ++ after) m.pubkey with ht
  have hmono := computeScore_mono format6 (confidence_disputed h0 h1.le hsound.nonneg hsound.le hweight)
  refine ⟨⟨m.pubkey, t.applications, t.disputes, computeScore (reals format6) t.weightedSum t.weightedInput rigor⟩,
    mem_members.2 ?_, rfl, ?_⟩
  · rw [← ht, memberOf_eq_some]
    exact ⟨⟨hcutoff, by dsimp only; omega⟩, hscore.trans hmono, rfl⟩
  · rw [heq]
    exact hmono

/-- **Membership is monotone.**  Scores are whole numbers from 1 to 100 and the order of the
    taggings does not matter.  Wherever one more application stands, its target stays on the
    list and its score is no lower; one more dispute puts nobody on the list and raises no
    score; and nobody else notices either. -/
theorem members_monotone (format6 : ℝ → String) (rigor : ℝ) (h0 : 0 ≤ rigor) (h1 : rigor < 1) (cutoff : ℤ)
    (taggings : List (Pubkey × ℝ × ℝ)) (hw : ∀ row ∈ taggings, 0 ≤ row.2.2 ∧ row.2.2 ≤ 1) :
    (∀ m ∈ computeMembers (reals format6) taggings cutoff rigor, 1 ≤ m.score ∧ m.score ≤ 100) ∧
    (∀ taggings', taggings'.Perm taggings → computeMembers (reals format6) taggings' cutoff rigor =
      computeMembers (reals format6) taggings cutoff rigor) ∧
    ∀ before after target polarity weight, before ++ after = taggings → 0 ≤ weight → weight ≤ 1 →
      ((reals format6).isApplied polarity = true →
        (∀ m ∈ computeMembers (reals format6) taggings cutoff rigor, m.pubkey = target →
          ∃ m' ∈ computeMembers (reals format6) (before ++ (target, polarity, weight) :: after) cutoff rigor,
            m'.pubkey = target ∧ m.score ≤ m'.score) ∧
        (computeMembers (reals format6) (before ++ (target, polarity, weight) :: after) cutoff rigor).filter
            (·.pubkey ≠ target) =
          (computeMembers (reals format6) taggings cutoff rigor).filter (·.pubkey ≠ target)) ∧
      ((reals format6).isDisputed polarity = true →
        ∀ m' ∈ computeMembers (reals format6) (before ++ (target, polarity, weight) :: after) cutoff rigor,
          m'.pubkey = target → ∃ m ∈ computeMembers (reals format6) taggings cutoff rigor,
            m.pubkey = target ∧ m'.score ≤ m.score) := by
  have hnonneg : ∀ row ∈ taggings, 0 ≤ row.2.2 := fun row hrow => (hw row hrow).1
  refine ⟨fun m hm => score_bounds h0 h1 hnonneg hm, fun _ => members_perm, ?_⟩
  rintro before after target polarity weight rfl hweight -
  refine ⟨fun happlied => ⟨?_, members_insert_other before after (target, polarity, weight)⟩, fun hdisputed => ?_⟩
  · rintro m hm rfl
    exact members_applied h0 h1 hnonneg (reals_isApplied.1 happlied) hweight hm
  · rintro m hm rfl
    exact members_disputed h0 h1 hnonneg (reals_isDisputed.1 hdisputed) hweight hm

/-- With rigor one half, one application of weight one scores 50. -/
theorem mem_oneApplication :
    (⟨"ab", 1, 0, 50⟩ : Member) ∈ computeMembers (reals fun _ => "0.5") [("ab", 1, 1)] 1 (1 / 2) := by
  have htally : tallyOf (reals fun _ => "0.5") [("ab", 1, 1)] "ab" = ⟨1, 0, 1, 1⟩ := by
    have hempty : Tally.empty (reals fun _ => "0.5") = ⟨0, 0, 0, 0⟩ := rfl
    rw [tallyOf, List.filter_cons_of_pos (by simp), List.filter_nil, List.foldl_cons, List.foldl_nil,
      Tally.count_applied (by norm_num), hempty]
    norm_num
  have hscore : computeScore (reals fun _ => "0.5") 1 1 (1 / 2) = 50 := by
    rw [computeScore_reals, confidence, Int.floor_eq_iff]
    norm_num
  rw [mem_members, htally, memberOf_eq_some]
  exact ⟨by decide, by rw [hscore]; decide, by rw [hscore]⟩

/-- Two applications and a dispute, each of weight one, score 29. -/
theorem mem_oneDispute :
    (⟨"ab", 2, 1, 29⟩ : Member) ∈
      computeMembers (reals fun _ => "0.5") [("ab", -1, 1), ("ab", 1, 1), ("ab", 1, 1)] 1 (1 / 2) := by
  have htally : tallyOf (reals fun _ => "0.5") [("ab", -1, 1), ("ab", 1, 1), ("ab", 1, 1)] "ab" =
      ⟨2, 1, 3, 1⟩ := by
    have hdisputed : (Tally.empty (reals fun _ => "0.5")).count (reals fun _ => "0.5") (-1) 1 = ⟨0, 1, 1, -1⟩ := by
      have hempty : Tally.empty (reals fun _ => "0.5") = ⟨0, 0, 0, 0⟩ := rfl
      rw [Tally.count_disputed (by norm_num), hempty]
      norm_num
    have happlied : (⟨0, 1, 1, -1⟩ : Tally ℝ).count (reals fun _ => "0.5") 1 1 = ⟨1, 1, 2, 0⟩ := by
      rw [Tally.count_applied (by norm_num)]
      norm_num
    have hagain : (⟨1, 1, 2, 0⟩ : Tally ℝ).count (reals fun _ => "0.5") 1 1 = ⟨2, 1, 3, 1⟩ := by
      rw [Tally.count_applied (by norm_num)]
      norm_num
    rw [tallyOf, List.filter_eq_self.2 (by simp), List.foldl_cons, List.foldl_cons, List.foldl_cons,
      List.foldl_nil, hdisputed, happlied, hagain]
  have hscore : computeScore (reals fun _ => "0.5") 1 3 (1 / 2) = 29 := by
    rw [computeScore_reals, confidence, Int.floor_eq_iff]
    norm_num
  rw [mem_members, htally, memberOf_eq_some]
  exact ⟨by decide, by rw [hscore]; decide, by rw [hscore]⟩

/-- So a second application leaves it on the list, with no less; and without the dispute it
    is on the list as well, with no less. -/
theorem oneApplication_monotone :
    (∃ m ∈ computeMembers (reals fun _ => "0.5") [("ab", 1, 1), ("ab", 1, 1)] 1 (1 / 2),
      m.pubkey = "ab" ∧ 50 ≤ m.score) ∧
    ∃ m ∈ computeMembers (reals fun _ => "0.5") [("ab", 1, 1), ("ab", 1, 1)] 1 (1 / 2),
      m.pubkey = "ab" ∧ 29 ≤ m.score := by
  have hw : ∀ n, ∀ row ∈ List.replicate n (("ab", 1, 1) : Pubkey × ℝ × ℝ), 0 ≤ row.2.2 ∧ row.2.2 ≤ 1 := by
    intro n row hrow
    rw [List.eq_of_mem_replicate hrow]
    norm_num
  have happly := (members_monotone (fun _ => "0.5") (1 / 2) (by norm_num) (by norm_num) 1 [("ab", 1, 1)] (hw 1)).2.2
    [] [("ab", 1, 1)] "ab" 1 1 rfl (by norm_num) (by norm_num)
  have hdispute := (members_monotone (fun _ => "0.5") (1 / 2) (by norm_num) (by norm_num) 1
    [("ab", 1, 1), ("ab", 1, 1)] (hw 2)).2.2 [] [("ab", 1, 1), ("ab", 1, 1)] "ab" (-1) 1 rfl (by norm_num)
      (by norm_num)
  exact ⟨(happly.1 (reals_isApplied.2 (by norm_num))).1 _ mem_oneApplication rfl,
    hdispute.2 (reals_isDisputed.2 (by norm_num)) _ mem_oneDispute rfl⟩

end

end TrustedList

end BrainstormServer
