/-
  Membership and wire shape of Trusted Lists (`app/services/trusted_list_build.py`).

  A list is published at the slot that its `d` tag names: the observer, the author of the
  tag and the tag's slug, the two keys cut to eight characters.
-/
import BrainstormServer.Tagging.Store

namespace BrainstormServer

namespace TrustedList

open Nostr Tagging

/-- `D_TAG_PREFIX`. -/
def dTagPrefix : String := "tl-tag"

/-- `TRUSTED_LIST_METRIC`. -/
def trustedListMetric : String := "tag-membership"

/-- `RETRACTED_MARKER`. -/
def retractedMarker : List String := ["status", "retracted"]

/-- `s[:8]`. -/
def first8 (s : String) : String := String.ofList (s.toList.take 8)

/-- `compute_d_tag`. -/
def computeDTag (observer tagAuthorPubkey slug : String) : String :=
  dTagPrefix ++ "-" ++ first8 observer ++ "-" ++ first8 tagAuthorPubkey ++ "-" ++ slug

/-! ## Members -/

/-- The floats, with what is used of them. -/
structure Floats (R : Type) where
  zero : R
  one : R
  half : R
  hundred : R
  add : R → R → R
  sub : R → R → R
  mul : R → R → R
  div : R → R → R
  pow : R → R → R
  max : R → R → R
  isZero : R → Bool
  /-- `math.floor` -/
  floor : R → ℤ
  /-- `is_applied` -/
  isApplied : R → Bool
  /-- `is_disputed` -/
  isDisputed : R → Bool
  /-- `f"\x7bx:.6f\x7d"` -/
  format6 : R → String
  /-- `DEFAULT_RIGOR` -/
  defaultRigor : R

/-- `Member`. -/
structure Member where
  pubkey : Pubkey
  applications : ℕ
  disputes : ℕ
  score : ℤ
  deriving DecidableEq

/-- `_Tally`. -/
structure Tally (R : Type) where
  applications : ℕ
  disputes : ℕ
  weightedInput : R
  weightedSum : R

section
variable {R : Type} (f : Floats R)

/-- `_format_rigor`. -/
def formatRigor (rigor : R) : String :=
  String.ofList ((((f.format6 rigor).toList.reverse.dropWhile (· = '0')).dropWhile (· = '.')).reverse)

/-- `_round_half_up`. -/
def roundHalfUp (value : R) : ℤ := f.floor (f.add value f.half)

/-- `compute_score`. -/
def computeScore (weightedSum weightedInput rigor : R) : ℤ :=
  if f.isZero weightedInput then 0
  else
    let average := f.div weightedSum weightedInput
    let certainty := f.sub f.one (f.pow rigor weightedInput)
    roundHalfUp f (f.mul (f.max (f.mul average certainty) f.zero) f.hundred)

/-- One assertion more. -/
def Tally.count (t : Tally R) (polarity weight : R) : Tally R :=
  if f.isApplied polarity then
    { t with
      applications := t.applications + 1
      weightedInput := f.add t.weightedInput weight
      weightedSum := f.add t.weightedSum weight }
  else if f.isDisputed polarity then
    { t with
      disputes := t.disputes + 1
      weightedInput := f.add t.weightedInput weight
      weightedSum := f.sub t.weightedSum weight }
  else t

/-- The tallies of `compute_members`, by target. -/
def tallies (taggings : List (Pubkey × R × R)) : List (Pubkey × Tally R) :=
  taggings.foldl (fun tally row =>
    dictSet tally row.1 (((tally.lookup row.1).getD ⟨0, 0, f.zero, f.zero⟩).count f row.2.1 row.2.2)) []

/-- The sort key `(-m.score, m.pubkey)`. -/
def Member.Before (a b : Member) : Prop :=
  b.score < a.score ∨ (a.score = b.score ∧ a.pubkey ≤ b.pubkey)

instance (a b : Member) : Decidable (Member.Before a b) := inferInstanceAs (Decidable (_ ∨ _))

/-- `compute_members`. -/
def computeMembers (taggings : List (Pubkey × R × R)) (cutoff : ℤ) (rigor : R) : List Member :=
  sortBy Member.Before ((tallies f taggings).filterMap fun entry =>
    let t := entry.2
    if ¬ (cutoff ≤ t.applications ∧ t.disputes < t.applications) then none
    else
      let score := computeScore f t.weightedSum t.weightedInput rigor
      if score < 1 then none else some ⟨entry.1, t.applications, t.disputes, score⟩)

/-! ## Events -/

/-- `build_trusted_list_tags`. -/
def buildTrustedListTags (observer tagEventId tagAuthorPubkey slug name description : String)
    (members : List Member) (cutoff minRank : ℤ) (rigor : R) (retracted : Bool) :
    List (List String) :=
  let tags := [
    ["d", computeDTag observer tagAuthorPubkey slug],
    ["title", name],
    ["description", description],
    ["metric", trustedListMetric],
    ["observer", observer],
    ["source-tag", tagEventId, tagAuthorPubkey, slug],
    ["cutoff", toString cutoff],
    ["min-rank", toString minRank]]
  if retracted then tags ++ [retractedMarker]
  else tags ++ [["rigor", formatRigor f rigor]] ++
    members.map fun m => ["p", m.pubkey, "", toString m.score]

end

/-- `build_trusted_list_content`, before `json.dumps`. -/
def buildTrustedListContent (members : List Member) : PyValue :=
  .dict [("members", .list (members.map fun m => .dict [
    ("pubkey", .str m.pubkey),
    ("endorsements", .int m.applications),
    ("disputes", .int m.disputes),
    ("score", .int m.score)]))]

/-! ## Slots -/

theorem toList_computeDTag (observer author slug : String) :
    (computeDTag observer author slug).toList =
      (dTagPrefix ++ "-" ++ first8 observer ++ "-").toList ++ (first8 author).toList ++ '-' :: slug.toList := by
  simp [computeDTag]

theorem first8_first8 (s : String) : first8 (first8 s) = first8 s := by
  simp [first8, List.take_take]

/-- A slot does not depend on more of the author than it shows. -/
theorem computeDTag_first8 (observer author slug : String) :
    computeDTag observer (first8 author) slug = computeDTag observer author slug := by
  rw [computeDTag, computeDTag, first8_first8]

end TrustedList

end BrainstormServer
