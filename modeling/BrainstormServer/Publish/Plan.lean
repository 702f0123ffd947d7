/-
  What one publish run sends to the relay
  (`app/message_queue_tasks/upload_nostr_events.py`, `ta_signing.py`).

  A run asserts the scorecards above the cutoff (`prepareTaInputs`: all of them
  on a full sync, else those whose score changed) and deletes what it finds in
  the persisted baseline and no longer above the cutoff (`planPublish`).  Of the
  relay only the observees with a stored assertion matter: an assertion adds its
  observee, a deletion event removes up to 200 of them (`Event.apply`).

  The baseline is persisted as bytes (`packPubkeys`), 32 for each observee, and
  read back in small hexadecimal digits (`unpackPubkeys`).  Keys come back as they
  were (`unpackPubkeys_of_packPubkeys`); an observee in capital digits or with white
  space behind it does not, and one of another length shifts those after it.

  Scores are Python floats.  Their arithmetic is a parameter (`FloatOps`); nothing
  here depends on how it rounds.
-/
import BrainstormServer.Hex
import Mathlib.Data.Finset.Basic
import Mathlib.Data.Finset.SDiff
import Mathlib.Data.List.Sort

namespace BrainstormServer

namespace Publish

abbrev Pubkey := String

/-- The operations on floats that the run uses. -/
structure FloatOps (R : Type) where
  /-- `round(x, 2) >= cutoff` -/
  atLeast : R → R → Bool
  /-- `x <= y` -/
  le : R → R → Bool
  /-- `round(x * 100)` -/
  percent : R → ℤ
  /-- `int(x)` -/
  int : R → ℤ

/-! ## Data -/

/-- `ScoreCard`; counts may come as floats, and the missing ones default to 0. -/
structure ScoreCard (R : Type) where
  observer : Pubkey
  observee : Pubkey
  influence : R
  hops : R
  trustedFollowers : Option R
  trustedReporters : Option R
  trustedMuters : Option R

/-- `GrapeRankResult`; a dictionary is the list of its items. -/
structure GrapeRankResult (R : Type) where
  scorecards : Option (List (Pubkey × ScoreCard R))
  success : Option Bool
  changedScorePubkeys : Option (List Pubkey)

/-- `TaInput`. -/
structure TaInput where
  observee : Pubkey
  rank : ℤ
  followers : ℤ
  reporters : ℤ
  muters : ℤ
  hops : ℤ
  deriving DecidableEq

/-- `PublishPlan`. -/
structure PublishPlan where
  currentlyPublished : List Pubkey
  deletes : List Pubkey

/-! ## Planning -/

section
variable {R : Type} (Φ : FloatOps R)

def ScoreCard.toInput (sc : ScoreCard R) : TaInput where
  observee := sc.observee
  rank := Φ.percent sc.influence
  followers := (sc.trustedFollowers.map Φ.int).getD 0
  reporters := (sc.trustedReporters.map Φ.int).getD 0
  muters := (sc.trustedMuters.map Φ.int).getD 0
  hops := Φ.int sc.hops

/-- `prepare_ta_inputs`: sorted by influence, descending. -/
def prepareTaInputs (scorecards : List (Pubkey × ScoreCard R)) (changedPubkeys : List Pubkey)
    (cutoff : R) (fullSync : Bool) : List TaInput :=
  let selected := scorecards.filter fun item =>
    (fullSync ∨ item.1 ∈ changedPubkeys) ∧ Φ.atLeast item.2.influence cutoff
  ((selected.map (·.2)).insertionSort fun sc sc' => Φ.le sc'.influence sc.influence).map
    (·.toInput Φ)

/-- `_delete_from_sets`. -/
def deleteFromSets (fellOff belowCutoff : List Pubkey) (sweepBelowCutoff : Bool) : List Pubkey :=
  (if sweepBelowCutoff then fellOff ++ belowCutoff else fellOff).dedup.insertionSort (· ≤ ·)

/-- The observees above the cutoff. -/
def aboveCutoff (scorecards : List (Pubkey × ScoreCard R)) (cutoff : R) : List Pubkey :=
  (scorecards.filter fun item => Φ.atLeast item.2.influence cutoff).map (·.2.observee)

/-- `plan_publish`. -/
def planPublish (scorecards : List (Pubkey × ScoreCard R)) (previouslyPublished : List Pubkey)
    (cutoff : R) (sweepBelowCutoff : Bool) : PublishPlan :=
  let above := aboveCutoff Φ scorecards cutoff
  let below := (scorecards.filter fun item => ¬ Φ.atLeast item.2.influence cutoff).map
    (·.2.observee)
  let fellOff := previouslyPublished.filter (· ∉ above)
  ⟨above, deleteFromSets fellOff below sweepBelowCutoff⟩

end

/-- `published_state_to_persist`: after a failed relay write the union is kept. -/
def publishedStateToPersist (previouslyPublished currentlyPublished : List Pubkey)
    (relayWriteFailed : Bool) : List Pubkey :=
  if relayWriteFailed then (previouslyPublished ++ currentlyPublished).dedup
  else currentlyPublished

/-- `[xs[i : i + n] for i in range(0, len(xs), n)]`. -/
def chunks {α : Type} (n : ℕ) (xs : List α) : List (List α) :=
  (List.range ((xs.length + n - 1) / n)).map fun i => (xs.drop (i * n)).take n

/-! ## The persisted baseline -/

/-- `_PUBKEY_BYTES`. -/
def pubkeyBytes : ℕ := 32

/-- `_pack_pubkeys`; `none` is the `ValueError` of `bytes.fromhex`. -/
def packPubkeys (pubkeys : List Pubkey) : Option Bytes := (pubkeys.mapM fromHex).map List.flatten

/-- `_unpack_pubkeys`. -/
def unpackPubkeys (blob : Option Bytes) : List Pubkey := (chunks pubkeyBytes (blob.getD [])).map hex

/-! ## Events -/

/-- `DELETION_COORDS_PER_EVENT`. -/
def deletionCoordsPerEvent : ℕ := 200

/-- A signed event: an assertion, or a deletion by coordinates. -/
inductive Event
  | ta (input : TaInput)
  | deletion (observees : List Pubkey)
  deriving DecidableEq

/-- `sign_publish_events`: the assertions, then the deletions. -/
def signPublishEvents (inputs : List TaInput) (deletionObservees : List Pubkey) : List Event :=
  inputs.map .ta ++ (chunks deletionCoordsPerEvent deletionObservees).map .deletion

/-- What an event does to the observees with a stored assertion. -/
def Event.apply : Finset Pubkey → Event → Finset Pubkey
  | relay, .ta input => insert input.observee relay
  | relay, .deletion observees => relay \ observees.toFinset

/-- The relay after some events have landed on it. -/
def land (relay : Finset Pubkey) (events : List Event) : Finset Pubkey :=
  events.foldl Event.apply relay

/-- The observees asserted and those deleted by some events. -/
def Event.asserts (x : Pubkey) : Event → Prop
  | .ta input => input.observee = x
  | .deletion _ => False

def Event.removes (x : Pubkey) : Event → Prop
  | .ta _ => False
  | .deletion observees => x ∈ observees

/-! ## Lemmas -/

theorem flatten_range {α : Type} (n : ℕ) (xs : List α) (k : ℕ) :
    ((List.range k).map fun i => (xs.drop (i * n)).take n).flatten = xs.take (k * n) := by
  induction k with
  | zero => simp
  | succ k ih =>
    rw [List.range_succ, List.map_append, List.flatten_append, ih, List.map_singleton, List.flatten_singleton,
      Nat.succ_mul, List.take_add]

/-- The chunks, one after the other. -/
theorem flatten_chunks {α : Type} {n : ℕ} (hn : 0 < n) (xs : List α) : (chunks n xs).flatten = xs := by
  rw [chunks, flatten_range, List.take_of_length_le]
  have hdiv := Nat.div_add_mod' (xs.length + n - 1) n
  have hmod := Nat.mod_lt (xs.length + n - 1) hn
  omega

/-- Every element is in one of the chunks, and nothing else is. -/
theorem mem_chunks {α : Type} {n : ℕ} (hn : 0 < n) {xs : List α} {x : α} :
    (∃ c ∈ chunks n xs, x ∈ c) ↔ x ∈ xs := by
  rw [← List.mem_flatten, flatten_chunks hn]

/-- The first chunk, and those of the rest. -/
theorem chunks_append {α : Type} {n : ℕ} (hn : 0 < n) {xs : List α} (hxs : xs.length = n) (ys : List α) :
    chunks n (xs ++ ys) = xs :: chunks n ys := by
  have hcount : ((xs ++ ys).length + n - 1) / n = (ys.length + n - 1) / n + 1 := by
    rw [List.length_append, hxs, ← Nat.add_div_right _ hn]
    congr 1
    omega
  rw [chunks, hcount, List.range_succ_eq_map, List.map_cons, List.map_map, chunks]
  congr 1
  · simp [← hxs]
  · refine List.map_congr_left fun i _ => ?_
    have hdrop : (xs ++ ys).drop ((i + 1) * n) = ys.drop (i * n) := by
      rw [Nat.succ_mul, Nat.add_comm, ← List.drop_drop, ← hxs, List.drop_left]
    simp only [Function.comp_apply, hdrop]

/-- **Keys are read back as they were packed.** -/
theorem unpackPubkeys_of_packPubkeys : ∀ {pubkeys : List Pubkey}, (∀ p ∈ pubkeys, Nostr.IsPubkey p) →
    ∃ blob, packPubkeys pubkeys = some blob ∧ unpackPubkeys (some blob) = pubkeys
  | [], _ => ⟨[], rfl, rfl⟩
  | p :: pubkeys, h => by
    obtain ⟨hlen, hdigits⟩ := h p List.mem_cons_self
    obtain ⟨bytes, hread, hbytes, hwrite⟩ := hex_of_fromHex (n := pubkeyBytes) hlen hdigits
    obtain ⟨blob, hpack, hunpack⟩ :=
      unpackPubkeys_of_packPubkeys fun q hq => h q (List.mem_cons_of_mem p hq)
    unfold packPubkeys at hpack ⊢
    obtain ⟨blobs, hblobs, rfl⟩ := Option.map_eq_some_iff.1 hpack
    refine ⟨bytes ++ blobs.flatten, by simp [List.mapM_cons, hread, hblobs], ?_⟩
    unfold unpackPubkeys at hunpack ⊢
    rw [Option.getD_some, chunks_append (by decide) hbytes, List.map_cons, hwrite]
    exact congrArg (p :: ·) hunpack

theorem land_snoc (relay : Finset Pubkey) (events : List Event) (e : Event) :
    land relay (events ++ [e]) = e.apply (land relay events) := by
  simp [land]

/-- What is on the relay afterwards, when nothing is both asserted and deleted. -/
theorem mem_land {relay : Finset Pubkey} {x : Pubkey} {events : List Event}
    (h : ∀ e ∈ events, ∀ e' ∈ events, e.asserts x → ¬ e'.removes x) :
    x ∈ land relay events ↔
      (∃ e ∈ events, e.asserts x) ∨ (x ∈ relay ∧ ∀ e ∈ events, ¬ e.removes x) := by
  -- on the last event: the earlier ones have left what the rule says
  induction events using List.reverseRecOn with
  | nil => simp [land]
  | append_singleton events e ih =>
    have ih' := ih fun a ha b hb => h a (List.mem_append_left _ ha) b (List.mem_append_left _ hb)
    have hlast : ∀ a ∈ events, a.asserts x → ¬ e.removes x := fun a ha =>
      h a (List.mem_append_left _ ha) e (by simp)
    have hall : (∀ a ∈ events ++ [e], ¬ a.removes x) ↔
        (∀ a ∈ events, ¬ a.removes x) ∧ ¬ e.removes x := by
      simp only [List.mem_append, List.mem_singleton, or_imp, forall_and, forall_eq]
    have hsome : (∃ a ∈ events ++ [e], a.asserts x) ↔
        (∃ a ∈ events, a.asserts x) ∨ e.asserts x := by
      simp only [List.mem_append, List.mem_singleton, or_and_right, exists_or, exists_eq_left]
    rw [land_snoc, hall, hsome]
    cases e with
    | ta input =>
      simp only [Event.apply, Finset.mem_insert, ih', Event.asserts, Event.removes,
        not_false_eq_true, and_true]
      constructor
      · rintro (rfl | h | h)
        · exact Or.inl (Or.inr rfl)
        · exact Or.inl (Or.inl h)
        · exact Or.inr h
      · rintro ((h | rfl) | h)
        · exact Or.inr (Or.inl h)
        · exact Or.inl rfl
        · exact Or.inr (Or.inr h)
    | deletion observees =>
      simp only [Event.apply, Finset.mem_sdiff, List.mem_toFinset, ih', Event.asserts,
        Event.removes, or_false]
      constructor
      · rintro ⟨h | ⟨hr, h⟩, hx⟩
        · exact Or.inl h
        · exact Or.inr ⟨hr, h, hx⟩
      · rintro (⟨a, ha, hax⟩ | ⟨hr, h, hx⟩)
        · exact ⟨Or.inl ⟨a, ha, hax⟩, hlast a ha hax⟩
        · exact ⟨Or.inr ⟨hr, h⟩, hx⟩

section
variable {R : Type} {Φ : FloatOps R} {scorecards : List (Pubkey × ScoreCard R)} {cutoff : R}
  {previous changed : List Pubkey} {full : Bool} {x : Pubkey}

/-- The delete set, without the sweep. -/
theorem mem_deletes : x ∈ (planPublish Φ scorecards previous cutoff false).deletes ↔
    x ∈ previous ∧ x ∉ aboveCutoff Φ scorecards cutoff := by
  simp [planPublish, deleteFromSets, List.mem_insertionSort]

/-- Only observees above the cutoff are asserted. -/
theorem observee_mem_aboveCutoff {input : TaInput}
    (h : input ∈ prepareTaInputs Φ scorecards changed cutoff full) :
    input.observee ∈ aboveCutoff Φ scorecards cutoff := by
  simp only [prepareTaInputs, List.mem_map, List.mem_insertionSort, List.mem_filter] at h
  obtain ⟨sc, ⟨item, ⟨hitem, hsel⟩, rfl⟩, rfl⟩ := h
  have habove : Φ.atLeast item.2.influence cutoff = true := by
    have := of_decide_eq_true hsel
    exact this.2
  exact List.mem_map.2 ⟨item, List.mem_filter.2 ⟨hitem, habove⟩, rfl⟩

variable {inputs : List TaInput} {deletes : List Pubkey}

/-- The observees that the events of a run assert and delete. -/
theorem asserts_signPublishEvents :
    (∃ e ∈ signPublishEvents inputs deletes, e.asserts x) ↔ ∃ i ∈ inputs, i.observee = x := by
  unfold signPublishEvents
  constructor
  · rintro ⟨e, he, hx⟩
    rcases List.mem_append.1 he with he | he
    · obtain ⟨i, hi, rfl⟩ := List.mem_map.1 he
      exact ⟨i, hi, hx⟩
    · obtain ⟨c, -, rfl⟩ := List.mem_map.1 he
      exact hx.elim
  · rintro ⟨i, hi, hx⟩
    exact ⟨.ta i, List.mem_append_left _ (List.mem_map_of_mem hi), hx⟩

theorem removes_signPublishEvents :
    (∃ e ∈ signPublishEvents inputs deletes, e.removes x) ↔ x ∈ deletes := by
  rw [← mem_chunks (show 0 < deletionCoordsPerEvent by decide)]
  unfold signPublishEvents
  constructor
  · rintro ⟨e, he, hx⟩
    rcases List.mem_append.1 he with he | he
    · obtain ⟨i, -, rfl⟩ := List.mem_map.1 he
      exact hx.elim
    · obtain ⟨c, hc, rfl⟩ := List.mem_map.1 he
      exact ⟨c, hc, hx⟩
  · rintro ⟨c, hc, hx⟩
    exact ⟨.deletion c, List.mem_append_right _ (List.mem_map_of_mem hc), hx⟩

end

end Publish

end BrainstormServer
