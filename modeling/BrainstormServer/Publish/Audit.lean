/-
  The relay audit (`app/services/relay_audit_service.py`).

  The d tags that a signer has on the relay are downloaded, window by window, and compared
  with the observees that are expected.  A window is halved until its events fit into one
  download.  A second that is too dense is not downloaded: the expected observees that were
  not found elsewhere are looked up in it, by d tag if they are few and by a sample if not.

  * `walk_eq`: the walk visits the parts into which the time range is halved;
  * `visited`: so every assertion is downloaded once, or stands once in a dense second;
  * `sum_count_chunks`: what looking up by d tag counts;
  * `audit_exact`: and the numbers are right, if the audit says that they are exact.
-/
import BrainstormServer.Conc.Bisect
import BrainstormServer.Nostr
import BrainstormServer.Publish.Plan
import Mathlib.Algebra.GroupWithZero.Nat
import Mathlib.Data.Finset.Card
import Mathlib.Data.Finset.Sort
import Mathlib.Data.String.Basic

namespace BrainstormServer

namespace Audit

open Nostr

/-! ## The relay -/

/-- `TA_KIND`. -/
def taKind : ℕ := 30382

/-- What a request asks for, besides the kind and the author. -/
structure Filter where
  since : Option ℤ
  until_ : Option ℤ
  /-- `#d` -/
  d : Option (List String)
  limit : Option ℕ

/-- The events a request is about. -/
def Filter.accepts (flt : Filter) (signer : Pubkey) (e : Event) : Bool :=
  e.kind = taKind && e.pubkey = signer && flt.since.all (· ≤ e.createdAt) && flt.until_.all (e.createdAt ≤ ·) &&
    flt.d.all fun values => e.tags.any fun tag => isNamed "d" tag && (value? tag).any (· ∈ values)

/-- The events a request is about, of `events`. -/
def Filter.select (flt : Filter) (signer : Pubkey) (events : List Event) : List Event :=
  events.filter (flt.accepts signer)

/-- A relay that does not change, and honours the limit of a request. -/
structure Relay where
  events : List Event
  /-- the `EVENT` frames that answer a `REQ` -/
  answer : Pubkey → Filter → List Event
  answer_subperm : ∀ signer flt, (answer signer flt).Subperm (flt.select signer events)
  answer_length : ∀ signer flt, (answer signer flt).length =
    flt.limit.elim (flt.select signer events).length fun limit => min limit (flt.select signer events).length

/-- The assertions of a signer. -/
def Relay.tas (relay : Relay) (signer : Pubkey) : List Event :=
  relay.events.filter fun e => e.kind = taKind && e.pubkey = signer

/-- `_Relay.count`. -/
def Relay.count (relay : Relay) (signer : Pubkey) (flt : Filter) : ℕ := (flt.select signer relay.events).length

/-- The d tag that is taken from an `EVENT` frame. -/
def eventD (e : Event) : Option String := (e.tags.find? fun tag => 1 < tag.length && isNamed "d" tag).bind value?

/-! ## Reading the relay -/

/-- `WINDOW_EVENTS`. -/
def windowEvents : ℕ := 20000

/-- `MAX_SECOND_EVENTS`. -/
def maxSecondEvents : ℕ := 40000

/-- `D_TAG_CHUNK`. -/
def dTagChunk : ℕ := 500

/-- `EXACT_DENSE_CANDIDATES`. -/
def exactDenseCandidates : ℕ := 5000

/-- `DENSE_SAMPLE`. -/
def denseSample : ℕ := 500

/-- `FUTURE_SLACK_SECONDS`. -/
def futureSlackSeconds : ℤ := 1000

/-- What a walk has gathered: the frames it was sent, their d tags, and the dense seconds. -/
structure Gathered where
  received : List Event
  into : Finset String
  dense : List ℕ

section
variable (relay : Relay) (signer : Pubkey)

/-- `_Relay.d_tags`. -/
def Gathered.download (st : Gathered) (flt : Filter) : Gathered :=
  { st with
    received := st.received ++ relay.answer signer flt
    into := st.into ∪ ((relay.answer signer flt).filterMap eventD).toFinset }

/-- The events of a time range. -/
def window (since until_ : ℤ) (limit : Option ℕ) : Filter := ⟨some since, some until_, none, limit⟩

/-- `_walk`, as deep as the fuel goes. -/
def walk : ℕ → ℤ → ℤ → ℕ → Gathered → Option Gathered
  | 0, _, _, _, _ => none
  | fuel + 1, since, until_, n, st =>
    if n = 0 then some st
    else if n ≤ windowEvents ∨ since = until_ then
      if maxSecondEvents < n then some { st with dense := st.dense ++ [n] }
      else some (st.download relay signer (window since until_ (some n)))
    else
      let mid := (since + until_) / 2
      (walk fuel since mid (relay.count signer (window since mid none)) st).bind fun st =>
        walk fuel (mid + 1) until_ (relay.count signer (window (mid + 1) until_ none)) st

/-- The library, as far as a sample needs it. -/
structure Lib where
  /-- `random.sample` -/
  sample : List String → ℕ → List String
  /-- `round(x / y)` -/
  roundDiv : ℕ → ℕ → ℕ

/-- `_dense_present`. -/
def densePresent (lib : Lib) (candidates : List String) : ℕ × Bool :=
  if candidates.length ≤ exactDenseCandidates then
    (((Publish.chunks dTagChunk candidates).map fun chunk =>
      relay.count signer ⟨none, none, some chunk, none⟩).sum, true)
  else
    let sample := lib.sample candidates denseSample
    let found := ((relay.answer signer ⟨none, none, some sample, some sample.length⟩).filterMap eventD).toFinset
    (lib.roundDiv (candidates.length * (found ∩ sample.toFinset).card) sample.length, false)

/-- `RelayView`. -/
structure RelayView where
  total : ℕ
  dTags : Finset String
  denseEvents : ℕ
  densePresent : ℕ
  exact : Bool

/-- `_read`, at `now`. -/
def read (lib : Lib) (expected : Finset String) (now : ℤ) (fuel : ℕ) : Option RelayView :=
  let until_ := now + futureSlackSeconds
  let total := relay.count signer (window 0 until_ none)
  (walk relay signer fuel 0 until_ total ⟨[], ∅, []⟩).map fun st =>
    let candidates := (expected \ st.into).sort (· ≤ ·)
    let present := if st.dense = [] then (0, true) else
      let present := densePresent relay signer lib candidates
      (min present.1 (min st.dense.sum candidates.length), present.2)
    ⟨total, st.into, st.dense.sum, present.1, present.2⟩

/-- `RelayAudit`. -/
structure RelayAudit where
  observer : Pubkey
  signer : Pubkey
  expected : ℕ
  published : ℕ
  baselineDrift : ℕ
  onRelay : ℕ
  missing : ℤ
  orphans : ℤ
  exact : Bool

/-- `audit_observer_relay`, with the expected observees and the published ones. -/
def auditObserverRelay (lib : Lib) (observer : Pubkey) (expected published : Finset String) (now : ℤ) (fuel : ℕ) :
    Option RelayAudit :=
  (read relay signer lib expected now fuel).map fun view => {
    observer := observer
    signer := signer
    expected := expected.card
    published := published.card
    baselineDrift := (symmDiff expected published).card
    onRelay := view.total
    missing := ((expected \ view.dTags).card : ℤ) - view.densePresent
    orphans := ((view.dTags \ expected).card : ℤ) + view.denseEvents - view.densePresent
    exact := view.exact }

/-! ## The walk -/

variable {relay signer}

/-- The events of a time range are the assertions in it. -/
theorem select_window (since until_ : ℤ) (limit : Option ℕ) :
    (window since until_ limit).select signer relay.events =
      Conc.within Event.createdAt since until_ (relay.tas signer) := by
  rw [Filter.select, Conc.within, Relay.tas, List.filter_filter]
  refine List.filter_congr fun e _ => ?_
  simp only [Filter.accepts, window, Option.all_some, Option.all_none, Bool.and_true, Bool.decide_and]
  rw [Bool.and_comm (decide (since ≤ e.createdAt) && decide (e.createdAt ≤ until_)), Bool.and_assoc]

theorem count_window (since until_ : ℤ) (limit : Option ℕ) :
    relay.count signer (window since until_ limit) =
      (Conc.within Event.createdAt since until_ (relay.tas signer)).length := by
  rw [Relay.count, select_window]

/-- A request that asks for all that is there is sent all of it. -/
theorem perm_answer (since until_ : ℤ) :
    (relay.answer signer (window since until_ (some (relay.count signer (window since until_ none))))).Perm
      (Conc.within Event.createdAt since until_ (relay.tas signer)) := by
  rw [← select_window since until_ (some (relay.count signer (window since until_ none)))]
  refine (relay.answer_subperm signer _).perm_of_length_le ?_
  rw [relay.answer_length]
  have hlimit : (window since until_ (some (relay.count signer (window since until_ none)))).limit =
      some (relay.count signer (window since until_ none)) := rfl
  rw [hlimit, Option.elim_some, count_window, select_window, min_self]

variable (relay signer)

/-- A range that is not halved. -/
def small (since until_ : ℤ) : Bool :=
  relay.count signer (window since until_ none) ≤ windowEvents ∨ since = until_

/-- A range that is not downloaded. -/
def isDense (part : ℤ × ℤ) : Bool := maxSecondEvents < relay.count signer (window part.1 part.2 none)

/-- What is done with a range that is not halved. -/
def Gathered.visit (st : Gathered) (part : ℤ × ℤ) : Gathered :=
  let n := relay.count signer (window part.1 part.2 none)
  if isDense relay signer part then { st with dense := st.dense ++ [n] }
  else st.download relay signer (window part.1 part.2 (some n))

variable {relay signer}

theorem small_self (t : ℤ) : small relay signer t t = true := by simp [small]

/-- Where there is nothing, nothing is downloaded. -/
theorem visit_empty {st : Gathered} {part : ℤ × ℤ}
    (h : relay.count signer (window part.1 part.2 none) = 0) : st.visit relay signer part = st := by
  have hanswer : relay.answer signer (window part.1 part.2 (some 0)) = [] := by
    have hperm : (relay.answer signer (window part.1 part.2
        (some (relay.count signer (window part.1 part.2 none))))).Perm
        (Conc.within Event.createdAt part.1 part.2 (relay.tas signer)) := perm_answer part.1 part.2
    rw [h] at hperm
    rw [count_window, List.length_eq_zero_iff] at h
    rw [h] at hperm
    exact hperm.eq_nil
  have hdense : isDense relay signer part = false := by simp [isDense, h]
  simp [Gathered.visit, hdense, h, Gathered.download, hanswer]

/-- **The walk visits the parts into which the range is halved**, in order. -/
theorem walk_eq : ∀ {fuel : ℕ} {since until_ : ℤ} {st : Gathered},
    walk relay signer fuel since until_ (relay.count signer (window since until_ none)) st =
      (Conc.bisect (small relay signer) fuel since until_).map fun parts =>
        parts.foldl (Gathered.visit relay signer) st := by
  intro fuel
  induction fuel with
  | zero => exact fun {_ _ _} => rfl
  | succ fuel ih =>
    intro since until_ st
    rw [walk, Conc.bisect]
    by_cases hzero : relay.count signer (window since until_ none) = 0
    · have hsmall : small relay signer since until_ = true := by simp [small, hzero]
      have hempty : st.visit relay signer (since, until_) = st := visit_empty hzero
      rw [if_pos hzero, if_pos hsmall, Option.map_some, List.foldl_cons, List.foldl_nil, hempty]
    · rw [if_neg hzero]
      by_cases hsmall : relay.count signer (window since until_ none) ≤ windowEvents ∨ since = until_
      · have hleaf : small relay signer since until_ = true := decide_eq_true hsmall
        rw [if_pos hsmall, if_pos hleaf, Option.map_some, List.foldl_cons, List.foldl_nil]
        by_cases hdense : maxSecondEvents < relay.count signer (window since until_ none)
        · have hpart : isDense relay signer (since, until_) = true := decide_eq_true hdense
          rw [if_pos hdense, Gathered.visit, if_pos hpart]
        · rw [if_neg hdense, Gathered.visit, if_neg (by simpa [isDense] using hdense)]
      · have hnot : ¬ small relay signer since until_ = true := by simpa [small] using hsmall
        rw [if_neg hsmall, if_neg hnot]
        dsimp only
        rw [ih]
        cases Conc.bisect (small relay signer) fuel since ((since + until_) / 2) with
        | none => rfl
        | some left =>
          rw [Option.map_some, Option.bind_some, Option.bind_some, ih, Option.map_map]
          refine Option.map_congr fun right _ => ?_
          rw [Function.comp_apply, List.foldl_append]

/-- A range that ends before it begins is empty. -/
theorem range_small (since until_ : ℤ) : since ≤ until_ ∨ small relay signer since until_ = true := by
  rcases le_or_gt since until_ with h | h
  · exact Or.inl h
  · have hempty : Conc.within Event.createdAt since until_ (relay.tas signer) = [] :=
      List.filter_eq_nil_iff.2 fun e _ => by
        rw [decide_eq_true_eq]
        omega
    exact Or.inr (decide_eq_true (Or.inl (by rw [count_window, hempty]; exact Nat.zero_le _)))

/-- **The walk ends.** -/
theorem exists_walk (relay : Relay) (signer : Pubkey) {since until_ : ℤ} (st : Gathered) {fuel : ℕ}
    (hfuel : (until_ - since).toNat < fuel) :
    ∃ parts, Conc.bisect (small relay signer) fuel since until_ = some parts ∧
      walk relay signer fuel since until_ (relay.count signer (window since until_ none)) st =
        some (parts.foldl (Gathered.visit relay signer) st) := by
  obtain ⟨parts, hparts⟩ := Conc.isSome_bisect small_self (range_small since until_) hfuel
  exact ⟨parts, hparts, by rw [walk_eq, hparts]; rfl⟩

/-! ## What is gathered -/

/-- What the parts that are visited add. -/
theorem foldl_visit : ∀ {parts : List (ℤ × ℤ)} {st : Gathered},
    (parts.foldl (Gathered.visit relay signer) st).dense = st.dense ++
      (parts.filter (isDense relay signer)).map (fun part => relay.count signer (window part.1 part.2 none)) ∧
    ∃ got, (parts.foldl (Gathered.visit relay signer) st).received = st.received ++ got ∧
      (parts.foldl (Gathered.visit relay signer) st).into = st.into ∪ (got.filterMap eventD).toFinset ∧
      got.Perm ((parts.filter fun part => !isDense relay signer part).flatMap fun part =>
        Conc.within Event.createdAt part.1 part.2 (relay.tas signer)) := by
  intro parts
  induction parts with
  | nil => exact fun {st} => ⟨by simp, [], by simp, by simp, List.Perm.refl _⟩
  | cons part parts ih =>
    intro st
    rw [List.foldl_cons]
    obtain ⟨hdense, got, hreceived, hinto, hgot⟩ := @ih (st.visit relay signer part)
    by_cases hpart : isDense relay signer part = true
    · have hvisit : st.visit relay signer part =
          { st with dense := st.dense ++ [relay.count signer (window part.1 part.2 none)] } := by
        rw [Gathered.visit, if_pos hpart]
      rw [hvisit] at hdense hreceived hinto ⊢
      refine ⟨?_, got, hreceived, hinto, ?_⟩
      · rw [hdense, List.filter_cons_of_pos hpart, List.map_cons, List.append_assoc]
        rfl
      · rwa [List.filter_cons_of_neg (by simp [hpart])]
    · have hvisit : st.visit relay signer part = st.download relay signer
          (window part.1 part.2 (some (relay.count signer (window part.1 part.2 none)))) := by
        rw [Gathered.visit, if_neg hpart]
      rw [hvisit] at hdense hreceived hinto ⊢
      refine ⟨?_, relay.answer signer (window part.1 part.2
        (some (relay.count signer (window part.1 part.2 none)))) ++ got, ?_, ?_, ?_⟩
      · rw [hdense, List.filter_cons_of_neg hpart]
        rfl
      · rw [hreceived, Gathered.download, List.append_assoc]
      · rw [hinto, Gathered.download, List.filterMap_append, List.toFinset_append, Finset.union_assoc]
      · rw [List.filter_cons_of_pos (by simpa using hpart), List.flatMap_cons]
        exact (perm_answer part.1 part.2).append hgot

/-- **Every assertion is downloaded once, or stands once in a dense second.** -/
structure Visited (tas : List Event) (seconds : List ℤ) (st : Gathered) : Prop where
  nodup : seconds.Nodup
  dense_eq : st.dense = seconds.map fun t => (tas.filter (·.createdAt = t)).length
  dense_gt : ∀ n ∈ st.dense, maxSecondEvents < n
  into_eq : st.into = (st.received.filterMap eventD).toFinset
  once : (st.received ++ seconds.flatMap fun t => tas.filter (·.createdAt = t)).Perm tas

theorem within_self (t : ℤ) (events : List Event) :
    Conc.within Event.createdAt t t events = events.filter (·.createdAt = t) := by
  refine List.filter_congr fun e _ => ?_
  rw [decide_eq_decide]
  omega

/-- **What a walk over the whole range gathers.** -/
theorem visited {until_ : ℤ} (htime : ∀ e ∈ relay.tas signer, 0 ≤ e.createdAt ∧ e.createdAt ≤ until_)
    {fuel : ℕ} {parts : List (ℤ × ℤ)} (hparts : Conc.bisect (small relay signer) fuel 0 until_ = some parts) :
    ∃ seconds, Visited (relay.tas signer) seconds
      (parts.foldl (Gathered.visit relay signer) ⟨[], ∅, []⟩) := by
  obtain ⟨hsmall, hapart⟩ := Conc.parts_bisect small_self (range_small 0 until_) hparts
  obtain ⟨hdense, got, hreceived, hinto, hgot⟩ := @foldl_visit relay signer parts ⟨[], ∅, []⟩
  have hpoint : ∀ part ∈ parts.filter (isDense relay signer), part.1 = part.2 := by
    intro part hpart
    obtain ⟨hmem, hdense⟩ := List.mem_filter.1 hpart
    have hover := of_decide_eq_true hdense
    refine (of_decide_eq_true (hsmall part hmem).1).resolve_left fun hle => absurd (hover.trans_le hle) (by decide)
  have hcount : ∀ part ∈ parts.filter (isDense relay signer),
      Conc.within Event.createdAt part.1 part.2 (relay.tas signer) =
        (relay.tas signer).filter (·.createdAt = part.1) := by
    intro part hpart
    rw [← hpoint part hpart, within_self]
  refine ⟨(parts.filter (isDense relay signer)).map Prod.fst, ?_, ?_, ?_, ?_, ?_⟩
  · rw [List.nodup_iff_pairwise_ne, List.pairwise_map]
    refine (hapart.filter _).imp_of_mem fun ha _ h => ?_
    rw [hpoint _ ha]
    exact h.ne
  · rw [hdense, List.nil_append, List.map_map]
    refine List.map_congr_left fun part hpart => ?_
    rw [count_window, hcount part hpart, Function.comp_apply]
  · intro n hn
    rw [hdense, List.nil_append] at hn
    obtain ⟨part, hpart, rfl⟩ := List.mem_map.1 hn
    exact of_decide_eq_true (List.mem_filter.1 hpart).2
  · rw [hinto, hreceived, List.nil_append, Finset.empty_union]
  · have hall : Conc.within Event.createdAt 0 until_ (relay.tas signer) = relay.tas signer :=
      List.filter_eq_self.2 fun e he => decide_eq_true (htime e he)
    have hperm := Conc.perm_bisect Event.createdAt small_self (relay.tas signer) (range_small 0 until_) hparts
    rw [hall] at hperm
    refine List.Perm.trans ?_ hperm
    have hsplit := (List.filter_append_perm (fun part => !isDense relay signer part) parts).flatMap_right
      fun part => Conc.within Event.createdAt part.1 part.2 (relay.tas signer)
    refine List.Perm.trans ?_ hsplit
    rw [hreceived, List.nil_append, List.flatMap_append, List.flatMap_map]
    simp only [Bool.not_not]
    rw [List.flatMap_congr hcount]
    exact hgot.append_right _

/-! ## Looking up by d tag -/

/-- An event with one d tag, of this value. -/
def HasD (e : Event) (d : String) : Prop := ∃ rest, e.tags.filter (isNamed "d") = [.str "d" :: .str d :: rest]

/-- The d tag of an event that has one. -/
def dTag (e : Event) : String := (eventD e).getD ""

theorem eventD_eq {e : Event} {d : String} (h : HasD e d) : eventD e = some d := by
  obtain ⟨rest, hrest⟩ := h
  have hfind : (e.tags.find? fun tag => 1 < tag.length && isNamed "d" tag) = some (.str "d" :: .str d :: rest) := by
    rw [← List.head?_filter, ← List.filter_filter, hrest]
    simp
  rw [eventD, hfind]
  rfl

theorem dTag_eq {e : Event} {d : String} (h : HasD e d) : dTag e = d := by
  rw [dTag, eventD_eq h, Option.getD_some]

theorem any_d {e : Event} {d : String} (h : HasD e d) (values : List String) :
    (e.tags.any fun tag => isNamed "d" tag && (value? tag).any (· ∈ values)) = decide (d ∈ values) := by
  obtain ⟨rest, hrest⟩ := h
  rw [← List.any_filter, hrest]
  simp [value?, str?]

section
variable (hd : ∀ e ∈ relay.tas signer, ∃ d, HasD e d)
include hd

/-- How many assertions have one of these d tags. -/
theorem count_d (values : List String) : relay.count signer ⟨none, none, some values, none⟩ =
    ((relay.tas signer).map dTag).countP (· ∈ values) := by
  have hselect : Filter.select ⟨none, none, some values, none⟩ signer relay.events =
      (relay.tas signer).filter fun e => dTag e ∈ values := by
    rw [Filter.select, Relay.tas, List.filter_filter]
    refine List.filter_congr fun e he => ?_
    by_cases hta : (decide (e.kind = taKind) && decide (e.pubkey = signer)) = true
    · obtain ⟨d, hd⟩ := hd e (List.mem_filter.2 ⟨he, hta⟩)
      simp only [Filter.accepts, Option.all_none, Option.all_some, any_d hd, dTag_eq hd, hta, Bool.and_true,
        Bool.true_and]
    · simp only [Filter.accepts, Option.all_none, Option.all_some, Bool.and_true, hta, Bool.false_and, Bool.and_false]
  rw [Relay.count, hselect, List.countP_map, List.countP_eq_length_filter]
  rfl

end

/-- What is counted chunk by chunk is counted once, if nothing comes twice. -/
theorem sum_countP {α : Type} [DecidableEq α] {l : List α} : ∀ {parts : List (List α)}, parts.flatten.Nodup →
    (parts.map fun part => l.countP (· ∈ part)).sum = l.countP (· ∈ parts.flatten) := by
  intro parts
  induction parts with
  | nil => simp
  | cons part parts ih =>
    intro hnodup
    rw [List.flatten_cons, List.nodup_append] at hnodup
    rw [List.map_cons, List.sum_cons, ih hnodup.2.1, List.flatten_cons]
    clear ih
    induction l with
    | nil => rfl
    | cons x l ih =>
      rw [List.countP_cons, List.countP_cons, List.countP_cons, ← ih]
      by_cases hx : x ∈ part
      · have hnot : x ∉ parts.flatten := fun h => hnodup.2.2 x hx x h rfl
        simp only [hx, hnot, List.mem_append, decide_true, decide_false, true_or, if_true, Bool.false_eq_true, if_false]
        omega
      · by_cases hx' : x ∈ parts.flatten
        · simp only [hx, hx', List.mem_append, decide_true, decide_false, or_true, if_true, Bool.false_eq_true,
            if_false]
          omega
        · simp only [hx, hx', List.mem_append, or_self, decide_false, Bool.false_eq_true, if_false]
          omega

/-! ## The numbers -/

/-- The expected values that are in neither of two sets. -/
theorem card_missing {α : Type} [DecidableEq α] {expected found dense : Finset α} (h : Disjoint found dense) :
    (expected \ found).card = (expected \ (found ∪ dense)).card + (dense ∩ expected).card := by
  rw [← Finset.card_sdiff_add_card_inter (expected \ found) dense, sdiff_sdiff_left, Finset.sup_eq_union]
  congr 2
  ext x
  simp only [Finset.mem_inter, Finset.mem_sdiff]
  constructor
  · exact fun hx => ⟨hx.2, hx.1.1⟩
  · exact fun hx => ⟨⟨hx.2, fun hf => Finset.disjoint_left.1 h hf hx.1⟩, hx.1⟩

/-- The values of two sets that are not expected. -/
theorem card_orphans {α : Type} [DecidableEq α] {expected found dense : Finset α} (h : Disjoint found dense) :
    (found \ expected).card + dense.card = ((found ∪ dense) \ expected).card + (dense ∩ expected).card := by
  have hunion : (found ∪ dense) \ expected = (found \ expected) ∪ (dense \ expected) := Finset.union_sdiff_distrib _ _ _
  have hdisjoint : Disjoint (found \ expected) (dense \ expected) :=
    h.mono Finset.sdiff_subset Finset.sdiff_subset
  rw [hunion, Finset.card_union_of_disjoint hdisjoint, add_assoc, Finset.card_sdiff_add_card_inter]

/-- The assertions of the signer that a second holds. -/
def denseTas (relay : Relay) (signer : Pubkey) (seconds : List ℤ) : List Event :=
  seconds.flatMap fun t => (relay.tas signer).filter (·.createdAt = t)

theorem sum_dense {seconds : List ℤ} {st : Gathered} (h : Visited (relay.tas signer) seconds st) :
    st.dense.sum = (denseTas relay signer seconds).length := by
  rw [h.dense_eq, denseTas, List.length_flatMap]

/-- **The d tags on the relay**: those that were downloaded and those of the dense seconds, no
    value twice. -/
theorem tags_visited (hd : ∀ e ∈ relay.tas signer, ∃ d, HasD e d) (hone : ((relay.tas signer).map dTag).Nodup)
    {seconds : List ℤ} {st : Gathered} (h : Visited (relay.tas signer) seconds st) :
    st.into = (st.received.map dTag).toFinset ∧
    ((st.received.map dTag) ++ (denseTas relay signer seconds).map dTag).Nodup ∧
    ((st.received.map dTag) ++ (denseTas relay signer seconds).map dTag).Perm ((relay.tas signer).map dTag) := by
  have hperm : ((st.received.map dTag) ++ (denseTas relay signer seconds).map dTag).Perm
      ((relay.tas signer).map dTag) := by
    rw [← List.map_append]
    exact h.once.map dTag
  refine ⟨?_, hperm.nodup_iff.2 hone, hperm⟩
  rw [h.into_eq]
  congr 1
  rw [← List.filterMap_eq_map]
  refine List.filterMap_congr fun e he => ?_
  obtain ⟨d, hd⟩ := hd e (h.once.subset (List.mem_append_left _ he))
  rw [Function.comp_apply, dTag_eq hd, eventD_eq hd]

section
variable (hd : ∀ e ∈ relay.tas signer, ∃ d, HasD e d) (hone : ((relay.tas signer).map dTag).Nodup)
  {seconds : List ℤ} {st : Gathered} (h : Visited (relay.tas signer) seconds st) {expected : Finset String}
include hd hone h

/-- **What is looked up** are the expected observees of the dense seconds. -/
theorem lookup_dense :
    ((Publish.chunks dTagChunk ((expected \ st.into).sort (· ≤ ·))).map fun chunk =>
      relay.count signer ⟨none, none, some chunk, none⟩).sum =
      (((denseTas relay signer seconds).map dTag).toFinset ∩ expected).card := by
  obtain ⟨hinto, hnodup, hperm⟩ := tags_visited hd hone h
  rw [List.nodup_append] at hnodup
  have hflat := Publish.flatten_chunks (show 0 < dTagChunk by decide) ((expected \ st.into).sort (· ≤ ·))
  have hcount : ∀ chunk, relay.count signer ⟨none, none, some chunk, none⟩ =
      ((relay.tas signer).map dTag).countP (· ∈ chunk) := count_d hd
  simp only [hcount]
  rw [sum_countP (hflat.symm ▸ Finset.sort_nodup _ _), hflat, ← hperm.countP_eq, List.countP_append]
  have hzero : (st.received.map dTag).countP (fun x => decide (x ∈ (expected \ st.into).sort (· ≤ ·))) = 0 := by
    rw [List.countP_eq_zero]
    intro x hx
    rw [decide_eq_true_eq, Finset.mem_sort, Finset.mem_sdiff, hinto, List.mem_toFinset]
    exact fun hnot => hnot.2 hx
  rw [hzero, zero_add, List.countP_eq_length_filter, ← List.toFinset_card_of_nodup (hnodup.2.1.filter _)]
  congr 1
  ext x
  rw [List.mem_toFinset, List.mem_filter, decide_eq_true_eq, Finset.mem_sort, Finset.mem_sdiff, Finset.mem_inter,
    List.mem_toFinset, hinto, List.mem_toFinset]
  exact ⟨fun hx => ⟨hx.1, hx.2.1⟩, fun hx => ⟨hx.1, hx.2, fun hr => hnodup.2.2 x hr x hx.1 rfl⟩⟩

/-- The observees without an assertion, and the assertions of others. -/
theorem numbers (expected : Finset String) :
    (expected.filter fun x => ∀ e ∈ relay.tas signer, dTag e ≠ x).card +
        (((denseTas relay signer seconds).map dTag).toFinset ∩ expected).card = (expected \ st.into).card ∧
    ((relay.tas signer).filter fun e => dTag e ∉ expected).length +
        (((denseTas relay signer seconds).map dTag).toFinset ∩ expected).card =
      (st.into \ expected).card + st.dense.sum := by
  obtain ⟨hinto, hnodup, hperm⟩ := tags_visited hd hone h
  rw [List.nodup_append] at hnodup
  have hdisjoint : Disjoint st.into ((denseTas relay signer seconds).map dTag).toFinset := by
    rw [Finset.disjoint_left]
    intro x hx hx'
    rw [hinto, List.mem_toFinset] at hx
    exact hnodup.2.2 x hx x (List.mem_toFinset.1 hx') rfl
  have hall : st.into ∪ ((denseTas relay signer seconds).map dTag).toFinset =
      ((relay.tas signer).map dTag).toFinset := by
    rw [hinto, ← List.toFinset_append]
    exact List.toFinset_eq_of_perm _ _ hperm
  constructor
  · rw [card_missing hdisjoint, hall]
    congr 2
    ext x
    simp only [Finset.mem_filter, Finset.mem_sdiff, List.mem_toFinset, List.mem_map, not_exists, not_and]
  · have horphans : ((relay.tas signer).filter fun e => dTag e ∉ expected).length =
        (((relay.tas signer).map dTag).toFinset \ expected).card := by
      have hfilter : ((relay.tas signer).map dTag).filter (· ∉ expected) =
          ((relay.tas signer).filter fun e => dTag e ∉ expected).map dTag := List.filter_map
      rw [← List.length_map dTag, ← hfilter, ← List.toFinset_card_of_nodup (hone.filter _)]
      congr 1
      ext x
      rw [List.mem_toFinset, List.mem_filter, decide_eq_true_eq, Finset.mem_sdiff, List.mem_toFinset]
    have hdense : st.dense.sum = ((denseTas relay signer seconds).map dTag).toFinset.card := by
      rw [sum_dense h, List.toFinset_card_of_nodup hnodup.2.1, List.length_map]
    rw [hdense, card_orphans hdisjoint, hall, horphans]

/-- **What is read of the relay**, from what a walk has gathered. -/
theorem exists_view (expected : Finset String) (lib : Lib) (now : ℤ) :
    ∃ view, (∀ fuel, walk relay signer fuel 0 (now + futureSlackSeconds)
        (relay.count signer (window 0 (now + futureSlackSeconds) none)) ⟨[], ∅, []⟩ = some st →
        read relay signer lib expected now fuel = some view) ∧
      view.dTags = st.into ∧ view.denseEvents = st.dense.sum ∧
      (view.exact = true →
        view.densePresent = (((denseTas relay signer seconds).map dTag).toFinset ∩ expected).card) := by
  refine ⟨_, fun fuel hwalk => by rw [read, hwalk]; rfl, rfl, rfl, ?_⟩
  dsimp only
  by_cases hdense : st.dense = []
  · intro _
    have hnil : denseTas relay signer seconds = [] := by
      rw [← List.length_eq_zero_iff, ← sum_dense h, hdense]
      rfl
    simp [hdense, hnil]
  · rw [if_neg hdense, densePresent]
    split_ifs with hfew
    · intro _
      dsimp only
      have hle : (((denseTas relay signer seconds).map dTag).toFinset ∩ expected).card ≤ st.dense.sum := by
        rw [sum_dense h, ← List.length_map dTag]
        exact (Finset.card_le_card Finset.inter_subset_left).trans (List.toFinset_card_le _)
      have hle' : (((denseTas relay signer seconds).map dTag).toFinset ∩ expected).card ≤
          ((expected \ st.into).sort (· ≤ ·)).length := by
        have hnumbers := (numbers hd hone h expected).1
        rw [Finset.length_sort]
        omega
      rw [lookup_dense hd hone h]
      omega
    · exact fun hfalse => by cases hfalse

end

/-- **The audit is exact when it says so.**  The walk ends, whatever it is given to do, and
    every assertion is downloaded once or stands once in a dense second that is counted.  If
    the audit says it is exact, then `missing` is how many expected observees have no
    assertion on the relay, and `orphans` how many assertions are not expected. -/
theorem audit_exact (relay : Relay) (signer : Pubkey) (lib : Lib) (observer : Pubkey)
    (expected published : Finset String) (now : ℤ) (hd : ∀ e ∈ relay.tas signer, ∃ d, HasD e d)
    (hone : ((relay.tas signer).map dTag).Nodup)
    (htime : ∀ e ∈ relay.tas signer, 0 ≤ e.createdAt ∧ e.createdAt ≤ now + futureSlackSeconds) :
    ∃ fuel₀ seconds st audit, Visited (relay.tas signer) seconds st ∧
      (∀ fuel ≥ fuel₀, walk relay signer fuel 0 (now + futureSlackSeconds)
        (relay.count signer (window 0 (now + futureSlackSeconds) none)) ⟨[], ∅, []⟩ = some st) ∧
      (∀ fuel ≥ fuel₀, auditObserverRelay relay signer lib observer expected published now fuel = some audit) ∧
      (audit.exact = true →
        audit.missing = (expected.filter fun x => ∀ e ∈ relay.tas signer, dTag e ≠ x).card ∧
        audit.orphans = ((relay.tas signer).filter fun e => dTag e ∉ expected).length) := by
  obtain ⟨parts, hparts, -⟩ := exists_walk relay signer ⟨[], ∅, []⟩
    (Nat.lt_succ_self (now + futureSlackSeconds - 0).toNat)
  obtain ⟨seconds, hvisited⟩ := visited htime hparts
  have hwalk : ∀ fuel ≥ (now + futureSlackSeconds - 0).toNat + 1, walk relay signer fuel 0 (now + futureSlackSeconds)
      (relay.count signer (window 0 (now + futureSlackSeconds) none)) ⟨[], ∅, []⟩ =
        some (parts.foldl (Gathered.visit relay signer) ⟨[], ∅, []⟩) := by
    intro fuel hfuel
    rw [walk_eq, Conc.bisect_mono hfuel hparts]
    rfl
  obtain ⟨view, hview, htags, hevents, hpresent⟩ := exists_view hd hone hvisited expected lib now
  obtain ⟨hmissing, horphans⟩ := numbers hd hone hvisited expected
  refine ⟨_, seconds, _, _, hvisited, hwalk, fun fuel hfuel => by
    rw [auditObserverRelay, hview fuel (hwalk fuel hfuel)]; rfl, fun hexact => ?_⟩
  have hcount := hpresent hexact
  dsimp only
  rw [htags, hevents, hcount]
  omega

/-- A relay that answers with what comes first, as far as the limit goes. -/
def Relay.ofEvents (events : List Event) : Relay where
  events := events
  answer signer flt := flt.limit.elim (flt.select signer events) fun limit => (flt.select signer events).take limit
  answer_subperm signer flt := by
    cases flt.limit with
    | none => exact List.Subperm.refl _
    | some limit => exact (List.take_sublist _ _).subperm
  answer_length signer flt := by
    cases flt.limit with
    | none => rfl
    | some limit => exact List.length_take

/-- Where only so few are expected, every dense second is looked into. -/
theorem exact_of_few {relay : Relay} {signer observer : Pubkey} {lib : Lib} {expected published : Finset String}
    {now : ℤ} {fuel : ℕ} {audit : RelayAudit} (hfew : expected.card ≤ exactDenseCandidates)
    (h : auditObserverRelay relay signer lib observer expected published now fuel = some audit) :
    audit.exact = true := by
  obtain ⟨view, hview, rfl⟩ := Option.map_eq_some_iff.1 h
  obtain ⟨st, -, rfl⟩ := Option.map_eq_some_iff.1 hview
  dsimp only
  split_ifs with hdense
  · rfl
  · have hcandidates : ((expected \ st.into).sort (· ≤ ·)).length ≤ exactDenseCandidates := by
      rw [Finset.length_sort]
      exact (Finset.card_le_card Finset.sdiff_subset).trans hfew
    rw [densePresent, if_pos hcandidates]

/-- An assertion of the signer. -/
def sampleTa (createdAt : ℤ) (d : String) : Event := ⟨d, "signer", 30382, createdAt, [[.str "d", .str d]], ""⟩

/-- The d tags of a dense second. -/
def denseD (i : ℕ) : String := String.ofList (List.replicate i 'a')

theorem denseD_injective : Function.Injective denseD := by
  intro i j h
  have hlist := congrArg String.toList h
  rw [denseD, denseD, String.toList_ofList, String.toList_ofList] at hlist
  simpa using congrArg List.length hlist

theorem denseD_ne {i : ℕ} {c : Char} {d : String} (hd : d.toList.head? = some c) (hc : c ≠ 'a') : denseD i ≠ d := by
  intro h
  rw [← h, denseD, String.toList_ofList] at hd
  exact hc (List.eq_of_mem_replicate (List.mem_of_mem_head? hd))

/-- Two assertions, one of them expected, and a second with more than are downloaded of one second. -/
def crowdedTas : List Event :=
  sampleTa 3 "x" :: sampleTa 4 "y" :: (List.range (maxSecondEvents + 1)).map fun i => sampleTa 7 (denseD i)

theorem dTag_sampleTa (createdAt : ℤ) (d : String) : dTag (sampleTa createdAt d) = d := rfl

theorem hasD_sampleTa (createdAt : ℤ) (d : String) : HasD (sampleTa createdAt d) d := ⟨[], rfl⟩

theorem mem_crowdedTas {e : Event} :
    e ∈ crowdedTas ↔ e = sampleTa 3 "x" ∨ e = sampleTa 4 "y" ∨ ∃ i ≤ maxSecondEvents, sampleTa 7 (denseD i) = e := by
  simp [crowdedTas, Nat.lt_succ_iff]

theorem tas_crowded : (Relay.ofEvents crowdedTas).tas "signer" = crowdedTas := by
  refine List.filter_eq_self.2 fun e he => ?_
  rcases mem_crowdedTas.1 he with rfl | rfl | ⟨i, -, rfl⟩ <;> rfl

theorem map_dTag_crowdedTas :
    crowdedTas.map dTag = "x" :: "y" :: (List.range (maxSecondEvents + 1)).map denseD := by
  rw [crowdedTas, List.map_cons, List.map_cons, List.map_map]
  rfl

theorem nodup_crowdedTas : (crowdedTas.map dTag).Nodup := by
  have hx : ∀ i, denseD i ≠ "x" := fun i => denseD_ne (c := 'x') rfl (by decide)
  have hy : ∀ i, denseD i ≠ "y" := fun i => denseD_ne (c := 'y') rfl (by decide)
  rw [map_dTag_crowdedTas, List.nodup_cons, List.nodup_cons]
  refine ⟨?_, ?_, List.nodup_range.map denseD_injective⟩
  · simp [hx]
  · simp [hy]

/-- **A crowded relay.**  One of the three observees that are expected has no assertion, and
    all but two of the assertions are orphans. -/
theorem crowded_audit :
    ∃ fuel audit, auditObserverRelay (Relay.ofEvents crowdedTas) "signer" ⟨fun l n => l.take n, fun x y => x / y⟩
        "observer" {"x", denseD 1, "z"} ∅ 100 fuel = some audit ∧
      audit.exact = true ∧ audit.missing = 1 ∧ audit.orphans = 40001 := by
  obtain ⟨fuel, -, -, audit, -, -, haudit, hexact⟩ := audit_exact (Relay.ofEvents crowdedTas) "signer"
    ⟨fun l n => l.take n, fun x y => x / y⟩ "observer" {"x", denseD 1, "z"} ∅ 100
    (by
      rw [tas_crowded]
      intro e he
      rcases mem_crowdedTas.1 he with rfl | rfl | ⟨i, -, rfl⟩
      · exact ⟨_, hasD_sampleTa 3 "x"⟩
      · exact ⟨_, hasD_sampleTa 4 "y"⟩
      · exact ⟨_, hasD_sampleTa 7 (denseD i)⟩)
    (by rw [tas_crowded]; exact nodup_crowdedTas)
    (by
      rw [tas_crowded]
      intro e he
      rcases mem_crowdedTas.1 he with rfl | rfl | ⟨i, -, rfl⟩
      · decide
      · decide
      · exact ⟨(by decide : (0 : ℤ) ≤ 7), (by decide : (7 : ℤ) ≤ 100 + futureSlackSeconds)⟩)
  have hfew : Finset.card {"x", denseD 1, "z"} ≤ exactDenseCandidates :=
    Finset.card_le_three.trans (by decide)
  have hsaid := exact_of_few hfew (haudit fuel le_rfl)
  obtain ⟨hmissing, horphans⟩ := hexact hsaid
  rw [tas_crowded] at hmissing horphans
  have hx : ∀ i, denseD i ≠ "x" := fun i => denseD_ne (c := 'x') rfl (by decide)
  have hy : ∀ i, denseD i ≠ "y" := fun i => denseD_ne (c := 'y') rfl (by decide)
  have hz : ∀ i, denseD i ≠ "z" := fun i => denseD_ne (c := 'z') rfl (by decide)
  have hmiss : (({"x", denseD 1, "z"} : Finset String).filter fun x => ∀ e ∈ crowdedTas, dTag e ≠ x) = {"z"} := by
    ext x
    simp only [Finset.mem_filter, Finset.mem_insert, Finset.mem_singleton]
    constructor
    · rintro ⟨rfl | rfl | rfl, hnone⟩
      · exact absurd rfl (hnone (sampleTa 3 "x") (mem_crowdedTas.2 (Or.inl rfl)))
      · exact absurd rfl (hnone (sampleTa 7 (denseD 1)) (mem_crowdedTas.2 (Or.inr (Or.inr ⟨1, by decide, rfl⟩))))
      · rfl
    · rintro rfl
      refine ⟨Or.inr (Or.inr rfl), fun e he => ?_⟩
      rcases mem_crowdedTas.1 he with rfl | rfl | ⟨i, -, rfl⟩
      · rw [dTag_sampleTa]
        decide
      · rw [dTag_sampleTa]
        decide
      · exact hz i
  have horph : (crowdedTas.filter fun e => dTag e ∉ ({"x", denseD 1, "z"} : Finset String)).length = 40001 := by
    have hdense : ((List.range (maxSecondEvents + 1)).filter fun i => denseD i ∉ ({"x", denseD 1, "z"} : Finset String)) =
        (List.range (maxSecondEvents + 1)).erase 1 := by
      rw [List.nodup_range.erase_eq_filter]
      refine List.filter_congr fun i _ => Bool.eq_iff_iff.2 ?_
      simp [hx, hz, denseD_injective.eq_iff]
    rw [crowdedTas, List.filter_cons_of_neg (by simp [dTag_sampleTa]),
      List.filter_cons_of_pos (by simp [dTag_sampleTa, (hy 1).symm]), List.length_cons, List.filter_map,
      List.length_map]
    have hlength := List.length_erase_of_mem (List.mem_range.2 (by decide : 1 < maxSecondEvents + 1))
    rw [← hdense, List.length_range, Nat.add_sub_cancel] at hlength
    exact congrArg (· + 1) hlength
  rw [hmiss, Finset.card_singleton] at hmissing
  rw [horph] at horphans
  exact ⟨fuel, audit, haudit fuel le_rfl, hsaid, hmissing, horphans⟩

end

end Audit

end BrainstormServer
