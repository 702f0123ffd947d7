/-
  When the initial sync is complete.

  The events are numbered from the newest on (`rank`), so what a turn of the loop sees is
  an interval of numbers, and the loop is the reader of `Conc.Paging`.  If the columns hold
  what it stores, it comes to its end (`Relay.At.ends`).  Whether it has sent all events by
  then depends on their times:

  * `complete_iff`: it has exactly if they are at most `LIMIT`, or the newest `LIMIT` end
    with a second, the ones below go on seamlessly, and no second floods a page;
  * `dense_second_is_lost`: otherwise events are left out.
-/
import BrainstormServer.Conc.Tables
import BrainstormServer.Transfer.Loop
import Mathlib.Data.List.Induction

namespace BrainstormServer

namespace Transfer

open Conc.Paging

variable {ι : Type} [DecidableEq ι]

theorem limit_pos : 0 < limit := by decide

namespace Relay

section
variable (r : Relay ι)

omit [DecidableEq ι] in
/-- How many events are later than a second. -/
def timeline : Timeline := Timeline.ofList r.createdAt r.events r.two_le

/-- The number of an event. -/
def rank (e : ι) : ℕ := r.events.idxOf e

/-- What the loop sees in a turn: the events numbered from `lo` to `hi`. -/
def Sees (v : Loop ι) (lo hi : ℕ) : Prop :=
  ∀ e, e ∈ r.eventsOf v ↔ e ∈ r.events ∧ lo ≤ r.rank e ∧ r.rank e < hi

/-- The loop stands at `u`, its page ends at `hi`, it knows the events before `k`, and it has
    counted `n`. -/
structure Stands (s : State ι) (u hi k n : ℕ) : Prop where
  pos : 1 ≤ u
  fits : (⟨false, u, n⟩ : Status).fits = true
  status : s.status = some ⟨false, u, n⟩
  loop : ∃ v, s.loop = some v ∧ v.untilTs = some u ∧ v.totalEvents = n ∧
    r.Sees v (r.timeline.newer u) hi ∧ v.seen ⊆ s.sent ∧
    ∀ e ∈ r.events, r.timeline.newer u ≤ r.rank e → (e ∈ v.seen ↔ r.rank e < k)
  raised : s.raised = false

omit [DecidableEq ι] in
/-- What is still to be counted fits into the column. -/
def Room (u hi k n : ℕ) : Prop := ∀ m, r.timeline.Reads limit u hi k m → n + m ≤ 2147483647

/-- The loop stands at `u`, its page ends at `hi`, and no statement will be refused. -/
def At (s : State ι) (u hi : ℕ) : Prop := ∃ k n, r.Stands s u hi k n ∧ r.Room u hi k n

omit [DecidableEq ι] in
/-- Where the loop stands after the first page, whose oldest second is `o`. -/
def first (o : ℕ) : ℕ := if r.timeline.newer o = 0 then o - 1 else o

omit [DecidableEq ι] in
/-- The columns hold what the loop stores. -/
def FitsColumns : Prop := ∀ o, r.timeline.Oldest (min limit r.timeline.total) o →
  r.first o ≤ 2147483647 ∧ r.Room (r.first o) limit limit (min limit r.timeline.total)

omit [DecidableEq ι] in
/-- Nothing is stored yet. -/
structure Fresh (s : State ι) : Prop where
  status : s.status = none
  loop : s.loop = some ⟨none, 0, [], none⟩
  raised : s.raised = false

omit [DecidableEq ι] in
/-- A statement was refused. -/
structure Refused (s : State ι) : Prop where
  loop : s.loop = none
  raised : s.raised = true

omit [DecidableEq ι] in
/-- The loop has come to its end. -/
structure Done (s : State ι) : Prop where
  completed : Completed s
  loop : s.loop = none
  raised : s.raised = false

end

variable {r : Relay ι} {e : ι} {s : State ι} {v : Loop ι} {u hi lo o k n : ℕ}

/-! ## The numbers of the events -/

theorem rank_lt_newer (he : e ∈ r.events) : r.rank e < r.timeline.newer u ↔ u < r.createdAt e :=
  idxOf_lt_countP r.sorted he u

theorem newer_le_rank (he : e ∈ r.events) : r.timeline.newer u ≤ r.rank e ↔ r.createdAt e ≤ u := by
  rw [← not_lt, rank_lt_newer he, not_lt]

theorem rank_lt_total (he : e ∈ r.events) : r.rank e < r.timeline.total :=
  List.idxOf_lt_length_iff.2 he

theorem exists_rank {i : ℕ} (hi : i < r.timeline.total) : ∃ e ∈ r.events, r.rank e = i :=
  ⟨r.events.get ⟨i, hi⟩, List.get_mem _ _, r.nodup.idxOf_getElem i hi⟩

omit [DecidableEq ι] in
theorem total_pos : 0 < r.timeline.total := List.length_pos_iff.2 r.nonempty

theorem mem_fetch_some : e ∈ r.fetch (some u) ↔
    e ∈ r.events ∧ r.createdAt e ≤ u ∧ r.rank e < r.timeline.newer u + limit :=
  mem_page r.sorted u limit

/-- The newest `n` events. -/
theorem mem_take : e ∈ r.events.take n ↔ e ∈ r.events ∧ r.rank e < n := by
  constructor
  · intro h
    have he := List.mem_of_mem_take h
    exact ⟨he, (List.mem_take_iff_idxOf_lt he).1 h⟩
  · rintro ⟨he, hrank⟩
    exact (List.mem_take_iff_idxOf_lt he).2 hrank

theorem mem_fetch_none : e ∈ r.fetch none ↔ e ∈ r.events ∧ r.rank e < limit := mem_take

omit [DecidableEq ι] in
theorem fits_iff {b : Bool} : (⟨b, u, n⟩ : Status).fits = true ↔ u ≤ 2147483647 ∧ n ≤ 2147483647 := by
  simp only [Status.fits, Bool.and_eq_true, fitsInteger_iff]
  omega

/-- Events without repetition, known by their numbers. -/
theorem length_of_ranks {l : List ι} (hnodup : l.Nodup)
    (h : ∀ e, e ∈ l ↔ e ∈ r.events ∧ lo ≤ r.rank e ∧ r.rank e < hi) :
    l.length = min hi r.timeline.total - lo := by
  have hnodup' : ((r.events.take hi).drop lo).Nodup :=
    r.nodup.sublist ((List.drop_sublist lo _).trans (List.take_sublist hi _))
  have hperm : l.Perm ((r.events.take hi).drop lo) := by
    refine (List.perm_ext_iff_of_nodup hnodup hnodup').2 fun e => ?_
    rw [h]
    have hall : e ∈ r.events.take hi ↔ e ∈ r.events.take (min lo hi) ∨ e ∈ (r.events.take hi).drop lo := by
      rw [← List.take_take, ← List.mem_append, List.take_append_drop]
    have hapart : e ∈ r.events.take (min lo hi) → e ∉ (r.events.take hi).drop lo := by
      rw [← List.take_take]
      have hone : ((r.events.take hi).take lo ++ (r.events.take hi).drop lo).Nodup := by
        rw [List.take_append_drop]
        exact r.nodup.sublist (List.take_sublist hi _)
      exact fun htake hdrop => (List.nodup_append.1 hone).2.2 e htake e hdrop rfl
    rw [mem_take, mem_take] at hall
    rw [mem_take] at hapart
    constructor
    · rintro ⟨he, hge, hlt⟩
      exact (hall.1 ⟨he, hlt⟩).resolve_left fun hbefore => by omega
    · intro hdrop
      obtain ⟨he, hlt⟩ := hall.2 (Or.inr hdrop)
      refine ⟨he, ?_, hlt⟩
      by_contra hbefore
      exact hapart ⟨he, by omega⟩ hdrop
  rw [hperm.length_eq, List.length_drop, List.length_take]
  rfl

/-! ## What a turn sees -/

/-- Before anything is stored: the newest events. -/
theorem sees_first : r.Sees ⟨none, 0, [], none⟩ 0 limit := by
  intro e
  show e ∈ r.fetch none ↔ _
  rw [mem_fetch_none]
  simp

/-- A page, of which only what is not later than `u` is used. -/
theorem sees_of_page {page : List ι} (hu : v.untilTs = some u) (hpos : 1 ≤ u)
    (hpage : v.nextFetch.getD (r.fetch v.untilTs) = page)
    (hmem : ∀ e ∈ r.events, r.createdAt e ≤ u → (e ∈ page ↔ r.rank e < hi))
    (hsub : ∀ e ∈ page, e ∈ r.events) : r.Sees v (r.timeline.newer u) hi := by
  intro e
  have htruthy : truthy (some u) = true := by
    simp only [truthy, Option.getD_some, decide_eq_true_eq]
    omega
  have hevents : r.eventsOf v = page.filter fun e => r.createdAt e ≤ u := by
    unfold eventsOf
    rw [hpage, hu]
    simp only [htruthy, if_true, Option.getD_some]
  rw [hevents, List.mem_filter, decide_eq_true_eq]
  constructor
  · rintro ⟨he, hdate⟩
    have he' := hsub e he
    exact ⟨he', (newer_le_rank he').2 hdate, (hmem e he' hdate).1 he⟩
  · rintro ⟨he, hlo, hhi⟩
    have hdate := (newer_le_rank he).1 hlo
    exact ⟨(hmem e he hdate).2 hhi, hdate⟩

/-- The page begins at a second `b` that is not before `u`. -/
theorem sees_some {b : ℕ} (hu : v.untilTs = some u) (hpos : 1 ≤ u) (hub : u ≤ b)
    (hpage : v.nextFetch.getD (r.fetch v.untilTs) = r.fetch (some b)) :
    r.Sees v (r.timeline.newer u) (r.timeline.newer b + limit) := by
  refine sees_of_page hu hpos hpage (fun e he hdate => ?_) fun e he => (mem_fetch_some.1 he).1
  rw [mem_fetch_some]
  exact ⟨fun h => h.2.2, fun h => ⟨he, hdate.trans hub, h⟩⟩

/-- The page has the newest events. -/
theorem sees_none (hu : v.untilTs = some u) (hpos : 1 ≤ u)
    (hpage : v.nextFetch.getD (r.fetch v.untilTs) = r.fetch none) :
    r.Sees v (r.timeline.newer u) limit := by
  refine sees_of_page hu hpos hpage (fun e he _ => ?_) fun e he => (mem_fetch_none.1 he).1
  rw [mem_fetch_none]
  exact ⟨fun h => h.2, fun h => ⟨he, h⟩⟩

/-- The oldest event that is seen. -/
theorem Sees.oldest (h : r.Sees v lo hi) (hlo : lo < min hi r.timeline.total) :
    ∃ o, r.timeline.Oldest (min hi r.timeline.total) o ∧
      ((r.eventsOf v).map r.createdAt).min? = some o ∧
      ((r.eventsOf v).countP (fun e => r.createdAt e = o) = (r.eventsOf v).length ↔
        r.timeline.newer o ≤ lo) := by
  have hm : min hi r.timeline.total - 1 < r.timeline.total := by omega
  obtain ⟨e, he, hrank⟩ := exists_rank hm
  have htwo := r.two_le e he
  have hold : r.timeline.Oldest (min hi r.timeline.total) (r.createdAt e) := by
    refine ⟨htwo, ?_, ?_⟩
    · have := (newer_le_rank (u := r.createdAt e) he).2 le_rfl
      omega
    · have := (rank_lt_newer (u := r.createdAt e - 1) he).2 (by omega)
      omega
  have hmin : ∀ f ∈ r.eventsOf v, r.createdAt e ≤ r.createdAt f := by
    intro f hf
    obtain ⟨hf, -, hfhi⟩ := (h f).1 hf
    have hle := hold.le
    have := rank_lt_total hf
    have := (rank_lt_newer (u := r.createdAt e - 1) hf).1 (by omega)
    omega
  have hseen : e ∈ r.eventsOf v := (h e).2 ⟨he, by omega, by omega⟩
  refine ⟨r.createdAt e, hold, ?_, ?_⟩
  · rw [List.min?_eq_some_iff]
    refine ⟨List.mem_map_of_mem hseen, fun b hb => ?_⟩
    obtain ⟨f, hf, rfl⟩ := List.mem_map.1 hb
    exact hmin f hf
  · rw [List.countP_eq_length]
    constructor
    · intro hall
      obtain ⟨f, hf, hfrank⟩ := exists_rank (r := r) (i := lo) (by omega)
      have hdate := hall f ((h f).2 ⟨hf, by omega, by omega⟩)
      rw [decide_eq_true_eq] at hdate
      rw [← hfrank, newer_le_rank hf, hdate]
    · intro hle f hf
      rw [decide_eq_true_eq]
      obtain ⟨hf', hflo, -⟩ := (h f).1 hf
      have := (newer_le_rank (u := r.createdAt e) hf').1 (hle.trans hflo)
      have := hmin f hf
      omega

theorem Sees.nothing (h : r.Sees v lo hi) (hlo : min hi r.timeline.total ≤ lo) : r.eventsOf v = [] := by
  rw [List.eq_nil_iff_forall_not_mem]
  intro e he
  obtain ⟨he, hge, hlt⟩ := (h e).1 he
  have := rank_lt_total he
  omega

/-- Everything that is seen has been sent after the turn, and nothing else. -/
theorem mem_sent_newEvents (hseen : v.seen ⊆ s.sent) (h : r.Sees v lo hi) :
    e ∈ s.sent ++ newEvents v (r.eventsOf v) ↔
      e ∈ s.sent ∨ (e ∈ r.events ∧ lo ≤ r.rank e ∧ r.rank e < hi) := by
  rw [List.mem_append, newEvents, List.mem_eraseDups, List.mem_filter, decide_eq_true_eq, h e]
  constructor
  · rintro (hsent | ⟨hev, -⟩)
    · exact Or.inl hsent
    · exact Or.inr hev
  · rintro (hsent | hev)
    · exact Or.inl hsent
    · by_cases hold : e ∈ v.seen
      · exact Or.inl (hseen hold)
      · exact Or.inr ⟨hev, hold⟩

/-- How many events are sent in a turn, and what is known after it. -/
theorem newEvents_spec (h : r.Sees v lo hi)
    (hknown : ∀ e ∈ r.events, lo ≤ r.rank e → (e ∈ v.seen ↔ r.rank e < k)) :
    (newEvents v (r.eventsOf v)).length = min hi r.timeline.total - max lo k ∧
    ∀ e ∈ r.events, lo ≤ r.rank e →
      (e ∈ v.seen ++ newEvents v (r.eventsOf v) ↔ r.rank e < max k hi) := by
  have hmem : ∀ e, e ∈ newEvents v (r.eventsOf v) ↔
      e ∈ r.events ∧ max lo k ≤ r.rank e ∧ r.rank e < hi := by
    intro e
    rw [newEvents, List.mem_eraseDups, List.mem_filter, decide_eq_true_eq, h e]
    constructor
    · rintro ⟨⟨he, hge, hlt⟩, hnot⟩
      rw [hknown e he hge] at hnot
      exact ⟨he, by omega, hlt⟩
    · rintro ⟨he, hge, hlt⟩
      refine ⟨⟨he, by omega, hlt⟩, ?_⟩
      rw [hknown e he (by omega)]
      omega
  refine ⟨length_of_ranks ?_ hmem, fun e he hge => ?_⟩
  · rw [newEvents, ← Conc.firsts_eq_eraseDups]
    exact Conc.nodup_firsts _
  · rw [List.mem_append, hmem, hknown e he hge]
    constructor
    · rintro (hlt | ⟨-, -, hlt⟩) <;> omega
    · intro hlt
      by_cases hk : r.rank e < k
      · exact Or.inl hk
      · exact Or.inr ⟨he, by omega, by omega⟩

/-! ## One turn -/

/-- **The first turn.** -/
theorem Fresh.turn_cases (h : Fresh s) : ∃ o, r.timeline.Oldest (min limit r.timeline.total) o ∧
    (∀ e, e ∈ (r.iterate s).sent ↔ e ∈ s.sent ∨ (e ∈ r.events ∧ r.rank e < limit)) ∧
    (r.first o ≤ 2147483647 →
      r.Stands (r.iterate s) (r.first o) limit limit (min limit r.timeline.total)) ∧
    (2147483647 < r.first o → Refused (r.iterate s)) := by
  have hsees := sees_first (r := r)
  have hlimit : limit = 300 := rfl
  have htotal := total_pos (r := r)
  obtain ⟨o, ho, hmin, hsame⟩ := hsees.oldest (by omega)
  rw [Nat.le_zero] at hsame
  have hone := ho.one_lt
  obtain ⟨hlength, hseen⟩ := newEvents_spec (k := 0) hsees (by simp)
  rw [max_self, Nat.sub_zero] at hlength
  have hturn : r.iterate s = State.upsertNostrTransferStatus
      { s with sent := s.sent ++ newEvents ⟨none, 0, [], none⟩ (r.eventsOf ⟨none, 0, [], none⟩) }
      ⟨false, r.first o, min limit r.timeline.total⟩
      (some ⟨some (r.first o), min limit r.timeline.total,
        [] ++ newEvents ⟨none, 0, [], none⟩ (r.eventsOf ⟨none, 0, [], none⟩), some (r.fetch none)⟩) := by
    unfold iterate
    rw [h.loop]
    simp only [hmin, hsame, hlength, Nat.zero_add]
    rfl
  have hsent : (r.iterate s).sent =
      s.sent ++ newEvents ⟨none, 0, [], none⟩ (r.eventsOf ⟨none, 0, [], none⟩) := by
    rw [hturn, State.upsertNostrTransferStatus]
    split_ifs <;> rfl
  have hpos : 1 ≤ r.first o := by
    unfold first
    split_ifs <;> omega
  refine ⟨o, ho, fun e => ?_, fun hfits => ?_, fun hmore => ?_⟩
  · rw [hsent]
    refine (mem_sent_newEvents (List.nil_subset _) hsees).trans ?_
    simp
  · have hstatus : (⟨false, r.first o, min limit r.timeline.total⟩ : Status).fits = true :=
      fits_iff.2 ⟨hfits, by omega⟩
    rw [State.upsertNostrTransferStatus, if_pos hstatus] at hturn
    rw [hturn]
    refine ⟨hpos, hstatus, rfl, ⟨_, rfl, rfl, rfl, sees_none rfl hpos rfl, ?_, ?_⟩, h.raised⟩
    · exact List.subset_append_right _ _
    · intro e he _
      rw [hseen e he (Nat.zero_le _), Nat.zero_max]
  · have hstatus : ¬ (⟨false, r.first o, min limit r.timeline.total⟩ : Status).fits = true :=
      fun hfits => absurd (fits_iff.1 hfits).1 (by omega)
    rw [State.upsertNostrTransferStatus, if_neg hstatus] at hturn
    rw [hturn]
    exact ⟨rfl, rfl⟩

/-- **A later turn** sees nothing and ends the loop, or counts what it sees and goes on
    below. -/
theorem Stands.turn_cases (h : r.Stands s u hi k n) :
    (min hi r.timeline.total ≤ r.timeline.newer u ∧ Done (r.iterate s) ∧ (r.iterate s).sent = s.sent) ∨
    ∃ o, r.timeline.Oldest (min hi r.timeline.total) o ∧ r.timeline.newer u < min hi r.timeline.total ∧
      (∀ e, e ∈ (r.iterate s).sent ↔
        e ∈ s.sent ∨ (e ∈ r.events ∧ r.timeline.newer u ≤ r.rank e ∧ r.rank e < hi)) ∧
      (n + (min hi r.timeline.total - max (r.timeline.newer u) k) ≤ 2147483647 →
        r.Stands (r.iterate s) (if r.timeline.newer o = r.timeline.newer u then o - 1 else o)
          (r.timeline.newer o + limit) (max k hi)
          (n + (min hi r.timeline.total - max (r.timeline.newer u) k))) ∧
      (2147483647 < n + (min hi r.timeline.total - max (r.timeline.newer u) k) →
        Refused (r.iterate s)) := by
  obtain ⟨v, hv, huntil, htotal, hsees, hsub, hknown⟩ := h.loop
  have hpos := h.pos
  obtain ⟨hufits, hnfits⟩ := fits_iff.1 h.fits
  by_cases hlo : min hi r.timeline.total ≤ r.timeline.newer u
  · left
    have htruthy : truthy (some u) = true := by
      simp only [truthy, Option.getD_some, decide_eq_true_eq]
      omega
    have hturn : r.iterate s = { s with status := some ⟨true, u, n⟩, loop := none } := by
      unfold iterate
      rw [hv]
      simp only [hsees.nothing hlo, huntil, htotal, List.map_nil, List.min?_nil, htruthy, if_true,
        Option.getD_some]
      rw [State.upsertNostrTransferStatus, if_pos (fits_iff.2 ⟨hufits, hnfits⟩)]
    rw [hturn]
    exact ⟨hlo, ⟨⟨_, rfl, rfl⟩, rfl, h.raised⟩, rfl⟩
  · right
    rw [not_le] at hlo
    obtain ⟨o, ho, hmin, hsame⟩ := hsees.oldest hlo
    have hone := ho.one_lt
    have hou : o ≤ u := ho.le_of_newer hlo
    have hge := r.timeline.antitone hou
    obtain ⟨hlength, hseen⟩ := newEvents_spec hsees hknown
    set c := min hi r.timeline.total - max (r.timeline.newer u) k
    set u' := if r.timeline.newer o = r.timeline.newer u then o - 1 else o with hu'
    have hpos' : 1 ≤ u' ∧ u' ≤ o := by
      rw [hu']
      split_ifs <;> omega
    have hsame' : (r.eventsOf v).countP (fun e => r.createdAt e = o) = (r.eventsOf v).length ↔
        r.timeline.newer o = r.timeline.newer u := by
      rw [hsame]
      exact ⟨fun hle => le_antisymm hle hge, fun heq => heq.le⟩
    have hturn : r.iterate s = State.upsertNostrTransferStatus
        { s with sent := s.sent ++ newEvents v (r.eventsOf v) } ⟨false, u', n + c⟩
        (some ⟨some u', n + c, v.seen ++ newEvents v (r.eventsOf v), some (r.fetch (some o))⟩) := by
      unfold iterate
      rw [hv]
      simp only [hmin, hsame', huntil, htotal, hlength]
      rfl
    have hsent : (r.iterate s).sent = s.sent ++ newEvents v (r.eventsOf v) := by
      rw [hturn, State.upsertNostrTransferStatus]
      split_ifs <;> rfl
    refine ⟨o, ho, hlo, fun e => ?_, fun hfits => ?_, fun hmore => ?_⟩
    · rw [hsent]
      exact mem_sent_newEvents hsub hsees
    · have hstatus : (⟨false, u', n + c⟩ : Status).fits = true := fits_iff.2 ⟨by omega, hfits⟩
      rw [State.upsertNostrTransferStatus, if_pos hstatus] at hturn
      rw [hturn]
      refine ⟨hpos'.1, hstatus, rfl, ⟨_, rfl, rfl, rfl, sees_some rfl hpos'.1 hpos'.2 rfl, ?_, ?_⟩,
        h.raised⟩
      · intro e he
        rcases List.mem_append.1 he with he | he
        · exact List.mem_append_left _ (hsub he)
        · exact List.mem_append_right _ he
      · intro e he hrank
        exact hseen e he ((r.timeline.antitone (hpos'.2.trans hou)).trans hrank)
    · have hstatus : ¬ (⟨false, u', n + c⟩ : Status).fits = true :=
        fun hfits => absurd (fits_iff.1 hfits).2 (by omega)
      rw [State.upsertNostrTransferStatus, if_neg hstatus] at hturn
      rw [hturn]
      exact ⟨rfl, rfl⟩

theorem Fresh.turn (hcolumns : r.FitsColumns) (h : Fresh s) :
    ∃ o, r.timeline.Oldest (min limit r.timeline.total) o ∧ r.At (r.iterate s) (r.first o) limit ∧
      ∀ e, e ∈ (r.iterate s).sent ↔ e ∈ s.sent ∨ (e ∈ r.events ∧ r.rank e < limit) := by
  obtain ⟨o, ho, hsent, hstands, -⟩ := h.turn_cases (r := r)
  obtain ⟨hfits, hroom⟩ := hcolumns o ho
  exact ⟨o, ho, ⟨_, _, hstands hfits, hroom⟩, hsent⟩

theorem At.pos (h : r.At s u hi) : 1 ≤ u := by
  obtain ⟨k, n, hstands, -⟩ := h
  exact hstands.pos

theorem At.turn (h : r.At s u hi) :
    (min hi r.timeline.total ≤ r.timeline.newer u ∧ Done (r.iterate s) ∧ (r.iterate s).sent = s.sent) ∨
    ∃ o, r.timeline.Oldest (min hi r.timeline.total) o ∧ r.timeline.newer u < min hi r.timeline.total ∧
      r.At (r.iterate s) (if r.timeline.newer o = r.timeline.newer u then o - 1 else o)
        (r.timeline.newer o + limit) ∧
      ∀ e, e ∈ (r.iterate s).sent ↔
        e ∈ s.sent ∨ (e ∈ r.events ∧ r.timeline.newer u ≤ r.rank e ∧ r.rank e < hi) := by
  obtain ⟨k, n, hstands, hroom⟩ := h
  rcases hstands.turn_cases with hdone | ⟨o, ho, hlo, hsent, hnext, -⟩
  · exact Or.inl hdone
  · right
    refine ⟨o, ho, hlo, ⟨_, _, hnext ?_, fun m hm => ?_⟩, hsent⟩
    · have := hroom _ (.turn ho hlo .stop)
      omega
    · have := hroom _ (.turn ho hlo hm)
      omega

/-! ## Interruptions -/

theorem Fresh.interrupt (h : Fresh s) : Fresh (r.interrupt k s) := by
  unfold Relay.interrupt
  rw [h.loop]
  refine ⟨h.status, ?_, rfl⟩
  show enter s.status = _
  rw [h.status]
  rfl

/-- The loop begins again where it stood, with a page of its own and nothing known. -/
theorem Stands.interrupt {j : ℕ} (h : r.Stands s u hi k n) :
    r.Stands (r.interrupt j s) u (r.timeline.newer u + limit) 0 n ∧ s.sent ⊆ (r.interrupt j s).sent := by
  obtain ⟨v, hv, -⟩ := h.loop
  have hinterrupt : r.interrupt j s = { s with
      loop := some ⟨some u, n, [], none⟩
      sent := s.sent ++ (newEvents v (r.eventsOf v)).take j
      raised := false } := by
    unfold Relay.interrupt
    rw [hv, h.status]
    rfl
  rw [hinterrupt]
  refine ⟨⟨h.pos, h.fits, h.status, ⟨_, rfl, rfl, rfl, ?_, List.nil_subset _, by simp⟩, rfl⟩,
    List.subset_append_left _ _⟩
  exact sees_some rfl h.pos le_rfl rfl

theorem At.interrupt (h : r.At s u hi) :
    r.At (r.interrupt k s) u (r.timeline.newer u + limit) ∧ s.sent ⊆ (r.interrupt k s).sent := by
  obtain ⟨k', n, hstands, hroom⟩ := h
  obtain ⟨hagain, hsub⟩ := hstands.interrupt (j := k)
  exact ⟨⟨0, n, hagain, fun m hm => hroom m (.forget hm)⟩, hsub⟩

theorem Done.interrupt (h : Done s) : Done (r.interrupt k s) ∧ (r.interrupt k s).sent = s.sent := by
  obtain ⟨status, hstatus, hcompleted⟩ := h.completed
  unfold Relay.interrupt
  rw [h.loop]
  refine ⟨⟨⟨status, hstatus, hcompleted⟩, ?_, rfl⟩, rfl⟩
  show enter s.status = none
  rw [hstatus, enter, if_pos hcompleted]

theorem Done.turn (h : Done s) : r.iterate s = s := by
  unfold iterate
  rw [h.loop]

theorem Refused.turn (h : Refused s) : r.iterate s = s := by
  unfold iterate
  rw [h.loop]

/-! ## The end of the loop -/

theorem turns_succ (n : ℕ) (s : State ι) : r.turns (n + 1) s = r.turns n (r.iterate s) :=
  Function.iterate_succ_apply _ _ _

/-- **The loop ends**, and sends nothing later than where it stands. -/
theorem At.ends (h : r.At s u hi) : ∃ n, Done (r.turns n s) ∧
    ∀ e ∈ (r.turns n s).sent, e ∈ s.sent ∨ (e ∈ r.events ∧ r.createdAt e ≤ u) := by
  induction u using Nat.strong_induction_on generalizing s hi with
  | _ u ih =>
    rcases h.turn with ⟨-, hdone, hsent⟩ | ⟨o, ho, hlo, hat, hsent⟩
    · exact ⟨1, hdone, fun e he => Or.inl (by rwa [← hsent])⟩
    · have hone := ho.one_lt
      have hou := ho.le_of_newer hlo
      have hlt : (if r.timeline.newer o = r.timeline.newer u then o - 1 else o) < u := by
        split_ifs with hsame
        · omega
        · refine lt_of_le_of_ne hou ?_
          rintro rfl
          exact hsame rfl
      obtain ⟨n, hdone, hn⟩ := ih _ hlt hat
      refine ⟨n + 1, by rwa [turns_succ], fun e he => ?_⟩
      rw [turns_succ] at he
      rcases hn e he with he | ⟨he, hdate⟩
      · rcases (hsent e).1 he with he | ⟨he, hge, -⟩
        · exact Or.inl he
        · exact Or.inr ⟨he, (newer_le_rank he).1 hge⟩
      · exact Or.inr ⟨he, hdate.trans hlt.le⟩

/-- What a history leaves behind. -/
theorem run_cases (hcolumns : r.FitsColumns) (actions : List Action) :
    Fresh (r.run actions) ∨ (∃ u hi, r.At (r.run actions) u hi) ∨ Done (r.run actions) := by
  induction actions using List.reverseRecOn with
  | nil => exact Or.inl ⟨rfl, rfl, rfl⟩
  | append_singleton actions a ih =>
    rw [run, List.foldl_append, List.foldl_cons, List.foldl_nil]
    change Fresh (r.step (r.run actions) a) ∨ (∃ u hi, r.At (r.step (r.run actions) a) u hi) ∨
      Done (r.step (r.run actions) a)
    cases a with
    | iterate =>
      rcases ih with h | ⟨u, hi, h⟩ | h
      · obtain ⟨o, -, hat, -⟩ := h.turn hcolumns
        exact Or.inr (Or.inl ⟨_, _, hat⟩)
      · rcases h.turn with ⟨-, hdone, -⟩ | ⟨o, -, -, hat, -⟩
        · exact Or.inr (Or.inr hdone)
        · exact Or.inr (Or.inl ⟨_, _, hat⟩)
      · refine Or.inr (Or.inr ?_)
        show Done (r.iterate _)
        rwa [h.turn]
    | interrupt k =>
      rcases ih with h | ⟨u, hi, h⟩ | h
      · exact Or.inl h.interrupt
      · exact Or.inr (Or.inl ⟨_, _, h.interrupt.1⟩)
      · exact Or.inr (Or.inr h.interrupt.1)

/-- Whatever has happened, the loop comes to its end. -/
theorem run_ends (hcolumns : r.FitsColumns) (actions : List Action) :
    ∃ n, Done (r.turns n (r.run actions)) := by
  rcases run_cases hcolumns actions with h | ⟨u, hi, h⟩ | h
  · obtain ⟨o, -, hat, -⟩ := h.turn hcolumns
    obtain ⟨n, hn, -⟩ := hat.ends
    exact ⟨n + 1, by rwa [turns_succ]⟩
  · obtain ⟨n, hn, -⟩ := h.ends
    exact ⟨n, hn⟩
  · exact ⟨0, h⟩

/-! ## Sending everything -/

/-- The events numbered below where the loop stands have been sent. -/
def Covered (r : Relay ι) (s : State ι) (u : ℕ) : Prop :=
  ∀ e ∈ r.events, r.rank e < r.timeline.newer u → e ∈ s.sent

/-- Every event has been sent. -/
def AllSent (r : Relay ι) (s : State ι) : Prop := ∀ e ∈ r.events, e ∈ s.sent

/-- Nothing has been left out so far, and nothing will be. -/
def OnTrack (r : Relay ι) (s : State ι) : Prop :=
  Fresh s ∨ (∃ u hi, r.At s u hi ∧ r.AllSent s) ∨ (Done s ∧ r.AllSent s) ∨
    ∃ u hi, r.At s u hi ∧ r.Covered s u ∧ r.timeline.NoFlood limit ∧ r.timeline.Smooth limit u hi

/-- A turn that goes on smoothly leaves nothing out. -/
theorem OnTrack.of_smooth (hat : r.At s u hi) (hcovered : r.Covered s u)
    (hflood : r.timeline.NoFlood limit) (hsmooth : r.timeline.Smooth limit u hi) :
    r.OnTrack (r.iterate s) := by
  rcases hat.turn with ⟨hlo, hdone, hsent⟩ | ⟨o, ho, hlo, hat', hsent⟩
  · refine Or.inr (Or.inr (Or.inl ⟨hdone, fun e he => ?_⟩))
    have htotal : r.timeline.total ≤ r.timeline.newer u := by
      cases hsmooth with
      | done htotal => exact htotal
      | @next _ _ o ho hmore _ =>
        have := ho.lt
        omega
      | @same _ _ o ho hsame _ _ =>
        have := ho.lt
        omega
    rw [hsent]
    exact hcovered e he ((rank_lt_total he).trans_le htotal)
  · refine Or.inr (Or.inr (Or.inr ?_))
    have hsent' : ∀ e ∈ r.events, r.rank e < hi → e ∈ (r.iterate s).sent := by
      intro e he hrank
      rw [hsent]
      by_cases hold : r.rank e < r.timeline.newer u
      · exact Or.inl (hcovered e he hold)
      · exact Or.inr ⟨he, not_lt.1 hold, hrank⟩
    cases hsmooth with
    | done htotal => omega
    | @next _ _ o' ho' hmore hrest =>
      obtain rfl := ho.unique ho'
      rw [if_neg (by omega)] at hat'
      refine ⟨o, _, hat', fun e he hrank => hsent' e he ?_, hflood, hrest⟩
      have := ho.lt
      omega
    | @same _ _ o' ho' hsame hall hrest =>
      obtain rfl := ho.unique ho'
      rw [if_pos hsame.symm] at hat'
      exact ⟨o - 1, _, hat', fun e he hrank => hsent' e he (hrank.trans_le hall), hflood, hrest⟩

/-- The times of the events are such that nothing is left out. -/
def FitsPages (r : Relay ι) : Prop :=
  r.timeline.total ≤ limit ∨ (r.timeline.NoFlood limit ∧ r.timeline.CutsAtSeam limit)

theorem OnTrack.turn (hcolumns : r.FitsColumns) (hfits : r.FitsPages) (h : r.OnTrack s) :
    r.OnTrack (r.iterate s) := by
  rcases h with h | ⟨u, hi, hat, hall⟩ | ⟨hdone, hall⟩ | ⟨u, hi, hat, hcovered, hflood, hsmooth⟩
  · obtain ⟨o, ho, hat, hsent⟩ := h.turn hcolumns
    rcases Nat.lt_or_ge limit r.timeline.total with hmore | hfew
    · obtain ⟨hflood, hseam⟩ := hfits.resolve_left (not_le.2 hmore)
      rw [min_eq_left hmore.le] at ho
      obtain ⟨hpos, hsmooth⟩ := (Timeline.smooth_top_iff limit_pos hmore ho).2 ⟨hflood, hseam⟩
      rw [first, if_neg hpos.ne'] at hat
      refine Or.inr (Or.inr (Or.inr ⟨o, limit, hat, fun e he hrank => ?_, hflood, hsmooth⟩))
      exact (hsent e).2 (Or.inr ⟨he, hrank.trans ho.lt⟩)
    · refine Or.inr (Or.inl ⟨_, _, hat, fun e he => (hsent e).2 (Or.inr ⟨he, ?_⟩)⟩)
      exact (rank_lt_total he).trans_le hfew
  · rcases hat.turn with ⟨-, hdone, hsent⟩ | ⟨o, -, -, hat', hsent⟩
    · refine Or.inr (Or.inr (Or.inl ⟨hdone, fun e he => ?_⟩))
      rw [hsent]
      exact hall e he
    · exact Or.inr (Or.inl ⟨_, _, hat', fun e he => (hsent e).2 (Or.inl (hall e he))⟩)
  · rw [hdone.turn]
    exact Or.inr (Or.inr (Or.inl ⟨hdone, hall⟩))
  · exact .of_smooth hat hcovered hflood hsmooth

theorem OnTrack.interrupt (h : r.OnTrack s) : r.OnTrack (r.interrupt k s) := by
  rcases h with h | ⟨u, hi, hat, hall⟩ | ⟨hdone, hall⟩ | ⟨u, hi, hat, hcovered, hflood, hsmooth⟩
  · exact Or.inl h.interrupt
  · obtain ⟨hat', hsub⟩ := hat.interrupt (k := k)
    exact Or.inr (Or.inl ⟨_, _, hat', fun e he => hsub (hall e he)⟩)
  · obtain ⟨hdone', hsent⟩ := hdone.interrupt (r := r) (k := k)
    refine Or.inr (Or.inr (Or.inl ⟨hdone', fun e he => ?_⟩))
    rw [hsent]
    exact hall e he
  · obtain ⟨hat', hsub⟩ := hat.interrupt (k := k)
    refine Or.inr (Or.inr (Or.inr ⟨u, _, hat', fun e he hrank => ?_, hflood, ?_⟩))
    · exact hsub (hcovered e he hrank)
    · exact Timeline.smooth_of_noFlood limit_pos hflood u

theorem onTrack_run (hcolumns : r.FitsColumns) (hfits : r.FitsPages) (actions : List Action) :
    r.OnTrack (r.run actions) := by
  induction actions using List.reverseRecOn with
  | nil => exact Or.inl ⟨rfl, rfl, rfl⟩
  | append_singleton actions a ih =>
    rw [run, List.foldl_append, List.foldl_cons, List.foldl_nil]
    cases a with
    | iterate => exact ih.turn hcolumns hfits
    | interrupt k => exact ih.interrupt

theorem At.not_completed (h : r.At s u hi) : ¬ Completed s := by
  rintro ⟨status, hstatus, hcompleted⟩
  obtain ⟨k, n, hstands, -⟩ := h
  rw [hstands.status] at hstatus
  cases hstatus
  cases hcompleted

theorem complete_of_fits (hcolumns : r.FitsColumns) (hfits : r.FitsPages) : r.Complete := by
  refine ⟨fun actions => ?_, fun actions hcompleted => ?_⟩
  · obtain ⟨n, hn⟩ := run_ends hcolumns actions
    exact ⟨n, hn.loop, hn.raised⟩
  · rcases onTrack_run hcolumns hfits actions with h | ⟨u, hi, hat, -⟩ | ⟨-, hall⟩ | ⟨u, hi, hat, -⟩
    · obtain ⟨status, hstatus, -⟩ := hcompleted
      rw [h.status] at hstatus
      cases hstatus
    · exact absurd hcompleted hat.not_completed
    · exact hall
    · exact absurd hcompleted hat.not_completed

/-! ## What is refused -/

theorem run_snoc (actions : List Action) (a : Action) :
    r.run (actions ++ [a]) = r.step (r.run actions) a := by
  rw [run, List.foldl_append]
  rfl

theorem run_turns (actions : List Action) (n : ℕ) :
    r.turns n (r.run actions) = r.run (actions ++ List.replicate n .iterate) := by
  induction n generalizing actions with
  | zero => simp [turns]
  | succ n ih =>
    have hone : r.iterate (r.run actions) = r.run (actions ++ [.iterate]) := by
      simp [run, step]
    rw [turns_succ, hone, ih, List.append_assoc]
    rfl

theorem Refused.turns (h : Refused s) (n : ℕ) : r.turns n s = s := by
  induction n with
  | zero => rfl
  | succ n ih => rw [turns_succ, h.turn, ih]

theorem Complete.not_refused (h : r.Complete) (actions : List Action) : ¬ Refused (r.run actions) := by
  intro hrefused
  obtain ⟨n, -, hraised⟩ := h.ends actions
  rw [hrefused.turns, hrefused.raised] at hraised
  cases hraised

/-- **A loop that is never refused has room** for all that it may come to count. -/
theorem Stands.room (hcomplete : r.Complete) (actions : List Action)
    (h : r.Stands (r.run actions) u hi k n) : r.Room u hi k n := by
  intro m hm
  induction hm generalizing actions n with
  | stop => exact (fits_iff.1 h.fits).2
  | forget _ ih =>
    refine ih (actions ++ [.interrupt 0]) ?_
    rw [run_snoc]
    exact h.interrupt.1
  | @turn u hi k o m ho hlo _ ih =>
    rcases h.turn_cases with ⟨hnone, -⟩ | ⟨o', ho', -, -, hnext, hrefused⟩
    · omega
    · obtain rfl := ho.unique ho'
      have hfits := not_lt.1 fun hmore => hcomplete.not_refused (actions ++ [.iterate]) (by
        rw [run_snoc]
        exact hrefused hmore)
      have := ih (actions ++ [.iterate]) (by
        rw [run_snoc]
        exact hnext hfits)
      omega

theorem fitsColumns_of_complete (h : r.Complete) : r.FitsColumns := by
  intro o ho
  have hfresh : Fresh (r.run []) := ⟨rfl, rfl, rfl⟩
  obtain ⟨o', ho', -, hstands, hrefused⟩ := hfresh.turn_cases (r := r)
  obtain rfl := ho.unique ho'
  have hfits := not_lt.1 fun hmore => h.not_refused [.iterate] (hrefused hmore)
  exact ⟨hfits, Stands.room h [.iterate] (hstands hfits)⟩

omit [DecidableEq ι] in
/-- Up to this many events fit into the column, whatever their times are. -/
theorem fitsColumns_of_few (hdates : ∀ e ∈ r.events, r.createdAt e ≤ 2147483647)
    (hfew : 2 * r.events.length ≤ 2147483647) : r.FitsColumns := by
  intro o ho
  have hone := ho.one_lt
  have hlt := ho.lt
  have hle := ho.le
  have htotal : r.timeline.total = r.events.length := rfl
  have hlate : r.timeline.newer 2147483647 = 0 := by
    refine List.countP_eq_zero.2 fun e he => ?_
    simpa using hdates e he
  have ho' : o ≤ 2147483647 := by
    by_contra hmore
    have := r.timeline.antitone (show 2147483647 ≤ o - 1 by omega)
    omega
  unfold first
  split_ifs with hzero
  · refine ⟨by omega, fun m hm => ?_⟩
    have := hm.le (by omega)
    omega
  · refine ⟨ho', fun m hm => ?_⟩
    have := hm.le (by omega)
    omega

/-! ## Leaving something out -/

/-- All events are sent when the loop ends, if it is not stopped. -/
def EndsComplete (r : Relay ι) (s : State ι) : Prop := ∀ n, Completed (r.turns n s) → r.AllSent (r.turns n s)

theorem EndsComplete.turn (h : r.EndsComplete s) : r.EndsComplete (r.iterate s) := by
  intro n
  rw [← turns_succ]
  exact h (n + 1)

/-- An event later than where the loop stands must have been sent. -/
theorem At.sent_of_newer (hat : r.At s u hi) (hends : r.EndsComplete s) (he : e ∈ r.events)
    (hdate : u < r.createdAt e) : e ∈ s.sent := by
  obtain ⟨n, hdone, hsent⟩ := hat.ends
  rcases hsent e (hends n hdone.completed e he) with h | ⟨-, hle⟩
  · exact h
  · omega

/-- **A loop that leaves nothing out goes on smoothly.** -/
theorem At.smooth (hat : r.At s u hi) (hends : r.EndsComplete s) (hhi : hi ≤ r.timeline.newer u + limit)
    (hsent : ∀ e ∈ r.events, e ∈ s.sent → r.rank e < hi) : r.timeline.Smooth limit u hi := by
  induction u using Nat.strong_induction_on generalizing s hi with
  | _ u ih =>
    rcases hat.turn with ⟨hlo, hdone, hsame⟩ | ⟨o, ho, hlo, hat', hsent'⟩
    · refine .done ?_
      by_contra hmore
      -- the page is empty although there are events left
      obtain ⟨e, he, hrank⟩ := exists_rank (r := r) (not_le.1 hmore)
      have hall := hends 1 hdone.completed e he
      have := hsent e he (by rwa [← hsame])
      omega
    · have hone := ho.one_lt
      have hou := ho.le_of_newer hlo
      have hge := r.timeline.antitone hou
      have hrank : ∀ e ∈ r.events, e ∈ (r.iterate s).sent → r.rank e < hi := by
        intro e he he'
        rcases (hsent' e).1 he' with h | ⟨-, -, h⟩
        · exact hsent e he h
        · exact h
      by_cases hsame : r.timeline.newer o = r.timeline.newer u
      · rw [if_pos hsame] at hat'
        have hbelow := r.timeline.antitone (show o - 1 ≤ o by omega)
        refine .same ho hsame.symm ?_ (ih (o - 1) (by omega) hat' hends.turn (by omega) ?_)
        · by_contra hcut
          -- the page cuts the second: its next event is left out
          have htotal : r.timeline.newer (o - 1) ≤ r.timeline.total :=
            Timeline.newer_le_total (by omega)
          obtain ⟨e, he, hnumber⟩ := exists_rank (r := r) (i := hi) (by omega)
          have hdate : o - 1 < r.createdAt e := (rank_lt_newer he).1 (by omega)
          have := hrank e he (hat'.sent_of_newer hends.turn he hdate)
          omega
        · intro e he he'
          have := hrank e he he'
          omega
      · rw [if_neg hsame] at hat'
        have hmore : r.timeline.newer u < r.timeline.newer o := by omega
        have hlt : o < u := Timeline.lt_of_newer_lt hmore
        refine .next ho hmore (ih o hlt hat' hends.turn le_rfl fun e he he' => ?_)
        have := hrank e he he'
        omega

theorem fitsPages_of_complete (h : r.Complete) : r.FitsPages := by
  have hends : ∀ actions, r.EndsComplete (r.run actions) := by
    intro actions n
    rw [run_turns]
    exact h.all_sent _
  rcases Nat.lt_or_ge limit r.timeline.total with hmore | hfew
  · right
    have hfresh : Fresh (State.initial : State ι) := ⟨rfl, rfl, rfl⟩
    obtain ⟨o, ho, hat, hsent⟩ := hfresh.turn (fitsColumns_of_complete h)
    rw [min_eq_left hmore.le] at ho
    rw [first] at hat
    have hfirst : r.EndsComplete (r.iterate State.initial) := hends [.iterate]
    have hrank : ∀ e ∈ r.events, e ∈ (r.iterate State.initial).sent → r.rank e < limit := by
      intro e he he'
      rcases (hsent e).1 he' with h | ⟨-, h⟩
      · cases h
      · exact h
    have hone := ho.one_lt
    have hcut := ho.le
    by_cases hzero : r.timeline.newer o = 0
    · -- the first page is one second, and nothing is read below it
      exfalso
      rw [if_pos hzero] at hat
      obtain ⟨e, he, hnumber⟩ := exists_rank (r := r) hmore
      by_cases hin : limit < r.timeline.newer (o - 1)
      · have hdate : o - 1 < r.createdAt e := (rank_lt_newer he).1 (by omega)
        have := hrank e he (hat.sent_of_newer hfirst he hdate)
        omega
      · have hsmooth := hat.smooth hfirst (by omega) hrank
        cases hsmooth with
        | done htotal => omega
        | @next _ _ o' ho' hseen _ =>
          have := ho'.lt
          omega
        | @same _ _ o' ho' hseen _ _ =>
          have := ho'.lt
          omega
    · rw [if_neg hzero] at hat
      have hsmooth := hat.smooth hfirst (by omega) hrank
      exact (Timeline.smooth_top_iff limit_pos hmore ho).1 ⟨Nat.pos_of_ne_zero hzero, hsmooth⟩
  · exact Or.inl hfew

end Relay

/-- **The initial sync is complete exactly if the events fit the pages**, and the columns hold
    what is stored. -/
theorem complete_iff (r : Relay ι) : r.Complete ↔ r.FitsColumns ∧ r.FitsPages :=
  ⟨fun h => ⟨Relay.fitsColumns_of_complete h, Relay.fitsPages_of_complete h⟩,
    fun h => Relay.complete_of_fits h.1 h.2⟩

/-- A full page of events in one second and one event before it. -/
def denseRelay : Relay ℕ where
  events := List.range (limit + 1)
  createdAt i := if i < limit then 5 else 4
  sorted := by
    refine List.pairwise_lt_range.imp ?_
    intro a b hab
    split_ifs <;> omega
  nodup := List.nodup_range
  nonempty := by simp
  two_le i _ := by split_ifs <;> omega

/-- **A second that fills a page hides what is before it.**  The loop sends the page, looks
    below its second in the same page again, finds nothing and takes the kind as completed. -/
theorem dense_second_is_lost : ¬ denseRelay.Complete := by
  intro h
  have htotal : denseRelay.timeline.total = 301 := by decide +kernel
  have hfive : denseRelay.timeline.newer 5 = 0 := by decide +kernel
  have hfour : denseRelay.timeline.newer (5 - 1) = 300 := by decide +kernel
  have hlimit : limit = 300 := rfl
  rcases Relay.fitsPages_of_complete h with hfew | ⟨hflood, -⟩
  · omega
  · have := hflood 5 (by omega) (by omega)
    omega

end Transfer

end BrainstormServer
