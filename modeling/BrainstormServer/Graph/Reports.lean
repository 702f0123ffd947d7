/-
  The report graph beside the relay (kinds 1984 and 5).

  The relay takes reports and deletions, keeps the reports that are not deleted, and
  queues what it takes.  The consumer is behind it by any number of messages: a report
  is merged although it may be gone by now, and a deletion makes the consumer compare
  the author's edges with what the relay holds at that moment.

  * `Live` is what holds between two messages: an edge has a report behind it or a
    deletion ahead of it, a report on the relay has its edges or is still queued;
  * `live_reports_exact`: with an empty queue the edges and the sets are those of the
    whole batch (`build_desired_reported_by`).
-/
import BrainstormServer.Conc.Machine
import BrainstormServer.Graph.Handlers

namespace BrainstormServer

namespace Graph

open Conc Prog Nostr

/-! ## The relay and the consumer -/

/-- A deletion names a report of its own author. -/
def deletes (d r : Event) : Bool := d.pubkey = r.pubkey ∧ r.id ∈ tagValues d.tags "e"

/-- `stored` are the reports on the relay, `accepted` is all it took, oldest first. -/
structure Feed where
  stored : List Event
  accepted : List Event
  queue : List Event
  store : Store

def Feed.initial : Feed := ⟨[], [], [], .empty⟩

/-- What the relay answers when it is asked for the reports of an author. -/
def Feed.read (f : Feed) : Outside := fun author => some (f.stored.filter (·.pubkey = author))

/-- The relay refuses a report that was deleted. -/
def Feed.refuses (f : Feed) (e : Event) : Bool :=
  f.accepted.any fun d => d.kind = 5 ∧ deletes d e

inductive FeedEvent
  | accept (e : Event)
  | consume

/-- One step of the relay or of the consumer.  Nobody else writes the graph or the
    sets, and a handler reads the relay once: the whole handler is one step. -/
def Feed.step : FeedEvent → Feed → Option Feed
  | .accept e, f =>
    if e.kind = 1984 then
      if f.refuses e then none
      else some { f with stored := f.stored ++ [e], accepted := f.accepted ++ [e], queue := f.queue ++ [e] }
    else if e.kind = 5 then
      some { f with
        stored := f.stored.filter fun r => !deletes e r
        accepted := f.accepted ++ [e]
        queue := f.queue ++ [e] }
    else none
  | .consume, f =>
    match f.queue with
    | [] => none
    | e :: rest =>
      ((processStrfryEvent e).alone exec () (fun _ => f.read) f.store).map fun out =>
        { f with queue := rest, store := out.2 }

/-! ## What the batch and the recompute compute -/

section
variable {reports deletions : List Event} {t a : Pubkey}

theorem mem_deletionsByReportId {ids : List String} {id : String} :
    (id, a) ∈ deletionsByReportId deletions ids ↔
      id ∈ ids ∧ ∃ d ∈ deletions, d.pubkey = a ∧ id ∈ tagValues d.tags "e" := by
  unfold deletionsByReportId
  rw [List.mem_flatMap]
  constructor
  · rintro ⟨d, hd, hmem⟩
    obtain ⟨i, hi, he⟩ := List.mem_map.1 hmem
    cases he
    rw [List.mem_filter, decide_eq_true_iff] at hi
    exact ⟨hi.2, d, hd, rfl, hi.1⟩
  · rintro ⟨hid, d, hd, rfl, htag⟩
    refine ⟨d, hd, List.mem_map.2 ⟨id, ?_, rfl⟩⟩
    rw [List.mem_filter, decide_eq_true_iff]
    exact ⟨htag, hid⟩

/-- Who is reported and by whom, with all reports and deletions at hand. -/
theorem mem_buildDesiredReportedBy : (t, a) ∈ buildDesiredReportedBy reports deletions ↔
    ∃ r ∈ reports, r.pubkey = a ∧ t ∈ extractReportTargets r ∧
      ∀ d ∈ deletions, deletes d r = false := by
  have hdeleters : ∀ r ∈ reports, ((r.id, r.pubkey) ∈ (if deletions = [] then []
      else deletionsByReportId deletions (reports.map (·.id))) ↔
        ∃ d ∈ deletions, deletes d r = true) := by
    intro r hr
    split_ifs with hnil
    · simp [hnil]
    · rw [mem_deletionsByReportId]
      simp only [deletes, decide_eq_true_iff]
      exact ⟨fun h => h.2, fun h => ⟨List.mem_map_of_mem hr, h⟩⟩
  unfold buildDesiredReportedBy
  dsimp only
  generalize (if deletions = [] then [] else
    deletionsByReportId deletions (reports.map (·.id))) = deleters at hdeleters ⊢
  rw [List.mem_flatMap]
  constructor
  · rintro ⟨r, hr, hmem⟩
    split_ifs at hmem with hdel
    · cases hmem
    · obtain ⟨u, hu, he⟩ := List.mem_map.1 hmem
      cases he
      refine ⟨r, hr, rfl, hu, fun d hd => ?_⟩
      by_contra hd'
      exact hdel ((hdeleters r hr).2 ⟨d, hd, by simpa using hd'⟩)
  · rintro ⟨r, hr, rfl, ht, hnone⟩
    refine ⟨r, hr, ?_⟩
    rw [if_neg]
    · exact List.mem_map_of_mem ht
    · intro hdel
      obtain ⟨d, hd, hd'⟩ := (hdeleters r hr).1 hdel
      rw [hnone d hd] at hd'
      cases hd'

theorem mem_survivingReportTargets : t ∈ survivingReportTargets reports a ↔
    ∃ r ∈ reports, r.pubkey = a ∧ t ∈ extractReportTargets r := by
  unfold survivingReportTargets
  rw [List.mem_map]
  constructor
  · rintro ⟨⟨u, b⟩, hmem, rfl⟩
    rw [List.mem_filter, decide_eq_true_iff] at hmem
    obtain ⟨hmem, rfl⟩ := hmem
    obtain ⟨r, hr, hpub, ht, -⟩ := mem_buildDesiredReportedBy.1 hmem
    exact ⟨r, List.mem_of_mem_filter hr, hpub, ht⟩
  · rintro ⟨r, hr, hpub, ht⟩
    refine ⟨(t, a), ?_, rfl⟩
    rw [List.mem_filter, decide_eq_true_iff]
    refine ⟨mem_buildDesiredReportedBy.2 ⟨r, ?_, hpub, ht, ?_⟩, rfl⟩
    · rw [List.mem_filter, decide_eq_true_iff]
      exact ⟨hr, hpub⟩
    · intro d hd
      cases hd

end

/-! ## The handlers -/

section
variable {st st' : Store} {event : Event}

/-- The edges and the sets of reports agree, and for `author` they are `targets`; nobody
    else's have changed. -/
structure Reporting (author : Pubkey) (targets : List Pubkey) (st st' : Store) : Prop where
  edges : ∀ x t, (x, t) ∈ st'.edges .reports ↔
    if x = author then t ∈ targets else (x, t) ∈ st.edges .reports
  sets : ∀ x t, (t, x) ∈ st'.sets .reports ↔ (x, t) ∈ st'.edges .reports

variable (event) in
/-- A report adds its targets. -/
theorem safe_processEventKind1984 (hsets : ∀ x t, (t, x) ∈ st.sets .reports ↔ (x, t) ∈ st.edges .reports) :
    (processEventKind1984 event).Safe exec () (fun _ => True)
      (fun _ st' => Reporting event.pubkey
        (st.targets .reports event.pubkey ++ extractReportTargets event) st st') st := by
  have hsame : ∀ x t, (x, t) ∈ st.edges .reports ∨ (x = event.pubkey ∧ t ∈ extractReportTargets event) ↔
      if x = event.pubkey then t ∈ st.targets .reports event.pubkey ++ extractReportTargets event
        else (x, t) ∈ st.edges .reports := by
    intro x t
    split_ifs with hx
    · rw [List.mem_append, mem_targets, hx]
      tauto
    · tauto
  unfold processEventKind1984
  dsimp only
  split_ifs with hnil
  · refine ⟨fun x t => ?_, hsets⟩
    rw [← hsame, hnil]
    simp
  · refine ⟨trivial, ?_⟩
    intro ω out hout
    cases hout
    have hedges : ∀ x t, (x, t) ∈ (st.setEdges .reports (st.edges .reports ++
        ((extractReportTargets event).filter (· ∉ st.targets .reports event.pubkey)).map
          (event.pubkey, ·))).edges .reports ↔
        (x, t) ∈ st.edges .reports ∨ (x = event.pubkey ∧ t ∈ extractReportTargets event) := by
      intro x t
      rw [setEdges_edges, mem_merge]
    refine safe_updateReverseSets (fun _ _ _ => trivial) ⟨fun x t => ?_, fun x t => ?_⟩
    · rw [setSets_edges, hedges, hsame]
    · rw [setSets_edges, hedges, setSets_sets, setEdges_sets, mem_updated, hsets]
      simp only [List.not_mem_nil, and_false, not_false_iff, and_true]
      exact Or.comm

theorem exec_total (c : Cmd) (st : Store) (ω : Outside) : ∃ r, exec () c st ω = some r := by
  cases c <;> exact ⟨_, rfl⟩

/-- A write of the recompute that may be left out. -/
theorem wp_writeUnlessEmpty {W : Outside → Prop} {targets : List Pubkey}
    {write : List Pubkey → Act Unit} {p : Act Unit} {Q : Except Empty Unit → Store → Prop}
    (hnil : targets = [] → p.wp exec () W Q st)
    (hwrite : ((write targets).bind fun _ => p).wp exec () W Q st) :
    ((writeUnlessEmpty targets write).bind fun _ => p).wp exec () W Q st := by
  unfold writeUnlessEmpty
  split_ifs with h
  · exact hnil h
  · exact hwrite

section
variable {author : Pubkey} {desired : List Pubkey} {W : Outside → Prop}

/-- The last part of the recompute, when the edges are right. -/
theorem wp_recompute_sets
    (hsets : ∀ x t, (t, x) ∈ st.sets .reports ↔ (x, t) ∈ st.edges .reports)
    (hedges : ∀ x t, (x, t) ∈ st'.edges .reports ↔
      if x = author then t ∈ desired else (x, t) ∈ st.edges .reports)
    (hsame : st'.sets .reports = st.sets .reports) :
    (updateReverseSets .reports author desired
      (diffAuthorTargets desired (st.targets .reports author)).toRemove).wp exec () W
        (fun _ st'' => Reporting author desired st st'') st' := by
  refine Safe.wp exec_total (safe_updateReverseSets (I := fun _ => True) (fun _ _ _ => trivial)
    ⟨fun x t => ?_, fun x t => ?_⟩)
  · rw [setSets_edges, hedges]
  · rw [setSets_edges, hedges, setSets_sets, mem_updated, hsame, hsets, diffAuthorTargets,
      List.mem_filter, decide_eq_true_iff, mem_targets]
    split_ifs with hx
    · subst hx
      tauto
    · tauto

/-- The writes of the recompute. -/
theorem wp_recompute (hsets : ∀ x t, (t, x) ∈ st.sets .reports ↔ (x, t) ∈ st.edges .reports) :
    ((writeUnlessEmpty (diffAuthorTargets desired (st.targets .reports author)).toRemove
        fun targets => await (.delete .reports author targets)).bind fun _ =>
      (writeUnlessEmpty (diffAuthorTargets desired (st.targets .reports author)).toAdd
        fun targets => await (.merge .reports author targets)).bind fun _ =>
      updateReverseSets .reports author desired
        (diffAuthorTargets desired (st.targets .reports author)).toRemove).wp exec () W
          (fun _ st' => Reporting author desired st st') st := by
  have hmem : ∀ t, t ∈ (diffAuthorTargets desired (st.targets .reports author)).toRemove ↔
      (author, t) ∈ st.edges .reports ∧ t ∉ desired := by
    intro t
    rw [diffAuthorTargets, List.mem_filter, decide_eq_true_iff, mem_targets]
  have hadd : ∀ t, t ∈ (diffAuthorTargets desired (st.targets .reports author)).toAdd ↔
      t ∈ desired ∧ (author, t) ∉ st.edges .reports := by
    intro t
    rw [diffAuthorTargets, List.mem_filter, decide_eq_true_iff, mem_targets]
  -- after the deletion the author has edges to desired accounts only
  have hmerge : ∀ {st₁ : Store}, (∀ x t, (x, t) ∈ st₁.edges .reports ↔
      (x, t) ∈ st.edges .reports ∧ (x = author → t ∈ desired)) →
      st₁.sets .reports = st.sets .reports →
      ((writeUnlessEmpty (diffAuthorTargets desired (st.targets .reports author)).toAdd
          fun targets => await (.merge .reports author targets)).bind fun _ =>
        updateReverseSets .reports author desired
          (diffAuthorTargets desired (st.targets .reports author)).toRemove).wp exec () W
            (fun _ st' => Reporting author desired st st') st₁ := by
    intro st₁ hst₁ hsame
    refine wp_writeUnlessEmpty (fun hnil => ?_) ?_
    · refine wp_recompute_sets hsets (fun x t => ?_) hsame
      have hall : t ∈ desired → (author, t) ∈ st.edges .reports := by
        intro ht
        by_contra he
        have hmem' := (hadd t).2 ⟨ht, he⟩
        rw [hnil] at hmem'
        cases hmem'
      rw [hst₁]
      split_ifs with hx
      · subst hx
        tauto
      · tauto
    · intro ω _
      refine ⟨_, rfl, wp_recompute_sets hsets (fun x t => ?_) hsame⟩
      rw [setEdges_edges, mem_merge, hst₁, hadd]
      split_ifs with hx
      · subst hx
        tauto
      · tauto
  refine wp_writeUnlessEmpty (fun hnil => hmerge (fun x t => ?_) rfl) ?_
  · have hall : x = author → (x, t) ∈ st.edges .reports → t ∈ desired := by
      rintro rfl he
      by_contra ht
      have hmem' := (hmem t).2 ⟨he, ht⟩
      rw [hnil] at hmem'
      cases hmem'
    tauto
  · intro ω _
    refine ⟨_, rfl, hmerge (fun x t => ?_) rfl⟩
    rw [setEdges_edges, List.mem_filter, decide_eq_true_iff, hmem]
    constructor
    · rintro ⟨he, hor⟩
      refine ⟨he, ?_⟩
      rintro rfl
      tauto
    · rintro ⟨he, himp⟩
      refine ⟨he, ?_⟩
      tauto

end

variable (event) in
/-- A deletion has the author's edges recomputed, unless there are none. -/
theorem wp_processEventKind5 {read : Outside} {reports : List Event}
    (hread : read event.pubkey = some reports)
    (hsets : ∀ x t, (t, x) ∈ st.sets .reports ↔ (x, t) ∈ st.edges .reports) :
    (processEventKind5 event).wp exec () (· = read)
      (fun _ st' => (st.targets .reports event.pubkey = [] ∧ st' = st) ∨
        Reporting event.pubkey (survivingReportTargets reports event.pubkey) st st') st := by
  intro ω _
  refine ⟨_, rfl, ?_⟩
  show wp exec () _ (if st.targets .reports event.pubkey = [] then _ else _) _ _
  split_ifs with hnil
  · exact Or.inl ⟨hnil, rfl⟩
  · rintro ω rfl
    refine ⟨_, rfl, ?_⟩
    dsimp only [ret_bind]
    rw [hread]
    exact wp_mono _ _ _ (fun _ _ h => Or.inr h) (wp_recompute hsets)

end

/-! ## Between two messages -/

/-- The edges and the sets, on the way to the reports that the relay holds. -/
structure Live (f : Feed) : Prop where
  kinds : ∀ e ∈ f.accepted, e.kind = 1984 ∨ e.kind = 5
  /-- the queue is the end of what was accepted -/
  queued : ∃ past, f.accepted = past ++ f.queue
  /-- what is deleted is not accepted any more -/
  late : f.accepted.Pairwise fun d r => d.kind = 5 → r.kind = 1984 → deletes d r = false
  stored : ∀ r, r ∈ f.stored ↔ r ∈ f.accepted ∧ r.kind = 1984 ∧
    ∀ d ∈ f.accepted, d.kind = 5 → deletes d r = false
  sets : ∀ x t, (t, x) ∈ f.store.sets .reports ↔ (x, t) ∈ f.store.edges .reports
  /-- an edge has a report behind it or a deletion ahead of it -/
  explained : ∀ x t, (x, t) ∈ f.store.edges .reports →
    (∃ r ∈ f.stored, r.pubkey = x ∧ t ∈ extractReportTargets r) ∨
      ∃ d ∈ f.queue, d.kind = 5 ∧ d.pubkey = x
  /-- a report has its edges or is still queued -/
  covered : ∀ r ∈ f.stored, ∀ t ∈ extractReportTargets r,
    r ∈ f.queue ∨ (r.pubkey, t) ∈ f.store.edges .reports

section
variable {f f' : Feed} {e : Event}

theorem live_initial : Live .initial where
  kinds e he := by cases he
  queued := ⟨[], rfl⟩
  late := List.Pairwise.nil
  stored r := by simp [Feed.initial]
  sets x t := by simp [Feed.initial, Store.empty]
  explained x t h := by cases h
  covered r hr := by cases hr

/-- The relay takes a report. -/
theorem Live.accept_report (h : Live f) (hkind : e.kind = 1984) (hrefuses : f.refuses e = false) :
    Live { f with stored := f.stored ++ [e], accepted := f.accepted ++ [e], queue := f.queue ++ [e] } := by
  have hnew : ∀ d ∈ f.accepted, d.kind = 5 → deletes d e = false := by
    intro d hd hk
    have hnot := List.any_eq_false.1 hrefuses d hd
    simpa [hk] using hnot
  have hself : ¬ (e.kind = 5) := by omega
  refine { h with kinds := ?_, queued := ?_, late := ?_, stored := ?_, explained := ?_, covered := ?_ }
  · intro d hd
    rcases List.mem_append.1 hd with hd | hd
    · exact h.kinds d hd
    · exact Or.inl (List.mem_singleton.1 hd ▸ hkind)
  · obtain ⟨past, hpast⟩ := h.queued
    exact ⟨past, by rw [hpast, List.append_assoc]⟩
  · refine List.pairwise_append.2 ⟨h.late, List.pairwise_singleton _ _, fun d hd r hr hk _ => ?_⟩
    rw [List.mem_singleton.1 hr]
    exact hnew d hd hk
  · intro r
    simp only [List.mem_append, List.mem_singleton]
    rw [h.stored]
    constructor
    · rintro (⟨hr, hk, hall⟩ | rfl)
      · refine ⟨Or.inl hr, hk, ?_⟩
        rintro d (hd | rfl) hk'
        · exact hall d hd hk'
        · exact absurd hk' hself
      · refine ⟨Or.inr rfl, hkind, ?_⟩
        rintro d (hd | rfl) hk'
        · exact hnew d hd hk'
        · exact absurd hk' hself
    · rintro ⟨hr | rfl, hk, hall⟩
      · exact Or.inl ⟨hr, hk, fun d hd => hall d (Or.inl hd)⟩
      · exact Or.inr rfl
  · intro x t hx
    rcases h.explained x t hx with ⟨r, hr, hr'⟩ | ⟨d, hd, hd'⟩
    · exact Or.inl ⟨r, List.mem_append_left _ hr, hr'⟩
    · exact Or.inr ⟨d, List.mem_append_left _ hd, hd'⟩
  · intro r hr t ht
    rcases List.mem_append.1 hr with hr | hr
    · exact (h.covered r hr t ht).imp_left (List.mem_append_left _)
    · exact Or.inl (List.mem_append_right _ hr)

/-- The relay takes a deletion. -/
theorem Live.accept_deletion (h : Live f) (hkind : e.kind = 5) :
    Live { f with
      stored := f.stored.filter fun r => !deletes e r
      accepted := f.accepted ++ [e]
      queue := f.queue ++ [e] } := by
  have hself : ¬ (e.kind = 1984) := by omega
  refine { h with kinds := ?_, queued := ?_, late := ?_, stored := ?_, explained := ?_, covered := ?_ }
  · intro d hd
    rcases List.mem_append.1 hd with hd | hd
    · exact h.kinds d hd
    · exact Or.inr (List.mem_singleton.1 hd ▸ hkind)
  · obtain ⟨past, hpast⟩ := h.queued
    exact ⟨past, by rw [hpast, List.append_assoc]⟩
  · refine List.pairwise_append.2 ⟨h.late, List.pairwise_singleton _ _, fun d _ r hr _ hk => ?_⟩
    rw [List.mem_singleton.1 hr] at hk
    exact absurd hk hself
  · intro r
    rw [List.mem_filter, h.stored]
    simp only [List.mem_append, List.mem_singleton, Bool.not_eq_true']
    constructor
    · rintro ⟨⟨hr, hk, hall⟩, hdel⟩
      refine ⟨Or.inl hr, hk, ?_⟩
      rintro d (hd | rfl) hk'
      · exact hall d hd hk'
      · exact hdel
    · rintro ⟨hr | rfl, hk, hall⟩
      · exact ⟨⟨hr, hk, fun d hd => hall d (Or.inl hd)⟩, hall e (Or.inr rfl) hkind⟩
      · exact absurd hk hself
  · intro x t hx
    rcases h.explained x t hx with ⟨r, hr, hpub, ht⟩ | ⟨d, hd, hd'⟩
    · by_cases hdel : deletes e r = true
      · -- the report is gone, and its deletion is queued
        refine Or.inr ⟨e, List.mem_append_right _ List.mem_cons_self, hkind, ?_⟩
        rw [deletes, decide_eq_true_iff] at hdel
        exact hdel.1.trans hpub
      · exact Or.inl ⟨r, List.mem_filter.2 ⟨hr, by simpa using hdel⟩, hpub, ht⟩
    · exact Or.inr ⟨d, List.mem_append_left _ hd, hd'⟩
  · intro r hr t ht
    exact (h.covered r (List.mem_of_mem_filter hr) t ht).imp_left (List.mem_append_left _)

/-- The consumer takes a report. -/
theorem Live.consume_report (h : Live f) {rest : List Event} {st : Store} (hqueue : f.queue = e :: rest)
    (hkind : e.kind = 1984)
    (hst : Reporting e.pubkey (f.store.targets .reports e.pubkey ++ extractReportTargets e) f.store st) :
    Live { f with queue := rest, store := st } := by
  obtain ⟨past, hpast⟩ := h.queued
  rw [hqueue] at hpast
  have hedges : ∀ x t, (x, t) ∈ st.edges .reports ↔
      (x, t) ∈ f.store.edges .reports ∨ (x = e.pubkey ∧ t ∈ extractReportTargets e) := by
    intro x t
    rw [hst.edges, List.mem_append, mem_targets]
    split_ifs with hx
    · subst hx
      tauto
    · tauto
  refine { h with queued := ?_, sets := hst.sets, explained := ?_, covered := ?_ }
  · exact ⟨past ++ [e], by rw [hpast, List.append_assoc]; rfl⟩
  · intro x t hx
    rcases (hedges x t).1 hx with hold | ⟨rfl, ht⟩
    · rcases h.explained x t hold with hr | ⟨d, hd, hk, hpub⟩
      · exact Or.inl hr
      · rw [hqueue] at hd
        rcases List.mem_cons.1 hd with rfl | hd
        · omega
        · exact Or.inr ⟨d, hd, hk, hpub⟩
    · by_cases hstored : e ∈ f.stored
      · exact Or.inl ⟨e, hstored, rfl, ht⟩
      · -- the report is gone by now: its deletion was accepted after it
        have hmem : e ∈ f.accepted := by
          rw [hpast]
          exact List.mem_append_right _ List.mem_cons_self
        obtain ⟨d, hd, hk, hdel⟩ : ∃ d ∈ f.accepted, d.kind = 5 ∧ deletes d e = true := by
          by_contra hnone
          refine hstored ((h.stored e).2 ⟨hmem, hkind, fun d hd hk => ?_⟩)
          by_contra hdel
          exact hnone ⟨d, hd, hk, by simpa using hdel⟩
        have hlate := h.late
        rw [hpast, List.pairwise_append] at hlate
        rw [hpast] at hd
        rcases List.mem_append.1 hd with hd | hd
        · rw [hlate.2.2 d hd e List.mem_cons_self hk hkind] at hdel
          cases hdel
        · rcases List.mem_cons.1 hd with rfl | hd
          · omega
          · rw [deletes, decide_eq_true_iff] at hdel
            exact Or.inr ⟨d, hd, hk, hdel.1⟩
  · intro r hr t ht
    rcases h.covered r hr t ht with hq | hedge
    · rw [hqueue] at hq
      rcases List.mem_cons.1 hq with rfl | hq
      · exact Or.inr ((hedges _ _).2 (Or.inr ⟨rfl, ht⟩))
      · exact Or.inl hq
    · exact Or.inr ((hedges _ _).2 (Or.inl hedge))

/-- The consumer takes a deletion. -/
theorem Live.consume_deletion (h : Live f) {rest : List Event} {st : Store} (hqueue : f.queue = e :: rest)
    (hkind : e.kind = 5)
    (hst : (f.store.targets .reports e.pubkey = [] ∧ st = f.store) ∨ Reporting e.pubkey
      (survivingReportTargets (f.stored.filter (·.pubkey = e.pubkey)) e.pubkey) f.store st) :
    Live { f with queue := rest, store := st } := by
  obtain ⟨past, hpast⟩ := h.queued
  rw [hqueue] at hpast
  have hqueued : ∃ past, f.accepted = past ++ rest :=
    ⟨past ++ [e], by rw [hpast, List.append_assoc]; rfl⟩
  have hcovered : ∀ r ∈ f.stored, ∀ t ∈ extractReportTargets r,
      r ∈ rest ∨ (r.pubkey, t) ∈ f.store.edges .reports := by
    intro r hr t ht
    rcases h.covered r hr t ht with hq | hedge
    · rw [hqueue] at hq
      rcases List.mem_cons.1 hq with rfl | hq
      · have := ((h.stored r).1 hr).2.1
        omega
      · exact Or.inl hq
    · exact Or.inr hedge
  have hothers : ∀ x t, x ≠ e.pubkey → (x, t) ∈ f.store.edges .reports →
      (∃ r ∈ f.stored, r.pubkey = x ∧ t ∈ extractReportTargets r) ∨
        ∃ d ∈ rest, d.kind = 5 ∧ d.pubkey = x := by
    intro x t hx hedge
    rcases h.explained x t hedge with hr | ⟨d, hd, hk, hpub⟩
    · exact Or.inl hr
    · rw [hqueue] at hd
      rcases List.mem_cons.1 hd with rfl | hd
      · exact absurd hpub.symm hx
      · exact Or.inr ⟨d, hd, hk, hpub⟩
  rcases hst with ⟨hnil, rfl⟩ | hst
  · refine { h with queued := hqueued, explained := ?_, covered := hcovered }
    intro x t hx
    refine hothers x t ?_ hx
    rintro rfl
    have hmem := mem_targets.2 hx
    rw [hnil] at hmem
    cases hmem
  · have hdesired : ∀ t, t ∈ survivingReportTargets (f.stored.filter (·.pubkey = e.pubkey)) e.pubkey ↔
        ∃ r ∈ f.stored, r.pubkey = e.pubkey ∧ t ∈ extractReportTargets r := by
      intro t
      rw [mem_survivingReportTargets]
      constructor
      · rintro ⟨r, hr, hr'⟩
        exact ⟨r, List.mem_of_mem_filter hr, hr'⟩
      · rintro ⟨r, hr, hpub, ht⟩
        exact ⟨r, List.mem_filter.2 ⟨hr, by simpa using hpub⟩, hpub, ht⟩
    refine { h with queued := hqueued, sets := hst.sets, explained := ?_, covered := ?_ }
    · intro x t hx
      rw [hst.edges] at hx
      split_ifs at hx with hxe
      · subst hxe
        exact Or.inl ((hdesired t).1 hx)
      · exact hothers x t hxe hx
    · intro r hr t ht
      refine (hcovered r hr t ht).imp_right fun hedge => ?_
      rw [hst.edges]
      split_ifs with hre
      · exact (hdesired t).2 ⟨r, hr, hre, ht⟩
      · exact hedge

theorem Live.step (h : Live f) {ev : FeedEvent} (hstep : Feed.step ev f = some f') : Live f' := by
  cases ev with
  | accept e =>
    simp only [Feed.step] at hstep
    split_ifs at hstep with hkind hrefuses hkind'
    · cases hstep
      exact h.accept_report hkind (by simpa using hrefuses)
    · cases hstep
      exact h.accept_deletion hkind'
  | consume =>
    simp only [Feed.step] at hstep
    cases hqueue : f.queue with
    | nil =>
      rw [hqueue] at hstep
      cases hstep
    | cons e rest =>
      rw [hqueue] at hstep
      obtain ⟨out, hout, rfl⟩ := Option.map_eq_some_iff.1 hstep
      have hmem : e ∈ f.accepted := by
        obtain ⟨past, hpast⟩ := h.queued
        rw [hpast, hqueue]
        exact List.mem_append_right _ List.mem_cons_self
      rcases h.kinds e hmem with hkind | hkind
      · have hhandler : processStrfryEvent e = processEventKind1984 e := by
          simp [processStrfryEvent, hkind]
        rw [hhandler] at hout
        obtain ⟨r, st, halone, hst⟩ := wp_alone exec () (· = f.read) (fun _ => f.read) (fun _ => rfl)
          (Safe.wp exec_total (safe_processEventKind1984 e h.sets))
        rw [halone] at hout
        cases hout
        exact h.consume_report hqueue hkind hst
      · have hhandler : processStrfryEvent e = processEventKind5 e := by
          simp [processStrfryEvent, hkind]
        rw [hhandler] at hout
        obtain ⟨r, st, halone, hst⟩ := wp_alone exec () (· = f.read) (fun _ => f.read) (fun _ => rfl)
          (wp_processEventKind5 e rfl h.sets)
        rw [halone] at hout
        cases hout
        exact h.consume_deletion hqueue hkind hst

end

/-- **The live report graph is that of the batch.**  However far the relay runs ahead,
    whenever the queue is empty the edges and the sets are what all accepted reports and
    deletions make. -/
theorem live_reports_exact (es : List FeedEvent) (f : Feed)
    (hrun : Machine.run Feed.step es .initial = some f) (hempty : f.queue = []) (x t : Pubkey) :
    ((x, t) ∈ f.store.edges .reports ↔ (t, x) ∈ buildDesiredReportedBy
      (f.accepted.filter (·.kind = 1984)) (f.accepted.filter (·.kind = 5))) ∧
    ((t, x) ∈ f.store.sets .reports ↔ (t, x) ∈ buildDesiredReportedBy
      (f.accepted.filter (·.kind = 1984)) (f.accepted.filter (·.kind = 5))) := by
  have h : Live f := Machine.run_inv (P := fun _ => True) (fun _ h hstep => h.step hstep)
    (fun _ _ => trivial) live_initial hrun
  have hedges : (x, t) ∈ f.store.edges .reports ↔ (t, x) ∈ buildDesiredReportedBy
      (f.accepted.filter (·.kind = 1984)) (f.accepted.filter (·.kind = 5)) := by
    rw [mem_buildDesiredReportedBy]
    constructor
    · intro hedge
      rcases h.explained x t hedge with ⟨r, hr, hpub, ht⟩ | ⟨d, hd, -⟩
      · obtain ⟨hacc, hkind, hnone⟩ := (h.stored r).1 hr
        refine ⟨r, List.mem_filter.2 ⟨hacc, by simpa using hkind⟩, hpub, ht, fun d hd => ?_⟩
        rw [List.mem_filter, decide_eq_true_iff] at hd
        exact hnone d hd.1 hd.2
      · rw [hempty] at hd
        cases hd
    · rintro ⟨r, hr, rfl, ht, hnone⟩
      rw [List.mem_filter, decide_eq_true_iff] at hr
      have hstored : r ∈ f.stored := by
        refine (h.stored r).2 ⟨hr.1, hr.2, fun d hd hk => hnone d ?_⟩
        exact List.mem_filter.2 ⟨hd, by simpa using hk⟩
      refine (h.covered r hstored t ht).resolve_left ?_
      rw [hempty]
      exact List.not_mem_nil
  exact ⟨hedges, (h.sets x t).trans hedges⟩

/-- A report is taken back before the consumer gets to it. -/
def sampleFeed : List FeedEvent :=
  [.accept ⟨"r", sampleKey 'a', 1984, 0, [[.str "p", .str (sampleKey 'b')]], ""⟩,
    .accept ⟨"d", sampleKey 'a', 5, 0, [[.str "e", .str "r"]], ""⟩, .consume, .consume]

theorem sampleFeed_exact : ∃ f, Machine.run Feed.step sampleFeed .initial = some f ∧ f.queue = [] ∧
    ∀ x t, ((x, t) ∈ f.store.edges .reports ↔ (t, x) ∈ buildDesiredReportedBy
        (f.accepted.filter (·.kind = 1984)) (f.accepted.filter (·.kind = 5))) ∧
      ((t, x) ∈ f.store.sets .reports ↔ (t, x) ∈ buildDesiredReportedBy
        (f.accepted.filter (·.kind = 1984)) (f.accepted.filter (·.kind = 5))) := by
  have hrun : (Machine.run Feed.step sampleFeed .initial).map (·.queue.length) = some 0 := by
    decide
  obtain ⟨f, hf, hqueue⟩ := Option.map_eq_some_iff.1 hrun
  have hempty := List.length_eq_zero_iff.1 hqueue
  exact ⟨f, hf, hempty, fun x t => live_reports_exact sampleFeed f hf hempty x t⟩

end Graph

end BrainstormServer
