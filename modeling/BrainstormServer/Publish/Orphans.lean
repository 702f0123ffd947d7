/-
  Assertions that stay on the relay.

  A run deletes what is in the persisted baseline and no longer above the
  cutoff, so an assertion outside the baseline is never deleted.  A run that
  fails does not touch the baseline, and whatever it has landed outside of it
  stays untracked (`untracked`) until a successful run has it in its baseline or
  above its cutoff.  A successful run leaves untracked what it keeps on the relay
  and its baseline does not give back; of keys there is no such thing
  (`track_acked_of_keys`).  These are exactly the assertions outside the baseline
  (`Exact.run`).

  Hence a successful run leaves an orphan if and only if something untracked is
  neither in its baseline nor above its cutoff (`no_orphans_iff`), and the
  counterexample is a failed run whose assertion is below the cutoff of the next
  one (`failed_run_leaves_orphan`).  Without a failure it takes an observee that is
  no key (`capital_key_leaves_orphan`).  What `published_state_to_persist` would
  write after a failure covers all that can have landed
  (`publishedStateToPersist_covers`); nothing calls it.
-/
import BrainstormServer.Publish.Upload

namespace BrainstormServer

namespace Publish

variable {R : Type} {Φ : FloatOps R} {cfg : Settings R}

/-! ## What a run does to the relay -/

@[simp] theorem State.updateTaStatus_relay (st : State) (i : ℕ) (s : Status) :
    (st.updateTaStatus i s).relay = st.relay := rfl

@[simp] theorem State.updateTaStatus_observers (st : State) (i : ℕ) (s : Status) :
    (st.updateTaStatus i s).observers = st.observers := rfl

@[simp] theorem beginRun_relay (st : State) (observer : Pubkey) (row : Request) :
    (beginRun cfg st observer row).relay = st.relay := by
  unfold beginRun
  split_ifs <;> rfl

theorem State.baseline_of_observers {st st' : State} {o : Pubkey}
    (h : st'.observers o = st.observers o) : st'.baseline o = st.baseline o := by
  unfold State.baseline
  rw [h]

@[simp] theorem beginRun_observers (st : State) (observer : Pubkey) (row : Request) :
    (beginRun cfg st observer row).observers = st.observers := by
  unfold beginRun
  split_ifs <;> rfl

section
variable {st : State} {observer x : Pubkey} {row : Request} {result : GrapeRankResult R}
  {scorecards : List (Pubkey × ScoreCard R)}

/-- A run asserts only what is above its cutoff. -/
theorem asserts_runEvents {e : Event} (he : e ∈ runEvents Φ cfg st observer row result scorecards)
    (hx : e.asserts x) : x ∈ aboveCutoff Φ scorecards cfg.cutoffOfValidGraperankScores := by
  obtain ⟨i, hi, rfl⟩ := asserts_signPublishEvents.1 ⟨e, he, hx⟩
  exact observee_mem_aboveCutoff hi

/-- A run deletes the baseline without what is above its cutoff. -/
theorem removes_runEvents (hsweep : cfg.relaySweepBelowCutoff = false) :
    (∃ e ∈ runEvents Φ cfg st observer row result scorecards, e.removes x) ↔
      x ∈ st.baseline observer ∧
        x ∉ aboveCutoff Φ scorecards cfg.cutoffOfValidGraperankScores := by
  unfold runEvents plan
  rw [removes_signPublishEvents, hsweep, mem_deletes]

theorem mem_land_run (hsweep : cfg.relaySweepBelowCutoff = false) (l : Landing)
    {relay : Finset Pubkey} :
    x ∈ land relay (l.arrive (runEvents Φ cfg st observer row result scorecards)) ↔
      (∃ e ∈ l.arrive (runEvents Φ cfg st observer row result scorecards), e.asserts x) ∨
        (x ∈ relay ∧
          ∀ e ∈ l.arrive (runEvents Φ cfg st observer row result scorecards), ¬ e.removes x) := by
  refine mem_land fun e he e' he' hx hx' => ?_
  exact ((removes_runEvents hsweep).1 ⟨e', l.planned he', hx'⟩).2
    (asserts_runEvents (l.planned he) hx)

end

/-! ## Untracked assertions -/

/-- The observees that some events assert. -/
def assertedBy (events : List Event) : Finset Pubkey :=
  (events.filterMap fun
    | .ta input => some input.observee
    | .deletion _ => none).toFinset

theorem mem_assertedBy {events : List Event} {x : Pubkey} :
    x ∈ assertedBy events ↔ ∃ e ∈ events, e.asserts x := by
  unfold assertedBy
  rw [List.mem_toFinset, List.mem_filterMap]
  refine exists_congr fun e => and_congr_right fun _ => ?_
  cases e with
  | ta input => exact Option.some_inj
  | deletion observees => exact ⟨fun h => (nomatch h), False.elim⟩

section
variable (Φ cfg) (o : Pubkey)

/-- The assertions of `o` that a step leaves untracked, given those before it:
    a run that does not succeed adds what it has landed, and a successful one
    settles those in its baseline or above its cutoff, unless the new baseline,
    read back, does not have them. -/
def track (st : State) (U : Finset Pubkey) : Step R → Finset Pubkey
  | .upload msg outcome =>
    match msg.cards, st.request msg.privateId with
    | some (observer, scorecards), some row =>
      if observer = o then
        let events := runEvents Φ cfg st observer row msg.result scorecards
        let above := aboveCutoff Φ scorecards cfg.cutoffOfValidGraperankScores
        match outcome.settled above with
        | .acked l _ =>
          (U.filter fun x => x ∉ above ∧ x ∉ st.baseline o) ∪
            (land (st.relay o) (l.arrive events)).filter fun x =>
              x ∈ above ∧ x ∉ unpackPubkeys (packPubkeys above)
        | .failed l => U ∪ assertedBy (l.arrive events)
        | .killed l => U ∪ assertedBy (l.arrive events)
        | .lost => U
      else U
    | _, _ => U
  | _ => U

/-- The untracked assertions of `o` after a history, given those before it. -/
def untracked (st : State) (U : Finset Pubkey) : List (Step R) → Finset Pubkey
  | [] => U
  | s :: steps => untracked (s.apply Φ cfg st) (track Φ cfg o st U s) steps

end

/-- The untracked assertions are those on the relay outside the baseline. -/
def Exact (o : Pubkey) (st : State) (U : Finset Pubkey) : Prop :=
  ∀ x, x ∉ st.baseline o → (x ∈ st.relay o ↔ x ∈ U)

section
variable {o : Pubkey} {st : State} {U : Finset Pubkey}

/-- A step that leaves the relay and the baseline of `o` as they are. -/
theorem Exact.of_eq {st' : State} (h : Exact o st U) (hr : st'.relay o = st.relay o)
    (ho : st'.observers o = st.observers o) : Exact o st' U := by
  intro x hx
  rw [State.baseline_of_observers ho] at hx
  rw [hr]
  exact h x hx

variable {row : Request} {result : GrapeRankResult R} {scorecards : List (Pubkey × ScoreCard R)}

/-- What an unsuccessful run of `o` has landed. -/
theorem Exact.landed (hsweep : cfg.relaySweepBelowCutoff = false) (h : Exact o st U) (l : Landing)
    {st' : State} (hr : st'.relay o = land (st.relay o)
      (l.arrive (runEvents Φ cfg st o row result scorecards)))
    (ho : st'.observers o = st.observers o) :
    Exact o st' (U ∪ assertedBy (l.arrive (runEvents Φ cfg st o row result scorecards))) := by
  intro x hx
  rw [State.baseline_of_observers ho] at hx
  rw [hr, mem_land_run hsweep, Finset.mem_union, mem_assertedBy, ← h x hx]
  -- only what is in the baseline is deleted
  have hkeep : ∀ e ∈ l.arrive (runEvents Φ cfg st o row result scorecards), ¬ e.removes x :=
    fun e he hrem => hx ((removes_runEvents hsweep).1 ⟨e, l.planned he, hrem⟩).1
  constructor
  · rintro (ha | ⟨hxr, -⟩)
    · exact Or.inr ha
    · exact Or.inl hxr
  · rintro (hxr | ha)
    · exact Or.inr ⟨hxr, hkeep⟩
    · exact Or.inl ha

/-- What is on the relay after a run of `o` whose events have all landed. -/
theorem mem_land_all (hsweep : cfg.relaySweepBelowCutoff = false) (l : Landing)
    (hall : ∀ {es : List Event} {e : Event}, e ∈ es → e ∈ l.arrive es) {x : Pubkey}
    (hx : x ∉ aboveCutoff Φ scorecards cfg.cutoffOfValidGraperankScores) :
    x ∈ land (st.relay o) (l.arrive (runEvents Φ cfg st o row result scorecards)) ↔
      x ∈ st.relay o ∧ x ∉ st.baseline o := by
  rw [mem_land_run hsweep]
  constructor
  · rintro (⟨e, he, ha⟩ | ⟨hxr, hkeep⟩)
    · exact absurd (asserts_runEvents (l.planned he) ha) hx
    · refine ⟨hxr, fun hb => ?_⟩
      obtain ⟨e, he, hrem⟩ := (removes_runEvents hsweep).2 ⟨hb, hx⟩
      exact hkeep e (hall he) hrem
  · rintro ⟨hxr, hb⟩
    exact Or.inr ⟨hxr, fun e he hrem => hb ((removes_runEvents hsweep).1 ⟨e, l.planned he, hrem⟩).1⟩

@[simp] theorem landRun_relay {observer : Pubkey} {l : Landing} :
    (landRun Φ cfg st row result observer scorecards l).relay =
      Function.update st.relay observer (land (st.relay observer)
        (l.arrive (runEvents Φ cfg st observer row result scorecards))) := by
  simp [landRun, State.landOn]

@[simp] theorem landRun_observers {observer : Pubkey} {l : Landing} :
    (landRun Φ cfg st row result observer scorecards l).observers = st.observers := by
  simp [landRun, State.landOn]

variable (Φ cfg st row result scorecards) in
/-- A run of another observer. -/
theorem publishRun_other {observer : Pubkey} (ho : o ≠ observer) (outcome : Outcome) :
    (publishRun Φ cfg st row result observer scorecards outcome).relay o = st.relay o ∧
      (publishRun Φ cfg st row result observer scorecards outcome).observers o =
        st.observers o := by
  cases outcome with
  | acked l all =>
    unfold publishRun
    cases packPubkeys (plan Φ cfg st observer scorecards).currentlyPublished with
    | none => simp [Function.update_of_ne ho]
    | some published => simp [State.recordPublished, Function.update_of_ne ho]
  | failed l => simp [publishRun, Function.update_of_ne ho]
  | killed l => simp [publishRun, Function.update_of_ne ho]
  | lost => exact ⟨rfl, rfl⟩

variable (Φ cfg st row result o) in
theorem publishRun_acked (l : Landing)
    (hall : ∀ {es : List Event} {e : Event}, e ∈ es → e ∈ l.arrive es)
    (hpack : (packPubkeys (aboveCutoff Φ scorecards cfg.cutoffOfValidGraperankScores)).isSome) :
    (publishRun Φ cfg st row result o scorecards (.acked l hall)).relay o =
        land (st.relay o) (l.arrive (runEvents Φ cfg st o row result scorecards)) ∧
      (publishRun Φ cfg st row result o scorecards (.acked l hall)).baseline o =
        unpackPubkeys (packPubkeys
          (aboveCutoff Φ scorecards cfg.cutoffOfValidGraperankScores)) := by
  obtain ⟨published, hpublished⟩ := Option.isSome_iff_exists.1 hpack
  have hplan : packPubkeys (plan Φ cfg st o scorecards).currentlyPublished = some published :=
    hpublished
  simp [publishRun, hplan, State.recordPublished, State.baseline, hpublished]

variable (Φ cfg st row result scorecards o) in
theorem publishRun_failed (l : Landing) :
    (publishRun Φ cfg st row result o scorecards (.failed l)).relay o =
        land (st.relay o) (l.arrive (runEvents Φ cfg st o row result scorecards)) ∧
      (publishRun Φ cfg st row result o scorecards (.failed l)).observers o = st.observers o := by
  simp [publishRun]

variable (Φ cfg st row result scorecards o) in
theorem publishRun_killed (l : Landing) :
    (publishRun Φ cfg st row result o scorecards (.killed l)).relay o =
        land (st.relay o) (l.arrive (runEvents Φ cfg st o row result scorecards)) ∧
      (publishRun Φ cfg st row result o scorecards (.killed l)).observers o = st.observers o := by
  simp [publishRun]

/-- After a run of `o` that has published and recorded everything. -/
theorem Exact.acked (hsweep : cfg.relaySweepBelowCutoff = false) (h : Exact o st U) (l : Landing)
    (hall : ∀ {es : List Event} {e : Event}, e ∈ es → e ∈ l.arrive es)
    (hpack : (packPubkeys (aboveCutoff Φ scorecards cfg.cutoffOfValidGraperankScores)).isSome) :
    Exact o (publishRun Φ cfg st row result o scorecards (.acked l hall))
      ((U.filter fun x => x ∉ aboveCutoff Φ scorecards cfg.cutoffOfValidGraperankScores ∧
        x ∉ st.baseline o) ∪
        (land (st.relay o) (l.arrive (runEvents Φ cfg st o row result scorecards))).filter fun x =>
          x ∈ aboveCutoff Φ scorecards cfg.cutoffOfValidGraperankScores ∧
            x ∉ unpackPubkeys (packPubkeys
              (aboveCutoff Φ scorecards cfg.cutoffOfValidGraperankScores))) := by
  obtain ⟨hrelay, hbase⟩ := publishRun_acked Φ cfg o st row result l hall hpack
  intro x hx
  rw [hbase] at hx
  rw [hrelay, Finset.mem_union, Finset.mem_filter, Finset.mem_filter]
  by_cases habove : x ∈ aboveCutoff Φ scorecards cfg.cutoffOfValidGraperankScores
  · simp [habove, hx]
  · rw [mem_land_all hsweep l hall habove]
    constructor
    · rintro ⟨hxr, hb⟩
      exact Or.inl ⟨(h x hb).1 hxr, habove, hb⟩
    · rintro (⟨hu, -, hb⟩ | ⟨-, ha, -⟩)
      · exact ⟨(h x hb).2 hu, hb⟩
      · exact absurd ha habove

/-- **The untracked assertions are kept exactly by every step.** -/
theorem Exact.step (hsweep : cfg.relaySweepBelowCutoff = false) (h : Exact o st U) (s : Step R) :
    Exact o (s.apply Φ cfg st) (track Φ cfg o st U s) := by
  cases s with
  | create pubkey parameters force => exact h.of_eq rfl rfl
  | lost i => exact h.of_eq rfl rfl
  | calcFailed i => exact h.of_eq rfl rfl
  | reaped ids => exact h.of_eq rfl rfl
  | upload msg outcome =>
    simp only [Step.apply, processNostrUploadMessage, track]
    cases hcards : msg.cards with
    | none =>
      simp only []
      split_ifs
      · exact h.of_eq rfl rfl
      · exact h
    | some cards =>
      obtain ⟨observer, scorecards⟩ := cards
      cases hrow : st.request msg.privateId with
      | none => exact h.of_eq rfl rfl
      | some row =>
        simp only []
        split_ifs with ho
        · subst ho
          rw [publishRun_settled]
          cases outcome with
          | acked l hall =>
            unfold Outcome.settled
            split_ifs with hpack
            · exact h.acked hsweep l hall hpack
            · obtain ⟨hr, hobs⟩ := publishRun_failed Φ cfg observer st row msg.result scorecards l
              exact h.landed hsweep l hr hobs
          | failed l =>
            obtain ⟨hr, hobs⟩ := publishRun_failed Φ cfg observer st row msg.result scorecards l
            exact h.landed hsweep l hr hobs
          | killed l =>
            obtain ⟨hr, hobs⟩ := publishRun_killed Φ cfg observer st row msg.result scorecards l
            exact h.landed hsweep l hr hobs
          | lost => exact h.of_eq rfl rfl
        · obtain ⟨hr, hobs⟩ := publishRun_other Φ cfg st row msg.result scorecards (Ne.symm ho)
            outcome
          exact h.of_eq hr hobs

theorem Exact.run (hsweep : cfg.relaySweepBelowCutoff = false) :
    ∀ {steps : List (Step R)} {st : State} {U : Finset Pubkey}, Exact o st U →
      Exact o (run Φ cfg st steps) (untracked Φ cfg o st U steps)
  | [], _, _, h => h
  | s :: _, _, _, h => (h.step hsweep s).run hsweep

end

/-- A state in which the relay holds the persisted baseline. -/
def InSync (o : Pubkey) (st : State) : Prop :=
  st.relay o = (st.baseline o).toFinset

theorem InSync.exact {o : Pubkey} {st : State} (h : InSync o st) : Exact o st ∅ := by
  intro x hx
  rw [h, List.mem_toFinset]
  simp [hx]

/-! ## Successful runs -/

section
variable (Φ cfg)

/-- The above-cutoff set of a run. -/
def Message.above (msg : Message R) : List Pubkey :=
  match msg.cards with
  | none => []
  | some (_, scorecards) => aboveCutoff Φ scorecards cfg.cutoffOfValidGraperankScores

/-- The message is that of a run of `o`, and the run ends as a success. -/
def Succeeds (o : Pubkey) (st : State) (msg : Message R) (outcome : Outcome) : Prop :=
  match msg.cards with
  | none => msg.result.success = some true ∧
      ∃ row, st.request msg.privateId = some row ∧ row.parameters = o
  | some (observer, scorecards) => observer = o ∧ (st.request msg.privateId).isSome ∧
      (∃ (l : Landing) (hall : ∀ {es : List Event} {e : Event}, e ∈ es → e ∈ l.arrive es),
        outcome = .acked l hall) ∧
      (packPubkeys (aboveCutoff Φ scorecards cfg.cutoffOfValidGraperankScores)).isSome

/-- Nothing that earlier runs have left untracked escapes the run: it is in the
    baseline or above the cutoff.  A run without scorecards finds nothing on the
    relay at all. -/
def Settles (o : Pubkey) (st : State) (U : Finset Pubkey) (msg : Message R) : Prop :=
  (msg.cards.isSome ∨ st.relay o = ∅) ∧
    ∀ x ∈ U, x ∈ st.baseline o ∨ x ∈ msg.above Φ cfg

end

/-- One successful run. -/
theorem settles_iff {o : Pubkey} {st : State} {U : Finset Pubkey}
    (hsweep : cfg.relaySweepBelowCutoff = false) (h : Exact o st U) {msg : Message R}
    {outcome : Outcome} (hs : Succeeds Φ cfg o st msg outcome) :
    (∀ x ∈ (Step.apply Φ cfg st (.upload msg outcome)).relay o, x ∈ msg.above Φ cfg) ↔
      Settles Φ cfg o st U msg := by
  unfold Succeeds at hs
  unfold Settles Message.above
  simp only [Step.apply, processNostrUploadMessage]
  cases hcards : msg.cards with
  | none =>
    rw [hcards] at hs
    obtain ⟨hsucc, -⟩ := hs
    simp only [hsucc, if_true, State.updateTaStatus_relay, List.not_mem_nil, or_false,
      Option.isSome_none, Bool.false_eq_true, false_or, ← Finset.eq_empty_iff_forall_notMem]
    refine ⟨fun hempty => ⟨hempty, fun x hx => ?_⟩, fun hempty => hempty.1⟩
    by_contra hb
    have hxr := (h x hb).2 hx
    rw [hempty] at hxr
    exact Finset.notMem_empty x hxr
  | some cards =>
    obtain ⟨observer, scorecards⟩ := cards
    rw [hcards] at hs
    obtain ⟨rfl, hrow, ⟨l, hall, rfl⟩, hpack⟩ := hs
    obtain ⟨row, hrow⟩ := Option.isSome_iff_exists.1 hrow
    obtain ⟨hrelay, -⟩ := publishRun_acked Φ cfg observer st row msg.result l hall hpack
    simp only [hrow, hrelay, Option.isSome_some, true_or, true_and]
    constructor
    · intro hno x hx
      by_contra hcon
      obtain ⟨hb, ha⟩ := not_or.1 hcon
      exact ha (hno x ((mem_land_all hsweep l hall ha).2 ⟨(h x hb).2 hx, hb⟩))
    · intro hset x hx
      by_contra ha
      obtain ⟨hxr, hb⟩ := (mem_land_all hsweep l hall ha).1 hx
      rcases hset x ((h x hb).1 hxr) with hb' | ha'
      · exact hb hb'
      · exact ha ha'

/-- **No successful run leaves an orphan if and only if every one settles what
    the failed runs before it have left untracked.** -/
theorem no_orphans_iff (Φ : FloatOps R) (cfg : Settings R)
    (hsweep : cfg.relaySweepBelowCutoff = false) (o : Pubkey) (st : State) (hsync : InSync o st)
    (steps : List (Step R)) :
    (∀ pre msg outcome post, steps = pre ++ .upload msg outcome :: post →
      Succeeds Φ cfg o (run Φ cfg st pre) msg outcome →
      ∀ x ∈ (run Φ cfg st (pre ++ [.upload msg outcome])).relay o, x ∈ msg.above Φ cfg) ↔
    (∀ pre msg outcome post, steps = pre ++ .upload msg outcome :: post →
      Succeeds Φ cfg o (run Φ cfg st pre) msg outcome →
      Settles Φ cfg o (run Φ cfg st pre) (untracked Φ cfg o st ∅ pre) msg) := by
  refine forall_congr' fun pre => forall_congr' fun msg => forall_congr' fun outcome =>
    forall_congr' fun post => forall_congr' fun _ => forall_congr' fun hs => ?_
  have hexact := (hsync.exact.run hsweep : Exact o (run Φ cfg st pre) _)
  have hlast : run Φ cfg st (pre ++ [.upload msg outcome]) =
      Step.apply Φ cfg (run Φ cfg st pre) (.upload msg outcome) := by
    unfold run
    rw [List.foldl_append]
    rfl
  rw [hlast]
  exact settles_iff hsweep hexact hs

/-- A run fails after its assertions have landed, the next one has the same
    observees above its cutoff, and the one after it has lost one of them. -/
def settledHistory : List (Step ℕ) :=
  [.create "o" "o" false, .create "o" "o" false, .create "o" "o" false,
    .upload (sampleMessage 1 [(keyA, 90), (keyB, 90)]) (.failed arrivesAll),
    .upload (sampleMessage 2 [(keyA, 80), (keyB, 70)]) ackedAll,
    .upload (sampleMessage 3 [(keyA, 80), (keyB, 1)]) ackedAll]

theorem settledHistory_settles : ∀ pre msg outcome post,
    settledHistory = pre ++ .upload msg outcome :: post →
    Succeeds sampleOps sampleSettings "o" (run sampleOps sampleSettings emptyState pre) msg outcome →
    Settles sampleOps sampleSettings "o" (run sampleOps sampleSettings emptyState pre)
      (untracked sampleOps sampleSettings "o" emptyState ∅ pre) msg := by
  intro pre msg outcome post hsplit hs
  match pre, hsplit with
  | [_, _, _], hsplit =>
    -- the first run is no success
    simp only [settledHistory, List.cons_append, List.nil_append, List.cons.injEq,
      Step.upload.injEq] at hsplit
    obtain ⟨-, -, -, ⟨rfl, rfl⟩, -⟩ := hsplit
    obtain ⟨-, -, ⟨l, hall, hout⟩, -⟩ := hs
    cases hout
  | [_, _, _, _], hsplit =>
    simp only [settledHistory, List.cons_append, List.nil_append, List.cons.injEq,
      Step.upload.injEq] at hsplit
    obtain ⟨rfl, rfl, rfl, rfl, ⟨rfl, rfl⟩, -⟩ := hsplit
    refine ⟨Or.inl rfl, fun x hx => Or.inr ?_⟩
    revert x
    decide +kernel
  | [_, _, _, _, _], hsplit =>
    simp only [settledHistory, List.cons_append, List.nil_append, List.cons.injEq,
      Step.upload.injEq] at hsplit
    obtain ⟨rfl, rfl, rfl, rfl, rfl, ⟨rfl, rfl⟩, -⟩ := hsplit
    refine ⟨Or.inl rfl, fun x hx => Or.inl ?_⟩
    revert x
    decide +kernel
  | [], hsplit => simp [settledHistory] at hsplit
  | [_], hsplit => simp [settledHistory] at hsplit
  | [_, _], hsplit => simp [settledHistory] at hsplit
  | _ :: _ :: _ :: _ :: _ :: _ :: pre, hsplit => simp [settledHistory] at hsplit

theorem settledHistory_no_orphans :
    keyB ∈ (run sampleOps sampleSettings emptyState (settledHistory.take 5)).relay "o" ∧
    keyA ∈ (run sampleOps sampleSettings emptyState settledHistory).relay "o" ∧
    ∀ x ∈ (run sampleOps sampleSettings emptyState settledHistory).relay "o",
      x ∈ (sampleMessage 3 [(keyA, 80), (keyB, 1)]).above sampleOps sampleSettings := by
  have hrun : (packPubkeys ((sampleMessage 3 [(keyA, 80), (keyB, 1)]).above sampleOps sampleSettings)).isSome ∧
      keyB ∈ (run sampleOps sampleSettings emptyState (settledHistory.take 5)).relay "o" ∧
      keyA ∈ (run sampleOps sampleSettings emptyState settledHistory).relay "o" := by
    decide +kernel
  have hall := (no_orphans_iff sampleOps sampleSettings rfl "o" emptyState rfl settledHistory).2
    settledHistory_settles (settledHistory.take 5) (sampleMessage 3 [(keyA, 80), (keyB, 1)]) ackedAll
    [] rfl ⟨rfl, by decide, ⟨arrivesAll, fun h => h, rfl⟩, hrun.1⟩
  exact ⟨hrun.2.1, hrun.2.2, hall⟩

/-- A run fails after its assertions have landed, and the next one has one of
    the observees below its cutoff. -/
def orphanHistory : List (Step ℕ) :=
  [.create "o" "o" false, .create "o" "o" false,
    .upload (sampleMessage 1 [(keyA, 90), (keyB, 90)]) (.failed arrivesAll),
    .upload (sampleMessage 2 [(keyA, 80), (keyB, 1)]) ackedAll]

/-- **A failed run leaves an orphan behind the next successful one.**  Its
    assertion about `keyB` landed and was never recorded, so the next run has
    nothing to delete. -/
theorem failed_run_leaves_orphan :
    InSync "o" emptyState ∧
    Succeeds sampleOps sampleSettings "o"
      (run sampleOps sampleSettings emptyState (orphanHistory.take 3))
      (sampleMessage 2 [(keyA, 80), (keyB, 1)]) ackedAll ∧
    keyB ∈ (run sampleOps sampleSettings emptyState orphanHistory).relay "o" ∧
    keyB ∉ (sampleMessage 2 [(keyA, 80), (keyB, 1)]).above sampleOps sampleSettings := by
  have hrun : (packPubkeys ((sampleMessage 2 [(keyA, 80), (keyB, 1)]).above sampleOps sampleSettings)).isSome ∧
      keyB ∈ (run sampleOps sampleSettings emptyState orphanHistory).relay "o" ∧
      keyB ∉ (sampleMessage 2 [(keyA, 80), (keyB, 1)]).above sampleOps sampleSettings := by
    decide +kernel
  exact ⟨rfl, ⟨rfl, by decide, ⟨arrivesAll, fun h => h, rfl⟩, hrun.1⟩, hrun.2⟩

/-! ## Observees that are no keys -/

/-- The baseline gives keys back. -/
theorem unpackPubkeys_packPubkeys {pubkeys : List Pubkey} (h : ∀ p ∈ pubkeys, Nostr.IsPubkey p) :
    unpackPubkeys (packPubkeys pubkeys) = pubkeys := by
  obtain ⟨blob, hpack, hunpack⟩ := unpackPubkeys_of_packPubkeys h
  rw [hpack, hunpack]

/-- A run whose observees are keys leaves nothing untracked when it succeeds. -/
theorem track_acked_of_keys {o : Pubkey} {st : State} {U : Finset Pubkey} {msg : Message R}
    {outcome : Outcome} (hs : Succeeds Φ cfg o st msg outcome)
    (hkeys : ∀ p ∈ msg.above Φ cfg, Nostr.IsPubkey p) :
    track Φ cfg o st U (.upload msg outcome) ⊆ U := by
  unfold Succeeds at hs
  unfold Message.above at hkeys
  unfold track
  cases hcards : msg.cards with
  | none => simp only [hcards, Finset.Subset.refl]
  | some cards =>
    obtain ⟨observer, scorecards⟩ := cards
    rw [hcards] at hs hkeys
    obtain ⟨rfl, hrow, ⟨l, hall, rfl⟩, hpack⟩ := hs
    obtain ⟨row, hrow⟩ := Option.isSome_iff_exists.1 hrow
    simp only [hcards, hrow, if_true, Outcome.settled, hpack, unpackPubkeys_packPubkeys hkeys]
    intro x hx
    rcases Finset.mem_union.1 hx with hx | hx
    · exact (Finset.mem_filter.1 hx).1
    · obtain ⟨-, hin, hout⟩ := Finset.mem_filter.1 hx
      exact absurd hin hout

/-- `keyA` in capital digits. -/
def capitalA : Pubkey := "AAAAAAAAAAAAAAAAAAAAAAAAAAAAAAAAAAAAAAAAAAAAAAAAAAAAAAAAAAAAAAAA"

/-- Both runs succeed, and the second has the observee of the first below its cutoff. -/
def capitalHistory : List (Step ℕ) :=
  [.create "o" "o" false, .create "o" "o" false,
    .upload (sampleMessage 1 [(capitalA, 90)]) ackedAll,
    .upload (sampleMessage 2 [(capitalA, 1), (keyB, 90)]) ackedAll]

/-- An observee in capital digits is recorded in small ones, and what is deleted is an
    assertion that is not there. -/
theorem capital_key_leaves_orphan :
    (run sampleOps sampleSettings emptyState (capitalHistory.take 3)).baseline "o" = [keyA] ∧
    capitalA ∈ (run sampleOps sampleSettings emptyState capitalHistory).relay "o" ∧
    capitalA ∉ (sampleMessage 2 [(capitalA, 1), (keyB, 90)]).above sampleOps sampleSettings :=
  by decide +kernel

/-! ## What the unused helper would have recorded -/

/-- Whatever an unsuccessful run may have landed is in the state that
    `published_state_to_persist` keeps after a failed relay write. -/
theorem publishedStateToPersist_covers {o x : Pubkey} {st : State} {row : Request}
    {result : GrapeRankResult R} {scorecards : List (Pubkey × ScoreCard R)}
    (hsync : ∀ y ∈ st.relay o, y ∈ st.baseline o)
    (hsweep : cfg.relaySweepBelowCutoff = false) (l : Landing)
    (hx : x ∈ (publishRun Φ cfg st row result o scorecards (.failed l)).relay o) :
    x ∈ publishedStateToPersist (st.baseline o)
      (aboveCutoff Φ scorecards cfg.cutoffOfValidGraperankScores) true := by
  rw [(publishRun_failed Φ cfg o st row result scorecards l).1, mem_land_run hsweep] at hx
  simp only [publishedStateToPersist, if_true, List.mem_dedup, List.mem_append]
  rcases hx with ⟨e, he, ha⟩ | ⟨hxr, -⟩
  · exact Or.inr (asserts_runEvents (l.planned he) ha)
  · exact Or.inl (hsync x hxr)

end Publish

end BrainstormServer
