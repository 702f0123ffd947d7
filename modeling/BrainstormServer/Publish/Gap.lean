/-
  Publish gaps and the full sync that repairs them.

  A run whose publish has failed leaves a gap on the relay: later runs send only
  what has changed since.  The gap is outstanding (`outstanding`) until a run
  has published everything above its cutoff.  The server reads this off the
  request rows: a failure counts if its id is above that of the last success
  marked as full and below that of the run about to publish
  (`relay_publish_gap_pending_on_db`).

  Ids say when a request was created, not when it was processed.  Where the two
  orders agree on the runs concerned, and runs without scorecards do not pass
  for full ones (`Orderly`), every run with a gap before it is a full sync
  (`gaps_are_repaired`).  Otherwise a gap stays (`overtaken_gap_unrepaired`).
-/
import BrainstormServer.Publish.Upload

namespace BrainstormServer

namespace Publish

variable {R : Type} {Φ : FloatOps R} {cfg : Settings R}

/-! ## What a step does to the request rows -/

/-- Two versions of one row. -/
structure SameRequest (row row' : Request) : Prop where
  privateId : row'.privateId = row.privateId
  pubkey : row'.pubkey = row.pubkey
  parameters : row'.parameters = row.parameters

/-- The rows are rewritten by `g`. -/
structure Rewrites (g : Request → Request) (st st' : State) : Prop where
  requests : st'.requests = st.requests.map g
  lastId : st'.lastId = st.lastId
  same : ∀ row, SameRequest row (g row)

/-- The status of the publish stage after a run. -/
def Outcome.status : Outcome → Status
  | .acked _ _ => .success
  | .failed _ => .failure
  | .killed _ => .ongoing
  | .lost => .failure

/-- One row gets a new status, and possibly a new mark. -/
def setStage (privateId : ℕ) (status : Status) (mark : Option Bool → Option Bool) (row : Request) :
    Request :=
  if row.privateId = privateId then
    { row with statusTaPublication := status, forceFullRelay := mark row.forceFullRelay }
  else row

theorem setStage_same (i : ℕ) (s : Status) (mark : Option Bool → Option Bool) (row : Request) :
    SameRequest row (setStage i s mark row) := by
  unfold setStage
  split_ifs
  · exact ⟨rfl, rfl, rfl⟩
  · exact ⟨rfl, rfl, rfl⟩

theorem updateTaStatus_rewrites (st : State) (i : ℕ) (s : Status) :
    Rewrites (setStage i s id) st (st.updateTaStatus i s) :=
  ⟨rfl, rfl, setStage_same i s id⟩

theorem setStage_comp (i : ℕ) (s s' : Status) (mark mark' : Option Bool → Option Bool) :
    setStage i s' mark' ∘ setStage i s mark = setStage i s' (mark' ∘ mark) := by
  ext1 row
  by_cases h : row.privateId = i
  · simp [setStage, h]
  · simp [setStage, h]

theorem Rewrites.stage {st st' : State} {i : ℕ} {s : Status} {mark : Option Bool → Option Bool}
    (h : Rewrites (setStage i s mark) st st') (s' : Status) :
    Rewrites (setStage i s' mark) st (st'.updateTaStatus i s') where
  requests := by
    rw [(updateTaStatus_rewrites st' i s').requests, h.requests, List.map_map, setStage_comp]
    rfl
  lastId := h.lastId
  same := setStage_same i s' mark

variable (cfg) in
theorem beginRun_rewrites (st : State) (observer : Pubkey) (row : Request) :
    ∃ mark, Rewrites (setStage row.privateId .ongoing mark) st (beginRun cfg st observer row) := by
  unfold beginRun
  split_ifs
  · refine ⟨fun _ => some true, ?_, rfl, setStage_same _ _ _⟩
    simp only [State.updateTaStatus, State.markForceFullRelay, State.modifyRequest, List.map_map]
    refine List.map_congr_left fun r _ => ?_
    by_cases h : r.privateId = row.privateId
    · simp [setStage, h]
    · simp [setStage, h]
  · exact ⟨id, updateTaStatus_rewrites st row.privateId .ongoing⟩

variable (cfg) in
/-- A run writes its own row only: the status of its outcome, and perhaps the mark. -/
theorem publishRun_rewrites (st : State) (row : Request) (result : GrapeRankResult R)
    (observer : Pubkey) (scorecards : List (Pubkey × ScoreCard R)) (outcome : Outcome) :
    ∃ mark, Rewrites (setStage row.privateId (outcome.settled
        (aboveCutoff Φ scorecards cfg.cutoffOfValidGraperankScores)).status mark) st
      (publishRun Φ cfg st row result observer scorecards outcome) := by
  obtain ⟨mark, h⟩ := beginRun_rewrites cfg st observer row
  cases outcome with
  | acked l all =>
    have hplan : (plan Φ cfg st observer scorecards).currentlyPublished =
        aboveCutoff Φ scorecards cfg.cutoffOfValidGraperankScores := rfl
    unfold publishRun Outcome.settled
    rw [hplan]
    cases packPubkeys (aboveCutoff Φ scorecards cfg.cutoffOfValidGraperankScores) with
    | none =>
      have h' := h.stage .failure
      exact ⟨mark, h'.requests, h'.lastId, h'.same⟩
    | some published =>
      have h' := h.stage .success
      exact ⟨mark, h'.requests, h'.lastId, h'.same⟩
  | failed l =>
    have h' := h.stage .failure
    exact ⟨mark, h'.requests, h'.lastId, h'.same⟩
  | killed l => exact ⟨mark, h.requests, h.lastId, h.same⟩
  | lost => exact ⟨id, updateTaStatus_rewrites st row.privateId .failure⟩

theorem request_mem {st : State} {i : ℕ} {row : Request} (h : st.request i = some row) :
    row ∈ st.requests ∧ row.privateId = i :=
  ⟨List.mem_of_find?_eq_some h, by simpa using List.find?_some h⟩

/-! ## The table -/

/-- The rows of a table that only `create` has added to: ids are handed out in
    order, from 1 on, and a request is made under its observer's own key. -/
structure Sound (st : State) : Prop where
  ids : (st.requests.map (·.privateId)).Nodup
  positive : ∀ row ∈ st.requests, 0 < row.privateId
  bounded : ∀ row ∈ st.requests, row.privateId ≤ st.lastId
  owned : ∀ row ∈ st.requests, row.pubkey = some row.parameters

theorem Sound.rewrites {g : Request → Request} {st st' : State} (h : Sound st)
    (hg : Rewrites g st st') : Sound st' where
  ids := by
    have hids : (·.privateId) ∘ g = (·.privateId) := funext fun row => (hg.same row).privateId
    rw [hg.requests, List.map_map, hids]
    exact h.ids
  positive row hrow := by
    rw [hg.requests] at hrow
    obtain ⟨r, hr, rfl⟩ := List.mem_map.1 hrow
    rw [(hg.same r).privateId]
    exact h.positive r hr
  bounded row hrow := by
    rw [hg.requests] at hrow
    obtain ⟨r, hr, rfl⟩ := List.mem_map.1 hrow
    rw [(hg.same r).privateId, hg.lastId]
    exact h.bounded r hr
  owned row hrow := by
    rw [hg.requests] at hrow
    obtain ⟨r, hr, rfl⟩ := List.mem_map.1 hrow
    rw [(hg.same r).pubkey, (hg.same r).parameters]
    exact h.owned r hr

/-- Rows with the same id are the same. -/
theorem Sound.unique {st : State} (h : Sound st) {row row' : Request} (hr : row ∈ st.requests)
    (hr' : row' ∈ st.requests) (hid : row.privateId = row'.privateId) : row = row' :=
  List.inj_on_of_nodup_map h.ids hr hr' hid

/-! ## Outstanding gaps -/

/-- The outstanding failures after a run with scorecards: a full one that has
    succeeded has repaired them all. -/
def Outcome.gapAfter (fullSync : Bool) (privateId : ℕ) (G : List ℕ) : Outcome → List ℕ
  | .acked _ _ => if fullSync then [] else G
  | .failed _ => G ++ [privateId]
  | .killed _ => G
  | .lost => G ++ [privateId]

section
variable (Φ cfg) (o : Pubkey)

/-- A run of `o` with one of the ids that has begun and not ended. -/
def Killed (ids : List ℕ) (row : Request) : Prop :=
  row.privateId ∈ ids ∧ row.parameters = o ∧ row.statusTaPublication = .ongoing

instance (ids : List ℕ) : DecidablePred (Killed o ids) := fun row =>
  inferInstanceAs (Decidable (row.privateId ∈ ids ∧ row.parameters = o ∧
    row.statusTaPublication = .ongoing))

/-- The failed runs of `o` outstanding after a step, given those before it. -/
def noteGap (st : State) (G : List ℕ) : Step R → List ℕ
  | .upload msg outcome =>
    match msg.cards, st.request msg.privateId with
    | some (observer, scorecards), some row =>
      if row.parameters = o then
        (outcome.settled (aboveCutoff Φ scorecards cfg.cutoffOfValidGraperankScores)).gapAfter
          (relayFullSync cfg st observer row) row.privateId G
      else G
    | _, _ => G
  | .lost privateId =>
    match st.request privateId with
    | some row => if row.parameters = o then G ++ [privateId] else G
    | none => G
  -- of the rows the reaper closes, those of runs that were killed
  | .reaped ids => G ++ (st.requests.filter (Killed o ids)).map (·.privateId)
  | _ => G

end

section
variable (Φ cfg) (o : Pubkey)

/-- The failed runs of `o` outstanding after a history, in the order of processing. -/
def outstanding (st : State) (G : List ℕ) : List (Step R) → List ℕ
  | [] => G
  | s :: steps => outstanding (s.apply Φ cfg st) (noteGap Φ cfg o st G s) steps

end

/-- The rows say that the runs of `G` have failed, and that no success of `o`
    marked as full has a later id. -/
structure Recorded (o : Pubkey) (st : State) (G : List ℕ) : Prop where
  failed : ∀ f ∈ G, ∃ row ∈ st.requests, row.privateId = f ∧ row.parameters = o ∧
    row.statusTaPublication = .failure
  newest : ∀ f ∈ G, ∀ row ∈ st.requests, row.parameters = o → row.forceFullRelay = some true →
    row.statusTaPublication = .success → row.privateId < f

theorem recorded_nil (o : Pubkey) (st : State) : Recorded o st [] :=
  ⟨fun _ hf => (nomatch hf), fun _ hf => (nomatch hf)⟩

theorem foldr_max_lt {n : ℕ} (hn : 0 < n) : ∀ {l : List ℕ}, (∀ x ∈ l, x < n) → l.foldr max 0 < n
  | [], _ => hn
  | x :: l, h => by
    have hx := h x List.mem_cons_self
    have ih := foldr_max_lt hn fun y hy => h y (List.mem_cons_of_mem x hy)
    simp only [List.foldr_cons]
    omega

/-- A run with a later id than an outstanding failure sees the gap. -/
theorem Recorded.gap_pending {o : Pubkey} {st : State} {G : List ℕ} (h : Recorded o st G)
    (hs : Sound st) {f i : ℕ} (hf : f ∈ G) (hi : f < i) :
    st.relayPublishGapPending o i = true := by
  obtain ⟨row, hrow, rfl, hparams, hstatus⟩ := h.failed f hf
  have hlast : st.lastFullOk o i < row.privateId := by
    refine foldr_max_lt (hs.positive row hrow) fun x hx => ?_
    obtain ⟨r, hr, rfl⟩ := List.mem_map.1 hx
    obtain ⟨hmem, hfull⟩ := List.mem_filter.1 hr
    simp only [decide_eq_true_eq] at hfull
    obtain ⟨hpub, -, hforce, hsucc⟩ := hfull
    have hp : r.parameters = o := Option.some.inj ((hs.owned r hmem).symm.trans hpub)
    exact h.newest row.privateId hf r hmem hp hforce hsucc
  refine List.any_eq_true.2 ⟨row, hrow, ?_⟩
  simp only [decide_eq_true_eq]
  exact ⟨(hs.owned row hrow).trans (congrArg some hparams), hi, hlast, hstatus⟩

/-- Rewriting the rows keeps the record if no outstanding failure is overwritten
    and a new success marked as full has an id below all of them. -/
theorem Recorded.rewrites {o : Pubkey} {st st' : State} {G : List ℕ} {g : Request → Request}
    (h : Recorded o st G) (hg : Rewrites g st st')
    (hfail : ∀ row ∈ st.requests, row.parameters = o → row.privateId ∈ G →
      row.statusTaPublication = .failure → (g row).statusTaPublication = .failure)
    (hfull : ∀ row ∈ st.requests, row.parameters = o → (g row).forceFullRelay = some true →
      (g row).statusTaPublication = .success →
      (row.forceFullRelay = some true ∧ row.statusTaPublication = .success) ∨
        ∀ f ∈ G, row.privateId < f) : Recorded o st' G where
  failed f hf := by
    obtain ⟨row, hrow, rfl, hparams, hstatus⟩ := h.failed f hf
    refine ⟨g row, ?_, (hg.same row).privateId, (hg.same row).parameters.trans hparams,
      hfail row hrow hparams hf hstatus⟩
    rw [hg.requests]
    exact List.mem_map_of_mem hrow
  newest f hf row hrow hparams hforce hsucc := by
    rw [hg.requests] at hrow
    obtain ⟨r, hr, rfl⟩ := List.mem_map.1 hrow
    have hp : r.parameters = o := (hg.same r).parameters.symm.trans hparams
    rw [(hg.same r).privateId]
    rcases hfull r hr hp hforce hsucc with ⟨hf', hs'⟩ | hlt
    · exact h.newest f hf r hr hp hf' hs'
    · exact hlt f hf

/-- Stages are closed as failures, and nothing else. -/
def Closes (g : Request → Request) : Prop :=
  ∀ row, g row = row ∨ (g row).statusTaPublication = .failure

theorem setStage_closes (i : ℕ) (mark : Option Bool → Option Bool) :
    Closes (setStage i .failure mark) := by
  intro row
  unfold setStage
  split_ifs
  · exact Or.inr rfl
  · exact Or.inl rfl

theorem Closes.success {g : Request → Request} (h : Closes g) {row : Request}
    (hsucc : (g row).statusTaPublication = .success) : g row = row := by
  rcases h row with heq | hfail
  · exact heq
  · rw [hsucc] at hfail
    cases hfail

theorem Recorded.fail {o : Pubkey} {st st' : State} {G : List ℕ} {g : Request → Request}
    (h : Recorded o st G) (hg : Rewrites g st st') (hc : Closes g) : Recorded o st' G := by
  refine h.rewrites hg (fun row _ _ _ hstatus => ?_) (fun row _ _ hforce hsucc => ?_)
  · rcases hc row with heq | hfail
    · rw [heq]
      exact hstatus
    · exact hfail
  · rw [hc.success hsucc] at hforce hsucc
    exact Or.inl ⟨hforce, hsucc⟩

/-- The id of a failing run of `o` is not below that of a success of `o` marked
    as full. -/
def Latest (o : Pubkey) (st : State) (privateId : ℕ) : Prop :=
  ∀ row ∈ st.requests, row.parameters = o → row.forceFullRelay = some true →
    row.statusTaPublication = .success → row.privateId ≤ privateId

theorem Latest.close {o : Pubkey} {st st' : State} {i : ℕ} {g : Request → Request}
    (h : Latest o st i) (hg : Rewrites g st st') (hc : Closes g) : Latest o st' i := by
  intro row hrow hparams hforce hsucc
  rw [hg.requests] at hrow
  obtain ⟨r, hr, rfl⟩ := List.mem_map.1 hrow
  have heq := hc.success hsucc
  rw [heq] at hparams hforce hsucc ⊢
  exact h r hr hparams hforce hsucc

/-- Failed runs of `o` join the outstanding ones. -/
theorem Recorded.join {o : Pubkey} {st : State} {G F : List ℕ} (h : Recorded o st G) (hs : Sound st)
    (hF : ∀ f ∈ F, Latest o st f ∧ ∃ row ∈ st.requests, row.privateId = f ∧ row.parameters = o ∧
      row.statusTaPublication = .failure) : Recorded o st (G ++ F) where
  failed f hf := by
    rcases List.mem_append.1 hf with hf | hf
    · exact h.failed f hf
    · exact (hF f hf).2
  newest f hf r hr hp hforce hsucc := by
    rcases List.mem_append.1 hf with hf | hf
    · exact h.newest f hf r hr hp hforce hsucc
    · obtain ⟨hlast, row, hrow, rfl, -, hfail⟩ := hF f hf
      refine lt_of_le_of_ne (hlast r hr hp hforce hsucc) fun hid => ?_
      rw [hs.unique hr hrow hid, hfail] at hsucc
      cases hsucc

/-- A run of `o` fails. -/
theorem Recorded.join_one {o : Pubkey} {st st' : State} {G : List ℕ} {row : Request}
    {mark : Option Bool → Option Bool} (h : Recorded o st G) (hs : Sound st)
    (hg : Rewrites (setStage row.privateId .failure mark) st st') (hrow : row ∈ st.requests)
    (hparams : row.parameters = o) (hlast : Latest o st row.privateId) :
    Recorded o st' (G ++ [row.privateId]) := by
  have hc := setStage_closes row.privateId mark
  refine (h.fail hg hc).join (hs.rewrites hg) fun f hf => ?_
  rw [List.mem_singleton.1 hf]
  refine ⟨hlast.close hg hc, setStage row.privateId .failure mark row, ?_,
    (hg.same row).privateId, (hg.same row).parameters.trans hparams, by simp [setStage]⟩
  rw [hg.requests]
  exact List.mem_map_of_mem hrow

/-! ## Orderly histories -/

section
variable (Φ cfg) (o : Pubkey)

/-- A run comes late enough: it is to be full anyway, or has an id above that of
    an outstanding failure, if there is one. -/
def Follows (G : List ℕ) (row : Request) : Prop :=
  G ≠ [] → resolveFullSync cfg.relayFullSync row.forceFullRelay = true ∨
    ∃ f ∈ G, f < row.privateId

/-- What is asked of the upload of a run with scorecards. -/
def Outcome.Orderly (st : State) (G : List ℕ) (row : Request) : Outcome → Prop
  | .acked _ _ => Follows cfg G row
  | .failed _ => Follows cfg G row ∧ Latest o st row.privateId
  | .killed _ => Follows cfg G row ∧ row.privateId ∉ G
  | .lost => Latest o st row.privateId

/-- What is asked of a step before which `G` are the outstanding failures of `o`:
    * a request is made under its observer's own key;
    * a run of `o` publishes only after one of them in the order of ids, unless it
      is to be full anyway;
    * a run of `o` fails only with an id above the successes marked as full;
    * a run of `o` that is killed, or has no scorecards, is none of them; without
      scorecards none of them has a lower id if it was to be full. -/
def Orderly (st : State) (G : List ℕ) : Step R → Prop
  | .create pubkey parameters _ => pubkey = parameters
  | .upload msg outcome =>
    match st.request msg.privateId with
    | none => True
    | some row => row.parameters = o →
      match msg.cards with
      | none => msg.result.success = some true → msg.privateId ∉ G ∧
          (row.forceFullRelay = some true → ∀ f ∈ G, msg.privateId < f)
      | some (_, scorecards) =>
        (outcome.settled (aboveCutoff Φ scorecards cfg.cutoffOfValidGraperankScores)).Orderly cfg o
          st G row
  | .lost privateId =>
    match st.request privateId with
    | none => True
    | some row => row.parameters = o → Latest o st privateId
  | .calcFailed _ => True
  | .reaped ids => ∀ row ∈ st.requests, Killed o ids row → Latest o st row.privateId

/-- The worker calculates the scores of the observer it was asked for. -/
def Answers (st : State) : Step R → Prop
  | .upload msg _ => ∀ observer scorecards row, msg.cards = some (observer, scorecards) →
      st.request msg.privateId = some row → row.parameters = observer
  | _ => True

end

section
variable (Φ cfg) (o : Pubkey)

/-- Every step of a history is as asked. -/
def OrderlyRun (st : State) (G : List ℕ) : List (Step R) → Prop
  | [] => True
  | s :: steps => Orderly Φ cfg o st G s ∧ OrderlyRun (s.apply Φ cfg st) (noteGap Φ cfg o st G s) steps

/-- Every result of a history is the worker's answer. -/
def Answered (st : State) : List (Step R) → Prop
  | [] => True
  | s :: steps => Answers st s ∧ Answered (s.apply Φ cfg st) steps

end

/-- A run that follows the outstanding failures is a full sync. -/
theorem Recorded.fullSync {o : Pubkey} {st : State} {G : List ℕ} (h : Recorded o st G)
    (hs : Sound st) {row : Request} (hf : Follows cfg G row) (hne : G ≠ []) :
    relayFullSync cfg st o row = true := by
  unfold relayFullSync
  rcases hf hne with hfull | ⟨f, hmem, hlt⟩
  · rw [hfull, Bool.true_or]
  · rw [h.gap_pending hs hmem hlt, Bool.or_true]

/-- An upload of a run with scorecards. -/
theorem Recorded.publish {o : Pubkey} {st : State} {G : List ℕ} (h : Recorded o st G)
    (hs : Sound st) {row : Request} (hrow : row ∈ st.requests) (hparams : row.parameters = o)
    (result : GrapeRankResult R) (scorecards : List (Pubkey × ScoreCard R)) {outcome : Outcome}
    (ho : (outcome.settled (aboveCutoff Φ scorecards cfg.cutoffOfValidGraperankScores)).Orderly cfg
      o st G row) :
    Recorded o (publishRun Φ cfg st row result o scorecards outcome)
      ((outcome.settled (aboveCutoff Φ scorecards cfg.cutoffOfValidGraperankScores)).gapAfter
        (relayFullSync cfg st o row) row.privateId G) := by
  obtain ⟨mark, hg⟩ := publishRun_rewrites (Φ := Φ) cfg st row result o scorecards outcome
  generalize outcome.settled (aboveCutoff Φ scorecards cfg.cutoffOfValidGraperankScores) =
    settled at ho hg ⊢
  cases settled with
  | failed l => exact h.join_one hs hg hrow hparams ho.2
  | lost => exact h.join_one hs hg hrow hparams ho
  | killed l =>
    -- the row is none of the outstanding ones, and no success
    refine h.rewrites hg (fun r _ _ hmem hstatus => ?_) (fun r _ _ hforce hsucc => ?_)
    · have hid : r.privateId ≠ row.privateId := fun he => ho.2 (he ▸ hmem)
      simp only [setStage, hid, if_false]
      exact hstatus
    · by_cases hid : r.privateId = row.privateId
      · simp [setStage, hid, Outcome.status] at hsucc
      · simp only [setStage, hid, if_false] at hforce hsucc
        exact Or.inl ⟨hforce, hsucc⟩
  | acked l all =>
    -- a delta is published only where nothing is outstanding
    have hnil : (Outcome.acked l all).gapAfter (relayFullSync cfg st o row) row.privateId G = [] := by
      by_cases hne : G = []
      · simp [Outcome.gapAfter, hne]
      · simp [Outcome.gapAfter, h.fullSync hs ho hne]
    rw [hnil]
    exact recorded_nil o _

/-- A row is added, with a status of its own. -/
theorem Recorded.create {o : Pubkey} {st : State} {G : List ℕ} (h : Recorded o st G)
    {row : Request} {i : ℕ} (hrow : row.statusTaPublication = .waiting) :
    Recorded o { st with requests := st.requests ++ [row], lastId := i } G where
  failed f hf := by
    obtain ⟨r, hr, hid⟩ := h.failed f hf
    exact ⟨r, List.mem_append_left _ hr, hid⟩
  newest f hf r hr hparams hforce hsucc := by
    rcases List.mem_append.1 hr with hr | hr
    · exact h.newest f hf r hr hparams hforce hsucc
    · rw [List.mem_singleton.1 hr, hrow] at hsucc
      cases hsucc

theorem Sound.create {st : State} (h : Sound st) (pubkey : Pubkey) (force : Option Bool) :
    Sound { st with
      requests := st.requests ++ [⟨st.lastId + 1, some pubkey, pubkey, .waiting, force⟩]
      lastId := st.lastId + 1 } where
  ids := by
    rw [List.map_append, List.nodup_append]
    refine ⟨h.ids, by simp, fun i hi j hj => ?_⟩
    obtain ⟨row, hrow, rfl⟩ := List.mem_map.1 hi
    have hle := h.bounded row hrow
    simp only [List.map_cons, List.map_nil, List.mem_singleton] at hj
    omega
  positive row hrow := by
    rcases List.mem_append.1 hrow with hrow | hrow
    · exact h.positive row hrow
    · rw [List.mem_singleton.1 hrow]
      exact Nat.succ_pos _
  bounded row hrow := by
    rcases List.mem_append.1 hrow with hrow | hrow
    · exact Nat.le_succ_of_le (h.bounded row hrow)
    · rw [List.mem_singleton.1 hrow]
  owned row hrow := by
    rcases List.mem_append.1 hrow with hrow | hrow
    · exact h.owned row hrow
    · rw [List.mem_singleton.1 hrow]

/-- The reaper closes stages as failures. -/
theorem reaped_rewrites (Φ : FloatOps R) (cfg : Settings R) (st : State) (ids : List ℕ) :
    Rewrites (fun row => if row.privateId ∈ ids ∧ row.statusTaPublication ∈ [.waiting, .ongoing]
      then { row with statusTaPublication := .failure } else row) st
      (Step.apply Φ cfg st (.reaped ids)) := by
  refine ⟨rfl, rfl, fun row => ?_⟩
  split_ifs
  · exact ⟨rfl, rfl, rfl⟩
  · exact ⟨rfl, rfl, rfl⟩

theorem reaped_closes (ids : List ℕ) :
    Closes (fun row : Request => if row.privateId ∈ ids ∧
      row.statusTaPublication ∈ [.waiting, .ongoing]
      then { row with statusTaPublication := .failure } else row) := by
  intro row
  beta_reduce
  split_ifs
  · exact Or.inr rfl
  · exact Or.inl rfl

/-- The reaper closes the killed runs of `o`. -/
theorem Recorded.reaped {o : Pubkey} {st : State} {G : List ℕ} (h : Recorded o st G) (hs : Sound st)
    {ids : List ℕ} (hlast : ∀ row ∈ st.requests, Killed o ids row → Latest o st row.privateId) :
    Recorded o (Step.apply Φ cfg st (.reaped ids))
      (G ++ (st.requests.filter (Killed o ids)).map (·.privateId)) := by
  have hg := reaped_rewrites Φ cfg st ids
  have hc := reaped_closes ids
  refine (h.fail hg hc).join (hs.rewrites hg) fun f hf => ?_
  obtain ⟨row, hrow, rfl⟩ := List.mem_map.1 hf
  obtain ⟨hmem, hkilled⟩ := List.mem_filter.1 hrow
  have hkilled := of_decide_eq_true hkilled
  refine ⟨(hlast row hmem hkilled).close hg hc, { row with statusTaPublication := .failure }, ?_,
    rfl, hkilled.2.1, rfl⟩
  rw [hg.requests]
  refine List.mem_map.2 ⟨row, hmem, ?_⟩
  have hclosed : row.privateId ∈ ids ∧ row.statusTaPublication ∈ [Status.waiting, .ongoing] :=
    ⟨hkilled.1, by simp [hkilled.2.2]⟩
  simp only [hclosed, and_self, if_true]

theorem Sound.request_eq {st : State} (h : Sound st) {row : Request} (hrow : row ∈ st.requests) :
    st.request row.privateId = some row := by
  cases hfind : st.request row.privateId with
  | none =>
    have hnone := List.find?_eq_none.1 hfind row hrow
    simp at hnone
  | some row' =>
    obtain ⟨hmem, hid⟩ := request_mem hfind
    rw [h.unique hmem hrow hid]

/-- A step on a row of another observer. -/
theorem Recorded.other {o : Pubkey} {st st' : State} {G : List ℕ} {row : Request} {s : Status}
    {mark : Option Bool → Option Bool} (h : Recorded o st G) (hs : Sound st)
    (hrow : row ∈ st.requests) (hparams : row.parameters ≠ o)
    (hg : Rewrites (setStage row.privateId s mark) st st') : Recorded o st' G := by
  have hne : ∀ r ∈ st.requests, r.parameters = o → r.privateId ≠ row.privateId := by
    intro r hr hp hid
    rw [hs.unique hr hrow hid] at hp
    exact hparams hp
  refine h.rewrites hg (fun r hr hp _ hstatus => ?_) (fun r hr hp hforce hsucc => ?_)
  · simp only [setStage, hne r hr hp, if_false]
    exact hstatus
  · simp only [setStage, hne r hr hp, if_false] at hforce hsucc
    exact Or.inl ⟨hforce, hsucc⟩

/-- A run without scorecards is closed as a success. -/
theorem Recorded.empty {o : Pubkey} {st : State} {G : List ℕ} (h : Recorded o st G)
    (hs : Sound st) {i : ℕ} (hi : ∀ row, st.request i = some row → row.parameters = o →
      i ∉ G ∧ (row.forceFullRelay = some true → ∀ f ∈ G, i < f)) :
    Recorded o (st.updateTaStatus i .success) G := by
  refine h.rewrites (updateTaStatus_rewrites st i .success) (fun r hr hp hmem hstatus => ?_)
    (fun r hr hp hforce hsucc => ?_)
  · have hid : r.privateId ≠ i := by
      rintro rfl
      exact (hi r (hs.request_eq hr) hp).1 hmem
    simp only [setStage, hid, if_false]
    exact hstatus
  · by_cases hid : r.privateId = i
    · subst hid
      simp only [setStage, if_true, id_eq] at hforce
      exact Or.inr ((hi r (hs.request_eq hr) hp).2 hforce)
    · simp only [setStage, hid, if_false] at hforce hsucc
      exact Or.inl ⟨hforce, hsucc⟩

/-- **An orderly step keeps the record of the outstanding failures.** -/
theorem Recorded.step {o : Pubkey} {st : State} {G : List ℕ} (h : Recorded o st G) (hs : Sound st)
    {s : Step R} (ho : Orderly Φ cfg o st G s) (ha : Answers st s) :
    Sound (s.apply Φ cfg st) ∧ Recorded o (s.apply Φ cfg st) (noteGap Φ cfg o st G s) := by
  cases s with
  | create pubkey parameters force =>
    have hp : pubkey = parameters := ho
    subst hp
    exact ⟨hs.create pubkey _, h.create rfl⟩
  | calcFailed i =>
    have hg := updateTaStatus_rewrites st i .failure
    exact ⟨hs.rewrites hg, h.fail hg (setStage_closes i id)⟩
  | reaped ids => exact ⟨hs.rewrites (reaped_rewrites Φ cfg st ids), h.reaped hs ho⟩
  | lost i =>
    have hg := updateTaStatus_rewrites st i .failure
    have hfail := h.fail hg (setStage_closes i id)
    refine ⟨hs.rewrites hg, ?_⟩
    simp only [Orderly] at ho
    simp only [Step.apply, noteGap]
    cases hrow : st.request i with
    | none => exact hfail
    | some row =>
      rw [hrow] at ho
      obtain ⟨hmem, rfl⟩ := request_mem hrow
      simp only []
      split_ifs with hp
      · exact h.join_one hs hg hmem hp (ho hp)
      · exact hfail
  | upload msg outcome =>
    simp only [Orderly] at ho
    simp only [Answers] at ha
    simp only [Step.apply, processNostrUploadMessage, noteGap]
    cases hcards : msg.cards with
    | none =>
      simp only [hcards] at ho
      simp only []
      split_ifs with hsucc
      · refine ⟨hs.rewrites (updateTaStatus_rewrites st _ _), h.empty hs fun row hrow hp => ?_⟩
        rw [hrow] at ho
        exact ho hp hsucc
      · exact ⟨hs, h⟩
    | some cards =>
      obtain ⟨observer, scorecards⟩ := cards
      cases hrow : st.request msg.privateId with
      | none =>
        have hg := updateTaStatus_rewrites st msg.privateId .failure
        exact ⟨hs.rewrites hg, h.fail hg (setStage_closes _ id)⟩
      | some row =>
        obtain ⟨hmem, -⟩ := request_mem hrow
        have hobs : row.parameters = observer := ha observer scorecards row hcards hrow
        obtain ⟨mark, hg⟩ := publishRun_rewrites (Φ := Φ) cfg st row msg.result observer scorecards
          outcome
        refine ⟨hs.rewrites hg, ?_⟩
        simp only [hrow, hcards] at ho
        simp only []
        split_ifs with hp
        · obtain rfl : observer = o := hobs.symm.trans hp
          exact h.publish hs hmem hp _ _ (ho hp)
        · exact h.other hs hmem hp hg

/-- What an orderly history has recorded when it comes to one of its steps. -/
theorem Recorded.run {o : Pubkey} {s : Step R} {post : List (Step R)} :
    ∀ {pre : List (Step R)} {st : State} {G : List ℕ}, Recorded o st G → Sound st →
      OrderlyRun Φ cfg o st G (pre ++ s :: post) → Answered Φ cfg st (pre ++ s :: post) →
      Sound (run Φ cfg st pre) ∧
        Recorded o (run Φ cfg st pre) (outstanding Φ cfg o st G pre) ∧
        Orderly Φ cfg o (run Φ cfg st pre) (outstanding Φ cfg o st G pre) s ∧
        Answers (run Φ cfg st pre) s
  | [], _, _, h, hs, ho, ha => ⟨hs, h, ho.1, ha.1⟩
  | _ :: _, _, _, h, hs, ho, ha => by
    obtain ⟨hs', h'⟩ := h.step hs ho.1 ha.1
    exact h'.run hs' ho.2 ha.2

/-- A full sync asserts everything above the cutoff. -/
theorem fullSync_asserts {st : State} {observer x : Pubkey} {row : Request}
    {result : GrapeRankResult R} {scorecards : List (Pubkey × ScoreCard R)}
    (hfull : relayFullSync cfg st observer row = true)
    (hx : x ∈ aboveCutoff Φ scorecards cfg.cutoffOfValidGraperankScores) :
    ∃ e ∈ runEvents Φ cfg st observer row result scorecards, e.asserts x := by
  obtain ⟨item, hitem, rfl⟩ := List.mem_map.1 hx
  obtain ⟨hmem, habove⟩ := List.mem_filter.1 hitem
  refine asserts_signPublishEvents.2 ⟨item.2.toInput Φ, ?_, rfl⟩
  unfold prepareTaInputs
  refine List.mem_map_of_mem ((List.mem_insertionSort _).2 (List.mem_map_of_mem ?_))
  exact List.mem_filter.2 ⟨hmem, decide_eq_true ⟨Or.inl hfull, habove⟩⟩

/-- **In an orderly history every run that publishes with a gap outstanding is a
    full sync.** -/
theorem gaps_are_repaired (Φ : FloatOps R) (cfg : Settings R) (o : Pubkey) (st : State)
    (hs : Sound st) (steps : List (Step R)) (hord : OrderlyRun Φ cfg o st [] steps)
    (hans : Answered Φ cfg st steps) (pre post : List (Step R)) (msg : Message R)
    (outcome : Outcome) (hsplit : steps = pre ++ .upload msg outcome :: post) (observer : Pubkey)
    (scorecards : List (Pubkey × ScoreCard R)) (hcards : msg.cards = some (observer, scorecards))
    (row : Request) (hrow : (run Φ cfg st pre).request msg.privateId = some row)
    (hparams : row.parameters = o) (hpub : outcome ≠ .lost)
    (hgap : outstanding Φ cfg o st [] pre ≠ []) :
    relayFullSync cfg (run Φ cfg st pre) observer row = true ∧
    ∀ x ∈ aboveCutoff Φ scorecards cfg.cutoffOfValidGraperankScores,
      ∃ e ∈ runEvents Φ cfg (run Φ cfg st pre) observer row msg.result scorecards, e.asserts x := by
  subst hsplit
  obtain ⟨hs', hrec, ho, ha⟩ := (recorded_nil o st).run hs hord hans
  obtain rfl : observer = o := (ha observer scorecards row hcards hrow).symm.trans hparams
  have hfollows : Follows cfg (outstanding Φ cfg observer st [] pre) row := by
    simp only [Orderly, hrow, hcards] at ho
    have ho := ho hparams
    cases outcome with
    | acked l all =>
      unfold Outcome.settled at ho
      split_ifs at ho
      · exact ho
      · exact ho.1
    | failed l => exact ho.1
    | killed l => exact ho.1
    | lost => exact absurd rfl hpub
  have hfull := hrec.fullSync hs' hfollows hgap
  exact ⟨hfull, fun x hx => fullSync_asserts hfull hx⟩

/-- Nothing arrives. -/
def arrivesNone : Landing := ⟨fun _ => [], fun h => nomatch h⟩

/-- A run that finds the score of `keyA` as it was and that of `keyB` changed. -/
def secondMessage (privateId : ℕ) : Message ℕ where
  privateId := privateId
  result :=
    { (sampleMessage privateId [(keyA, 90), (keyB, 90)]).result with
      changedScorePubkeys := some [keyB] }

/-- The first of two runs fails, and the second comes after it. -/
def repairedHistory : List (Step ℕ) :=
  [.create "o" "o" false, .create "o" "o" false,
    .upload (sampleMessage 1 [(keyA, 90)]) (.failed arrivesNone),
    .upload (secondMessage 2) ackedAll]

theorem emptyState_sound : Sound emptyState :=
  ⟨List.nodup_nil, fun _ h => (nomatch h), fun _ h => (nomatch h), fun _ h => (nomatch h)⟩

theorem repairedHistory_orderly :
    OrderlyRun sampleOps sampleSettings "o" emptyState [] repairedHistory := by
  refine ⟨rfl, rfl, ?_, ?_, trivial⟩
  · intro _
    exact ⟨fun h => absurd rfl h, by unfold Latest; decide⟩
  · intro _ _
    exact Or.inr ⟨1, by decide, by decide⟩

theorem repairedHistory_answered :
    Answered sampleOps sampleSettings emptyState repairedHistory := by
  refine ⟨trivial, trivial, ?_, ?_, trivial⟩
  · intro observer scorecards row hcards hrow
    cases hcards
    cases hrow
    rfl
  · intro observer scorecards row hcards hrow
    cases hcards
    cases hrow
    rfl

theorem repairedHistory_full :
    outstanding sampleOps sampleSettings "o" emptyState [] (repairedHistory.take 3) = [1] ∧
    relayFullSync sampleSettings
      (run sampleOps sampleSettings emptyState (repairedHistory.take 3)) "o"
      ⟨2, some "o", "o", .waiting, some false⟩ = true := by
  have hfull := gaps_are_repaired sampleOps sampleSettings "o" emptyState emptyState_sound
    repairedHistory repairedHistory_orderly repairedHistory_answered (repairedHistory.take 3) []
    (secondMessage 2) ackedAll rfl "o" _ rfl ⟨2, some "o", "o", .waiting, some false⟩ (by decide) rfl
    (fun h => nomatch h) (by decide)
  exact ⟨by decide, hfull.1⟩

/-- The first of two runs comes after the second, which has failed. -/
def overtakenHistory : List (Step ℕ) :=
  [.create "o" "o" false, .create "o" "o" false,
    .upload (sampleMessage 2 [(keyA, 90)]) (.failed arrivesNone),
    .upload (secondMessage 1) ackedAll]

/-- **A gap goes unnoticed by a run with a lower id.**  Run 2 has failed when run
    1 is processed, but run 1 looks at the ids below its own only and publishes a
    delta; `keyA`, which run 2 was to assert, is still missing. -/
theorem overtaken_gap_unrepaired :
    Sound emptyState ∧ Answered sampleOps sampleSettings emptyState overtakenHistory ∧
    outstanding sampleOps sampleSettings "o" emptyState [] (overtakenHistory.take 3) = [2] ∧
    (run sampleOps sampleSettings emptyState (overtakenHistory.take 3)).request 1 =
      some ⟨1, some "o", "o", .waiting, some false⟩ ∧
    relayFullSync sampleSettings
      (run sampleOps sampleSettings emptyState (overtakenHistory.take 3)) "o"
      ⟨1, some "o", "o", .waiting, some false⟩ = false ∧
    (run sampleOps sampleSettings emptyState overtakenHistory).relay "o" = {keyB} := by
  refine ⟨emptyState_sound, ⟨trivial, trivial, ?_, ?_, trivial⟩, by decide, by decide, by decide,
    by decide⟩
  · intro observer scorecards row hcards hrow
    cases hcards
    cases hrow
    rfl
  · intro observer scorecards row hcards hrow
    cases hcards
    cases hrow
    rfl

end Publish

end BrainstormServer
