/-
  The stages of a run (`app/message_queue_tasks/message_queue_consumer.py`,
  `upload_nostr_events.py`, `write_neo4j_results.py`), as handlers of the result
  queues, and the columns that say whether a run is still in the pipeline
  (`in_pipeline_condition` of `app/repos/brainstorm_request_repo.py`).

  Five actors write the columns: the three handlers with their `on_lost`, the
  `job_started` message and the reaper.  A handler is a sequence of transactions;
  each may fail before its commit or after it (`transaction`).

  * `Done`: what a queue has achieved for a run once it is through with it;
  * `next_keeps`, `onLost_keeps`, `outside_keeps`: whatever one actor writes, what
    the other queues achieved stays;
  * `leaves_pipeline`: once all three messages of a run are acknowledged, the run
    is out of the pipeline and stays out.
-/
import BrainstormServer.Queue.Window

namespace BrainstormServer

namespace Queue

open Conc

/-! ## Requests -/

/-- `BrainstormRequestStatus`. -/
inductive RequestStatus
  | waiting
  | ongoing
  | success
  | failure
  deriving DecidableEq

/-- `_NON_TERMINAL`. -/
def RequestStatus.nonTerminal : RequestStatus → Bool
  | .waiting | .ongoing => true
  | .success | .failure => false

/-- The columns of a `BrainstormRequest` that the stages write. -/
structure Request where
  status : RequestStatus
  statusTaPublication : RequestStatus
  statusInternalPublication : RequestStatus
  deriving DecidableEq

/-- `in_pipeline_condition`. -/
def Request.inPipeline (row : Request) : Bool :=
  row.status.nonTerminal || (row.status = .success && row.statusTaPublication.nonTerminal)

abbrev Requests := ℕ → Option Request

/-- `UPDATE brainstorm_request ... WHERE private_id = id`. -/
def updateRow (id : ℕ) (f : Request → Request) (db : Requests) : Requests :=
  Function.update db id ((db id).map f)

/-- `update_brainstorm_request_result_by_id_on_db`: only from a status that is not
    terminal. -/
def updateResult (id : ℕ) (status : RequestStatus) : Requests → Requests :=
  updateRow id fun row => if row.status.nonTerminal then { row with status := status } else row

/-- `update_brainstorm_request_ta_status_by_id_on_db`. -/
def updateTaStatus (id : ℕ) (status : RequestStatus) : Requests → Requests :=
  updateRow id fun row => { row with statusTaPublication := status }

/-- `update_brainstorm_request_internal_publication_status_by_id_on_db`. -/
def updateInternalStatus (id : ℕ) (status : RequestStatus) : Requests → Requests :=
  updateRow id fun row => { row with statusInternalPublication := status }

/-- The row that `fail_stale_in_pipeline_brainstorm_requests_on_db` leaves. -/
def Request.reap (row : Request) : Request where
  status := .failure
  statusTaPublication :=
    if row.statusTaPublication.nonTerminal then .failure else row.statusTaPublication
  statusInternalPublication := row.statusInternalPublication

/-- `fail_stale_in_pipeline_brainstorm_requests_on_db`; `stale` are the rows that
    were last updated before the cutoff. -/
def failStale (stale : ℕ → Bool) (db : Requests) : Requests := fun id =>
  (db id).map fun row => if row.inPipeline && stale id then row.reap else row

/-! ## Stages -/

/-- A `GrapeRankResult`, as far as the columns depend on it: whether `success` and
    `scorecards` are there and not empty. -/
structure Result where
  success : Bool
  scorecards : Bool
  deriving DecidableEq

/-- Where a handler stands: its next transaction. -/
inductive Stage
  /-- the message has no `result` -/
  | absent
  | processMessage (id : ℕ) (result : Result)
  | uploadMessage (id : ℕ) (result : Result)
  /-- inside the `try`, with the relay and the last transaction ahead -/
  | publishing (id : ℕ)
  /-- inside the `except` -/
  | failing (id : ℕ)
  | writeMessage (id : ℕ) (result : Result)
  /-- with the writes to Neo4j and the last transaction ahead -/
  | writing (id : ℕ)
  deriving DecidableEq

/-- A transaction and what follows it: it commits and goes on, something raises
    before the commit, or something raises after it. -/
def transaction {σ H : Type} (write : σ → σ) (next failed : Progress H) (choice : ℕ) (db : σ) :
    σ × Progress H :=
  match choice with
  | 0 => (write db, next)
  | 1 => (db, failed)
  | _ => (write db, failed)

/-- The transaction of `process_message`. -/
def storeResult (id : ℕ) (result : Result) (db : Requests) : Requests :=
  if result.success then updateResult id .success db
  else updateInternalStatus id .failure (updateTaStatus id .failure (updateResult id .failure db))

/-- The next transaction of a handler. -/
def Stage.next : Stage → ℕ → Requests → Requests × Progress Stage
  | .absent, _, db => (db, .raised)
  | .processMessage id result, choice, db =>
    transaction (storeResult id result) .returned .raised choice db
  | .uploadMessage id result, choice, db =>
    if result.scorecards then
      transaction (updateTaStatus id .ongoing) (.continue (.publishing id)) .raised choice db
    else if result.success then
      transaction (updateTaStatus id .success) .returned .raised choice db
    -- a failed calc closes this stage in its own consumer
    else (db, .returned)
  | .publishing id, choice, db =>
    transaction (updateTaStatus id .success) .returned (.continue (.failing id)) choice db
  | .failing id, choice, db =>
    transaction (updateTaStatus id .failure) .returned .raised choice db
  | .writeMessage id result, choice, db =>
    if result.scorecards then
      transaction (updateInternalStatus id .ongoing) (.continue (.writing id)) .raised choice db
    else if result.success then
      transaction (updateInternalStatus id .success) .returned .raised choice db
    else (db, .returned)
  | .writing id, choice, db =>
    transaction (updateInternalStatus id .success) .returned .raised choice db

/-- `process_message`, `process_nostr_upload_message`, `process_neo4j_write_message`. -/
def Stage.begin (q : ResultQueue) (message : Message Result) : Option Result → Stage
  | none => .absent
  | some result =>
    match q with
    | .results => .processMessage message.privateId result
    | .nostrResults => .uploadMessage message.privateId result
    | .writeNeo4j => .writeMessage message.privateId result

/-- `_fail_result_stage`, `_fail_ta_stage`, `_fail_neo4j_stage`. -/
def failStage (q : ResultQueue) (message : Message Result) : Requests → Requests :=
  match q with
  | .results => updateResult message.privateId .failure
  | .nostrResults => updateTaStatus message.privateId .failure
  | .writeNeo4j => updateInternalStatus message.privateId .failure

/-- What changes a request beside the queues. -/
inductive Outside
  /-- `process_job_started_message` -/
  | jobStarted (id : ℕ)
  /-- a round of the reaper -/
  | reap (stale : ℕ → Bool)

def Outside.apply : Outside → Requests → Requests
  | .jobStarted id, db => updateResult id .ongoing db
  | .reap stale, db => failStale stale db

/-- The three result consumers. -/
def pipeline : Handlers Requests Stage Outside Result where
  begin := Stage.begin
  next := Stage.next
  onLost := failStage
  outside := Outside.apply

/-! ## What the writes keep -/

/-- What a queue has achieved for a run with this result.  A calc that failed and
    has nothing to publish is left to the first queue. -/
def Done (r : Result) (row : Request) : ResultQueue → Prop
  | .results => row.status.nonTerminal = false
  | .nostrResults => row.statusTaPublication.nonTerminal = false ∨
      (r.success = false ∧ r.scorecards = false)
  | .writeNeo4j => True

/-- A row that may say success only if the result does, and has kept what the
    queues in `P` have achieved. -/
structure Keeps (r : Result) (P : ResultQueue → Prop) (row row' : Request) : Prop where
  success : row'.status = .success → row.status = .success ∨ r.success = true
  done : ∀ q, P q → Done r row q → Done r row' q

section
variable {r : Result} {P : ResultQueue → Prop} {row : Request}

theorem Keeps.refl : Keeps r P row row := ⟨Or.inl, fun _ _ h => h⟩

theorem Keeps.trans {row' row'' : Request} (h : Keeps r P row row') (h' : Keeps r P row' row'') :
    Keeps r P row row'' where
  success hs := (h'.success hs).elim h.success Or.inr
  done q hq hd := h'.done q hq (h.done q hq hd)

/-- A guarded write of a terminal status leaves a terminal one. -/
theorem nonTerminal_result {status : RequestStatus} (hs : status.nonTerminal = false) :
    (if row.status.nonTerminal then { row with status := status } else row).status.nonTerminal
      = false := by
  by_cases hn : row.status.nonTerminal = true
  · rw [if_pos hn]
    exact hs
  · rw [if_neg hn]
    exact Bool.eq_false_iff.2 hn

/-- A guarded write of the status. -/
theorem keeps_result {status : RequestStatus} (hs : status = .success → r.success = true) :
    Keeps r P row (if row.status.nonTerminal then { row with status := status } else row) := by
  by_cases hn : row.status.nonTerminal = true
  · rw [if_pos hn]
    refine ⟨fun h => Or.inr (hs h), fun q _ hd => ?_⟩
    cases q with
    | results => exact absurd hn (by rw [show row.status.nonTerminal = false from hd]; simp)
    | nostrResults => exact hd
    | writeNeo4j => exact hd
  · rw [if_neg hn]
    exact Keeps.refl

/-- A write of the publication status, terminal or by the queue that owns it. -/
theorem keeps_ta {status : RequestStatus} (hs : status.nonTerminal = false ∨ ¬ P .nostrResults) :
    Keeps r P row { row with statusTaPublication := status } := by
  refine ⟨Or.inl, fun q hq hd => ?_⟩
  cases q with
  | results => exact hd
  | nostrResults =>
    rcases hs with hs | hs
    · exact Or.inl hs
    · exact absurd hq hs
  | writeNeo4j => exact hd

theorem keeps_internal {status : RequestStatus} :
    Keeps r P row { row with statusInternalPublication := status } := by
  refine ⟨Or.inl, fun q _ hd => ?_⟩
  cases q <;> exact hd

theorem keeps_reap : Keeps r P row row.reap := by
  refine ⟨fun h => (by cases h), fun q _ hd => ?_⟩
  cases q with
  | results => rfl
  | nostrResults =>
    left
    show (if row.statusTaPublication.nonTerminal then RequestStatus.failure
      else row.statusTaPublication).nonTerminal = false
    by_cases hn : row.statusTaPublication.nonTerminal = true
    · rw [if_pos hn]
      rfl
    · rw [if_neg hn]
      exact Bool.eq_false_iff.2 hn
  | writeNeo4j => trivial

end

section
variable {p : ℕ} {db : Requests} {row : Request}

theorem updateRow_self {f : Request → Request} (h : db p = some row) :
    updateRow p f db p = some (f row) := by
  rw [updateRow, Function.update_self, h]
  rfl

theorem updateRow_other {id : ℕ} {f : Request → Request} (h : id ≠ p) :
    updateRow id f db p = db p :=
  Function.update_of_ne (Ne.symm h) _ _

theorem storeResult_other {id : ℕ} {result : Result} (h : id ≠ p) :
    storeResult id result db p = db p := by
  unfold storeResult
  split_ifs
  · exact updateRow_other h
  · exact (updateRow_other h).trans ((updateRow_other h).trans (updateRow_other h))

/-- `process_message` closes the calc, and with a failure also the other stages. -/
theorem storeResult_self {r : Result} {P : ResultQueue → Prop} (h : db p = some row) :
    ∃ row', storeResult p r db p = some row' ∧ Keeps r P row row' ∧ Done r row' .results := by
  unfold storeResult
  by_cases hs : r.success = true
  · rw [if_pos hs]
    exact ⟨_, updateRow_self h, keeps_result fun _ => hs, nonTerminal_result rfl⟩
  · rw [if_neg hs]
    have h₁ := updateRow_self (f := fun row =>
      if row.status.nonTerminal then { row with status := .failure } else row) h
    have h₂ := updateRow_self (f := fun row => { row with statusTaPublication := .failure }) h₁
    refine ⟨_, updateRow_self h₂, ?_, nonTerminal_result rfl⟩
    exact ((keeps_result (by simp)).trans (keeps_ta (Or.inl rfl))).trans keeps_internal

end

/-! ## Handlers -/

/-- The handler of `q` for the run `id`, with `r` wherever it holds the result. -/
def Stage.Serves (r : Result) (id : ℕ) : ResultQueue → Stage → Prop
  | .results, stage => stage = .absent ∨ stage = .processMessage id r
  | .nostrResults, stage =>
    stage = .absent ∨ stage = .uploadMessage id r ∨ stage = .publishing id ∨ stage = .failing id
  | .writeNeo4j, stage => stage = .absent ∨ stage = .writeMessage id r ∨ stage = .writing id

section
variable {p : ℕ} {db db' : Requests} {row : Request} {r : Result} {q : ResultQueue}
  {stage : Stage} {choice : ℕ} {progress : Progress Stage}

/-- The three ways a transaction can go. -/
theorem transaction_cases {σ H : Type} {write : σ → σ} {next failed progress : Progress H}
    {choice : ℕ} {s s' : σ} (h : transaction write next failed choice s = (s', progress)) :
    (s' = write s ∧ progress = next) ∨ (s' = s ∧ progress = failed) ∨
      (s' = write s ∧ progress = failed) := by
  unfold transaction at h
  split at h
  · cases h
    exact Or.inl ⟨rfl, rfl⟩
  · cases h
    exact Or.inr (Or.inl ⟨rfl, rfl⟩)
  · cases h
    exact Or.inr (Or.inr ⟨rfl, rfl⟩)

/-- The row of the run after a transaction of the queue `q`: the other queues keep
    what they have, and a handler that returned is through with it. -/
structure Advances (r : Result) (q : ResultQueue) (p : ℕ) (row row' : Request)
    (progress : Progress Stage) : Prop where
  keeps : Keeps r (· ≠ q) row row'
  returned : progress = .returned → Done r row' q
  serves : ∀ stage, progress = .continue stage → stage.Serves r p q

/-- A transaction on the row of the run. -/
theorem advances_transaction {f : Request → Request} {next failed : Progress Stage}
    (hrow : db p = some row)
    (h : transaction (updateRow p f) next failed choice db = (db', progress))
    (hkeeps : Keeps r (· ≠ q) row (f row)) (hnext : next = .returned → Done r (f row) q)
    (hfailed : failed ≠ .returned)
    (hserves : ∀ stage, next = .continue stage ∨ failed = .continue stage → stage.Serves r p q) :
    ∃ row', db' p = some row' ∧ Advances r q p row row' progress := by
  rcases transaction_cases h with ⟨rfl, rfl⟩ | ⟨rfl, rfl⟩ | ⟨rfl, rfl⟩
  · exact ⟨_, updateRow_self hrow, hkeeps, hnext, fun stage hs => hserves stage (Or.inl hs)⟩
  · exact ⟨row, hrow, Keeps.refl, fun h => absurd h hfailed,
      fun stage hs => hserves stage (Or.inr hs)⟩
  · exact ⟨_, updateRow_self hrow, hkeeps, fun h => absurd h hfailed,
      fun stage hs => hserves stage (Or.inr hs)⟩

/-- The transaction of `process_message`. -/
theorem advances_processMessage (hrow : db p = some row)
    (h : (Stage.processMessage p r).next choice db = (db', progress)) :
    ∃ row', db' p = some row' ∧ Advances r .results p row row' progress := by
  obtain ⟨row', hrow', hkeeps, hdone⟩ := storeResult_self (r := r) (P := (· ≠ .results)) hrow
  rcases transaction_cases h with ⟨rfl, rfl⟩ | ⟨rfl, rfl⟩ | ⟨rfl, rfl⟩
  · exact ⟨row', hrow', hkeeps, fun _ => hdone, by simp⟩
  · exact ⟨row, hrow, Keeps.refl, by simp, by simp⟩
  · exact ⟨row', hrow', hkeeps, by simp, by simp⟩

/-- The first transaction of `process_nostr_upload_message`. -/
theorem advances_uploadMessage (hrow : db p = some row)
    (h : (Stage.uploadMessage p r).next choice db = (db', progress)) :
    ∃ row', db' p = some row' ∧ Advances r .nostrResults p row row' progress := by
  simp only [Stage.next] at h
  by_cases hcards : r.scorecards = true
  · rw [if_pos hcards] at h
    refine advances_transaction hrow h (keeps_ta (Or.inr (by simp))) (by simp) (by simp) ?_
    rintro stage (hs | hs)
    · cases hs
      exact Or.inr (Or.inr (Or.inl rfl))
    · cases hs
  · rw [if_neg hcards] at h
    by_cases hsuccess : r.success = true
    · rw [if_pos hsuccess] at h
      exact advances_transaction hrow h (keeps_ta (Or.inl rfl)) (fun _ => Or.inl rfl) (by simp)
        (by simp)
    · -- nothing is written: the first queue closes the publication too
      rw [if_neg hsuccess] at h
      cases h
      refine ⟨row, hrow, Keeps.refl, fun _ => Or.inr ?_, by simp⟩
      exact ⟨Bool.eq_false_iff.2 hsuccess, Bool.eq_false_iff.2 hcards⟩

/-- The first transaction of `process_neo4j_write_message`. -/
theorem advances_writeMessage (hrow : db p = some row)
    (h : (Stage.writeMessage p r).next choice db = (db', progress)) :
    ∃ row', db' p = some row' ∧ Advances r .writeNeo4j p row row' progress := by
  simp only [Stage.next] at h
  split_ifs at h
  · refine advances_transaction hrow h keeps_internal (fun _ => trivial) (by simp) ?_
    rintro stage (hs | hs)
    · cases hs
      exact Or.inr (Or.inr rfl)
    · cases hs
  · exact advances_transaction hrow h keeps_internal (fun _ => trivial) (by simp) (by simp)
  · cases h
    exact ⟨row, hrow, Keeps.refl, fun _ => trivial, by simp⟩

/-- **One transaction of a handler**, on the row of its run. -/
theorem next_advances (hserves : stage.Serves r p q) (hrow : db p = some row)
    (h : stage.next choice db = (db', progress)) :
    ∃ row', db' p = some row' ∧ Advances r q p row row' progress := by
  have habsent : stage = .absent → ∃ row', db' p = some row' ∧ Advances r q p row row' progress := by
    rintro rfl
    cases h
    exact ⟨row, hrow, Keeps.refl, by simp, by simp⟩
  cases q with
  | results =>
    rcases hserves with rfl | rfl
    · exact habsent rfl
    · exact advances_processMessage hrow h
  | nostrResults =>
    rcases hserves with rfl | rfl | rfl | rfl
    · exact habsent rfl
    · exact advances_uploadMessage hrow h
    · refine advances_transaction hrow h (keeps_ta (Or.inl rfl)) (fun _ => Or.inl rfl) (by simp) ?_
      rintro stage (hs | hs)
      · cases hs
      · cases hs
        exact Or.inr (Or.inr (Or.inr rfl))
    · exact advances_transaction hrow h (keeps_ta (Or.inl rfl)) (fun _ => Or.inl rfl) (by simp)
        (by simp)
  | writeNeo4j =>
    rcases hserves with rfl | rfl | rfl
    · exact habsent rfl
    · exact advances_writeMessage hrow h
    · exact advances_transaction hrow h keeps_internal (fun _ => trivial) (by simp) (by simp)

/-- A transaction that writes another row. -/
theorem transaction_other {write : Requests → Requests} {next failed : Progress Stage}
    (hwrite : write db p = db p) (h : transaction write next failed choice db = (db', progress)) :
    db' p = db p := by
  rcases transaction_cases h with ⟨rfl, -⟩ | ⟨rfl, -⟩ | ⟨rfl, -⟩
  · exact hwrite
  · rfl
  · exact hwrite

/-- The run a handler is for. -/
def Stage.id? : Stage → Option ℕ
  | .absent => none
  | .processMessage id _ | .uploadMessage id _ | .publishing id | .failing id
  | .writeMessage id _ | .writing id => some id

/-- A handler goes on with the run it is for, and writes no other row. -/
theorem next_other (hid : stage.id? ≠ some p) (h : stage.next choice db = (db', progress)) :
    db' p = db p ∧ ∀ stage', progress = .continue stage' → stage'.id? ≠ some p := by
  have hne : ∀ id, some id ≠ some p → id ≠ p := fun id h h' => h (congrArg some h')
  cases stage with
  | absent =>
    cases h
    exact ⟨rfl, by simp⟩
  | processMessage id result =>
    refine ⟨transaction_other (storeResult_other (hne id hid)) h, ?_⟩
    rcases transaction_cases h with ⟨-, rfl⟩ | ⟨-, rfl⟩ | ⟨-, rfl⟩ <;> simp
  | publishing id =>
    refine ⟨transaction_other (updateRow_other (hne id hid)) h, ?_⟩
    rcases transaction_cases h with ⟨-, rfl⟩ | ⟨-, rfl⟩ | ⟨-, rfl⟩
    · simp
    · rintro stage' ⟨⟩
      exact hid
    · rintro stage' ⟨⟩
      exact hid
  | failing id =>
    refine ⟨transaction_other (updateRow_other (hne id hid)) h, ?_⟩
    rcases transaction_cases h with ⟨-, rfl⟩ | ⟨-, rfl⟩ | ⟨-, rfl⟩ <;> simp
  | writing id =>
    refine ⟨transaction_other (updateRow_other (hne id hid)) h, ?_⟩
    rcases transaction_cases h with ⟨-, rfl⟩ | ⟨-, rfl⟩ | ⟨-, rfl⟩ <;> simp
  | uploadMessage id result | writeMessage id result =>
    simp only [Stage.next] at h
    split_ifs at h
    · refine ⟨transaction_other (updateRow_other (hne id hid)) h, ?_⟩
      rcases transaction_cases h with ⟨-, rfl⟩ | ⟨-, rfl⟩ | ⟨-, rfl⟩
      · rintro stage' ⟨⟩
        exact hid
      · simp
      · simp
    · refine ⟨transaction_other (updateRow_other (hne id hid)) h, ?_⟩
      rcases transaction_cases h with ⟨-, rfl⟩ | ⟨-, rfl⟩ | ⟨-, rfl⟩ <;> simp
    · cases h
      exact ⟨rfl, by simp⟩

/-- `on_lost` closes its stage, and takes nothing from the others. -/
theorem failStage_keeps {message : Message Result} (hid : message.privateId = p)
    (hrow : db p = some row) : ∃ row', failStage q message db p = some row' ∧
      Keeps r (fun _ => True) row row' ∧ Done r row' q := by
  subst hid
  cases q with
  | results => exact ⟨_, updateRow_self hrow, keeps_result (by simp), nonTerminal_result rfl⟩
  | nostrResults => exact ⟨_, updateRow_self hrow, keeps_ta (Or.inl rfl), Or.inl rfl⟩
  | writeNeo4j => exact ⟨_, updateRow_self hrow, keeps_internal, trivial⟩

theorem failStage_other {message : Message Result} (hid : message.privateId ≠ p) :
    failStage q message db p = db p := by
  cases q <;> exact updateRow_other hid

/-- `job_started` and the reaper take nothing away. -/
theorem outside_keeps (o : Outside) (hrow : db p = some row) :
    ∃ row', o.apply db p = some row' ∧ Keeps r (fun _ => True) row row' := by
  cases o with
  | jobStarted id =>
    by_cases hid : id = p
    · subst hid
      exact ⟨_, updateRow_self hrow, keeps_result (by simp)⟩
    · exact ⟨row, (updateRow_other hid).trans hrow, Keeps.refl⟩
  | reap stale =>
    refine ⟨if row.inPipeline && stale p then row.reap else row, ?_, ?_⟩
    · show (db p).map _ = _
      rw [hrow]
      rfl
    · split_ifs
      · exact keeps_reap
      · exact Keeps.refl

end

/-! ## Lanes -/

/-- A message of the run `p`. -/
def Raw.isFor {R : Type} (p : ℕ) : Raw R → Bool
  | .malformed _ => false
  | .envelope message => message.privateId = p

/-- Messages of the run `p` carry its result `r`, or a key it is stored under. -/
def Carries (p : ℕ) (r : Result) (K : String → Prop) (raw : Raw Result) : Prop :=
  ∀ message, raw = .envelope message → message.privateId = p →
    (∀ key, message.resultKey = some key → K key) ∧
      (message.resultKey = none → ∀ result, message.result = some result → result = r)

/-- The run had a message on the queue, and all it had are acknowledged. -/
structure Lane.AllAcked {H R : Type} (l : Lane H R) (p : ℕ) : Prop where
  arrived : ∃ raw ∈ l.arrivals, raw.isFor p = true
  acked : ∀ n raw, l.arrivals[n]? = some raw → raw.isFor p = true → n < l.acked

/-- What a queue is doing for the run `p`, whose row is `row`. -/
structure Lane.Follows (l : Lane Stage Result) (p : ℕ) (r : Result) (K : String → Prop)
    (row : Request) (q : ResultQueue) : Prop where
  carries : ∀ raw ∈ l.arrivals, Carries p r K raw
  serves : ∀ item message stage, l.pc = .handling item message stage →
    message.privateId = p → stage.Serves r p q
  other : ∀ item message stage, l.pc = .handling item message stage →
    message.privateId ≠ p → stage.id? ≠ some p
  settled : ∀ item message, l.pc = .settled item message → message.privateId = p → Done r row q
  acked : l.AllAcked p → Done r row q

section
variable {p : ℕ} {r : Result} {K : String → Prop} {row row' : Request} {q : ResultQueue}
  {l : Lane Stage Result}

/-- The row may change as long as what the queue achieved stays. -/
theorem Lane.Follows.keep (h : l.Follows p r K row q) (hdone : Done r row q → Done r row' q) :
    l.Follows p r K row' q where
  carries := h.carries
  serves := h.serves
  other := h.other
  settled item message hpc hid := hdone (h.settled item message hpc hid)
  acked hall := hdone (h.acked hall)

/-- While a message of the run is held, not all are acknowledged. -/
theorem Lane.Placed.not_allAcked {H R : Type} {l : Lane H R} (h : l.Placed) {item : Item R}
    {message : Message R} (hproc : l.processing = [item]) (hraw : item.raw = .envelope message)
    (hid : message.privateId = p) : ¬ l.AllAcked p := by
  intro hall
  obtain ⟨-, hhead, -⟩ := h.head hproc
  have hfor : item.raw.isFor p = true := by simp [hraw, Raw.isFor, hid]
  exact Nat.lt_irrefl _ (hall.acked _ _ hhead hfor)

/-- The consumer moving on to a place outside the handler. -/
theorem Lane.Follows.setPc (h : l.Follows p r K row q) {pc : Pc Stage Result}
    {queue processing : List (Item Result)} {attempts : String → ℕ} {invoked closed : ℕ → ℕ}
    (hhandling : ∀ item message stage, pc ≠ .handling item message stage)
    (hsettled : ∀ item message, pc ≠ .settled item message) :
    Lane.Follows ⟨queue, processing, attempts, pc, l.arrivals, l.acked, invoked, closed⟩
      p r K row q where
  carries := h.carries
  serves item message stage hpc := absurd hpc (hhandling item message stage)
  other item message stage hpc := absurd hpc (hhandling item message stage)
  settled item message hpc := absurd hpc (hsettled item message)
  acked hall := h.acked ⟨hall.arrived, hall.acked⟩

/-- The call of the handler. -/
theorem Lane.Follows.invoke (h : l.Follows p r K row q) {item : Item Result}
    {message : Message Result} {result : Option Result}
    (hresult : message.privateId = p → ∀ x, result = some x → x = r) :
    (l.invoke item message (Stage.begin q message result)).Follows p r K row q where
  carries := h.carries
  serves item' message' stage hpc hid := by
    cases hpc
    cases result with
    | none => cases q <;> exact Or.inl rfl
    | some x =>
      rw [hresult hid x rfl, ← hid]
      cases q with
      | results => exact Or.inr rfl
      | nostrResults => exact Or.inr (Or.inl rfl)
      | writeNeo4j => exact Or.inr (Or.inl rfl)
  other item' message' stage hpc hid := by
    cases hpc
    cases result with
    | none =>
      intro habs
      cases habs
    | some x =>
      intro habs
      have : some message.privateId = some p := by
        cases q <;> exact habs
      exact hid (Option.some.inj this)
  settled item' message' hpc := by cases hpc
  acked hall := h.acked ⟨hall.arrived, hall.acked⟩

/-- A transaction of a handler of the run. -/
theorem Lane.Follows.advance (h : l.Follows p r K row q) (hnot : ¬ l.AllAcked p)
    {item : Item Result} {message : Message Result} {progress : Progress Stage}
    (hid : message.privateId = p) (hadv : Advances r q p row row' progress) :
    ({ l with pc := progress.pc item message } : Lane Stage Result).Follows p r K row' q where
  carries := h.carries
  serves item' message' stage hpc _ := by
    cases progress with
    | «continue» stage' =>
      cases hpc
      exact hadv.serves _ rfl
    | returned => cases hpc
    | raised => cases hpc
  other item' message' stage hpc hne := by
    cases progress with
    | «continue» stage' =>
      cases hpc
      exact absurd hid hne
    | returned => cases hpc
    | raised => cases hpc
  settled item' message' hpc _ := by
    cases progress with
    | «continue» stage' => cases hpc
    | returned => exact hadv.returned rfl
    | raised => cases hpc
  acked hall := absurd ⟨hall.arrived, hall.acked⟩ hnot

/-- A transaction of a handler of another run. -/
theorem Lane.Follows.pass (h : l.Follows p r K row q) {item : Item Result}
    {message : Message Result} {progress : Progress Stage} (hid : message.privateId ≠ p)
    (hnext : ∀ stage, progress = .continue stage → stage.id? ≠ some p) :
    ({ l with pc := progress.pc item message } : Lane Stage Result).Follows p r K row q where
  carries := h.carries
  serves item' message' stage hpc hid' := by
    cases progress with
    | «continue» stage' =>
      cases hpc
      exact absurd hid' hid
    | returned => cases hpc
    | raised => cases hpc
  other item' message' stage hpc _ := by
    cases progress with
    | «continue» stage' =>
      cases hpc
      exact hnext _ rfl
    | returned => cases hpc
    | raised => cases hpc
  settled item' message' hpc hid' := by
    cases progress with
    | «continue» stage' => cases hpc
    | returned =>
      cases hpc
      exact absurd hid' hid
    | raised => cases hpc
  acked hall := h.acked ⟨hall.arrived, hall.acked⟩

/-- `on_lost`, and the place after it. -/
theorem Lane.Follows.close (h : l.Follows p r K row q) {item : Item Result}
    {message : Message Result} {pc : Pc Stage Result} {closed : ℕ → ℕ}
    (hpc : pc = .settled item message ∨ pc = .closing item message false)
    (hdone : message.privateId = p → Done r row q) :
    ({ l with pc := pc, closed := closed } : Lane Stage Result).Follows p r K row q where
  carries := h.carries
  serves item' message' stage hpc' := by
    have : pc = .handling item' message' stage := hpc'
    rcases hpc with rfl | rfl <;> cases this
  other item' message' stage hpc' := by
    have : pc = .handling item' message' stage := hpc'
    rcases hpc with rfl | rfl <;> cases this
  settled item' message' hpc' hid := by
    have : pc = .settled item' message' := hpc'
    rcases hpc with rfl | rfl
    · cases this
      exact hdone hid
    · cases this
  acked hall := h.acked ⟨hall.arrived, hall.acked⟩

/-- Acknowledging the message that is held. -/
theorem Lane.Follows.ack (h : l.Follows p r K row q) (hp : l.Placed) {item : Item Result}
    {message : Message Result} (hpc : l.pc = .settled item message)
    (hproc : l.processing = [item]) (hraw : item.raw = .envelope message)
    {processing : List (Item Result)} :
    ({ l with
      processing := processing
      pc := .acked message
      acked := l.acked + 1 } : Lane Stage Result).Follows p r K row q where
  carries := h.carries
  serves item' message' stage hpc' := by cases hpc'
  other item' message' stage hpc' := by cases hpc'
  settled item' message' hpc' := by cases hpc'
  acked hall := by
    by_cases hid : message.privateId = p
    · exact h.settled item message hpc hid
    · -- the message was of another run, so all were acknowledged before
      refine h.acked ⟨hall.arrived, fun n raw hn hfor => ?_⟩
      obtain ⟨-, hhead, -⟩ := hp.head hproc
      have hlt : n < l.acked + 1 := hall.acked n raw hn hfor
      refine Nat.lt_of_le_of_ne (Nat.le_of_lt_succ hlt) ?_
      rintro rfl
      rw [hhead] at hn
      cases hn
      rw [hraw, Raw.isFor] at hfor
      exact hid (of_decide_eq_true hfor)

/-- A message arriving. -/
theorem Lane.Follows.push (h : l.Follows p r K row q) (hp : l.Placed) {raw : Raw Result}
    (hraw : Carries p r K raw) :
    ({ l with
      queue := l.queue ++ [⟨l.arrivals.length, raw⟩]
      arrivals := l.arrivals ++ [raw] } : Lane Stage Result).Follows p r K row q where
  carries raw' hmem := by
    rcases List.mem_append.1 hmem with hmem | hmem
    · exact h.carries raw' hmem
    · rw [List.mem_singleton.1 hmem]
      exact hraw
  serves := h.serves
  other := h.other
  settled := h.settled
  acked hall := by
    have hnew : raw.isFor p = false := by
      refine Bool.eq_false_iff.2 fun hfor => ?_
      have hlast : (l.arrivals ++ [raw])[l.arrivals.length]? = some raw := by simp
      exact Nat.not_lt_of_le hp.acked_le (hall.acked _ raw hlast hfor)
    obtain ⟨raw', hmem, hfor⟩ := hall.arrived
    refine h.acked ⟨⟨raw', ?_, hfor⟩, fun n raw'' hn hfor' => hall.acked n raw'' ?_ hfor'⟩
    · rcases List.mem_append.1 hmem with hmem | hmem
      · exact hmem
      · rw [List.mem_singleton.1 hmem, hnew] at hfor
        cases hfor
    · show (l.arrivals ++ [raw])[n]? = some raw''
      rw [List.getElem?_append_left (List.getElem?_eq_some_iff.1 hn).1]
      exact hn

theorem Lane.follows_initial : (Lane.initial : Lane Stage Result).Follows p r K row q where
  carries raw h := absurd h List.not_mem_nil
  serves _ _ _ h := by cases h
  other _ _ _ h := by cases h
  settled _ _ h := by cases h
  acked h := by
    obtain ⟨raw, hmem, -⟩ := h.arrived
    exact absurd hmem List.not_mem_nil

end

/-! ## Runs -/

/-- The state of the run `p`, whose result is `r`, stored under the keys `K`. -/
structure Tracked (p : ℕ) (r : Result) (K : String → Prop)
    (s : State Requests Stage Result) : Prop where
  payload : ∀ key result, K key → s.payload key = some (some result) → result = r
  row : ∃ row, s.world p = some row ∧ (row.status = .success → r.success = true) ∧
    ∀ q, (s.lanes q).Follows p r K row q

/-- What happens with the database up, when the worker stores and sends the result
    `r` of the run `p`. -/
def Admissible (p : ℕ) (r : Result) (K : String → Prop) : Event Outside Result → Prop
  | .store key blob _ => K key → ∀ result, blob = some result → result = r
  | .push _ raw => Carries p r K raw
  | .act _ (.close committed _) => committed = true
  | _ => True

section
variable {p : ℕ} {r : Result} {K : String → Prop} {s s' : State Requests Stage Result}
  {q : ResultQueue}

/-- One lane and the row may change. -/
theorem tracked_update {row row' : Request} {l : Lane Stage Result} {world : Requests}
    {payload : String → Option (Option Result)} {pending : String → List ResultQueue}
    (hpayload : ∀ key result, K key → payload key = some (some result) → result = r)
    (hsuccess : row.status = .success → r.success = true)
    (hall : ∀ q, (s.lanes q).Follows p r K row q) (hl : l.Follows p r K row' q)
    (hkeeps : Keeps r (· ≠ q) row row') (hworld : world p = some row') :
    Tracked p r K ⟨Function.update s.lanes q l, payload, pending, s.stored, world⟩ := by
  refine ⟨hpayload, row', hworld, fun h => (hkeeps.success h).elim hsuccess id, fun q' => ?_⟩
  show (Function.update s.lanes q l q').Follows p r K row' q'
  by_cases hq : q' = q
  · rw [hq, Function.update_self]
    exact hl
  · rw [Function.update_of_ne hq]
    exact (hall q').keep (hkeeps.done q' hq)

/-- What the handler of the run is given is the result of the run. -/
theorem given_result (h : Tracked p r K s) {message : Message Result} {result : Option Result}
    (hcarries : Carries p r K (.envelope message)) (hgiven : Given s message result)
    (hid : message.privateId = p) : ∀ x, result = some x → x = r := by
  intro x hx
  cases hgiven with
  | inline hkey => exact (hcarries message rfl hid).2 hkey x hx
  | @stored key result' hkey hpayload =>
    cases hx
    exact h.payload key x ((hcarries message rfl hid).1 key hkey) hpayload

/-- Only `on_lost` is called before the end of a stage that is being closed. -/
theorem act_closing {σ H O R : Type} [DecidableEq R] {hs : Handlers σ H O R} {s s' : State σ H R}
    {q : ResultQueue} {a : Act} {item : Item R} {message : Message R} {guarded : Bool}
    (hpc : (s.lanes q).pc = .closing item message guarded) (h : act hs q a s = some s') :
    ∃ committed returned, a = .close committed returned ∧
      s'.world = if committed then hs.onLost q message s.world else s.world := by
  cases a with
  | close committed returned =>
    simp only [act, hpc] at h
    cases h
    exact ⟨committed, returned, rfl, rfl⟩
  | _ => simp [act, hpc] at h

/-- A command of a consumer, with the database up. -/
theorem Tracked.act (h : Tracked p r K s) (hplaced : ∀ q, (s.lanes q).Placed) {a : Act}
    (ha : Admissible p r K (.act q a)) (hact : act pipeline q a s = some s') :
    Tracked p r K s' := by
  have htracked := h
  obtain ⟨hpayload, row, hrow, hsuccess, hall⟩ := h
  have hl := hall q
  have hp := hplaced q
  have hold := hp.holding
  unfold Lane.Holding at hold
  cases act_cases hact with
  | start hpc | recovered hpc _ | take hpc _ | reject hpc | decode hpc _ | count hpc _
  | miscount hpc _ | lose hpc | retain hpc | check hpc _ | release hpc =>
    exact tracked_update hpayload hsuccess hall (hl.setPc (by simp) (by simp)) Keeps.refl hrow
  | recover hpc hproc =>
    exact tracked_update hpayload hsuccess hall
      (hl.setPc (by simp [hpc]) (by simp [hpc])) Keeps.refl hrow
  | @clear message hpc =>
    refine tracked_update hpayload hsuccess hall (hl.setPc ?_ ?_) Keeps.refl hrow
    all_goals cases message.resultKey <;> simp
  | @free key hpc =>
    refine tracked_update (fun key' result hK hpay => ?_) hsuccess hall
      (hl.setPc (by simp) (by simp)) Keeps.refl hrow
    by_cases hkey : key' = key
    · rw [hkey, Function.update_self] at hpay
      cases hpay
    · rw [Function.update_of_ne hkey] at hpay
      exact hpayload key' result hK hpay
  | @invoke item message attempts result hpc hle hgiven =>
    rw [hpc] at hold
    refine tracked_update hpayload hsuccess hall (hl.invoke ?_) Keeps.refl hrow
    refine given_result htracked ?_ hgiven
    rw [← hold.2]
    exact hl.carries _ (List.mem_of_getElem? (hp.head hold.1).2.1)
  | @transact item message stage choice world progress hpc hnext =>
    rw [hpc] at hold
    by_cases hid : message.privateId = p
    · obtain ⟨row', hrow', hadv⟩ := next_advances (hl.serves _ _ _ hpc hid) hrow hnext
      exact tracked_update hpayload hsuccess hall
        (hl.advance (hp.not_allAcked hold.1 hold.2 hid) hid hadv) hadv.keeps hrow'
    · obtain ⟨hsame, hcont⟩ := next_other (hl.other _ _ _ hpc hid) hnext
      exact tracked_update hpayload hsuccess hall (hl.pass hid hcont) Keeps.refl
        (hsame.trans hrow)
  | @close item message guarded pc committed returned hpc hnext =>
    -- the database is up, so that the stage is closed
    have hworld : (if committed then failStage q message s.world else s.world) =
        failStage q message s.world := by
      obtain ⟨committed', returned', rfl, hw⟩ := act_closing hpc hact
      have hc : committed' = true := ha
      rw [hc, if_pos rfl] at hw
      exact hw
    have hpc' : pc = .settled item message ∨ pc = .closing item message false :=
      hnext.imp id fun hn => hn.2.2
    by_cases hid : message.privateId = p
    · obtain ⟨row', hrow', hkeeps, hdone⟩ := failStage_keeps (q := q) (r := r) hid hrow
      refine tracked_update hpayload hsuccess hall ?_ ⟨hkeeps.success, fun q _ => hkeeps.done q trivial⟩
        ((congrFun hworld p).trans hrow')
      exact (hl.keep (hkeeps.done q trivial)).close hpc' fun _ => hdone
    · exact tracked_update hpayload hsuccess hall (hl.close hpc' fun h => absurd h hid) Keeps.refl
        (((congrFun hworld p).trans (failStage_other hid)).trans hrow)
  | ack hpc =>
    rw [hpc] at hold
    exact tracked_update hpayload hsuccess hall (hl.ack hp hpc hold.1 hold.2) Keeps.refl hrow

/-- Every step with the database up keeps track of the run. -/
theorem Tracked.step {e : Event Outside Result} (he : Admissible p r K e)
    (h : Tracked p r K s) (hplaced : ∀ q, (s.lanes q).Placed)
    (hstep : Queue.step pipeline e s = some s') : Tracked p r K s' := by
  have htracked := h
  obtain ⟨hpayload, row, hrow, hsuccess, hall⟩ := h
  cases e with
  | store key blob queues =>
    simp only [Queue.step] at hstep
    split_ifs at hstep
    cases hstep
    refine ⟨fun key' result hK hpay => ?_, row, hrow, hsuccess, hall⟩
    have hpay' : Function.update s.payload key (some blob) key' = some (some result) := hpay
    by_cases hkey : key' = key
    · rw [hkey, Function.update_self] at hpay'
      exact he (hkey ▸ hK) result (Option.some.inj hpay')
    · rw [Function.update_of_ne hkey] at hpay'
      exact hpayload key' result hK hpay'
  | push q raw =>
    simp only [Queue.step] at hstep
    split_ifs at hstep
    cases hstep
    exact tracked_update hpayload hsuccess hall ((hall q).push (hplaced q) he) Keeps.refl hrow
  | outside o =>
    cases hstep
    obtain ⟨row', hrow', hkeeps⟩ := outside_keeps (r := r) o hrow
    exact ⟨hpayload, row', hrow', fun h => (hkeeps.success h).elim hsuccess id,
      fun q => (hall q).keep (hkeeps.done q trivial)⟩
  | act q a => exact htracked.act hplaced he hstep
  | crash q =>
    cases hstep
    exact tracked_update hpayload hsuccess hall ((hall q).setPc (by simp) (by simp)) Keeps.refl
      hrow
  | evict key =>
    cases hstep
    refine ⟨fun key' result hK hpay => ?_, row, hrow, hsuccess, hall⟩
    have hpay' : Function.update s.payload key none key' = some (some result) := hpay
    by_cases hkey : key' = key
    · rw [hkey, Function.update_self] at hpay'
      cases hpay'
    · rw [Function.update_of_ne hkey] at hpay'
      exact hpayload key' result hK hpay'
  | forget q key =>
    cases hstep
    have hl := hall q
    exact tracked_update hpayload hsuccess hall
      ⟨hl.carries, hl.serves, hl.other, hl.settled, fun h => hl.acked ⟨h.arrived, h.acked⟩⟩
      Keeps.refl hrow

/-- In every state of every run with the database up. -/
theorem run_tracked {world : Requests} {row : Request} (hrow : world p = some row)
    (hnew : row.status ≠ .success) {es : List (Event Outside Result)}
    (hes : ∀ e ∈ es, Admissible p r K e)
    (h : Machine.run (Queue.step pipeline) es (State.initial world) = some s) :
    Tracked p r K s := by
  have hinv : (∀ q, (s.lanes q).Placed) ∧ Tracked p r K s := by
    refine Machine.run_inv (I := fun s => (∀ q, (s.lanes q).Placed) ∧ Tracked p r K s)
      (fun he hs hstep => ⟨placed_step hs.1 hstep, hs.2.step he hs.1 hstep⟩) hes ?_ h
    refine ⟨fun _ => Lane.placed_initial, ?_, row, hrow, fun h => absurd h hnew,
      fun _ => Lane.follows_initial⟩
    intro key result _ hpay
    cases hpay
  exact hinv.2

/-- A run that all its queues are through with is out of the pipeline. -/
theorem Tracked.not_inPipeline (h : Tracked p r K s) (hacked : ∀ q, (s.lanes q).AllAcked p) :
    ∃ row, s.world p = some row ∧ row.inPipeline = false := by
  obtain ⟨-, row, hrow, hsuccess, hall⟩ := h
  refine ⟨row, hrow, ?_⟩
  have hstatus : row.status.nonTerminal = false := (hall .results).acked (hacked .results)
  have hta : row.statusTaPublication.nonTerminal = false ∨
      (r.success = false ∧ r.scorecards = false) :=
    (hall .nostrResults).acked (hacked .nostrResults)
  rw [Request.inPipeline, hstatus, Bool.false_or, Bool.and_eq_false_iff]
  by_cases hs : row.status = .success
  · right
    rcases hta with hta | ⟨hfail, -⟩
    · exact hta
    · rw [hsuccess hs] at hfail
      cases hfail
  · left
    exact decide_eq_false hs

/-- The worker sends a message of the run `p`. -/
def Event.sends (p : ℕ) : Event Outside Result → Bool
  | .push _ raw => raw.isFor p
  | _ => false

/-- The commands of a consumer push nothing, and take no acknowledgement back. -/
theorem Acts.grows {σ H O R : Type} [DecidableEq R] {hs : Handlers σ H O R} {s s' : State σ H R}
    {q : ResultQueue} (h : Acts hs q s s') (q' : ResultQueue) :
    (s'.lanes q').arrivals = (s.lanes q').arrivals ∧ (s.lanes q').acked ≤ (s'.lanes q').acked := by
  by_cases hq : q' = q
  · subst hq
    have hself : ∀ l : Lane H R, Function.update s.lanes q' l q' = l :=
      fun l => Function.update_self ..
    cases h with
    | ack hpc =>
      show (Function.update s.lanes q' _ q').arrivals = _ ∧ _ ≤ (Function.update s.lanes q' _ q').acked
      rw [hself]
      exact ⟨rfl, Nat.le_succ _⟩
    | _ =>
      show (Function.update s.lanes q' _ q').arrivals = _ ∧ _ ≤ (Function.update s.lanes q' _ q').acked
      rw [hself]
      exact ⟨rfl, Nat.le_refl _⟩
  · rw [h.other hq]
    exact ⟨rfl, Nat.le_refl _⟩

/-- Once the messages of a run are acknowledged, they stay so while no more are sent. -/
theorem allAcked_step {e : Event Outside Result} (he : e.sends p = false)
    (h : ∀ q, (s.lanes q).AllAcked p) (hstep : Queue.step pipeline e s = some s') :
    ∀ q, (s'.lanes q).AllAcked p := by
  cases e with
  | store key blob queues =>
    simp only [Queue.step] at hstep
    split_ifs at hstep
    cases hstep
    exact h
  | push q raw =>
    simp only [Queue.step] at hstep
    split_ifs at hstep
    cases hstep
    refine setLane_forall (P := fun l => l.AllAcked p) ⟨?_, fun n raw' hn hfor => ?_⟩ h
    · obtain ⟨raw', hmem, hfor⟩ := (h q).arrived
      exact ⟨raw', List.mem_append_left _ hmem, hfor⟩
    · have hn' : ((s.lanes q).arrivals ++ [raw])[n]? = some raw' := hn
      by_cases hlt : n < (s.lanes q).arrivals.length
      · rw [List.getElem?_append_left hlt] at hn'
        exact (h q).acked n raw' hn' hfor
      · rw [List.getElem?_append_right (Nat.le_of_not_lt hlt)] at hn'
        rw [List.mem_singleton.1 (List.mem_of_getElem? hn'), show raw.isFor p = false from he] at hfor
        cases hfor
  | outside o =>
    cases hstep
    exact h
  | act q a =>
    intro q'
    obtain ⟨harr, hle⟩ := (act_cases hstep).grows q'
    refine ⟨?_, fun n raw hn hfor => ?_⟩
    · rw [harr]
      exact (h q').arrived
    · rw [harr] at hn
      exact Nat.lt_of_lt_of_le ((h q').acked n raw hn hfor) hle
  | crash q =>
    cases hstep
    exact setLane_forall (P := fun l => l.AllAcked p) ⟨(h q).arrived, (h q).acked⟩ h
  | evict key =>
    cases hstep
    exact h
  | forget q key =>
    cases hstep
    exact setLane_forall (P := fun l => l.AllAcked p) ⟨(h q).arrived, (h q).acked⟩ h

end

/-- **Every run leaves the pipeline and stays out**: once its messages on the three
    queues are acknowledged, whatever happens next. -/
theorem leaves_pipeline (p : ℕ) (r : Result) (K : String → Prop) (world : Requests) (row : Request)
    (hrow : world p = some row) (hnew : row.status ≠ .success) (es : List (Event Outside Result))
    (hes : ∀ e ∈ es, Admissible p r K e) (s : State Requests Stage Result)
    (hs : Machine.run (Queue.step pipeline) es (State.initial world) = some s)
    (hacked : ∀ q, (s.lanes q).AllAcked p) (later : List (Event Outside Result))
    (hlater : ∀ e ∈ later, Admissible p r K e ∧ e.sends p = false)
    (s' : State Requests Stage Result)
    (hs' : Machine.run (Queue.step pipeline) later s = some s') :
    ∃ row', s'.world p = some row' ∧ row'.inPipeline = false := by
  have hall : ∀ q, (s'.lanes q).AllAcked p :=
    Machine.run_inv (I := fun s => ∀ q, (s.lanes q).AllAcked p)
      (fun he hs hstep => allAcked_step he hs hstep) (fun e he => (hlater e he).2) hacked hs'
  have hboth : ∀ e ∈ es ++ later, Admissible p r K e := by
    intro e he
    rcases List.mem_append.1 he with he | he
    · exact hes e he
    · exact (hlater e he).1
  exact (run_tracked hrow hnew hboth (Machine.run_append.2 ⟨s, hs, hs'⟩)).not_inPipeline hall

/-- What a consumer does for a message that names a key, up to the check. -/
def consumed (choices : List ℕ) : List Act :=
  ([.start, .recover, .take, .decode, .count true true, .dispatch true] : List Act) ++
    choices.map Act.transact ++ ([.ack, .clear, .release, .check] : List Act)

/-- The result is stored and sent, the publication fails after its first
    transaction, and the payload is gone when the last queue asks for it. -/
def failedPublication : List (Event Outside Result) :=
  ([.store "result:7" (some ⟨true, true⟩) [.results, .nostrResults, .writeNeo4j],
    .push .results (.envelope ⟨7, some "result:7", none⟩),
    .push .nostrResults (.envelope ⟨7, some "result:7", none⟩),
    .push .writeNeo4j (.envelope ⟨7, some "result:7", none⟩), .outside (.jobStarted 7)] :
    List (Event Outside Result)) ++
  (consumed [0, 1, 0]).map (.act .nostrResults) ++ (consumed [0]).map (.act .results) ++
  ([.evict "result:7"] : List (Event Outside Result)) ++
  ([.start, .recover, .take, .decode, .count true true, .dispatch true, .close true true,
    .ack] : List Act).map (.act .writeNeo4j)

/-- The one row of it. -/
def sampleRequests : Requests := fun id =>
  if id = 7 then some ⟨.waiting, .waiting, .waiting⟩ else none

theorem failedPublication_leaves : ∃ s s',
    Machine.run (Queue.step pipeline) failedPublication (State.initial sampleRequests) = some s ∧
    Machine.run (Queue.step pipeline) [.outside (.jobStarted 7), .outside (.reap fun _ => true)] s
      = some s' ∧
    ∃ row', s'.world 7 = some row' ∧ row'.inPipeline = false := by
  have hsome : (Machine.run (Queue.step pipeline) failedPublication
      (State.initial sampleRequests)).isSome = true := by rfl
  have hlanes : ∀ q, (((Machine.run (Queue.step pipeline) failedPublication
      (State.initial sampleRequests)).get hsome).lanes q).arrivals =
        [.envelope ⟨7, some "result:7", none⟩] ∧
      (((Machine.run (Queue.step pipeline) failedPublication
        (State.initial sampleRequests)).get hsome).lanes q).acked = 1 := by
    intro q
    cases q <;> exact ⟨rfl, rfl⟩
  obtain ⟨s, hs⟩ := Option.isSome_iff_exists.1 hsome
  simp only [hs, Option.get_some] at hlanes
  refine ⟨s, _, hs, rfl, leaves_pipeline 7 ⟨true, true⟩ (· = "result:7") sampleRequests
    ⟨.waiting, .waiting, .waiting⟩ rfl (by decide) failedPublication ?_ s hs ?_
    [.outside (.jobStarted 7), .outside (.reap fun _ => true)] ?_ _ rfl⟩
  · simp [failedPublication, consumed, Admissible, Carries]
  · intro q
    refine ⟨?_, fun n raw hn _ => ?_⟩
    · rw [(hlanes q).1]
      exact ⟨_, List.mem_singleton.2 rfl, rfl⟩
    · rw [(hlanes q).1] at hn
      rw [(hlanes q).2]
      exact (List.getElem?_eq_some_iff.1 hn).1
  · simp [Admissible, Event.sends]

end Queue

end BrainstormServer
