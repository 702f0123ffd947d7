/-
  The publish stage of a run (`process_nostr_upload_message`) and what else
  writes its status.

  The state holds the request rows, the row of each observer, and for each
  observer the observees with an assertion stored on the relay.  One consumer
  takes the upload messages one after another, so that a whole run is one step
  (`processNostrUploadMessage`); what can happen to it on the way is its
  `Outcome`.  Which of its events land, and in which order, is up to the relay
  (`Landing`).

  The other steps are the creation of requests, a message whose payload is lost,
  a calculation that failed, and the reaper of stale runs.
-/
import BrainstormServer.Publish.Plan

namespace BrainstormServer

namespace Publish

/-! ## State -/

/-- `BrainstormRequestStatus`. -/
inductive Status
  | waiting
  | ongoing
  | success
  | failure
  deriving DecidableEq

/-- `brainstorm_request`, the columns of the publish stage; `parameters` is the
    observer the scores are calculated for. -/
structure Request where
  privateId : ℕ
  pubkey : Option Pubkey
  parameters : Pubkey
  statusTaPublication : Status
  forceFullRelay : Option Bool
  deriving DecidableEq

/-- `brainstorm_nsec`, the columns a publish writes. -/
structure Observer where
  lastPublishedPubkeys : Option Bytes
  lastPublishedGraperankRequestId : Option ℕ
  runsSinceFull : ℕ
  deriving DecidableEq

/-- The tables, the last id handed out, and the relay. -/
structure State where
  requests : List Request
  lastId : ℕ
  observers : Pubkey → Observer
  relay : Pubkey → Finset Pubkey

structure Settings (R : Type) where
  cutoffOfValidGraperankScores : R
  relayFullSync : Bool
  relaySweepBelowCutoff : Bool

structure Message (R : Type) where
  privateId : ℕ
  result : GrapeRankResult R

/-- The events of a list that arrive, in the order in which they do. -/
structure Landing where
  arrive : List Event → List Event
  planned : ∀ {es : List Event} {e : Event}, e ∈ arrive es → e ∈ es

/-- How a run ends. -/
inductive Outcome
  /-- the relay has acknowledged every event, and the results can be committed -/
  | acked (l : Landing) (all : ∀ {es : List Event} {e : Event}, e ∈ es → e ∈ l.arrive es)
  /-- an exception in the `try` block -/
  | failed (l : Landing)
  /-- the consumer dies after the run has been marked as ongoing -/
  | killed (l : Landing)
  /-- an exception before that: the consumer closes the stage -/
  | lost

namespace State

/-- `select_brainstorm_request_by_id_on_db`. -/
def request (st : State) (privateId : ℕ) : Option Request :=
  st.requests.find? (·.privateId = privateId)

def modifyRequest (st : State) (privateId : ℕ) (f : Request → Request) : State :=
  { st with requests := st.requests.map fun row => if row.privateId = privateId then f row else row }

/-- `update_brainstorm_request_ta_status_by_id_on_db`. -/
def updateTaStatus (st : State) (privateId : ℕ) (status : Status) : State :=
  st.modifyRequest privateId fun row => { row with statusTaPublication := status }

/-- `mark_brainstorm_request_force_full_relay_on_db`. -/
def markForceFullRelay (st : State) (privateId : ℕ) : State :=
  st.modifyRequest privateId fun row => { row with forceFullRelay := some true }

/-- `last_full_ok` of `relay_publish_gap_pending_on_db`, 0 if there is none. -/
def lastFullOk (st : State) (pubkey : Pubkey) (beforeRunId : ℕ) : ℕ :=
  ((st.requests.filter fun row => row.pubkey = some pubkey ∧ row.privateId < beforeRunId ∧
    row.forceFullRelay = some true ∧ row.statusTaPublication = .success).map
      (·.privateId)).foldr max 0

/-- `relay_publish_gap_pending_on_db`. -/
def relayPublishGapPending (st : State) (pubkey : Pubkey) (beforeRunId : ℕ) : Bool :=
  st.requests.any fun row => row.pubkey = some pubkey ∧ row.privateId < beforeRunId ∧
    st.lastFullOk pubkey beforeRunId < row.privateId ∧ row.statusTaPublication = .failure

/-- Events land on the relay. -/
def landOn (st : State) (observer : Pubkey) (events : List Event) : State :=
  { st with relay := Function.update st.relay observer (land (st.relay observer) events) }

/-- `get_last_published_pubkeys_by_pubkey_on_db`: the persisted baseline, read back. -/
def baseline (st : State) (observer : Pubkey) : List Pubkey :=
  unpackPubkeys (st.observers observer).lastPublishedPubkeys

/-- What a run writes to the row of its observer when it succeeds, with the packed
    observees. -/
def recordPublished (st : State) (observer : Pubkey) (published : Bytes) (privateId : ℕ)
    (fullSync : Bool) : State :=
  let row : Observer :=
    { lastPublishedPubkeys := some published
      lastPublishedGraperankRequestId := some privateId
      runsSinceFull := if fullSync then 0 else (st.observers observer).runsSinceFull }
  { st with observers := Function.update st.observers observer row }

end State

/-! ## A run -/

/-- `resolve_full_sync`. -/
def resolveFullSync (settingFull : Bool) (forceFull : Option Bool) : Bool :=
  settingFull || forceFull.getD false

section
variable {R : Type} (Φ : FloatOps R) (cfg : Settings R)

/-- Whether a run re-asserts everything above the cutoff. -/
def relayFullSync (st : State) (observer : Pubkey) (row : Request) : Bool :=
  resolveFullSync cfg.relayFullSync row.forceFullRelay ||
    st.relayPublishGapPending observer row.privateId

/-- The first transaction of a run: it is marked as full if an earlier failure
    makes it so, and as ongoing. -/
def beginRun (st : State) (observer : Pubkey) (row : Request) : State :=
  let marked := if resolveFullSync cfg.relayFullSync row.forceFullRelay = false ∧
      st.relayPublishGapPending observer row.privateId
    then st.markForceFullRelay row.privateId else st
  marked.updateTaStatus row.privateId .ongoing

/-- What a run decides from its scorecards and the persisted baseline. -/
def plan (st : State) (observer : Pubkey) (scorecards : List (Pubkey × ScoreCard R)) : PublishPlan :=
  planPublish Φ scorecards (st.baseline observer) cfg.cutoffOfValidGraperankScores
    cfg.relaySweepBelowCutoff

/-- The events of a run. -/
def runEvents (st : State) (observer : Pubkey) (row : Request) (result : GrapeRankResult R)
    (scorecards : List (Pubkey × ScoreCard R)) : List Event :=
  signPublishEvents
    (prepareTaInputs Φ scorecards (result.changedScorePubkeys.getD [])
      cfg.cutoffOfValidGraperankScores (relayFullSync cfg st observer row))
    (plan Φ cfg st observer scorecards).deletes

/-- A run whose events have landed. -/
def landRun (st : State) (row : Request) (result : GrapeRankResult R) (observer : Pubkey)
    (scorecards : List (Pubkey × ScoreCard R)) (l : Landing) : State :=
  (beginRun cfg st observer row).landOn observer
    (l.arrive (runEvents Φ cfg st observer row result scorecards))

/-- `process_nostr_upload_message` on a result with scorecards. -/
def publishRun (st : State) (row : Request) (result : GrapeRankResult R) (observer : Pubkey)
    (scorecards : List (Pubkey × ScoreCard R)) : Outcome → State
  | .lost => st.updateTaStatus row.privateId .failure
  | .killed l => landRun Φ cfg st row result observer scorecards l
  | .failed l =>
    (landRun Φ cfg st row result observer scorecards l).updateTaStatus row.privateId .failure
  | .acked l _ =>
    match packPubkeys (plan Φ cfg st observer scorecards).currentlyPublished with
    | none =>
      -- `bytes.fromhex` raises in the last transaction, which is rolled back
      (landRun Φ cfg st row result observer scorecards l).updateTaStatus row.privateId .failure
    | some published =>
      ((landRun Φ cfg st row result observer scorecards l).updateTaStatus row.privateId
        .success).recordPublished observer published row.privateId
          (relayFullSync cfg st observer row)

/-- How a run ends, given the observees it would record: it fails if they cannot be
    packed. -/
def Outcome.settled (published : List Pubkey) : Outcome → Outcome
  | .acked l all => if (packPubkeys published).isSome then .acked l all else .failed l
  | outcome => outcome

theorem publishRun_settled (st : State) (row : Request) (result : GrapeRankResult R)
    (observer : Pubkey) (scorecards : List (Pubkey × ScoreCard R)) (outcome : Outcome) :
    publishRun Φ cfg st row result observer scorecards outcome =
      publishRun Φ cfg st row result observer scorecards
        (outcome.settled (aboveCutoff Φ scorecards cfg.cutoffOfValidGraperankScores)) := by
  cases outcome with
  | acked l all =>
    have hplan : (plan Φ cfg st observer scorecards).currentlyPublished =
        aboveCutoff Φ scorecards cfg.cutoffOfValidGraperankScores := rfl
    cases hpack : packPubkeys (aboveCutoff Φ scorecards cfg.cutoffOfValidGraperankScores) with
    | none => simp [publishRun, Outcome.settled, hplan, hpack]
    | some published => simp [Outcome.settled, hpack]
  | failed l => rfl
  | killed l => rfl
  | lost => rfl

/-- The scorecards of a message, and their observer; `none` if there are none. -/
def Message.cards (msg : Message R) : Option (Pubkey × List (Pubkey × ScoreCard R)) :=
  match msg.result.scorecards with
  | none => none
  | some [] => none
  | some (item :: items) => some (item.2.observer, item :: items)

/-- `process_nostr_upload_message`, with the consumer's `_fail_ta_stage` where it
    raises. -/
def processNostrUploadMessage (msg : Message R) (outcome : Outcome) (st : State) : State :=
  match msg.cards with
  | none =>
    -- a failed calculation closes this stage in its own consumer
    if msg.result.success = some true then st.updateTaStatus msg.privateId .success else st
  | some (observer, scorecards) =>
    match st.request msg.privateId with
    | none => st.updateTaStatus msg.privateId .failure
    | some row => publishRun Φ cfg st row msg.result observer scorecards outcome

/-! ## Histories -/

inductive Step (R : Type)
  /-- `create_brainstorm_request_on_db` -/
  | create (pubkey parameters : Pubkey) (forceFullRelay : Bool)
  | upload (msg : Message R) (outcome : Outcome)
  /-- `_fail_ta_stage` for a message whose payload is lost -/
  | lost (privateId : ℕ)
  /-- `process_message` on a result without success -/
  | calcFailed (privateId : ℕ)
  /-- `fail_stale_in_pipeline_brainstorm_requests_on_db`; the clock picks the rows -/
  | reaped (ids : List ℕ)

def Step.apply (st : State) : Step R → State
  | .create pubkey parameters forceFullRelay =>
    { st with
      requests := st.requests ++
        [⟨st.lastId + 1, some pubkey, parameters, .waiting, some forceFullRelay⟩]
      lastId := st.lastId + 1 }
  | .upload msg outcome => processNostrUploadMessage Φ cfg msg outcome st
  | .lost privateId => st.updateTaStatus privateId .failure
  | .calcFailed privateId => st.updateTaStatus privateId .failure
  | .reaped ids =>
    { st with requests := st.requests.map fun row =>
        if row.privateId ∈ ids ∧ row.statusTaPublication ∈ [.waiting, .ongoing]
        then { row with statusTaPublication := .failure } else row }

/-- The state after a history. -/
def run (st : State) (steps : List (Step R)) : State := steps.foldl (Step.apply Φ cfg) st

end

/-! ## A small instance -/

/-- Scores as percentages. -/
def sampleOps : FloatOps ℕ where
  atLeast x cutoff := decide (cutoff ≤ x)
  le x y := decide (x ≤ y)
  percent x := x
  int x := x

def sampleSettings : Settings ℕ := ⟨5, false, false⟩

def keyA : Pubkey := "aaaaaaaaaaaaaaaaaaaaaaaaaaaaaaaaaaaaaaaaaaaaaaaaaaaaaaaaaaaaaaaa"
def keyB : Pubkey := "bbbbbbbbbbbbbbbbbbbbbbbbbbbbbbbbbbbbbbbbbbbbbbbbbbbbbbbbbbbbbbbb"

/-- The result of a run of `"o"` with the given influences, all of them changed. -/
def sampleMessage (privateId : ℕ) (influences : List (Pubkey × ℕ)) : Message ℕ where
  privateId := privateId
  result :=
    { scorecards := some (influences.map fun i => (i.1, ⟨"o", i.1, i.2, 1, none, none, none⟩))
      success := some true
      changedScorePubkeys := some (influences.map (·.1)) }

/-- Every event arrives. -/
def arrivesAll : Landing := ⟨id, fun h => h⟩

def ackedAll : Outcome := .acked arrivesAll fun h => h

/-- Nothing has been published. -/
def emptyState : State where
  requests := []
  lastId := 0
  observers _ := ⟨none, none, 0⟩
  relay _ := ∅

end Publish

end BrainstormServer
