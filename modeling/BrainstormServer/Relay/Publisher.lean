/-
  The relay publisher (`app/message_queue_tasks/relay_publisher.py`).

  A producer takes signed events from an iterator and queues them; each of a few
  workers holds a connection, sends what it takes from the queue and keeps it
  pending until the relay answers.  What is rejected comes back after a delay,
  what a lost connection leaves pending is queued again, and a worker without
  progress gives up.

  `step` takes what one task does between two awaits; the relay, the network and
  the clock choose which (`Event`).  Beside the fields of `_Publisher` a state keeps
  its history: what was produced, what was resolved and how, and which ids the
  relay answered with `OK true`.
-/
import BrainstormServer.Conc.Machine
import BrainstormServer.Nsec.KeyFile

namespace BrainstormServer

namespace Relay

/-! ## Data -/

/-- `PublishConfig`, without the times. -/
structure PublishConfig where
  connections : ℕ
  maxInFlight : ℕ
  maxOutstanding : ℕ
  maxEventAttempts : ℕ
  maxConnectAttempts : ℕ

/-- `SignedEvent`. -/
structure SignedEvent where
  id : String
  json : String
  deriving DecidableEq

/-- `PublishStats`, without the times. -/
structure PublishStats where
  nEvents : ℕ
  nAcked : ℕ
  nFailed : ℤ
  nRetried : ℕ
  nReconnects : ℕ
  aborted : Bool
  rejected : String → ℕ
  failureSamples : List String

/-- `n_unacked`. -/
def PublishStats.nUnacked (stats : PublishStats) : ℤ := stats.nEvents - stats.nAcked

/-- `_Item`. -/
structure Item where
  id : String
  frame : String
  attempts : ℕ
  deriving DecidableEq

/-- `_reject_reason`. -/
def rejectReason (message : String) : String :=
  let pre := Nsec.strip (message.toList.takeWhile (· ≠ ':'))
  if ':' ∈ message.toList ∧ pre ≠ [] then String.ofList pre else "unknown"

/-- A frame from the relay: `["OK", id, ok, reason]`, with `accepted` for a third
    entry that is `True`, or anything that `_read` skips. -/
inductive Frame
  | other
  | ok (id : String) (accepted : Bool) (reason : String)
  deriving DecidableEq

/-! ## Tasks -/

/-- Where `_produce` stands. -/
inductive Producer
  /-- at the iterator -/
  | pulling
  /-- before `outstanding.acquire` -/
  | holding (event : SignedEvent)
  | finished
  | raised
  deriving DecidableEq

/-- Where `_send` stands. -/
inductive Sender
  /-- before `in_flight.acquire` -/
  | acquiring
  /-- before `todo.get` -/
  | getting
  /-- in `ws.send` -/
  | sending
  | stopped
  deriving DecidableEq

/-- A connection: its pending events, the permits of `in_flight` and its tasks. -/
structure Connection where
  pending : List Item
  inFlight : ℕ
  sender : Sender
  progress : Bool
  deriving DecidableEq

/-- Where `_worker` stands, with its count of failures. -/
inductive Worker
  /-- before the test of the loop -/
  | looping (failures : ℕ)
  | connecting (failures : ℕ)
  | connected (failures : ℕ) (c : Connection)
  /-- in the close handshake, or past a connection that failed -/
  | closing (failures : ℕ) (progress : Bool)
  | sleeping (failures : ℕ)
  | returned
  deriving DecidableEq

/-- `_Publisher`, its tasks and timers, and its history. -/
structure State (n : ℕ) where
  stats : PublishStats
  todo : List (Option Item)
  outstanding : ℕ
  done : Bool
  producedAll : Bool
  nResolved : ℕ
  deadWorkers : ℕ
  /-- what the iterator still has -/
  stream : List SignedEvent
  producer : Producer
  workers : Fin n → Worker
  /-- the items of `_requeue_later` -/
  retries : List Item
  /-- how `run` ended: it raised, or returned the stats -/
  outcome : Option (Option PublishStats)
  produced : List SignedEvent
  /-- the resolved ids, and whether the relay accepted them -/
  resolved : List (String × Bool)
  /-- the ids the relay answered with `OK true` -/
  answered : List String

/-- What happens next. -/
inductive Event (n : ℕ)
  /-- the iterator yields its next event -/
  | pull
  /-- the iterator is exhausted -/
  | stop
  /-- the iterator raises -/
  | fail
  /-- the producer passes `outstanding.acquire` -/
  | produce
  | loop (w : Fin n)
  | connect (w : Fin n) (established : Bool)
  | acquire (w : Fin n)
  | get (w : Fin n)
  | sent (w : Fin n)
  | receive (w : Fin n) (frame : Frame)
  /-- a task of the connection ends or raises (closed, no `OK` in time, done), or
      the worker is cancelled -/
  | drop (w : Fin n)
  | closed (w : Fin n)
  | wake (w : Fin n)
  /-- a timer of `_requeue_later` fires -/
  | fire (i : ℕ)
  /-- `run` finds `done` set -/
  | finish
  deriving DecidableEq

section
variable {n : ℕ}

def State.setWorker (s : State n) (w : Fin n) (worker : Worker) : State n :=
  { s with workers := Function.update s.workers w worker }

/-- `_finish`. -/
def State.finish (s : State n) : State n :=
  if s.done then s
  else { s with done := true, todo := s.todo ++ List.replicate n none }

/-- `_check_done`. -/
def State.checkDone (s : State n) : State n :=
  if s.producedAll ∧ s.nResolved = s.stats.nEvents then s.finish else s

/-- `_resolve`, of an event that was accepted or given up. -/
def State.resolve (s : State n) (id : String) (accepted : Bool) : State n :=
  { s with
    nResolved := s.nResolved + 1
    outstanding := s.outstanding + 1
    resolved := (id, accepted) :: s.resolved }.checkDone

/-- `pending[item.id] = item`. -/
def insertPending (item : Item) (pending : List Item) : List Item :=
  if pending.any (·.id = item.id) then
    pending.map fun item' => if item'.id = item.id then item else item'
  else pending ++ [item]

/-- `_read`, on one frame. -/
def receive (cfg : PublishConfig) (w : Fin n) (failures : ℕ) (c : Connection) (frame : Frame)
    (s : State n) : State n :=
  match frame with
  | .other => s
  | .ok id accepted reason =>
    let s := if accepted then { s with answered := id :: s.answered } else s
    match c.pending.find? (·.id = id) with
    | none => s
    | some item =>
      let s := s.setWorker w (.connected failures { c with
        pending := c.pending.eraseP (·.id = id), inFlight := c.inFlight + 1, progress := true })
      if accepted then
        { s with stats := { s.stats with nAcked := s.stats.nAcked + 1 } }.resolve id true
      else
        let stats : PublishStats := { s.stats with
          rejected := Function.update s.stats.rejected (rejectReason reason)
            (s.stats.rejected (rejectReason reason) + 1) }
        if cfg.maxEventAttempts ≤ item.attempts + 1 then
          let samples := if stats.failureSamples.length < 5 then
            stats.failureSamples ++ [item.id ++ ": " ++ reason] else stats.failureSamples
          { s with stats := { stats with failureSamples := samples } }.resolve id false
        else { s with
          stats := { stats with nRetried := stats.nRetried + 1 }
          retries := s.retries ++ [{ item with attempts := item.attempts + 1 }] }

/-- The rest of the loop of `_worker`, after a connection. -/
def afterConnection (cfg : PublishConfig) (w : Fin n) (failures : ℕ) (progress : Bool)
    (s : State n) : State n :=
  if s.done then s.setWorker w .returned
  else
    let failures := if progress then 0 else failures + 1
    if cfg.maxConnectAttempts ≤ failures then
      let s := { s.setWorker w .returned with deadWorkers := s.deadWorkers + 1 }
      if s.deadWorkers = n then { s with stats := { s.stats with aborted := true } }.finish else s
    else { s.setWorker w (.sleeping failures) with
      stats := { s.stats with nReconnects := s.stats.nReconnects + 1 } }

/-- The steps that remain once `run` has cancelled its tasks. -/
def Event.isCleanup : Event n → Bool
  | .drop _ | .fire _ => true
  | _ => false

/-- What one task does between two awaits. -/
def advance (cfg : PublishConfig) (e : Event n) (s : State n) : Option (State n) :=
  match e with
  | .pull =>
    match s.producer, s.stream with
    | .pulling, event :: rest => some { s with producer := .holding event, stream := rest }
    | _, _ => none
  | .stop =>
    match s.producer, s.stream with
    | .pulling, [] => some { s with producer := .finished, producedAll := true }.checkDone
    | _, _ => none
  | .fail =>
    match s.producer with
    | .pulling => some { s with producer := .raised, done := true }
    | _ => none
  | .produce =>
    match s.producer with
    | .holding event =>
      if 0 < s.outstanding then some { s with
        outstanding := s.outstanding - 1
        stats := { s.stats with nEvents := s.stats.nEvents + 1 }
        todo := s.todo ++ [some ⟨event.id, "[\"EVENT\"," ++ event.json ++ "]", 0⟩]
        producer := .pulling
        produced := s.produced ++ [event] }
      else none
    | _ => none
  | .loop w =>
    match s.workers w with
    | .looping failures =>
      some (s.setWorker w (if s.done then .returned else .connecting failures))
    | _ => none
  | .connect w established =>
    match s.workers w with
    | .connecting failures => some (s.setWorker w (if established then
        .connected failures ⟨[], cfg.maxInFlight, .acquiring, false⟩
        else .closing failures false))
    | _ => none
  | .acquire w =>
    match s.workers w with
    | .connected failures c =>
      if c.sender = .acquiring ∧ 0 < c.inFlight then
        some (s.setWorker w (.connected failures { c with
          inFlight := c.inFlight - 1, sender := .getting }))
      else none
    | _ => none
  | .get w =>
    match s.workers w, s.todo with
    | .connected failures c, next :: rest =>
      if c.sender = .getting then
        match next with
        | none => some { s.setWorker w (.connected failures { c with sender := .stopped }) with
            todo := rest }
        | some item => some { s.setWorker w (.connected failures { c with
            sender := .sending, pending := insertPending item c.pending }) with
            todo := rest }
      else none
    | _, _ => none
  | .sent w =>
    match s.workers w with
    | .connected failures c =>
      if c.sender = .sending then
        some (s.setWorker w (.connected failures { c with sender := .acquiring }))
      else none
    | _ => none
  | .receive w frame =>
    match s.workers w with
    | .connected failures c => some (receive cfg w failures c frame s)
    | _ => none
  | .drop w =>
    match s.workers w with
    | .connected failures c => some { s.setWorker w (.closing failures c.progress) with
        todo := s.todo ++ c.pending.map some }
    | _ => none
  | .closed w =>
    match s.workers w with
    | .closing failures progress => some (afterConnection cfg w failures progress s)
    | _ => none
  | .wake w =>
    match s.workers w with
    | .sleeping failures => some (s.setWorker w (.looping failures))
    | _ => none
  | .fire i =>
    match s.retries[i]? with
    | some item => some { s with todo := s.todo ++ [some item], retries := s.retries.eraseIdx i }
    | none => none
  | .finish =>
    if s.done then some { s with
      outcome := some (if s.producer = .raised then none
        else some { s.stats with nFailed := s.stats.nEvents - s.stats.nAcked }) }
    else none

/-- One step of the publisher. -/
def step (cfg : PublishConfig) (e : Event n) (s : State n) : Option (State n) :=
  if s.outcome.isSome && !e.isCleanup then none else advance cfg e s

end

/-- `publish_events`, before its first step. -/
def State.initial (cfg : PublishConfig) (events : List SignedEvent) : State cfg.connections where
  stats := ⟨0, 0, 0, 0, 0, false, fun _ => 0, []⟩
  todo := []
  outstanding := cfg.maxOutstanding
  done := false
  producedAll := false
  nResolved := 0
  deadWorkers := 0
  stream := events
  producer := .pulling
  workers _ := .looping 0
  retries := []
  outcome := none
  produced := []
  resolved := []
  answered := []

end Relay

end BrainstormServer
