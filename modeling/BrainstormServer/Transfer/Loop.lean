/-
  The initial sync of one kind (`app/nostr_event_transferer/nostr_event_transferer.py`).

  The events of the kind are read from the source relay from the newest to the oldest, a
  page of `LIMIT` at a time, and sent on.  The next page is asked for before `until` has
  been moved down to the end of the present one, and filtered by `until` when it is used.
  After each page `until` is stored, with the number of events that have been sent, and a
  server that is stopped begins there again.  What the two columns do not hold is refused,
  and the error ends the loop.

  The relay is static and answers a filter with its newest events; sends succeed.
-/
import BrainstormServer.Conc.Paging
import BrainstormServer.Postgres

namespace BrainstormServer

namespace Transfer

open Conc.Paging

/-- `LIMIT`. -/
def limit : ℕ := 300

/-- The events of the kind on the source relay, newest first. -/
structure Relay (ι : Type) where
  events : List ι
  createdAt : ι → ℕ
  sorted : events.Pairwise fun a b => createdAt b ≤ createdAt a
  nodup : events.Nodup
  nonempty : events ≠ []
  two_le : ∀ e ∈ events, 2 ≤ createdAt e

/-- The row of the kind in `brainstorm_nostr_relay_transfer`. -/
structure Status where
  completed : Bool
  oldest : ℕ
  events : ℕ

/-- The columns hold the row. -/
def Status.fits (status : Status) : Bool := fitsInteger status.oldest && fitsInteger status.events

/-- The variables of the loop. -/
structure Loop (ι : Type) where
  untilTs : Option ℕ
  totalEvents : ℕ
  seen : List ι
  /-- what `next_fetch_task` gives -/
  nextFetch : Option (List ι)

/-- Where the sync of the kind stands. -/
structure State (ι : Type) where
  status : Option Status
  /-- `none` after the `break` or an error, or if the kind is skipped -/
  loop : Option (Loop ι)
  sent : List ι
  /-- `assert until` or a statement has failed -/
  raised : Bool

/-- What stands before the loop. -/
def enter {ι : Type} : Option Status → Option (Loop ι)
  | none => some ⟨none, 0, [], none⟩
  | some status =>
    if status.completed then none else some ⟨some status.oldest, status.events, [], none⟩

/-- Nothing has been done yet. -/
def State.initial {ι : Type} : State ι := ⟨none, enter none, [], false⟩

/-- `upsert_nostr_transfer_status_on_db`, and how the loop goes on if it succeeds. -/
def State.upsertNostrTransferStatus {ι : Type} (s : State ι) (status : Status) (loop : Option (Loop ι)) :
    State ι :=
  if status.fits then { s with status := some status, loop := loop }
  else { s with loop := none, raised := true }

/-- `bool(until)`. -/
def truthy (untilTs : Option ℕ) : Bool := untilTs.getD 0 ≠ 0

section
variable {ι : Type} [DecidableEq ι]

/-- The events of a page that are sent: those not seen before. -/
def newEvents (v : Loop ι) (events : List ι) : List ι := (events.filter (· ∉ v.seen)).eraseDups

namespace Relay

variable (r : Relay ι)

omit [DecidableEq ι] in
/-- `fetch_events` with the limit, up to `until` if it is given. -/
def fetch : Option ℕ → List ι
  | none => r.events.take limit
  | some untilTs => (r.events.filter fun e => r.createdAt e ≤ untilTs).take limit

omit [DecidableEq ι] in
/-- `events`, after they have been filtered by `until`. -/
def eventsOf (v : Loop ι) : List ι :=
  let page := v.nextFetch.getD (r.fetch v.untilTs)
  if truthy v.untilTs then page.filter fun e => r.createdAt e ≤ v.untilTs.getD 0 else page

/-- One turn of the loop. -/
def iterate (s : State ι) : State ι :=
  match s.loop with
  | none => s
  | some v =>
    let events := r.eventsOf v
    match (events.map r.createdAt).min? with
    | none =>
      if truthy v.untilTs then
        s.upsertNostrTransferStatus ⟨true, v.untilTs.getD 0, v.totalEvents⟩ none
      else { s with loop := none, raised := true }
    | some oldestTs =>
      let new := newEvents v events
      let sameTsCount := events.countP fun e => r.createdAt e = oldestTs
      let untilTs := if sameTsCount = events.length then oldestTs - 1 else oldestTs
      State.upsertNostrTransferStatus { s with sent := s.sent ++ new }
        ⟨false, untilTs, v.totalEvents + new.length⟩
        (some {
          untilTs := some untilTs
          totalEvents := v.totalEvents + new.length
          seen := v.seen ++ new
          nextFetch := some (r.fetch (if v.untilTs.isSome then some oldestTs else none)) })

/-- The server is stopped after `k` sends of a turn, and starts again. -/
def interrupt (k : ℕ) (s : State ι) : State ι :=
  match s.loop with
  | none => { s with loop := enter s.status, raised := false }
  | some v =>
    { s with
      loop := enter s.status
      sent := s.sent ++ (newEvents v (r.eventsOf v)).take k
      raised := false }

/-- What can happen. -/
inductive Action
  | iterate
  | interrupt (k : ℕ)

/-- One action. -/
def step (s : State ι) : Action → State ι
  | .iterate => r.iterate s
  | .interrupt k => r.interrupt k s

/-- A history of the sync. -/
def run (actions : List Action) : State ι := actions.foldl r.step .initial

/-- `n` turns of the loop without interruption. -/
def turns (n : ℕ) (s : State ι) : State ι := r.iterate^[n] s

/-- The kind is marked as completed. -/
def Completed (s : State ι) : Prop := ∃ status, s.status = some status ∧ status.completed = true

/-- **The initial sync is complete**: after every history, at whatever point it began again,
    the loop comes to its end without raising, and if the kind is marked as completed, all
    of its events have been sent. -/
structure Complete : Prop where
  ends : ∀ actions, ∃ n, (r.turns n (r.run actions)).loop = none ∧
    (r.turns n (r.run actions)).raised = false
  all_sent : ∀ actions, Completed (r.run actions) → ∀ e ∈ r.events, e ∈ (r.run actions).sent

end Relay

end

end Transfer

end BrainstormServer
