/-
  The result queues (`app/message_queue_tasks/result_queue.py`).

  The worker stores a result once and pushes a small envelope on three queues.
  Each queue has one consumer, which moves an envelope to its `:processing` list,
  counts the attempt, calls the handler, acknowledges, and releases the payload;
  it may die between any two commands, and starts again with what it left there.

  Redis is what the commands see of it: per queue the two lists and the attempt
  counters, per result key the payload and the `:pending` set.  Beside it a
  queue's `Lane` keeps what nobody can read: all that was ever pushed, and how
  often the handler and `on_lost` were called for each of it.

  The handlers are a parameter (`Handlers`): programs of transactions over a world
  that others change as well.

  * `Queue.step` takes one command of one consumer, one write of the worker, one
    step outside, a death or an expiry;
  * `act_cases` says all that a consumer's command can do.
-/
import BrainstormServer.Conc.Machine
import Mathlib.Data.List.Basic

namespace BrainstormServer

namespace Queue

/-! ## Messages -/

/-- The three queues of graperank results. -/
inductive ResultQueue
  | results
  | nostrResults
  | writeNeo4j
  deriving DecidableEq

/-- `MAX_ATTEMPTS`. -/
def maxAttempts : ℕ := 3

/-- An envelope, decoded; it names the stored result, or carries it. -/
structure Message (R : Type) where
  privateId : ℕ
  resultKey : Option String
  result : Option R
  deriving DecidableEq

/-- A text pushed on a queue: an envelope, or one that does not decode to a message
    with an id. -/
inductive Raw (R : Type)
  | malformed (text : String)
  | envelope (message : Message R)
  deriving DecidableEq

/-- A text in a list, with its number among all that were pushed on the queue. -/
structure Item (R : Type) where
  seq : ℕ
  raw : Raw R
  deriving DecidableEq

variable {σ H O R : Type}

/-- `_attempts_key`, among the keys of one queue. -/
def attemptsKey (message : Message R) : String :=
  match message.resultKey.filter (· ≠ "") with
  | some key => key
  | none => toString message.privateId

/-! ## Consumers -/

/-- Where a consumer stands: the command it will send next, and what it holds. -/
inductive Pc (H R : Type)
  /-- dead, or between two starts -/
  | stopped
  /-- in `recover_in_flight` -/
  | recovering
  /-- before `BLMOVE` -/
  | idle
  /-- before `orjson.loads(raw)` -/
  | taken (item : Item R)
  /-- before `INCR` -/
  | decoded (item : Item R) (message : Message R)
  /-- before the branch on `attempts` -/
  | counted (item : Item R) (message : Message R) (attempts : ℕ)
  /-- in the handler -/
  | handling (item : Item R) (message : Message R) (h : H)
  /-- before `on_lost`; `guarded` if it is called inside the `try` -/
  | closing (item : Item R) (message : Message R) (guarded : Bool)
  /-- before `LREM` -/
  | settled (item : Item R) (message : Message R)
  /-- before `DEL` of the counter -/
  | acked (message : Message R)
  /-- before `SREM` -/
  | cleared (key : String)
  /-- before `SCARD` -/
  | released (key : String)
  /-- before `DEL` of payload and set -/
  | freeing (key : String)
  deriving DecidableEq

/-- What one transaction of a handler leads to. -/
inductive Progress (H : Type)
  | continue (h : H)
  | returned
  | raised
  deriving DecidableEq

/-- Where a transaction of the handler leaves the consumer. -/
def Progress.pc (item : Item R) (message : Message R) : Progress H → Pc H R
  | .continue h => .handling item message h
  | .returned => .settled item message
  | .raised => .closing item message false

/-- The handlers of the queues, as transactions over a world `σ`; a choice stands
    for whatever the transaction depends on. -/
structure Handlers (σ H O R : Type) where
  /-- `handler(message)`, with its `result` -/
  begin : ResultQueue → Message R → Option R → H
  next : H → ℕ → σ → σ × Progress H
  onLost : ResultQueue → Message R → σ → σ
  /-- what else changes the world -/
  outside : O → σ → σ

/-- One queue: its lists, its counters, its consumer, and its history. -/
structure Lane (H R : Type) where
  queue : List (Item R)
  processing : List (Item R)
  attempts : String → ℕ
  pc : Pc H R
  arrivals : List (Raw R)
  acked : ℕ
  invoked : ℕ → ℕ
  closed : ℕ → ℕ

structure State (σ H R : Type) where
  lanes : ResultQueue → Lane H R
  payload : String → Option (Option R)
  pending : String → List ResultQueue
  /-- the keys under which a result was ever stored -/
  stored : String → Bool
  world : σ

/-- The state with another lane. -/
def State.setLane (s : State σ H R) (q : ResultQueue) (l : Lane H R) : State σ H R :=
  { s with lanes := Function.update s.lanes q l }

/-- The commands of a consumer.  A flag says how a command that may fail went; the
    failure of any other one ends the consumer, as its death does. -/
inductive Act
  | start
  | recover
  | take
  | decode
  /-- `INCR` and `EXPIRE`: whether the counter went up, and whether they returned -/
  | count (incremented replied : Bool)
  /-- `read_payload`, if it is called, and the call of the handler -/
  | dispatch (readable : Bool)
  | transact (choice : ℕ)
  /-- `on_lost`: whether it committed, and whether it returned -/
  | close (committed returned : Bool)
  | ack
  | clear
  | release
  | check
  | free
  deriving DecidableEq

/-- The lists after `LREM processing 1 raw`. -/
def lrem [DecidableEq R] (raw : Raw R) (l : List (Item R)) : List (Item R) :=
  l.eraseP (·.raw = raw)

/-- The call of the handler. -/
def Lane.invoke (l : Lane H R) (item : Item R) (message : Message R) (h : H) : Lane H R :=
  { l with
    pc := .handling item message h
    invoked := Function.update l.invoked item.seq (l.invoked item.seq + 1) }

section
variable [DecidableEq R] (hs : Handlers σ H O R) (q : ResultQueue)

/-- `recover_in_flight`, `handle_one` and the loop around them, one command. -/
def act (a : Act) (s : State σ H R) : Option (State σ H R) :=
  let l := s.lanes q
  match l.pc, a with
  | .stopped, .start => some (s.setLane q { l with pc := .recovering })
  | .recovering, .recover =>
    match l.processing.getLast? with
    | some item => some (s.setLane q { l with
        processing := l.processing.dropLast
        queue := item :: l.queue })
    | none => some (s.setLane q { l with pc := .idle })
  | .idle, .take =>
    match l.queue with
    | item :: queue => some (s.setLane q { l with
        queue := queue
        processing := l.processing ++ [item]
        pc := .taken item })
    | [] => none
  | .taken item, .decode =>
    match item.raw with
    | .malformed _ => some (s.setLane q { l with pc := .stopped })
    | .envelope message => some (s.setLane q { l with pc := .decoded item message })
  | .decoded item message, .count incremented replied =>
    let attempts := l.attempts (attemptsKey message) + if incremented then 1 else 0
    some (s.setLane q { l with
      attempts := Function.update l.attempts (attemptsKey message) attempts
      pc := if incremented && replied then .counted item message attempts
        else .closing item message false })
  | .counted item message attempts, .dispatch readable =>
    if maxAttempts < attempts then
      some (s.setLane q { l with pc := .closing item message true })
    else match message.resultKey with
      | none => some (s.setLane q (l.invoke item message (hs.begin q message message.result)))
      | some key =>
        if readable then
          match s.payload key with
          | none => some (s.setLane q { l with pc := .closing item message true })
          | some none => some (s.setLane q { l with pc := .closing item message false })
          | some (some result) =>
            some (s.setLane q (l.invoke item message (hs.begin q message (some result))))
        else some (s.setLane q { l with pc := .closing item message false })
  | .handling item message h, .transact choice =>
    let r := hs.next h choice s.world
    some { s.setLane q { l with pc := r.2.pc item message } with world := r.1 }
  | .closing item message guarded, .close committed returned =>
    let pc := if returned || !guarded then .settled item message
      else .closing item message false
    some { s.setLane q { l with
        pc := pc
        closed := Function.update l.closed item.seq (l.closed item.seq + 1) } with
      world := if committed then hs.onLost q message s.world else s.world }
  | .settled item message, .ack => some (s.setLane q { l with
      processing := lrem item.raw l.processing
      pc := .acked message
      acked := l.acked + 1 })
  | .acked message, .clear => some (s.setLane q { l with
      attempts := Function.update l.attempts (attemptsKey message) 0
      pc := message.resultKey.elim .idle .cleared })
  | .cleared key, .release => some { s.setLane q { l with pc := .released key } with
      pending := Function.update s.pending key ((s.pending key).filter (· ≠ q)) }
  | .released key, .check => some (s.setLane q { l with
      pc := if s.pending key = [] then .freeing key else .idle })
  | .freeing key, .free => some { s.setLane q { l with pc := .idle } with
      payload := Function.update s.payload key none
      pending := Function.update s.pending key [] }
  | _, _ => none

end

/-! ## What a command does -/

/-- What the handler is given: the result the message carries, or the stored one. -/
inductive Given (s : State σ H R) (message : Message R) : Option R → Prop
  | inline (hkey : message.resultKey = none) : Given s message message.result
  | stored {key : String} {result : R} (hkey : message.resultKey = some key)
      (hpayload : s.payload key = some (some result)) : Given s message (some result)

/-- What a command of the consumer of `q` can do. -/
inductive Acts [DecidableEq R] (hs : Handlers σ H O R) (q : ResultQueue) (s : State σ H R) :
    State σ H R → Prop
  | start (hpc : (s.lanes q).pc = .stopped) :
      Acts hs q s (s.setLane q { s.lanes q with pc := .recovering })
  | recover {item : Item R} {init : List (Item R)} (hpc : (s.lanes q).pc = .recovering)
      (hproc : (s.lanes q).processing = init ++ [item]) :
      Acts hs q s (s.setLane q { s.lanes q with
        processing := init, queue := item :: (s.lanes q).queue })
  | recovered (hpc : (s.lanes q).pc = .recovering) (hproc : (s.lanes q).processing = []) :
      Acts hs q s (s.setLane q { s.lanes q with pc := .idle })
  | take {item : Item R} {queue : List (Item R)} (hpc : (s.lanes q).pc = .idle)
      (hqueue : (s.lanes q).queue = item :: queue) :
      Acts hs q s (s.setLane q { s.lanes q with
        queue := queue, processing := (s.lanes q).processing ++ [item], pc := .taken item })
  | reject {item : Item R} (hpc : (s.lanes q).pc = .taken item) :
      Acts hs q s (s.setLane q { s.lanes q with pc := .stopped })
  | decode {item : Item R} {message : Message R} (hpc : (s.lanes q).pc = .taken item)
      (hraw : item.raw = .envelope message) :
      Acts hs q s (s.setLane q { s.lanes q with pc := .decoded item message })
  | count {item : Item R} {message : Message R} {attempts : ℕ}
      (hpc : (s.lanes q).pc = .decoded item message)
      (hattempts : attempts = (s.lanes q).attempts (attemptsKey message) + 1) :
      Acts hs q s (s.setLane q { s.lanes q with
        attempts := Function.update (s.lanes q).attempts (attemptsKey message) attempts
        pc := .counted item message attempts })
  | miscount {item : Item R} {message : Message R} {attempts : ℕ}
      (hpc : (s.lanes q).pc = .decoded item message)
      (hattempts : (s.lanes q).attempts (attemptsKey message) ≤ attempts) :
      Acts hs q s (s.setLane q { s.lanes q with
        attempts := Function.update (s.lanes q).attempts (attemptsKey message) attempts
        pc := .closing item message false })
  | lose {item : Item R} {message : Message R} {attempts : ℕ} {guarded : Bool}
      (hpc : (s.lanes q).pc = .counted item message attempts) :
      Acts hs q s (s.setLane q { s.lanes q with pc := .closing item message guarded })
  | invoke {item : Item R} {message : Message R} {attempts : ℕ} {result : Option R}
      (hpc : (s.lanes q).pc = .counted item message attempts) (hle : attempts ≤ maxAttempts)
      (hgiven : Given s message result) :
      Acts hs q s (s.setLane q ((s.lanes q).invoke item message (hs.begin q message result)))
  | transact {item : Item R} {message : Message R} {h : H} {choice : ℕ} {world : σ}
      {progress : Progress H} (hpc : (s.lanes q).pc = .handling item message h)
      (hnext : hs.next h choice s.world = (world, progress)) :
      Acts hs q s { s.setLane q { s.lanes q with pc := progress.pc item message } with world := world }
  | close {item : Item R} {message : Message R} {guarded : Bool} {pc : Pc H R}
      (committed returned : Bool) (hpc : (s.lanes q).pc = .closing item message guarded)
      (hnext : pc = .settled item message ∨
        (guarded = true ∧ returned = false ∧ pc = .closing item message false)) :
      Acts hs q s { s.setLane q { s.lanes q with
          pc := pc
          closed := Function.update (s.lanes q).closed item.seq ((s.lanes q).closed item.seq + 1) } with
        world := if committed then hs.onLost q message s.world else s.world }
  | ack {item : Item R} {message : Message R} (hpc : (s.lanes q).pc = .settled item message) :
      Acts hs q s (s.setLane q { s.lanes q with
        processing := lrem item.raw (s.lanes q).processing
        pc := .acked message
        acked := (s.lanes q).acked + 1 })
  | clear {message : Message R} (hpc : (s.lanes q).pc = .acked message) :
      Acts hs q s (s.setLane q { s.lanes q with
        attempts := Function.update (s.lanes q).attempts (attemptsKey message) 0
        pc := message.resultKey.elim .idle .cleared })
  | release {key : String} (hpc : (s.lanes q).pc = .cleared key) :
      Acts hs q s { s.setLane q { s.lanes q with pc := .released key } with
        pending := Function.update s.pending key ((s.pending key).filter (· ≠ q)) }
  | retain {key : String} (hpc : (s.lanes q).pc = .released key) :
      Acts hs q s (s.setLane q { s.lanes q with pc := .idle })
  | check {key : String} (hpc : (s.lanes q).pc = .released key) (hpending : s.pending key = []) :
      Acts hs q s (s.setLane q { s.lanes q with pc := .freeing key })
  | free {key : String} (hpc : (s.lanes q).pc = .freeing key) :
      Acts hs q s { s.setLane q { s.lanes q with pc := .idle } with
        payload := Function.update s.payload key none
        pending := Function.update s.pending key [] }

section
variable [DecidableEq R] {hs : Handlers σ H O R} {q : ResultQueue} {s s' : State σ H R}

/-- A message that was counted goes to the handler or to `on_lost`. -/
theorem dispatch_cases {item : Item R} {message : Message R} {attempts : ℕ} {readable : Bool}
    (hpc : (s.lanes q).pc = .counted item message attempts)
    (h : act hs q (.dispatch readable) s = some s') : Acts hs q s s' := by
  simp only [act, hpc] at h
  by_cases hmax : maxAttempts < attempts
  · rw [if_pos hmax] at h
    cases h
    exact .lose hpc
  · rw [if_neg hmax] at h
    have hle : attempts ≤ maxAttempts := Nat.le_of_not_lt hmax
    split at h
    · rename_i hkey
      cases h
      exact .invoke hpc hle (.inline hkey)
    · rename_i key hkey
      cases readable with
      | false =>
        cases h
        exact .lose hpc
      | true =>
        rw [if_pos rfl] at h
        split at h
        · cases h
          exact .lose hpc
        · cases h
          exact .lose hpc
        · rename_i result hpayload
          cases h
          exact .invoke hpc hle (.stored hkey hpayload)

/-- All that a command can do. -/
theorem act_cases {a : Act} (h : act hs q a s = some s') : Acts hs q s s' := by
  have hact := h
  unfold act at h
  dsimp only at h
  split at h
  · rename_i hpc
    cases h
    exact .start hpc
  · rename_i hpc
    split at h
    · rename_i item hlast
      cases h
      exact .recover hpc (List.dropLast_append_getLast? item hlast).symm
    · rename_i hlast
      cases h
      exact .recovered hpc (List.getLast?_eq_none_iff.1 hlast)
  · rename_i hpc
    split at h
    · rename_i item queue hqueue
      cases h
      exact .take hpc hqueue
    · cases h
  · rename_i item hpc
    split at h
    · cases h
      exact .reject hpc
    · rename_i message hraw
      cases h
      exact .decode hpc hraw
  · rename_i item message incremented replied hpc
    cases incremented with
    | false =>
      cases h
      exact .miscount hpc (Nat.le_refl _)
    | true =>
      cases replied with
      | false =>
        cases h
        exact .miscount hpc (Nat.le_succ _)
      | true =>
        cases h
        exact .count hpc rfl
  · rename_i item message attempts readable hpc
    exact dispatch_cases hpc hact
  · rename_i item message hd choice hpc
    cases h
    exact .transact hpc rfl
  · rename_i item message guarded committed returned hpc
    cases h
    refine .close committed returned hpc ?_
    cases returned with
    | true => exact Or.inl rfl
    | false =>
      cases guarded with
      | true => exact Or.inr ⟨rfl, rfl, rfl⟩
      | false => exact Or.inl rfl
  · rename_i item message hpc
    cases h
    exact .ack hpc
  · rename_i message hpc
    cases h
    exact .clear hpc
  · rename_i key hpc
    cases h
    exact .release hpc
  · rename_i key hpc
    split_ifs at h with hpending
    · cases h
      exact .check hpc hpending
    · cases h
      exact .retain hpc
  · rename_i key hpc
    cases h
    exact .free hpc
  · cases h

end

/-! ## The system -/

/-- What may happen next. -/
inductive Event (O R : Type)
  /-- the worker stores a result under a new key, and names the queues that need it -/
  | store (key : String) (blob : Option R) (queues : List ResultQueue)
  /-- the worker pushes a text; an envelope may name only a key that is stored -/
  | push (q : ResultQueue) (raw : Raw R)
  | outside (o : O)
  | act (q : ResultQueue) (a : Act)
  /-- the consumer dies, or a command of it fails -/
  | crash (q : ResultQueue)
  /-- a payload expires or is evicted -/
  | evict (key : String)
  /-- an attempt counter expires -/
  | forget (q : ResultQueue) (key : String)

/-- The key an envelope names is stored. -/
def keyStored (stored : String → Bool) : Raw R → Bool
  | .malformed _ => true
  | .envelope message => message.resultKey.all stored

/-- One step of the system. -/
def step [DecidableEq R] (hs : Handlers σ H O R) (e : Event O R) (s : State σ H R) :
    Option (State σ H R) :=
  match e with
  | .store key blob queues =>
    if s.stored key then none
    else some { s with
      payload := Function.update s.payload key (some blob)
      pending := Function.update s.pending key queues
      stored := Function.update s.stored key true }
  | .push q raw =>
    let l := s.lanes q
    if keyStored s.stored raw then
      some (s.setLane q { l with
        queue := l.queue ++ [⟨l.arrivals.length, raw⟩]
        arrivals := l.arrivals ++ [raw] })
    else none
  | .outside o => some { s with world := hs.outside o s.world }
  | .act q a => act hs q a s
  | .crash q => some (s.setLane q { s.lanes q with pc := .stopped })
  | .evict key => some { s with payload := Function.update s.payload key none }
  | .forget q key => some (s.setLane q { s.lanes q with
      attempts := Function.update (s.lanes q).attempts key 0 })

/-- Nothing pushed, nothing stored, nobody running. -/
def Lane.initial : Lane H R where
  queue := []
  processing := []
  attempts _ := 0
  pc := .stopped
  arrivals := []
  acked := 0
  invoked _ := 0
  closed _ := 0

def State.initial (world : σ) : State σ H R where
  lanes _ := .initial
  payload _ := none
  pending _ := []
  stored _ := false
  world := world

end Queue

end BrainstormServer
