/-
  Where the messages of a result queue are.

  What stands in `:processing` and the queue behind it is, at any moment, what was
  pushed and not yet acknowledged, in the order it was pushed: taking a message and
  putting it back move the border between the two lists, acknowledging takes the
  first message away, pushing adds one at the end.

  * `Lane.Placed`: this window, and that a consumer at work holds the first message
    of it and no other;
  * `placed_step`: every step keeps it, an expiry included.
-/
import BrainstormServer.Queue.System
import Mathlib.Data.List.Induction

namespace BrainstormServer

namespace Queue

open Conc

variable {σ H O R : Type}

/-! ## The window -/

/-- The texts of a queue with their numbers. -/
def numbered (raws : List (Raw R)) : List (Item R) := raws.zipIdx.map fun x => ⟨x.2, x.1⟩

theorem numbered_append (raws : List (Raw R)) (raw : Raw R) :
    numbered (raws ++ [raw]) = numbered raws ++ [⟨raws.length, raw⟩] := by
  simp [numbered, List.zipIdx_append]

@[simp]
theorem length_numbered (raws : List (Raw R)) : (numbered raws).length = raws.length := by
  simp [numbered]

/-- The first of what is left. -/
theorem numbered_drop_cons {raws : List (Raw R)} {n : ℕ} {item : Item R} {rest : List (Item R)}
    (h : item :: rest = (numbered raws).drop n) :
    item.seq = n ∧ raws[n]? = some item.raw ∧ rest = (numbered raws).drop (n + 1) := by
  have hn : (numbered raws)[n]? = some item := by
    rw [← List.head?_drop, ← h]
    rfl
  refine ⟨?_, ?_, ?_⟩
  · simp only [numbered, List.getElem?_map, List.getElem?_zipIdx, Option.map_eq_some_iff] at hn
    obtain ⟨_, ⟨_, _, rfl⟩, rfl⟩ := hn
    simp
  · simp only [numbered, List.getElem?_map, List.getElem?_zipIdx, Option.map_eq_some_iff] at hn
    obtain ⟨_, ⟨raw, hraw, rfl⟩, rfl⟩ := hn
    exact hraw
  · rw [← List.tail_drop, ← h]
    rfl

/-- What `:processing` holds, by where the consumer stands. -/
def Lane.Holding (l : Lane H R) : Prop :=
  match l.pc with
  | .stopped | .recovering => True
  | .idle | .acked _ | .cleared _ | .released _ | .freeing _ => l.processing = []
  | .taken item => l.processing = [item]
  | .decoded item message | .counted item message _ | .handling item message _
  | .closing item message _ | .settled item message =>
    l.processing = [item] ∧ item.raw = .envelope message

/-- The window of a lane. -/
structure Lane.Placed (l : Lane H R) : Prop where
  window : l.processing ++ l.queue = (numbered l.arrivals).drop l.acked
  acked_le : l.acked ≤ l.arrivals.length
  short : l.processing.length ≤ 1
  holding : l.Holding

section
variable {l : Lane H R}

/-- The message a consumer holds is the first of the window. -/
theorem Lane.Placed.head (h : l.Placed) {item : Item R} (hproc : l.processing = [item]) :
    item.seq = l.acked ∧ l.arrivals[l.acked]? = some item.raw ∧
      l.queue = (numbered l.arrivals).drop (l.acked + 1) := by
  have hw := h.window
  rw [hproc] at hw
  exact numbered_drop_cons hw

theorem Lane.Placed.acked_lt (h : l.Placed) {item : Item R} (hproc : l.processing = [item]) :
    l.acked < l.arrivals.length :=
  (List.getElem?_eq_some_iff.1 (h.head hproc).2.1).1

/-- The consumer moving on, with counters and calls as they may be. -/
theorem Lane.Placed.setPc (h : l.Placed) {pc : Pc H R} {attempts : String → ℕ}
    {invoked closed : ℕ → ℕ}
    (hpc : Lane.Holding ⟨l.queue, l.processing, attempts, pc, l.arrivals, l.acked, invoked, closed⟩) :
    Lane.Placed ⟨l.queue, l.processing, attempts, pc, l.arrivals, l.acked, invoked, closed⟩ :=
  ⟨h.window, h.acked_le, h.short, hpc⟩

/-- Putting a message back. -/
theorem Lane.Placed.recover (h : l.Placed) {item : Item R} {init : List (Item R)}
    (hpc : l.pc = .recovering) (hproc : l.processing = init ++ [item]) :
    { l with processing := init, queue := item :: l.queue }.Placed where
  window := by
    show init ++ item :: l.queue = _
    rw [← h.window, hproc, List.append_assoc]
    rfl
  acked_le := h.acked_le
  short := by
    have := h.short
    rw [hproc, List.length_append] at this
    show init.length ≤ 1
    omega
  holding := by simp only [Lane.Holding, hpc]

/-- Taking a message. -/
theorem Lane.Placed.take (h : l.Placed) {item : Item R} {queue : List (Item R)}
    (hproc : l.processing = []) (hqueue : l.queue = item :: queue) :
    ({ l with
      queue := queue
      processing := l.processing ++ [item]
      pc := .taken item } : Lane H R).Placed where
  window := by
    show l.processing ++ [item] ++ queue = _
    rw [← h.window, hqueue, List.append_assoc]
    rfl
  acked_le := h.acked_le
  short := by
    show (l.processing ++ [item]).length ≤ 1
    rw [hproc]
    exact Nat.le_refl 1
  holding := by
    show l.processing ++ [item] = [item]
    rw [hproc]
    rfl

/-- Acknowledging the message that is held. -/
theorem Lane.Placed.ack [DecidableEq R] (h : l.Placed) {item : Item R} {message : Message R}
    (hproc : l.processing = [item]) :
    ({ l with
      processing := lrem item.raw l.processing
      pc := .acked message
      acked := l.acked + 1 } : Lane H R).Placed := by
  obtain ⟨-, -, hqueue⟩ := h.head hproc
  have hempty : lrem item.raw l.processing = [] := by simp [lrem, hproc]
  refine ⟨?_, h.acked_lt hproc, ?_, hempty⟩
  · show lrem item.raw l.processing ++ l.queue = _
    rw [hempty, hqueue]
    rfl
  · show (lrem item.raw l.processing).length ≤ 1
    rw [hempty]
    exact Nat.zero_le 1

/-- A message arriving. -/
theorem Lane.Placed.push (h : l.Placed) (raw : Raw R) :
    ({ l with
      queue := l.queue ++ [⟨l.arrivals.length, raw⟩]
      arrivals := l.arrivals ++ [raw] } : Lane H R).Placed := by
  refine ⟨?_, ?_, h.short, h.holding⟩
  · show l.processing ++ (l.queue ++ [⟨l.arrivals.length, raw⟩]) =
      (numbered (l.arrivals ++ [raw])).drop l.acked
    rw [numbered_append, List.drop_append_of_le_length (by simpa using h.acked_le), ← h.window,
      List.append_assoc]
  · show l.acked ≤ (l.arrivals ++ [raw]).length
    have := h.acked_le
    rw [List.length_append]
    omega

theorem Lane.placed_initial : (Lane.initial : Lane H R).Placed :=
  ⟨rfl, Nat.le_refl 0, Nat.zero_le 1, trivial⟩

end

/-! ## Steps -/

section
variable {s : State σ H R} {q : ResultQueue}

/-- Only the lane that is set is another one. -/
theorem setLane_forall {P : Lane H R → Prop} {l : Lane H R} (h : P l)
    (hall : ∀ q, P (s.lanes q)) (q' : ResultQueue) : P ((s.setLane q l).lanes q') := by
  show P (Function.update s.lanes q l q')
  by_cases hq : q' = q
  · rw [hq, Function.update_self]
    exact h
  · rw [Function.update_of_ne hq]
    exact hall q'

variable [DecidableEq R] {hs : Handlers σ H O R} {s' : State σ H R}

/-- A command of one consumer leaves the other queues alone. -/
theorem Acts.other {q' : ResultQueue} (h : Acts hs q s s') (hq : q' ≠ q) :
    s'.lanes q' = s.lanes q' := by
  cases h with
  | _ => exact Function.update_of_ne hq _ _

/-- A command of a consumer keeps every message in its place. -/
theorem Acts.placed (h : Acts hs q s s') (hall : ∀ q, (s.lanes q).Placed) :
    ∀ q', (s'.lanes q').Placed := by
  have hl := hall q
  have hst := hl.holding
  unfold Lane.Holding at hst
  cases h with
  | start hpc | reject hpc => exact setLane_forall (hl.setPc trivial) hall
  | recover hpc hproc => exact setLane_forall (hl.recover hpc hproc) hall
  | recovered hpc hproc => exact setLane_forall (hl.setPc hproc) hall
  | take hpc hqueue =>
    rw [hpc] at hst
    exact setLane_forall (hl.take hst hqueue) hall
  | decode hpc hraw =>
    rw [hpc] at hst
    exact setLane_forall (hl.setPc ⟨hst, hraw⟩) hall
  | count hpc _ | miscount hpc _ | lose hpc | invoke hpc _ _ =>
    rw [hpc] at hst
    exact setLane_forall (hl.setPc hst) hall
  | @transact item message hd choice world progress hpc hnext =>
    rw [hpc] at hst
    refine setLane_forall (s := s) (hl.setPc ?_) hall
    cases progress <;> exact hst
  | @close item message guarded pc committed returned hpc hnext =>
    rw [hpc] at hst
    refine setLane_forall (s := s) (hl.setPc ?_) hall
    rcases hnext with rfl | ⟨-, -, rfl⟩ <;> exact hst
  | ack hpc =>
    rw [hpc] at hst
    exact setLane_forall (hl.ack hst.1) hall
  | @clear message hpc =>
    rw [hpc] at hst
    refine setLane_forall (hl.setPc ?_) hall
    cases message.resultKey <;> exact hst
  | release hpc | free hpc =>
    rw [hpc] at hst
    exact setLane_forall (s := s) (hl.setPc hst) hall
  | retain hpc | check hpc _ =>
    rw [hpc] at hst
    exact setLane_forall (hl.setPc hst) hall

/-- Every step keeps every message in its place. -/
theorem placed_step {e : Event O R} (hall : ∀ q, (s.lanes q).Placed)
    (h : Queue.step hs e s = some s') : ∀ q, (s'.lanes q).Placed := by
  cases e with
  | store key blob queues =>
    simp only [Queue.step] at h
    split_ifs at h
    cases h
    exact hall
  | push q raw =>
    simp only [Queue.step] at h
    split_ifs at h
    cases h
    exact setLane_forall ((hall q).push raw) hall
  | outside o =>
    cases h
    exact hall
  | act q a => exact (act_cases h).placed hall
  | crash q =>
    cases h
    exact setLane_forall ((hall q).setPc trivial) hall
  | evict key =>
    cases h
    exact hall
  | forget q key =>
    cases h
    exact setLane_forall ((hall q).setPc (hall q).holding) hall

end

end Queue

end BrainstormServer
