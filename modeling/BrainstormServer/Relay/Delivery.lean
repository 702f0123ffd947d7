/-
  The relay publisher neither loses nor double-counts an event.

  An event that was produced is queued, pending on one connection, waiting for its
  retry, or resolved (`Place`).  A step of the publisher puts a new event in the
  queue, moves events between two places, or leaves them where they are, so that
  `Accounted` holds in every state of every run (`run_accounted`).  With the
  counters tied to these places, `delivered` says what the numbers that
  `publish_events` returns mean.
-/
import BrainstormServer.Conc.Places
import BrainstormServer.Conc.Tables
import BrainstormServer.Relay.Publisher

namespace BrainstormServer

namespace Relay

open Conc

/-! ## Places -/

/-- Where an event can be. -/
inductive Place (n : ℕ)
  | todo
  | pending (w : Fin n)
  | retry
  | resolved
  deriving DecidableEq

/-- The ids that a worker has pending. -/
def Worker.pendingIds : Worker → List String
  | .connected _ c => c.pending.map (·.id)
  | _ => []

/-- The ids in a place. -/
def State.content {n : ℕ} (s : State n) : Place n → List String
  | .todo => s.todo.filterMap (Option.map Item.id)
  | .pending w => (s.workers w).pendingIds
  | .retry => s.retries.map (·.id)
  | .resolved => s.resolved.map (·.1)

/-- The event that the producer holds. -/
def Producer.hand : Producer → List SignedEvent
  | .holding event => [event]
  | _ => []

/-- What ties counters, history and places together. -/
structure Accounted (cfg : PublishConfig) (events : List SignedEvent)
    (s : State cfg.connections) : Prop where
  scattered : Scattered s.content (s.produced.map (·.id))
  source : s.produced ++ s.producer.hand ++ s.stream = events
  nEvents : s.stats.nEvents = s.produced.length
  nResolved : s.nResolved = s.resolved.length
  nAcked : s.stats.nAcked = (s.resolved.filter (·.2)).length
  permits : s.outstanding + s.stats.nEvents = cfg.maxOutstanding + s.nResolved
  answered : ∀ id, (id, true) ∈ s.resolved → id ∈ s.answered
  exhausted : s.producedAll = true → s.producer = .finished ∧ s.stream = []
  done : s.done = true → s.producer = .raised ∨ s.stats.aborted = true ∨ s.producedAll = true
  outcome : ∀ stats, s.outcome = some (some stats) → stats.aborted = false → stats.nUnacked = 0 →
    s.produced = events ∧ ∀ event ∈ events, event.id ∈ s.answered

section
variable {cfg : PublishConfig} {events : List SignedEvent} {s : State cfg.connections}
  {w : Fin cfg.connections}

/-- The places after a step that leaves queue, timers and what is resolved. -/
theorem content_setWorker {worker : Worker} {place : Place cfg.connections} :
    (s.setWorker w worker).content place =
      if place = .pending w then worker.pendingIds else s.content place := by
  cases place with
  | pending w' =>
    show (Function.update s.workers w worker w').pendingIds = _
    by_cases hw : w' = w
    · subst hw
      rw [Function.update_self, if_pos rfl]
    · rw [Function.update_of_ne hw, if_neg (by simpa using hw)]
      rfl
  | _ => rfl

/-- A worker may move on as long as its pending events stay. -/
theorem Accounted.setWorker (h : Accounted cfg events s) {worker : Worker}
    (hw : worker.pendingIds = (s.workers w).pendingIds) :
    Accounted cfg events (s.setWorker w worker) := by
  have hcontent : (s.setWorker w worker).content = s.content := by
    funext place
    rw [content_setWorker]
    split_ifs with hplace
    · rw [hplace, hw]
      rfl
    · rfl
  exact { h with scattered := by rw [hcontent]; exact h.scattered }

theorem todo_replicate (k : ℕ) (todo : List (Option Item)) :
    (todo ++ List.replicate k none).filterMap (Option.map Item.id) =
      todo.filterMap (Option.map Item.id) := by
  rw [List.filterMap_append, List.filterMap_replicate_of_none rfl, List.append_nil]

/-- Setting `done`, for one of the three reasons. -/
theorem Accounted.finish (h : Accounted cfg events s)
    (hreason : s.producer = .raised ∨ s.stats.aborted = true ∨ s.producedAll = true) :
    Accounted cfg events s.finish := by
  unfold State.finish
  split_ifs with hdone
  · exact h
  · have hcontent : ({ s with done := true, todo := s.todo ++ List.replicate cfg.connections none } :
        State cfg.connections).content = s.content := by
      funext place
      cases place with
      | todo => exact todo_replicate _ _
      | _ => rfl
    exact { h with
      scattered := by rw [hcontent]; exact h.scattered
      done := fun _ => hreason }

theorem Accounted.checkDone (h : Accounted cfg events s) : Accounted cfg events s.checkDone := by
  unfold State.checkDone
  split_ifs with hall
  · exact h.finish (Or.inr (Or.inr hall.1))
  · exact h

/-! ## Moves -/

/-- The producer queues the event it holds. -/
theorem Accounted.produce (h : Accounted cfg events s) (hids : (events.map (·.id)).Nodup)
    {event : SignedEvent} (hhand : s.producer = .holding event) (hpermit : 0 < s.outstanding)
    (frame : String) :
    Accounted cfg events { s with
      outstanding := s.outstanding - 1
      stats := { s.stats with nEvents := s.stats.nEvents + 1 }
      todo := s.todo ++ [some ⟨event.id, frame, 0⟩]
      producer := .pulling
      produced := s.produced ++ [event] } := by
  have hsource := h.source
  rw [hhand] at hsource
  have hnew : event.id ∉ s.produced.map (·.id) := by
    intro hmem
    rw [← hsource, List.map_append, List.map_append] at hids
    have hdisj := List.disjoint_of_nodup_append (List.nodup_append.1 hids).1
    exact hdisj hmem (List.mem_singleton.2 rfl)
  refine { h with
    scattered := h.scattered.insert (i := .todo) hnew (fun id => ?_) ?_ fun place hplace => ?_
    source := ?_
    nEvents := ?_
    permits := ?_
    exhausted := fun hall => ?_
    done := fun hdone => ?_
    outcome := fun stats hout haborted hunacked => ?_ }
  · simp [or_comm]
  · show ((s.todo ++ [some _]).filterMap (Option.map Item.id)).Perm _
    rw [List.filterMap_append]
    exact List.perm_append_singleton _ _
  · cases place with
    | todo => exact absurd rfl hplace
    | _ => rfl
  · show s.produced ++ [event] ++ [] ++ s.stream = events
    rw [List.append_nil]
    exact hsource
  · show s.stats.nEvents + 1 = (s.produced ++ [event]).length
    rw [h.nEvents, List.length_append]
    rfl
  · have := h.permits
    show s.outstanding - 1 + (s.stats.nEvents + 1) = cfg.maxOutstanding + s.nResolved
    omega
  · -- a producer that holds an event is not through
    have hfin := (h.exhausted hall).1
    rw [hhand] at hfin
    cases hfin
  · rcases h.done hdone with hraised | hrest
    · rw [hhand] at hraised
      cases hraised
    · exact Or.inr hrest
  · have hall := (h.outcome stats hout haborted hunacked).1
    rw [hall] at hsource
    have hlen := congrArg List.length hsource
    simp [Producer.hand] at hlen

/-- A connection takes an event from the queue. -/
theorem Accounted.get (h : Accounted cfg events s) {failures : ℕ} {c : Connection} {item : Item}
    {rest : List (Option Item)} (hw : s.workers w = .connected failures c)
    (htodo : s.todo = some item :: rest) (sender : Sender) :
    Accounted cfg events { s.setWorker w (.connected failures { c with
      sender := sender, pending := insertPending item c.pending }) with todo := rest } := by
  have hpending : s.content (.pending w) = c.pending.map (·.id) := by
    show (s.workers w).pendingIds = _
    rw [hw]
    rfl
  have hqueued : s.content .todo = item.id :: rest.filterMap (Option.map Item.id) := by
    show s.todo.filterMap (Option.map Item.id) = _
    rw [htodo]
    rfl
  -- the event is not pending on this connection already
  have hnot : c.pending.any (·.id = item.id) = false := by
    refine Bool.eq_false_iff.2 fun hany => ?_
    obtain ⟨item', hmem, hid⟩ := List.any_eq_true.1 hany
    have hp : item.id ∈ s.content (.pending w) := by
      rw [hpending]
      exact List.mem_map.2 ⟨item', hmem, of_decide_eq_true hid⟩
    have ht : item.id ∈ s.content .todo := by
      rw [hqueued]
      exact List.mem_cons_self
    cases h.scattered.disjoint _ _ _ hp ht
  refine { h with
    scattered := h.scattered.move (i := .todo) (j := .pending w) (by simp) [item.id]
      ?_ ?_ fun place ht hp => ?_ }
  · rw [hqueued]
    exact List.Perm.refl _
  · show (Function.update s.workers w _ w).pendingIds.Perm _
    rw [Function.update_self, hpending]
    show ((insertPending item c.pending).map (·.id)).Perm _
    rw [insertPending, if_neg (by rw [hnot]; simp), List.map_append]
    exact List.perm_append_singleton _ _
  · cases place with
    | todo => exact absurd rfl ht
    | pending w' =>
      show (Function.update s.workers w _ w').pendingIds = _
      rw [Function.update_of_ne (by simpa using hp)]
      rfl
    | _ => rfl

/-- A lost connection queues what it has pending. -/
theorem Accounted.drop (h : Accounted cfg events s) {failures : ℕ} {c : Connection}
    (hw : s.workers w = .connected failures c) :
    Accounted cfg events { s.setWorker w (.closing failures c.progress) with
      todo := s.todo ++ c.pending.map some } := by
  have hpending : s.content (.pending w) = c.pending.map (·.id) := by
    show (s.workers w).pendingIds = _
    rw [hw]
    rfl
  refine { h with
    scattered := h.scattered.move (i := .pending w) (j := .todo) (by simp)
      (c.pending.map (·.id)) ?_ ?_ fun place hp ht => ?_ }
  · rw [hpending]
    show (c.pending.map (·.id)).Perm (_ ++ (Function.update s.workers w _ w).pendingIds)
    rw [Function.update_self]
    exact List.Perm.of_eq (List.append_nil _).symm
  · show ((s.todo ++ c.pending.map some).filterMap (Option.map Item.id)).Perm _
    rw [List.filterMap_append, List.filterMap_map]
    refine List.perm_append_comm.trans (List.Perm.append_right _ (List.Perm.of_eq ?_))
    exact congrFun (List.filterMap_eq_map (f := Item.id)) c.pending
  · cases place with
    | todo => exact absurd rfl ht
    | pending w' =>
      show (Function.update s.workers w _ w').pendingIds = _
      rw [Function.update_of_ne (by simpa using hp)]
      rfl
    | _ => rfl

/-- A timer queues its event. -/
theorem Accounted.fire (h : Accounted cfg events s) {i : ℕ} {item : Item}
    (hi : s.retries[i]? = some item) :
    Accounted cfg events { s with
      todo := s.todo ++ [some item], retries := s.retries.eraseIdx i } := by
  obtain ⟨hlt, rfl⟩ := List.getElem?_eq_some_iff.1 hi
  refine { h with
    scattered := h.scattered.move (i := .retry) (j := .todo) (by simp)
      [(s.retries[i]).id] ?_ ?_ fun place hr ht => ?_ }
  · exact ((List.getElem_cons_eraseIdx_perm hlt).map _).symm
  · show ((s.todo ++ [some _]).filterMap (Option.map Item.id)).Perm _
    rw [List.filterMap_append]
    exact List.perm_append_singleton _ _
  · cases place with
    | todo => exact absurd rfl ht
    | retry => exact absurd rfl hr
    | _ => rfl

theorem id_of_find {pending : List Item} {id : String} {item : Item}
    (h : pending.find? (·.id = id) = some item) : item.id = id := by
  simpa using List.find?_some h

/-- The relay answers for a pending event: the event leaves the connection, for the
    place `j`. -/
theorem scattered_answer (h : Accounted cfg events s) {failures : ℕ} {c : Connection} {id : String}
    {item : Item} (hw : s.workers w = .connected failures c)
    (hfind : c.pending.find? (·.id = id) = some item) {j : Place cfg.connections}
    (hj : j ≠ .pending w) {content : Place cfg.connections → List String}
    (hto : content j = s.content j ++ [id] ∨ content j = id :: s.content j)
    (hfrom : content (.pending w) = (c.pending.eraseP (·.id = id)).map (·.id))
    (hother : ∀ place, place ≠ .pending w → place ≠ j → content place = s.content place) :
    Scattered content (s.produced.map (·.id)) := by
  refine h.scattered.move (i := .pending w) (j := j) (Ne.symm hj) [id] ?_ ?_ hother
  · have hpending : s.content (.pending w) = c.pending.map (·.id) := by
      show (s.workers w).pendingIds = _
      rw [hw]
      rfl
    obtain ⟨item', l₁, l₂, -, hid, hl, herase⟩ :=
      List.exists_of_eraseP (p := fun item : Item => decide (item.id = id))
        (List.mem_of_find?_eq_some hfind) (decide_eq_true (id_of_find hfind))
    rw [hpending, hfrom, herase, hl, List.map_append, List.map_append, List.map_cons,
      of_decide_eq_true hid]
    exact List.perm_middle
  · rcases hto with hto | hto
    · rw [hto]
      exact List.perm_append_singleton _ _
    · rw [hto]
      exact List.Perm.refl _

/-- An event that is resolved was pending, and was answered if it counts as acked. -/
theorem Accounted.resolve (h : Accounted cfg events s) {failures : ℕ} {c c' : Connection}
    {id : String} {item : Item} (accepted : Bool) {stats : PublishStats}
    (hw : s.workers w = .connected failures c)
    (hfind : c.pending.find? (·.id = id) = some item)
    (hc : c'.pending = c.pending.eraseP (·.id = id))
    (hevents : stats.nEvents = s.stats.nEvents)
    (hacked : stats.nAcked = s.stats.nAcked + if accepted then 1 else 0)
    (haborted : stats.aborted = s.stats.aborted) (hanswered : accepted = true → id ∈ s.answered) :
    Accounted cfg events
      (({ s.setWorker w (.connected failures c') with stats := stats } :
        State cfg.connections).resolve id accepted) := by
  refine Accounted.checkDone { h with
    scattered := scattered_answer h hw hfind (j := .resolved) (by simp) (Or.inr rfl) ?_
      fun place hp hr => ?_
    nEvents := hevents.trans h.nEvents
    nResolved := congrArg (· + 1) h.nResolved
    nAcked := ?_
    permits := ?_
    answered := fun id' hmem => ?_
    done := fun hdone => (h.done hdone).imp_right fun hrest => hrest.imp_left fun ha =>
      haborted.trans ha }
  · show (Function.update s.workers w _ w).pendingIds = _
    rw [Function.update_self]
    exact congrArg _ hc
  · cases place with
    | resolved => exact absurd rfl hr
    | pending w' =>
      show (Function.update s.workers w _ w').pendingIds = _
      rw [Function.update_of_ne (by simpa using hp)]
      rfl
    | _ => rfl
  · show stats.nAcked = (((id, accepted) :: s.resolved).filter (·.2)).length
    rw [hacked, h.nAcked]
    cases accepted <;> simp
  · have := h.permits
    show s.outstanding + 1 + stats.nEvents = cfg.maxOutstanding + (s.nResolved + 1)
    omega
  · rcases List.mem_cons.1 hmem with heq | hmem
    · cases heq
      exact hanswered rfl
    · exact h.answered id' hmem

/-- An event that was rejected waits for its retry. -/
theorem Accounted.retry (h : Accounted cfg events s) {failures : ℕ} {c c' : Connection}
    {id : String} {item : Item} {stats : PublishStats}
    (hw : s.workers w = .connected failures c)
    (hfind : c.pending.find? (·.id = id) = some item)
    (hc : c'.pending = c.pending.eraseP (·.id = id))
    (hevents : stats.nEvents = s.stats.nEvents) (hacked : stats.nAcked = s.stats.nAcked)
    (haborted : stats.aborted = s.stats.aborted) :
    Accounted cfg events { s.setWorker w (.connected failures c') with
      stats := stats
      retries := s.retries ++ [{ item with attempts := item.attempts + 1 }] } := by
  refine { h with
    scattered := scattered_answer h hw hfind (j := .retry) (by simp) (Or.inl ?_) ?_
      fun place hp hr => ?_
    nEvents := hevents.trans h.nEvents
    nAcked := hacked.trans h.nAcked
    permits := ?_
    done := fun hdone => (h.done hdone).imp_right fun hrest => hrest.imp_left fun ha =>
      haborted.trans ha }
  · show (s.retries ++ [_]).map Item.id = _
    rw [List.map_append, List.map_singleton, id_of_find hfind]
    rfl
  · show (Function.update s.workers w _ w).pendingIds = _
    rw [Function.update_self]
    exact congrArg _ hc
  · cases place with
    | retry => exact absurd rfl hr
    | pending w' =>
      show (Function.update s.workers w _ w').pendingIds = _
      rw [Function.update_of_ne (by simpa using hp)]
      rfl
    | _ => rfl
  · show s.outstanding + stats.nEvents = cfg.maxOutstanding + s.nResolved
    rw [hevents]
    exact h.permits

/-- The relay may have answered more. -/
theorem Accounted.answer (h : Accounted cfg events s) (id : String) :
    Accounted cfg events { s with answered := id :: s.answered } :=
  { h with
    answered := fun id' hmem => List.mem_cons_of_mem _ (h.answered id' hmem)
    outcome := fun stats hout haborted hunacked => by
      obtain ⟨hall, hanswered⟩ := h.outcome stats hout haborted hunacked
      exact ⟨hall, fun event he => List.mem_cons_of_mem _ (hanswered event he)⟩ }

/-- One frame. -/
theorem Accounted.receive (h : Accounted cfg events s) {failures : ℕ} {c : Connection}
    (hw : s.workers w = .connected failures c) (frame : Frame) :
    Accounted cfg events (receive cfg w failures c frame s) := by
  cases frame with
  | other => exact h
  | ok id accepted reason =>
    simp only [Relay.receive]
    cases hfind : c.pending.find? (·.id = id) with
    | none =>
      cases accepted with
      | false => exact h
      | true => exact h.answer id
    | some item =>
      cases accepted with
      | true =>
        exact (h.answer id).resolve true hw hfind rfl rfl rfl rfl
          fun _ => List.mem_cons_self
      | false =>
        simp only [Bool.false_eq_true, if_false]
        split_ifs
        · exact h.resolve false hw hfind rfl rfl rfl rfl (by simp)
        · exact h.resolve false hw hfind rfl rfl rfl rfl (by simp)
        · exact h.retry hw hfind rfl rfl rfl rfl

/-- The rest of a worker's round. -/
theorem Accounted.afterConnection (h : Accounted cfg events s) {failures : ℕ} {progress : Bool}
    (hw : s.workers w = .closing failures progress) :
    Accounted cfg events (afterConnection cfg w failures progress s) := by
  have hmove : ∀ worker : Worker, worker.pendingIds = [] →
      Accounted cfg events (s.setWorker w worker) := by
    intro worker hnil
    refine h.setWorker ?_
    rw [hnil, hw]
    rfl
  have hret := hmove .returned rfl
  unfold Relay.afterConnection
  dsimp only
  generalize (if progress = true then 0 else failures + 1) = failures'
  split_ifs
  · exact hret
  · -- the last worker gives up
    refine Accounted.finish (s := { s.setWorker w .returned with
      deadWorkers := s.deadWorkers + 1
      stats := { s.stats with aborted := true } }) { hret with done := ?_ } (Or.inr (Or.inl rfl))
    exact fun _ => Or.inr (Or.inl rfl)
  · exact { hret with }
  · have hsleep := hmove (.sleeping failures') rfl
    exact { hsleep with }

/-! ## What is returned -/

/-- The events that count as acked, each once. -/
theorem Accounted.nodup_acked (h : Accounted cfg events s) :
    ((s.resolved.filter (·.2)).map (·.1)).Nodup :=
  (h.scattered.nodup .resolved).sublist (List.filter_sublist.map _)

/-- If as many events are acked as were produced, all of them were answered. -/
theorem Accounted.all_answered (h : Accounted cfg events s)
    (hacked : s.stats.nAcked = s.stats.nEvents) :
    ∀ event ∈ s.produced, event.id ∈ s.answered := by
  have hsub : ((s.resolved.filter (·.2)).map (·.1)) ⊆ s.produced.map (·.id) := by
    intro id hid
    obtain ⟨x, hx, rfl⟩ := List.mem_map.1 hid
    exact (h.scattered.mem _).2 ⟨.resolved, List.mem_map.2 ⟨x, (List.mem_filter.1 hx).1, rfl⟩⟩
  have hperm := (List.subperm_of_subset h.nodup_acked hsub).perm_of_length_le (by
    rw [List.length_map, List.length_map, ← h.nAcked, ← h.nEvents, hacked])
  intro event he
  obtain ⟨⟨id, accepted⟩, hx, hid⟩ :=
    List.mem_map.1 (hperm.mem_iff.2 (List.mem_map_of_mem (f := SignedEvent.id) he))
  rw [← hid]
  obtain ⟨hmem, hacc⟩ := List.mem_filter.1 hx
  refine h.answered id ?_
  rw [← show accepted = true from hacc]
  exact hmem

/-- `run` returns. -/
theorem Accounted.return (h : Accounted cfg events s) (hdone : s.done = true) :
    Accounted cfg events { s with
      outcome := some (if s.producer = .raised then none
        else some { s.stats with nFailed := s.stats.nEvents - s.stats.nAcked }) } := by
  refine { h with outcome := fun stats hout haborted hunacked => ?_ }
  have hout' : (if s.producer = .raised then none
      else some { s.stats with nFailed := s.stats.nEvents - s.stats.nAcked }) = some stats :=
    Option.some.inj hout
  split_ifs at hout' with hraised
  cases hout'
  -- neither of the two other reasons to be done
  have hall : s.producedAll = true := by
    rcases h.done hdone with hr | ha | hall
    · exact absurd hr hraised
    · have : s.stats.aborted = false := haborted
      rw [ha] at this
      cases this
    · exact hall
  obtain ⟨hfin, hstream⟩ := h.exhausted hall
  have hsource := h.source
  rw [hfin, hstream] at hsource
  have hproduced : s.produced = events := by simpa [Producer.hand] using hsource
  refine ⟨hproduced, ?_⟩
  rw [← hproduced]
  refine h.all_answered ?_
  have hun : (s.stats.nEvents : ℤ) - s.stats.nAcked = 0 := hunacked
  omega

/-! ## Runs -/

theorem accounted_initial : Accounted cfg events (State.initial cfg events) where
  scattered := Scattered.nil fun place => by cases place <;> rfl
  source := rfl
  nEvents := rfl
  nResolved := rfl
  nAcked := rfl
  permits := rfl
  answered id h := absurd h List.not_mem_nil
  exhausted h := by cases h
  done h := by cases h
  outcome stats h := by cases h

/-- Every step keeps the account. -/
theorem Accounted.step (hids : (events.map (·.id)).Nodup) {e : Event cfg.connections}
    {s' : State cfg.connections} (h : Accounted cfg events s)
    (hstep : Relay.step cfg e s = some s') : Accounted cfg events s' := by
  unfold Relay.step at hstep
  split_ifs at hstep with hout
  cases e with
  | pull =>
    simp only [advance] at hstep
    split at hstep
    · rename_i event rest hproducer hstream
      cases hstep
      have hsource := h.source
      rw [hproducer, hstream] at hsource
      refine { h with source := ?_, exhausted := fun hall => ?_, done := fun hdone => ?_ }
      · rw [← hsource]
        simp [Producer.hand]
      · have := (h.exhausted hall).1
        rw [hproducer] at this
        cases this
      · rcases h.done hdone with hraised | hrest
        · rw [hproducer] at hraised
          cases hraised
        · exact Or.inr hrest
    · cases hstep
  | stop =>
    simp only [advance] at hstep
    split at hstep
    · rename_i hproducer hstream
      cases hstep
      have hsource := h.source
      rw [hproducer] at hsource
      exact Accounted.checkDone { h with
        source := hsource
        exhausted := fun _ => ⟨rfl, hstream⟩
        done := fun _ => Or.inr (Or.inr rfl) }
    · cases hstep
  | fail =>
    simp only [advance] at hstep
    split at hstep
    · rename_i hproducer
      cases hstep
      have hsource := h.source
      rw [hproducer] at hsource
      refine { h with
        source := hsource, exhausted := fun hall => ?_, done := fun _ => Or.inl rfl }
      have := (h.exhausted hall).1
      rw [hproducer] at this
      cases this
    · cases hstep
  | produce =>
    simp only [advance] at hstep
    split at hstep
    · rename_i event hproducer
      split_ifs at hstep with hpermit
      cases hstep
      exact h.produce hids hproducer hpermit _
    · cases hstep
  | loop w =>
    simp only [advance] at hstep
    split at hstep
    · rename_i failures hw
      cases hstep
      refine h.setWorker ?_
      rw [hw]
      split_ifs <;> rfl
    · cases hstep
  | connect w established =>
    simp only [advance] at hstep
    split at hstep
    · rename_i failures hw
      cases hstep
      refine h.setWorker ?_
      rw [hw]
      split_ifs <;> rfl
    · cases hstep
  | acquire w =>
    simp only [advance] at hstep
    split at hstep
    · rename_i failures c hw
      split_ifs at hstep
      cases hstep
      refine h.setWorker ?_
      rw [hw]
      rfl
    · cases hstep
  | get w =>
    simp only [advance] at hstep
    split at hstep
    · rename_i failures c next rest hw htodo
      split_ifs at hstep
      cases next with
      | none =>
        cases hstep
        have hkeep : Accounted cfg events
            (s.setWorker w (.connected failures { c with sender := .stopped })) :=
          h.setWorker (by rw [hw]; rfl)
        refine { hkeep with scattered := hkeep.scattered.perm fun place => ?_ }
        cases place with
        | todo =>
          show (rest.filterMap (Option.map Item.id)).Perm (s.todo.filterMap _)
          rw [htodo]
          exact List.Perm.refl _
        | _ => exact List.Perm.refl _
      | some item =>
        cases hstep
        exact h.get hw htodo .sending
    · cases hstep
  | sent w =>
    simp only [advance] at hstep
    split at hstep
    · rename_i failures c hw
      split_ifs at hstep
      cases hstep
      refine h.setWorker ?_
      rw [hw]
      rfl
    · cases hstep
  | receive w frame =>
    simp only [advance] at hstep
    split at hstep
    · rename_i failures c hw
      cases hstep
      exact h.receive hw frame
    · cases hstep
  | drop w =>
    simp only [advance] at hstep
    split at hstep
    · rename_i failures c hw
      cases hstep
      exact h.drop hw
    · cases hstep
  | closed w =>
    simp only [advance] at hstep
    split at hstep
    · rename_i failures progress hw
      cases hstep
      exact h.afterConnection hw
    · cases hstep
  | wake w =>
    simp only [advance] at hstep
    split at hstep
    · rename_i failures hw
      cases hstep
      refine h.setWorker ?_
      rw [hw]
      rfl
    · cases hstep
  | fire i =>
    simp only [advance] at hstep
    split at hstep
    · rename_i item hi
      cases hstep
      exact h.fire hi
    · cases hstep
  | finish =>
    simp only [advance] at hstep
    by_cases hdone : s.done = true
    · rw [if_pos hdone] at hstep
      cases hstep
      exact h.return hdone
    · rw [if_neg hdone] at hstep
      cases hstep

/-- In every state of every run. -/
theorem run_accounted (hids : (events.map (·.id)).Nodup) {es : List (Event cfg.connections)}
    (h : Machine.run (Relay.step cfg) es (State.initial cfg events) = some s) :
    Accounted cfg events s :=
  Machine.run_inv (P := fun _ => True) (fun _ hs hstep => hs.step hids hstep)
    (fun _ _ => trivial) accounted_initial h

theorem Accounted.nodup_produced (h : Accounted cfg events s) (hids : (events.map (·.id)).Nodup) :
    (s.produced.map (·.id)).Nodup := by
  rw [← h.source, List.map_append, List.map_append] at hids
  exact (List.nodup_append.1 (List.nodup_append.1 hids).1).1

/-- What was produced and is not resolved, counted by the two counters. -/
theorem Accounted.length_unresolved (h : Accounted cfg events s)
    (hids : (events.map (·.id)).Nodup) :
    (s.produced.filter fun event => event.id ∉ s.content .resolved).length + s.nResolved =
      s.stats.nEvents := by
  have hnodup := h.nodup_produced hids
  -- the produced events that are resolved are the resolved ones
  have hperm : ((s.produced.map (·.id)).filter (· ∈ s.content .resolved)).Perm
      (s.content .resolved) := by
    refine (List.perm_ext_iff_of_nodup (hnodup.filter _) (h.scattered.nodup .resolved)).2 ?_
    intro id
    rw [List.mem_filter, decide_eq_true_iff]
    exact ⟨fun hid => hid.2, fun hid => ⟨(h.scattered.mem id).2 ⟨.resolved, hid⟩, hid⟩⟩
  have hlen := hperm.length_eq
  rw [List.filter_map, List.length_map] at hlen
  have hresolved : (s.content .resolved).length = s.nResolved := by
    rw [h.nResolved]
    exact List.length_map _
  have hsplit := List.length_eq_length_filter_add (l := s.produced)
    fun event => decide (event.id ∈ s.content .resolved)
  have hneg : (s.produced.filter fun event => !decide (event.id ∈ s.content .resolved)) =
      s.produced.filter fun event => event.id ∉ s.content .resolved :=
    List.filter_congr fun event _ => (decide_not ..).symm
  rw [hneg] at hsplit
  have hevents := h.nEvents
  have hcomp : (s.produced.filter ((fun id => decide (id ∈ s.content .resolved)) ∘ fun event =>
      event.id)).length = (s.produced.filter fun event =>
        decide (event.id ∈ s.content .resolved)).length := rfl
  omega

end

/-- How often an event is counted in `n_acked`. -/
def State.timesAcked {n : ℕ} (s : State n) (event : SignedEvent) : ℕ := s.resolved.count (event.id, true)

section
variable {cfg : PublishConfig} {events : List SignedEvent} {s : State cfg.connections}

theorem timesAcked_eq (event : SignedEvent) :
    s.timesAcked event = ((s.resolved.filter (·.2)).map (·.1)).count event.id := by
  unfold State.timesAcked
  induction s.resolved with
  | nil => rfl
  | cons x resolved ih =>
    obtain ⟨id, accepted⟩ := x
    cases accepted <;> simp [List.count_cons, ih]

/-- `n_acked` is the sum over the events that were produced. -/
theorem Accounted.nAcked_eq (h : Accounted cfg events s) (hids : (events.map (·.id)).Nodup) :
    s.stats.nAcked = (s.produced.map s.timesAcked).sum := by
  have hnodup := h.nodup_produced hids
  have hone : ∀ id ∈ (s.resolved.filter (·.2)).map (·.1), (s.produced.map (·.id)).count id = 1 := by
    intro id hid
    obtain ⟨x, hx, rfl⟩ := List.mem_map.1 hid
    refine List.count_eq_one_of_mem hnodup ?_
    exact (h.scattered.mem _).2 ⟨.resolved, List.mem_map.2 ⟨x, (List.mem_filter.1 hx).1, rfl⟩⟩
  have hsum := sum_count hone
  rw [List.map_map, List.length_map, ← h.nAcked] at hsum
  rw [← hsum]
  exact congrArg List.sum (List.map_congr_left fun event _ => (timesAcked_eq event).symm)

end

/-- What holds of a publisher at a moment of a run. -/
structure Delivery (cfg : PublishConfig) (events : List SignedEvent)
    (s : State cfg.connections) : Prop where
  /-- every event that was produced is in one place -/
  placed : ∀ event ∈ s.produced, ∃! place, event.id ∈ s.content place
  /-- and there once -/
  once : ∀ place, (s.content place).Nodup
  /-- `n_acked` counts the events that were produced -/
  counted : s.stats.nAcked = (s.produced.map s.timesAcked).sum
  /-- and each at most once -/
  counted_once : ∀ event, s.timesAcked event ≤ 1
  /-- `max_outstanding` bounds what is not resolved -/
  bounded : (s.produced.filter fun event => event.id ∉ s.content .resolved).length ≤
    cfg.maxOutstanding
  /-- a return without an abort and with nothing unacked means that all was produced,
      and that the relay accepted it -/
  complete : ∀ stats, s.outcome = some (some stats) → stats.aborted = false → stats.nUnacked = 0 →
    s.produced = events ∧ ∀ event ∈ events, event.id ∈ s.answered

/-- **The publisher neither loses nor double-counts an event**: in every state of
    every run, for every stream of events with distinct ids. -/
theorem delivered (cfg : PublishConfig) (events : List SignedEvent)
    (hids : (events.map (·.id)).Nodup) (es : List (Event cfg.connections))
    (s : State cfg.connections)
    (h : Machine.run (Relay.step cfg) es (State.initial cfg events) = some s) :
    Delivery cfg events s := by
  have ha := run_accounted hids h
  refine ⟨fun event he => ?_, ha.scattered.nodup, ha.nAcked_eq hids, fun event => ?_, ?_, ha.outcome⟩
  · exact ha.scattered.existsUnique (List.mem_map_of_mem he)
  · rw [timesAcked_eq]
    exact List.nodup_iff_count_le_one.1 ha.nodup_acked event.id
  · have hlen := ha.length_unresolved hids
    have hpermits := ha.permits
    omega

/-- One connection at a time, two events. -/
def sampleConfig : PublishConfig := ⟨1, 2, 2, 3, 2⟩

def sampleEvents : List SignedEvent := [⟨"a", ""⟩, ⟨"b", ""⟩]

/-- The relay rejects the first event once, and the connection is lost before it
    answers for the second. -/
def sampleRun : List (Event 1) :=
  [.pull, .produce, .pull, .produce, .stop, .loop 0, .connect 0 true, .acquire 0, .get 0, .sent 0,
    .acquire 0, .get 0, .sent 0, .receive 0 (.ok "a" false "rate-limited: slow down"), .drop 0,
    .closed 0, .fire 0, .wake 0, .loop 0, .connect 0 true, .acquire 0, .get 0, .sent 0,
    .receive 0 (.ok "b" true ""), .acquire 0, .get 0, .sent 0, .receive 0 .other,
    .receive 0 (.ok "a" true ""), .finish]

theorem sampleRun_delivered : ∃ s,
    Machine.run (Relay.step sampleConfig) sampleRun (State.initial sampleConfig sampleEvents) = some s ∧
      s.outcome.map (Option.map fun stats => (stats.aborted, stats.nUnacked)) = some (some (false, 0)) ∧
      Delivery sampleConfig sampleEvents s := by
  have hsome : (Machine.run (Relay.step sampleConfig) sampleRun
      (State.initial sampleConfig sampleEvents)).isSome = true := by rfl
  have hout : ((Machine.run (Relay.step sampleConfig) sampleRun
      (State.initial sampleConfig sampleEvents)).get hsome).outcome.map
        (Option.map fun stats => (stats.aborted, stats.nUnacked)) = some (some (false, 0)) := by rfl
  obtain ⟨s, hs⟩ := Option.isSome_iff_exists.1 hsome
  simp only [hs, Option.get_some] at hout
  exact ⟨s, hs, hout, delivered sampleConfig sampleEvents (by decide) sampleRun s hs⟩

end Relay

end BrainstormServer
