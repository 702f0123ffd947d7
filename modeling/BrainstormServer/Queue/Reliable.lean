/-
  The result queues lose nothing, and never redeliver for ever.

  * `Lane.Counts`: the counter of the message at the head of a queue's window is at
    least the number of times the handler was called for it;
  * `Shared`: a payload is there as long as its `:pending` set is not empty, since
    a consumer deletes it only after finding the set empty, and an empty set of a
    stored key stays empty;
  * `run_reliable`: they hold in every state of every run without an expiry;
  * `recover_run`: a consumer that starts again ends up idle, with what was
    interrupted at the head of its queue, whatever the others do meanwhile;
  * `queues_reliable` puts together what follows.
-/
import BrainstormServer.Queue.Window

namespace BrainstormServer

namespace Queue

open Conc

variable {σ H O R : Type}

/-! ## Attempts -/

/-- What the consumer's place says about the calls made so far. -/
def Lane.Called (l : Lane H R) : Prop :=
  match l.pc with
  | .acked _ => l.invoked l.acked = 0
  | .counted item message attempts =>
    l.invoked item.seq < attempts ∧ attempts ≤ l.attempts (attemptsKey message)
  | .handling item _ _ => 0 < l.invoked item.seq
  | .settled item _ => 0 < l.invoked item.seq ∨ 0 < l.closed item.seq
  | _ => True

/-- Attempts and calls of a lane. -/
structure Lane.Counts (l : Lane H R) : Prop where
  untouched : ∀ n, l.acked < n ∨ l.arrivals.length ≤ n → l.invoked n = 0
  bounded : ∀ n, l.invoked n ≤ maxAttempts
  counter : ∀ message, l.arrivals[l.acked]? = some (.envelope message) →
    l.invoked l.acked ≤ l.attempts (attemptsKey message)
  attempted : ∀ n < l.acked, 0 < l.invoked n ∨ 0 < l.closed n
  called : l.Called

section
variable {l : Lane H R}

/-- The consumer moving on, with its lists as they may be. -/
theorem Lane.Counts.setPc (h : l.Counts) {pc : Pc H R} {queue processing : List (Item R)}
    (hpc : Lane.Called ⟨queue, processing, l.attempts, pc, l.arrivals, l.acked, l.invoked, l.closed⟩) :
    Lane.Counts ⟨queue, processing, l.attempts, pc, l.arrivals, l.acked, l.invoked, l.closed⟩ :=
  ⟨h.untouched, h.bounded, h.counter, h.attempted, hpc⟩

/-- A counter going up. -/
theorem Lane.Counts.count (h : l.Counts) {key : String} {n : ℕ} (hn : l.attempts key ≤ n)
    {pc : Pc H R} (hpc : { l with attempts := Function.update l.attempts key n, pc := pc }.Called) :
    { l with attempts := Function.update l.attempts key n, pc := pc }.Counts where
  untouched := h.untouched
  bounded := h.bounded
  counter := by
    intro message hm
    have hc := h.counter message hm
    show _ ≤ Function.update l.attempts key n (attemptsKey message)
    by_cases hk : attemptsKey message = key
    · rw [hk, Function.update_self]
      rw [hk] at hc
      exact Nat.le_trans hc hn
    · rwa [Function.update_of_ne hk]
  attempted := h.attempted
  called := hpc

/-- Calling the handler, after an attempt was counted. -/
theorem Lane.Counts.invoke (h : l.Counts) (hp : l.Placed) {item : Item R} {message : Message R}
    {attempts : ℕ} (hproc : l.processing = [item]) (hraw : item.raw = .envelope message)
    (hlt : l.invoked item.seq < attempts) (hle : attempts ≤ maxAttempts)
    (hcount : attempts ≤ l.attempts (attemptsKey message)) (hd : H) :
    (l.invoke item message hd).Counts := by
  obtain ⟨hseq, hhead, -⟩ := hp.head hproc
  have hlen := hp.acked_lt hproc
  refine ⟨fun n hn => ?_, fun n => ?_, fun m hm => ?_, fun n hn => ?_, ?_⟩
  · have hne : n ≠ item.seq := by
      rw [hseq]
      rcases hn with hn | hn
      · exact Nat.ne_of_gt hn
      · exact Nat.ne_of_gt (Nat.lt_of_lt_of_le hlen hn)
    show Function.update l.invoked item.seq _ n = 0
    rw [Function.update_of_ne hne]
    exact h.untouched n hn
  · show Function.update l.invoked item.seq _ n ≤ maxAttempts
    by_cases hn : n = item.seq
    · rw [hn, Function.update_self]
      omega
    · rw [Function.update_of_ne hn]
      exact h.bounded n
  · -- the message at the head is the one the handler is called for
    have hm' : l.arrivals[l.acked]? = some (.envelope m) := hm
    rw [hhead, hraw] at hm'
    obtain rfl : message = m := Raw.envelope.inj (Option.some.inj hm')
    show Function.update l.invoked item.seq _ l.acked ≤ l.attempts (attemptsKey message)
    rw [← hseq, Function.update_self]
    omega
  · show 0 < Function.update l.invoked item.seq _ n ∨ _
    have hne : n ≠ item.seq := by
      rw [hseq]
      exact Nat.ne_of_lt hn
    rw [Function.update_of_ne hne]
    exact h.attempted n hn
  · show 0 < Function.update l.invoked item.seq _ item.seq
    rw [Function.update_self]
    exact Nat.succ_pos _

/-- Calling `on_lost`. -/
theorem Lane.Counts.close (h : l.Counts) {n : ℕ} {pc : Pc H R}
    (hpc : { l with pc := pc, closed := Function.update l.closed n (l.closed n + 1) }.Called) :
    { l with pc := pc, closed := Function.update l.closed n (l.closed n + 1) }.Counts := by
  refine ⟨h.untouched, h.bounded, h.counter, fun k hk => ?_, hpc⟩
  refine (h.attempted k hk).imp id fun hpos => ?_
  show 0 < Function.update l.closed n _ k
  by_cases hkn : k = n
  · rw [hkn, Function.update_self]
    exact Nat.succ_pos _
  · rwa [Function.update_of_ne hkn]

/-- Acknowledging the message that is held. -/
theorem Lane.Counts.ack (h : l.Counts) (hp : l.Placed) {item : Item R} {message : Message R}
    {processing : List (Item R)} (hproc : l.processing = [item])
    (hdone : 0 < l.invoked item.seq ∨ 0 < l.closed item.seq) :
    ({ l with
      processing := processing
      pc := .acked message
      acked := l.acked + 1 } : Lane H R).Counts := by
  obtain ⟨hseq, -, -⟩ := hp.head hproc
  have hnext : l.invoked (l.acked + 1) = 0 := h.untouched _ (Or.inl (Nat.lt_succ_self _))
  refine ⟨fun n hn => ?_, h.bounded, fun m _ => ?_, fun n hn => ?_, hnext⟩
  · refine h.untouched n (hn.imp (fun hlt => ?_) id)
    exact Nat.lt_of_succ_lt hlt
  · show l.invoked (l.acked + 1) ≤ _
    rw [hnext]
    exact Nat.zero_le _
  · rcases Nat.lt_succ_iff_lt_or_eq.1 hn with hlt | heq
    · exact h.attempted n hlt
    · rw [heq, ← hseq]
      exact hdone

/-- Deleting the counter, when no message at the head has used one. -/
theorem Lane.Counts.clear (h : l.Counts) (hnone : l.invoked l.acked = 0) {key : String} {pc : Pc H R}
    (hpc : { l with attempts := Function.update l.attempts key 0, pc := pc }.Called) :
    { l with attempts := Function.update l.attempts key 0, pc := pc }.Counts := by
  refine ⟨h.untouched, h.bounded, fun m _ => ?_, h.attempted, hpc⟩
  show l.invoked l.acked ≤ _
  rw [hnone]
  exact Nat.zero_le _

/-- A message arriving. -/
theorem Lane.Counts.push (h : l.Counts) (raw : Raw R) :
    ({ l with
      queue := l.queue ++ [⟨l.arrivals.length, raw⟩]
      arrivals := l.arrivals ++ [raw] } : Lane H R).Counts := by
  refine ⟨fun n hn => ?_, h.bounded, fun m hm => ?_, h.attempted, h.called⟩
  · refine h.untouched n (hn.imp id fun hle => ?_)
    have hle' : (l.arrivals ++ [raw]).length ≤ n := hle
    rw [List.length_append] at hle'
    omega
  · have hm' : (l.arrivals ++ [raw])[l.acked]? = some (.envelope m) := hm
    by_cases hlt : l.acked < l.arrivals.length
    · rw [List.getElem?_append_left hlt] at hm'
      exact h.counter m hm'
    · show l.invoked l.acked ≤ _
      rw [h.untouched _ (Or.inr (Nat.le_of_not_lt hlt))]
      exact Nat.zero_le _

theorem Lane.counts_initial : (Lane.initial : Lane H R).Counts :=
  ⟨fun _ _ => rfl, fun _ => Nat.zero_le _, fun _ _ => Nat.zero_le _,
    fun n hn => absurd hn (Nat.not_lt_zero n), trivial⟩

end

section
variable [DecidableEq R] {hs : Handlers σ H O R} {q : ResultQueue} {s s' : State σ H R}

/-- A command of a consumer keeps the counters of every lane. -/
theorem Acts.counts (h : Acts hs q s s') (hplaced : ∀ q, (s.lanes q).Placed)
    (hall : ∀ q, (s.lanes q).Counts) : ∀ q', (s'.lanes q').Counts := by
  have hl := hall q
  have hp := hplaced q
  have hold := hp.holding
  have hcalled := hl.called
  unfold Lane.Holding at hold
  unfold Lane.Called at hcalled
  cases h with
  | start hpc | recovered hpc _ | take hpc _ | reject hpc | decode hpc _ | lose hpc | retain hpc
  | check hpc _ =>
    exact setLane_forall (hl.setPc trivial) hall
  | release hpc | free hpc => exact setLane_forall (s := s) (hl.setPc trivial) hall
  | recover hpc hproc =>
    refine setLane_forall (hl.setPc ?_) hall
    simp only [Lane.Called, hpc]
  | @count item message attempts hpc hattempts =>
    rw [hpc] at hold
    obtain ⟨hproc, hraw⟩ := hold
    refine setLane_forall (hl.count (by omega) ⟨?_, ?_⟩) hall
    · -- the counter covered the calls so far, and is one more now
      obtain ⟨hseq, hhead, -⟩ := hp.head hproc
      have hc := hl.counter message (by rw [hhead, hraw])
      show (s.lanes q).invoked item.seq < attempts
      rw [hseq]
      omega
    · show attempts ≤ Function.update (s.lanes q).attempts (attemptsKey message) attempts _
      exact Nat.le_of_eq (by rw [Function.update_self])
  | miscount hpc hattempts => exact setLane_forall (hl.count hattempts trivial) hall
  | invoke hpc hle hgiven =>
    rw [hpc] at hold hcalled
    exact setLane_forall (hl.invoke hp hold.1 hold.2 hcalled.1 hle hcalled.2 _) hall
  | @transact item message hd choice world progress hpc hnext =>
    rw [hpc] at hcalled
    refine setLane_forall (s := s) (hl.setPc ?_) hall
    cases progress with
    | «continue» hd' => exact hcalled
    | returned => exact Or.inl hcalled
    | raised => exact trivial
  | @close item message guarded pc committed returned hpc hnext =>
    refine setLane_forall (s := s) (hl.close ?_) hall
    rcases hnext with rfl | ⟨-, -, rfl⟩
    · refine Or.inr ?_
      show 0 < Function.update (s.lanes q).closed item.seq _ item.seq
      rw [Function.update_self]
      exact Nat.succ_pos _
    · exact trivial
  | ack hpc =>
    rw [hpc] at hold hcalled
    exact setLane_forall (hl.ack hp hold.1 hcalled) hall
  | @clear message hpc =>
    rw [hpc] at hcalled
    refine setLane_forall (hl.clear hcalled ?_) hall
    cases message.resultKey <;> exact trivial

end

/-! ## Payloads -/

/-- The result key of the message a consumer is done decoding. -/
def Pc.key : Pc H R → Option String
  | .stopped | .recovering | .idle | .taken _ => none
  | .decoded _ message | .counted _ message _ | .handling _ message _ | .closing _ message _
  | .settled _ message | .acked message => message.resultKey
  | .cleared key | .released key | .freeing key => some key

/-- Payloads and `:pending` sets.  The keys that messages name are stored, so that
    a set found empty is not filled again. -/
structure Shared (s : State σ H R) : Prop where
  payload : ∀ key, s.pending key ≠ [] → s.payload key ≠ none
  arrived : ∀ q message key, .envelope message ∈ (s.lanes q).arrivals →
    message.resultKey = some key → s.stored key = true
  held : ∀ q key, (s.lanes q).pc.key = some key → s.stored key = true
  freeing : ∀ q key, (s.lanes q).pc = .freeing key → s.pending key = []

section
variable {s : State σ H R} {q : ResultQueue}

/-- A lane that keeps its arrivals, with a consumer that holds no other key; the
    sets may shrink, and a payload go with its set. -/
theorem Shared.update (h : Shared s) {l : Lane H R} {payload : String → Option (Option R)}
    {pending : String → List ResultQueue} {world : σ} (harr : l.arrivals = (s.lanes q).arrivals)
    (hheld : ∀ key, l.pc.key = some key → s.stored key = true)
    (hfree : ∀ key, l.pc = .freeing key → pending key = [])
    (hpayload : ∀ key, pending key ≠ [] → payload key ≠ none)
    (hshrink : ∀ key, s.pending key = [] → pending key = []) :
    Shared ⟨Function.update s.lanes q l, payload, pending, s.stored, world⟩ where
  payload := hpayload
  arrived q' message key hm hk := by
    refine h.arrived q' message key ?_ hk
    have hm' : Raw.envelope message ∈ (Function.update s.lanes q l q').arrivals := hm
    by_cases hq : q' = q
    · rw [hq, Function.update_self, harr] at hm'
      rwa [hq]
    · rwa [Function.update_of_ne hq] at hm'
  held q' key hk := by
    have hk' : (Function.update s.lanes q l q').pc.key = some key := hk
    by_cases hq : q' = q
    · rw [hq, Function.update_self] at hk'
      exact hheld key hk'
    · rw [Function.update_of_ne hq] at hk'
      exact h.held q' key hk'
  freeing q' key hk := by
    have hk' : (Function.update s.lanes q l q').pc = .freeing key := hk
    by_cases hq : q' = q
    · rw [hq, Function.update_self] at hk'
      exact hfree key hk'
    · rw [Function.update_of_ne hq] at hk'
      exact hshrink key (h.freeing q' key hk')

/-- The case in which sets and payloads stay. -/
theorem Shared.setLane (h : Shared s) {l : Lane H R} {world : σ}
    (harr : l.arrivals = (s.lanes q).arrivals)
    (hheld : ∀ key, l.pc.key = some key → s.stored key = true)
    (hfree : ∀ key, l.pc = .freeing key → s.pending key = []) :
    Shared { s.setLane q l with world := world } :=
  h.update harr hheld hfree h.payload fun _ hp => hp

variable [DecidableEq R] {hs : Handlers σ H O R} {s' : State σ H R}

/-- A command of a consumer keeps the payloads. -/
theorem Acts.shared (h : Acts hs q s s') (hplaced : ∀ q, (s.lanes q).Placed) (hsh : Shared s) :
    Shared s' := by
  have hheld := hsh.held q
  cases h with
  | start hpc | recovered hpc _ | reject hpc | retain hpc =>
    exact hsh.setLane rfl (by simp [Pc.key]) (by simp)
  | take hpc _ => exact hsh.setLane rfl (by simp [Pc.key]) (by simp)
  | recover hpc hproc => exact hsh.setLane rfl (by simp [Pc.key, hpc]) (by simp [hpc])
  | @decode item message hpc hraw =>
    refine hsh.setLane rfl (fun key hk => ?_) (by simp)
    -- the message arrived on this queue, and what arrives is stored
    have hold := (hplaced q).holding
    rw [Lane.Holding, hpc] at hold
    refine hsh.arrived q message key ?_ hk
    rw [← hraw]
    exact List.mem_of_getElem? ((hplaced q).head hold).2.1
  | count hpc _ | miscount hpc _ | lose hpc | invoke hpc _ _ =>
    rw [hpc] at hheld
    exact hsh.setLane rfl hheld (by simp [Lane.invoke])
  | @transact item message hd choice world progress hpc hnext =>
    rw [hpc] at hheld
    refine hsh.setLane rfl ?_ ?_
    · cases progress <;> exact hheld
    · cases progress <;> simp [Progress.pc]
  | @close item message guarded pc committed returned hpc hnext =>
    rw [hpc] at hheld
    refine hsh.setLane rfl ?_ ?_
    · rcases hnext with rfl | ⟨-, -, rfl⟩ <;> exact hheld
    · rcases hnext with rfl | ⟨-, -, rfl⟩ <;> simp
  | ack hpc =>
    rw [hpc] at hheld
    exact hsh.setLane rfl hheld (by simp)
  | @clear message hpc =>
    rw [hpc] at hheld
    refine hsh.setLane rfl ?_ ?_
    · intro key hk
      refine hheld key ?_
      cases hkey : message.resultKey with
      | none => simp [hkey, Pc.key] at hk
      | some key' => simpa [hkey, Pc.key] using hk
    · intro key hk
      cases hkey : message.resultKey with
      | none => simp [hkey] at hk
      | some key' => simp [hkey] at hk
  | @release key hpc =>
    rw [hpc] at hheld
    refine hsh.update rfl hheld (by simp) (fun k hk => hsh.payload k fun hnil => hk ?_)
      fun k hnil => ?_
    all_goals
      by_cases hkey : k = key
      · rw [hkey] at hnil ⊢
        rw [Function.update_self, hnil]
        rfl
      · rwa [Function.update_of_ne hkey]
  | check hpc hpending =>
    rw [hpc] at hheld
    refine hsh.setLane rfl hheld ?_
    rintro key ⟨⟩
    exact hpending
  | @free key hpc =>
    refine hsh.update rfl (by simp [Pc.key]) (by simp) (fun k hk => ?_) fun k hnil => ?_
    · by_cases hkey : k = key
      · rw [hkey, Function.update_self] at hk
        exact absurd rfl hk
      · rw [Function.update_of_ne hkey] at hk ⊢
        exact hsh.payload k hk
    · by_cases hkey : k = key
      · rw [hkey, Function.update_self]
      · rwa [Function.update_of_ne hkey]

end

/-! ## Runs -/

/-- Something in Redis runs out of time. -/
def Event.isExpiry : Event O R → Bool
  | .evict _ | .forget _ _ => true
  | _ => false

/-- The invariant of the system. -/
structure Reliable (s : State σ H R) : Prop where
  placed : ∀ q, (s.lanes q).Placed
  counts : ∀ q, (s.lanes q).Counts
  shared : Shared s

theorem reliable_initial (world : σ) : Reliable (State.initial world : State σ H R) where
  placed _ := Lane.placed_initial
  counts _ := Lane.counts_initial
  shared := by
    refine ⟨fun key h => absurd rfl h, fun q message key h => ?_, fun q key h => ?_,
      fun q key h => ?_⟩
    · exact absurd h List.not_mem_nil
    · cases h
    · cases h

section
variable {s s' : State σ H R}

theorem Reliable.store (h : Reliable s) {key : String} (hnew : s.stored key = false)
    (blob : Option R) (queues : List ResultQueue) :
    Reliable { s with
      payload := Function.update s.payload key (some blob)
      pending := Function.update s.pending key queues
      stored := Function.update s.stored key true } where
  placed := h.placed
  counts := h.counts
  shared := by
    have hmono : ∀ k, s.stored k = true → Function.update s.stored key true k = true := by
      intro k hk
      by_cases hkey : k = key
      · rw [hkey, Function.update_self]
      · rwa [Function.update_of_ne hkey]
    refine ⟨fun k hk => ?_, fun q m k hm hk => hmono k (h.shared.arrived q m k hm hk),
      fun q k hk => hmono k (h.shared.held q k hk), fun q k hk => ?_⟩
    · show Function.update s.payload key (some blob) k ≠ none
      have hk' : Function.update s.pending key queues k ≠ [] := hk
      by_cases hkey : k = key
      · rw [hkey, Function.update_self]
        exact Option.some_ne_none _
      · rw [Function.update_of_ne hkey] at hk' ⊢
        exact h.shared.payload k hk'
    · -- a key that a consumer is about to delete is not new
      have hst : s.stored k = true := h.shared.held q k (by
        rw [show (s.lanes q).pc = .freeing k from hk]
        rfl)
      have hkey : k ≠ key := by
        rintro rfl
        rw [hnew] at hst
        cases hst
      show Function.update s.pending key queues k = []
      rw [Function.update_of_ne hkey]
      exact h.shared.freeing q k hk

theorem Reliable.push (h : Reliable s) {q : ResultQueue} {raw : Raw R}
    (hkey : keyStored s.stored raw = true) :
    Reliable (s.setLane q { s.lanes q with
      queue := (s.lanes q).queue ++ [⟨(s.lanes q).arrivals.length, raw⟩]
      arrivals := (s.lanes q).arrivals ++ [raw] }) where
  placed := setLane_forall ((h.placed q).push raw) h.placed
  counts := setLane_forall ((h.counts q).push raw) h.counts
  shared := by
    have hlane : ∀ q', (Function.update s.lanes q { s.lanes q with
        queue := (s.lanes q).queue ++ [⟨(s.lanes q).arrivals.length, raw⟩]
        arrivals := (s.lanes q).arrivals ++ [raw] } q').pc = (s.lanes q').pc := by
      intro q'
      by_cases hq : q' = q
      · rw [hq, Function.update_self]
      · rw [Function.update_of_ne hq]
    refine ⟨h.shared.payload, fun q' message key hm hk => ?_, fun q' key hk => ?_,
      fun q' key hk => ?_⟩
    · have hm' : Raw.envelope message ∈ (Function.update s.lanes q { s.lanes q with
        queue := (s.lanes q).queue ++ [⟨(s.lanes q).arrivals.length, raw⟩]
        arrivals := (s.lanes q).arrivals ++ [raw] } q').arrivals := hm
      by_cases hq : q' = q
      · rw [hq, Function.update_self] at hm'
        rcases List.mem_append.1 hm' with hm' | hm'
        · exact h.shared.arrived q message key hm' hk
        · obtain rfl := List.mem_singleton.1 hm'
          show s.stored key = true
          simpa [keyStored, hk] using hkey
      · rw [Function.update_of_ne hq] at hm'
        exact h.shared.arrived q' message key hm' hk
    · exact h.shared.held q' key (by rw [← hlane q']; exact hk)
    · exact h.shared.freeing q' key (by rw [← hlane q']; exact hk)

theorem Reliable.crash (h : Reliable s) (q : ResultQueue) :
    Reliable (s.setLane q { s.lanes q with pc := .stopped }) where
  placed := setLane_forall ((h.placed q).setPc trivial) h.placed
  counts := setLane_forall ((h.counts q).setPc trivial) h.counts
  shared := h.shared.setLane rfl (by simp [Pc.key]) (by simp)

variable [DecidableEq R] {hs : Handlers σ H O R}

/-- Every step but an expiry keeps the invariant. -/
theorem Reliable.step {e : Event O R} (he : e.isExpiry = false) (h : Reliable s)
    (hstep : step hs e s = some s') : Reliable s' := by
  cases e with
  | store key blob queues =>
    simp only [Queue.step] at hstep
    split_ifs at hstep with hkey
    cases hstep
    exact h.store (Bool.eq_false_iff.2 hkey) blob queues
  | push q raw =>
    simp only [Queue.step] at hstep
    split_ifs at hstep with hkey
    cases hstep
    exact h.push hkey
  | outside o =>
    cases hstep
    exact ⟨h.placed, h.counts, h.shared.payload, h.shared.arrived, h.shared.held, h.shared.freeing⟩
  | act q a =>
    have hacts := act_cases hstep
    exact ⟨hacts.placed h.placed, hacts.counts h.placed h.counts,
      hacts.shared h.placed h.shared⟩
  | crash q =>
    cases hstep
    exact h.crash q
  | evict key => cases he
  | forget q key => cases he

/-- In every state of every run without an expiry. -/
theorem run_reliable {world : σ} {es : List (Event O R)} (hes : ∀ e ∈ es, e.isExpiry = false)
    (h : Machine.run (Queue.step hs) es (State.initial world) = some s) : Reliable s :=
  Machine.run_inv (fun he hs h => Reliable.step he hs h) hes (reliable_initial world) h

/-! ## What the queues promise -/

theorem act_recovering {q : ResultQueue} {a : Act} (hpc : (s.lanes q).pc = .recovering)
    (h : act hs q a s = some s') : a = .recover := by
  cases a with
  | recover => rfl
  | _ => simp [act, hpc] at h

/-- What the commands of a consumer take from `:processing`. -/
theorem Acts.leaves {q : ResultQueue} (h : Acts hs q s s') (hp : (s.lanes q).Placed)
    (hc : (s.lanes q).Counts) {item : Item R}
    (hin : item ∈ (s.lanes q).processing) (hout : item ∉ (s'.lanes q).processing) :
    ((s.lanes q).pc = .recovering ∧ (s'.lanes q).queue = item :: (s.lanes q).queue) ∨
      0 < (s.lanes q).invoked item.seq ∨ 0 < (s.lanes q).closed item.seq := by
  have hold := hp.holding
  have hcalled := hc.called
  unfold Lane.Holding at hold
  unfold Lane.Called at hcalled
  have hself : ∀ l : Lane H R, Function.update s.lanes q l q = l := fun l => Function.update_self ..
  cases h with
  | @recover item' init hpc hproc =>
    refine Or.inl ⟨hpc, ?_⟩
    have hout' : item ∉ (Function.update s.lanes q _ q).processing := hout
    rw [hself] at hout'
    rw [hproc] at hin
    have : item = item' := by simpa [show item ∉ init from hout'] using hin
    show (Function.update s.lanes q _ q).queue = _
    rw [hself, this]
  | take hpc hqueue =>
    refine absurd ?_ hout
    show item ∈ (Function.update s.lanes q _ q).processing
    rw [hself]
    exact List.mem_append_left _ hin
  | ack hpc =>
    rw [hpc] at hold hcalled
    rw [hold.1] at hin
    obtain rfl := List.mem_singleton.1 hin
    exact Or.inr hcalled
  | _ =>
    refine absurd ?_ hout
    show item ∈ (Function.update s.lanes q _ q).processing
    rw [hself]
    exact hin

/-! ## Recovery -/

/-- The event is one of the consumer of a queue. -/
def Event.consumes (q : ResultQueue) : Event O R → Bool
  | .act q' _ => q' = q
  | .crash q' => q' = q
  | _ => false

/-- What a consumer does first when it starts again: it moves back as many messages, and finds
    that there is no other. -/
def restart (q : ResultQueue) (interrupted : ℕ) : List (Event O R) :=
  .act q .start :: List.replicate (interrupted + 1) (.act q .recover)

/-- A lane in which nothing has changed but that messages have arrived. -/
def Lane.Grown (l l' : Lane H R) : Prop :=
  l'.pc = l.pc ∧ l'.processing = l.processing ∧ ∃ newer, l'.queue = l.queue ++ newer

omit [DecidableEq R] in
theorem Lane.Grown.refl (l : Lane H R) : l.Grown l := ⟨rfl, rfl, [], (List.append_nil _).symm⟩

omit [DecidableEq R] in
theorem Lane.Grown.trans {l l' l'' : Lane H R} (h : l.Grown l') (h' : l'.Grown l'') : l.Grown l'' := by
  obtain ⟨hpc, hproc, newer, hqueue⟩ := h
  obtain ⟨hpc', hproc', newer', hqueue'⟩ := h'
  exact ⟨hpc'.trans hpc, hproc'.trans hproc, newer ++ newer', by rw [hqueue', hqueue, List.append_assoc]⟩

/-- What others do to a lane. -/
theorem step_grown {q : ResultQueue} {e : Event O R} (he : e.consumes q = false)
    (h : Queue.step hs e s = some s') : (s.lanes q).Grown (s'.lanes q) := by
  -- a lane that is set is another one, or has grown
  have hset : ∀ {q' : ResultQueue} {l : Lane H R}, (s.lanes q').Grown l →
      (s.lanes q).Grown ((s.setLane q' l).lanes q) := by
    intro q' l hl
    show (s.lanes q).Grown (Function.update s.lanes q' l q)
    by_cases hq : q = q'
    · rw [hq, Function.update_self]
      exact hl
    · rw [Function.update_of_ne hq]
      exact .refl _
  cases e with
  | store key blob queues =>
    simp only [Queue.step] at h
    split_ifs at h
    cases h
    exact .refl _
  | push q' raw =>
    simp only [Queue.step] at h
    split_ifs at h
    cases h
    exact hset ⟨rfl, rfl, _, rfl⟩
  | outside o =>
    cases h
    exact .refl _
  | evict key =>
    cases h
    exact .refl _
  | forget q' key =>
    cases h
    exact hset ⟨rfl, rfl, [], (List.append_nil _).symm⟩
  | act q' a =>
    have hq : q' ≠ q := of_decide_eq_false he
    rw [(act_cases h).other (Ne.symm hq)]
    exact .refl _
  | crash q' =>
    have hq : q' ≠ q := of_decide_eq_false he
    cases h
    rw [show (s.setLane q' { s.lanes q' with pc := .stopped }).lanes q = s.lanes q from
      Function.update_of_ne (Ne.symm hq) ..]
    exact .refl _

theorem run_grown {q : ResultQueue} {es : List (Event O R)} (hes : es.filter (·.consumes q) = [])
    (h : Machine.run (Queue.step hs) es s = some s') : (s.lanes q).Grown (s'.lanes q) := by
  have hP : ∀ e ∈ es, e.consumes q = false := fun e he =>
    Bool.eq_false_iff.2 (List.filter_eq_nil_iff.1 hes e he)
  exact Machine.run_inv (I := fun t => (s.lanes q).Grown (t.lanes q))
    (fun he hgrown hstep => hgrown.trans (step_grown he hstep)) hP (.refl _) h

variable (hs) in
/-- `LMOVE` of the last message, if there is one. -/
theorem recover_step {q : ResultQueue} (hpc : (s.lanes q).pc = .recovering) :
    ∃ s', Queue.step hs (.act q .recover) s = some s' ∧
      (((s.lanes q).processing = [] ∧ (s'.lanes q).pc = .idle ∧ (s'.lanes q).processing = [] ∧
          (s'.lanes q).queue = (s.lanes q).queue) ∨
        ∃ init item, (s.lanes q).processing = init ++ [item] ∧ (s'.lanes q).pc = .recovering ∧
          (s'.lanes q).processing = init ∧ (s'.lanes q).queue = item :: (s.lanes q).queue) := by
  have hself : ∀ l : Lane H R, (s.setLane q l).lanes q = l := fun l => Function.update_self ..
  cases hlast : (s.lanes q).processing.getLast? with
  | none =>
    have hnil := List.getLast?_eq_none_iff.1 hlast
    refine ⟨s.setLane q { s.lanes q with pc := .idle }, by simp [Queue.step, act, hpc, hlast], ?_⟩
    rw [hself]
    exact Or.inl ⟨hnil, rfl, hnil, rfl⟩
  | some item =>
    refine ⟨s.setLane q { s.lanes q with
        processing := (s.lanes q).processing.dropLast, queue := item :: (s.lanes q).queue },
      by simp [Queue.step, act, hpc, hlast], ?_⟩
    rw [hself]
    exact Or.inr ⟨_, item, (List.dropLast_append_getLast? item hlast).symm, hpc, rfl, rfl⟩

/-- The first step of a consumer, after steps of the others. -/
theorem run_first {q : ResultQueue} {e : Event O R} {es rest : List (Event O R)}
    (h : Machine.run (Queue.step hs) es s = some s') (hes : es.filter (·.consumes q) = e :: rest) :
    ∃ t u es', (s.lanes q).Grown (t.lanes q) ∧ Queue.step hs e t = some u ∧
      Machine.run (Queue.step hs) es' u = some s' ∧ es'.filter (·.consumes q) = rest := by
  obtain ⟨es₁, es₂, rfl, hbefore, -, hrest⟩ := List.filter_eq_cons_iff.1 hes
  obtain ⟨t, hbeside, h⟩ := Machine.run_append.1 h
  obtain ⟨u, hstep, h⟩ := Machine.run_cons.1 h
  exact ⟨t, u, es₂, run_grown (List.filter_eq_nil_iff.2 hbefore) hbeside, hstep, h, hrest⟩

/-- The lane `l'` has all that was in `l`, back in the queue and in order, with what arrived
    behind it; its consumer is idle. -/
def Lane.Recovered (l l' : Lane H R) : Prop :=
  l'.pc = .idle ∧ l'.processing = [] ∧ ∃ newer, l'.queue = l.processing ++ l.queue ++ newer

omit [DecidableEq R] in
theorem Lane.Grown.recovered {l l' l'' : Lane H R} (h : l.Grown l') (h' : l'.Recovered l'') :
    l.Recovered l'' := by
  obtain ⟨-, hproc, newer, hqueue⟩ := h
  obtain ⟨hidle, hnil, newer', hall⟩ := h'
  refine ⟨hidle, hnil, newer ++ newer', ?_⟩
  rw [hall, hproc, hqueue]
  simp only [List.append_assoc]

/-- **Recovery, among the steps of the others.**  When the consumer has sent one command more than
    there were messages, it is idle, and they are at the head of the queue, in order. -/
theorem recover_run {q : ResultQueue} {n : ℕ} : ∀ {es : List (Event O R)} {s s' : State σ H R},
    Machine.run (Queue.step hs) es s = some s' → (s.lanes q).pc = .recovering →
    (s.lanes q).processing.length = n →
    es.filter (·.consumes q) = List.replicate (n + 1) (.act q .recover) →
    (s.lanes q).Recovered (s'.lanes q) := by
  induction n with
  | zero =>
    intro es s s' h hpc hlen hes
    obtain ⟨t, u, es', hgrown, hstep, hrun, hrest⟩ := run_first h hes
    refine hgrown.recovered ?_
    obtain ⟨hpc', hproc', -⟩ := hgrown
    obtain ⟨u', hstep', ⟨hnil, hidle, hnil', hqueue⟩ | ⟨init, item, hproc, -⟩⟩ :=
      recover_step hs (hpc'.trans hpc)
    · obtain rfl : u = u' := Option.some.inj (hstep.symm.trans hstep')
      obtain ⟨hpc'', hproc'', newer, hqueue'⟩ := run_grown hrest hrun
      exact ⟨hpc''.trans hidle, hproc''.trans hnil', newer, by rw [hqueue', hqueue, hnil, List.nil_append]⟩
    · rw [← hproc', hproc, List.length_append, List.length_singleton] at hlen
      cases hlen
  | succ n ih =>
    intro es s s' h hpc hlen hes
    obtain ⟨t, u, es', hgrown, hstep, hrun, hrest⟩ := run_first h hes
    refine hgrown.recovered ?_
    obtain ⟨hpc', hproc', -⟩ := hgrown
    obtain ⟨u', hstep', ⟨hnil, -⟩ | ⟨init, item, hproc, hrec, hinit, hqueue⟩⟩ :=
      recover_step hs (hpc'.trans hpc)
    · rw [← hproc', hnil] at hlen
      cases hlen
    · obtain rfl : u = u' := Option.some.inj (hstep.symm.trans hstep')
      rw [← hproc', hproc, List.length_append, List.length_singleton, ← hinit] at hlen
      obtain ⟨hidle, hnil, newer, hall⟩ := ih hrun hrec (Nat.succ.inj hlen) hrest
      refine ⟨hidle, hnil, newer, ?_⟩
      rw [hall, hinit, hqueue, hproc]
      simp only [List.append_assoc, List.singleton_append]

variable (hs) in
/-- Alone, a consumer gets through its recovery. -/
theorem recover_alone {q : ResultQueue} {n : ℕ} : ∀ {s : State σ H R}, (s.lanes q).pc = .recovering →
    (s.lanes q).processing.length = n →
    ∃ s', Machine.run (Queue.step hs) (List.replicate (n + 1) (.act q .recover)) s = some s' := by
  induction n with
  | zero =>
    intro s hpc _
    obtain ⟨t, ht, -⟩ := recover_step hs hpc
    exact ⟨t, Machine.run_cons.2 ⟨t, ht, rfl⟩⟩
  | succ n ih =>
    intro s hpc hlen
    obtain ⟨t, ht, ⟨hproc, -⟩ | ⟨init, item, hproc, hpc', hproc', -⟩⟩ := recover_step hs hpc
    · rw [hproc] at hlen
      cases hlen
    · rw [hproc, List.length_append, List.length_singleton, ← hproc'] at hlen
      obtain ⟨s', hs'⟩ := ih hpc' (Nat.succ.inj hlen)
      exact ⟨s', Machine.run_cons.2 ⟨t, ht, hs'⟩⟩

/-- A consumer that is stopped starts again. -/
theorem start_step {q : ResultQueue} (hpc : (s.lanes q).pc = .stopped) :
    Queue.step hs (.act q .start) s = some (s.setLane q { s.lanes q with pc := .recovering }) := by
  simp [Queue.step, act, hpc]

theorem restart_run {q : ResultQueue} {es : List (Event O R)}
    (h : Machine.run (Queue.step hs) es s = some s') (hpc : (s.lanes q).pc = .stopped)
    (hes : es.filter (·.consumes q) = restart q (s.lanes q).processing.length) :
    (s.lanes q).Recovered (s'.lanes q) := by
  obtain ⟨t, u, es', hgrown, hstep, hrun, hrest⟩ := run_first h hes
  refine hgrown.recovered ?_
  obtain ⟨hpc', hproc', -⟩ := hgrown
  rw [start_step (hpc'.trans hpc)] at hstep
  cases hstep
  have hself : (t.setLane q { t.lanes q with pc := .recovering }).lanes q =
      { t.lanes q with pc := .recovering } := Function.update_self ..
  have hrec := recover_run (q := q) hrun (by rw [hself]) (by rw [hself, hproc']) hrest
  rwa [hself] at hrec

theorem restart_alone {q : ResultQueue} (hpc : (s.lanes q).pc = .stopped) :
    ∃ s', Machine.run (Queue.step hs) (restart q (s.lanes q).processing.length) s = some s' := by
  have hself : (s.setLane q { s.lanes q with pc := .recovering }).lanes q =
      { s.lanes q with pc := .recovering } := Function.update_self ..
  obtain ⟨s', hs'⟩ := recover_alone hs (q := q)
    (s := s.setLane q { s.lanes q with pc := .recovering }) (by rw [hself]) (by rw [hself])
  exact ⟨s', Machine.run_cons.2 ⟨_, start_step hpc, hs'⟩⟩

/-! ## All of it -/

/-- What holds of the queues at a moment of a run. -/
structure Guarantees (hs : Handlers σ H O R) (s : State σ H R) : Prop where
  /-- what was pushed and not acknowledged is there, in the order it was pushed -/
  kept : ∀ q, (s.lanes q).processing ++ (s.lanes q).queue =
    (numbered (s.lanes q).arrivals).drop (s.lanes q).acked
  /-- what was acknowledged was handled, or given up -/
  attempted : ∀ q n, n < (s.lanes q).acked → 0 < (s.lanes q).invoked n ∨ 0 < (s.lanes q).closed n
  /-- a message leaves `:processing` by recovery, or after an attempt -/
  leaves : ∀ e s' q item, step hs e s = some s' → item ∈ (s.lanes q).processing →
    item ∉ (s'.lanes q).processing →
      (e = .act q .recover ∧ (s'.lanes q).queue = item :: (s.lanes q).queue) ∨
        0 < (s.lanes q).invoked item.seq ∨ 0 < (s.lanes q).closed item.seq
  /-- the handler is called so often at most for a message -/
  bounded : ∀ q n, (s.lanes q).invoked n ≤ maxAttempts
  /-- a consumer that has stopped, wherever it was, gets through its recovery; and when it has,
      whatever the others did meanwhile, it is idle, nothing is left in `:processing`, and what
      was interrupted is ahead of all else in the queue, in order -/
  recovery : ∀ q, (s.lanes q).pc = .stopped →
    (∃ s', Machine.run (step hs) (restart q (s.lanes q).processing.length) s = some s') ∧
    ∀ es s', Machine.run (step hs) es s = some s' →
      es.filter (·.consumes q) = restart q (s.lanes q).processing.length →
      (s.lanes q).Recovered (s'.lanes q)
  /-- a payload is there as long as a queue named in its set holds a message for it -/
  payload : ∀ q key, q ∈ s.pending key →
    (∃ item ∈ (s.lanes q).processing ++ (s.lanes q).queue, ∃ message,
      item.raw = .envelope message ∧ message.resultKey = some key) → s.payload key ≠ none

theorem Reliable.leaves (h : Reliable s) {e : Event O R} {q : ResultQueue} {item : Item R}
    (hstep : Queue.step hs e s = some s') (hin : item ∈ (s.lanes q).processing)
    (hout : item ∉ (s'.lanes q).processing) :
    (e = .act q .recover ∧ (s'.lanes q).queue = item :: (s.lanes q).queue) ∨
      0 < (s.lanes q).invoked item.seq ∨ 0 < (s.lanes q).closed item.seq := by
  -- a step that sets a lane without touching `:processing` takes nothing away
  have hstays : ∀ {q' : ResultQueue} {l : Lane H R}, l.processing = (s.lanes q').processing →
      item ∈ ((s.setLane q' l).lanes q).processing := by
    intro q' l hl
    show item ∈ (Function.update s.lanes q' l q).processing
    by_cases hq : q = q'
    · rwa [hq, Function.update_self, hl, ← hq]
    · rwa [Function.update_of_ne hq]
  cases e with
  | store key blob queues =>
    simp only [Queue.step] at hstep
    split_ifs at hstep
    cases hstep
    exact absurd hin hout
  | push q' raw =>
    simp only [Queue.step] at hstep
    split_ifs at hstep
    cases hstep
    exact (hout (hstays rfl)).elim
  | outside o =>
    cases hstep
    exact absurd hin hout
  | crash q' =>
    cases hstep
    exact (hout (hstays rfl)).elim
  | evict key =>
    cases hstep
    exact absurd hin hout
  | forget q' key =>
    cases hstep
    exact (hout (hstays rfl)).elim
  | act q' a =>
    have hacts := act_cases hstep
    by_cases hq : q' = q
    · subst hq
      refine (hacts.leaves (h.placed q') (h.counts q') hin hout).imp (fun hrec => ⟨?_, hrec.2⟩) id
      rw [act_recovering hrec.1 hstep]
    · rw [hacts.other (Ne.symm hq)] at hout
      exact absurd hin hout

end

/-- **The result queues lose nothing and never redeliver for ever**: in every state
    of every run of worker, consumers and deaths, whatever the handlers do. -/
theorem queues_reliable [DecidableEq R] (hs : Handlers σ H O R) (world : σ) (es : List (Event O R))
    (hes : ∀ e ∈ es, e.isExpiry = false) (s : State σ H R)
    (h : Machine.run (Queue.step hs) es (State.initial world) = some s) : Guarantees hs s := by
  have hr := run_reliable hes h
  refine ⟨fun q => (hr.placed q).window, fun q => (hr.counts q).attempted, ?_,
    fun q => (hr.counts q).bounded, fun q hpc => ⟨restart_alone hpc, fun es s' h => restart_run h hpc⟩, ?_⟩
  · intro e s' q item hstep hin hout
    exact hr.leaves hstep hin hout
  · intro q key hq _
    exact hr.shared.payload key (List.ne_nil_of_mem hq)

/-- Handlers that do nothing. -/
def sampleHandlers : Handlers Unit Unit Unit Bool where
  begin _ _ _ := ()
  next _ _ world := (world, .returned)
  onLost _ _ world := world
  outside _ world := world

/-- A consumer dies after counting its first attempt, and another message arrives. -/
def interruptedRun : List (Event Unit Bool) :=
  ([.store "result:7" (some true) [.results, .nostrResults],
    .push .results (.envelope ⟨7, some "result:7", none⟩)] : List (Event Unit Bool)) ++
  ([.start, .recover, .take, .decode, .count true true] : List Act).map (.act .results) ++
  [.crash .results, .push .results (.envelope ⟨8, none, some true⟩)]

/-- It starts again while a third message arrives and another consumer starts. -/
def recoveredRun : List (Event Unit Bool) :=
  [.act .results .start, .act .results .recover, .act .nostrResults .start,
    .push .results (.envelope ⟨9, none, some true⟩), .act .results .recover]

theorem interruptedRun_reliable : ∃ s s', Machine.run (Queue.step sampleHandlers) interruptedRun
    (State.initial ()) = some s ∧ Guarantees sampleHandlers s ∧
    (s.lanes .results).processing.map (·.seq) = [0] ∧
    Machine.run (Queue.step sampleHandlers) recoveredRun s = some s' ∧
    (s.lanes .results).Recovered (s'.lanes .results) ∧
    (s'.lanes .results).queue.map (·.seq) = [0, 1, 2] := by
  have hrun : (Machine.run (Queue.step sampleHandlers) interruptedRun (State.initial ())).map
      (fun s => ((s.lanes .results).pc, (s.lanes .results).processing.map (·.seq))) =
      some (.stopped, [0]) := by rfl
  have hrun' : ((Machine.run (Queue.step sampleHandlers) interruptedRun (State.initial ())).bind
      (Machine.run (Queue.step sampleHandlers) recoveredRun)).map
      (fun s => (s.lanes .results).queue.map (·.seq)) = some [0, 1, 2] := by rfl
  obtain ⟨s, hs, hsum⟩ := Option.map_eq_some_iff.1 hrun
  rw [Prod.mk.injEq] at hsum
  obtain ⟨hpc, hprocessing⟩ := hsum
  rw [hs, Option.bind_some] at hrun'
  obtain ⟨s', hs', hqueue⟩ := Option.map_eq_some_iff.1 hrun'
  have hall := queues_reliable sampleHandlers () interruptedRun (by decide) s hs
  have hlen : (s.lanes .results).processing.length = 1 := by
    rw [← List.length_map (f := (·.seq)), hprocessing]
    rfl
  have hrecovered := (hall.recovery .results hpc).2 recoveredRun s' hs' (by rw [hlen]; rfl)
  exact ⟨s, s', hs, hall, hprocessing, hs', hrecovered, hqueue⟩

end Queue

end BrainstormServer
