/-
  Support transactions, interleaved.

  A request is a transaction: it starts, has its entitlement checked where the
  operation requires one, executes once it holds the lock of its ticket (a filing
  holds the advisory lock of its user), and commits.  What it has written is pending
  until then.  The sweep of old diagnostics is one `UPDATE` that reaches its rows one
  after another and waits for each.

  * `step`: one event of the system, `none` where a session has to wait;
  * `Store.Sound`: the committed rows, and what each pending draft will make of them;
  * `Store.Sound.settle`: committing one draft; `Store.Sound.commit`: a transaction;
  * `ticket_consistent`: in every reachable state every ticket agrees with its
    history.
-/
import BrainstormServer.Conc.Machine
import BrainstormServer.Support.Ticket
import Mathlib.Algebra.GroupWithZero.Nat
import Mathlib.Data.List.Pairwise

namespace BrainstormServer

namespace Support

open Conc

/-! ## The system -/

structure Settings where
  supportMaxOpenTickets : ℕ
  /-- PostgreSQL's `hashtext`. -/
  hashtext : String → ℤ
  whitelistedPubkeys : List String

/-- The rows a transaction has written to one ticket, with the advisory lock it holds. -/
structure Pending (S : Type) where
  session : S
  filing : Option ℤ
  now : Timestamp
  draft : Draft

def Pending.id {S : Type} (p : Pending S) : ℕ := p.draft.ticket.id

/-- The committed rows, the sequences, and what is written but not committed. -/
structure Store (S : Type) where
  db : Db
  nextTicket : ℕ
  nextMessage : ℕ
  nextEvent : ℕ
  pending : List (Pending S)

inductive Phase
  | idle
  | started (op : Operation) (now : Timestamp)
  | entitled (op : Operation) (now : Timestamp)
  | executed
  /-- The sweep, with the rows of its snapshot that it has not reached. -/
  | sweeping (now cutoff : Timestamp) (todo : List ℕ)

structure State (S : Type) where
  store : Store S
  phase : S → Phase

/-- No tickets and no transactions. -/
def initial (S : Type) : State S := ⟨⟨⟨[], [], []⟩, 1, 1, 1, []⟩, fun _ => .idle⟩

inductive Event (S : Type)
  | start (s : S) (op : Operation) (now : Timestamp)
  /-- `require_entitled_to_support`; `policy` is the user's policy, if there is one, and
      says whether support is included. -/
  | check (s : S) (policy : Option Bool)
  | execute (s : S) (utcNow : Timestamp)
  | sweep (s : S) (now cutoff : Timestamp)
  | clear (s : S)
  | commit (s : S)
  | rollback (s : S)

def isEntitledToSupport (settings : Settings) (pubkey : String) (policy : Option Bool) : Bool :=
  pubkey ∈ settings.whitelistedPubkeys ∨ policy = some true

/-- `UPDATE support_ticket`, with `updated_at = now()`, where the row has changed. -/
def Draft.flush (d : Draft) (db : Db) (now : Timestamp) : Draft :=
  match lockSupportTicket db d.ticket.id with
  | none => d
  | some ticket =>
    if d.ticket = ticket then d else { d with ticket := { d.ticket with updatedAt := now } }

/-- The rows of a draft become visible. -/
def Db.commit (db : Db) (d : Draft) : Db where
  tickets :=
    if db.tickets.any fun t => t.id = d.ticket.id then
      db.tickets.map fun t => if t.id = d.ticket.id then d.ticket else t
    else db.tickets ++ [d.ticket]
  messages := db.messages ++ d.messages
  events := db.events ++ d.events

section
variable {S : Type} [DecidableEq S]

/-- Whether a transaction holds the ticket. -/
def Store.locked (st : Store S) (ticketId : ℕ) : Bool := st.pending.any fun p => p.id = ticketId

/-- `pg_advisory_xact_lock(hashtext(pubkey))`. -/
def Operation.filing (settings : Settings) : Operation → Option ℤ
  | .createTicket pubkey _ _ _ _ _ => some (settings.hashtext pubkey)
  | _ => none

/-- Whether an operation has to wait for a lock. -/
def Store.busy (settings : Settings) (st : Store S) (op : Operation) : Bool :=
  (∃ id ∈ op.ticketId, st.locked id = true) ∨
    ∃ key ∈ op.filing settings, ∃ p ∈ st.pending, p.filing = some key

/-- The rows an operation has written. -/
def Store.push (st : Store S) (p : Pending S) : Store S where
  db := st.db
  nextTicket := if p.filing.isSome then st.nextTicket + 1 else st.nextTicket
  nextMessage := st.nextMessage + p.draft.messages.length
  nextEvent := st.nextEvent + p.draft.events.length
  pending := p :: st.pending

def Store.tx (st : Store S) (now utcNow : Timestamp) : Tx :=
  ⟨now, utcNow, st.nextTicket, st.nextMessage, st.nextEvent⟩

/-- The statements of an operation from its lock on; a refusal ends the transaction. -/
def execute (settings : Settings) (st : State S) (s : S) (op : Operation) (now utcNow : Timestamp) :
    Option (State S) :=
  if st.store.busy settings op then none
  else match op.draft (st.store.tx now utcNow) st.store.db settings.supportMaxOpenTickets with
    | .error _ => some { st with phase := Function.update st.phase s .idle }
    | .ok d => some
      { store := st.store.push ⟨s, op.filing settings, now, d.flush st.store.db now⟩
        phase := Function.update st.phase s .executed }

/-- Whether `clear_expired_support_diagnostics_on_db` takes a row. -/
def SupportTicket.expired (t : SupportTicket) (cutoff : Timestamp) : Bool :=
  t.createdAt < cutoff ∧ t.diagnostics.isSome

/-- The sweep reaches a row, waits for it and looks at it again. -/
def clear (st : State S) (s : S) (now cutoff : Timestamp) (id : ℕ) (todo : List ℕ) : Option (State S) :=
  if st.store.locked id then none
  else
    let phase := Function.update st.phase s (.sweeping now cutoff todo)
    match lockSupportTicket st.store.db id with
    | none => some { st with phase := phase }
    | some t =>
      if t.expired cutoff then some
        { store := st.store.push ⟨s, none, now, .of { t with diagnostics := none, updatedAt := now }⟩
          phase := phase }
      else some { st with phase := phase }

/-- The drafts of `s`; no two of them are of one ticket. -/
def commitAll (s : S) : List (Pending S) → Db → Db
  | [], db => db
  | p :: ps, db => commitAll s ps (if p.session = s then db.commit p.draft else db)

def Store.commit (st : Store S) (s : S) : Store S :=
  { st with db := commitAll s st.pending st.db
            pending := st.pending.filter fun p => p.session ≠ s }

def Store.rollback (st : Store S) (s : S) : Store S :=
  { st with pending := st.pending.filter fun p => p.session ≠ s }

/-- One event; `none` where it cannot happen now. -/
def step (settings : Settings) : Event S → State S → Option (State S)
  | .start s op now, st =>
    match st.phase s with
    | .idle => some { st with phase := Function.update st.phase s (.started op now) }
    | _ => none
  | .check s policy, st =>
    match st.phase s with
    | .started op now =>
      match op.requires with
      | none => none
      | some pubkey =>
        if isEntitledToSupport settings pubkey policy then
          some { st with phase := Function.update st.phase s (.entitled op now) }
        else some { st with phase := Function.update st.phase s .idle }
    | _ => none
  | .execute s utcNow, st =>
    match st.phase s with
    | .started op now => if op.requires.isSome then none else execute settings st s op now utcNow
    | .entitled op now => execute settings st s op now utcNow
    | _ => none
  | .sweep s now cutoff, st =>
    match st.phase s with
    | .idle => some { st with phase := Function.update st.phase s (.sweeping now cutoff
        ((st.store.db.tickets.filter (·.expired cutoff)).map SupportTicket.id)) }
    | _ => none
  | .clear s, st =>
    match st.phase s with
    | .sweeping now cutoff (id :: todo) => clear st s now cutoff id todo
    | _ => none
  | .commit s, st =>
    match st.phase s with
    | .executed => some ⟨st.store.commit s, Function.update st.phase s .idle⟩
    | .sweeping _ _ [] => some ⟨st.store.commit s, Function.update st.phase s .idle⟩
    | _ => none
  | .rollback s, st => some ⟨st.store.rollback s, Function.update st.phase s .idle⟩

/-- What an event does to the rows: nothing, one more draft, a commit or a rollback. -/
inductive Change (settings : Settings) (st : Store S) : Event S → Store S → Prop
  | none (e : Event S) : Change settings st e st
  | execute (s : S) (op : Operation) (now utcNow : Timestamp) (d : Draft)
    (hbusy : st.busy settings op = false)
    (hd : op.draft (st.tx now utcNow) st.db settings.supportMaxOpenTickets = .ok d) :
    Change settings st (.execute s utcNow) (st.push ⟨s, op.filing settings, now, d.flush st.db now⟩)
  | clear (s : S) (now : Timestamp) (t : SupportTicket) (ht : t ∈ st.db.tickets)
    (hlocked : st.locked t.id = false) :
    Change settings st (.clear s)
      (st.push ⟨s, .none, now, .of { t with diagnostics := .none, updatedAt := now }⟩)
  | commit (s : S) : Change settings st (.commit s) (st.commit s)
  | rollback (s : S) : Change settings st (.rollback s) (st.rollback s)

theorem lockSupportTicket_some {db : Db} {id : ℕ} {t : SupportTicket}
    (h : lockSupportTicket db id = some t) : t ∈ db.tickets ∧ t.id = id :=
  ⟨List.mem_of_find?_eq_some h, by simpa using List.find?_some h⟩

theorem execute_change {settings : Settings} {st st' : State S} {s : S} {op : Operation}
    {now utcNow : Timestamp} (h : execute settings st s op now utcNow = some st') :
    Change settings st.store (.execute s utcNow) st'.store := by
  unfold execute at h
  split_ifs at h with hbusy
  split at h
  · cases h
    exact .none _
  · rename_i d hd
    cases h
    exact .execute s op now utcNow d (by simpa using hbusy) hd

theorem clear_change {settings : Settings} {st st' : State S} {s : S} {now cutoff : Timestamp} {id : ℕ}
    {todo : List ℕ} (h : clear st s now cutoff id todo = some st') :
    Change settings st.store (.clear s) st'.store := by
  unfold clear at h
  split_ifs at h with hlocked
  dsimp only at h
  split at h
  · cases h
    exact .none _
  · rename_i t ht
    obtain ⟨hmem, rfl⟩ := lockSupportTicket_some ht
    split_ifs at h
    · cases h
      exact .clear s now t hmem (by simpa using hlocked)
    · cases h
      exact .none _

theorem step_change {settings : Settings} {e : Event S} {st st' : State S}
    (h : step settings e st = some st') : Change settings st.store e st'.store := by
  cases e with
  | start s op now =>
    simp only [step] at h
    split at h
    · cases h
      exact .none _
    · cases h
  | check s policy =>
    simp only [step] at h
    split at h
    · split at h
      · cases h
      · split_ifs at h
        · cases h
          exact .none _
        · cases h
          exact .none _
    · cases h
  | execute s utcNow =>
    simp only [step] at h
    split at h
    · split_ifs at h
      exact execute_change h
    · exact execute_change h
    · cases h
  | sweep s now cutoff =>
    simp only [step] at h
    split at h
    · cases h
      exact .none _
    · cases h
  | clear s =>
    simp only [step] at h
    split at h
    · exact clear_change h
    · cases h
  | commit s =>
    simp only [step] at h
    split at h
    · cases h
      exact .commit s
    · cases h
      exact .commit s
    · cases h
  | rollback s =>
    cases h
    exact .rollback s

/-! ## The rows of a ticket -/

def messagesOf (db : Db) (ticketId : ℕ) : List SupportMessage :=
  db.messages.filter fun m => m.ticketId = ticketId

def eventsOf (db : Db) (ticketId : ℕ) : List SupportEvent :=
  db.events.filter fun e => e.ticketId = ticketId

/-- `select_support_messages_on_db`: `ORDER BY id`. -/
def selectSupportMessages (db : Db) (ticketId : ℕ) : List SupportMessage :=
  (messagesOf db ticketId).insertionSort fun m m' => m.id ≤ m'.id

/-- `select_support_events_on_db`. -/
def selectSupportEvents (db : Db) (ticketId : ℕ) : List SupportEvent :=
  (eventsOf db ticketId).insertionSort fun e e' => e.id ≤ e'.id

/-- A ticket with its rows in the order of their numbers, all of them taken from the
    sequences. -/
structure Told (nextMessage nextEvent : ℕ) (ticket : SupportTicket) (messages : List SupportMessage)
    (events : List SupportEvent) : Prop where
  consistent : Consistent ticket messages events
  messageOrder : messages.Pairwise fun m m' => m.id < m'.id
  messageBelow : ∀ m ∈ messages, m.id < nextMessage
  eventOrder : events.Pairwise fun e e' => e.id < e'.id
  eventBelow : ∀ e ∈ events, e.id < nextEvent

/-- What a pending draft is made of: a new ticket, or the row that it holds. -/
structure Pending.Fits (p : Pending S) (db : Db) : Prop where
  messageOf : ∀ m ∈ p.draft.messages, m.ticketId = p.id
  eventOf : ∀ e ∈ p.draft.events, e.ticketId = p.id
  new : p.filing.isSome → ∀ t ∈ db.tickets, t.id ≠ p.id
  held : p.filing = none → ∃ t ∈ db.tickets, t.id = p.id ∧ t.pubkey = p.draft.ticket.pubkey ∧
    (p.draft.ticket = t ∨ p.draft.ticket.updatedAt = p.now)

/-- The invariant: every ticket agrees with its rows, and will when a draft commits;
    no ticket is in two drafts. -/
structure Store.Sound (st : Store S) : Prop where
  nodup : (st.db.tickets.map SupportTicket.id).Nodup
  below : ∀ t ∈ st.db.tickets, t.id < st.nextTicket
  messageOf : ∀ m ∈ st.db.messages, ∃ t ∈ st.db.tickets, t.id = m.ticketId
  eventOf : ∀ e ∈ st.db.events, ∃ t ∈ st.db.tickets, t.id = e.ticketId
  rows : ∀ t ∈ st.db.tickets, Told st.nextMessage st.nextEvent t (messagesOf st.db t.id) (eventsOf st.db t.id)
  locks : (st.pending.map Pending.id).Nodup
  pendingBelow : ∀ p ∈ st.pending, p.id < st.nextTicket
  fits : ∀ p ∈ st.pending, p.Fits st.db
  drafts : ∀ p ∈ st.pending, Told st.nextMessage st.nextEvent p.draft.ticket
    (messagesOf st.db p.id ++ p.draft.messages) (eventsOf st.db p.id ++ p.draft.events)

/-! ## Committing -/

section
variable {db : Db} {d : Draft}

theorem any_id {db : Db} {id : ℕ} :
    (db.tickets.any fun t => t.id = id) = true ↔ ∃ t ∈ db.tickets, t.id = id := by
  simp

/-- The tickets after a commit. -/
theorem mem_commit {t : SupportTicket} : t ∈ (db.commit d).tickets ↔
    t = d.ticket ∨ (t ∈ db.tickets ∧ t.id ≠ d.ticket.id) := by
  unfold Db.commit
  split_ifs with hold
  · obtain ⟨old, hmem, hid⟩ := any_id.1 hold
    rw [List.mem_map]
    constructor
    · rintro ⟨t', ht', rfl⟩
      split_ifs with h
      · exact .inl rfl
      · exact .inr ⟨ht', h⟩
    · rintro (rfl | ⟨ht, hne⟩)
      · exact ⟨old, hmem, if_pos hid⟩
      · exact ⟨t, ht, if_neg hne⟩
  · have hnew : ∀ t ∈ db.tickets, t.id ≠ d.ticket.id := fun t ht hid => hold (any_id.2 ⟨t, ht, hid⟩)
    rw [List.mem_append, List.mem_singleton]
    constructor
    · rintro (ht | rfl)
      · exact .inr ⟨ht, hnew t ht⟩
      · exact .inl rfl
    · rintro (rfl | ⟨ht, -⟩)
      · exact .inr rfl
      · exact .inl ht

/-- A commit replaces the row it has locked. -/
theorem tickets_commit_held (hn : (db.tickets.map SupportTicket.id).Nodup) {as bs : List SupportTicket}
    {t : SupportTicket} (hsplit : db.tickets = as ++ t :: bs) (hid : t.id = d.ticket.id) :
    (db.commit d).tickets = as ++ d.ticket :: bs := by
  rw [hsplit, List.map_append, List.map_cons] at hn
  have hnot := (List.nodup_cons.1 (List.nodup_middle.1 hn)).1
  rw [hid, ← List.map_append] at hnot
  have hother : ∀ l : List SupportTicket, (∀ x ∈ l, x ∈ as ++ bs) →
      (l.map fun x => if x.id = d.ticket.id then d.ticket else x) = l := by
    intro l hl
    refine (List.map_congr_left fun x hx => if_neg fun heq => hnot ?_).trans (List.map_id' l)
    rw [← heq]
    exact List.mem_map_of_mem (hl x hx)
  unfold Db.commit
  rw [if_pos (any_id.2 ⟨t, by rw [hsplit]; simp, hid⟩), hsplit, List.map_append, List.map_cons, if_pos hid,
    hother as fun x hx => List.mem_append_left _ hx, hother bs fun x hx => List.mem_append_right _ hx]

theorem tickets_commit_new (h : ∀ t ∈ db.tickets, t.id ≠ d.ticket.id) :
    (db.commit d).tickets = db.tickets ++ [d.ticket] := by
  unfold Db.commit
  rw [if_neg fun hany => ?_]
  obtain ⟨t, ht, hid⟩ := any_id.1 hany
  exact h t ht hid

theorem ids_commit : (db.commit d).tickets.map SupportTicket.id =
    if db.tickets.any fun t => t.id = d.ticket.id then db.tickets.map SupportTicket.id
    else db.tickets.map SupportTicket.id ++ [d.ticket.id] := by
  unfold Db.commit
  split_ifs with hold
  · rw [List.map_map]
    refine List.map_congr_left fun t _ => ?_
    simp only [Function.comp_apply]
    split_ifs with h
    · exact h.symm
    · rfl
  · rw [List.map_append, List.map_singleton]

theorem nodup_commit (h : (db.tickets.map SupportTicket.id).Nodup) :
    ((db.commit d).tickets.map SupportTicket.id).Nodup := by
  rw [ids_commit]
  split_ifs with hold
  · exact h
  · refine List.nodup_append.2 ⟨h, List.nodup_singleton _, ?_⟩
    rintro id hid id' hid' rfl
    obtain ⟨t, ht, heq⟩ := List.mem_map.1 hid
    exact hold (any_id.2 ⟨t, ht, heq.trans (List.mem_singleton.1 hid')⟩)

/-- The old ids stay. -/
theorem id_mem_commit {t : SupportTicket} (h : t ∈ db.tickets) :
    ∃ t' ∈ (db.commit d).tickets, t'.id = t.id := by
  by_cases hid : t.id = d.ticket.id
  · exact ⟨d.ticket, mem_commit.2 (.inl rfl), hid.symm⟩
  · exact ⟨t, mem_commit.2 (.inr ⟨h, hid⟩), rfl⟩

theorem messagesOf_commit (h : ∀ m ∈ d.messages, m.ticketId = d.ticket.id) (id : ℕ) :
    messagesOf (db.commit d) id = messagesOf db id ++ if id = d.ticket.id then d.messages else [] := by
  unfold messagesOf Db.commit
  rw [List.filter_append]
  congr 1
  split_ifs with hid
  · refine List.filter_eq_self.2 fun m hm => ?_
    simpa [hid] using h m hm
  · refine List.filter_eq_nil_iff.2 fun m hm => ?_
    simpa [h m hm] using Ne.symm hid

theorem eventsOf_commit (h : ∀ e ∈ d.events, e.ticketId = d.ticket.id) (id : ℕ) :
    eventsOf (db.commit d) id = eventsOf db id ++ if id = d.ticket.id then d.events else [] := by
  unfold eventsOf Db.commit
  rw [List.filter_append]
  congr 1
  split_ifs with hid
  · refine List.filter_eq_self.2 fun e he => ?_
    simpa [hid] using h e he
  · refine List.filter_eq_nil_iff.2 fun e he => ?_
    simpa [h e he] using Ne.symm hid

end

omit [DecidableEq S] in
/-- A draft of another ticket fits as before. -/
theorem Pending.Fits.commit {p q : Pending S} {db : Db} (h : q.Fits db) (hne : q.id ≠ p.id) :
    q.Fits (db.commit p.draft) where
  messageOf := h.messageOf
  eventOf := h.eventOf
  new hq t ht := by
    rcases mem_commit.1 ht with rfl | ⟨ht, -⟩
    · exact Ne.symm hne
    · exact h.new hq t ht
  held hq := by
    obtain ⟨t, ht, hid, hkey⟩ := h.held hq
    exact ⟨t, mem_commit.2 (.inr ⟨ht, fun heq => hne (hid.symm.trans heq)⟩), hid, hkey⟩

omit [DecidableEq S] in
/-- No ticket is in two drafts. -/
theorem Store.Sound.apart {st : Store S} {qs ps : List (Pending S)} {p : Pending S} (h : st.Sound)
    (hpending : st.pending = qs ++ p :: ps) : ∀ q ∈ qs ++ ps, q.id ≠ p.id := by
  have hlocks := h.locks
  rw [hpending, List.map_append, List.map_cons] at hlocks
  obtain ⟨hnot, -⟩ := List.nodup_cons.1 (List.nodup_middle.1 hlocks)
  intro q hq heq
  rw [← List.map_append, ← heq] at hnot
  exact hnot (List.mem_map_of_mem hq)

omit [DecidableEq S] in
/-- **One draft is committed.**  The lock is what keeps the other drafts right. -/
theorem Store.Sound.settle (st : Store S) {qs ps : List (Pending S)} {p : Pending S}
    (h : Store.Sound { st with pending := qs ++ p :: ps }) :
    Store.Sound { st with db := st.db.commit p.draft, pending := qs ++ ps } := by
  have hp : p ∈ qs ++ p :: ps := by simp
  have hfits := h.fits p hp
  have hsub : ∀ q ∈ qs ++ ps, q ∈ qs ++ p :: ps ∧ q.id ≠ p.id := by
    intro q hq
    refine ⟨?_, h.apart rfl q hq⟩
    simp only [List.mem_append, List.mem_cons] at hq ⊢
    tauto
  refine ⟨nodup_commit h.nodup, ?_, ?_, ?_, ?_, ?_, fun q hq => h.pendingBelow q (hsub q hq).1,
    fun q hq => (h.fits q (hsub q hq).1).commit (hsub q hq).2, ?_⟩
  · intro t ht
    rcases mem_commit.1 ht with rfl | ⟨ht, -⟩
    · exact h.pendingBelow p hp
    · exact h.below t ht
  · intro m hm
    rcases List.mem_append.1 hm with hm | hm
    · obtain ⟨t, ht, hid⟩ := h.messageOf m hm
      obtain ⟨t', ht', hid'⟩ := id_mem_commit ht
      exact ⟨t', ht', hid'.trans hid⟩
    · exact ⟨p.draft.ticket, mem_commit.2 (.inl rfl), (hfits.messageOf m hm).symm⟩
  · intro e he
    rcases List.mem_append.1 he with he | he
    · obtain ⟨t, ht, hid⟩ := h.eventOf e he
      obtain ⟨t', ht', hid'⟩ := id_mem_commit ht
      exact ⟨t', ht', hid'.trans hid⟩
    · exact ⟨p.draft.ticket, mem_commit.2 (.inl rfl), (hfits.eventOf e he).symm⟩
  · intro t ht
    dsimp only
    rw [messagesOf_commit hfits.messageOf, eventsOf_commit hfits.eventOf]
    rcases mem_commit.1 ht with rfl | ⟨ht, hne⟩
    · rw [if_pos rfl, if_pos rfl]
      exact h.drafts p hp
    · rw [if_neg hne, if_neg hne, List.append_nil, List.append_nil]
      exact h.rows t ht
  · have hlocks := h.locks
    dsimp only at hlocks ⊢
    rw [List.map_append, List.map_cons] at hlocks
    rw [List.map_append]
    exact (List.nodup_cons.1 (List.nodup_middle.1 hlocks)).2
  · intro q hq
    dsimp only
    have hne : q.id ≠ p.draft.ticket.id := (hsub q hq).2
    rw [messagesOf_commit hfits.messageOf, eventsOf_commit hfits.eventOf, if_neg hne, if_neg hne,
      List.append_nil, List.append_nil]
    exact h.drafts q (hsub q hq).1

/-- The drafts of one session, committed. -/
theorem Store.Sound.commitAll (st : Store S) (s : S) : ∀ (ps qs : List (Pending S)) {db : Db},
    Store.Sound { st with db := db, pending := qs ++ ps } →
      Store.Sound { st with db := Support.commitAll s ps db,
                            pending := qs ++ ps.filter fun p => p.session ≠ s } := by
  intro ps
  induction ps with
  | nil =>
    intro qs db h
    exact h
  | cons p ps ih =>
    intro qs db h
    rw [Support.commitAll]
    by_cases hs : p.session = s
    · rw [if_pos hs, List.filter_cons_of_neg (by simpa using hs)]
      exact ih qs (Store.Sound.settle { st with db := db } h)
    · rw [if_neg hs, List.filter_cons_of_pos (by simpa using hs), List.append_cons]
      exact ih _ (by rwa [List.append_cons] at h)

theorem Store.Sound.commit {st : Store S} (h : st.Sound) (s : S) : (st.commit s).Sound :=
  Store.Sound.commitAll st s st.pending [] h

theorem Store.Sound.rollback {st : Store S} (h : st.Sound) (s : S) : (st.rollback s).Sound where
  nodup := h.nodup
  below := h.below
  messageOf := h.messageOf
  eventOf := h.eventOf
  rows := h.rows
  locks := h.locks.sublist (List.filter_sublist.map _)
  pendingBelow p hp := h.pendingBelow p (List.mem_of_mem_filter hp)
  fits p hp := h.fits p (List.mem_of_mem_filter hp)
  drafts p hp := h.drafts p (List.mem_of_mem_filter hp)

/-! ## Executing -/

theorem Told.mono {nm ne nm' ne' : ℕ} {ticket : SupportTicket} {messages : List SupportMessage}
    {events : List SupportEvent} (h : Told nm ne ticket messages events) (hm : nm ≤ nm') (he : ne ≤ ne') :
    Told nm' ne' ticket messages events where
  consistent := h.consistent
  messageOrder := h.messageOrder
  messageBelow m hmem := lt_of_lt_of_le (h.messageBelow m hmem) hm
  eventOrder := h.eventOrder
  eventBelow e hmem := lt_of_lt_of_le (h.eventBelow e hmem) he

/-- The history of a ticket is about four of its columns. -/
theorem Told.retouch {nm ne : ℕ} {ticket ticket' : SupportTicket} {messages : List SupportMessage}
    {events : List SupportEvent} (h : Told nm ne ticket messages events)
    (hstatus : ticket'.status = ticket.status) (hclosed : ticket'.closedAt = ticket.closedAt)
    (hauthor : ticket'.lastMessageAuthor = ticket.lastMessageAuthor)
    (hat : ticket'.lastMessageAt = ticket.lastMessageAt) : Told nm ne ticket' messages events := by
  obtain ⟨⟨hc, ha, hl, hm⟩, hmo, hmb, heo, heb⟩ := h
  refine ⟨⟨?_, ha, ?_, ?_⟩, hmo, hmb, heo, heb⟩
  · rw [hstatus, hclosed]
    exact hc
  · rw [hstatus]
    exact hl
  · rw [hauthor, hat]
    exact hm

/-- Numbers taken from a sequence are in order and come after those below it. -/
theorem numbers_extend {α : Type} {f : α → ℕ} {xs ys : List α} {n : ℕ}
    (hx : xs.Pairwise fun a b => f a < f b) (hb : ∀ a ∈ xs, f a < n)
    (hy : ys.map f = List.range' n ys.length) :
    (xs ++ ys).Pairwise (fun a b => f a < f b) ∧ ∀ a ∈ xs ++ ys, f a < n + ys.length := by
  have hin : ∀ a ∈ ys, n ≤ f a ∧ f a < n + ys.length := by
    intro a ha
    have hmem : f a ∈ List.range' n ys.length := hy ▸ List.mem_map_of_mem ha
    simpa [List.mem_range'_1] using hmem
  refine ⟨List.pairwise_append.2 ⟨hx, ?_, ?_⟩, ?_⟩
  · have hsorted : (ys.map f).Pairwise (· < ·) := by
      rw [hy]
      exact List.pairwise_lt_range'
    exact List.pairwise_map.1 hsorted
  · intro a ha b hb'
    exact lt_of_lt_of_le (hb a ha) (hin b hb').1
  · intro a ha
    rcases List.mem_append.1 ha with ha | ha
    · exact lt_of_lt_of_le (hb a ha) (Nat.le_add_right _ _)
    · exact (hin a ha).2

/-- The rows of a ticket with those of a draft. -/
theorem told_extend {tx : Tx} {messages : List SupportMessage} {events : List SupportEvent} {d : Draft}
    (hmo : messages.Pairwise fun m m' => m.id < m'.id) (hmb : ∀ m ∈ messages, m.id < tx.nextMessage)
    (heo : events.Pairwise fun e e' => e.id < e'.id) (heb : ∀ e ∈ events, e.id < tx.nextEvent)
    (hn : d.Numbered tx) (ho : d.Over messages events) :
    Told (tx.nextMessage + d.messages.length) (tx.nextEvent + d.events.length) d.ticket
      (messages ++ d.messages) (events ++ d.events) := by
  obtain ⟨hmo, hmb⟩ := numbers_extend hmo hmb hn.messages
  obtain ⟨heo, heb⟩ := numbers_extend heo heb hn.events
  exact ⟨ho, hmo, hmb, heo, heb⟩

/-- A flush touches `updated_at` only. -/
theorem flush_cases (d : Draft) (db : Db) (now : Timestamp) :
    d.flush db now = d ∨ d.flush db now = { d with ticket := { d.ticket with updatedAt := now } } := by
  unfold Draft.flush
  split
  · exact .inl rfl
  · split_ifs
    · exact .inl rfl
    · exact .inr rfl

section
variable (d : Draft) (db : Db) (now : Timestamp)

@[simp] theorem flush_messages : (d.flush db now).messages = d.messages := by
  rcases flush_cases d db now with h | h <;> rw [h]

@[simp] theorem flush_events : (d.flush db now).events = d.events := by
  rcases flush_cases d db now with h | h <;> rw [h]

@[simp] theorem flush_id : (d.flush db now).ticket.id = d.ticket.id := by
  rcases flush_cases d db now with h | h <;> rw [h]

@[simp] theorem flush_pubkey : (d.flush db now).ticket.pubkey = d.ticket.pubkey := by
  rcases flush_cases d db now with h | h <;> rw [h]

@[simp] theorem flush_status : (d.flush db now).ticket.status = d.ticket.status := by
  rcases flush_cases d db now with h | h <;> rw [h]

theorem flush_updated {t : SupportTicket} (ht : lockSupportTicket db d.ticket.id = some t) :
    (d.flush db now).ticket = t ∨ (d.flush db now).ticket.updatedAt = now := by
  unfold Draft.flush
  rw [ht]
  dsimp only
  split_ifs with heq
  · exact .inl heq
  · exact .inr rfl

end

theorem Told.flush {nm ne : ℕ} {d : Draft} {messages : List SupportMessage} {events : List SupportEvent}
    (h : Told nm ne d.ticket messages events) (db : Db) (now : Timestamp) :
    Told nm ne (d.flush db now).ticket messages events := by
  rcases flush_cases d db now with heq | heq
  · rw [heq]
    exact h
  · rw [heq]
    exact h.retouch rfl rfl rfl rfl

omit [DecidableEq S] in
/-- One more draft, of a ticket that nobody holds. -/
theorem Store.Sound.push {st : Store S} (h : st.Sound) {p : Pending S} (hfree : st.locked p.id = false)
    (hnew : p.filing.isSome → p.id = st.nextTicket) (hfits : p.Fits st.db)
    (htold : Told (st.nextMessage + p.draft.messages.length) (st.nextEvent + p.draft.events.length)
      p.draft.ticket (messagesOf st.db p.id ++ p.draft.messages) (eventsOf st.db p.id ++ p.draft.events)) :
    (st.push p).Sound := by
  have hle : st.nextTicket ≤ (st.push p).nextTicket := by
    simp only [Store.push]
    split_ifs
    · exact Nat.le_succ _
    · exact le_rfl
  refine ⟨h.nodup, fun t ht => lt_of_lt_of_le (h.below t ht) hle, h.messageOf, h.eventOf,
    fun t ht => (h.rows t ht).mono (Nat.le_add_right _ _) (Nat.le_add_right _ _), ?_, ?_, ?_, ?_⟩
  · refine List.nodup_cons.2 ⟨fun hmem => ?_, h.locks⟩
    obtain ⟨q, hq, heq⟩ := List.mem_map.1 hmem
    rw [Store.locked, List.any_eq_false] at hfree
    exact hfree q hq (by simpa using heq)
  · intro q hq
    rcases List.mem_cons.1 hq with rfl | hq
    · by_cases hf : q.filing.isSome = true
      · simp only [Store.push, hf, if_true, hnew hf]
        exact Nat.lt_succ_self _
      · obtain ⟨t, ht, hid, -⟩ := hfits.held (by simpa using hf)
        rw [← hid]
        exact lt_of_lt_of_le (h.below t ht) hle
    · exact lt_of_lt_of_le (h.pendingBelow q hq) hle
  · intro q hq
    rcases List.mem_cons.1 hq with rfl | hq
    · exact hfits
    · exact h.fits q hq
  · intro q hq
    rcases List.mem_cons.1 hq with rfl | hq
    · exact htold
    · exact (h.drafts q hq).mono (Nat.le_add_right _ _) (Nat.le_add_right _ _)

omit [DecidableEq S] in
theorem locked_eq_false {st : Store S} {id : ℕ} :
    st.locked id = false ↔ ∀ p ∈ st.pending, p.id ≠ id := by
  simp [Store.locked]

/-- An id that no ticket has yet has no rows. -/
theorem messagesOf_fresh {db : Db} {id : ℕ} (hfk : ∀ m ∈ db.messages, ∃ t ∈ db.tickets, t.id = m.ticketId)
    (h : ∀ t ∈ db.tickets, t.id ≠ id) : messagesOf db id = [] := by
  refine List.filter_eq_nil_iff.2 fun m hm => ?_
  obtain ⟨t, ht, heq⟩ := hfk m hm
  simpa [← heq] using h t ht

theorem eventsOf_fresh {db : Db} {id : ℕ} (hfk : ∀ e ∈ db.events, ∃ t ∈ db.tickets, t.id = e.ticketId)
    (h : ∀ t ∈ db.tickets, t.id ≠ id) : eventsOf db id = [] := by
  refine List.filter_eq_nil_iff.2 fun e he => ?_
  obtain ⟨t, ht, heq⟩ := hfk e he
  simpa [← heq] using h t ht

/-- The row of an id. -/
theorem lockSupportTicket_of_mem {db : Db} (hn : (db.tickets.map SupportTicket.id).Nodup)
    {t : SupportTicket} (ht : t ∈ db.tickets) : lockSupportTicket db t.id = some t := by
  unfold lockSupportTicket
  rw [List.find?_eq_some_iff_append]
  obtain ⟨as, bs, hsplit⟩ := List.append_of_mem ht
  refine ⟨by simp, as, bs, hsplit, fun a ha => ?_⟩
  rw [hsplit, List.map_append, List.map_cons] at hn
  have hnot := (List.nodup_cons.1 (List.nodup_middle.1 hn)).1
  have hne : a.id ≠ t.id := fun heq => hnot (List.mem_append_left _ (heq ▸ List.mem_map_of_mem ha))
  simpa using hne

theorem filing_eq_none {settings : Settings} {op : Operation} {id : ℕ} (h : op.ticketId = some id) :
    op.filing settings = none := by
  cases op with
  | createTicket => cases h
  | addUserMessage => rfl
  | resolveTicket => rfl
  | addSupportMessage => rfl
  | closeTicketAsSupport => rfl
  | reopenTicketAsSupport => rfl
  | setTicketCategory => rfl

omit [DecidableEq S] in
theorem busy_ticket {settings : Settings} {st : Store S} {op : Operation} {id : ℕ}
    (h : st.busy settings op = false) (hid : op.ticketId = some id) : st.locked id = false := by
  unfold Store.busy at h
  rw [decide_eq_false_iff_not, not_or] at h
  by_contra hl
  exact h.1 ⟨id, hid, by simpa using hl⟩

omit [DecidableEq S] in
/-- An operation on a ticket that nobody holds. -/
theorem Store.Sound.moved {st : Store S} (h : st.Sound) {ticket : SupportTicket} (ht : ticket ∈ st.db.tickets)
    (hfree : st.locked ticket.id = false) {now utcNow : Timestamp} {d : Draft} (s : S)
    (hd : Moves (st.tx now utcNow) (.of ticket) d) :
    (st.push ⟨s, none, now, d.flush st.db now⟩).Sound := by
  have hnum := hd.numbered (numbered_of _ _)
  have hsame := hd.sameTicket
  have hid : d.ticket.id = ticket.id := hsame.id
  have hrow := h.rows ticket ht
  have hover : d.Over (messagesOf st.db ticket.id) (eventsOf st.db ticket.id) := by
    refine hd.over ?_
    simpa [Draft.Over, Draft.of] using hrow.consistent
  have htold := (told_extend hrow.messageOrder hrow.messageBelow hrow.eventOrder hrow.eventBelow hnum
    hover).flush st.db now
  refine h.push ?_ (fun hf => by cases hf) ⟨?_, ?_, fun hf => (by cases hf), fun _ => ?_⟩ ?_
  · simpa [Pending.id, hid] using hfree
  · simpa [Pending.id] using hnum.messageOf
  · simpa [Pending.id] using hnum.eventOf
  · refine ⟨ticket, ht, by simpa [Pending.id] using hid.symm, by simpa [Draft.of] using hsame.pubkey.symm, ?_⟩
    refine flush_updated d st.db now ?_
    rw [hid]
    exact lockSupportTicket_of_mem h.nodup ht
  · simpa [Pending.id, hid, Store.tx] using htold

omit [DecidableEq S] in
/-- A filing. -/
theorem Store.Sound.filed {st : Store S} (h : st.Sound) {now utcNow : Timestamp} {d : Draft} (s : S) (key : ℤ)
    (hid : d.ticket.id = st.nextTicket) (hnum : d.Numbered (st.tx now utcNow)) (hover : d.Over [] []) :
    (st.push ⟨s, some key, now, d.flush st.db now⟩).Sound := by
  have hfresh : ∀ t ∈ st.db.tickets, t.id ≠ d.ticket.id := by
    intro t ht
    have := h.below t ht
    omega
  have hm := messagesOf_fresh h.messageOf hfresh
  have he := eventsOf_fresh h.eventOf hfresh
  have htold := (told_extend .nil (by simp) .nil (by simp) hnum hover).flush st.db now
  refine h.push ?_ (fun _ => by simpa [Pending.id] using hid) ⟨?_, ?_, fun _ t ht => ?_, fun hf => by cases hf⟩ ?_
  · refine locked_eq_false.2 fun q hq => ?_
    have := h.pendingBelow q hq
    simp only [Pending.id, flush_id] at this ⊢
    omega
  · simpa [Pending.id] using hnum.messageOf
  · simpa [Pending.id] using hnum.eventOf
  · simpa [Pending.id] using hfresh t ht
  · simpa [Pending.id, hm, he, Store.tx] using htold

/-- **A step keeps the invariant.** -/
theorem Change.sound {settings : Settings} {st st' : Store S} {e : Event S} (hc : Change settings st e st')
    (h : st.Sound) : st'.Sound := by
  cases hc with
  | none => exact h
  | execute s op now utcNow d hbusy hd =>
    rcases Operation.draft_cases hd with
      ⟨pubkey, subject, body, category, notifyEmail, diagnostics, reply, rfl, hcreate⟩ | ⟨ticket, ht, hid, hmoves⟩
    · obtain ⟨-, hticket, hnum, hover⟩ := createTicket_ok hcreate
      exact h.filed s _ (by rw [hticket]; rfl) hnum hover
    · rw [filing_eq_none hid]
      exact h.moved ht (busy_ticket hbusy hid) s hmoves
  | clear s now t ht hlocked =>
    refine h.push hlocked (fun hf => by cases hf) ⟨fun m hm => (by cases hm), fun e he => (by cases he),
      fun hf => (by cases hf), fun _ => ⟨t, ht, rfl, rfl, .inr rfl⟩⟩ ?_
    simp only [Draft.of, Pending.id, List.append_nil, List.length_nil, Nat.add_zero]
    exact (h.rows t ht).retouch rfl rfl rfl rfl
  | commit s => exact h.commit s
  | rollback s => exact h.rollback s

omit [DecidableEq S] in
theorem sound_initial : (initial S).store.Sound where
  nodup := .nil
  below t ht := by cases ht
  messageOf m hm := by cases hm
  eventOf e he := by cases he
  rows t ht := by cases ht
  locks := .nil
  pendingBelow p hp := by cases hp
  fits p hp := by cases hp
  drafts p hp := by cases hp

theorem run_sound {settings : Settings} {events : List (Event S)} {st : State S}
    (h : Machine.run (step settings) events (initial S) = some st) : st.store.Sound :=
  Machine.run_inv (I := fun st => st.store.Sound) (P := fun _ => True)
    (fun _ hs hstep => (step_change hstep).sound hs) (fun _ _ => trivial) sound_initial h

end

/-- **A ticket agrees with its history.**  In every interleaving of operations, by any
    actors, of aborted transactions and of the sweep: `closed_at` is set exactly if the
    ticket is closed; its lifecycle is `OPENED`, then `CLOSED` and `REOPENED` in turn,
    ending in `CLOSED` exactly if it is closed; and its last message is the one the row
    names. -/
theorem ticket_consistent {S : Type} [DecidableEq S] (settings : Settings) (events : List (Event S))
    (st : State S) (h : Machine.run (step settings) events (initial S) = some st) :
    ∀ ticket ∈ st.store.db.tickets, Consistent ticket (selectSupportMessages st.store.db ticket.id)
      (selectSupportEvents st.store.db ticket.id) := by
  intro ticket ht
  have hrow := (run_sound h).rows ticket ht
  have hm : selectSupportMessages st.store.db ticket.id = messagesOf st.store.db ticket.id :=
    (hrow.messageOrder.imp le_of_lt).insertionSort_eq
  have he : selectSupportEvents st.store.db ticket.id = eventsOf st.store.db ticket.id :=
    (hrow.eventOrder.imp le_of_lt).insertionSort_eq
  rw [hm, he]
  exact hrow.consistent

/-! ## A run -/

/-- The default cap, and `hashtext('alice')`. -/
def aliceSettings : Settings where
  supportMaxOpenTickets := 5
  hashtext pubkey := if pubkey = "alice" then 791529341 else 0
  whitelistedPubkeys := []

scoped instance neZeroSeconds : NeZero (60 : ℕ) := inferInstance

/-- Some second of a minute. -/
def clock (second : Fin 60) : Timestamp := ⟨2026, 9, 1, 12, 0, second, 0⟩

/-- A request of a user whose policy includes support. -/
def userRequest (s : ℕ) (op : Operation) (second : Fin 60) : List (Event ℕ) :=
  [.start s op (clock second), .check s (some true), .execute s (clock second), .commit s]

/-- A request of the support staff, or one that is not gated. -/
def staffRequest (s : ℕ) (op : Operation) (second : Fin 60) : List (Event ℕ) :=
  [.start s op (clock second), .execute s (clock second), .commit s]

def aliceFiles : Operation := .createTicket "alice" "relay" "it is down" "bug" none none

def closeThenReply : List (Event ℕ) :=
  userRequest 0 aliceFiles 1 ++ staffRequest 1 (.closeTicketAsSupport 1 (some "fixed") "staff") 2 ++
    userRequest 0 (.addUserMessage 1 "alice" "it is not") 3

theorem close_then_reply_consistent : ∃ st, Machine.run (step aliceSettings) closeThenReply (initial ℕ) = some st ∧
    ∃ ticket ∈ st.store.db.tickets, ticket.status = .«open» ∧
      lifecycle (selectSupportEvents st.store.db ticket.id) = [.opened, .closed, .reopened] ∧
      Consistent ticket (selectSupportMessages st.store.db ticket.id)
        (selectSupportEvents st.store.db ticket.id) := by
  have hcheck : ((Machine.run (step aliceSettings) closeThenReply (initial ℕ)).map fun st =>
      decide (∃ ticket ∈ st.store.db.tickets, ticket.status = .«open» ∧
        lifecycle (selectSupportEvents st.store.db ticket.id) = [.opened, .closed, .reopened])) =
      some true := by decide
  obtain ⟨st, hrun, hdec⟩ := Option.map_eq_some_iff.1 hcheck
  obtain ⟨ticket, ht, hopen, hlife⟩ := of_decide_eq_true hdec
  exact ⟨st, hrun, ticket, ht, hopen, hlife, ticket_consistent aliceSettings closeThenReply st hrun ticket ht⟩

end Support

end BrainstormServer
